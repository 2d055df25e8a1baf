import Hebpf.Daemon.FailedLoads
import Hebpf.Daemon.IssuedCalls
import Hebpf.Data.Mirror
import Hebpf.Inotify.Holders

namespace Hebpf.Daemon

open Hebpf.Common Hebpf.Data Hebpf.Ebpf Hebpf.Inotify Session

/-! Which configuration files are watched for a service, and which it records. -/

variable {σ ω π : Type}

def LoaderCall.service : LoaderCall σ ω → Option String
  | .loadService _ soPath _ _ _ => some (Loader.realSoPath soPath)
  | .unloadServices _ soPath => some soPath
  | .registerServiceConfig _ soPath _ _ _ => some soPath
  | .unregisterServiceConfig _ soPath _ => some soPath
  | .allocateChain _ _ => none
  | .updateProgChain _ _ => none

namespace Loader

def watched (loader : Loader σ π) : Store String String :=
  fun path => (loader.inotify.holder path).map ConfigCallback.soPath

def recorded (loader : Loader σ π) : Store String String :=
  fun soPath => (loader.services.lookup soPath).bind fun handle =>
    if handle.config = "" then none else some handle.config

/-- A path has the callback of a service exactly when the service is loaded and
records the path. -/
def Mirrored (loader : Loader σ π) : Prop :=
  Mirrors loader.watched loader.recorded

section Stores

variable {loader : Loader σ π}

theorem recorded_eq_none {soPath : String}
    (hlookup : loader.services.lookup soPath = none) :
    loader.recorded soPath = none := by
  simp [recorded, hlookup]

theorem recorded_insert (soPath : String) (handle : ServiceHandle σ)
    (inotify : InotifyManager ConfigCallback)
    (chain : Option (PinnedProgMap π)) :
    recorded ⟨loader.services.insert soPath handle, inotify, chain⟩ =
      if handle.config = "" then loader.recorded.drop soPath
      else loader.recorded.assign soPath handle.config := by
  funext other
  by_cases heq : soPath = other
  · subst heq
    by_cases hconfig : handle.config = "" <;>
      simp [recorded, Store.drop, Store.assign, hconfig]
  · by_cases hconfig : handle.config = "" <;>
      simp [recorded, Store.drop, Store.assign, hconfig, heq,
        AList.lookup_insert_ne (Ne.symm heq)]

theorem recorded_insert_same {soPath : String}
    {handle changed : ServiceHandle σ}
    (hlookup : loader.services.lookup soPath = some handle)
    (hconfig : changed.config = handle.config)
    (inotify : InotifyManager ConfigCallback)
    (chain : Option (PinnedProgMap π)) :
    recorded ⟨loader.services.insert soPath changed, inotify, chain⟩ =
      loader.recorded := by
  funext other
  by_cases heq : other = soPath
  · subst heq
    simp [recorded, hlookup, hconfig]
  · simp [recorded, AList.lookup_insert_ne heq]

theorem recorded_erase (soPath : String)
    (inotify : InotifyManager ConfigCallback)
    (chain : Option (PinnedProgMap π)) :
    recorded ⟨loader.services.erase soPath, inotify, chain⟩ =
      loader.recorded.drop soPath := by
  funext other
  simp only [recorded, Store.drop]
  split_ifs with heq
  · subst heq
    simp
  · rw [AList.lookup_erase_ne (Ne.symm heq)]

theorem watched_watchConfig (htracked : loader.inotify.Tracked)
    (accepted : Bool) (path : String) (callback : ConfigCallback)
    (services : Table String (ServiceHandle σ))
    (chain : Option (PinnedProgMap π)) :
    watched ⟨services,
        (loader.inotify.watchConfig accepted path callback).2, chain⟩ =
      if (loader.inotify.watchConfig accepted path callback).1 = true then
        loader.watched.put path callback.soPath
      else loader.watched := by
  funext other
  obtain ⟨-, hholder⟩ :=
    InotifyManager.watchConfig_holder htracked accepted path callback
  simp only [watched, hholder]
  split_ifs
  · simp only [Store.put, watched]
    split_ifs
    · rw [Option.map_or]
      rfl
    · rfl
  · rfl

theorem watched_goodbyeConfig (htracked : loader.inotify.Tracked)
    (accepted : Bool) (path : String)
    (services : Table String (ServiceHandle σ))
    (chain : Option (PinnedProgMap π)) :
    watched ⟨services,
        (loader.inotify.goodbyeConfig accepted path).2, chain⟩ =
      if (loader.inotify.goodbyeConfig accepted path).1 = true then
        loader.watched.drop path
      else loader.watched := by
  funext other
  obtain ⟨-, hholder⟩ :=
    InotifyManager.goodbyeConfig_holder htracked accepted path
  simp only [watched, hholder]
  split_ifs
  · simp only [Store.drop]
    split_ifs <;> rfl
  · rfl

end Stores

def Forgets (env : Env σ ω) (inotify : InotifyManager ConfigCallback)
    (configPath : String) : Prop :=
  (inotify.goodbyeConfig env.removeWatch configPath).1 = true

def Unregisters (env : Env σ ω) (loader : Loader σ π)
    (soPath configPath : String) : Prop :=
  configPath = "" ∨
    (Forgets env loader.inotify configPath →
      loader.watched configPath = some soPath ∨
        loader.watched configPath = none ∧ loader.recorded soPath = none) ∧
    (¬ Forgets env loader.inotify configPath →
      loader.recorded soPath = none)

/-- The service is given a path nobody has while it has none, and takes what
the file holds; or it has the path already. -/
def Registers (ops : EbpfIf σ ω π) (env : Env σ ω) (loader : Loader σ π)
    (soPath : String) (hook : HookType) (ifindex : Int32)
    (configPath : String) : Prop :=
  configPath = "" ∨
    match loader.inotify.watchConfig env.addWatch configPath
        ⟨soPath, hook, ifindex⟩ with
    | (false, _) => True
    | (true, inotify) =>
        match loader.services.lookup soPath with
        | none => Forgets env inotify configPath ↔
            loader.watched configPath = none
        | some handle =>
            match (ops.onConfigUpdate env.outcomes hook ifindex env.file.json
                handle.service).1 with
            | .error _ => loader.watched configPath ≠ none
            | .ok () => loader.watched configPath = some soPath ∨
                loader.watched configPath = none ∧
                  loader.recorded soPath = none

/-- What is loaded anew and is no scheduler registers under its path. -/
def Loads (ops : EbpfIf σ ω π) (env : Env σ ω) (loader : Loader σ π)
    (soPath : String) (hook : HookType) (ifindex : Int32)
    (configPath : String) : Prop :=
  ∀ service, env.opened = .started service →
    loader.services.lookup soPath = none →
    realSoPath soPath ≠ SCHEDULER_XDP_LIB →
    realSoPath soPath ≠ SCHEDULER_TC_LIB →
    Registers ops env { loader with
      services := loader.services.insert soPath
        ⟨service, ops.getName service, soPath, "", hook, ifindex⟩ }
      (realSoPath soPath) hook ifindex configPath

def Unloads (env : Env σ ω) (loader : Loader σ π) (soPath : String) : Prop :=
  ∀ configPath, loader.recorded soPath = some configPath →
    Forgets env loader.inotify configPath

section Operations

variable {loader : Loader σ π} (htracked : loader.inotify.Tracked)

include htracked

theorem unregisterServiceConfig_stores (env : Env σ ω) (soPath : String)
    {configPath : String} (hpath : configPath ≠ "") :
    let after := (loader.unregisterServiceConfig env soPath configPath).2
    after.inotify.Tracked ∧
      after.watched =
        (if (loader.inotify.goodbyeConfig env.removeWatch configPath).1 = true
        then loader.watched.drop configPath else loader.watched) ∧
      after.recorded = loader.recorded.drop soPath := by
  have hforgotten := (InotifyManager.goodbyeConfig_holder htracked
    env.removeWatch configPath).1
  have hwatched := watched_goodbyeConfig htracked env.removeWatch configPath
    loader.services loader.chain
  unfold unregisterServiceConfig
  simp only [hpath, if_false]
  cases hlookup : loader.services.lookup soPath with
  | none =>
      refine ⟨hforgotten, hwatched, ?_⟩
      rw [Store.drop_of_eq_none (recorded_eq_none hlookup)]
      rfl
  | some handle =>
      refine ⟨hforgotten, hwatched, ?_⟩
      exact recorded_insert soPath { handle with config := "" } _ _

theorem mirrored_unregisterServiceConfig_iff (hmirrored : loader.Mirrored)
    (env : Env σ ω) (soPath configPath : String) :
    (loader.unregisterServiceConfig env soPath configPath).2.Mirrored ↔
      loader.Unregisters env soPath configPath := by
  unfold Unregisters Forgets
  by_cases hpath : configPath = ""
  · simp only [unregisterServiceConfig, hpath, if_true, true_or, iff_true]
    exact hmirrored
  · obtain ⟨-, hwatched, hrecorded⟩ :=
      unregisterServiceConfig_stores htracked env soPath hpath
    rw [Mirrored, hwatched, hrecorded]
    split_ifs with hforgets
    · rw [Mirrors.drop_drop_iff hmirrored]
      simp [hpath, hforgets]
    · rw [Mirrors.drop_back_iff hmirrored]
      simp [hpath, hforgets]

theorem mirrored_registerServiceConfig_iff (hmirrored : loader.Mirrored)
    (ops : EbpfIf σ ω π) (env : Env σ ω) (soPath : String) (hook : HookType)
    (ifindex : Int32) (configPath : String) :
    (loader.registerServiceConfig ops env soPath hook ifindex
        configPath).2.Mirrored ↔
      loader.Registers ops env soPath hook ifindex configPath := by
  unfold Registers registerServiceConfig
  by_cases hpath : configPath = ""
  · simp only [hpath, if_true, true_or, iff_true]
    exact hmirrored
  simp only [hpath, if_false, false_or]
  obtain ⟨hwatchTracked, -⟩ := InotifyManager.watchConfig_holder htracked
    env.addWatch configPath ⟨soPath, hook, ifindex⟩
  have hwatched := fun services => watched_watchConfig htracked env.addWatch
    configPath ⟨soPath, hook, ifindex⟩ services loader.chain
  generalize loader.inotify.watchConfig env.addWatch configPath
    ⟨soPath, hook, ifindex⟩ = answer at hwatchTracked hwatched ⊢
  obtain ⟨granted, inotify⟩ := answer
  cases granted with
  | false =>
      simp only [Bool.false_eq_true, if_false] at hwatched
      refine iff_true_intro ?_
      rw [Mirrored, hwatched]
      exact hmirrored
  | true =>
      simp only [if_true] at hwatched
      cases hlookup : loader.services.lookup soPath with
      | none =>
          -- There is no service, and the watch is given up again.
          have hforgotten := @watched_goodbyeConfig σ π
            { loader with inotify } hwatchTracked env.removeWatch configPath
            loader.services loader.chain
          rw [hwatched loader.services, Store.drop_put] at hforgotten
          simp only [loadServiceConfigs, unregisterServiceConfig, hpath,
            if_false, hlookup, Forgets]
          rw [Mirrored, hforgotten]
          split_ifs with hforgets
          · rw [iff_true_left hforgets]
            exact Mirrors.drop_forth_iff hmirrored configPath
          · rw [iff_false_left hforgets]
            exact Mirrors.put_forth_iff hmirrored configPath soPath
      | some handle =>
          simp only
          rw [@loadServiceConfigs_of_lookup σ ω π { loader with inotify } _ _
            hlookup]
          generalize ops.onConfigUpdate env.outcomes hook ifindex
            env.file.json handle.service = taken
          obtain ⟨result, service⟩ := taken
          have hsame := recorded_insert_same hlookup
            (show ({ handle with service } : ServiceHandle σ).config =
              handle.config from rfl) inotify loader.chain
          cases result with
          | error exc =>
              simp only
              rw [Mirrored, hwatched, hsame]
              exact Mirrors.put_forth_iff hmirrored configPath soPath
          | ok _ =>
              simp only [AList.lookup_insert]
              have hassigned := @recorded_insert σ π
                ⟨loader.services.insert soPath { handle with service },
                  inotify, loader.chain⟩ soPath
                { handle with service, config := configPath } inotify
                loader.chain
              rw [if_neg hpath, hsame] at hassigned
              rw [Mirrored, hwatched, hassigned]
              exact Mirrors.put_assign_iff hmirrored configPath soPath

theorem mirrored_unloadServices_iff (hkeyed : loader.Keyed)
    (hmirrored : loader.Mirrored) (env : Env σ ω) (soPath : String) :
    (loader.unloadServices env soPath).2.Mirrored ↔
      loader.Unloads env soPath := by
  unfold Unloads Forgets
  cases hlookup : loader.services.lookup soPath with
  | none =>
      simp only [unloadServices, hlookup, recorded_eq_none hlookup]
      refine iff_of_true hmirrored fun configPath hrecorded => ?_
      cases hrecorded
  | some handle =>
      rw [unloadServices_of_lookup hlookup (hkeyed.path_eq hlookup)]
      by_cases hconfig : handle.config = ""
      · have hnone : loader.recorded soPath = none := by
          simp [recorded, hlookup, hconfig]
        simp only [unregisterServiceConfig, hconfig, if_true, hnone]
        refine iff_of_true ?_ (by simp)
        rw [Mirrored, recorded_erase, Store.drop_of_eq_none hnone]
        exact hmirrored
      · have hsome : loader.recorded soPath = some handle.config := by
          simp [recorded, hlookup, hconfig]
        obtain ⟨-, hwatched, hrecorded⟩ := unregisterServiceConfig_stores
          htracked env soPath hconfig
        simp only [hsome, Option.some.injEq, forall_eq']
        generalize (loader.unregisterServiceConfig env soPath
          handle.config).2 = after at hwatched hrecorded ⊢
        have hwatchedErase : watched ⟨after.services.erase soPath,
            after.inotify, after.chain⟩ = after.watched := rfl
        have htwice : (loader.recorded.drop soPath).drop soPath =
            loader.recorded.drop soPath :=
          Store.drop_of_eq_none (by simp [Store.drop])
        rw [Mirrored, recorded_erase, hwatchedErase, hwatched, hrecorded,
          htwice]
        have hpair := (hmirrored handle.config soPath).mpr hsome
        split_ifs with hforgets
        · refine iff_of_true ?_ hforgets
          exact (Mirrors.drop_drop_iff hmirrored _ _).mpr (Or.inl hpair)
        · refine iff_of_false (fun hafter => ?_) hforgets
          have hgone := (Mirrors.drop_back_iff hmirrored soPath).mp hafter
          cases hsome.symm.trans hgone

theorem mirrored_configureLoaded_iff (hmirrored : loader.Mirrored)
    (ops : EbpfIf σ ω π) (env : Env σ ω) (soPath : String) (hook : HookType)
    (ifindex : Int32) (configPath : String) :
    (loader.configureLoaded ops env soPath hook ifindex
        configPath).2.Mirrored ↔
      (realSoPath soPath ≠ SCHEDULER_XDP_LIB →
        realSoPath soPath ≠ SCHEDULER_TC_LIB →
        loader.Registers ops env (realSoPath soPath) hook ifindex
          configPath) := by
  rw [← and_imp, ← not_or]
  unfold configureLoaded
  split_ifs with hscheduler
  · refine iff_of_true ?_ fun hnot => absurd hscheduler hnot
    cases hlookup : loader.services.lookup soPath with
    | none => exact hmirrored
    | some handle =>
        have hsame := @recorded_insert_same σ π loader soPath handle
          { handle with service := (ops.onConfigUpdate env.outcomes hook
              ifindex .null handle.service).2 }
          hlookup rfl loader.inotify loader.chain
        exact (congrArg (Mirrors loader.watched) hsame).mpr hmirrored
  · rw [mirrored_registerServiceConfig_iff htracked hmirrored]
    exact ⟨fun hregisters _ => hregisters, fun himp => himp hscheduler⟩

theorem mirrored_loadService_iff (hmirrored : loader.Mirrored)
    (ops : EbpfIf σ ω π) (env : Env σ ω) (soPath : String) (hook : HookType)
    (ifindex : Int32) (configPath : String) :
    (loader.loadService ops env soPath hook ifindex configPath).2.Mirrored ↔
      loader.Loads ops env soPath hook ifindex configPath := by
  unfold Loads
  rcases loadService_cases ops env loader soPath hook ifindex configPath with
    ⟨hafter, hheld⟩ | ⟨service, chain, hopened, hlookup, hafter⟩
  · rw [hafter]
    refine iff_of_true hmirrored fun service hopened habsent => ?_
    have hsome := hheld service hopened
    rw [habsent] at hsome
    cases hsome
  · have hinserted : Mirrored { loader with
        services := loader.services.insert soPath
          ⟨service, ops.getName service, soPath, "", hook, ifindex⟩ } := by
      rw [Mirrored, recorded_insert, if_pos rfl,
        Store.drop_of_eq_none (recorded_eq_none hlookup)]
      exact hmirrored
    rw [hafter, hopened]
    simp only [Opened.started.injEq, forall_eq', hlookup, true_imp_iff]
    exact @mirrored_configureLoaded_iff σ ω π { loader with
        services := loader.services.insert soPath
          ⟨service, ops.getName service, soPath, "", hook, ifindex⟩ }
      htracked hinserted ops env soPath hook ifindex configPath

end Operations

structure Touches (service : Option String) (before after : Loader σ π) :
    Prop where
  tracked : before.inotify.Tracked → after.inotify.Tracked
  recorded : ∀ other, service ≠ some other →
    after.recorded other = before.recorded other

theorem Touches.refl (service : Option String) (loader : Loader σ π) :
    Touches service loader loader := ⟨id, fun _ _ => rfl⟩

theorem Touches.trans {service : Option String}
    {first second third : Loader σ π} (hfirst : Touches service first second)
    (hsecond : Touches service second third) :
    Touches service first third where
  tracked := hsecond.tracked ∘ hfirst.tracked
  recorded other hne :=
    (hsecond.recorded other hne).trans (hfirst.recorded other hne)

theorem touches_watchConfig (service : Option String) (loader : Loader σ π)
    (accepted : Bool) (path : String) (callback : ConfigCallback) :
    Touches service loader { loader with
      inotify := (loader.inotify.watchConfig accepted path callback).2 } where
  tracked htracked :=
    (InotifyManager.watchConfig_holder htracked accepted path callback).1
  recorded _ _ := rfl

theorem touches_goodbyeConfig (service : Option String) (loader : Loader σ π)
    (accepted : Bool) (path : String) :
    Touches service loader { loader with
      inotify := (loader.inotify.goodbyeConfig accepted path).2 } where
  tracked htracked :=
    (InotifyManager.goodbyeConfig_holder htracked accepted path).1
  recorded _ _ := rfl

theorem touches_insert (loader : Loader σ π) (soPath : String)
    (handle : ServiceHandle σ) :
    Touches (some soPath) loader { loader with
      services := loader.services.insert soPath handle } where
  tracked := id
  recorded other hne := by
    have hother : other ≠ soPath := fun heq => hne (congrArg some heq.symm)
    simp only [Loader.recorded, AList.lookup_insert_ne hother]

theorem unregisterServiceConfig_touches (env : Env σ ω)
    (loader : Loader σ π) (soPath configPath : String) :
    Touches (some soPath) loader
      (loader.unregisterServiceConfig env soPath configPath).2 := by
  unfold unregisterServiceConfig
  split_ifs
  · exact .refl _ loader
  · have hforgotten := touches_goodbyeConfig (some soPath) loader
      env.removeWatch configPath
    simp only
    cases loader.services.lookup soPath with
    | none => exact hforgotten
    | some handle => exact hforgotten.trans (touches_insert _ soPath _)

theorem loadServiceConfigs_touches (ops : EbpfIf σ ω π) (env : Env σ ω)
    (loader : Loader σ π) (soPath : String) (hook : HookType)
    (ifindex : Int32) (confPath : String) :
    Touches (some soPath) loader
      (loader.loadServiceConfigs ops env soPath hook ifindex confPath).2 := by
  unfold loadServiceConfigs
  cases loader.services.lookup soPath with
  | none => exact unregisterServiceConfig_touches env loader soPath confPath
  | some handle => exact touches_insert loader soPath _

theorem registerServiceConfig_touches (ops : EbpfIf σ ω π) (env : Env σ ω)
    (loader : Loader σ π) (soPath : String) (hook : HookType)
    (ifindex : Int32) (configPath : String) :
    Touches (some soPath) loader (loader.registerServiceConfig ops env soPath
      hook ifindex configPath).2 := by
  unfold registerServiceConfig
  split_ifs
  · exact .refl _ loader
  · have hwatched := touches_watchConfig (some soPath) loader env.addWatch
      configPath ⟨soPath, hook, ifindex⟩
    generalize loader.inotify.watchConfig env.addWatch configPath
      ⟨soPath, hook, ifindex⟩ = answer at hwatched ⊢
    obtain ⟨granted, inotify⟩ := answer
    cases granted with
    | false => exact hwatched
    | true =>
        have hboth := hwatched.trans (loadServiceConfigs_touches ops env
          { loader with inotify } soPath hook ifindex configPath)
        simp only
        generalize loadServiceConfigs ops env { loader with inotify } soPath
          hook ifindex configPath = answer at hboth ⊢
        obtain ⟨result, configured⟩ := answer
        cases result with
        | error exc => exact hboth
        | ok _ =>
            simp only
            cases configured.services.lookup soPath with
            | none => exact hboth
            | some handle => exact hboth.trans (touches_insert _ soPath _)

theorem configureLoaded_touches (ops : EbpfIf σ ω π) (env : Env σ ω)
    (loader : Loader σ π) (soPath : String) (hook : HookType)
    (ifindex : Int32) (configPath : String) :
    Touches (some (realSoPath soPath)) loader (loader.configureLoaded ops env
      soPath hook ifindex configPath).2 := by
  unfold configureLoaded
  split_ifs
  · cases hlookup : loader.services.lookup soPath with
    | none => exact .refl _ loader
    | some handle =>
        have hsame := @recorded_insert_same σ π loader soPath handle
          { handle with service := (ops.onConfigUpdate env.outcomes hook
              ifindex .null handle.service).2 }
          hlookup rfl loader.inotify loader.chain
        exact ⟨id, fun other _ => congrFun hsame other⟩
  · exact registerServiceConfig_touches ops env loader _ hook ifindex
      configPath

theorem loadService_touches (ops : EbpfIf σ ω π) (env : Env σ ω)
    (loader : Loader σ π) (soPath : String) (hook : HookType)
    (ifindex : Int32) (configPath : String) :
    Touches (some (realSoPath soPath)) loader (loader.loadService ops env
      soPath hook ifindex configPath).2 := by
  rcases loadService_cases ops env loader soPath hook ifindex configPath with
    ⟨hafter, -⟩ | ⟨service, chain, -, hlookup, hafter⟩
  · rw [hafter]
    exact .refl _ loader
  · have hinserted : Touches (some (realSoPath soPath)) loader { loader with
        services := loader.services.insert soPath
          ⟨service, ops.getName service, soPath, "", hook, ifindex⟩ } := by
      refine ⟨id, fun other _ => ?_⟩
      rw [recorded_insert, if_pos rfl,
        Store.drop_of_eq_none (recorded_eq_none hlookup)]
    obtain ⟨htracked, hrecorded⟩ := hinserted.trans
      (configureLoaded_touches ops env _ soPath hook ifindex configPath)
    rw [hafter]
    exact ⟨htracked, hrecorded⟩

theorem unloadServices_touches (env : Env σ ω) {loader : Loader σ π}
    (hkeyed : loader.Keyed) (soPath : String) :
    Touches (some soPath) loader (loader.unloadServices env soPath).2 := by
  cases hlookup : loader.services.lookup soPath with
  | none =>
      simp only [unloadServices, hlookup]
      exact .refl _ loader
  | some handle =>
      rw [unloadServices_of_lookup hlookup (hkeyed.path_eq hlookup)]
      refine (unregisterServiceConfig_touches env loader soPath
        handle.config).trans ⟨id, fun other hne => ?_⟩
      rw [recorded_erase, Store.drop, if_neg fun heq => hne (congrArg some heq)]

def KeepsOthers (ops : EbpfIf σ ω π) (loader : Loader σ π)
    (called : LoaderCall σ ω) : Prop :=
  ∀ path other, called.service ≠ some other →
    loader.watched path = some other →
    (loader.call ops called).watched path = some other

def Respects (ops : EbpfIf σ ω π) (loader : Loader σ π) :
    LoaderCall σ ω → Prop
  | .loadService env soPath hook ifindex configPath =>
      loader.Loads ops env soPath hook ifindex configPath
  | .unloadServices env soPath => loader.Unloads env soPath
  | .registerServiceConfig env soPath hook ifindex configPath =>
      loader.Registers ops env soPath hook ifindex configPath
  | .unregisterServiceConfig env soPath configPath =>
      loader.Unregisters env soPath configPath
  | .allocateChain _ _ => True
  | .updateProgChain _ _ => True

structure InLine (loader : Loader σ π) : Prop where
  mirrored : loader.Mirrored
  tracked : loader.inotify.Tracked
  keyed : loader.Keyed

theorem start_inLine (chain : Option (PinnedProgMap π)) :
    (start .start chain : Loader σ π).InLine where
  mirrored _ _ := by simp [watched, recorded, start, InotifyManager.holder,
    InotifyManager.start, InotifyManager.findWatchInfo, InotifyManager.infos]
  tracked := InotifyManager.start_tracked
  keyed := nofun

section Call

variable (ops : EbpfIf σ ω π) {loader : Loader σ π}
  (called : LoaderCall σ ω)

theorem call_touches (hkeyed : loader.Keyed) :
    Touches called.service loader (loader.call ops called) := by
  cases called with
  | loadService env soPath hook ifindex configPath =>
      exact loadService_touches ops env loader soPath hook ifindex configPath
  | unloadServices env soPath => exact unloadServices_touches env hkeyed soPath
  | registerServiceConfig env soPath hook ifindex configPath =>
      exact registerServiceConfig_touches ops env loader soPath hook ifindex
        configPath
  | unregisterServiceConfig env soPath configPath =>
      exact unregisterServiceConfig_touches env loader soPath configPath
  | allocateChain hook ifindex =>
      unfold call allocateChain
      cases loader.chain <;> exact ⟨id, fun _ _ => rfl⟩
  | updateProgChain hook namesIfindex =>
      unfold call updateProgChain
      cases loader.chain <;> exact ⟨id, fun _ _ => rfl⟩

theorem call_keyed (hkeyed : loader.Keyed) :
    (loader.call ops called).Keyed := by
  cases called with
  | loadService env soPath hook ifindex configPath =>
      exact loadService_keyed ops env hkeyed soPath hook ifindex configPath
  | unloadServices env soPath =>
      exact hkeyed.of_placed (unloadServices_spec hkeyed env soPath).2.1
  | registerServiceConfig env soPath hook ifindex configPath =>
      exact (registerServiceConfig_same (fun _ _ _ _ _ => rfl) env loader
        soPath hook ifindex configPath).keyed hkeyed
  | unregisterServiceConfig env soPath configPath =>
      exact (unregisterServiceConfig_same noPart env loader soPath
        configPath).keyed hkeyed
  | allocateChain hook ifindex =>
      unfold call allocateChain
      cases loader.chain <;> exact hkeyed
  | updateProgChain hook namesIfindex =>
      unfold call updateProgChain
      cases loader.chain <;> exact hkeyed

theorem InLine.mirrored_call_iff (hinLine : loader.InLine) :
    (loader.call ops called).Mirrored ↔ loader.Respects ops called := by
  obtain ⟨hmirrored, htracked, hkeyed⟩ := hinLine
  cases called with
  | loadService env soPath hook ifindex configPath =>
      exact mirrored_loadService_iff htracked hmirrored ops env soPath hook
        ifindex configPath
  | unloadServices env soPath =>
      exact mirrored_unloadServices_iff htracked hkeyed hmirrored env soPath
  | registerServiceConfig env soPath hook ifindex configPath =>
      exact mirrored_registerServiceConfig_iff htracked hmirrored ops env
        soPath hook ifindex configPath
  | unregisterServiceConfig env soPath configPath =>
      exact mirrored_unregisterServiceConfig_iff htracked hmirrored env soPath
        configPath
  | allocateChain hook ifindex =>
      refine iff_of_true ?_ trivial
      unfold call allocateChain
      cases loader.chain <;> exact hmirrored
  | updateProgChain hook namesIfindex =>
      refine iff_of_true ?_ trivial
      unfold call updateProgChain
      cases loader.chain <;> exact hmirrored

theorem InLine.call (hinLine : loader.InLine)
    (hrespects : loader.Respects ops called) :
    (loader.call ops called).InLine where
  mirrored := (hinLine.mirrored_call_iff ops called).mpr hrespects
  tracked := (call_touches ops called hinLine.keyed).tracked hinLine.tracked
  keyed := call_keyed ops called hinLine.keyed

theorem InLine.keepsOthers (hinLine : loader.InLine)
    (hrespects : loader.Respects ops called) :
    loader.KeepsOthers ops called := by
  intro path other hother hwatched
  have hrecorded := (hinLine.mirrored path other).mp hwatched
  refine ((hinLine.call ops called hrespects).mirrored path other).mpr ?_
  rw [(call_touches ops called hinLine.keyed).recorded other hother]
  exact hrecorded

end Call

end Loader

namespace DaemonState

/-- Throughout the calls that updates make, a path has the callback of a
service exactly when the service records it, and no call takes a path from
another service, if and only if every call meets its condition. -/
theorem mirrored_throughout_iff (ops : EbpfIf σ ω π)
    (sort : List OrderEntry → List OrderEntry)
    (chain : Option (PinnedProgMap π)) (inputs : List (UpdateInput σ ω)) :
    let daemon : DaemonState σ π := .start .start chain
    let calls := daemon.allCalls ops sort inputs
    run (Loader.call ops) daemon.loader calls =
        (run (fun daemon input => (daemon.update ops sort input).2) daemon
          inputs).loader ∧
      (Throughout (Loader.call ops) Loader.Mirrored daemon.loader calls ∧
          StepsMeet (Loader.call ops) (Loader.KeepsOthers ops) daemon.loader
            calls ↔
        StepsMeet (Loader.call ops) (Loader.Respects ops) daemon.loader
          calls) := by
  intro daemon calls
  refine ⟨run_allCalls ops sort daemon inputs, ?_⟩
  have hrule := @throughout_iff_stepsMeet _ _ (Loader.call ops)
    (Loader.Respects ops) Loader.InLine Loader.Mirrored
    (fun _ hinLine => hinLine.mirrored)
    (fun _ called hinLine hrespects => hinLine.call ops called hrespects)
    (fun _ called hinLine hnot hafter =>
      hnot ((hinLine.mirrored_call_iff ops called).mp hafter))
    daemon.loader calls (Loader.start_inLine chain)
  rw [hrule, and_iff_left_iff_imp]
  exact StepsMeet.imp_of_invariant
    (fun _ called hinLine hrespects => hinLine.call ops called hrespects)
    (fun _ called hinLine hrespects => hinLine.keepsOthers ops called hrespects)
    (Loader.start_inLine chain)

def aclWith (config : String) : ConfigEbpf :=
  ⟨"libhebpf_acl.so", config, .xdpGeneric, 11, 1⟩

def lbWith (config : String) : ConfigEbpf :=
  ⟨"libhebpf_lb_xdp.so", config, .xdpGeneric, 11, 2⟩

def bothWith (acl lb : String) : UpdateInput Program Unit where
  config := ⟨[("acl11", aclWith acl), ("lb11", lbWith lb)],
    List.pairwise_pair.mpr (show "acl11" < "lb11" by decide)⟩
  env _ := opening ⟨"program", 3⟩

def aclAlone : UpdateInput Program Unit where
  config := ⟨[("acl11", aclWith "/etc/a.json")], by decide⟩
  env _ := opening ⟨"program", 3⟩

theorem not_mirrored_exchanged :
    ¬ Throughout (Loader.call programOps) Loader.Mirrored
        (Loader.start .start (some (.init defaultProgMap)))
        (allCalls programOps sortByOrder
          (start .start (some (.init defaultProgMap)))
          [bothWith "/etc/a.json" "/etc/b.json",
            bothWith "/etc/b.json" "/etc/a.json"]) ∧
      ¬ StepsMeet (Loader.call programOps) (Loader.KeepsOthers programOps)
        (Loader.start .start (some (.init defaultProgMap)))
        (allCalls programOps sortByOrder
          (start .start (some (.init defaultProgMap)))
          [bothWith "/etc/a.json" "/etc/a.json", aclAlone]) := by
  constructor
  · intro hall
    exact absurd (hall.last "/etc/b.json" "libhebpf_acl.so") (by decide)
  · rintro ⟨-, -, -, -, -, -, -, -, hkeeps, -⟩
    have hkept := hkeeps "/etc/a.json" "libhebpf_acl.so"
    revert hkept
    decide

end DaemonState

end Hebpf.Daemon
