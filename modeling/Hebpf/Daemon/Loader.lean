import Hebpf.Common.Json
import Hebpf.Ebpf.PinnedProgMap
import Hebpf.Inotify.Manager

namespace Hebpf.Daemon

open Hebpf.Common Hebpf.Data Hebpf.Ebpf Hebpf.Inotify

/-! `Loader`, over services of any type `σ` whose programs are of type `π`.
`ω` is what a service meets in the kernel while it takes a configuration. -/

/-- What the loader uses of a service.  `getMainProg` is `none` for a negative
descriptor. -/
structure EbpfIf (σ ω π : Type) where
  getName : σ → String
  getMainProg : σ → Option π
  onConfigUpdate : ω → HookType → Int32 → Json → σ → Result Unit × σ

/-- What comes of opening a library, creating its service and starting it. -/
inductive Opened (σ : Type) where
  | dlopenFailed (error : String)
  | noFactory
  | noInstance
  | threw (exc : Exception)
  | notStarted
  | started (service : σ)

/-- What reading a configuration file comes to: its document, or what a failed
parse left behind. -/
inductive ParsedFile where
  | document (json : Json)
  | failed (left : Json)

def ParsedFile.json : ParsedFile → Json
  | document json => json
  | failed left => left

/-- The answers one call gets from outside. -/
structure Env (σ ω : Type) where
  opened : Opened σ
  file : ParsedFile
  outcomes : ω
  addWatch : Bool
  removeWatch : Bool

structure ServiceHandle (σ : Type) where
  service : σ
  name : String
  path : String
  config : String
  hook : HookType
  ifindex : Int32

structure ConfigCallback where
  soPath : String
  hook : HookType
  ifindex : Int32
  deriving DecidableEq, Repr

structure Loader (σ π : Type) where
  services : Table String (ServiceHandle σ)
  inotify : InotifyManager ConfigCallback
  chain : Option (PinnedProgMap π)

namespace Loader

variable {σ ω π : Type}

def start (inotify : InotifyManager ConfigCallback)
    (chain : Option (PinnedProgMap π)) : Loader σ π :=
  ⟨∅, inotify, chain⟩

def serviceNotFound : Exception :=
  ⟨"Service not found, MUST BE load service first"⟩

def unregisterServiceConfig (env : Env σ ω) (loader : Loader σ π)
    (soPath configPath : String) : Result Unit × Loader σ π :=
  if configPath = "" then (.ok (), loader)
  else
    let inotify := (loader.inotify.goodbyeConfig env.removeWatch configPath).2
    match loader.services.lookup soPath with
    | none => (.error serviceNotFound, { loader with inotify })
    | some handle =>
        (.ok (), { loader with
          inotify
          services := loader.services.insert soPath
            { handle with config := "" } })

def loadServiceConfigs (ops : EbpfIf σ ω π) (env : Env σ ω)
    (loader : Loader σ π) (soPath : String) (hook : HookType)
    (ifindex : Int32) (confPath : String) : Result Unit × Loader σ π :=
  match loader.services.lookup soPath with
  | none => loader.unregisterServiceConfig env soPath confPath
  | some handle =>
      let (result, service) := ops.onConfigUpdate env.outcomes hook ifindex
        env.file.json handle.service
      (result, { loader with
        services := loader.services.insert soPath { handle with service } })

def registerServiceConfig (ops : EbpfIf σ ω π) (env : Env σ ω)
    (loader : Loader σ π) (soPath : String) (hook : HookType)
    (ifindex : Int32) (configPath : String) : Result Unit × Loader σ π :=
  if configPath = "" then (.ok (), loader)
  else
    match loader.inotify.watchConfig env.addWatch configPath
        ⟨soPath, hook, ifindex⟩ with
    | (false, inotify) =>
        (.error ⟨"Inotify add watch failed"⟩, { loader with inotify })
    | (true, inotify) =>
        match ({ loader with inotify }).loadServiceConfigs ops env soPath hook
            ifindex configPath with
        | (.error exc, loader) => (.error exc, loader)
        | (.ok (), loader) =>
            match loader.services.lookup soPath with
            | none => (.error serviceNotFound, loader)
            | some handle =>
                (.ok (), { loader with
                  services := loader.services.insert soPath
                    { handle with config := configPath } })

def realSoPath (soPath : String) : String :=
  let chars := soPath.toList
  if ';' ∈ chars then
    String.ofList (chars.reverse.dropWhile (· ≠ ';')).tail.reverse
  else soPath

def configureLoaded (ops : EbpfIf σ ω π) (env : Env σ ω)
    (loader : Loader σ π) (soPath : String) (hook : HookType)
    (ifindex : Int32) (configPath : String) : Result Unit × Loader σ π :=
  if realSoPath soPath = SCHEDULER_XDP_LIB ∨
      realSoPath soPath = SCHEDULER_TC_LIB then
    match loader.services.lookup soPath with
    | none => (.ok (), loader)
    | some handle =>
        let (result, service) := ops.onConfigUpdate env.outcomes hook ifindex
          .null handle.service
        (result, { loader with
          services := loader.services.insert soPath { handle with service } })
  else loader.registerServiceConfig ops env (realSoPath soPath) hook ifindex
    configPath

def registerToChain (ops : EbpfIf σ ω π) (loader : Loader σ π)
    (chain : PinnedProgMap π) (soPath serviceName : String) (hook : HookType)
    (ifindex : Int32) : PinnedProgMap π :=
  match (loader.services.lookup soPath).bind fun handle =>
      ops.getMainProg handle.service with
  | none => chain
  | some prog =>
      (chain.insertProg hook (getCanonicalName hook .program serviceName) prog
        ifindex).2

/-- The library is opened and its service started before the path is looked
up. -/
def loadService (ops : EbpfIf σ ω π) (env : Env σ ω) (loader : Loader σ π)
    (soPath : String) (hook : HookType) (ifindex : Int32)
    (configPath : String) : Result Bool × Loader σ π :=
  match env.opened with
  | .dlopenFailed error => (.error ⟨"dlopen() failed: " ++ error⟩, loader)
  | .noFactory =>
      (.error ⟨"Failed to get factory symbols from " ++ realSoPath soPath⟩,
        loader)
  | .noInstance =>
      (.error ⟨"Exported function from " ++ realSoPath soPath ++
        " returned nullptr"⟩, loader)
  | .threw exc => (.error exc, loader)
  | .notStarted =>
      (.error ⟨"Failed to start eBPF service: " ++ realSoPath soPath⟩, loader)
  | .started service =>
      match loader.services.lookup soPath with
      | some _ => (.ok false, loader)
      | none =>
          let name := ops.getName service
          let inserted := { loader with
            services := loader.services.insert soPath
              ⟨service, name, soPath, "", hook, ifindex⟩ }
          match inserted.configureLoaded ops env soPath hook ifindex
              configPath with
          | (.error exc, loader) => (.error exc, loader)
          | (.ok (), loader) =>
              match loader.chain with
              | none => (.ok false, loader)
              | some chain =>
                  (.ok true, { loader with
                    chain := some (loader.registerToChain ops chain soPath name
                      hook ifindex) })

def unloadServices (env : Env σ ω) (loader : Loader σ π) (soPath : String) :
    Result Bool × Loader σ π :=
  match loader.services.lookup soPath with
  | none => (.ok false, loader)
  | some handle =>
      match if handle.config = "" then (.ok (), loader)
        else loader.unregisterServiceConfig env handle.path handle.config with
      | (.error exc, loader) => (.error exc, loader)
      | (.ok (), loader) =>
          (.ok true, { loader with
            services := loader.services.erase soPath })

/-- The start index as a truth value: the first region counts as a failure. -/
def allocateChain (loader : Loader σ π) (hook : HookType) (ifindex : Int32) :
    Bool × Loader σ π :=
  match loader.chain with
  | none => (false, loader)
  | some chain =>
      let (start, chain) := chain.allocateRegion hook ifindex
      (start ≠ 0, { loader with chain := some chain })

def updateProgChain (loader : Loader σ π) (hook : HookType)
    (namesIfindex : List (String × Int32)) : Bool × Loader σ π :=
  match loader.chain with
  | none => (false, loader)
  | some chain =>
      let (updated, chain) := chain.updateChain hook namesIfindex
      (updated, { loader with chain := some chain })

/-! Which services are loaded.  `view` is any part of a service that taking a
configuration leaves alone. -/

structure Placed (α : Type) where
  path : String
  hook : HookType
  ifindex : Int32
  part : α

variable {α : Type}

def placed (view : σ → α) (loader : Loader σ π) (soPath : String) :
    Option (Placed α) :=
  (loader.services.lookup soPath).map fun handle =>
    ⟨handle.path, handle.hook, handle.ifindex, view handle.service⟩

def WellKeyed (view : σ → α) (loader : Loader σ π) : Prop :=
  ∀ soPath service, loader.placed view soPath = some service →
    service.path = soPath

structure SameServices (view : σ → α) (before after : Loader σ π) : Prop where
  placed : ∀ soPath, after.placed view soPath = before.placed view soPath
  chain : after.chain = before.chain

theorem SameServices.refl (view : σ → α) (loader : Loader σ π) :
    SameServices view loader loader := ⟨fun _ => rfl, rfl⟩

theorem SameServices.trans {view : σ → α} {first second third : Loader σ π}
    (hfirst : SameServices view first second)
    (hsecond : SameServices view second third) :
    SameServices view first third where
  placed soPath := (hsecond.placed soPath).trans (hfirst.placed soPath)
  chain := hsecond.chain.trans hfirst.chain

theorem sameServices_insert {view : σ → α} {loader : Loader σ π}
    {soPath : String} {handle changed : ServiceHandle σ}
    (hlookup : loader.services.lookup soPath = some handle)
    (hpath : changed.path = handle.path) (hhook : changed.hook = handle.hook)
    (hifindex : changed.ifindex = handle.ifindex)
    (hview : view changed.service = view handle.service)
    (inotify : InotifyManager ConfigCallback) :
    SameServices view loader
      ⟨loader.services.insert soPath changed, inotify, loader.chain⟩ where
  placed := by
    intro other
    by_cases heq : other = soPath
    · subst heq
      simp [placed, hlookup, hpath, hhook, hifindex, hview]
    · simp [placed, AList.lookup_insert_ne heq]
  chain := rfl

theorem unregisterServiceConfig_same (view : σ → α) (env : Env σ ω)
    (loader : Loader σ π) (soPath configPath : String) :
    SameServices view loader
      (loader.unregisterServiceConfig env soPath configPath).2 := by
  unfold unregisterServiceConfig
  split_ifs
  · exact .refl view loader
  · simp only
    cases hlookup : loader.services.lookup soPath with
    | none => exact ⟨fun _ => rfl, rfl⟩
    | some handle =>
        apply sameServices_insert hlookup <;> rfl

theorem unregisterServiceConfig_ok (env : Env σ ω) {loader : Loader σ π}
    {soPath : String} {handle : ServiceHandle σ}
    (hlookup : loader.services.lookup soPath = some handle)
    (configPath : String) :
    (loader.unregisterServiceConfig env soPath configPath).1 = .ok () := by
  unfold unregisterServiceConfig
  split_ifs
  · rfl
  · simp only [hlookup]

theorem loadServiceConfigs_of_lookup {loader : Loader σ π} {soPath : String}
    {handle : ServiceHandle σ}
    (hlookup : loader.services.lookup soPath = some handle)
    (ops : EbpfIf σ ω π) (env : Env σ ω) (hook : HookType) (ifindex : Int32)
    (confPath : String) :
    let answer := ops.onConfigUpdate env.outcomes hook ifindex env.file.json
      handle.service
    loader.loadServiceConfigs ops env soPath hook ifindex confPath =
      (answer.1, { loader with
        services := loader.services.insert soPath
          { handle with service := answer.2 } }) := by
  simp only [loadServiceConfigs, hlookup]

theorem loadServiceConfigs_eq_ok_iff {ops : EbpfIf σ ω π} {env : Env σ ω}
    {loader : Loader σ π} {soPath : String} {hook : HookType}
    {ifindex : Int32} {confPath : String} (hpath : confPath ≠ "") :
    (loader.loadServiceConfigs ops env soPath hook ifindex confPath).1 =
        .ok () ↔
      ∃ handle, loader.services.lookup soPath = some handle ∧
        (ops.onConfigUpdate env.outcomes hook ifindex env.file.json
          handle.service).1 = .ok () := by
  cases hlookup : loader.services.lookup soPath with
  | none =>
      simp [loadServiceConfigs, unregisterServiceConfig, hpath, hlookup]
  | some handle =>
      rw [loadServiceConfigs_of_lookup hlookup]
      simp

theorem registerServiceConfig_eq_ok_iff {ops : EbpfIf σ ω π} {env : Env σ ω}
    {loader : Loader σ π} {soPath : String} {hook : HookType}
    {ifindex : Int32} {configPath : String} (hpath : configPath ≠ "") :
    (loader.registerServiceConfig ops env soPath hook ifindex configPath).1 =
        .ok () ↔
      (env.addWatch = true ∨
        (loader.inotify.map.lookup (getParentDir configPath)).isSome) ∧
      ∃ handle, loader.services.lookup soPath = some handle ∧
        (ops.onConfigUpdate env.outcomes hook ifindex env.file.json
          handle.service).1 = .ok () := by
  rw [← loader.inotify.watchConfig_eq_true_iff env.addWatch configPath
    ⟨soPath, hook, ifindex⟩]
  unfold registerServiceConfig
  rw [if_neg hpath]
  obtain ⟨watched, inotify⟩ := loader.inotify.watchConfig env.addWatch
    configPath ⟨soPath, hook, ifindex⟩
  cases watched with
  | false => simp
  | true =>
      simp only [true_and]
      have hloads := @loadServiceConfigs_eq_ok_iff σ ω π ops env
        { loader with inotify } soPath hook ifindex configPath hpath
      cases hlookup : loader.services.lookup soPath with
      | none =>
          simp only [hlookup] at hloads
          generalize loadServiceConfigs ops env { loader with inotify } soPath
            hook ifindex configPath = answer at hloads
          obtain ⟨result, after⟩ := answer
          cases result with
          | error exc => simp
          | ok _ => simp at hloads
      | some handle =>
          rw [@loadServiceConfigs_of_lookup σ ω π { loader with inotify } _ _
            hlookup]
          generalize hanswer : ops.onConfigUpdate env.outcomes hook ifindex
            env.file.json handle.service = answer
          obtain ⟨result, service⟩ := answer
          cases result with
          | error exc => simp [hanswer]
          | ok _ => simp [hanswer]

section Configure

variable {ops : EbpfIf σ ω π} {view : σ → α}
  (hview : ∀ outcomes hook ifindex config service,
    view (ops.onConfigUpdate outcomes hook ifindex config service).2 =
      view service)

include hview

theorem loadServiceConfigs_same (env : Env σ ω) (loader : Loader σ π)
    (soPath : String) (hook : HookType) (ifindex : Int32)
    (confPath : String) :
    SameServices view loader
      (loader.loadServiceConfigs ops env soPath hook ifindex confPath).2 := by
  unfold loadServiceConfigs
  cases hlookup : loader.services.lookup soPath with
  | none => exact unregisterServiceConfig_same view env loader soPath confPath
  | some handle =>
      refine sameServices_insert hlookup ?_ ?_ ?_ (hview _ _ _ _ _) _
      all_goals rfl

theorem registerServiceConfig_same (env : Env σ ω) (loader : Loader σ π)
    (soPath : String) (hook : HookType) (ifindex : Int32)
    (configPath : String) :
    SameServices view loader (loader.registerServiceConfig ops env soPath hook
      ifindex configPath).2 := by
  unfold registerServiceConfig
  split_ifs
  · exact .refl view loader
  · obtain ⟨watched, inotify⟩ := loader.inotify.watchConfig env.addWatch
      configPath ⟨soPath, hook, ifindex⟩
    have hwatched : SameServices view loader { loader with inotify } :=
      ⟨fun _ => rfl, rfl⟩
    cases watched with
    | false => exact hwatched
    | true =>
        simp only
        have hloaded := loadServiceConfigs_same hview env
          { loader with inotify } soPath hook ifindex configPath
        have hboth := hwatched.trans hloaded
        generalize loadServiceConfigs ops env { loader with inotify } soPath
          hook ifindex configPath = answer at hboth ⊢
        obtain ⟨result, configured⟩ := answer
        cases result with
        | error exc => exact hboth
        | ok _ =>
            simp only
            cases hlookup : configured.services.lookup soPath with
            | none => exact hboth
            | some handle =>
                refine hboth.trans ?_
                apply sameServices_insert hlookup <;> rfl

theorem configureLoaded_same (env : Env σ ω) (loader : Loader σ π)
    (soPath : String) (hook : HookType) (ifindex : Int32)
    (configPath : String) :
    SameServices view loader (loader.configureLoaded ops env soPath hook
      ifindex configPath).2 := by
  unfold configureLoaded
  split_ifs
  · cases hlookup : loader.services.lookup soPath with
    | none => exact .refl view loader
    | some handle =>
        refine sameServices_insert hlookup ?_ ?_ ?_ (hview _ _ _ _ _) _
        all_goals rfl
  · exact registerServiceConfig_same hview env loader _ hook ifindex configPath

omit hview in
theorem loadService_cases (ops : EbpfIf σ ω π) (env : Env σ ω)
    (loader : Loader σ π) (soPath : String) (hook : HookType)
    (ifindex : Int32) (configPath : String) :
    let after := (loader.loadService ops env soPath hook ifindex configPath).2
    after = loader ∧ (∀ service, env.opened = .started service →
        (loader.services.lookup soPath).isSome) ∨
      ∃ service chain, env.opened = .started service ∧
        loader.services.lookup soPath = none ∧
        after = { (configureLoaded ops env { loader with
            services := loader.services.insert soPath
              ⟨service, ops.getName service, soPath, "", hook, ifindex⟩ }
          soPath hook ifindex configPath).2 with chain } := by
  unfold loadService
  cases env.opened with
  | started service =>
      cases loader.services.lookup soPath with
      | some handle => exact Or.inl ⟨rfl, fun _ _ => rfl⟩
      | none =>
          refine Or.inr ⟨service, ?_⟩
          simp only [true_and]
          generalize configureLoaded ops env _ soPath hook ifindex configPath =
            answer
          obtain ⟨result, services, inotify, chain⟩ := answer
          cases result with
          | error exc => exact ⟨chain, rfl⟩
          | ok _ => cases chain <;> exact ⟨_, rfl⟩
  | _ =>
      refine Or.inl ⟨rfl, fun service hstarted => ?_⟩
      cases hstarted

/-- A successful load adds the service that was started, and its program goes
to the chain as the configured service gives it. -/
theorem loadService_spec {env : Env σ ω} {loader : Loader σ π}
    {soPath : String} {hook : HookType} {ifindex : Int32}
    {configPath : String}
    (hloaded : (loader.loadService ops env soPath hook ifindex configPath).1 =
      .ok true) :
    let after := (loader.loadService ops env soPath hook ifindex configPath).2
    ∃ service chain, env.opened = .started service ∧
      loader.placed view soPath = none ∧ loader.chain = some chain ∧
      (∀ other, after.placed view other =
        if soPath = other then some ⟨soPath, hook, ifindex, view service⟩
        else loader.placed view other) ∧
      after.chain = some (registerToChain ops after chain soPath
        (ops.getName service) hook ifindex) := by
  revert hloaded
  unfold loadService
  cases hopened : env.opened with
  | started service =>
      cases hlookup : loader.services.lookup soPath with
      | some handle => nofun
      | none =>
          simp only
          have hsame := configureLoaded_same hview env
            { loader with
              services := loader.services.insert soPath
                ⟨service, ops.getName service, soPath, "", hook, ifindex⟩ }
            soPath hook ifindex configPath
          generalize configureLoaded ops env _ soPath hook ifindex configPath =
            answer at hsame ⊢
          obtain ⟨result, configured⟩ := answer
          obtain ⟨hplaced, hchain⟩ := hsame
          simp only at hplaced hchain
          cases result with
          | error exc => nofun
          | ok _ =>
              simp only [hchain]
              cases hold : loader.chain with
              | none => nofun
              | some chain =>
                  intro _
                  refine ⟨service, chain, rfl, by simp [placed, hlookup], rfl,
                    fun other => ?_, rfl⟩
                  refine (hplaced other).trans ?_
                  by_cases heq : soPath = other
                  · subst heq
                    simp [placed]
                  · simp [placed, heq, AList.lookup_insert_ne (Ne.symm heq)]
  | _ => nofun

end Configure

theorem WellKeyed.path_eq {view : σ → α} {loader : Loader σ π}
    (hkeyed : loader.WellKeyed view) {soPath : String}
    {handle : ServiceHandle σ}
    (hlookup : loader.services.lookup soPath = some handle) :
    handle.path = soPath :=
  hkeyed soPath ⟨handle.path, handle.hook, handle.ifindex, view handle.service⟩
    (by rw [placed, hlookup, Option.map_some])

theorem unloadServices_of_lookup {loader : Loader σ π} {soPath : String}
    {handle : ServiceHandle σ}
    (hlookup : loader.services.lookup soPath = some handle)
    (hpath : handle.path = soPath) (env : Env σ ω) :
    let unregistered :=
      (loader.unregisterServiceConfig env soPath handle.config).2
    loader.unloadServices env soPath = (.ok true, { unregistered with
      services := unregistered.services.erase soPath }) := by
  have hok := unregisterServiceConfig_ok env hlookup handle.config
  -- Without a configuration there is nothing to unregister.
  have hskipped : (if handle.config = "" then
        ((.ok (), loader) : Result Unit × Loader σ π)
      else loader.unregisterServiceConfig env soPath handle.config) =
      loader.unregisterServiceConfig env soPath handle.config := by
    split_ifs with hconfig
    · simp only [unregisterServiceConfig, hconfig, if_true]
    · rfl
  simp only [unloadServices, hlookup, hpath, hskipped]
  generalize loader.unregisterServiceConfig env soPath handle.config = answer
    at hok ⊢
  obtain ⟨result, after⟩ := answer
  cases hok
  rfl

theorem unloadServices_spec {view : σ → α} {loader : Loader σ π}
    (hkeyed : loader.WellKeyed view) (env : Env σ ω) (soPath : String) :
    let after := (loader.unloadServices env soPath).2
    (∃ unloaded, (loader.unloadServices env soPath).1 = .ok unloaded) ∧
      (∀ other, after.placed view other =
        if soPath = other then none else loader.placed view other) ∧
      after.chain = loader.chain := by
  cases hlookup : loader.services.lookup soPath with
  | none =>
      unfold unloadServices
      rw [hlookup]
      refine ⟨⟨false, rfl⟩, fun other => ?_, rfl⟩
      split_ifs with heq
      · subst heq
        simp [placed, hlookup]
      · rfl
  | some handle =>
      obtain ⟨hplaced, hchain⟩ := unregisterServiceConfig_same view env loader
        soPath handle.config
      rw [unloadServices_of_lookup hlookup (hkeyed.path_eq hlookup)]
      refine ⟨⟨true, rfl⟩, fun other => ?_, hchain⟩
      rw [← hplaced other]
      by_cases hother : soPath = other
      · subst hother
        simp [placed]
      · simp [placed, hother, AList.lookup_erase_ne (Ne.symm hother)]

end Loader

end Hebpf.Daemon
