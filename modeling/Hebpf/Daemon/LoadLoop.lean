import Hebpf.Daemon.Update
import Hebpf.Data.Reconcile

namespace Hebpf.Daemon

open Hebpf.Common Hebpf.Data Hebpf.Ebpf Hebpf.Inotify Loader

variable {σ ω π : Type}

namespace Loader

def loaded (loader : Loader σ π) : Store String (HookType × Int32) :=
  fun soPath => (loader.services.lookup soPath).map fun handle =>
    (handle.hook, handle.ifindex)

abbrev noPart : σ → Unit := fun _ => ()

abbrev Keyed (loader : Loader σ π) : Prop := loader.WellKeyed noPart

theorem loaded_eq_placed (loader : Loader σ π) (soPath : String) :
    loader.loaded soPath =
      (loader.placed noPart soPath).map fun service =>
        (service.hook, service.ifindex) := by
  simp [loaded, placed, Function.comp_def]

theorem placed_eq_none_iff {α : Type} {view : σ → α} {loader : Loader σ π}
    {soPath : String} :
    loader.placed view soPath = none ↔ loader.loaded soPath = none := by
  simp [loaded, placed]

theorem SameServices.loaded {before after : Loader σ π}
    (hsame : SameServices noPart before after) :
    after.loaded = before.loaded := by
  funext soPath
  rw [loaded_eq_placed, loaded_eq_placed, hsame.placed]

theorem SameServices.keyed {before after : Loader σ π}
    (hsame : SameServices noPart before after) (hkeyed : before.Keyed) :
    after.Keyed := by
  intro soPath service hplaced
  exact hkeyed soPath service (hsame.placed soPath ▸ hplaced)

theorem foldl_allocateChain_services (loader : Loader σ π) (hook : HookType)
    (namesIfindex : List (String × Int32)) :
    (namesIfindex.foldl (fun loader pair =>
      (loader.allocateChain hook pair.2).2) loader).services =
        loader.services := by
  induction namesIfindex generalizing loader with
  | nil => rfl
  | cons pair rest ih =>
      rw [List.foldl_cons, ih]
      unfold allocateChain
      cases loader.chain <;> rfl

theorem rebuildChain_services (loader : Loader σ π) (hook : HookType)
    (namesIfindex : List (String × Int32)) :
    (loader.rebuildChain hook namesIfindex).services = loader.services := by
  rw [rebuildChain, ← foldl_allocateChain_services loader hook namesIfindex]
  unfold updateProgChain
  split <;> rfl

theorem rebuildChains_services (sort : List OrderEntry → List OrderEntry)
    (config : EbpfMap) (loader : Loader σ π) :
    (loader.rebuildChains sort config).services = loader.services := by
  unfold rebuildChains
  induction (config.entries.map fun entry => entry.2.hook).dedup
      generalizing loader with
  | nil => rfl
  | cons hook rest ih =>
      rw [List.foldl_cons, ih, rebuildChain_services]

def LoadSucceeds (ops : EbpfIf σ ω π) (env : Env σ ω) (loader : Loader σ π)
    (cfg : ConfigEbpf) : Prop :=
  loader.loaded cfg.lib = none →
    (loader.loadService ops env cfg.lib cfg.hook cfg.ifindex cfg.config).1 =
      .ok true

theorem loadService_of_loaded {ops : EbpfIf σ ω π} {env : Env σ ω}
    {loader : Loader σ π} {soPath : String} {service : σ}
    (hopened : env.opened = .started service)
    {held : HookType × Int32} (hheld : loader.loaded soPath = some held)
    (hook : HookType) (ifindex : Int32) (configPath : String) :
    loader.loadService ops env soPath hook ifindex configPath =
      (.ok false, loader) := by
  obtain ⟨handle, hlookup, -⟩ := Option.map_eq_some_iff.mp hheld
  simp only [loadService, hopened, hlookup]

theorem loadEbpf_snd (ops : EbpfIf σ ω π) (env : Env σ ω)
    (loader : Loader σ π) (cfg : ConfigEbpf) :
    (loader.loadEbpf ops env cfg).2 =
      (loader.loadService ops env cfg.lib cfg.hook cfg.ifindex
        cfg.config).2 := by
  unfold loadEbpf
  generalize loader.loadService ops env cfg.lib cfg.hook cfg.ifindex
    cfg.config = answer
  obtain ⟨result, after⟩ := answer
  cases result <;> rfl

theorem loaded_insert {loader : Loader σ π} {soPath : String}
    (habsent : loader.services.lookup soPath = none)
    (handle : ServiceHandle σ) :
    ({ loader with
      services := loader.services.insert soPath handle }).loaded =
        loader.loaded.put soPath (handle.hook, handle.ifindex) := by
  funext other
  simp only [loaded, Store.put]
  split_ifs with heq
  · subst heq
    simp [habsent]
  · rw [AList.lookup_insert_ne (Ne.symm heq)]

theorem Keyed.insert {loader : Loader σ π} (hkeyed : loader.Keyed)
    {soPath : String} {handle : ServiceHandle σ}
    (hpath : handle.path = soPath) :
    ({ loader with
      services := loader.services.insert soPath handle }).Keyed := by
  intro other service hplaced
  simp only [placed] at hplaced
  by_cases heq : other = soPath
  · subst heq
    rw [AList.lookup_insert, Option.map_some, Option.some.injEq] at hplaced
    rw [← hplaced]
    exact hpath
  · rw [AList.lookup_insert_ne heq] at hplaced
    exact hkeyed other service hplaced

theorem loadService_keyed (ops : EbpfIf σ ω π) (env : Env σ ω)
    {loader : Loader σ π} (hkeyed : loader.Keyed) (soPath : String)
    (hook : HookType) (ifindex : Int32) (configPath : String) :
    (loader.loadService ops env soPath hook ifindex configPath).2.Keyed := by
  rcases loadService_cases ops env loader soPath hook ifindex configPath with
    ⟨hafter, -⟩ | ⟨service, chain, -, -, hafter⟩
  · rw [hafter]
    exact hkeyed
  · rw [hafter]
    exact (@configureLoaded_same σ ω π Unit ops noPart
      (fun _ _ _ _ _ => rfl) env _ soPath hook ifindex configPath).keyed
      (hkeyed.insert rfl)

section Load

variable {ops : EbpfIf σ ω π} {env : Env σ ω} {loader : Loader σ π}
  {cfg : ConfigEbpf}

theorem loadEbpf_of_not_started
    (hopened : ∀ service, env.opened ≠ .started service) :
    ∃ exc, loader.loadEbpf ops env cfg = (.error exc, loader) := by
  unfold loadEbpf loadService
  cases henv : env.opened with
  | started service => exact absurd henv (hopened service)
  | _ => exact ⟨_, rfl⟩

theorem loadEbpf_started {service : σ} (hopened : env.opened = .started service)
    (hkeyed : loader.Keyed) :
    (loader.loadEbpf ops env cfg).2.loaded =
        loader.loaded.put cfg.lib (cfg.hook, cfg.ifindex) ∧
      (loader.loadEbpf ops env cfg).2.Keyed := by
  rw [loadEbpf_snd]
  refine ⟨?_, loadService_keyed ops env hkeyed _ _ _ _⟩
  rcases loadService_cases ops env loader cfg.lib cfg.hook cfg.ifindex
    cfg.config with ⟨hafter, hheld⟩ | ⟨service, chain, -, hlookup, hafter⟩
  · obtain ⟨handle, hlookup⟩ :=
      Option.isSome_iff_exists.mp (hheld service hopened)
    rw [hafter]
    funext other
    simp only [Store.put]
    split_ifs with heq
    · subst heq
      simp [loaded, hlookup]
    · rfl
  · rw [hafter]
    exact (@configureLoaded_same σ ω π Unit ops noPart
      (fun _ _ _ _ _ => rfl) env _ cfg.lib cfg.hook cfg.ifindex
      cfg.config).loaded.trans (loaded_insert hlookup _)

theorem loadEbpf_returns (hkeyed : loader.Keyed)
    (hok : (loader.loadEbpf ops env cfg).1 = .ok ()) :
    (loader.loadEbpf ops env cfg).2.loaded =
        loader.loaded.put cfg.lib (cfg.hook, cfg.ifindex) ∧
      (loader.loadEbpf ops env cfg).2.Keyed := by
  by_cases hopened : ∃ service, env.opened = .started service
  · obtain ⟨service, hopened⟩ := hopened
    exact loadEbpf_started hopened hkeyed
  · obtain ⟨exc, herror⟩ := @loadEbpf_of_not_started σ ω π ops env loader cfg
      (not_exists.mp hopened)
    rw [herror] at hok
    cases hok

theorem loadEbpf_ok (hsucceeds : LoadSucceeds ops env loader cfg)
    {service : σ} (hopened : env.opened = .started service) :
    (loader.loadEbpf ops env cfg).1 = .ok () := by
  unfold loadEbpf
  cases hloaded : loader.loaded cfg.lib with
  | some held => rw [loadService_of_loaded hopened hloaded]
  | none =>
      have htrue := hsucceeds hloaded
      generalize loader.loadService ops env cfg.lib cfg.hook cfg.ifindex
        cfg.config = answer at htrue ⊢
      obtain ⟨result, after⟩ := answer
      cases htrue
      rfl

end Load

theorem unloadEbpf_placed {α : Type} {view : σ → α} {loader : Loader σ π}
    (hkeyed : loader.WellKeyed view) (env : Env σ ω) (soPath : String) :
    (loader.unloadEbpf env soPath).1 = .ok () ∧
      (∀ other, (loader.unloadEbpf env soPath).2.placed view other =
        if soPath = other then none else loader.placed view other) ∧
      (loader.unloadEbpf env soPath).2.chain = loader.chain := by
  obtain ⟨⟨unloaded, hanswer⟩, hplaced, hchain⟩ :=
    unloadServices_spec hkeyed env soPath
  unfold unloadEbpf
  generalize loader.unloadServices env soPath = answer
    at hanswer hplaced hchain ⊢
  obtain ⟨result, after⟩ := answer
  cases hanswer
  exact ⟨rfl, hplaced, hchain⟩

theorem WellKeyed.of_placed {α : Type} {view : σ → α}
    {before after : Loader σ π} (hkeyed : before.WellKeyed view)
    {gone : String → Prop} [DecidablePred gone]
    (hplaced : ∀ soPath, after.placed view soPath =
      if gone soPath then none else before.placed view soPath) :
    after.WellKeyed view := by
  intro soPath service hservice
  rw [hplaced] at hservice
  split_ifs at hservice
  exact hkeyed soPath service hservice

theorem unloadEbpf_loaded {loader : Loader σ π} (hkeyed : loader.Keyed)
    (env : Env σ ω) (soPath : String) :
    (loader.unloadEbpf env soPath).1 = .ok () ∧
      (loader.unloadEbpf env soPath).2.loaded = loader.loaded.drop soPath ∧
      (loader.unloadEbpf env soPath).2.Keyed := by
  obtain ⟨hok, hplaced, -⟩ := unloadEbpf_placed hkeyed env soPath
  refine ⟨hok, ?_, hkeyed.of_placed hplaced⟩
  funext other
  simp only [loaded_eq_placed, hplaced, Store.drop]
  split_ifs <;> rfl

def Reconfigured (current : EbpfMap) (entry : String × ConfigEbpf) : Prop :=
  ∃ held, current.find? entry.1 = some held ∧ place held = place entry.2 ∧
    held.config ≠ entry.2.config

def AcceptsConfig (ops : EbpfIf σ ω π) (env : Env σ ω) (cfg : ConfigEbpf) :
    Prop :=
  cfg.config = "" ∨ env.addWatch = true ∧
    ∀ service, (ops.onConfigUpdate env.outcomes cfg.hook cfg.ifindex
      env.file.json service).1 = .ok ()

theorem registerServiceConfig_ok {ops : EbpfIf σ ω π} {env : Env σ ω}
    {loader : Loader σ π} {cfg : ConfigEbpf}
    (haccepts : AcceptsConfig ops env cfg)
    (hloaded : (loader.loaded cfg.lib).isSome) :
    (loader.registerServiceConfig ops env cfg.lib cfg.hook cfg.ifindex
      cfg.config).1 = .ok () := by
  by_cases hpath : cfg.config = ""
  · unfold registerServiceConfig
    rw [if_pos hpath]
  · obtain ⟨hwatch, hconfig⟩ := haccepts.resolve_left hpath
    obtain ⟨handle, hlookup⟩ :=
      Option.isSome_iff_exists.mp (Option.isSome_map.symm.trans hloaded)
    exact (registerServiceConfig_eq_ok_iff hpath).mpr
      ⟨.inl hwatch, handle, hlookup, hconfig handle.service⟩

theorem reconfigure_same {α : Type} {ops : EbpfIf σ ω π} {view : σ → α}
    (hview : ∀ outcomes hook ifindex config service,
      view (ops.onConfigUpdate outcomes hook ifindex config service).2 =
        view service)
    {env : Env σ ω} {loader : Loader σ π} {held cfg : ConfigEbpf}
    (hlib : held.lib = cfg.lib) (haccepts : AcceptsConfig ops env cfg)
    (hloaded : (loader.loaded cfg.lib).isSome) :
    ∃ after, (loader.unregisterServiceConfig env held.lib held.config).1 =
        .ok () ∧
      (loader.unregisterServiceConfig env held.lib
        held.config).2.registerServiceConfig ops env cfg.lib cfg.hook
          cfg.ifindex cfg.config = (.ok (), after) ∧
      SameServices view loader after := by
  have hsame := unregisterServiceConfig_same view env loader held.lib
    held.config
  have hloadedAfter := congrFun (unregisterServiceConfig_same noPart env
    loader held.lib held.config).loaded cfg.lib
  refine ⟨_, ?_, Prod.ext (registerServiceConfig_ok haccepts
    (hloadedAfter ▸ hloaded)) rfl,
    hsame.trans (registerServiceConfig_same hview env _ _ _ _ _)⟩
  obtain ⟨handle, hlookup⟩ := Option.isSome_iff_exists.mp
    (Option.isSome_map.symm.trans hloaded)
  exact unregisterServiceConfig_ok env (hlib ▸ hlookup) _

def beforeLoad (env : Env σ ω) (current : EbpfMap) (loader : Loader σ π)
    (name : String) (cfg : ConfigEbpf) : Option (Loader σ π) :=
  match current.find? name with
  | none => some loader
  | some held =>
      if place held ≠ place cfg then
        match loader.unloadEbpf env held.lib with
        | (.error _, _) => none
        | (.ok (), loader) => some loader
      else none

def LoadCalls (ops : EbpfIf σ ω π)
    (asked : Env σ ω → Loader σ π → ConfigEbpf → Prop)
    (env : String → Env σ ω) (current : EbpfMap) :
    List (String × ConfigEbpf) → Loader σ π → Prop
  | [], _ => True
  | (name, cfg) :: rest, loader =>
      (∀ before, loader.beforeLoad (env name) current name cfg = some before →
        asked (env name) before cfg) ∧
      match loader.updateEntry ops (env name) current name cfg with
      | (.error _, _) => True
      | (.ok (), loader) => LoadCalls ops asked env current rest loader

section Entry

variable {ops : EbpfIf σ ω π} {env : Env σ ω} {current : EbpfMap}
  {loader : Loader σ π} {name : String} {cfg : ConfigEbpf}

theorem updateEntry_inPlace {held : ConfigEbpf}
    (hfind : current.find? name = some held)
    (hplace : place held = place cfg) (hkeyed : loader.Keyed) :
    (loader.updateEntry ops env current name cfg).2.loaded = loader.loaded ∧
      (loader.updateEntry ops env current name cfg).2.Keyed := by
  unfold updateEntry
  simp only [hfind, hplace, ne_eq, not_true_eq_false, if_false]
  split_ifs
  · exact ⟨rfl, hkeyed⟩
  · have hsame := unregisterServiceConfig_same noPart env loader held.lib
      held.config
    generalize loader.unregisterServiceConfig env held.lib held.config =
      answer at hsame ⊢
    obtain ⟨result, after⟩ := answer
    cases result with
    | error exc => exact ⟨hsame.loaded, hsame.keyed hkeyed⟩
    | ok _ =>
        have hboth := hsame.trans (@registerServiceConfig_same σ ω π Unit ops
          noPart (fun _ _ _ _ _ => rfl) env after cfg.lib cfg.hook cfg.ifindex
          cfg.config)
        exact ⟨hboth.loaded, hboth.keyed hkeyed⟩

theorem updateEntry_returns (hkeyed : loader.Keyed)
    (hok : (loader.updateEntry ops env current name cfg).1 = .ok ()) :
    (loader.updateEntry ops env current name cfg).2.loaded =
        reconcileEntry place current loader.loaded (name, cfg) ∧
      (loader.updateEntry ops env current name cfg).2.Keyed := by
  cases hfind : current.find? name with
  | none =>
      unfold updateEntry reconcileEntry at *
      simp only [hfind] at hok ⊢
      exact loadEbpf_returns hkeyed hok
  | some held =>
      by_cases hplace : place held = place cfg
      · have hentry : reconcileEntry place current loader.loaded (name, cfg) =
            loader.loaded := by
          simp only [reconcileEntry, hfind, hplace, if_true]
        rw [hentry]
        exact updateEntry_inPlace hfind hplace hkeyed
      · unfold updateEntry reconcileEntry at *
        simp only [hfind, hplace, ne_eq, not_false_eq_true, if_true, if_false]
          at hok ⊢
        obtain ⟨hunloaded, hdropped, hkept⟩ :=
          unloadEbpf_loaded hkeyed env held.lib
        generalize loader.unloadEbpf env held.lib = answer
          at hunloaded hdropped hkept hok ⊢
        obtain ⟨result, dropped⟩ := answer
        cases hunloaded
        rw [show (place held).1 = held.lib from rfl, ← hdropped]
        exact loadEbpf_returns hkept hok

theorem updateEntry_loaded
    (hsucceeds : ∀ before,
      loader.beforeLoad env current name cfg = some before →
        LoadSucceeds ops env before cfg)
    (hopens : Takes place current (name, cfg) cfg.lib →
      ∃ service, env.opened = .started service)
    (hconfigured : Reconfigured current (name, cfg) →
      AcceptsConfig ops env cfg ∧ (loader.loaded cfg.lib).isSome)
    (hkeyed : loader.Keyed) :
    (loader.updateEntry ops env current name cfg).1 = .ok () ∧
      (loader.updateEntry ops env current name cfg).2.loaded =
        reconcileEntry place current loader.loaded (name, cfg) ∧
      (loader.updateEntry ops env current name cfg).2.Keyed := by
  have hok : (loader.updateEntry ops env current name cfg).1 = .ok () := by
    unfold updateEntry
    unfold beforeLoad at hsucceeds
    cases hfind : current.find? name with
    | none =>
        simp only [hfind, Option.some.injEq, forall_eq'] at hsucceeds
        have hnew : Takes place current (name, cfg) cfg.lib := by
          refine ⟨fun held hheld => ?_, rfl⟩
          cases hfind.symm.trans hheld
        obtain ⟨service, hopened⟩ := hopens hnew
        exact loadEbpf_ok hsucceeds hopened
    | some held =>
        simp only [hfind] at hsucceeds ⊢
        by_cases hplace : place held = place cfg
        · simp only [hplace, ne_eq, not_true_eq_false, if_false]
          split_ifs with hconfig
          · rfl
          · obtain ⟨haccepts, hloaded⟩ :=
              hconfigured ⟨held, hfind, hplace, hconfig⟩
            obtain ⟨after, hok, hregistered, -⟩ :=
              @reconfigure_same σ ω π Unit ops noPart (fun _ _ _ _ _ => rfl)
                env loader held cfg (congrArg Prod.fst hplace) haccepts hloaded
            generalize loader.unregisterServiceConfig env held.lib
              held.config = answer at hok hregistered ⊢
            obtain ⟨result, unregistered⟩ := answer
            cases hok
            simp only [hregistered]
        · simp only [hplace, ne_eq, not_false_eq_true, if_true]
            at hsucceeds ⊢
          have hok := (unloadEbpf_loaded hkeyed env held.lib).1
          generalize loader.unloadEbpf env held.lib = answer
            at hok hsucceeds ⊢
          obtain ⟨result, dropped⟩ := answer
          cases hok
          simp only [Option.some.injEq, forall_eq'] at hsucceeds
          have hmoved : Takes place current (name, cfg) cfg.lib := by
            refine ⟨fun other hother => ?_, rfl⟩
            cases hfind.symm.trans hother
            exact hplace
          obtain ⟨service, hopened⟩ := hopens hmoved
          exact loadEbpf_ok hsucceeds hopened
  exact ⟨hok, updateEntry_returns hkeyed hok⟩

end Entry

/-- What the update finds outside where no load is at stake: libraries that it
loads can be opened, and files that take the place of others are accepted while
their service is loaded. -/
structure Undisturbed (ops : EbpfIf σ ω π) (env : String → Env σ ω)
    (removed : List String) (current wanted : EbpfMap) : Prop where
  opens : ∀ entry ∈ wanted, Takes place current entry entry.2.lib →
    ∃ service, (env entry.1).opened = .started service
  accepts : ∀ entry ∈ wanted, Reconfigured current entry →
    AcceptsConfig ops (env entry.1) entry.2
  retaken : ∀ entry ∈ wanted, Reconfigured current entry →
    entry.2.lib ∈ removed →
    ∃ taker ∈ wanted, Takes place current taker entry.2.lib ∧
      taker.1 < entry.1
  handedOn : ∀ entry ∈ wanted, Reconfigured current entry →
    ∀ giver ∈ wanted, giver.1 < entry.1 →
    GivesUp place current giver entry.2.lib →
    ∃ taker ∈ wanted, Takes place current taker entry.2.lib ∧
      giver.1 ≤ taker.1 ∧ taker.1 < entry.1

def removedLibs (current config : EbpfMap) : List String :=
  ((withoutSchedulers current).entries.filter fun entry =>
    config.find? entry.1 = none).map fun entry => entry.2.lib

theorem unloadRemoved_placed {α : Type} {view : σ → α}
    (env : String → Env σ ω) (config : EbpfMap)
    (rest : List (String × ConfigEbpf)) {loader : Loader σ π}
    (hkeyed : loader.WellKeyed view) :
    (unloadRemoved env config rest loader).1 = .ok () ∧
      (∀ soPath, (unloadRemoved env config rest loader).2.placed view soPath =
        if soPath ∈ (rest.filter fun entry =>
            config.find? entry.1 = none).map fun entry => entry.2.lib then none
        else loader.placed view soPath) ∧
      (unloadRemoved env config rest loader).2.chain = loader.chain := by
  induction rest generalizing loader with
  | nil => exact ⟨rfl, fun soPath => by simp [unloadRemoved], rfl⟩
  | cons entry rest ih =>
      unfold unloadRemoved
      cases hfind : config.find? entry.1 with
      | some cfg =>
          obtain ⟨hdone, hplaced, hsame⟩ := ih hkeyed
          refine ⟨hdone, fun soPath => ?_, hsame⟩
          rw [hplaced, List.filter_cons_of_neg (by simp [hfind])]
      | none =>
          obtain ⟨hok, hdropped, hchain⟩ :=
            unloadEbpf_placed hkeyed (env entry.1) entry.2.lib
          have hkept := hkeyed.of_placed hdropped
          simp only
          generalize loader.unloadEbpf (env entry.1) entry.2.lib = answer
            at hok hdropped hchain hkept ⊢
          obtain ⟨result, dropped⟩ := answer
          cases hok
          obtain ⟨hdone, hplaced, hsame⟩ := ih hkept
          refine ⟨hdone, fun soPath => ?_, hsame.trans hchain⟩
          rw [hplaced, hdropped, List.filter_cons_of_pos (by simp [hfind]),
            List.map_cons]
          by_cases heq : entry.2.lib = soPath
          · simp [heq]
          · rw [if_neg heq]
            refine if_congr ?_ rfl rfl
            rw [List.mem_cons, or_iff_right (Ne.symm heq)]

theorem unloadRemoved_loaded (env : String → Env σ ω) (config : EbpfMap)
    (rest : List (String × ConfigEbpf)) {loader : Loader σ π}
    (hkeyed : loader.Keyed) :
    (unloadRemoved env config rest loader).1 = .ok () ∧
      (unloadRemoved env config rest loader).2.loaded =
        ((rest.filter fun entry => config.find? entry.1 = none).map
          fun entry => entry.2.lib).foldl Store.drop loader.loaded ∧
      (unloadRemoved env config rest loader).2.Keyed := by
  obtain ⟨hok, hplaced, -⟩ := unloadRemoved_placed env config rest hkeyed
  refine ⟨hok, ?_, hkeyed.of_placed hplaced⟩
  funext soPath
  rw [loaded_eq_placed, hplaced, Store.foldl_drop, loaded_eq_placed]
  split_ifs <;> rfl

section Entries

variable {ops : EbpfIf σ ω π} {env : String → Env σ ω}
  {removed : List String} {current wanted : EbpfMap}
  {start : Store String (HookType × Int32)}

theorem Undisturbed.loaded_isSome
    (hundisturbed : Undisturbed ops env removed current wanted)
    (hstart : ∀ lib value, start lib = some value ↔
      Wants place current lib value)
    {before rest : List (String × ConfigEbpf)} {entry : String × ConfigEbpf}
    (hsplit : wanted.entries = before ++ entry :: rest)
    (hreconfigured : Reconfigured current entry) :
    (before.foldl (reconcileEntry place current)
      (removed.foldl Store.drop start) entry.2.lib).isSome := by
  have hsorted := wanted.sorted
  rw [hsplit] at hsorted
  obtain ⟨hbefore, hafter, -⟩ := List.pairwise_append.mp hsorted
  have hentry : entry ∈ wanted := by
    change entry ∈ wanted.entries
    simp [hsplit]
  -- The entries with smaller names are those the loop has seen.
  have hseen : ∀ taker ∈ wanted, taker.1 < entry.1 → taker ∈ before := by
    intro taker htaker hlt
    have hmem : taker ∈ wanted.entries := htaker
    rw [hsplit] at hmem
    rcases List.mem_append.mp hmem with hmem | hmem
    · exact hmem
    · rcases List.mem_cons.mp hmem with rfl | hmem
      · exact absurd hlt (lt_irrefl _)
      · have hgt := (List.pairwise_cons.mp hafter).1 taker hmem
        exact absurd hlt (not_lt.mpr hgt.le)
  have hlower : ∀ other ∈ before, other.1 < entry.1 := fun other hother =>
    (List.pairwise_append.mp hsorted).2.2 other hother entry (.head _)
  refine foldl_isSome hbefore ?_ ?_
  · by_cases hremoved : entry.2.lib ∈ removed
    · obtain ⟨taker, htaker, htakes, hlt⟩ :=
        hundisturbed.retaken entry hentry hreconfigured hremoved
      exact Or.inr ⟨taker, hseen taker htaker hlt, htakes⟩
    · refine Or.inl ?_
      obtain ⟨held, hfind, hplace, -⟩ := hreconfigured
      have hheld := (hstart entry.2.lib (entry.2.hook, entry.2.ifindex)).mpr
        ⟨(entry.1, held), OrderedMap.find?_eq_some_iff.mp hfind, hplace⟩
      rw [Store.foldl_drop, if_neg hremoved, hheld]
      rfl
  · intro giver hgiver hgives
    have hmem : giver ∈ wanted := by
      change giver ∈ wanted.entries
      simp [hsplit, hgiver]
    obtain ⟨taker, htaker, htakes, hle, hlt⟩ := hundisturbed.handedOn entry
      hentry hreconfigured giver hmem (hlower giver hgiver) hgives
    exact ⟨taker, hseen taker htaker hlt, htakes, hle⟩

theorem updateEntries_loaded
    (hundisturbed : Undisturbed ops env removed current wanted)
    (hstart : ∀ lib value, start lib = some value ↔
      Wants place current lib value)
    (rest before : List (String × ConfigEbpf))
    (hsplit : wanted.entries = before ++ rest) {loader : Loader σ π}
    (hloaded : loader.loaded = before.foldl (reconcileEntry place current)
      (removed.foldl Store.drop start))
    (hsucceed : LoadCalls ops (LoadSucceeds ops) env current rest loader)
    (hkeyed : loader.Keyed) :
    (updateEntries ops env current rest loader).1 = .ok () ∧
      (updateEntries ops env current rest loader).2.loaded =
        wanted.entries.foldl (reconcileEntry place current)
          (removed.foldl Store.drop start) ∧
      (updateEntries ops env current rest loader).2.Keyed := by
  induction rest generalizing before loader with
  | nil => simpa [hsplit, updateEntries] using ⟨hloaded, hkeyed⟩
  | cons entry rest ih =>
      have hentry : entry ∈ wanted := by
        change entry ∈ wanted.entries
        simp [hsplit]
      obtain ⟨hfirst, hrest⟩ := hsucceed
      obtain ⟨hok, hupdated, hkept⟩ := updateEntry_loaded hfirst
        (hundisturbed.opens entry hentry)
        (fun hreconfigured =>
          ⟨hundisturbed.accepts entry hentry hreconfigured, hloaded ▸
            hundisturbed.loaded_isSome hstart hsplit hreconfigured⟩)
        hkeyed
      unfold updateEntries
      generalize loader.updateEntry ops (env entry.1) current entry.1 entry.2 =
        answer at hok hupdated hkept hrest ⊢
      obtain ⟨result, after⟩ := answer
      cases hok
      refine ih (before ++ [entry]) (by simp [hsplit]) ?_ hrest hkept
      rw [List.foldl_append, ← hloaded]
      exact hupdated

end Entries

end Loader

end Hebpf.Daemon
