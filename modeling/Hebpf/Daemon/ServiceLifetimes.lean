import Hebpf.Daemon.LoadedServices
import Hebpf.Data.Lifetime
import Hebpf.Data.Run

namespace Hebpf.Daemon

open Hebpf.Common Hebpf.Data Hebpf.Ebpf Hebpf.Inotify Loader

/-! What becomes of the services a loader starts, until its destructor has
run. -/

variable {σ ω π : Type}

def EbpfIf.numbered (ops : EbpfIf σ ω π) : EbpfIf (Nat × σ) ω π where
  getName service := ops.getName service.2
  getMainProg service := ops.getMainProg service.2
  onConfigUpdate outcomes hook ifindex config service :=
    let (result, after) := ops.onConfigUpdate outcomes hook ifindex config
      service.2
    (result, (service.1, after))

def Opened.numbered (n : Nat) : Opened σ → Opened (Nat × σ)
  | .dlopenFailed error => .dlopenFailed error
  | .noFactory => .noFactory
  | .noInstance => .noInstance
  | .threw exc => .threw exc
  | .notStarted => .notStarted
  | .started service => .started (n, service)

def Env.numbered (n : Nat) (env : Env σ ω) : Env (Nat × σ) ω :=
  ⟨env.opened.numbered n, env.file, env.outcomes, env.addWatch,
    env.removeWatch⟩

namespace Loader

/-- What befalls the instance that `loadService` creates: without a place in
the table it goes out of scope. -/
def loadServiceEvents (env : Env (Nat × σ) ω) (loader : Loader (Nat × σ) π)
    (soPath : String) : LifeLog :=
  match env.opened with
  | .started service =>
      match loader.services.lookup soPath with
      | some _ => befalls service.1 [.started, .destroyed]
      | none => befalls service.1 [.started]
  | _ => []

def unloadServicesEvents (env : Env (Nat × σ) ω) (loader : Loader (Nat × σ) π)
    (soPath : String) : LifeLog :=
  match loader.services.lookup soPath, (loader.unloadServices env soPath).1 with
  | some handle, .ok true => befalls handle.service.1 [.stopped, .destroyed]
  | _, _ => []

def clearEvents (services : Table String (ServiceHandle (Nat × σ))) : LifeLog :=
  services.entries.flatMap fun entry =>
    befalls entry.2.service.1 [.stopped, .destroyed]

/-- `clear` goes over a table of its own that is empty; the services go with
the loader's members. -/
def destructorEvents (loader : Loader (Nat × σ) π) : LifeLog :=
  clearEvents (∅ : Table String (ServiceHandle (Nat × σ))) ++
    loader.services.entries.flatMap fun entry =>
      befalls entry.2.service.1 [.destroyed]

end Loader

/-- A call, and what the managers the loader shares with others hold when it is
made. -/
structure LifetimeCall (σ ω π : Type) where
  inotify : InotifyManager ConfigCallback
  chain : Option (PinnedProgMap π)
  env : Env σ ω
  soPath : String
  /-- The other arguments of a load. -/
  loads : Option (HookType × Int32 × String)

/-- A loader with the log of its instances, each known by the number of the
call it was created in. -/
structure Lifetimes (σ π : Type) where
  loader : Loader (Nat × σ) π
  calls : Nat
  log : LifeLog

namespace Lifetimes

def start (inotify : InotifyManager ConfigCallback)
    (chain : Option (PinnedProgMap π)) : Lifetimes σ π :=
  ⟨.start inotify chain, 0, []⟩

def loaderAt (lifetimes : Lifetimes σ π) (input : LifetimeCall σ ω π) :
    Loader (Nat × σ) π :=
  ⟨lifetimes.loader.services, input.inotify, input.chain⟩

def call (ops : EbpfIf σ ω π) (lifetimes : Lifetimes σ π)
    (input : LifetimeCall σ ω π) : Lifetimes σ π :=
  let loader := lifetimes.loaderAt input
  let env := input.env.numbered lifetimes.calls
  match input.loads with
  | some (hook, ifindex, configPath) =>
      ⟨(loader.loadService ops.numbered env input.soPath hook ifindex
          configPath).2,
        lifetimes.calls + 1,
        lifetimes.log ++ loader.loadServiceEvents env input.soPath⟩
  | none =>
      ⟨(loader.unloadServices env input.soPath).2,
        lifetimes.calls + 1,
        lifetimes.log ++ loader.unloadServicesEvents env input.soPath⟩

def ended (lifetimes : Lifetimes σ π) : LifeLog :=
  lifetimes.log ++ lifetimes.loader.destructorEvents

def held (lifetimes : Lifetimes σ π) (soPath : String) : Option Nat :=
  (lifetimes.loader.services.lookup soPath).map fun handle => handle.service.1

def StartsUnderFreePath (lifetimes : Lifetimes σ π)
    (input : LifetimeCall σ ω π) : Prop :=
  input.loads.isSome → ∀ service, input.env.opened = .started service →
    lifetimes.loader.services.lookup input.soPath = none

structure Ordered (lifetimes : Lifetimes σ π) : Prop where
  keyed : lifetimes.loader.WellKeyed Prod.fst
  holds : Holds lifetimes.held lifetimes.calls lifetimes.log

theorem start_ordered (inotify : InotifyManager ConfigCallback)
    (chain : Option (PinnedProgMap π)) :
    (start inotify chain : Lifetimes σ π).Ordered where
  keyed soPath service hplaced := by cases hplaced
  holds := .start

theorem held_eq_placed (lifetimes : Lifetimes σ π) (soPath : String) :
    lifetimes.held soPath =
      (lifetimes.loader.placed Prod.fst soPath).map Placed.part := by
  simp [held, placed, Function.comp_def]

theorem loadService_placed {ops : EbpfIf σ ω π} {env : Env (Nat × σ) ω}
    {loader : Loader (Nat × σ) π} {soPath : String} {service : Nat × σ}
    (hopened : env.opened = .started service)
    (hfree : loader.services.lookup soPath = none) (hook : HookType)
    (ifindex : Int32) (configPath other : String) :
    (loader.loadService ops.numbered env soPath hook ifindex
        configPath).2.placed Prod.fst other =
      if other = soPath then some ⟨soPath, hook, ifindex, service.1⟩
      else loader.placed Prod.fst other := by
  rcases loadService_cases ops.numbered env loader soPath hook ifindex
    configPath with ⟨-, hloaded⟩ | ⟨opened, chain, hstarted, -, hafter⟩
  · have hsome := hloaded service hopened
    rw [hfree] at hsome
    cases hsome
  · have hsame : opened = service :=
      Opened.started.inj (hstarted.symm.trans hopened)
    subst hsame
    rw [hafter]
    refine ((@configureLoaded_same _ ω π Nat ops.numbered Prod.fst
      (fun _ _ _ _ _ => rfl) env _ soPath hook ifindex
      configPath).placed other).trans ?_
    split_ifs with heq
    · subst heq
      simp [placed]
    · simp [placed, AList.lookup_insert_ne heq]

section Call

variable {ops : EbpfIf σ ω π} {lifetimes : Lifetimes σ π}
  {input : LifetimeCall σ ω π}

theorem call_started_loaded (hordered : lifetimes.Ordered)
    (hloads : input.loads.isSome) {service : σ}
    (hopened : input.env.opened = .started service)
    {handle : ServiceHandle (Nat × σ)}
    (hlookup : lifetimes.loader.services.lookup input.soPath = some handle) :
    (lifetimes.call ops input).Ordered ∧
      ¬ NoneLost (lifetimes.call ops input).log := by
  obtain ⟨⟨hook, ifindex, configPath⟩, hloads⟩ :=
    Option.isSome_iff_exists.mp hloads
  have hcall : lifetimes.call ops input =
      ⟨lifetimes.loaderAt input, lifetimes.calls + 1,
        lifetimes.log ++
          befalls lifetimes.calls [.started, .destroyed]⟩ := by
    simp only [call, hloads, loadService, loadServiceEvents, Env.numbered,
      Opened.numbered, hopened, loaderAt, hlookup]
  rw [hcall]
  exact ⟨⟨hordered.keyed, hordered.holds.drop⟩,
    hordered.holds.not_noneLost_drop⟩

theorem call_started_free (hordered : lifetimes.Ordered)
    (hloads : input.loads.isSome) {service : σ}
    (hopened : input.env.opened = .started service)
    (hlookup : lifetimes.loader.services.lookup input.soPath = none) :
    (lifetimes.call ops input).Ordered ∧
      (NoneLost (lifetimes.call ops input).log ↔ NoneLost lifetimes.log) := by
  obtain ⟨⟨hook, ifindex, configPath⟩, hloads⟩ :=
    Option.isSome_iff_exists.mp hloads
  have hlog : (lifetimes.call ops input).log =
      lifetimes.log ++ befalls lifetimes.calls [.started] := by
    simp only [call, hloads, loadServiceEvents, Env.numbered, Opened.numbered,
      hopened, loaderAt, hlookup]
  have hcalls : (lifetimes.call ops input).calls = lifetimes.calls + 1 := by
    simp only [call, hloads]
  have hplaced : ∀ other, (lifetimes.call ops input).loader.placed Prod.fst
      other = if other = input.soPath
        then some ⟨input.soPath, hook, ifindex, lifetimes.calls⟩
        else lifetimes.loader.placed Prod.fst other := by
    intro other
    have henv : (input.env.numbered lifetimes.calls).opened =
        .started (lifetimes.calls, service) := by
      rw [Env.numbered, hopened, Opened.numbered]
    simp only [call, hloads]
    exact @loadService_placed σ ω π ops _ (lifetimes.loaderAt input)
      input.soPath _ henv hlookup hook ifindex configPath other
  refine ⟨⟨?_, ?_⟩, ?_⟩
  · intro soPath held hheld
    rw [hplaced] at hheld
    split_ifs at hheld with heq
    · rw [heq, ← Option.some.inj hheld]
    · exact hordered.keyed soPath held hheld
  · rw [hlog, hcalls]
    have hfree : lifetimes.held input.soPath = none := by
      rw [held, hlookup, Option.map_none]
    refine hordered.holds.keep hfree ?_ fun other hother => ?_
    · rw [held_eq_placed, hplaced, if_pos rfl, Option.map_some]
    · rw [held_eq_placed, hplaced, if_neg hother, held_eq_placed]
  · rw [hlog]
    exact hordered.holds.noneLost_keep

theorem call_idle (hordered : lifetimes.Ordered)
    (hlog : (lifetimes.call ops input).log = lifetimes.log)
    (hservices : (lifetimes.call ops input).loader.services =
      lifetimes.loader.services)
    (hcalls : (lifetimes.call ops input).calls = lifetimes.calls + 1) :
    (lifetimes.call ops input).Ordered ∧
      (NoneLost (lifetimes.call ops input).log ↔ NoneLost lifetimes.log) := by
  have hheld : (lifetimes.call ops input).held = lifetimes.held := by
    funext soPath
    rw [held, held, hservices]
  refine ⟨⟨?_, ?_⟩, by rw [hlog]⟩
  · intro soPath service hplaced
    rw [placed, hservices] at hplaced
    exact hordered.keyed soPath service hplaced
  · rw [hheld, hcalls, hlog]
    exact hordered.holds.skip

theorem call_not_started (hordered : lifetimes.Ordered)
    (hloads : input.loads.isSome)
    (hopened : ∀ service, input.env.opened ≠ .started service) :
    (lifetimes.call ops input).Ordered ∧
      (NoneLost (lifetimes.call ops input).log ↔ NoneLost lifetimes.log) := by
  obtain ⟨⟨hook, ifindex, configPath⟩, hloads⟩ :=
    Option.isSome_iff_exists.mp hloads
  cases henv : input.env.opened with
  | started service => exact absurd henv (hopened service)
  | _ =>
      apply call_idle hordered
      all_goals
        simp only [call, hloads, loadService, loadServiceEvents, Env.numbered,
          Opened.numbered, henv, loaderAt, List.append_nil]

theorem call_unload (hordered : lifetimes.Ordered)
    (hloads : input.loads = none) :
    (lifetimes.call ops input).Ordered ∧
      (NoneLost (lifetimes.call ops input).log ↔ NoneLost lifetimes.log) := by
  cases hlookup : lifetimes.loader.services.lookup input.soPath with
  | none =>
      apply call_idle hordered
      all_goals
        simp only [call, hloads, unloadServices, unloadServicesEvents,
          loaderAt, hlookup, List.append_nil]
  | some handle =>
      have hkeyed : (lifetimes.loaderAt input).WellKeyed Prod.fst :=
        hordered.keyed
      have hfound : (lifetimes.loaderAt input).services.lookup input.soPath =
          some handle := hlookup
      obtain ⟨-, hplaced, -⟩ := unloadServices_spec hkeyed
        (input.env.numbered lifetimes.calls) input.soPath
      have hlog : (lifetimes.call ops input).log =
          lifetimes.log ++ befalls handle.service.1 [.stopped, .destroyed] := by
        simp only [call, hloads, unloadServicesEvents, hfound,
          unloadServices_of_lookup hfound (hkeyed.path_eq hfound)]
      have hheld : lifetimes.held input.soPath = some handle.service.1 := by
        rw [held, hlookup, Option.map_some]
      have hafter : ∀ other, (lifetimes.call ops input).held other =
          if input.soPath = other then none else lifetimes.held other := by
        intro other
        rw [held_eq_placed, held_eq_placed]
        simp only [call, hloads]
        rw [hplaced]
        split_ifs <;> rfl
      refine ⟨⟨?_, ?_⟩, ?_⟩
      · simp only [call, hloads]
        exact hkeyed.of_placed hplaced
      · have hrelease := hordered.holds.release hheld
          ((hafter input.soPath).trans (if_pos rfl)) fun other hother =>
            (hafter other).trans (if_neg (Ne.symm hother))
        rw [hlog]
        simp only [call, hloads] at hrelease ⊢
        exact hrelease.skip
      · rw [hlog]
        exact hordered.holds.noneLost_release hheld

theorem call_spec (ops : EbpfIf σ ω π) (input : LifetimeCall σ ω π)
    (hordered : lifetimes.Ordered) :
    (lifetimes.call ops input).Ordered ∧
      (NoneLost (lifetimes.call ops input).log ↔
        NoneLost lifetimes.log ∧ lifetimes.StartsUnderFreePath input) := by
  cases hloads : input.loads with
  | none =>
      obtain ⟨hafter, hnone⟩ := call_unload hordered hloads
      have hfree : lifetimes.StartsUnderFreePath input := by
        intro hsome
        rw [hloads] at hsome
        cases hsome
      exact ⟨hafter, by rw [hnone, and_iff_left hfree]⟩
  | some arguments =>
      have hsome : input.loads.isSome := by rw [hloads]; rfl
      by_cases hopened : ∃ service, input.env.opened = .started service
      · obtain ⟨service, hopened⟩ := hopened
        cases hlookup : lifetimes.loader.services.lookup input.soPath with
        | some handle =>
            obtain ⟨hafter, hlost⟩ :=
              call_started_loaded hordered hsome hopened hlookup
            refine ⟨hafter, iff_of_false hlost ?_⟩
            rintro ⟨-, hfree⟩
            rw [hfree hsome service hopened] at hlookup
            cases hlookup
        | none =>
            obtain ⟨hafter, hnone⟩ :=
              call_started_free hordered hsome hopened hlookup
            have hfree : lifetimes.StartsUnderFreePath input :=
              fun _ _ _ => hlookup
            exact ⟨hafter, by rw [hnone, and_iff_left hfree]⟩
      · have hnot := not_exists.mp hopened
        obtain ⟨hafter, hnone⟩ := call_not_started hordered hsome hnot
        have hfree : lifetimes.StartsUnderFreePath input :=
          fun _ service hstarted => absurd hstarted (hnot service)
        exact ⟨hafter, by rw [hnone, and_iff_left hfree]⟩

end Call

theorem held_of_mem {lifetimes : Lifetimes σ π}
    {entry : Sigma fun _ : String => ServiceHandle (Nat × σ)}
    (hentry : entry ∈ lifetimes.loader.services.entries) :
    lifetimes.held entry.1 = some entry.2.service.1 := by
  have hlookup : lifetimes.loader.services.lookup entry.1 = some entry.2 :=
    AList.mem_lookup_iff.mpr hentry
  rw [held, hlookup, Option.map_some]

theorem mem_of_held {lifetimes : Lifetimes σ π} {soPath : String} {n : Nat}
    (hheld : lifetimes.held soPath = some n) :
    n ∈ lifetimes.loader.services.entries.map fun entry =>
      entry.2.service.1 := by
  obtain ⟨handle, hlookup, hnumber⟩ := Option.map_eq_some_iff.mp hheld
  exact List.mem_map.mpr
    ⟨⟨soPath, handle⟩, AList.mem_lookup_iff.mp hlookup, hnumber⟩

theorem Ordered.nodup_numbers {lifetimes : Lifetimes σ π}
    (hordered : lifetimes.Ordered) :
    (lifetimes.loader.services.entries.map fun entry =>
      entry.2.service.1).Nodup := by
  refine List.pairwise_map.mpr (List.Pairwise.imp_of_mem ?_
    (List.nodupKeys_iff_pairwise.mp lifetimes.loader.services.nodupKeys))
  intro left right hleft hright hne heq
  exact hne (hordered.holds.once _ _ _ (held_of_mem hleft)
    (heq ▸ held_of_mem hright))

theorem held_eq_none_iff {lifetimes : Lifetimes σ π} :
    (∀ soPath, lifetimes.held soPath = none) ↔
      lifetimes.loader.services = ∅ := by
  constructor
  · intro hnone
    apply AList.ext
    apply List.eq_nil_iff_forall_not_mem.mpr
    intro entry hentry
    have hheld := held_of_mem hentry
    rw [hnone] at hheld
    cases hheld
  · intro hempty soPath
    rw [held, hempty, AList.lookup_empty, Option.map_none]

/-- All that a loader started has been stopped when it goes exactly if it never
started a service for a path that was loaded, and none is loaded at the end. -/
theorem stoppedOnce_ended_iff (ops : EbpfIf σ ω π)
    (inotify : InotifyManager ConfigCallback)
    (chain : Option (PinnedProgMap π)) (inputs : List (LifetimeCall σ ω π)) :
    (∀ n, StoppedOnce (run (call ops) (start inotify chain) inputs).ended n) ↔
      StepsMeet (call ops) StartsUnderFreePath (start inotify chain) inputs ∧
        (run (call ops) (start inotify chain) inputs).loader.services = ∅ := by
  have hstep : ∀ (lifetimes : Lifetimes σ π) input, lifetimes.Ordered →
      (lifetimes.call ops input).Ordered :=
    fun _ input hordered => (call_spec ops input hordered).1
  have hordered := invariant_run hstep (start_ordered inotify chain) inputs
  have hnone := @property_run_iff _ _ (call ops) StartsUnderFreePath Ordered
    (fun lifetimes => NoneLost lifetimes.log) hstep
    (fun _ input hordered => (call_spec ops input hordered).2) _
    (start_ordered inotify chain) inputs
  have hstart : NoneLost (start inotify chain : Lifetimes σ π).log :=
    fun n hlost => by cases hlost
  rw [and_iff_right hstart] at hnone
  rw [← hnone, ← held_eq_none_iff]
  generalize run (call ops) (start inotify chain) inputs = lifetimes
    at hordered ⊢
  have hlast : ∀ n, history lifetimes.loader.destructorEvents n =
      if n ∈ lifetimes.loader.services.entries.map
          fun entry => entry.2.service.1
        then [.destroyed] else [] := by
    intro n
    rw [← history_flatMap_befalls hordered.nodup_numbers]
    rfl
  refine hordered.holds.stoppedOnce_iff (fun soPath n hheld => ?_)
    fun n hnot => ?_
  · rw [hlast, if_pos (mem_of_held hheld)]
  · rw [hlast, if_neg]
    intro hmem
    obtain ⟨entry, hentry, rfl⟩ := List.mem_map.mp hmem
    exact hnot entry.1 (held_of_mem hentry)

def lbCall (loads : Option (HookType × Int32 × String)) :
    LifetimeCall Program Unit Program :=
  ⟨.start, some (.init defaultProgMap), opening ⟨"lb", 7⟩,
    "libhebpf_lb_xdp.so", loads⟩

def loadLb : LifetimeCall Program Unit Program :=
  lbCall (some (.xdpGeneric, 11, ""))

def unloadLb : LifetimeCall Program Unit Program := lbCall none

/-- Once the second instance of a library loaded twice, once the instance that
nobody unloads. -/
theorem not_stoppedOnce_loadLb :
    ¬ StoppedOnce (run (call programOps) (start .start none)
        [loadLb, loadLb, unloadLb]).ended 1 ∧
      ¬ StoppedOnce (run (call programOps) (start .start none)
        [loadLb]).ended 0 := by
  constructor <;>
    · rw [StoppedOnce]
      decide

end Lifetimes

end Hebpf.Daemon
