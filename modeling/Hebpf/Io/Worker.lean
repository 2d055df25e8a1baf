import Hebpf.Daemon.ConfigReload
import Hebpf.Inotify.Dispatch

namespace Hebpf.Io

open Hebpf.Common Hebpf.Daemon Hebpf.Data Hebpf.Inotify

/-! The thread that runs the `io_context`, as far as the descriptor of the inotify
instance: read buffers, the events in them, and the callbacks of the service
configurations. -/

variable {σ ω π : Type}

abbrev Services (σ : Type) := Table String (ServiceHandle σ)

/-- An event as it is parsed, with the directory it is for.  `calls` and
`services` are what others have done since the event before.  A callback holds a
view of a local of `loadService`: `soPath` is what stands there by now. -/
structure Arrival (σ ω : Type) where
  dir : String
  event : InotifyEvent
  calls : List (Call ConfigCallback × Bool)
  services : Services σ → Services σ
  soPath : String
  env : Env σ ω

structure Watching (σ π : Type) where
  loader : Loader σ π
  registered : List (String × ConfigCallback)

namespace Watching

def session (watching : Watching σ π) : Session ConfigCallback :=
  ⟨watching.loader.inotify, watching.registered⟩

def withSession (watching : Watching σ π) (session : Session ConfigCallback) :
    Watching σ π :=
  ⟨{ watching.loader with inotify := session.manager }, session.registered⟩

def meanwhile (watching : Watching σ π) (arrival : Arrival σ ω) :
    Watching σ π :=
  let changed := watching.withSession
    (run Session.step watching.session arrival.calls)
  { changed with loader := { changed.loader with
      services := arrival.services changed.loader.services } }

/-- What `registerServiceConfig` has made the callback of a configuration.  Only
for a service that is gone it withdraws the file. -/
def invoke (ops : EbpfIf σ ω π) (arrival : Arrival σ ω)
    (watching : Watching σ π) (onChange : ConfigCallback) :
    Result Unit × Watching σ π :=
  let name := arrival.event.name
  let (result, loader) := watching.loader.loadServiceConfigs ops arrival.env
    arrival.soPath onChange.hook onChange.ifindex name
  match watching.loader.services.lookup arrival.soPath with
  | some _ => (result, ⟨loader, watching.registered⟩)
  | none => (result, ⟨loader, (watching.session.step
      (.goodbyeConfig name, arrival.env.removeWatch)).registered⟩)

def expected (watching : Watching σ π) (arrival : Arrival σ ω) :
    List (String × ConfigCallback) :=
  if arrival.event.name = "" then []
  else watching.session.expected arrival.dir arrival.event.name

def onEvent (ops : EbpfIf σ ω π) (watching : Watching σ π)
    (arrival : Arrival σ ω) :
    Result Unit × Watching σ π × List (String × ConfigCallback) :=
  if arrival.event.name = "" then (.ok (), watching, [])
  else
    match watching.loader.inotify.onInotifyEvent arrival.event.name with
    | none => (.ok (), watching, [])
    | some info =>
        let (result, after) := watching.invoke ops arrival info.onChange
        (result, after, [(info.watchConfig, info.onChange)])

/-- `Inotify::processInotify`: an exception of a callback ends the loop.  Gives
the registrations invoked at each event it came to. -/
def processInotify (ops : EbpfIf σ ω π) (watching : Watching σ π) :
    List (Arrival σ ω) →
      Result Unit × Watching σ π × List (List (String × ConfigCallback))
  | [] => (.ok (), watching, [])
  | arrival :: rest =>
      match (watching.meanwhile arrival).onEvent ops arrival with
      | (.error exc, watching, invoked) => (.error exc, watching, [invoked])
      | (.ok (), watching, invoked) =>
          let (result, watching, others) := processInotify ops watching rest
          (result, watching, invoked :: others)

def allExpected (ops : EbpfIf σ ω π) (watching : Watching σ π) :
    List (Arrival σ ω) → List (List (String × ConfigCallback))
  | [] => []
  | arrival :: rest =>
      let found := watching.meanwhile arrival
      found.expected arrival ::
        allExpected ops (found.onEvent ops arrival).2.1 rest

/-- An event concerns nobody, or the one registration for its file is of the
bare name and the text its callback holds names a service that can take what
the file holds. -/
def Taken (ops : EbpfIf σ ω π) (watching : Watching σ π)
    (arrival : Arrival σ ω) : Prop :=
  let name := arrival.event.name
  name = "" ∨
    (watching.expected arrival = [] ∧
      ∀ onChange, (name, onChange) ∉ watching.registered) ∨
    ∃ onChange, watching.expected arrival = [(name, onChange)] ∧
      ∃ handle,
        watching.loader.services.lookup arrival.soPath = some handle ∧
        (ops.onConfigUpdate arrival.env.outcomes onChange.hook
          onChange.ifindex arrival.env.file.json handle.service).1 = .ok ()

def AllTaken (ops : EbpfIf σ ω π) (watching : Watching σ π) :
    List (Arrival σ ω) → Prop
  | [] => True
  | arrival :: rest =>
      let found := watching.meanwhile arrival
      found.Taken ops arrival ∧
        AllTaken ops (found.onEvent ops arrival).2.1 rest

section Event

variable {ops : EbpfIf σ ω π} {watching : Watching σ π}

theorem session_meanwhile (arrival : Arrival σ ω) :
    (watching.meanwhile arrival).session =
      run Session.step watching.session arrival.calls := rfl

theorem meanwhile_tracks (arrival : Arrival σ ω)
    (htracks : watching.session.Tracks) :
    (watching.meanwhile arrival).session.Tracks := by
  rw [session_meanwhile]
  exact invariant_run (fun _ input hstep => hstep.step input) htracks
    arrival.calls

theorem invoke_ok_iff {arrival : Arrival σ ω} {onChange : ConfigCallback}
    (hname : arrival.event.name ≠ "") :
    (watching.invoke ops arrival onChange).1 = .ok () ↔
      ∃ handle,
        watching.loader.services.lookup arrival.soPath = some handle ∧
        (ops.onConfigUpdate arrival.env.outcomes onChange.hook
          onChange.ifindex arrival.env.file.json handle.service).1 =
            .ok () := by
  rw [← Loader.loadServiceConfigs_eq_ok_iff hname]
  unfold invoke
  cases watching.loader.services.lookup arrival.soPath <;> rfl

theorem session_invoke {arrival : Arrival σ ω} (onChange : ConfigCallback)
    (hname : arrival.event.name ≠ "") :
    (watching.invoke ops arrival onChange).2.session = watching.session ∨
      (watching.invoke ops arrival onChange).2.session =
        watching.session.step
          (.goodbyeConfig arrival.event.name, arrival.env.removeWatch) := by
  unfold invoke
  cases hlookup : watching.loader.services.lookup arrival.soPath with
  | none =>
      refine .inr ?_
      simp only [Loader.loadServiceConfigs, Loader.unregisterServiceConfig,
        hlookup, hname, if_false, session, Session.step, InotifyManager.call]
      generalize watching.loader.inotify.goodbyeConfig arrival.env.removeWatch
        arrival.event.name = answer
      obtain ⟨left, manager⟩ := answer
      cases left <;> rfl
  | some handle =>
      refine .inl ?_
      simp only [Loader.loadServiceConfigs, hlookup, session]

theorem onEvent_of_found {arrival : Arrival σ ω}
    (hname : arrival.event.name ≠ "") {info : WatchInfo ConfigCallback}
    (hfound : watching.loader.inotify.onInotifyEvent arrival.event.name =
      some info) :
    watching.onEvent ops arrival =
      ((watching.invoke ops arrival info.onChange).1,
        (watching.invoke ops arrival info.onChange).2,
        [(info.watchConfig, info.onChange)]) := by
  simp only [onEvent, hname, if_false, hfound]

theorem onEvent_of_not_found {arrival : Arrival σ ω}
    (hname : arrival.event.name ≠ "")
    (hfound : watching.loader.inotify.onInotifyEvent arrival.event.name =
      none) :
    watching.onEvent ops arrival = (.ok (), watching, []) := by
  simp only [onEvent, hname, if_false, hfound]

theorem onEvent_tracks (arrival : Arrival σ ω)
    (htracks : watching.session.Tracks) :
    (watching.onEvent ops arrival).2.1.session.Tracks := by
  by_cases hname : arrival.event.name = ""
  · simpa only [onEvent, hname, if_true] using htracks
  · cases hfound :
        watching.loader.inotify.onInotifyEvent arrival.event.name with
    | none =>
        rw [onEvent_of_not_found hname hfound]
        exact htracks
    | some info =>
        rw [onEvent_of_found hname hfound]
        rcases session_invoke info.onChange hname with hsame | hstep
        · rw [hsame]
          exact htracks
        · rw [hstep]
          exact htracks.step _

theorem invoked_of_onInotifyEvent {event : InotifyEvent}
    (hname : event.name ≠ "") :
    watching.session.invoked event =
      ((watching.loader.inotify.onInotifyEvent event.name).map fun info =>
        (info.watchConfig, info.onChange)).toList := by
  simp only [Session.invoked, Inotify.processInotify, hname, if_false,
    List.append_nil, session]
  cases watching.loader.inotify.onInotifyEvent event.name <;> rfl

theorem expected_eq {arrival : Arrival σ ω} (hname : arrival.event.name ≠ "") :
    watching.expected arrival =
      watching.session.expected arrival.dir arrival.event.name := by
  rw [expected, if_neg hname]

theorem found_perm_iff {arrival : Arrival σ ω}
    (htracks : watching.session.Tracks) (hname : arrival.event.name ≠ "") :
    ((watching.loader.inotify.onInotifyEvent arrival.event.name).map fun info =>
        (info.watchConfig, info.onChange)).toList.Perm
          (watching.expected arrival) ↔
      (∃ onChange,
        watching.expected arrival = [(arrival.event.name, onChange)]) ∨
      (watching.expected arrival = [] ∧
        ∀ onChange, (arrival.event.name, onChange) ∉ watching.registered) := by
  rw [expected_eq hname, ← invoked_of_onInotifyEvent hname]
  exact htracks.invoked_perm_iff arrival.dir hname

theorem served_iff_of_not_found {arrival : Arrival σ ω}
    (htracks : watching.session.Tracks) (hname : arrival.event.name ≠ "")
    (hfound : watching.loader.inotify.onInotifyEvent arrival.event.name =
      none) :
    (watching.onEvent ops arrival).1 = .ok () ∧
        (watching.onEvent ops arrival).2.2.Perm
          (watching.expected arrival) ↔
      watching.Taken ops arrival := by
  have hperm := found_perm_iff htracks hname
  rw [hfound, Option.map_none, Option.toList_none, List.nil_perm] at hperm
  rw [onEvent_of_not_found hname hfound, List.nil_perm, Taken,
    or_iff_right hname]
  constructor
  · intro hserved
    cases hperm.mp hserved.2 with
    | inl hone =>
        obtain ⟨onChange, hone⟩ := hone
        exact absurd (hone.symm.trans hserved.2) (List.cons_ne_nil _ _)
    | inr hnone => exact .inl hnone
  · intro htaken
    refine ⟨rfl, ?_⟩
    cases htaken with
    | inl hnone => exact hnone.1
    | inr hone =>
        obtain ⟨onChange, hone, -⟩ := hone
        exact hperm.mpr (.inl ⟨onChange, hone⟩)

theorem served_iff_of_found {arrival : Arrival σ ω}
    (htracks : watching.session.Tracks) (hname : arrival.event.name ≠ "")
    {info : WatchInfo ConfigCallback}
    (hfound : watching.loader.inotify.onInotifyEvent arrival.event.name =
      some info) :
    (watching.onEvent ops arrival).1 = .ok () ∧
        (watching.onEvent ops arrival).2.2.Perm
          (watching.expected arrival) ↔
      watching.Taken ops arrival := by
  have hperm := found_perm_iff htracks hname
  rw [hfound, Option.map_some, Option.toList_some, List.singleton_perm]
    at hperm
  rw [onEvent_of_found hname hfound, List.singleton_perm, invoke_ok_iff hname,
    Taken, or_iff_right hname]
  constructor
  · intro hserved
    obtain ⟨htakes, hinvoked⟩ := hserved
    cases hperm.mp hinvoked with
    | inl hone =>
        obtain ⟨onChange, hone⟩ := hone
        obtain ⟨-, rfl⟩ := Prod.mk.inj
          (List.singleton_inj.mp (hinvoked.trans hone))
        exact .inr ⟨_, hone, htakes⟩
    | inr hnone =>
        exact absurd (hinvoked.trans hnone.1) (List.cons_ne_nil _ _)
  · intro htaken
    cases htaken with
    | inl hnone =>
        exact absurd ((hperm.mpr (.inr hnone)).trans hnone.1)
          (List.cons_ne_nil _ _)
    | inr hone =>
        obtain ⟨onChange, hone, htakes⟩ := hone
        have hinvoked := hperm.mpr (.inl ⟨onChange, hone⟩)
        obtain ⟨-, rfl⟩ := Prod.mk.inj
          (List.singleton_inj.mp (hinvoked.trans hone))
        exact ⟨htakes, hinvoked⟩

theorem onEvent_served_iff (arrival : Arrival σ ω)
    (htracks : watching.session.Tracks) :
    (watching.onEvent ops arrival).1 = .ok () ∧
        (watching.onEvent ops arrival).2.2.Perm
          (watching.expected arrival) ↔
      watching.Taken ops arrival := by
  by_cases hname : arrival.event.name = ""
  · simp [onEvent, Taken, expected, hname]
  · cases hfound :
        watching.loader.inotify.onInotifyEvent arrival.event.name with
    | none => exact served_iff_of_not_found htracks hname hfound
    | some info => exact served_iff_of_found htracks hname hfound

theorem processInotify_served_iff (buffer : List (Arrival σ ω))
    (htracks : watching.session.Tracks) :
    (watching.processInotify ops buffer).1 = .ok () ∧
        List.Forall₂ List.Perm (watching.processInotify ops buffer).2.2
          (watching.allExpected ops buffer) ↔
      watching.AllTaken ops buffer := by
  induction buffer generalizing watching with
  | nil => exact iff_of_true ⟨rfl, .nil⟩ trivial
  | cons arrival rest ih =>
      have hfound := meanwhile_tracks arrival htracks
      have hone := @onEvent_served_iff σ ω π ops _ arrival hfound
      have hrest := ih (@onEvent_tracks σ ω π ops _ arrival hfound)
      unfold processInotify allExpected AllTaken
      simp only
      rw [← hone, ← hrest]
      generalize onEvent ops (watching.meanwhile arrival) arrival = answer
      obtain ⟨result, after, invoked⟩ := answer
      cases result with
      | error exc => simp
      | ok _ =>
          simp only [List.forall₂_cons, true_and]
          exact and_left_comm

theorem processInotify_tracks (buffer : List (Arrival σ ω))
    (htracks : watching.session.Tracks) :
    (watching.processInotify ops buffer).2.1.session.Tracks := by
  induction buffer generalizing watching with
  | nil => exact htracks
  | cons arrival rest ih =>
      have hafter := @onEvent_tracks σ ω π ops _ arrival
        (meanwhile_tracks arrival htracks)
      unfold processInotify
      generalize onEvent ops (watching.meanwhile arrival) arrival = answer
        at hafter ⊢
      obtain ⟨result, after, invoked⟩ := answer
      cases result with
      | error exc => exact hafter
      | ok _ => exact ih hafter

end Event

end Watching

open Watching

/-- `running` is whether `io_context::run` has not been left, `armed` whether the
descriptor is waited for. -/
structure IoWorker (σ π : Type) where
  running : Bool
  armed : Bool
  watching : Watching σ π
  dispatched : List (List (String × ConfigCallback))

namespace IoWorker

def start (loader : Loader σ π) : IoWorker σ π :=
  ⟨true, true, ⟨{ loader with inotify := .start }, []⟩, []⟩

/-- The handler of `async_wait`: an exception is caught only by the thread, once
`run` is left. -/
def onReadable (ops : EbpfIf σ ω π) (worker : IoWorker σ π)
    (buffer : List (Arrival σ ω)) : IoWorker σ π :=
  if worker.running && worker.armed then
    match worker.watching.processInotify ops buffer with
    | (.error _, watching, invoked) =>
        ⟨false, false, watching, worker.dispatched ++ invoked⟩
    | (.ok (), watching, invoked) =>
        ⟨true, true, watching, worker.dispatched ++ invoked⟩
  else worker

/-- Every event of the buffer reaches the registrations for its file, each once,
the descriptor is waited for again, and `run` goes on. -/
structure Serves (ops : EbpfIf σ ω π) (worker : IoWorker σ π)
    (buffer : List (Arrival σ ω)) : Prop where
  running : (worker.onReadable ops buffer).running = true
  armed : (worker.onReadable ops buffer).armed = true
  dispatched : ∃ invoked,
    (worker.onReadable ops buffer).dispatched = worker.dispatched ++ invoked ∧
      List.Forall₂ List.Perm invoked (worker.watching.allExpected ops buffer)

structure Ready (worker : IoWorker σ π) : Prop where
  running : worker.running = true
  armed : worker.armed = true
  tracks : worker.watching.session.Tracks

theorem start_ready (loader : Loader σ π) : (start loader).Ready where
  running := rfl
  armed := rfl
  tracks := Session.start_tracks

section Step

variable {ops : EbpfIf σ ω π} {worker : IoWorker σ π}

theorem Ready.onReadable_eq (hready : worker.Ready)
    (buffer : List (Arrival σ ω)) :
    worker.onReadable ops buffer =
      match worker.watching.processInotify ops buffer with
      | (.error _, watching, invoked) =>
          ⟨false, false, watching, worker.dispatched ++ invoked⟩
      | (.ok (), watching, invoked) =>
          ⟨true, true, watching, worker.dispatched ++ invoked⟩ := by
  rw [onReadable, if_pos]
  rw [hready.running, hready.armed]
  rfl

theorem Ready.serves_iff (hready : worker.Ready)
    (buffer : List (Arrival σ ω)) :
    worker.Serves ops buffer ↔ worker.watching.AllTaken ops buffer := by
  rw [← processInotify_served_iff buffer hready.tracks]
  have hafter := @Ready.onReadable_eq σ ω π ops _ hready buffer
  generalize worker.watching.processInotify ops buffer = answer at hafter ⊢
  obtain ⟨result, after, invoked⟩ := answer
  constructor
  · intro hserves
    have hrunning := hserves.running
    rw [hafter] at hrunning
    cases result with
    | error exc => cases hrunning
    | ok _ =>
        obtain ⟨others, heq, hreached⟩ := hserves.dispatched
        rw [hafter] at heq
        obtain rfl := List.append_cancel_left heq
        exact ⟨rfl, hreached⟩
  · intro hserved
    obtain ⟨hok, hreached⟩ := hserved
    cases hok
    exact ⟨by rw [hafter], by rw [hafter], invoked, by rw [hafter], hreached⟩

theorem Ready.onReadable (hready : worker.Ready)
    {buffer : List (Arrival σ ω)}
    (htaken : worker.watching.AllTaken ops buffer) :
    (worker.onReadable ops buffer).Ready := by
  have hserves := (hready.serves_iff buffer).mpr htaken
  have htracks :=
    @processInotify_tracks σ ω π ops worker.watching buffer hready.tracks
  refine ⟨hserves.running, hserves.armed, ?_⟩
  rw [hready.onReadable_eq]
  generalize worker.watching.processInotify ops buffer = answer at htracks ⊢
  obtain ⟨result, after, invoked⟩ := answer
  cases result <;> exact htracks

end Step

/-- The worker serves every buffer of a run exactly when every event of it is
taken. -/
theorem serves_throughout_iff (ops : EbpfIf σ ω π) (loader : Loader σ π)
    (buffers : List (List (Arrival σ ω))) :
    StepsMeet (onReadable ops) (Serves ops) (start loader) buffers ↔
      StepsMeet (onReadable ops)
        (fun worker buffer => worker.watching.AllTaken ops buffer)
        (start loader) buffers := by
  have hrule := @stepsMeet_iff_stepsMeet (IoWorker σ π) (List (Arrival σ ω))
    (onReadable ops) (fun worker buffer => worker.watching.AllTaken ops buffer)
    Ready (Serves ops) (fun _ => True)
    (fun _ _ hready _ htaken => hready.onReadable htaken)
    (fun _ buffer hready _ => hready.serves_iff buffer)
    (start loader) buffers (start_ready loader)
  exact hrule fun _ _ => trivial

def aclWatched (path : String) : List (Call ConfigCallback × Bool) :=
  [(.watchConfig path ⟨"libhebpf_acl.so", .tc, 1⟩, true)]

def aclWritten (dir : String) (calls : List (Call ConfigCallback × Bool))
    (soPath : String) (json : Json) : Arrival RuleService RuleOutcomes where
  dir := dir
  event := ⟨1, 8, "acl.json"⟩
  calls := calls
  services := id
  soPath := soPath
  env := aclReading (.document json)

/-- Rules that are no array end the worker.  So does a good file once the text
of the path is gone, and a file outside the working directory reaches nobody. -/
theorem not_serves_acl :
    let worker := start (aclLoaded (.document .null)).2
    ¬ StepsMeet (onReadable aclOps) (Serves aclOps) worker
        [[aclWritten "." (aclWatched "acl.json") "libhebpf_acl.so"
            notRules,
          aclWritten "." [] "libhebpf_acl.so" denyAllConfig]] ∧
      ¬ StepsMeet (onReadable aclOps) (Serves aclOps) worker
        [[aclWritten "." (aclWatched "acl.json") "" denyAllConfig]] ∧
      ¬ StepsMeet (onReadable aclOps) (Serves aclOps) worker
        [[aclWritten "/etc" (aclWatched "/etc/acl.json") "libhebpf_acl.so"
            denyAllConfig]] := by
  intro worker
  refine ⟨?_, ?_, ?_⟩
  · intro hmeets
    have hrunning := hmeets.1.running
    revert hrunning
    decide
  · intro hmeets
    have hrunning := hmeets.1.running
    revert hrunning
    decide
  · intro hmeets
    have hnone : (worker.onReadable aclOps
        [aclWritten "/etc" (aclWatched "/etc/acl.json") "libhebpf_acl.so"
          denyAllConfig]).dispatched = [[]] := by decide
    have hone : worker.watching.allExpected aclOps
        [aclWritten "/etc" (aclWatched "/etc/acl.json") "libhebpf_acl.so"
          denyAllConfig] =
        [[("/etc/acl.json", ⟨"libhebpf_acl.so", .tc, 1⟩)]] := by
      decide
    obtain ⟨invoked, hinvoked, hreached⟩ := hmeets.1.dispatched
    rw [hnone] at hinvoked
    obtain rfl : [[]] = invoked := hinvoked
    rw [hone, List.forall₂_cons, List.nil_perm] at hreached
    exact List.cons_ne_nil _ _ hreached.1

end IoWorker

end Hebpf.Io
