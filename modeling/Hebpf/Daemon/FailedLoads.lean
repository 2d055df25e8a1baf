import Hebpf.Daemon.LoadedServices

namespace Hebpf.Daemon

open Hebpf.Common Hebpf.Data Hebpf.Ebpf Hebpf.Inotify Loader

/-! Updates in which a load may fail: what is recorded and what is loaded. -/

variable {σ ω π : Type}

namespace Loader

def CallsReturn (ops : EbpfIf σ ω π) (env : String → Env σ ω)
    (current : EbpfMap) : List (String × ConfigEbpf) → Loader σ π → Prop
  | [], _ => True
  | (name, cfg) :: rest, loader =>
      match loader.updateEntry ops (env name) current name cfg with
      | (.error _, _) => False
      | (.ok (), loader) => CallsReturn ops env current rest loader

instance decidableCallsReturn (ops : EbpfIf σ ω π) (env : String → Env σ ω)
    (current : EbpfMap) :
    (entries : List (String × ConfigEbpf)) → (loader : Loader σ π) →
      Decidable (CallsReturn ops env current entries loader)
  | [], _ => isTrue trivial
  | (name, cfg) :: rest, loader =>
      match hentry : loader.updateEntry ops (env name) current name cfg with
      | (.error _, _) => isFalse (by simp [CallsReturn, hentry])
      | (.ok (), after) =>
          have := decidableCallsReturn ops env current rest after
          decidable_of_iff (CallsReturn ops env current rest after)
            (by simp [CallsReturn, hentry])

/-- A call of the loop throws before a service has left its place or taken
one. -/
def ThrowsInPlace (ops : EbpfIf σ ω π) (env : String → Env σ ω)
    (current : EbpfMap) : List (String × ConfigEbpf) → Loader σ π → Prop
  | [], _ => False
  | (name, cfg) :: rest, loader =>
      match current.find? name with
      | none => ∀ service, (env name).opened ≠ .started service
      | some held =>
          place held = place cfg ∧
            match loader.updateEntry ops (env name) current name cfg with
            | (.error _, _) => True
            | (.ok (), loader) => ThrowsInPlace ops env current rest loader

section Entries

variable {ops : EbpfIf σ ω π} {env : String → Env σ ω} {current : EbpfMap}
  {entries : List (String × ConfigEbpf)} {loader : Loader σ π}

theorem updateEntries_returns (hkeyed : loader.Keyed)
    (hreturn : CallsReturn ops env current entries loader) :
    (updateEntries ops env current entries loader).1 = .ok () ∧
      (updateEntries ops env current entries loader).2.loaded =
        entries.foldl (reconcileEntry place current) loader.loaded ∧
      (updateEntries ops env current entries loader).2.Keyed := by
  induction entries generalizing loader with
  | nil => exact ⟨rfl, rfl, hkeyed⟩
  | cons entry rest ih =>
      obtain ⟨name, cfg⟩ := entry
      unfold CallsReturn at hreturn
      have hentry := @updateEntry_returns σ ω π ops (env name) current loader
        name cfg hkeyed
      unfold updateEntries
      generalize loader.updateEntry ops (env name) current name cfg = answer
        at hreturn hentry ⊢
      obtain ⟨result, after⟩ := answer
      cases result with
      | error exc => cases hreturn
      | ok _ =>
          obtain ⟨hloaded, hkept⟩ := hentry rfl
          rw [List.foldl_cons, ← hloaded]
          exact ih hkept hreturn

theorem updateEntries_throwsInPlace (hkeyed : loader.Keyed)
    (hthrows : ThrowsInPlace ops env current entries loader) :
    (∃ exc, (updateEntries ops env current entries loader).1 = .error exc) ∧
      (updateEntries ops env current entries loader).2.loaded =
        loader.loaded ∧
      (updateEntries ops env current entries loader).2.Keyed := by
  induction entries generalizing loader with
  | nil => cases hthrows
  | cons entry rest ih =>
      obtain ⟨name, cfg⟩ := entry
      unfold ThrowsInPlace at hthrows
      unfold updateEntries
      cases hfind : current.find? name with
      | none =>
          simp only [hfind] at hthrows
          obtain ⟨exc, hload⟩ :=
            @loadEbpf_of_not_started σ ω π ops (env name) loader cfg hthrows
          have hentry : loader.updateEntry ops (env name) current name cfg =
              (.error exc, loader) := by
            simp only [updateEntry, hfind, hload]
          rw [hentry]
          exact ⟨⟨exc, rfl⟩, rfl, hkeyed⟩
      | some held =>
          simp only [hfind] at hthrows
          obtain ⟨hplace, hthrows⟩ := hthrows
          obtain ⟨hloaded, hkept⟩ := @updateEntry_inPlace σ ω π ops
            (env name) current loader name cfg held hfind hplace hkeyed
          generalize loader.updateEntry ops (env name) current name cfg =
            answer at hthrows hloaded hkept ⊢
          obtain ⟨result, after⟩ := answer
          cases result with
          | error exc => exact ⟨⟨exc, rfl⟩, hloaded, hkept⟩
          | ok _ =>
              obtain ⟨hfails, hrest, hlast⟩ := ih hkept hthrows
              exact ⟨hfails, hrest.trans hloaded, hlast⟩

end Entries

end Loader

namespace DaemonState

variable {ops : EbpfIf σ ω π} {sort : List OrderEntry → List OrderEntry}
  {daemon : DaemonState σ π} {input : UpdateInput σ ω}

def CallsReturn (ops : EbpfIf σ ω π)
    (sort : List OrderEntry → List OrderEntry) (daemon : DaemonState σ π)
    (input : UpdateInput σ ω) : Prop :=
  (daemon.prepare sort input).2.CallsReturn ops input.env daemon.currentEbpf
    (addSchedulers input.config).entries

instance decidableCallsReturn (ops : EbpfIf σ ω π)
    (sort : List OrderEntry → List OrderEntry) (daemon : DaemonState σ π)
    (input : UpdateInput σ ω) :
    Decidable (daemon.CallsReturn ops sort input) :=
  inferInstanceAs (Decidable (Loader.CallsReturn _ _ _ _ _))

/-- Nothing is to be unloaded, and a call throws while all else is still in its
place. -/
structure ThrowsInPlace (ops : EbpfIf σ ω π)
    (sort : List OrderEntry → List OrderEntry) (daemon : DaemonState σ π)
    (input : UpdateInput σ ω) : Prop where
  removed : removedLibs daemon.currentEbpf input.config = []
  throws : (daemon.prepare sort input).2.ThrowsInPlace ops input.env
    daemon.currentEbpf (addSchedulers input.config).entries

theorem update_returns (hkeyed : daemon.loader.Keyed)
    (hreturn : daemon.CallsReturn ops sort input) :
    (daemon.update ops sort input).2.currentEbpf =
        addSchedulers input.config ∧
      (daemon.update ops sort input).2.loader.loaded =
        reconcile place daemon.currentEbpf
          (removedLibs daemon.currentEbpf input.config)
          (addSchedulers input.config) daemon.loader.loaded ∧
      (daemon.update ops sort input).2.loader.Keyed := by
  obtain ⟨hok, hloaded, hkept⟩ := prepare_loaded sort hkeyed input
  unfold CallsReturn at hreturn
  unfold update
  generalize daemon.prepare sort input = answer at hok hloaded hkept hreturn ⊢
  obtain ⟨result, prepared⟩ := answer
  cases hok
  obtain ⟨hdone, hupdated, hfinal⟩ :=
    Loader.updateEntries_returns hkept hreturn
  simp only at hloaded ⊢
  generalize prepared.updateEntries ops input.env daemon.currentEbpf
    (addSchedulers input.config).entries = updated at hdone hupdated hfinal ⊢
  obtain ⟨result, after⟩ := updated
  cases hdone
  exact ⟨rfl, hupdated.trans (by rw [hloaded]; rfl), hfinal⟩

theorem update_throwsInPlace (hkeyed : daemon.loader.Keyed)
    (hthrows : daemon.ThrowsInPlace ops sort input) :
    (daemon.update ops sort input).2.currentEbpf = daemon.currentEbpf ∧
      (daemon.update ops sort input).2.loader.loaded =
        daemon.loader.loaded ∧
      (daemon.update ops sort input).2.loader.Keyed := by
  obtain ⟨hok, hloaded, hkept⟩ := prepare_loaded sort hkeyed input
  obtain ⟨hremoved, hthrows⟩ := hthrows
  rw [hremoved, List.foldl_nil] at hloaded
  unfold update
  generalize daemon.prepare sort input = answer at hok hloaded hkept hthrows ⊢
  obtain ⟨result, prepared⟩ := answer
  cases hok
  obtain ⟨⟨exc, hfails⟩, hupdated, hfinal⟩ :=
    Loader.updateEntries_throwsInPlace hkept hthrows
  simp only at hloaded ⊢
  generalize prepared.updateEntries ops input.env daemon.currentEbpf
    (addSchedulers input.config).entries = updated
    at hfails hupdated hfinal ⊢
  obtain ⟨result, after⟩ := updated
  cases hfails
  exact ⟨rfl, hupdated.trans hloaded, hfinal⟩

end DaemonState

namespace Session

def Recorded (session : Session σ π) : Prop :=
  ∀ lib value, session.daemon.loader.loaded lib = some value ↔
    Wants place session.daemon.currentEbpf lib value

/-- What throws, throws before anything has changed. -/
def Graceful (ops : EbpfIf σ ω π)
    (sort : List OrderEntry → List OrderEntry) (session : Session σ π)
    (input : UpdateInput σ ω) : Prop :=
  session.daemon.CallsReturn ops sort input ∨
    session.daemon.ThrowsInPlace ops sort input

def Settles (ops : EbpfIf σ ω π)
    (sort : List OrderEntry → List OrderEntry) (session : Session σ π)
    (input : UpdateInput σ ω) : Prop :=
  session.daemon.CallsReturn ops sort input →
    Data.Reconcilable place session.daemon.currentEbpf
      (removedLibs session.daemon.currentEbpf input.config)
      (addSchedulers input.config)

section Step

variable {ops : EbpfIf σ ω π} {sort : List OrderEntry → List OrderEntry}
  {session : Session σ π} {input : UpdateInput σ ω}

theorem recorded_iff_of_returns (hkeyed : session.daemon.loader.Keyed)
    (hrecorded : session.Recorded)
    (hreturn : session.daemon.CallsReturn ops sort input) :
    (session.update ops sort input).Recorded ↔
      Data.Reconcilable place session.daemon.currentEbpf
        (removedLibs session.daemon.currentEbpf input.config)
        (addSchedulers input.config) := by
  obtain ⟨hcurrent, hloaded, -⟩ := DaemonState.update_returns hkeyed hreturn
  unfold Recorded Session.update
  simp only [hcurrent, hloaded]
  exact ⟨reconcilable_of_reconcile_eq_some_iff hrecorded,
    fun hreconcilable => hreconcilable.reconcile_eq_some_iff hrecorded⟩

theorem update_keyed (hkeyed : session.daemon.loader.Keyed)
    (hgraceful : session.Graceful ops sort input) :
    (session.update ops sort input).daemon.loader.Keyed := by
  rcases hgraceful with hreturn | hthrows
  · exact (DaemonState.update_returns hkeyed hreturn).2.2
  · exact (DaemonState.update_throwsInPlace hkeyed hthrows).2.2

theorem recorded_of_settles (hkeyed : session.daemon.loader.Keyed)
    (hrecorded : session.Recorded)
    (hgraceful : session.Graceful ops sort input)
    (hsettles : session.Settles ops sort input) :
    (session.update ops sort input).Recorded := by
  rcases hgraceful with hreturn | hthrows
  · exact (recorded_iff_of_returns hkeyed hrecorded hreturn).mpr
      (hsettles hreturn)
  · obtain ⟨hcurrent, hloaded, -⟩ :=
      DaemonState.update_throwsInPlace hkeyed hthrows
    unfold Recorded Session.update
    simp only [hcurrent, hloaded]
    exact hrecorded

theorem reconciled_of_returns (hkeyed : session.daemon.loader.Keyed)
    (hrecorded : session.Recorded)
    (hreturn : session.daemon.CallsReturn ops sort input)
    (hreconcilable : session.Reconcilable input) :
    (session.update ops sort input).Reconciled := by
  obtain ⟨-, hloaded, -⟩ := DaemonState.update_returns hkeyed hreturn
  intro lib value
  have hwants : (session.update ops sort input).daemon.loader.loaded lib =
        some value ↔
      Wants place (addSchedulers input.config) lib value := by
    unfold Session.update
    rw [hloaded]
    exact hreconcilable.entries.reconcile_eq_some_iff hrecorded lib value
  exact hwants.trans
    (wants_addSchedulers_iff hreconcilable.schedulers lib value)

end Step

/-- In a run in which nothing throws halfway, entries are recorded exactly when
they are loaded if and only if every update that returns is reconcilable; an
update that returns brings the services to its configuration then, whatever
failed before. -/
theorem recorded_throughout_iff {ops : EbpfIf σ ω π}
    {sort : List OrderEntry → List OrderEntry}
    (inotify : InotifyManager ConfigCallback)
    (chain : Option (PinnedProgMap π)) (inputs : List (UpdateInput σ ω)) :
    (StepsMeet (update ops sort) (Graceful ops sort) (start inotify chain)
          inputs ∧
        Throughout (update ops sort) Recorded (start inotify chain) inputs ↔
      StepsMeet (update ops sort) (fun session input =>
          session.Graceful ops sort input ∧ session.Settles ops sort input)
        (start inotify chain) inputs) ∧
    ∀ input, StepsMeet (update ops sort) (fun session input =>
          session.Graceful ops sort input ∧ session.Settles ops sort input)
        (start inotify chain) inputs →
      (run (update ops sort) (start inotify chain) inputs).daemon.CallsReturn
        ops sort input →
      (run (update ops sort) (start inotify chain) inputs).Reconcilable
        input →
      ((run (update ops sort) (start inotify chain) inputs).update ops sort
        input).Reconciled := by
  have hstep : ∀ (session : Session σ π) (input : UpdateInput σ ω),
      session.Recorded ∧ session.daemon.loader.Keyed →
      session.Graceful ops sort input → session.Settles ops sort input →
      (session.update ops sort input).Recorded ∧
        (session.update ops sort input).daemon.loader.Keyed := by
    rintro session input ⟨hrecorded, hkeyed⟩ hgraceful hsettles
    exact ⟨recorded_of_settles hkeyed hrecorded hgraceful hsettles,
      update_keyed hkeyed hgraceful⟩
  have hstart : (start inotify chain : Session σ π).Recorded ∧
      (start inotify chain : Session σ π).daemon.loader.Keyed :=
    ⟨(start_tracked inotify chain).loaded, (start_tracked inotify chain).keyed⟩
  refine ⟨stepsMeet_and_throughout_iff (fun _ hboth => hboth.1) hstep ?_
    hstart, ?_⟩
  · rintro session input ⟨hrecorded, hkeyed⟩ - hafter hreturn
    exact (recorded_iff_of_returns hkeyed hrecorded hreturn).mp hafter
  · intro input hmeet hreturn hreconcilable
    obtain ⟨hrecorded, hkeyed⟩ := (throughout_of_stepsMeet
      (fun session input hboth hmeets =>
        hstep session input hboth hmeets.1 hmeets.2) hstart hmeet).last
    exact reconciled_of_returns hkeyed hrecorded hreturn hreconcilable

def missing : Env Program Unit :=
  { opening ⟨"lb", 7⟩ with opened := .dlopenFailed "no such file" }

def oneNicMissing : UpdateInput Program Unit :=
  { oneNic with env := fun _ => missing }

theorem mem_oneNic {entry : String × ConfigEbpf}
    (hentry : entry ∈ addSchedulers oneNic.config) :
    entry = ("lb11", lbOn 11) ∨
      entry = (schedulerId .xdpGeneric 11, schedulerConfig .xdpGeneric 11) := by
  rcases mem_addSchedulers_iff.mp hentry with
    hconfig | ⟨other, hother, rfl, -⟩
  · exact Or.inl (List.mem_singleton.mp hconfig)
  · cases List.mem_singleton.mp hother
    exact Or.inr rfl

theorem current_oneNicMissing :
    (run (update programOps sortByOrder) fresh
      [oneNicMissing]).daemon.currentEbpf = .empty := by decide

theorem reconcilable_oneNic :
    (run (update programOps sortByOrder) fresh
      [oneNicMissing]).Reconcilable oneNic where
  schedulers := by
    intro entry hentry
    cases List.mem_singleton.mp hentry
    exact ⟨_, mem_addSchedulers_iff.mpr
      (Or.inr ⟨_, hentry, rfl, by decide⟩), rfl⟩
  entries := by
    rw [current_oneNicMissing]
    refine { agree := ?_, retaken := ?_, handedOn := ?_, released := ?_ }
    · rintro key first second ⟨entry, hentry, hplace⟩ ⟨other, hother, hsame⟩
      rcases mem_oneNic hentry with rfl | rfl <;>
        rcases mem_oneNic hother with rfl | rfl <;>
        simp only [place, lbOn, schedulerConfig, Prod.mk.injEq] at hplace hsame
      · exact hplace.2.symm.trans hsame.2
      · exact absurd (hplace.1.trans hsame.1.symm) (by decide)
      · exact absurd (hsame.1.trans hplace.1.symm) (by decide)
      · exact hplace.2.symm.trans hsame.2
    · intro key value hremoved
      cases hremoved
    · rintro key value entry - ⟨held, hheld, -⟩
      cases hheld
    · rintro key value ⟨entry, hentry, -⟩
      exact absurd hentry (OrderedMap.not_mem_empty entry)

theorem recorded_throughout_iff_missing :
    ((run (update programOps sortByOrder) fresh [oneNicMissing]).update
      programOps sortByOrder oneNic).Reconciled := by
  have hthrows : ¬ fresh.daemon.CallsReturn programOps sortByOrder
      oneNicMissing := by decide
  refine (recorded_throughout_iff .start (some (.init defaultProgMap))
    [oneNicMissing]).2 oneNic
    ⟨⟨Or.inr ⟨rfl, ?_⟩, fun hreturn => absurd hreturn hthrows⟩, trivial⟩
    (by decide) reconcilable_oneNic
  intro service hopened
  cases hopened

def lbMissing : UpdateInput Program Unit where
  config := ⟨[("acl11", ⟨"libhebpf_acl.so", "", .xdpGeneric, 11, 1⟩),
    ("lb11", lbOn 11)], by decide⟩
  env name := if name = "acl11" then opening ⟨"acl", 3⟩ else missing

def nothing : UpdateInput Program Unit := ⟨.empty, fun _ => missing⟩

/-- The first library stays loaded without being recorded, also when nothing is
asked for any more. -/
theorem not_recorded_lbMissing :
    ¬ (run (update programOps sortByOrder) fresh [lbMissing]).Recorded ∧
      ¬ (run (update programOps sortByOrder) fresh
        [lbMissing, nothing]).Reconciled := by
  have hcurrent : (run (update programOps sortByOrder) fresh
      [lbMissing]).daemon.currentEbpf = .empty := by decide
  have hconfig : (run (update programOps sortByOrder) fresh
      [lbMissing, nothing]).config = .empty := rfl
  constructor
  · intro hrecorded
    obtain ⟨entry, hentry, -⟩ :=
      (hrecorded "libhebpf_acl.so" (.xdpGeneric, 11)).mp (by decide)
    rw [hcurrent] at hentry
    exact OrderedMap.not_mem_empty entry hentry
  · intro hreconciled
    have hwanted := (hreconciled "libhebpf_acl.so" (.xdpGeneric, 11)).mp
      (by decide)
    rw [hconfig] at hwanted
    rcases hwanted with ⟨entry, hentry, -⟩ | ⟨entry, hentry, -⟩ <;>
      exact OrderedMap.not_mem_empty entry hentry

end Session

end Hebpf.Daemon
