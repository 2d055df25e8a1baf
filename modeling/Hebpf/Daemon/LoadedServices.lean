import Hebpf.Daemon.LoadLoop
import Hebpf.Data.Run

namespace Hebpf.Daemon

open Hebpf.Common Hebpf.Data Hebpf.Ebpf Hebpf.Inotify Loader

variable {σ ω π : Type}

namespace DaemonState

def LoadCalls (ops : EbpfIf σ ω π)
    (asked : Env σ ω → Loader σ π → ConfigEbpf → Prop)
    (sort : List OrderEntry → List OrderEntry) (daemon : DaemonState σ π)
    (input : UpdateInput σ ω) : Prop :=
  match daemon.prepare sort input with
  | (.error _, _) => True
  | (.ok (), loader) =>
      Loader.LoadCalls ops asked input.env daemon.currentEbpf
        (addSchedulers input.config).entries loader

theorem prepare_loaded (sort : List OrderEntry → List OrderEntry)
    {daemon : DaemonState σ π} (hkeyed : daemon.loader.Keyed)
    (input : UpdateInput σ ω) :
    (daemon.prepare sort input).1 = .ok () ∧
      (daemon.prepare sort input).2.loaded =
        (Loader.removedLibs daemon.currentEbpf input.config).foldl Store.drop
          daemon.loader.loaded ∧
      (daemon.prepare sort input).2.Keyed := by
  unfold prepare
  simp only
  generalize hrebuilt : (if input.config ≠ withoutSchedulers
    daemon.currentEbpf then daemon.loader.rebuildChains sort input.config
    else daemon.loader) = rebuilt
  have hservices : rebuilt.services = daemon.loader.services := by
    rw [← hrebuilt]
    split_ifs
    · exact Loader.rebuildChains_services sort input.config daemon.loader
    · rfl
  have hplaced : ∀ soPath, rebuilt.placed Loader.noPart soPath =
      daemon.loader.placed Loader.noPart soPath := by
    intro soPath
    rw [Loader.placed, Loader.placed, hservices]
  have hloaded : rebuilt.loaded = daemon.loader.loaded := by
    funext soPath
    rw [Loader.loaded, Loader.loaded, hservices]
  rw [← hloaded]
  exact Loader.unloadRemoved_loaded input.env input.config _
    fun soPath service hservice => hkeyed soPath service
      (hplaced soPath ▸ hservice)

theorem update_loaded {ops : EbpfIf σ ω π}
    {sort : List OrderEntry → List OrderEntry} {daemon : DaemonState σ π}
    {input : UpdateInput σ ω} (hkeyed : daemon.loader.Keyed)
    (hstart : ∀ lib value, daemon.loader.loaded lib = some value ↔
      Wants place daemon.currentEbpf lib value)
    (hsucceed : daemon.LoadCalls ops (LoadSucceeds ops) sort input)
    (hundisturbed : Loader.Undisturbed ops input.env
      (Loader.removedLibs daemon.currentEbpf input.config) daemon.currentEbpf
      (addSchedulers input.config)) :
    (daemon.update ops sort input).2.currentEbpf =
        addSchedulers input.config ∧
      (daemon.update ops sort input).2.loader.loaded =
        reconcile place daemon.currentEbpf
          (Loader.removedLibs daemon.currentEbpf input.config)
          (addSchedulers input.config) daemon.loader.loaded ∧
      (daemon.update ops sort input).2.loader.Keyed := by
  obtain ⟨hok, hloaded, hkept⟩ := prepare_loaded sort hkeyed input
  unfold LoadCalls at hsucceed
  unfold update
  generalize daemon.prepare sort input = answer
    at hok hloaded hkept hsucceed ⊢
  obtain ⟨result, prepared⟩ := answer
  cases hok
  obtain ⟨hdone, hupdated, hfinal⟩ := Loader.updateEntries_loaded hundisturbed
    hstart (addSchedulers input.config).entries [] rfl hloaded hsucceed hkept
  simp only
  generalize prepared.updateEntries ops input.env daemon.currentEbpf
    (addSchedulers input.config).entries = updated at hdone hupdated hfinal ⊢
  obtain ⟨result, after⟩ := updated
  cases hdone
  exact ⟨rfl, hupdated, hfinal⟩

end DaemonState

structure Session (σ π : Type) where
  daemon : DaemonState σ π
  config : EbpfMap

namespace Session

def start (inotify : InotifyManager ConfigCallback)
    (chain : Option (PinnedProgMap π)) : Session σ π :=
  ⟨.start inotify chain, .empty⟩

def update (ops : EbpfIf σ ω π) (sort : List OrderEntry → List OrderEntry)
    (session : Session σ π) (input : UpdateInput σ ω) : Session σ π :=
  ⟨(session.daemon.update ops sort input).2, input.config⟩

def WantsScheduler (config : EbpfMap) (lib : String)
    (value : HookType × Int32) : Prop :=
  ∃ entry ∈ config, lib = schedulerPath entry.2.hook entry.2.ifindex ∧
    value = (entry.2.hook, entry.2.ifindex)

/-- The services that are loaded are those of the configuration and its
schedulers. -/
def Reconciled (session : Session σ π) : Prop :=
  ∀ lib value, session.daemon.loader.loaded lib = some value ↔
    Wants place session.config lib value ∨
      WantsScheduler session.config lib value

def Undisturbed (ops : EbpfIf σ ω π) (session : Session σ π)
    (input : UpdateInput σ ω) : Prop :=
  Loader.Undisturbed ops input.env
    (removedLibs session.daemon.currentEbpf input.config)
    session.daemon.currentEbpf (addSchedulers input.config)

/-- No entry keeps a scheduler out, and libraries go from name to name in the
order of the names. -/
structure Reconcilable (session : Session σ π) (input : UpdateInput σ ω) :
    Prop where
  schedulers : ∀ entry ∈ input.config,
    Wants place (addSchedulers input.config)
      (schedulerPath entry.2.hook entry.2.ifindex)
      (entry.2.hook, entry.2.ifindex)
  entries : Data.Reconcilable place session.daemon.currentEbpf
    (removedLibs session.daemon.currentEbpf input.config)
    (addSchedulers input.config)

theorem wants_of_wants_addSchedulers {config : EbpfMap} {lib : String}
    {value : HookType × Int32}
    (hwants : Wants place (addSchedulers config) lib value) :
    Wants place config lib value ∨ WantsScheduler config lib value := by
  obtain ⟨entry, hentry, hplace⟩ := hwants
  rcases mem_addSchedulers_iff.mp hentry with
    hconfig | ⟨other, hother, rfl, -⟩
  · exact Or.inl ⟨entry, hconfig, hplace⟩
  · cases hplace
    exact Or.inr ⟨other, hother, rfl, rfl⟩

theorem wants_addSchedulers_iff {config : EbpfMap}
    (hschedulers : ∀ entry ∈ config, Wants place (addSchedulers config)
      (schedulerPath entry.2.hook entry.2.ifindex)
      (entry.2.hook, entry.2.ifindex))
    (lib : String) (value : HookType × Int32) :
    Wants place (addSchedulers config) lib value ↔
      Wants place config lib value ∨ WantsScheduler config lib value := by
  refine ⟨wants_of_wants_addSchedulers, ?_⟩
  rintro (⟨entry, hentry, hplace⟩ | ⟨entry, hentry, rfl, rfl⟩)
  · exact ⟨entry, mem_addSchedulers_iff.mpr (Or.inl hentry), hplace⟩
  · exact hschedulers entry hentry

structure Tracked (session : Session σ π) : Prop where
  reconciled : session.Reconciled
  loaded : ∀ lib value, session.daemon.loader.loaded lib = some value ↔
    Wants place session.daemon.currentEbpf lib value
  keyed : session.daemon.loader.Keyed

theorem start_tracked (inotify : InotifyManager ConfigCallback)
    (chain : Option (PinnedProgMap π)) :
    (start inotify chain : Session σ π).Tracked where
  reconciled := by
    intro lib value
    refine iff_of_false nofun ?_
    rintro (⟨entry, hentry, -⟩ | ⟨entry, hentry, -⟩) <;>
      exact OrderedMap.not_mem_empty entry hentry
  loaded := by
    intro lib value
    refine iff_of_false nofun ?_
    rintro ⟨entry, hentry, -⟩
    exact OrderedMap.not_mem_empty entry hentry
  keyed := nofun

section Step

variable {ops : EbpfIf σ ω π} {sort : List OrderEntry → List OrderEntry}
  {session : Session σ π} {input : UpdateInput σ ω}

theorem Tracked.update (htracked : session.Tracked)
    (hsucceed : session.daemon.LoadCalls ops (LoadSucceeds ops) sort input)
    (hundisturbed : session.Undisturbed ops input)
    (hreconcilable : session.Reconcilable input) :
    (session.update ops sort input).Tracked := by
  obtain ⟨hcurrent, hloaded, hkeyed⟩ := DaemonState.update_loaded htracked.keyed
    htracked.loaded hsucceed hundisturbed
  have hwants : ∀ lib value,
      (session.daemon.update ops sort input).2.loader.loaded lib =
          some value ↔
        Wants place (addSchedulers input.config) lib value := by
    intro lib value
    rw [hloaded]
    exact hreconcilable.entries.reconcile_eq_some_iff htracked.loaded lib value
  refine ⟨fun lib value => ?_, fun lib value => ?_, hkeyed⟩
  · exact (hwants lib value).trans
      (wants_addSchedulers_iff hreconcilable.schedulers lib value)
  · change _ ↔ Wants place
      (session.daemon.update ops sort input).2.currentEbpf lib value
    rw [hcurrent]
    exact hwants lib value

theorem Tracked.schedulers_of_reconciled (htracked : session.Tracked)
    (hafter : ∀ lib value, reconcile place session.daemon.currentEbpf
        (removedLibs session.daemon.currentEbpf input.config)
        (addSchedulers input.config) session.daemon.loader.loaded lib =
          some value ↔
      Wants place input.config lib value ∨
        WantsScheduler input.config lib value) :
    ∀ entry ∈ input.config, Wants place (addSchedulers input.config)
      (schedulerPath entry.2.hook entry.2.ifindex)
      (entry.2.hook, entry.2.ifindex) := by
  intro entry hentry
  have hpresent := (hafter (schedulerPath entry.2.hook entry.2.ifindex)
    (entry.2.hook, entry.2.ifindex)).mpr (Or.inr ⟨entry, hentry, rfl, rfl⟩)
  rcases wants_or_of_reconcile htracked.loaded hpresent with
    hwants | ⟨⟨⟨name, held⟩, hheld, hplace⟩, hremoved, hkept⟩
  · exact hwants
  · by_contra hunwanted
    cases hfind : (addSchedulers input.config).find? name with
    | some cfg =>
        have hcfg := OrderedMap.find?_eq_some_iff.mp hfind
        by_cases hsame : place held = place cfg
        · exact hunwanted ⟨(name, cfg), hcfg, hsame.symm.trans hplace⟩
        · exact hkept (name, cfg) hcfg
            ⟨held, OrderedMap.find?_eq_some_iff.mpr hheld, hsame,
              congrArg Prod.fst hplace⟩
    | none =>
        have habsent := OrderedMap.find?_eq_none_iff.mp hfind
        have hconfig : input.config.find? name = none :=
          OrderedMap.find?_eq_none_iff.mpr fun cfg hcfg =>
            habsent cfg (mem_addSchedulers_iff.mpr (Or.inl hcfg))
        obtain ⟨-, hhook, hifindex⟩ :
            held.lib = schedulerPath entry.2.hook entry.2.ifindex ∧
              held.hook = entry.2.hook ∧ held.ifindex = entry.2.ifindex := by
          simpa [place] using hplace
        by_cases hscheduler :
            name = schedulerId entry.2.hook entry.2.ifindex
        · -- It would have been added under its own name.
          subst hscheduler
          exact habsent _ (mem_addSchedulers_iff.mpr
            (Or.inr ⟨entry, hentry, rfl, hconfig⟩))
        · refine hremoved (List.mem_map.mpr ⟨(name, held), ?_,
            congrArg Prod.fst hplace⟩)
          refine List.mem_filter.mpr ⟨OrderedMap.mem_filter.mpr ⟨hheld, ?_⟩,
            by simpa using hconfig⟩
          simpa [isScheduler, hhook, hifindex] using hscheduler

theorem Tracked.reconcilable_of_reconciled (htracked : session.Tracked)
    (hsucceed : session.daemon.LoadCalls ops (LoadSucceeds ops) sort input)
    (hundisturbed : session.Undisturbed ops input)
    (hreconciled : (session.update ops sort input).Reconciled) :
    session.Reconcilable input := by
  obtain ⟨-, hloaded, -⟩ := DaemonState.update_loaded htracked.keyed
    htracked.loaded hsucceed hundisturbed
  have hafter : ∀ lib value, reconcile place session.daemon.currentEbpf
      (removedLibs session.daemon.currentEbpf input.config)
      (addSchedulers input.config) session.daemon.loader.loaded lib =
        some value ↔
      Wants place input.config lib value ∨
        WantsScheduler input.config lib value := by
    intro lib value
    rw [← hloaded]
    exact hreconciled lib value
  have hschedulers := htracked.schedulers_of_reconciled hafter
  refine ⟨hschedulers, reconcilable_of_reconcile_eq_some_iff htracked.loaded
    fun lib value => ?_⟩
  rw [hafter, wants_addSchedulers_iff hschedulers]

end Step

/-- In a run whose loads succeed, the services are those of the configuration
after every update exactly when every update is reconcilable, given that
nothing outside disturbs it. -/
theorem reconciled_throughout_iff {ops : EbpfIf σ ω π}
    {sort : List OrderEntry → List OrderEntry}
    (inotify : InotifyManager ConfigCallback)
    (chain : Option (PinnedProgMap π)) {inputs : List (UpdateInput σ ω)}
    (hsucceed : StepsMeet (update ops sort)
      (fun session => session.daemon.LoadCalls ops (LoadSucceeds ops) sort)
      (start inotify chain) inputs) :
    StepsMeet (update ops sort) (Undisturbed ops) (start inotify chain)
          inputs ∧
        Throughout (update ops sort) Reconciled (start inotify chain) inputs ↔
      StepsMeet (update ops sort)
        (fun session input =>
          session.Undisturbed ops input ∧ session.Reconcilable input)
        (start inotify chain) inputs := by
  have hrule := @stepsMeet_and_throughout_iff (Session σ π) (UpdateInput σ ω)
    (update ops sort) Reconcilable Tracked Reconciled
    (fun session input =>
      session.daemon.LoadCalls ops (LoadSucceeds ops) sort input ∧
        session.Undisturbed ops input)
    (fun _ htracked => htracked.reconciled)
    (fun _ _ htracked hguard => htracked.update hguard.1 hguard.2)
    (fun _ _ htracked hguard =>
      htracked.reconcilable_of_reconciled hguard.1 hguard.2)
    (start inotify chain) inputs (start_tracked inotify chain)
  simp only [stepsMeet_and, hsucceed, true_and] at hrule ⊢
  exact hrule

end Session

structure Program where
  name : String
  id : UInt32
  deriving DecidableEq, Repr

def programOps : EbpfIf Program Unit Program where
  getName := Program.name
  getMainProg := some
  onConfigUpdate _ _ _ _ program := (.ok (), program)

def opening (program : Program) : Env Program Unit where
  opened := .started program
  file := .document .null
  outcomes := ()
  addWatch := true
  removeWatch := true

def sortByOrder : List OrderEntry → List OrderEntry :=
  List.insertionSort fun left right => left.order ≤ right.order

namespace Session

def fresh : Session Program Program :=
  start .start (some (.init defaultProgMap))

def lbOn (ifindex : Int32) : ConfigEbpf :=
  ⟨"libhebpf_lb_xdp.so", "", .xdpGeneric, ifindex, 1⟩

def lbEnv (name : String) : Env Program Unit :=
  opening (if name = "lb11" ∨ name = "lb12" then ⟨"lb", 7⟩
    else ⟨"scheduler", 5⟩)

def oneNic : UpdateInput Program Unit := ⟨⟨[("lb11", lbOn 11)], by decide⟩, lbEnv⟩

def twoNics : UpdateInput Program Unit :=
  ⟨⟨[("lb11", lbOn 11), ("lb12", lbOn 12)], by decide⟩, lbEnv⟩

def aclOn (ifindex : Int32) : ConfigEbpf :=
  ⟨"libhebpf_acl_xdp.so", "", .xdpGeneric, ifindex, 2⟩

def aclLbEnv (name : String) : Env Program Unit :=
  if name = "acl11" then opening ⟨"acl", 3⟩ else lbEnv name

/-- An access list joins the load balancer, which goes then. -/
def threeUpdates : List (UpdateInput Program Unit) :=
  [oneNic,
    ⟨⟨[("acl11", aclOn 11), ("lb11", lbOn 11)], by decide⟩, aclLbEnv⟩,
    ⟨⟨[("acl11", aclOn 11)], by decide⟩, aclLbEnv⟩]

theorem reconciled_throughout_iff_threeUpdates :
    StepsMeet (update programOps sortByOrder) (Undisturbed programOps) fresh
          threeUpdates ∧
        Throughout (update programOps sortByOrder) Reconciled fresh
          threeUpdates ↔
      StepsMeet (update programOps sortByOrder)
        (fun session input =>
          session.Undisturbed programOps input ∧ session.Reconcilable input)
        fresh threeUpdates := by
  refine reconciled_throughout_iff .start (some (.init defaultProgMap)) ?_
  refine ⟨⟨?_, ?_, trivial⟩, ⟨?_, ?_, ?_, trivial⟩, ⟨?_, ?_, trivial⟩, trivial⟩
  · intro before hbefore _
    cases hbefore
    rfl
  · intro before hbefore _
    cases hbefore
    rfl
  · intro before hbefore _
    cases hbefore
    rfl
  · intro before hbefore
    cases hbefore
  · intro before hbefore
    cases hbefore
  · intro before hbefore
    cases hbefore
  · intro before hbefore
    cases hbefore

/-- The loader has room for one service of the library only. -/
theorem not_reconciled_twoNics :
    StepsMeet (update programOps sortByOrder)
        (fun session => session.daemon.LoadCalls programOps
          (LoadSucceeds programOps) sortByOrder)
        fresh [twoNics] ∧
      ¬ (run (update programOps sortByOrder) fresh [twoNics]).Reconciled := by
  constructor
  · refine ⟨⟨?_, ?_, ?_, ?_, trivial⟩, trivial⟩
    · intro before hbefore _
      cases hbefore
      rfl
    · intro before hbefore habsent
      cases hbefore
      cases habsent
    · intro before hbefore _
      cases hbefore
      rfl
    · intro before hbefore _
      cases hbefore
      rfl
  · intro hreconciled
    have hfirst := (hreconciled "libhebpf_lb_xdp.so" (.xdpGeneric, 11)).mpr
      (Or.inl ⟨("lb11", lbOn 11), .head _, rfl⟩)
    have hsecond := (hreconciled "libhebpf_lb_xdp.so" (.xdpGeneric, 12)).mpr
      (Or.inl ⟨("lb12", lbOn 12), .tail _ (.head _), rfl⟩)
    have hsame := hfirst.symm.trans hsecond
    revert hsame
    decide

end Session

end Hebpf.Daemon
