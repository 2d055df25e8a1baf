import Hebpf.Daemon.IssuedCalls
import Hebpf.Daemon.LoadedServices

namespace Hebpf.Daemon

open Hebpf.Common Hebpf.Data Hebpf.Ebpf

variable {σ ω π : Type}

def NamesNoScheduler (config : EbpfMap) : Prop :=
  ∀ entry ∈ config, ¬ "scheduler;".toList <+: entry.1.toList

theorem schedulerId_begins (hook : HookType) (ifindex : Int32) :
    "scheduler;".toList <+: (schedulerId hook ifindex).toList := by
  refine ⟨(hook.enumName ++ "_" ++ toString ifindex.toInt).toList, ?_⟩
  simp only [schedulerId, hookSuffix, String.toList_append, List.append_assoc]
  rfl

theorem NamesNoScheduler.not_isScheduler {config : EbpfMap}
    (hnames : NamesNoScheduler config) {entry : String × ConfigEbpf}
    (hentry : entry ∈ config) : isScheduler entry = false := by
  rw [isScheduler, decide_eq_false_iff_not]
  intro hname
  apply hnames entry hentry
  rw [hname]
  exact schedulerId_begins entry.2.hook entry.2.ifindex

namespace Loader

variable {env : String → Env σ ω} {config : EbpfMap} {loader : Loader σ π}

theorem removedCalls_of_kept {entries : List (String × ConfigEbpf)}
    (hkept : ∀ entry ∈ entries, entry ∈ config) :
    removedCalls env config entries loader = [] ∧
      unloadRemoved env config entries loader = (.ok (), loader) := by
  induction entries with
  | nil => exact ⟨rfl, rfl⟩
  | cons entry rest ih =>
      obtain ⟨name, cfg⟩ := entry
      obtain ⟨hentry, hrest⟩ := List.forall_mem_cons.mp hkept
      have hfound := OrderedMap.find?_eq_some_iff.mpr hentry
      unfold removedCalls unloadRemoved
      simp only [hfound]
      exact ih hrest

theorem entryCalls_of_held {current : EbpfMap} {name : String}
    {cfg : ConfigEbpf} (hheld : (name, cfg) ∈ current) (ops : EbpfIf σ ω π)
    (answers : Env σ ω) :
    loader.entryCalls answers current name cfg = [] ∧
      loader.updateEntry ops answers current name cfg = (.ok (), loader) := by
  have hfound := OrderedMap.find?_eq_some_iff.mpr hheld
  unfold entryCalls updateEntry
  simp [hfound]

theorem entriesCalls_of_held {current : EbpfMap} (ops : EbpfIf σ ω π)
    {entries : List (String × ConfigEbpf)}
    (hheld : ∀ entry ∈ entries, entry ∈ current) :
    entriesCalls ops env current entries loader = [] ∧
      updateEntries ops env current entries loader = (.ok (), loader) := by
  induction entries with
  | nil => exact ⟨rfl, rfl⟩
  | cons entry rest ih =>
      obtain ⟨name, cfg⟩ := entry
      obtain ⟨hentry, hrest⟩ := List.forall_mem_cons.mp hheld
      obtain ⟨hcalls, hanswer⟩ :=
        @entryCalls_of_held σ ω π loader current name cfg hentry ops (env name)
      unfold entriesCalls updateEntries
      rw [hcalls, hanswer]
      exact ih hrest

end Loader

namespace DaemonState

variable {ops : EbpfIf σ ω π} {sort : List OrderEntry → List OrderEntry}
  {daemon : DaemonState σ π} {input : UpdateInput σ ω}

theorem currentEbpf_update
    (hreturned : (daemon.update ops sort input).1 = .ok ()) :
    (daemon.update ops sort input).2.currentEbpf =
      addSchedulers input.config := by
  revert hreturned
  unfold update
  generalize daemon.prepare sort input = prepared
  obtain ⟨result, loader⟩ := prepared
  cases result with
  | error exc => simp
  | ok _ =>
      simp only
      generalize loader.updateEntries ops input.env daemon.currentEbpf
        (addSchedulers input.config).entries = updated
      obtain ⟨result, after⟩ := updated
      cases result with
      | error exc => simp
      | ok _ => simp

theorem update_of_inForce (ops : EbpfIf σ ω π)
    (sort : List OrderEntry → List OrderEntry)
    (hnames : NamesNoScheduler input.config)
    (hforce : daemon.currentEbpf = addSchedulers input.config) :
    daemon.calls ops sort input = [] ∧
      daemon.update ops sort input = (.ok (), daemon) := by
  have hcurrent : withoutSchedulers daemon.currentEbpf = input.config := by
    rw [hforce]
    exact withoutSchedulers_addSchedulers
      fun _ hentry => hnames.not_isScheduler hentry
  have hremoved := @Loader.removedCalls_of_kept σ ω π input.env input.config
    daemon.loader input.config.entries fun _ hentry => hentry
  have hentries := @Loader.entriesCalls_of_held σ ω π input.env daemon.loader
    daemon.currentEbpf ops (addSchedulers input.config).entries
    fun _ hentry => hforce ▸ hentry
  have hprepared : daemon.prepare sort input = (.ok (), daemon.loader) := by
    unfold prepare
    simp only [hcurrent, ne_eq, not_true_eq_false, if_false]
    exact hremoved.2
  constructor
  · unfold calls
    simp only [hcurrent, ne_eq, not_true_eq_false, if_false, hprepared,
      hentries.1, run_nil, hremoved.1, List.append_nil]
  · unfold update
    simp only [hprepared, hentries.2]
    rw [← hforce]

/-- Once an update has returned, another one with its configuration calls the
loader for nothing and leaves all as it is. -/
theorem update_again (ops : EbpfIf σ ω π)
    (sort : List OrderEntry → List OrderEntry) (daemon : DaemonState σ π)
    (config : EbpfMap) (env : String → Env σ ω)
    (hnames : NamesNoScheduler config)
    (hreturned : (daemon.update ops sort ⟨config, env⟩).1 = .ok ())
    (later : String → Env σ ω) :
    let after := (daemon.update ops sort ⟨config, env⟩).2
    after.calls ops sort ⟨config, later⟩ = [] ∧
      after.update ops sort ⟨config, later⟩ = (.ok (), after) :=
  update_of_inForce ops sort hnames (currentEbpf_update hreturned)

/-- The load balancer on one interface, twice. -/
theorem update_again_oneNic :
    NamesNoScheduler Session.oneNic.config ∧
      ((start .start (some (.init defaultProgMap))).update programOps
        sortByOrder Session.oneNic).1 = .ok () ∧
      let after := ((start .start (some (.init defaultProgMap))).update
        programOps sortByOrder Session.oneNic).2
      after.calls programOps sortByOrder Session.oneNic = [] ∧
        after.update programOps sortByOrder Session.oneNic = (.ok (), after) := by
  have hnames : NamesNoScheduler Session.oneNic.config := by
    intro entry hentry
    obtain rfl := List.mem_singleton.mp hentry
    decide
  have hreturned : ((start .start (some (.init defaultProgMap))).update
      programOps sortByOrder Session.oneNic).1 = .ok () := rfl
  exact ⟨hnames, hreturned, update_again programOps sortByOrder _
    Session.oneNic.config Session.oneNic.env hnames hreturned
    Session.oneNic.env⟩

end DaemonState

end Hebpf.Daemon
