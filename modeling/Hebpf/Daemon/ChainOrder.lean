import Hebpf.Daemon.Update
import Hebpf.Ebpf.ChainIndex

namespace Hebpf.Daemon

open Hebpf.Common Hebpf.Data Hebpf.Ebpf Hebpf.Ebpf.PinnedProgMap Loader

attribute [local irreducible] getCanonicalName schedulerLib hookSuffix

def canonicalName (cfg : ConfigEbpf) : String :=
  getCanonicalName cfg.hook .library cfg.lib

def officialName (entry : String × ConfigEbpf) : String :=
  if isScheduler entry then schedulerName entry.2.hook
  else canonicalName entry.2

theorem officialName_congr (name : String) {held cfg : ConfigEbpf}
    (hplace : place held = place cfg) :
    officialName (name, held) = officialName (name, cfg) := by
  obtain ⟨lib, config, hook, ifindex, order⟩ := held
  obtain ⟨rfl, rfl, rfl⟩ : lib = cfg.lib ∧ hook = cfg.hook ∧
      ifindex = cfg.ifindex := by
    simpa [place] using hplace
  rfl

def chainOf (sort : List OrderEntry → List OrderEntry) (config : EbpfMap)
    (hook : HookType) : List String :=
  if hookEntries config hook = [] then []
  else schedulerName hook :: (hookOrder sort config hook).map Prod.fst

def entriesOn (config : EbpfMap) (hook : HookType) (ifindex : Int32) :
    List ConfigEbpf :=
  (hookEntries config hook).filter fun cfg => cfg.ifindex = ifindex

theorem mem_hookEntries_iff {config : EbpfMap} {hook : HookType}
    {cfg : ConfigEbpf} :
    cfg ∈ hookEntries config hook ↔
      ∃ name, (name, cfg) ∈ config ∧ cfg.hook = hook := by
  simp only [hookEntries, List.mem_filter, List.mem_map, decide_eq_true_eq]
  constructor
  · rintro ⟨⟨⟨name, cfg⟩, hentry, rfl⟩, hhook⟩
    exact ⟨name, hentry, hhook⟩
  · rintro ⟨name, hentry, hhook⟩
    exact ⟨⟨(name, cfg), hentry, rfl⟩, hhook⟩

/-- What the configurations are promised to be: hooks with a chain, real
interfaces, few entries for each, one library and one program id for each. -/
structure InDomain (progRegistry : String → Option ProgInfo)
    (config : EbpfMap) : Prop where
  hooks : ∀ entry ∈ config,
    entry.2.hook = .tc ∨ entry.2.hook = .xdpGeneric
  ifindexes : ∀ entry ∈ config, 0 < entry.2.ifindex
  few : ∀ hook ifindex, (entriesOn config hook ifindex).length ≤ 6
  libs : ∀ first ∈ config, ∀ second ∈ config,
    first.2.lib = second.2.lib → first = second
  registered : ∀ entry ∈ config, ∃ id,
    progRegistry (canonicalName entry.2) = some ⟨id, entry.2.hook⟩
  ids : ∀ first ∈ config, ∀ second ∈ config, ∀ id,
    first.2.ifindex = second.2.ifindex →
    progRegistry (canonicalName first.2) = some ⟨id, first.2.hook⟩ →
    progRegistry (canonicalName second.2) = some ⟨id, first.2.hook⟩ →
    first = second

/-- Each hook is used on one interface, and no entry passes for a scheduler: by
its name, by its library or by its program. -/
structure Chainable (progRegistry : String → Option ProgInfo)
    (config : EbpfMap) : Prop where
  interface : ∀ first ∈ config, ∀ second ∈ config,
    first.2.hook = second.2.hook → first.2.ifindex = second.2.ifindex
  schedulerIds : ∀ entry ∈ config,
    config.find? (schedulerId entry.2.hook entry.2.ifindex) = none
  schedulerLibs : ∀ entry ∈ config, ∀ hook ifindex,
    entry.2.lib ≠ schedulerPath hook ifindex
  schedulerNames : ∀ entry ∈ config, ∀ id,
    progRegistry (schedulerName entry.2.hook) = some ⟨id, entry.2.hook⟩ →
    progRegistry (canonicalName entry.2) ≠ some ⟨id, entry.2.hook⟩

theorem InDomain.word_ne_zero {progRegistry : String → Option ProgInfo}
    {config : EbpfMap} (hdomain : InDomain progRegistry config)
    {entry : String × ConfigEbpf} (hentry : entry ∈ config) :
    entry.2.ifindex.toUInt32 ≠ 0 := by
  intro hzero
  have hpositive := hdomain.ifindexes entry hentry
  rw [show entry.2.ifindex = 0 from congrArg UInt32.toInt32 hzero]
    at hpositive
  exact absurd hpositive (by decide)

def SchedulersRegistered (progRegistry : String → Option ProgInfo) : Prop :=
  ∀ hook, hook = .tc ∨ hook = .xdpGeneric →
    ∃ id, progRegistry (schedulerName hook) = some ⟨id, hook⟩

section Schedulers

variable {progRegistry : String → Option ProgInfo} {config : EbpfMap}

theorem Chainable.not_isScheduler (hchainable : Chainable progRegistry config)
    {entry : String × ConfigEbpf} (hentry : entry ∈ config) :
    isScheduler entry = false := by
  have hfree := hchainable.schedulerIds entry hentry
  rw [isScheduler, decide_eq_false_iff_not]
  intro heq
  rw [← heq] at hfree
  exact OrderedMap.find?_eq_none_iff.mp hfree entry.2 hentry

theorem Chainable.mem_addSchedulers_iff
    (hchainable : Chainable progRegistry config)
    {entry : String × ConfigEbpf} :
    entry ∈ addSchedulers config ↔
      entry ∈ config ∨ ∃ other ∈ config,
        entry = (schedulerId other.2.hook other.2.ifindex,
          schedulerConfig other.2.hook other.2.ifindex) := by
  rw [Hebpf.Daemon.mem_addSchedulers_iff]
  refine or_congr_right ⟨?_, ?_⟩
  · rintro ⟨other, hother, hentry, -⟩
    exact ⟨other, hother, hentry⟩
  · rintro ⟨other, hother, hentry⟩
    exact ⟨other, hother, hentry, hchainable.schedulerIds other hother⟩

theorem Chainable.withoutSchedulers_addSchedulers
    (hchainable : Chainable progRegistry config) :
    withoutSchedulers (addSchedulers config) = config :=
  Hebpf.Daemon.withoutSchedulers_addSchedulers
    fun _ hentry => hchainable.not_isScheduler hentry

theorem Chainable.lib_inj (hchainable : Chainable progRegistry config)
    (hdomain : InDomain progRegistry config)
    {first second : String × ConfigEbpf}
    (hfirst : first ∈ addSchedulers config)
    (hsecond : second ∈ addSchedulers config)
    (hlib : first.2.lib = second.2.lib) : first = second := by
  rcases hchainable.mem_addSchedulers_iff.mp hfirst with
    hfirst | ⟨other, -, rfl⟩ <;>
  rcases hchainable.mem_addSchedulers_iff.mp hsecond with
    hsecond | ⟨another, -, rfl⟩
  · exact hdomain.libs first hfirst second hsecond hlib
  · exact absurd hlib (hchainable.schedulerLibs first hfirst _ _)
  · exact absurd hlib.symm (hchainable.schedulerLibs second hsecond _ _)
  · obtain ⟨hhook, hifindex⟩ := schedulerPath_inj.mp hlib
    rw [hhook, hifindex]

theorem officialName_scheduler (hook : HookType) (ifindex : Int32) :
    officialName (schedulerId hook ifindex, schedulerConfig hook ifindex) =
      schedulerName hook := by
  rw [officialName, if_pos (isScheduler_added hook ifindex)]
  rfl

theorem Chainable.officialName_eq (hchainable : Chainable progRegistry config)
    {entry : String × ConfigEbpf} (hentry : entry ∈ config) :
    officialName entry = canonicalName entry.2 := by
  rw [officialName, hchainable.not_isScheduler hentry]
  rfl

theorem Chainable.exists_config (hchainable : Chainable progRegistry config)
    {entry : String × ConfigEbpf} (hentry : entry ∈ addSchedulers config) :
    ∃ other ∈ config, other.2.hook = entry.2.hook ∧
      other.2.ifindex = entry.2.ifindex := by
  rcases hchainable.mem_addSchedulers_iff.mp hentry with
    hconfig | ⟨other, hother, rfl⟩
  · exact ⟨entry, hconfig, rfl, rfl⟩
  · exact ⟨other, hother, rfl, rfl⟩

end Schedulers

section Order

variable {sort : List OrderEntry → List OrderEntry} {config : EbpfMap}
  {progRegistry : String → Option ProgInfo}

theorem chainOf_zero (sort : List OrderEntry → List OrderEntry)
    {entry : String × ConfigEbpf} (hentry : entry ∈ config) :
    (chainOf sort config entry.2.hook)[0]? =
      some (schedulerName entry.2.hook) := by
  rw [chainOf, if_neg]
  · rfl
  · exact List.ne_nil_of_mem (mem_hookEntries_iff.mpr ⟨entry.1, hentry, rfl⟩)

theorem Chainable.entriesOn_eq (hchainable : Chainable progRegistry config)
    {entry : String × ConfigEbpf} (hentry : entry ∈ config) :
    entriesOn config entry.2.hook entry.2.ifindex =
      hookEntries config entry.2.hook := by
  refine List.filter_eq_self.mpr fun cfg hcfg => ?_
  obtain ⟨name, hmem, hhook⟩ := mem_hookEntries_iff.mp hcfg
  exact decide_eq_true
    (hchainable.interface (name, cfg) hmem entry hentry hhook)

theorem Chainable.length_hookEntries
    (hchainable : Chainable progRegistry config)
    (hdomain : InDomain progRegistry config) (hook : HookType) :
    (hookEntries config hook).length ≤ 6 := by
  cases hentries : hookEntries config hook with
  | nil => simp
  | cons cfg rest =>
      obtain ⟨name, hcfg, rfl⟩ :=
        mem_hookEntries_iff.mp (hentries ▸ List.mem_cons_self)
      rw [← hentries, ← hchainable.entriesOn_eq hcfg]
      exact hdomain.few cfg.hook cfg.ifindex

theorem Chainable.distinct (hchainable : Chainable progRegistry config)
    (hdomain : InDomain progRegistry config) (hook : HookType) :
    (hookEntries config hook).Pairwise fun left right => ∀ id,
      progRegistry (canonicalName left) = some ⟨id, hook⟩ →
        progRegistry (canonicalName right) ≠ some ⟨id, hook⟩ := by
  rw [hookEntries, List.pairwise_filter, List.pairwise_map]
  refine config.sorted.imp_of_mem ?_
  intro left right hleft hright hlt hleftHook hrightHook id hid hother
  obtain rfl := of_decide_eq_true hleftHook
  have hsame := hdomain.ids left hleft right hright id
    (hchainable.interface left hleft right hright
      (of_decide_eq_true hrightHook).symm) hid hother
  exact (ne_of_lt hlt) (congrArg Prod.fst hsame)

theorem Chainable.officialName_inj (hchainable : Chainable progRegistry config)
    (hdomain : InDomain progRegistry config)
    (hschedulers : SchedulersRegistered progRegistry)
    {first second : String × ConfigEbpf}
    (hfirst : first ∈ addSchedulers config)
    (hsecond : second ∈ addSchedulers config)
    (hhook : first.2.hook = second.2.hook)
    (hname : officialName first = officialName second) : first = second := by
  -- A scheduler's name belongs to no entry of the configuration.
  have hapart : ∀ {entry other : String × ConfigEbpf}, entry ∈ config →
      other ∈ config → entry.2.hook = other.2.hook →
      canonicalName entry.2 ≠ schedulerName other.2.hook := by
    intro entry other hentry hother heq hsame
    obtain ⟨id, hid⟩ := hschedulers _ (hdomain.hooks other hother)
    rw [← heq] at hid hsame
    exact hchainable.schedulerNames entry hentry id hid (hsame ▸ hid)
  rcases hchainable.mem_addSchedulers_iff.mp hfirst with
    hfirst | ⟨other, hother, rfl⟩ <;>
  rcases hchainable.mem_addSchedulers_iff.mp hsecond with
    hsecond | ⟨another, hanother, rfl⟩
  · rw [hchainable.officialName_eq hfirst, hchainable.officialName_eq hsecond]
      at hname
    obtain ⟨id, hid⟩ := hdomain.registered first hfirst
    exact hdomain.ids first hfirst second hsecond id
      (hchainable.interface first hfirst second hsecond hhook) hid
      (hname ▸ hid)
  · rw [hchainable.officialName_eq hfirst, officialName_scheduler] at hname
    exact absurd hname (hapart hfirst hanother hhook)
  · rw [hchainable.officialName_eq hsecond, officialName_scheduler] at hname
    exact absurd hname.symm (hapart hsecond hother hhook.symm)
  · obtain hsame := hchainable.interface other hother another hanother hhook
    rw [show other.2.hook = another.2.hook from hhook, hsame]

variable (hsort : SortsByOrder sort)

include hsort

theorem exists_sorted (config : EbpfMap) (hook : HookType) :
    ∃ chain : List ConfigEbpf, chain.Perm (hookEntries config hook) ∧
      chain.Pairwise (fun left right => left.order ≤ right.order) ∧
      hookOrder sort config hook =
        chain.map fun cfg => (canonicalName cfg, cfg.ifindex) := by
  have hperm := hsort.perm
    ((hookEntries config hook).map ConfigEbpf.orderEntry)
  rw [← congrFun (congrFun (List.eq_map_comp_perm ConfigEbpf.orderEntry) _) _]
    at hperm
  obtain ⟨chain, hchain, hmem⟩ := hperm
  refine ⟨chain, hmem, ?_, ?_⟩
  · have hordered := hsort.ordered
      ((hookEntries config hook).map ConfigEbpf.orderEntry)
    rw [hchain, List.pairwise_map] at hordered
    exact hordered
  · rw [hookOrder, hchain, List.map_map]
    rfl

theorem mem_hookOrder_iff {hook : HookType} {pair : String × Int32} :
    pair ∈ hookOrder sort config hook ↔
      ∃ name cfg, (name, cfg) ∈ config ∧ cfg.hook = hook ∧
        pair = (canonicalName cfg, cfg.ifindex) := by
  obtain ⟨chain, hperm, -, hchain⟩ := exists_sorted hsort config hook
  rw [hchain]
  simp only [List.mem_map, hperm.mem_iff, mem_hookEntries_iff]
  constructor
  · rintro ⟨cfg, ⟨name, hentry, hhook⟩, rfl⟩
    exact ⟨name, cfg, hentry, hhook, rfl⟩
  · rintro ⟨name, cfg, hentry, hhook, rfl⟩
    exact ⟨cfg, ⟨name, hentry, hhook⟩, rfl⟩

theorem length_hookOrder (config : EbpfMap) (hook : HookType) :
    (hookOrder sort config hook).length =
      (hookEntries config hook).length := by
  obtain ⟨chain, hperm, -, hchain⟩ := exists_sorted hsort config hook
  rw [hchain, List.length_map, hperm.length_eq]

theorem Chainable.length_chainOf (hchainable : Chainable progRegistry config)
    (hdomain : InDomain progRegistry config) (hook : HookType) :
    (chainOf sort config hook).length < MAX_PER_NIC_PROGS := by
  have hlength := hchainable.length_hookEntries hdomain hook
  unfold chainOf
  split_ifs
  · decide
  · simp only [List.length_cons, List.length_map, length_hookOrder hsort,
      MAX_PER_NIC_PROGS]
    omega

theorem officialName_mem_chainOf (hchainable : Chainable progRegistry config)
    {entry : String × ConfigEbpf} (hentry : entry ∈ addSchedulers config) :
    officialName entry ∈ chainOf sort config entry.2.hook := by
  have hne : hookEntries config entry.2.hook ≠ [] := by
    obtain ⟨other, hother, hhook, -⟩ := hchainable.exists_config hentry
    exact List.ne_nil_of_mem
      (mem_hookEntries_iff.mpr ⟨other.1, hother, hhook⟩)
  rw [chainOf, if_neg hne]
  rcases hchainable.mem_addSchedulers_iff.mp hentry with
    hconfig | ⟨other, hother, rfl⟩
  · rw [hchainable.officialName_eq hconfig]
    exact .tail _ (List.mem_map.mpr ⟨_, (mem_hookOrder_iff hsort).mpr
      ⟨entry.1, entry.2, hconfig, rfl, rfl⟩, rfl⟩)
  · rw [officialName_scheduler]
    exact .head _

theorem Chainable.registered (hchainable : Chainable progRegistry config)
    (hdomain : InDomain progRegistry config)
    (hschedulers : SchedulersRegistered progRegistry) (hook : HookType) :
    Registered progRegistry hook (chainOf sort config hook) := by
  unfold chainOf
  split_ifs with hempty
  · exact ⟨by simp, .nil⟩
  obtain ⟨chain, hperm, -, hchain⟩ := exists_sorted hsort config hook
  have hentry : ∀ cfg ∈ chain, ∃ name, (name, cfg) ∈ config ∧
      cfg.hook = hook := fun cfg hcfg =>
    mem_hookEntries_iff.mp (hperm.mem_iff.mp hcfg)
  have hscheduler : ∃ id, progRegistry (schedulerName hook) =
      some ⟨id, hook⟩ := by
    obtain ⟨cfg, hcfg⟩ := List.exists_mem_of_ne_nil _ hempty
    obtain ⟨name, hmem, rfl⟩ := mem_hookEntries_iff.mp hcfg
    exact hschedulers cfg.hook (hdomain.hooks _ hmem)
  rw [hchain, List.map_map]
  constructor
  · intro name hname
    rcases List.mem_cons.mp hname with rfl | hname
    · exact hscheduler
    · obtain ⟨cfg, hcfg, rfl⟩ := List.mem_map.mp hname
      obtain ⟨otherName, hmem, rfl⟩ := hentry cfg hcfg
      exact hdomain.registered _ hmem
  · refine List.pairwise_cons.mpr ⟨?_, ?_⟩
    · intro name hname id hid
      obtain ⟨cfg, hcfg, rfl⟩ := List.mem_map.mp hname
      obtain ⟨otherName, hmem, rfl⟩ := hentry cfg hcfg
      exact hchainable.schedulerNames _ hmem id hid
    · rw [List.pairwise_map]
      refine (hperm.pairwise_iff ?_).mpr
        (hchainable.distinct hdomain hook)
      intro left right hdistinct id hleft hright
      exact hdistinct id hright hleft

end Order

end Hebpf.Daemon
