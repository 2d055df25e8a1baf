import Hebpf.Daemon.ChainOrder

namespace Hebpf.Daemon

open Hebpf.Common Hebpf.Data Hebpf.Ebpf Hebpf.Ebpf.PinnedProgMap

attribute [local irreducible] getCanonicalName schedulerLib hookSuffix

variable {σ π : Type}

namespace Loader

variable {loader : Loader σ π} {chain : PinnedProgMap π} {hook : HookType}
  {ifindex : Int32}

theorem allocateChain_only (hchain : loader.chain = some chain)
    (hregions : chain.regions hook = ∅ ∨
      OnlyRegion (chain.regions hook) ifindex) :
    ∃ hookRegions, OnlyRegion hookRegions ifindex ∧
      (loader.allocateChain hook ifindex).2 = { loader with
        chain := some { chain with
          regions := Function.update chain.regions hook hookRegions } } := by
  obtain ⟨hookRegions, honly, hallocated⟩ := allocateRegion_only hregions
  refine ⟨hookRegions, honly, ?_⟩
  simp only [allocateChain, hchain, hallocated]

theorem allocateChains_only {pairs : List (String × Int32)}
    (hall : ∀ pair ∈ pairs, pair.2 = ifindex)
    (hchain : loader.chain = some chain)
    (honly : OnlyRegion (chain.regions hook) ifindex) :
    ∃ hookRegions, OnlyRegion hookRegions ifindex ∧
      pairs.foldl (fun loader pair => (loader.allocateChain hook pair.2).2)
        loader = { loader with
          chain := some { chain with
            regions := Function.update chain.regions hook hookRegions } } := by
  induction pairs generalizing loader chain with
  | nil =>
      refine ⟨chain.regions hook, honly, ?_⟩
      rw [Function.update_eq_self, ← hchain]
      rfl
  | cons pair rest ih =>
      obtain ⟨first, hfirst, hallocated⟩ :=
        allocateChain_only hchain (Or.inr honly)
      rw [List.foldl_cons, hall pair (.head _), hallocated]
      obtain ⟨hookRegions, hregions, hrest⟩ := @ih
        ⟨loader.services, loader.inotify, some { chain with
          regions := Function.update chain.regions hook first }⟩ _
        (fun other hother => hall other (.tail _ hother)) rfl
        (by simpa using hfirst)
      refine ⟨hookRegions, hregions, ?_⟩
      simp only [hrest, Function.update_idem]

theorem rebuildChain_spec (hchain : loader.chain = some chain)
    (hinitialized : chain.initialized = true) {maps : ChainMaps π}
    (hmaps : chain.hookMaps hook = some maps) (hzero : 0 ∉ maps.idhash.keys)
    (hifindex : ifindex.toUInt32 ≠ 0)
    (hregions : chain.regions hook = ∅ ∨
      OnlyRegion (chain.regions hook) ifindex)
    {orderedNames : List (String × Int32)} (hne : orderedNames ≠ [])
    (hall : ∀ pair ∈ orderedNames, pair.2 = ifindex)
    (hregistered : Registered chain.progRegistry hook
      (schedulerName hook :: orderedNames.map Prod.fst))
    (hroom : orderedNames.length < MAX_CHAIN_PROGS) :
    ∃ (hookRegions : Table Int32 Nat) (idhash : Idhash),
      OnlyRegion hookRegions ifindex ∧ 0 ∉ idhash.keys ∧
      Indexes chain.progRegistry hook ifindex 0
        (schedulerName hook :: orderedNames.map Prod.fst) idhash ∧
      loader.rebuildChain hook orderedNames = { loader with
        chain := some { chain with
          regions := Function.update chain.regions hook hookRegions
          hookMaps := Function.update chain.hookMaps hook
            (some { maps with idhash }) } } := by
  have hallocated : ∃ hookRegions, OnlyRegion hookRegions ifindex ∧
      orderedNames.foldl
        (fun loader pair => (loader.allocateChain hook pair.2).2) loader =
          { loader with
            chain := some { chain with
              regions := Function.update chain.regions hook hookRegions } } := by
    cases orderedNames with
    | nil => exact absurd rfl hne
    | cons pair rest =>
        obtain ⟨first, hfirst, hallocated⟩ :=
          allocateChain_only hchain hregions
        rw [List.foldl_cons, hall pair (.head _), hallocated]
        obtain ⟨hookRegions, honly, hrest⟩ := @allocateChains_only σ π
          ⟨loader.services, loader.inotify, some { chain with
            regions := Function.update chain.regions hook first }⟩ _ hook _ _
          (fun other hother => hall other (.tail _ hother)) rfl
          (by simpa using hfirst)
        refine ⟨hookRegions, honly, ?_⟩
        simp only [hrest, Function.update_idem]
  obtain ⟨hookRegions, honly, hfold⟩ := hallocated
  obtain ⟨idhash, hkeys, hindexes, hupdated⟩ := @updateChain_indexes π
    { chain with regions := Function.update chain.regions hook hookRegions }
    hinitialized hook maps hmaps hzero ifindex hifindex (by simpa using honly)
    orderedNames hne hall hregistered hroom
  refine ⟨hookRegions, idhash, honly, hkeys, hindexes, ?_⟩
  simp only [rebuildChain, hfold, updateProgChain, hupdated]

end Loader

/-- The maps of the hooks are in use, each hook of the configuration on the
interface it is used on. -/
structure Tables (progRegistry : String → Option ProgInfo) (config : EbpfMap)
    (chain : PinnedProgMap π) : Prop where
  initialized : chain.initialized = true
  registry : chain.progRegistry = progRegistry
  maps : ∀ hook, hook = .tc ∨ hook = .xdpGeneric →
    ∃ maps, chain.hookMaps hook = some maps ∧ 0 ∉ maps.idhash.keys
  regions : ∀ entry ∈ config, chain.regions entry.2.hook = ∅ ∨
    OnlyRegion (chain.regions entry.2.hook) entry.2.ifindex

def Indexed (sort : List OrderEntry → List OrderEntry)
    (progRegistry : String → Option ProgInfo) (config : EbpfMap)
    (chain : PinnedProgMap π) (hook : HookType) (ifindex : Int32) : Prop :=
  OnlyRegion (chain.regions hook) ifindex ∧
    ∀ maps, chain.hookMaps hook = some maps →
      Indexes progRegistry hook ifindex 0 (chainOf sort config hook)
        maps.idhash

theorem tables_init (progRegistry : String → Option ProgInfo)
    (config : EbpfMap) :
    Tables progRegistry config (.init progRegistry : PinnedProgMap π) where
  initialized := rfl
  registry := rfl
  maps := by
    intro hook hhook
    refine ⟨⟨.fill none, .empty⟩, ?_, by simp [Kernel.BpfHash.empty,
      Kernel.BpfHash.keys]⟩
    simp only [PinnedProgMap.init, if_pos hhook]
  regions _ _ := Or.inl rfl

section Rebuild

variable {sort : List OrderEntry → List OrderEntry}
  {progRegistry : String → Option ProgInfo} {config : EbpfMap}
  (hsort : SortsByOrder sort) (hdomain : InDomain progRegistry config)
  (hchainable : Chainable progRegistry config)
  (hschedulers : SchedulersRegistered progRegistry)

include hsort hdomain hchainable hschedulers

theorem rebuildChain_tables {loader : Loader σ π} {chain : PinnedProgMap π}
    (hchain : loader.chain = some chain)
    (htables : Tables progRegistry config chain)
    {entry : String × ConfigEbpf} (hentry : entry ∈ config) :
    ∃ rebuilt,
      (loader.rebuildChain entry.2.hook
        (hookOrder sort config entry.2.hook)).chain = some rebuilt ∧
      Tables progRegistry config rebuilt ∧
      Indexed sort progRegistry config rebuilt entry.2.hook
        entry.2.ifindex ∧
      (∀ hook k, rebuilt.slot hook k = chain.slot hook k) ∧
      ∀ hook, hook ≠ entry.2.hook →
        rebuilt.regions hook = chain.regions hook ∧
        rebuilt.hookMaps hook = chain.hookMaps hook := by
  obtain ⟨maps, hmaps, hzero⟩ :=
    htables.maps entry.2.hook (hdomain.hooks entry hentry)
  have hused : hookEntries config entry.2.hook ≠ [] :=
    List.ne_nil_of_mem (mem_hookEntries_iff.mpr ⟨entry.1, hentry, rfl⟩)
  have hnames : chainOf sort config entry.2.hook =
      schedulerName entry.2.hook ::
        (hookOrder sort config entry.2.hook).map Prod.fst := if_neg hused
  have hlength := hchainable.length_hookEntries hdomain entry.2.hook
  rw [← length_hookOrder hsort] at hlength
  have hne : hookOrder sort config entry.2.hook ≠ [] := by
    rw [← List.length_pos_iff, length_hookOrder hsort, List.length_pos_iff]
    exact hused
  obtain ⟨hookRegions, idhash, honly, hkeys, hindexes, hrebuilt⟩ :=
    Loader.rebuildChain_spec hchain htables.initialized hmaps hzero
      (hdomain.word_ne_zero hentry) (htables.regions entry hentry) hne
      (by
        intro pair hpair
        obtain ⟨name, cfg, hcfg, hhook, rfl⟩ :=
          (mem_hookOrder_iff hsort).mp hpair
        exact hchainable.interface (name, cfg) hcfg entry hentry hhook)
      (by
        rw [htables.registry, ← hnames]
        exact hchainable.registered hsort hdomain hschedulers entry.2.hook)
      (by simp only [MAX_CHAIN_PROGS]; omega)
  rw [htables.registry, ← hnames] at hindexes
  rw [hrebuilt]
  refine ⟨_, rfl, ⟨htables.initialized, htables.registry, ?_, ?_⟩,
    ⟨?_, ?_⟩, ?_, ?_⟩
  · intro hook hhook
    by_cases heq : hook = entry.2.hook
    · subst heq
      exact ⟨_, Function.update_self _ _ _, hkeys⟩
    · simp only [Function.update_of_ne heq]
      exact htables.maps hook hhook
  · intro other hother
    by_cases heq : other.2.hook = entry.2.hook
    · right
      rw [hchainable.interface other hother entry hentry heq, heq]
      simpa using honly
    · simp only [Function.update_of_ne heq]
      exact htables.regions other hother
  · simpa using honly
  · intro updated hupdated
    simp only [Function.update_self, Option.some.injEq] at hupdated
    subst hupdated
    exact hindexes
  · intro hook k
    by_cases heq : hook = entry.2.hook
    · subst heq
      simp only [slot, Function.update_self, hmaps, Option.bind_some]
    · simp only [slot, Function.update_of_ne heq]
  · intro hook hne
    exact ⟨Function.update_of_ne hne _ _, Function.update_of_ne hne _ _⟩

theorem foldl_rebuildChain_tables {hooks : List HookType}
    (hhooks : ∀ hook ∈ hooks, ∃ entry ∈ config, entry.2.hook = hook)
    {loader : Loader σ π} {chain : PinnedProgMap π}
    (hchain : loader.chain = some chain)
    (htables : Tables progRegistry config chain) :
    ∃ rebuilt, (hooks.foldl (fun loader hook => loader.rebuildChain hook
        (hookOrder sort config hook)) loader).chain = some rebuilt ∧
      Tables progRegistry config rebuilt ∧
      (∀ entry ∈ config, entry.2.hook ∈ hooks ∨ Indexed sort progRegistry
          config chain entry.2.hook entry.2.ifindex →
        Indexed sort progRegistry config rebuilt entry.2.hook
          entry.2.ifindex) ∧
      (∀ hook k, rebuilt.slot hook k = chain.slot hook k) ∧
      ∀ hook, hook ∉ hooks → rebuilt.regions hook = chain.regions hook := by
  induction hooks generalizing loader chain with
  | nil =>
      exact ⟨chain, hchain, htables, fun entry _ hor =>
        hor.resolve_left List.not_mem_nil, fun _ _ => rfl, fun _ _ => rfl⟩
  | cons hook rest ih =>
      obtain ⟨entry, hentry, rfl⟩ := hhooks hook (.head _)
      obtain ⟨first, hfirst, hfirstTables, hindexed, hslots, hothers⟩ :=
        rebuildChain_tables hsort hdomain hchainable hschedulers hchain
          htables hentry
      obtain ⟨rebuilt, hrebuilt, hrebuiltTables, hall, hkept, hregions⟩ :=
        ih (fun other hother => hhooks other (.tail _ hother)) hfirst
          hfirstTables
      refine ⟨rebuilt, hrebuilt, hrebuiltTables, ?_, fun hook k =>
        (hkept hook k).trans (hslots hook k), ?_⟩
      · intro other hother hor
        refine hall other hother ?_
        by_cases heq : other.2.hook = entry.2.hook
        · right
          rwa [heq, hchainable.interface other hother entry hentry heq]
        · refine hor.imp (fun hmem => ?_) fun hold => ?_
          · exact (List.mem_cons.mp hmem).resolve_left heq
          · rw [Indexed, (hothers _ heq).1, (hothers _ heq).2]
            exact hold
      · intro hook hnot
        obtain ⟨hne, hrest⟩ := not_or.mp (List.mem_cons.not.mp hnot)
        exact (hregions hook hrest).trans (hothers hook hne).1

theorem rebuildChains_tables {loader : Loader σ π} {chain : PinnedProgMap π}
    (hchain : loader.chain = some chain)
    (htables : Tables progRegistry config chain) :
    ∃ rebuilt, (loader.rebuildChains sort config).chain = some rebuilt ∧
      Tables progRegistry config rebuilt ∧
      (∀ entry ∈ config, Indexed sort progRegistry config rebuilt
        entry.2.hook entry.2.ifindex) ∧
      (∀ hook k, rebuilt.slot hook k = chain.slot hook k) ∧
      ∀ hook, hookEntries config hook = [] →
        rebuilt.regions hook = chain.regions hook := by
  have hhooks : ∀ hook ∈ (config.entries.map fun entry =>
      entry.2.hook).dedup, ∃ entry ∈ config, entry.2.hook = hook := by
    intro hook hhook
    obtain ⟨entry, hentry, rfl⟩ :=
      List.mem_map.mp (List.mem_dedup.mp hhook)
    exact ⟨entry, hentry, rfl⟩
  obtain ⟨rebuilt, hrebuilt, hrebuiltTables, hall, hslots, hregions⟩ :=
    foldl_rebuildChain_tables hsort hdomain hchainable hschedulers
      hhooks hchain htables
  refine ⟨rebuilt, hrebuilt, hrebuiltTables, fun entry hentry =>
    hall entry hentry (Or.inl ?_), hslots, fun hook hunused =>
      hregions hook fun hmem => ?_⟩
  · exact List.mem_dedup.mpr (List.mem_map.mpr ⟨entry, hentry, rfl⟩)
  · obtain ⟨entry, hentry, rfl⟩ := List.mem_map.mp (List.mem_dedup.mp hmem)
    have hmember : entry.2 ∈ hookEntries config entry.2.hook :=
      mem_hookEntries_iff.mpr ⟨entry.1, hentry, rfl⟩
    rw [hunused] at hmember
    cases hmember

end Rebuild

theorem insertProg_tables {sort : List OrderEntry → List OrderEntry}
    {progRegistry : String → Option ProgInfo} {config : EbpfMap}
    {chain : PinnedProgMap π} (htables : Tables progRegistry config chain)
    {hook : HookType} (hhook : hook = .tc ∨ hook = .xdpGeneric)
    {ifindex : Int32}
    (hindexed : Indexed sort progRegistry config chain hook ifindex)
    {name : String} {id : UInt32} (hid : progRegistry name = some ⟨id, hook⟩)
    {k : Nat} (hname : (chainOf sort config hook)[k]? = some name)
    (hk : k < MAX_CHAIN_PROGS) (prog : π) :
    let inserted := (chain.insertProg hook name prog ifindex).2
    Tables progRegistry config inserted ∧
      (∀ hook ifindex, Indexed sort progRegistry config chain hook ifindex →
        Indexed sort progRegistry config inserted hook ifindex) ∧
      inserted.regions = chain.regions ∧
      ∀ other j, j < MAX_CHAIN_PROGS → inserted.slot other j =
        if other = hook ∧ j = k then some prog else chain.slot other j := by
  obtain ⟨maps, hmaps, hzero⟩ := htables.maps hook hhook
  have hlookup := hindexed.2 maps hmaps k name id hname hid
  rw [Nat.zero_add] at hlookup
  obtain ⟨parray, hinserted, hslots⟩ := insertProg_slot htables.initialized
    hmaps (htables.registry ▸ hid) hk hlookup prog
  refine ⟨?_, ?_, by rw [hinserted], hslots⟩
  · rw [hinserted]
    refine ⟨htables.initialized, htables.registry, ?_, htables.regions⟩
    intro other hother
    by_cases heq : other = hook
    · subst heq
      exact ⟨_, Function.update_self _ _ _, hzero⟩
    · simp only [Function.update_of_ne heq]
      exact htables.maps other hother
  · rw [hinserted]
    rintro other nic ⟨honly, hindexes⟩
    refine ⟨honly, fun updated hupdated => ?_⟩
    by_cases heq : other = hook
    · subst heq
      simp only [Function.update_self, Option.some.injEq] at hupdated
      subst hupdated
      exact hindexes maps hmaps
    · simp only [Function.update_of_ne heq] at hupdated
      exact hindexes updated hupdated

end Hebpf.Daemon
