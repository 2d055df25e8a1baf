import Hebpf.Daemon.ChainLoop
import Hebpf.Daemon.LoadedServices

namespace Hebpf.Daemon

open Hebpf.Common Hebpf.Data Hebpf.Ebpf Hebpf.Ebpf.PinnedProgMap
  Hebpf.Inotify Loader

section

attribute [local irreducible] getCanonicalName schedulerLib hookSuffix

variable {σ ω π : Type}

def Loader.walk (ops : EbpfIf σ ω π) (progId : π → UInt32)
    (loader : Loader σ π) (hook : HookType) (ifindex : Int32) : List π :=
  match loader.mainProg ops (schedulerPath hook ifindex),
      loader.chain.bind fun chain => chain.hookMaps hook with
  | some scheduler, some maps =>
      (walkFrom progId maps ifindex.toUInt32 MAX_TAIL_CALL_CNT scheduler).tail
  | _, _ => []

namespace Session

/-- On each interface a packet meets the programs of the entries there, each
once, in ascending order. -/
def Executed (ops : EbpfIf σ ω π) (progId : π → UInt32)
    (session : Session σ π) : Prop :=
  ∀ hook ifindex, ∃ chain : List ConfigEbpf,
    chain.Perm (entriesOn session.config hook ifindex) ∧
    chain.Pairwise (fun left right => left.order ≤ right.order) ∧
    chain.map (fun cfg => session.daemon.loader.mainProg ops cfg.lib) =
      (session.daemon.loader.walk ops progId hook ifindex).map some

/-- Each hook stays on its interface and loses no room, and the entries that
stay keep their places in its chain. -/
structure ChainStable (ops : EbpfIf σ ω π)
    (sort : List OrderEntry → List OrderEntry)
    (progRegistry : String → Option ProgInfo) (session : Session σ π)
    (input : UpdateInput σ ω) : Prop where
  chainable : Chainable progRegistry input.config
  retaken : ∀ entry ∈ input.config, ∀ held,
    session.config.find? (schedulerId entry.2.hook entry.2.ifindex) =
        some held →
      ∀ other ∈ input.config, other.2.lib = held.lib →
        schedulerId entry.2.hook entry.2.ifindex < other.1
  interface : ∀ held ∈ session.config, ∀ entry ∈ input.config,
    held.2.hook = entry.2.hook → held.2.ifindex = entry.2.ifindex
  room : ∀ hook, (hookEntries session.config hook).length ≤
    (hookEntries input.config hook).length
  places : ∀ entry ∈ input.config, Kept session.config entry → ∀ k : Nat,
    (chainOf sort session.config entry.2.hook)[k]? =
        some (canonicalName entry.2) →
      (chainOf sort input.config entry.2.hook)[k]? =
        some (canonicalName entry.2)
  accepts : ∀ entry ∈ input.config, Reconfigured session.config entry →
    AcceptsConfig ops (input.env entry.1) entry.2

structure Arranged (ops : EbpfIf σ ω π) (progId : π → UInt32)
    (sort : List OrderEntry → List OrderEntry)
    (progRegistry : String → Option ProgInfo) (session : Session σ π) :
    Prop where
  current : session.daemon.currentEbpf = addSchedulers session.config
  domain : InDomain progRegistry session.config
  chainable : Chainable progRegistry session.config
  progress : ∃ chain, Progress ops progId sort progRegistry .empty
    session.config [] (addSchedulers session.config).entries []
    session.daemon.loader chain

section Arranged

variable {ops : EbpfIf σ ω π} {progId : π → UInt32}
  {sort : List OrderEntry → List OrderEntry}
  {progRegistry : String → Option ProgInfo} {session : Session σ π}

theorem loadedLibs_nil (current : EbpfMap) (gone : List String)
    (before : List (String × ConfigEbpf)) :
    loadedLibs current gone before [] =
      before.map fun entry => entry.2.lib := by
  rw [loadedLibs, List.filterMap_nil, List.append_nil]

theorem Arranged.mainProg_scheduler_eq_none
    (harranged : session.Arranged ops progId sort progRegistry)
    {hook : HookType} {ifindex : Int32}
    (hunused : ¬ ∃ entry ∈ session.config,
      entry.2.hook = hook ∧ entry.2.ifindex = ifindex) :
    session.daemon.loader.mainProg ops (schedulerPath hook ifindex) =
      none := by
  obtain ⟨chain, hprogress⟩ := harranged.progress
  refine Option.bind_eq_none_iff.mpr fun service hservice => ?_
  have hlib := (hprogress.libs (schedulerPath hook ifindex)).mp
    (by rw [hservice]; rfl)
  rw [loadedLibs_nil] at hlib
  obtain ⟨entry, hentry, hlib⟩ := List.mem_map.mp hlib
  exfalso
  rcases harranged.chainable.mem_addSchedulers_iff.mp hentry with
    hconfig | ⟨other, hother, rfl⟩
  · exact harranged.chainable.schedulerLibs entry hconfig hook ifindex hlib
  · obtain ⟨hhook, hifindex⟩ := schedulerPath_inj.mp hlib
    exact hunused ⟨other, hother, hhook, hifindex⟩

theorem exists_map_some {α β : Type} {f : α → Option β} {inputs : List α}
    (hall : ∀ input ∈ inputs, (f input).isSome) :
    ∃ outputs : List β, outputs.map some = inputs.map f := by
  refine ⟨inputs.filterMap f, ?_⟩
  rw [List.map_filterMap_some_eq_filter_map_isSome, List.filter_eq_self.mpr]
  intro output houtput
  obtain ⟨input, hinput, rfl⟩ := List.mem_map.mp houtput
  exact hall input hinput

theorem Arranged.exists_program
    (harranged : session.Arranged ops progId sort progRegistry)
    {chain : PinnedProgMap π}
    (hprogress : Progress ops progId sort progRegistry .empty session.config []
      (addSchedulers session.config).entries [] session.daemon.loader chain)
    {hook : HookType} {cfg : ConfigEbpf}
    (hcfg : cfg ∈ hookEntries session.config hook) :
    ∃ prog, session.daemon.loader.mainProg ops cfg.lib = some prog ∧
      progRegistry (canonicalName cfg) = some ⟨progId prog, hook⟩ ∧
      ∀ k, (chainOf sort session.config hook)[k]? = some (canonicalName cfg) →
        chain.slot hook k = some prog := by
  obtain ⟨name, hmem, rfl⟩ := mem_hookEntries_iff.mp hcfg
  have hentry := harranged.chainable.mem_addSchedulers_iff.mpr (Or.inl hmem)
  obtain ⟨prog, hprog, hid, hplace⟩ := hprogress.done (name, cfg) hentry
  rw [harranged.chainable.officialName_eq hmem] at hid hplace
  exact ⟨prog, hprog, hid, hplace⟩

theorem Arranged.exists_layout (hsort : SortsByOrder sort)
    (harranged : session.Arranged ops progId sort progRegistry)
    {entry : String × ConfigEbpf} (hentry : entry ∈ session.config) :
    ∃ (order : List ConfigEbpf) (scheduler : π) (progs : List π)
        (maps : ChainMaps π),
      order.Perm (hookEntries session.config entry.2.hook) ∧
      order.Pairwise (fun left right => left.order ≤ right.order) ∧
      session.daemon.loader.mainProg ops
          (schedulerPath entry.2.hook entry.2.ifindex) = some scheduler ∧
      progs.map some =
        order.map (fun cfg => session.daemon.loader.mainProg ops cfg.lib) ∧
      session.daemon.loader.chain.bind
          (fun chain => chain.hookMaps entry.2.hook) = some maps ∧
      ChainLayout progId maps entry.2.ifindex.toUInt32 0
        (scheduler :: progs) := by
  obtain ⟨chain, hprogress⟩ := harranged.progress
  have hchainable := harranged.chainable
  obtain ⟨order, hperm, hordered, hnames⟩ :=
    exists_sorted hsort session.config entry.2.hook
  have hchain : chainOf sort session.config entry.2.hook =
      schedulerName entry.2.hook :: order.map canonicalName := by
    rw [chainOf, if_neg, hnames, List.map_map]
    · rfl
    · exact List.ne_nil_of_mem
        (mem_hookEntries_iff.mpr ⟨entry.1, hentry, rfl⟩)
  obtain ⟨scheduler, hscheduler, hid, hslot⟩ := hprogress.done
    (schedulerId entry.2.hook entry.2.ifindex,
      schedulerConfig entry.2.hook entry.2.ifindex)
    (hchainable.mem_addSchedulers_iff.mpr (Or.inr ⟨entry, hentry, rfl⟩))
  rw [officialName_scheduler] at hid hslot
  have hstands := fun cfg hcfg => harranged.exists_program hprogress
    (hperm.mem_iff.mp hcfg : cfg ∈ hookEntries session.config entry.2.hook)
  obtain ⟨progs, hprogs⟩ := exists_map_some fun cfg hcfg => by
    obtain ⟨prog, hprog, -⟩ := hstands cfg hcfg
    exact Option.isSome_of_eq_some hprog
  have hlength : progs.length = order.length := by
    simpa using congrArg List.length hprogs
  have hfew := hchainable.length_hookEntries harranged.domain entry.2.hook
  rw [← hperm.length_eq, ← hlength] at hfew
  obtain ⟨maps, hmaps, -⟩ := hprogress.written.tables.maps entry.2.hook
    (harranged.domain.hooks entry hentry)
  refine ⟨order, scheduler, progs, maps, hperm, hordered, hscheduler, hprogs,
    by rw [hprogress.holds, Option.bind_some, hmaps], ?_⟩
  refine chainLayout_of_indexes hmaps
    ((hprogress.written.indexed entry hentry).2 maps hmaps)
    (by simp only [List.length_cons, MAX_CHAIN_PROGS]; omega) ?_ ?_
  · intro k prog hprog
    cases k with
    | zero =>
        cases Option.some.inj hprog
        have hfirst := chainOf_zero sort hentry
        exact ⟨_, hfirst, hid, hslot 0 hfirst⟩
    | succ k =>
        have hat := congrArg (·[k]?) hprogs
        rw [List.getElem?_cons_succ] at hprog
        simp only [List.getElem?_map, hprog, Option.map_some] at hat
        obtain ⟨cfg, hcfg, hmain⟩ := Option.map_eq_some_iff.mp hat.symm
        obtain ⟨other, hother, hotherId, hplace⟩ :=
          hstands cfg (List.mem_of_getElem? hcfg)
        cases hmain.symm.trans hother
        have hname : (chainOf sort session.config entry.2.hook)[k + 1]? =
            some (canonicalName cfg) := by
          rw [hchain, List.getElem?_cons_succ, List.getElem?_map, hcfg]
          rfl
        exact ⟨_, hname, hotherId, hplace _ hname⟩
  · refine hprogress.written.beyond _ _ ?_ ?_
    · rw [hchain, List.length_cons, List.length_cons, List.length_map, hlength]
    · simp only [List.length_cons, MAX_CHAIN_PROGS]
      omega

theorem Arranged.executed (hsort : SortsByOrder sort)
    (harranged : session.Arranged ops progId sort progRegistry) :
    session.Executed ops progId := by
  intro hook ifindex
  by_cases hused : ∃ entry ∈ session.config,
      entry.2.hook = hook ∧ entry.2.ifindex = ifindex
  · obtain ⟨entry, hentry, rfl, rfl⟩ := hused
    obtain ⟨order, scheduler, progs, maps, hperm, hordered, hscheduler,
      hprogs, hmaps, hlayout⟩ := harranged.exists_layout hsort hentry
    refine ⟨order, harranged.chainable.entriesOn_eq hentry ▸ hperm, hordered,
      ?_⟩
    have hcalls : progs.length ≤ MAX_TAIL_CALL_CNT := by
      have hbound := hlayout.bound
      simp only [List.length_cons, MAX_CHAIN_PROGS] at hbound
      simp only [MAX_TAIL_CALL_CNT]
      omega
    simp only [walk, hscheduler, hmaps, hlayout.walkFrom_eq hcalls,
      List.tail_cons, hprogs]
  · have hempty : entriesOn session.config hook ifindex = [] := by
      refine List.filter_eq_nil_iff.mpr fun cfg hcfg hifindex => hused ?_
      obtain ⟨name, hmem, hhook⟩ := mem_hookEntries_iff.mp hcfg
      exact ⟨(name, cfg), hmem, hhook, of_decide_eq_true hifindex⟩
    exact ⟨[], hempty ▸ .nil, .nil, by
      simp [walk, harranged.mainProg_scheduler_eq_none hused]⟩

end Arranged

section Step

variable {ops : EbpfIf σ ω π} {progId : π → UInt32}
  {sort : List OrderEntry → List OrderEntry}
  {progRegistry : String → Option ProgInfo} {session : Session σ π}
  {input : UpdateInput σ ω}

theorem ChainStable.kept_cases
    (hstable : session.ChainStable ops sort progRegistry input)
    (hchainable : Chainable progRegistry session.config)
    {entry : String × ConfigEbpf} (hentry : entry ∈ addSchedulers input.config)
    {held : ConfigEbpf}
    (hfind : (addSchedulers session.config).find? entry.1 = some held)
    (hplace : place held = place entry.2) :
    (entry ∈ input.config ∧ session.config.find? entry.1 = some held) ∨
      ∃ old ∈ session.config, ∃ new ∈ input.config,
        held = schedulerConfig old.2.hook old.2.ifindex ∧
        entry = (schedulerId new.2.hook new.2.ifindex,
          schedulerConfig new.2.hook new.2.ifindex) := by
  have hlib : held.lib = entry.2.lib := congrArg Prod.fst hplace
  rcases hstable.chainable.mem_addSchedulers_iff.mp hentry with
    hnew | ⟨new, hnew, rfl⟩ <;>
  rcases hchainable.mem_addSchedulers_iff.mp
    (OrderedMap.find?_eq_some_iff.mp hfind) with hold | ⟨old, hold, hsame⟩
  · exact Or.inl ⟨hnew, OrderedMap.find?_eq_some_iff.mpr hold⟩
  · cases (Prod.ext_iff.mp hsame).2
    exact absurd hlib.symm (hstable.chainable.schedulerLibs entry hnew _ _)
  · exact absurd hlib (hchainable.schedulerLibs _ hold _ _)
  · exact Or.inr ⟨old, hold, new, hnew, (Prod.ext_iff.mp hsame).2, rfl⟩

theorem ChainStable.length_chainOf_le
    (hstable : session.ChainStable ops sort progRegistry input)
    (hsort : SortsByOrder sort) (hook : HookType) :
    (chainOf sort session.config hook).length ≤
      (chainOf sort input.config hook).length := by
  have hroom := hstable.room hook
  unfold chainOf
  split_ifs with hold hnew hnew
  · exact le_refl _
  · exact Nat.zero_le _
  · rw [hnew, List.length_nil, Nat.le_zero, List.length_eq_zero_iff] at hroom
    exact absurd hroom hold
  · simpa [length_hookOrder hsort] using hroom

variable (harranged : session.Arranged ops progId sort progRegistry)

include harranged

theorem Arranged.mem_removedLibs_iff {soPath : String} :
    soPath ∈ removedLibs session.daemon.currentEbpf input.config ↔
      ∃ name held, (name, held) ∈ session.config ∧
        input.config.find? name = none ∧ held.lib = soPath := by
  rw [removedLibs, harranged.current,
    harranged.chainable.withoutSchedulers_addSchedulers]
  simp only [List.mem_map, List.mem_filter, decide_eq_true_eq,
    OrderedMap.mem_entries, Prod.exists]
  tauto

theorem Arranged.removed {name : String} {held : ConfigEbpf}
    (hfind : (addSchedulers session.config).find? name = some held)
    (hgone : held.lib ∈
      removedLibs session.daemon.currentEbpf input.config) :
    session.config.find? name = some held ∧
      input.config.find? name = none := by
  obtain ⟨other, otherCfg, hother, habsent, hlib⟩ :=
    harranged.mem_removedLibs_iff.mp hgone
  have hsame := harranged.chainable.lib_inj harranged.domain
    (mem_addSchedulers_iff.mpr (Or.inl hother))
    (OrderedMap.find?_eq_some_iff.mp hfind) hlib
  cases hsame
  exact ⟨OrderedMap.find?_eq_some_iff.mpr hother, habsent⟩

variable (hstable : session.ChainStable ops sort progRegistry input)

include hstable

theorem ChainStable.left_iff (soPath : String) :
    (soPath ∈ (addSchedulers session.config).entries.map
          (fun entry => entry.2.lib) ∧
        soPath ∉ removedLibs session.daemon.currentEbpf input.config) ↔
      soPath ∈ loadedLibs (addSchedulers session.config)
        (removedLibs session.daemon.currentEbpf input.config) []
        (addSchedulers input.config).entries := by
  simp only [loadedLibs, List.map_nil, List.nil_append, List.mem_filterMap,
    heldLib, Option.filter_eq_some_iff, Option.map_eq_some_iff,
    decide_eq_true_eq]
  constructor
  · rintro ⟨hloaded, hleft⟩
    obtain ⟨⟨name, held⟩, hheld, rfl⟩ := List.mem_map.mp hloaded
    have hfind : (addSchedulers session.config).find? name = some held :=
      OrderedMap.find?_eq_some_iff.mpr hheld
    rcases harranged.chainable.mem_addSchedulers_iff.mp hheld with
      hconfig | ⟨old, hold, hscheduler⟩
    · cases hnew : input.config.find? name with
      | none =>
          exact absurd (harranged.mem_removedLibs_iff.mpr
            ⟨name, held, hconfig, hnew, rfl⟩) hleft
      | some cfg =>
          exact ⟨(name, cfg), mem_addSchedulers_iff.mpr
            (Or.inl (OrderedMap.find?_eq_some_iff.mp hnew)),
            ⟨held, hfind, rfl⟩, hleft⟩
    · -- Its hook is still in use, on the same interface.
      have hroom := hstable.room old.2.hook
      have hused : hookEntries input.config old.2.hook ≠ [] := by
        have hmem : old.2 ∈ hookEntries session.config old.2.hook :=
          mem_hookEntries_iff.mpr ⟨old.1, hold, rfl⟩
        intro hempty
        rw [hempty, List.length_nil, Nat.le_zero, List.length_eq_zero_iff]
          at hroom
        rw [hroom] at hmem
        cases hmem
      obtain ⟨cfg, hcfg⟩ := List.exists_mem_of_ne_nil _ hused
      obtain ⟨newName, hnew, hhook⟩ := mem_hookEntries_iff.mp hcfg
      have hifindex := hstable.interface old hold _ hnew hhook.symm
      cases hscheduler
      refine ⟨_, hstable.chainable.mem_addSchedulers_iff.mpr
        (Or.inr ⟨_, hnew, rfl⟩), ⟨_, ?_, rfl⟩, hleft⟩
      simpa only [hhook, hifindex] using hfind
  · rintro ⟨entry, -, ⟨held, hfind, rfl⟩, hleft⟩
    exact ⟨List.mem_map.mpr
      ⟨(entry.1, held), OrderedMap.find?_eq_some_iff.mp hfind, rfl⟩, hleft⟩

theorem ChainStable.not_retaken {entry other : String × ConfigEbpf}
    (hentry : entry ∈ addSchedulers input.config) {held : ConfigEbpf}
    (hfind : (addSchedulers session.config).find? entry.1 = some held)
    (hgone : held.lib ∈ removedLibs session.daemon.currentEbpf input.config)
    (hother : other ∈ addSchedulers input.config) (hlt : other.1 < entry.1) :
    other.2.lib ≠ held.lib := by
  intro hlib
  obtain ⟨hold, habsent⟩ := harranged.removed hfind hgone
  have hheld := OrderedMap.find?_eq_some_iff.mp hold
  rcases hstable.chainable.mem_addSchedulers_iff.mp hentry with
    hnew | ⟨new, hnew, rfl⟩
  · exact OrderedMap.find?_eq_none_iff.mp habsent entry.2 hnew
  · rcases hstable.chainable.mem_addSchedulers_iff.mp hother with
      hother | ⟨another, -, rfl⟩
    · exact lt_asymm hlt
        (hstable.retaken new hnew held hold other hother hlib)
    · exact harranged.chainable.schedulerLibs _ hheld _ _ hlib.symm

theorem ChainStable.kept_left {entry : String × ConfigEbpf}
    (hentry : entry ∈ addSchedulers input.config)
    (hkept : Kept (addSchedulers session.config) entry) :
    entry.2.lib ∉ removedLibs session.daemon.currentEbpf input.config := by
  intro hgone
  obtain ⟨held, hfind, hplace⟩ := hkept
  have hlib : held.lib = entry.2.lib := congrArg Prod.fst hplace
  rw [← hlib] at hgone
  obtain ⟨hold, habsent⟩ := harranged.removed hfind hgone
  rcases hstable.kept_cases harranged.chainable hentry hfind hplace with
    ⟨hnew, -⟩ | ⟨old, -, new, -, rfl, rfl⟩
  · exact OrderedMap.find?_eq_none_iff.mp habsent entry.2 hnew
  · exact harranged.chainable.schedulerLibs _
      (OrderedMap.find?_eq_some_iff.mp hold) _ _ rfl

variable (hsort : SortsByOrder sort)
  (hschedulers : SchedulersRegistered progRegistry)
  (hdomain : InDomain progRegistry input.config)

include hsort hschedulers hdomain

theorem ChainStable.place_eq {entry : String × ConfigEbpf}
    (hentry : entry ∈ addSchedulers input.config) {held : ConfigEbpf}
    (hfind : (addSchedulers session.config).find? entry.1 = some held)
    (hplace : place held = place entry.2) {k : Nat}
    (hk : (chainOf sort input.config entry.2.hook)[k]? =
      some (officialName entry)) :
    officialName (entry.1, held) = officialName entry ∧
      (chainOf sort session.config entry.2.hook)[k]? =
        some (officialName entry) := by
  have hhook : held.hook = entry.2.hook :=
    congrArg (fun place => place.2.1) hplace
  have hname : officialName (entry.1, held) = officialName entry :=
    officialName_congr entry.1 hplace
  refine ⟨hname, ?_⟩
  have hheld := OrderedMap.find?_eq_some_iff.mp hfind
  obtain ⟨old, hold⟩ := List.mem_iff_getElem?.mp
    (officialName_mem_chainOf hsort harranged.chainable hheld)
  rw [hname] at hold
  simp only [hhook] at hold
  -- It has one place in each chain, and the old one is kept.
  have hnew : (chainOf sort input.config entry.2.hook)[old]? =
      some (officialName entry) := by
    rcases hstable.kept_cases harranged.chainable hentry hfind hplace with
      ⟨hconfig, hbefore⟩ | ⟨before, hbefore, new, hnew, rfl, rfl⟩
    · rw [hstable.chainable.officialName_eq hconfig] at hold ⊢
      exact hstable.places entry hconfig ⟨held, hbefore, hplace⟩ old hold
    · rw [officialName_scheduler] at hold ⊢
      have hfirst := chainOf_zero sort hbefore
      rw [show before.2.hook = new.2.hook from hhook] at hfirst
      rw [(harranged.chainable.registered hsort harranged.domain hschedulers
        _).position_inj hold hfirst]
      exact @chainOf_zero input.config sort new hnew
  rwa [(hstable.chainable.registered hsort hdomain hschedulers
    _).position_inj hk hnew]

theorem ChainStable.rebuilt {chain : PinnedProgMap π}
    (hprogress : Progress ops progId sort progRegistry .empty session.config []
      (addSchedulers session.config).entries [] session.daemon.loader chain) :
    let rebuilt :=
      if input.config ≠ withoutSchedulers session.daemon.currentEbpf then
        session.daemon.loader.rebuildChains sort input.config
      else session.daemon.loader
    rebuilt.services = session.daemon.loader.services ∧
      ∃ written, rebuilt.chain = some written ∧
        Written sort progRegistry input.config written ∧
        ∀ hook k, written.slot hook k = chain.slot hook k := by
  rw [harranged.current, harranged.chainable.withoutSchedulers_addSchedulers]
  split_ifs with hsame
  · refine ⟨rebuildChains_services _ _ _, ?_⟩
    have htables : Tables progRegistry input.config chain := by
      refine { hprogress.written.tables with regions := ?_ }
      intro entry hentry
      cases hbefore : hookEntries session.config entry.2.hook with
      | nil => exact Or.inl (hprogress.written.unused _ hbefore)
      | cons cfg rest =>
          obtain ⟨name, hcfg, hhook⟩ :=
            mem_hookEntries_iff.mp (hbefore ▸ List.mem_cons_self)
          have honly := (hprogress.written.indexed _ hcfg).1
          rw [hstable.interface _ hcfg entry hentry hhook, hhook] at honly
          exact Or.inr honly
    obtain ⟨written, hchain, hwritten, hindexed, hslots, hregions⟩ :=
      rebuildChains_tables hsort hdomain hstable.chainable hschedulers
        hprogress.holds htables
    refine ⟨written, hchain, ⟨hwritten, hindexed, fun hook hunused => ?_,
      fun hook k hbehind hk => ?_⟩, hslots⟩
    · have hroom := hstable.room hook
      rw [hunused, List.length_nil, Nat.le_zero, List.length_eq_zero_iff]
        at hroom
      rw [hregions hook hunused, hprogress.written.unused hook hroom]
    · rw [hslots]
      exact hprogress.written.beyond hook k
        ((hstable.length_chainOf_le hsort hook).trans hbehind) hk
  · rw [not_not.mp hsame]
    exact ⟨rfl, chain, hprogress.holds, hprogress.written, fun _ _ => rfl⟩

theorem ChainStable.prepared :
    (session.daemon.prepare sort input).1 = .ok () ∧
      ∃ chain, Progress ops progId sort progRegistry
        session.daemon.currentEbpf input.config
        (removedLibs session.daemon.currentEbpf input.config) []
        (addSchedulers input.config).entries
        (session.daemon.prepare sort input).2 chain := by
  obtain ⟨chain, hprogress⟩ := harranged.progress
  obtain ⟨hservices, written, hchain, hwritten, hslots⟩ := hstable.rebuilt
    harranged hsort hschedulers hdomain hprogress
  unfold DaemonState.prepare
  simp only at hservices hchain ⊢
  generalize (if input.config ≠ withoutSchedulers session.daemon.currentEbpf
    then session.daemon.loader.rebuildChains sort input.config
    else session.daemon.loader) = rebuilt at hservices hchain ⊢
  have hsame : ∀ soPath, rebuilt.placed ops.getMainProg soPath =
      session.daemon.loader.placed ops.getMainProg soPath := by
    intro soPath
    rw [placed, placed, hservices]
  have hkeyed : rebuilt.WellKeyed ops.getMainProg :=
    fun soPath service hservice =>
      hprogress.keyed soPath service (hsame soPath ▸ hservice)
  obtain ⟨hok, hplaced, hkept⟩ := unloadRemoved_placed input.env input.config
    (withoutSchedulers session.daemon.currentEbpf).entries hkeyed
  change ∀ soPath, _ = if soPath ∈ removedLibs session.daemon.currentEbpf
    input.config then none else _ at hplaced
  have hleft := hstable.left_iff harranged
  rw [← harranged.current] at hleft
  refine ⟨hok, written, hkept.trans hchain, hkeyed.of_placed hplaced,
    fun soPath => ?_, ?_, hwritten,
    fun entry hentry => absurd hentry List.not_mem_nil,
    fun entry hentry hstays => ?_⟩
  · have hloaded := hprogress.libs soPath
    rw [loadedLibs_nil, ← harranged.current] at hloaded
    rw [hplaced, hsame, ← hleft, ← hloaded]
    split_ifs with hremoved <;> simp [hremoved]
  · rw [loadedLibs, List.map_nil, List.nil_append, List.Nodup,
      List.pairwise_filterMap]
    refine (addSchedulers input.config).sorted.imp ?_
    rintro first second hlt lib hfirst lib' hsecond rfl
    obtain ⟨held, hheld, rfl⟩ :=
      Option.map_eq_some_iff.mp (Option.filter_eq_some_iff.mp hfirst).1
    obtain ⟨other, hother, hlib⟩ :=
      Option.map_eq_some_iff.mp (Option.filter_eq_some_iff.mp hsecond).1
    rw [harranged.current, OrderedMap.find?_eq_some_iff] at hheld hother
    have hsame := harranged.chainable.lib_inj harranged.domain hheld hother
      hlib.symm
    exact (ne_of_lt hlt) (Prod.ext_iff.mp hsame).1
  · have hstaysLeft := hstable.kept_left harranged hentry
      (harranged.current ▸ hstays)
    obtain ⟨held, hfind, hplace⟩ := hstays
    rw [harranged.current] at hfind
    have hlib : held.lib = entry.2.lib := congrArg Prod.fst hplace
    have hhook : held.hook = entry.2.hook :=
      congrArg (fun place => place.2.1) hplace
    obtain ⟨prog, hprog, hid, hat⟩ := hprogress.done (entry.1, held)
      (OrderedMap.find?_eq_some_iff.mp hfind)
    simp only [hlib, hhook] at hprog hid hat
    rw [officialName_congr entry.1 hplace] at hid hat
    refine ⟨hstaysLeft, prog, ?_, hid, fun k hk => ?_⟩
    · rw [mainProg, hplaced, if_neg hstaysLeft, hsame]
      exact hprog
    · rw [hslots]
      exact hat k (hstable.place_eq harranged hsort hschedulers hdomain hentry
        hfind hplace hk).2

theorem Arranged.update
    (hbuilt : ∀ entry ∈ addSchedulers input.config,
      BuiltFor ops progId progRegistry (input.env entry.1) entry)
    (hview : ∀ outcomes hook ifindex config service,
      ops.getMainProg (ops.onConfigUpdate outcomes hook ifindex config
        service).2 = ops.getMainProg service)
    (hloads : session.daemon.LoadCalls ops (Loads ops) sort input) :
    (session.update ops sort input).Arranged ops progId sort progRegistry := by
  obtain ⟨hok, chain, hprogress⟩ := hstable.prepared harranged hsort
    hschedulers hdomain
  have haccepts : ∀ entry ∈ addSchedulers input.config,
      Reconfigured session.daemon.currentEbpf entry →
      AcceptsConfig ops (input.env entry.1) entry.2 := by
    rintro entry hentry ⟨held, hfind, hplace, hconfig⟩
    rw [harranged.current] at hfind
    rcases hstable.kept_cases harranged.chainable hentry hfind hplace with
      ⟨hnew, hold⟩ | ⟨old, -, new, -, rfl, rfl⟩
    · exact hstable.accepts entry hnew ⟨held, hold, hplace, hconfig⟩
    · exact absurd rfl hconfig
  unfold DaemonState.LoadCalls at hloads
  unfold Session.update DaemonState.update
  generalize session.daemon.prepare sort input = answer
    at hok hprogress hloads ⊢
  obtain ⟨result, prepared⟩ := answer
  cases hok
  obtain ⟨hdone, after, hafter⟩ := hprogress.updateEntries hview hsort hdomain
    hstable.chainable hschedulers rfl
    (fun entry hentry held hfind hgone other hother hlt =>
      hstable.not_retaken harranged hentry (harranged.current ▸ hfind) hgone
        hother hlt)
    hloads hbuilt haccepts
  simp only
  generalize prepared.updateEntries ops input.env session.daemon.currentEbpf
    (addSchedulers input.config).entries = updated at hdone hafter ⊢
  obtain ⟨result, loader⟩ := updated
  cases hdone
  exact ⟨rfl, hdomain, hstable.chainable, after, { hafter with
    kept := fun entry hentry => absurd hentry List.not_mem_nil }⟩

end Step

theorem start_arranged (ops : EbpfIf σ ω π) (progId : π → UInt32)
    (sort : List OrderEntry → List OrderEntry)
    (progRegistry : String → Option ProgInfo)
    (inotify : InotifyManager ConfigCallback) :
    (start inotify (some (.init progRegistry)) : Session σ π).Arranged ops
      progId sort progRegistry := by
  have hempty : ∀ {entry : String × ConfigEbpf} {goal : Prop},
      entry ∈ (OrderedMap.empty : EbpfMap) → goal :=
    fun hentry => absurd hentry (OrderedMap.not_mem_empty _)
  refine ⟨rfl, ⟨?_, ?_, ?_, ?_, ?_, ?_⟩, ⟨?_, ?_, ?_, ?_⟩,
    .init progRegistry, rfl, nofun, ?_, .nil, ?_, nofun, nofun⟩
  · exact fun entry hentry => hempty hentry
  · exact fun entry hentry => hempty hentry
  · exact fun hook ifindex => Nat.zero_le _
  · exact fun first hfirst => hempty hfirst
  · exact fun entry hentry => hempty hentry
  · exact fun first hfirst => hempty hfirst
  · exact fun first hfirst => hempty hfirst
  · exact fun entry hentry => hempty hentry
  · exact fun entry hentry => hempty hentry
  · exact fun entry hentry => hempty hentry
  · exact fun soPath => iff_of_false nofun nofun
  · exact ⟨tables_init progRegistry _, fun entry hentry => hempty hentry,
      fun _ _ => rfl, fun hook k _ _ => slot_init progRegistry hook k⟩

/-- In a run whose loads succeed and whose updates keep the chains stable, a
packet always meets the programs of the last configuration, in its order. -/
theorem executed_throughout {ops : EbpfIf σ ω π} {progId : π → UInt32}
    {sort : List OrderEntry → List OrderEntry}
    {progRegistry : String → Option ProgInfo}
    (hview : ∀ outcomes hook ifindex config service,
      ops.getMainProg (ops.onConfigUpdate outcomes hook ifindex config
        service).2 = ops.getMainProg service)
    (hsort : SortsByOrder sort)
    (hschedulers : SchedulersRegistered progRegistry)
    (inotify : InotifyManager ConfigCallback)
    {inputs : List (UpdateInput σ ω)}
    (hdomain : ∀ input ∈ inputs, InDomain progRegistry input.config)
    (hbuilt : ∀ input ∈ inputs, ∀ entry ∈ addSchedulers input.config,
      BuiltFor ops progId progRegistry (input.env entry.1) entry)
    (hloads : StepsMeet (update ops sort)
      (fun session => session.daemon.LoadCalls ops (Loads ops) sort)
      (start inotify (some (.init progRegistry))) inputs)
    (hstable : StepsMeet (update ops sort) (ChainStable ops sort progRegistry)
      (start inotify (some (.init progRegistry))) inputs) :
    Throughout (update ops sort) (Executed ops progId)
      (start inotify (some (.init progRegistry))) inputs := by
  have hall : StepsMeet (update ops sort)
      (fun session input =>
        (InDomain progRegistry input.config ∧
          ∀ entry ∈ addSchedulers input.config,
            BuiltFor ops progId progRegistry (input.env entry.1) entry) ∧
        session.daemon.LoadCalls ops (Loads ops) sort input ∧
        session.ChainStable ops sort progRegistry input)
      (start inotify (some (.init progRegistry))) inputs :=
    stepsMeet_and.mpr ⟨stepsMeet_of_forall fun input hinput =>
      ⟨hdomain input hinput, hbuilt input hinput⟩,
      stepsMeet_and.mpr ⟨hloads, hstable⟩⟩
  have hinvariant : Throughout (update ops sort)
      (Arranged ops progId sort progRegistry)
      (start inotify (some (.init progRegistry))) inputs := by
    refine throughout_of_stepsMeet ?_
      (start_arranged ops progId sort progRegistry inotify) hall
    rintro session input harranged ⟨⟨hdomain, hbuilt⟩, hloads, hstable⟩
    exact harranged.update hstable hsort hschedulers hdomain hbuilt hview
      hloads
  exact hinvariant.imp fun session harranged => harranged.executed hsort

end Session

end

namespace Session

theorem sortsByOrder_sortByOrder : SortsByOrder sortByOrder where
  perm := List.perm_insertionSort _
  ordered entries := by
    have : Std.Total fun left right : OrderEntry =>
        left.order ≤ right.order := ⟨fun left right => Int32.le_total _ _⟩
    have : IsTrans OrderEntry fun left right => left.order ≤ right.order :=
      ⟨fun _ _ _ => Int32.le_trans⟩
    exact List.pairwise_insertionSort _ entries

def onNic (lib : String) (order : Int32) : ConfigEbpf :=
  ⟨lib, "", .xdpGeneric, 1, order⟩

def chainProgram (name : String) : Program :=
  if name = "acl" then ⟨"acl", 3⟩
  else if name = "lb" then ⟨"lb", 7⟩
  else ⟨"scheduler", 5⟩

def aclLb (lbFirst : Bool) : UpdateInput Program Unit where
  config := ⟨[("acl", onNic "libhebpf_acl_xdp.so" (if lbFirst then 2 else 1)),
    ("lb", onNic "libhebpf_lb_xdp.so" (if lbFirst then 1 else 2))],
    by cases lbFirst <;> decide⟩
  env name := opening (chainProgram name)

theorem registered_aclLb : ∀ lbFirst, ∀ entry ∈ (aclLb lbFirst).config.entries,
    entry.2.hook = .xdpGeneric ∧ entry.2.ifindex = 1 ∧
      defaultProgMap (canonicalName entry.2) =
        some ⟨(chainProgram entry.1).id, .xdpGeneric⟩ := by
  decide

theorem apart_aclLb : ∀ lbFirst, ∀ first ∈ (aclLb lbFirst).config.entries,
    ∀ second ∈ (aclLb lbFirst).config.entries,
      first.2.lib = second.2.lib ∨
        (chainProgram first.1).id = (chainProgram second.1).id →
      first = second := by
  decide

theorem built_aclLb : ∀ lbFirst,
    ∀ entry ∈ (addSchedulers (aclLb lbFirst).config).entries,
      getCanonicalName entry.2.hook .program (chainProgram entry.1).name =
          officialName entry ∧
        defaultProgMap (officialName entry) =
          some ⟨(chainProgram entry.1).id, entry.2.hook⟩ := by
  decide

theorem free_aclLb : ∀ lbFirst, ∀ entry ∈ (aclLb lbFirst).config.entries,
    (aclLb lbFirst).config.find?
        (schedulerId entry.2.hook entry.2.ifindex) = none ∧
      (chainProgram entry.1).id ≠ 5 ∧
      entry.2.lib.toList.head? = some 'l' := by
  decide

theorem schedulersRegistered : SchedulersRegistered defaultProgMap := by
  rintro hook (rfl | rfl)
  · exact ⟨4, by decide⟩
  · exact ⟨5, by decide⟩

theorem inDomain_aclLb (lbFirst : Bool) :
    InDomain defaultProgMap (aclLb lbFirst).config where
  hooks entry hentry := Or.inr (registered_aclLb lbFirst entry hentry).1
  ifindexes entry hentry := by
    rw [(registered_aclLb lbFirst entry hentry).2.1]
    decide
  few hook ifindex := (List.length_filter_le _ _).trans
    ((List.length_filter_le _ _).trans (by cases lbFirst <;> decide))
  libs first hfirst second hsecond hlib :=
    apart_aclLb lbFirst first hfirst second hsecond (Or.inl hlib)
  registered entry hentry := by
    obtain ⟨hhook, -, hid⟩ := registered_aclLb lbFirst entry hentry
    exact ⟨_, hhook ▸ hid⟩
  ids first hfirst second hsecond id _ hid hother := by
    have hsame := hid.trans hother.symm
    rw [(registered_aclLb lbFirst first hfirst).2.2,
      (registered_aclLb lbFirst second hsecond).2.2] at hsame
    exact apart_aclLb lbFirst first hfirst second hsecond
      (Or.inr (congrArg ProgInfo.id (Option.some.inj hsame)))

theorem builtFor_aclLb (lbFirst : Bool) :
    ∀ entry ∈ addSchedulers (aclLb lbFirst).config,
      BuiltFor programOps Program.id defaultProgMap
        ((aclLb lbFirst).env entry.1) entry := by
  rintro entry hentry service ⟨⟩
  exact ⟨_, rfl, built_aclLb lbFirst entry hentry⟩

theorem chainable_aclLb (lbFirst : Bool) :
    Chainable defaultProgMap (aclLb lbFirst).config where
  interface first hfirst second hsecond _ := by
    rw [(registered_aclLb lbFirst first hfirst).2.1,
      (registered_aclLb lbFirst second hsecond).2.1]
  schedulerIds entry hentry := (free_aclLb lbFirst entry hentry).1
  schedulerLibs entry hentry hook ifindex hlib := by
    have hhead := (free_aclLb lbFirst entry hentry).2.2
    rw [hlib, schedulerPath] at hhead
    cases hook <;>
      simp [schedulerLib, SCHEDULER_TC_LIB, SCHEDULER_XDP_LIB] at hhead
  schedulerNames entry hentry id hid hentryId := by
    obtain ⟨hhook, -, hregistered⟩ := registered_aclLb lbFirst entry hentry
    have hscheduler : defaultProgMap (schedulerName .xdpGeneric) =
        some ⟨5, .xdpGeneric⟩ := by decide
    rw [hhook] at hid hentryId
    have hsame := (hid.symm.trans hscheduler).symm.trans
      (hentryId.symm.trans hregistered)
    exact (free_aclLb lbFirst entry hentry).2.1
      (congrArg ProgInfo.id (Option.some.inj hsame)).symm

def aclOnly : UpdateInput Program Unit where
  config := ⟨[("acl", onNic "libhebpf_acl_xdp.so" 1)], by decide⟩
  env name := opening (chainProgram name)

theorem mem_aclLb_of_aclOnly :
    (∀ entry ∈ aclOnly.config.entries,
      entry ∈ (aclLb false).config.entries) ∧
    ∀ entry ∈ (addSchedulers aclOnly.config).entries,
      entry ∈ (addSchedulers (aclLb false).config).entries := by
  decide

theorem inDomain_aclOnly : InDomain defaultProgMap aclOnly.config where
  hooks entry hentry :=
    (inDomain_aclLb false).hooks entry (mem_aclLb_of_aclOnly.1 entry hentry)
  ifindexes entry hentry :=
    (inDomain_aclLb false).ifindexes entry
      (mem_aclLb_of_aclOnly.1 entry hentry)
  few hook ifindex := (List.length_filter_le _ _).trans
    ((List.length_filter_le _ _).trans (by decide))
  libs first hfirst second hsecond :=
    (inDomain_aclLb false).libs first (mem_aclLb_of_aclOnly.1 first hfirst)
      second (mem_aclLb_of_aclOnly.1 second hsecond)
  registered entry hentry :=
    (inDomain_aclLb false).registered entry
      (mem_aclLb_of_aclOnly.1 entry hentry)
  ids first hfirst second hsecond :=
    (inDomain_aclLb false).ids first (mem_aclLb_of_aclOnly.1 first hfirst)
      second (mem_aclLb_of_aclOnly.1 second hsecond)

theorem chainable_aclOnly : Chainable defaultProgMap aclOnly.config where
  interface first hfirst second hsecond :=
    (chainable_aclLb false).interface first
      (mem_aclLb_of_aclOnly.1 first hfirst) second
      (mem_aclLb_of_aclOnly.1 second hsecond)
  schedulerIds := by decide
  schedulerLibs entry hentry :=
    (chainable_aclLb false).schedulerLibs entry
      (mem_aclLb_of_aclOnly.1 entry hentry)
  schedulerNames entry hentry :=
    (chainable_aclLb false).schedulerNames entry
      (mem_aclLb_of_aclOnly.1 entry hentry)

def aclThenLb : List (UpdateInput Program Unit) := [aclOnly, aclLb false]

theorem inDomain_aclThenLb : ∀ input ∈ aclThenLb,
    InDomain defaultProgMap input.config := by
  rintro input (_ | ⟨_, _ | ⟨_, hinput⟩⟩)
  · exact inDomain_aclOnly
  · exact inDomain_aclLb false
  · cases hinput

theorem builtFor_aclThenLb : ∀ input ∈ aclThenLb,
    ∀ entry ∈ addSchedulers input.config,
      BuiltFor programOps Program.id defaultProgMap (input.env entry.1)
        entry := by
  rintro input (_ | ⟨_, _ | ⟨_, hinput⟩⟩)
  · intro entry hentry
    exact builtFor_aclLb false entry (mem_aclLb_of_aclOnly.2 entry hentry)
  · exact builtFor_aclLb false
  · cases hinput

theorem loads_aclThenLb :
    StepsMeet (update programOps sortByOrder)
      (fun session => session.daemon.LoadCalls programOps (Loads programOps)
        sortByOrder) fresh aclThenLb := by
  refine ⟨⟨?_, ?_, trivial⟩, ⟨?_, ?_, ?_, trivial⟩, trivial⟩
  · intro before hbefore
    cases hbefore
    rfl
  · intro before hbefore
    cases hbefore
    rfl
  · intro before hbefore
    cases hbefore
  · intro before hbefore
    cases hbefore
    rfl
  · intro before hbefore
    cases hbefore

theorem chainStable_aclOnly :
    fresh.ChainStable programOps sortByOrder defaultProgMap aclOnly where
  chainable := chainable_aclOnly
  retaken := by
    rintro entry hentry held ⟨⟩
  interface held hheld := absurd hheld (OrderedMap.not_mem_empty held)
  room _ := Nat.zero_le _
  places := by
    rintro entry hentry ⟨held, hfind, -⟩
    cases hfind
  accepts := by
    rintro entry hentry ⟨held, hfind, -⟩
    cases hfind

theorem chainStable_aclLb :
    (fresh.update programOps sortByOrder aclOnly).ChainStable programOps
      sortByOrder defaultProgMap (aclLb false) := by
  have hconfig : (fresh.update programOps sortByOrder aclOnly).config =
      aclOnly.config := by decide
  have hchain : chainOf sortByOrder (aclLb false).config .xdpGeneric =
      chainOf sortByOrder aclOnly.config .xdpGeneric ++
        ["LB_XDP_GENERIC"] := by decide
  have hhook : ∀ entry ∈ (aclLb false).config.entries,
      entry.2.hook = .xdpGeneric := fun entry hentry =>
    (registered_aclLb false entry hentry).1
  have hfree : ∀ entry ∈ (aclLb false).config.entries, aclOnly.config.find?
      (schedulerId entry.2.hook entry.2.ifindex) = none := by decide
  refine ⟨chainable_aclLb false, ?_, ?_, ?_, ?_, ?_⟩
  · intro entry hentry held hfind
    rw [hconfig, hfree entry hentry] at hfind
    cases hfind
  · intro held hheld entry hentry _
    rw [hconfig] at hheld
    rw [(registered_aclLb false held
        (mem_aclLb_of_aclOnly.1 held hheld)).2.1,
      (registered_aclLb false entry hentry).2.1]
  · intro hook
    rw [hconfig]
    cases hook <;> decide
  · intro entry hentry _ k hplace
    rw [hhook entry hentry, hconfig] at hplace
    obtain ⟨hlength, -⟩ := List.getElem?_eq_some_iff.mp hplace
    rw [hhook entry hentry, hchain, List.getElem?_append_left hlength]
    exact hplace
  · exact fun _ _ _ => .inr ⟨rfl, fun _ => rfl⟩

theorem stable_aclThenLb :
    StepsMeet (update programOps sortByOrder)
      (ChainStable programOps sortByOrder defaultProgMap) fresh aclThenLb :=
  ⟨chainStable_aclOnly, chainStable_aclLb, trivial⟩

theorem executed_throughout_aclThenLb :
    Throughout (update programOps sortByOrder) (Executed programOps Program.id)
      fresh aclThenLb :=
  executed_throughout (fun _ _ _ _ _ => rfl) sortsByOrder_sortByOrder
    schedulersRegistered .start inDomain_aclThenLb builtFor_aclThenLb
    loads_aclThenLb stable_aclThenLb

/-- The entries change places, their programs do not. -/
theorem not_executed_lbFirst :
    (∀ input ∈ [aclLb false, aclLb true],
      InDomain defaultProgMap input.config ∧
      ∀ entry ∈ addSchedulers input.config,
        BuiltFor programOps Program.id defaultProgMap (input.env entry.1)
          entry) ∧
      StepsMeet (update programOps sortByOrder)
        (fun session => session.daemon.LoadCalls programOps
          (Loads programOps) sortByOrder)
        fresh [aclLb false, aclLb true] ∧
      ¬ (run (update programOps sortByOrder) fresh
        [aclLb false, aclLb true]).Executed programOps Program.id := by
  refine ⟨?_, ⟨⟨?_, ?_, ?_, trivial⟩, ⟨?_, ?_, ?_, trivial⟩, trivial⟩, ?_⟩
  · intro input hinput
    have hcases : input = aclLb false ∨ input = aclLb true := by
      simpa using hinput
    rcases hcases with rfl | rfl
    · exact ⟨inDomain_aclLb _, builtFor_aclLb _⟩
    · exact ⟨inDomain_aclLb _, builtFor_aclLb _⟩
  · intro before hbefore
    cases hbefore
    rfl
  · intro before hbefore
    cases hbefore
    rfl
  · intro before hbefore
    cases hbefore
    rfl
  · intro before hbefore
    cases hbefore
  · intro before hbefore
    cases hbefore
  · intro before hbefore
    cases hbefore
  · intro hexecuted
    obtain ⟨chain, hperm, -, hwalk⟩ := hexecuted .xdpGeneric 1
    have hlength := congrArg List.length hwalk
    rw [List.length_map, List.length_map, hperm.length_eq] at hlength
    revert hlength
    decide

end Session

end Hebpf.Daemon
