import Hebpf.Data.Allot
import Hebpf.Ebpf.ChainIndex

namespace Hebpf.Ebpf

open Hebpf.Common Hebpf.Data Hebpf.Kernel Hebpf.Daemon

/-! The assertions of `PinnedProgMap`.  A definition whose name ends in
`Asserts` follows the control flow of its namesake and answers whether every
`ASSERT` that is reached holds. -/

def getCanonicalNameAsserts (hook : HookType) (name : String) : Bool :=
  hook ≠ .unknown && name ≠ ""

namespace PinnedProgMap

variable {π : Type}

def allocateRegionAsserts (ifindex : Int32) : Bool := 0 < ifindex

def indexInterfacesAsserts (chain : PinnedProgMap π) (hook : HookType) :
    List (Int32 × List String) → Idhash → Bool
  | [], _ => true
  | (ifindex, names) :: rest, idhash =>
      let index := chain.getStartIndex hook ifindex
      0 ≤ index &&
        if MAX_PER_NIC_PROGS ≤ index then
          chain.indexInterfacesAsserts hook rest idhash
        else
          getCanonicalNameAsserts hook (schedulerLib hook) &&
            match indexNames chain.progRegistry hook ifindex
                (schedulerName hook :: names) index idhash with
            | (false, _) => true
            | (true, updated) =>
                chain.indexInterfacesAsserts hook rest updated

def updateChainAsserts (chain : PinnedProgMap π) (hook : HookType)
    (orderedNames : List (String × Int32)) : Bool :=
  match chain.initialized, chain.hookMaps hook with
  | true, some maps => chain.indexInterfacesAsserts hook
      (ifindexOrders orderedNames) (clearIdhash maps.idhash)
  | _, _ => true

end PinnedProgMap

/-- The start indices, the latest first, leave no room between them. -/
def Packed : List Nat → Prop
  | [] => True
  | start :: rest => start = rest.length * MAX_PER_NIC_PROGS ∧ Packed rest

def interfaces (hookRegions : Table Int32 Nat) : Finset Int32 :=
  hookRegions.keys.toFinset

structure Allotted (hookRegions : Table Int32 Nat) : Prop where
  packed : Packed (hookRegions.entries.map fun region => region.2)
  bounded : hookRegions.entries.length ≤ MAX_NIC_HOOK

theorem mem_interfaces_iff {hookRegions : Table Int32 Nat} {ifindex : Int32} :
    ifindex ∈ interfaces hookRegions ↔
      ∃ start, hookRegions.lookup ifindex = some start := by
  rw [interfaces, List.mem_toFinset, ← AList.mem_keys,
    ← AList.lookup_isSome, Option.isSome_iff_exists]

theorem card_interfaces (hookRegions : Table Int32 Nat) :
    (interfaces hookRegions).card = hookRegions.entries.length := by
  rw [interfaces, List.toFinset_card_of_nodup hookRegions.keys_nodup,
    AList.keys, List.keys, List.length_map]

theorem allotted_empty : Allotted ∅ := ⟨trivial, Nat.zero_le _⟩

theorem foldl_nextStart {regions : List (Sigma fun _ : Int32 => Nat)}
    (hpacked : Packed (regions.map fun region => region.2)) {next : Nat}
    (hnext : regions.length * MAX_PER_NIC_PROGS ≤ next) :
    regions.foldl (fun next region =>
      if next ≤ region.2 then region.2 + MAX_PER_NIC_PROGS else next) next =
        next := by
  induction regions with
  | nil => rfl
  | cons region rest ih =>
      obtain ⟨hstart, hrest⟩ := hpacked
      simp only [List.length_map, List.length_cons, Nat.succ_mul,
        MAX_PER_NIC_PROGS] at hstart hnext
      rw [List.foldl_cons, if_neg (by omega)]
      exact ih hrest (by simp only [MAX_PER_NIC_PROGS]; omega)

theorem nextStart_eq {hookRegions : Table Int32 Nat}
    (hpacked : Packed (hookRegions.entries.map fun region => region.2)) :
    PinnedProgMap.nextStart hookRegions =
      hookRegions.entries.length * MAX_PER_NIC_PROGS := by
  unfold PinnedProgMap.nextStart
  cases hentries : hookRegions.entries with
  | nil => rfl
  | cons region rest =>
      rw [hentries] at hpacked
      obtain ⟨hstart, hrest⟩ := hpacked
      simp only [List.length_map] at hstart
      rw [List.foldl_cons, if_pos (Nat.zero_le _), hstart,
        foldl_nextStart hrest (Nat.le_add_right _ _), List.length_cons,
        Nat.succ_mul]

theorem Packed.unique_first {regions : List (Sigma fun _ : Int32 => Nat)}
    (hpacked : Packed (regions.map fun region => region.2))
    {left right : Sigma fun _ : Int32 => Nat} (hleft : left ∈ regions)
    (hright : right ∈ regions) (hleftFirst : left.2 < MAX_PER_NIC_PROGS)
    (hrightFirst : right.2 < MAX_PER_NIC_PROGS) : left = right := by
  induction regions with
  | nil => cases hleft
  | cons region rest ih =>
      obtain ⟨hstart, hrest⟩ := hpacked
      have halone : region.2 < MAX_PER_NIC_PROGS → rest = [] := by
        rw [List.length_map] at hstart
        intro hfirst
        rw [← List.length_eq_zero_iff]
        simp only [MAX_PER_NIC_PROGS] at hstart hfirst
        omega
      rcases List.mem_cons.mp hleft with heq | hleft <;>
        rcases List.mem_cons.mp hright with heq' | hright
      · rw [heq, heq']
      · rw [heq] at hleftFirst
        simp [halone hleftFirst] at hright
      · rw [heq'] at hrightFirst
        simp [halone hrightFirst] at hleft
      · exact ih hrest hleft hright

namespace PinnedProgMap

variable {π : Type}

theorem allocateRegion_allotted {chain : PinnedProgMap π} {hook : HookType}
    (hallotted : Allotted (chain.regions hook)) (ifindex : Int32) :
    ∃ hookRegions, Allotted hookRegions ∧
      (chain.allocateRegion hook ifindex).2 = { chain with
        regions := Function.update chain.regions hook hookRegions } ∧
      interfaces hookRegions =
        allot MAX_NIC_HOOK (interfaces (chain.regions hook)) ifindex := by
  have hbounded := hallotted.bounded
  rw [← card_interfaces] at hbounded
  unfold allocateRegion
  cases hlookup : (chain.regions hook).lookup ifindex with
  | some start =>
      have hheld := mem_interfaces_iff.mpr ⟨start, hlookup⟩
      refine ⟨chain.regions hook, hallotted, ?_, ?_⟩
      · simp only [Function.update_eq_self]
      · rw [allot, Finset.insert_eq_of_mem hheld, if_pos hbounded]
  | none =>
      have hfresh : ifindex ∉ interfaces (chain.regions hook) := by
        rw [mem_interfaces_iff, hlookup]
        rintro ⟨start, hstart⟩
        cases hstart
      have habsent : ifindex ∉ chain.regions hook := by
        rwa [interfaces, List.mem_toFinset, ← AList.mem_keys] at hfresh
      have hinsert : interfaces ((chain.regions hook).insert ifindex
            (nextStart (chain.regions hook))) =
          insert ifindex (interfaces (chain.regions hook)) := by
        ext other
        simp only [interfaces, List.mem_toFinset, Finset.mem_insert,
          ← AList.mem_keys, AList.mem_insert]
      have hcard := Finset.card_insert_of_notMem hfresh
      have hstart := nextStart_eq hallotted.packed
      rw [card_interfaces] at hcard hbounded
      simp only [MAX_NIC_HOOK, MAX_PER_NIC_PROGS] at hbounded hstart
      by_cases hroom : (chain.regions hook).entries.length < MAX_NIC_HOOK
      · have hfits : ¬ MAX_CHAIN_PROGS <
            nextStart (chain.regions hook) + MAX_PER_NIC_PROGS := by
          simp only [MAX_CHAIN_PROGS, MAX_PER_NIC_PROGS, MAX_NIC_HOOK]
            at hroom ⊢
          omega
        simp only [if_neg hfits]
        refine ⟨_, ⟨?_, ?_⟩, rfl, ?_⟩
        · rw [AList.entries_insert_of_notMem habsent]
          exact ⟨by rw [List.length_map]; exact hstart, hallotted.packed⟩
        · rw [AList.entries_insert_of_notMem habsent, List.length_cons]
          exact hroom
        · rw [allot, if_pos (by omega), hinsert]
      · have hfull : MAX_CHAIN_PROGS <
            nextStart (chain.regions hook) + MAX_PER_NIC_PROGS := by
          simp only [MAX_CHAIN_PROGS, MAX_PER_NIC_PROGS, MAX_NIC_HOOK]
            at hroom ⊢
          omega
        simp only [if_pos hfull]
        refine ⟨chain.regions hook, hallotted,
          by simp only [Function.update_eq_self], ?_⟩
        rw [allot, if_neg (by omega)]

section Written

variable {progRegistry : String → Option ProgInfo} {hook : HookType}

theorem indexNames_keys {written : ChainKey → Prop} {ifindex : Int32}
    (hwritten : ∀ name info, progRegistry name = some info →
      written (chainKey ifindex.toUInt32 info.id))
    (names : List String) (index : Int) {idhash : Idhash}
    (hkeys : ∀ key ∈ idhash.keys, written key) :
    ∀ key ∈ (indexNames progRegistry hook ifindex names index idhash).2.keys,
      written key := by
  induction names generalizing index idhash with
  | nil => exact hkeys
  | cons name rest ih =>
      unfold indexNames
      cases hinfo : progRegistry name with
      | none => exact ih index hkeys
      | some info =>
          simp only
          split_ifs
          · exact ih index hkeys
          · cases hupdate : idhash.updateElem
                (chainKey ifindex.toUInt32 info.id) (indexWord index) with
            | none => exact hkeys
            | some updated =>
                refine ih (index + 1) fun key hkey => ?_
                rw [BpfHash.keys_of_updateElem hupdate] at hkey
                rcases List.mem_cons.mp hkey with rfl | hold
                · exact hwritten name info hinfo
                · exact hkeys key (List.mem_of_mem_erase hold)

theorem indexNames_succeeds {allowed : Finset ChainKey}
    (hroom : allowed.card ≤ MAX_CHAIN_PROGS) {ifindex : Int32}
    (hwritten : ∀ name info, progRegistry name = some info →
      chainKey ifindex.toUInt32 info.id ∈ allowed)
    (names : List String) (index : Int) {idhash : Idhash}
    (hkeys : ∀ key ∈ idhash.keys, key ∈ allowed) :
    (indexNames progRegistry hook ifindex names index idhash).1 = true := by
  induction names generalizing index idhash with
  | nil => rfl
  | cons name rest ih =>
      unfold indexNames
      cases hinfo : progRegistry name with
      | none => exact ih index hkeys
      | some info =>
          simp only
          split_ifs
          · exact ih index hkeys
          · have hkey := hwritten name info hinfo
            cases hupdate : idhash.updateElem
                (chainKey ifindex.toUInt32 info.id) (indexWord index) with
            | none =>
                obtain ⟨hfresh, hfull⟩ :=
                  BpfHash.updateElem_eq_none_iff.mp hupdate
                have hsubset : insert (chainKey ifindex.toUInt32 info.id)
                    idhash.keys.toFinset ⊆ allowed :=
                  Finset.insert_subset hkey fun other hother =>
                    hkeys other (List.mem_toFinset.mp hother)
                have hcard := Finset.card_le_card hsubset
                rw [Finset.card_insert_of_notMem
                    (by rwa [List.mem_toFinset]),
                  List.toFinset_card_of_nodup idhash.keys_nodup] at hcard
                omega
            | some updated =>
                refine ih (index + 1) fun key hmem => ?_
                rw [BpfHash.keys_of_updateElem hupdate] at hmem
                rcases List.mem_cons.mp hmem with rfl | hold
                · exact hkey
                · exact hkeys key (List.mem_of_mem_erase hold)

end Written

theorem indexInterfaces_keys {chain : PinnedProgMap π} {hook : HookType}
    {written : ChainKey → Prop} {pairs : List (Int32 × List String)}
    (hwritten : ∀ pair ∈ pairs,
      ¬ (MAX_PER_NIC_PROGS : Int) ≤ chain.getStartIndex hook pair.1 →
        ∀ id, written (chainKey pair.1.toUInt32 id))
    {idhash : Idhash} (hkeys : ∀ key ∈ idhash.keys, written key) :
    ∀ key ∈ (chain.indexInterfaces hook pairs idhash).2.keys,
      written key := by
  induction pairs generalizing idhash with
  | nil => exact hkeys
  | cons pair rest ih =>
      obtain ⟨ifindex, names⟩ := pair
      have hrest := fun other hother => hwritten other (.tail _ hother)
      unfold indexInterfaces
      simp only
      split_ifs with hfull
      · exact ih hrest hkeys
      · have hupdated := @indexNames_keys chain.progRegistry hook written
          ifindex (fun _ info _ => hwritten _ (.head _) hfull info.id)
          (schedulerName hook :: names) (chain.getStartIndex hook ifindex)
          idhash hkeys
        generalize indexNames chain.progRegistry hook ifindex _ _ idhash =
          answer at hupdated ⊢
        obtain ⟨done, updated⟩ := answer
        cases done with
        | false => exact hupdated
        | true => exact ih hrest hupdated

def FewIds (progRegistry : String → Option ProgInfo) : Prop :=
  ∃ ids : Finset UInt32, ids.card ≤ MAX_CHAIN_PROGS ∧
    ∀ name info, progRegistry name = some info → info.id ∈ ids

def First (chain : PinnedProgMap π) (hook : HookType) (ifindex : Int32) :
    Prop :=
  ∃ start, (chain.regions hook).lookup ifindex = some start ∧
    start < MAX_PER_NIC_PROGS

theorem First.unique {chain : PinnedProgMap π} {hook : HookType}
    (hallotted : Allotted (chain.regions hook)) {left right : Int32}
    (hleft : chain.First hook left) (hright : chain.First hook right) :
    left = right := by
  obtain ⟨start, hlookup, hstart⟩ := hleft
  obtain ⟨other, hother, hotherStart⟩ := hright
  have hsame := hallotted.packed.unique_first
    (AList.mem_lookup_iff.mp hlookup) (AList.mem_lookup_iff.mp hother) hstart
    hotherStart
  exact congrArg Sigma.fst hsame

theorem schedulerLib_ne_empty (hook : HookType) : schedulerLib hook ≠ "" := by
  cases hook <;> decide

theorem indexInterfacesAsserts_iff {chain : PinnedProgMap π}
    {hook : HookType} (hhook : hook ≠ .unknown)
    (hallotted : Allotted (chain.regions hook)) {ids : Finset UInt32}
    (hcard : ids.card ≤ MAX_CHAIN_PROGS)
    (hids : ∀ name info, chain.progRegistry name = some info → info.id ∈ ids)
    (pairs : List (Int32 × List String)) {idhash : Idhash}
    (hkeys : ∀ key ∈ idhash.keys, ∃ ifindex, chain.First hook ifindex ∧
      key ∈ ids.image (chainKey ifindex.toUInt32)) :
    chain.indexInterfacesAsserts hook pairs idhash = true ↔
      ∀ pair ∈ pairs, pair.1 ∈ interfaces (chain.regions hook) := by
  induction pairs generalizing idhash with
  | nil => simp [indexInterfacesAsserts]
  | cons pair rest ih =>
      obtain ⟨ifindex, names⟩ := pair
      rw [List.forall_mem_cons, mem_interfaces_iff]
      unfold indexInterfacesAsserts getStartIndex
      simp only
      cases hlookup : (chain.regions hook).lookup ifindex with
      | none => simp
      | some start =>
          simp only [Option.some.injEq, exists_eq', true_and,
            Int.natCast_nonneg, decide_true, Bool.true_and, Nat.cast_le]
          split_ifs with hfull
          · exact ih hkeys
          · have hfirst : chain.First hook ifindex :=
              ⟨start, hlookup, not_le.mp hfull⟩
            have hname : getCanonicalNameAsserts hook (schedulerLib hook) =
                true := by
              simp [getCanonicalNameAsserts, hhook, schedulerLib_ne_empty]
            have hallowed : ∀ key ∈ idhash.keys,
                key ∈ ids.image (chainKey ifindex.toUInt32) := by
              intro key hkey
              obtain ⟨other, hother, hmem⟩ := hkeys key hkey
              rwa [hother.unique hallotted hfirst] at hmem
            have hwritten : ∀ name info, chain.progRegistry name = some info →
                chainKey ifindex.toUInt32 info.id ∈
                  ids.image (chainKey ifindex.toUInt32) :=
              fun name info hinfo =>
                Finset.mem_image_of_mem _ (hids name info hinfo)
            have hdone := @indexNames_succeeds _ hook _
              (Finset.card_image_le.trans hcard) _ hwritten
              (schedulerName hook :: names) start _ hallowed
            have hupdated := @indexNames_keys _ hook _ _ hwritten
              (schedulerName hook :: names) start _ hallowed
            rw [hname, Bool.true_and]
            generalize indexNames chain.progRegistry hook ifindex _ _ idhash =
              answer at hdone hupdated ⊢
            obtain ⟨done, updated⟩ := answer
            cases hdone
            exact ih fun key hkey => ⟨ifindex, hfirst, hupdated key hkey⟩

structure Sound (chain : PinnedProgMap π) : Prop where
  initialized : chain.initialized = true
  few : FewIds chain.progRegistry
  maps : ∀ hook, (chain.hookMaps hook).isSome ↔
    hook = .tc ∨ hook = .xdpGeneric
  zero : ∀ hook maps, chain.hookMaps hook = some maps →
    0 ∉ maps.idhash.keys
  allotted : ∀ hook, Allotted (chain.regions hook)

theorem sound_init {progRegistry : String → Option ProgInfo}
    (hfew : FewIds progRegistry) :
    (init progRegistry : PinnedProgMap π).Sound where
  initialized := rfl
  few := hfew
  maps hook := by
    simp only [init]
    split_ifs with hhook <;> simp [hhook]
  zero hook maps hmaps := by
    simp only [init] at hmaps
    split_ifs at hmaps
    cases hmaps
    simp [BpfHash.empty, BpfHash.keys]
  allotted _ := allotted_empty

theorem Sound.allocateRegion {chain : PinnedProgMap π} (hsound : chain.Sound)
    (hook : HookType) (ifindex : Int32) :
    let after := (chain.allocateRegion hook ifindex).2
    after.Sound ∧
      interfaces (after.regions hook) =
        allot MAX_NIC_HOOK (interfaces (chain.regions hook)) ifindex ∧
      ∀ other, other ≠ hook → after.regions other = chain.regions other := by
  obtain ⟨hookRegions, hallotted, hafter, hinterfaces⟩ :=
    allocateRegion_allotted (hsound.allotted hook) ifindex
  simp only [hafter, Function.update_self]
  refine ⟨{ hsound with allotted := fun other => ?_ }, hinterfaces,
    fun other hother => Function.update_of_ne hother _ _⟩
  by_cases heq : other = hook
  · subst heq
    simpa only [Function.update_self] using hallotted
  · simpa only [Function.update_of_ne heq] using hsound.allotted other

theorem Sound.changeMaps {chain : PinnedProgMap π} (hsound : chain.Sound)
    {hook : HookType} {maps changed : ChainMaps π}
    (hmaps : chain.hookMaps hook = some maps)
    (hzero : 0 ∉ changed.idhash.keys) :
    Sound { chain with
      hookMaps := Function.update chain.hookMaps hook (some changed) } where
  initialized := hsound.initialized
  few := hsound.few
  maps other := by
    by_cases heq : other = hook
    · subst heq
      simpa [hmaps] using hsound.maps other
    · simpa [Function.update_of_ne heq] using hsound.maps other
  zero other maps hother := by
    by_cases heq : other = hook
    · subst heq
      simp only [Function.update_self, Option.some.injEq] at hother
      exact hother ▸ hzero
    · simp only [Function.update_of_ne heq] at hother
      exact hsound.zero other maps hother
  allotted := hsound.allotted

theorem Sound.insertProg {chain : PinnedProgMap π} (hsound : chain.Sound)
    (hook : HookType) (name : String) (prog : π) (ifindex : Int32) :
    (chain.insertProg hook name prog ifindex).2.Sound ∧
      (chain.insertProg hook name prog ifindex).2.regions = chain.regions := by
  unfold PinnedProgMap.insertProg
  split
  · rename_i maps info _ hmaps _
    split_ifs
    · exact ⟨hsound, rfl⟩
    · split
      · exact ⟨hsound, rfl⟩
      · split
        · exact ⟨hsound, rfl⟩
        · exact ⟨hsound.changeMaps hmaps (hsound.zero hook maps hmaps), rfl⟩
  · exact ⟨hsound, rfl⟩

theorem word_ne_zero {ifindex : Int32} (hpositive : 0 < ifindex) :
    ifindex.toUInt32 ≠ 0 := by
  intro hzero
  rw [show ifindex = 0 from congrArg UInt32.toInt32 hzero] at hpositive
  exact absurd hpositive (by decide)

section UpdateChain

variable {chain : PinnedProgMap π} (hsound : chain.Sound) (hook : HookType)
  {orderedNames : List (String × Int32)}

include hsound

theorem Sound.clearIdhash {maps : ChainMaps π}
    (hmaps : chain.hookMaps hook = some maps) :
    clearIdhash maps.idhash = .empty := by
  rw [PinnedProgMap.clearIdhash, BpfHash.deleteIterating_eq_empty
    (hsound.zero hook maps hmaps) (Nat.lt_succ_self _)]
  rfl

theorem Sound.updateChain
    (hpositive : ∀ pair ∈ orderedNames, 0 < pair.2) :
    (chain.updateChain hook orderedNames).2.Sound ∧
      (chain.updateChain hook orderedNames).2.regions = chain.regions := by
  cases hmaps : chain.hookMaps hook with
  | none =>
      simp only [PinnedProgMap.updateChain, hsound.initialized, hmaps, and_true]
      exact hsound
  | some maps =>
      have hafter : (chain.updateChain hook orderedNames).2 = { chain with
          hookMaps := Function.update chain.hookMaps hook (some { maps with
            idhash := (chain.indexInterfaces hook
              (ifindexOrders orderedNames) .empty).2 }) } := by
        simp only [PinnedProgMap.updateChain, hsound.initialized, hmaps,
          hsound.clearIdhash hook hmaps]
      rw [hafter]
      refine ⟨hsound.changeMaps hmaps ?_, rfl⟩
      have hkeys := @indexInterfaces_keys π chain hook (· ≠ 0)
        (ifindexOrders orderedNames) ?_ .empty ?_
      · exact fun hzero => hkeys 0 hzero rfl
      · intro pair hpair _ id hzero
        obtain ⟨ifindex, hmem, rfl⟩ := List.mem_map.mp hpair
        obtain ⟨named, hnamed, rfl⟩ :=
          List.mem_map.mp (List.mem_dedup.mp hmem)
        have hpair : chainKey named.2.toUInt32 id = chainKey 0 0 := hzero
        exact word_ne_zero (hpositive named hnamed) (chainKey_inj.mp hpair).1
      · intro key hkey
        simp [BpfHash.empty, BpfHash.keys] at hkey

theorem Sound.updateChainAsserts_iff :
    chain.updateChainAsserts hook orderedNames = true ↔
      (hook = .tc ∨ hook = .xdpGeneric →
        ∀ pair ∈ orderedNames, pair.2 ∈ interfaces (chain.regions hook)) := by
  unfold updateChainAsserts
  rw [hsound.initialized, ← hsound.maps hook]
  cases hmaps : chain.hookMaps hook with
  | none => simp
  | some maps =>
      have hhook : hook ≠ .unknown := by
        rintro rfl
        simpa [hmaps] using (hsound.maps .unknown).mp
      obtain ⟨ids, hcard, hids⟩ := hsound.few
      simp only [hsound.clearIdhash hook hmaps]
      rw [indexInterfacesAsserts_iff hhook (hsound.allotted hook) hcard hids]
      · simp only [ifindexOrders, List.forall_mem_map, List.mem_dedup,
          Option.isSome_some, true_implies]
      · intro key hkey
        simp [BpfHash.empty, BpfHash.keys] at hkey

end UpdateChain

theorem fewIds_defaultProgMap : FewIds defaultProgMap := by
  refine ⟨{0, 1, 2, 3, 4, 5, 6, 7}, by decide, fun name info hinfo => ?_⟩
  obtain ⟨before, after, hlist, -⟩ := List.lookup_eq_some_iff.mp hinfo
  have hmem : (name, info) ∈ before ++ (name, info) :: after := by simp
  rw [← hlist] at hmem
  fin_cases hmem <;> decide

end PinnedProgMap

end Hebpf.Ebpf
