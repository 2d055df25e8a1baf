import Hebpf.Ebpf.ChainRewrite

namespace Hebpf.Ebpf

open Hebpf.Common Hebpf.Data Hebpf.Kernel Hebpf.Daemon

/-! The slots that are stored in the id hash and written in the program array,
whatever the operations are called with. -/

namespace PinnedProgMap

variable {π : Type}

def indexNamesStores (progRegistry : String → Option ProgInfo)
    (hook : HookType) (ifindex : Int32) :
    List String → Int → Idhash → List UInt32
  | [], _, _ => []
  | name :: rest, index, idhash =>
      match progRegistry name with
      | none => indexNamesStores progRegistry hook ifindex rest index idhash
      | some info =>
          if info.hook ≠ hook then
            indexNamesStores progRegistry hook ifindex rest index idhash
          else
            match idhash.updateElem (chainKey ifindex.toUInt32 info.id)
                (indexWord index) with
            | none => []
            | some updated =>
                indexWord index :: indexNamesStores progRegistry hook ifindex
                  rest (index + 1) updated

def indexInterfacesStores (chain : PinnedProgMap π) (hook : HookType) :
    List (Int32 × List String) → Idhash → List (Int32 × UInt32)
  | [], _ => []
  | (ifindex, names) :: rest, idhash =>
      let index := chain.getStartIndex hook ifindex
      if MAX_PER_NIC_PROGS ≤ index then
        chain.indexInterfacesStores hook rest idhash
      else
        (indexNamesStores chain.progRegistry hook ifindex
            (schedulerName hook :: names) index idhash).map (ifindex, ·) ++
          match indexNames chain.progRegistry hook ifindex
              (schedulerName hook :: names) index idhash with
          | (false, _) => []
          | (true, updated) => chain.indexInterfacesStores hook rest updated

def slotsUsed (chain : PinnedProgMap π) :
    ChainCall π → List (HookType × Int32 × UInt32)
  | .allocateRegion _ _ => []
  | .releaseRegion _ _ => []
  | .updateChain hook listing =>
      match chain.initialized, chain.hookMaps hook with
      | true, some maps =>
          (chain.indexInterfacesStores hook listing.orders
            (clearIdhash maps.idhash)).map (hook, ·)
      | _, _ => []
  | .insertProg hook name prog ifindex =>
      match chain.initialized, chain.hookMaps hook,
          chain.progRegistry name with
      | true, some maps, some info =>
          if info.hook ≠ hook then []
          else
            match maps.idhash.lookupElem
                (chainKey ifindex.toUInt32 info.id) with
            | none => []
            | some index =>
                match maps.parray.updateElem index (some prog) with
                | none => []
                | some _ => [(hook, ifindex, index)]
      | _, _, _ => []

def OwnsSlot (chain : PinnedProgMap π) (hook : HookType) (ifindex : Int32)
    (idx : UInt32) : Prop :=
  ∃ start, (chain.regions hook).lookup ifindex = some start ∧
    start ≤ idx.toNat ∧ idx.toNat < start + MAX_PER_NIC_PROGS

def StaysInRegion (chain : PinnedProgMap π) (call : ChainCall π) : Prop :=
  ∀ hook ifindex idx, (hook, ifindex, idx) ∈ chain.slotsUsed call →
    chain.OwnsSlot hook ifindex idx

def takesIndex (progRegistry : String → Option ProgInfo) (hook : HookType)
    (name : String) : Bool :=
  match progRegistry name with
  | none => false
  | some info => info.hook = hook

def indexCount (progRegistry : String → Option ProgInfo) (hook : HookType)
    (names : List String) : Nat :=
  (names.filter (takesIndex progRegistry hook)).length

/-- What is listed for an interface has room: nothing where it has no region,
eight names where its region begins the array. -/
def Fits (chain : PinnedProgMap π) (hook : HookType) (ifindex : Int32)
    (names : List String) : Prop :=
  match (chain.regions hook).lookup ifindex with
  | none => indexCount chain.progRegistry hook
      (schedulerName hook :: names) = 0
  | some start => MAX_PER_NIC_PROGS ≤ start ∨
      indexCount chain.progRegistry hook (schedulerName hook :: names) ≤
        MAX_PER_NIC_PROGS

/-- A region is only taken from an interface without entries. -/
def ReleasesUnused (chain : PinnedProgMap π) : ChainCall π → Prop
  | .releaseRegion hook ifindex => ∀ maps, chain.hookMaps hook = some maps →
      ∀ id, maps.idhash.lookupElem (chainKey ifindex.toUInt32 id) = none
  | _ => True

def ListsFit (chain : PinnedProgMap π) : ChainCall π → Prop
  | .updateChain hook listing => hook = .tc ∨ hook = .xdpGeneric →
      ∀ pair ∈ listing.orderedNames,
        chain.Fits hook pair.2 (listing.namesOf pair.2)
  | _ => True

section Stores

variable {progRegistry : String → Option ProgInfo} {hook : HookType}
  {ifindex : Int32}

theorem indexCount_cons (name : String) (names : List String) :
    indexCount progRegistry hook (name :: names) =
      if takesIndex progRegistry hook name then
        indexCount progRegistry hook names + 1
      else indexCount progRegistry hook names := by
  simp only [indexCount, List.filter_cons]
  split_ifs <;> simp

theorem indexNames_skip {name : String}
    (hname : takesIndex progRegistry hook name = false) (names : List String)
    (index : Int) (idhash : Idhash) :
    indexNames progRegistry hook ifindex (name :: names) index idhash =
        indexNames progRegistry hook ifindex names index idhash ∧
      indexNamesStores progRegistry hook ifindex (name :: names) index
          idhash =
        indexNamesStores progRegistry hook ifindex names index idhash := by
  unfold takesIndex at hname
  simp only [indexNames, indexNamesStores]
  cases hinfo : progRegistry name with
  | none => exact ⟨rfl, rfl⟩
  | some info =>
      simp only [hinfo, decide_eq_false_iff_not] at hname
      simp only [ne_eq, hname, not_false_eq_true, if_true, and_self]

theorem indexNames_take {name : String}
    (hname : takesIndex progRegistry hook name = true) (names : List String)
    (index : Int) (idhash : Idhash) :
    ∃ key, (∃ id, key = chainKey ifindex.toUInt32 id) ∧
      (idhash.updateElem key (indexWord index) = none ∧
          indexNames progRegistry hook ifindex (name :: names) index idhash =
            (false, idhash) ∧
          indexNamesStores progRegistry hook ifindex (name :: names) index
            idhash = [] ∨
        ∃ updated, idhash.updateElem key (indexWord index) = some updated ∧
          indexNames progRegistry hook ifindex (name :: names) index idhash =
            indexNames progRegistry hook ifindex names (index + 1) updated ∧
          indexNamesStores progRegistry hook ifindex (name :: names) index
              idhash =
            indexWord index :: indexNamesStores progRegistry hook ifindex
              names (index + 1) updated) := by
  unfold takesIndex at hname
  cases hinfo : progRegistry name with
  | none => simp [hinfo] at hname
  | some info =>
      simp only [hinfo, decide_eq_true_eq] at hname
      refine ⟨_, ⟨info.id, rfl⟩, ?_⟩
      simp only [indexNames, indexNamesStores, hinfo, ne_eq, hname,
        not_true_eq_false, if_false]
      cases hupdate : idhash.updateElem (chainKey ifindex.toUInt32 info.id)
          (indexWord index) with
      | none => exact .inl ⟨rfl, rfl, rfl⟩
      | some updated => exact .inr ⟨updated, rfl, rfl, rfl⟩

theorem of_mem_indexNamesStores {names : List String} {index : Int}
    {idhash : Idhash} {idx : UInt32}
    (hmem : idx ∈ indexNamesStores progRegistry hook ifindex names index
      idhash) :
    ∃ k < indexCount progRegistry hook names,
      idx = indexWord (index + (k : Nat)) := by
  induction names generalizing index idhash with
  | nil => cases hmem
  | cons name names ih =>
      rw [indexCount_cons]
      cases hname : takesIndex progRegistry hook name with
      | false =>
          rw [(indexNames_skip hname names index idhash).2] at hmem
          simpa using ih hmem
      | true =>
          rw [if_pos rfl]
          obtain ⟨key, -, ⟨-, -, hstores⟩ | ⟨updated, -, -, hstores⟩⟩ :=
            @indexNames_take progRegistry hook ifindex name hname names index
              idhash
          · rw [hstores] at hmem
            cases hmem
          · rw [hstores] at hmem
            rcases List.mem_cons.mp hmem with rfl | hlater
            · exact ⟨0, Nat.succ_pos _, by simp⟩
            · obtain ⟨k, hk, rfl⟩ := ih hlater
              refine ⟨k + 1, Nat.succ_lt_succ hk, ?_⟩
              congr 1
              push_cast
              omega

theorem mem_indexNamesStores {names : List String} {index : Int}
    {idhash : Idhash} {k : Nat} (hk : k < indexCount progRegistry hook names)
    (hroom : idhash.keys.length + k < MAX_CHAIN_PROGS) :
    indexWord (index + k) ∈
      indexNamesStores progRegistry hook ifindex names index idhash := by
  induction names generalizing index idhash k with
  | nil => simp [indexCount] at hk
  | cons name names ih =>
      rw [indexCount_cons] at hk
      cases hname : takesIndex progRegistry hook name with
      | false =>
          rw [(indexNames_skip hname names index idhash).2]
          rw [hname, if_neg Bool.false_ne_true] at hk
          exact ih hk hroom
      | true =>
          rw [hname, if_pos rfl] at hk
          obtain ⟨key, -, ⟨hfull, -, -⟩ | ⟨updated, hupdate, -, hstores⟩⟩ :=
            @indexNames_take progRegistry hook ifindex name hname names index
              idhash
          · obtain ⟨-, hlength⟩ := BpfHash.updateElem_eq_none_iff.mp hfull
            omega
          · rw [hstores]
            cases k with
            | zero => simp
            | succ k =>
                have hlength := BpfHash.length_keys_updateElem_le hupdate
                have hlater := @ih (index + 1) updated k
                  (Nat.lt_of_succ_lt_succ hk) (by omega)
                have hword : index + ((k + 1 : Nat) : Int) =
                    index + 1 + (k : Nat) := by
                  push_cast
                  omega
                rw [hword]
                exact .tail _ hlater

theorem indexNames_done {names : List String} {index : Int} {idhash : Idhash}
    (hroom : idhash.keys.length + indexCount progRegistry hook names ≤
      MAX_CHAIN_PROGS) :
    (indexNames progRegistry hook ifindex names index idhash).1 = true ∧
      (indexNames progRegistry hook ifindex names index
          idhash).2.keys.length ≤
        idhash.keys.length + indexCount progRegistry hook names := by
  induction names generalizing index idhash with
  | nil => exact ⟨rfl, Nat.le_add_right _ _⟩
  | cons name names ih =>
      rw [indexCount_cons] at hroom ⊢
      cases hname : takesIndex progRegistry hook name with
      | false =>
          rw [hname, if_neg Bool.false_ne_true] at hroom
          rw [(indexNames_skip hname names index idhash).1,
            if_neg Bool.false_ne_true]
          exact ih hroom
      | true =>
          rw [hname, if_pos rfl] at hroom
          rw [if_pos rfl]
          obtain ⟨key, -, ⟨hfull, -, -⟩ | ⟨updated, hupdate, hnames, -⟩⟩ :=
            @indexNames_take progRegistry hook ifindex name hname names index
              idhash
          · obtain ⟨-, hlength⟩ := BpfHash.updateElem_eq_none_iff.mp hfull
            omega
          · have hlength := BpfHash.length_keys_updateElem_le hupdate
            rw [hnames]
            obtain ⟨hdone, hkeys⟩ := @ih (index + 1) updated (by omega)
            exact ⟨hdone, by omega⟩

theorem lookupElem_indexNames {names : List String} {index : Int}
    {idhash : Idhash} {key : ChainKey} {idx : UInt32}
    (hlookup : (indexNames progRegistry hook ifindex names index
      idhash).2.lookupElem key = some idx) :
    idhash.lookupElem key = some idx ∨
      (∃ id, key = chainKey ifindex.toUInt32 id) ∧
        idx ∈ indexNamesStores progRegistry hook ifindex names index
          idhash := by
  induction names generalizing index idhash with
  | nil => exact .inl hlookup
  | cons name names ih =>
      cases hname : takesIndex progRegistry hook name with
      | false =>
          obtain ⟨hnames, hstores⟩ :=
            @indexNames_skip progRegistry hook ifindex name hname names index
              idhash
          rw [hnames] at hlookup
          rw [hstores]
          exact ih hlookup
      | true =>
          obtain ⟨stored, hid, ⟨-, hnames, hstores⟩ |
              ⟨updated, hupdate, hnames, hstores⟩⟩ :=
            @indexNames_take progRegistry hook ifindex name hname names index
              idhash
          · rw [hnames] at hlookup
            exact .inl hlookup
          · rw [hnames] at hlookup
            rw [hstores]
            rcases ih hlookup with hold | ⟨hkey, hlater⟩
            · rw [BpfHash.lookupElem_updateElem hupdate] at hold
              split_ifs at hold with heq
              · subst heq
                cases hold
                exact .inr ⟨hid, .head _⟩
              · exact .inl hold
            · exact .inr ⟨hkey, .tail _ hlater⟩

end Stores

section Interfaces

variable {chain : PinnedProgMap π} {hook : HookType}

theorem ownsSlot_of_fits (hspaced : Spaced (chain.regions hook))
    {orders : List (Int32 × List String)}
    (hfits : ∀ pair ∈ orders, chain.Fits hook pair.1 pair.2)
    {idhash : Idhash} {ifindex : Int32} {idx : UInt32}
    (hmem : (ifindex, idx) ∈ chain.indexInterfacesStores hook orders idhash) :
    chain.OwnsSlot hook ifindex idx := by
  induction orders generalizing idhash with
  | nil => cases hmem
  | cons pair rest ih =>
      obtain ⟨listed, names⟩ := pair
      rw [List.forall_mem_cons] at hfits
      obtain ⟨hfits, hrest⟩ := hfits
      unfold indexInterfacesStores at hmem
      simp only at hmem
      split_ifs at hmem with hbehind
      · exact ih hrest hmem
      · rcases List.mem_append.mp hmem with hstored | hlater
        · obtain ⟨stored, hindex, heq⟩ := List.mem_map.mp hstored
          obtain ⟨rfl, rfl⟩ := Prod.mk.inj heq
          obtain ⟨k, hk, rfl⟩ := of_mem_indexNamesStores hindex
          simp only [Fits, getStartIndex] at hfits hbehind ⊢
          cases hregion : (chain.regions hook).lookup listed with
          | none =>
              rw [hregion] at hfits
              simp only at hfits
              omega
          | some start =>
              rw [hregion] at hfits hbehind
              simp only [Nat.cast_le, not_le] at hfits hbehind
              have hzero := hspaced.start_eq_zero hregion hbehind
              subst hzero
              refine ⟨0, hregion, Nat.zero_le _, ?_⟩
              have hword : indexWord ((0 : Nat) + (k : Int)) =
                  UInt32.ofNat k := by
                rw [← indexWord_natCast]
                simp
              rw [hword, UInt32.toNat_ofNat']
              simp only [MAX_PER_NIC_PROGS] at hfits ⊢
              omega
        · split at hlater
          · cases hlater
          · exact ih hrest hlater

theorem lookupElem_indexInterfaces {orders : List (Int32 × List String)}
    {idhash : Idhash} {key : ChainKey} {idx : UInt32}
    (hlookup : (chain.indexInterfaces hook orders idhash).2.lookupElem key =
      some idx) :
    idhash.lookupElem key = some idx ∨
      ∃ ifindex id, key = chainKey ifindex.toUInt32 id ∧
        (ifindex, idx) ∈ chain.indexInterfacesStores hook orders idhash := by
  induction orders generalizing idhash with
  | nil => exact .inl hlookup
  | cons pair rest ih =>
      obtain ⟨listed, names⟩ := pair
      unfold indexInterfaces at hlookup
      unfold indexInterfacesStores
      simp only at hlookup ⊢
      split_ifs at hlookup ⊢ with hbehind
      · exact ih hlookup
      · have hnames := @lookupElem_indexNames chain.progRegistry hook listed
          (schedulerName hook :: names) (chain.getStartIndex hook listed)
          idhash key idx
        generalize indexNames chain.progRegistry hook listed _ _ idhash =
          answer at hlookup hnames ⊢
        obtain ⟨done, updated⟩ := answer
        have hwritten : updated.lookupElem key = some idx →
            idhash.lookupElem key = some idx ∨
              ∃ ifindex id, key = chainKey ifindex.toUInt32 id ∧
                (ifindex, idx) ∈ (indexNamesStores chain.progRegistry hook
                  listed (schedulerName hook :: names)
                  (chain.getStartIndex hook listed) idhash).map
                    (listed, ·) := by
          intro hupdated
          rcases hnames hupdated with hold | ⟨⟨id, hkey⟩, hstored⟩
          · exact .inl hold
          · exact .inr ⟨listed, id, hkey, List.mem_map_of_mem hstored⟩
        cases done with
        | false =>
            rcases hwritten hlookup with hold | ⟨ifindex, id, hkey, hstored⟩
            · exact .inl hold
            · exact .inr ⟨ifindex, id, hkey, List.mem_append_left _ hstored⟩
        | true =>
            rcases ih hlookup with hupdated | ⟨ifindex, id, hkey, hlater⟩
            · rcases hwritten hupdated with
                hold | ⟨ifindex, id, hkey, hstored⟩
              · exact .inl hold
              · exact .inr ⟨ifindex, id, hkey,
                  List.mem_append_left _ hstored⟩
            · exact .inr ⟨ifindex, id, hkey, List.mem_append_right _ hlater⟩

theorem indexNames_of_indexCount {progRegistry : String → Option ProgInfo}
    {ifindex : Int32} {names : List String}
    (hcount : indexCount progRegistry hook names = 0) (index : Int)
    (idhash : Idhash) :
    indexNames progRegistry hook ifindex names index idhash =
      (true, idhash) := by
  induction names with
  | nil => rfl
  | cons name names ih =>
      rw [indexCount_cons] at hcount
      cases hname : takesIndex progRegistry hook name with
      | true => simp [hname] at hcount
      | false =>
          rw [hname, if_neg Bool.false_ne_true] at hcount
          rw [(indexNames_skip hname names index idhash).1]
          exact ih hcount

theorem indexCount_of_no_region {ifindex : Int32} {names : List String}
    {index : Int} {idhash : Idhash}
    (hregion : (chain.regions hook).lookup ifindex = none)
    (hroom : idhash.keys.length < MAX_CHAIN_PROGS)
    (howned : ∀ idx ∈ indexNamesStores chain.progRegistry hook ifindex names
      index idhash, chain.OwnsSlot hook ifindex idx) :
    indexCount chain.progRegistry hook names = 0 := by
  by_contra hcount
  have hstored := @mem_indexNamesStores chain.progRegistry hook ifindex names
    index idhash 0 (Nat.pos_of_ne_zero hcount) hroom
  obtain ⟨start, hstart, -⟩ := howned _ hstored
  rw [hregion] at hstart
  cases hstart

theorem indexCount_of_first_region {ifindex : Int32} {names : List String}
    {idhash : Idhash}
    (hregion : (chain.regions hook).lookup ifindex = some 0)
    (hroom : idhash.keys.length + MAX_PER_NIC_PROGS < MAX_CHAIN_PROGS)
    (howned : ∀ idx ∈ indexNamesStores chain.progRegistry hook ifindex names
      (0 : Nat) idhash, chain.OwnsSlot hook ifindex idx) :
    indexCount chain.progRegistry hook names ≤ MAX_PER_NIC_PROGS := by
  by_contra hcount
  -- one name too many is stored right behind the region
  have hstored := @mem_indexNamesStores chain.progRegistry hook ifindex names
    (0 : Nat) idhash MAX_PER_NIC_PROGS (not_le.mp hcount) hroom
  obtain ⟨start, hstart, -, hto⟩ := howned _ hstored
  rw [hregion] at hstart
  cases hstart
  exact absurd hto (by decide)

theorem fits_of_ownsSlot (hspaced : Spaced (chain.regions hook))
    {orders : List (Int32 × List String)}
    (hnodup : (orders.map Prod.fst).Nodup) {idhash : Idhash}
    (hroom : idhash.keys = [] ∨ idhash.keys.length ≤ MAX_PER_NIC_PROGS ∧
      ∀ pair ∈ orders, (chain.regions hook).lookup pair.1 ≠ some 0)
    (howned : ∀ ifindex idx,
      (ifindex, idx) ∈ chain.indexInterfacesStores hook orders idhash →
        chain.OwnsSlot hook ifindex idx) :
    ∀ pair ∈ orders, chain.Fits hook pair.1 pair.2 := by
  induction orders generalizing idhash with
  | nil => simp
  | cons pair rest ih =>
      obtain ⟨listed, names⟩ := pair
      obtain ⟨hfresh, hnodup⟩ := List.nodup_cons.mp hnodup
      have hlength : idhash.keys.length ≤ MAX_PER_NIC_PROGS := by
        rcases hroom with hempty | ⟨hlength, -⟩
        · simp [hempty]
        · exact hlength
      have hroomRest : idhash.keys = [] ∨
          idhash.keys.length ≤ MAX_PER_NIC_PROGS ∧
            ∀ pair ∈ rest, (chain.regions hook).lookup pair.1 ≠ some 0 :=
        hroom.imp_right fun hroom => ⟨hroom.1,
          fun other hother => hroom.2 other (.tail _ hother)⟩
      have hsizes : MAX_PER_NIC_PROGS + MAX_PER_NIC_PROGS < MAX_CHAIN_PROGS := by
        decide
      rw [List.forall_mem_cons]
      unfold indexInterfacesStores at howned
      simp only [getStartIndex] at howned
      cases hregion : (chain.regions hook).lookup listed with
      | none =>
          have hnegative : ¬ (MAX_PER_NIC_PROGS : Int) ≤ -1 := by decide
          simp only [hregion, if_neg hnegative, List.mem_append] at howned
          have hcount := indexCount_of_no_region hregion
            (Nat.lt_of_le_of_lt hlength (by decide)) fun idx hstored =>
              howned listed idx (.inl (List.mem_map_of_mem hstored))
          rw [indexNames_of_indexCount hcount] at howned
          refine ⟨by simpa only [Fits, hregion] using hcount, ?_⟩
          exact ih hnodup hroomRest fun ifindex idx hlater =>
            howned ifindex idx (.inr hlater)
      | some start =>
          simp only [hregion, Nat.cast_le] at howned
          split_ifs at howned with hbehind
          · refine ⟨by simpa only [Fits, hregion] using .inl hbehind, ?_⟩
            exact ih hnodup hroomRest howned
          · have hzero := hspaced.start_eq_zero hregion (not_le.mp hbehind)
            subst hzero
            have hempty : idhash.keys = [] := by
              rcases hroom with hempty | ⟨-, hnone⟩
              · exact hempty
              · exact absurd hregion (hnone _ (.head _))
            simp only [List.mem_append] at howned
            have hcount := indexCount_of_first_region hregion
              (by rw [hempty, List.length_nil]; omega) fun idx hstored =>
                howned listed idx (.inl (List.mem_map_of_mem hstored))
            obtain ⟨hdone, hkeys⟩ := @indexNames_done chain.progRegistry hook
              listed (schedulerName hook :: names) ((0 : Nat) : Int) idhash (by
                rw [hempty, List.length_nil]
                omega)
            rw [hempty, List.length_nil] at hkeys
            refine ⟨by simpa only [Fits, hregion] using .inr hcount, ?_⟩
            generalize indexNames chain.progRegistry hook listed _ _ idhash =
              answer at hdone hkeys howned
            obtain ⟨done, updated⟩ := answer
            cases hdone
            refine ih hnodup (.inr ⟨?_, fun other hother hfirst => ?_⟩)
              fun ifindex idx hlater => howned ifindex idx (.inr hlater)
            · exact Nat.le_trans hkeys (by omega)
            · have hsame := hspaced.distinct _ _ 0 hfirst hregion
              have hmem : other.1 ∈ rest.map Prod.fst :=
                List.mem_map_of_mem hother
              exact hfresh (hsame ▸ hmem)

end Interfaces

structure Indexed (chain : PinnedProgMap π) : Prop where
  initialized : chain.initialized = true
  maps : ∀ hook, (chain.hookMaps hook).isSome ↔
    hook = .tc ∨ hook = .xdpGeneric
  spaced : ∀ hook, Spaced (chain.regions hook)
  owned : ∀ hook maps, chain.hookMaps hook = some maps → ∀ key idx,
    maps.idhash.lookupElem key = some idx → ∃ ifindex id,
      key = chainKey ifindex.toUInt32 id ∧ chain.OwnsSlot hook ifindex idx

theorem indexed_init (progRegistry : String → Option ProgInfo) :
    (init progRegistry : PinnedProgMap π).Indexed where
  initialized := rfl
  maps hook := by
    simp only [init]
    split_ifs with hhook <;> simp [hhook]
  spaced _ := spaced_empty
  owned hook maps hmaps key idx hlookup := by
    simp only [init] at hmaps
    split_ifs at hmaps
    cases hmaps
    simp at hlookup

section Indexed

variable {chain : PinnedProgMap π}

theorem Indexed.clearIdhash (hindexed : chain.Indexed) {hook : HookType}
    {maps : ChainMaps π} (hmaps : chain.hookMaps hook = some maps) :
    clearIdhash maps.idhash = .empty := by
  refine clearIdhash_of_ne_getLast fun hlast => ?_
  obtain ⟨idx, hlookup⟩ := Option.isSome_iff_exists.mp
    (BpfHash.lookupElem_isSome_iff.mpr (List.mem_of_getLast? hlast))
  obtain ⟨ifindex, id, hkey, start, hregion, -⟩ :=
    hindexed.owned hook maps hmaps 0 idx hlookup
  have hpair : chainKey 0 0 = chainKey ifindex.toUInt32 id := hkey
  exact word_ne_zero ((hindexed.spaced hook).positive _ _ hregion)
    (chainKey_inj.mp hpair).1.symm

theorem Indexed.staysInRegion_iff (hindexed : chain.Indexed)
    (call : ChainCall π) : chain.StaysInRegion call ↔ chain.ListsFit call := by
  cases call with
  | allocateRegion hook nic => simp [StaysInRegion, slotsUsed, ListsFit]
  | releaseRegion hook ifindex => simp [StaysInRegion, slotsUsed, ListsFit]
  | insertProg hook name prog ifindex =>
      refine iff_of_true ?_ trivial
      intro other owner idx hmem
      simp only [slotsUsed] at hmem
      split at hmem
      · rename_i maps info _ hmaps _
        split_ifs at hmem
        · cases hmem
        · split at hmem
          · cases hmem
          · rename_i index hlookup
            split at hmem
            · cases hmem
            · cases List.mem_singleton.mp hmem
              obtain ⟨known, id, hkey, howns⟩ :=
                hindexed.owned hook maps hmaps _ _ hlookup
              rwa [toUInt32_inj (chainKey_inj.mp hkey).1]
      · cases hmem
  | updateChain hook listing =>
      simp only [ListsFit, ← hindexed.maps hook]
      cases hmaps : chain.hookMaps hook with
      | none => simp [StaysInRegion, slotsUsed, hmaps]
      | some maps =>
          have hslots : chain.slotsUsed (.updateChain hook listing) =
              (chain.indexInterfacesStores hook listing.orders .empty).map
                (hook, ·) := by
            simp only [slotsUsed, hindexed.initialized, hmaps,
              hindexed.clearIdhash hmaps]
          have hspaced := hindexed.spaced hook
          rw [← listing.forall_orders_iff]
          simp only [StaysInRegion, hslots, Option.isSome_some, true_implies]
          constructor
          · intro hstays
            exact fits_of_ownsSlot hspaced listing.nodup_orders (.inl rfl)
              fun ifindex idx hmem => hstays hook ifindex idx
                (List.mem_map_of_mem hmem)
          · intro hfits other ifindex idx hmem
            obtain ⟨stored, hstored, heq⟩ := List.mem_map.mp hmem
            cases heq
            exact ownsSlot_of_fits hspaced hfits hstored

theorem Indexed.changeMaps (hindexed : chain.Indexed) {hook : HookType}
    {maps changed : ChainMaps π} (hmaps : chain.hookMaps hook = some maps)
    (howned : ∀ key idx, changed.idhash.lookupElem key = some idx →
      ∃ ifindex id, key = chainKey ifindex.toUInt32 id ∧
        chain.OwnsSlot hook ifindex idx) :
    Indexed { chain with
      hookMaps := Function.update chain.hookMaps hook (some changed) } where
  initialized := hindexed.initialized
  maps other := by
    by_cases heq : other = hook
    · subst heq
      simpa [hmaps] using hindexed.maps other
    · simpa [Function.update_of_ne heq] using hindexed.maps other
  spaced := hindexed.spaced
  owned other maps hother := by
    by_cases heq : other = hook
    · subst heq
      simp only [Function.update_self, Option.some.injEq] at hother
      subst hother
      exact howned
    · simp only [Function.update_of_ne heq] at hother
      exact hindexed.owned other maps hother

theorem Indexed.changeRegions (hindexed : chain.Indexed) {hook : HookType}
    {hookRegions : Table Int32 Nat} (hspaced : Spaced hookRegions)
    (hkept : ∀ maps, chain.hookMaps hook = some maps → ∀ ifindex id idx start,
      maps.idhash.lookupElem (chainKey ifindex.toUInt32 id) = some idx →
        (chain.regions hook).lookup ifindex = some start →
          hookRegions.lookup ifindex = some start) :
    Indexed { chain with
      regions := Function.update chain.regions hook hookRegions } where
  initialized := hindexed.initialized
  maps := hindexed.maps
  spaced other := by
    by_cases heq : other = hook
    · subst heq
      simpa only [Function.update_self] using hspaced
    · simpa only [Function.update_of_ne heq] using hindexed.spaced other
  owned other maps hmaps key idx hlookup := by
    obtain ⟨ifindex, id, rfl, start, hregion, hslot⟩ :=
      hindexed.owned other maps hmaps key idx hlookup
    refine ⟨ifindex, id, rfl, start, ?_, hslot⟩
    by_cases heq : other = hook
    · subst heq
      simpa only [Function.update_self] using
        hkept maps hmaps ifindex id idx start hlookup hregion
    · simpa only [Function.update_of_ne heq] using hregion

theorem Indexed.call (hindexed : chain.Indexed) {call : ChainCall π}
    (hreleases : chain.ReleasesUnused call) (hfits : chain.ListsFit call) :
    (chain.call call).Indexed := by
  have hspaced := spaced_call hindexed.spaced call
  cases call with
  | allocateRegion hook nic =>
      obtain ⟨hookRegions, hafter, hregions⟩ :=
        chain.allocateRegion_regions hook nic
      have hhook := hspaced hook
      simp only [PinnedProgMap.call, hafter, Function.update_self] at hhook ⊢
      refine hindexed.changeRegions hhook ?_
      intro maps _ ifindex id idx start _ hregion
      rcases hregions with rfl | ⟨hfresh, -, rfl⟩
      · exact hregion
      · rw [AList.lookup_insert_ne]
        · exact hregion
        · rintro rfl
          rw [hfresh] at hregion
          cases hregion
  | releaseRegion hook released =>
      have hhook := hspaced hook
      simp only [PinnedProgMap.call, releaseRegion, Function.update_self]
        at hhook ⊢
      refine hindexed.changeRegions hhook ?_
      intro maps hmaps ifindex id idx start hlookup hregion
      rw [AList.lookup_erase_ne]
      · exact hregion
      · rintro rfl
        rw [hreleases maps hmaps id] at hlookup
        cases hlookup
  | updateChain hook listing =>
      cases hmaps : chain.hookMaps hook with
      | none =>
          simp only [PinnedProgMap.call, updateChainAlong,
            hindexed.initialized, hmaps]
          exact hindexed
      | some maps =>
          simp only [PinnedProgMap.call, updateChainAlong_of_maps
            hindexed.initialized hmaps, hindexed.clearIdhash hmaps]
          refine hindexed.changeMaps hmaps fun key idx hlookup => ?_
          have hlisted := hfits ((hindexed.maps hook).mp (by simp [hmaps]))
          rw [← listing.forall_orders_iff] at hlisted
          rcases lookupElem_indexInterfaces hlookup with
            hold | ⟨ifindex, id, hkey, hstored⟩
          · simp at hold
          · exact ⟨ifindex, id, hkey,
              ownsSlot_of_fits (hindexed.spaced hook) hlisted hstored⟩
  | insertProg hook name prog ifindex =>
      simp only [PinnedProgMap.call]
      rcases chain.insertProg_cases hook name prog ifindex with
        hsame | ⟨maps, parray, hmaps, hafter⟩
      · rw [hsame]
        exact hindexed
      · rw [hafter]
        exact hindexed.changeMaps hmaps (hindexed.owned hook maps hmaps)

end Indexed

/-- In a run that takes no region from an interface with entries, everything
stays in its region exactly where every list that is given fits. -/
theorem stepsMeet_staysInRegion_iff
    {progRegistry : String → Option ProgInfo} {calls : List (ChainCall π)}
    (hreleases : StepsMeet call ReleasesUnused (init progRegistry) calls) :
    StepsMeet call StaysInRegion (init progRegistry) calls ↔
      StepsMeet call ListsFit (init progRegistry) calls := by
  have hrule := @stepsMeet_iff_stepsMeet _ _ (@call π)
    (fun chain call => chain.ReleasesUnused call ∧ chain.ListsFit call)
    Indexed (fun chain call =>
      chain.ReleasesUnused call ∧ chain.StaysInRegion call) (fun _ => True)
    (fun chain call hindexed _ hboth => hindexed.call hboth.1 hboth.2)
    (fun chain call hindexed _ =>
      and_congr_right fun _ => hindexed.staysInRegion_iff call)
    (init progRegistry) calls (indexed_init progRegistry) (fun _ _ => trivial)
  rw [stepsMeet_and, stepsMeet_and] at hrule
  simpa only [hreleases, true_and] using hrule

def insertAcl : ChainCall Unit :=
  .insertProg .xdpGeneric "ACL_XDP_GENERIC" () 11

theorem stepsMeet_staysInRegion_iff_aclAlone :
    StepsMeet call StaysInRegion (init defaultProgMap)
      (twoRegions ++ [.updateChain .xdpGeneric aclAlone, insertAcl]) := by
  have hreleases : StepsMeet call ReleasesUnused (init defaultProgMap)
      (twoRegions ++ [.updateChain .xdpGeneric aclAlone, insertAcl]) :=
    ⟨trivial, trivial, trivial, trivial, trivial⟩
  refine (stepsMeet_staysInRegion_iff hreleases).mpr
    ⟨trivial, trivial, ?_, trivial, trivial⟩
  intro _ pair hpair
  obtain rfl := List.mem_singleton.mp hpair
  have hcount : indexCount defaultProgMap .xdpGeneric
      [schedulerName .xdpGeneric, "ACL_XDP_GENERIC"] ≤ MAX_PER_NIC_PROGS := by
    decide
  exact .inr hcount

def crowded : Listing := listed (List.replicate 8 ("ACL_XDP_GENERIC", 11))

/-- The last index stored for it is the slot where the region of interface 12
begins, and there the program is written. -/
theorem not_stepsMeet_staysInRegion_crowded :
    (twoNics.regions .xdpGeneric).lookup 12 = some 8 ∧
      (HookType.xdpGeneric, (11 : Int32), (8 : UInt32)) ∈
        twoNics.slotsUsed (.updateChain .xdpGeneric crowded) ∧
      (twoNics.call (.updateChain .xdpGeneric crowded)).slotsUsed insertAcl =
        [(.xdpGeneric, 11, 8)] ∧
      ¬ StepsMeet call StaysInRegion (init defaultProgMap)
        (twoRegions ++ [.updateChain .xdpGeneric crowded, insertAcl]) := by
  have hstored : (HookType.xdpGeneric, (11 : Int32), (8 : UInt32)) ∈
      twoNics.slotsUsed (.updateChain .xdpGeneric crowded) := by
    decide
  have hwritten : (twoNics.call
      (.updateChain .xdpGeneric crowded)).slotsUsed insertAcl =
        [(.xdpGeneric, 11, 8)] := by decide
  refine ⟨by decide, hstored, hwritten, ?_⟩
  rintro ⟨-, -, hlists, -⟩
  obtain ⟨start, hregion, -, hto⟩ := hlists .xdpGeneric 11 8 hstored
  have hzero : (twoNics.regions .xdpGeneric).lookup 11 = some 0 := by decide
  cases hzero.symm.trans hregion
  exact absurd hto (by decide)

end PinnedProgMap

end Hebpf.Ebpf
