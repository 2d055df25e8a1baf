import Hebpf.Ebpf.PinnedProgMap

namespace Hebpf.Ebpf

open Hebpf.Common Hebpf.Data Hebpf.Kernel Hebpf.Daemon

/-! What the operations of `PinnedProgMap` leave in the maps of a hook that is
used on one interface. -/

structure Registered (progRegistry : String → Option ProgInfo)
    (hook : HookType) (names : List String) : Prop where
  info : ∀ name ∈ names, ∃ id, progRegistry name = some ⟨id, hook⟩
  distinct : names.Pairwise fun left right =>
    ∀ id, progRegistry left = some ⟨id, hook⟩ →
      progRegistry right ≠ some ⟨id, hook⟩

theorem Registered.tail {progRegistry : String → Option ProgInfo}
    {hook : HookType} {name : String} {names : List String}
    (hregistered : Registered progRegistry hook (name :: names)) :
    Registered progRegistry hook names where
  info other hother := hregistered.info other (.tail _ hother)
  distinct := (List.pairwise_cons.mp hregistered.distinct).2

theorem Registered.nodup {progRegistry : String → Option ProgInfo}
    {hook : HookType} {names : List String}
    (hregistered : Registered progRegistry hook names) : names.Nodup := by
  refine hregistered.distinct.imp_of_mem ?_
  rintro left right hleft - hdistinct rfl
  obtain ⟨id, hid⟩ := hregistered.info left hleft
  exact hdistinct id hid hid

theorem Registered.position_inj {progRegistry : String → Option ProgInfo}
    {hook : HookType} {names : List String}
    (hregistered : Registered progRegistry hook names) {left right : Nat}
    {name : String} (hleft : names[left]? = some name)
    (hright : names[right]? = some name) : left = right := by
  obtain ⟨hleftBound, hleft⟩ := List.getElem?_eq_some_iff.mp hleft
  obtain ⟨hrightBound, hright⟩ := List.getElem?_eq_some_iff.mp hright
  exact hregistered.nodup.getElem_inj_iff.mp (hleft.trans hright.symm)

/-- Each name stands at its position, counted from `start`. -/
def Indexes (progRegistry : String → Option ProgInfo) (hook : HookType)
    (ifindex : Int32) (start : Nat) (names : List String)
    (idhash : PinnedProgMap.Idhash) : Prop :=
  ∀ k name id, names[k]? = some name →
    progRegistry name = some ⟨id, hook⟩ →
    idhash.lookupElem (chainKey ifindex.toUInt32 id) =
      some (UInt32.ofNat (start + k))

def OnlyRegion (hookRegions : Table Int32 Nat) (ifindex : Int32) : Prop :=
  ∀ other, hookRegions.lookup other = if other = ifindex then some 0 else none

namespace PinnedProgMap

variable {π : Type}

theorem indexWord_natCast (index : Nat) :
    indexWord (index : Int) = UInt32.ofNat index := by
  rw [indexWord, BitVec.ofInt_natCast]
  rfl

theorem indexNames_spec {progRegistry : String → Option ProgInfo}
    {hook : HookType} (ifindex : Int32) {names : List String} (start : Nat)
    {idhash : Idhash} (hregistered : Registered progRegistry hook names)
    (hroom : idhash.keys.length + names.length ≤ MAX_CHAIN_PROGS) :
    let result := indexNames progRegistry hook ifindex names start idhash
    result.1 = true ∧
      Indexes progRegistry hook ifindex start names result.2 ∧
      ∀ key, (∀ name ∈ names, ∀ id, progRegistry name = some ⟨id, hook⟩ →
          chainKey ifindex.toUInt32 id ≠ key) →
        result.2.lookupElem key = idhash.lookupElem key := by
  induction names generalizing start idhash with
  | nil => exact ⟨rfl, fun k name id hname => by simp at hname,
      fun key _ => rfl⟩
  | cons name names ih =>
      obtain ⟨id, hid⟩ := hregistered.info name (.head _)
      obtain ⟨hhead, -⟩ := List.pairwise_cons.mp hregistered.distinct
      simp only [List.length_cons] at hroom
      obtain ⟨updated, hupdate⟩ : ∃ updated, idhash.updateElem
          (chainKey ifindex.toUInt32 id) (indexWord start) = some updated :=
        BpfHash.exists_updateElem_iff.mpr (Or.inr (by omega))
      have hlength := BpfHash.length_keys_updateElem_le hupdate
      obtain ⟨hdone, hindexes, hothers⟩ := ih (start + 1)
        hregistered.tail (Nat.le_trans (Nat.add_le_add_right hlength _)
          (by omega))
      simp only [indexNames, hid, hupdate, ne_eq, not_true_eq_false, if_false]
      rw [show (start : Int) + 1 = ((start + 1 : Nat) : Int) from rfl]
      refine ⟨hdone, ?_, ?_⟩
      · intro k other otherId hother hotherId
        cases k with
        | zero =>
            cases Option.some.inj hother
            cases hid.symm.trans hotherId
            rw [hothers, BpfHash.lookupElem_updateElem hupdate, if_pos rfl,
              indexWord_natCast]
            · rfl
            · intro later hlater laterId hlaterId heq
              rw [(chainKey_inj.mp heq).2] at hlaterId
              exact hhead later hlater _ hid hlaterId
        | succ k =>
            rw [hindexes k other otherId hother hotherId, Nat.add_assoc,
              Nat.add_comm 1 k]
      · intro key hkey
        rw [hothers key fun later hlater => hkey later (.tail _ hlater),
          BpfHash.lookupElem_updateElem hupdate,
          if_neg (hkey name (.head _) id hid)]

theorem allocateRegion_only {chain : PinnedProgMap π} {hook : HookType}
    {ifindex : Int32}
    (hregions : chain.regions hook = ∅ ∨
      OnlyRegion (chain.regions hook) ifindex) :
    ∃ hookRegions, OnlyRegion hookRegions ifindex ∧
      (chain.allocateRegion hook ifindex).2 = { chain with
        regions := Function.update chain.regions hook hookRegions } := by
  rcases hregions with hempty | honly
  · refine ⟨(∅ : Table Int32 Nat).insert ifindex 0, fun other => ?_, ?_⟩
    · split_ifs with heq
      · subst heq
        exact AList.lookup_insert _
      · exact AList.lookup_insert_ne heq
    · simp only [allocateRegion, hempty, AList.lookup_empty]
      rfl
  · refine ⟨chain.regions hook, honly, ?_⟩
    have hstart := honly ifindex
    rw [if_pos rfl] at hstart
    simp only [allocateRegion, hstart, Function.update_eq_self]

theorem getStartIndex_only {chain : PinnedProgMap π} {hook : HookType}
    {ifindex : Int32} (honly : OnlyRegion (chain.regions hook) ifindex) :
    chain.getStartIndex hook ifindex = 0 := by
  have hstart := honly ifindex
  rw [if_pos rfl] at hstart
  simp only [getStartIndex, hstart]
  rfl

theorem ifindexOrders_single {orderedNames : List (String × Int32)}
    {ifindex : Int32} (hne : orderedNames ≠ [])
    (hall : ∀ pair ∈ orderedNames, pair.2 = ifindex) :
    ifindexOrders orderedNames = [(ifindex, orderedNames.map Prod.fst)] := by
  have hreplicate : orderedNames.map Prod.snd =
      List.replicate orderedNames.length ifindex := by
    rw [List.eq_replicate_iff]
    refine ⟨List.length_map _, fun other hother => ?_⟩
    obtain ⟨pair, hpair, rfl⟩ := List.mem_map.mp hother
    exact hall pair hpair
  have hdedup : (orderedNames.map Prod.snd).dedup = [ifindex] := by
    rw [hreplicate]
    exact List.replicate_dedup (fun hzero => hne (List.length_eq_zero_iff.mp hzero))
  have hfilter : (orderedNames.filter fun pair => pair.2 = ifindex) =
      orderedNames := List.filter_eq_self.mpr fun pair hpair => by
    simpa using hall pair hpair
  simp only [ifindexOrders, hdedup, List.map_cons, List.map_nil, hfilter]

theorem updateChain_indexes {chain : PinnedProgMap π}
    (hinitialized : chain.initialized = true) {hook : HookType}
    {maps : ChainMaps π} (hmaps : chain.hookMaps hook = some maps)
    (hzero : 0 ∉ maps.idhash.keys) {ifindex : Int32}
    (hifindex : ifindex.toUInt32 ≠ 0)
    (honly : OnlyRegion (chain.regions hook) ifindex)
    {orderedNames : List (String × Int32)} (hne : orderedNames ≠ [])
    (hall : ∀ pair ∈ orderedNames, pair.2 = ifindex)
    (hregistered : Registered chain.progRegistry hook
      (schedulerName hook :: orderedNames.map Prod.fst))
    (hroom : orderedNames.length < MAX_CHAIN_PROGS) :
    ∃ idhash : Idhash, 0 ∉ idhash.keys ∧
      Indexes chain.progRegistry hook ifindex 0
        (schedulerName hook :: orderedNames.map Prod.fst) idhash ∧
      (chain.updateChain hook orderedNames).2 = { chain with
        hookMaps := Function.update chain.hookMaps hook
          (some { maps with idhash }) } := by
  have hempty : (.empty : Idhash).keys.length +
      (schedulerName hook :: orderedNames.map Prod.fst).length ≤
        MAX_CHAIN_PROGS := by
    simpa [BpfHash.empty, BpfHash.keys] using hroom
  obtain ⟨hdone, hindexes, hothers⟩ :=
    indexNames_spec ifindex 0 hregistered hempty
  have hclear : clearIdhash maps.idhash = .empty := by
    rw [clearIdhash, BpfHash.deleteIterating_eq_empty hzero
      (Nat.lt_succ_self _)]
    rfl
  refine ⟨(indexNames chain.progRegistry hook ifindex
    (schedulerName hook :: orderedNames.map Prod.fst) 0 .empty).2, ?_,
    hindexes, ?_⟩
  · rw [← BpfHash.lookupElem_isSome_iff]
    have hnone := hothers 0 fun name _ id _ heq => by
      have hpair : chainKey ifindex.toUInt32 id = chainKey 0 0 := heq
      exact hifindex (chainKey_inj.mp hpair).1
    rw [Nat.cast_zero] at hnone
    rw [hnone, BpfHash.lookupElem_empty]
    exact Bool.false_ne_true
  · simp only [updateChain, hinitialized, hmaps, hclear,
      ifindexOrders_single hne hall, indexInterfaces,
      getStartIndex_only honly]
    simp only [Nat.cast_zero] at hdone
    generalize indexNames chain.progRegistry hook ifindex
      (schedulerName hook :: orderedNames.map Prod.fst) 0 .empty = answer
      at hdone ⊢
    obtain ⟨result, idhash⟩ := answer
    cases hdone
    rfl

def slot (chain : PinnedProgMap π) (hook : HookType) (index : Nat) :
    Option π :=
  (chain.hookMaps hook).bind fun maps =>
    (maps.parray.lookupElem (UInt32.ofNat index)).join

theorem slot_init (progRegistry : String → Option ProgInfo)
    (hook : HookType) (index : Nat) :
    (init progRegistry : PinnedProgMap π).slot hook index = none := by
  simp only [slot, init]
  split_ifs
  · simp only [Option.bind_some, BpfArray.lookupElem, BpfArray.fill]
    split_ifs <;> rfl
  · rfl

theorem insertProg_slot {chain : PinnedProgMap π}
    (hinitialized : chain.initialized = true) {hook : HookType}
    {maps : ChainMaps π} (hmaps : chain.hookMaps hook = some maps)
    {name : String} {id : UInt32}
    (hid : chain.progRegistry name = some ⟨id, hook⟩) {ifindex : Int32}
    {index : Nat} (hindex : index < MAX_CHAIN_PROGS)
    (hlookup : maps.idhash.lookupElem (chainKey ifindex.toUInt32 id) =
      some (UInt32.ofNat index)) (prog : π) :
    ∃ parray, (chain.insertProg hook name prog ifindex).2 = { chain with
        hookMaps := Function.update chain.hookMaps hook
          (some { maps with parray }) } ∧
      ∀ other k, k < MAX_CHAIN_PROGS →
        (chain.insertProg hook name prog ifindex).2.slot other k =
          if other = hook ∧ k = index then some prog
          else chain.slot other k := by
  have hsize : MAX_CHAIN_PROGS ≤ 4294967296 := by decide
  have hinsert : (chain.insertProg hook name prog ifindex).2 = { chain with
      hookMaps := Function.update chain.hookMaps hook (some { maps with
        parray := ⟨Function.update maps.parray.values ⟨index, hindex⟩
          (some prog)⟩ }) } := by
    simp only [insertProg, hinitialized, hmaps, hid, hlookup,
      BpfArray.updateElem_ofNat maps.parray hindex hsize, ne_eq,
      not_true_eq_false, if_false]
  refine ⟨_, hinsert, fun other k hk => ?_⟩
  rw [hinsert]
  by_cases hother : other = hook
  · subst hother
    simp only [slot, Function.update_self, Option.bind_some, hmaps,
      BpfArray.lookupElem_ofNat _ hk hsize, Function.update_apply,
      Fin.mk.injEq, true_and, Option.join_some]
  · simp only [slot, Function.update_of_ne hother, hother, false_and, if_false]

theorem chainLayout_of_indexes {progId : π → UInt32}
    {chain : PinnedProgMap π} {hook : HookType} {maps : ChainMaps π}
    (hmaps : chain.hookMaps hook = some maps)
    {progRegistry : String → Option ProgInfo} {ifindex : Int32}
    {names : List String}
    (hindexes : Indexes progRegistry hook ifindex 0 names maps.idhash)
    {progs : List π} (hlength : progs.length < MAX_CHAIN_PROGS)
    (hprogs : ∀ k prog, progs[k]? = some prog → ∃ name,
      names[k]? = some name ∧
        progRegistry name = some ⟨progId prog, hook⟩ ∧
        chain.slot hook k = some prog)
    (hstop : chain.slot hook progs.length = none) :
    ChainLayout progId maps ifindex.toUInt32 0 progs where
  bound := by omega
  index k prog hprog := by
    obtain ⟨name, hname, hid, -⟩ := hprogs k prog hprog
    exact hindexes k name (progId prog) hname hid
  slot k prog hprog := by
    obtain ⟨name, -, -, hslot⟩ := hprogs (k + 1) prog hprog
    simp only [slot, hmaps, Option.bind_some] at hslot
    rw [Nat.zero_add]
    exact Option.join_eq_some_iff.mp hslot
  stop _ := by
    have hsize : MAX_CHAIN_PROGS ≤ 4294967296 := by decide
    simp only [slot, hmaps, Option.bind_some,
      BpfArray.lookupElem_ofNat _ hlength hsize, Option.join_some] at hstop
    rw [Nat.zero_add, BpfArray.lookupElem_ofNat _ hlength hsize, hstop]

end PinnedProgMap

end Hebpf.Ebpf
