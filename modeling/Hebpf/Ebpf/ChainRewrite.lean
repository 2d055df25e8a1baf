import Hebpf.Ebpf.Regions

namespace Hebpf.Ebpf

open Hebpf.Common Hebpf.Data Hebpf.Kernel Hebpf.Daemon

/-! What `updateChain` makes of any id hash and any regions. -/

namespace PinnedProgMap

variable {π : Type}

section Keeps

variable {progRegistry : String → Option ProgInfo} {hook : HookType}

theorem indexNames_keeps {ifindex : Int32} (names : List String) (index : Int)
    {idhash : Idhash} {key : ChainKey} (hkey : key ∈ idhash.keys) :
    key ∈ (indexNames progRegistry hook ifindex names index idhash).2.keys := by
  induction names generalizing index idhash with
  | nil => exact hkey
  | cons name rest ih =>
      unfold indexNames
      cases hinfo : progRegistry name with
      | none => exact ih index hkey
      | some info =>
          simp only
          split_ifs
          · exact ih index hkey
          · cases hupdate : idhash.updateElem
                (chainKey ifindex.toUInt32 info.id) (indexWord index) with
            | none => exact hkey
            | some updated =>
                refine ih (index + 1) ?_
                rw [← BpfHash.lookupElem_isSome_iff] at hkey ⊢
                rw [BpfHash.lookupElem_updateElem hupdate]
                split_ifs
                · rfl
                · exact hkey

theorem indexInterfaces_keeps (chain : PinnedProgMap π)
    (pairs : List (Int32 × List String)) {idhash : Idhash} {key : ChainKey}
    (hkey : key ∈ idhash.keys) :
    key ∈ (chain.indexInterfaces hook pairs idhash).2.keys := by
  induction pairs generalizing idhash with
  | nil => exact hkey
  | cons pair rest ih =>
      obtain ⟨ifindex, names⟩ := pair
      unfold indexInterfaces
      simp only
      split_ifs
      · exact ih hkey
      · have hupdated := @indexNames_keeps chain.progRegistry hook ifindex
          (schedulerName hook :: names) (chain.getStartIndex hook ifindex)
          idhash key hkey
        generalize indexNames chain.progRegistry hook ifindex _ _ idhash =
          answer at hupdated ⊢
        obtain ⟨done, updated⟩ := answer
        cases done with
        | false => exact hupdated
        | true => exact ih hupdated

end Keeps

theorem clearIdhash_of_getLast {idhash : Idhash}
    (hlast : idhash.keys.getLast? = some 0) : clearIdhash idhash = idhash := by
  rw [clearIdhash, BpfHash.deleteIterating_of_getLast hlast]
  rfl

theorem clearIdhash_of_ne_getLast {idhash : Idhash}
    (hlast : idhash.keys.getLast? ≠ some 0) :
    clearIdhash idhash = .empty := by
  rw [clearIdhash, BpfHash.deleteIterating_of_ne_getLast hlast
    (Nat.lt_succ_self _)]
  rfl

/-- The interfaces of a listing, the names of each and its region are fit for a
chain. -/
structure Listable (chain : PinnedProgMap π) (hook : HookType)
    (listing : Listing) : Prop where
  owned : ∀ pair ∈ listing.orderedNames, ∃ start,
    (chain.regions hook).lookup pair.2 = some start
  registered : ∀ pair ∈ listing.orderedNames,
    Registered chain.progRegistry hook
      (schedulerName hook :: listing.namesOf pair.2)
  few : ∀ pair ∈ listing.orderedNames,
    (listing.namesOf pair.2).length < MAX_PER_NIC_PROGS

def Wanted (chain : PinnedProgMap π) (hook : HookType) (listing : Listing)
    (key : ChainKey) (idx : UInt32) : Prop :=
  ∃ pair ∈ listing.orderedNames, ∃ start k name id,
    (chain.regions hook).lookup pair.2 = some start ∧
      (schedulerName hook :: listing.namesOf pair.2)[k]? = some name ∧
      chain.progRegistry name = some ⟨id, hook⟩ ∧
      key = chainKey pair.2.toUInt32 id ∧ idx = UInt32.ofNat (start + k)

/-- `updateChain` succeeds and the id hash holds the wanted entries only. -/
structure Rewritten (chain : PinnedProgMap π) (hook : HookType)
    (listing : Listing) : Prop where
  done : (chain.updateChainAlong hook listing.orders).1 = true
  exact : ∀ maps,
    (chain.updateChainAlong hook listing.orders).2.hookMaps hook =
        some maps →
      ∀ key idx, maps.idhash.lookupElem key = some idx ↔
        chain.Wanted hook listing key idx

section Rewritten

variable {chain : PinnedProgMap π} {hook : HookType} {maps : ChainMaps π}
  {listing : Listing}

theorem rewritten_iff_indexInterfaces (hinitialized : chain.initialized = true)
    (hmaps : chain.hookMaps hook = some maps) :
    chain.Rewritten hook listing ↔
      (chain.indexInterfaces hook listing.orders
          (clearIdhash maps.idhash)).1 = true ∧
        ∀ key idx, (chain.indexInterfaces hook listing.orders
            (clearIdhash maps.idhash)).2.lookupElem key = some idx ↔
          chain.Wanted hook listing key idx := by
  have hafter := updateChainAlong_of_maps hinitialized hmaps listing.orders
  constructor
  · rintro ⟨hdone, hexact⟩
    rw [hafter] at hdone hexact
    exact ⟨hdone, hexact _ (Function.update_self _ _ _)⟩
  · rintro ⟨hdone, hexact⟩
    refine ⟨?_, fun maps hread => ?_⟩
    · rw [hafter]
      exact hdone
    · rw [hafter] at hread
      simp only [Function.update_self, Option.some.injEq] at hread
      subst hread
      exact hexact

theorem not_rewritten_of_getLast (hinitialized : chain.initialized = true)
    (hmaps : chain.hookMaps hook = some maps)
    (hspaced : Spaced (chain.regions hook))
    (hlast : maps.idhash.keys.getLast? = some 0) :
    ¬ chain.Rewritten hook listing := by
  rw [rewritten_iff_indexInterfaces hinitialized hmaps,
    clearIdhash_of_getLast hlast]
  rintro ⟨-, hexact⟩
  have hkept := @indexInterfaces_keeps π hook chain listing.orders _ 0
    (List.mem_of_getLast? hlast)
  obtain ⟨idx, hlookup⟩ := Option.isSome_iff_exists.mp
    (BpfHash.lookupElem_isSome_iff.mpr hkept)
  obtain ⟨pair, -, start, -, -, id, hregion, -, -, hkey, -⟩ :=
    (hexact 0 idx).mp hlookup
  have hpair : chainKey 0 0 = chainKey pair.2.toUInt32 id := hkey
  exact word_ne_zero (hspaced.positive _ _ hregion)
    (chainKey_inj.mp hpair).1.symm

theorem not_rewritten_of_start (hinitialized : chain.initialized = true)
    (hmaps : chain.hookMaps hook = some maps)
    (hlistable : chain.Listable hook listing)
    (hlast : maps.idhash.keys.getLast? ≠ some 0)
    {pair : String × Int32} (hpair : pair ∈ listing.orderedNames)
    {start : Nat} (hregion : (chain.regions hook).lookup pair.2 = some start)
    (hbehind : MAX_PER_NIC_PROGS ≤ start) :
    ¬ chain.Rewritten hook listing := by
  rw [rewritten_iff_indexInterfaces hinitialized hmaps,
    clearIdhash_of_ne_getLast hlast]
  rintro ⟨-, hexact⟩
  obtain ⟨id, hid⟩ := (hlistable.registered pair hpair).info _ (.head _)
  have hlookup := (hexact (chainKey pair.2.toUInt32 id)
    (UInt32.ofNat (start + 0))).mpr
      ⟨pair, hpair, start, 0, _, id, hregion, rfl, hid, rfl, rfl⟩
  have hwritten := @indexInterfaces_keys π chain hook
    (fun key => ∀ id, key ≠ chainKey pair.2.toUInt32 id) listing.orders ?_
    .empty ?_
  · refine hwritten _ ?_ id rfl
    rw [← BpfHash.lookupElem_isSome_iff, hlookup]
    rfl
  · intro other hother hfirst otherId id heq
    have hword := toUInt32_inj (chainKey_inj.mp heq).1
    rw [hword, getStartIndex, hregion] at hfirst
    exact hfirst (Int.ofNat_le.mpr hbehind)
  · intro key hkey
    simp [BpfHash.empty, BpfHash.keys] at hkey

theorem lookupElem_indexNames_iff {progRegistry : String → Option ProgInfo}
    {ifindex : Int32} {names : List String}
    (hregistered : Registered progRegistry hook names)
    (hroom : names.length ≤ MAX_CHAIN_PROGS) (key : ChainKey) (idx : UInt32) :
    (indexNames progRegistry hook ifindex names 0 .empty).2.lookupElem key =
        some idx ↔
      ∃ k name id, names[k]? = some name ∧
        progRegistry name = some ⟨id, hook⟩ ∧
        key = chainKey ifindex.toUInt32 id ∧ idx = UInt32.ofNat (0 + k) := by
  obtain ⟨-, hindexes, hothers⟩ := indexNames_spec ifindex 0 hregistered
    (show (.empty : Idhash).keys.length + names.length ≤ MAX_CHAIN_PROGS by
      simpa [BpfHash.empty, BpfHash.keys] using hroom)
  rw [Nat.cast_zero] at hindexes hothers
  constructor
  · intro hlookup
    by_cases hwritten : ∃ name ∈ names, ∃ id,
        progRegistry name = some ⟨id, hook⟩ ∧
          chainKey ifindex.toUInt32 id = key
    · obtain ⟨name, hname, id, hid, rfl⟩ := hwritten
      obtain ⟨k, hk⟩ := List.mem_iff_getElem?.mp hname
      rw [hindexes k name id hk hid] at hlookup
      exact ⟨k, name, id, hk, hid, rfl, (Option.some.inj hlookup).symm⟩
    · rw [hothers key fun name hname id hid heq =>
        hwritten ⟨name, hname, id, hid, heq⟩] at hlookup
      simp at hlookup
  · rintro ⟨k, name, id, hname, hid, rfl, rfl⟩
    exact hindexes k name id hname hid

theorem rewritten_of_start_zero (hinitialized : chain.initialized = true)
    (hmaps : chain.hookMaps hook = some maps)
    (hspaced : Spaced (chain.regions hook))
    (hlistable : chain.Listable hook listing)
    (hlast : maps.idhash.keys.getLast? ≠ some 0)
    (hfirst : ∀ pair ∈ listing.orderedNames,
      (chain.regions hook).lookup pair.2 = some 0) :
    chain.Rewritten hook listing := by
  rw [rewritten_iff_indexInterfaces hinitialized hmaps,
    clearIdhash_of_ne_getLast hlast]
  have hperm := listing.perm
  cases hnames : listing.orderedNames with
  | nil =>
      rw [hnames] at hperm
      rw [List.perm_nil.mp hperm]
      refine ⟨rfl, fun key idx => iff_of_false (by simp [indexInterfaces]) ?_⟩
      rintro ⟨pair, hpair, -⟩
      simp [hnames] at hpair
  | cons pair rest =>
      have hpair : pair ∈ listing.orderedNames := by simp [hnames]
      have hsame : ∀ other ∈ listing.orderedNames, other.2 = pair.2 :=
        fun other hother => hspaced.distinct _ _ 0 (hfirst other hother)
          (hfirst pair hpair)
      have hlisted : listing.namesOf pair.2 =
          listing.orderedNames.map Prod.fst := by
        rw [Listing.namesOf, List.filter_eq_self.mpr]
        exact fun other hother => by simpa using hsame other hother
      rw [ifindexOrders_single (by simp [hnames]) hsame, ← hlisted] at hperm
      have hstart : chain.getStartIndex hook pair.2 = 0 := by
        simp only [getStartIndex, hfirst pair hpair]
        rfl
      have hregistered := hlistable.registered pair hpair
      have hlength := hlistable.few pair hpair
      have hroom : (schedulerName hook :: listing.namesOf pair.2).length ≤
          MAX_CHAIN_PROGS := by
        simp only [List.length_cons, MAX_PER_NIC_PROGS, MAX_CHAIN_PROGS]
          at hlength ⊢
        omega
      obtain ⟨hdone, -⟩ := indexNames_spec pair.2 0 hregistered
        (show (.empty : Idhash).keys.length + _ ≤ MAX_CHAIN_PROGS by
          simpa [BpfHash.empty, BpfHash.keys] using hroom)
      have hlookup := @lookupElem_indexNames_iff hook _ pair.2 _ hregistered
        hroom
      rw [Nat.cast_zero] at hdone
      have hnotFull : ¬ (MAX_PER_NIC_PROGS : Int) ≤ 0 := by decide
      rw [List.perm_singleton.mp hperm]
      simp only [indexInterfaces, hstart, if_neg hnotFull]
      generalize indexNames chain.progRegistry hook pair.2 _ 0 .empty = answer
        at hdone hlookup ⊢
      obtain ⟨done, idhash⟩ := answer
      cases hdone
      refine ⟨rfl, fun key idx => ?_⟩
      rw [hlookup]
      constructor
      · rintro ⟨k, name, id, hname, hid, hkey, hidx⟩
        exact ⟨pair, hpair, 0, k, name, id, hfirst pair hpair, hname, hid,
          hkey, hidx⟩
      · rintro ⟨other, hother, start, k, name, id, hregion, hname, hid, hkey,
          hidx⟩
        rw [hfirst other hother] at hregion
        cases hregion
        rw [hsame other hother] at hname hkey
        exact ⟨k, name, id, hname, hid, hkey, hidx⟩

end Rewritten

/-- `updateChain` leaves exactly the wanted map exactly where the walk that is
to empty the hash does not start at its last key and every listed interface has
the region that begins the array. -/
theorem rewritten_iff {chain : PinnedProgMap π} {hook : HookType}
    {maps : ChainMaps π} {listing : Listing} {calls : List (ChainCall π)}
    (hinitialized : chain.initialized = true)
    (hmaps : chain.hookMaps hook = some maps)
    (hregions : chain.regions hook =
      (run call (init chain.progRegistry) calls).regions hook)
    (hlistable : chain.Listable hook listing) :
    chain.Rewritten hook listing ↔
      maps.idhash.keys.getLast? ≠ some 0 ∧
        ∀ pair ∈ listing.orderedNames,
          (chain.regions hook).lookup pair.2 = some 0 := by
  have hspaced : Spaced (chain.regions hook) := by
    rw [hregions]
    exact spaced_run chain.progRegistry calls hook
  constructor
  · intro hrewritten
    have hlast : maps.idhash.keys.getLast? ≠ some 0 := fun hlast =>
      not_rewritten_of_getLast hinitialized hmaps hspaced hlast hrewritten
    refine ⟨hlast, fun pair hpair => ?_⟩
    obtain ⟨start, hregion⟩ := hlistable.owned pair hpair
    rcases Nat.lt_or_ge start MAX_PER_NIC_PROGS with hstart | hbehind
    · rw [hregion, hspaced.start_eq_zero hregion hstart]
    · exact absurd hrewritten (not_rewritten_of_start hinitialized hmaps
        hlistable hlast hpair hregion hbehind)
  · rintro ⟨hlast, hfirst⟩
    exact rewritten_of_start_zero hinitialized hmaps hspaced hlistable hlast
      hfirst

/-! The ACL on interface 11, whose region is the first, and the load balancer
on interface 12, whose region is the second. -/

def nic11 : Nic := ⟨11, by decide⟩

def nic12 : Nic := ⟨12, by decide⟩

def twoRegions : List (ChainCall Unit) :=
  [.allocateRegion .xdpGeneric nic11, .allocateRegion .xdpGeneric nic12]

def twoNics : PinnedProgMap Unit := run call (init defaultProgMap) twoRegions

def listed (orderedNames : List (String × Int32)) : Listing where
  orderedNames := orderedNames
  orders := ifindexOrders orderedNames
  perm := .refl _

theorem registered_of_ids {progRegistry : String → Option ProgInfo}
    {hook : HookType} {names : List String} {ids : List UInt32}
    (hinfo : names.map progRegistry = ids.map fun id => some ⟨id, hook⟩)
    (hids : ids.Nodup) : Registered progRegistry hook names := by
  induction names generalizing ids with
  | nil => exact ⟨by simp, .nil⟩
  | cons name names ih =>
      cases ids with
      | nil => simp at hinfo
      | cons id ids =>
          simp only [List.map_cons, List.cons.injEq] at hinfo
          obtain ⟨hid, hinfo⟩ := hinfo
          obtain ⟨hfresh, hids⟩ := List.nodup_cons.mp hids
          have hrest := ih hinfo hids
          refine ⟨List.forall_mem_cons.mpr ⟨⟨id, hid⟩, hrest.info⟩,
            List.pairwise_cons.mpr ⟨fun other hother otherId hname hagain => ?_,
              hrest.distinct⟩⟩
          have hmem : progRegistry other ∈ names.map progRegistry :=
            List.mem_map_of_mem hother
          rw [hinfo, hagain] at hmem
          obtain ⟨known, hknown, heq⟩ := List.mem_map.mp hmem
          rw [hid] at hname
          simp only [Option.some.injEq, ProgInfo.mk.injEq, and_true]
            at hname heq
          exact hfresh (hname ▸ heq ▸ hknown)

def aclLb : Listing := listed [("ACL_XDP_GENERIC", 11), ("LB_XDP_GENERIC", 12)]

def aclAlone : Listing := listed [("ACL_XDP_GENERIC", 11)]

theorem listable_aclAlone : twoNics.Listable .xdpGeneric aclAlone where
  owned := by
    intro pair hpair
    obtain rfl := List.mem_singleton.mp hpair
    exact ⟨0, by decide⟩
  registered := by
    intro pair hpair
    obtain rfl := List.mem_singleton.mp hpair
    exact @registered_of_ids _ _ _ [5, 3] (by decide) (by decide)
  few := by decide

theorem rewritten_iff_aclAlone : twoNics.Rewritten .xdpGeneric aclAlone :=
  (@rewritten_iff Unit twoNics .xdpGeneric ⟨.fill none, .empty⟩ aclAlone
    twoRegions rfl rfl rfl listable_aclAlone).mpr ⟨by decide, by decide⟩

theorem listable_aclLb : twoNics.Listable .xdpGeneric aclLb where
  owned := by
    intro pair hpair
    rcases List.mem_pair.mp hpair with rfl | rfl
    · exact ⟨0, by decide⟩
    · exact ⟨8, by decide⟩
  registered := by
    intro pair hpair
    rcases List.mem_pair.mp hpair with rfl | rfl
    · exact @registered_of_ids _ _ _ [5, 3] (by decide) (by decide)
    · exact @registered_of_ids _ _ _ [5, 7] (by decide) (by decide)
  few := by decide

/-- The scheduler of interface 12 belongs into slot 8 and gets no entry. -/
theorem not_rewritten_aclLb :
    twoNics.Listable .xdpGeneric aclLb ∧
      twoNics.Wanted .xdpGeneric aclLb (chainKey 12 5) 8 ∧
      (twoNics.updateChainAlong .xdpGeneric aclLb.orders).1 = true ∧
      ((twoNics.updateChainAlong .xdpGeneric aclLb.orders).2.hookMaps
          .xdpGeneric).bind (fun maps =>
        maps.idhash.lookupElem (chainKey 12 5)) = none ∧
      ¬ twoNics.Rewritten .xdpGeneric aclLb := by
  have hwanted : twoNics.Wanted .xdpGeneric aclLb (chainKey 12 5) 8 :=
    ⟨("LB_XDP_GENERIC", 12), .tail _ (.head _), 8, 0,
      schedulerName .xdpGeneric, 5, by decide, rfl, by decide, rfl,
      rfl⟩
  have hdone : (twoNics.updateChainAlong .xdpGeneric aclLb.orders).1 = true :=
    by decide
  have habsent : ((twoNics.updateChainAlong .xdpGeneric
      aclLb.orders).2.hookMaps .xdpGeneric).bind (fun maps =>
        maps.idhash.lookupElem (chainKey 12 5)) = none := by decide
  refine ⟨listable_aclLb, hwanted, hdone, habsent, fun hrewritten => ?_⟩
  obtain ⟨maps, hmaps⟩ : ∃ maps, (twoNics.updateChainAlong .xdpGeneric
      aclLb.orders).2.hookMaps .xdpGeneric = some maps := ⟨_, rfl⟩
  have hlookup := (hrewritten.exact maps hmaps (chainKey 12 5) 8).mpr hwanted
  rw [hmaps, Option.bind_some, hlookup] at habsent
  cases habsent

end PinnedProgMap

end Hebpf.Ebpf
