import Hebpf.Data.Run
import Hebpf.Ebpf.ChainAsserts

namespace Hebpf.Ebpf

open Hebpf.Common Hebpf.Data Hebpf.Kernel Hebpf.Daemon

/-! Regions that are allocated and released in any order, and the chains that
are written from them. -/

abbrev Nic := { ifindex : Int32 // 0 < ifindex }

theorem toUInt32_inj {left right : Int32}
    (hword : left.toUInt32 = right.toUInt32) : left = right :=
  congrArg UInt32.toInt32 hword

/-- The names of a list, grouped by interface in one of the orders in which an
`unordered_map` can be walked. -/
structure Listing where
  orderedNames : List (String × Int32)
  orders : List (Int32 × List String)
  perm : orders.Perm (PinnedProgMap.ifindexOrders orderedNames)

namespace Listing

def namesOf (listing : Listing) (ifindex : Int32) : List String :=
  (listing.orderedNames.filter fun pair => pair.2 = ifindex).map Prod.fst

theorem mem_orders_iff (listing : Listing) {ifindex : Int32}
    {names : List String} :
    (ifindex, names) ∈ listing.orders ↔
      (∃ pair ∈ listing.orderedNames, pair.2 = ifindex) ∧
        names = listing.namesOf ifindex := by
  rw [listing.perm.mem_iff, PinnedProgMap.ifindexOrders, List.mem_map]
  constructor
  · rintro ⟨other, hmem, heq⟩
    obtain ⟨rfl, rfl⟩ := Prod.mk.inj heq
    exact ⟨List.mem_map.mp (List.mem_dedup.mp hmem), rfl⟩
  · rintro ⟨hlisted, rfl⟩
    exact ⟨ifindex, List.mem_dedup.mpr (List.mem_map.mpr hlisted), rfl⟩

theorem forall_orders_iff (listing : Listing)
    {property : Int32 → List String → Prop} :
    (∀ pair ∈ listing.orders, property pair.1 pair.2) ↔
      ∀ pair ∈ listing.orderedNames,
        property pair.2 (listing.namesOf pair.2) := by
  constructor
  · intro hall pair hpair
    exact hall (pair.2, listing.namesOf pair.2)
      (listing.mem_orders_iff.mpr ⟨⟨pair, hpair, rfl⟩, rfl⟩)
  · rintro hall ⟨ifindex, names⟩ hmem
    obtain ⟨⟨pair, hpair, rfl⟩, rfl⟩ := listing.mem_orders_iff.mp hmem
    exact hall pair hpair

theorem nodup_orders (listing : Listing) :
    (listing.orders.map Prod.fst).Nodup := by
  rw [(listing.perm.map Prod.fst).nodup_iff, PinnedProgMap.ifindexOrders,
    List.map_map]
  have hid : (Prod.fst ∘ fun ifindex => (ifindex,
      (listing.orderedNames.filter fun pair => pair.2 = ifindex).map
        Prod.fst)) = id := rfl
  rw [hid, List.map_id]
  exact List.nodup_dedup _

end Listing

structure Spaced (hookRegions : Table Int32 Nat) : Prop where
  positive : ∀ ifindex start, hookRegions.lookup ifindex = some start →
    0 < ifindex
  aligned : ∀ ifindex start, hookRegions.lookup ifindex = some start →
    MAX_PER_NIC_PROGS ∣ start
  room : ∀ ifindex start, hookRegions.lookup ifindex = some start →
    start + MAX_PER_NIC_PROGS ≤ MAX_CHAIN_PROGS
  distinct : ∀ left right start, hookRegions.lookup left = some start →
    hookRegions.lookup right = some start → left = right

theorem spaced_empty : Spaced ∅ := by
  constructor <;> intros <;> simp_all

theorem foldl_nextStart_spec {regions : List (Sigma fun _ : Int32 => Nat)}
    (hregions : ∀ region ∈ regions, MAX_PER_NIC_PROGS ∣ region.2) {next : Nat}
    (hnext : MAX_PER_NIC_PROGS ∣ next) :
    let last := regions.foldl (fun next region =>
      if next ≤ region.2 then region.2 + MAX_PER_NIC_PROGS else next) next
    MAX_PER_NIC_PROGS ∣ last ∧ next ≤ last ∧
      ∀ region ∈ regions, region.2 < last := by
  induction regions generalizing next with
  | nil => exact ⟨hnext, le_refl _, by simp⟩
  | cons region rest ih =>
      rw [List.forall_mem_cons] at hregions
      have hstep : MAX_PER_NIC_PROGS ∣ (if next ≤ region.2 then
          region.2 + MAX_PER_NIC_PROGS else next) := by
        split_ifs
        · exact Dvd.dvd.add hregions.1 (dvd_refl _)
        · exact hnext
      obtain ⟨hlast, hle, hrest⟩ := ih hregions.2 hstep
      rw [List.foldl_cons]
      refine ⟨hlast, ?_, List.forall_mem_cons.mpr ⟨?_, hrest⟩⟩
      · refine le_trans ?_ hle
        split_ifs with hbelow
        · omega
        · exact le_refl _
      · refine lt_of_lt_of_le ?_ hle
        split_ifs with hbelow
        · simp only [MAX_PER_NIC_PROGS]
          omega
        · omega

theorem nextStart_spec {hookRegions : Table Int32 Nat}
    (hspaced : Spaced hookRegions) :
    MAX_PER_NIC_PROGS ∣ PinnedProgMap.nextStart hookRegions ∧
      ∀ ifindex start, hookRegions.lookup ifindex = some start →
        start < PinnedProgMap.nextStart hookRegions := by
  have hentries : ∀ region ∈ hookRegions.entries,
      MAX_PER_NIC_PROGS ∣ region.2 := fun region hregion =>
    hspaced.aligned region.1 region.2 (AList.mem_lookup_iff.mpr hregion)
  obtain ⟨hlast, _, hbehind⟩ := foldl_nextStart_spec hentries
    (dvd_zero _)
  exact ⟨hlast, fun ifindex start hlookup =>
    hbehind ⟨ifindex, start⟩ (AList.mem_lookup_iff.mp hlookup)⟩

theorem Spaced.insert {hookRegions : Table Int32 Nat}
    (hspaced : Spaced hookRegions) {ifindex : Int32}
    (hpositive : 0 < ifindex)
    (hroom : PinnedProgMap.nextStart hookRegions + MAX_PER_NIC_PROGS ≤
      MAX_CHAIN_PROGS) :
    Spaced (hookRegions.insert ifindex
      (PinnedProgMap.nextStart hookRegions)) := by
  obtain ⟨haligned, hbehind⟩ := nextStart_spec hspaced
  have hread : ∀ other start, (hookRegions.insert ifindex
        (PinnedProgMap.nextStart hookRegions)).lookup other = some start →
      other = ifindex ∧ start = PinnedProgMap.nextStart hookRegions ∨
        hookRegions.lookup other = some start := by
    intro other start hlookup
    by_cases heq : other = ifindex
    · subst heq
      rw [AList.lookup_insert] at hlookup
      exact .inl ⟨rfl, (Option.some.inj hlookup).symm⟩
    · rw [AList.lookup_insert_ne heq] at hlookup
      exact .inr hlookup
  refine ⟨fun other start hlookup => ?_, fun other start hlookup => ?_,
    fun other start hlookup => ?_, fun left right start hleft hright => ?_⟩
  · rcases hread other start hlookup with ⟨rfl, -⟩ | hold
    · exact hpositive
    · exact hspaced.positive other start hold
  · rcases hread other start hlookup with ⟨-, rfl⟩ | hold
    · exact haligned
    · exact hspaced.aligned other start hold
  · rcases hread other start hlookup with ⟨-, rfl⟩ | hold
    · exact hroom
    · exact hspaced.room other start hold
  · rcases hread left start hleft with ⟨rfl, rfl⟩ | hold <;>
      rcases hread right _ hright with ⟨rfl, heq⟩ | hother
    · rfl
    · exact absurd (hbehind right _ hother) (lt_irrefl _)
    · subst heq
      exact absurd (hbehind left _ hold) (lt_irrefl _)
    · exact hspaced.distinct left right start hold hother

theorem Spaced.erase {hookRegions : Table Int32 Nat}
    (hspaced : Spaced hookRegions) (ifindex : Int32) :
    Spaced (hookRegions.erase ifindex) := by
  have hread : ∀ other start,
      (hookRegions.erase ifindex).lookup other = some start →
        hookRegions.lookup other = some start := by
    intro other start hlookup
    by_cases heq : other = ifindex
    · subst heq
      rw [AList.lookup_erase] at hlookup
      cases hlookup
    · rwa [AList.lookup_erase_ne heq] at hlookup
  exact ⟨fun other start hlookup =>
      hspaced.positive other start (hread other start hlookup),
    fun other start hlookup =>
      hspaced.aligned other start (hread other start hlookup),
    fun other start hlookup =>
      hspaced.room other start (hread other start hlookup),
    fun left right start hleft hright => hspaced.distinct left right start
      (hread left start hleft) (hread right start hright)⟩

theorem Spaced.apart {hookRegions : Table Int32 Nat}
    (hspaced : Spaced hookRegions) {left right : Int32} {first second : Nat}
    (hleft : hookRegions.lookup left = some first)
    (hright : hookRegions.lookup right = some second) (hne : left ≠ right) :
    first + MAX_PER_NIC_PROGS ≤ second ∨
      second + MAX_PER_NIC_PROGS ≤ first := by
  obtain ⟨m, rfl⟩ := hspaced.aligned left first hleft
  obtain ⟨n, rfl⟩ := hspaced.aligned right second hright
  have hstarts : m ≠ n := by
    rintro rfl
    exact hne (hspaced.distinct left right _ hleft hright)
  simp only [MAX_PER_NIC_PROGS]
  omega

theorem Spaced.start_eq_zero {hookRegions : Table Int32 Nat}
    (hspaced : Spaced hookRegions) {ifindex : Int32} {start : Nat}
    (hlookup : hookRegions.lookup ifindex = some start)
    (hfirst : start < MAX_PER_NIC_PROGS) : start = 0 := by
  obtain ⟨m, rfl⟩ := hspaced.aligned ifindex start hlookup
  simp only [MAX_PER_NIC_PROGS] at hfirst ⊢
  omega

inductive ChainCall (π : Type) where
  | allocateRegion (hook : HookType) (nic : Nic)
  | releaseRegion (hook : HookType) (ifindex : Int32)
  | updateChain (hook : HookType) (listing : Listing)
  | insertProg (hook : HookType) (name : String) (prog : π) (ifindex : Int32)

namespace PinnedProgMap

variable {π : Type}

def updateChainAlong (chain : PinnedProgMap π) (hook : HookType)
    (orders : List (Int32 × List String)) : Bool × PinnedProgMap π :=
  match chain.initialized, chain.hookMaps hook with
  | true, some maps =>
      let (updated, idhash) := chain.indexInterfaces hook orders
        (clearIdhash maps.idhash)
      (updated, { chain with
        hookMaps := Function.update chain.hookMaps hook
          (some { maps with idhash }) })
  | _, _ => (false, chain)

theorem updateChainAlong_of_maps {chain : PinnedProgMap π}
    (hinitialized : chain.initialized = true) {hook : HookType}
    {maps : ChainMaps π} (hmaps : chain.hookMaps hook = some maps)
    (orders : List (Int32 × List String)) :
    chain.updateChainAlong hook orders =
      ((chain.indexInterfaces hook orders (clearIdhash maps.idhash)).1,
        { chain with
          hookMaps := Function.update chain.hookMaps hook (some { maps with
            idhash := (chain.indexInterfaces hook orders
              (clearIdhash maps.idhash)).2 }) }) := by
  simp only [updateChainAlong, hinitialized, hmaps]

def call (chain : PinnedProgMap π) : ChainCall π → PinnedProgMap π
  | .allocateRegion hook nic => (chain.allocateRegion hook nic).2
  | .releaseRegion hook ifindex => chain.releaseRegion hook ifindex
  | .updateChain hook listing =>
      (chain.updateChainAlong hook listing.orders).2
  | .insertProg hook name prog ifindex =>
      (chain.insertProg hook name prog ifindex).2

theorem allocateRegion_regions (chain : PinnedProgMap π) (hook : HookType)
    (ifindex : Int32) :
    ∃ hookRegions, (chain.allocateRegion hook ifindex).2 = { chain with
        regions := Function.update chain.regions hook hookRegions } ∧
      (hookRegions = chain.regions hook ∨
        (chain.regions hook).lookup ifindex = none ∧
          nextStart (chain.regions hook) + MAX_PER_NIC_PROGS ≤
            MAX_CHAIN_PROGS ∧
          hookRegions = (chain.regions hook).insert ifindex
            (nextStart (chain.regions hook))) := by
  unfold allocateRegion
  cases hlookup : (chain.regions hook).lookup ifindex with
  | some start => exact ⟨_, by simp only [Function.update_eq_self], .inl rfl⟩
  | none =>
      simp only
      split_ifs with hfull
      · exact ⟨_, by simp only [Function.update_eq_self], .inl rfl⟩
      · exact ⟨_, rfl, .inr ⟨trivial, not_lt.mp hfull, rfl⟩⟩

theorem insertProg_cases (chain : PinnedProgMap π) (hook : HookType)
    (name : String) (prog : π) (ifindex : Int32) :
    (chain.insertProg hook name prog ifindex).2 = chain ∨
      ∃ maps parray, chain.hookMaps hook = some maps ∧
        (chain.insertProg hook name prog ifindex).2 = { chain with
          hookMaps := Function.update chain.hookMaps hook
            (some { maps with parray }) } := by
  unfold insertProg
  split
  · rename_i maps info _ hmaps _
    split_ifs
    · exact .inl rfl
    · split
      · exact .inl rfl
      · split
        · exact .inl rfl
        · exact .inr ⟨maps, _, hmaps, rfl⟩
  · exact .inl rfl

theorem spaced_call {chain : PinnedProgMap π}
    (hspaced : ∀ hook, Spaced (chain.regions hook)) (call : ChainCall π) :
    ∀ hook, Spaced ((chain.call call).regions hook) := by
  intro other
  cases call with
  | allocateRegion hook nic =>
      obtain ⟨hookRegions, hafter, hregions⟩ :=
        chain.allocateRegion_regions hook nic
      simp only [PinnedProgMap.call, hafter, Function.update_apply]
      split_ifs with heq
      · rcases hregions with rfl | ⟨-, hroom, rfl⟩
        · exact hspaced hook
        · exact (hspaced hook).insert nic.property hroom
      · exact hspaced other
  | releaseRegion hook ifindex =>
      simp only [PinnedProgMap.call, PinnedProgMap.releaseRegion,
        Function.update_apply]
      split_ifs with heq
      · exact (hspaced hook).erase ifindex
      · exact hspaced other
  | updateChain hook listing =>
      simp only [PinnedProgMap.call, updateChainAlong]
      split
      · exact hspaced other
      · exact hspaced other
  | insertProg hook name prog ifindex =>
      simp only [PinnedProgMap.call]
      rcases chain.insertProg_cases hook name prog ifindex with
        hsame | ⟨maps, parray, -, hafter⟩
      · rw [hsame]
        exact hspaced other
      · rw [hafter]
        exact hspaced other

theorem spaced_run (progRegistry : String → Option ProgInfo)
    (calls : List (ChainCall π)) (hook : HookType) :
    Spaced ((run call (init progRegistry) calls).regions hook) := by
  have hrule := @invariant_run _ _ (@call π)
    (fun chain => ∀ hook, Spaced (chain.regions hook))
    (fun _ input hspaced => spaced_call hspaced input) (init progRegistry)
  exact hrule (fun _ => spaced_empty) calls hook

end PinnedProgMap

end Hebpf.Ebpf
