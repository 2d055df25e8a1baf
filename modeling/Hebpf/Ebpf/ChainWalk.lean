import Hebpf.Ebpf.Chain

namespace Hebpf.Ebpf

open Hebpf.Common Hebpf.Kernel

/-! The slots a packet runs through when several interfaces share the tables of
a hook, each with a region of its own. -/

variable {π : Type}

def executed (progId : π → UInt32) (maps : ChainMaps π) (ifindex : UInt32) :
    Nat → UInt32 → π → List (UInt32 × π)
  | 0, slot, prog => [(slot, prog)]
  | calls + 1, slot, prog =>
      (slot, prog) ::
        match maps.idhash.lookupElem (chainKey ifindex (progId prog)) with
        | none => []
        | some idx =>
            match chainNext maps ifindex (progId prog) with
            | none => []
            | some next => executed progId maps ifindex calls (idx + 1) next

theorem map_snd_executed (progId : π → UInt32) (maps : ChainMaps π)
    (ifindex : UInt32) (calls : Nat) (slot : UInt32) (prog : π) :
    (executed progId maps ifindex calls slot prog).map Prod.snd =
      walkFrom progId maps ifindex calls prog := by
  induction calls generalizing slot prog with
  | zero => rfl
  | succ calls ih =>
      simp only [executed, walkFrom, List.map_cons, List.cons.injEq, true_and]
      cases hlookup : maps.idhash.lookupElem
          (chainKey ifindex (progId prog)) with
      | none => simp [chainNext, hlookup]
      | some idx =>
          cases chainNext maps ifindex (progId prog) with
          | none => rfl
          | some next => exact ih (idx + 1) next

def slotsFrom (start : Nat) (progs : List π) : List (UInt32 × π) :=
  (progs.zipIdx start).map fun placed => (UInt32.ofNat placed.2, placed.1)

theorem ChainLayout.executed_eq {progId : π → UInt32} {maps : ChainMaps π}
    {ifindex : UInt32} {start : Nat} {prog : π} {rest : List π}
    (hlayout : ChainLayout progId maps ifindex start (prog :: rest))
    {calls : Nat} (hcalls : rest.length ≤ calls) :
    executed progId maps ifindex calls (UInt32.ofNat start) prog =
      slotsFrom start (prog :: rest) := by
  induction rest generalizing prog start calls with
  | nil =>
      cases calls with
      | zero => rfl
      | succ calls =>
          rw [executed, hlayout.chainNext_eq, hlayout.index 0 prog rfl]
          rfl
  | cons next rest ih =>
      cases calls with
      | zero => simp at hcalls
      | succ calls =>
          simp only [List.length_cons, Nat.add_le_add_iff_right] at hcalls
          have hnext : UInt32.ofNat (start + 0) + 1 =
              UInt32.ofNat (start + 1) := by
            rw [Nat.add_zero, UInt32.ofNat_add]
            rfl
          rw [executed, hlayout.chainNext_eq, hlayout.index 0 prog rfl]
          simp only [List.head?_cons, hnext, ih hlayout.tail hcalls]
          rfl

structure NicChain (π : Type) where
  ifindex : UInt32
  start : Nat
  services : List π
  deriving DecidableEq

namespace NicChain

variable (scheduler : π) (nic : NicChain π)

def progs : List π := scheduler :: nic.services

def slots : List (UInt32 × π) := slotsFrom nic.start (nic.progs scheduler)

def Owns (slot : UInt32) : Prop :=
  nic.start ≤ slot.toNat ∧ slot.toNat < nic.start + MAX_PER_NIC_PROGS

end NicChain

/-- Every interface has its chain at the start of a region of its own, and the
tables hold nothing else. -/
structure RegionLayout (progId : π → UInt32) (scheduler : π)
    (maps : ChainMaps π) (nics : List (NicChain π)) : Prop where
  room : ∀ nic ∈ nics, nic.start + MAX_PER_NIC_PROGS ≤ MAX_CHAIN_PROGS
  size : ∀ nic ∈ nics, nic.services.length < MAX_PER_NIC_PROGS
  ids : ∀ nic ∈ nics, ((nic.progs scheduler).map progId).Nodup
  apart : ∀ nic ∈ nics, ∀ other ∈ nics, nic ≠ other →
    nic.ifindex ≠ other.ifindex ∧
      (nic.start + MAX_PER_NIC_PROGS ≤ other.start ∨
        other.start + MAX_PER_NIC_PROGS ≤ nic.start)
  idhash : ∀ key idx, maps.idhash.lookupElem key = some idx ↔
    ∃ nic ∈ nics, ∃ k prog, (nic.progs scheduler)[k]? = some prog ∧
      key = chainKey nic.ifindex (progId prog) ∧
      idx = UInt32.ofNat (nic.start + k)
  parray : ∀ slot prog, maps.parray.lookupElem slot = some (some prog) ↔
    ∃ nic ∈ nics, ∃ k, (nic.progs scheduler)[k]? = some prog ∧
      slot = UInt32.ofNat (nic.start + k)

/-- A full region with another one right behind it. -/
def RunsOn (nics : List (NicChain π)) (nic : NicChain π) : Prop :=
  nic.services.length + 1 = MAX_PER_NIC_PROGS ∧
    ∃ other ∈ nics, other.start = nic.start + MAX_PER_NIC_PROGS

/-- The walk of a packet on an interface: the chain of the interface, slot by
slot, and no slot that another one owns. -/
structure RunsItsChain (progId : π → UInt32) (scheduler : π)
    (maps : ChainMaps π) (nics : List (NicChain π)) (nic : NicChain π) :
    Prop where
  exact : executed progId maps nic.ifindex MAX_TAIL_CALL_CNT
    (UInt32.ofNat nic.start) scheduler = nic.slots scheduler
  own : ∀ visit ∈ executed progId maps nic.ifindex MAX_TAIL_CALL_CNT
      (UInt32.ofNat nic.start) scheduler,
    ∀ other ∈ nics, other ≠ nic → ¬ other.Owns visit.1

namespace RegionLayout

variable {progId : π → UInt32} {scheduler : π} {maps : ChainMaps π}
  {nics : List (NicChain π)} {nic : NicChain π}

theorem position_lt
    (hlayout : RegionLayout progId scheduler maps nics) (hnic : nic ∈ nics)
    {k : Nat} {prog : π} (hprog : (nic.progs scheduler)[k]? = some prog) :
    k < MAX_PER_NIC_PROGS := by
  have hsize := hlayout.size nic hnic
  obtain ⟨hk, _⟩ := List.getElem?_eq_some_iff.mp hprog
  simp only [NicChain.progs, List.length_cons] at hk
  omega

theorem index (hlayout : RegionLayout progId scheduler maps nics)
    (hnic : nic ∈ nics) {k : Nat} {prog : π}
    (hprog : (nic.progs scheduler)[k]? = some prog) :
    maps.idhash.lookupElem (chainKey nic.ifindex (progId prog)) =
      some (UInt32.ofNat (nic.start + k)) :=
  (hlayout.idhash _ _).mpr ⟨nic, hnic, k, prog, hprog, rfl, rfl⟩

theorem slot (hlayout : RegionLayout progId scheduler maps nics)
    (hnic : nic ∈ nics) {k : Nat} {prog : π}
    (hprog : (nic.progs scheduler)[k]? = some prog) :
    maps.parray.lookupElem (UInt32.ofNat (nic.start + k)) =
      some (some prog) :=
  (hlayout.parray _ _).mpr ⟨nic, hnic, k, hprog, rfl⟩

theorem toNat_slot (hlayout : RegionLayout progId scheduler maps nics)
    (hnic : nic ∈ nics) {k : Nat} (hk : k < MAX_PER_NIC_PROGS) :
    (UInt32.ofNat (nic.start + k)).toNat = nic.start + k := by
  have hroom := hlayout.room nic hnic
  simp only [MAX_PER_NIC_PROGS, MAX_CHAIN_PROGS] at hroom hk
  rw [UInt32.toNat_ofNat']
  omega

theorem slot_behind (hlayout : RegionLayout progId scheduler maps nics)
    (hnic : nic ∈ nics) (hends : ¬ RunsOn nics nic)
    (hroom : nic.start + (nic.services.length + 1) < MAX_CHAIN_PROGS) :
    maps.parray.lookupElem
        (UInt32.ofNat (nic.start + (nic.services.length + 1))) =
      some none := by
  have hsize : MAX_CHAIN_PROGS ≤ 4294967296 := by decide
  have hread := maps.parray.lookupElem_ofNat hroom hsize
  rw [hread]
  by_contra hfull
  obtain ⟨prog, hprog⟩ := Option.ne_none_iff_exists'.mp
    fun hnone => hfull (congrArg some hnone)
  rw [hprog] at hread
  obtain ⟨other, hother, k, hplaced, hslot⟩ := (hlayout.parray _ _).mp hread
  have hk := hlayout.position_lt hother hplaced
  have hbehind := congrArg UInt32.toNat hslot
  rw [hlayout.toNat_slot hother hk, UInt32.toNat_ofNat'] at hbehind
  have hlength := hlayout.size nic hnic
  obtain ⟨hkLength, _⟩ := List.getElem?_eq_some_iff.mp hplaced
  simp only [NicChain.progs, List.length_cons] at hkLength
  simp only [MAX_PER_NIC_PROGS, MAX_CHAIN_PROGS] at hk hroom hlength
  by_cases hsame : nic = other
  · subst hsame
    omega
  · have hapart := (hlayout.apart nic hnic other hother hsame).2
    simp only [MAX_PER_NIC_PROGS] at hapart
    refine hends ⟨?_, other, hother, ?_⟩
    · simp only [MAX_PER_NIC_PROGS]
      omega
    · simp only [MAX_PER_NIC_PROGS]
      omega

theorem chainLayout (hlayout : RegionLayout progId scheduler maps nics)
    (hnic : nic ∈ nics) (hends : ¬ RunsOn nics nic) :
    ChainLayout progId maps nic.ifindex nic.start (nic.progs scheduler) where
  bound := by
    have hroom := hlayout.room nic hnic
    have hsize := hlayout.size nic hnic
    simp only [NicChain.progs, List.length_cons]
    omega
  index k prog hprog := hlayout.index hnic hprog
  slot k prog hprog := hlayout.slot hnic hprog
  stop hroom := hlayout.slot_behind hnic hends hroom

theorem length_walkFrom (hlayout : RegionLayout progId scheduler maps nics)
    (hnic : nic ∈ nics) (hruns : RunsOn nics nic) {behind k calls : Nat}
    {prog : π} (hprog : (nic.progs scheduler)[k]? = some prog)
    (hbehind : k + behind = nic.services.length) (hcalls : behind < calls) :
    behind + 1 < (walkFrom progId maps nic.ifindex calls prog).length := by
  obtain ⟨hfull, other, hother, hstart⟩ := hruns
  have hroom := hlayout.room other hother
  obtain ⟨calls, rfl⟩ : ∃ rest, calls = rest + 1 := ⟨calls - 1, by omega⟩
  induction behind generalizing k calls prog with
  | zero =>
      have hnext := chainNext_of_index (by omega) (hlayout.index hnic hprog)
      have hscheduler := hlayout.slot hother
        (show (other.progs scheduler)[0]? = some scheduler from rfl)
      rw [Nat.add_zero, hstart, ← hfull, ← hbehind] at hscheduler
      rw [if_pos (by omega), Nat.add_assoc,
        show k + 1 = k + 0 + 1 from rfl, hscheduler] at hnext
      rw [walkFrom, hnext]
      cases calls <;> simp [walkFrom]
  | succ behind ih =>
      obtain ⟨calls, rfl⟩ : ∃ rest, calls = rest + 1 := ⟨calls - 1, by omega⟩
      have hlength : k + 1 < (nic.progs scheduler).length := by
        simp only [NicChain.progs, List.length_cons]
        omega
      have hafter := List.getElem?_eq_getElem hlength
      have hnext := chainNext_of_index (by omega) (hlayout.index hnic hprog)
      rw [if_pos (by omega), Nat.add_assoc, hlayout.slot hnic hafter] at hnext
      have hrest := ih hafter (by omega) calls (by omega)
      rw [walkFrom, hnext, List.length_cons]
      simp only [Option.join_some]
      omega

theorem owns_of_mem_slots (hlayout : RegionLayout progId scheduler maps nics)
    (hnic : nic ∈ nics) {visit : UInt32 × π}
    (hvisit : visit ∈ nic.slots scheduler) : nic.Owns visit.1 := by
  obtain ⟨⟨prog, position⟩, hplaced, rfl⟩ := List.mem_map.mp hvisit
  obtain ⟨hfrom, hto, _⟩ := List.mem_zipIdx hplaced
  obtain ⟨k, rfl⟩ := Nat.exists_eq_add_of_le hfrom
  have hsize := hlayout.size nic hnic
  simp only [NicChain.progs, List.length_cons] at hto
  have hk : k < MAX_PER_NIC_PROGS := by omega
  simp only [NicChain.Owns, hlayout.toNat_slot hnic hk]
  omega

/-- A packet runs through exactly the chain of its interface unless the region
is full and another one begins right behind it. -/
theorem runsItsChain_iff (hlayout : RegionLayout progId scheduler maps nics)
    (hnic : nic ∈ nics) :
    RunsItsChain progId scheduler maps nics nic ↔ ¬ RunsOn nics nic := by
  have hsize := hlayout.size nic hnic
  simp only [MAX_PER_NIC_PROGS] at hsize
  constructor
  · intro hruns hon
    have hlonger := hlayout.length_walkFrom hnic hon
      (show (nic.progs scheduler)[0]? = some scheduler from rfl)
      (Nat.zero_add _) (show _ < MAX_TAIL_CALL_CNT by
        simp only [MAX_TAIL_CALL_CNT]
        omega)
    rw [← map_snd_executed progId maps nic.ifindex MAX_TAIL_CALL_CNT
      (UInt32.ofNat nic.start), hruns.exact] at hlonger
    simp [NicChain.slots, slotsFrom, NicChain.progs] at hlonger
  · intro hends
    have hexact : executed progId maps nic.ifindex MAX_TAIL_CALL_CNT
        (UInt32.ofNat nic.start) scheduler = nic.slots scheduler :=
      (hlayout.chainLayout hnic hends).executed_eq (by
        simp only [MAX_TAIL_CALL_CNT]
        omega)
    refine ⟨hexact, fun visit hvisit other hother hne howns => ?_⟩
    rw [hexact] at hvisit
    have hself := hlayout.owns_of_mem_slots hnic hvisit
    have hapart := (hlayout.apart other hother nic hnic hne).2
    simp only [NicChain.Owns] at hself howns
    omega

end RegionLayout

def fullNic : NicChain UInt32 := ⟨1, 0, [0, 1, 2, 3, 4, 6, 7]⟩

def nextNic : NicChain UInt32 := ⟨2, 8, [3]⟩

def adjacentSlots : List UInt32 := [5, 0, 1, 2, 3, 4, 6, 7, 5, 3]

def adjacentMaps : ChainMaps UInt32 where
  parray := ⟨fun index => adjacentSlots[index.val]?⟩
  idhash := {
    entries := ⟨[⟨chainKey 1 5, 0⟩, ⟨chainKey 1 0, 1⟩, ⟨chainKey 1 1, 2⟩,
      ⟨chainKey 1 2, 3⟩, ⟨chainKey 1 3, 4⟩, ⟨chainKey 1 4, 5⟩,
      ⟨chainKey 1 6, 6⟩, ⟨chainKey 1 7, 7⟩, ⟨chainKey 2 5, 8⟩,
      ⟨chainKey 2 3, 9⟩], by
        change List.Nodup _
        decide⟩
    bounded := by decide }

theorem regionLayout_adjacentMaps :
    RegionLayout id 5 adjacentMaps [fullNic, nextNic] where
  room := by decide
  size := by decide
  ids := by decide
  apart := by
    intro nic hnic other hother hne
    rcases List.mem_pair.mp hnic with rfl | rfl <;>
      rcases List.mem_pair.mp hother with rfl | rfl
    · exact absurd rfl hne
    · decide
    · decide
    · exact absurd rfl hne
  idhash := by
    intro key idx
    have hentries : (adjacentMaps.idhash.entries.entries.all fun entry =>
        [fullNic, nextNic].any fun nic => (nic.progs 5).zipIdx.any
          fun placed => entry.1 = chainKey nic.ifindex placed.1 ∧
            entry.2 = UInt32.ofNat (nic.start + placed.2)) = true := by decide
    have hplaced : ([fullNic, nextNic].all fun nic =>
        (nic.progs 5).zipIdx.all fun placed =>
          adjacentMaps.idhash.lookupElem (chainKey nic.ifindex placed.1) =
            some (UInt32.ofNat (nic.start + placed.2))) = true := by decide
    simp only [List.all_eq_true, List.any_eq_true, decide_eq_true_eq]
      at hentries hplaced
    constructor
    · intro hlookup
      obtain ⟨nic, hnic, ⟨prog, k⟩, hprog, hkey, hidx⟩ :=
        hentries _ (AList.mem_lookup_iff.mp hlookup)
      exact ⟨nic, hnic, k, prog, List.mem_zipIdx_iff_getElem?.mp hprog, hkey,
        hidx⟩
    · rintro ⟨nic, hnic, k, prog, hprog, rfl, rfl⟩
      exact hplaced nic hnic (prog, k) (List.mem_zipIdx_iff_getElem?.mpr hprog)
  parray := by
    intro slot prog
    have hslots : (adjacentSlots.zipIdx.all fun slot =>
        [fullNic, nextNic].any fun nic => (nic.progs 5).zipIdx.any
          fun placed => slot.1 = placed.1 ∧
            slot.2 = nic.start + placed.2) = true := by decide
    have hplaced : ([fullNic, nextNic].all fun nic =>
        (nic.progs 5).zipIdx.all fun placed =>
          adjacentMaps.parray.lookupElem
            (UInt32.ofNat (nic.start + placed.2)) =
              some (some placed.1)) = true := by decide
    simp only [List.all_eq_true, List.any_eq_true, decide_eq_true_eq]
      at hslots hplaced
    constructor
    · intro hlookup
      unfold BpfArray.lookupElem at hlookup
      split_ifs at hlookup with hindex
      have hread : adjacentSlots[slot.toNat]? = some prog :=
        Option.some.inj hlookup
      obtain ⟨nic, hnic, ⟨placed, k⟩, hprog, hsame, hslot⟩ :=
        hslots (prog, slot.toNat) (List.mem_zipIdx_iff_getElem?.mpr hread)
      simp only at hsame hslot
      refine ⟨nic, hnic, k, ?_, ?_⟩
      · rw [hsame]
        exact List.mem_zipIdx_iff_getElem?.mp hprog
      · rw [← hslot, UInt32.ofNat_toNat]
    · rintro ⟨nic, hnic, k, hprog, rfl⟩
      exact hplaced nic hnic (prog, k) (List.mem_zipIdx_iff_getElem?.mpr hprog)

theorem runsItsChain_iff_adjacentMaps :
    RunsItsChain id 5 adjacentMaps [fullNic, nextNic] nextNic :=
  (regionLayout_adjacentMaps.runsItsChain_iff (.tail _ (.head _))).mpr (by
    rintro ⟨hfull, -⟩
    revert hfull
    decide)

/-- The packet of interface 1 runs on into the other region, whose scheduler
sends it round its own chain until the kernel stops it. -/
theorem not_runsItsChain_fullNic :
    RegionLayout id 5 adjacentMaps [fullNic, nextNic] ∧
      (executed id adjacentMaps 1 MAX_TAIL_CALL_CNT 0 5).length = 34 ∧
      (8, 5) ∈ executed id adjacentMaps 1 MAX_TAIL_CALL_CNT 0 5 ∧
      nextNic.Owns 8 ∧
      ¬ RunsItsChain id 5 adjacentMaps [fullNic, nextNic] fullNic := by
  have hwalk : (executed id adjacentMaps 1 MAX_TAIL_CALL_CNT 0 5).length = 34 ∧
      (8, 5) ∈ executed id adjacentMaps 1 MAX_TAIL_CALL_CNT 0 5 := by
    decide
  have howns : nextNic.Owns 8 := by
    unfold NicChain.Owns
    decide
  refine ⟨regionLayout_adjacentMaps, hwalk.1, hwalk.2, howns, fun hruns => ?_⟩
  exact hruns.own (8, 5) hwalk.2 nextNic (.tail _ (.head _)) (by decide) howns

end Hebpf.Ebpf
