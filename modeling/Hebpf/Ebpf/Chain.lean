import Hebpf.Common.Network
import Hebpf.Kernel.BpfMap

namespace Hebpf.Ebpf

open Hebpf.Common Hebpf.Kernel

def MAX_NIC_HOOK : Nat := 4
def MAX_PER_NIC_PROGS : Nat := 8
def MAX_CHAIN_PROGS : Nat := 32

abbrev ChainKey := BitVec (32 + 32)

/-- `CHAIN_KEY`: the interface index above the program id. -/
def chainKey (ifindex id : UInt32) : ChainKey :=
  ifindex.toBitVec ++ id.toBitVec

theorem chainKey_inj {ifindex ifindex' id id' : UInt32} :
    chainKey ifindex id = chainKey ifindex' id' ↔
      ifindex = ifindex' ∧ id = id' := by
  constructor
  · intro heq
    have hhigh := congrArg (BitVec.extractLsb' 32 32) heq
    have hlow := congrArg (BitVec.extractLsb' 0 32) heq
    simp only [chainKey, BitVec.extractLsb'_append_eq_left,
      BitVec.extractLsb'_append_eq_right, UInt32.toBitVec_inj] at hhigh hlow
    exact ⟨hhigh, hlow⟩
  · rintro ⟨rfl, rfl⟩
    rfl

/-- The pinned maps of one hook.  Programs are of any type `π`. -/
structure ChainMaps (π : Type) where
  parray : BpfArray (Option π) MAX_CHAIN_PROGS
  idhash : BpfHash ChainKey UInt32 MAX_CHAIN_PROGS

variable {π : Type}

def chainNext (maps : ChainMaps π) (ifindex id : UInt32) : Option π :=
  match maps.idhash.lookupElem (chainKey ifindex id) with
  | none => none
  | some idx =>
      let next := idx + 1
      if next < UInt32.ofNat MAX_CHAIN_PROGS then
        (maps.parray.lookupElem next).join
      else none

theorem chainNext_of_index {maps : ChainMaps π} {ifindex id : UInt32}
    {index : Nat} (hbound : index < MAX_CHAIN_PROGS)
    (hindex : maps.idhash.lookupElem (chainKey ifindex id) =
      some (UInt32.ofNat index)) :
    chainNext maps ifindex id =
      if index + 1 < MAX_CHAIN_PROGS then
        (maps.parray.lookupElem (UInt32.ofNat (index + 1))).join
      else none := by
  have hnext : UInt32.ofNat index + 1 = UInt32.ofNat (index + 1) := by
    rw [UInt32.ofNat_add]
    rfl
  have hlt : UInt32.ofNat (index + 1) < UInt32.ofNat MAX_CHAIN_PROGS ↔
      index + 1 < MAX_CHAIN_PROGS := by
    rw [UInt32.lt_iff_toNat_lt, UInt32.toNat_ofNat', UInt32.toNat_ofNat']
    simp only [MAX_CHAIN_PROGS] at hbound ⊢
    omega
  simp only [chainNext, hindex, hnext, hlt]

/-- The kernel refuses a tail call after 33 of them. -/
def MAX_TAIL_CALL_CNT : Nat := 33

def walkFrom (progId : π → UInt32) (maps : ChainMaps π) (ifindex : UInt32) :
    Nat → π → List π
  | 0, prog => [prog]
  | calls + 1, prog =>
      prog :: match chainNext maps ifindex (progId prog) with
        | none => []
        | some next => walkFrom progId maps ifindex calls next

/-- `progs` stand one behind the other in the tables of an interface, from
`start` on, and nothing stands behind them. -/
structure ChainLayout (progId : π → UInt32) (maps : ChainMaps π)
    (ifindex : UInt32) (start : Nat) (progs : List π) : Prop where
  bound : start + progs.length ≤ MAX_CHAIN_PROGS
  index : ∀ k prog, progs[k]? = some prog →
    maps.idhash.lookupElem (chainKey ifindex (progId prog)) =
      some (UInt32.ofNat (start + k))
  slot : ∀ k prog, progs[k + 1]? = some prog →
    maps.parray.lookupElem (UInt32.ofNat (start + (k + 1))) = some (some prog)
  stop : start + progs.length < MAX_CHAIN_PROGS →
    maps.parray.lookupElem (UInt32.ofNat (start + progs.length)) = some none

namespace ChainLayout

variable {progId : π → UInt32} {maps : ChainMaps π} {ifindex : UInt32}
  {start : Nat}

theorem tail {prog : π} {rest : List π}
    (hlayout : ChainLayout progId maps ifindex start (prog :: rest)) :
    ChainLayout progId maps ifindex (start + 1) rest where
  bound := by
    have hbound := hlayout.bound
    simp only [List.length_cons] at hbound
    omega
  index := by
    intro k other hother
    rw [Nat.add_assoc, Nat.add_comm 1 k]
    exact hlayout.index (k + 1) other hother
  slot := by
    intro k other hother
    rw [Nat.add_assoc, Nat.add_comm 1 (k + 1)]
    exact hlayout.slot (k + 1) other hother
  stop := by
    have hstop := hlayout.stop
    rw [List.length_cons, Nat.add_comm rest.length 1, ← Nat.add_assoc]
      at hstop
    exact hstop

/-- The tail call goes from each program to the one behind it. -/
theorem chainNext_eq {prog : π} {rest : List π}
    (hlayout : ChainLayout progId maps ifindex start (prog :: rest)) :
    chainNext maps ifindex (progId prog) = rest.head? := by
  have hbound := hlayout.bound
  have hindex := hlayout.index 0 prog rfl
  simp only [List.length_cons, Nat.add_zero] at hbound hindex
  rw [chainNext_of_index (by omega) hindex]
  cases rest with
  | nil =>
      split_ifs with hroom
      · rw [show start + 1 = start + [prog].length from rfl,
          hlayout.stop hroom]
        rfl
      · rfl
  | cons next rest =>
      rw [List.length_cons] at hbound
      rw [if_pos (by omega), hlayout.slot 0 next rfl]
      rfl

theorem walkFrom_eq {prog : π} {rest : List π}
    (hlayout : ChainLayout progId maps ifindex start (prog :: rest))
    {calls : Nat} (hcalls : rest.length ≤ calls) :
    walkFrom progId maps ifindex calls prog = prog :: rest := by
  induction rest generalizing prog start calls with
  | nil =>
      cases calls <;> simp [walkFrom, hlayout.chainNext_eq]
  | cons next rest ih =>
      cases calls with
      | zero => simp at hcalls
      | succ calls =>
          simp only [List.length_cons, Nat.add_le_add_iff_right] at hcalls
          simp [walkFrom, hlayout.chainNext_eq, ih hlayout.tail hcalls]

end ChainLayout

/-! Programs that act on a frame and then run `CHAIN_NEXT` or end the chain. -/

structure ChainProgram (ν : Type) where
  id : UInt32
  exec : Frame → Frame × Exit ν

variable {ν : Type}

def runChain (maps : ChainMaps (ChainProgram ν)) (ifindex : UInt32) :
    Nat → ChainProgram ν → Frame → Frame × ν
  | calls, prog, frame =>
      match prog.exec frame with
      | (sent, .ret verdict) => (sent, verdict)
      | (sent, .chainNext fallthrough) =>
          match calls, chainNext maps ifindex prog.id with
          | calls + 1, some next => runChain maps ifindex calls next sent
          | _, _ => (sent, fallthrough)

/-- The programs one after the other: the last one reached gives the verdict,
`verdict` if there is none. -/
def runPrograms : List (ChainProgram ν) → ν → Frame → Frame × ν
  | [], verdict, frame => (frame, verdict)
  | prog :: rest, _, frame =>
      match prog.exec frame with
      | (sent, .ret verdict) => (sent, verdict)
      | (sent, .chainNext fallthrough) => runPrograms rest fallthrough sent

/-- What the programs before another one make of a frame; `none` when one of
them ends the chain. -/
def passThrough : List (ChainProgram ν) → Frame → Option Frame
  | [], frame => some frame
  | prog :: rest, frame =>
      match prog.exec frame with
      | (_, .ret _) => none
      | (sent, .chainNext _) => passThrough rest sent

theorem runPrograms_append {before after : List (ChainProgram ν)}
    {frame sent : Frame} (hpass : passThrough before frame = some sent)
    (verdict : ν) :
    ∃ fallthrough, runPrograms (before ++ after) verdict frame =
      runPrograms after fallthrough sent := by
  induction before generalizing frame verdict with
  | nil =>
      cases hpass
      exact ⟨verdict, rfl⟩
  | cons prog rest ih =>
      simp only [passThrough] at hpass
      simp only [List.cons_append, runPrograms]
      split at hpass
      · cases hpass
      · exact ih hpass _

theorem ChainLayout.runChain_eq {maps : ChainMaps (ChainProgram ν)}
    {ifindex : UInt32} {start : Nat} {prog : ChainProgram ν}
    {rest : List (ChainProgram ν)}
    (hlayout : ChainLayout ChainProgram.id maps ifindex start (prog :: rest))
    {calls : Nat} (hcalls : rest.length ≤ calls) (verdict : ν)
    (frame : Frame) :
    runChain maps ifindex calls prog frame =
      runPrograms (prog :: rest) verdict frame := by
  induction rest generalizing prog start calls verdict frame with
  | nil =>
      unfold runChain
      rw [hlayout.chainNext_eq]
      simp only [runPrograms, List.head?_nil]
  | cons next rest ih =>
      cases calls with
      | zero => simp at hcalls
      | succ calls =>
          simp only [List.length_cons, Nat.add_le_add_iff_right] at hcalls
          unfold runChain
          rw [hlayout.chainNext_eq, runPrograms]
          split
          · rfl
          · exact ih hlayout.tail hcalls _ _

end Hebpf.Ebpf
