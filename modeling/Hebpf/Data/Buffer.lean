import Mathlib.Data.List.TakeDrop
import Mathlib.Data.Vector.Basic

namespace Hebpf.Data

/-! Arrays of a fixed size that are written byte by byte, and what stands at
their beginning. -/

inductive Fault where
  | wroteOutside
  | readOutside
  deriving DecidableEq, Repr

abbrev Buffer (size : Nat) := Vector UInt8 size

namespace Buffer

variable {size : Nat}

def zero : Buffer size := Vector.replicate size 0

def store (buffer : Buffer size) (index : Nat) (byte : UInt8) :
    Except Fault (Buffer size) :=
  if hindex : index < size then .ok (buffer.set index byte)
  else .error .wroteOutside

def storeAll (buffer : Buffer size) (index : Nat) :
    List UInt8 → Except Fault (Buffer size)
  | [] => .ok buffer
  | byte :: rest => do
      let stored ← buffer.store index byte
      storeAll stored (index + 1) rest

def Holds (buffer : Buffer size) (written : List UInt8) : Prop :=
  written <+: buffer.toList

theorem holds_nil (buffer : Buffer size) : buffer.Holds [] :=
  ⟨buffer.toList, rfl⟩

theorem Holds.shorten {buffer : Buffer size} {written shorter : List UInt8}
    (hholds : buffer.Holds written) (hshorter : shorter <+: written) :
    buffer.Holds shorter :=
  hshorter.trans hholds

theorem store_of_le (buffer : Buffer size) {index : Nat} (hindex : size ≤ index)
    (byte : UInt8) : buffer.store index byte = .error .wroteOutside :=
  dif_neg (Nat.not_lt.mpr hindex)

theorem Holds.store {buffer : Buffer size} {written : List UInt8}
    (hholds : buffer.Holds written) (hroom : written.length < size)
    (byte : UInt8) :
    ∃ stored, buffer.store written.length byte = .ok stored ∧
      stored.Holds (written ++ [byte]) := by
  refine ⟨buffer.set written.length byte, dif_pos hroom, ?_⟩
  obtain ⟨behind, hbuffer⟩ := hholds
  unfold Holds
  rw [Vector.toList_set, ← hbuffer]
  cases behind with
  | nil =>
      rw [List.append_nil] at hbuffer
      have hlength := congrArg List.length hbuffer
      rw [Vector.length_toList] at hlength
      omega
  | cons old behind =>
      refine ⟨behind, ?_⟩
      simp

theorem Holds.storeAll {buffer : Buffer size} {written bytes : List UInt8}
    (hholds : buffer.Holds written)
    (hroom : written.length + bytes.length ≤ size) :
    ∃ stored, buffer.storeAll written.length bytes = .ok stored ∧
      stored.Holds (written ++ bytes) := by
  induction bytes generalizing buffer written with
  | nil => exact ⟨buffer, rfl, by rwa [List.append_nil]⟩
  | cons byte rest ih =>
      rw [List.length_cons] at hroom
      obtain ⟨first, hfirst, hheld⟩ := hholds.store (by omega) byte
      obtain ⟨stored, hstored, hall⟩ := ih hheld (by
        rw [List.length_append, List.length_singleton]
        omega)
      refine ⟨stored, ?_, ?_⟩
      · rw [List.length_append, List.length_singleton] at hstored
        rw [Buffer.storeAll, hfirst]
        exact hstored
      · rwa [List.append_assoc, List.singleton_append] at hall

/-- `snprintf` of a text: as much as there is room for, and a zero byte.  It
answers the length of the whole text. -/
def snprintf (buffer : Buffer size) (index room : Nat) (text : List UInt8) :
    Except Fault (Buffer size × Nat) :=
  if room = 0 then .ok (buffer, text.length)
  else do
    let stored ← buffer.storeAll index (text.take (room - 1) ++ [0])
    return (stored, text.length)

theorem Holds.snprintf {buffer : Buffer size} {written : List UInt8}
    (hholds : buffer.Holds written) (hroom : written.length < size)
    (text : List UInt8) :
    ∃ stored,
      buffer.snprintf written.length (size - written.length) text =
        .ok (stored, text.length) ∧
      stored.Holds (written ++ text.take (size - written.length - 1)) := by
  obtain ⟨stored, hstored, hheld⟩ := @Holds.storeAll size buffer written
    (text.take (size - written.length - 1) ++ [0]) hholds (by
      rw [List.length_append, List.length_take, List.length_singleton]
      omega)
  refine ⟨stored, ?_, hheld.shorten ?_⟩
  · rw [Buffer.snprintf, if_neg (by omega), hstored]
    rfl
  · rw [← List.append_assoc]
    exact List.prefix_append _ _

/-- What a C function reads: the bytes before the first zero byte. -/
def cString (buffer : Buffer size) : List UInt8 :=
  buffer.toList.takeWhile (· ≠ 0)

theorem Holds.cString {buffer : Buffer size} {written : List UInt8}
    (hholds : buffer.Holds (written ++ [0]))
    (hwritten : ∀ byte ∈ written, byte ≠ 0) : buffer.cString = written := by
  obtain ⟨behind, hbuffer⟩ := hholds
  rw [Buffer.cString, ← hbuffer, List.append_assoc,
    List.takeWhile_append_of_pos]
  · simp
  · intro byte hbyte
    exact decide_eq_true (hwritten byte hbyte)

end Buffer

end Hebpf.Data
