import Hebpf.Data.Buffer
import Mathlib.Data.List.Induction
import Mathlib.Tactic.Ring

namespace Hebpf.Data

/-! Memory that is read: bytes, little-endian words and zero-terminated
strings, each where the reader thinks it stands. -/

abbrev Bytes := List UInt8

/-- The low byte comes first. -/
def wordBytes : Nat → Nat → Bytes
  | 0, _ => []
  | width + 1, value => UInt8.ofNat value :: wordBytes width (value / 256)

def wordValue : Bytes → Nat
  | [] => 0
  | byte :: rest => byte.toNat + 256 * wordValue rest

@[simp] theorem length_wordBytes (width value : Nat) :
    (wordBytes width value).length = width := by
  induction width generalizing value with
  | zero => rfl
  | succ width ih => rw [wordBytes, List.length_cons, ih]

theorem wordValue_wordBytes {width value : Nat}
    (hvalue : value < 256 ^ width) :
    wordValue (wordBytes width value) = value := by
  induction width generalizing value with
  | zero =>
      rw [pow_zero] at hvalue
      exact (Nat.lt_one_iff.mp hvalue).symm
  | succ width ih =>
      have hhigh : value / 256 < 256 ^ width := by
        apply Nat.div_lt_of_lt_mul
        rwa [pow_succ, Nat.mul_comm] at hvalue
      rw [wordBytes, wordValue, ih hhigh, UInt8.toNat_ofNat']
      omega

namespace Bytes

def read (bytes : Bytes) (index count : Nat) : Except Fault Bytes :=
  if index + count ≤ bytes.length then .ok ((bytes.drop index).take count)
  else .error .readOutside

def readWord32 (bytes : Bytes) (index : Nat) : Except Fault UInt32 :=
  (bytes.read index 4).map fun word => UInt32.ofNat (wordValue word)

def readCString (bytes : Bytes) (index : Nat) : Except Fault Bytes :=
  if 0 ∈ bytes.drop index then .ok ((bytes.drop index).takeWhile (· ≠ 0))
  else .error .readOutside

theorem read_append (front middle behind : Bytes) :
    read (front ++ middle ++ behind) front.length middle.length =
      .ok middle := by
  have hbound : front.length + middle.length ≤
      (front ++ middle ++ behind).length := by
    rw [List.length_append, List.length_append]
    exact Nat.le_add_right _ _
  rw [read, if_pos hbound, List.append_assoc, List.drop_left, List.take_left]

theorem readWord32_append (front behind : Bytes) (word : UInt32) :
    readWord32 (front ++ wordBytes 4 word.toNat ++ behind) front.length =
      .ok word := by
  have hread := read_append front (wordBytes 4 word.toNat) behind
  rw [length_wordBytes] at hread
  rw [readWord32, hread, Except.map, wordValue_wordBytes word.toNat_lt,
    UInt32.ofNat_toNat]

theorem readCString_append (front behind : Bytes) {text : Bytes}
    (htext : ∀ byte ∈ text, byte ≠ 0) :
    readCString (front ++ (text ++ 0 :: behind)) front.length = .ok text := by
  have htake : (text ++ 0 :: behind).takeWhile (· ≠ 0) = text := by
    rw [List.takeWhile_append_of_pos fun byte hbyte =>
      decide_eq_true (htext byte hbyte)]
    simp
  rw [readCString, List.drop_left, if_pos (by simp), htake]

end Bytes

end Hebpf.Data
