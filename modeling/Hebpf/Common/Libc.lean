import Hebpf.Common.Network
import Mathlib.Tactic.SplitIfs

namespace Hebpf.Common

/-! What the services call of the C and C++ libraries to read texts. -/

def cStr (text : String) : List Char :=
  text.toList.takeWhile (· ≠ Char.ofNat 0)

/-- `std::filesystem::path::filename` -/
def baseName (path : String) : String :=
  String.ofList (path.toList.reverse.takeWhile (· ≠ '/')).reverse

def decimalValue (digits : List Char) : Nat :=
  digits.foldl (fun value digit => value * 10 + (digit.toNat - '0'.toNat)) 0

def inetOctet (digits : List Char) : Option UInt8 :=
  if digits = [] ∨ digits.any (!·.isDigit) then none
  else if digits.head? = some '0' ∧ digits ≠ ['0'] then none
  else if decimalValue digits ≤ 255 then
    some (UInt8.ofNat (decimalValue digits))
  else none

def inetPton (address : String) : Option Be32 :=
  match (cStr address).splitOn '.' with
  | [first, second, third, fourth] => do
      return ⟨← inetOctet first, ← inetOctet second,
        ← inetOctet third, ← inetOctet fourth⟩
  | _ => none

def isSpace (char : Char) : Bool :=
  char = ' ' || (9 ≤ char.toNat && char.toNat ≤ 13)

def hexDigit? (char : Char) : Option Nat :=
  if char.isDigit then some (char.toNat - '0'.toNat)
  else if 'a' ≤ char ∧ char ≤ 'f' then some (char.toNat - 'a'.toNat + 10)
  else if 'A' ≤ char ∧ char ≤ 'F' then some (char.toNat - 'A'.toNat + 10)
  else none

def hexValue (digits : List Char) : Nat :=
  digits.foldl (fun value digit => value * 16 + (hexDigit? digit).getD 0) 0

def stripSign : List Char → Bool × List Char
  | '-' :: rest => (true, rest)
  | '+' :: rest => (false, rest)
  | chars => (false, chars)

def stripHexPrefix : List Char → List Char
  | '0' :: 'x' :: rest => rest
  | '0' :: 'X' :: rest => rest
  | chars => chars

def ulongSize : Nat := 0x10000000000000000

/-- `%hhx`: leading white space, a sign and `0x` are allowed; the number
saturates as in `strtoul` and its low byte is stored. -/
def scanHexOctet (chars : List Char) : Option (UInt8 × List Char) :=
  let (negative, unsigned) := stripSign (chars.dropWhile isSpace)
  let body := stripHexPrefix unsigned
  let digits := body.takeWhile (fun char => (hexDigit? char).isSome)
  if digits = [] then none
  else
    let value := hexValue digits
    let stored :=
      if ulongSize ≤ value then ulongSize - 1
      else if negative then ulongSize - value
      else value
    some (UInt8.ofNat stored,
      body.dropWhile (fun char => (hexDigit? char).isSome))

/-- The octets `sscanf` assigns before the first conversion or literal that
does not match. -/
def scanOctets : Nat → List Char → List UInt8
  | 0, _ => []
  | count + 1, chars =>
      match scanHexOctet chars with
      | none => []
      | some (octet, ':' :: rest) => octet :: scanOctets count rest
      | some (octet, _) => [octet]

abbrev Mac := Vector UInt8 6

/-- The octets `sscanf` assigns; there are as many as it returns. -/
def sscanfMac (text : String) : List UInt8 := scanOctets 6 (cStr text)

def storeOctets (memory : Mac) (octets : List UInt8) : Mac :=
  Vector.ofFn fun index => octets.getD index memory[index]

/-- The address of a string of which `sscanf` assigns all six octets. -/
def parseMac (text : String) : Option Mac :=
  if (sscanfMac text).length = 6 then
    some (storeOctets (Vector.replicate 6 0) (sscanfMac text))
  else none

theorem storeOctets_of_parseMac {text : String} {address : Mac}
    (hparse : parseMac text = some address) (memory : Mac) :
    storeOctets memory (sscanfMac text) = address := by
  unfold parseMac at hparse
  split_ifs at hparse with hlength
  cases hparse
  apply Vector.ext
  intro index hindex
  have hbound : index < (sscanfMac text).length := by omega
  simp [storeOctets, hbound]

example : inetPton "10.0.0.7" = some ⟨10, 0, 0, 7⟩ := by decide

example : parseMac "02:00:5e:00:00:0A" = some #v[2, 0, 0x5e, 0, 0, 10] := by
  decide

end Hebpf.Common
