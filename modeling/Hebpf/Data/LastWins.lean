import Mathlib.Data.List.AList
import Mathlib.Data.List.Induction

namespace Hebpf.Data

/-! Finite tables written pair by pair, where the last value written for a key
is the one that stays. -/

abbrev Table (κ ν : Type) := AList (fun _ : κ => ν)

variable {κ ν : Type} [DecidableEq κ]

/-- The last value a list of pairs gives to a key. -/
def lastValue (pairs : List (κ × ν)) (key : κ) : Option ν :=
  (pairs.reverse.find? (fun pair => pair.1 = key)).map Prod.snd

@[simp] theorem lastValue_nil (key : κ) :
    lastValue ([] : List (κ × ν)) key = none := rfl

theorem lastValue_concat (pairs : List (κ × ν)) (written : κ) (value : ν)
    (key : κ) :
    lastValue (pairs ++ [(written, value)]) key =
      if written = key then some value else lastValue pairs key := by
  by_cases heq : written = key <;> simp [lastValue, heq]

theorem lastValue_cons (written : κ) (value : ν) (pairs : List (κ × ν))
    (key : κ) :
    lastValue ((written, value) :: pairs) key =
      (lastValue pairs key).or (if written = key then some value else none) := by
  simp only [lastValue, List.reverse_cons, List.find?_append]
  cases pairs.reverse.find? fun pair => pair.1 = key with
  | none => by_cases heq : written = key <;> simp [heq]
  | some pair => simp

end Hebpf.Data
