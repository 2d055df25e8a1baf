import Mathlib.Algebra.Field.Rat
import Mathlib.Data.Rat.Floor

namespace Hebpf.Common

structure Exception where
  what : String
  deriving DecidableEq, Repr

abbrev Result := Except Exception

theorem bind_eq_ok_iff {α β : Type} {first : Result α} {next : α → Result β}
    {result : β} :
    (do let value ← first; next value) = .ok result ↔
      ∃ value, first = .ok value ∧ next value = .ok result := by
  cases first with
  | error exc => simp [bind, Except.bind]
  | ok value => simp [bind, Except.bind]

inductive Json where
  | null
  | boolean (value : Bool)
  | number (value : Int)
  | float (value : Rat)
  | string (text : String)
  | array (items : List Json)
  | object (fields : List (String × Json))

namespace Json

def typeName : Json → String
  | null => "null"
  | boolean _ => "boolean"
  | number _ => "number"
  | float _ => "number"
  | string _ => "string"
  | array _ => "array"
  | object _ => "object"

def typeError (expected : String) (json : Json) : Exception :=
  ⟨"[json.exception.type_error.302] type must be " ++ expected ++
    ", but is " ++ json.typeName⟩

/-- `contains` and `at` together: only an object has fields. -/
def field? (json : Json) (key : String) : Option Json :=
  match json with
  | object fields => fields.lookup key
  | _ => none

def getString : Json → Result String
  | string text => .ok text
  | json => .error (typeError "string" json)

/-- `get<uint16_t>`: a `static_cast` of whatever number is stored. -/
def getUInt16 : Json → Result UInt16
  | number value => .ok (UInt16.ofNat (value % 65536).toNat)
  | float value =>
      .ok (UInt16.ofNat ((value.num.tdiv value.den) % 65536).toNat)
  | boolean value => .ok (if value then 1 else 0)
  | json => .error (typeError "number" json)

/-- `get<std::vector<T>>`, each element by its own `from_json` -/
def getVector (element : Json → Result α) : Json → Result (List α)
  | array items => items.mapM element
  | json => .error (typeError "array" json)

/-- Read a field where it is present and keep the default where it is not. -/
def fieldOr (json : Json) (key : String) (default : α)
    (get : Json → Result α) : Result α :=
  match json.field? key with
  | some value => get value
  | none => .ok default

@[simp] theorem fieldOr_null (key : String) (default : α)
    (get : Json → Result α) : null.fieldOr key default get = .ok default :=
  rfl

end Json

end Hebpf.Common
