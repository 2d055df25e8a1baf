import Hebpf.Common.Json
import Hebpf.Data.OrderedMap
import Mathlib

namespace Hebpf.Common

open Hebpf.Data

/-! What the configuration uses of `yaml-cpp`: nodes, and how values are written
to them and read back. -/

namespace Yaml

inductive Node where
  | null
  | scalar (text : String)
  | sequence (items : List Node)
  | map (fields : List (Node × Node))

structure ScalarCodec (α : Type) where
  write : α → String
  read : String → Result α

/-- The conversions of the library and the errors it throws. -/
structure Library where
  bool : ScalarCodec Bool
  int : ScalarCodec Int32
  uint16 : ScalarCodec UInt16
  badConversion : Exception
  badSubscript : String → Exception

def ScalarCodec.RoundTrips {α : Type} (codec : ScalarCodec α) : Prop :=
  ∀ value, codec.read (codec.write value) = .ok value

structure Library.RoundTrips (library : Library) : Prop where
  bool : library.bool.RoundTrips
  int : library.int.RoundTrips
  uint16 : library.uint16.RoundTrips

namespace Node

def isKey (key : String) : Node → Bool
  | scalar text => text = key
  | _ => false

/-- `node[key]`: `none` is a node that is not defined. -/
def at? (library : Library) (node : Node) (key : String) :
    Result (Option Node) :=
  match node with
  | map fields => .ok ((fields.find? fun field => field.1.isKey key).map
      Prod.snd)
  | scalar _ => .error (library.badSubscript key)
  | _ => .ok none

/-- Read a field where it is defined and keep the value where it is not. -/
def fieldOr {α : Type} (library : Library) (node : Node) (key : String)
    (value : α) (read : Node → Result α) : Result α :=
  match node.at? library key with
  | .error exc => .error exc
  | .ok none => .ok value
  | .ok (some field) => read field

theorem of_fieldOr_eq_ok {α : Type} (property : α → Prop) {library : Library}
    {node : Node} {key : String} {value result : α} {read : Node → Result α}
    (hvalue : property value)
    (hread : ∀ field result, read field = .ok result → property result)
    (hfield : node.fieldOr library key value read = .ok result) :
    property result := by
  unfold fieldOr at hfield
  split at hfield
  · cases hfield
  · cases hfield
    exact hvalue
  · exact hread _ _ hfield

def asString (library : Library) : Node → Result String
  | scalar text => .ok text
  | null => .ok "null"
  | _ => .error library.badConversion

def asScalar {α : Type} (library : Library) (codec : ScalarCodec α) :
    Node → Result α
  | scalar text => codec.read text
  | _ => .error library.badConversion

/-- The loop of `as<std::map<std::string, T>>`: a key that comes again takes the
later value. -/
def readFields {ν : Type} (library : Library) (element : Node → Result ν) :
    List (Node × Node) → OrderedMap String ν → Result (OrderedMap String ν)
  | [], read => .ok read
  | (key, value) :: rest, read => do
      let value ← element value
      let key ← key.asString library
      readFields library element rest (read.assign key value)

def asMap {ν : Type} (library : Library) (element : Node → Result ν) :
    Node → Result (OrderedMap String ν)
  | map fields => readFields library element fields .empty
  | _ => .error library.badConversion

def ofMap {ν : Type} (element : ν → Node) (values : OrderedMap String ν) :
    Node :=
  map (values.entries.map fun entry => (scalar entry.1, element entry.2))

section RoundTrip

variable {library : Library}

@[simp] theorem at?_map_cons (key : String) (value : Node)
    (fields : List (Node × Node)) (sought : String) :
    (map ((scalar key, value) :: fields)).at? library sought =
      if key = sought then .ok (some value)
      else (map fields).at? library sought := by
  split_ifs with heq <;> simp [at?, isKey, heq]

@[simp] theorem at?_map_nil (sought : String) :
    (map []).at? library sought = .ok none := rfl

@[simp] theorem asScalar_scalar {α : Type} (codec : ScalarCodec α)
    (text : String) : (scalar text).asScalar library codec = codec.read text :=
  rfl

@[simp] theorem asString_scalar (text : String) :
    (scalar text).asString library = .ok text := rfl

theorem readFields_map {ν : Type} {element : Node → Result ν}
    {node : ν → Node} (helement : ∀ value, element (node value) = .ok value)
    (entries : List (String × ν)) (read : OrderedMap String ν)
    (hentries : entries.Pairwise fun left right => left.1 ≠ right.1)
    (hfresh : ∀ entry ∈ read, ∀ other ∈ entries, entry.1 ≠ other.1) :
    ∃ result, readFields library element
        (entries.map fun entry => (scalar entry.1, node entry.2)) read =
          .ok result ∧
      ∀ entry, entry ∈ result ↔ entry ∈ read ∨ entry ∈ entries := by
  induction entries generalizing read with
  | nil => exact ⟨read, rfl, by simp⟩
  | cons head tail ih =>
      obtain ⟨hhead, htail⟩ := List.pairwise_cons.mp hentries
      obtain ⟨result, hread, hmem⟩ := ih (read.assign head.1 head.2) htail <| by
        intro entry hentry other hother
        rcases OrderedMap.mem_assign_iff.mp hentry with rfl | ⟨hold, -⟩
        · exact hhead other hother
        · exact hfresh entry hold other (.tail _ hother)
      refine ⟨result, ?_, fun entry => ?_⟩
      · simp [readFields, helement, bind, Except.bind, hread]
      · rw [hmem, OrderedMap.mem_assign_iff, List.mem_cons]
        constructor
        · rintro ((rfl | ⟨hold, -⟩) | hlater)
          · exact Or.inr (Or.inl rfl)
          · exact Or.inl hold
          · exact Or.inr (Or.inr hlater)
        · rintro (hold | rfl | hlater)
          · exact Or.inl (Or.inr ⟨hold, hfresh entry hold head (.head _)⟩)
          · exact Or.inl (Or.inl rfl)
          · exact Or.inr hlater

theorem asMap_ofMap {ν : Type} {element : Node → Result ν}
    {node : ν → Node} (helement : ∀ value, element (node value) = .ok value)
    (values : OrderedMap String ν) :
    (ofMap node values).asMap library element = .ok values := by
  obtain ⟨result, hread, hmem⟩ := readFields_map helement values.entries .empty
    (values.sorted.imp ne_of_lt)
    fun entry hentry => absurd hentry (OrderedMap.not_mem_empty entry)
  have hsame : result = values := by
    apply OrderedMap.eq_of_mem_iff
    intro entry
    rw [hmem]
    exact or_iff_right (OrderedMap.not_mem_empty entry)
  rw [← hsame]
  exact hsame ▸ hread

end RoundTrip

end Node

def boolCodec (badConversion : Exception) : ScalarCodec Bool where
  write value := if value then "true" else "false"
  read text :=
    if text = "true" then .ok true
    else if text = "false" then .ok false
    else .error badConversion

def decimalCodec {α : Type} (toInt : α → Int) (ofInt : Int → α)
    (badConversion : Exception) : ScalarCodec α where
  write value := (toInt value).repr
  read text :=
    match text.toInt? with
    | none => .error badConversion
    | some number =>
        if toInt (ofInt number) = number then .ok (ofInt number)
        else .error badConversion

theorem decimalCodec_roundTrips {α : Type} {toInt : α → Int}
    {ofInt : Int → α} (hinverse : ∀ value, ofInt (toInt value) = value)
    (badConversion : Exception) :
    (decimalCodec toInt ofInt badConversion).RoundTrips := by
  intro value
  simp [decimalCodec, Int.toInt?_repr, hinverse]

def Library.plain : Library where
  bool := boolCodec ⟨"bad conversion"⟩
  int := decimalCodec Int32.toInt Int32.ofInt ⟨"bad conversion"⟩
  uint16 := decimalCodec (fun value => (value.toNat : Int))
    (fun number => UInt16.ofNat number.toNat) ⟨"bad conversion"⟩
  badConversion := ⟨"bad conversion"⟩
  badSubscript key :=
    ⟨"operator[] call on a scalar (key: \"" ++ key ++ "\")"⟩

theorem Library.plain_roundTrips : Library.plain.RoundTrips where
  bool := by
    intro value
    cases value <;> rfl
  int := decimalCodec_roundTrips Int32.ofInt_toInt _
  uint16 := decimalCodec_roundTrips (fun _ => UInt16.ofNat_toNat) _

end Yaml

end Hebpf.Common
