import Hebpf.Data.LastWins
import Mathlib.Logic.Function.Basic
import Mathlib.Data.List.TakeDrop

namespace Hebpf.Kernel

open Hebpf.Data

/-! The two kinds of BPF maps, with the operations of `bpf(2)` on them. -/

/-- `BPF_MAP_TYPE_HASH`.  The order of `entries` is the order in which the
kernel happens to walk the buckets. -/
structure BpfHash (κ ν : Type) [DecidableEq κ] (maxEntries : Nat) where
  entries : Table κ ν
  bounded : entries.keys.length ≤ maxEntries

namespace BpfHash

variable {κ ν : Type} [DecidableEq κ] {maxEntries : Nat}

theorem ext {left right : BpfHash κ ν maxEntries}
    (equal : left.entries = right.entries) : left = right := by
  cases left
  cases right
  cases equal
  rfl

def empty : BpfHash κ ν maxEntries := ⟨∅, Nat.zero_le _⟩

def keys (hash : BpfHash κ ν maxEntries) : List κ := hash.entries.keys

def lookupElem (hash : BpfHash κ ν maxEntries) (key : κ) : Option ν :=
  hash.entries.lookup key

/-- `bpf_map_update_elem` with `BPF_ANY`; `none` is `E2BIG`. -/
def updateElem (hash : BpfHash κ ν maxEntries) (key : κ) (value : ν) :
    Option (BpfHash κ ν maxEntries) :=
  if hkey : key ∈ hash.keys then
    some ⟨hash.entries.insert key value, by
      have hpositive := List.length_pos_of_mem hkey
      have hbound : hash.keys.length ≤ maxEntries := hash.bounded
      have herase : (hash.keys.erase key).length = hash.keys.length - 1 :=
        List.length_erase_of_mem hkey
      rw [AList.keys_insert, List.length_cons]
      change (hash.keys.erase key).length + 1 ≤ maxEntries
      omega⟩
  else if hroom : hash.keys.length < maxEntries then
    some ⟨hash.entries.insert key value, by
      have herase : hash.keys.erase key = hash.keys :=
        List.erase_of_not_mem hkey
      rw [AList.keys_insert, List.length_cons]
      change (hash.keys.erase key).length + 1 ≤ maxEntries
      rw [herase]
      omega⟩
  else
    none

def deleteElem (hash : BpfHash κ ν maxEntries) (key : κ) :
    BpfHash κ ν maxEntries :=
  ⟨hash.entries.erase key, by
    rw [AList.keys_erase]
    exact Nat.le_trans List.length_erase_le hash.bounded⟩

/-- `bpf_map_get_next_key`: an absent or null key restarts at the first key,
and `none` is the error past the last one. -/
def getNextKey (hash : BpfHash κ ν maxEntries) : Option κ → Option κ
  | none => hash.keys.head?
  | some key =>
      if key ∈ hash.keys then (hash.keys.dropWhile (· ≠ key)).tail.head?
      else hash.keys.head?

@[simp] theorem lookupElem_empty (key : κ) :
    (empty : BpfHash κ ν maxEntries).lookupElem key = none := rfl

theorem lookupElem_isSome_iff {hash : BpfHash κ ν maxEntries} {key : κ} :
    (hash.lookupElem key).isSome ↔ key ∈ hash.keys :=
  AList.lookup_isSome

theorem eq_empty_of_keys {hash : BpfHash κ ν maxEntries}
    (hkeys : hash.keys = []) : hash = empty := by
  apply ext
  apply AList.ext
  have hentries : hash.entries.entries.keys = [] := hkeys
  exact List.map_eq_nil_iff.mp hentries

theorem entries_of_updateElem {hash updated : BpfHash κ ν maxEntries}
    {key : κ} {value : ν} (hupdate : hash.updateElem key value = some updated) :
    updated.entries = hash.entries.insert key value := by
  unfold updateElem at hupdate
  split_ifs at hupdate <;> cases hupdate <;> rfl

theorem lookupElem_updateElem {hash updated : BpfHash κ ν maxEntries}
    {key : κ} {value : ν} (hupdate : hash.updateElem key value = some updated)
    (wanted : κ) :
    updated.lookupElem wanted =
      if key = wanted then some value else hash.lookupElem wanted := by
  unfold lookupElem
  rw [entries_of_updateElem hupdate]
  split_ifs with heq
  · subst heq
    exact AList.lookup_insert _
  · exact AList.lookup_insert_ne (Ne.symm heq)

theorem keys_of_updateElem {hash updated : BpfHash κ ν maxEntries}
    {key : κ} {value : ν} (hupdate : hash.updateElem key value = some updated) :
    updated.keys = key :: hash.keys.erase key := by
  rw [keys, entries_of_updateElem hupdate, AList.keys_insert]
  rfl

theorem length_keys_updateElem_le {hash updated : BpfHash κ ν maxEntries}
    {key : κ} {value : ν} (hupdate : hash.updateElem key value = some updated) :
    updated.keys.length ≤ hash.keys.length + 1 := by
  rw [keys_of_updateElem hupdate, List.length_cons]
  exact Nat.succ_le_succ List.length_erase_le

theorem updateElem_eq_none_iff {hash : BpfHash κ ν maxEntries} {key : κ}
    {value : ν} :
    hash.updateElem key value = none ↔
      key ∉ hash.keys ∧ maxEntries ≤ hash.keys.length := by
  unfold updateElem
  split_ifs with hkey hroom <;> simp [hkey] <;> omega

theorem exists_updateElem_iff {hash : BpfHash κ ν maxEntries} {key : κ}
    {value : ν} :
    (∃ updated, hash.updateElem key value = some updated) ↔
      key ∈ hash.keys ∨ hash.keys.length < maxEntries := by
  rw [← Option.ne_none_iff_exists', ne_eq, updateElem_eq_none_iff,
    not_and_or, not_not, not_le]

@[simp] theorem keys_deleteElem (hash : BpfHash κ ν maxEntries) (key : κ) :
    (hash.deleteElem key).keys = hash.keys.erase key :=
  AList.keys_erase _ _

theorem keys_nodup (hash : BpfHash κ ν maxEntries) : hash.keys.Nodup :=
  hash.entries.keys_nodup

theorem getNextKey_of_split {hash : BpfHash κ ν maxEntries} {key : κ}
    {before after : List κ} (hkeys : hash.keys = before ++ key :: after) :
    hash.getNextKey (some key) = after.head? := by
  have hfresh : ∀ other ∈ before, decide (other ≠ key) = true := by
    have hnodup := hash.keys_nodup
    rw [hkeys] at hnodup
    intro other hother
    have hdisjoint := (List.nodup_append.mp hnodup).2.2
    simpa using hdisjoint other hother key (.head _)
  simp only [getNextKey, hkeys]
  rw [List.dropWhile_append_of_pos hfresh]
  simp

/-- The `do`/`while` walk that collects every key before deleting any.  The
answer is `none` when `fuel` runs out before the walk ends. -/
def collectKeys (hash : BpfHash κ ν maxEntries) :
    Nat → Option κ → Option (List κ)
  | 0, _ => none
  | fuel + 1, cursor =>
      match hash.getNextKey cursor with
      | none => some []
      | some key => (hash.collectKeys fuel (some key)).map (key :: ·)

theorem collectKeys_after {hash : BpfHash κ ν maxEntries} {fuel : Nat}
    {key : κ} {before after : List κ}
    (hkeys : hash.keys = before ++ key :: after)
    (hfuel : after.length < fuel) :
    hash.collectKeys fuel (some key) = some after := by
  induction fuel generalizing key before after with
  | zero => omega
  | succ fuel ih =>
      simp only [collectKeys, getNextKey_of_split hkeys]
      cases after with
      | nil => rfl
      | cons next rest =>
          have hsplit : hash.keys = (before ++ [key]) ++ next :: rest := by
            simp [hkeys]
          simp only [List.length_cons] at hfuel
          simp [ih hsplit (by omega)]

theorem collectKeys_start {hash : BpfHash κ ν maxEntries} {fuel : Nat}
    (hfuel : hash.keys.length < fuel) :
    hash.collectKeys fuel none = some hash.keys := by
  cases fuel with
  | zero => omega
  | succ fuel =>
      cases hkeys : hash.keys with
      | nil => simp [collectKeys, getNextKey, hkeys]
      | cons key rest =>
          have hlength : rest.length < fuel := by
            rw [hkeys, List.length_cons] at hfuel
            omega
          have hsplit : hash.keys = [] ++ key :: rest := hkeys
          simp [collectKeys, getNextKey, hkeys,
            collectKeys_after hsplit hlength]

theorem collectKeys_absent {hash : BpfHash κ ν maxEntries} {fuel : Nat}
    {cursor : κ} (habsent : cursor ∉ hash.keys)
    (hfuel : hash.keys.length < fuel) :
    hash.collectKeys fuel (some cursor) = some hash.keys := by
  rw [← collectKeys_start hfuel]
  cases fuel with
  | zero => rfl
  | succ fuel => simp only [collectKeys, getNextKey, if_neg habsent]

def deleteKeys (hash : BpfHash κ ν maxEntries) (keys : List κ) :
    BpfHash κ ν maxEntries :=
  keys.foldl deleteElem hash

theorem mem_keys_deleteKeys {hash : BpfHash κ ν maxEntries}
    {keys : List κ} {key : κ} :
    key ∈ (hash.deleteKeys keys).keys ↔ key ∈ hash.keys ∧ key ∉ keys := by
  induction keys generalizing hash with
  | nil => simp [deleteKeys]
  | cons head tail ih =>
      change key ∈ ((hash.deleteElem head).deleteKeys tail).keys ↔ _
      rw [ih, keys_deleteElem, hash.keys_nodup.mem_erase_iff]
      simp only [List.mem_cons, not_or]
      tauto

def clearCollected (hash : BpfHash κ ν maxEntries) : BpfHash κ ν maxEntries :=
  hash.deleteKeys
    ((hash.collectKeys (hash.keys.length + 1) none).getD [])

theorem clearCollected_eq_empty (hash : BpfHash κ ν maxEntries) :
    hash.clearCollected = empty := by
  apply eq_empty_of_keys
  apply List.eq_nil_iff_forall_not_mem.mpr
  intro key hkey
  rw [clearCollected, collectKeys_start (Nat.lt_succ_self _)] at hkey
  have hboth := mem_keys_deleteKeys.mp hkey
  exact hboth.2 hboth.1

/-- Deleting each key as soon as the walk finds it and asking for the successor
of the deleted key. -/
def deleteIterating (hash : BpfHash κ ν maxEntries) :
    Nat → κ → Option (BpfHash κ ν maxEntries)
  | 0, _ => none
  | fuel + 1, cursor =>
      match hash.getNextKey (some cursor) with
      | none => some hash
      | some key => (hash.deleteElem key).deleteIterating fuel key

theorem deleteIterating_eq_empty {hash : BpfHash κ ν maxEntries}
    {fuel : Nat} {cursor : κ} (habsent : cursor ∉ hash.keys)
    (hfuel : hash.keys.length < fuel) :
    hash.deleteIterating fuel cursor = some empty := by
  induction fuel generalizing hash cursor with
  | zero => omega
  | succ fuel ih =>
      simp only [deleteIterating, getNextKey, if_neg habsent]
      cases hkeys : hash.keys with
      | nil => simpa using eq_empty_of_keys hkeys
      | cons key rest =>
          have hrest : (hash.deleteElem key).keys = rest := by
            simp [hkeys]
          have hnodup := hash.keys_nodup
          rw [hkeys] at hnodup hfuel
          apply ih
          · rw [hrest]
            exact (List.nodup_cons.mp hnodup).1
          · rw [hrest]
            simp only [List.length_cons] at hfuel
            omega

/-- A walk that starts at a key of the table misses everything where that is the
last key, and nothing where it is not. -/
theorem deleteIterating_of_getLast {hash : BpfHash κ ν maxEntries}
    {cursor : κ} (hlast : hash.keys.getLast? = some cursor) (fuel : Nat) :
    hash.deleteIterating (fuel + 1) cursor = some hash := by
  obtain ⟨before, hkeys⟩ := List.getLast?_eq_some_iff.mp hlast
  simp only [deleteIterating, getNextKey_of_split hkeys, List.head?_nil]

theorem deleteIterating_of_ne_getLast {hash : BpfHash κ ν maxEntries}
    {fuel : Nat} {cursor : κ} (hlast : hash.keys.getLast? ≠ some cursor)
    (hfuel : hash.keys.length < fuel) :
    hash.deleteIterating fuel cursor = some empty := by
  by_cases hpresent : cursor ∈ hash.keys
  · obtain ⟨before, after, hkeys⟩ := List.append_of_mem hpresent
    obtain ⟨fuel, rfl⟩ : ∃ rest, fuel = rest + 1 := ⟨fuel - 1, by omega⟩
    cases after with
    | nil => simp [hkeys] at hlast
    | cons next rest =>
        simp only [deleteIterating, getNextKey_of_split hkeys, List.head?_cons]
        have hmem : next ∈ hash.keys := by simp [hkeys]
        have hlength := List.length_erase_of_mem hmem
        have hpositive := List.length_pos_of_mem hmem
        refine deleteIterating_eq_empty ?_ ?_
        · rw [keys_deleteElem]
          exact fun hstill => (hash.keys_nodup.not_mem_erase hstill).elim
        · rw [keys_deleteElem]
          omega
  · exact deleteIterating_eq_empty hpresent hfuel

end BpfHash

/-- `BPF_MAP_TYPE_ARRAY` and `BPF_MAP_TYPE_PROG_ARRAY`: every index below
`maxEntries` always has an element. -/
structure BpfArray (ν : Type) (maxEntries : Nat) where
  values : Fin maxEntries → ν

namespace BpfArray

variable {ν : Type} {maxEntries : Nat}

theorem ext {left right : BpfArray ν maxEntries}
    (equal : left.values = right.values) : left = right := by
  cases left
  cases right
  cases equal
  rfl

def fill (value : ν) : BpfArray ν maxEntries := ⟨fun _ => value⟩

def lookupElem (array : BpfArray ν maxEntries) (index : UInt32) : Option ν :=
  if hindex : index.toNat < maxEntries then
    some (array.values ⟨index.toNat, hindex⟩)
  else none

/-- `none` is the error for an index past the end. -/
def updateElem (array : BpfArray ν maxEntries) (index : UInt32) (value : ν) :
    Option (BpfArray ν maxEntries) :=
  if hindex : index.toNat < maxEntries then
    some ⟨Function.update array.values ⟨index.toNat, hindex⟩ value⟩
  else none

def deleteElem (array : BpfArray ν maxEntries) (_index : UInt32) :
    BpfArray ν maxEntries := array

def clearCollected (array : BpfArray ν maxEntries) : BpfArray ν maxEntries :=
  ((List.range maxEntries).map UInt32.ofNat).foldl deleteElem array

theorem clearCollected_eq (array : BpfArray ν maxEntries) :
    array.clearCollected = array := by
  unfold clearCollected
  induction (List.range maxEntries).map UInt32.ofNat with
  | nil => rfl
  | cons index rest ih => exact ih

theorem lookupElem_ofNat (array : BpfArray ν maxEntries) {index : Nat}
    (hindex : index < maxEntries) (hsize : maxEntries ≤ 4294967296) :
    array.lookupElem (UInt32.ofNat index) =
      some (array.values ⟨index, hindex⟩) := by
  have hword : (UInt32.ofNat index).toNat = index := by
    rw [UInt32.toNat_ofNat']
    omega
  simp [lookupElem, hword, hindex]

theorem updateElem_ofNat (array : BpfArray ν maxEntries) {index : Nat}
    (hindex : index < maxEntries) (hsize : maxEntries ≤ 4294967296)
    (value : ν) :
    array.updateElem (UInt32.ofNat index) value =
      some ⟨Function.update array.values ⟨index, hindex⟩ value⟩ := by
  have hword : (UInt32.ofNat index).toNat = index := by
    rw [UInt32.toNat_ofNat']
    omega
  simp [updateElem, hword, hindex]

end BpfArray

end Hebpf.Kernel
