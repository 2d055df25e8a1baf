import Mathlib.Order.Defs.LinearOrder
import Mathlib.Data.List.Sort
import Mathlib.Tactic.SplitIfs

namespace Hebpf.Data

/-! Key-sorted finite maps.  Iteration order is the list order, so equal maps
are equal lists. -/

structure OrderedMap (κ ν : Type) [LinearOrder κ] where
  entries : List (κ × ν)
  sorted : entries.Pairwise (fun left right => left.1 < right.1)

namespace OrderedMap

variable {κ ν : Type} [LinearOrder κ]

theorem ext {left right : OrderedMap κ ν}
    (equal : left.entries = right.entries) : left = right := by
  cases left
  cases right
  cases equal
  rfl

instance [DecidableEq ν] : DecidableEq (OrderedMap κ ν) :=
  fun left right => decidable_of_iff (left.entries = right.entries)
    ⟨ext, congrArg entries⟩

def empty : OrderedMap κ ν := ⟨[], .nil⟩

instance : Membership (κ × ν) (OrderedMap κ ν) :=
  ⟨fun map entry => entry ∈ map.entries⟩

@[simp] theorem mem_entries {map : OrderedMap κ ν} {entry : κ × ν} :
    entry ∈ map.entries ↔ entry ∈ map := Iff.rfl

theorem not_mem_empty (entry : κ × ν) :
    entry ∉ (empty : OrderedMap κ ν) := nofun

def find? (map : OrderedMap κ ν) (key : κ) : Option ν :=
  (map.entries.find? (fun entry => entry.1 = key)).map Prod.snd

theorem value_unique {map : OrderedMap κ ν} {key : κ} {first second : ν}
    (hfirst : (key, first) ∈ map) (hsecond : (key, second) ∈ map) :
    first = second := by
  have hpair : map.entries.Pairwise
      (fun left right => left.1 = right.1 → left = right) :=
    map.sorted.imp fun hlt heq => absurd heq (ne_of_lt hlt)
  have hflip : map.entries.Pairwise
      (flip fun left right => left.1 = right.1 → left = right) :=
    map.sorted.imp fun hlt heq => absurd heq.symm (ne_of_lt hlt)
  have hsame := List.Pairwise.forall_of_forall_of_flip (fun _ _ _ => rfl)
    hpair hflip hfirst hsecond rfl
  exact congrArg Prod.snd hsame

theorem find?_eq_some_iff {map : OrderedMap κ ν} {key : κ} {value : ν} :
    map.find? key = some value ↔ (key, value) ∈ map := by
  constructor
  · intro hfind
    obtain ⟨⟨found, _⟩, hentry, rfl⟩ := Option.map_eq_some_iff.mp hfind
    have hkey : found = key := by simpa using List.find?_some hentry
    exact hkey ▸ List.mem_of_find?_eq_some hentry
  · intro hmem
    cases hfind : map.find? key with
    | none =>
        have hnone := List.find?_eq_none.mp (Option.map_eq_none_iff.mp hfind)
        simpa using hnone (key, value) hmem
    | some other =>
        obtain ⟨⟨found, _⟩, hentry, rfl⟩ := Option.map_eq_some_iff.mp hfind
        have hkey : found = key := by simpa using List.find?_some hentry
        have hother := List.mem_of_find?_eq_some hentry
        subst hkey
        rw [value_unique hother hmem]

theorem find?_eq_none_iff {map : OrderedMap κ ν} {key : κ} :
    map.find? key = none ↔ ∀ value, (key, value) ∉ map := by
  constructor
  · intro hnone value hmem
    rw [find?_eq_some_iff.mpr hmem] at hnone
    cases hnone
  · intro habsent
    cases hfind : map.find? key with
    | none => rfl
    | some value => exact absurd (find?_eq_some_iff.mp hfind) (habsent value)

private def emplaceEntries (key : κ) (value : ν) :
    List (κ × ν) → List (κ × ν)
  | [] => [(key, value)]
  | head :: tail =>
      if key < head.1 then (key, value) :: head :: tail
      else if key = head.1 then head :: tail
      else head :: emplaceEntries key value tail

private theorem mem_emplaceEntries_sub {key : κ} {value : ν}
    {entry : κ × ν} {list : List (κ × ν)}
    (hmem : entry ∈ emplaceEntries key value list) :
    entry = (key, value) ∨ entry ∈ list := by
  induction list with
  | nil => simpa [emplaceEntries] using hmem
  | cons head tail ih =>
      simp only [emplaceEntries] at hmem
      split_ifs at hmem
      · simpa using hmem
      · exact Or.inr hmem
      · rcases List.mem_cons.mp hmem with rfl | htail
        · exact Or.inr (.head _)
        · exact (ih htail).imp_right (.tail _)

private theorem emplaceEntries_sorted (key : κ) (value : ν)
    {list : List (κ × ν)}
    (hsorted : list.Pairwise (fun left right => left.1 < right.1)) :
    (emplaceEntries key value list).Pairwise
      (fun left right => left.1 < right.1) := by
  induction list with
  | nil => simp [emplaceEntries]
  | cons head tail ih =>
      obtain ⟨hhead, htail⟩ := List.pairwise_cons.mp hsorted
      simp only [emplaceEntries]
      split_ifs with hlt heq
      · refine List.pairwise_cons.mpr ⟨?_, hsorted⟩
        intro entry hentry
        rcases List.mem_cons.mp hentry with rfl | hrest
        · exact hlt
        · exact hlt.trans (hhead entry hrest)
      · exact hsorted
      · refine List.pairwise_cons.mpr ⟨?_, ih htail⟩
        intro entry hentry
        rcases mem_emplaceEntries_sub hentry with rfl | hrest
        · exact lt_of_le_of_ne (not_lt.mp hlt) (Ne.symm heq)
        · exact hhead entry hrest

/-- `std::map::emplace`: a key that is present keeps its value. -/
def emplace (map : OrderedMap κ ν) (key : κ) (value : ν) :
    OrderedMap κ ν where
  entries := emplaceEntries key value map.entries
  sorted := emplaceEntries_sorted key value map.sorted

private theorem mem_emplaceEntries_of_mem {key : κ} {value : ν}
    {entry : κ × ν} {list : List (κ × ν)} (hmem : entry ∈ list) :
    entry ∈ emplaceEntries key value list := by
  induction list with
  | nil => cases hmem
  | cons head tail ih =>
      simp only [emplaceEntries]
      split_ifs
      · exact .tail _ hmem
      · exact hmem
      · rcases List.mem_cons.mp hmem with rfl | htail
        · exact .head _
        · exact .tail _ (ih htail)

private theorem exists_mem_emplaceEntries (key : κ) (value : ν)
    (list : List (κ × ν)) :
    (key, value) ∈ emplaceEntries key value list ∨
      ∃ present, (key, present) ∈ list := by
  induction list with
  | nil => exact Or.inl (by simp [emplaceEntries])
  | cons head tail ih =>
      simp only [emplaceEntries]
      split_ifs with hlt heq
      · exact Or.inl (.head _)
      · exact Or.inr ⟨head.2, heq ▸ .head _⟩
      · rcases ih with hnew | ⟨present, hpresent⟩
        · exact Or.inl (.tail _ hnew)
        · exact Or.inr ⟨present, .tail _ hpresent⟩

theorem mem_emplace_of_mem {map : OrderedMap κ ν} {entry : κ × ν}
    (key : κ) (value : ν) (hmem : entry ∈ map) :
    entry ∈ map.emplace key value :=
  mem_emplaceEntries_of_mem hmem

theorem mem_emplace_iff {map : OrderedMap κ ν} {key : κ} {value : ν}
    {entry : κ × ν} :
    entry ∈ map.emplace key value ↔
      entry ∈ map ∨ entry = (key, value) ∧ map.find? key = none := by
  constructor
  · intro hmem
    rcases mem_emplaceEntries_sub hmem with rfl | hold
    · by_cases hfind : map.find? key = none
      · exact Or.inr ⟨rfl, hfind⟩
      · obtain ⟨present, hpresent⟩ := Option.ne_none_iff_exists'.mp hfind
        have hkept := mem_emplace_of_mem key value
          (find?_eq_some_iff.mp hpresent)
        have hsame : value = present := value_unique hmem hkept
        exact Or.inl (hsame ▸ find?_eq_some_iff.mp hpresent)
    · exact Or.inl hold
  · rintro (hold | ⟨rfl, hnone⟩)
    · exact mem_emplace_of_mem key value hold
    · refine (exists_mem_emplaceEntries key value map.entries).resolve_right ?_
      rintro ⟨present, hpresent⟩
      exact find?_eq_none_iff.mp hnone present hpresent

theorem find?_emplace_eq_none_iff {map : OrderedMap κ ν} {key other : κ}
    {value : ν} :
    (map.emplace key value).find? other = none ↔
      other ≠ key ∧ map.find? other = none := by
  simp only [find?_eq_none_iff, mem_emplace_iff, Prod.mk.injEq, not_or,
    not_and]
  constructor
  · intro hnone
    refine ⟨?_, fun found => (hnone found).1⟩
    rintro rfl
    exact (hnone value).2 ⟨rfl, rfl⟩ fun found => (hnone found).1
  · rintro ⟨hne, hnone⟩ found
    exact ⟨hnone found, fun heq => absurd heq.1 hne⟩

def filter (map : OrderedMap κ ν) (keep : κ × ν → Bool) :
    OrderedMap κ ν where
  entries := map.entries.filter keep
  sorted := map.sorted.filter keep

theorem mem_filter {map : OrderedMap κ ν} {keep : κ × ν → Bool}
    {entry : κ × ν} :
    entry ∈ map.filter keep ↔ entry ∈ map ∧ keep entry = true :=
  List.mem_filter

/-- Assignment to `map[key]`: the value of a key that is present is replaced. -/
def assign (map : OrderedMap κ ν) (key : κ) (value : ν) : OrderedMap κ ν :=
  (map.filter fun entry => entry.1 ≠ key).emplace key value

theorem mem_assign_iff {map : OrderedMap κ ν} {key : κ} {value : ν}
    {entry : κ × ν} :
    entry ∈ map.assign key value ↔
      entry = (key, value) ∨ entry ∈ map ∧ entry.1 ≠ key := by
  have hfresh : (map.filter fun entry => entry.1 ≠ key).find? key = none := by
    rw [find?_eq_none_iff]
    intro found hfound
    simpa using (mem_filter.mp hfound).2
  rw [assign, mem_emplace_iff, mem_filter]
  simp only [hfresh, and_true, decide_eq_true_eq]
  exact or_comm

theorem eq_of_mem_iff {left right : OrderedMap κ ν}
    (hmem : ∀ entry, entry ∈ left ↔ entry ∈ right) : left = right := by
  apply ext
  have hnodup : ∀ map : OrderedMap κ ν, map.entries.Nodup := fun map =>
    map.sorted.imp fun hlt heq => absurd (congrArg Prod.fst heq) (ne_of_lt hlt)
  have hperm : left.entries.Perm right.entries :=
    (List.perm_ext_iff_of_nodup (hnodup left) (hnodup right)).mpr hmem
  exact hperm.eq_of_pairwise
    (fun _ _ _ _ hlt hgt => absurd hlt (not_lt.mpr hgt.le))
    left.sorted right.sorted

end OrderedMap

end Hebpf.Data
