import Mathlib.Data.Finset.Card
import Mathlib.Data.Finset.Dedup
import Mathlib.Data.Finset.Lattice.Lemmas

namespace Hebpf.Data

/-! Handing out places of which there are only so many. -/

variable {α : Type} [DecidableEq α] {capacity : Nat}

/-- What is new gets a place if there is one left. -/
def allot (capacity : Nat) (held : Finset α) (wanted : α) : Finset α :=
  if (insert wanted held).card ≤ capacity then insert wanted held else held

theorem subset_allot (held : Finset α) (wanted : α) :
    held ⊆ allot capacity held wanted := by
  unfold allot
  split_ifs
  · exact Finset.subset_insert wanted held
  · exact Finset.Subset.refl held

theorem card_allot_le {held : Finset α} (hheld : held.card ≤ capacity)
    (wanted : α) : (allot capacity held wanted).card ≤ capacity := by
  unfold allot
  split_ifs with hroom
  · exact hroom
  · exact hheld

theorem subset_foldl_allot (held : Finset α) (wanted : List α) :
    held ⊆ wanted.foldl (allot capacity) held := by
  induction wanted generalizing held with
  | nil => exact Finset.Subset.refl held
  | cons head rest ih => exact (subset_allot held head).trans (ih _)

theorem card_foldl_allot_le {held : Finset α} (hheld : held.card ≤ capacity)
    (wanted : List α) : (wanted.foldl (allot capacity) held).card ≤ capacity := by
  induction wanted generalizing held with
  | nil => exact hheld
  | cons head rest ih => exact ih (card_allot_le hheld head)

theorem subset_foldl_allot_of_card {held : Finset α} {wanted : List α}
    (hroom : (held ∪ wanted.toFinset).card ≤ capacity) :
    wanted.toFinset ⊆ wanted.foldl (allot capacity) held := by
  induction wanted generalizing held with
  | nil => simp
  | cons head rest ih =>
      have hunion : insert head held ∪ rest.toFinset =
          held ∪ (head :: rest).toFinset := by
        rw [List.toFinset_cons, Finset.insert_union, Finset.union_insert]
      rw [← hunion] at hroom
      have hhead : allot capacity held head = insert head held :=
        if_pos ((Finset.card_le_card Finset.subset_union_left).trans hroom)
      rw [List.foldl_cons, hhead, List.toFinset_cons, Finset.insert_subset_iff]
      exact ⟨subset_foldl_allot _ rest (Finset.mem_insert_self head held),
        ih hroom⟩

theorem subset_foldl_allot_iff {held : Finset α} {wanted : List α}
    (hheld : held.card ≤ capacity) :
    wanted.toFinset ⊆ wanted.foldl (allot capacity) held ↔
      (held ∪ wanted.toFinset).card ≤ capacity := by
  refine ⟨fun hall => ?_, subset_foldl_allot_of_card⟩
  exact (Finset.card_le_card (Finset.union_subset
    (subset_foldl_allot held wanted) hall)).trans
    (card_foldl_allot_le hheld wanted)

theorem mem_foldl_allot_iff {held : Finset α} {wanted : List α} {x : α} :
    x ∈ wanted.foldl (allot capacity) held ↔
      x ∈ held ∨ ∃ before after, wanted = before ++ x :: after ∧
        (held ∪ before.toFinset).card < capacity := by
  induction wanted generalizing held with
  | nil => simp
  | cons head rest ih =>
      rw [List.foldl_cons, ih]
      by_cases hroom : (insert head held).card ≤ capacity
      · rw [allot, if_pos hroom, Finset.mem_insert]
        constructor
        · rintro ((rfl | hheld) | ⟨before, after, rfl, hcard⟩)
          · by_cases hheld : x ∈ held
            · exact .inl hheld
            · rw [Finset.card_insert_of_notMem hheld] at hroom
              exact .inr ⟨[], rest, rfl, by simpa using Nat.lt_of_succ_le hroom⟩
          · exact .inl hheld
          · refine .inr ⟨head :: before, after, rfl, ?_⟩
            rwa [List.toFinset_cons, Finset.union_insert,
              ← Finset.insert_union]
        · rintro (hheld | ⟨before, after, hsplit, hcard⟩)
          · exact .inl (.inr hheld)
          · cases before with
            | nil =>
                obtain ⟨rfl, -⟩ := List.cons.inj hsplit
                exact .inl (.inl rfl)
            | cons first before =>
                obtain ⟨rfl, hrest⟩ := List.cons.inj hsplit
                refine .inr ⟨before, after, hrest, ?_⟩
                rwa [Finset.insert_union, ← Finset.union_insert,
                  ← List.toFinset_cons]
      · rw [allot, if_neg hroom]
        have hfull : capacity ≤ held.card := by
          have hinsert := Finset.card_insert_le head held
          omega
        have hnone : ∀ before : List α,
            ¬ (held ∪ before.toFinset).card < capacity := by
          intro before hcard
          have hgrows := Finset.card_le_card
            (@Finset.subset_union_left _ _ held before.toFinset)
          omega
        simp only [hnone, and_false, exists_const]

theorem mem_foldl_allot_or_full {held : Finset α} {wanted : List α} {x : α}
    (hwanted : x ∈ wanted) :
    x ∈ wanted.foldl (allot capacity) held ∨
      capacity ≤ (wanted.foldl (allot capacity) held).card := by
  induction wanted generalizing held with
  | nil => cases hwanted
  | cons head rest ih =>
      rcases List.mem_cons.mp hwanted with rfl | hlater
      · have hgrows := @subset_foldl_allot α _ capacity
          (allot capacity held x) rest
        by_cases hroom : (insert x held).card ≤ capacity
        · refine .inl (hgrows ?_)
          rw [allot, if_pos hroom]
          exact Finset.mem_insert_self x held
        · have hinsert := Finset.card_insert_le x held
          have hcard := Finset.card_le_card
            ((@subset_allot α _ capacity held x).trans hgrows)
          exact .inr (by rw [List.foldl_cons]; omega)
      · exact ih hlater

theorem foldl_allot_again {held : Finset α} {wanted again : List α}
    (hagain : ∀ x ∈ again, x ∈ wanted) :
    again.foldl (allot capacity) (wanted.foldl (allot capacity) held) =
      wanted.foldl (allot capacity) held := by
  have hserved := fun x hx =>
    @mem_foldl_allot_or_full α _ capacity held wanted x (hagain x hx)
  generalize wanted.foldl (allot capacity) held = reached at hserved ⊢
  clear hagain
  induction again with
  | nil => rfl
  | cons head rest ih =>
      have hsame : allot capacity reached head = reached := by
        by_cases hmem : head ∈ reached
        · rw [allot, Finset.insert_eq_of_mem hmem, ite_self]
        · have hfull := (hserved head (.head _)).resolve_left hmem
          rw [allot, if_neg]
          rw [Finset.card_insert_of_notMem hmem]
          omega
      rw [List.foldl_cons, hsame]
      exact ih fun x hx => hserved x (.tail _ hx)

end Hebpf.Data
