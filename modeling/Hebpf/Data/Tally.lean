import Mathlib.Data.Finset.Card
import Mathlib.Data.Fintype.Defs

namespace Hebpf.Data

/-! How many threads are somewhere, and what one of them changes. -/

variable {θ : Type} [Fintype θ] {before after : θ → Prop} {thread : θ}

open Classical in
noncomputable def those (counted : θ → Prop) : Finset θ :=
  Finset.univ.filter counted

theorem mem_those {counted : θ → Prop} :
    thread ∈ those counted ↔ counted thread := by
  simp only [those, Finset.mem_filter, Finset.mem_univ, true_and]

noncomputable def tally (counted : θ → Prop) : Nat := (those counted).card

theorem tally_mono (hkeep : ∀ thread, before thread → after thread) :
    tally before ≤ tally after := by
  refine Finset.card_le_card fun thread hthread => ?_
  rw [mem_those] at hthread ⊢
  exact hkeep thread hthread

theorem tally_eq_zero (hnone : ∀ thread, ¬ before thread) :
    tally before = 0 := by
  rw [tally, Finset.card_eq_zero, Finset.eq_empty_iff_forall_notMem]
  intro thread
  rw [mem_those]
  exact hnone thread

theorem tally_come (hkeep : ∀ other, before other → after other)
    (hnot : ¬ before thread) (hcome : after thread) :
    tally before + 1 ≤ tally after := by
  refine Finset.card_lt_card ((Finset.ssubset_iff_of_subset ?_).mpr ?_)
  · intro other hother
    rw [mem_those] at hother ⊢
    exact hkeep other hother
  · refine ⟨thread, ?_, ?_⟩ <;> rwa [mem_those]

theorem tally_go
    (hkeep : ∀ other, other ≠ thread → before other → after other) :
    tally before ≤ tally after + 1 := by
  classical
  have hsubset : those before ⊆ insert thread (those after) := by
    intro other hother
    rw [mem_those] at hother
    rw [Finset.mem_insert, mem_those]
    by_cases heq : other = thread
    · exact .inl heq
    · exact .inr (hkeep other heq hother)
  exact (Finset.card_le_card hsubset).trans (Finset.card_insert_le thread _)

theorem tally_swap {other : θ}
    (hkeep : ∀ another, another ≠ thread → before another → after another)
    (hnot : ¬ before other) (hcome : after other) :
    tally before ≤ tally after := by
  have hgo : tally before ≤
      tally (fun another => before another ∧ another ≠ thread) + 1 :=
    tally_go fun another hanother hbefore => ⟨hbefore, hanother⟩
  have hcomes : tally (fun another => before another ∧ another ≠ thread) + 1 ≤
      tally after :=
    tally_come (fun another hanother => hkeep another hanother.2 hanother.1)
      (fun hother => hnot hother.1) hcome
  exact hgo.trans hcomes

end Hebpf.Data
