import Hebpf.Data.Run
import Mathlib.Data.List.Nodup
import Mathlib.Logic.Function.Basic

namespace Hebpf.Kernel

open Hebpf.Data

/-! A process's table of descriptors.  A number stands for the owner `ω` it was
last opened for, and is free once it is closed, by whomever. -/

variable {ω : Type}

abbrev Files (ω : Type) := Nat → Option ω

inductive FdCall (ω : Type) where
  | opens (owner : ω) (number : Nat)
  | closes (owner : ω) (number : Nat)

def FdCall.owner : FdCall ω → ω
  | .opens owner _ | .closes owner _ => owner

namespace Files

def call (files : Files ω) : FdCall ω → Files ω
  | .opens owner number => Function.update files number (some owner)
  | .closes _ number => Function.update files number none

def Grants (files : Files ω) : FdCall ω → Prop
  | .opens _ number => files number = none
  | .closes _ _ => True

/-- A close hits what its owner has opened. -/
def Rightful (files : Files ω) : FdCall ω → Prop
  | .opens _ _ => True
  | .closes owner number => files number = some owner

instance decidableGrants (files : Files ω) (fdCall : FdCall ω) :
    Decidable (files.Grants fdCall) := by
  cases fdCall <;> unfold Grants <;> infer_instance

instance decidableRightful [DecidableEq ω] (files : Files ω)
    (fdCall : FdCall ω) : Decidable (files.Rightful fdCall) := by
  cases fdCall <;> unfold Rightful <;> infer_instance

def OpenOnce (files : Files ω) : Prop :=
  ∀ owner left right, files left = some owner → files right = some owner →
    left = right

def Absent (files : Files ω) (owner : ω) : Prop :=
  ∀ number, files number ≠ some owner

def openAll (entries : List (ω × Nat)) : List (FdCall ω) :=
  entries.map fun entry => .opens entry.1 entry.2

def closeAll (entries : List (ω × Nat)) : List (FdCall ω) :=
  entries.map fun entry => .closes entry.1 entry.2

variable {files : Files ω} {owner : ω} {number : Nat}

theorem call_frame {fdCall : FdCall ω} (hgrants : files.Grants fdCall)
    (hrightful : files.Rightful fdCall) (hother : fdCall.owner ≠ owner) :
    files.call fdCall number = some owner ↔ files number = some owner := by
  cases fdCall with
  | opens opener opened =>
      by_cases heq : number = opened
      · subst heq
        rw [call, Function.update_self, Option.some.injEq]
        rw [Grants] at hgrants
        rw [hgrants]
        exact iff_of_false hother (by simp)
      · rw [call, Function.update_of_ne heq]
  | closes closer closed =>
      by_cases heq : number = closed
      · subst heq
        rw [Rightful] at hrightful
        rw [call, Function.update_self, hrightful, Option.some.injEq]
        exact iff_of_false (by simp) hother
      · rw [call, Function.update_of_ne heq]

theorem run_frame {calls : List (FdCall ω)}
    (hgrants : StepsMeet call Grants files calls)
    (hrightful : StepsMeet call Rightful files calls)
    (hother : ∀ fdCall ∈ calls, fdCall.owner ≠ owner) :
    run call files calls number = some owner ↔ files number = some owner := by
  induction calls generalizing files with
  | nil => exact Iff.rfl
  | cons fdCall calls ih =>
      rw [run_cons, ih hgrants.2 hrightful.2 fun later hlater =>
        hother later (.tail _ hlater)]
      exact call_frame hgrants.1 hrightful.1 (hother fdCall (.head _))

theorem rightful_openAll (entries : List (ω × Nat)) :
    StepsMeet call Rightful files (openAll entries) := by
  induction entries generalizing files with
  | nil => trivial
  | cons entry rest ih => exact ⟨trivial, ih⟩

theorem rightful_closeAll_iff {entries : List (ω × Nat)}
    (hnodup : (entries.map Prod.fst).Nodup) :
    StepsMeet call Rightful files (closeAll entries) ↔
      ∀ entry ∈ entries, files entry.2 = some entry.1 := by
  induction entries generalizing files with
  | nil => simp [closeAll, StepsMeet]
  | cons entry rest ih =>
      rw [List.map_cons, List.nodup_cons] at hnodup
      rw [closeAll, List.map_cons, StepsMeet, ← closeAll, ih hnodup.2,
        List.forall_mem_cons]
      refine and_congr_right fun hentry => forall₂_congr fun later hlater => ?_
      have hne : entry.1 ≠ later.1 := fun heq =>
        hnodup.1 (heq ▸ List.mem_map_of_mem hlater)
      exact call_frame trivial hentry hne

theorem of_run_closeAll {entries : List (ω × Nat)}
    (hafter : run call files (closeAll entries) number = some owner) :
    files number = some owner := by
  induction entries generalizing files with
  | nil => exact hafter
  | cons entry rest ih =>
      have hbefore := ih hafter
      rw [call, Function.update_apply] at hbefore
      split_ifs at hbefore
      exact hbefore

theorem run_closeAll_eq_none {entries : List (ω × Nat)}
    (hclosed : files number = none ∨ ∃ owner, (owner, number) ∈ entries) :
    run call files (closeAll entries) number = none := by
  induction entries generalizing files with
  | nil =>
      rcases hclosed with hnone | ⟨owner, hmem⟩
      · exact hnone
      · cases hmem
  | cons entry rest ih =>
      refine ih ?_
      rw [call, Function.update_apply]
      split_ifs with heq
      · exact .inl rfl
      · rcases hclosed with hnone | ⟨owner, hmem⟩
        · exact .inl hnone
        · rcases List.mem_cons.mp hmem with hhead | hrest
          · exact absurd (congrArg Prod.snd hhead) heq
          · exact .inr ⟨owner, hrest⟩

theorem absent_closeAll (honce : files.OpenOnce) {entries : List (ω × Nat)}
    {entry : ω × Nat} (hentry : entry ∈ entries)
    (hopen : files entry.2 = some entry.1) :
    Absent (run call files (closeAll entries)) entry.1 := by
  intro number hafter
  have heq := honce entry.1 number entry.2 (of_run_closeAll hafter) hopen
  rw [heq, run_closeAll_eq_none (.inr ⟨entry.1, hentry⟩)] at hafter
  cases hafter

theorem OpenOnce.closeAll (honce : files.OpenOnce)
    (entries : List (ω × Nat)) :
    OpenOnce (run call files (closeAll entries)) :=
  fun owner left right hleft hright =>
    honce owner left right (of_run_closeAll hleft) (of_run_closeAll hright)

theorem run_openAll_iff {entries : List (ω × Nat)}
    (hgrants : StepsMeet call Grants files (openAll entries)) :
    run call files (openAll entries) number = some owner ↔
      files number = some owner ∨ (owner, number) ∈ entries := by
  induction entries generalizing files with
  | nil => simp [openAll]
  | cons entry rest ih =>
      obtain ⟨hfree, hrest⟩ := hgrants
      rw [openAll, List.map_cons, run_cons, ← openAll, ih hrest, call,
        List.mem_cons, ← or_assoc]
      refine or_congr_left ?_
      rw [Grants] at hfree
      by_cases heq : number = entry.2
      · subst heq
        simp [hfree, Prod.ext_iff, eq_comm]
      · simp [Prod.ext_iff, heq]

theorem free_of_grants {entries : List (ω × Nat)}
    (hgrants : StepsMeet call Grants files (openAll entries))
    {entry : ω × Nat} (hentry : entry ∈ entries) : files entry.2 = none := by
  induction entries generalizing files with
  | nil => cases hentry
  | cons first rest ih =>
      rcases List.mem_cons.mp hentry with rfl | hrest
      · exact hgrants.1
      · have hfree := ih hgrants.2 hrest
        rw [call, Function.update_apply] at hfree
        split_ifs at hfree
        exact hfree

theorem nodup_of_grants {entries : List (ω × Nat)}
    (hgrants : StepsMeet call Grants files (openAll entries)) :
    (entries.map Prod.snd).Nodup := by
  induction entries generalizing files with
  | nil => exact List.nodup_nil
  | cons entry rest ih =>
      rw [List.map_cons, List.nodup_cons]
      refine ⟨fun hmem => ?_, ih hgrants.2⟩
      obtain ⟨later, hlater, heq⟩ := List.mem_map.mp hmem
      have hfree := free_of_grants hgrants.2 hlater
      rw [heq, call, Function.update_self] at hfree
      cases hfree

theorem OpenOnce.openAll (honce : files.OpenOnce) {entries : List (ω × Nat)}
    (hgrants : StepsMeet call Grants files (openAll entries))
    (hnodup : (entries.map Prod.fst).Nodup)
    (habsent : ∀ entry ∈ entries, files.Absent entry.1) :
    OpenOnce (run call files (openAll entries)) := by
  intro owner left right hleft hright
  rcases (run_openAll_iff hgrants).mp hleft with hleft | hleft <;>
    rcases (run_openAll_iff hgrants).mp hright with hright | hright
  · exact honce owner left right hleft hright
  · exact absurd hleft (habsent _ hright left)
  · exact absurd hright (habsent _ hleft right)
  · have hsame := List.inj_on_of_nodup_map hnodup hleft hright rfl
    exact congrArg Prod.snd hsame

end Files

end Hebpf.Kernel
