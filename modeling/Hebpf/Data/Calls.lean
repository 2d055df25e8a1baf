import Mathlib.Tactic.Common

namespace Hebpf.Data

/-! Programs that do what they do by calls `κ` with answers `ρ`, and may be
killed after any of them. -/

inductive Calls (κ ρ α : Type) where
  | done (result : α)
  | call (request : κ) (next : ρ → Calls κ ρ α)

namespace Calls

variable {κ ρ α β σ ο : Type}

def bind : Calls κ ρ α → (α → Calls κ ρ β) → Calls κ ρ β
  | done result, follow => follow result
  | call request next, follow => call request fun answer =>
      (next answer).bind follow

instance : Monad (Calls κ ρ) where
  pure := done
  bind := bind

def ask (request : κ) : Calls κ ρ ρ := call request done

@[simp] theorem pure_bind (result : α) (follow : α → Calls κ ρ β) :
    (pure result >>= follow) = follow result := rfl

@[simp] theorem call_bind (request : κ) (next : ρ → Calls κ ρ α)
    (follow : α → Calls κ ρ β) :
    (call request next >>= follow) =
      call request fun answer => next answer >>= follow := rfl

@[simp] theorem ask_bind (request : κ) (follow : ρ → Calls κ ρ β) :
    (ask request >>= follow) = call request follow := rfl

/-! `answer` is what a call does where the outcome of it is `ο`. -/

section Answers

variable (answer : ο → σ → κ → σ × ρ)

/-- Each call takes the next outcome.  Where there is none left the program has
been killed after the call before. -/
def live : List ο → Calls κ ρ α → σ → σ × Option α
  | _, done result, state => (state, some result)
  | [], call _ _, state => (state, none)
  | outcome :: outcomes, call request next, state =>
      let (state, reply) := answer outcome state request
      live outcomes (next reply) state

/-- All calls have one outcome, and the program comes to its end. -/
def finish (outcome : ο) : Calls κ ρ α → σ → σ × α
  | done result, state => (state, result)
  | call request next, state =>
      let (state, reply) := answer outcome state request
      finish outcome (next reply) state

/-- Whatever outcomes are allowed: `ending` holds at the end, and `killed` in
every state in which a call is to come. -/
def Along (allowed : ο → Prop) (killed : σ → Prop) :
    Calls κ ρ α → (α → σ → Prop) → σ → Prop
  | done result, ending, state => ending result state
  | call request next, ending, state =>
      killed state ∧ ∀ outcome, allowed outcome →
        Along allowed killed (next (answer outcome state request).2) ending
          (answer outcome state request).1

variable {answer} {allowed : ο → Prop} {killed : σ → Prop}

section Finish

variable {outcome : ο}

@[simp] theorem finish_pure (result : α) (state : σ) :
    finish answer outcome (pure result) state = (state, result) := rfl

@[simp] theorem finish_call (request : κ) (next : ρ → Calls κ ρ α)
    (state : σ) :
    finish answer outcome (call request next) state =
      finish answer outcome (next (answer outcome state request).2)
        (answer outcome state request).1 := rfl

theorem finish_bind (program : Calls κ ρ α) (follow : α → Calls κ ρ β)
    (state : σ) :
    finish answer outcome (program >>= follow) state =
      finish answer outcome
        (follow (finish answer outcome program state).2)
        (finish answer outcome program state).1 := by
  induction program generalizing state with
  | done result => rfl
  | call request next ih => exact ih _ _

end Finish

@[simp] theorem along_pure {result : α} {ending : α → σ → Prop} {state : σ} :
    Along answer allowed killed (pure result) ending state ↔
      ending result state := Iff.rfl

@[simp] theorem along_call_eq {outcome : ο} {request : κ}
    {next : ρ → Calls κ ρ α} {ending : α → σ → Prop} {state : σ} :
    Along answer (· = outcome) killed (call request next) ending state ↔
      killed state ∧
        Along answer (· = outcome) killed
          (next (answer outcome state request).2) ending
          (answer outcome state request).1 := by
  simp [Along]

theorem Along.imp {program : Calls κ ρ α} {ending other : α → σ → Prop}
    {state : σ} (himp : ∀ result state, ending result state →
      other result state)
    (halong : Along answer allowed killed program ending state) :
    Along answer allowed killed program other state := by
  induction program generalizing state with
  | done result => exact himp result state halong
  | call request next ih =>
      exact ⟨halong.1, fun outcome hallowed =>
        ih _ (halong.2 outcome hallowed)⟩

theorem Along.bind {program : Calls κ ρ α} {follow : α → Calls κ ρ β}
    {ending : β → σ → Prop} {state : σ}
    (halong : Along answer allowed killed program
      (fun result => Along answer allowed killed (follow result) ending)
      state) :
    Along answer allowed killed (program >>= follow) ending state := by
  induction program generalizing state with
  | done result => exact halong
  | call request next ih =>
      exact ⟨halong.1, fun outcome hallowed =>
        ih _ (halong.2 outcome hallowed)⟩

theorem Along.of_live {program : Calls κ ρ α} {ending : α → σ → Prop}
    {state : σ} (halong : Along answer allowed killed program ending state)
    (hending : ∀ result state, ending result state → killed state)
    {outcomes : List ο} (hallowed : ∀ outcome ∈ outcomes, allowed outcome) :
    killed (live answer outcomes program state).1 := by
  induction program generalizing state outcomes with
  | done result => cases outcomes <;> exact hending result state halong
  | call request next ih =>
      cases outcomes with
      | nil => exact halong.1
      | cons outcome outcomes =>
          obtain ⟨hfirst, hrest⟩ := List.forall_mem_cons.mp hallowed
          exact ih _ (halong.2 outcome hfirst) hrest

end Answers

end Calls

end Hebpf.Data
