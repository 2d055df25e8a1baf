import Mathlib.Data.List.TakeDrop

namespace Hebpf.Data

/-! Runs of a deterministic step function, and what a condition on every step
gives for every state of the run. -/

variable {σ ι : Type} {step : σ → ι → σ}

def run (step : σ → ι → σ) (start : σ) (inputs : List ι) : σ :=
  inputs.foldl step start

@[simp] theorem run_nil (start : σ) : run step start [] = start := rfl

@[simp] theorem run_cons (start : σ) (input : ι) (inputs : List ι) :
    run step start (input :: inputs) = run step (step start input) inputs :=
  rfl

theorem run_append (start : σ) (first second : List ι) :
    run step start (first ++ second) =
      run step (run step start first) second := by
  simp [run]

theorem invariant_run {invariant : σ → Prop}
    (hstep : ∀ state input, invariant state → invariant (step state input))
    {start : σ} (hstart : invariant start) (inputs : List ι) :
    invariant (run step start inputs) := by
  induction inputs generalizing start with
  | nil => exact hstart
  | cons input inputs ih => exact ih (hstep start input hstart)

def StepsMeet (step : σ → ι → σ) (condition : σ → ι → Prop) :
    σ → List ι → Prop
  | _, [] => True
  | state, input :: inputs =>
      condition state input ∧ StepsMeet step condition (step state input) inputs

instance decidableStepsMeet {condition : σ → ι → Prop}
    [∀ state input, Decidable (condition state input)] :
    (start : σ) → (inputs : List ι) →
      Decidable (StepsMeet step condition start inputs)
  | _, [] => .isTrue trivial
  | start, input :: inputs =>
      have := @decidableStepsMeet condition _ (step start input) inputs
      inferInstanceAs (Decidable (_ ∧ _))

theorem stepsMeet_and {first second : σ → ι → Prop} {start : σ}
    {inputs : List ι} :
    StepsMeet step (fun state input => first state input ∧ second state input)
        start inputs ↔
      StepsMeet step first start inputs ∧
        StepsMeet step second start inputs := by
  induction inputs generalizing start with
  | nil => simp [StepsMeet]
  | cons input inputs ih =>
      simp only [StepsMeet, ih]
      exact and_and_and_comm

theorem stepsMeet_true {start : σ} {inputs : List ι} :
    StepsMeet step (fun _ _ => True) start inputs := by
  induction inputs generalizing start with
  | nil => trivial
  | cons input inputs ih => exact ⟨trivial, ih⟩

theorem stepsMeet_of_forall {condition : ι → Prop} {start : σ}
    {inputs : List ι} (hall : ∀ input ∈ inputs, condition input) :
    StepsMeet step (fun _ input => condition input) start inputs := by
  induction inputs generalizing start with
  | nil => trivial
  | cons input inputs ih =>
      exact ⟨hall input (.head _), ih fun other hother =>
        hall other (.tail _ hother)⟩

theorem StepsMeet.imp_of_invariant {condition law : σ → ι → Prop}
    {invariant : σ → Prop}
    (hstep : ∀ state input, invariant state → condition state input →
      invariant (step state input))
    (himp : ∀ state input, invariant state → condition state input →
      law state input)
    {start : σ} {inputs : List ι} (hstart : invariant start)
    (hmeet : StepsMeet step condition start inputs) :
    StepsMeet step law start inputs := by
  induction inputs generalizing start with
  | nil => trivial
  | cons input inputs ih =>
      exact ⟨himp start input hstart hmeet.1,
        ih (hstep start input hstart hmeet.1) hmeet.2⟩

def Throughout (step : σ → ι → σ) (property : σ → Prop) :
    σ → List ι → Prop
  | state, [] => property state
  | state, input :: inputs =>
      property state ∧ Throughout step property (step state input) inputs

theorem throughout_iff_take {property : σ → Prop} {start : σ}
    {inputs : List ι} :
    Throughout step property start inputs ↔
      ∀ count, property (run step start (inputs.take count)) := by
  induction inputs generalizing start with
  | nil => simp [Throughout]
  | cons input inputs ih =>
      simp only [Throughout, ih]
      constructor
      · rintro ⟨hstart, hrest⟩ (_ | count)
        · exact hstart
        · exact hrest count
      · exact fun hall => ⟨hall 0, fun count => hall (count + 1)⟩

theorem Throughout.last {property : σ → Prop} {start : σ}
    {inputs : List ι} (hall : Throughout step property start inputs) :
    property (run step start inputs) := by
  simpa using throughout_iff_take.mp hall inputs.length

theorem Throughout.imp {property other : σ → Prop}
    (himp : ∀ state, property state → other state) {start : σ}
    {inputs : List ι} (hall : Throughout step property start inputs) :
    Throughout step other start inputs :=
  throughout_iff_take.mpr fun count =>
    himp _ (throughout_iff_take.mp hall count)

section Rules

variable {condition : σ → ι → Prop} {invariant property : σ → Prop}

/-- The invariant rule: what each step that meets the condition preserves holds
throughout a run whose steps all meet it. -/
theorem throughout_of_stepsMeet
    (hstep : ∀ state input, invariant state → condition state input →
      invariant (step state input))
    {start : σ} {inputs : List ι} (hstart : invariant start)
    (hmeet : StepsMeet step condition start inputs) :
    Throughout step invariant start inputs := by
  induction inputs generalizing start with
  | nil => exact hstart
  | cons input inputs ih =>
      exact ⟨hstart, ih (hstep _ _ hstart hmeet.1) hmeet.2⟩

/-- Under a guard on the steps, where a step that breaks the condition breaks
the property at once, the condition is exactly what the property needs. -/
theorem stepsMeet_and_throughout_iff {guard : σ → ι → Prop}
    (hproperty : ∀ state, invariant state → property state)
    (hstep : ∀ state input, invariant state → guard state input →
      condition state input → invariant (step state input))
    (hneeded : ∀ state input, invariant state → guard state input →
      property (step state input) → condition state input)
    {start : σ} {inputs : List ι} (hstart : invariant start) :
    StepsMeet step guard start inputs ∧
        Throughout step property start inputs ↔
      StepsMeet step (fun state input => guard state input ∧
        condition state input) start inputs := by
  constructor
  · rintro ⟨hguard, hall⟩
    induction inputs generalizing start with
    | nil => trivial
    | cons input inputs ih =>
        have hnext : property (step start input) := by
          cases inputs with
          | nil => exact hall.2
          | cons _ _ => exact hall.2.1
        have hcondition := hneeded start input hstart hguard.1 hnext
        exact ⟨⟨hguard.1, hcondition⟩,
          ih (hstep _ _ hstart hguard.1 hcondition) hguard.2 hall.2⟩
  · intro hmeet
    refine ⟨(stepsMeet_and.mp hmeet).1, ?_⟩
    exact (throughout_of_stepsMeet (fun state input hinvariant hboth =>
      hstep state input hinvariant hboth.1 hboth.2) hstart hmeet).imp hproperty

theorem throughout_iff_stepsMeet
    (hproperty : ∀ state, invariant state → property state)
    (hstep : ∀ state input, invariant state → condition state input →
      invariant (step state input))
    (hbreak : ∀ state input, invariant state → ¬ condition state input →
      ¬ property (step state input))
    {start : σ} {inputs : List ι} (hstart : invariant start) :
    Throughout step property start inputs ↔
      StepsMeet step condition start inputs := by
  have hrule := @stepsMeet_and_throughout_iff σ ι step condition invariant
    property (fun _ _ => True) hproperty
    (fun state input hinvariant _ => hstep state input hinvariant)
    (fun state input hinvariant _ hnext =>
      Classical.byContradiction fun hnot =>
        hbreak state input hinvariant hnot hnext)
    start inputs hstart
  simpa [stepsMeet_and, stepsMeet_true] using hrule

/-- Runs whose steps meet the condition stay clear of the bad states, and from
a step that breaks it the run can go on to a bad state for good. -/
theorem clear_and_lasting {bad quiet : σ → Prop}
    (hkeep : ∀ state input, invariant state → invariant (step state input))
    (hquiet : ∀ state input, quiet state → condition state input →
      quiet (step state input))
    (hclear : ∀ state, quiet state → ¬ bad state)
    (hlast : ∀ state input, invariant state → bad state →
      bad (step state input))
    (hreach : ∀ state input, invariant state → ¬ condition state input →
      ∃ more, bad (run step (step state input) more))
    {start : σ} (hstart : invariant start) (hquietStart : quiet start) :
    (∀ inputs, StepsMeet step condition start inputs →
      Throughout step (fun state => ¬ bad state) start inputs) ∧
    ∀ inputs input, ¬ condition (run step start inputs) input →
      ∃ more, ∀ further,
        bad (run step start (inputs ++ input :: more ++ further)) := by
  constructor
  · intro inputs hmeet
    exact (throughout_of_stepsMeet hquiet hquietStart hmeet).imp hclear
  · intro inputs input hbreak
    have hbefore := invariant_run hkeep hstart inputs
    obtain ⟨more, hbad⟩ := hreach _ input hbefore hbreak
    refine ⟨more, fun further => ?_⟩
    rw [run_append, run_append]
    have hboth : ∀ state input, invariant state ∧ bad state →
        invariant (step state input) ∧ bad (step state input) :=
      fun state input hstate =>
        ⟨hkeep state input hstate.1, hlast state input hstate.1 hstate.2⟩
    exact (invariant_run hboth
      ⟨invariant_run hkeep (hkeep _ input hbefore) more, hbad⟩ further).2

theorem property_run_iff
    (hstep : ∀ state input, invariant state → invariant (step state input))
    (hexact : ∀ state input, invariant state →
      (property (step state input) ↔ property state ∧ condition state input))
    {start : σ} (hstart : invariant start) (inputs : List ι) :
    property (run step start inputs) ↔
      property start ∧ StepsMeet step condition start inputs := by
  induction inputs generalizing start with
  | nil => exact (iff_of_eq (and_true _)).symm
  | cons input inputs ih =>
      rw [run_cons, ih (hstep start input hstart), hexact start input hstart,
        StepsMeet, and_assoc]

/-- A law of single steps holds of all of a run exactly when the condition
does, where the condition keeps what makes the two agree.  `given` is what is
known of every input. -/
theorem stepsMeet_iff_stepsMeet {law : σ → ι → Prop} {given : ι → Prop}
    (hstep : ∀ state input, invariant state → given input →
      condition state input → invariant (step state input))
    (hexact : ∀ state input, invariant state → given input →
      (law state input ↔ condition state input))
    {start : σ} {inputs : List ι} (hstart : invariant start)
    (hgiven : ∀ input ∈ inputs, given input) :
    StepsMeet step law start inputs ↔
      StepsMeet step condition start inputs := by
  induction inputs generalizing start with
  | nil => exact Iff.rfl
  | cons input inputs ih =>
      have hinput := hgiven input (.head _)
      simp only [StepsMeet, hexact start input hstart hinput]
      exact and_congr_right fun hmeets =>
        ih (hstep start input hstart hinput hmeets)
          fun other hother => hgiven other (.tail _ hother)

end Rules

end Hebpf.Data
