import Hebpf.Data.Run

namespace Hebpf.Data

/-! Runs of one system that runs of another explain. -/

variable {σ ι τ κ χ ο : Type}

def outputs (step : σ → ι → σ) (output : σ → ι → List ο) :
    σ → List ι → List ο
  | _, [] => []
  | state, input :: inputs =>
      output state input ++ outputs step output (step state input) inputs

/-- Where each step is a run of the other system that keeps the relation and
adds what the step puts out to the histories there, each run is. -/
theorem exists_run_of_simulation {step : σ → ι → σ} {follow : τ → κ → τ}
    {relation : σ → τ → Prop} {output : χ → σ → ι → List ο}
    {history : χ → τ → List ο}
    (hstep : ∀ state other input, relation state other →
      ∃ calls, relation (step state input) (run follow other calls) ∧
        ∀ kind, history kind (run follow other calls) =
          history kind other ++ output kind state input)
    {start : σ} {other : τ} (hstart : relation start other)
    (inputs : List ι) :
    ∃ calls, relation (run step start inputs) (run follow other calls) ∧
      ∀ kind, history kind (run follow other calls) =
        history kind other ++ outputs step (output kind) start inputs := by
  induction inputs generalizing start other with
  | nil => exact ⟨[], hstart, fun kind => (List.append_nil _).symm⟩
  | cons input inputs ih =>
      obtain ⟨first, hrelated, hfirst⟩ := hstep start other input hstart
      obtain ⟨rest, hend, hrest⟩ := ih hrelated
      refine ⟨first ++ rest, ?_, fun kind => ?_⟩
      · rw [run_append]
        exact hend
      · rw [run_append, hrest, hfirst, List.append_assoc]
        rfl

theorem run_of_picture {step : σ → ι → σ} {follow : τ → ι → τ}
    {invariant : σ → Prop} {picture : σ → τ} {output : σ → ι → List ο}
    {pictured : τ → ι → List ο}
    (hstep : ∀ state input, invariant state →
      invariant (step state input) ∧
        picture (step state input) = follow (picture state) input ∧
        output state input = pictured (picture state) input)
    {start : σ} (hstart : invariant start) (inputs : List ι) :
    invariant (run step start inputs) ∧
      picture (run step start inputs) = run follow (picture start) inputs ∧
      outputs step output start inputs =
        outputs follow pictured (picture start) inputs := by
  induction inputs generalizing start with
  | nil => exact ⟨hstart, rfl, rfl⟩
  | cons input inputs ih =>
      obtain ⟨hkept, hpicture, houtput⟩ := hstep start input hstart
      obtain ⟨hend, hrun, houtputs⟩ := ih hkept
      rw [hpicture] at hrun houtputs
      refine ⟨hend, hrun, ?_⟩
      unfold outputs
      rw [houtput, houtputs]

end Hebpf.Data
