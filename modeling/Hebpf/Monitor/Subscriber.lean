import Hebpf.Daemon.ConfigsYaml
import Hebpf.Data.Run

namespace Hebpf.Monitor

open Hebpf.Common Hebpf.Daemon Hebpf.Data

/-! `MonitorSubscriber`, called by one thread at a time. -/

/-- A monitor is the address it serves, and the queue whether it is stopped. -/
structure MonitorSubscriber where
  running : Bool
  bindAddress : String
  monitor : Option String
  queueStopped : Bool
  consumerThread : Bool
  deriving DecidableEq, Repr

namespace MonitorSubscriber

def new : MonitorSubscriber := ⟨false, "", none, false, false⟩

/-- `created` is what `factory_->create` does: return or throw.  The address is
stored and the subscriber counts as running before that. -/
def run (created : Result Unit) (subscriber : MonitorSubscriber)
    (bindAddress : String) : Result Unit × MonitorSubscriber :=
  if subscriber.running then (.ok (), subscriber)
  else
    let subscriber := { subscriber with running := true, bindAddress }
    match created with
    | .error exc => (.error exc, subscriber)
    | .ok () =>
        (.ok (), { subscriber with
          monitor := some bindAddress
          consumerThread := true
          queueStopped := false })

def stop (subscriber : MonitorSubscriber) : MonitorSubscriber :=
  if subscriber.running then ⟨false, "", none, true, false⟩ else subscriber

def update (created : Result Unit) (subscriber : MonitorSubscriber)
    (config : Configs) : Result Unit × MonitorSubscriber :=
  let enabled := config.prometheusEnabled
  let lastEnabled := subscriber.monitor.isSome
  if !enabled && !lastEnabled then (.ok (), subscriber)
  else
    let listen := config.prometheusListen
    let needRestart : Bool := subscriber.bindAddress ≠ listen
    if enabled && lastEnabled && !needRestart then (.ok (), subscriber)
    else
      let subscriber :=
        if !enabled || (enabled && needRestart) then subscriber.stop
        else subscriber
      if enabled then subscriber.run created listen
      else (.ok (), subscriber)

inductive Call where
  | update (config : Configs)
  | run (bindAddress : String)
  | stop

def call (subscriber : MonitorSubscriber) (input : Call × Result Unit) :
    MonitorSubscriber :=
  match input.1 with
  | .update config => (subscriber.update input.2 config).2
  | .run bindAddress => (subscriber.run input.2 bindAddress).2
  | .stop => subscriber.stop

/-- The subscriber runs exactly when it has a monitor, and that one serves the
address it has stored. -/
structure Consistent (subscriber : MonitorSubscriber) : Prop where
  running : subscriber.running = true ↔ ∃ served, subscriber.monitor = some served
  address : ∀ served, subscriber.monitor = some served →
    subscriber.bindAddress = served

def NeedsFactory (subscriber : MonitorSubscriber) : Call → Prop
  | .update config =>
      config.prometheusEnabled = true ∧
        (subscriber.bindAddress ≠ config.prometheusListen ∨
          subscriber.running = false)
  | .run _ => subscriber.running = false
  | .stop => False

def FactorySucceeds (subscriber : MonitorSubscriber)
    (input : Call × Result Unit) : Prop :=
  subscriber.NeedsFactory input.1 → input.2 = .ok ()

/-- The call leaves the subscriber consistent, and an update that does not fail
leaves a monitor where the configuration has one. -/
structure Lawful (subscriber : MonitorSubscriber)
    (input : Call × Result Unit) : Prop where
  consistent : (subscriber.call input).Consistent
  serves : ∀ config, input.1 = .update config →
    subscriber.FactorySucceeds input →
    ((subscriber.call input).monitor = some config.prometheusListen ↔
      config.prometheusEnabled = true)

theorem new_consistent : new.Consistent where
  running := by simp [new]
  address := by simp [new]

theorem consistent_stopped (queueStopped consumerThread : Bool)
    (bindAddress : String) : Consistent
      ⟨false, bindAddress, none, queueStopped, consumerThread⟩ where
  running := by simp
  address := by simp

theorem consistent_serving (queueStopped consumerThread : Bool)
    (bindAddress : String) : Consistent
      ⟨true, bindAddress, some bindAddress, queueStopped, consumerThread⟩ where
  running := by simp
  address := by simp

theorem Consistent.cases {subscriber : MonitorSubscriber}
    (hconsistent : subscriber.Consistent) :
    (subscriber.running = false ∧ subscriber.monitor = none) ∨
      (subscriber.running = true ∧
        subscriber.monitor = some subscriber.bindAddress) := by
  cases hmonitor : subscriber.monitor with
  | none =>
      refine Or.inl ⟨?_, rfl⟩
      rw [← Bool.not_eq_true, hconsistent.running, hmonitor]
      simp
  | some served =>
      refine Or.inr ⟨hconsistent.running.mpr ⟨served, hmonitor⟩, ?_⟩
      rw [hconsistent.address served hmonitor]

section Step

variable {subscriber : MonitorSubscriber}

theorem Consistent.run_ok (hconsistent : subscriber.Consistent)
    (bindAddress : String) :
    (subscriber.run (.ok ()) bindAddress).2.Consistent := by
  unfold run
  split_ifs
  · exact hconsistent
  · exact consistent_serving _ _ _

theorem Consistent.stopped (hconsistent : subscriber.Consistent) :
    subscriber.stop.Consistent := by
  unfold stop
  split_ifs
  · exact consistent_stopped _ _ _
  · exact hconsistent

theorem Consistent.stop_monitor (hconsistent : subscriber.Consistent) :
    subscriber.stop.running = false ∧ subscriber.stop.monitor = none := by
  rcases hconsistent.cases with ⟨hrunning, hmonitor⟩ | ⟨hrunning, -⟩
  · simp [stop, hrunning, hmonitor]
  · simp [stop, hrunning]

theorem Consistent.update_eq (hconsistent : subscriber.Consistent)
    (created : Result Unit) (config : Configs) :
    (subscriber.update created config).2 =
      if config.prometheusEnabled = false then subscriber.stop
      else if subscriber.monitor = some config.prometheusListen then subscriber
      else (subscriber.stop.run created config.prometheusListen).2 := by
  obtain ⟨running, bindAddress, monitor, queueStopped, consumerThread⟩ :=
    subscriber
  rcases hconsistent.cases with ⟨hrunning, hmonitor⟩ | ⟨hrunning, hmonitor⟩
  all_goals
    simp only at hrunning hmonitor
    subst hrunning hmonitor
    cases henabled : config.prometheusEnabled with
    | false => simp [update, stop, henabled]
    | true =>
        by_cases hlisten : bindAddress = config.prometheusListen <;>
          simp [update, stop, henabled, hlisten]

theorem Consistent.needsFactory_update_iff (hconsistent : subscriber.Consistent)
    (config : Configs) :
    subscriber.NeedsFactory (.update config) ↔
      config.prometheusEnabled = true ∧
        subscriber.monitor ≠ some config.prometheusListen := by
  rcases hconsistent.cases with ⟨hrunning, hmonitor⟩ | ⟨hrunning, hmonitor⟩ <;>
    simp [NeedsFactory, hrunning, hmonitor]

theorem Consistent.call_eq (hconsistent : subscriber.Consistent)
    {input : Call × Result Unit}
    (hsucceeds : subscriber.FactorySucceeds input) :
    subscriber.call input = subscriber.call (input.1, .ok ()) := by
  obtain ⟨call, created⟩ := input
  by_cases hneeds : subscriber.NeedsFactory call
  · rw [show created = .ok () from hsucceeds hneeds]
  · cases call with
    | update config =>
        rw [hconsistent.needsFactory_update_iff, not_and, not_not] at hneeds
        simp only [MonitorSubscriber.call, hconsistent.update_eq]
        split_ifs with hdisabled hserved
        · rfl
        · rfl
        · exact absurd (hneeds (by simpa using hdisabled)) hserved
    | run bindAddress =>
        have hrunning : subscriber.running = true := by
          simpa [NeedsFactory] using hneeds
        simp [MonitorSubscriber.call, run, hrunning]
    | stop => rfl

theorem Consistent.lawful (hconsistent : subscriber.Consistent)
    {input : Call × Result Unit}
    (hsucceeds : subscriber.FactorySucceeds input) :
    subscriber.Lawful input := by
  have heq := hconsistent.call_eq hsucceeds
  obtain ⟨call, created⟩ := input
  constructor
  · rw [heq]
    cases call with
    | update config =>
        simp only [MonitorSubscriber.call, hconsistent.update_eq]
        split_ifs
        · exact hconsistent.stopped
        · exact hconsistent
        · exact hconsistent.stopped.run_ok _
    | run bindAddress => exact hconsistent.run_ok bindAddress
    | stop => exact hconsistent.stopped
  · rintro config rfl -
    rw [heq]
    simp only [MonitorSubscriber.call, hconsistent.update_eq]
    obtain ⟨hrunning, hmonitor⟩ := hconsistent.stop_monitor
    split_ifs with hdisabled hserved
    · simp [hmonitor, hdisabled]
    · simpa [hserved] using hdisabled
    · simpa [run, hrunning] using hdisabled

theorem Consistent.call_error (hconsistent : subscriber.Consistent) {call : Call}
    (hneeds : subscriber.NeedsFactory call) (exc : Exception) :
    (subscriber.call (call, .error exc)).running = true ∧
      (subscriber.call (call, .error exc)).monitor = none := by
  cases call with
  | update config =>
      obtain ⟨henabled, hserved⟩ :=
        (hconsistent.needsFactory_update_iff config).mp hneeds
      obtain ⟨hrunning, hmonitor⟩ := hconsistent.stop_monitor
      simp [MonitorSubscriber.call, hconsistent.update_eq, henabled, hserved,
        run, hrunning, hmonitor]
  | run bindAddress =>
      rcases hconsistent.cases with ⟨hrunning, hmonitor⟩ | ⟨hrunning, -⟩
      · simp [MonitorSubscriber.call, run, hrunning, hmonitor]
      · simp [NeedsFactory, hrunning] at hneeds
  | stop => exact hneeds.elim

theorem Consistent.lawful_iff (hconsistent : subscriber.Consistent)
    (input : Call × Result Unit) :
    subscriber.Lawful input ↔ subscriber.FactorySucceeds input := by
  refine ⟨fun hlawful hneeds => ?_, hconsistent.lawful⟩
  obtain ⟨call, created⟩ := input
  cases created with
  | ok _ => rfl
  | error exc =>
      obtain ⟨hrunning, hmonitor⟩ := hconsistent.call_error hneeds exc
      obtain ⟨served, hserved⟩ := hlawful.consistent.running.mp hrunning
      rw [hmonitor] at hserved
      cases hserved

end Step

/-- Every call of a run is lawful exactly when the factory never fails where it
is asked. -/
theorem lawful_throughout_iff (inputs : List (Call × Result Unit)) :
    StepsMeet call Lawful new inputs ↔
      StepsMeet call FactorySucceeds new inputs := by
  have hrule := @stepsMeet_iff_stepsMeet MonitorSubscriber
    (Call × Result Unit) call FactorySucceeds Consistent Lawful
    (fun _ => True)
    (fun _ _ hconsistent _ hsucceeds =>
      (hconsistent.lawful hsucceeds).consistent)
    (fun _ input hconsistent _ => hconsistent.lawful_iff input)
    new inputs new_consistent
  exact hrule fun _ _ => trivial

/-- After a failure nothing is served where the configuration is delivered
again. -/
theorem not_lawful_again :
    ¬ StepsMeet call Lawful new
      [(.update { Configs.default with prometheusEnabled := true },
          .error ⟨"null context when constructing CivetServer"⟩),
        (.update { Configs.default with prometheusEnabled := true }, .ok ())] := by
  rintro ⟨-, hlawful, -⟩
  have hserves := (hlawful.serves _ rfl fun _ => rfl).mpr rfl
  revert hserves
  decide

end MonitorSubscriber

end Hebpf.Monitor
