import Hebpf.Data.Run
import Mathlib.Logic.Function.Basic

namespace Hebpf.Monitor

open Hebpf.Data

/-! `MonitorSubscriber::stop`, called from threads `τ`, against the thread of
`consumeLoop`: every interleaving of their steps.  A metric is of any type
`δ`. -/

inductive StopPoint where
  | outside
  | exchanged
  | locked
  | joining
  | joined
  deriving DecidableEq, Repr

/-- Where the consumer is in its loop, with the metric it is at and those of the
same element behind it. -/
inductive ConsumePoint (δ : Type) where
  | check
  | popping
  | trying
  | locking (elem : δ) (rest : List δ)
  | locked (elem : δ) (rest : List δ)
  | counting (elem : δ) (rest : List δ)
  | ended

inductive Holder (τ : Type) where
  | stop (thread : τ)
  | consumer

structure StopJoin (τ δ : Type) where
  running : Bool
  mutex : Option (Holder τ)
  queue : List (List δ)
  queueStopped : Bool
  monitor : Bool
  stops : τ → StopPoint
  consumer : ConsumePoint δ

/-- One step of a thread.  `throws` is whether `incrementCounter` does, where it
is called. -/
inductive Action (τ δ : Type) where
  | stop (thread : τ)
  | consume (throws : Bool)
  | push (metrics : List δ)

def ConsumePoint.nextMetric {δ : Type} : List δ → ConsumePoint δ
  | [] => .check
  | elem :: rest => .locking elem rest

def ConsumePoint.toLock {δ : Type} : ConsumePoint δ → List δ
  | .locking elem rest => elem :: rest
  | .locked _ rest => rest
  | .counting _ rest => rest
  | _ => []

namespace StopJoin

variable {τ δ : Type} [DecidableEq τ]

def start (queue : List (List δ)) : StopJoin τ δ where
  running := true
  mutex := none
  queue := queue
  queueStopped := false
  monitor := true
  stops _ := .outside
  consumer := .check

def atStop (state : StopJoin τ δ) (thread : τ) (point : StopPoint) :
    StopJoin τ δ :=
  { state with stops := Function.update state.stops thread point }

def moveStop (state : StopJoin τ δ) (thread : τ) : Option (StopJoin τ δ) :=
  match state.stops thread with
  | .outside =>
      if state.running then
        some ({ state with running := false }.atStop thread .exchanged)
      else some state
  | .exchanged =>
      match state.mutex with
      | some _ => none
      | none =>
          some ({ state with mutex := some (.stop thread) }.atStop thread
            .locked)
  | .locked =>
      some ({ state with queueStopped := true }.atStop thread .joining)
  | .joining =>
      match state.consumer with
      | .ended => some (state.atStop thread .joined)
      | _ => none
  | .joined =>
      some ({ state with monitor := false, mutex := none }.atStop thread
        .outside)

def moveConsumer (state : StopJoin τ δ) (throws : Bool) :
    Option (StopJoin τ δ) :=
  match state.consumer with
  | .check =>
      some { state with
        consumer := if state.running then .popping else .ended }
  | .popping =>
      if state.queue = [] ∧ state.queueStopped = false then none
      else some { state with consumer := .trying }
  | .trying =>
      match state.queueStopped, state.queue with
      | false, metrics :: queue =>
          some { state with queue, consumer := .nextMetric metrics }
      | _, _ => some { state with consumer := .check }
  | .locking elem rest =>
      match state.mutex with
      | some _ => none
      | none =>
          some { state with
            mutex := some .consumer, consumer := .locked elem rest }
  | .locked elem rest =>
      some { state with
        mutex := none
        consumer :=
          if state.monitor then .counting elem rest else .nextMetric rest }
  | .counting _ rest =>
      some { state with
        consumer := if throws then .ended else .nextMetric rest }
  | .ended => none

def pushed (state : StopJoin τ δ) (metrics : List δ) : StopJoin τ δ :=
  if state.queueStopped then state
  else { state with queue := state.queue ++ [metrics] }

def move (state : StopJoin τ δ) : Action τ δ → Option (StopJoin τ δ)
  | .stop thread => state.moveStop thread
  | .consume throws => state.moveConsumer throws
  | .push metrics => some (state.pushed metrics)

def step (state : StopJoin τ δ) (action : Action τ δ) : StopJoin τ δ :=
  (state.move action).getD state

/-- A thread waits in `stop` for the consumer to end, and the consumer for the
lock that thread holds. -/
def Deadlocked (state : StopJoin τ δ) : Prop :=
  ∃ thread elem rest, state.stops thread = .joining ∧
    state.mutex = some (.stop thread) ∧ state.consumer = .locking elem rest

/-- A thread that stops the queue, to join the consumer next, finds no metric
left that the lock is needed for. -/
def CaughtUp (state : StopJoin τ δ) (action : Action τ δ) : Prop :=
  ∀ thread, action = .stop thread → state.stops thread = .locked →
    state.consumer.toLock = []

structure Locked (state : StopJoin τ δ) : Prop where
  stop : ∀ thread, state.mutex = some (.stop thread) ↔
    state.stops thread = .locked ∨ state.stops thread = .joining ∨
      state.stops thread = .joined
  consumer : state.mutex = some .consumer ↔
    ∃ elem rest, state.consumer = .locked elem rest
  joining : ∀ thread, state.stops thread = .joining → state.queueStopped = true

omit [DecidableEq τ] in
theorem start_locked (queue : List (List δ)) :
    (start queue : StopJoin τ δ).Locked where
  stop := by simp [start]
  consumer := by simp [start]
  joining := by simp [start]

section Step

variable {state after : StopJoin τ δ}

@[simp] theorem stops_atStop (thread other : τ) (point : StopPoint) :
    (state.atStop thread point).stops other =
      if other = thread then point else state.stops other := by
  simp [atStop, Function.update_apply]

@[simp] theorem mutex_atStop (thread : τ) (point : StopPoint) :
    (state.atStop thread point).mutex = state.mutex := rfl

@[simp] theorem consumer_atStop (thread : τ) (point : StopPoint) :
    (state.atStop thread point).consumer = state.consumer := rfl

@[simp] theorem queueStopped_atStop (thread : τ) (point : StopPoint) :
    (state.atStop thread point).queueStopped = state.queueStopped := rfl

theorem Locked.moveStop (hlocked : state.Locked) {thread : τ}
    (hmove : state.moveStop thread = some after) : after.Locked := by
  obtain ⟨hstop, hconsumer, hjoining⟩ := hlocked
  unfold StopJoin.moveStop at hmove
  cases hpoint : state.stops thread with
  | outside =>
      simp only [hpoint] at hmove
      split_ifs at hmove <;> cases hmove
      · refine ⟨fun other => ?_, hconsumer, fun other => ?_⟩ <;>
          simp only [stops_atStop, mutex_atStop, queueStopped_atStop] <;> grind
      · exact ⟨hstop, hconsumer, hjoining⟩
  | exchanged =>
      simp only [hpoint] at hmove
      cases hmutex : state.mutex with
      | some holder => simp [hmutex] at hmove
      | none =>
          simp only [hmutex] at hmove
          cases hmove
          refine ⟨fun other => ?_, ?_, fun other => ?_⟩ <;>
            simp only [stops_atStop, mutex_atStop, queueStopped_atStop,
              consumer_atStop] <;> grind
  | locked =>
      simp only [hpoint] at hmove
      cases hmove
      refine ⟨fun other => ?_, hconsumer, fun other => ?_⟩ <;>
        simp only [stops_atStop, mutex_atStop, queueStopped_atStop] <;> grind
  | joining =>
      simp only [hpoint] at hmove
      split at hmove
      · cases hmove
        refine ⟨fun other => ?_, hconsumer, fun other => ?_⟩ <;>
          simp only [stops_atStop, mutex_atStop, queueStopped_atStop] <;> grind
      · cases hmove
  | joined =>
      simp only [hpoint] at hmove
      cases hmove
      refine ⟨fun other => ?_, ?_, fun other => ?_⟩ <;>
        simp only [stops_atStop, mutex_atStop, queueStopped_atStop,
          consumer_atStop] <;> grind

omit [DecidableEq τ] in
theorem Locked.consumerTo (hlocked : state.Locked) (queue : List (List δ))
    {point : ConsumePoint δ}
    (hbefore : ∀ elem rest, state.consumer ≠ .locked elem rest)
    (hafter : ∀ elem rest, point ≠ .locked elem rest) :
    Locked { state with queue, consumer := point } where
  stop := hlocked.stop
  consumer := by
    rw [hlocked.consumer]
    refine iff_of_false ?_ ?_
    · rintro ⟨elem, rest, heq⟩
      exact hbefore elem rest heq
    · rintro ⟨elem, rest, heq⟩
      exact hafter elem rest heq
  joining := hlocked.joining

theorem nextMetric_ne_locked (metrics : List δ) (elem : δ) (rest : List δ) :
    ConsumePoint.nextMetric metrics ≠ .locked elem rest := by
  cases metrics <;> simp [ConsumePoint.nextMetric]

omit [DecidableEq τ] in
theorem Locked.moveConsumer (hlocked : state.Locked) {throws : Bool}
    (hmove : state.moveConsumer throws = some after) : after.Locked := by
  unfold StopJoin.moveConsumer at hmove
  cases hpoint : state.consumer with
  | check =>
      simp only [hpoint] at hmove
      cases hmove
      apply hlocked.consumerTo
      · simp [hpoint]
      · split_ifs <;> simp
  | popping =>
      simp only [hpoint] at hmove
      split_ifs at hmove
      cases hmove
      apply hlocked.consumerTo <;> simp [hpoint]
  | trying =>
      simp only [hpoint] at hmove
      split at hmove <;> cases hmove
      · apply hlocked.consumerTo
        · simp [hpoint]
        · exact nextMetric_ne_locked _
      · apply hlocked.consumerTo <;> simp [hpoint]
  | locking elem rest =>
      simp only [hpoint] at hmove
      cases hmutex : state.mutex with
      | some holder => simp [hmutex] at hmove
      | none =>
          simp only [hmutex] at hmove
          cases hmove
          refine ⟨fun thread => ?_, by simp, hlocked.joining⟩
          rw [← hlocked.stop, hmutex]
          simp
  | locked elem rest =>
      simp only [hpoint] at hmove
      cases hmove
      have hheld := hlocked.consumer.mpr ⟨elem, rest, hpoint⟩
      refine ⟨fun thread => ?_, ?_, hlocked.joining⟩
      · rw [← hlocked.stop, hheld]
        simp
      · refine iff_of_false (by simp) ?_
        rintro ⟨elem, rest, heq⟩
        split_ifs at heq
        exact nextMetric_ne_locked _ _ _ heq
  | counting elem rest =>
      simp only [hpoint] at hmove
      cases hmove
      apply hlocked.consumerTo
      · simp [hpoint]
      · split_ifs
        · simp
        · exact nextMetric_ne_locked _
  | ended => simp [hpoint] at hmove

theorem Locked.step (hlocked : state.Locked) (action : Action τ δ) :
    (state.step action).Locked := by
  unfold StopJoin.step
  cases hmove : state.move action with
  | none => exact hlocked
  | some after =>
      cases action with
      | stop thread => exact hlocked.moveStop hmove
      | consume throws => exact hlocked.moveConsumer hmove
      | push metrics =>
          cases hmove
          unfold pushed
          split_ifs
          · exact hlocked
          · exact ⟨hlocked.stop, hlocked.consumer, hlocked.joining⟩

structure Quiet (state : StopJoin τ δ) : Prop where
  locked : state.Locked
  toLock : ∀ thread, state.stops thread = .joining →
    state.consumer.toLock = []

omit [DecidableEq τ] in
theorem Quiet.not_deadlocked (hquiet : state.Quiet) : ¬ state.Deadlocked := by
  rintro ⟨thread, elem, rest, hjoining, -, hlocking⟩
  have hnone := hquiet.toLock thread hjoining
  rw [hlocking] at hnone
  cases hnone

omit [DecidableEq τ] in
theorem moveConsumer_toLock {throws : Bool}
    (hmove : state.moveConsumer throws = some after)
    (hstopped : state.queueStopped = true)
    (hnone : state.consumer.toLock = []) : after.consumer.toLock = [] := by
  unfold moveConsumer at hmove
  cases hpoint : state.consumer with
  | check =>
      simp only [hpoint] at hmove
      cases hmove
      split_ifs <;> rfl
  | popping =>
      simp only [hpoint] at hmove
      split_ifs at hmove
      cases hmove
      rfl
  | trying =>
      simp only [hpoint, hstopped] at hmove
      cases hmove
      rfl
  | locking elem rest => simp [hpoint, ConsumePoint.toLock] at hnone
  | locked elem rest =>
      simp only [hpoint] at hmove
      cases hmove
      rw [hpoint] at hnone
      cases hnone
      split_ifs <;> rfl
  | counting elem rest =>
      simp only [hpoint] at hmove
      cases hmove
      rw [hpoint] at hnone
      cases hnone
      split_ifs <;> rfl
  | ended => simp [hpoint] at hmove

omit [DecidableEq τ] in
theorem moveConsumer_stops {throws : Bool}
    (hmove : state.moveConsumer throws = some after) :
    after.stops = state.stops := by
  unfold moveConsumer at hmove
  split at hmove
  all_goals
    first
      | cases hmove <;> rfl
      | split_ifs at hmove; cases hmove; rfl
      | split at hmove <;> cases hmove <;> rfl

theorem joining_of_atStop {thread other : τ} {point : StopPoint}
    (hpoint : point ≠ .joining)
    (hjoining : (state.atStop thread point).stops other = .joining) :
    state.stops other = .joining := by
  rw [stops_atStop] at hjoining
  split_ifs at hjoining
  · exact absurd hjoining hpoint
  · exact hjoining

theorem moveStop_spec {thread : τ}
    (hmove : state.moveStop thread = some after) :
    after.consumer = state.consumer ∧
      ∀ other, after.stops other = .joining →
        state.stops other = .joining ∨
          other = thread ∧ state.stops thread = .locked := by
  unfold moveStop at hmove
  cases hpoint : state.stops thread with
  | outside =>
      simp only [hpoint] at hmove
      split_ifs at hmove <;> cases hmove
      · exact ⟨rfl, fun _ hjoining =>
          Or.inl (joining_of_atStop (by simp) hjoining)⟩
      · exact ⟨rfl, fun _ => Or.inl⟩
  | locked =>
      simp only [hpoint] at hmove
      cases hmove
      refine ⟨rfl, fun other hjoining => ?_⟩
      rw [stops_atStop] at hjoining
      split_ifs at hjoining with heq
      · exact Or.inr ⟨heq, rfl⟩
      · exact Or.inl hjoining
  | joined =>
      simp only [hpoint] at hmove
      cases hmove
      exact ⟨rfl, fun _ hjoining =>
        Or.inl (joining_of_atStop (by simp) hjoining)⟩
  | _ =>
      simp only [hpoint] at hmove
      split at hmove <;> cases hmove
      exact ⟨rfl, fun _ hjoining =>
        Or.inl (joining_of_atStop (by simp) hjoining)⟩

theorem Quiet.step (hquiet : state.Quiet) {action : Action τ δ}
    (hcaught : state.CaughtUp action) : (state.step action).Quiet := by
  refine ⟨hquiet.locked.step action, fun thread hjoining => ?_⟩
  unfold StopJoin.step at hjoining ⊢
  cases hmove : state.move action with
  | none =>
      rw [hmove] at hjoining
      exact hquiet.toLock thread hjoining
  | some after =>
      rw [hmove, Option.getD_some] at hjoining
      rw [Option.getD_some]
      cases action with
      | stop other =>
          obtain ⟨hconsumer, hspec⟩ := moveStop_spec hmove
          rw [hconsumer]
          rcases hspec thread hjoining with hbefore | ⟨rfl, hpoint⟩
          · exact hquiet.toLock thread hbefore
          · exact hcaught thread rfl hpoint
      | consume throws =>
          rw [moveConsumer_stops hmove] at hjoining
          exact moveConsumer_toLock hmove
            (hquiet.locked.joining thread hjoining)
            (hquiet.toLock thread hjoining)
      | push metrics =>
          cases hmove
          unfold pushed at hjoining ⊢
          split_ifs at hjoining ⊢
          · exact hquiet.toLock thread hjoining
          · exact hquiet.toLock thread hjoining

end Step

theorem Deadlocked.step {state : StopJoin τ δ} (hlocked : state.Locked)
    (hdeadlocked : state.Deadlocked) (action : Action τ δ) :
    (state.step action).Deadlocked := by
  obtain ⟨thread, elem, rest, hjoining, hmutex, hlocking⟩ := hdeadlocked
  unfold StopJoin.step
  cases hmove : state.move action with
  | none => exact ⟨thread, elem, rest, hjoining, hmutex, hlocking⟩
  | some after =>
      rw [Option.getD_some]
      cases action with
      | stop other =>
          simp only [move, moveStop] at hmove
          have hheld := hlocked.stop other
          rw [hmutex] at hheld
          have hother : other ≠ thread := by
            rintro rfl
            simp [hjoining, hlocking] at hmove
          cases hpoint : state.stops other with
          | outside =>
              simp only [hpoint] at hmove
              split_ifs at hmove <;> cases hmove
              · exact ⟨thread, elem, rest, by
                  rw [stops_atStop, if_neg hother.symm]
                  exact hjoining, hmutex, hlocking⟩
              · exact ⟨thread, elem, rest, hjoining, hmutex, hlocking⟩
          | exchanged => simp [hpoint, hmutex] at hmove
          | _ =>
              -- Only one thread is inside the lock.
              have hsame := hheld.mpr (by simp [hpoint])
              simp only [Option.some.injEq, Holder.stop.injEq] at hsame
              exact absurd hsame.symm hother
      | consume throws =>
          simp [move, moveConsumer, hlocking, hmutex] at hmove
      | push metrics =>
          cases hmove
          unfold pushed
          split_ifs
          · exact ⟨thread, elem, rest, hjoining, hmutex, hlocking⟩
          · exact ⟨thread, elem, rest, hjoining, hmutex, hlocking⟩

theorem deadlocked_of_not_caughtUp {state : StopJoin τ δ}
    (hlocked : state.Locked) {action : Action τ δ}
    (hcaught : ¬ state.CaughtUp action) :
    ∃ more, (run StopJoin.step (state.step action) more).Deadlocked := by
  simp only [CaughtUp, not_forall] at hcaught
  obtain ⟨thread, rfl, hpoint, hleft⟩ := hcaught
  have hmutex := (hlocked.stop thread).mpr (Or.inl hpoint)
  have hstep : state.step (.stop thread) =
      { state with queueStopped := true }.atStop thread .joining := by
    simp [StopJoin.step, move, moveStop, hpoint]
  rw [hstep]
  cases hconsumer : state.consumer with
  | locking elem rest =>
      exact ⟨[], thread, elem, rest, by simp, hmutex, rfl⟩
  | locked elem rest =>
      have hheld := hlocked.consumer.mpr ⟨elem, rest, hconsumer⟩
      rw [hmutex] at hheld
      cases hheld
  | counting elem rest =>
      cases rest with
      | nil => exact absurd (by simp [hconsumer, ConsumePoint.toLock]) hleft
      | cons next rest =>
          refine ⟨[.consume false], thread, next, rest, ?_, ?_, ?_⟩
          all_goals
            simp [StopJoin.step, move, moveConsumer, hmutex,
              ConsumePoint.nextMetric]
  | _ => exact absurd (by simp [hconsumer, ConsumePoint.toLock]) hleft

/-- No thread that stops is ever deadlocked with the consumer where each of them
stops the queue after the consumer has caught up; where one does not, the run
goes on to a deadlock that lasts. -/
theorem deadlock_free_iff_caughtUp (queue : List (List δ)) :
    (∀ actions : List (Action τ δ),
      StepsMeet StopJoin.step CaughtUp (start queue) actions →
        Throughout StopJoin.step (fun state => ¬ state.Deadlocked)
          (start queue) actions) ∧
    ∀ (actions : List (Action τ δ)) (action : Action τ δ),
      ¬ (run StopJoin.step (start queue) actions).CaughtUp action →
        ∃ more, ∀ further,
          (run StopJoin.step (start queue)
            (actions ++ action :: more ++ further)).Deadlocked := by
  exact @clear_and_lasting _ _ StopJoin.step CaughtUp Locked Deadlocked Quiet
    (fun _ action hlocked => hlocked.step action)
    (fun _ _ hquiet hcaught => hquiet.step hcaught)
    (fun _ hquiet => hquiet.not_deadlocked)
    (fun _ action hlocked hdeadlocked => hdeadlocked.step hlocked action)
    (fun _ _ hlocked hcaught => deadlocked_of_not_caughtUp hlocked hcaught)
    _ (start_locked queue) ⟨start_locked queue, by simp [start]⟩

/-- Two metrics in one element, and a thread that stops between them. -/
theorem deadlocked_twoMetrics :
    (run StopJoin.step (start [[(), ()]] : StopJoin Unit Unit)
      [.consume false, .consume false, .consume false, .consume false,
        .consume false, .stop (), .stop (), .stop (),
        .consume false]).Deadlocked :=
  ⟨(), (), [], rfl, rfl, rfl⟩

end StopJoin

end Hebpf.Monitor
