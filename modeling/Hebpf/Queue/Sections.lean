import Hebpf.Data.Run
import Mathlib.Logic.Function.Basic

namespace Hebpf

open Hebpf.Data

/-! The bounded queue, each of its critical sections as one step. -/

structure Queue (δ : Type) where
  queue : List δ
  capacity : Nat
  stopped : Bool

namespace Queue

variable {δ : Type}

def mayPush (queue : Queue δ) : Prop :=
  queue.queue.length < queue.capacity ∨ queue.stopped = true

def mayPop (queue : Queue δ) : Prop :=
  queue.queue ≠ [] ∨ queue.stopped = true

instance (queue : Queue δ) : Decidable queue.mayPush :=
  inferInstanceAs (Decidable (_ ∨ _))

instance (queue : Queue δ) : Decidable queue.mayPop :=
  match hqueue : queue.queue with
  | [] => decidable_of_iff (queue.stopped = true) (by simp [mayPop, hqueue])
  | _ :: _ => .isTrue (.inl (by simp [hqueue]))

def push (queue : Queue δ) (value : δ) : Option (Queue δ) :=
  if queue.stopped then none
  else some { queue with queue := queue.queue ++ [value] }

def tryPop (queue : Queue δ) : Option δ × Queue δ :=
  if queue.stopped then (none, queue)
  else
    match queue.queue with
    | [] => (none, queue)
    | value :: rest => (some value, { queue with queue := rest })

def start (queue : Queue δ) : Queue δ := { queue with stopped := false }

def stop (queue : Queue δ) : Queue δ := { queue with stopped := true }

def full (queue : Queue δ) : Bool := queue.capacity ≤ queue.queue.length

/-- Where a thread is.  `room` says of a `push` that the `full` before it was
false, and `waited` of a `tryPop` that it ends a `pop`. -/
inductive Point (δ : Type) where
  | idle
  | pushing (value : δ) (room : Bool)
  | popping
  | taking (waited : Bool)

/-- Threads `θ` around a queue.  `accepted` and `handedOut` are the values that
were pushed and taken so far; `sawStopped` says of a thread that the queue has
been stopped since it called `pop`, and `sawRoom` that `full` was false since it
last called `push`. -/
structure Threads (θ δ : Type) where
  queue : Queue δ
  points : θ → Point δ
  accepted : List δ
  handedOut : List δ
  sawStopped : θ → Bool
  sawRoom : θ → Bool

inductive QueueStep (θ δ : Type) where
  | callPush (thread : θ) (value : δ)
  | push (thread : θ)
  | callPop (thread : θ)
  | wait (thread : θ)
  | callTryPop (thread : θ)
  | take (thread : θ)
  | full (thread : θ)
  | start
  | stop

namespace Threads

variable {θ : Type} [DecidableEq θ]

def start (capacity : Nat) : Threads θ δ where
  queue := ⟨[], capacity, false⟩
  points _ := .idle
  accepted := []
  handedOut := []
  sawStopped _ := false
  sawRoom _ := false

def goTo (state : Threads θ δ) (thread : θ) (point : Point δ) : Threads θ δ :=
  { state with points := Function.update state.points thread point }

def push (state : Threads θ δ) (thread : θ) (value : δ) : Threads θ δ :=
  match state.queue.push value with
  | none => state.goTo thread .idle
  | some queue =>
      { state with
        queue
        accepted := state.accepted ++ [value] }.goTo thread .idle

def take (state : Threads θ δ) (thread : θ) : Threads θ δ :=
  let (value, queue) := state.queue.tryPop
  { state with
    queue
    handedOut := state.handedOut ++ value.toList }.goTo thread .idle

def step (state : Threads θ δ) : QueueStep θ δ → Threads θ δ
  | .callPush thread value =>
      match state.points thread with
      | .idle =>
          { state with
            sawRoom := Function.update state.sawRoom thread false }.goTo thread
              (.pushing value (state.sawRoom thread))
      | _ => state
  | .push thread =>
      match state.points thread with
      | .pushing value _ =>
          if state.queue.mayPush then state.push thread value else state
      | _ => state
  | .callPop thread =>
      match state.points thread with
      | .idle =>
          { state with
            sawStopped := Function.update state.sawStopped thread
              state.queue.stopped }.goTo thread .popping
      | _ => state
  | .wait thread =>
      match state.points thread with
      | .popping =>
          if state.queue.mayPop then state.goTo thread (.taking true)
          else state
      | _ => state
  | .callTryPop thread =>
      match state.points thread with
      | .idle => state.goTo thread (.taking false)
      | _ => state
  | .take thread =>
      match state.points thread with
      | .taking _ => state.take thread
      | _ => state
  | .full thread =>
      match state.points thread with
      | .idle =>
          { state with
            sawRoom := Function.update state.sawRoom thread
              (!state.queue.full) }
      | _ => state
  | .start => { state with queue := state.queue.start }
  | .stop =>
      { state with
        queue := state.queue.stop
        sawStopped := fun _ => true }

variable {state : Threads θ δ} {capacity : Nat}

@[simp] theorem queue_goTo (thread : θ) (point : Point δ) :
    (state.goTo thread point).queue = state.queue := rfl

@[simp] theorem accepted_goTo (thread : θ) (point : Point δ) :
    (state.goTo thread point).accepted = state.accepted := rfl

@[simp] theorem handedOut_goTo (thread : θ) (point : Point δ) :
    (state.goTo thread point).handedOut = state.handedOut := rfl

structure SameValues (state next : Threads θ δ) : Prop where
  queue : next.queue.queue = state.queue.queue
  capacity : next.queue.capacity = state.queue.capacity
  accepted : next.accepted = state.accepted
  handedOut : next.handedOut = state.handedOut

inductive Moves (state : Threads θ δ) : QueueStep θ δ → Threads θ δ → Prop
  | none {input next} (hsame : SameValues state next) : Moves state input next
  | push {thread value room}
      (hpoint : state.points thread = .pushing value room)
      (hroom : state.queue.queue.length < state.queue.capacity) :
      Moves state (.push thread) ({ state with
        queue := { state.queue with queue := state.queue.queue ++ [value] }
        accepted := state.accepted ++ [value] }.goTo thread .idle)
  | take {thread waited value rest}
      (hpoint : state.points thread = .taking waited)
      (hqueue : state.queue.queue = value :: rest) :
      Moves state (.take thread) ({ state with
        queue := { state.queue with queue := rest }
        handedOut := state.handedOut ++ [value] }.goTo thread .idle)

omit [DecidableEq θ] in
theorem sameValues_refl : SameValues state state := ⟨rfl, rfl, rfl, rfl⟩

theorem moves_push (thread : θ) :
    Moves state (.push thread) (state.step (.push thread)) := by
  simp only [step]
  split
  case h_2 => exact .none sameValues_refl
  case h_1 value room hpoint =>
    split_ifs with hmayPush
    · unfold Threads.push Queue.push
      split_ifs with hstopped
      · exact .none ⟨rfl, rfl, rfl, rfl⟩
      · exact .push hpoint (hmayPush.resolve_right hstopped)
    · exact .none sameValues_refl

theorem moves_take (thread : θ) :
    Moves state (.take thread) (state.step (.take thread)) := by
  simp only [step]
  split
  case h_2 => exact .none sameValues_refl
  case h_1 waited hpoint =>
    unfold Threads.take tryPop
    split_ifs with hstopped
    · exact .none ⟨rfl, rfl, rfl, List.append_nil _⟩
    · cases hqueue : state.queue.queue with
      | nil => exact .none ⟨rfl, rfl, rfl, List.append_nil _⟩
      | cons value rest => exact .take hpoint hqueue

theorem moves_step (state : Threads θ δ) (input : QueueStep θ δ) :
    Moves state input (state.step input) := by
  cases input with
  | push thread => exact moves_push thread
  | take thread => exact moves_take thread
  | callPush thread value
  | callPop thread
  | callTryPop thread
  | full thread =>
      refine .none ?_
      simp only [step]
      split <;> exact ⟨rfl, rfl, rfl, rfl⟩
  | wait thread =>
      refine .none ?_
      simp only [step]
      split
      · split_ifs <;> exact ⟨rfl, rfl, rfl, rfl⟩
      · exact sameValues_refl
  | start => exact .none ⟨rfl, rfl, rfl, rfl⟩
  | stop => exact .none ⟨rfl, rfl, rfl, rfl⟩

structure Ordered (capacity : Nat) (state : Threads θ δ) : Prop where
  hcapacity : state.queue.capacity = capacity
  bounded : state.queue.queue.length ≤ capacity
  fifo : state.handedOut ++ state.queue.queue = state.accepted

omit [DecidableEq θ] in
theorem ordered_start (capacity : Nat) :
    (start capacity : Threads θ δ).Ordered capacity :=
  ⟨rfl, Nat.zero_le _, rfl⟩

theorem Ordered.step (hordered : state.Ordered capacity)
    (input : QueueStep θ δ) : (state.step input).Ordered capacity := by
  obtain ⟨hcapacity, hbounded, hfifo⟩ := hordered
  have hmoves := moves_step state input
  generalize state.step input = next at hmoves ⊢
  cases hmoves with
  | none hsame =>
      obtain ⟨hqueue, hsize, haccepted, hhandedOut⟩ := hsame
      constructor
      · rw [hsize, hcapacity]
      · rw [hqueue]
        exact hbounded
      · rw [hqueue, haccepted, hhandedOut, hfifo]
  | push hpoint hroom =>
      refine ⟨hcapacity, ?_, ?_⟩
      · simpa [← hcapacity, Nat.succ_le_iff] using hroom
      · simp [← hfifo]
  | take hpoint hqueue =>
      rw [hqueue] at hbounded hfifo
      refine ⟨hcapacity, Nat.le_of_succ_le hbounded, ?_⟩
      simpa using hfifo

end Threads

end Queue

end Hebpf
