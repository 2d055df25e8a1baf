import Hebpf.Queue.Sections

namespace Hebpf.Queue

open Hebpf.Data

/-! What one consumer and one producer can rely on. -/

variable {θ δ : Type} [DecidableEq θ]

def Point.pops : Point δ → Bool
  | .popping => true
  | .taking _ => true
  | _ => false

def Point.pushes : Point δ → Bool
  | .pushing _ _ => true
  | _ => false

def OnlyConsumer (consumer : θ) : QueueStep θ δ → Prop
  | .callPop thread => thread = consumer
  | .callTryPop thread => thread = consumer
  | _ => True

def OnlyProducer (producer : θ) : QueueStep θ δ → Prop
  | .callPush thread _ => thread = producer
  | _ => True

namespace Threads

variable {state : Threads θ δ} {consumer : θ} {point : Point δ}

/-- A `pop` that has waited finds a value, or the queue has been stopped. -/
structure Consumed (consumer : θ) (state : Threads θ δ) : Prop where
  alone : ∀ thread, (state.points thread).pops = true → thread = consumer
  stopped : state.points consumer = .popping ∨
    state.points consumer = .taking true → state.queue.stopped = true →
      state.sawStopped consumer = true
  values : state.points consumer = .taking true →
    state.queue.queue ≠ [] ∨ state.sawStopped consumer = true

omit [DecidableEq θ] in
theorem consumed_start (capacity : Nat) :
    (start capacity : Threads θ δ).Consumed consumer :=
  ⟨nofun, fun _ => nofun, nofun⟩

theorem pops_goTo {thread other : θ}
    (halone : ∀ thread, (state.points thread).pops = true → thread = consumer)
    (hpoint : point.pops = true → thread = consumer)
    (hpops : ((state.goTo thread point).points other).pops = true) :
    other = consumer := by
  simp only [goTo, Function.update_apply] at hpops
  split_ifs at hpops with heq
  · exact heq.trans (hpoint hpops)
  · exact halone other hpops

theorem Consumed.goTo (hconsumed : state.Consumed consumer) (thread : θ)
    (hpoint : point.pops = false) :
    (state.goTo thread point).Consumed consumer := by
  refine ⟨fun other => pops_goTo hconsumed.alone
    fun hpops => absurd (hpoint.symm.trans hpops) (by decide), ?_, ?_⟩ <;>
    simp only [Threads.goTo, Function.update_apply] <;>
    split_ifs with heq
  · rintro (rfl | rfl) <;> cases hpoint
  · exact hconsumed.stopped
  · rintro rfl
    cases hpoint
  · exact hconsumed.values

theorem Consumed.push (hconsumed : state.Consumed consumer) (thread : θ)
    (value : δ) : (state.push thread value).Consumed consumer := by
  unfold Threads.push Queue.push
  split_ifs with hstopped
  · exact hconsumed.goTo thread rfl
  · have hpushed : Consumed consumer { state with
        queue := { state.queue with queue := state.queue.queue ++ [value] }
        accepted := state.accepted ++ [value] } :=
      ⟨hconsumed.alone, hconsumed.stopped, fun _ => .inl (by simp)⟩
    exact hpushed.goTo thread rfl

theorem Consumed.callPop (hconsumed : state.Consumed consumer) :
    Consumed consumer ({ state with
      sawStopped := Function.update state.sawStopped consumer
        state.queue.stopped }.goTo consumer .popping) := by
  refine ⟨fun other => pops_goTo hconsumed.alone fun _ => rfl, ?_, ?_⟩
  · intro _ hstopped
    simpa [Threads.goTo] using hstopped
  · simp [Threads.goTo]

theorem Consumed.wait (hconsumed : state.Consumed consumer)
    (hpoint : state.points consumer = .popping)
    (hmayPop : state.queue.mayPop) :
    (state.goTo consumer (.taking true)).Consumed consumer := by
  have hstopped := hconsumed.stopped (.inl hpoint)
  refine ⟨fun other => pops_goTo hconsumed.alone fun _ => rfl,
    fun _ => hstopped, fun _ => hmayPop.imp_right hstopped⟩

theorem Consumed.callTryPop (hconsumed : state.Consumed consumer) :
    (state.goTo consumer (.taking false)).Consumed consumer := by
  refine ⟨fun other => pops_goTo hconsumed.alone fun _ => rfl, ?_, ?_⟩ <;>
    simp [Threads.goTo]

theorem Consumed.take (hconsumed : state.Consumed consumer) :
    (state.take consumer).Consumed consumer := by
  unfold Threads.take
  refine ⟨fun other => ?_, ?_, ?_⟩
  · exact pops_goTo hconsumed.alone fun _ => rfl
  · simp [Threads.goTo]
  · simp [Threads.goTo]

theorem Consumed.step (hconsumed : state.Consumed consumer)
    {input : QueueStep θ δ} (honly : OnlyConsumer consumer input) :
    (state.step input).Consumed consumer := by
  cases input with
  | callPush thread value =>
      simp only [Threads.step]
      split
      · have hcalled : Consumed consumer { state with
            sawRoom := Function.update state.sawRoom thread false } :=
          ⟨hconsumed.alone, hconsumed.stopped, hconsumed.values⟩
        exact hcalled.goTo thread rfl
      · exact hconsumed
  | push thread =>
      simp only [Threads.step]
      split
      · split_ifs
        · exact hconsumed.push thread _
        · exact hconsumed
      · exact hconsumed
  | callPop thread =>
      obtain rfl : thread = consumer := honly
      simp only [Threads.step]
      split
      · exact hconsumed.callPop
      · exact hconsumed
  | wait thread =>
      simp only [Threads.step]
      split
      case h_2 => exact hconsumed
      case h_1 hpoint =>
        obtain rfl : thread = consumer :=
          hconsumed.alone thread (by rw [hpoint]; rfl)
        split_ifs with hmayPop
        · exact hconsumed.wait hpoint hmayPop
        · exact hconsumed
  | callTryPop thread =>
      obtain rfl : thread = consumer := honly
      simp only [Threads.step]
      split
      · exact hconsumed.callTryPop
      · exact hconsumed
  | take thread =>
      simp only [Threads.step]
      split
      case h_2 => exact hconsumed
      case h_1 waited hpoint =>
        obtain rfl : thread = consumer :=
          hconsumed.alone thread (by rw [hpoint]; rfl)
        exact hconsumed.take
  | full thread =>
      simp only [Threads.step]
      split
      · exact ⟨hconsumed.alone, hconsumed.stopped, hconsumed.values⟩
      · exact hconsumed
  | start =>
      refine ⟨hconsumed.alone, fun _ hstopped => ?_, hconsumed.values⟩
      exact absurd hstopped Bool.false_ne_true
  | stop => exact ⟨hconsumed.alone, fun _ _ => rfl, fun _ => .inr rfl⟩

omit [DecidableEq θ] in
theorem Consumed.sawStopped (hconsumed : state.Consumed consumer)
    {thread : θ} (hpoint : state.points thread = .taking true)
    (hnothing : state.queue.tryPop.1 = none) :
    state.sawStopped thread = true := by
  obtain rfl : thread = consumer :=
    hconsumed.alone thread (by rw [hpoint]; rfl)
  unfold tryPop at hnothing
  split_ifs at hnothing with hstopped
  · exact hconsumed.stopped (.inr hpoint) hstopped
  · cases hqueue : state.queue.queue with
    | nil => exact (hconsumed.values hpoint).resolve_left (by simp [hqueue])
    | cons value rest => simp [hqueue] at hnothing

/-- Where the producer has seen room, and not used it, there is room. -/
structure Produced (producer : θ) (state : Threads θ δ) : Prop where
  alone : ∀ thread, (state.points thread).pushes = true → thread = producer
  seen : state.sawRoom producer = true →
    state.queue.queue.length < state.queue.capacity
  pushing : ∀ value, state.points producer = .pushing value true →
    state.queue.queue.length < state.queue.capacity
  spent : (state.points producer).pushes = true →
    state.sawRoom producer = false

variable {producer : θ}

omit [DecidableEq θ] in
theorem produced_start (capacity : Nat) :
    (start capacity : Threads θ δ).Produced producer :=
  ⟨nofun, nofun, nofun, nofun⟩

theorem pushes_goTo {thread other : θ}
    (halone : ∀ thread, (state.points thread).pushes = true →
      thread = producer)
    (hpoint : point.pushes = true → thread = producer)
    (hpushes : ((state.goTo thread point).points other).pushes = true) :
    other = producer := by
  simp only [goTo, Function.update_apply] at hpushes
  split_ifs at hpushes with heq
  · exact heq.trans (hpoint hpushes)
  · exact halone other hpushes

theorem Produced.goTo (hproduced : state.Produced producer) (thread : θ)
    (hpoint : point.pushes = false) :
    (state.goTo thread point).Produced producer := by
  refine ⟨fun other => pushes_goTo hproduced.alone
    fun hpushes => absurd (hpoint.symm.trans hpushes) (by decide),
    hproduced.seen, fun value => ?_, ?_⟩ <;>
    simp only [Threads.goTo, Function.update_apply] <;>
    split_ifs with heq
  · rintro rfl
    cases hpoint
  · exact hproduced.pushing value
  · exact fun hpushes => absurd (hpoint.symm.trans hpushes) (by decide)
  · exact hproduced.spent

omit [DecidableEq θ] in
theorem Produced.of_le (hproduced : state.Produced producer)
    {next : Threads θ δ} (hpoints : next.points = state.points)
    (hsawRoom : next.sawRoom = state.sawRoom)
    (hcapacity : next.queue.capacity = state.queue.capacity)
    (hlength : next.queue.queue.length ≤ state.queue.queue.length) :
    next.Produced producer := by
  constructor
  · rw [hpoints]
    exact hproduced.alone
  · rw [hsawRoom, hcapacity]
    exact fun hseen => Nat.lt_of_le_of_lt hlength (hproduced.seen hseen)
  · rw [hpoints, hcapacity]
    exact fun value hpoint =>
      Nat.lt_of_le_of_lt hlength (hproduced.pushing value hpoint)
  · rw [hpoints, hsawRoom]
    exact hproduced.spent

theorem Produced.callPush (hproduced : state.Produced producer) (value : δ) :
    Produced producer ({ state with
      sawRoom := Function.update state.sawRoom producer false }.goTo producer
        (.pushing value (state.sawRoom producer))) := by
  refine ⟨fun other => pushes_goTo hproduced.alone fun _ => rfl, ?_, ?_, ?_⟩
  · simp [Threads.goTo]
  · intro _ hpoint
    have hroom : state.sawRoom producer = true := by
      simp [Threads.goTo] at hpoint
      exact hpoint.2
    exact hproduced.seen hroom
  · simp [Threads.goTo]

theorem Produced.push (hproduced : state.Produced producer) {value : δ}
    {room : Bool} (hpoint : state.points producer = .pushing value room) :
    (state.push producer value).Produced producer := by
  have hspent := hproduced.spent (by rw [hpoint]; rfl)
  unfold Threads.push Queue.push
  split_ifs with hstopped
  · exact hproduced.goTo producer rfl
  · refine ⟨fun other => pushes_goTo hproduced.alone fun _ => rfl, ?_, ?_, ?_⟩
    · intro hseen
      exact absurd (hspent.symm.trans hseen) (by decide)
    · simp [Threads.goTo]
    · exact fun _ => hspent

theorem Produced.take (hproduced : state.Produced producer) (thread : θ) :
    (state.take thread).Produced producer := by
  have hlength : state.queue.tryPop.2.queue.length ≤
      state.queue.queue.length := by
    unfold tryPop
    split_ifs
    · exact Nat.le_refl _
    · split <;> simp_all
  have hcapacity : state.queue.tryPop.2.capacity = state.queue.capacity := by
    unfold tryPop
    split_ifs
    · rfl
    · split <;> rfl
  have htaken : Produced producer { state with
      queue := state.queue.tryPop.2
      handedOut := state.handedOut ++ state.queue.tryPop.1.toList } :=
    hproduced.of_le rfl rfl hcapacity hlength
  exact htaken.goTo thread rfl

theorem Produced.full (hproduced : state.Produced producer) {thread : θ}
    (hpoint : state.points thread = .idle) :
    Produced producer { state with
      sawRoom := Function.update state.sawRoom thread (!state.queue.full) } := by
  refine ⟨hproduced.alone, ?_, hproduced.pushing, ?_⟩ <;>
    simp only [Function.update_apply] <;>
    split_ifs with heq
  · simp [Queue.full]
  · exact hproduced.seen
  · intro hpushes
    rw [heq, hpoint] at hpushes
    cases hpushes
  · exact hproduced.spent

theorem Produced.step (hproduced : state.Produced producer)
    {input : QueueStep θ δ} (honly : OnlyProducer producer input) :
    (state.step input).Produced producer := by
  cases input with
  | callPush thread value =>
      obtain rfl : thread = producer := honly
      simp only [Threads.step]
      split
      · exact hproduced.callPush value
      · exact hproduced
  | push thread =>
      simp only [Threads.step]
      split
      case h_2 => exact hproduced
      case h_1 value room hpoint =>
        obtain rfl : thread = producer :=
          hproduced.alone thread (by rw [hpoint]; rfl)
        split_ifs
        · exact hproduced.push hpoint
        · exact hproduced
  | callPop thread =>
      simp only [Threads.step]
      split
      · have hcalled : Produced producer { state with
            sawStopped := Function.update state.sawStopped thread
              state.queue.stopped } := hproduced.of_le rfl rfl rfl (Nat.le_refl _)
        exact hcalled.goTo thread rfl
      · exact hproduced
  | wait thread =>
      simp only [Threads.step]
      split
      · split_ifs
        · exact hproduced.goTo thread rfl
        · exact hproduced
      · exact hproduced
  | callTryPop thread =>
      simp only [Threads.step]
      split
      · exact hproduced.goTo thread rfl
      · exact hproduced
  | take thread =>
      simp only [Threads.step]
      split
      · exact hproduced.take thread
      · exact hproduced
  | full thread =>
      simp only [Threads.step]
      split
      case h_1 hpoint => exact hproduced.full hpoint
      case h_2 => exact hproduced
  | start => exact hproduced.of_le rfl rfl rfl (Nat.le_refl _)
  | stop => exact hproduced.of_le rfl rfl rfl (Nat.le_refl _)

/-- Threads around a queue that begins empty, after any of their steps: the
bound, the order, and what one consumer and one producer rely on. -/
theorem queue_laws (capacity : Nat) (inputs : List (QueueStep θ δ)) :
    let state := run step (start capacity) inputs
    state.queue.queue.length ≤ capacity ∧
    state.handedOut ++ state.queue.queue = state.accepted ∧
    (∀ consumer, (∀ input ∈ inputs, OnlyConsumer consumer input) →
      ∀ thread, state.points thread = .taking true →
        state.queue.tryPop.1 = none → state.sawStopped thread = true) ∧
    ∀ producer, (∀ input ∈ inputs, OnlyProducer producer input) →
      ∀ thread value, state.points thread = .pushing value true →
        state.queue.mayPush := by
  intro state
  have hordered : state.Ordered capacity :=
    invariant_run (fun _ input hordered => hordered.step input)
      (ordered_start capacity) inputs
  refine ⟨hordered.bounded, hordered.fifo, fun consumer honly thread => ?_,
    fun producer honly thread value hpoint => ?_⟩
  · have hconsumed : state.Consumed consumer :=
      (throughout_of_stepsMeet
        (fun _ _ hconsumed honly => hconsumed.step honly)
        (consumed_start capacity) (stepsMeet_of_forall honly)).last
    exact hconsumed.sawStopped
  · have hproduced : state.Produced producer :=
      (throughout_of_stepsMeet
        (fun _ _ hproduced honly => hproduced.step honly)
        (produced_start capacity) (stepsMeet_of_forall honly)).last
    obtain rfl : thread = producer :=
      hproduced.alone thread (by rw [hpoint]; rfl)
    exact .inl (hproduced.pushing value hpoint)

end Threads

end Hebpf.Queue
