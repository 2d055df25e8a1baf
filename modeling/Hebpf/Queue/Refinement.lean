import Hebpf.Data.Simulation
import Hebpf.Queue.Waiting

namespace Hebpf.Queue

open Hebpf.Data

/-! The queue with its mutex and its condition variables hands out what the
queue of atomic sections does. -/

inductive Phase (δ : Type) where
  | idle
  | push (value : δ)
  | wait
  | take

variable {θ δ : Type}

def WaitCall.phase : WaitCall δ → Phase δ
  | push value => .push value
  | pop => .wait

def WaitPoint.phase : WaitPoint δ → Phase δ
  | idle => .idle
  | locking call => call.phase
  | testing call => call.phase
  | window call => call.phase
  | pushing value => .push value
  | lockingTake => .take
  | taking => .take
  | notifying _ => .idle

namespace Point

def phase : Point δ → Phase δ
  | idle => .idle
  | pushing value _ => .push value
  | popping => .wait
  | taking _ => .take

variable {point : Point δ}

theorem phase_eq_idle (hphase : Phase.idle = point.phase) : point = .idle := by
  cases point <;> simp [phase] at hphase ⊢

theorem phase_eq_push {value : δ} (hphase : Phase.push value = point.phase) :
    ∃ room, point = .pushing value room := by
  cases point <;> simp [phase] at hphase ⊢
  exact hphase.symm

theorem phase_eq_wait (hphase : Phase.wait = point.phase) :
    point = .popping := by
  cases point <;> simp [phase] at hphase ⊢

theorem phase_eq_take (hphase : Phase.take = point.phase) :
    ∃ waited, point = .taking waited := by
  cases point <;> simp [phase] at hphase ⊢

end Point

inductive Traffic where
  | accepted
  | handedOut

theorem push_of_stopped {queue : Queue δ} (hstopped : queue.stopped = true)
    (value : δ) : queue.push value = none :=
  if_pos hstopped

theorem push_of_running {queue : Queue δ} (hrunning : queue.stopped = false)
    (value : δ) :
    queue.push value = some { queue with queue := queue.queue ++ [value] } :=
  if_neg (by rw [hrunning]; decide)

theorem tryPop_of_none {queue after : Queue δ}
    (htry : queue.tryPop = (none, after)) : after = queue := by
  unfold tryPop at htry
  split_ifs at htry with hstopped
  · exact (Prod.ext_iff.mp htry).2.symm
  · cases hqueue : queue.queue with
    | nil =>
        rw [hqueue] at htry
        exact (Prod.ext_iff.mp htry).2.symm
    | cons value rest =>
        rw [hqueue] at htry
        cases htry

namespace Threads

def traffic : Traffic → Threads θ δ → List δ
  | .accepted, sections => sections.accepted
  | .handedOut, sections => sections.handedOut

end Threads

namespace Waiting

variable [DecidableEq θ]

def traffic : Traffic → Waiting θ δ → WaitStep θ δ → List δ
  | .accepted, state, .finish thread =>
      match state.points thread with
      | .pushing value => if state.queue.stopped then [] else [value]
      | _ => []
  | .handedOut, state, .finish thread =>
      match state.points thread with
      | .taking => state.queue.tryPop.1.toList
      | _ => []
  | _, _, _ => []

/-- The threads are in the same calls around the same queue.  Who is behind the
test of `push` may push. -/
structure Explains (state : Waiting θ δ) (sections : Threads θ δ) :
    Prop where
  sound : state.Sound
  queue : sections.queue = state.queue
  phases : ∀ thread,
    (state.points thread).phase = (sections.points thread).phase
  mayPush : ∀ thread value, state.points thread = .pushing value →
    state.queue.mayPush

variable {state after : Waiting θ δ} {sections : Threads θ δ} {thread : θ}
  {point : WaitPoint δ}

theorem exists_go (hlock : (state.points thread).lock = some .mutex)
    (point : WaitPoint δ) : ∃ after, state.go thread point = some after := by
  unfold go passLock
  rw [hlock]
  cases point.lock with
  | none => exact ⟨_, rfl⟩
  | some lock => exact ⟨_, rfl⟩

theorem phases_update {left : θ → WaitPoint δ} {right : θ → Point δ}
    (hphases : ∀ thread, (left thread).phase = (right thread).phase)
    (thread : θ) {point : WaitPoint δ} {other : Point δ}
    (hphase : point.phase = other.phase) (another : θ) :
    (Function.update left thread point another).phase =
      (Function.update right thread other another).phase := by
  simp only [Function.update_apply]
  split_ifs
  · exact hphase
  · exact hphases another

theorem Explains.go (hexplains : state.Explains sections)
    (hsound : after.Sound) (hgo : state.go thread point = some after)
    {next : Threads θ δ} (hqueue : next.queue = sections.queue)
    {other : Point δ}
    (hpoints : next.points = Function.update sections.points thread other)
    (hphase : point.phase = other.phase)
    (hmayPush : ∀ value, point = .pushing value → state.queue.mayPush) :
    after.Explains next := by
  obtain ⟨owner, hpass, rfl⟩ := go_eq_some.mp hgo
  refine ⟨hsound, hqueue.trans hexplains.queue, ?_, ?_⟩
  · intro another
    rw [hpoints]
    exact phases_update hexplains.phases thread hphase another
  · intro another value hpoint
    simp only [arrive, Function.update_apply] at hpoint
    split_ifs at hpoint
    · exact hmayPush value hpoint
    · exact hexplains.mayPush another value hpoint

theorem Explains.goOn (hexplains : state.Explains sections)
    (hsound : after.Sound) (hgo : state.go thread point = some after)
    (hphase : point.phase = (state.points thread).phase)
    (hmayPush : ∀ value, point = .pushing value → state.queue.mayPush) :
    after.Explains sections := by
  refine hexplains.go hsound hgo rfl (Function.update_eq_self thread _).symm
    ?_ hmayPush
  rw [hphase, hexplains.phases]

theorem Explains.change (hexplains : state.Explains sections)
    (hlock : (state.points thread).lock = some .mutex)
    (hsound : after.Sound) {queue : Queue δ}
    (hgo : { state with queue }.go thread point = some after)
    {next : Threads θ δ} (hqueue : next.queue = queue)
    (hpoints : next.points = Function.update sections.points thread .idle)
    (hphase : point.phase = .idle) : after.Explains next := by
  obtain ⟨owner, hpass, rfl⟩ := go_eq_some.mp hgo
  refine ⟨hsound, hqueue, ?_, ?_⟩
  · intro another
    rw [hpoints]
    exact phases_update hexplains.phases thread hphase another
  · intro another value hpoint
    simp only [arrive, Function.update_apply] at hpoint
    split_ifs at hpoint with heq
    · rw [hpoint] at hphase
      cases hphase
    · have hother : (state.points another).lock = some .mutex := by
        rw [hpoint]
        rfl
      exact absurd (hexplains.sound.owned.unique hother hlock) heq

def Matched (state : Waiting θ δ) (sections : Threads θ δ)
    (input : WaitStep θ δ) : Prop :=
  ∃ calls, (state.step input).Explains (run Threads.step sections calls) ∧
    ∀ kind, (run Threads.step sections calls).traffic kind =
      sections.traffic kind ++ traffic kind state input

variable {input : WaitStep θ δ}

theorem Matched.none (hexplains : (state.step input).Explains sections)
    (hquiet : ∀ kind, traffic kind state input = []) :
    state.Matched sections input :=
  ⟨[], hexplains, fun kind => by rw [hquiet, List.append_nil]; rfl⟩

theorem Matched.one (call : QueueStep θ δ)
    (hexplains : (state.step input).Explains (sections.step call))
    (haccepted : (sections.step call).accepted =
      sections.accepted ++ traffic .accepted state input)
    (hhandedOut : (sections.step call).handedOut =
      sections.handedOut ++ traffic .handedOut state input) :
    state.Matched sections input := by
  refine ⟨[call], hexplains, fun kind => ?_⟩
  cases kind with
  | accepted => exact haccepted
  | handedOut => exact hhandedOut

theorem Explains.matched_push (hexplains : state.Explains sections)
    {value : δ} (hpoint : state.points thread = .pushing value) :
    state.Matched sections (.finish thread) := by
  have hsound := hexplains.sound.step (.finish thread)
  have hlock : (state.points thread).lock = some .mutex := by
    rw [hpoint]
    rfl
  have hphase := hexplains.phases thread
  rw [hpoint] at hphase
  obtain ⟨room, hsection⟩ := Point.phase_eq_push hphase
  have hmayPush := hexplains.mayPush thread value hpoint
  rw [← hexplains.queue] at hmayPush
  have hcall : sections.step (.push thread) = sections.push thread value := by
    simp only [Threads.step, hsection, if_pos hmayPush]
  cases hstopped : state.queue.stopped with
  | true =>
      have hpush := push_of_stopped hstopped value
      obtain ⟨after, hgo⟩ := exists_go hlock .idle
      have hstep : state.step (.finish thread) = after := by
        simp only [Waiting.step, move, finish, hpoint, hpush, hgo,
          Option.getD_some]
      have hdrop : sections.push thread value =
          sections.goTo thread .idle := by
        simp only [Threads.push, hexplains.queue, hpush]
      refine .one (.push thread) ?_ ?_ ?_
      · rw [hcall, hdrop, hstep]
        exact hexplains.go (hstep ▸ hsound) hgo rfl rfl rfl (by simp)
      · simp only [hcall, hdrop, traffic, hpoint, hstopped, if_true,
          List.append_nil, Threads.accepted_goTo]
      · simp only [hcall, hdrop, traffic, List.append_nil,
          Threads.handedOut_goTo, hpoint]
  | false =>
      have hpush := push_of_running hstopped value
      obtain ⟨after, hgo⟩ := @exists_go θ δ _ { state with
        queue := { state.queue with queue := state.queue.queue ++ [value] } }
        thread hlock (.notifying .notEmpty)
      have hstep : state.step (.finish thread) = after := by
        simp only [Waiting.step, move, finish, hpoint, hpush, hgo,
          Option.getD_some]
      have hadd : sections.push thread value = { sections with
          queue := { state.queue with queue := state.queue.queue ++ [value] }
          accepted := sections.accepted ++ [value] }.goTo thread .idle := by
        simp only [Threads.push, hexplains.queue, hpush]
      refine .one (.push thread) ?_ ?_ ?_
      · rw [hcall, hadd, hstep]
        exact hexplains.change hlock (hstep ▸ hsound) hgo rfl rfl rfl
      · simp only [hcall, hadd, traffic, hpoint, hstopped,
          Bool.false_eq_true, if_false, Threads.accepted_goTo]
      · simp only [hcall, hadd, traffic, List.append_nil,
          Threads.handedOut_goTo, hpoint]

theorem Explains.matched_take (hexplains : state.Explains sections)
    (hpoint : state.points thread = .taking) :
    state.Matched sections (.finish thread) := by
  have hsound := hexplains.sound.step (.finish thread)
  have hlock : (state.points thread).lock = some .mutex := by
    rw [hpoint]
    rfl
  have hphase := hexplains.phases thread
  rw [hpoint] at hphase
  obtain ⟨waited, hsection⟩ := Point.phase_eq_take hphase
  have hcall : sections.step (.take thread) = sections.take thread := by
    simp only [Threads.step, hsection]
  cases htry : state.queue.tryPop with
  | mk value queue =>
      have htake : sections.take thread = { sections with
          queue
          handedOut := sections.handedOut ++ value.toList }.goTo thread
            .idle := by
        simp only [Threads.take, hexplains.queue, htry]
      cases value with
      | none =>
          have hsame := tryPop_of_none htry
          obtain ⟨after, hgo⟩ := exists_go hlock .idle
          have hstep : state.step (.finish thread) = after := by
            simp only [Waiting.step, move, finish, hpoint, htry, hgo,
              Option.getD_some]
          refine .one (.take thread) ?_ ?_ ?_
          · rw [hcall, htake, hstep]
            exact hexplains.go (hstep ▸ hsound) hgo
              (hsame.trans hexplains.queue.symm) rfl rfl (by simp)
          · simp only [hcall, htake, traffic, hpoint, List.append_nil,
              Threads.accepted_goTo]
          · simp only [hcall, htake, traffic, hpoint, htry,
              Threads.handedOut_goTo]
      | some value =>
          obtain ⟨after, hgo⟩ := @exists_go θ δ _ { state with queue } thread
            hlock (.notifying .notFull)
          have hstep : state.step (.finish thread) = after := by
            simp only [Waiting.step, move, finish, hpoint, htry, hgo,
              Option.getD_some]
          refine .one (.take thread) ?_ ?_ ?_
          · rw [hcall, htake, hstep]
            exact hexplains.change hlock (hstep ▸ hsound) hgo rfl rfl rfl
          · simp only [hcall, htake, traffic, hpoint, List.append_nil,
              Threads.accepted_goTo]
          · simp only [hcall, htake, traffic, hpoint, htry,
              Threads.handedOut_goTo]

omit [DecidableEq θ] in
theorem traffic_eq_nil (hinput : ∀ thread, input ≠ .finish thread)
    (kind : Traffic) : traffic kind state input = [] := by
  cases input with
  | finish thread => exact absurd rfl (hinput thread)
  | callPush | callPop | callTryPop | lock | test | block | notify | stop =>
      cases kind <;> rfl

theorem Explains.matched_none (hexplains : state.Explains sections)
    (hmove : state.move input = none)
    (hquiet : ∀ kind, traffic kind state input = []) :
    state.Matched sections input := by
  refine .none ?_ hquiet
  rw [Waiting.step, hmove]
  exact hexplains

theorem Explains.matched_within {waited : Waiting θ δ}
    (hexplains : waited.Explains sections) (hsound : state.Sound)
    (hmove : state.move input = some after)
    (hgo : waited.go thread point = some after)
    (hphase : point.phase = (waited.points thread).phase)
    (hmayPush : ∀ value, point = .pushing value → waited.queue.mayPush)
    (hquiet : ∀ kind, traffic kind state input = []) :
    state.Matched sections input := by
  have hnext := hsound.step input
  have hstep : state.step input = after := by
    rw [Waiting.step, hmove, Option.getD_some]
  refine .none ?_ hquiet
  rw [hstep] at hnext ⊢
  exact hexplains.goOn hnext hgo hphase hmayPush

theorem Explains.matched_section (hexplains : state.Explains sections)
    (hmove : state.move input = some after)
    (hgo : state.go thread point = some after) (call : QueueStep θ δ)
    {room stopped : θ → Bool} {other : Point δ}
    (hcall : sections.step call = { sections with
      sawRoom := room, sawStopped := stopped }.goTo thread other)
    (hphase : point.phase = other.phase)
    (hmayPush : ∀ value, point = .pushing value → state.queue.mayPush)
    (hquiet : ∀ kind, traffic kind state input = []) :
    state.Matched sections input := by
  have hsound := hexplains.sound.step input
  have hstep : state.step input = after := by
    rw [Waiting.step, hmove, Option.getD_some]
  refine .one call ?_ ?_ ?_
  · rw [hstep] at hsound ⊢
    rw [hcall]
    exact hexplains.go hsound hgo rfl rfl hphase hmayPush
  · rw [hcall, hquiet, List.append_nil]
    rfl
  · rw [hcall, hquiet, List.append_nil]
    rfl

theorem Explains.matched_call (hexplains : state.Explains sections)
    (hmove : ∀ after, state.move input = some after →
      state.points thread = .idle ∧ state.go thread point = some after)
    (call : QueueStep θ δ) {room stopped : θ → Bool} {other : Point δ}
    (hcall : sections.points thread = .idle →
      sections.step call = { sections with
        sawRoom := room, sawStopped := stopped }.goTo thread other)
    (hphase : point.phase = other.phase)
    (hpushing : ∀ value, point ≠ .pushing value)
    (hquiet : ∀ kind, traffic kind state input = []) :
    state.Matched sections input := by
  cases hafter : state.move input with
  | none => exact hexplains.matched_none hafter hquiet
  | some after =>
      obtain ⟨hpoint, hgo⟩ := hmove after hafter
      have hidle := hexplains.phases thread
      rw [hpoint] at hidle
      exact hexplains.matched_section hafter hgo call
        (hcall (Point.phase_eq_idle hidle)) hphase
        (fun value hvalue => absurd hvalue (hpushing value)) hquiet

theorem Explains.matched_callPush (hexplains : state.Explains sections)
    (thread : θ) (value : δ) :
    state.Matched sections (.callPush thread value) := by
  have hcall : sections.points thread = .idle →
      sections.step (.callPush thread value) = { sections with
        sawRoom := Function.update sections.sawRoom thread false
        sawStopped := sections.sawStopped }.goTo thread
          (.pushing value (sections.sawRoom thread)) := by
    intro hidle
    simp only [Threads.step, hidle]
  refine hexplains.matched_call ?_ _ hcall
    (Eq.refl (WaitPoint.locking (.push value)).phase) (by simp)
    (traffic_eq_nil (by simp))
  intro after hmove
  simp only [move] at hmove
  split at hmove
  case h_1 hpoint => exact ⟨hpoint, hmove⟩
  case h_2 => cases hmove

theorem Explains.matched_callPop (hexplains : state.Explains sections)
    (thread : θ) :
    state.Matched sections (.callPop thread) := by
  have hcall : sections.points thread = .idle →
      sections.step (.callPop thread) = { sections with
        sawRoom := sections.sawRoom
        sawStopped := Function.update sections.sawStopped thread
          sections.queue.stopped }.goTo thread
          .popping := by
    intro hidle
    simp only [Threads.step, hidle]
  refine hexplains.matched_call ?_ _ hcall
    (Eq.refl (WaitPoint.locking (.pop : WaitCall δ)).phase) (by simp)
    (traffic_eq_nil (by simp))
  intro after hmove
  simp only [move] at hmove
  split at hmove
  case h_1 hpoint => exact ⟨hpoint, hmove⟩
  case h_2 => cases hmove

theorem Explains.matched_callTryPop (hexplains : state.Explains sections)
    (thread : θ) :
    state.Matched sections (.callTryPop thread) := by
  have hcall : sections.points thread = .idle →
      sections.step (.callTryPop thread) = { sections with
        sawRoom := sections.sawRoom
        sawStopped := sections.sawStopped }.goTo thread
          (.taking false) := by
    intro hidle
    simp only [Threads.step, hidle]
  refine hexplains.matched_call ?_ _ hcall
    (Eq.refl (WaitPoint.lockingTake : WaitPoint δ).phase) (by simp)
    (traffic_eq_nil (by simp))
  intro after hmove
  simp only [move] at hmove
  split at hmove
  case h_1 hpoint => exact ⟨hpoint, hmove⟩
  case h_2 => cases hmove

theorem Explains.matched_lock (hexplains : state.Explains sections)
    (thread : θ) : state.Matched sections (.lock thread) := by
  have hquiet := @traffic_eq_nil _ _ state (.lock thread) (by simp)
  cases hmove : state.move (.lock thread) with
  | none => exact hexplains.matched_none hmove hquiet
  | some after =>
      have hgo := hmove
      simp only [move] at hgo
      split at hgo
      case h_1 call hpoint =>
        split_ifs at hgo
        exact hexplains.matched_within hexplains.sound hmove hgo
          (by rw [hpoint]; rfl) (by simp) hquiet
      case h_2 hpoint =>
        exact hexplains.matched_within hexplains.sound hmove hgo
          (by rw [hpoint]; rfl) (by simp) hquiet
      case h_3 => cases hgo

theorem Explains.matched_test (hexplains : state.Explains sections)
    (thread : θ) : state.Matched sections (.test thread) := by
  have hquiet := @traffic_eq_nil _ _ state (.test thread) (by simp)
  cases hmove : state.move (.test thread) with
  | none => exact hexplains.matched_none hmove hquiet
  | some after =>
      have hgo := hmove
      simp only [move] at hgo
      split at hgo
      case h_2 => cases hgo
      case h_1 call hpoint =>
        split_ifs at hgo with hready
        · cases call with
          | push value =>
              exact hexplains.matched_within hexplains.sound hmove hgo
                (by rw [hpoint]; rfl) (fun _ _ => hready) hquiet
          | pop =>
              have hphase := hexplains.phases thread
              rw [hpoint] at hphase
              have hsection := Point.phase_eq_wait hphase
              have hmayPop : sections.queue.mayPop := hexplains.queue ▸ hready
              have hcall : sections.step (.wait thread) = { sections with
                  sawRoom := sections.sawRoom
                  sawStopped := sections.sawStopped }.goTo thread
                    (.taking true) := by
                simp only [Threads.step, hsection, if_pos hmayPop]
              have hlocks : state.go thread .lockingTake = some after := hgo
              exact hexplains.matched_section hmove hlocks _ hcall rfl
                (by simp) hquiet
        · exact hexplains.matched_within hexplains.sound hmove hgo
            (by rw [hpoint]; rfl) (by simp) hquiet

omit [DecidableEq θ] in
theorem Explains.of_waiters (hexplains : state.Explains sections)
    {waiters : CondVar → List θ} {stopPoint : StopPoint}
    (hstopped : stopPoint ≠ .uncalled → state.queue.stopped = true) :
    { state with waiters, stopPoint }.Explains sections :=
  ⟨⟨hexplains.sound.owned, hstopped⟩, hexplains.queue, hexplains.phases,
    hexplains.mayPush⟩

omit [DecidableEq θ] in
theorem Explains.wait (hexplains : state.Explains sections) (cond : CondVar)
    (threads : List θ) : (state.wait cond threads).Explains sections :=
  hexplains.of_waiters hexplains.sound.stopped

theorem Explains.matched_block (hexplains : state.Explains sections)
    (thread : θ) : state.Matched sections (.block thread) := by
  have hquiet := @traffic_eq_nil _ _ state (.block thread) (by simp)
  cases hmove : state.move (.block thread) with
  | none => exact hexplains.matched_none hmove hquiet
  | some after =>
      have hgo := hmove
      simp only [move] at hgo
      split at hgo
      case h_2 => cases hgo
      case h_1 call hpoint =>
        exact (hexplains.wait _ _).matched_within hexplains.sound hmove hgo
          (by simp only [Waiting.wait, hpoint]; rfl) (by simp) hquiet

theorem Explains.matched_notify (hexplains : state.Explains sections)
    (thread woken : θ) : state.Matched sections (.notify thread woken) := by
  have hquiet := @traffic_eq_nil _ _ state (.notify thread woken) (by simp)
  cases hmove : state.move (.notify thread woken) with
  | none => exact hexplains.matched_none hmove hquiet
  | some after =>
      have hgo := hmove
      simp only [move] at hgo
      split at hgo
      case h_2 => cases hgo
      case h_1 cond hpoint =>
        obtain ⟨notified, hnotify, hgo⟩ := Option.bind_eq_some_iff.mp hgo
        unfold notifyOne at hnotify
        split_ifs at hnotify
        · cases hnotify
          exact hexplains.matched_within hexplains.sound hmove hgo
            (by rw [hpoint]; rfl) (by simp) hquiet
        · cases hnotify
          exact (hexplains.wait _ _).matched_within hexplains.sound hmove hgo
            (by simp only [Waiting.wait, hpoint]; rfl) (by simp) hquiet

theorem Explains.matched_stop (hexplains : state.Explains sections) :
    state.Matched sections .stop := by
  have hquiet := @traffic_eq_nil _ _ state .stop (by simp)
  have hsound := hexplains.sound.step .stop
  cases hstop : state.stopPoint with
  | uncalled =>
      refine .one .stop ?_ ?_ ?_
      · simp only [Waiting.step, move, Waiting.stop, hstop, Option.getD_some]
          at hsound ⊢
        exact ⟨hsound, congrArg Queue.stop hexplains.queue, hexplains.phases,
          fun _ _ _ => .inr rfl⟩
      · rw [hquiet, List.append_nil]
        rfl
      · rw [hquiet, List.append_nil]
        rfl
  | stored | notifiedNotEmpty | returned =>
      refine .none ?_ hquiet
      have hstopped := hexplains.sound.stopped (by rw [hstop]; decide)
      simp only [Waiting.step, move, Waiting.stop, hstop, Option.getD_some]
      first
      | exact hexplains
      | exact hexplains.of_waiters fun _ => hstopped

theorem Explains.matched (hexplains : state.Explains sections)
    (input : WaitStep θ δ) : state.Matched sections input := by
  cases input with
  | callPush thread value => exact hexplains.matched_callPush thread value
  | callPop thread => exact hexplains.matched_callPop thread
  | callTryPop thread => exact hexplains.matched_callTryPop thread
  | lock thread => exact hexplains.matched_lock thread
  | test thread => exact hexplains.matched_test thread
  | block thread => exact hexplains.matched_block thread
  | notify thread woken => exact hexplains.matched_notify thread woken
  | stop => exact hexplains.matched_stop
  | finish thread =>
      cases hpoint : state.points thread with
      | pushing value => exact hexplains.matched_push hpoint
      | taking => exact hexplains.matched_take hpoint
      | idle | locking | testing | window | lockingTake | notifying =>
          refine hexplains.matched_none ?_ fun kind => ?_
          · simp only [move, finish, hpoint]
          · cases kind <;> simp only [traffic, hpoint]

omit [DecidableEq θ] in
theorem explains_start (capacity : Nat) :
    (start [] capacity : Waiting θ δ).Explains (.start capacity) :=
  ⟨sound_start [] capacity, rfl, fun _ => rfl, nofun⟩

/-- A step, or a thread that comes out of its wait without a notification. -/
inductive WakeStep (θ δ : Type) where
  | step (input : WaitStep θ δ)
  | wakeUp (thread : θ) (cond : CondVar)

def stepOrWake (state : Waiting θ δ) : WakeStep θ δ → Waiting θ δ
  | .step input => state.step input
  | .wakeUp thread cond =>
      state.wait cond ((state.waiters cond).erase thread)

def wakeTraffic (kind : Traffic) (state : Waiting θ δ) :
    WakeStep θ δ → List δ
  | .step input => traffic kind state input
  | .wakeUp _ _ => []

theorem Explains.stepOrWake (hexplains : state.Explains sections)
    (input : WakeStep θ δ) :
    ∃ calls,
      (state.stepOrWake input).Explains (run Threads.step sections calls) ∧
      ∀ kind, (run Threads.step sections calls).traffic kind =
        sections.traffic kind ++ wakeTraffic kind state input := by
  cases input with
  | step input => exact hexplains.matched input
  | wakeUp thread cond =>
      refine ⟨[], hexplains.wait cond _, fun kind => ?_⟩
      exact (List.append_nil _).symm

end Waiting

end Hebpf.Queue
