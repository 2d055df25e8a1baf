import Hebpf.Data.Locks
import Hebpf.Queue.Sections

namespace Hebpf.Queue

open Hebpf.Data

/-! The critical sections of the queue in steps, and the condition variables
its threads wait for. -/

inductive Mutex where
  | mutex
  deriving DecidableEq

inductive CondVar where
  | notEmpty
  | notFull
  deriving DecidableEq

inductive WaitCall (δ : Type) where
  | push (value : δ)
  | pop

/-- In the `window` the thread has found that it has to wait. -/
inductive WaitPoint (δ : Type) where
  | idle
  | locking (call : WaitCall δ)
  | testing (call : WaitCall δ)
  | window (call : WaitCall δ)
  | pushing (value : δ)
  | lockingTake
  | taking
  | notifying (cond : CondVar)

inductive StopPoint where
  | uncalled
  | stored
  | notifiedNotEmpty
  | returned
  deriving DecidableEq

/-- `waiters` are the threads that are blocked. -/
structure Waiting (θ δ : Type) where
  queue : Queue δ
  owner : Mutex → Option θ
  points : θ → WaitPoint δ
  waiters : CondVar → List θ
  stopPoint : StopPoint

/-- `callPush` to `callTryPop` begin a call, and `woken` is the thread that a
`notify_one` wakes, if any is blocked. -/
inductive WaitStep (θ δ : Type) where
  | callPush (thread : θ) (value : δ)
  | callPop (thread : θ)
  | callTryPop (thread : θ)
  | lock (thread : θ)
  | test (thread : θ)
  | block (thread : θ)
  | finish (thread : θ)
  | notify (thread woken : θ)
  | stop

namespace WaitCall

variable {δ : Type}

def cond : WaitCall δ → CondVar
  | push _ => .notFull
  | pop => .notEmpty

def ready (queue : Queue δ) : WaitCall δ → Prop
  | push _ => queue.mayPush
  | pop => queue.mayPop

instance (queue : Queue δ) (call : WaitCall δ) : Decidable (call.ready queue) :=
  match call with
  | push _ => inferInstanceAs (Decidable queue.mayPush)
  | pop => inferInstanceAs (Decidable queue.mayPop)

def past : WaitCall δ → WaitPoint δ
  | push value => .pushing value
  | pop => .lockingTake

end WaitCall

def WaitPoint.lock {δ : Type} : WaitPoint δ → Option Mutex
  | testing _ => some .mutex
  | window _ => some .mutex
  | pushing _ => some .mutex
  | taking => some .mutex
  | notifying _ => some .mutex
  | _ => none

namespace StopPoint

def notifies : StopPoint → Option CondVar
  | stored => some .notEmpty
  | notifiedNotEmpty => some .notFull
  | _ => none

def notified : StopPoint → CondVar → Bool
  | notifiedNotEmpty, .notEmpty => true
  | returned, _ => true
  | _, _ => false

end StopPoint

namespace Waiting

variable {θ δ : Type} [DecidableEq θ]

def start (values : List δ) (capacity : Nat) : Waiting θ δ where
  queue := ⟨values, capacity, false⟩
  owner _ := none
  points _ := .idle
  waiters _ := []
  stopPoint := .uncalled

def arrive (state : Waiting θ δ) (thread : θ) (point : WaitPoint δ)
    (owner : Mutex → Option θ) : Waiting θ δ :=
  { state with owner, points := Function.update state.points thread point }

def go (state : Waiting θ δ) (thread : θ) (point : WaitPoint δ) :
    Option (Waiting θ δ) :=
  (passLock state.owner thread (state.points thread).lock point.lock).map
    (state.arrive thread point)

def wait (state : Waiting θ δ) (cond : CondVar) (threads : List θ) :
    Waiting θ δ :=
  { state with waiters := Function.update state.waiters cond threads }

def notifyOne (state : Waiting θ δ) (cond : CondVar) (woken : θ) :
    Option (Waiting θ δ) :=
  if state.waiters cond = [] then some state
  else if woken ∈ state.waiters cond then
    some (state.wait cond ((state.waiters cond).erase woken))
  else none

def notifyAll (state : Waiting θ δ) (cond : CondVar) : Waiting θ δ :=
  state.wait cond []

def finish (state : Waiting θ δ) (thread : θ) : Option (Waiting θ δ) :=
  match state.points thread with
  | .pushing value =>
      match state.queue.push value with
      | none => state.go thread .idle
      | some queue => { state with queue }.go thread (.notifying .notEmpty)
  | .taking =>
      match state.queue.tryPop with
      | (none, _) => state.go thread .idle
      | (some _, queue) => { state with queue }.go thread (.notifying .notFull)
  | _ => none

def stop (state : Waiting θ δ) : Waiting θ δ :=
  match state.stopPoint with
  | .uncalled =>
      { state with queue := state.queue.stop, stopPoint := .stored }
  | .stored =>
      { state.notifyAll .notEmpty with stopPoint := .notifiedNotEmpty }
  | .notifiedNotEmpty =>
      { state.notifyAll .notFull with stopPoint := .returned }
  | .returned => state

def move (state : Waiting θ δ) : WaitStep θ δ → Option (Waiting θ δ)
  | .callPush thread value =>
      match state.points thread with
      | .idle => state.go thread (.locking (.push value))
      | _ => none
  | .callPop thread =>
      match state.points thread with
      | .idle => state.go thread (.locking .pop)
      | _ => none
  | .callTryPop thread =>
      match state.points thread with
      | .idle => state.go thread .lockingTake
      | _ => none
  | .lock thread =>
      match state.points thread with
      | .locking call =>
          if thread ∈ state.waiters call.cond then none
          else state.go thread (.testing call)
      | .lockingTake => state.go thread .taking
      | _ => none
  | .test thread =>
      match state.points thread with
      | .testing call =>
          if call.ready state.queue then state.go thread call.past
          else state.go thread (.window call)
      | _ => none
  | .block thread =>
      match state.points thread with
      | .window call =>
          (state.wait call.cond (thread :: state.waiters call.cond)).go thread
            (.locking call)
      | _ => none
  | .finish thread => state.finish thread
  | .notify thread woken =>
      match state.points thread with
      | .notifying cond =>
          (state.notifyOne cond woken).bind fun state => state.go thread .idle
      | _ => none
  | .stop => some state.stop

def step (state : Waiting θ δ) (input : WaitStep θ δ) : Waiting θ δ :=
  (state.move input).getD state

/-- `stop` has returned, and a thread is blocked that no thread will notify. -/
def Lost (state : Waiting θ δ) : Prop :=
  state.stopPoint = .returned ∧ state.queue.stopped = true ∧
    ∃ cond, state.waiters cond ≠ [] ∧
      ∀ thread, state.points thread ≠ .notifying cond

/-- Where `stop` notifies all, no thread is about to block. -/
def Clear (state : Waiting θ δ) : WaitStep θ δ → Prop
  | .stop => ∀ cond ∈ state.stopPoint.notifies, ∀ thread call,
      state.points thread = .window call → call.cond ≠ cond
  | _ => True

def Passes (state : Waiting θ δ) (thread : θ) (point : WaitPoint δ)
    (owner : Mutex → Option θ) : Prop :=
  passLock state.owner thread (state.points thread).lock point.lock =
    some owner

inductive Moves (state : Waiting θ δ) :
    WaitStep θ δ → Waiting θ δ → Prop
  | none {input} : Moves state input state
  | go {input thread point owner}
      (hwindow : ∀ call, point = .window call → ¬ call.ready state.queue)
      (hnotifying : ∀ cond, point ≠ .notifying cond)
      (hpass : state.Passes thread point owner) :
      Moves state input (state.arrive thread point owner)
  | block {input thread call owner}
      (hpoint : state.points thread = .window call)
      (hpass : state.Passes thread (.locking call) owner) :
      Moves state input ((state.wait call.cond
        (thread :: state.waiters call.cond)).arrive thread (.locking call)
          owner)
  | finish {input thread cond queue owner}
      (hrunning : state.queue.stopped = false)
      (hqueue : queue.stopped = false)
      (hpass : state.Passes thread (.notifying cond) owner) :
      Moves state input
        ({ state with queue }.arrive thread (.notifying cond) owner)
  | notify {input thread cond threads owner}
      (hpoint : state.points thread = .notifying cond)
      (hthreads : threads ⊆ state.waiters cond)
      (hpass : state.Passes thread .idle owner) :
      Moves state input
        ((state.wait cond threads).arrive thread .idle owner)
  | stop : Moves state .stop state.stop

variable {state after : Waiting θ δ} {thread : θ} {point : WaitPoint δ}
  {input : WaitStep θ δ}

theorem go_eq_some :
    state.go thread point = some after ↔
      ∃ owner, state.Passes thread point owner ∧
        state.arrive thread point owner = after :=
  Option.map_eq_some_iff

theorem Moves.of_go (hgo : state.go thread point = some after)
    (hwindow : ∀ call, point = .window call → ¬ call.ready state.queue)
    (hnotifying : ∀ cond, point ≠ .notifying cond) :
    state.Moves input after := by
  obtain ⟨owner, hpass, rfl⟩ := go_eq_some.mp hgo
  exact .go hwindow hnotifying hpass

theorem Moves.of_go_idle (hgo : state.go thread .idle = some after) :
    state.Moves input after :=
  .of_go hgo nofun nofun

theorem moves_finish (hfinish : state.finish thread = some after) :
    state.Moves input after := by
  unfold Waiting.finish at hfinish
  split at hfinish
  case h_1 value hpoint =>
    unfold Queue.push at hfinish
    split_ifs at hfinish with hstopped
    · exact .of_go_idle hfinish
    · obtain ⟨owner, hpass, rfl⟩ := go_eq_some.mp hfinish
      have hrunning := Bool.eq_false_iff.mpr hstopped
      exact .finish hrunning hrunning hpass
  case h_2 hpoint =>
    unfold tryPop at hfinish
    split_ifs at hfinish with hstopped
    · exact .of_go_idle hfinish
    · cases hqueue : state.queue.queue with
      | nil =>
          rw [hqueue] at hfinish
          exact .of_go_idle hfinish
      | cons value rest =>
          rw [hqueue] at hfinish
          obtain ⟨owner, hpass, rfl⟩ := go_eq_some.mp hfinish
          have hrunning := Bool.eq_false_iff.mpr hstopped
          exact .finish hrunning hrunning hpass
  case h_3 => cases hfinish

theorem moves_notify {cond : CondVar} {woken : θ}
    (hpoint : state.points thread = .notifying cond)
    (hmove : ((state.notifyOne cond woken).bind fun state =>
      state.go thread .idle) = some after) : state.Moves input after := by
  obtain ⟨woke, hnotify, hgo⟩ := Option.bind_eq_some_iff.mp hmove
  have hwoke : ∃ threads ⊆ state.waiters cond,
      woke = state.wait cond threads := by
    unfold notifyOne at hnotify
    split_ifs at hnotify with hnone hwoken
    · refine ⟨state.waiters cond, List.Subset.refl _, ?_⟩
      rw [wait, Function.update_eq_self]
      exact (Option.some.inj hnotify).symm
    · exact ⟨_, List.erase_subset, (Option.some.inj hnotify).symm⟩
  obtain ⟨threads, hthreads, rfl⟩ := hwoke
  obtain ⟨owner, hpass, rfl⟩ := go_eq_some.mp hgo
  exact .notify hpoint hthreads hpass

theorem moves_move (hmove : state.move input = some after) :
    state.Moves input after := by
  cases input with
  | callPush thread value
  | callPop thread
  | callTryPop thread =>
      simp only [move] at hmove
      split at hmove
      · exact .of_go hmove nofun nofun
      · cases hmove
  | lock thread =>
      simp only [move] at hmove
      split at hmove
      · split_ifs at hmove
        exact .of_go hmove nofun nofun
      · exact .of_go hmove nofun nofun
      · cases hmove
  | test thread =>
      simp only [move] at hmove
      split at hmove
      case h_1 call hpoint =>
        split_ifs at hmove with hready
        · refine .of_go hmove ?_ ?_ <;> cases call <;> nofun
        · refine .of_go hmove ?_ nofun
          intro other hother
          cases hother
          exact hready
      case h_2 => cases hmove
  | block thread =>
      simp only [move] at hmove
      split at hmove
      case h_1 call hpoint =>
        obtain ⟨owner, hpass, rfl⟩ := go_eq_some.mp hmove
        exact .block hpoint hpass
      case h_2 => cases hmove
  | finish thread => exact moves_finish hmove
  | notify thread woken =>
      simp only [move] at hmove
      split at hmove
      case h_1 cond hpoint => exact moves_notify hpoint hmove
      case h_2 => cases hmove
  | stop =>
      cases hmove
      exact .stop

theorem moves_step (state : Waiting θ δ) (input : WaitStep θ δ) :
    state.Moves input (state.step input) := by
  unfold step
  cases hmove : state.move input with
  | none => exact .none
  | some after => exact moves_move hmove

structure Sound (state : Waiting θ δ) : Prop where
  owned : Owned state.owner fun thread => (state.points thread).lock
  stopped : state.stopPoint ≠ .uncalled → state.queue.stopped = true

omit [DecidableEq θ] in
theorem sound_start (values : List δ) (capacity : Nat) :
    (start values capacity : Waiting θ δ).Sound where
  owned _ _ := by simp [start, WaitPoint.lock]
  stopped huncalled := absurd rfl huncalled

theorem Sound.passes (hsound : state.Sound) {owner : Mutex → Option θ}
    (hpass : state.Passes thread point owner) :
    Owned owner fun other =>
      (Function.update state.points thread point other).lock := by
  have hupdate : (fun other =>
      (Function.update state.points thread point other).lock) =
      Function.update (fun other => (state.points other).lock) thread
        point.lock := by
    funext other
    simp only [Function.update_apply]
    split_ifs <;> rfl
  rw [hupdate]
  exact hsound.owned.pass (fun _ _ _ _ => rfl) hpass

theorem Sound.step (hsound : state.Sound) (input : WaitStep θ δ) :
    (state.step input).Sound := by
  have hmoves := moves_step state input
  generalize state.step input = next at hmoves ⊢
  cases hmoves with
  | none => exact hsound
  | go hwindow hnotifying hpass => exact ⟨hsound.passes hpass, hsound.stopped⟩
  | block hpoint hpass => exact ⟨hsound.passes hpass, hsound.stopped⟩
  | finish hrunning hqueue hpass =>
      refine ⟨hsound.passes hpass, fun hcalled => ?_⟩
      exact absurd (hrunning.symm.trans (hsound.stopped hcalled)) (by decide)
  | notify hpoint hthreads hpass =>
      exact ⟨hsound.passes hpass, hsound.stopped⟩
  | stop =>
      unfold stop
      split
      · exact ⟨hsound.owned, fun _ => rfl⟩
      case h_2 hpoint =>
        exact ⟨hsound.owned, fun _ => hsound.stopped (by simp [hpoint])⟩
      case h_3 hpoint =>
        exact ⟨hsound.owned, fun _ => hsound.stopped (by simp [hpoint])⟩
      · exact hsound

/-- Once `stop` has notified all, no thread is blocked or about to block. -/
structure Quiet (state : Waiting θ δ) : Prop extends Sound state where
  waiters : ∀ cond, state.stopPoint.notified cond = true →
    state.waiters cond = []
  window : ∀ cond, state.stopPoint.notified cond = true →
    ∀ thread call, state.points thread = .window call → call.cond ≠ cond

omit [DecidableEq θ] in
theorem quiet_start (values : List δ) (capacity : Nat) :
    (start values capacity : Waiting θ δ).Quiet :=
  ⟨sound_start values capacity, nofun, nofun⟩

theorem ready_of_stopped {queue : Queue δ} (hstopped : queue.stopped = true)
    (call : WaitCall δ) : call.ready queue := by
  cases call with
  | push value => exact .inr hstopped
  | pop => exact .inr hstopped

omit [DecidableEq θ] in
theorem Sound.stopped_of_notified (hsound : state.Sound) {cond : CondVar}
    (hnotified : state.stopPoint.notified cond = true) :
    state.queue.stopped = true := by
  apply hsound.stopped
  intro huncalled
  rw [huncalled] at hnotified
  cases hnotified

theorem Quiet.window_arrive (hquiet : state.Quiet) {cond : CondVar}
    (hnotified : state.stopPoint.notified cond = true)
    {other : θ} {call : WaitCall δ}
    (hpoint : Function.update state.points thread point other = .window call)
    (hwindow : ∀ call, point = .window call → ¬ call.ready state.queue) :
    call.cond ≠ cond := by
  rw [Function.update_apply] at hpoint
  split_ifs at hpoint with heq
  · exact absurd (ready_of_stopped
      (hquiet.stopped_of_notified hnotified) call) (hwindow call hpoint)
  · exact hquiet.window cond hnotified other call hpoint

omit [DecidableEq θ] in
theorem notified_stop {cond : CondVar}
    (hnotified : state.stop.stopPoint.notified cond = true) :
    state.stopPoint.notified cond = true ∨
      state.stopPoint.notifies = some cond := by
  unfold stop at hnotified
  cases hpoint : state.stopPoint <;> cases cond <;>
    simp_all [StopPoint.notified, StopPoint.notifies]

omit [DecidableEq θ] in
theorem waiters_stop (cond : CondVar) :
    state.stop.waiters cond =
      if state.stopPoint.notifies = some cond then []
      else state.waiters cond := by
  unfold stop
  cases state.stopPoint <;> cases cond <;>
    simp [StopPoint.notifies, notifyAll, wait]

omit [DecidableEq θ] in
@[simp] theorem points_stop : state.stop.points = state.points := by
  unfold stop
  cases state.stopPoint <;> rfl

theorem Quiet.waiters_step (hquiet : state.Quiet)
    (hmoves : state.Moves input after) {cond : CondVar}
    (hnotified : after.stopPoint.notified cond = true) :
    after.waiters cond = [] := by
  cases hmoves with
  | none => exact hquiet.waiters cond hnotified
  | go hwindow hnotifying hpass => exact hquiet.waiters cond hnotified
  | block hpoint hpass =>
      have hne := hquiet.window cond hnotified _ _ hpoint
      simpa [arrive, wait, Function.update_of_ne hne.symm]
        using hquiet.waiters cond hnotified
  | finish hrunning hqueue hpass => exact hquiet.waiters cond hnotified
  | @notify _ thread notified threads owner hpoint hthreads hpass =>
      have hnone := hquiet.waiters cond hnotified
      simp only [arrive, wait, Function.update_apply]
      split_ifs with heq
      · rw [heq] at hnone
        exact List.subset_nil.mp (hnone ▸ hthreads)
      · exact hnone
  | stop =>
      rw [waiters_stop]
      split_ifs with hnotifies
      · rfl
      · exact hquiet.waiters cond
          ((notified_stop hnotified).resolve_right hnotifies)

theorem Quiet.window_step (hquiet : state.Quiet)
    (hclear : state.Clear input) (hmoves : state.Moves input after)
    {cond : CondVar} (hnotified : after.stopPoint.notified cond = true)
    {other : θ} {call : WaitCall δ}
    (hpoint : after.points other = .window call) : call.cond ≠ cond := by
  cases hmoves with
  | none => exact hquiet.window cond hnotified other call hpoint
  | go hwindow hnotifying hpass =>
      exact hquiet.window_arrive hnotified hpoint hwindow
  | block hwindow hpass => exact hquiet.window_arrive hnotified hpoint nofun
  | finish hrunning hqueue hpass =>
      exact hquiet.window_arrive hnotified hpoint nofun
  | notify hnotifying hthreads hpass =>
      exact hquiet.window_arrive hnotified hpoint nofun
  | stop =>
      rw [points_stop] at hpoint
      rcases notified_stop hnotified with hbefore | hnotifies
      · exact hquiet.window cond hbefore other call hpoint
      · exact hclear cond hnotifies other call hpoint

theorem Quiet.step (hquiet : state.Quiet) (hclear : state.Clear input) :
    (state.step input).Quiet where
  toSound := hquiet.toSound.step input
  waiters _ := hquiet.waiters_step (moves_step state input)
  window _ hnotified _ _ :=
    hquiet.window_step hclear (moves_step state input) hnotified

omit [DecidableEq θ] in
theorem Quiet.not_lost (hquiet : state.Quiet) : ¬ state.Lost := by
  intro ⟨hreturned, _, cond, hwaiters, _⟩
  refine hwaiters (hquiet.waiters cond ?_)
  rw [hreturned]
  rfl

theorem Lost.step (hlost : state.Lost) (input : WaitStep θ δ) :
    (state.step input).Lost := by
  obtain ⟨hreturned, hstopped, cond, hwaiters, hnone⟩ := hlost
  have hmoves := moves_step state input
  generalize state.step input = next at hmoves ⊢
  cases hmoves with
  | none => exact ⟨hreturned, hstopped, cond, hwaiters, hnone⟩
  | @go _ thread point owner hwindow hnotifying hpass =>
      refine ⟨hreturned, hstopped, cond, hwaiters, fun other => ?_⟩
      simp only [arrive, Function.update_apply]
      split_ifs
      · exact hnotifying cond
      · exact hnone other
  | @block _ thread call owner hpoint hpass =>
      refine ⟨hreturned, hstopped, cond, ?_, fun other => ?_⟩
      · simp only [arrive, wait, Function.update_apply]
        split_ifs
        · exact List.cons_ne_nil _ _
        · exact hwaiters
      · simp only [arrive, wait, Function.update_apply]
        split_ifs
        · nofun
        · exact hnone other
  | finish hrunning hqueue hpass =>
      exact absurd (hrunning.symm.trans hstopped) (by decide)
  | @notify _ thread notified threads owner hpoint hthreads hpass =>
      have hne : cond ≠ notified := by
        rintro rfl
        exact hnone thread hpoint
      refine ⟨hreturned, hstopped, cond, ?_, fun other => ?_⟩
      · simpa [arrive, wait, Function.update_of_ne hne] using hwaiters
      · simp only [arrive, wait, Function.update_apply]
        split_ifs
        · nofun
        · exact hnone other
  | stop =>
      have hsame : state.stop = state := by
        simp only [stop, hreturned]
      rw [hsame]
      exact ⟨hreturned, hstopped, cond, hwaiters, hnone⟩

theorem step_block {call : WaitCall δ}
    (hpoint : state.points thread = .window call) :
    state.step (.block thread) = (state.wait call.cond
      (thread :: state.waiters call.cond)).arrive thread (.locking call)
        (Function.update state.owner .mutex none) := by
  simp [Waiting.step, move, hpoint, go, wait, WaitPoint.lock, passLock]

omit [DecidableEq θ] in
theorem Sound.not_notifying (hsound : state.Sound) {call : WaitCall δ}
    (hpoint : state.points thread = .window call) (other : θ)
    (cond : CondVar) : state.points other ≠ .notifying cond := by
  intro hother
  have hsame := @Owned.unique _ _ _ _ hsound.owned .mutex thread other
    (by simp [hpoint, WaitPoint.lock]) (by simp [hother, WaitPoint.lock])
  rw [hsame, hother] at hpoint
  cases hpoint

theorem Sound.blocked (hsound : state.Sound) {call : WaitCall δ}
    (hpoint : state.points thread = .window call) :
    (state.step (.block thread)).waiters call.cond ≠ [] ∧
      ∀ other, (state.step (.block thread)).points other ≠
        .notifying call.cond := by
  rw [step_block hpoint]
  constructor
  · simp [arrive, wait]
  · intro other
    simp only [arrive, wait, Function.update_apply]
    split_ifs
    · nofun
    · exact hsound.not_notifying hpoint other call.cond

/-- The calls of `notify_all` that are left do not reach the thread that has
blocked after its own. -/
theorem Sound.lost_of_window (hsound : state.Sound) {call : WaitCall δ}
    (hpoint : state.points thread = .window call)
    (hnotified : state.stopPoint.notified call.cond = true) :
    ∃ more, (run Waiting.step state more).Lost := by
  have hstopped := hsound.stopped_of_notified hnotified
  obtain ⟨hwaiters, hnone⟩ := hsound.blocked hpoint
  rw [step_block hpoint] at hwaiters hnone
  cases hstop : state.stopPoint with
  | uncalled => simp [hstop, StopPoint.notified] at hnotified
  | stored => simp [hstop, StopPoint.notified] at hnotified
  | returned =>
      refine ⟨[.block thread], ?_⟩
      rw [run_cons, run_nil, step_block hpoint]
      exact ⟨hstop, hstopped, call.cond, hwaiters, hnone⟩
  | notifiedNotEmpty =>
      have hcond : call.cond = .notEmpty := by
        cases hcall : call.cond <;>
          simp [hstop, hcall, StopPoint.notified] at hnotified ⊢
      refine ⟨[.block thread, .stop], ?_⟩
      rw [run_cons, run_cons, run_nil, step_block hpoint]
      refine ⟨?_, ?_, call.cond, ?_, ?_⟩
      · simp [Waiting.step, move, stop, arrive, wait, hstop]
      · simp [Waiting.step, move, stop, arrive, wait, hstop, notifyAll,
          hstopped]
      · rw [Waiting.step, move, Option.getD_some, waiters_stop]
        simp [arrive, wait, hstop, hcond, StopPoint.notifies]
      · simpa [Waiting.step, move] using hnone

theorem Sound.lost_of_not_clear (hsound : state.Sound)
    (hblocked : ¬ state.Clear input) :
    ∃ more, (run Waiting.step (state.step input) more).Lost := by
  cases input with
  | stop =>
      simp only [Clear, not_forall, not_not] at hblocked
      obtain ⟨cond, hnotifies, thread, call, hpoint, rfl⟩ := hblocked
      have hwindow : (state.step .stop).points thread = .window call :=
        points_stop.symm ▸ hpoint
      refine (hsound.step .stop).lost_of_window hwindow ?_
      simp only [Waiting.step, move, Option.getD_some, stop]
      cases hstop : state.stopPoint <;> cases hcond : call.cond <;>
        simp [hstop, hcond, StopPoint.notifies, StopPoint.notified]
          at hnotifies ⊢
  | callPush | callPop | callTryPop | lock | test | block | finish | notify =>
      exact absurd trivial hblocked

/-- No thread is left blocked by a `stop` that notifies all where no thread is
about to block; where one is, the run goes on to a state in which `stop` has
returned and that thread is blocked for good. -/
theorem lost_free_iff_clear (values : List δ) (capacity : Nat) :
    (∀ inputs : List (WaitStep θ δ),
      StepsMeet step Clear (start values capacity) inputs →
        Throughout step (fun state => ¬ state.Lost) (start values capacity)
          inputs) ∧
    ∀ (inputs : List (WaitStep θ δ)) (input : WaitStep θ δ),
      ¬ (run step (start values capacity) inputs).Clear input →
        ∃ more, ∀ further,
          (run step (start values capacity)
            (inputs ++ input :: more ++ further)).Lost :=
  @clear_and_lasting _ _ step Clear Sound Lost Quiet
    (fun _ input hsound => hsound.step input)
    (fun _ _ hquiet hclear => hquiet.step hclear)
    (fun _ hquiet => hquiet.not_lost)
    (fun _ input _ hlost => hlost.step input)
    (fun _ _ hsound hblocked => hsound.lost_of_not_clear hblocked)
    _ (sound_start values capacity) (quiet_start values capacity)

/-- The queue is stopped while a `pop` is about to block. -/
theorem lost_pop :
    (run step (start [] 1 : Waiting Unit Unit)
      [.callPop (), .lock (), .test (), .stop, .stop, .stop,
        .block ()]).Lost :=
  ⟨rfl, rfl, .notEmpty, by decide, fun _ => nofun⟩

end Waiting

end Hebpf.Queue
