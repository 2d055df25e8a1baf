import Hebpf.Data.Tally
import Hebpf.Queue.Refinement

namespace Hebpf.Queue

open Hebpf.Data

/-! No notification is lost between the threads that push and pop. -/

variable {θ δ : Type}

/-- A thread that will test what `cond` is about, or notify it, unless it
blocks for want of it. -/
def WaitPoint.Serves (cond : CondVar) : WaitPoint δ → Prop
  | locking call => call.cond = cond
  | testing call => call.cond = cond
  | pushing _ => cond = .notFull
  | lockingTake => cond = .notEmpty
  | taking => cond = .notEmpty
  | notifying notified => notified = cond
  | idle => False
  | window _ => False

def supply (queue : Queue δ) : CondVar → Nat
  | .notEmpty => queue.queue.length
  | .notFull => queue.capacity - queue.queue.length

namespace Waiting

def AtWork (state : Waiting θ δ) (cond : CondVar) (thread : θ) : Prop :=
  (state.points thread).Serves cond ∧ thread ∉ state.waiters cond

variable [Fintype θ]

/-- Until `stop` is called there is a thread at work for each value that a
blocked `pop` could take, and for each place that a blocked `push` could. -/
structure Served (state : Waiting θ δ) : Prop extends Sound state where
  running : state.stopPoint = .uncalled → state.queue.stopped = false
  blocked : ∀ cond, ∀ thread ∈ state.waiters cond,
    ∃ call, state.points thread = .locking call ∧ call.cond = cond
  nodup : ∀ cond, (state.waiters cond).Nodup
  window : state.stopPoint = .uncalled → ∀ thread call,
    state.points thread = .window call → ¬ call.ready state.queue
  enough : state.stopPoint = .uncalled → ∀ cond, state.waiters cond ≠ [] →
    supply state.queue cond ≤ tally (state.AtWork cond)

theorem served_start (values : List δ) (capacity : Nat) :
    (start values capacity : Waiting θ δ).Served where
  toSound := sound_start values capacity
  running _ := rfl
  blocked _ _ := nofun
  nodup _ := .nil
  window _ _ _ := nofun
  enough _ _ hwaiters := absurd rfl hwaiters

variable {state after : Waiting θ δ} {thread : θ} {point : WaitPoint δ}

theorem supply_eq_zero {queue : Queue δ} {call : WaitCall δ}
    (hready : ¬ call.ready queue) : supply queue call.cond = 0 := by
  cases call with
  | push value =>
      have hfull := not_lt.mp (not_or.mp hready).1
      exact Nat.sub_eq_zero_of_le hfull
  | pop =>
      have hempty := not_not.mp (not_or.mp hready).1
      exact List.length_eq_zero_iff.mpr hempty

theorem Served.not_waiting (hserved : state.Served)
    (hfree : ∀ call, state.points thread = .locking call →
      thread ∉ state.waiters call.cond) (cond : CondVar) :
    thread ∉ state.waiters cond := by
  intro hwaits
  obtain ⟨call, hpoint, rfl⟩ := hserved.blocked cond thread hwaits
  exact hfree call hpoint hwaits

theorem Served.not_waiting_of_lock (hserved : state.Served)
    (hlock : (state.points thread).lock = some .mutex) (cond : CondVar) :
    thread ∉ state.waiters cond := by
  refine hserved.not_waiting (fun call hpoint => ?_) cond
  rw [hpoint] at hlock
  cases hlock

variable [DecidableEq θ]

theorem Served.blocked_arrive (hserved : state.Served)
    (hnot : ∀ cond, thread ∉ state.waiters cond) (point : WaitPoint δ)
    {cond : CondVar} {other : θ} (hother : other ∈ state.waiters cond) :
    ∃ call, Function.update state.points thread point other =
      .locking call ∧ call.cond = cond := by
  obtain ⟨call, hpoint, hcond⟩ := hserved.blocked cond other hother
  refine ⟨call, ?_, hcond⟩
  have hne : other ≠ thread := by
    rintro rfl
    exact hnot cond hother
  rw [Function.update_of_ne hne]
  exact hpoint

theorem Served.go (hserved : state.Served) (hsound : after.Sound)
    (hgo : state.go thread point = some after)
    (hfree : ∀ call, state.points thread = .locking call →
      thread ∉ state.waiters call.cond)
    (hwindow : ∀ call, point = .window call → ¬ call.ready state.queue)
    (hserves : state.stopPoint = .uncalled → ∀ cond,
      state.waiters cond ≠ [] → (state.points thread).Serves cond →
        point.Serves cond ∨ supply state.queue cond = 0) :
    after.Served := by
  have hnot := hserved.not_waiting hfree
  obtain ⟨owner, hpass, rfl⟩ := go_eq_some.mp hgo
  refine ⟨hsound, hserved.running,
    fun _ _ hother => hserved.blocked_arrive hnot _ hother, hserved.nodup,
    ?_, ?_⟩
  · intro huncalled other call hpoint
    simp only [arrive, Function.update_apply] at hpoint
    split_ifs at hpoint
    · exact hwindow call hpoint
    · exact hserved.window huncalled other call hpoint
  · intro huncalled cond hwaiters
    by_cases hsupply : supply state.queue cond = 0
    · exact hsupply.trans_le (Nat.zero_le _)
    · refine (hserved.enough huncalled cond hwaiters).trans (tally_mono ?_)
      intro other hwork
      refine ⟨?_, hwork.2⟩
      simp only [arrive, Function.update_apply]
      split_ifs with heq
      · rw [heq] at hwork
        exact (hserves huncalled cond hwaiters hwork.1).resolve_right hsupply
      · exact hwork.1

omit [Fintype θ] in
theorem AtWork.arrive_of_ne {cond : CondVar} {other : θ}
    (hwork : state.AtWork cond other) (hne : other ≠ thread)
    {queue : Queue δ} {owner : Mutex → Option θ} :
    ({ state with queue }.arrive thread point owner).AtWork cond other := by
  refine ⟨?_, hwork.2⟩
  simp only [arrive, Function.update_of_ne hne]
  exact hwork.1

theorem Served.finish (hserved : state.Served) (hsound : after.Sound)
    {queue : Queue δ} {own cond : CondVar}
    (hgo : { state with queue }.go thread (.notifying cond) = some after)
    (hlock : (state.points thread).lock = some .mutex)
    (hserves : ∀ other, (state.points thread).Serves other → other = own)
    (hne : own ≠ cond) (hstopped : queue.stopped = false)
    (hown : supply queue own = 0 ∨
      supply queue own + 1 ≤ supply state.queue own)
    (hcond : supply queue cond ≤ supply state.queue cond + 1) :
    after.Served := by
  have hnot := hserved.not_waiting_of_lock hlock
  obtain ⟨owner, hpass, rfl⟩ := go_eq_some.mp hgo
  refine ⟨hsound, fun _ => hstopped,
    fun _ _ hother => hserved.blocked_arrive hnot _ hother, hserved.nodup,
    ?_, ?_⟩
  · intro huncalled other call hpoint
    simp only [arrive, Function.update_apply] at hpoint
    split_ifs at hpoint with heq
    have hother : (state.points other).lock = some .mutex := by
      rw [hpoint]
      rfl
    exact absurd (hserved.owned.unique hother hlock) heq
  · intro huncalled wanted hwaiters
    have henough := hserved.enough huncalled wanted hwaiters
    rcases eq_or_ne wanted cond with rfl | hwanted
    · refine hcond.trans ((Nat.succ_le_succ henough).trans ?_)
      refine @tally_come θ _ _ _ thread ?_ ?_ ?_
      · intro other hwork
        refine hwork.arrive_of_ne ?_
        rintro rfl
        exact hne (hserves wanted hwork.1).symm
      · exact fun hwork => hne (hserves wanted hwork.1).symm
      · refine ⟨?_, hnot wanted⟩
        simp only [arrive, Function.update_self]
        rfl
    · have hsame : wanted = own := by
        cases wanted <;> cases cond <;> cases own <;> simp_all
      subst hsame
      rcases hown with hnone | hless
      · exact hnone.trans_le (Nat.zero_le _)
      · have hgone : tally (state.AtWork wanted) ≤ tally (({ state with
            queue }.arrive thread (.notifying cond) owner).AtWork wanted) + 1 :=
          tally_go fun other hother hwork => hwork.arrive_of_ne hother
        exact Nat.le_of_succ_le_succ (hless.trans (henough.trans hgone))

theorem Served.block (hserved : state.Served) (hsound : after.Sound)
    {call : WaitCall δ} (hpoint : state.points thread = .window call)
    (hgo : (state.wait call.cond (thread :: state.waiters call.cond)).go thread
      (.locking call) = some after) : after.Served := by
  have hlock : (state.points thread).lock = some .mutex := by
    rw [hpoint]
    rfl
  have hnot := hserved.not_waiting_of_lock hlock
  obtain ⟨owner, hpass, rfl⟩ := go_eq_some.mp hgo
  refine ⟨hsound, hserved.running, ?_, ?_, ?_, ?_⟩
  · intro cond other hother
    simp only [arrive, Waiting.wait, Function.update_apply] at hother ⊢
    split_ifs at hother with hcond
    · rw [List.mem_cons] at hother
      split_ifs with heq
      · exact ⟨call, rfl, hcond.symm⟩
      · exact hserved.blocked cond other
          (hcond ▸ hother.resolve_left heq)
    · rw [← Function.update_apply state.points]
      exact hserved.blocked_arrive hnot _ hother
  · intro cond
    simp only [arrive, Waiting.wait, Function.update_apply]
    split_ifs
    · exact List.nodup_cons.mpr ⟨hnot call.cond, hserved.nodup call.cond⟩
    · exact hserved.nodup cond
  · intro huncalled other another hother
    simp only [arrive, Waiting.wait, Function.update_apply] at hother
    split_ifs at hother
    exact hserved.window huncalled other another hother
  · intro huncalled cond hwaiters
    simp only [arrive, Waiting.wait, Function.update_apply] at hwaiters
    split_ifs at hwaiters with hcond
    · rw [hcond]
      exact (supply_eq_zero (hserved.window huncalled thread call
        hpoint)).trans_le (Nat.zero_le _)
    · refine (hserved.enough huncalled cond hwaiters).trans (tally_mono ?_)
      intro other hwork
      obtain ⟨hserves, hwaits⟩ := hwork
      have hne : other ≠ thread := by
        rintro rfl
        rw [hpoint] at hserves
        exact hserves
      refine ⟨?_, ?_⟩
      · simp only [arrive, Waiting.wait, Function.update_of_ne hne]
        exact hserves
      · simp only [arrive, Waiting.wait, Function.update_of_ne hcond]
        exact hwaits

theorem Served.notify (hserved : state.Served) (hsound : after.Sound)
    {cond : CondVar} {woken : θ}
    (hpoint : state.points thread = .notifying cond)
    (hwoken : woken ∈ state.waiters cond)
    (hgo : (state.wait cond ((state.waiters cond).erase woken)).go thread
      .idle = some after) : after.Served := by
  have hlock : (state.points thread).lock = some .mutex := by
    rw [hpoint]
    rfl
  have hnot := hserved.not_waiting_of_lock hlock
  obtain ⟨owner, hpass, rfl⟩ := go_eq_some.mp hgo
  have hwaiters : ∀ wanted, Function.update state.waiters cond
      ((state.waiters cond).erase woken) wanted ⊆ state.waiters wanted := by
    intro wanted
    rw [Function.update_apply]
    split_ifs with heq
    · rw [heq]
      exact List.erase_subset
    · exact List.Subset.refl _
  refine ⟨hsound, hserved.running, ?_, ?_, ?_, ?_⟩
  · exact fun wanted _ hother =>
      hserved.blocked_arrive hnot _ (hwaiters wanted hother)
  · intro wanted
    simp only [arrive, Waiting.wait, Function.update_apply]
    split_ifs
    · exact (hserved.nodup cond).erase woken
    · exact hserved.nodup wanted
  · intro huncalled other call hother
    simp only [arrive, Waiting.wait, Function.update_apply] at hother
    split_ifs at hother
    exact hserved.window huncalled other call hother
  · intro huncalled wanted hblocked
    have hbefore : state.waiters wanted ≠ [] := by
      intro hnone
      exact hblocked (List.subset_nil.mp (hnone ▸ hwaiters wanted))
    refine (hserved.enough huncalled wanted hbefore).trans ?_
    have hkeep : ∀ other, other ≠ thread → state.AtWork wanted other →
        ((state.wait cond ((state.waiters cond).erase woken)).arrive thread
          .idle owner).AtWork wanted other := by
      intro other hother hwork
      obtain ⟨hserves, hwaits⟩ := hwork
      refine ⟨?_, fun hstill => hwaits (hwaiters wanted hstill)⟩
      simp only [arrive, Waiting.wait, Function.update_of_ne hother]
      exact hserves
    rcases eq_or_ne wanted cond with rfl | hwanted
    · refine @tally_swap θ _ _ _ thread woken hkeep
        (fun hwork => hwork.2 hwoken) ⟨?_, ?_⟩
      · obtain ⟨call, hlocking, hcond⟩ :=
          hserved.blocked_arrive hnot .idle hwoken
        simp only [arrive, Waiting.wait, hlocking]
        exact hcond
      · simp only [arrive, Waiting.wait, Function.update_self]
        exact (hserved.nodup wanted).not_mem_erase
    · refine tally_mono fun other hwork => hkeep other ?_ hwork
      rintro rfl
      have hserves := hwork.1
      rw [hpoint] at hserves
      exact hwanted hserves.symm

theorem Served.push (hserved : state.Served) (hsound : after.Sound)
    {value : δ} (hpoint : state.points thread = .pushing value)
    (hmove : state.finish thread = some after) : after.Served := by
  simp only [Waiting.finish, hpoint] at hmove
  unfold Queue.push at hmove
  split_ifs at hmove with hstopped
  · refine hserved.go hsound hmove (fun _ hlocking => ?_) (by simp) ?_
    · rw [hpoint] at hlocking
      cases hlocking
    · intro huncalled
      rw [hserved.running huncalled] at hstopped
      cases hstopped
  · have hrunning := Bool.eq_false_iff.mpr hstopped
    refine @Served.finish _ _ _ state after thread _ hserved hsound _ .notFull
      .notEmpty hmove (by rw [hpoint]; rfl) ?_ (by simp) hrunning ?_ ?_
    · intro other hserves
      rw [hpoint] at hserves
      exact hserves
    · simp only [supply, List.length_append, List.length_singleton]
      omega
    · simp only [supply, List.length_append, List.length_singleton]
      exact le_refl _

theorem Served.take (hserved : state.Served) (hsound : after.Sound)
    (hpoint : state.points thread = .taking)
    (hmove : state.finish thread = some after) : after.Served := by
  have hlocking : ∀ call, state.points thread = .locking call →
      thread ∉ state.waiters call.cond := by
    intro call hlocking
    rw [hpoint] at hlocking
    cases hlocking
  simp only [Waiting.finish, hpoint] at hmove
  unfold tryPop at hmove
  split_ifs at hmove with hstopped
  · refine hserved.go hsound hmove hlocking (by simp) ?_
    intro huncalled
    rw [hserved.running huncalled] at hstopped
    cases hstopped
  · have hrunning := Bool.eq_false_iff.mpr hstopped
    cases hqueue : state.queue.queue with
    | nil =>
        rw [hqueue] at hmove
        refine hserved.go hsound hmove hlocking (by simp) ?_
        intro huncalled cond _ hserves
        rw [hpoint] at hserves
        cases (show cond = .notEmpty from hserves)
        exact .inr (by rw [supply, hqueue]; rfl)
    | cons value rest =>
        rw [hqueue] at hmove
        refine @Served.finish _ _ _ state after thread _ hserved hsound _
          .notEmpty .notFull hmove (by rw [hpoint]; rfl) ?_ (by simp) hrunning
          ?_ ?_
        · intro other hserves
          rw [hpoint] at hserves
          exact hserves
        · right
          simp only [supply, hqueue, List.length_cons]
          exact le_refl _
        · simp only [supply, hqueue, List.length_cons]
          omega

theorem Served.stop (hserved : state.Served) : state.stop.Served := by
  have hsound := hserved.toSound.step .stop
  have hcalled : state.stop.stopPoint ≠ .uncalled := by
    unfold Waiting.stop
    cases hstop : state.stopPoint <;> simp [hstop]
  refine ⟨hsound, fun huncalled => absurd huncalled hcalled, ?_, ?_,
    fun huncalled => absurd huncalled hcalled,
    fun huncalled => absurd huncalled hcalled⟩
  · intro cond thread hthread
    rw [waiters_stop] at hthread
    split_ifs at hthread
    · cases hthread
    · rw [points_stop]
      exact hserved.blocked cond thread hthread
  · intro cond
    rw [waiters_stop]
    split_ifs
    · exact .nil
    · exact hserved.nodup cond

theorem Served.move {input : WaitStep θ δ} (hserved : state.Served)
    (hsound : after.Sound) (hmove : state.move input = some after) :
    after.Served := by
  cases input with
  | callPush thread value
  | callPop thread
  | callTryPop thread =>
      simp only [Waiting.move] at hmove
      split at hmove
      case h_2 => cases hmove
      case h_1 hpoint =>
        refine hserved.go hsound hmove ?_ (by simp) ?_
        · intro call hlocking
          rw [hpoint] at hlocking
          cases hlocking
        · intro _ cond _ hserves
          rw [hpoint] at hserves
          cases hserves
  | lock thread =>
      simp only [Waiting.move] at hmove
      split at hmove
      case h_1 call hpoint =>
        split_ifs at hmove with hwaits
        refine hserved.go hsound hmove ?_ (by simp) ?_
        · intro other hlocking
          cases hpoint.symm.trans hlocking
          exact hwaits
        · intro _ cond _ hserves
          rw [hpoint] at hserves
          exact .inl hserves
      case h_2 hpoint =>
        refine hserved.go hsound hmove ?_ (by simp) ?_
        · intro call hlocking
          rw [hpoint] at hlocking
          cases hlocking
        · intro _ cond _ hserves
          rw [hpoint] at hserves
          exact .inl hserves
      case h_3 => cases hmove
  | test thread =>
      simp only [Waiting.move] at hmove
      split at hmove
      case h_2 => cases hmove
      case h_1 call hpoint =>
        have hlocking : ∀ other, state.points thread = .locking other →
            thread ∉ state.waiters other.cond := by
          intro other hlocking
          rw [hpoint] at hlocking
          cases hlocking
        split_ifs at hmove with hready
        · refine hserved.go hsound hmove hlocking ?_ ?_
          · cases call <;> simp [WaitCall.past]
          · intro _ cond _ hserves
            rw [hpoint] at hserves
            cases call with
            | push value => exact .inl hserves.symm
            | pop => exact .inl hserves.symm
        · refine hserved.go hsound hmove hlocking ?_ ?_
          · intro other hother
            cases hother
            exact hready
          · intro _ cond _ hserves
            rw [hpoint] at hserves
            cases hserves
            exact .inr (supply_eq_zero hready)
  | block thread =>
      simp only [Waiting.move] at hmove
      split at hmove
      case h_1 call hpoint => exact hserved.block hsound hpoint hmove
      case h_2 => cases hmove
  | finish thread =>
      cases hpoint : state.points thread with
      | pushing value => exact hserved.push hsound hpoint hmove
      | taking => exact hserved.take hsound hpoint hmove
      | idle | locking | testing | window | lockingTake | notifying =>
          simp only [Waiting.move, Waiting.finish, hpoint] at hmove
          cases hmove
  | notify thread woken =>
      simp only [Waiting.move] at hmove
      split at hmove
      case h_2 => cases hmove
      case h_1 cond hpoint =>
        obtain ⟨notified, hnotify, hgo⟩ := Option.bind_eq_some_iff.mp hmove
        unfold notifyOne at hnotify
        split_ifs at hnotify with hnone hwoken
        · cases hnotify
          refine hserved.go hsound hgo ?_ (by simp) ?_
          · intro call hlocking
            rw [hpoint] at hlocking
            cases hlocking
          · intro _ wanted hwaiters hserves
            rw [hpoint] at hserves
            cases (show cond = wanted from hserves)
            exact absurd hnone hwaiters
        · cases hnotify
          exact hserved.notify hsound hpoint hwoken hgo
  | stop =>
      cases hmove
      exact hserved.stop

theorem Served.step (hserved : state.Served) (input : WaitStep θ δ) :
    (state.step input).Served := by
  have hsound := hserved.toSound.step input
  unfold Waiting.step at hsound ⊢
  cases hmove : state.move input with
  | none => exact hserved
  | some after =>
      rw [hmove] at hsound
      exact hserved.move hsound hmove

/-- No thread that is in a call can go on with it. -/
structure Halted (state : Waiting θ δ) : Prop where
  lock : ∀ thread, state.move (.lock thread) = none
  test : ∀ thread, state.move (.test thread) = none
  block : ∀ thread, state.move (.block thread) = none
  finish : ∀ thread, state.move (.finish thread) = none
  notify : ∀ thread woken, state.move (.notify thread woken) = none

omit [Fintype θ] in
theorem Halted.unlocked (hhalted : state.Halted) (thread : θ) :
    (state.points thread).lock = none := by
  cases hlock : (state.points thread).lock with
  | none => rfl
  | some lock =>
      exfalso
      have hgo := @exists_go θ δ _ state thread hlock
      cases hpoint : state.points thread with
      | idle | locking | lockingTake =>
          rw [hpoint] at hlock
          cases hlock
      | testing call =>
          have hmove := hhalted.test thread
          simp only [Waiting.move, hpoint] at hmove
          split_ifs at hmove
          · obtain ⟨after, hafter⟩ := hgo call.past
            cases hafter.symm.trans hmove
          · obtain ⟨after, hafter⟩ := hgo (.window call)
            cases hafter.symm.trans hmove
      | window call =>
          have hmove := hhalted.block thread
          simp only [Waiting.move, hpoint] at hmove
          obtain ⟨after, hafter⟩ := @exists_go θ δ _
            (state.wait call.cond (thread :: state.waiters call.cond)) thread
            hlock (.locking call)
          cases hafter.symm.trans hmove
      | pushing value =>
          have hmove := hhalted.finish thread
          simp only [Waiting.move, Waiting.finish, hpoint] at hmove
          cases hpush : state.queue.push value with
          | none =>
              obtain ⟨after, hafter⟩ := hgo .idle
              rw [hpush] at hmove
              cases hafter.symm.trans hmove
          | some queue =>
              obtain ⟨after, hafter⟩ := @exists_go θ δ _
                { state with queue } thread hlock (.notifying .notEmpty)
              rw [hpush] at hmove
              cases hafter.symm.trans hmove
      | taking =>
          have hmove := hhalted.finish thread
          simp only [Waiting.move, Waiting.finish, hpoint] at hmove
          cases htry : state.queue.tryPop with
          | mk value queue =>
              rw [htry] at hmove
              cases value with
              | none =>
                  obtain ⟨after, hafter⟩ := hgo .idle
                  cases hafter.symm.trans hmove
              | some value =>
                  obtain ⟨after, hafter⟩ := @exists_go θ δ _
                    { state with queue } thread hlock (.notifying .notFull)
                  cases hafter.symm.trans hmove
      | notifying cond =>
          cases hwaiters : state.waiters cond with
          | nil =>
              have hmove := hhalted.notify thread thread
              simp only [Waiting.move, hpoint, notifyOne, hwaiters, if_true,
                Option.bind_some] at hmove
              obtain ⟨after, hafter⟩ := hgo .idle
              cases hafter.symm.trans hmove
          | cons woken rest =>
              have hmove := hhalted.notify thread woken
              simp only [Waiting.move, hpoint, notifyOne, hwaiters,
                reduceCtorEq, List.mem_cons_self, if_true, if_false,
                Option.bind_some] at hmove
              obtain ⟨after, hafter⟩ := @exists_go θ δ _
                (state.wait cond ((woken :: rest).erase woken)) thread hlock
                .idle
              cases hafter.symm.trans hmove

theorem Served.blocked_of_halted (hserved : state.Served)
    (hhalted : state.Halted) (thread : θ) :
    state.points thread = .idle ∨
      ∃ call, state.points thread = .locking call ∧
        thread ∈ state.waiters call.cond := by
  have hunlocked := hhalted.unlocked thread
  have hfree : state.owner .mutex = none := by
    cases howner : state.owner .mutex with
    | none => rfl
    | some holder =>
        have hholds : (state.points holder).lock = some .mutex :=
          (hserved.owned .mutex holder).mp howner
        rw [hhalted.unlocked holder] at hholds
        cases hholds
  have hgo : ∀ point : WaitPoint δ, point.lock = some .mutex →
      ∃ after, state.go thread point = some after := by
    intro point hpoint
    simp only [Waiting.go, passLock, hunlocked, hpoint, hfree]
    exact ⟨_, rfl⟩
  have hlock := hhalted.lock thread
  cases hpoint : state.points thread with
  | idle => exact .inl rfl
  | locking call =>
      simp only [Waiting.move, hpoint] at hlock
      split_ifs at hlock with hwaits
      · exact .inr ⟨call, rfl, hwaits⟩
      · obtain ⟨after, hafter⟩ := hgo (.testing call) rfl
        cases hafter.symm.trans hlock
  | lockingTake =>
      simp only [Waiting.move, hpoint] at hlock
      obtain ⟨after, hafter⟩ := hgo .taking rfl
      cases hafter.symm.trans hlock
  | testing | window | pushing | taking | notifying =>
      rw [hpoint] at hunlocked
      cases hunlocked

theorem Served.supply_of_halted (hserved : state.Served)
    (hhalted : state.Halted) (huncalled : state.stopPoint = .uncalled)
    {cond : CondVar} (hwaiters : state.waiters cond ≠ []) :
    supply state.queue cond = 0 := by
  have henough := hserved.enough huncalled cond hwaiters
  rw [tally_eq_zero, Nat.le_zero] at henough
  · exact henough
  · intro thread hwork
    obtain ⟨hserves, hfree⟩ := hwork
    rcases hserved.blocked_of_halted hhalted thread with
      hidle | ⟨call, hpoint, hwaits⟩
    · rw [hidle] at hserves
      exact hserves
    · rw [hpoint] at hserves
      exact hfree (hserves ▸ hwaits)

/-- Until `stop` is called, no value and no place is kept from a blocked
thread: there is a thread at work for each, and where no thread can go on, every
blocked `pop` has an empty queue before it and every blocked `push` a full
one. -/
theorem none_lost (values : List δ) (capacity : Nat)
    (inputs : List (WaitStep θ δ)) :
    Throughout step (fun state => state.stopPoint = .uncalled →
        (∀ cond, state.waiters cond ≠ [] →
          supply state.queue cond ≤ tally (state.AtWork cond)) ∧
        (state.Halted → ∀ thread,
          state.points thread = .idle ∨
          (state.points thread = .locking .pop ∧ state.queue.queue = []) ∨
          ∃ value, state.points thread = .locking (.push value) ∧
            state.queue.capacity ≤ state.queue.queue.length))
      (start values capacity) inputs := by
  have hall : Throughout step Served (start values capacity) inputs :=
    throughout_of_stepsMeet (fun _ input hserved _ => hserved.step input)
      (served_start values capacity) stepsMeet_true
  refine hall.imp ?_
  intro state hserved huncalled
  refine ⟨hserved.enough huncalled, fun hhalted thread => ?_⟩
  rcases hserved.blocked_of_halted hhalted thread with
    hidle | ⟨call, hpoint, hwaits⟩
  · exact .inl hidle
  · have hnone := hserved.supply_of_halted hhalted huncalled
      (List.ne_nil_of_mem hwaits)
    right
    cases call with
    | pop => exact .inl ⟨hpoint, List.length_eq_zero_iff.mp hnone⟩
    | push value => exact .inr ⟨value, hpoint, Nat.le_of_sub_eq_zero hnone⟩

end Waiting

end Hebpf.Queue
