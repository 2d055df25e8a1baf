import Hebpf.Data.Run
import Mathlib.Logic.Function.Basic
import Mathlib.Logic.Relation
import Mathlib.Tactic.Common

namespace Hebpf.Data

/-! Threads that take locks `κ` in blocks, as lock guards do, and may leave any
block by an exception.  Where every block takes a lock of a higher rank than
those around it, no wait for locks goes round in a circle. -/

variable {θ κ : Type}

/-- What a piece of code does with locks.  `wait` is for something else, such
as the end of a thread. -/
inductive Locking (κ : Type) where
  | done
  | wait
  | seq (first second : Locking κ)
  | either (first second : Locking κ)
  | loop (body : Locking κ)
  | guarded (lock : κ) (body : Locking κ)
  | attempt (body handler : Locking κ)

/-- What is left to do for a thread: code to run, a guard to leave, or an
exception to catch. -/
inductive Pending (κ : Type) where
  | run (code : Locking κ)
  | unlock (lock : κ)
  | handle (handler : Locking κ)

structure LockThread (κ : Type) where
  throwing : Bool
  pending : List (Pending κ)

/-- How a thread goes on where its code leaves that open.  At a `wait`, `first`
is that it is not over. -/
inductive Choice where
  | first
  | second
  | throw
  deriving DecidableEq

/-- The owners of the locks, and the threads. -/
structure Locked (θ κ : Type) where
  owner : κ → Option θ
  threads : θ → LockThread κ

namespace LockThread

def idle : LockThread κ := ⟨false, []⟩

def wants? (thread : LockThread κ) : Option κ :=
  match thread with
  | ⟨false, .run (.guarded lock _) :: _⟩ => some lock
  | _ => none

def waits : LockThread κ → Bool
  | ⟨false, .run .wait :: _⟩ => true
  | _ => false

def unfold (choice : Choice) : Locking κ → List (Pending κ) →
    List (Pending κ)
  | .done, rest => rest
  | .wait, rest => rest
  | .seq first second, rest => .run first :: .run second :: rest
  | .either first second, rest =>
      .run (if choice = .first then first else second) :: rest
  | .loop body, rest =>
      if choice = .first then rest else .run body :: .run (.loop body) :: rest
  | .guarded lock body, rest => .run body :: .unlock lock :: rest
  | .attempt body handler, rest => .run body :: .handle handler :: rest

def held : List (Pending κ) → List κ
  | [] => []
  | .unlock lock :: rest => lock :: held rest
  | .run _ :: rest => held rest
  | .handle _ :: rest => held rest

def releases? (thread : LockThread κ) : Option κ :=
  match thread.pending with
  | .unlock lock :: _ => some lock
  | _ => none

def advance (choice : Choice) (thread : LockThread κ) : LockThread κ :=
  match thread with
  | ⟨_, []⟩ => idle
  | ⟨throwing, .unlock _ :: rest⟩ => ⟨throwing, rest⟩
  | ⟨true, .run _ :: rest⟩ => ⟨true, rest⟩
  | ⟨true, .handle handler :: rest⟩ => ⟨false, .run handler :: rest⟩
  | ⟨false, .handle _ :: rest⟩ => ⟨false, rest⟩
  | ⟨false, .run code :: rest⟩ =>
      if choice = .throw then ⟨true, .run code :: rest⟩
      else ⟨false, unfold choice code rest⟩

end LockThread

namespace Locked

def start (programs : θ → List (Locking κ)) : Locked θ κ where
  owner _ := none
  threads thread := ⟨false, (programs thread).map .run⟩

variable [DecidableEq θ] [DecidableEq κ]

/-- `none` is a thread that waits. -/
def move (state : Locked θ κ) (thread : θ) (choice : Choice) :
    Option (Locked θ κ) :=
  let now := state.threads thread
  let threads := Function.update state.threads thread (now.advance choice)
  match if choice = .throw then none else now.wants? with
  | some lock =>
      match state.owner lock with
      | some _ => none
      | none => some ⟨Function.update state.owner lock (some thread), threads⟩
  | none =>
      if choice = .first ∧ now.waits then none
      else
        match now.releases? with
        | some lock => some ⟨Function.update state.owner lock none, threads⟩
        | none => some ⟨state.owner, threads⟩

def step (state : Locked θ κ) (action : θ × Choice) : Locked θ κ :=
  (state.move action.1 action.2).getD state

def WaitsFor (state : Locked θ κ) (thread other : θ) : Prop :=
  ∃ lock, (state.threads thread).wants? = some lock ∧
    state.owner lock = some other

end Locked

section Order

variable (rank : κ → Nat)

/-- No lock of a rank below the bound is taken, and none below those around
it. -/
def Locking.Above (bound : Nat) : Locking κ → Prop
  | .done => True
  | .wait => True
  | .seq first second => first.Above bound ∧ second.Above bound
  | .either first second => first.Above bound ∧ second.Above bound
  | .loop body => body.Above bound
  | .guarded lock body => bound ≤ rank lock ∧ body.Above (rank lock + 1)
  | .attempt body handler => body.Above bound ∧ handler.Above bound

instance Locking.aboveDecidable (bound : Nat) :
    (code : Locking κ) → Decidable (code.Above rank bound)
  | .done => .isTrue trivial
  | .wait => .isTrue trivial
  | .seq first second =>
      have := aboveDecidable bound first
      have := aboveDecidable bound second
      inferInstanceAs (Decidable (_ ∧ _))
  | .either first second =>
      have := aboveDecidable bound first
      have := aboveDecidable bound second
      inferInstanceAs (Decidable (_ ∧ _))
  | .loop body => aboveDecidable bound body
  | .guarded lock body =>
      have := aboveDecidable (rank lock + 1) body
      inferInstanceAs (Decidable (_ ∧ _))
  | .attempt body handler =>
      have := aboveDecidable bound body
      have := aboveDecidable bound handler
      inferInstanceAs (Decidable (_ ∧ _))

namespace LockThread

def level : List (Pending κ) → Nat
  | [] => 0
  | .unlock lock :: _ => rank lock + 1
  | .run _ :: rest => level rest
  | .handle _ :: rest => level rest

def Framed : List (Pending κ) → Prop
  | [] => True
  | .unlock lock :: rest => level rank rest ≤ rank lock ∧ Framed rest
  | .run code :: rest => code.Above rank (level rank rest) ∧ Framed rest
  | .handle handler :: rest => handler.Above rank (level rank rest) ∧ Framed rest

variable {rank} {pending rest : List (Pending κ)}

theorem Framed.lt_level (hframed : Framed rank pending) {lock : κ}
    (hheld : lock ∈ held pending) : rank lock < level rank pending := by
  induction pending with
  | nil => cases hheld
  | cons item rest ih =>
      cases item with
      | run code => exact ih hframed.2 hheld
      | handle handler => exact ih hframed.2 hheld
      | unlock other =>
          rcases List.mem_cons.mp hheld with rfl | hrest
          · exact Nat.lt_succ_self _
          · have hlevel := ih hframed.2 hrest
            exact Nat.lt_succ_of_lt (Nat.lt_of_lt_of_le hlevel hframed.1)

theorem framed_unfold {choice : Choice} {code : Locking κ}
    (habove : code.Above rank (level rank rest)) (hframed : Framed rank rest) :
    Framed rank (unfold choice code rest) := by
  cases code with
  | done => exact hframed
  | wait => exact hframed
  | seq first second => exact ⟨habove.1, habove.2, hframed⟩
  | either first second =>
      refine ⟨?_, hframed⟩
      split_ifs
      · exact habove.1
      · exact habove.2
  | loop body =>
      unfold unfold
      split_ifs
      · exact hframed
      · exact ⟨habove, habove, hframed⟩
  | guarded lock body => exact ⟨habove.2, habove.1, hframed⟩
  | attempt body handler => exact ⟨habove.1, habove.2, hframed⟩

theorem framed_advance {thread : LockThread κ} (choice : Choice)
    (hframed : Framed rank thread.pending) :
    Framed rank (thread.advance choice).pending := by
  obtain ⟨throwing, pending⟩ := thread
  cases pending with
  | nil => trivial
  | cons item rest =>
      cases item with
      | unlock lock => exact hframed.2
      | handle handler =>
          cases throwing with
          | false => exact hframed.2
          | true => exact hframed
      | run code =>
          cases throwing with
          | true => exact hframed.2
          | false =>
              unfold advance
              split_ifs
              · exact hframed
              · exact framed_unfold hframed.1 hframed.2

theorem held_of_takes {thread : LockThread κ} {choice : Choice} {lock : κ}
    (hchoice : choice ≠ .throw) (hwants : thread.wants? = some lock) :
    held (thread.advance choice).pending = lock :: held thread.pending := by
  obtain ⟨throwing, pending⟩ := thread
  unfold wants? at hwants
  split at hwants
  next hthread =>
      cases hthread
      cases hwants
      simp only [advance, if_neg hchoice]
      rfl
  next => cases hwants

theorem held_of_releases {thread : LockThread κ} (choice : Choice) {lock : κ}
    (hreleases : thread.releases? = some lock) :
    held thread.pending = lock :: held (thread.advance choice).pending := by
  obtain ⟨throwing, pending⟩ := thread
  unfold releases? at hreleases
  split at hreleases
  next hpending =>
      cases hreleases
      cases hpending
      rfl
  next => cases hreleases

theorem held_of_neither {thread : LockThread κ} {choice : Choice}
    (hwants : choice = .throw ∨ thread.wants? = none)
    (hreleases : thread.releases? = none) :
    held (thread.advance choice).pending = held thread.pending := by
  obtain ⟨throwing, pending⟩ := thread
  cases pending with
  | nil => rfl
  | cons item rest =>
      cases item with
      | unlock lock => cases hreleases
      | handle handler => cases throwing <;> rfl
      | run code =>
          cases throwing with
          | true => rfl
          | false =>
              simp only [advance]
              split_ifs with hchoice
              · rfl
              · have hnone := hwants.resolve_left hchoice
                cases code with
                | guarded lock body => cases hnone
                | loop body =>
                    simp only [unfold]
                    split_ifs
                    · rfl
                    · rfl
                | _ => rfl

end LockThread

namespace Locked

open LockThread

/-- Who owns a lock holds it, and every thread keeps the order. -/
structure Sound (state : Locked θ κ) : Prop where
  owner_iff : ∀ lock thread, state.owner lock = some thread ↔
    lock ∈ held (state.threads thread).pending
  framed : ∀ thread, Framed rank (state.threads thread).pending

variable {rank}

theorem held_start (programs : List (Locking κ)) :
    held (programs.map .run) = [] := by
  induction programs with
  | nil => rfl
  | cons code rest ih => exact ih

theorem framed_start {programs : List (Locking κ)}
    (hordered : ∀ code ∈ programs, code.Above rank 0) :
    Framed rank (programs.map .run) ∧ level rank (programs.map .run) = 0 := by
  induction programs with
  | nil => exact ⟨trivial, rfl⟩
  | cons code rest ih =>
      obtain ⟨hcode, hrest⟩ := List.forall_mem_cons.mp hordered
      obtain ⟨hframed, hlevel⟩ := ih hrest
      refine ⟨⟨?_, hframed⟩, hlevel⟩
      rw [hlevel]
      exact hcode

theorem start_sound {programs : θ → List (Locking κ)}
    (hordered : ∀ thread, ∀ code ∈ programs thread, code.Above rank 0) :
    (start programs).Sound rank where
  owner_iff lock thread := by
    simp only [start, held_start]
    simp
  framed thread := (framed_start (hordered thread)).1

theorem Sound.nodup_held {state : Locked θ κ} (hsound : state.Sound rank)
    (thread : θ) : (held (state.threads thread).pending).Nodup := by
  have hframed := hsound.framed thread
  generalize (state.threads thread).pending = pending at hframed
  induction pending with
  | nil => exact List.nodup_nil
  | cons item rest ih =>
      cases item with
      | run code => exact ih hframed.2
      | handle handler => exact ih hframed.2
      | unlock lock =>
          refine List.nodup_cons.mpr ⟨?_, ih hframed.2⟩
          intro hheld
          have hlevel := hframed.2.lt_level hheld
          exact absurd hframed.1 (Nat.not_le.mpr hlevel)

theorem Sound.lt_of_wants {state : Locked θ κ} (hsound : state.Sound rank)
    {thread : θ} {lock next : κ}
    (hheld : lock ∈ held (state.threads thread).pending)
    (hwants : (state.threads thread).wants? = some next) :
    rank lock < rank next := by
  have hframed := hsound.framed thread
  have hlevel := hframed.lt_level hheld
  unfold wants? at hwants
  split at hwants
  next hthread =>
      cases hwants
      rw [hthread] at hframed hlevel
      exact Nat.lt_of_lt_of_le hlevel hframed.1.1
  next => cases hwants

variable [DecidableEq θ]

theorem Sound.update {state : Locked θ κ} (hsound : state.Sound rank)
    {thread : θ} (choice : Choice) {owner : κ → Option θ}
    (hself : ∀ lock, owner lock = some thread ↔
      lock ∈ held ((state.threads thread).advance choice).pending)
    (hother : ∀ lock other, other ≠ thread →
      (owner lock = some other ↔ state.owner lock = some other)) :
    Sound rank ⟨owner, Function.update state.threads thread
      ((state.threads thread).advance choice)⟩ where
  owner_iff lock other := by
    cases decEq other thread with
    | isTrue hsame =>
        subst hsame
        simp only [Function.update_self]
        exact hself lock
    | isFalse hne =>
        simp only [Function.update_of_ne hne]
        rw [hother lock other hne]
        exact hsound.owner_iff lock other
  framed other := by
    cases decEq other thread with
    | isTrue hsame =>
        subst hsame
        simp only [Function.update_self]
        exact framed_advance choice (hsound.framed other)
    | isFalse hne =>
        simp only [Function.update_of_ne hne]
        exact hsound.framed other

variable [DecidableEq κ]

theorem Sound.move {state next : Locked θ κ} (hsound : state.Sound rank)
    {thread : θ} {choice : Choice}
    (hmove : state.move thread choice = some next) : next.Sound rank := by
  unfold Locked.move at hmove
  simp only at hmove
  cases htakes : if choice = .throw then none
      else (state.threads thread).wants? with
  | some lock =>
      rw [htakes] at hmove
      split_ifs at htakes with hchoice
      have hheld := held_of_takes hchoice htakes
      cases hfree : state.owner lock with
      | some owner => simp [hfree] at hmove
      | none =>
          simp only [hfree, Option.some.injEq] at hmove
          subst hmove
          apply hsound.update
          · intro other
            rw [hheld, List.mem_cons, ← hsound.owner_iff,
              Function.update_apply]
            split_ifs with hsame
            · simp [hsame]
            · simp [hsame]
          · intro other another hne
            rw [Function.update_apply]
            split_ifs with hsame
            · simp [hsame, hfree, Ne.symm hne]
            · rfl
  | none =>
      rw [htakes] at hmove
      have hwants : choice = .throw ∨ (state.threads thread).wants? = none := by
        split_ifs at htakes with hchoice
        · exact .inl hchoice
        · exact .inr htakes
      simp only at hmove
      split_ifs at hmove
      cases hreleases : (state.threads thread).releases? with
      | none =>
          simp only [hreleases, Option.some.injEq] at hmove
          subst hmove
          apply hsound.update
          · intro lock
            rw [held_of_neither hwants hreleases]
            exact hsound.owner_iff lock thread
          · exact fun _ _ _ => Iff.rfl
      | some lock =>
          simp only [hreleases, Option.some.injEq] at hmove
          subst hmove
          have hheld := held_of_releases choice hreleases
          have hnodup := hsound.nodup_held thread
          rw [hheld] at hnodup
          have howns : state.owner lock = some thread := by
            rw [hsound.owner_iff, hheld]
            exact .head _
          apply hsound.update
          · intro other
            rw [Function.update_apply]
            split_ifs with hsame
            · subst hsame
              exact iff_of_false (by simp) (List.nodup_cons.mp hnodup).1
            · rw [hsound.owner_iff, hheld, List.mem_cons, or_iff_right hsame]
          · intro other another hne
            rw [Function.update_apply]
            split_ifs with hsame
            · subst hsame
              rw [howns]
              simp [Ne.symm hne]
            · rfl

theorem Sound.run {state : Locked θ κ} (hsound : state.Sound rank)
    (actions : List (θ × Choice)) :
    (Data.run step state actions).Sound rank := by
  refine invariant_run (fun state action hsound => ?_) hsound actions
  unfold step
  cases hmove : state.move action.1 action.2 with
  | none => exact hsound
  | some next => exact hsound.move hmove

theorem move_of_wants {state : Locked θ κ} {thread : θ}
    (hfree : ∀ lock, (state.threads thread).wants? = some lock →
      state.owner lock = none)
    (hwaits : (state.threads thread).waits = false) :
    ∃ next, state.move thread .first = some next := by
  unfold Locked.move
  simp only [reduceCtorEq, if_false, hwaits, Bool.false_eq_true, and_false]
  cases hwants : (state.threads thread).wants? with
  | some lock =>
      simp only [hfree lock hwants]
      exact ⟨_, rfl⟩
  | none =>
      cases (state.threads thread).releases? with
      | some lock => exact ⟨_, rfl⟩
      | none => exact ⟨_, rfl⟩

/-- A thread with a lock that waits for nothing, or for something else than a
lock. -/
structure Going (state : Locked θ κ) (thread : θ) : Prop where
  holds : ∃ lock, state.owner lock = some thread
  goes : (state.threads thread).waits = true ∨
    ∃ next, state.move thread .first = some next

theorem Going.of_holds {state : Locked θ κ} {thread : θ} {held : κ}
    (hholds : state.owner held = some thread)
    (hfree : ∀ lock, (state.threads thread).wants? = some lock →
      state.owner lock = none) : state.Going thread where
  holds := ⟨held, hholds⟩
  goes := by
    cases hwaits : (state.threads thread).waits with
    | true => exact .inl rfl
    | false => exact .inr (move_of_wants hfree hwaits)

omit [DecidableEq θ] [DecidableEq κ] in
/-- Along a chain of owners the ranks rise. -/
theorem Sound.rank_lt {state : Locked θ κ} (hsound : state.Sound rank)
    {thread other : θ} (hchain : Relation.TransGen state.WaitsFor thread other)
    {lock next : κ} (hwants : (state.threads thread).wants? = some lock)
    (hnext : (state.threads other).wants? = some next) :
    rank lock < rank next := by
  induction hchain generalizing next with
  | single hwaits =>
      obtain ⟨wanted, hwanted, howner⟩ := hwaits
      cases hwants.symm.trans hwanted
      exact hsound.lt_of_wants ((hsound.owner_iff _ _).mp howner) hnext
  | tail _ hwaits ih =>
      obtain ⟨wanted, hwanted, howner⟩ := hwaits
      have hless := hsound.lt_of_wants ((hsound.owner_iff _ _).mp howner) hnext
      exact Nat.lt_trans (ih hwanted) hless

omit [DecidableEq θ] [DecidableEq κ] in
theorem Sound.not_circular {state : Locked θ κ} (hsound : state.Sound rank)
    (thread : θ) : ¬ Relation.TransGen state.WaitsFor thread thread := by
  intro hcircle
  obtain ⟨other, ⟨lock, hwants, howner⟩, hrest⟩ :=
    Relation.TransGen.head'_iff.mp hcircle
  exact Nat.lt_irrefl _ (hsound.rank_lt hcircle hwants hwants)

/-- Whoever waits for a lock waits, over the owners of locks, for one that waits
for none that is taken. -/
theorem Sound.waits_end {bound : Nat} (hbound : ∀ lock, rank lock ≤ bound)
    {state : Locked θ κ} (hsound : state.Sound rank) {thread owner : θ}
    (hwaits : state.WaitsFor thread owner) :
    ∃ other, Relation.TransGen state.WaitsFor thread other ∧
      state.Going other := by
  obtain ⟨lock, hwants, howner⟩ := hwaits
  have hwaits : state.WaitsFor thread owner := ⟨lock, hwants, howner⟩
  induction hgap : bound - rank lock using
    Nat.strongRecOn generalizing thread owner lock with
  | _ gap ih =>
    have hheld := (hsound.owner_iff lock owner).mp howner
    cases hnext : (state.threads owner).wants? with
    | none =>
        refine ⟨owner, .single hwaits, .of_holds howner ?_⟩
        intro other hother
        cases hnext.symm.trans hother
    | some other =>
        cases hfree : state.owner other with
        | none =>
            refine ⟨owner, .single hwaits, .of_holds howner ?_⟩
            intro another hanother
            cases hnext.symm.trans hanother
            exact hfree
        | some next =>
            have hless : rank lock < rank other :=
              hsound.lt_of_wants hheld hnext
            have hlast := hbound other
            obtain ⟨last, hpath, hgoing⟩ := ih _ (by omega) other hnext hfree
              ⟨other, hnext, hfree⟩ rfl
            exact ⟨last, .head hwaits hpath, hgoing⟩

end Locked

end Order

end Hebpf.Data
