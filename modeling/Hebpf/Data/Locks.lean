import Mathlib.Logic.Function.Basic
import Mathlib.Tactic.Common

namespace Hebpf.Data

/-! Locks `κ`, and threads `θ` that hold at most one of them each, as the place
they are at says. -/

variable {θ κ : Type}

/-- A lock is owned by the one thread that is where it is held. -/
def Owned (owner : κ → Option θ) (lockOf : θ → Option κ) : Prop :=
  ∀ lock thread, owner lock = some thread ↔ lockOf thread = some lock

namespace Owned

variable {owner : κ → Option θ} {lockOf : θ → Option κ}

theorem unique (howned : Owned owner lockOf) {lock : κ} {thread other : θ}
    (hthread : lockOf thread = some lock)
    (hother : lockOf other = some lock) : thread = other :=
  Option.some.inj (((howned lock thread).mpr hthread).symm.trans
    ((howned lock other).mpr hother))

theorem lockOf_ne_of_free (howned : Owned owner lockOf) {lock : κ}
    (hfree : owner lock = none) (thread : θ) : lockOf thread ≠ some lock := by
  intro hholds
  rw [(howned lock thread).mpr hholds] at hfree
  cases hfree

variable [DecidableEq θ]

theorem move (howned : Owned owner lockOf) {thread : θ} {held : Option κ}
    (hsame : lockOf thread = held) :
    Owned owner (Function.update lockOf thread held) := by
  rw [← hsame, Function.update_eq_self]
  exact howned

variable [DecidableEq κ]

theorem acquire (howned : Owned owner lockOf) {lock : κ} {thread : θ}
    (hfree : owner lock = none) (hnone : lockOf thread = none) :
    Owned (Function.update owner lock (some thread))
      (Function.update lockOf thread (some lock)) := by
  intro another other
  by_cases hlock : another = lock <;> by_cases hthread : other = thread
  · subst hlock hthread
    simp
  · subst hlock
    have hnot := howned.lockOf_ne_of_free hfree other
    simp [Function.update_of_ne hthread, hnot, Ne.symm hthread]
  · subst hthread
    have hnot : owner another ≠ some other := by
      rw [Ne, howned, hnone]
      simp
    simp [Function.update_of_ne hlock, hnot, Ne.symm hlock]
  · rw [Function.update_of_ne hlock, Function.update_of_ne hthread, howned]

theorem release (howned : Owned owner lockOf) {lock : κ} {thread : θ}
    (hheld : lockOf thread = some lock) :
    Owned (Function.update owner lock none)
      (Function.update lockOf thread none) := by
  intro another other
  by_cases hlock : another = lock <;> by_cases hthread : other = thread
  · subst hlock hthread
    simp
  · subst hlock
    have hnot : lockOf other ≠ some another :=
      fun hother => hthread (howned.unique hother hheld)
    simp [Function.update_of_ne hthread, hnot]
  · subst hthread
    have hnot : owner another ≠ some other := by
      rw [Ne, howned, hheld, Option.some.injEq]
      exact Ne.symm hlock
    simp [Function.update_of_ne hlock, hnot]
  · rw [Function.update_of_ne hlock, Function.update_of_ne hthread, howned]

theorem transfer (howned : Owned owner lockOf) {lock : κ} {thread other : θ}
    (hheld : lockOf other = some lock) (hnone : lockOf thread = none) :
    Owned (Function.update owner lock (some thread))
      (Function.update (Function.update lockOf other none) thread
        (some lock)) := by
  have hfree : Function.update lockOf other none thread = none := by
    rw [Function.update_apply, hnone, ite_self]
  have htaken := (howned.release hheld).acquire
    (Function.update_self lock none owner) hfree
  rwa [Function.update_idem] at htaken

end Owned

variable [DecidableEq κ]

/-- A thread goes from where it holds one lock to where it holds the other;
`none` if it has to wait. -/
def passLock (owner : κ → Option θ) (thread : θ) (held next : Option κ) :
    Option (κ → Option θ) :=
  match held, next with
  | none, some lock =>
      match owner lock with
      | some _ => none
      | none => some (Function.update owner lock (some thread))
  | some lock, none => some (Function.update owner lock none)
  | _, _ => some owner

theorem Owned.pass [DecidableEq θ] {owner after : κ → Option θ}
    {lockOf : θ → Option κ} (howned : Owned owner lockOf) {thread : θ}
    {next : Option κ}
    (hkeeps : ∀ lock other, lockOf thread = some lock → next = some other →
      lock = other)
    (hpass : passLock owner thread (lockOf thread) next = some after) :
    Owned after (Function.update lockOf thread next) := by
  cases hheld : lockOf thread with
  | none =>
      cases next with
      | none =>
          rw [hheld] at hpass
          cases hpass
          exact howned.move hheld
      | some lock =>
          rw [hheld, passLock] at hpass
          cases hfree : owner lock with
          | some holder => simp [hfree] at hpass
          | none =>
              simp only [hfree, Option.some.injEq] at hpass
              subst hpass
              exact howned.acquire hfree hheld
  | some lock =>
      cases next with
      | none =>
          rw [hheld] at hpass
          cases hpass
          exact howned.release hheld
      | some other =>
          rw [hheld] at hpass
          cases hpass
          cases hkeeps lock other hheld rfl
          exact howned.move hheld

end Hebpf.Data
