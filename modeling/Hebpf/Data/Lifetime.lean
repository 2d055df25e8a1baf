import Mathlib.Data.Nat.Basic
import Mathlib.Logic.Function.Basic
import Mathlib.Tactic.Common

namespace Hebpf.Data

/-! Instances that are started, held under keys, stopped and destroyed, each
known by its number. -/

inductive LifeEvent where
  | started
  | stopped
  | destroyed
  deriving DecidableEq, Repr

abbrev LifeLog := List (Nat × LifeEvent)

def UsedAfter {μ : Type} (last : μ) : List (Nat × μ) → Prop
  | [] => False
  | (n, call) :: rest =>
      call = last ∧ n ∈ rest.map Prod.fst ∨ UsedAfter last rest

instance decidableUsedAfter {μ : Type} [DecidableEq μ] (last : μ) :
    (log : List (Nat × μ)) → Decidable (UsedAfter last log)
  | [] => .isFalse id
  | (n, call) :: rest =>
      have := decidableUsedAfter last rest
      inferInstanceAs (Decidable
        (call = last ∧ n ∈ rest.map Prod.fst ∨ UsedAfter last rest))

theorem usedAfter_append_singleton {μ : Type} {last : μ}
    {log : List (Nat × μ)} {n : Nat} {call : μ} :
    UsedAfter last (log ++ [(n, call)]) ↔
      UsedAfter last log ∨ (n, last) ∈ log := by
  induction log with
  | nil => simp [UsedAfter]
  | cons entry rest ih =>
      obtain ⟨m, earlier⟩ := entry
      simp only [List.cons_append, UsedAfter, ih, List.map_append,
        List.mem_append, List.map_cons, List.map_nil, List.mem_cons,
        List.not_mem_nil, or_false, Prod.mk.injEq]
      constructor
      · rintro (⟨hlast, hmem | heq⟩ | hused | hmem)
        · exact .inl (.inl ⟨hlast, hmem⟩)
        · exact .inr (.inl ⟨heq.symm, hlast.symm⟩)
        · exact .inl (.inr hused)
        · exact .inr (.inr hmem)
      · rintro ((⟨hlast, hmem⟩ | hused) | ⟨heq, hlast⟩ | hmem)
        · exact .inl ⟨hlast, .inl hmem⟩
        · exact .inr (.inl hused)
        · exact .inl ⟨hlast.symm, .inr heq.symm⟩
        · exact .inr (.inr hmem)

def history : LifeLog → Nat → List LifeEvent
  | [], _ => []
  | (other, event) :: rest, n =>
      if other = n then event :: history rest n else history rest n

def befalls (n : Nat) (events : List LifeEvent) : LifeLog :=
  events.map fun event => (n, event)

theorem history_append (first second : LifeLog) (n : Nat) :
    history (first ++ second) n = history first n ++ history second n := by
  induction first with
  | nil => rfl
  | cons entry rest ih =>
      simp only [List.cons_append, history, ih]
      split_ifs <;> rfl

theorem history_befalls (n m : Nat) (events : List LifeEvent) :
    history (befalls n events) m = if n = m then events else [] := by
  induction events with
  | nil => exact (ite_self _).symm
  | cons event rest ih =>
      rw [befalls, List.map_cons, history, ← befalls, ih]
      split_ifs <;> rfl

@[simp] theorem history_append_befalls_self (log : LifeLog) (n : Nat)
    (events : List LifeEvent) :
    history (log ++ befalls n events) n = history log n ++ events := by
  rw [history_append, history_befalls, if_pos rfl]

theorem history_append_befalls_of_ne {n m : Nat} (hne : n ≠ m) (log : LifeLog)
    (events : List LifeEvent) :
    history (log ++ befalls n events) m = history log m := by
  rw [history_append, history_befalls, if_neg hne, List.append_nil]

theorem history_flatMap_befalls {α : Type} {number : α → Nat}
    {entries : List α} (hnodup : (entries.map number).Nodup)
    (events : List LifeEvent) (n : Nat) :
    history (entries.flatMap fun entry => befalls (number entry) events) n =
      if n ∈ entries.map number then events else [] := by
  induction entries with
  | nil => rfl
  | cons entry rest ih =>
      rw [List.map_cons, List.nodup_cons] at hnodup
      rw [List.flatMap_cons, history_append, history_befalls, ih hnodup.2]
      by_cases heq : number entry = n
      · subst heq
        simp [hnodup.1]
      · simp [heq, Ne.symm heq]

/-- An instance that was started is stopped once before it is destroyed. -/
def StoppedOnce (log : LifeLog) (n : Nat) : Prop :=
  .started ∈ history log n →
    .destroyed ∈ history log n ∧
      ((history log n).takeWhile (· ≠ .destroyed)).count .stopped = 1

def Lost (log : LifeLog) (n : Nat) : Prop :=
  history log n = [.started, .destroyed]

def NoneLost (log : LifeLog) : Prop := ∀ n, ¬ Lost log n

theorem Lost.not_stoppedOnce {log : LifeLog} {n : Nat} (hlost : Lost log n) :
    ¬ StoppedOnce log n := by
  rw [StoppedOnce, hlost]
  decide

theorem noneLost_append_befalls {log : LifeLog} {n : Nat}
    {events : List LifeEvent} (hbefore : ¬ Lost log n)
    (hafter : ¬ Lost (log ++ befalls n events) n) :
    NoneLost (log ++ befalls n events) ↔ NoneLost log := by
  refine forall_congr' fun m => ?_
  by_cases heq : n = m
  · subst heq
    exact iff_of_true hafter hbefore
  · rw [Lost, history_append_befalls_of_ne heq, Lost]

/-- The instances under keys have only been started; every other one has not,
or has met its end. -/
structure Holds {κ : Type} (held : κ → Option Nat) (created : Nat)
    (log : LifeLog) : Prop where
  coming : ∀ n, created ≤ n → history log n = []
  started : ∀ key n, held key = some n → history log n = [.started]
  once : ∀ left right n, held left = some n → held right = some n →
    left = right
  ended : ∀ n, (∀ key, held key ≠ some n) →
    history log n = [] ∨
      history log n = [.started, .stopped, .destroyed] ∨ Lost log n

namespace Holds

variable {κ : Type} {held : κ → Option Nat} {created : Nat} {log : LifeLog}

theorem start : Holds (fun _ : κ => none) 0 [] where
  coming _ _ := rfl
  started _ _ hheld := by cases hheld
  once _ _ _ hheld := by cases hheld
  ended _ _ := .inl rfl

theorem lt_created (hholds : Holds held created log) {key : κ} {n : Nat}
    (hheld : held key = some n) : n < created := by
  by_contra hle
  have hempty := hholds.coming n (by omega)
  rw [hholds.started key n hheld] at hempty
  cases hempty

theorem held_ne_created (hholds : Holds held created log) (key : κ) :
    held key ≠ some created :=
  fun hheld => Nat.lt_irrefl _ (hholds.lt_created hheld)

theorem not_lost_created (hholds : Holds held created log) :
    ¬ Lost log created := by
  rw [Lost, hholds.coming created (Nat.le_refl _)]
  decide

theorem skip (hholds : Holds held created log) :
    Holds held (created + 1) log where
  coming n hn := hholds.coming n (by omega)
  started := hholds.started
  once := hholds.once
  ended := hholds.ended

theorem drop (hholds : Holds held created log) :
    Holds held (created + 1) (log ++ befalls created [.started, .destroyed])
    where
  coming n hn := by
    rw [history_append_befalls_of_ne (by omega)]
    exact hholds.coming n (by omega)
  started key n hheld := by
    have hlt := hholds.lt_created hheld
    rw [history_append_befalls_of_ne (by omega)]
    exact hholds.started key n hheld
  once := hholds.once
  ended n hn := by
    by_cases heq : created = n
    · subst heq
      right; right
      rw [Lost, history_append_befalls_self,
        hholds.coming created (Nat.le_refl _)]
      rfl
    · rw [Lost, history_append_befalls_of_ne heq]
      exact hholds.ended n hn

theorem not_noneLost_drop (hholds : Holds held created log) :
    ¬ NoneLost (log ++ befalls created [.started, .destroyed]) := by
  intro hnone
  apply hnone created
  rw [Lost, history_append_befalls_self,
    hholds.coming created (Nat.le_refl _)]
  rfl

theorem keep {after : κ → Option Nat} {key : κ}
    (hholds : Holds held created log) (hfree : held key = none)
    (hkey : after key = some created)
    (hother : ∀ other, other ≠ key → after other = held other) :
    Holds after (created + 1) (log ++ befalls created [.started]) where
  coming n hn := by
    rw [history_append_befalls_of_ne (by omega)]
    exact hholds.coming n (by omega)
  started other n hheld := by
    by_cases heq : other = key
    · subst heq
      rw [hkey, Option.some.injEq] at hheld
      subst hheld
      rw [history_append_befalls_self,
        hholds.coming created (Nat.le_refl _)]
      rfl
    · rw [hother other heq] at hheld
      have hlt := hholds.lt_created hheld
      rw [history_append_befalls_of_ne (by omega)]
      exact hholds.started other n hheld
  once left right n hleft hright := by
    by_cases hleftKey : left = key <;> by_cases hrightKey : right = key
    · rw [hleftKey, hrightKey]
    · rw [hother right hrightKey] at hright
      rw [hleftKey, hkey] at hleft
      exact absurd (hright.trans hleft.symm) (hholds.held_ne_created right)
    · rw [hother left hleftKey] at hleft
      rw [hrightKey, hkey] at hright
      exact absurd (hleft.trans hright.symm) (hholds.held_ne_created left)
    · rw [hother left hleftKey] at hleft
      rw [hother right hrightKey] at hright
      exact hholds.once left right n hleft hright
  ended n hn := by
    have hne : created ≠ n := fun heq => hn key (heq ▸ hkey)
    rw [Lost, history_append_befalls_of_ne hne]
    refine hholds.ended n fun other hheld => ?_
    by_cases heq : other = key
    · rw [heq, hfree] at hheld
      cases hheld
    · exact hn other ((hother other heq).trans hheld)

theorem noneLost_keep (hholds : Holds held created log) :
    NoneLost (log ++ befalls created [.started]) ↔ NoneLost log := by
  refine noneLost_append_befalls hholds.not_lost_created ?_
  rw [Lost, history_append_befalls_self,
    hholds.coming created (Nat.le_refl _)]
  decide

theorem release {after : κ → Option Nat} {key : κ} {n : Nat}
    (hholds : Holds held created log) (hheld : held key = some n)
    (hkey : after key = none)
    (hother : ∀ other, other ≠ key → after other = held other) :
    Holds after created (log ++ befalls n [.stopped, .destroyed]) := by
  have hbefore : ∀ other m, after other = some m →
      n ≠ m ∧ held other = some m := by
    intro other m hafter
    have hne : other ≠ key := by
      rintro rfl
      rw [hkey] at hafter
      cases hafter
    rw [hother other hne] at hafter
    refine ⟨fun heq => hne ?_, hafter⟩
    exact hholds.once other key m hafter (heq ▸ hheld)
  constructor
  case coming =>
    intro m hm
    have hlt := hholds.lt_created hheld
    rw [history_append_befalls_of_ne (by omega)]
    exact hholds.coming m hm
  case started =>
    intro other m hafter
    obtain ⟨hne, hheld⟩ := hbefore other m hafter
    rw [history_append_befalls_of_ne hne]
    exact hholds.started other m hheld
  case once =>
    intro left right m hleft hright
    exact hholds.once left right m (hbefore left m hleft).2
      (hbefore right m hright).2
  case ended =>
    intro m hm
    by_cases heq : n = m
    · subst heq
      right; left
      rw [history_append_befalls_self, hholds.started key n hheld]
      rfl
    · rw [Lost, history_append_befalls_of_ne heq]
      refine hholds.ended m fun other hother' => ?_
      by_cases hotherKey : other = key
      · subst hotherKey
        exact heq (Option.some.inj (hheld.symm.trans hother'))
      · exact hm other ((hother other hotherKey).trans hother')

theorem noneLost_release {key : κ} {n : Nat}
    (hholds : Holds held created log) (hheld : held key = some n) :
    NoneLost (log ++ befalls n [.stopped, .destroyed]) ↔ NoneLost log := by
  have hstarted := hholds.started key n hheld
  refine noneLost_append_befalls ?_ ?_
  · rw [Lost, hstarted]
    decide
  · rw [Lost, history_append_befalls_self, hstarted]
    decide

theorem stoppedOnce_iff (hholds : Holds held created log) {last : LifeLog}
    (hlast : ∀ key n, held key = some n → history last n = [.destroyed])
    (hrest : ∀ n, (∀ key, held key ≠ some n) → history last n = []) :
    (∀ n, StoppedOnce (log ++ last) n) ↔
      NoneLost log ∧ ∀ key, held key = none := by
  constructor
  · intro hall
    have hfree : ∀ key, held key = none := by
      intro key
      cases hheld : held key with
      | none => rfl
      | some n =>
          have hlost : Lost (log ++ last) n := by
            rw [Lost, history_append, hlast key n hheld,
              hholds.started key n hheld]
            rfl
          exact absurd (hall n) hlost.not_stoppedOnce
    refine ⟨fun n hlost => ?_, hfree⟩
    have hlostLast : Lost (log ++ last) n := by
      rw [Lost, history_append, hrest n (by simp [hfree]), List.append_nil]
      exact hlost
    exact hlostLast.not_stoppedOnce (hall n)
  · rintro ⟨hnone, hfree⟩ n
    have hsame : history (log ++ last) n = history log n := by
      rw [history_append, hrest n (by simp [hfree]), List.append_nil]
    rw [StoppedOnce, hsame]
    rcases hholds.ended n (by simp [hfree]) with hempty | hended | hlost
    · rw [hempty]
      decide
    · rw [hended]
      decide
    · exact absurd hlost (hnone n)

end Holds

end Hebpf.Data
