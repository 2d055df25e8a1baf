import Hebpf.Data.Reconcile

namespace Hebpf.Data

/-! Two stores that mirror each other: each says of its keys what the other one
says of its values. -/

variable {κ ν : Type}

def Mirrors (forth : Store κ ν) (back : Store ν κ) : Prop :=
  ∀ key value, forth key = some value ↔ back value = some key

variable [DecidableEq κ]

namespace Store

def assign (store : Store κ ν) (key : κ) (value : ν) : Store κ ν :=
  fun other => if key = other then some value else store other

theorem put_of_isSome {store : Store κ ν} {key : κ} {held : ν}
    (hheld : store key = some held) (value : ν) :
    store.put key value = store := by
  funext other
  simp only [put]
  split_ifs with heq
  · subst heq
    simp [hheld]
  · rfl

theorem drop_of_eq_none {store : Store κ ν} {key : κ}
    (habsent : store key = none) : store.drop key = store := by
  funext other
  simp only [drop]
  split_ifs with heq
  · rw [← heq, habsent]
  · rfl

theorem drop_put (store : Store κ ν) (key : κ) (value : ν) :
    (store.put key value).drop key = store.drop key := by
  funext other
  simp only [drop, put]
  split_ifs <;> rfl

end Store

namespace Mirrors

variable [DecidableEq ν] {forth : Store κ ν} {back : Store ν κ}
  (hmirrors : Mirrors forth back) (key : κ) (value : ν)

include hmirrors

omit [DecidableEq ν] in
theorem drop_forth_iff :
    Mirrors (forth.drop key) back ↔ forth key = none := by
  constructor
  · intro hafter
    by_contra hpresent
    obtain ⟨held, hheld⟩ := Option.ne_none_iff_exists'.mp hpresent
    have hgone := (hafter key held).mpr ((hmirrors key held).mp hheld)
    simp [Store.drop] at hgone
  · intro habsent
    rwa [Store.drop_of_eq_none habsent]

omit [DecidableEq κ] in
theorem drop_back_iff :
    Mirrors forth (back.drop value) ↔ back value = none := by
  constructor
  · intro hafter
    by_contra hpresent
    obtain ⟨held, hheld⟩ := Option.ne_none_iff_exists'.mp hpresent
    have hgone := (hafter held value).mp ((hmirrors held value).mpr hheld)
    simp [Store.drop] at hgone
  · intro habsent
    rwa [Store.drop_of_eq_none habsent]

theorem drop_drop_iff :
    Mirrors (forth.drop key) (back.drop value) ↔
      forth key = some value ∨ forth key = none ∧ back value = none := by
  constructor
  · intro hafter
    cases hheld : forth key with
    | none =>
        refine Or.inr ⟨rfl, ?_⟩
        rw [Store.drop_of_eq_none hheld] at hafter
        exact (hmirrors.drop_back_iff value).mp hafter
    | some held =>
        refine Or.inl (congrArg some ?_)
        by_contra hne
        have hkept : (back.drop value) held = some key := by
          simpa [Store.drop, Ne.symm hne] using (hmirrors key held).mp hheld
        simpa [Store.drop] using (hafter key held).mpr hkept
  · rintro (hpair | ⟨hkey, hvalue⟩)
    · have hback := (hmirrors key value).mp hpair
      intro other found
      simp only [Store.drop]
      by_cases hother : key = other
      · subst hother
        simp only [if_true]
        refine iff_of_false (by simp) ?_
        split_ifs with hfound
        · simp
        · intro hheld
          have hsame := hpair.symm.trans ((hmirrors key found).mpr hheld)
          exact hfound (Option.some.inj hsame)
      · by_cases hfound : value = found
        · subst hfound
          simp only [hother, if_false, if_true]
          refine iff_of_false (fun hheld => ?_) (by simp)
          have hsame := hback.symm.trans ((hmirrors other value).mp hheld)
          exact hother (Option.some.inj hsame)
        · simp only [hother, hfound, if_false]
          exact hmirrors other found
    · rwa [Store.drop_of_eq_none hkey, Store.drop_of_eq_none hvalue]

omit [DecidableEq ν] in
theorem put_forth_iff :
    Mirrors (forth.put key value) back ↔ forth key ≠ none := by
  constructor
  · intro hafter habsent
    have hput : (forth.put key value) key = some value := by
      simp [Store.put, habsent]
    have hheld := (hmirrors key value).mpr ((hafter key value).mp hput)
    cases habsent.symm.trans hheld
  · intro hpresent
    obtain ⟨held, hheld⟩ := Option.ne_none_iff_exists'.mp hpresent
    rwa [Store.put_of_isSome hheld]

theorem put_assign_iff :
    Mirrors (forth.put key value) (back.assign value key) ↔
      forth key = some value ∨ forth key = none ∧ back value = none := by
  constructor
  · intro hafter
    have hassigned : (back.assign value key) value = some key := by
      simp [Store.assign]
    have hput := (hafter key value).mpr hassigned
    cases hheld : forth key with
    | some held =>
        rw [Store.put_of_isSome hheld, hheld] at hput
        exact Or.inl hput
    | none =>
        refine Or.inr ⟨rfl, ?_⟩
        by_contra hpresent
        obtain ⟨other, hother⟩ := Option.ne_none_iff_exists'.mp hpresent
        have hforth := (hmirrors other value).mpr hother
        have hkept : (forth.put key value) other = some value := by
          simp only [Store.put, hforth]
          split_ifs <;> rfl
        have hsame := hassigned.symm.trans ((hafter other value).mp hkept)
        cases hheld.symm.trans (Option.some.inj hsame ▸ hforth)
  · rintro (hpair | ⟨hkey, hvalue⟩)
    · have hsame : back.assign value key = back := by
        funext found
        simp only [Store.assign]
        split_ifs with hfound
        · rw [← hfound, (hmirrors key value).mp hpair]
        · rfl
      rwa [Store.put_of_isSome hpair, hsame]
    · intro other found
      simp only [Store.put, Store.assign]
      by_cases hother : key = other <;> by_cases hfound : value = found
      · subst hother hfound
        simp [hkey]
      · subst hother
        simp only [hkey, if_true, hfound, if_false, Option.none_or,
          Option.some.injEq, false_iff]
        intro hheld
        cases hkey.symm.trans ((hmirrors key found).mpr hheld)
      · subst hfound
        simp only [hother, if_true, if_false, Option.some.injEq, iff_false]
        intro hheld
        cases hvalue.symm.trans ((hmirrors other value).mp hheld)
      · simp only [hother, hfound, if_false]
        exact hmirrors other found

end Mirrors

end Hebpf.Data
