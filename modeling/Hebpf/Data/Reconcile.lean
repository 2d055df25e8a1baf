import Hebpf.Data.OrderedMap

namespace Hebpf.Data

/-! Bringing a store in line with named entries, one entry at a time.  Entries
are known by their names and the store by its keys: each entry has its place, a
key with a value, and two names may want one place. -/

abbrev Store (κ τ : Type) := κ → Option τ

namespace Store

variable {κ τ : Type} [DecidableEq κ]

def put (store : Store κ τ) (key : κ) (value : τ) : Store κ τ :=
  fun other =>
    if key = other then (store other).or (some value) else store other

def drop (store : Store κ τ) (key : κ) : Store κ τ :=
  fun other => if key = other then none else store other

theorem foldl_drop (removed : List κ) (store : Store κ τ) (key : κ) :
    removed.foldl drop store key =
      if key ∈ removed then none else store key := by
  induction removed generalizing store with
  | nil => simp
  | cons head tail ih =>
      rw [List.foldl_cons, ih]
      by_cases htail : key ∈ tail
      · simp [htail]
      · simp [htail, drop, eq_comm]

end Store

section Reconcile

variable {ν μ κ τ : Type} [LinearOrder ν] [DecidableEq κ] [DecidableEq τ]
  (place : μ → κ × τ) (current : OrderedMap ν μ)

def reconcileEntry (store : Store κ τ) (entry : ν × μ) : Store κ τ :=
  match current.find? entry.1 with
  | none => store.put (place entry.2).1 (place entry.2).2
  | some held =>
      if place held = place entry.2 then store
      else (store.drop (place held).1).put (place entry.2).1 (place entry.2).2

def reconcile (removed : List κ) (wanted : OrderedMap ν μ)
    (store : Store κ τ) : Store κ τ :=
  wanted.entries.foldl (reconcileEntry place current)
    (removed.foldl Store.drop store)

def GivesUp (entry : ν × μ) (key : κ) : Prop :=
  ∃ held, current.find? entry.1 = some held ∧
    place held ≠ place entry.2 ∧ (place held).1 = key

/-- The entry is put in a place with this key. -/
def Takes (entry : ν × μ) (key : κ) : Prop :=
  (∀ held, current.find? entry.1 = some held →
    place held ≠ place entry.2) ∧ (place entry.2).1 = key

def Wants (wanted : OrderedMap ν μ) (key : κ) (value : τ) : Prop :=
  ∃ entry ∈ wanted, place entry.2 = (key, value)

variable {place current}

theorem reconcileEntry_eq_some {store : Store κ τ} {entry : ν × μ} {key : κ}
    {value : τ}
    (hafter : reconcileEntry place current store entry key = some value) :
    store key = some value ∧ ¬ GivesUp place current entry key ∨
      Takes place current entry key ∧ place entry.2 = (key, value) := by
  unfold reconcileEntry at hafter
  cases hfind : current.find? entry.1 with
  | none =>
      have hkept : ¬ GivesUp place current entry key := by
        rintro ⟨held, hheld, -⟩
        cases hfind.symm.trans hheld
      simp only [hfind, Store.put] at hafter
      split_ifs at hafter with hkey
      · cases hstore : store key with
        | none =>
            rw [hstore, Option.none_or, Option.some.injEq] at hafter
            refine Or.inr ⟨⟨?_, hkey⟩, Prod.ext hkey hafter⟩
            intro held hheld
            cases hfind.symm.trans hheld
        | some old =>
            rw [hstore, Option.some_or] at hafter
            exact Or.inl ⟨hafter, hkept⟩
      · exact Or.inl ⟨hafter, hkept⟩
  | some held =>
      simp only [hfind] at hafter
      split_ifs at hafter with hsame
      · refine Or.inl ⟨hafter, ?_⟩
        rintro ⟨other, hother, hchanged, -⟩
        cases hfind.symm.trans hother
        exact hchanged hsame
      · have htakes : (place entry.2).1 = key →
            Takes place current entry key := by
          refine fun hkey => ⟨fun other hother => ?_, hkey⟩
          cases hfind.symm.trans hother
          exact hsame
        have hkept : (place held).1 ≠ key →
            ¬ GivesUp place current entry key := by
          rintro hne ⟨other, hother, -, hkey⟩
          cases hfind.symm.trans hother
          exact hne hkey
        simp only [Store.put, Store.drop] at hafter
        by_cases hheld : (place held).1 = key
        · simp only [hheld, if_true, Option.none_or] at hafter
          split_ifs at hafter with hkey
          exact Or.inr ⟨htakes hkey, Prod.ext hkey (by simpa using hafter)⟩
        · simp only [hheld, if_false] at hafter
          split_ifs at hafter with hkey
          · cases hstore : store key with
            | none =>
                rw [hstore, Option.none_or, Option.some.injEq] at hafter
                exact Or.inr ⟨htakes hkey, Prod.ext hkey hafter⟩
            | some old =>
                rw [hstore, Option.some_or] at hafter
                exact Or.inl ⟨hafter, hkept hheld⟩
          · exact Or.inl ⟨hafter, hkept hheld⟩

theorem reconcileEntry_of_takes {store : Store κ τ} {entry : ν × μ} {key : κ}
    (htakes : Takes place current entry key) :
    (reconcileEntry place current store entry key).isSome := by
  obtain ⟨hnew, rfl⟩ := htakes
  unfold reconcileEntry
  cases hfind : current.find? entry.1 with
  | none => simp [Store.put]
  | some held => simp [Store.put, hnew held hfind]

theorem reconcileEntry_of_not_givesUp {store : Store κ τ} {entry : ν × μ}
    {key : κ} {value : τ} (hstore : store key = some value)
    (hkept : ¬ GivesUp place current entry key) :
    reconcileEntry place current store entry key = some value := by
  unfold reconcileEntry
  cases hfind : current.find? entry.1 with
  | none => simp [Store.put, hstore]
  | some held =>
      simp only
      split_ifs with hsame
      · exact hstore
      · have hne : (place held).1 ≠ key :=
          fun hkey => hkept ⟨held, hfind, hsame, hkey⟩
        simp [Store.put, Store.drop, hne, hstore]

theorem foldl_eq_some {rest : List (ν × μ)} {store : Store κ τ} {key : κ}
    {value : τ}
    (hafter : rest.foldl (reconcileEntry place current) store key =
      some value) :
    (store key = some value ∧
        ∀ entry ∈ rest, ¬ GivesUp place current entry key) ∨
      ∃ entry ∈ rest, place entry.2 = (key, value) := by
  induction rest generalizing store with
  | nil => exact Or.inl ⟨hafter, by simp⟩
  | cons head tail ih =>
      rcases ih hafter with ⟨hhead, htail⟩ | ⟨entry, hentry, hplace⟩
      · rcases reconcileEntry_eq_some hhead with ⟨hstore, hkept⟩ | ⟨-, hplace⟩
        · refine Or.inl ⟨hstore, fun entry hentry => ?_⟩
          rcases List.mem_cons.mp hentry with rfl | hentry
          · exact hkept
          · exact htail entry hentry
        · exact Or.inr ⟨head, .head _, hplace⟩
      · exact Or.inr ⟨entry, .tail _ hentry, hplace⟩

theorem foldl_of_not_givesUp {rest : List (ν × μ)} {store : Store κ τ}
    {key : κ} {value : τ} (hstore : store key = some value)
    (hkept : ∀ entry ∈ rest, ¬ GivesUp place current entry key) :
    rest.foldl (reconcileEntry place current) store key = some value := by
  induction rest generalizing store with
  | nil => exact hstore
  | cons head tail ih =>
      exact ih (reconcileEntry_of_not_givesUp hstore (hkept head (.head _)))
        fun entry hentry => hkept entry (.tail _ hentry)

theorem foldl_of_not_takes {rest : List (ν × μ)} {store : Store κ τ} {key : κ}
    (hstore : store key = none)
    (hrest : ∀ entry ∈ rest, ¬ Takes place current entry key) :
    rest.foldl (reconcileEntry place current) store key = none := by
  induction rest generalizing store with
  | nil => exact hstore
  | cons head tail ih =>
      refine ih ?_ fun entry hentry => hrest entry (.tail _ hentry)
      cases hhead : reconcileEntry place current store head key with
      | none => rfl
      | some value =>
          rcases reconcileEntry_eq_some hhead with ⟨hsome, -⟩ | ⟨htakes, -⟩
          · cases hstore.symm.trans hsome
          · exact absurd htakes (hrest head (.head _))

theorem foldl_isSome {rest : List (ν × μ)}
    (hsorted : rest.Pairwise fun left right => left.1 < right.1)
    {store : Store κ τ} {key : κ}
    (hstart : (store key).isSome ∨
      ∃ entry ∈ rest, Takes place current entry key)
    (hhanded : ∀ entry ∈ rest, GivesUp place current entry key →
      ∃ taker ∈ rest, Takes place current taker key ∧ entry.1 ≤ taker.1) :
    (rest.foldl (reconcileEntry place current) store key).isSome := by
  induction rest generalizing store with
  | nil => simpa using hstart
  | cons head tail ih =>
      obtain ⟨hhead, htail⟩ := List.pairwise_cons.mp hsorted
      refine ih htail ?_ ?_
      · by_cases htakes : Takes place current head key
        · exact Or.inl (reconcileEntry_of_takes htakes)
        · have hlater : (∃ entry ∈ head :: tail,
              Takes place current entry key) →
              ∃ entry ∈ tail, Takes place current entry key := by
            rintro ⟨entry, hentry, hother⟩
            rcases List.mem_cons.mp hentry with rfl | hentry
            · exact absurd hother htakes
            · exact ⟨entry, hentry, hother⟩
          by_cases hgives : GivesUp place current head key
          · obtain ⟨taker, htaker, hother, -⟩ :=
              hhanded head (.head _) hgives
            exact Or.inr (hlater ⟨taker, htaker, hother⟩)
          · refine hstart.imp (fun hsome => ?_) hlater
            obtain ⟨value, hvalue⟩ := Option.isSome_iff_exists.mp hsome
            simp [reconcileEntry_of_not_givesUp hvalue hgives]
      · intro entry hentry hgives
        obtain ⟨taker, htaker, htakes, hle⟩ :=
          hhanded entry (.tail _ hentry) hgives
        rcases List.mem_cons.mp htaker with rfl | htaker
        · exact absurd (hhead entry hentry) (not_lt.mpr hle)
        · exact ⟨taker, htaker, htakes, hle⟩

variable (place current)

/-- What the places and the order of the names must give for the store to end up
as wanted. -/
structure Reconcilable (removed : List κ) (wanted : OrderedMap ν μ) :
    Prop where
  agree : ∀ key first second, Wants place wanted key first →
    Wants place wanted key second → first = second
  retaken : ∀ key value, key ∈ removed → Wants place wanted key value →
    ∃ taker ∈ wanted, Takes place current taker key
  handedOn : ∀ key value entry, entry ∈ wanted →
    GivesUp place current entry key → Wants place wanted key value →
    ∃ taker ∈ wanted, Takes place current taker key ∧ entry.1 ≤ taker.1
  released : ∀ key value, Wants place current key value →
    Wants place wanted key value ∨ key ∈ removed ∨
      ∃ entry ∈ wanted, GivesUp place current entry key

variable {place current}

section Result

variable {removed : List κ} {wanted : OrderedMap ν μ} {store : Store κ τ}
  (hstore : ∀ key value,
    store key = some value ↔ Wants place current key value)

include hstore

theorem wants_or_of_reconcile {key : κ} {value : τ}
    (hafter : reconcile place current removed wanted store key = some value) :
    Wants place wanted key value ∨
      Wants place current key value ∧ key ∉ removed ∧
        ∀ entry ∈ wanted, ¬ GivesUp place current entry key := by
  rcases foldl_eq_some hafter with ⟨hstart, hkept⟩ | hwanted
  · rw [Store.foldl_drop] at hstart
    split_ifs at hstart with hremoved
    exact Or.inr ⟨(hstore key value).mp hstart, hremoved, hkept⟩
  · exact Or.inl hwanted

theorem Reconcilable.reconcile_eq_some_iff
    (hreconcilable : Reconcilable place current removed wanted)
    (key : κ) (value : τ) :
    reconcile place current removed wanted store key = some value ↔
      Wants place wanted key value := by
  have hsound : ∀ found,
      reconcile place current removed wanted store key = some found →
        Wants place wanted key found := by
    intro found hfound
    rcases wants_or_of_reconcile hstore hfound with
      hwanted | ⟨hcurrent, hremoved, hkept⟩
    · exact hwanted
    · rcases hreconcilable.released key found hcurrent with
        hwanted | hgone | ⟨entry, hentry, hgives⟩
      · exact hwanted
      · exact absurd hgone hremoved
      · exact absurd hgives (hkept entry hentry)
  refine ⟨hsound value, fun hwants => ?_⟩
  have hpresent :
      (reconcile place current removed wanted store key).isSome := by
    refine foldl_isSome wanted.sorted ?_
      fun entry hentry hgives =>
        hreconcilable.handedOn key value entry hentry hgives hwants
    by_cases htaken : ∃ taker ∈ wanted, Takes place current taker key
    · exact Or.inr htaken
    · refine Or.inl ?_
      -- Nobody takes the key, so whoever wants it has it already.
      obtain ⟨entry, hentry, hplace⟩ := hwants
      have hheld : ∃ held, current.find? entry.1 = some held ∧
          place held = place entry.2 := by
        by_contra hnone
        exact htaken ⟨entry, hentry, fun held hfind hsame =>
          hnone ⟨held, hfind, hsame⟩, congrArg Prod.fst hplace⟩
      obtain ⟨held, hfind, hsame⟩ := hheld
      have hold : store key = some value := (hstore key value).mpr
        ⟨(entry.1, held), OrderedMap.find?_eq_some_iff.mp hfind,
          hsame.trans hplace⟩
      rw [Store.foldl_drop, if_neg, hold]
      · rfl
      · intro hremoved
        exact htaken (hreconcilable.retaken key value hremoved
          ⟨entry, hentry, hplace⟩)
  obtain ⟨found, hfound⟩ := Option.isSome_iff_exists.mp hpresent
  rw [hfound, hreconcilable.agree key found value (hsound found hfound) hwants]

theorem reconcilable_of_reconcile_eq_some_iff
    (hafter : ∀ key value,
      reconcile place current removed wanted store key = some value ↔
        Wants place wanted key value) :
    Reconcilable place current removed wanted where
  agree := by
    intro key first second hfirst hsecond
    have hboth := ((hafter key first).mpr hfirst).symm.trans
      ((hafter key second).mpr hsecond)
    exact Option.some.inj hboth
  retaken := by
    intro key value hremoved hwants
    by_contra hnone
    have hstart : removed.foldl Store.drop store key = none := by
      rw [Store.foldl_drop, if_pos hremoved]
    have hgone : wanted.entries.foldl (reconcileEntry place current)
        (removed.foldl Store.drop store) key = none :=
      foldl_of_not_takes hstart fun entry hentry htakes =>
        hnone ⟨entry, hentry, htakes⟩
    cases hgone.symm.trans ((hafter key value).mpr hwants)
  handedOn := by
    intro key value entry hentry hgives hwants
    by_contra hnone
    obtain ⟨before, after, hsplit⟩ := List.append_of_mem hentry
    have hlater : ∀ other ∈ entry :: after, entry.1 ≤ other.1 := by
      have hsorted := wanted.sorted
      rw [hsplit] at hsorted
      have hcons := (List.pairwise_append.mp hsorted).2.1
      intro other hother
      rcases List.mem_cons.mp hother with rfl | hother
      · exact le_refl _
      · exact ((List.pairwise_cons.mp hcons).1 other hother).le
    have hfree : ∀ other ∈ entry :: after,
        ¬ Takes place current other key := by
      intro other hother htakes
      refine hnone ⟨other, ?_, htakes, hlater other hother⟩
      change other ∈ wanted.entries
      rw [hsplit]
      exact List.mem_append_right _ hother
    have hgone : ∀ earlier : Store κ τ,
        reconcileEntry place current earlier entry key = none := by
      intro earlier
      cases hentry : reconcileEntry place current earlier entry key with
      | none => rfl
      | some found =>
          rcases reconcileEntry_eq_some hentry with ⟨-, hkept⟩ | ⟨htakes, -⟩
          · exact absurd hgives hkept
          · exact absurd htakes (hfree entry (.head _))
    have hnever := (hafter key value).mpr hwants
    rw [reconcile, hsplit, List.foldl_append, List.foldl_cons,
      foldl_of_not_takes (hgone _) fun other hother =>
        hfree other (.tail _ hother)] at hnever
    cases hnever
  released := by
    intro key value hcurrent
    by_contra hnone
    simp only [not_or, not_exists, not_and] at hnone
    obtain ⟨hunwanted, hremoved, hkept⟩ := hnone
    have hstart : removed.foldl Store.drop store key = some value := by
      rw [Store.foldl_drop, if_neg hremoved]
      exact (hstore key value).mpr hcurrent
    exact hunwanted ((hafter key value).mp
      (foldl_of_not_givesUp hstart hkept))

end Result

end Reconcile

end Hebpf.Data
