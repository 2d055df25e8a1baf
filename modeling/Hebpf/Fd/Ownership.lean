import Hebpf.Data.Locks
import Hebpf.Data.Run
import Mathlib.Data.Fintype.Basic

namespace Hebpf.Fd

open Hebpf.Data

/-! `Fd` objects, known by `ι`, over the descriptor table of the process. -/

def FD_INVALID : Int := -1

/-- Each opening has a number of its own, as the descriptors are given again.
`objects` is `fd_` of the objects that live, `wrapped` the openings an object
was constructed from, and `closed` what each `close` has hit. -/
structure Process (ι : Type) where
  files : Int → Option Nat
  opened : Nat
  objects : ι → Option Int
  wrapped : List Nat
  closed : List (Option Nat)

inductive Operation (ι : Type) where
  | opens (number : Int)
  | construct (object : ι) (fd : Int)
  | moveConstruct (object other : ι)
  | moveAssign (object other : ι)
  | destroy (object : ι)

namespace Process

variable {ι : Type}

def start : Process ι := ⟨fun _ => none, 0, fun _ => none, [], []⟩

def fd (process : Process ι) (object : ι) : Int :=
  (process.objects object).getD FD_INVALID

def close (process : Process ι) (fd : Int) : Process ι :=
  { process with
    files := Function.update process.files fd none
    closed := process.closed ++ [process.files fd] }

def closeFd (process : Process ι) (object : ι) : Process ι :=
  if process.fd object ≠ FD_INVALID then process.close (process.fd object)
  else process

variable [DecidableEq ι]

def setFd (process : Process ι) (object : ι) (fd : Int) : Process ι :=
  { process with objects := Function.update process.objects object (some fd) }

def perform (process : Process ι) : Operation ι → Process ι
  | .opens number =>
      { process with
        files := Function.update process.files number (some process.opened)
        opened := process.opened + 1 }
  | .construct object fd =>
      { process.setFd object fd with
        wrapped := process.wrapped ++ (process.files fd).toList }
  | .moveConstruct object other =>
      (process.setFd object (process.fd other)).setFd other FD_INVALID
  | .moveAssign object other =>
      if object ≠ other then
        ((process.closeFd object).setFd object (process.fd other)).setFd other
          FD_INVALID
      else process
  | .destroy object =>
      let closed := process.closeFd object
      { closed with objects := Function.update closed.objects object none }

omit [DecidableEq ι] in
/-- The kernel opens what is free, an object is constructed from a descriptor
that is open and no other object's, or from none, and the others live. -/
def Legal (process : Process ι) : Operation ι → Prop
  | .opens number => 0 ≤ number ∧ process.files number = none
  | .construct object fd =>
      process.objects object = none ∧
        (fd = FD_INVALID ∨ (process.files fd).isSome = true ∧
          ∀ other, process.objects other ≠ some fd)
  | .moveConstruct object other =>
      process.objects object = none ∧ (process.objects other).isSome = true
  | .moveAssign object other =>
      (process.objects object).isSome = true ∧
        (process.objects other).isSome = true
  | .destroy object => (process.objects object).isSome = true

omit [DecidableEq ι] in
/-- A wrapped descriptor that is open has one object, an object has a descriptor
that is open, no descriptor is closed twice, and without objects all that were
wrapped have been closed. -/
structure Owns (process : Process ι) : Prop where
  heldOnce : ∀ number opening, process.files number = some opening →
    opening ∈ process.wrapped →
      ∃! object, process.objects object = some number
  heldOpen : ∀ object number, process.objects object = some number →
    number ≠ FD_INVALID →
      ∃ opening ∈ process.wrapped, process.files number = some opening
  closedOnce : process.closed.Nodup ∧ none ∉ process.closed
  released : (∀ object, process.objects object = none) →
    ∀ opening ∈ process.wrapped, some opening ∈ process.closed

def held (process : Process ι) (object : ι) : Option Int :=
  (process.objects object).filter fun fd => fd ≠ FD_INVALID

omit [DecidableEq ι] in
theorem ne_of_files {process : Process ι} {number other : Int} {opening : Nat}
    (hfree : process.files number = none)
    (hfile : process.files other = some opening) : other ≠ number := by
  intro heq
  rw [heq, hfree] at hfile
  cases hfile

omit [DecidableEq ι] in
theorem held_eq_some_iff {process : Process ι} {object : ι} {number : Int} :
    process.held object = some number ↔
      process.objects object = some number ∧ number ≠ FD_INVALID := by
  rw [held, Option.filter_eq_some_iff, decide_eq_true_eq]

omit [DecidableEq ι] in
theorem fd_eq (process : Process ι) (object : ι) :
    process.fd object = (process.held object).getD FD_INVALID := by
  unfold fd held
  cases process.objects object with
  | none => rfl
  | some fd =>
      by_cases hfd : fd = FD_INVALID <;> simp [hfd, Option.filter_some]

theorem held_update (process : Process ι) (object : ι) (fd : Option Int) :
    held { process with
        objects := Function.update process.objects object fd } =
      Function.update process.held object
        (fd.filter fun fd => fd ≠ FD_INVALID) := by
  funext other
  by_cases heq : other = object
  · subst heq
    simp [held]
  · simp [held, heq]

theorem held_setFd_invalid (process : Process ι) (object : ι) :
    (process.setFd object FD_INVALID).held =
      Function.update process.held object none :=
  held_update process object (some FD_INVALID)

theorem held_setFd_fd (process : Process ι) (object other : ι) :
    (process.setFd object (process.fd other)).held =
      Function.update process.held object (process.held other) := by
  have hheld : (some (process.fd other)).filter (fun fd => fd ≠ FD_INVALID) =
      process.held other := by
    rw [fd_eq]
    cases hhas : process.held other with
    | none => rfl
    | some number =>
        rw [Option.getD_some, Option.filter_some,
          if_pos (decide_eq_true (held_eq_some_iff.mp hhas).2)]
  rw [← hheld]
  exact held_update process object (some (process.fd other))

omit [DecidableEq ι] in
/-- `owner` is the object that a descriptor belongs to. -/
structure Sound (owner : Int → Option ι) (process : Process ι) : Prop where
  owned : Owned owner process.held
  invalid : process.files FD_INVALID = none
  wrapped : ∀ number object, owner number = some object →
    ∃ opening ∈ process.wrapped, process.files number = some opening
  covered : ∀ number, ∀ opening ∈ process.wrapped,
    process.files number = some opening → (owner number).isSome = true
  numbered : ∀ number opening, process.files number = some opening →
    opening < process.opened
  once : ∀ left right opening, process.files left = some opening →
    process.files right = some opening → left = right
  nodup : process.closed.Nodup
  hit : none ∉ process.closed
  ended : ∀ opening, some opening ∈ process.closed →
    opening < process.opened ∧ ∀ number, process.files number ≠ some opening
  accounted : ∀ opening ∈ process.wrapped, opening < process.opened ∧
    ((∃ number, process.files number = some opening) ∨
      some opening ∈ process.closed)

omit [DecidableEq ι] in
theorem start_sound : Sound (fun _ => none) (start : Process ι) where
  owned _ _ := by simp [start, held]
  invalid := rfl
  wrapped := by simp
  covered := by simp [start]
  numbered := by simp [start]
  once := by simp [start]
  nodup := List.nodup_nil
  hit := by simp [start]
  ended := by simp [start]
  accounted := by simp [start]

section Step

variable {owner : Int → Option ι} {process : Process ι}

omit [DecidableEq ι] in
theorem Sound.owns (hsound : Sound owner process) : process.Owns where
  heldOnce number opening hfile hwrapped := by
    obtain ⟨object, hobject⟩ := Option.isSome_iff_exists.mp
      (hsound.covered number opening hwrapped hfile)
    refine ⟨object, ?_, fun other hother => ?_⟩
    · exact (held_eq_some_iff.mp ((hsound.owned _ _).mp hobject)).1
    · have hnumber : number ≠ FD_INVALID := ne_of_files hsound.invalid hfile
      exact hsound.owned.unique (held_eq_some_iff.mpr ⟨hother, hnumber⟩)
        ((hsound.owned _ _).mp hobject)
  heldOpen object number hobject hnumber :=
    hsound.wrapped number object
      ((hsound.owned _ _).mpr (held_eq_some_iff.mpr ⟨hobject, hnumber⟩))
  closedOnce := ⟨hsound.nodup, hsound.hit⟩
  released hnone opening hwrapped := by
    rcases (hsound.accounted opening hwrapped).2 with ⟨number, hfile⟩ | hclosed
    · obtain ⟨object, hobject⟩ := Option.isSome_iff_exists.mp
        (hsound.covered number opening hwrapped hfile)
      have hheld := (hsound.owned _ _).mp hobject
      rw [held, hnone object] at hheld
      cases hheld
    · exact hclosed

omit [DecidableEq ι] in
theorem Sound.reown (hsound : Sound owner process)
    {after : Int → Option ι} {objects : ι → Option Int}
    (howned : Owned after (held { process with objects }))
    (hsame : ∀ number, (after number).isSome = (owner number).isSome) :
    Sound after { process with objects } where
  owned := howned
  invalid := hsound.invalid
  wrapped number object hafter := by
    have hbefore : (owner number).isSome = true := by
      rw [← hsame, hafter]
      rfl
    obtain ⟨holder, hholder⟩ := Option.isSome_iff_exists.mp hbefore
    exact hsound.wrapped number holder hholder
  covered number opening hwrapped hfile := by
    rw [hsame]
    exact hsound.covered number opening hwrapped hfile
  numbered := hsound.numbered
  once := hsound.once
  nodup := hsound.nodup
  hit := hsound.hit
  ended := hsound.ended
  accounted := hsound.accounted

theorem Sound.opens (hsound : Sound owner process) {number : Int}
    (hnumber : 0 ≤ number) (hfree : process.files number = none) :
    Sound owner (process.perform (.opens number)) where
  owned := hsound.owned
  invalid := by
    have hne : FD_INVALID ≠ number := by
      rw [FD_INVALID]
      omega
    exact (Function.update_of_ne hne _ _).trans hsound.invalid
  wrapped other object hobject := by
    obtain ⟨opening, hwrapped, hfile⟩ := hsound.wrapped other object hobject
    refine ⟨opening, hwrapped, ?_⟩
    have hne : other ≠ number := ne_of_files hfree hfile
    exact (Function.update_of_ne hne _ _).trans hfile
  covered other opening hwrapped hfile := by
    have hopening := (hsound.accounted opening hwrapped).1
    simp only [perform, Function.update_apply] at hfile
    split_ifs at hfile with heq
    · cases hfile
      exact absurd hopening (Nat.lt_irrefl _)
    · exact hsound.covered other opening hwrapped hfile
  numbered other opening hfile := by
    simp only [perform, Function.update_apply] at hfile
    split_ifs at hfile with heq
    · cases hfile
      exact Nat.lt_succ_self _
    · exact Nat.lt_succ_of_lt (hsound.numbered other opening hfile)
  once left right opening hleft hright := by
    simp only [perform, Function.update_apply] at hleft hright
    split_ifs at hleft hright with hl hr hr
    · rw [hl, hr]
    · cases hleft
      exact absurd (hsound.numbered right _ hright) (Nat.lt_irrefl _)
    · cases hright
      exact absurd (hsound.numbered left _ hleft) (Nat.lt_irrefl _)
    · exact hsound.once left right opening hleft hright
  nodup := hsound.nodup
  hit := hsound.hit
  ended opening hclosed := by
    obtain ⟨hlt, hnone⟩ := hsound.ended opening hclosed
    refine ⟨Nat.lt_succ_of_lt hlt, fun other hfile => ?_⟩
    simp only [perform, Function.update_apply] at hfile
    split_ifs at hfile with heq
    · cases hfile
      exact Nat.lt_irrefl _ hlt
    · exact hnone other hfile
  accounted opening hwrapped := by
    obtain ⟨hlt, hopen⟩ := hsound.accounted opening hwrapped
    refine ⟨Nat.lt_succ_of_lt hlt, hopen.imp_left ?_⟩
    intro hopen
    obtain ⟨other, hfile⟩ := hopen
    refine ⟨other, ?_⟩
    have hne : other ≠ number := ne_of_files hfree hfile
    exact (Function.update_of_ne hne _ _).trans hfile

theorem Sound.wrap (hsound : Sound owner process) {object : ι} {fd : Int}
    (hobject : process.objects object = none)
    (hopen : (process.files fd).isSome = true)
    (hfree : ∀ other, process.objects other ≠ some fd) :
    Sound (Function.update owner fd (some object))
      (process.perform (.construct object fd)) := by
  obtain ⟨opening, hfile⟩ := Option.isSome_iff_exists.mp hopen
  have hvalid : fd ≠ FD_INVALID := ne_of_files hsound.invalid hfile
  have hunowned : owner fd = none := by
    by_contra hsome
    obtain ⟨other, hother⟩ := Option.ne_none_iff_exists'.mp hsome
    exact hfree other (held_eq_some_iff.mp ((hsound.owned _ _).mp hother)).1
  have hwrapped : (process.perform (.construct object fd)).wrapped =
      process.wrapped ++ [opening] := by
    rw [perform, hfile]
    rfl
  constructor
  case owned =>
    have hnone : process.held object = none := by
      rw [held, hobject]
      rfl
    have hheld := held_update process object (some fd)
    rw [Option.filter_some, if_pos (decide_eq_true hvalid)] at hheld
    have howned := hsound.owned.acquire hunowned hnone
    rw [← hheld] at howned
    exact howned
  case wrapped =>
    intro number other hother
    rw [hwrapped]
    by_cases heq : number = fd
    · subst heq
      exact ⟨opening, by simp, hfile⟩
    · rw [Function.update_of_ne heq] at hother
      obtain ⟨earlier, hearlier, hfile⟩ := hsound.wrapped number other hother
      exact ⟨earlier, List.mem_append_left _ hearlier, hfile⟩
  case covered =>
    intro number another hmem hanother
    by_cases heq : number = fd
    · subst heq
      simp
    · rw [Function.update_of_ne heq]
      rw [hwrapped, List.mem_append, List.mem_singleton] at hmem
      rcases hmem with hmem | rfl
      · exact hsound.covered number another hmem hanother
      · exact absurd (hsound.once number fd _ hanother hfile) heq
  case accounted =>
    intro another hmem
    rw [hwrapped, List.mem_append, List.mem_singleton] at hmem
    rcases hmem with hmem | rfl
    · exact hsound.accounted another hmem
    · exact ⟨hsound.numbered fd _ hfile, .inl ⟨fd, hfile⟩⟩
  case invalid => exact hsound.invalid
  case numbered => exact hsound.numbered
  case once => exact hsound.once
  case nodup => exact hsound.nodup
  case hit => exact hsound.hit
  case ended => exact hsound.ended

omit [DecidableEq ι] in
theorem files_close {number other : Int} {opening : Nat}
    (hfile : (process.close number).files other = some opening) :
    other ≠ number ∧ process.files other = some opening := by
  simp only [close, Function.update_apply] at hfile
  split_ifs at hfile with heq
  exact ⟨heq, hfile⟩

omit [DecidableEq ι] in
theorem closed_close {number : Int} {opening : Nat}
    (hfile : process.files number = some opening) :
    (process.close number).closed = process.closed ++ [some opening] := by
  rw [close, hfile]

omit [DecidableEq ι] in
theorem Sound.nodup_close (hsound : Sound owner process) {number : Int}
    {opening : Nat} (hfile : process.files number = some opening) :
    (process.close number).closed.Nodup := by
  rw [closed_close hfile]
  refine List.nodup_append.mpr ⟨hsound.nodup, by simp, ?_⟩
  intro left hleft right hright heq
  rw [List.mem_singleton] at hright
  rw [heq, hright] at hleft
  exact (hsound.ended opening hleft).2 number hfile

omit [DecidableEq ι] in
theorem Sound.ended_close (hsound : Sound owner process) {number : Int}
    {opening another : Nat} (hfile : process.files number = some opening)
    (hanother : some another ∈ (process.close number).closed) :
    another < process.opened ∧
      ∀ other, (process.close number).files other ≠ some another := by
  rw [closed_close hfile, List.mem_append, List.mem_singleton] at hanother
  rcases hanother with hearlier | hnow
  · obtain ⟨hlt, hnone⟩ := hsound.ended another hearlier
    exact ⟨hlt, fun other hother => hnone other (files_close hother).2⟩
  · cases hnow
    refine ⟨hsound.numbered number _ hfile, fun other hother => ?_⟩
    obtain ⟨hne, hbefore⟩ := files_close hother
    exact hne (hsound.once other number _ hbefore hfile)

omit [DecidableEq ι] in
theorem Sound.accounted_close (hsound : Sound owner process) {number : Int}
    {opening another : Nat} (hfile : process.files number = some opening)
    (hanother : another ∈ process.wrapped) :
    another < process.opened ∧
      ((∃ other, (process.close number).files other = some another) ∨
        some another ∈ (process.close number).closed) := by
  obtain ⟨hlt, hopen⟩ := hsound.accounted another hanother
  refine ⟨hlt, ?_⟩
  rw [closed_close hfile, List.mem_append, List.mem_singleton]
  rcases hopen with ⟨other, hother⟩ | hearlier
  · by_cases heq : other = number
    · rw [heq, hfile] at hother
      exact .inr (.inr hother.symm)
    · exact .inl ⟨other, (Function.update_of_ne heq _ _).trans hother⟩
  · exact .inr (.inl hearlier)

theorem Sound.close (hsound : Sound owner process) {object : ι} {number : Int}
    (hhas : process.held object = some number) {fd : Option Int}
    (hfd : fd.filter (fun fd => fd ≠ FD_INVALID) = none) :
    Sound (Function.update owner number none) { process.close number with
      objects := Function.update process.objects object fd } := by
  have hvalid := (held_eq_some_iff.mp hhas).2
  have howner := (hsound.owned number object).mpr hhas
  obtain ⟨opening, hwrapped, hfile⟩ := hsound.wrapped number object howner
  constructor
  case owned =>
    have howned := hsound.owned.release hhas
    rw [← hfd, ← held_update] at howned
    exact howned
  case invalid =>
    exact (Function.update_of_ne hvalid.symm _ _).trans hsound.invalid
  case wrapped =>
    intro other holder hholder
    rw [Function.update_apply] at hholder
    split_ifs at hholder with heq
    obtain ⟨another, hanother, hother⟩ := hsound.wrapped other holder hholder
    exact ⟨another, hanother, (Function.update_of_ne heq _ _).trans hother⟩
  case covered =>
    intro other another hanother hother
    obtain ⟨hne, hbefore⟩ := files_close hother
    rw [Function.update_of_ne hne]
    exact hsound.covered other another hanother hbefore
  case numbered =>
    exact fun other another hother =>
      hsound.numbered other another (files_close hother).2
  case once =>
    exact fun left right another hleft hright =>
      hsound.once left right another (files_close hleft).2
        (files_close hright).2
  case nodup => exact hsound.nodup_close hfile
  case hit =>
    rw [closed_close hfile]
    simpa using hsound.hit
  case ended => exact fun another => hsound.ended_close hfile
  case accounted => exact fun another => hsound.accounted_close hfile

theorem Sound.drop (hsound : Sound owner process) (object : ι)
    {fd : Option Int} (hfd : fd.filter (fun fd => fd ≠ FD_INVALID) = none) :
    ∃ after, Sound after { process.closeFd object with
      objects :=
        Function.update (process.closeFd object).objects object fd } := by
  unfold closeFd
  rw [fd_eq]
  cases hhas : process.held object with
  | none =>
      rw [Option.getD_none, if_neg (not_not.mpr rfl)]
      refine ⟨owner, hsound.reown ?_ fun _ => rfl⟩
      rw [held_update, hfd]
      exact hsound.owned.move hhas
  | some number =>
      rw [Option.getD_some, if_pos (held_eq_some_iff.mp hhas).2]
      exact ⟨_, hsound.close hhas hfd⟩

theorem Sound.take (hsound : Sound owner process) {object other : ι}
    (hne : object ≠ other) (hnone : process.held object = none) :
    ∃ after, Sound after ((process.setFd object (process.fd other)).setFd other
      FD_INVALID) := by
  have hheld := held_setFd_invalid (process.setFd object (process.fd other))
    other
  rw [held_setFd_fd] at hheld
  cases hhas : process.held other with
  | none =>
      refine ⟨owner, hsound.reown ?_ fun _ => rfl⟩
      have hsame := (hsound.owned.move hnone).move
        ((Function.update_of_ne hne.symm _ _).trans hhas)
      rw [hhas] at hheld
      exact hheld ▸ hsame
  | some number =>
      have howner := (hsound.owned number other).mpr hhas
      refine ⟨Function.update owner number (some object),
        hsound.reown ?_ fun another => ?_⟩
      · have hgoes := hsound.owned.transfer hhas hnone
        rw [Function.update_comm hne.symm] at hgoes
        rw [hhas] at hheld
        exact hheld ▸ hgoes
      · by_cases heq : another = number
        · rw [heq, Function.update_self, howner]
          rfl
        · rw [Function.update_of_ne heq]

theorem Sound.begin (hsound : Sound owner process) {object : ι}
    (hobject : process.objects object = none) :
    Sound owner (process.perform (.construct object FD_INVALID)) := by
  have hnone : process.held object = none := by
    rw [held, hobject]
    rfl
  have hwrapped : process.perform (.construct object FD_INVALID) =
      process.setFd object FD_INVALID := by
    rw [Process.perform, hsound.invalid]
    simp [setFd]
  rw [hwrapped]
  refine hsound.reown ?_ fun _ => rfl
  have hsame := hsound.owned.move hnone
  rw [← held_setFd_invalid] at hsame
  exact hsame

theorem setFd_setFd (process : Process ι) (object : ι) (earlier fd : Int) :
    (process.setFd object earlier).setFd object fd =
      process.setFd object fd := by
  simp [setFd]

theorem fd_setFd_of_ne (process : Process ι) {object other : ι}
    (hne : other ≠ object) (fd : Int) :
    (process.setFd object fd).fd other = process.fd other :=
  congrArg (Option.getD · FD_INVALID) (Function.update_of_ne hne _ _)

omit [DecidableEq ι] in
theorem fd_closeFd (process : Process ι) (object other : ι) :
    (process.closeFd object).fd other = process.fd other := by
  unfold closeFd
  split_ifs <;> rfl

theorem Sound.perform (hsound : Sound owner process)
    {operation : Operation ι} (hlegal : process.Legal operation) :
    ∃ after, Sound after (process.perform operation) := by
  cases operation with
  | opens number => exact ⟨owner, hsound.opens hlegal.1 hlegal.2⟩
  | construct object fd =>
      obtain ⟨hobject, rfl | ⟨hopen, hfree⟩⟩ := hlegal
      · exact ⟨owner, hsound.begin hobject⟩
      · exact ⟨_, hsound.wrap hobject hopen hfree⟩
  | moveConstruct object other =>
      obtain ⟨hobject, hother⟩ := hlegal
      have hne : object ≠ other := by
        rintro rfl
        rw [hobject] at hother
        cases hother
      refine hsound.take hne ?_
      rw [held, hobject]
      rfl
  | moveAssign object other =>
      by_cases hne : object = other
      · rw [Process.perform, if_neg (not_not.mpr hne)]
        exact ⟨owner, hsound⟩
      · rw [Process.perform, if_pos hne]
        obtain ⟨after, hdropped⟩ := hsound.drop object
          (show (some FD_INVALID).filter (fun fd => fd ≠ FD_INVALID) = none
            from rfl)
        have hnone : held ((process.closeFd object).setFd object FD_INVALID)
            object = none := by
          rw [held_setFd_invalid, Function.update_self]
        have htaken := Sound.take hdropped hne hnone
        change ∃ last, Sound last ((setFd ((process.closeFd object).setFd object
          FD_INVALID) object (fd ((process.closeFd object).setFd object
            FD_INVALID) other)).setFd other FD_INVALID) at htaken
        rwa [fd_setFd_of_ne _ (Ne.symm hne), fd_closeFd, setFd_setFd] at htaken
  | destroy object => exact hsound.drop object rfl

end Step

/-- Whatever legal operations run in whatever order, ownership is kept. -/
theorem owns_run (operations : List (Operation ι))
    (hlegal : StepsMeet perform Legal start operations) :
    Throughout perform Owns (start : Process ι) operations := by
  have hsound := @throughout_of_stepsMeet (Process ι) (Operation ι) perform
    Legal (fun process => ∃ owner, Sound owner process)
    (fun _ _ ⟨_, hsound⟩ hlegal => hsound.perform hlegal)
    start operations ⟨_, start_sound⟩ hlegal
  exact hsound.imp fun _ ⟨_, hsound⟩ => hsound.owns

omit [DecidableEq ι] in
instance decidableLegal [Fintype ι] (process : Process ι)
    (operation : Operation ι) : Decidable (process.Legal operation) := by
  cases operation <;> unfold Legal <;> infer_instance

theorem owns_run_moved :
    Throughout perform Owns (start : Process Bool)
      [.opens 3, .construct true 3, .opens 4, .construct false 4,
        .moveAssign true false, .moveAssign true true, .destroy true,
        .destroy false] :=
  owns_run _ (by decide)

end Process

end Hebpf.Fd
