import Hebpf.Daemon.Configs

namespace Hebpf.Ebpf

open Hebpf.Daemon

/-! Which raw descriptors the hooks and the network services close. -/

/-- `EbpfNetHookIf`: it is attached while it has the descriptor. -/
structure NetHook where
  attached : Bool
  progFd : Option Nat
  held : attached = progFd.isSome

namespace NetHook

def new : NetHook := ⟨false, none, rfl⟩

/-- `fd` is closed with the `Fd` around it unless the hook keeps it. -/
def attach (hook : NetHook) (fd : Nat) (attaches : Bool) :
    Bool × NetHook × List Nat :=
  if hook.attached then (false, hook, [fd])
  else if attaches then (true, ⟨true, some fd, rfl⟩, hook.progFd.toList)
  else (false, hook, [fd])

/-- A hook the kernel does not detach keeps its descriptor. -/
def detach (hook : NetHook) (detaches : Bool) : Bool × NetHook × List Nat :=
  if ¬ hook.attached then (true, hook, [])
  else if detaches then (true, new, hook.progFd.toList)
  else (false, hook, [])

/-- An attached hook calls a pure virtual function when it is destroyed, and
the process is at its end. -/
def destroy (hook : NetHook) : Option (List Nat) :=
  if hook.attached then none else some hook.progFd.toList

theorem progFd_of_not_attached {hook : NetHook}
    (hattached : hook.attached = false) : hook.progFd = none := by
  have hheld := hook.held
  rw [hattached] at hheld
  exact Option.not_isSome_iff_eq_none.mp (by rw [← hheld]; decide)

theorem exists_progFd {hook : NetHook} (hattached : hook.attached = true) :
    ∃ fd, hook.progFd = some fd := by
  have hheld := hook.held
  rw [hattached] at hheld
  exact Option.isSome_iff_exists.mp hheld.symm

theorem destroy_eq_some {hook : NetHook} {dropped : List Nat}
    (hdestroy : hook.destroy = some dropped) :
    hook.attached = false ∧ dropped = [] := by
  unfold destroy at hdestroy
  split_ifs at hdestroy with hattached
  have hnot := Bool.eq_false_iff.mpr hattached
  rw [progFd_of_not_attached hnot] at hdestroy
  exact ⟨hnot, (Option.some.inj hdestroy).symm⟩

end NetHook

/-- The descriptors of a loaded skeleton: of the main program, and of the maps
and the other programs. -/
structure Skeleton where
  mainProg : Nat
  others : List Nat

structure NetService where
  skel : Option Skeleton
  hook : Option NetHook
  attached : Bool

namespace NetService

def start (mainProg : Nat) (others : List Nat) : NetService :=
  ⟨some ⟨mainProg, others⟩, none, false⟩

def dropHook (service : NetService) : Option (List Nat) :=
  (service.hook.map NetHook.destroy).getD (some [])

def hasHook : HookType → Bool
  | .tc | .xdpGeneric | .xdpNative | .xdpOffload => true
  | _ => false

/-- `none` is the end of the process. -/
def attachGeneric (service : NetService) (hookType : HookType)
    (ifindex : Int32) (attaches : Bool) :
    Option (Bool × NetService × List Nat) :=
  if ifindex < 0 then some (false, service, [])
  else if service.attached then some (true, service, [])
  else
    match service.skel with
    | none => some (false, service, [])
    | some skel =>
        if ¬ hasHook hookType then some (false, service, [])
        else
          match service.dropHook with
          | none => none
          | some dropped =>
              match NetHook.new.attach skel.mainProg attaches with
              | (true, hook, closed) =>
                  some (true, { service with
                    hook := some hook
                    attached := true }, dropped ++ closed)
              | (false, _, closed) =>
                  some (false, { service with hook := none }, dropped ++ closed)

def detach (service : NetService) (detaches : Bool) :
    NetService × List Nat :=
  if ¬ service.attached then (service, [])
  else
    match service.hook with
    | none => (service, [])
    | some hook =>
        let (_, hook, closed) := hook.detach detaches
        ({ service with hook := some hook, attached := false }, closed)

/-- `none` is an assertion that fails. -/
def destroy (service : NetService) : Option (NetService × Skeleton) :=
  service.skel.map fun skel => ({ service with skel := none }, skel)

def Refused (service : NetService) (hookType : HookType) (ifindex : Int32)
    (attaches : Bool) : Prop :=
  attaches = false ∧ ¬ ifindex < 0 ∧ service.attached = false ∧
    service.skel.isSome = true ∧ hasHook hookType = true ∧
    ∀ hook ∈ service.hook, hook.attached = false

def LetsGo (service : NetService) (detaches : Bool) : Prop :=
  detaches = true ∧ service.attached = true ∧
    ∃ hook ∈ service.hook, hook.attached = true

instance (service : NetService) (hookType : HookType) (ifindex : Int32)
    (attaches : Bool) :
    Decidable (service.Refused hookType ifindex attaches) := by
  unfold Refused
  infer_instance

instance (service : NetService) (detaches : Bool) :
    Decidable (service.LetsGo detaches) := by
  unfold LetsGo
  infer_instance

def HoldsMain (service : NetService) (number : Nat) : Prop :=
  (∃ skel ∈ service.skel, skel.mainProg = number) ∨
    ∃ hook ∈ service.hook, hook.progFd = some number

/-- What a call leaves to the service, and which numbers it closes, if it
closes the main program's exactly where `releases` holds. -/
structure MainSpec (service after : NetService) (closed : List Nat)
    (releases : Prop) : Prop where
  skel : after.skel = service.skel
  holds : ∀ number, after.HoldsMain number → service.HoldsMain number
  closes : releases → ∃ number, closed = [number] ∧ service.HoldsMain number
  keeps : ¬ releases → closed = []

theorem MainSpec.same {service : NetService} {releases : Prop}
    (hnot : ¬ releases) : MainSpec service service [] releases where
  skel := rfl
  holds _ := id
  closes hreleases := absurd hreleases hnot
  keeps _ := rfl

theorem dropHook_eq_some {service : NetService} {dropped : List Nat}
    (hdrop : service.dropHook = some dropped) :
    dropped = [] ∧ ∀ hook ∈ service.hook, hook.attached = false := by
  unfold dropHook at hdrop
  cases hhook : service.hook with
  | none =>
      rw [hhook] at hdrop
      exact ⟨(Option.some.inj hdrop).symm, by simp⟩
  | some hook =>
      rw [hhook] at hdrop
      obtain ⟨hattached, hempty⟩ := NetHook.destroy_eq_some hdrop
      refine ⟨hempty, fun other hother => ?_⟩
      cases hother
      exact hattached

theorem not_refused_of_eq_none {service : NetService} {hookType : HookType}
    {ifindex : Int32} {attaches : Bool}
    (hattach : service.attachGeneric hookType ifindex attaches = none) :
    ¬ service.Refused hookType ifindex attaches := by
  rintro ⟨-, hifindex, hattached, hskel, hhook, hfree⟩
  obtain ⟨skel, hskel⟩ := Option.isSome_iff_exists.mp hskel
  have hdrop : ∃ dropped, service.dropHook = some dropped := by
    unfold dropHook
    cases hheld : service.hook with
    | none => exact ⟨[], rfl⟩
    | some hook =>
        refine ⟨hook.progFd.toList, ?_⟩
        have hnot := hfree hook hheld
        simp [NetHook.destroy, hnot]
  obtain ⟨dropped, hdrop⟩ := hdrop
  unfold attachGeneric at hattach
  rw [if_neg hifindex, hattached, if_neg (by decide)] at hattach
  simp only [hskel, hhook, hdrop] at hattach
  cases attaches <;> cases hattach

theorem attachGeneric_spec {service after : NetService} {hookType : HookType}
    {ifindex : Int32} {attaches attached : Bool} {closed : List Nat}
    (hattach : service.attachGeneric hookType ifindex attaches =
      some (attached, after, closed)) :
    MainSpec service after closed
      (service.Refused hookType ifindex attaches) := by
  unfold attachGeneric at hattach
  by_cases hifindex : ifindex < 0
  · rw [if_pos hifindex] at hattach
    cases hattach
    exact .same fun hrefused => hrefused.2.1 hifindex
  rw [if_neg hifindex] at hattach
  by_cases hattached : service.attached = true
  · rw [if_pos hattached] at hattach
    cases hattach
    refine .same fun hrefused => ?_
    rw [hrefused.2.2.1] at hattached
    cases hattached
  rw [if_neg hattached] at hattach
  cases hskel : service.skel with
  | none =>
      simp only [hskel, Option.some.injEq, Prod.mk.injEq] at hattach
      obtain ⟨-, rfl, rfl⟩ := hattach
      refine .same fun hrefused => ?_
      have hsome := hrefused.2.2.2.1
      rw [hskel] at hsome
      cases hsome
  | some skel =>
      simp only [hskel] at hattach
      by_cases hhook : hasHook hookType = true
      case neg =>
        rw [if_pos hhook] at hattach
        cases hattach
        exact .same fun hrefused => hhook hrefused.2.2.2.2.1
      rw [if_neg (not_not.mpr hhook)] at hattach
      cases hdrop : service.dropHook with
      | none =>
          rw [hdrop] at hattach
          cases hattach
      | some dropped =>
          obtain ⟨rfl, hfree⟩ := dropHook_eq_some hdrop
          rw [hdrop] at hattach
          have hholds : service.HoldsMain skel.mainProg :=
            .inl ⟨skel, hskel, rfl⟩
          cases attaches with
          | true =>
              cases hattach
              refine ⟨hskel.symm, fun number hnumber => ?_, fun hrefused => ?_,
                fun _ => rfl⟩
              · rcases hnumber with hnumber | ⟨hook, hmem, hprog⟩
                · exact .inl (hskel ▸ hnumber)
                · cases hmem
                  cases hprog
                  exact hholds
              · cases hrefused.1
          | false =>
              cases hattach
              refine ⟨hskel.symm, fun number hnumber => ?_,
                fun _ => ⟨skel.mainProg, rfl, hholds⟩, fun hnot => ?_⟩
              · rcases hnumber with hnumber | ⟨hook, hmem, -⟩
                · exact .inl (hskel ▸ hnumber)
                · cases hmem
              · refine absurd ⟨rfl, hifindex, ?_, ?_, hhook, hfree⟩ hnot
                · exact Bool.eq_false_iff.mpr hattached
                · rw [hskel]
                  rfl

theorem detach_spec (service : NetService) (detaches : Bool) :
    MainSpec service (service.detach detaches).1 (service.detach detaches).2
      (service.LetsGo detaches) := by
  unfold detach
  by_cases hattached : service.attached = true
  case neg =>
    rw [if_pos hattached]
    exact .same fun hgoes => hattached hgoes.2.1
  rw [if_neg (not_not.mpr hattached)]
  cases hhook : service.hook with
  | none =>
      refine .same ?_
      rintro ⟨-, -, hook, hmem, -⟩
      rw [hhook] at hmem
      cases hmem
  | some hook =>
      have hsame : ∀ number,
          HoldsMain ⟨service.skel, some hook, false⟩ number →
            service.HoldsMain number := by
        rintro number (hnumber | ⟨other, hmem, hprog⟩)
        · exact .inl hnumber
        · exact .inr ⟨other, hhook ▸ hmem, hprog⟩
      simp only [NetHook.detach]
      by_cases hheld : hook.attached = true
      case neg =>
        rw [if_pos hheld]
        refine ⟨rfl, hsame, ?_, fun _ => rfl⟩
        rintro ⟨-, -, other, hmem, hother⟩
        rw [hhook] at hmem
        cases hmem
        exact absurd hother hheld
      rw [if_neg (not_not.mpr hheld)]
      cases detaches with
      | true =>
          obtain ⟨fd, hprog⟩ := NetHook.exists_progFd hheld
          refine ⟨rfl, fun number hnumber => ?_, fun _ => ⟨fd, ?_, ?_⟩,
            fun hgoes => ?_⟩
          · rcases hnumber with hnumber | ⟨other, hmem, hnew⟩
            · exact .inl hnumber
            · cases hmem
              cases hnew
          · rw [hprog]
            rfl
          · exact .inr ⟨hook, hhook, hprog⟩
          · exact absurd ⟨rfl, hattached, hook, hhook, hheld⟩ hgoes
      | false =>
          refine ⟨rfl, hsame, fun hgoes => ?_, fun _ => rfl⟩
          cases hgoes.1

end NetService

end Hebpf.Ebpf
