import Hebpf.Ebpf.NetHook
import Hebpf.Kernel.Descriptors

namespace Hebpf.Services

open Hebpf.Daemon Hebpf.Data Hebpf.Ebpf Hebpf.Kernel

/-! The descriptors of a process with `Klog` objects, network services, and
whatever else opens descriptors.  Objects are known by numbers that are not used
again. -/

inductive FdOwner where
  | klog (klog : Nat)
  | mainProg (service : Nat)
  | other (service number : Nat)
  | foreign (name : Nat)
  deriving DecidableEq, Repr

inductive FdObject where
  | klog (klog : Nat)
  | service (service : Nat)
  | foreign (name : Nat)
  deriving DecidableEq, Repr

def FdOwner.object : FdOwner → FdObject
  | .klog name => .klog name
  | .mainProg name | .other name _ => .service name
  | .foreign name => .foreign name

/-- `map_fd_` of the pinned map, and the same number in the `Fd` of the ring
buffer. -/
structure Klog where
  mapFd : Option Nat
  ringFd : Nat

namespace Klog

/-- What comes of `getRingbuffer` in the constructor. -/
inductive Outcome where
  | noMap
  | pinFails (number : Nat)
  | ringFails (number : Nat)
  | built (number : Nat)

/-- A map that is not pinned is closed by `init`, one without a ring buffer
with the `Fd` around it. -/
def construct (klog : Nat) : Outcome → Option Klog × List (FdCall FdOwner)
  | .noMap => (none, [])
  | .pinFails number | .ringFails number =>
      (none, [.opens (.klog klog) number, .closes (.klog klog) number])
  | .built number => (some ⟨some number, number⟩, [.opens (.klog klog) number])

def unpin (klog : Klog) : Klog × List Nat :=
  ({ klog with mapFd := none }, klog.mapFd.toList)

def delete (klog : Klog) : List Nat := [klog.ringFd]

end Klog

inductive Life (α : Type) where
  | unborn
  | alive (value : α)
  | gone

/-- The main program of a service is `released` once a hook was refused or
detached, or its skeleton destroyed. -/
structure Process where
  files : Files FdOwner
  klogs : Nat → Life Klog
  services : Nat → Life NetService
  foreign : Nat → Life Nat
  released : Nat → Bool
  ended : Bool

inductive FdAction where
  | constructKlog (klog : Nat) (outcome : Klog.Outcome)
  | unpin (klog : Nat)
  | deleteKlog (klog : Nat)
  | start (service : Nat) (mainProg : Nat) (others : List Nat)
  | attachGeneric (service : Nat) (hookType : HookType) (ifindex : Int32)
      (attaches : Bool)
  | detach (service : Nat) (detaches : Bool)
  | destroy (service : Nat)
  | deleteService (service : Nat)
  | openForeign (name number : Nat)
  | closeForeign (name : Nat)

namespace Process

def start : Process where
  files _ := none
  klogs _ := .unborn
  services _ := .unborn
  foreign _ := .unborn
  released _ := false
  ended := false

def setKlog (process : Process) (klog : Nat) (life : Life Klog) : Process :=
  { process with klogs := Function.update process.klogs klog life }

def setService (process : Process) (service : Nat)
    (life : Life NetService) : Process :=
  { process with services := Function.update process.services service life }

def setForeign (process : Process) (name : Nat) (life : Life Nat) : Process :=
  { process with foreign := Function.update process.foreign name life }

def mainProgs (service : Nat) (numbers : List Nat) : List (FdOwner × Nat) :=
  numbers.map fun number => (.mainProg service, number)

/-- `bpf_object__close` closes the maps first. -/
def skeletonFds (service : Nat) (skel : Skeleton) : List (FdOwner × Nat) :=
  (skel.others.map fun number => (.other service number, number)) ++
    mainProgs service [skel.mainProg]

/-- The objects after a call, and what it opens and closes.  There is nothing to
call on an object that is not there. -/
def perform (process : Process) :
    FdAction → Process × List (FdCall FdOwner)
  | .constructKlog name outcome =>
      match process.klogs name with
      | .unborn =>
          let (klog, calls) := Klog.construct name outcome
          (process.setKlog name (klog.elim .gone .alive), calls)
      | _ => (process, [])
  | .unpin name =>
      match process.klogs name with
      | .alive klog =>
          let (klog, closed) := klog.unpin
          (process.setKlog name (.alive klog),
            Files.closeAll (closed.map fun number => (.klog name, number)))
      | _ => (process, [])
  | .deleteKlog name =>
      match process.klogs name with
      | .alive klog =>
          (process.setKlog name .gone,
            Files.closeAll
              (klog.delete.map fun number => (.klog name, number)))
      | _ => (process, [])
  | .start name mainProg others =>
      match process.services name with
      | .unborn =>
          (process.setService name (.alive (.start mainProg others)),
            Files.openAll (skeletonFds name ⟨mainProg, others⟩))
      | _ => (process, [])
  | .attachGeneric name hookType ifindex attaches =>
      match process.services name with
      | .alive service =>
          match service.attachGeneric hookType ifindex attaches with
          | none => ({ process with ended := true }, [])
          | some (_, service, closed) =>
              (process.setService name (.alive service),
                Files.closeAll (mainProgs name closed))
      | _ => (process, [])
  | .detach name detaches =>
      match process.services name with
      | .alive service =>
          let (service, closed) := service.detach detaches
          (process.setService name (.alive service),
            Files.closeAll (mainProgs name closed))
      | _ => (process, [])
  | .destroy name =>
      match process.services name with
      | .alive service =>
          match service.destroy with
          | none => ({ process with ended := true }, [])
          | some (service, skel) =>
              (process.setService name (.alive service),
                Files.closeAll (skeletonFds name skel))
      | _ => (process, [])
  | .deleteService name =>
      match process.services name with
      | .alive service =>
          match service.dropHook with
          | none => ({ process with ended := true }, [])
          | some closed =>
              (process.setService name .gone,
                Files.closeAll (mainProgs name closed))
      | _ => (process, [])
  | .openForeign name number =>
      match process.foreign name with
      | .unborn =>
          (process.setForeign name (.alive number),
            Files.openAll [(.foreign name, number)])
      | _ => (process, [])
  | .closeForeign name =>
      match process.foreign name with
      | .alive number =>
          (process.setForeign name .gone,
            Files.closeAll [(.foreign name, number)])
      | _ => (process, [])

def releases (process : Process) : FdAction → Option Nat
  | .attachGeneric name hookType ifindex attaches =>
      match process.services name with
      | .alive service =>
          if service.Refused hookType ifindex attaches then some name else none
      | _ => none
  | .detach name detaches =>
      match process.services name with
      | .alive service => if service.LetsGo detaches then some name else none
      | _ => none
  | .destroy name =>
      match process.services name with
      | .alive service => if service.skel.isSome then some name else none
      | _ => none
  | _ => none

/-- A process that has ended calls nothing. -/
def calls (process : Process) (action : FdAction) : List (FdCall FdOwner) :=
  if process.ended then [] else (process.perform action).2

/-- What the kernel would not give does not happen. -/
def step (process : Process) (action : FdAction) : Process :=
  if process.ended ∨ ¬ StepsMeet Files.call Files.Grants process.files
      (process.calls action) then process
  else
    { (process.perform action).1 with
      files := run Files.call process.files (process.calls action)
      released := fun name =>
        process.released name || process.releases action = some name }

/-- Each descriptor that is closed is the one that was opened for it. -/
def ClosesOwn (process : Process) (action : FdAction) : Prop :=
  StepsMeet Files.call Files.Rightful process.files (process.calls action)

instance (process : Process) (action : FdAction) :
    Decidable (process.ClosesOwn action) := by
  unfold ClosesOwn
  infer_instance

/-- No klog goes after it was unpinned, and the main program of a service is let
go once. -/
def LetsGoOnce (process : Process) (action : FdAction) : Prop :=
  process.ended = false →
    (∀ name, process.releases action = some name →
      process.released name = false) ∧
    ∀ name klog, action = .deleteKlog name →
      process.klogs name = .alive klog → klog.mapFd.isSome = true

def KlogSound (files : Files FdOwner) (name : Nat) : Life Klog → Prop
  | .unborn => files.Absent (.klog name)
  | .alive klog =>
      (∀ number ∈ klog.mapFd, number = klog.ringFd) ∧
        (klog.mapFd.isSome = true → files klog.ringFd = some (.klog name)) ∧
        (klog.mapFd = none → files.Absent (.klog name))
  | .gone => True

def ServiceSound (files : Files FdOwner) (name : Nat) (released : Bool) :
    Life NetService → Prop
  | .unborn =>
      released = false ∧ files.Absent (.mainProg name) ∧
        ∀ number, files.Absent (.other name number)
  | .alive service =>
      (released = false → ∀ number, service.HoldsMain number →
        files number = some (.mainProg name)) ∧
        (released = true → files.Absent (.mainProg name)) ∧
        ∀ skel ∈ service.skel, skel.others.Nodup ∧
          ∀ number ∈ skel.others, files number = some (.other name number)
  | .gone => True

def ForeignSound (files : Files FdOwner) (name : Nat) : Life Nat → Prop
  | .unborn => files.Absent (.foreign name)
  | .alive number => files number = some (.foreign name)
  | .gone => True

structure Sound (process : Process) : Prop where
  once : process.files.OpenOnce
  klogs : ∀ name, KlogSound process.files name (process.klogs name)
  services : ∀ name, ServiceSound process.files name (process.released name)
    (process.services name)
  foreign : ∀ name, ForeignSound process.files name (process.foreign name)

theorem start_sound : start.Sound where
  once _ _ _ hleft := by cases hleft
  klogs _ _ hfile := by cases hfile
  services _ := ⟨rfl, (fun _ hfile => by cases hfile),
    fun _ _ hfile => by cases hfile⟩
  foreign _ _ hfile := by cases hfile

section Frame

variable {files after : Files FdOwner} {name : Nat}

theorem absent_congr {owner : FdOwner}
    (hsame : ∀ number, after number = some owner ↔ files number = some owner) :
    after.Absent owner ↔ files.Absent owner :=
  forall_congr' fun number => not_congr (hsame number)

theorem KlogSound.congr {life : Life Klog}
    (hsame : ∀ number, after number = some (.klog name) ↔
      files number = some (.klog name))
    (hsound : KlogSound files name life) : KlogSound after name life := by
  cases life with
  | unborn => exact (absent_congr hsame).mpr hsound
  | alive klog =>
      obtain ⟨hring, hopen, habsent⟩ := hsound
      exact ⟨hring, fun hmap => (hsame _).mpr (hopen hmap),
        fun hmap => (absent_congr hsame).mpr (habsent hmap)⟩
  | gone => trivial

theorem ServiceSound.congr {released : Bool} {life : Life NetService}
    (hmain : ∀ number, after number = some (.mainProg name) ↔
      files number = some (.mainProg name))
    (hother : ∀ other number, after number = some (.other name other) ↔
      files number = some (.other name other))
    (hsound : ServiceSound files name released life) :
    ServiceSound after name released life := by
  cases life with
  | unborn =>
      obtain ⟨hreleased, habsent, hothers⟩ := hsound
      exact ⟨hreleased, (absent_congr hmain).mpr habsent,
        fun number => (absent_congr (hother number)).mpr (hothers number)⟩
  | alive service =>
      obtain ⟨hheld, hreleased, hskel⟩ := hsound
      refine ⟨fun hnot number hnumber => (hmain number).mpr
        (hheld hnot number hnumber),
        fun hgone => (absent_congr hmain).mpr (hreleased hgone),
        fun skel hmem => ⟨(hskel skel hmem).1, fun number hnumber => ?_⟩⟩
      exact (hother number number).mpr ((hskel skel hmem).2 number hnumber)
  | gone => trivial

theorem ForeignSound.congr {life : Life Nat}
    (hsame : ∀ number, after number = some (.foreign name) ↔
      files number = some (.foreign name))
    (hsound : ForeignSound files name life) : ForeignSound after name life := by
  cases life with
  | unborn => exact (absent_congr hsame).mpr hsound
  | alive number => exact (hsame number).mpr hsound
  | gone => trivial

end Frame

theorem Sound.after {process after : Process} {calls : List (FdCall FdOwner)}
    {object : FdObject} (hsound : process.Sound)
    (hgrants : StepsMeet Files.call Files.Grants process.files calls)
    (hrightful : StepsMeet Files.call Files.Rightful process.files calls)
    (hcalls : ∀ fdCall ∈ calls, fdCall.owner.object = object)
    (hfiles : after.files = run Files.call process.files calls)
    (honce : after.files.OpenOnce)
    (hklog : ∀ name, after.klogs name = process.klogs name ∧
        object ≠ .klog name ∨
      KlogSound after.files name (after.klogs name))
    (hservice : ∀ name, after.services name = process.services name ∧
        after.released name = process.released name ∧
        object ≠ .service name ∨
      ServiceSound after.files name (after.released name)
        (after.services name))
    (hforeign : ∀ name, after.foreign name = process.foreign name ∧
        object ≠ .foreign name ∨
      ForeignSound after.files name (after.foreign name)) : after.Sound := by
  have hframe : ∀ owner : FdOwner, object ≠ owner.object → ∀ number,
      after.files number = some owner ↔
        process.files number = some owner := by
    intro owner hother number
    rw [hfiles]
    exact Files.run_frame hgrants hrightful fun fdCall hmem heq =>
      hother (by rw [← heq, hcalls fdCall hmem])
  refine ⟨honce, fun name => ?_, fun name => ?_, fun name => ?_⟩
  · rcases hklog name with ⟨hsame, hother⟩ | hafter
    · rw [hsame]
      exact (hsound.klogs name).congr (hframe (.klog name) hother)
    · exact hafter
  · rcases hservice name with ⟨hsame, hreleased, hother⟩ | hafter
    · rw [hsame, hreleased]
      exact (hsound.services name).congr (hframe (.mainProg name) hother)
        fun other => hframe (.other name other) hother
    · exact hafter
  · rcases hforeign name with ⟨hsame, hother⟩ | hafter
    · rw [hsame]
      exact (hsound.foreign name).congr (hframe (.foreign name) hother)
    · exact hafter

section Step

variable {process : Process} {calls : List (FdCall FdOwner)} {name : Nat}
  {released : Nat → Bool}

theorem Sound.setKlog (hsound : process.Sound) {life : Life Klog}
    (hgrants : StepsMeet Files.call Files.Grants process.files calls)
    (hrightful : StepsMeet Files.call Files.Rightful process.files calls)
    (hcalls : ∀ fdCall ∈ calls, fdCall.owner = .klog name)
    (honce : Files.OpenOnce (run Files.call process.files calls))
    (hlife : KlogSound (run Files.call process.files calls) name life)
    (hreleased : released = process.released) :
    Sound { process.setKlog name life with
      files := run Files.call process.files calls
      released } := by
  subst hreleased
  refine @Sound.after process _ calls (.klog name) hsound hgrants hrightful
    (fun fdCall hmem => by rw [hcalls fdCall hmem]; rfl) rfl honce
    (fun other => ?_) (fun other => .inl ⟨rfl, rfl, by simp⟩)
    fun other => .inl ⟨rfl, by simp⟩
  by_cases heq : other = name
  · subst heq
    right
    simp only [Process.setKlog, Function.update_self]
    exact hlife
  · left
    refine ⟨Function.update_of_ne heq .., fun hobject => heq ?_⟩
    cases hobject
    rfl

theorem Sound.setService (hsound : process.Sound) {life : Life NetService}
    (hgrants : StepsMeet Files.call Files.Grants process.files calls)
    (hrightful : StepsMeet Files.call Files.Rightful process.files calls)
    (hcalls : ∀ fdCall ∈ calls, fdCall.owner.object = .service name)
    (honce : Files.OpenOnce (run Files.call process.files calls))
    (hlife : ServiceSound (run Files.call process.files calls) name
      (released name) life)
    (hreleased : ∀ other, other ≠ name →
      released other = process.released other) :
    Sound { process.setService name life with
      files := run Files.call process.files calls
      released } := by
  refine @Sound.after process _ calls (.service name) hsound hgrants hrightful
    hcalls rfl honce (fun other => .inl ⟨rfl, by simp⟩) (fun other => ?_)
    fun other => .inl ⟨rfl, by simp⟩
  by_cases heq : other = name
  · subst heq
    right
    simp only [Process.setService, Function.update_self]
    exact hlife
  · left
    refine ⟨Function.update_of_ne heq .., hreleased other heq,
      fun hobject => heq ?_⟩
    cases hobject
    rfl

theorem Sound.setForeign (hsound : process.Sound) {life : Life Nat}
    (hgrants : StepsMeet Files.call Files.Grants process.files calls)
    (hrightful : StepsMeet Files.call Files.Rightful process.files calls)
    (hcalls : ∀ fdCall ∈ calls, fdCall.owner = .foreign name)
    (honce : Files.OpenOnce (run Files.call process.files calls))
    (hlife : ForeignSound (run Files.call process.files calls) name life)
    (hreleased : released = process.released) :
    Sound { process.setForeign name life with
      files := run Files.call process.files calls
      released } := by
  subst hreleased
  refine @Sound.after process _ calls (.foreign name) hsound hgrants hrightful
    (fun fdCall hmem => by rw [hcalls fdCall hmem]; rfl) rfl honce
    (fun other => .inl ⟨rfl, by simp⟩)
    (fun other => .inl ⟨rfl, rfl, by simp⟩) fun other => ?_
  by_cases heq : other = name
  · subst heq
    right
    simp only [Process.setForeign, Function.update_self]
    exact hlife
  · left
    refine ⟨Function.update_of_ne heq .., fun hobject => heq ?_⟩
    cases hobject
    rfl

/-- The condition is what the law needs, and the law keeps the table sound. -/
structure Exact (process : Process) (action : FdAction) : Prop where
  closesOwn_iff : process.ClosesOwn action ↔ process.LetsGoOnce action
  sound : process.ClosesOwn action → (process.step action).Sound

variable {action : FdAction} {after : Process}

theorem exact_of_ended (hsound : process.Sound) (hended : process.ended = true) :
    Exact process action where
  closesOwn_iff := by
    refine iff_of_true ?_ fun hrunning => ?_
    · rw [ClosesOwn, Process.calls, if_pos hended]
      trivial
    · rw [hended] at hrunning
      cases hrunning
  sound _ := by
    rw [step, if_pos (.inl hended)]
    exact hsound

theorem exact_of_perform (hsound : process.Sound)
    (hended : process.ended = false)
    (hperform : process.perform action = (after, calls))
    (hexact : StepsMeet Files.call Files.Rightful process.files calls ↔
      process.LetsGoOnce action)
    (hafter : StepsMeet Files.call Files.Grants process.files calls →
      StepsMeet Files.call Files.Rightful process.files calls →
        Sound { after with
          files := run Files.call process.files calls
          released := fun name =>
            process.released name || process.releases action = some name }) :
    Exact process action := by
  have hcalls : process.calls action = calls := by
    rw [Process.calls, hended, if_neg (by decide), hperform]
  refine ⟨by rw [ClosesOwn, hcalls, hexact], fun hown => ?_⟩
  rw [ClosesOwn, hcalls] at hown
  rw [step, hcalls, hperform]
  split_ifs with hstuck
  · exact hsound
  · exact hafter (not_not.mp fun hnot => hstuck (.inr hnot)) hown

theorem exact_of_no_calls (hsound : process.Sound)
    (hended : process.ended = false)
    (hperform : process.perform action = (after, []))
    (hreleases : process.releases action = none)
    (hdelete : ∀ name klog, action = .deleteKlog name →
      process.klogs name = .alive klog → klog.mapFd.isSome = true)
    (hafter : ∀ released, released = process.released → Sound { after with
      files := process.files
      released }) : Exact process action := by
  refine exact_of_perform hsound hended hperform
    (iff_of_true trivial fun _ => ⟨fun name hname => ?_, hdelete⟩)
    fun _ _ => hafter _ ?_
  · rw [hreleases] at hname
    cases hname
  · funext name
    simp [hreleases]

theorem letsGoOnce_of_not_releases (hreleases : process.releases action = none)
    (hdelete : ∀ name, action ≠ .deleteKlog name) :
    process.LetsGoOnce action := by
  refine fun _ => ⟨fun name hname => ?_, fun name klog haction => ?_⟩
  · rw [hreleases] at hname
    cases hname
  · exact absurd haction (hdelete name)

theorem released_eq (hreleases : process.releases action = none) :
    (fun name => process.released name ||
      process.releases action = some name) = process.released := by
  funext name
  simp [hreleases]

end Step

theorem mem_skeletonFds {name : Nat} {skel : Skeleton}
    {entry : FdOwner × Nat} :
    entry ∈ skeletonFds name skel ↔
      (∃ number ∈ skel.others, entry = (.other name number, number)) ∨
        entry = (.mainProg name, skel.mainProg) := by
  simp [skeletonFds, mainProgs, eq_comm]

theorem object_of_mem_skeletonFds {name : Nat} {skel : Skeleton}
    {entry : FdOwner × Nat} (hentry : entry ∈ skeletonFds name skel) :
    entry.1.object = .service name := by
  rcases mem_skeletonFds.mp hentry with ⟨number, -, rfl⟩ | rfl <;> rfl

theorem nodup_skeletonFds {name : Nat} {skel : Skeleton}
    (hothers : skel.others.Nodup) :
    ((skeletonFds name skel).map Prod.fst).Nodup := by
  have howners : (skeletonFds name skel).map Prod.fst =
      skel.others.map (FdOwner.other name) ++ [.mainProg name] := by
    simp [skeletonFds, mainProgs, Function.comp_def]
  rw [howners, List.nodup_append]
  refine ⟨hothers.map fun left right heq => ?_, List.nodup_singleton _, ?_⟩
  · cases heq
    rfl
  · simp

section Actions

variable {process : Process} (hsound : process.Sound)
  (hended : process.ended = false)

include hsound hended

theorem exact_of_same {action : FdAction}
    (hperform : process.perform action = (process, []))
    (hreleases : process.releases action = none)
    (hdelete : ∀ name klog, action = .deleteKlog name →
      process.klogs name = .alive klog → klog.mapFd.isSome = true) :
    Exact process action := by
  refine exact_of_no_calls hsound hended hperform hreleases hdelete ?_
  rintro released rfl
  exact hsound

theorem exact_constructKlog (name : Nat) (outcome : Klog.Outcome) :
    Exact process (.constructKlog name outcome) := by
  have hbelief := hsound.klogs name
  cases hlife : process.klogs name with
  | unborn =>
      rw [hlife] at hbelief
      -- What is closed at once leaves the table as it was.
      have hback : ∀ number, process.files number = none →
          run Files.call process.files [.opens (.klog name) number,
            .closes (.klog name) number] = process.files := by
        intro number hfree
        simp only [run_cons, run_nil, Files.call, Function.update_idem]
        rw [← hfree, Function.update_eq_self]
      refine exact_of_perform hsound hended
        (by simp only [perform, hlife]; rfl) ?_ fun hgrants hrightful => ?_
      · refine iff_of_true ?_ (letsGoOnce_of_not_releases rfl (by simp))
        cases outcome with
        | noMap => trivial
        | built number => exact ⟨trivial, trivial⟩
        | _ => exact ⟨trivial, Function.update_self .., trivial⟩
      · refine hsound.setKlog hgrants hrightful ?_ ?_ ?_ (released_eq rfl)
        · cases outcome <;> simp [Klog.construct, FdCall.owner]
        · cases outcome with
          | noMap => exact hsound.once
          | built number =>
              exact @Files.OpenOnce.openAll _ _ hsound.once
                [(.klog name, number)] hgrants (List.nodup_singleton _)
                (by simpa)
          | _ =>
              rw [Klog.construct, hback _ hgrants.1]
              exact hsound.once
        · cases outcome with
          | built number =>
              refine ⟨fun other hother => ?_, fun _ => ?_, fun hnone => ?_⟩
              · cases hother
                rfl
              · exact Function.update_self ..
              · cases hnone
          | _ => trivial
  | _ =>
      refine exact_of_same hsound hended ?_ rfl fun _ _ haction => ?_
      · simp only [perform, hlife]
      · cases haction

theorem exact_unpin (name : Nat) : Exact process (.unpin name) := by
  have hbelief := hsound.klogs name
  cases hlife : process.klogs name with
  | alive klog =>
      rw [hlife] at hbelief
      obtain ⟨hring, hopen, habsent⟩ := hbelief
      have hrightful : ∀ entry ∈ klog.mapFd.toList.map
          (fun number => (FdOwner.klog name, number)),
          process.files entry.2 = some entry.1 := by
        cases hmap : klog.mapFd with
        | none => simp
        | some number =>
            have hnumber := hring number hmap
            simp [hnumber, hopen (by rw [hmap]; rfl)]
      have hnodup : ((klog.mapFd.toList.map
          fun number => (FdOwner.klog name, number)).map Prod.fst).Nodup := by
        cases klog.mapFd <;> simp
      refine exact_of_perform hsound hended
        (by simp only [perform, hlife]; rfl)
        (iff_of_true ((Files.rightful_closeAll_iff hnodup).mpr hrightful)
          (letsGoOnce_of_not_releases rfl (by simp)))
        fun hgrants hmeets => hsound.setKlog hgrants hmeets ?_
          (hsound.once.closeAll _) ?_ (released_eq rfl)
      · simp [Files.closeAll, FdCall.owner]
      · refine ⟨fun number hnumber => ?_, fun hmap => ?_, fun _ => ?_⟩
        · cases hnumber
        · cases hmap
        · cases hmap : klog.mapFd with
          | none => exact habsent hmap
          | some number =>
              rw [hmap] at hrightful
              exact Files.absent_closeAll hsound.once (.head _)
                (hrightful _ (.head _))
  | _ =>
      refine exact_of_same hsound hended ?_ rfl fun _ _ haction => ?_
      · simp only [perform, hlife]
      · cases haction

theorem exact_deleteKlog (name : Nat) :
    Exact process (.deleteKlog name) := by
  have hbelief := hsound.klogs name
  cases hlife : process.klogs name with
  | alive klog =>
      rw [hlife] at hbelief
      obtain ⟨-, hopen, habsent⟩ := hbelief
      have howns : process.files klog.ringFd = some (.klog name) ↔
          klog.mapFd.isSome = true := by
        refine ⟨fun hfile => ?_, hopen⟩
        cases hmap : klog.mapFd with
        | none => exact absurd hfile (habsent hmap _)
        | some number => rfl
      refine exact_of_perform hsound hended
        (by simp only [perform, hlife]; rfl) ?_
        fun hgrants hmeets => hsound.setKlog hgrants hmeets ?_
          (hsound.once.closeAll _) ?_ (released_eq rfl)
      · rw [Files.rightful_closeAll_iff (by simp [Klog.delete])]
        simp only [Klog.delete, List.map_cons, List.map_nil,
          List.forall_mem_singleton, howns]
        refine ⟨fun hmap _ => ⟨fun other hother => ?_, ?_⟩,
          fun hgoes => (hgoes hended).2 name klog rfl hlife⟩
        · cases hother
        · intro other held haction hheld
          cases haction
          rw [hlife] at hheld
          cases hheld
          exact hmap
      · simp [Files.closeAll, FdCall.owner]
      · trivial
  | _ =>
      refine exact_of_same hsound hended ?_ rfl fun other klog haction hheld => ?_
      · simp only [perform, hlife]
      · cases haction
        rw [hlife] at hheld
        cases hheld

theorem exact_start (name mainProg : Nat) (others : List Nat) :
    Exact process (.start name mainProg others) := by
  have hbelief := hsound.services name
  cases hlife : process.services name with
  | unborn =>
      rw [hlife] at hbelief
      obtain ⟨hreleased, hmain, hothers⟩ := hbelief
      refine exact_of_perform hsound hended
        (by simp only [perform, hlife]; rfl)
        (iff_of_true (Files.rightful_openAll _)
          (letsGoOnce_of_not_releases rfl (by simp)))
        fun hgrants hmeets => hsound.setService hgrants hmeets ?_ ?_ ?_
          fun other _ => congrFun (released_eq rfl) other
      · rintro fdCall hmem
        obtain ⟨entry, hentry, rfl⟩ := List.mem_map.mp hmem
        exact object_of_mem_skeletonFds hentry
      all_goals
        have hnodup : others.Nodup := by
          have hnumbers := Files.nodup_of_grants hgrants
          simp only [skeletonFds, mainProgs, List.map_append, List.map_map,
            List.nodup_append] at hnumbers
          simpa [Function.comp_def] using hnumbers.1
      · refine hsound.once.openAll hgrants (nodup_skeletonFds hnodup) ?_
        intro entry hentry
        rcases mem_skeletonFds.mp hentry with ⟨number, -, rfl⟩ | rfl
        · exact hothers number
        · exact hmain
      · refine ⟨fun _ number hnumber => ?_, fun hgone => ?_, ?_⟩
        · refine (Files.run_openAll_iff hgrants).mpr (.inr ?_)
          rcases hnumber with ⟨skel, hskel, rfl⟩ | ⟨hook, hhook, -⟩
          · cases hskel
            exact mem_skeletonFds.mpr (.inr rfl)
          · cases hhook
        · rw [congrFun (released_eq rfl) name, hreleased] at hgone
          cases hgone
        · intro skel hskel
          cases hskel
          refine ⟨hnodup, fun number hnumber => ?_⟩
          exact (Files.run_openAll_iff hgrants).mpr
            (.inr (mem_skeletonFds.mpr (.inl ⟨number, hnumber, rfl⟩)))
  | _ =>
      refine exact_of_same hsound hended ?_ rfl fun _ _ haction => ?_
      · simp only [perform, hlife]
      · cases haction

theorem exact_of_mainSpec {action : FdAction} {name : Nat}
    {service after : NetService} {closed : List Nat} {lets : Prop}
    [Decidable lets] (hlife : process.services name = .alive service)
    (hspec : NetService.MainSpec service after closed lets)
    (hperform : process.perform action =
      (process.setService name (.alive after),
        Files.closeAll (mainProgs name closed)))
    (hreleases : process.releases action = if lets then some name else none)
    (hdelete : ∀ other, action ≠ .deleteKlog other) :
    Exact process action := by
  have hbelief := hsound.services name
  rw [hlife] at hbelief
  obtain ⟨hheld, hgone, hskel⟩ := hbelief
  by_cases hlets : lets
  case neg =>
    rw [if_neg hlets] at hreleases
    rw [hspec.keeps hlets] at hperform
    refine exact_of_perform hsound hended hperform
      (iff_of_true trivial (letsGoOnce_of_not_releases hreleases hdelete))
      fun hgrants hmeets => hsound.setService hgrants hmeets (by simp
        [Files.closeAll, mainProgs]) hsound.once ?_
        fun other _ => congrFun (released_eq hreleases) other
    rw [congrFun (released_eq hreleases) name]
    refine ⟨fun hnot number hnumber => hheld hnot number
      (hspec.holds number hnumber), hgone, ?_⟩
    rw [hspec.skel]
    exact hskel
  case pos =>
    rw [if_pos hlets] at hreleases
    obtain ⟨number, rfl, hnumber⟩ := hspec.closes hlets
    have howns : process.files number = some (.mainProg name) ↔
        process.released name = false := by
      refine ⟨fun hfile => ?_, fun hnot => hheld hnot number hnumber⟩
      cases hreleased : process.released name with
      | false => rfl
      | true => exact absurd hfile (hgone hreleased number)
    refine exact_of_perform hsound hended hperform ?_
      fun hgrants hmeets => hsound.setService hgrants hmeets ?_
        (hsound.once.closeAll _) ?_ fun other hne => ?_
    · rw [Files.rightful_closeAll_iff (by simp [mainProgs])]
      simp only [mainProgs, List.map_cons, List.map_nil,
        List.forall_mem_singleton, howns]
      refine ⟨fun hnot _ => ⟨fun other hother => ?_, fun other klog haction =>
        absurd haction (hdelete other)⟩,
        fun hgoes => (hgoes hended).1 name hreleases⟩
      rw [hreleases] at hother
      cases hother
      exact hnot
    · simp [Files.closeAll, mainProgs, FdCall.owner, FdOwner.object]
    · have hopen := (Files.rightful_closeAll_iff
        (by simp [mainProgs])).mp hmeets _ (List.mem_singleton.mpr rfl)
      refine ⟨fun hnot => ?_, fun _ => ?_, fun skel hmem => ?_⟩
      · simp [hreleases] at hnot
      · exact Files.absent_closeAll hsound.once (List.mem_singleton.mpr rfl)
          hopen
      · rw [hspec.skel] at hmem
        refine ⟨(hskel skel hmem).1, fun other hother => ?_⟩
        exact (Files.run_frame hgrants hmeets (by simp [Files.closeAll,
          mainProgs, FdCall.owner])).mpr ((hskel skel hmem).2 other hother)
    · simp [hreleases, Ne.symm hne]

theorem exact_of_abort {action : FdAction}
    (hperform : process.perform action = ({ process with ended := true }, []))
    (hreleases : process.releases action = none)
    (hdelete : ∀ name, action ≠ .deleteKlog name) : Exact process action := by
  refine exact_of_no_calls hsound hended hperform hreleases
    (fun name _ haction => absurd haction (hdelete name)) ?_
  rintro released rfl
  exact ⟨hsound.once, hsound.klogs, hsound.services, hsound.foreign⟩

theorem exact_attachGeneric (name : Nat) (hookType : HookType)
    (ifindex : Int32) (attaches : Bool) :
    Exact process (.attachGeneric name hookType ifindex attaches) := by
  cases hlife : process.services name with
  | alive service =>
      cases hattach : service.attachGeneric hookType ifindex attaches with
      | none =>
          refine exact_of_abort hsound hended ?_ ?_ (by simp)
          · simp only [perform, hlife, hattach]
          · simp only [releases, hlife]
            exact if_neg (NetService.not_refused_of_eq_none hattach)
      | some answer =>
          obtain ⟨attached, after, closed⟩ := answer
          refine exact_of_mainSpec hsound hended hlife
            (NetService.attachGeneric_spec hattach) ?_ ?_ (by simp)
          · simp only [perform, hlife, hattach]
          · simp only [releases, hlife]
  | _ =>
      refine exact_of_same hsound hended ?_ ?_ fun _ _ haction => ?_
      · simp only [perform, hlife]
      · simp only [releases, hlife]
      · cases haction

theorem exact_detach (name : Nat) (detaches : Bool) :
    Exact process (.detach name detaches) := by
  cases hlife : process.services name with
  | alive service =>
      refine exact_of_mainSpec hsound hended hlife
        (NetService.detach_spec service detaches) ?_ ?_ (by simp)
      · simp only [perform, hlife]
      · simp only [releases, hlife]
  | _ =>
      refine exact_of_same hsound hended ?_ ?_ fun _ _ haction => ?_
      · simp only [perform, hlife]
      · simp only [releases, hlife]
      · cases haction

theorem exact_destroy (name : Nat) : Exact process (.destroy name) := by
  have hbelief := hsound.services name
  cases hlife : process.services name with
  | alive service =>
      cases hskeleton : service.skel with
      | none =>
          refine exact_of_abort hsound hended ?_ ?_ (by simp)
          · simp only [perform, hlife, NetService.destroy, hskeleton,
              Option.map_none]
          · simp [releases, hlife, hskeleton]
      | some skel =>
          rw [hlife] at hbelief
          obtain ⟨hheld, hgone, hskel⟩ := hbelief
          obtain ⟨hnodup, hothers⟩ := hskel skel hskeleton
          have hreleases : process.releases (.destroy name) = some name := by
            simp [releases, hlife, hskeleton]
          have hiff := @Files.rightful_closeAll_iff _ process.files _
            (@nodup_skeletonFds name skel hnodup)
          refine exact_of_perform hsound hended
            (by simp only [perform, hlife, NetService.destroy, hskeleton,
              Option.map_some]; rfl) ?_
            fun hgrants hmeets => hsound.setService hgrants hmeets ?_
              (hsound.once.closeAll _) ?_ fun other hne => ?_
          · rw [hiff]
            constructor
            · refine fun hown _ => ⟨fun other hother => ?_, by simp⟩
              rw [hreleases] at hother
              cases hother
              have hfile := hown _ (mem_skeletonFds.mpr (.inr rfl))
              cases hreleased : process.released name with
              | false => rfl
              | true => exact absurd hfile (hgone hreleased _)
            · intro hgoes entry hentry
              have hnot := (hgoes hended).1 name hreleases
              rcases mem_skeletonFds.mp hentry with ⟨number, hmem, rfl⟩ | rfl
              · exact hothers number hmem
              · exact hheld hnot _ (.inl ⟨skel, hskeleton, rfl⟩)
          · intro fdCall hmem
            obtain ⟨entry, hentry, rfl⟩ := List.mem_map.mp hmem
            exact object_of_mem_skeletonFds hentry
          · refine ⟨fun hnot => ?_, fun _ => ?_, fun other hother => ?_⟩
            · simp [hreleases] at hnot
            · have hmem : (FdOwner.mainProg name, skel.mainProg) ∈
                  skeletonFds name skel := mem_skeletonFds.mpr (.inr rfl)
              exact Files.absent_closeAll hsound.once hmem
                (hiff.mp hmeets _ hmem)
            · cases hother
          · simp [hreleases, Ne.symm hne]
  | _ =>
      refine exact_of_same hsound hended ?_ ?_ fun _ _ haction => ?_
      · simp only [perform, hlife]
      · simp only [releases, hlife]
      · cases haction

theorem exact_deleteService (name : Nat) :
    Exact process (.deleteService name) := by
  cases hlife : process.services name with
  | alive service =>
      cases hdrop : service.dropHook with
      | none =>
          refine exact_of_abort hsound hended ?_ rfl (by simp)
          simp only [perform, hlife, hdrop]
      | some dropped =>
          obtain ⟨rfl, -⟩ := NetService.dropHook_eq_some hdrop
          refine exact_of_perform hsound hended
            (by simp only [perform, hlife, hdrop]; rfl)
            (iff_of_true ?_ (letsGoOnce_of_not_releases rfl (by simp)))
            fun hgrants hmeets => hsound.setService hgrants hmeets ?_
              (hsound.once.closeAll _) ?_
              fun other _ => congrFun (released_eq rfl) other
          · trivial
          · simp [Files.closeAll, mainProgs]
          · trivial
  | _ =>
      refine exact_of_same hsound hended ?_ rfl fun _ _ haction => ?_
      · simp only [perform, hlife]
      · cases haction

theorem exact_openForeign (name number : Nat) :
    Exact process (.openForeign name number) := by
  have hbelief := hsound.foreign name
  cases hlife : process.foreign name with
  | unborn =>
      rw [hlife] at hbelief
      refine exact_of_perform hsound hended
        (by simp only [perform, hlife]; rfl)
        (iff_of_true (Files.rightful_openAll _)
          (letsGoOnce_of_not_releases rfl (by simp)))
        fun hgrants hmeets => hsound.setForeign hgrants hmeets ?_ ?_ ?_
          (released_eq rfl)
      · simp [Files.openAll, FdCall.owner]
      · exact hsound.once.openAll hgrants (by simp) (by simpa)
      · exact (Files.run_openAll_iff hgrants).mpr
          (.inr (List.mem_singleton.mpr rfl))
  | _ =>
      refine exact_of_same hsound hended ?_ rfl fun _ _ haction => ?_
      · simp only [perform, hlife]
      · cases haction

theorem exact_closeForeign (name : Nat) :
    Exact process (.closeForeign name) := by
  have hbelief := hsound.foreign name
  cases hlife : process.foreign name with
  | alive number =>
      rw [hlife] at hbelief
      refine exact_of_perform hsound hended
        (by simp only [perform, hlife]; rfl)
        (iff_of_true ((Files.rightful_closeAll_iff (by simp)).mpr (by simpa))
          (letsGoOnce_of_not_releases rfl (by simp)))
        fun hgrants hmeets => hsound.setForeign hgrants hmeets ?_
          (hsound.once.closeAll _) ?_ (released_eq rfl)
      · simp [Files.closeAll, FdCall.owner]
      · trivial
  | _ =>
      refine exact_of_same hsound hended ?_ rfl fun _ _ haction => ?_
      · simp only [perform, hlife]
      · cases haction

end Actions

theorem exact (process : Process) (hsound : process.Sound)
    (action : FdAction) : Exact process action := by
  cases hended : process.ended with
  | true => exact exact_of_ended hsound hended
  | false =>
      cases action with
      | constructKlog name outcome =>
          exact exact_constructKlog hsound hended name outcome
      | unpin name => exact exact_unpin hsound hended name
      | deleteKlog name => exact exact_deleteKlog hsound hended name
      | start name mainProg others =>
          exact exact_start hsound hended name mainProg others
      | attachGeneric name hookType ifindex attaches =>
          exact exact_attachGeneric hsound hended name hookType ifindex attaches
      | detach name detaches => exact exact_detach hsound hended name detaches
      | destroy name => exact exact_destroy hsound hended name
      | deleteService name => exact exact_deleteService hsound hended name
      | openForeign name number =>
          exact exact_openForeign hsound hended name number
      | closeForeign name => exact exact_closeForeign hsound hended name

/-- In a run, every descriptor that is closed is the one that was opened for it
exactly if no klog goes after it was unpinned, and no main program is let go
twice. -/
theorem closesOwn_iff_letsGoOnce (actions : List FdAction) :
    StepsMeet step ClosesOwn start actions ↔
      StepsMeet step LetsGoOnce start actions :=
  @stepsMeet_iff_stepsMeet _ _ step LetsGoOnce Sound ClosesOwn (fun _ => True)
    (fun process action hsound _ hgoes =>
      (exact process hsound action).sound
        ((exact process hsound action).closesOwn_iff.mpr hgoes))
    (fun process action hsound _ =>
      (exact process hsound action).closesOwn_iff)
    _ _ start_sound fun _ _ => trivial

/-- A scheduler that is attached and stopped, a klog that is unpinned and
destroyed, and somebody who opens a descriptor in between. -/
theorem not_closesOwn_reused :
    ¬ StepsMeet step ClosesOwn start
        [.start 0 5 [6], .attachGeneric 0 .xdpGeneric 11 true, .detach 0 true,
          .openForeign 0 5, .destroy 0] ∧
      ¬ StepsMeet step ClosesOwn start
        [.constructKlog 0 (.built 7), .unpin 0, .openForeign 0 7,
          .deleteKlog 0] := by
  decide

end Process

end Hebpf.Services
