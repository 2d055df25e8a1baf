import Hebpf.Daemon.Configs
import Hebpf.Data.Run
import Mathlib.Logic.Function.Basic

namespace Hebpf.Ebpf

open Hebpf.Daemon Hebpf.Data

/-! The XDP programs of many services on the NICs they share with each other
and with the rest of the machine. -/

inductive XdpMode where
  | generic
  | native
  | offload
  deriving DecidableEq, Repr

def XdpMode.getFlags : XdpMode → UInt32
  | native => 4
  | offload => 8
  | generic => 2

inductive HookKind where
  | tc
  | xdp (mode : XdpMode)
  deriving DecidableEq, Repr

/-- The `switch` of `attachGeneric` -/
def HookKind.ofHook : HookType → Option HookKind
  | .tc => some tc
  | .xdpGeneric => some (xdp .generic)
  | .xdpNative => some (xdp .native)
  | .xdpOffload => some (xdp .offload)
  | _ => none

abbrev XdpPlace := Int32 × UInt32

structure PlacedHook where
  ifindex : Int32
  kind : HookKind
  attached : Bool
  deriving DecidableEq, Repr

def PlacedHook.place? (hook : PlacedHook) : Option XdpPlace :=
  match hook.kind with
  | .tc => none
  | .xdp mode => some (hook.ifindex, mode.getFlags)

structure XdpService where
  hook : Option PlacedHook
  attached : Bool
  deriving DecidableEq, Repr

/-- Where the service says its XDP program runs. -/
def XdpService.place? (service : XdpService) : Option XdpPlace :=
  if service.attached then service.hook.bind PlacedHook.place? else none

def XdpService.HookAttached (service : XdpService) : Prop :=
  ∃ hook ∈ service.hook, hook.attached = true

instance (service : XdpService) : Decidable service.HookAttached :=
  inferInstanceAs (Decidable (∃ hook ∈ service.hook, hook.attached = true))

/-- The hook of an attached service is attached.  Only a `TcHook` may stay so
without its service. -/
structure XdpService.Agrees (service : XdpService) : Prop where
  hooked : service.attached = true → service.HookAttached
  same : ∀ hook ∈ service.hook, hook.place?.isSome → hook.attached = true →
    service.attached = true

inductive XdpProg (θ : Type) where
  | main (service : θ)
  | other (id : Nat)
  deriving DecidableEq, Repr

/-- `ended`: the process has called a pure virtual function. -/
structure XdpNics (θ : Type) where
  services : θ → XdpService
  progs : XdpPlace → Option (XdpProg θ)
  ended : Bool

/-- A call with the kernel's answer, if it is asked; and what others do.
`mainProg` is what the number from `getMainProgFd` names by then, which the hooks
before may have closed, and `none` for a negative one. -/
inductive XdpInput (θ : Type) where
  | attachGeneric (service : θ) (hookType : HookType) (ifindex : Int32)
      (mainProg : Option (XdpProg θ)) (accepted : Bool)
  | detach (service : θ) (accepted : Bool)
  | destroy (service : θ)
  | other (place : XdpPlace) (id : Option Nat)

namespace XdpNics

variable {θ : Type} [DecidableEq θ]

def start : XdpNics θ := ⟨fun _ => ⟨none, false⟩, fun _ => none, false⟩

def setService (nics : XdpNics θ) (service : θ) (self : XdpService) :
    XdpNics θ :=
  { nics with services := Function.update nics.services service self }

def setProg (nics : XdpNics θ) (place? : Option XdpPlace)
    (prog : Option (XdpProg θ)) : XdpNics θ :=
  match place? with
  | none => nics
  | some place =>
      { nics with progs := Function.update nics.progs place prog }

def endProcess (nics : XdpNics θ) : XdpNics θ := { nics with ended := true }

def attachGeneric (nics : XdpNics θ) (service : θ) (hookType : HookType)
    (ifindex : Int32) (mainProg : Option (XdpProg θ)) (accepted : Bool) :
    Bool × XdpNics θ :=
  let self := nics.services service
  if ifindex < 0 then (false, nics)
  else if self.attached then (true, nics)
  else
    match mainProg, HookKind.ofHook hookType with
    | some prog, some kind =>
        -- The hook that gives way must not be attached any more.
        if self.HookAttached then (false, nics.endProcess)
        else if accepted then
          let hook : PlacedHook := ⟨ifindex, kind, true⟩
          (true, (nics.setService service ⟨some hook, true⟩).setProg
            hook.place? (some prog))
        else (false, nics.setService service ⟨none, false⟩)
    | _, _ => (false, nics)

def detach (nics : XdpNics θ) (service : θ) (accepted : Bool) : XdpNics θ :=
  let self := nics.services service
  if ¬ self.attached then nics
  else
    match self.hook with
    | none => nics
    | some hook =>
        if hook.attached ∧ accepted then
          (nics.setService service
            ⟨some { hook with attached := false }, false⟩).setProg
              hook.place? none
        else nics.setService service ⟨some hook, false⟩

def destroy (nics : XdpNics θ) (service : θ) : XdpNics θ :=
  if (nics.services service).HookAttached then nics.endProcess
  else nics.setService service ⟨none, false⟩

def step (nics : XdpNics θ) : XdpInput θ → XdpNics θ
  | .attachGeneric service hookType ifindex mainProg accepted =>
      if nics.ended then nics
      else (nics.attachGeneric service hookType ifindex mainProg accepted).2
  | .detach service accepted =>
      if nics.ended then nics else nics.detach service accepted
  | .destroy service => if nics.ended then nics else nics.destroy service
  | .other place id => nics.setProg (some place) (id.map .other)

def HeldAt (nics : XdpNics θ) (service : θ) (place : XdpPlace) : Prop :=
  nics.ended = false ∧ (nics.services service).place? = some place

/-- What the services say is what runs. -/
def Exact (nics : XdpNics θ) : Prop :=
  ∀ service place,
    nics.HeldAt service place ↔ nics.progs place = some (.main service)

def NoneHeld (nics : XdpNics θ) : Prop :=
  ∀ service place, ¬ nics.HeldAt service place

structure Asks (nics : XdpNics θ) (service : θ) (hookType : HookType)
    (ifindex : Int32) (mainProg : Option (XdpProg θ)) (kind : HookKind)
    (prog : XdpProg θ) : Prop where
  ifindex : ¬ ifindex < 0
  detached : (nics.services service).attached = false
  mainProg : mainProg = some prog
  kind : HookKind.ofHook hookType = some kind

/-- The kernel gives nobody a place that a service holds, runs in a service's
place the service's own program and lets go of what a service gives up; and the
process does not end while a service holds a place. -/
def Spares (nics : XdpNics θ) : XdpInput θ → Prop
  | .attachGeneric service hookType ifindex mainProg accepted =>
      ∀ kind prog, nics.ended = false →
        nics.Asks service hookType ifindex mainProg kind prog →
        if (nics.services service).HookAttached then nics.NoneHeld
        else accepted = true →
          ∀ place ∈ PlacedHook.place? ⟨ifindex, kind, true⟩,
            prog = .main service ∧ ∀ other, ¬ nics.HeldAt other place
  | .detach service accepted =>
      (∃ place, nics.HeldAt service place) → accepted = true
  | .destroy service =>
      nics.ended = false → (nics.services service).HookAttached →
        nics.NoneHeld
  | .other place _ => ∀ service, ¬ nics.HeldAt service place

structure Kept (nics : XdpNics θ) : Prop where
  exact : nics.Exact
  agrees : nics.ended = false → ∀ service, (nics.services service).Agrees

variable {nics : XdpNics θ} {service : θ}

omit [DecidableEq θ] in
theorem start_kept : (start : XdpNics θ).Kept where
  exact _ _ := iff_of_false (fun hheld => Option.some_ne_none _ hheld.2.symm)
    (fun hprog => Option.some_ne_none _ hprog.symm)
  agrees _ _ := ⟨fun hattached => absurd hattached Bool.false_ne_true,
    fun _ hhook => absurd hhook (Option.not_mem_none _)⟩

omit [DecidableEq θ] in
@[simp] theorem services_setProg (nics : XdpNics θ) (place? : Option XdpPlace)
    (prog : Option (XdpProg θ)) :
    (nics.setProg place? prog).services = nics.services := by
  cases place? <;> rfl

omit [DecidableEq θ] in
@[simp] theorem ended_setProg (nics : XdpNics θ) (place? : Option XdpPlace)
    (prog : Option (XdpProg θ)) :
    (nics.setProg place? prog).ended = nics.ended := by
  cases place? <;> rfl

omit [DecidableEq θ] in
theorem progs_setProg (nics : XdpNics θ) (place other : XdpPlace)
    (prog : Option (XdpProg θ)) :
    (nics.setProg (some place) prog).progs other =
      if other = place then prog else nics.progs other :=
  Function.update_apply ..

omit [DecidableEq θ] in
@[simp] theorem heldAt_setProg {place? : Option XdpPlace} {other : XdpPlace}
    {prog : Option (XdpProg θ)} :
    (nics.setProg place? prog).HeldAt service other ↔
      nics.HeldAt service other := by
  simp only [HeldAt, ended_setProg, services_setProg]

theorem heldAt_setService {self : XdpService} {other : θ}
    {place : XdpPlace} :
    (nics.setService service self).HeldAt other place ↔
      if other = service then nics.ended = false ∧ self.place? = some place
      else nics.HeldAt other place := by
  unfold HeldAt setService
  simp only [Function.update_apply]
  split_ifs <;> rfl

theorem Kept.agrees_setService (hkept : nics.Kept) {self : XdpService}
    (hagrees : self.Agrees) (hrunning : nics.ended = false) (other : θ) :
    ((nics.setService service self).services other).Agrees := by
  unfold setService
  simp only [Function.update_apply]
  split_ifs
  · exact hagrees
  · exact hkept.agrees hrunning other

omit [DecidableEq θ] in
theorem not_heldAt_of_detached
    (hdetached : (nics.services service).attached = false)
    (place : XdpPlace) : ¬ nics.HeldAt service place := by
  intro hheld
  have hplace := hheld.2
  unfold XdpService.place? at hplace
  rw [hdetached] at hplace
  cases hplace

theorem Kept.unheld (hkept : nics.Kept) {self : XdpService}
    (hbefore : ∀ place, ¬ nics.HeldAt service place)
    (hafter : self.place? = none) (hagrees : self.Agrees) :
    (nics.setService service self).Kept where
  exact other place := by
    rw [heldAt_setService]
    split_ifs with hother
    · subst hother
      rw [hafter]
      exact (iff_of_false (fun hheld => Option.some_ne_none _ hheld.2.symm)
        (hbefore place)).trans (hkept.exact other place)
    · exact hkept.exact other place
  agrees := hkept.agrees_setService hagrees

theorem Kept.loseHook (hkept : nics.Kept)
    (hdetached : (nics.services service).attached = false) :
    (nics.setService service ⟨none, false⟩).Kept := by
  refine hkept.unheld (not_heldAt_of_detached hdetached) rfl ⟨?_, ?_⟩
  · exact fun hattached => absurd hattached Bool.false_ne_true
  · exact fun _ hhook => absurd hhook (Option.not_mem_none _)

theorem Kept.attached (hkept : nics.Kept) {hook : PlacedHook}
    (hhook : hook.attached = true) {place : XdpPlace}
    (hplace : hook.place? = some place) (hrunning : nics.ended = false)
    (hdetached : (nics.services service).attached = false)
    (hfree : ∀ other, ¬ nics.HeldAt other place) :
    ((nics.setService service ⟨some hook, true⟩).setProg (some place)
      (some (.main service))).Kept where
  exact other there := by
    have hself : (⟨some hook, true⟩ : XdpService).place? = some place := hplace
    rw [heldAt_setProg, heldAt_setService, progs_setProg, hself]
    by_cases hthere : there = place
    · rw [if_pos hthere, hthere]
      by_cases hother : other = service
      · simp [hother, hrunning]
      · rw [if_neg hother]
        refine iff_of_false (hfree other) ?_
        intro hsame
        cases hsame
        exact hother rfl
    · rw [if_neg hthere]
      by_cases hother : other = service
      · subst hother
        rw [if_pos rfl]
        refine (iff_of_false ?_
          (not_heldAt_of_detached hdetached there)).trans (hkept.exact _ _)
        exact fun hheld => hthere (Option.some.inj hheld.2).symm
      · rw [if_neg hother]
        exact hkept.exact other there
  agrees := by
    rw [ended_setProg, services_setProg]
    exact hkept.agrees_setService ⟨fun _ => ⟨hook, rfl, hhook⟩,
      fun _ _ _ _ => rfl⟩

theorem Kept.detached (hkept : nics.Kept) {hook : PlacedHook}
    {place : XdpPlace} (hheld : nics.HeldAt service place) :
    ((nics.setService service ⟨some { hook with attached := false },
      false⟩).setProg (some place) none).Kept where
  exact other there := by
    rw [heldAt_setProg, heldAt_setService, progs_setProg]
    by_cases hother : other = service
    · subst hother
      rw [if_pos rfl]
      refine iff_of_false (fun hheld => Option.some_ne_none _ hheld.2.symm) ?_
      split_ifs with hthere
      · exact not_false
      · intro hprog
        have hstill := (hkept.exact other there).mpr hprog
        exact hthere (Option.some.inj (hstill.2.symm.trans hheld.2))
    · rw [if_neg hother]
      split_ifs with hthere
      · refine iff_of_false ?_ not_false
        rw [hthere, hkept.exact, (hkept.exact _ _).mp hheld]
        intro hsame
        cases hsame
        exact hother rfl
      · exact hkept.exact other there
  agrees := by
    rw [ended_setProg, services_setProg]
    refine hkept.agrees_setService ⟨?_, ?_⟩
    · exact fun hattached => absurd hattached Bool.false_ne_true
    · intro _ hhook _ hattached
      cases hhook
      exact absurd hattached Bool.false_ne_true

omit [DecidableEq θ] in
theorem Kept.others (hkept : nics.Kept) {place : XdpPlace}
    (hfree : ∀ service, ¬ nics.HeldAt service place) (id : Option Nat) :
    (nics.setProg (some place) (id.map .other)).Kept where
  exact service there := by
    rw [heldAt_setProg, progs_setProg]
    split_ifs with hthere
    · refine iff_of_false (hthere ▸ hfree service) ?_
      cases id <;> simp
    · exact hkept.exact service there
  agrees := hkept.agrees

omit [DecidableEq θ] in
theorem not_heldAt_endProcess (place : XdpPlace) :
    ¬ nics.endProcess.HeldAt service place :=
  fun hheld => Bool.false_ne_true hheld.1.symm

omit [DecidableEq θ] in
theorem Kept.endProcess (hkept : nics.Kept) (hnone : nics.NoneHeld) :
    nics.endProcess.Kept where
  exact service place := (iff_of_false (not_heldAt_endProcess place)
    (hnone service place)).trans (hkept.exact service place)
  agrees hrunning := absurd hrunning.symm Bool.false_ne_true

omit [DecidableEq θ] in
theorem Kept.not_exact_endProcess (hkept : nics.Kept)
    (hheld : ¬ nics.NoneHeld) : ¬ nics.endProcess.Exact := by
  intro hexact
  apply hheld
  intro service place hheld
  exact not_heldAt_endProcess place
    ((hexact service place).mpr ((hkept.exact service place).mp hheld))

theorem attachGeneric_of_asks {hookType : HookType} {ifindex : Int32}
    {mainProg : Option (XdpProg θ)} {kind : HookKind} {prog : XdpProg θ}
    (hasks : nics.Asks service hookType ifindex mainProg kind prog)
    (accepted : Bool) :
    (nics.attachGeneric service hookType ifindex mainProg accepted).2 =
      if (nics.services service).HookAttached then nics.endProcess
      else if accepted then
        (nics.setService service ⟨some ⟨ifindex, kind, true⟩, true⟩).setProg
          (PlacedHook.place? ⟨ifindex, kind, true⟩) (some prog)
      else nics.setService service ⟨none, false⟩ := by
  simp only [XdpNics.attachGeneric, if_neg hasks.ifindex, hasks.detached,
    Bool.false_eq_true, if_false, hasks.mainProg, hasks.kind]
  split_ifs <;> rfl

theorem attachGeneric_of_not_asks {hookType : HookType} {ifindex : Int32}
    {mainProg : Option (XdpProg θ)}
    (hasks : ∀ kind prog,
      ¬ nics.Asks service hookType ifindex mainProg kind prog)
    (accepted : Bool) :
    (nics.attachGeneric service hookType ifindex mainProg accepted).2 =
      nics := by
  unfold XdpNics.attachGeneric
  by_cases hifindex : ifindex < 0
  · simp only [if_pos hifindex]
  · cases hattached : (nics.services service).attached with
    | true => simp [hifindex, hattached]
    | false =>
        cases hmain : mainProg with
        | none => simp [hifindex, hattached]
        | some prog =>
            cases hkind : HookKind.ofHook hookType with
            | none => simp [hifindex, hattached]
            | some kind =>
                exact absurd ⟨hifindex, hattached, hmain, hkind⟩
                  (hasks kind prog)

theorem Kept.attachGeneric (hkept : nics.Kept) (hrunning : nics.ended = false)
    {hookType : HookType} {ifindex : Int32} {mainProg : Option (XdpProg θ)}
    {accepted : Bool} (hspares : nics.Spares
      (.attachGeneric service hookType ifindex mainProg accepted)) :
    (nics.attachGeneric service hookType ifindex mainProg accepted).2.Kept := by
  by_cases hasks : ∃ kind prog,
      nics.Asks service hookType ifindex mainProg kind prog
  · obtain ⟨kind, prog, hasks⟩ := hasks
    have hgiven := hspares kind prog hrunning hasks
    rw [attachGeneric_of_asks hasks]
    split_ifs at hgiven ⊢ with hhook haccepted
    · exact hkept.endProcess hgiven
    · cases hplace : PlacedHook.place? ⟨ifindex, kind, true⟩ with
      | none =>
          refine hkept.unheld (not_heldAt_of_detached hasks.detached) hplace
            ⟨fun _ => ⟨_, rfl, rfl⟩, fun _ _ _ _ => rfl⟩
      | some place =>
          obtain ⟨rfl, hfree⟩ := hgiven haccepted place hplace
          exact @Kept.attached θ _ nics service hkept _ rfl _ hplace hrunning
            hasks.detached hfree
    · exact hkept.loseHook hasks.detached
  · rw [attachGeneric_of_not_asks]
    · exact hkept
    · exact fun kind prog hboth => hasks ⟨kind, prog, hboth⟩

theorem detach_of_attached {hook : PlacedHook}
    (hattached : (nics.services service).attached = true)
    (hhook : (nics.services service).hook = some hook)
    (hself : hook.attached = true) (accepted : Bool) :
    nics.detach service accepted =
      if accepted then
        (nics.setService service ⟨some { hook with attached := false },
          false⟩).setProg hook.place? none
      else nics.setService service ⟨some hook, false⟩ := by
  simp only [XdpNics.detach, hattached, hhook, hself, true_and, not_true,
    if_false]

omit [DecidableEq θ] in
theorem Kept.hook_of_attached (hkept : nics.Kept)
    (hrunning : nics.ended = false)
    (hattached : (nics.services service).attached = true) :
    ∃ hook, (nics.services service).hook = some hook ∧
      hook.attached = true ∧
      (nics.services service).place? = hook.place? := by
  obtain ⟨hook, hhook, hself⟩ :=
    (hkept.agrees hrunning service).hooked hattached
  refine ⟨hook, hhook, hself, ?_⟩
  rw [XdpService.place?, if_pos hattached, Option.mem_def.mp hhook]
  rfl

theorem Kept.detach (hkept : nics.Kept) (hrunning : nics.ended = false)
    {accepted : Bool} (hspares : nics.Spares (.detach service accepted)) :
    (nics.detach service accepted).Kept := by
  cases hattached : (nics.services service).attached with
  | false =>
      unfold XdpNics.detach
      simp only [hattached]
      exact hkept
  | true =>
      obtain ⟨hook, hhook, hself, hplace⟩ :=
        hkept.hook_of_attached hrunning hattached
      rw [detach_of_attached hattached hhook hself]
      cases hthere : hook.place? with
      | none =>
          have hunheld : ∀ place, ¬ nics.HeldAt service place := by
            intro place hheld
            rw [HeldAt, hplace, hthere] at hheld
            exact Option.some_ne_none _ hheld.2.symm
          -- A `TcHook`, which may stay attached
          have hagrees : ∀ attached, XdpService.Agrees
              ⟨some { hook with attached }, false⟩ := by
            intro attached
            refine ⟨fun hself => absurd hself Bool.false_ne_true, ?_⟩
            intro other hother hsome
            cases hother
            rw [PlacedHook.place?] at hsome hthere
            simp [hthere] at hsome
          split_ifs
          · exact hkept.unheld hunheld rfl (hagrees false)
          · exact hkept.unheld hunheld rfl (hagrees hook.attached)
      | some place =>
          have hheld : nics.HeldAt service place :=
            ⟨hrunning, hplace.trans hthere⟩
          rw [if_pos (hspares ⟨place, hheld⟩)]
          exact hkept.detached hheld

theorem Kept.destroy (hkept : nics.Kept) (hrunning : nics.ended = false)
    (hspares : nics.Spares (.destroy service)) :
    (nics.destroy service).Kept := by
  unfold XdpNics.destroy
  split_ifs with hhook
  · exact hkept.endProcess (hspares hrunning hhook)
  · refine hkept.loseHook ?_
    rw [← Bool.not_eq_true]
    intro hattached
    exact hhook ((hkept.agrees hrunning service).hooked hattached)

theorem Kept.step (hkept : nics.Kept) {input : XdpInput θ}
    (hspares : nics.Spares input) : (nics.step input).Kept := by
  unfold XdpNics.step
  cases input with
  | attachGeneric service hookType ifindex mainProg accepted =>
      simp only
      split_ifs with hended
      · exact hkept
      · exact hkept.attachGeneric (Bool.eq_false_of_not_eq_true hended) hspares
  | detach service accepted =>
      simp only
      split_ifs with hended
      · exact hkept
      · exact hkept.detach (Bool.eq_false_of_not_eq_true hended) hspares
  | destroy service =>
      simp only
      split_ifs with hended
      · exact hkept
      · exact hkept.destroy (Bool.eq_false_of_not_eq_true hended) hspares
  | other place id => exact hkept.others hspares id

theorem Kept.not_exact_attachGeneric (hkept : nics.Kept)
    {hookType : HookType} {ifindex : Int32} {mainProg : Option (XdpProg θ)}
    {accepted : Bool} (hspares : ¬ nics.Spares
      (.attachGeneric service hookType ifindex mainProg accepted)) :
    nics.ended = false ∧
      ¬ (nics.attachGeneric service hookType ifindex mainProg
        accepted).2.Exact := by
  unfold Spares at hspares
  push Not at hspares
  obtain ⟨kind, prog, hrunning, hasks, hgiven⟩ := hspares
  refine ⟨hrunning, ?_⟩
  rw [attachGeneric_of_asks hasks]
  split_ifs at hgiven ⊢ with hhook haccepted
  · exact hkept.not_exact_endProcess hgiven
  · push Not at hgiven
    obtain ⟨-, place, hplace, hbreaks⟩ := hgiven
    rw [Option.mem_def] at hplace
    rw [hplace]
    intro hexact
    have hplaced := hexact service place
    rw [heldAt_setProg, heldAt_setService, if_pos rfl, progs_setProg,
      if_pos rfl] at hplaced
    obtain rfl := Option.some.inj (hplaced.mp ⟨hrunning, hplace⟩)
    obtain ⟨other, hheld⟩ := hbreaks rfl
    have hother : other ≠ service := by
      intro hsame
      subst hsame
      exact not_heldAt_of_detached hasks.detached place hheld
    have hstill := hexact other place
    rw [heldAt_setProg, heldAt_setService, if_neg hother, progs_setProg,
      if_pos rfl] at hstill
    cases hstill.mp hheld
    exact hother rfl
  · push Not at hgiven
    exact absurd hgiven.1 haccepted

theorem Kept.not_exact_detach (hkept : nics.Kept) {accepted : Bool}
    (hspares : ¬ nics.Spares (.detach service accepted)) :
    nics.ended = false ∧ ¬ (nics.detach service accepted).Exact := by
  unfold Spares at hspares
  push Not at hspares
  obtain ⟨⟨place, hheld⟩, haccepted⟩ := hspares
  have hattached : (nics.services service).attached = true := by
    by_contra hnot
    exact not_heldAt_of_detached (Bool.eq_false_of_not_eq_true hnot) place hheld
  obtain ⟨hook, hhook, hself, -⟩ := hkept.hook_of_attached hheld.1 hattached
  refine ⟨hheld.1, ?_⟩
  rw [detach_of_attached hattached hhook hself, if_neg haccepted]
  intro hexact
  have hstill := hexact service place
  rw [heldAt_setService, if_pos rfl] at hstill
  exact Option.some_ne_none _
    (hstill.mpr ((hkept.exact service place).mp hheld)).2.symm

theorem Kept.not_exact_destroy (hkept : nics.Kept)
    (hspares : ¬ nics.Spares (.destroy service)) :
    nics.ended = false ∧ ¬ (nics.destroy service).Exact := by
  unfold Spares at hspares
  push Not at hspares
  obtain ⟨hrunning, hhook, hheld⟩ := hspares
  refine ⟨hrunning, ?_⟩
  rw [XdpNics.destroy, if_pos hhook]
  exact hkept.not_exact_endProcess hheld

/-- What takes a place that a service holds, keeps what it gives up, or runs
another's program in its name. -/
theorem Kept.not_exact_step (hkept : nics.Kept) {input : XdpInput θ}
    (hspares : ¬ nics.Spares input) : ¬ (nics.step input).Exact := by
  unfold XdpNics.step
  cases input with
  | attachGeneric service hookType ifindex mainProg accepted =>
      obtain ⟨hrunning, hnot⟩ := hkept.not_exact_attachGeneric hspares
      simpa only [hrunning, Bool.false_eq_true, if_false] using hnot
  | detach service accepted =>
      obtain ⟨hrunning, hnot⟩ := hkept.not_exact_detach hspares
      simpa only [hrunning, Bool.false_eq_true, if_false] using hnot
  | destroy service =>
      obtain ⟨hrunning, hnot⟩ := hkept.not_exact_destroy hspares
      simpa only [hrunning, Bool.false_eq_true, if_false] using hnot
  | other place id =>
      obtain ⟨service, hheld⟩ := not_forall_not.mp hspares
      intro hexact
      have hstill := hexact service place
      rw [heldAt_setProg, progs_setProg, if_pos rfl] at hstill
      have hprog := hstill.mp hheld
      cases id <;> cases hprog

/-- In every state of a run what the services say is what runs, exactly where
every step spares them. -/
theorem exact_throughout_iff (inputs : List (XdpInput θ)) :
    Throughout step Exact start inputs ↔ StepsMeet step Spares start inputs :=
  throughout_iff_stepsMeet (fun _ hkept => hkept.exact)
    (fun _ _ hkept hspares => hkept.step hspares)
    (fun _ _ hkept hspares => hkept.not_exact_step hspares)
    start_kept

/-- The service that comes second takes the place, and leaves it empty. -/
example :
    let nics := run step (start : XdpNics Bool)
      [.attachGeneric true .xdpGeneric 3 (some (.main true)) true,
        .attachGeneric false .xdpGeneric 3 (some (.main false)) true,
        .detach false true]
    (nics.services true).attached = true ∧ nics.progs (3, 2) = none := by
  decide

end XdpNics

end Hebpf.Ebpf
