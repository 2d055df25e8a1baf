import Hebpf.Data.Run
import Mathlib.Tactic.Common

namespace Hebpf.Ebpf

open Hebpf.Data

/-- The part of `bpf_tc_opts` by which a filter is known. -/
structure TcOpts where
  handle : UInt32
  priority : UInt32
  deriving DecidableEq, Repr

structure TcHook where
  attached : Bool
  hookCreated : Bool
  handle : UInt32
  priority : UInt32
  deriving DecidableEq, Repr

/-- The tc hook that the object has created last, where it is still there, and
the filters that the object has installed.  `destroyFailed` says of that hook
that a call to destroy it has failed. -/
structure NicState where
  hook : Bool
  destroyFailed : Bool
  filters : List TcOpts
  deriving DecidableEq, Repr

structure HookOnNic where
  tcHook : TcHook
  nic : NicState
  deriving DecidableEq, Repr

inductive HookCreate where
  | created
  | alreadyExists
  | error
  deriving DecidableEq, Repr

inductive TcCall where
  | attach (creates : HookCreate) (attaches : Option TcOpts)
  | detach (detaches destroys : Bool)
  deriving DecidableEq, Repr

namespace HookOnNic

def start : HookOnNic := ⟨⟨false, false, 0, 0⟩, ⟨false, false, []⟩⟩

def preAttachCheck (state : HookOnNic) : HookCreate → Int × HookOnNic
  | .created =>
      (0, {
        tcHook := { state.tcHook with hookCreated := true }
        nic := { state.nic with hook := true, destroyFailed := false } })
  | .alreadyExists =>
      (0, { state with tcHook := { state.tcHook with hookCreated := false } })
  | .error => (-1, state)

def doAttach (state : HookOnNic) : Option TcOpts → Int × HookOnNic
  | some opts =>
      (0, {
        tcHook := { state.tcHook with
          handle := opts.handle
          priority := opts.priority }
        nic := { state.nic with filters := opts :: state.nic.filters } })
  | none => (-1, state)

def attach (state : HookOnNic) (creates : HookCreate)
    (attaches : Option TcOpts) : Bool × HookOnNic :=
  if state.tcHook.attached then (false, state)
  else
    let (err, state) := state.preAttachCheck creates
    if err < 0 then (false, state)
    else
      let (err, state) := state.doAttach attaches
      if err = 0 then
        (true, { state with tcHook := { state.tcHook with attached := true } })
      else (false, state)

def doDetach (state : HookOnNic) (detaches : Bool) : Int × HookOnNic :=
  if detaches then
    (0, { state with nic := { state.nic with
      filters := state.nic.filters.erase
        ⟨state.tcHook.handle, state.tcHook.priority⟩ } })
  else (-1, state)

/-- With a hook go its filters. -/
def postDetachCleanup (state : HookOnNic) (destroys : Bool) : HookOnNic :=
  if state.tcHook.hookCreated then
    if destroys then
      { tcHook := { state.tcHook with hookCreated := false }
        nic := { state.nic with hook := false, filters := [] } }
    else { state with nic := { state.nic with destroyFailed := true } }
  else state

def detach (state : HookOnNic) (detaches destroys : Bool) :
    Bool × HookOnNic :=
  if ¬ state.tcHook.attached then (true, state)
  else
    let (err, state) := state.doDetach detaches
    let state :=
      if err = 0 then
        { state with tcHook := { state.tcHook with attached := false } }
      else state
    (err = 0, state.postDetachCleanup destroys)

def call (state : HookOnNic) : TcCall → HookOnNic
  | .attach creates attaches => (state.attach creates attaches).2
  | .detach detaches destroys => (state.detach detaches destroys).2

/-- The object is attached exactly while it has a filter, and an object that is
not attached has left no hook that it did not try to destroy. -/
structure Clean (state : HookOnNic) : Prop where
  attached : state.tcHook.attached = true ↔ state.nic.filters ≠ []
  hook : state.tcHook.attached = false → state.nic.hook = true →
    state.nic.destroyFailed = true

/-- The filter is attached where its hook has been created, and a hook that is
destroyed had its filter detached. -/
def Orderly (state : HookOnNic) : TcCall → Prop
  | .attach .created none => state.tcHook.attached = true
  | .detach false true =>
      state.tcHook.attached = true → state.tcHook.hookCreated = false
  | _ => True

structure Tracked (state : HookOnNic) : Prop where
  filters : state.nic.filters =
    if state.tcHook.attached then
      [⟨state.tcHook.handle, state.tcHook.priority⟩]
    else []
  hook : state.tcHook.attached = false → state.nic.hook = true →
    state.nic.destroyFailed = true
  created : state.nic.hook = true → state.nic.destroyFailed = false →
    state.tcHook.hookCreated = true

structure Bare (state : HookOnNic) : Prop where
  attached : state.tcHook.attached = false
  filters : state.nic.filters = []
  created : state.nic.hook = true → state.nic.destroyFailed = false →
    state.tcHook.hookCreated = true

variable {state : HookOnNic}

theorem Tracked.clean (htracked : state.Tracked) : state.Clean := by
  refine ⟨?_, htracked.hook⟩
  rw [htracked.filters]
  cases state.tcHook.attached <;> simp

theorem tracked_start : start.Tracked := by
  constructor <;> decide

theorem Tracked.bare (htracked : state.Tracked)
    (hattached : state.tcHook.attached = false) : state.Bare := by
  have hfilters := htracked.filters
  rw [hattached, if_neg Bool.false_ne_true] at hfilters
  exact ⟨hattached, hfilters, htracked.created⟩

theorem Bare.tracked (hbare : state.Bare)
    (hhook : state.nic.hook = true → state.nic.destroyFailed = true) :
    state.Tracked := by
  refine ⟨?_, fun _ => hhook, hbare.created⟩
  rw [hbare.attached, hbare.filters, if_neg Bool.false_ne_true]

theorem Bare.attached_filter (hbare : state.Bare) (opts : TcOpts) :
    Tracked {
      tcHook := { state.tcHook with
        attached := true
        handle := opts.handle
        priority := opts.priority }
      nic := { state.nic with filters := opts :: state.nic.filters } } :=
  ⟨by simp [hbare.filters], nofun, hbare.created⟩

theorem Bare.preAttachCheck (hbare : state.Bare)
    (hhook : state.nic.hook = true → state.nic.destroyFailed = true)
    (creates : HookCreate) : (state.preAttachCheck creates).2.Bare := by
  cases creates with
  | created => exact ⟨hbare.attached, hbare.filters, fun _ _ => rfl⟩
  | alreadyExists =>
      refine ⟨hbare.attached, hbare.filters, fun hpresent hfailed => ?_⟩
      exact absurd ((hhook hpresent).symm.trans hfailed) (by decide)
  | error => exact hbare

theorem Bare.postDetachCleanup (hbare : state.Bare) (destroys : Bool) :
    (state.postDetachCleanup destroys).Tracked := by
  unfold HookOnNic.postDetachCleanup
  split_ifs with hcreated
  · exact ⟨by simp [hbare.attached], nofun, nofun⟩
  · exact ⟨by simp [hbare.attached, hbare.filters], fun _ _ => rfl, nofun⟩
  · refine hbare.tracked fun hpresent => ?_
    by_contra hfailed
    exact hcreated (hbare.created hpresent (Bool.eq_false_iff.mpr hfailed))

theorem Tracked.attach (htracked : state.Tracked) {creates : HookCreate}
    {attaches : Option TcOpts}
    (horderly : state.Orderly (.attach creates attaches)) :
    (state.attach creates attaches).2.Tracked := by
  cases hattached : state.tcHook.attached with
  | true => simpa [HookOnNic.attach, hattached] using htracked
  | false =>
      have hhook := htracked.hook hattached
      have hcheck := (htracked.bare hattached).preAttachCheck hhook creates
      cases creates with
      | error =>
          simpa [HookOnNic.attach, hattached, HookOnNic.preAttachCheck]
            using htracked
      | created =>
          cases attaches with
          | none => exact absurd (hattached.symm.trans horderly) (by decide)
          | some opts =>
              simpa [HookOnNic.attach, hattached, HookOnNic.preAttachCheck,
                doAttach] using hcheck.attached_filter opts
      | alreadyExists =>
          cases attaches with
          | none =>
              simpa [HookOnNic.attach, hattached, HookOnNic.preAttachCheck,
                doAttach] using hcheck.tracked hhook
          | some opts =>
              simpa [HookOnNic.attach, hattached, HookOnNic.preAttachCheck,
                doAttach] using hcheck.attached_filter opts

theorem Tracked.detach (htracked : state.Tracked) {detaches destroys : Bool}
    (horderly : state.Orderly (.detach detaches destroys)) :
    (state.detach detaches destroys).2.Tracked := by
  cases hattached : state.tcHook.attached with
  | false => simpa [HookOnNic.detach, hattached] using htracked
  | true =>
      have hfilters := htracked.filters
      rw [hattached, if_pos rfl] at hfilters
      cases detaches with
      | true =>
          have hbare : Bare {
              tcHook := { state.tcHook with attached := false }
              nic := { state.nic with filters := [] } } :=
            ⟨rfl, rfl, htracked.created⟩
          simpa [HookOnNic.detach, hattached, doDetach, hfilters]
            using hbare.postDetachCleanup destroys
      | false =>
          simp only [HookOnNic.detach, hattached, doDetach,
            HookOnNic.postDetachCleanup]
          cases destroys with
          | true =>
              have hcreated : state.tcHook.hookCreated = false :=
                horderly hattached
              simpa [hcreated] using htracked
          | false =>
              cases hcreated : state.tcHook.hookCreated with
              | false => simpa [hcreated] using htracked
              | true =>
                  have hfailed : Tracked { state with
                      nic := { state.nic with destroyFailed := true } } :=
                    ⟨htracked.filters, fun _ _ => rfl, nofun⟩
                  simpa [hcreated] using hfailed

theorem Tracked.call (htracked : state.Tracked) {tcCall : TcCall}
    (horderly : state.Orderly tcCall) : (state.call tcCall).Tracked := by
  cases tcCall with
  | attach creates attaches => exact htracked.attach horderly
  | detach detaches destroys => exact htracked.detach horderly

theorem not_clean_of_not_orderly {tcCall : TcCall}
    (hbreak : ¬ state.Orderly tcCall) : ¬ (state.call tcCall).Clean := by
  intro hclean
  cases tcCall with
  | attach creates attaches =>
      cases creates <;> cases attaches <;> simp [Orderly] at hbreak
      have hhook := hclean.hook
      simp [HookOnNic.call, HookOnNic.attach, hbreak,
        HookOnNic.preAttachCheck, doAttach] at hhook
  | detach detaches destroys =>
      cases detaches <;> cases destroys <;> simp [Orderly] at hbreak
      have hfilters := hclean.attached
      simp [HookOnNic.call, HookOnNic.detach, hbreak, doDetach,
        HookOnNic.postDetachCleanup] at hfilters

theorem clean_iff_orderly (calls : List TcCall) :
    Throughout call Clean start calls ↔
      StepsMeet call Orderly start calls :=
  throughout_iff_stepsMeet (fun _ htracked => htracked.clean)
    (fun _ _ htracked horderly => htracked.call horderly)
    (fun _ _ _ hbreak => not_clean_of_not_orderly hbreak) tracked_start

theorem not_clean_attach_fails :
    ¬ ∀ calls, Throughout call Clean start calls := by
  intro hall
  have hhook := (hall [.attach .created none]).2.hook
  exact absurd (hhook rfl rfl) (by decide)

end HookOnNic

end Hebpf.Ebpf
