import Mathlib
import Hebpf.Data.OrderedMap

namespace Hebpf.Daemon

open Hebpf.Data

inductive HookType where
  | tc
  | xdpGeneric
  | xdpNative
  | xdpOffload
  | kprobe
  | unknown
  deriving DecidableEq, Repr

def HookType.enumName : HookType → String
  | tc => "TC"
  | xdpGeneric => "XDP_GENERIC"
  | xdpNative => "XDP_NATIVE"
  | xdpOffload => "XDP_OFFLOAD"
  | kprobe => "KProbe"
  | unknown => "UNKNOWN"

structure ConfigEbpf where
  lib : String
  config : String
  hook : HookType
  ifindex : Int32
  order : Int32
  deriving DecidableEq, Repr

abbrev EbpfMap := OrderedMap String ConfigEbpf

def hookSuffix (hook : HookType) (ifindex : Int32) : String :=
  ";" ++ hook.enumName ++ "_" ++ toString ifindex.toInt

/-- `ID_SCHEDULER_REGEX` -/
def schedulerId (hook : HookType) (ifindex : Int32) : String :=
  "scheduler" ++ hookSuffix hook ifindex

def SCHEDULER_TC_LIB : String :=
  "build/src/services/scheduler/libhebpf_scheduler.so"

def SCHEDULER_XDP_LIB : String :=
  "build/src/services/scheduler/libhebpf_scheduler_xdp.so"

def schedulerLib (hook : HookType) : String :=
  if hook = .tc then SCHEDULER_TC_LIB else SCHEDULER_XDP_LIB

/-- The key the loader keeps a scheduler under. -/
def schedulerPath (hook : HookType) (ifindex : Int32) : String :=
  schedulerLib hook ++ hookSuffix hook ifindex

theorem hookSuffix_inj {hook hook' : HookType} {ifindex ifindex' : Int32} :
    hookSuffix hook ifindex = hookSuffix hook' ifindex' ↔
      hook = hook' ∧ ifindex = ifindex' := by
  constructor
  · intro heq
    -- No name of a hook with its underscore begins another one.
    have hchars := congrArg String.toList heq
    have hhook : hook = hook' := by
      cases hook <;> cases hook' <;>
        simp [hookSuffix, HookType.enumName] at hchars ⊢
    subst hhook
    refine ⟨rfl, ?_⟩
    have hrepr : toString ifindex.toInt = toString ifindex'.toInt :=
      String.append_right_inj _ |>.mp heq
    exact Int32.toInt_inj.mp (Int.repr_inj.mp hrepr)
  · rintro ⟨rfl, rfl⟩
    rfl

theorem schedulerId_inj {hook hook' : HookType} {ifindex ifindex' : Int32} :
    schedulerId hook ifindex = schedulerId hook' ifindex' ↔
      hook = hook' ∧ ifindex = ifindex' := by
  rw [← hookSuffix_inj]
  exact String.append_right_inj _

theorem schedulerPath_inj {hook hook' : HookType}
    {ifindex ifindex' : Int32} :
    schedulerPath hook ifindex = schedulerPath hook' ifindex' ↔
      hook = hook' ∧ ifindex = ifindex' := by
  constructor
  · intro heq
    by_cases hlib : schedulerLib hook = schedulerLib hook'
    · rw [schedulerPath, schedulerPath, hlib] at heq
      exact hookSuffix_inj.mp ((String.append_right_inj _).mp heq)
    · -- The file names part at the dot before the extension.
      have hchars := congrArg String.toList heq
      cases hook <;> cases hook' <;>
        simp [schedulerPath, schedulerLib, SCHEDULER_TC_LIB,
          SCHEDULER_XDP_LIB] at hlib hchars
  · rintro ⟨rfl, rfl⟩
    rfl

end Hebpf.Daemon
