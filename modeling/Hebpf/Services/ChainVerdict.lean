import Hebpf.Ebpf.Chain
import Hebpf.Services.Acl.Base
import Hebpf.Services.Lb.Valid

namespace Hebpf.Services

open Hebpf.Common Hebpf.Ebpf Hebpf.Kernel

/-! The XDP programs of a chain, and the verdict a frame leaves it with. -/

def SCHEDULER_XDP_GENERIC : UInt32 := 5
def ACL_XDP_GENERIC : UInt32 := 3
def LB_XDP_GENERIC : UInt32 := 7

def schedulerXdp : ChainProgram XdpAction where
  id := SCHEDULER_XDP_GENERIC
  exec frame := (frame, .chainNext .pass)

def aclXdp (krules : Acl.KrulesAcl) : ChainProgram XdpAction where
  id := ACL_XDP_GENERIC
  exec frame := (frame, Acl.hebpfAclXdpGeneric krules frame)

def lbXdp (maps : Lb.LbMaps) : ChainProgram XdpAction where
  id := LB_XDP_GENERIC
  exec := Lb.hebpfLbXdpGen maps

def NeverAnswers {ν : Type} (prog : ChainProgram ν) (verdict : ν) : Prop :=
  ∀ frame, (prog.exec frame).2 ≠ .ret verdict ∧
    (prog.exec frame).2 ≠ .chainNext verdict

theorem aclXdp_neverAnswers_tx (krules : Acl.KrulesAcl) :
    NeverAnswers (aclXdp krules) .tx := by
  intro frame
  simp only [aclXdp, Acl.hebpfAclXdpGeneric]
  split_ifs
  · simp
  · simp
  · simp
  · split
    · simp
    · split_ifs <;> simp

theorem runPrograms_ne {ν : Type} {progs : List (ChainProgram ν)}
    {verdict other : ν} (hother : other ≠ verdict)
    (hnever : ∀ prog ∈ progs, NeverAnswers prog verdict) (frame : Frame) :
    (runPrograms progs other frame).2 ≠ verdict := by
  induction progs generalizing other frame with
  | nil => exact hother
  | cons prog rest ih =>
      obtain ⟨hret, hnext⟩ := hnever prog (.head _) frame
      cases hexec : prog.exec frame with
      | mk sent exit =>
          rw [hexec] at hret hnext
          cases exit with
          | ret answer => simpa [runPrograms, hexec] using hret
          | chainNext answer =>
              simp only [runPrograms, hexec]
              exact ih (by simpa using hnext)
                (fun later hlater => hnever later (.tail _ hlater)) sent

/-- A frame that the load balancer rewrites leaves the chain with `XDP_TX`
exactly where nothing runs behind the load balancer, or what runs there answers
`XDP_TX` of its own.  Programs that never do leave only the first case. -/
theorem verdict_eq_tx_iff {maps : ChainMaps (ChainProgram XdpAction)}
    {ifindex : UInt32} {start : Nat} {lbMaps : Lb.LbMaps}
    {before after : List (ChainProgram XdpAction)}
    (hlayout : ChainLayout ChainProgram.id maps ifindex start
      (schedulerXdp :: (before ++ lbXdp lbMaps :: after)))
    {frame reached sent : Frame}
    (hreached : passThrough before frame = some reached)
    (hrewrites : Lb.hebpfLbXdpGen lbMaps reached = (sent, .chainNext .tx)) :
    ((runChain maps ifindex MAX_TAIL_CALL_CNT schedulerXdp frame).2 = .tx ↔
        after = [] ∨ (runPrograms after .pass sent).2 = .tx) ∧
      ((∀ prog ∈ after, NeverAnswers prog .tx) →
        ((runChain maps ifindex MAX_TAIL_CALL_CNT schedulerXdp frame).2 =
            .tx ↔ after = [])) := by
  have hlength : (before ++ lbXdp lbMaps :: after).length ≤
      MAX_TAIL_CALL_CNT := by
    have hbound := hlayout.bound
    simp only [List.length_cons, MAX_CHAIN_PROGS] at hbound
    simp only [MAX_TAIL_CALL_CNT]
    omega
  have hrun : runChain maps ifindex MAX_TAIL_CALL_CNT schedulerXdp frame =
      runPrograms after .tx sent := by
    obtain ⟨verdict, hbefore⟩ :=
      @runPrograms_append _ before (lbXdp lbMaps :: after) _ _ hreached .pass
    rw [hlayout.runChain_eq hlength .pass]
    change runPrograms (before ++ lbXdp lbMaps :: after) .pass frame = _
    rw [hbefore]
    simp only [runPrograms, lbXdp, hrewrites]
  rw [hrun]
  cases after with
  | nil => simp [runPrograms]
  | cons prog rest =>
      refine ⟨by simp [runPrograms], fun hnever => ?_⟩
      have hne : (runPrograms (prog :: rest) .pass sent).2 ≠ .tx :=
        runPrograms_ne (by decide) hnever sent
      simpa [runPrograms] using hne

/-! The load balancer in front of an ACL without rules, on interface 1. -/

def aclIdle : ChainProgram XdpAction := aclXdp Acl.AclBase.start.krules

def lbReady : ChainProgram XdpAction := lbXdp Lb.lbBalanced.maps

def lbBeforeAcl : ChainMaps (ChainProgram XdpAction) where
  parray := ⟨fun index => [none, some lbReady, some aclIdle][index.val]?.join⟩
  idhash := {
    entries := (((∅ : Data.Table ChainKey UInt32).insert
      (chainKey 1 SCHEDULER_XDP_GENERIC) 0).insert
      (chainKey 1 LB_XDP_GENERIC) 1).insert (chainKey 1 ACL_XDP_GENERIC) 2
    bounded := by decide }

theorem chainLayout_lbBeforeAcl :
    ChainLayout ChainProgram.id lbBeforeAcl 1 0
      (schedulerXdp :: ([] ++ lbReady :: [aclIdle])) where
  bound := by decide
  index := by
    rintro (_ | _ | _ | k) prog hprog <;> cases hprog <;> decide
  slot := by
    rintro (_ | _ | k) prog hprog <;> cases hprog <;> rfl
  stop := by
    intro _
    rfl

theorem verdict_eq_tx_iff_vipFrame :
    (runChain lbBeforeAcl 1 MAX_TAIL_CALL_CNT schedulerXdp Lb.vipFrame).2 =
        .tx ↔ [aclIdle] = [] :=
  (verdict_eq_tx_iff chainLayout_lbBeforeAcl
    (show passThrough [] Lb.vipFrame = some Lb.vipFrame from rfl)
    (Prod.ext rfl (by decide))).2 (by
      intro prog hprog
      obtain rfl := List.mem_singleton.mp hprog
      exact aclXdp_neverAnswers_tx _)

/-- The rewritten frame is passed up the stack instead of sent. -/
theorem verdict_pass_vipFrame :
    ChainLayout ChainProgram.id lbBeforeAcl 1 0
        (schedulerXdp :: ([] ++ lbReady :: [aclIdle])) ∧
      (lbReady.exec Lb.vipFrame).2 = .chainNext .tx ∧
      (aclIdle.exec (lbReady.exec Lb.vipFrame).1).2 = .chainNext .pass ∧
      (runChain lbBeforeAcl 1 MAX_TAIL_CALL_CNT schedulerXdp Lb.vipFrame).2 =
        .pass := by
  refine ⟨chainLayout_lbBeforeAcl, by decide, by decide, ?_⟩
  decide

end Hebpf.Services
