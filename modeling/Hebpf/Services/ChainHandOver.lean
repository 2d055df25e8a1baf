import Hebpf.Services.Acl.Agreement

namespace Hebpf.Services

open Hebpf.Common Hebpf.Ebpf

def SCHEDULER_TC : UInt32 := 4

def schedulerTc : ChainProgram TcAction where
  id := SCHEDULER_TC
  exec frame := (frame, .chainNext .ok)

def aclTc (krules : Acl.KrulesAcl) (protocol : Be16) :
    ChainProgram TcAction where
  id := Acl.ACL_TC
  exec frame := (frame, Acl.hebpfAclTcIngress krules protocol frame)

/-- The load balancer answers frames without complete headers itself, other
protocols than TCP and UDP apart. -/
structure LbHeaders (frame : Frame) : Prop extends Ipv4Frame frame where
  tcp : ipProtocol frame = IPPROTO_TCP →
    transportOffset frame + sizeofTcphdr ≤ frame.length
  udp : ipProtocol frame = IPPROTO_UDP →
    transportOffset frame + sizeofUdphdr ≤ frame.length

/-! The headers lie behind the addresses that the load balancer rewrites. -/

/-- The frames differ in their Ethernet addresses at most. -/
structure SameHeaders (sent frame : Frame) : Prop where
  length : sent.length = frame.length
  drop : sent.drop 12 = frame.drop 12

namespace SameHeaders

variable {sent frame : Frame}

theorem refl (frame : Frame) : SameHeaders frame frame := ⟨rfl, rfl⟩

theorem trans {between : Frame} (hsent : SameHeaders sent between)
    (hbetween : SameHeaders between frame) : SameHeaders sent frame :=
  ⟨hsent.length.trans hbetween.length, hsent.drop.trans hbetween.drop⟩

theorem byteAt (hsame : SameHeaders sent frame) {offset : Nat}
    (hoffset : 12 ≤ offset) :
    Common.byteAt sent offset = Common.byteAt frame offset := by
  obtain ⟨past, rfl⟩ := Nat.exists_eq_add_of_le hoffset
  have hread : (sent.drop 12)[past]? = (frame.drop 12)[past]? := by
    rw [hsame.drop]
  rw [List.getElem?_drop, List.getElem?_drop] at hread
  simp only [Common.byteAt, List.getD_eq_getElem?_getD, hread]

theorem ethProto (hsame : SameHeaders sent frame) :
    Common.ethProto sent = Common.ethProto frame := by
  simp [Common.ethProto, be16At, hsame.byteAt]

theorem ipProtocol (hsame : SameHeaders sent frame) :
    Common.ipProtocol sent = Common.ipProtocol frame :=
  hsame.byteAt (by decide)

theorem transportOffset (hsame : SameHeaders sent frame) :
    Common.transportOffset sent = Common.transportOffset frame := by
  simp [Common.transportOffset, ipIhl, hsame.byteAt, sizeofEthhdr]

theorem extractPorts (hsame : SameHeaders sent frame) :
    Acl.extractPorts sent = Acl.extractPorts frame := by
  have hpast : ∀ past, be16At sent (Common.transportOffset frame + past) =
      be16At frame (Common.transportOffset frame + past) := by
    intro past
    have hoffset : 12 ≤ Common.transportOffset frame + past := by
      simp only [Common.transportOffset, sizeofEthhdr]
      omega
    simp only [be16At, hsame.byteAt hoffset,
      hsame.byteAt (Nat.le_succ_of_le hoffset)]
  simp only [Acl.extractPorts, transportSource, transportDest, hsame.length,
    hsame.ipProtocol, hsame.transportOffset, hpast 2,
    show be16At sent (Common.transportOffset frame) = _ from hpast 0,
    Nat.add_zero]

theorem lookupAction (hsame : SameHeaders sent frame)
    (krules : Acl.KrulesAcl) (originSrcPort dport : Be16) :
    Acl.lookupAction krules sent originSrcPort dport =
      Acl.lookupAction krules frame originSrcPort dport := by
  have haddresses : ipSaddr sent = ipSaddr frame ∧
      ipDaddr sent = ipDaddr frame := by
    constructor <;>
      simp [ipSaddr, ipDaddr, be32At, sizeofEthhdr, hsame.byteAt]
  simp only [Acl.lookupAction, Acl.frameTuple, haddresses, hsame.ipProtocol]

theorem aclHeaders_iff (hsame : SameHeaders sent frame) (protocol : Be16) :
    Acl.AclHeaders protocol sent ↔ Acl.AclHeaders protocol frame := by
  constructor
  · rintro ⟨hipv4, hheader, htransport, hports⟩
    exact ⟨hipv4, hsame.length ▸ hheader, hsame.ipProtocol ▸ htransport,
      by rwa [← hsame.length, ← hsame.transportOffset]⟩
  · rintro ⟨hipv4, hheader, htransport, hports⟩
    exact ⟨hipv4, hsame.length.symm ▸ hheader,
      hsame.ipProtocol.symm ▸ htransport,
      by rwa [hsame.length, hsame.transportOffset]⟩

theorem aclDenies_iff (hsame : SameHeaders sent frame)
    (krules : Acl.KrulesAcl) (protocol : Be16) :
    Acl.AclDenies krules protocol sent ↔
      Acl.AclDenies krules protocol frame := by
  have hheaders := hsame.aclHeaders_iff protocol
  constructor
  · rintro ⟨hsent, hdenied⟩
    simp only [hsame.extractPorts, hsame.lookupAction] at hdenied
    exact ⟨hheaders.mp hsent, hdenied⟩
  · rintro ⟨hframe, hdenied⟩
    simp only [← hsame.extractPorts, ← hsame.lookupAction] at hdenied
    exact ⟨hheaders.mpr hframe, hdenied⟩

theorem lbHeaders_iff (hsame : SameHeaders sent frame) :
    LbHeaders sent ↔ LbHeaders frame := by
  constructor
  · rintro ⟨⟨hipv4, hheader⟩, htcp, hudp⟩
    rw [hsame.ethProto] at hipv4
    rw [hsame.ipProtocol, hsame.transportOffset, hsame.length] at htcp hudp
    rw [hsame.length] at hheader
    exact ⟨⟨hipv4, hheader⟩, htcp, hudp⟩
  · rintro ⟨⟨hipv4, hheader⟩, htcp, hudp⟩
    rw [← hsame.ethProto] at hipv4
    rw [← hsame.ipProtocol, ← hsame.transportOffset, ← hsame.length]
      at htcp hudp
    rw [← hsame.length] at hheader
    exact ⟨⟨hipv4, hheader⟩, htcp, hudp⟩

end SameHeaders

namespace Lb

theorem sameHeaders_memcpy {frame : Frame} {offset : Nat}
    (hoffset : offset ≤ 6) (hframe : 12 ≤ frame.length) (address : Mac) :
    SameHeaders (memcpy frame offset address.toList) frame where
  length := by
    simp only [memcpy, List.length_append, List.length_take, List.length_drop,
      Vector.length_toList]
    omega
  drop := by
    have hbefore : (frame.take offset ++ address.toList).length ≤ 12 := by
      simp only [List.length_append, List.length_take, Vector.length_toList]
      omega
    simp only [memcpy, List.drop_append, List.drop_eq_nil_of_le hbefore,
      List.nil_append, List.drop_drop, List.length_append, List.length_take,
      Vector.length_toList]
    congr 1
    omega

theorem balance_handsOver (maps : LbMaps) {frame : Frame}
    (hframe : 12 ≤ frame.length) (dport : Be16) :
    HandsOver (balance maps frame dport).2 ∧
      SameHeaders (balance maps frame dport).1 frame := by
  simp only [balance]
  split
  · exact ⟨trivial, .refl frame⟩
  · split_ifs
    · exact ⟨trivial, .refl frame⟩
    · split
      · exact ⟨trivial, .refl frame⟩
      · split
        · exact ⟨trivial, .refl frame⟩
        · refine ⟨trivial, ?_⟩
          split
          · exact sameHeaders_memcpy (by decide) hframe _
          · have hsourced : SameHeaders _ frame :=
              sameHeaders_memcpy (le_refl 6) hframe ‹Mac›
            refine .trans (sameHeaders_memcpy (by decide) ?_ _) hsourced
            rw [hsourced.length]
            exact hframe

theorem hebpfLbXdpGen_of_not_lbHeaders (maps : LbMaps) {frame : Frame}
    (hheaders : ¬ LbHeaders frame) :
    hebpfLbXdpGen maps frame = (frame, .ret .pass) := by
  have hne : IPPROTO_UDP ≠ IPPROTO_TCP := by decide
  unfold hebpfLbXdpGen
  split_ifs with heth hipv4 hip htcp hshort hudp hshort
  · rfl
  · rfl
  · rfl
  · rfl
  · refine absurd ⟨⟨not_not.mp hipv4, not_lt.mp hip⟩,
      fun _ => not_lt.mp hshort, fun hudp => ?_⟩ hheaders
    exact absurd (hudp.symm.trans htcp) hne
  · rfl
  · exact absurd ⟨⟨not_not.mp hipv4, not_lt.mp hip⟩,
      fun htcp' => absurd htcp' htcp, fun _ => not_lt.mp hshort⟩ hheaders
  · exact absurd ⟨⟨not_not.mp hipv4, not_lt.mp hip⟩,
      fun htcp' => absurd htcp' htcp, fun hudp' => absurd hudp' hudp⟩ hheaders

theorem hebpfLbXdpGen_of_lbHeaders (maps : LbMaps) {frame : Frame}
    (hheaders : LbHeaders frame) :
    HandsOver (hebpfLbXdpGen maps frame).2 ∧
      SameHeaders (hebpfLbXdpGen maps frame).1 frame := by
  have hlength := hheaders.header
  have hframe : 12 ≤ frame.length := by
    simp only [sizeofEthhdr, sizeofIphdr] at hlength
    omega
  unfold hebpfLbXdpGen
  split_ifs with heth hipv4 hip htcp hshort hudp hshort
  · omega
  · exact absurd hheaders.ipv4 hipv4
  · omega
  · have hroom := hheaders.tcp htcp
    omega
  · exact balance_handsOver maps hframe _
  · have hroom := hheaders.udp hudp
    omega
  · exact balance_handsOver maps hframe _
  · exact ⟨trivial, .refl frame⟩

end Lb

inductive XdpService where
  | scheduler
  | acl (krules : Acl.KrulesAcl)
  | lb (maps : Lb.LbMaps)

inductive TcService where
  | scheduler
  | acl (krules : Acl.KrulesAcl)

namespace XdpService

def program : XdpService → ChainProgram XdpAction
  | scheduler => schedulerXdp
  | acl krules => aclXdp krules
  | lb maps => lbXdp maps

def Finds : XdpService → Frame → Prop
  | scheduler, _ => True
  | acl _, frame => Acl.AclHeaders (ethProto frame) frame
  | lb _, frame => LbHeaders frame

def Denies : XdpService → Frame → Prop
  | acl krules, frame => Acl.AclDenies krules (ethProto frame) frame
  | _, _ => False

theorem sameHeaders (service : XdpService) (frame : Frame) :
    SameHeaders (service.program.exec frame).1 frame := by
  cases service with
  | scheduler => exact .refl frame
  | acl krules => exact .refl frame
  | lb maps =>
      change SameHeaders (Lb.hebpfLbXdpGen maps frame).1 frame
      by_cases hheaders : LbHeaders frame
      · exact (Lb.hebpfLbXdpGen_of_lbHeaders maps hheaders).2
      · rw [Lb.hebpfLbXdpGen_of_not_lbHeaders maps hheaders]
        exact .refl frame

theorem classified : Classified program .drop Finds Denies where
  hands := by
    intro service frame
    cases service with
    | scheduler => simp [program, schedulerXdp, Finds, Denies, HandsOver]
    | acl krules =>
        change HandsOver (Acl.hebpfAclXdpGeneric krules frame) ↔ _
        rw [Acl.hebpfAclXdpGeneric_eq]
        exact Acl.handsOver_aclExit_iff
    | lb maps =>
        change HandsOver (Lb.hebpfLbXdpGen maps frame).2 ↔ _
        simp only [Finds, Denies, not_false_eq_true, and_true]
        by_cases hheaders : LbHeaders frame
        · exact iff_of_true
            (Lb.hebpfLbXdpGen_of_lbHeaders maps hheaders).1 hheaders
        · rw [Lb.hebpfLbXdpGen_of_not_lbHeaders maps hheaders]
          exact iff_of_false id hheaders
  drops := by
    intro service frame
    cases service with
    | scheduler => simp [program, schedulerXdp, Denies]
    | acl krules =>
        change Acl.hebpfAclXdpGeneric krules frame = _ ↔ _
        rw [Acl.hebpfAclXdpGeneric_eq]
        exact Acl.aclExit_eq_ret_iff (by decide)
    | lb maps =>
        change (Lb.hebpfLbXdpGen maps frame).2 = _ ↔ False
        rw [iff_false]
        by_cases hheaders : LbHeaders frame
        · intro hdrop
          have hhands := (Lb.hebpfLbXdpGen_of_lbHeaders maps hheaders).1
          rw [hdrop] at hhands
          exact hhands
        · rw [Lb.hebpfLbXdpGen_of_not_lbHeaders maps hheaders]
          simp
  finds_of_denies := by
    intro service frame hdenies
    cases service with
    | scheduler => trivial
    | acl krules => exact hdenies.toAclHeaders
    | lb maps => exact hdenies.elim
  finds_sent := by
    intro service other frame
    have hsame := service.sameHeaders frame
    cases other with
    | scheduler => exact Iff.rfl
    | acl krules =>
        simp only [Finds, hsame.ethProto]
        exact hsame.aclHeaders_iff _
    | lb maps => exact hsame.lbHeaders_iff
  denies_sent := by
    intro service other frame
    have hsame := service.sameHeaders frame
    cases other with
    | acl krules =>
        simp only [Denies, hsame.ethProto]
        exact hsame.aclDenies_iff krules _
    | scheduler => exact Iff.rfl
    | lb maps => exact Iff.rfl

end XdpService

namespace TcService

/-- Every program of a chain is told the `skb->protocol` of the packet. -/
def program (protocol : Be16) : TcService → ChainProgram TcAction
  | scheduler => schedulerTc
  | acl krules => aclTc krules protocol

def Finds (protocol : Be16) : TcService → Frame → Prop
  | scheduler, _ => True
  | acl _, frame => Acl.AclHeaders protocol frame

def Denies (protocol : Be16) : TcService → Frame → Prop
  | scheduler, _ => False
  | acl krules, frame => Acl.AclDenies krules protocol frame

theorem exec_fst (protocol : Be16) (service : TcService) (frame : Frame) :
    ((service.program protocol).exec frame).1 = frame := by
  cases service <;> rfl

theorem classified (protocol : Be16) :
    Classified (program protocol) .shot (Finds protocol)
      (Denies protocol) where
  hands := by
    intro service frame
    cases service with
    | scheduler => simp [program, schedulerTc, Finds, Denies, HandsOver]
    | acl krules =>
        change HandsOver (Acl.hebpfAclTcIngress krules protocol frame) ↔ _
        rw [Acl.hebpfAclTcIngress_eq]
        exact Acl.handsOver_aclExit_iff
  drops := by
    intro service frame
    cases service with
    | scheduler => simp [program, schedulerTc, Denies]
    | acl krules =>
        change Acl.hebpfAclTcIngress krules protocol frame = _ ↔ _
        rw [Acl.hebpfAclTcIngress_eq]
        exact Acl.aclExit_eq_ret_iff (by decide)
  finds_of_denies := by
    intro service frame hdenies
    cases service with
    | scheduler => trivial
    | acl krules => exact hdenies.toAclHeaders
  finds_sent := by
    intro service other frame
    rw [exec_fst]
  denies_sent := by
    intro service other frame
    rw [exec_fst]

end TcService

/-- A hook of the two kinds; TC with the `skb->protocol` of the packet. -/
inductive PacketHook where
  | xdp
  | tc (protocol : Be16)

namespace PacketHook

def Verdict : PacketHook → Type
  | xdp => XdpAction
  | tc _ => TcAction

def Service : PacketHook → Type
  | xdp => XdpService
  | tc _ => TcService

def program : (hook : PacketHook) → hook.Service → ChainProgram hook.Verdict
  | xdp => XdpService.program
  | tc protocol => TcService.program protocol

def dropped : (hook : PacketHook) → hook.Verdict
  | xdp => XdpAction.drop
  | tc _ => TcAction.shot

def Finds : (hook : PacketHook) → hook.Service → Frame → Prop
  | xdp => XdpService.Finds
  | tc protocol => TcService.Finds protocol

def Denies : (hook : PacketHook) → hook.Service → Frame → Prop
  | xdp => XdpService.Denies
  | tc protocol => TcService.Denies protocol

theorem classified (hook : PacketHook) :
    Classified hook.program hook.dropped hook.Finds hook.Denies := by
  cases hook with
  | xdp => exact XdpService.classified
  | tc protocol => exact TcService.classified protocol

end PacketHook

/-- A packet is handed along a chain exactly where each program it reaches with
one behind it finds its headers. -/
theorem handedAlong_iff_allFind (hook : PacketHook)
    {maps : ChainMaps (ChainProgram hook.Verdict)} {ifindex : UInt32}
    {start : Nat} {service : hook.Service} {rest : List hook.Service}
    (hlayout : ChainLayout ChainProgram.id maps ifindex start
      ((service :: rest).map hook.program)) (frame : Frame) :
    HandedAlong hook.dropped maps ifindex (hook.program service)
        (rest.map hook.program) frame ↔
      AllFind hook.Finds hook.Denies (service :: rest) frame :=
  hook.classified.handedAlong_iff hlayout frame

/-! An ACL without rules in front of the load balancer, on interface 1. -/

def aclBeforeLb : ChainMaps (ChainProgram XdpAction) where
  parray := ⟨fun index => [none, some aclIdle, some lbReady][index.val]?.join⟩
  idhash := {
    entries := (((∅ : Data.Table ChainKey UInt32).insert
      (chainKey 1 SCHEDULER_XDP_GENERIC) 0).insert
      (chainKey 1 ACL_XDP_GENERIC) 1).insert (chainKey 1 LB_XDP_GENERIC) 2
    bounded := by decide }

theorem chainLayout_aclBeforeLb :
    ChainLayout ChainProgram.id aclBeforeLb 1 0
      [schedulerXdp, aclIdle, lbReady] where
  bound := by decide
  index := by
    rintro (_ | _ | _ | k) prog hprog <;> cases hprog <;> decide
  slot := by
    rintro (_ | _ | k) prog hprog <;> cases hprog <;> rfl
  stop := by
    intro _
    rfl

def echoFrame : Frame :=
  List.replicate 12 0 ++ [8, 0] ++
    [0x45, 0, 0, 0, 0, 0, 0, 0, 64, 1, 0, 0, 10, 0, 0, 1, 10, 0, 0, 2] ++
    [8, 0, 0, 0, 0, 0, 0, 0]

theorem handedAlong_iff_allFind_vipFrame :
    HandedAlong .drop aclBeforeLb 1 schedulerXdp [aclIdle, lbReady]
      Lb.vipFrame := by
  refine (@handedAlong_iff_allFind .xdp aclBeforeLb 1 0 XdpService.scheduler
    [XdpService.acl Acl.AclBase.start.krules, XdpService.lb Lb.lbBalanced.maps]
    chainLayout_aclBeforeLb Lb.vipFrame).mpr ?_
  exact allFind_cons_cons.mpr ⟨trivial, fun _ => allFind_cons_cons.mpr
    ⟨⟨by decide, by decide, by decide, by decide⟩,
      fun _ => allFind_singleton⟩⟩

/-- The ACL passes it without the load balancer having seen it. -/
theorem not_handedAlong_echoFrame :
    ChainLayout ChainProgram.id aclBeforeLb 1 0
        [schedulerXdp, aclIdle, lbReady] ∧
      (runChain aclBeforeLb 1 MAX_TAIL_CALL_CNT schedulerXdp echoFrame).2 =
        .pass ∧
      ((visits aclBeforeLb 1 MAX_TAIL_CALL_CNT schedulerXdp echoFrame).map
        fun visit => visit.prog.id) =
          [SCHEDULER_XDP_GENERIC, ACL_XDP_GENERIC] ∧
      ¬ HandedAlong .drop aclBeforeLb 1 schedulerXdp [aclIdle, lbReady]
        echoFrame := by
  have hpass : (runChain aclBeforeLb 1 MAX_TAIL_CALL_CNT schedulerXdp
      echoFrame).2 = .pass := by decide
  have hids : ((visits aclBeforeLb 1 MAX_TAIL_CALL_CNT schedulerXdp
      echoFrame).map fun visit => visit.prog.id) =
        [SCHEDULER_XDP_GENERIC, ACL_XDP_GENERIC] := by decide
  refine ⟨chainLayout_aclBeforeLb, hpass, hids, fun halong => ?_⟩
  have hseen := halong.seen (by rw [hpass]; decide)
  have hlength := congrArg List.length hseen
  have hshort := congrArg List.length hids
  simp only [List.length_map, List.length_cons, List.length_nil]
    at hlength hshort
  omega

end Hebpf.Services
