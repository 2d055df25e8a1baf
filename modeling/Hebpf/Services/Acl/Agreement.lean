import Hebpf.Ebpf.HandOver
import Hebpf.Services.Acl.Verdict
import Hebpf.Services.ChainVerdict

namespace Hebpf.Services.Acl

open Hebpf.Common Hebpf.Ebpf

/-! The two programs test the same headers in different orders.  `acl.bpf.c`
asks the packet's context for the protocol, `acl_xdp.bpf.c` the frame. -/

/-- What a frame must carry for its ports to be looked up. -/
structure AclHeaders (protocol : Be16) (frame : Frame) : Prop where
  ipv4 : protocol = htons ETH_P_IP
  header : sizeofEthhdr + sizeofIphdr ≤ frame.length
  transport : ipProtocol frame = IPPROTO_TCP ∨ ipProtocol frame = IPPROTO_UDP
  ports : transportOffset frame + sizeofUdphdr ≤ frame.length

/-- The rules deny the frame, on the ports that are looked up. -/
structure AclDenies (krules : KrulesAcl) (protocol : Be16) (frame : Frame) :
    Prop extends AclHeaders protocol frame where
  denied : ∃ originSrcPort dport,
    extractPorts frame = some (originSrcPort, dport) ∧
      lookupAction krules frame originSrcPort dport = some ACL_ACTION_DENY

theorem extractPorts_isSome_iff {frame : Frame} :
    (extractPorts frame).isSome ↔
      (ipProtocol frame = IPPROTO_TCP ∨ ipProtocol frame = IPPROTO_UDP) ∧
        transportOffset frame + sizeofUdphdr ≤ frame.length := by
  have hsizes : sizeofUdphdr ≤ sizeofTcphdr := by decide
  simp only [extractPorts]
  split_ifs with htransport htcp hprotocol hudp hprotocol
  all_goals simp [htransport]
  all_goals omega

section Exit

variable {ν : Type}

def aclExit (krules : KrulesAcl) (protocol : Be16) (frame : Frame)
    (kept dropped : ν) : Exit ν :=
  if protocol = htons ETH_P_IP ∧
      sizeofEthhdr + sizeofIphdr ≤ frame.length then
    match extractPorts frame with
    | none => .ret kept
    | some (originSrcPort, dport) =>
        if lookupAction krules frame originSrcPort dport =
            some ACL_ACTION_DENY then .ret dropped
        else .chainNext kept
  else .ret kept

theorem hebpfAclTcIngress_eq (krules : KrulesAcl) (protocol : Be16)
    (frame : Frame) :
    hebpfAclTcIngress krules protocol frame =
      aclExit krules protocol frame .ok .shot := by
  simp only [hebpfAclTcIngress, aclExit]
  split_ifs with hprotocol heth hip hboth
  all_goals first | rfl | omega | simp_all

theorem hebpfAclXdpGeneric_eq (krules : KrulesAcl) (frame : Frame) :
    hebpfAclXdpGeneric krules frame =
      aclExit krules (ethProto frame) frame .pass .drop := by
  simp only [hebpfAclXdpGeneric, aclExit]
  split_ifs with heth hprotocol hip hboth
  all_goals first | rfl | omega | simp_all

variable {krules : KrulesAcl} {protocol : Be16} {frame : Frame}
  {kept dropped : ν}

theorem aclExit_of_not_headers (hheaders : ¬ AclHeaders protocol frame) :
    aclExit krules protocol frame kept dropped = .ret kept := by
  simp only [aclExit]
  split_ifs with hip
  · cases hports : extractPorts frame with
    | none => rfl
    | some ports =>
        obtain ⟨htransport, hlength⟩ :=
          extractPorts_isSome_iff.mp (by rw [hports]; rfl)
        exact absurd ⟨hip.1, hip.2, htransport, hlength⟩ hheaders
  · rfl

open Classical in
theorem aclExit_of_headers (hheaders : AclHeaders protocol frame) :
    aclExit krules protocol frame kept dropped =
      if AclDenies krules protocol frame then .ret dropped
      else .chainNext kept := by
  obtain ⟨⟨originSrcPort, dport⟩, hports⟩ := Option.isSome_iff_exists.mp
    (extractPorts_isSome_iff.mpr ⟨hheaders.transport, hheaders.ports⟩)
  have hdenies : AclDenies krules protocol frame ↔
      lookupAction krules frame originSrcPort dport =
        some ACL_ACTION_DENY := by
    constructor
    · intro hdenies
      obtain ⟨_, _, hextract, hdeny⟩ := hdenies.denied
      cases hports.symm.trans hextract
      exact hdeny
    · intro hdeny
      exact ⟨hheaders, originSrcPort, dport, hports, hdeny⟩
  simp only [aclExit, if_pos (And.intro hheaders.ipv4 hheaders.header), hports,
    hdenies]

theorem aclExit_eq_ret_iff (hne : kept ≠ dropped) :
    aclExit krules protocol frame kept dropped = .ret dropped ↔
      AclDenies krules protocol frame := by
  by_cases hheaders : AclHeaders protocol frame
  · rw [aclExit_of_headers hheaders]
    split_ifs with hdenies <;> simp [hdenies]
  · rw [aclExit_of_not_headers hheaders]
    have hdenies : ¬ AclDenies krules protocol frame :=
      fun hdenies => hheaders hdenies.toAclHeaders
    simp [hne, hdenies]

theorem handsOver_aclExit_iff :
    HandsOver (aclExit krules protocol frame kept dropped) ↔
      AclHeaders protocol frame ∧ ¬ AclDenies krules protocol frame := by
  by_cases hheaders : AclHeaders protocol frame
  · rw [aclExit_of_headers hheaders]
    split_ifs with hdenies <;> simp [hdenies, hheaders, HandsOver]
  · rw [aclExit_of_not_headers hheaders]
    simp [hheaders, HandsOver]

theorem returned_eq_dropped_iff {π : Type} (hne : kept ≠ dropped)
    (next : Option π) :
    returned next (aclExit krules protocol frame kept dropped) =
        some dropped ↔
      AclDenies krules protocol frame := by
  by_cases hheaders : AclHeaders protocol frame
  · rw [aclExit_of_headers hheaders]
    split_ifs with hdenies
    · simp [hdenies, returned]
    · cases next <;> simp [hdenies, returned, hne]
  · rw [← aclExit_eq_ret_iff hne, aclExit_of_not_headers hheaders]
    simp [returned]

end Exit

def ACL_TC : UInt32 := 2

theorem aclHeaders_ethProto_iff {protocol : Be16} {frame : Frame}
    (hprotocol : sizeofEthhdr ≤ frame.length → protocol = ethProto frame) :
    AclHeaders protocol frame ↔ AclHeaders (ethProto frame) frame := by
  by_cases heth : sizeofEthhdr ≤ frame.length
  · rw [hprotocol heth]
  · refine iff_of_false (fun hheaders => ?_) (fun hheaders => ?_)
    all_goals
      have hlength := hheaders.header
      omega

theorem aclDenies_ethProto_iff {krules : KrulesAcl} {protocol : Be16}
    {frame : Frame}
    (hprotocol : sizeofEthhdr ≤ frame.length → protocol = ethProto frame) :
    AclDenies krules protocol frame ↔
      AclDenies krules (ethProto frame) frame := by
  have hheaders := aclHeaders_ethProto_iff hprotocol
  exact ⟨fun hdenies => ⟨hheaders.mp hdenies.toAclHeaders, hdenies.denied⟩,
    fun hdenies => ⟨hheaders.mpr hdenies.toAclHeaders, hdenies.denied⟩⟩

theorem tcIngress_agrees_xdpGeneric {π ρ : Type} (krules : KrulesAcl)
    (protocol : Be16) (frame : Frame)
    (hprotocol : sizeofEthhdr ≤ frame.length → protocol = ethProto frame)
    (tcIn : ChainMaps π) (xdpGen : ChainMaps ρ) (ifindex : UInt32) :
    (returned (chainNext tcIn ifindex ACL_TC)
          (hebpfAclTcIngress krules protocol frame) = some .shot ↔
        returned (chainNext xdpGen ifindex ACL_XDP_GENERIC)
          (hebpfAclXdpGeneric krules frame) = some .drop) ∧
      (HandsOver (hebpfAclTcIngress krules protocol frame) ↔
        HandsOver (hebpfAclXdpGeneric krules frame)) := by
  have hheaders := aclHeaders_ethProto_iff hprotocol
  have hdenies := @aclDenies_ethProto_iff krules protocol frame hprotocol
  rw [hebpfAclTcIngress_eq, hebpfAclXdpGeneric_eq]
  constructor
  · rw [returned_eq_dropped_iff (by decide),
      returned_eq_dropped_iff (by decide)]
    exact hdenies
  · rw [handsOver_aclExit_iff, handsOver_aclExit_iff, hheaders, hdenies]

def noChain : ChainMaps Unit := ⟨⟨fun _ => none⟩, .empty⟩

/-- The denied query of `denyDns`. -/
theorem tcIngress_agrees_xdpGeneric_dnsFrame :
    returned (chainNext noChain 1 ACL_TC)
        (hebpfAclTcIngress aclDenyingDns.krules (htons ETH_P_IP)
          (dnsFrame 4)) = some .shot ∧
      returned (chainNext noChain 1 ACL_XDP_GENERIC)
        (hebpfAclXdpGeneric aclDenyingDns.krules (dnsFrame 4)) =
          some .drop := by
  have hxdp : returned (chainNext noChain 1 ACL_XDP_GENERIC)
      (hebpfAclXdpGeneric aclDenyingDns.krules (dnsFrame 4)) =
        some .drop := by decide
  exact ⟨(tcIngress_agrees_xdpGeneric aclDenyingDns.krules (htons ETH_P_IP)
    (dnsFrame 4) (fun _ => by decide) noChain noChain 1).1.mpr hxdp, hxdp⟩

end Hebpf.Services.Acl
