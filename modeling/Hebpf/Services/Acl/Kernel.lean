import Hebpf.Common.Network
import Hebpf.Kernel.BpfMap

namespace Hebpf.Services.Acl

open Hebpf.Common Hebpf.Kernel

/-- `struct ipv4_tuple`, its ports and addresses in network order. -/
structure Ipv4Tuple where
  saddr : Be32
  daddr : Be32
  sport : Be16
  dport : Be16
  protocol : UInt8
  padding : UInt8
  deriving DecidableEq, Repr

def ACL_ACTION_ALLOW : UInt32 := 0
def ACL_ACTION_DENY : UInt32 := 1
def ANY_PORT : Be16 := ⟨0, 0⟩

def MAX_RULES_SIZE : Nat := 10240

abbrev KrulesAcl := BpfHash Ipv4Tuple UInt32 MAX_RULES_SIZE

/-- The source port and destination port that reach the lookup, for a frame
with a complete IPv4 header; `none` leaves the program. -/
def extractPorts (frame : Frame) : Option (Be16 × Be16) :=
  if ipProtocol frame = IPPROTO_TCP ∨ ipProtocol frame = IPPROTO_UDP then
    if transportOffset frame + sizeofTcphdr ≤ frame.length then
      -- Room for a TCP header: only TCP reads its ports here.
      if ipProtocol frame = IPPROTO_TCP then
        some (transportSource frame, transportDest frame)
      else some (ANY_PORT, ANY_PORT)
    else if transportOffset frame + sizeofUdphdr ≤ frame.length then
      if ipProtocol frame = IPPROTO_UDP then
        some (transportSource frame, transportDest frame)
      else some (ANY_PORT, ANY_PORT)
    else none
  else none

def frameTuple (frame : Frame) (sport dport : Be16) : Ipv4Tuple where
  saddr := ipSaddr frame
  daddr := ipDaddr frame
  sport := sport
  dport := dport
  protocol := ipProtocol frame
  padding := 0

def lookupAction (krules : KrulesAcl) (frame : Frame)
    (originSrcPort dport : Be16) : Option UInt32 :=
  match krules.lookupElem (frameTuple frame ANY_PORT dport) with
  | some action => some action
  | none => krules.lookupElem (frameTuple frame originSrcPort dport)

/-- `hebpf_acl_tc_ingress`, on a packet with `skb->protocol` -/
def hebpfAclTcIngress (krules : KrulesAcl) (protocol : Be16)
    (frame : Frame) : Exit TcAction :=
  if protocol ≠ htons ETH_P_IP then .ret .ok
  else if frame.length < sizeofEthhdr then .ret .ok
  else if frame.length < sizeofEthhdr + sizeofIphdr then .ret .ok
  else
    match extractPorts frame with
    | none => .ret .ok
    | some (originSrcPort, dport) =>
        if lookupAction krules frame originSrcPort dport =
            some ACL_ACTION_DENY then .ret .shot
        else .chainNext .ok

def hebpfAclXdpGeneric (krules : KrulesAcl) (frame : Frame) : Exit XdpAction :=
  if frame.length < sizeofEthhdr then .ret .pass
  else if ethProto frame ≠ htons ETH_P_IP then .ret .pass
  else if frame.length < sizeofEthhdr + sizeofIphdr then .ret .pass
  else
    match extractPorts frame with
    | none => .ret .pass
    | some (originSrcPort, dport) =>
        if lookupAction krules frame originSrcPort dport =
            some ACL_ACTION_DENY then .ret .drop
        else .chainNext .pass

inductive AclProgram where
  | tcIngress
  | xdpGeneric
  deriving DecidableEq, Repr

/-- The program drops the frame.  `skb->protocol` of an untagged frame is its
EtherType. -/
def AclProgram.Drops (program : AclProgram) (krules : KrulesAcl)
    (frame : Frame) : Prop :=
  match program with
  | tcIngress =>
      hebpfAclTcIngress krules (ethProto frame) frame = .ret .shot
  | xdpGeneric => hebpfAclXdpGeneric krules frame = .ret .drop

instance (program : AclProgram) (krules : KrulesAcl) (frame : Frame) :
    Decidable (program.Drops krules frame) :=
  match program with
  | .tcIngress => inferInstanceAs (Decidable (_ = _))
  | .xdpGeneric => inferInstanceAs (Decidable (_ = _))

theorem AclProgram.drops_iff (program : AclProgram) {krules : KrulesAcl}
    {frame : Frame} (hframe : Ipv4Frame frame) :
    program.Drops krules frame ↔
      ∃ originSrcPort dport,
        extractPorts frame = some (originSrcPort, dport) ∧
          lookupAction krules frame originSrcPort dport =
            some ACL_ACTION_DENY := by
  have hip : ¬ frame.length < sizeofEthhdr + sizeofIphdr :=
    Nat.not_lt.mpr hframe.header
  have heth : ¬ frame.length < sizeofEthhdr := by omega
  cases program <;>
    simp only [AclProgram.Drops, hebpfAclTcIngress, hebpfAclXdpGeneric,
      hframe.ipv4, if_neg hip, if_neg heth, ne_eq, not_true_eq_false,
      if_false] <;>
    cases hports : extractPorts frame with
    | none => simp
    | some ports =>
        obtain ⟨originSrcPort, dport⟩ := ports
        simp only [Option.some.injEq, Prod.mk.injEq]
        split_ifs with hdeny
        · simpa using hdeny
        · simpa using hdeny

end Hebpf.Services.Acl
