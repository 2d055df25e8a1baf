import Mathlib.Tactic.Common

namespace Hebpf.Common

/-! Network byte order, and the header fields the kernel programs read. -/

/-- Two bytes of memory in network order (`__be16`). -/
structure Be16 where
  high : UInt8
  low : UInt8
  deriving DecidableEq, Repr

/-- Four bytes of memory in network order (`__be32`). -/
structure Be32 where
  first : UInt8
  second : UInt8
  third : UInt8
  fourth : UInt8
  deriving DecidableEq, Repr

def htons (value : UInt16) : Be16 where
  high := UInt8.ofNat (value.toNat / 256)
  low := UInt8.ofNat value.toNat

def ntohs (bytes : Be16) : UInt16 :=
  UInt16.ofNat (bytes.high.toNat * 256 + bytes.low.toNat)

@[simp] theorem ntohs_htons (value : UInt16) : ntohs (htons value) = value := by
  apply UInt16.toNat_inj.mp
  have hvalue := value.toNat_lt
  simp only [ntohs, htons, UInt16.toNat_ofNat', UInt8.toNat_ofNat']
  omega

@[simp] theorem htons_ntohs (bytes : Be16) : htons (ntohs bytes) = bytes := by
  obtain ⟨high, low⟩ := bytes
  have hhigh := high.toNat_lt
  have hlow := low.toNat_lt
  simp only [ntohs, htons, Be16.mk.injEq]
  constructor <;> apply UInt8.toNat_inj.mp <;>
    simp only [UInt16.toNat_ofNat', UInt8.toNat_ofNat'] <;> omega

theorem htons_injective : Function.Injective htons :=
  Function.LeftInverse.injective ntohs_htons

def Be32.loadWord (bytes : Be32) : Nat :=
  bytes.first.toNat + 256 * bytes.second.toNat +
    65536 * bytes.third.toNat + 16777216 * bytes.fourth.toNat

/-! Frames.  The programs test a bound before every read, so the default of
`byteAt` is never what they see. -/

abbrev Frame := List UInt8

def byteAt (frame : Frame) (offset : Nat) : UInt8 := frame.getD offset 0

def be16At (frame : Frame) (offset : Nat) : Be16 :=
  ⟨byteAt frame offset, byteAt frame (offset + 1)⟩

def be32At (frame : Frame) (offset : Nat) : Be32 :=
  ⟨byteAt frame offset, byteAt frame (offset + 1),
    byteAt frame (offset + 2), byteAt frame (offset + 3)⟩

def sizeofEthhdr : Nat := 14
def sizeofIphdr : Nat := 20
def sizeofTcphdr : Nat := 20
def sizeofUdphdr : Nat := 8

def ETH_P_IP : UInt16 := 0x0800
def IPPROTO_TCP : UInt8 := 6
def IPPROTO_UDP : UInt8 := 17

def ethProto (frame : Frame) : Be16 := be16At frame 12

/-- `ip->ihl`, the low half of the first byte of the header -/
def ipIhl (frame : Frame) : Nat := (byteAt frame sizeofEthhdr).toNat % 16

def ipProtocol (frame : Frame) : UInt8 := byteAt frame (sizeofEthhdr + 9)

def ipSaddr (frame : Frame) : Be32 := be32At frame (sizeofEthhdr + 12)

def ipDaddr (frame : Frame) : Be32 := be32At frame (sizeofEthhdr + 16)

/-- The offset of the transport header, `(void *)ip + ip->ihl * 4`. -/
def transportOffset (frame : Frame) : Nat := sizeofEthhdr + ipIhl frame * 4

def transportSource (frame : Frame) : Be16 :=
  be16At frame (transportOffset frame)

def transportDest (frame : Frame) : Be16 :=
  be16At frame (transportOffset frame + 2)

/-- An untagged Ethernet frame with a complete IPv4 header. -/
structure Ipv4Frame (frame : Frame) : Prop where
  ipv4 : ethProto frame = htons ETH_P_IP
  header : sizeofEthhdr + sizeofIphdr ≤ frame.length

/-- An IPv4 frame with room for its TCP or UDP header where the length of the
IPv4 header says it starts. -/
structure CompleteHeaders (frame : Frame) : Prop extends Ipv4Frame frame where
  transport :
    ipProtocol frame = IPPROTO_TCP ∧
        transportOffset frame + sizeofTcphdr ≤ frame.length ∨
      ipProtocol frame = IPPROTO_UDP ∧
        transportOffset frame + sizeofUdphdr ≤ frame.length

/-- The same with the transport header behind the IPv4 header. -/
structure TransportFrame (frame : Frame) : Prop
    extends CompleteHeaders frame where
  ihl : 5 ≤ ipIhl frame

/-- A program ends with a verdict, or runs `CHAIN_NEXT` and answers its own
verdict where the tail call finds no program. -/
inductive Exit (ν : Type) where
  | ret (verdict : ν)
  | chainNext (fallthrough : ν)
  deriving DecidableEq, Repr

inductive XdpAction where
  | aborted
  | drop
  | pass
  | tx
  | redirect
  deriving DecidableEq, Repr

inductive TcAction where
  | ok
  | shot
  deriving DecidableEq, Repr

end Hebpf.Common
