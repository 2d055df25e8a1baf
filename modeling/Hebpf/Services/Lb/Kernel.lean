import Hebpf.Common.Libc
import Hebpf.Kernel.BpfMap

namespace Hebpf.Services.Lb

open Hebpf.Common Hebpf.Kernel

def MAX_BACKENDS_PER_VIP : Nat := 8
def TOTAL_BACKENDS : Nat := 256
def MAXSIZE_LB_HASH : Nat := 64

structure VipKey where
  vip : Be32
  vport : Be16
  padding : UInt16
  deriving DecidableEq, Repr

structure VipGroup where
  backends : Vector UInt32 MAX_BACKENDS_PER_VIP
  count : UInt32
  padding : UInt32
  deriving DecidableEq, Repr

structure BackendInfo where
  mac : Mac
  padding : UInt16
  deriving DecidableEq, Repr

structure LbMaps where
  vipBackends : BpfHash VipKey VipGroup MAXSIZE_LB_HASH
  backendPool : BpfArray BackendInfo TOTAL_BACKENDS
  lbLomac : BpfArray Mac 1

def memcpy (frame : Frame) (offset : Nat) (bytes : List UInt8) : Frame :=
  frame.take offset ++ bytes ++ frame.drop (offset + bytes.length)

def ethDest (frame : Frame) : List UInt8 := frame.take 6

def ethSource (frame : Frame) : List UInt8 := (frame.drop 6).take 6

def rewriteMacs (frame : Frame) (source dest : Mac) : Frame :=
  memcpy (memcpy frame 6 source.toList) 0 dest.toList

theorem ethDest_rewriteMacs (frame : Frame) (source dest : Mac) :
    ethDest (rewriteMacs frame source dest) = dest.toList := by
  simp [ethDest, rewriteMacs, memcpy]

theorem ethSource_rewriteMacs {frame : Frame} (hlength : 6 ≤ frame.length)
    (source dest : Mac) :
    ethSource (rewriteMacs frame source dest) = source.toList := by
  simp [ethSource, rewriteMacs, memcpy, hlength]

theorem drop_rewriteMacs {frame : Frame} (hlength : 6 ≤ frame.length)
    (source dest : Mac) :
    (rewriteMacs frame source dest).drop 12 = frame.drop 12 := by
  simp [rewriteMacs, memcpy, List.drop_append, hlength]

/-- From the lookup of the VIP on.  `eth->h_source` is written where `lb_lomac`
has its element; a backend was found exactly where the verdict is `XDP_TX`. -/
def balance (maps : LbMaps) (frame : Frame) (dport : Be16) :
    Frame × Exit XdpAction :=
  match maps.vipBackends.lookupElem
      { vip := ipDaddr frame, vport := dport, padding := 0 } with
  | none => (frame, .chainNext .pass)
  | some group =>
      if group.count = 0 then (frame, .chainNext .pass)
      else
        let idx := (ipSaddr frame).loadWord % group.count.toNat
        match group.backends[idx]? with
        | none => (frame, .chainNext .pass)
        | some poolIdx =>
            match maps.backendPool.lookupElem poolIdx with
            | none => (frame, .chainNext .pass)
            | some backend =>
                let sourced :=
                  match maps.lbLomac.lookupElem 0 with
                  | none => frame
                  | some localMac => memcpy frame 6 localMac.toList
                (memcpy sourced 0 backend.mac.toList, .chainNext .tx)

def hebpfLbXdpGen (maps : LbMaps) (frame : Frame) : Frame × Exit XdpAction :=
  if frame.length < sizeofEthhdr then (frame, .ret .pass)
  else if ethProto frame ≠ htons ETH_P_IP then (frame, .ret .pass)
  else if frame.length < sizeofEthhdr + sizeofIphdr then (frame, .ret .pass)
  else if ipProtocol frame = IPPROTO_TCP then
    if frame.length < transportOffset frame + sizeofTcphdr then
      (frame, .ret .pass)
    else balance maps frame (transportDest frame)
  else if ipProtocol frame = IPPROTO_UDP then
    if frame.length < transportOffset frame + sizeofUdphdr then
      (frame, .ret .pass)
    else balance maps frame (transportDest frame)
  else (frame, .chainNext .pass)

end Hebpf.Services.Lb
