import Hebpf.Common.Libc
import Hebpf.Daemon.Configs
import Hebpf.Ebpf.Chain

namespace Hebpf.Ebpf

open Hebpf.Common Hebpf.Data Hebpf.Kernel Hebpf.Daemon

inductive UnofficialName where
  | program
  | library
  deriving DecidableEq, Repr

/-- The part of a library's file name that names the program; `none` where the
file name does not begin with the prefix of the project. -/
def libraryStem (filename : List Char) : Option (List Char) :=
  let stem :=
    if ".so".toList <:+ filename then filename.dropLast.dropLast.dropLast
    else filename
  if "libhebpf_".toList <+: stem then
    some ((stem.drop "libhebpf_".toList.length).takeWhile (· ≠ '_'))
  else none

def getCanonicalName (hook : HookType) (type : UnofficialName)
    (name : String) : String :=
  let official (chars : List Char) : String :=
    String.ofList (chars.map Char.toUpper) ++ "_" ++ hook.enumName
  match type with
  | .program => official name.toList
  | .library =>
      match libraryStem (baseName name).toList with
      | none => name
      | some stem => official stem

structure ProgInfo where
  id : UInt32
  hook : HookType
  deriving DecidableEq, Repr

/-- The generated `getDefaultProgMap`, from `ebpf_id.map`. -/
def defaultProgMap (name : String) : Option ProgInfo :=
  [("HELLO", ⟨0, .kprobe⟩), ("USERMODE", ⟨1, .kprobe⟩),
    ("ACL_TC", ⟨2, .tc⟩), ("ACL_XDP_GENERIC", ⟨3, .xdpGeneric⟩),
    ("SCHEDULER_TC", ⟨4, .tc⟩), ("SCHEDULER_XDP_GENERIC", ⟨5, .xdpGeneric⟩),
    ("LB_TC", ⟨6, .tc⟩), ("LB_XDP_GENERIC", ⟨7, .xdpGeneric⟩)].lookup name

/-- `hook_maps_` and `regions_` are indexed by the hook; a region is its start
index. -/
structure PinnedProgMap (π : Type) where
  initialized : Bool
  hookMaps : HookType → Option (ChainMaps π)
  regions : HookType → Table Int32 Nat
  progRegistry : String → Option ProgInfo

namespace PinnedProgMap

variable {π : Type}

def init (progRegistry : String → Option ProgInfo) : PinnedProgMap π where
  initialized := true
  hookMaps hook :=
    if hook = .tc ∨ hook = .xdpGeneric then some ⟨.fill none, .empty⟩
    else none
  regions _ := ∅
  progRegistry := progRegistry

def nextStart (hookRegions : Table Int32 Nat) : Nat :=
  hookRegions.entries.foldl
    (fun next region =>
      if next ≤ region.2 then region.2 + MAX_PER_NIC_PROGS else next) 0

def allocateRegion (chain : PinnedProgMap π) (hook : HookType)
    (ifindex : Int32) : Int × PinnedProgMap π :=
  match (chain.regions hook).lookup ifindex with
  | some start => (start, chain)
  | none =>
      let start := nextStart (chain.regions hook)
      if MAX_CHAIN_PROGS < start + MAX_PER_NIC_PROGS then (-1, chain)
      else (start, { chain with
        regions := Function.update chain.regions hook
          ((chain.regions hook).insert ifindex start) })

def releaseRegion (chain : PinnedProgMap π) (hook : HookType)
    (ifindex : Int32) : PinnedProgMap π :=
  { chain with
    regions := Function.update chain.regions hook
      ((chain.regions hook).erase ifindex) }

def getStartIndex (chain : PinnedProgMap π) (hook : HookType)
    (ifindex : Int32) : Int :=
  match (chain.regions hook).lookup ifindex with
  | none => -1
  | some start => start

abbrev Idhash := BpfHash ChainKey UInt32 MAX_CHAIN_PROGS

def indexWord (index : Int) : UInt32 := ⟨BitVec.ofInt 32 index⟩

/-- The loop over the names of one interface.  An unknown name and one of
another hook take no index. -/
def indexNames (progRegistry : String → Option ProgInfo) (hook : HookType)
    (ifindex : Int32) : List String → Int → Idhash → Bool × Idhash
  | [], _, idhash => (true, idhash)
  | name :: rest, index, idhash =>
      match progRegistry name with
      | none => indexNames progRegistry hook ifindex rest index idhash
      | some info =>
          if info.hook ≠ hook then
            indexNames progRegistry hook ifindex rest index idhash
          else
            match idhash.updateElem (chainKey ifindex.toUInt32 info.id)
                (indexWord index) with
            | none => (false, idhash)
            | some updated =>
                indexNames progRegistry hook ifindex rest (index + 1) updated

/-- The names of each interface, in their order.  The order of the interfaces
is that of an `unordered_map`. -/
def ifindexOrders (orderedNames : List (String × Int32)) :
    List (Int32 × List String) :=
  (orderedNames.map Prod.snd).dedup.map fun ifindex =>
    (ifindex,
      (orderedNames.filter fun pair => pair.2 = ifindex).map Prod.fst)

def schedulerName (hook : HookType) : String :=
  getCanonicalName hook .library (schedulerLib hook)

def indexInterfaces (chain : PinnedProgMap π) (hook : HookType) :
    List (Int32 × List String) → Idhash → Bool × Idhash
  | [], idhash => (true, idhash)
  | (ifindex, names) :: rest, idhash =>
      let index := chain.getStartIndex hook ifindex
      if MAX_PER_NIC_PROGS ≤ index then
        chain.indexInterfaces hook rest idhash
      else
        match indexNames chain.progRegistry hook ifindex
            (schedulerName hook :: names) index idhash with
        | (false, updated) => (false, updated)
        | (true, updated) => chain.indexInterfaces hook rest updated

/-- The walk from key 0 that deletes what it meets. -/
def clearIdhash (idhash : Idhash) : Idhash :=
  (idhash.deleteIterating (idhash.keys.length + 1) 0).getD idhash

/-- Only the id hash is rewritten. -/
def updateChain (chain : PinnedProgMap π) (hook : HookType)
    (orderedNames : List (String × Int32)) : Bool × PinnedProgMap π :=
  match chain.initialized, chain.hookMaps hook with
  | true, some maps =>
      let (updated, idhash) := chain.indexInterfaces hook
        (ifindexOrders orderedNames) (clearIdhash maps.idhash)
      (updated, { chain with
        hookMaps := Function.update chain.hookMaps hook
          (some { maps with idhash }) })
  | _, _ => (false, chain)

/-- Only the program array is written, at the index the id hash holds. -/
def insertProg (chain : PinnedProgMap π) (hook : HookType) (name : String)
    (prog : π) (ifindex : Int32) : Bool × PinnedProgMap π :=
  match chain.initialized, chain.hookMaps hook, chain.progRegistry name with
  | true, some maps, some info =>
      if info.hook ≠ hook then (false, chain)
      else
        match maps.idhash.lookupElem
            (chainKey ifindex.toUInt32 info.id) with
        | none => (false, chain)
        | some index =>
            match maps.parray.updateElem index (some prog) with
            | none => (false, chain)
            | some parray =>
                (true, { chain with
                  hookMaps := Function.update chain.hookMaps hook
                    (some { maps with parray }) })
  | _, _, _ => (false, chain)

end PinnedProgMap

end Hebpf.Ebpf
