import Hebpf.Daemon.Configs
import Hebpf.Data.Calls
import Hebpf.Data.Run
import Mathlib.Logic.Function.Basic

namespace Hebpf.Ebpf

open Hebpf.Daemon Hebpf.Data

/-! The files of the pinned maps, which outlive the process. -/

def PATH_BPFFS : String := "/sys/fs/bpf/"

def getPinPath (mapName : String) : String := PATH_BPFFS ++ mapName

def mapNames : HookType → Option (String × String)
  | .tc => some ("TC_In_parray", "TC_In_idhash")
  | .xdpGeneric => some ("XDP_Gen_parray", "XDP_Gen_idhash")
  | _ => none

inductive KernelCall where
  | objGet (path : String)
  | mapCreate (name : String)
  | objPin (fd : Int) (path : String)
  | close (fd : Int)
  | unlink (path : String)

/-- A map is known by its number.  `files` are the descriptors of the process
that lives, and `changed` is the pin file it has made or removed last. -/
structure Kernel where
  pins : String → Option Nat
  maps : Nat
  files : Int → Option Nat
  opened : Nat
  changed : Option String

namespace Kernel

def start : Kernel := ⟨fun _ => none, 0, fun _ => none, 0, none⟩

def begin (kernel : Kernel) : Kernel :=
  { kernel with files := fun _ => none, changed := none }

def openMap (kernel : Kernel) (map : Nat) : Kernel × Int :=
  ({ kernel with
      files := Function.update kernel.files kernel.opened (some map)
      opened := kernel.opened + 1 }, kernel.opened)

def changePin (kernel : Kernel) (path : String) (map : Option Nat) : Kernel :=
  { kernel with
    pins := Function.update kernel.pins path map
    changed := some path }

def answer (normal : Bool) (kernel : Kernel) (request : KernelCall) :
    Kernel × Int :=
  if normal then
    match request with
    | .objGet path =>
        match kernel.pins path with
        | some map => kernel.openMap map
        | none => (kernel, -1)
    | .mapCreate _ =>
        { kernel with maps := kernel.maps + 1 }.openMap kernel.maps
    | .objPin fd path =>
        match kernel.pins path, kernel.files fd with
        | none, some map => (kernel.changePin path (some map), 0)
        | _, _ => (kernel, -1)
    | .close fd =>
        ({ kernel with files := Function.update kernel.files fd none }, 0)
    | .unlink path =>
        match kernel.pins path with
        | some _ => (kernel.changePin path none, 0)
        | none => (kernel, -1)
  else (kernel, -1)

end Kernel

abbrev KernelCalls := Calls KernelCall Int

structure HookMaps where
  progArrayFd : Int
  idHashFd : Int
  pinPathProgArray : String
  pinPathIdToIndex : String

/-- `PinnedProgMap`, as far as it has files. -/
structure MapFiles where
  initialized : Bool
  hookMaps : HookType → Option HookMaps

namespace MapFiles

def new : MapFiles := ⟨false, fun _ => none⟩

/-- What `ensureMaps` does where the maps could not both be opened.  `none` is
each of its failures. -/
def createMaps (progArrayName idToIndexName : String) :
    KernelCalls (Option HookMaps) := do
  let pinPathProgArray := getPinPath progArrayName
  let pinPathIdToIndex := getPinPath idToIndexName
  let progArrayFd ← .ask (.mapCreate progArrayName)
  if progArrayFd < 0 then return none
  let idHashFd ← .ask (.mapCreate idToIndexName)
  if idHashFd < 0 then
    let _ ← .ask (.close progArrayFd)
    return none
  let pinned ← .ask (.objPin progArrayFd pinPathProgArray)
  if pinned < 0 then
    let _ ← .ask (.close progArrayFd)
    let _ ← .ask (.close idHashFd)
    return none
  let pinned ← .ask (.objPin idHashFd pinPathIdToIndex)
  if pinned < 0 then
    let _ ← .ask (.unlink pinPathProgArray)
    let _ ← .ask (.close progArrayFd)
    let _ ← .ask (.close idHashFd)
    return none
  return some ⟨progArrayFd, idHashFd, pinPathProgArray, pinPathIdToIndex⟩

def closeOpened (fd : Int) : KernelCalls Unit := do
  if 0 ≤ fd then
    let _ ← .ask (.close fd)

def openMaps (progArrayName idToIndexName : String) :
    KernelCalls (Option HookMaps) := do
  let pinPathProgArray := getPinPath progArrayName
  let pinPathIdToIndex := getPinPath idToIndexName
  let progArrayFd ← .ask (.objGet pinPathProgArray)
  let idHashFd ← .ask (.objGet pinPathIdToIndex)
  if progArrayFd < 0 ∨ idHashFd < 0 then
    closeOpened progArrayFd
    closeOpened idHashFd
    createMaps progArrayName idToIndexName
  else
    return some ⟨progArrayFd, idHashFd, pinPathProgArray, pinPathIdToIndex⟩

def ensureMaps (files : MapFiles) (hook : HookType) :
    KernelCalls (Bool × MapFiles) := do
  if (files.hookMaps hook).isSome then return (true, files)
  match mapNames hook with
  | none => return (false, files)
  | some (progArrayName, idToIndexName) =>
      match ← openMaps progArrayName idToIndexName with
      | none => return (false, files)
      | some maps =>
          return (true, { files with
            hookMaps := Function.update files.hookMaps hook (some maps) })

def init (files : MapFiles) : KernelCalls (Bool × MapFiles) := do
  let (ensured, files) ← files.ensureMaps .tc
  if ¬ ensured then return (false, files)
  let (ensured, files) ← files.ensureMaps .xdpGeneric
  if ¬ ensured then return (false, files)
  return (true, { files with initialized := true })

def removeMap (fd : Int) (pinPath : String) : KernelCalls Unit := do
  if 0 ≤ fd then
    let _ ← .ask (.close fd)
    let _ ← .ask (.unlink pinPath)

def removeHook (maps : HookMaps) : KernelCalls Unit := do
  removeMap maps.progArrayFd maps.pinPathProgArray
  removeMap maps.idHashFd maps.pinPathIdToIndex

def removeMaps (files : MapFiles) : List HookType → KernelCalls Unit
  | [] => pure ()
  | hook :: rest =>
      match files.hookMaps hook with
      | none => files.removeMaps rest
      | some maps => do
          removeHook maps
          files.removeMaps rest

def cleanup (files : MapFiles) (order : List HookType) :
    KernelCalls MapFiles := do
  files.removeMaps order
  return new

/-- `cleanup` takes the hooks in the order of an `unordered_map`. -/
inductive Operation where
  | init
  | cleanup (order : { order : List HookType //
      order.Perm [.tc, .xdpGeneric] })

def perform : List Operation → MapFiles → KernelCalls MapFiles
  | [], files => pure files
  | .init :: rest, files => do
      let (_, files) ← files.init
      perform rest files
  | .cleanup order :: rest, files => do
      let files ← files.cleanup order
      perform rest files

end MapFiles

/-- A process that lives until its calls have had these outcomes. -/
structure Life where
  operations : List MapFiles.Operation
  outcomes : List Bool

namespace Kernel

def endLife (kernel : Kernel) (life : Life) : Kernel :=
  (Calls.live answer life.outcomes
    (MapFiles.perform life.operations MapFiles.new) kernel.begin).1

structure Held (kernel : Kernel) (maps : HookMaps)
    (names : String × String) : Prop where
  progArray : ∃ map, kernel.files maps.progArrayFd = some map ∧
    kernel.pins (getPinPath names.1) = some map
  idHash : ∃ map, kernel.files maps.idHashFd = some map ∧
    kernel.pins (getPinPath names.2) = some map

/-- A life whose calls all succeed begins with an `init` that returns true and
leaves the maps of each hook open and pinned. -/
def Recovers (kernel : Kernel) : Prop :=
  let (after, started, files) :=
    Calls.finish answer true MapFiles.new.init kernel.begin
  started = true ∧ ∀ hook, ∀ names ∈ mapNames hook,
    ∃ maps ∈ files.hookMaps hook, after.Held maps names

end Kernel

end Hebpf.Ebpf
