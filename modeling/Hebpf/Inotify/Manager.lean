import Hebpf.Data.LastWins
import Mathlib.Tactic.Common

namespace Hebpf.Inotify

open Hebpf.Data

/-! `InotifyManager`, over the inotify instance it registers directories with.
The callback type `κ` is arbitrary. -/

/-- `std::filesystem::path::parent_path`, with `.` for the empty path. -/
def getParentDir (path : String) : String :=
  let chars := path.toList
  if '/' ∉ chars then "."
  else if chars.all (· = '/') then path
  else
    let parent := (chars.reverse.dropWhile (· ≠ '/')).dropWhile (· = '/')
    if parent = [] then "/" else String.ofList parent.reverse

/-- `none` is `FD_INVALID`. -/
structure WatchInfo (κ : Type) where
  watchFd : Option Nat
  watchConfig : String
  onChange : κ
  deriving DecidableEq, Repr

/-- The watches of an inotify instance by descriptor, and the next descriptor it
hands out.  The kernel has one watch for each inode: directories that are spelled
differently are taken to be different ones. -/
structure InotifyInstance where
  watches : List (Nat × String)
  nextFd : Nat
  deriving DecidableEq, Repr

namespace InotifyInstance

/-- `inotify_add_watch`: a directory that is watched keeps its descriptor.
`accepted` is the kernel's answer. -/
def addWatch (accepted : Bool) (inotify : InotifyInstance) (dir : String) :
    Option Nat × InotifyInstance :=
  if accepted then
    match inotify.watches.find? fun watch => watch.2 = dir with
    | some watch => (some watch.1, inotify)
    | none => (some inotify.nextFd,
        ⟨inotify.watches ++ [(inotify.nextFd, dir)], inotify.nextFd + 1⟩)
  else (none, inotify)

/-- `inotify_rm_watch` fails on a descriptor that is not a watch. -/
def removeWatch (accepted : Bool) (inotify : InotifyInstance) (watchFd : Nat) :
    Bool × InotifyInstance :=
  if accepted ∧ ∃ watch ∈ inotify.watches, watch.1 = watchFd then
    (true, { inotify with
      watches := inotify.watches.filter fun watch => watch.1 ≠ watchFd })
  else (false, inotify)

end InotifyInstance

structure InotifyManager (κ : Type) where
  inotify : InotifyInstance
  map : Table String (List (WatchInfo κ))

namespace InotifyManager

variable {κ : Type}

def start : InotifyManager κ := ⟨⟨[], 1⟩, ∅⟩

def infos (manager : InotifyManager κ) (dir : String) : List (WatchInfo κ) :=
  (manager.map.lookup dir).getD []

def findWatchInfo (manager : InotifyManager κ) (parentDir path : String) :
    Option (WatchInfo κ) :=
  (manager.infos parentDir).find? fun info => info.watchConfig = path

def watchConfig (accepted : Bool) (manager : InotifyManager κ)
    (path : String) (onChange : κ) : Bool × InotifyManager κ :=
  let parent := getParentDir path
  match manager.findWatchInfo parent path with
  | some _ => (true, manager)
  | none =>
      match manager.map.lookup parent with
      | none =>
          -- Only the directory is watched.
          match manager.inotify.addWatch accepted parent with
          | (none, inotify) => (false, { manager with inotify })
          | (some watchFd, inotify) =>
              (true, ⟨inotify, manager.map.insert parent
                [⟨some watchFd, path, onChange⟩]⟩)
      | some infos =>
          (true, { manager with
            map := manager.map.insert parent
              (infos ++ [⟨none, path, onChange⟩]) })

theorem watchConfig_accepted (manager : InotifyManager κ) (path : String)
    (onChange : κ) : (manager.watchConfig true path onChange).1 = true := by
  unfold watchConfig InotifyInstance.addWatch
  simp only [if_true]
  cases manager.findWatchInfo (getParentDir path) path with
  | some info => rfl
  | none =>
      cases manager.map.lookup (getParentDir path) with
      | some infos => rfl
      | none =>
          cases manager.inotify.watches.find?
              fun watch => watch.2 = getParentDir path <;> rfl

theorem watchConfig_eq_true_iff (accepted : Bool)
    (manager : InotifyManager κ) (path : String) (onChange : κ) :
    (manager.watchConfig accepted path onChange).1 = true ↔
      accepted = true ∨ (manager.map.lookup (getParentDir path)).isSome := by
  cases accepted with
  | true =>
      apply iff_of_true
      · exact manager.watchConfig_accepted path onChange
      · exact .inl rfl
  | false =>
      rw [or_iff_right Bool.false_ne_true]
      unfold watchConfig findWatchInfo infos InotifyInstance.addWatch
      cases hlookup : manager.map.lookup (getParentDir path) with
      | none => simp [hlookup]
      | some infos =>
          refine iff_of_true ?_ rfl
          simp only [hlookup, Option.getD_some]
          cases infos.find? fun info => info.watchConfig = path <;> rfl

/-- `vector::erase` of the first element for the path, and of the directory
once its vector is empty. -/
def eraseInfo (manager : InotifyManager κ) (parent path : String) :
    InotifyManager κ :=
  let rest := (manager.infos parent).eraseP fun info => info.watchConfig = path
  { manager with
    map := if rest = [] then manager.map.erase parent
      else manager.map.insert parent rest }

def goodbyeConfig (accepted : Bool) (manager : InotifyManager κ)
    (path : String) : Bool × InotifyManager κ :=
  let parent := getParentDir path
  match manager.findWatchInfo parent path with
  | none => (true, manager)
  | some info =>
      match info.watchFd with
      | none => (true, manager.eraseInfo parent path)
      | some watchFd =>
          match manager.inotify.removeWatch accepted watchFd with
          | (false, inotify) => (false, { manager with inotify })
          | (true, inotify) =>
              (true, ({ manager with inotify }).eraseInfo parent path)

def onInotifyEvent (manager : InotifyManager κ) (name : String) :
    Option (WatchInfo κ) :=
  manager.findWatchInfo (getParentDir name) name

end InotifyManager

structure InotifyEvent where
  wd : Nat
  mask : UInt32
  name : String
  deriving DecidableEq, Repr

/-- `Inotify::processInotify` with the manager's callback: the registrations
invoked, each with the name and the mask it is called with. -/
def processInotify (manager : InotifyManager κ) :
    List InotifyEvent → List (WatchInfo κ × String × UInt32)
  | [] => []
  | event :: rest =>
      (if event.name = "" then []
        else ((manager.onInotifyEvent event.name).map
          (·, event.name, event.mask)).toList) ++
        processInotify manager rest

inductive Call (κ : Type) where
  | watchConfig (path : String) (onChange : κ)
  | goodbyeConfig (path : String)

namespace InotifyManager

variable {κ : Type}

def call (accepted : Bool) (manager : InotifyManager κ) :
    Call κ → Bool × InotifyManager κ
  | .watchConfig path onChange => manager.watchConfig accepted path onChange
  | .goodbyeConfig path => manager.goodbyeConfig accepted path

theorem infos_of_lookup {manager : InotifyManager κ} {dir : String}
    {infos : List (WatchInfo κ)}
    (hlookup : manager.map.lookup dir = some infos) :
    manager.infos dir = infos := by
  simp [InotifyManager.infos, hlookup]

@[simp] theorem infos_withInotify (manager : InotifyManager κ)
    (inotify : InotifyInstance) (dir : String) :
    InotifyManager.infos ⟨inotify, manager.map⟩ dir = manager.infos dir := rfl

theorem infos_insert (manager : InotifyManager κ)
    (inotify : InotifyInstance) (parent dir : String)
    (infos : List (WatchInfo κ)) :
    InotifyManager.infos ⟨inotify, manager.map.insert parent infos⟩ dir =
      if parent = dir then infos else manager.infos dir := by
  by_cases heq : parent = dir
  · subst heq
    simp [InotifyManager.infos]
  · simp [InotifyManager.infos, AList.lookup_insert_ne (Ne.symm heq), heq]

theorem infos_erase (manager : InotifyManager κ)
    (inotify : InotifyInstance) (parent dir : String) :
    InotifyManager.infos ⟨inotify, manager.map.erase parent⟩ dir =
      if parent = dir then [] else manager.infos dir := by
  by_cases heq : parent = dir
  · subst heq
    simp [InotifyManager.infos]
  · simp [InotifyManager.infos, AList.lookup_erase_ne (Ne.symm heq), heq]

theorem map_eraseInfo {manager : InotifyManager κ} {parent : String}
    {infos : List (WatchInfo κ)} (hinfos : manager.infos parent = infos)
    (path : String) :
    (manager.eraseInfo parent path).map =
      if infos.eraseP (fun info => info.watchConfig = path) = [] then
        manager.map.erase parent
      else manager.map.insert parent
        (infos.eraseP fun info => info.watchConfig = path) := by
  subst hinfos
  rfl

theorem infos_eraseInfo (manager : InotifyManager κ)
    (parent path dir : String) :
    (manager.eraseInfo parent path).infos dir =
      if parent = dir then
        (manager.infos parent).eraseP fun info => info.watchConfig = path
      else manager.infos dir := by
  unfold eraseInfo
  by_cases hrest : (manager.infos parent).eraseP
      (fun info => info.watchConfig = path) = []
  · simp only [hrest, if_true]
    exact infos_erase manager manager.inotify parent dir
  · simp only [hrest, if_false]
    exact infos_insert manager manager.inotify parent dir _

end InotifyManager

end Hebpf.Inotify
