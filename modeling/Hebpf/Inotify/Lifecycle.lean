import Hebpf.Data.Simulation
import Hebpf.Inotify.Watches
import Mathlib.Logic.Function.Basic

namespace Hebpf.Inotify

open Hebpf.Data InotifyManager

/-! The life of a manager up to `destroyManager` and beyond, against a registry
that knows nothing of the kernel's watches, where no directory is spelled in two
ways. -/

variable {κ : Type}

inductive ManagerInput (κ : Type) where
  | call (call : Call κ) (accepted : Bool)
  | destroyManager (accepted : Nat → Bool)

namespace InotifyManager

def watchFds (manager : InotifyManager κ) : List Nat :=
  manager.map.entries.flatMap fun entry => entry.2.filterMap WatchInfo.watchFd

def destroyManager (accepted : Nat → Bool) (manager : InotifyManager κ) :
    InotifyManager κ where
  inotify := manager.watchFds.foldl (fun inotify watchFd =>
    (inotify.removeWatch (accepted watchFd) watchFd).2) manager.inotify
  map := ∅

end InotifyManager

/-- A manager, with the watches it was refused to remove when it was
destroyed. -/
structure Managed (κ : Type) where
  manager : InotifyManager κ
  refused : List (Nat × String)

namespace Managed

def start : Managed κ := ⟨.start, []⟩

def step (managed : Managed κ) : ManagerInput κ → Managed κ
  | .call call accepted =>
      { managed with manager := (managed.manager.call accepted call).2 }
  | .destroyManager accepted =>
      ⟨managed.manager.destroyManager accepted,
        managed.refused ++ managed.manager.inotify.watches.filter
          fun watch => !accepted watch.1⟩

def answers (managed : Managed κ) : ManagerInput κ → List Bool
  | .call call accepted => [(managed.manager.call accepted call).1]
  | .destroyManager _ => []

end Managed

/-- `held`: the element has the descriptor of its directory. -/
structure RegistryEntry (κ : Type) where
  path : String
  onChange : κ
  held : Bool
  deriving DecidableEq, Repr

def Registry (κ : Type) : Type := String → List (RegistryEntry κ)

namespace Registry

def empty : Registry κ := fun _ => []

def find (registry : Registry κ) (path : String) : Option (RegistryEntry κ) :=
  (registry (getParentDir path)).find? fun entry => entry.path = path

def watchConfig (accepted : Bool) (registry : Registry κ) (path : String)
    (onChange : κ) : Bool × Registry κ :=
  let parent := getParentDir path
  match registry.find path, registry parent with
  | some _, _ => (true, registry)
  | none, [] =>
      if accepted then
        (true, Function.update registry parent [⟨path, onChange, true⟩])
      else (false, registry)
  | none, entries =>
      (true, Function.update registry parent
        (entries ++ [⟨path, onChange, false⟩]))

def goodbyeConfig (accepted : Bool) (registry : Registry κ) (path : String) :
    Bool × Registry κ :=
  let parent := getParentDir path
  match registry.find path with
  | none => (true, registry)
  | some entry =>
      if entry.held && !accepted then (false, registry)
      else (true, Function.update registry parent
        ((registry parent).eraseP fun entry => entry.path = path))

def call (accepted : Bool) (registry : Registry κ) :
    Call κ → Bool × Registry κ
  | .watchConfig path onChange => registry.watchConfig accepted path onChange
  | .goodbyeConfig path => registry.goodbyeConfig accepted path

def step (registry : Registry κ) : ManagerInput κ → Registry κ
  | .call call accepted => (registry.call accepted call).2
  | .destroyManager _ => empty

def answers (registry : Registry κ) : ManagerInput κ → List Bool
  | .call call accepted => [(registry.call accepted call).1]
  | .destroyManager _ => []

/-- The entries that events invoke, with the name and the mask. -/
def invoked (registry : Registry κ) :
    List InotifyEvent → List (RegistryEntry κ × String × UInt32)
  | [] => []
  | event :: rest =>
      (if event.name = "" then []
        else ((registry.find event.name).map
          (·, event.name, event.mask)).toList) ++
        invoked registry rest

def Holds (registry : Registry κ) (dir : String) : Prop :=
  ∃ entry ∈ registry dir, entry.held = true

end Registry

def WatchInfo.entry (info : WatchInfo κ) : RegistryEntry κ :=
  ⟨info.watchConfig, info.onChange, info.watchFd.isSome⟩

def InotifyManager.registry (manager : InotifyManager κ) : Registry κ :=
  fun dir => (manager.infos dir).map WatchInfo.entry

namespace InotifyManager

variable {manager after : InotifyManager κ} {parent : String}

theorem find_registry (manager : InotifyManager κ) (path : String) :
    manager.registry.find path =
      (manager.findWatchInfo (getParentDir path) path).map WatchInfo.entry :=
  List.find?_map

theorem registry_of_infos {infos : List (WatchInfo κ)}
    (hinfos : ∀ dir, after.infos dir =
      if parent = dir then infos else manager.infos dir) :
    after.registry = Function.update manager.registry parent
      (infos.map WatchInfo.entry) := by
  funext dir
  unfold registry
  rw [hinfos, Function.update_apply]
  by_cases hdir : parent = dir
  · rw [if_pos hdir, if_pos hdir.symm]
  · rw [if_neg hdir, if_neg (Ne.symm hdir)]

theorem invoked_registry (manager : InotifyManager κ)
    (events : List InotifyEvent) :
    manager.registry.invoked events =
      (processInotify manager events).map fun invoked =>
        (invoked.1.entry, invoked.2) := by
  induction events with
  | nil => rfl
  | cons event rest ih =>
      unfold Registry.invoked processInotify
      rw [ih, List.map_append]
      congr 1
      split_ifs
      · rfl
      · rw [find_registry, onInotifyEvent]
        cases manager.findWatchInfo (getParentDir event.name) event.name <;>
          rfl

end InotifyManager

namespace InotifyInstance

/-- A descriptor belongs to one watch, and the next one to none. -/
structure Numbered (inotify : InotifyInstance) : Prop where
  unique : ∀ watch ∈ inotify.watches, ∀ other ∈ inotify.watches,
    watch.1 = other.1 → watch = other
  fresh : ∀ watch ∈ inotify.watches, watch.1 < inotify.nextFd

structure Adds (inotify after : InotifyInstance) (watchFd : Nat)
    (dir : String) : Prop extends after.Numbered where
  added : (watchFd, dir) ∈ after.watches
  kept : inotify.watches ⊆ after.watches
  only : ∀ watch ∈ after.watches,
    watch ∈ inotify.watches ∨ watch = (watchFd, dir)

variable {inotify : InotifyInstance}

theorem Numbered.addWatch (hnumbered : inotify.Numbered) (dir : String) :
    ∃ watchFd after, inotify.addWatch true dir = (some watchFd, after) ∧
      inotify.Adds after watchFd dir := by
  unfold InotifyInstance.addWatch
  rw [if_pos rfl]
  cases hfind : inotify.watches.find? fun watch => watch.2 = dir with
  | some watch =>
      obtain ⟨watchFd, other⟩ := watch
      obtain rfl : other = dir := by simpa using List.find?_some hfind
      exact ⟨watchFd, inotify, rfl, hnumbered,
        List.mem_of_find?_eq_some hfind, List.Subset.refl _,
        fun _ hwatch => .inl hwatch⟩
  | none =>
      refine ⟨inotify.nextFd, _, rfl, ⟨?_, ?_⟩, ?_, ?_, ?_⟩
      · intro watch hwatch other hother heq
        rcases List.mem_append.mp hwatch with hwatch | hwatch <;>
          rcases List.mem_append.mp hother with hother | hother
        · exact hnumbered.unique watch hwatch other hother heq
        · have hfresh := hnumbered.fresh watch hwatch
          rw [List.mem_singleton.mp hother] at heq
          exact absurd heq (Nat.ne_of_lt hfresh)
        · have hfresh := hnumbered.fresh other hother
          rw [List.mem_singleton.mp hwatch] at heq
          exact absurd heq.symm (Nat.ne_of_lt hfresh)
        · rw [List.mem_singleton.mp hwatch, List.mem_singleton.mp hother]
      · intro watch hwatch
        rcases List.mem_append.mp hwatch with hwatch | hwatch
        · exact Nat.lt_succ_of_lt (hnumbered.fresh watch hwatch)
        · rw [List.mem_singleton.mp hwatch]
          exact Nat.lt_succ_self _
      · exact List.mem_append_right _ (List.mem_singleton_self _)
      · exact List.subset_append_left _ _
      · intro watch hwatch
        rcases List.mem_append.mp hwatch with hwatch | hwatch
        · exact .inl hwatch
        · exact .inr (List.mem_singleton.mp hwatch)

theorem Numbered.filter (hnumbered : inotify.Numbered)
    (keep : Nat × String → Bool) :
    Numbered { inotify with watches := inotify.watches.filter keep } where
  unique watch hwatch other hother :=
    hnumbered.unique watch (List.mem_of_mem_filter hwatch) other
      (List.mem_of_mem_filter hother)
  fresh watch hwatch := hnumbered.fresh watch (List.mem_of_mem_filter hwatch)

theorem removeWatch_refused (watchFd : Nat) :
    inotify.removeWatch false watchFd = (false, inotify) :=
  if_neg fun hremoved => Bool.false_ne_true hremoved.1

theorem removeWatch_eq_filter (accepted : Bool) (inotify : InotifyInstance)
    (watchFd : Nat) :
    (inotify.removeWatch accepted watchFd).2 =
      { inotify with watches := inotify.watches.filter fun watch =>
        !(accepted && watch.1 == watchFd) } := by
  unfold InotifyInstance.removeWatch
  split_ifs with hremoved
  · have hkeep : (fun watch : Nat × String => decide (watch.1 ≠ watchFd)) =
        fun watch => !(accepted && watch.1 == watchFd) := by
      funext watch
      rw [hremoved.1]
      by_cases hfd : watch.1 = watchFd <;> simp [hfd]
    simp only [hkeep]
  · have hkeep : inotify.watches.filter (fun watch =>
        !(accepted && watch.1 == watchFd)) = inotify.watches := by
      rw [List.filter_eq_self]
      intro watch hwatch
      cases haccepted : accepted with
      | false => rfl
      | true =>
          have hother : watch.1 ≠ watchFd := fun hfd =>
            hremoved ⟨haccepted, watch, hwatch, hfd⟩
          simp [hother]
    rw [hkeep]

theorem foldl_removeWatch (accepted : Nat → Bool) (watchFds : List Nat)
    (inotify : InotifyInstance) :
    watchFds.foldl (fun inotify watchFd =>
        (inotify.removeWatch (accepted watchFd) watchFd).2) inotify =
      { inotify with watches := inotify.watches.filter fun watch =>
        !(accepted watch.1 && watchFds.contains watch.1) } := by
  induction watchFds generalizing inotify with
  | nil => simp
  | cons watchFd rest ih =>
      rw [List.foldl_cons, ih]
      rw [removeWatch_eq_filter]
      simp only [List.filter_filter]
      congr 2
      funext watch
      by_cases hfd : watch.1 = watchFd <;>
        cases haccepted : accepted watch.1 <;>
        simp_all

end InotifyInstance

namespace Managed

/-- What is recorded is watched, and what is watched is recorded or was left
behind. -/
structure Sound (managed : Managed κ) : Prop where
  numbered : managed.manager.inotify.Numbered
  recorded : ∀ dir, ∀ info ∈ managed.manager.infos dir, ∀ watchFd,
    info.watchFd = some watchFd →
      (watchFd, dir) ∈ managed.manager.inotify.watches
  accounted : ∀ watchFd dir,
    (watchFd, dir) ∈ managed.manager.inotify.watches →
      (∃ info ∈ managed.manager.infos dir, info.watchFd = some watchFd) ∨
        (watchFd, dir) ∈ managed.refused
  rest : ∀ dir info rest, managed.manager.infos dir = info :: rest →
    ∀ other ∈ rest, other.watchFd = none
  stored : ∀ dir infos,
    managed.manager.map.lookup dir = some infos → infos ≠ []

theorem start_sound : (start : Managed κ).Sound where
  numbered := ⟨by simp [start, InotifyManager.start],
    by simp [start, InotifyManager.start]⟩
  recorded := by simp [start, InotifyManager.start, infos]
  accounted := by simp [start, InotifyManager.start]
  rest := by simp [start, InotifyManager.start, infos]
  stored := by simp [start, InotifyManager.start]

theorem stored_insert {map : Table String (List (WatchInfo κ))}
    (hstored : ∀ dir infos, map.lookup dir = some infos → infos ≠ [])
    (parent : String) {inserted : List (WatchInfo κ)}
    (hinserted : inserted ≠ []) :
    ∀ dir infos, (map.insert parent inserted).lookup dir = some infos →
      infos ≠ [] := by
  intro dir infos hlookup
  by_cases hdir : dir = parent
  · rw [hdir, AList.lookup_insert] at hlookup
    rw [← Option.some.inj hlookup]
    exact hinserted
  · rw [AList.lookup_insert_ne hdir] at hlookup
    exact hstored dir infos hlookup

theorem stored_erase {map : Table String (List (WatchInfo κ))}
    (hstored : ∀ dir infos, map.lookup dir = some infos → infos ≠ [])
    (parent : String) :
    ∀ dir infos, (map.erase parent).lookup dir = some infos →
      infos ≠ [] := by
  intro dir infos hlookup
  by_cases hdir : dir = parent
  · rw [hdir, AList.lookup_erase] at hlookup
    cases hlookup
  · rw [AList.lookup_erase_ne hdir] at hlookup
    exact hstored dir infos hlookup

namespace Sound

variable {managed : Managed κ} {parent : String}

theorem watch_first (hsound : managed.Sound)
    (hnone : managed.manager.infos parent = []) {inotify : InotifyInstance}
    {watchFd : Nat}
    (hadds : managed.manager.inotify.Adds inotify watchFd parent)
    (path : String) (onChange : κ) :
    Sound ⟨⟨inotify, managed.manager.map.insert parent
      [⟨some watchFd, path, onChange⟩]⟩, managed.refused⟩ where
  numbered := hadds.toNumbered
  recorded := by
    intro dir info hinfo fd hfd
    rw [infos_insert] at hinfo
    split_ifs at hinfo with hdir
    · rw [List.mem_singleton.mp hinfo] at hfd
      cases hfd
      exact hdir ▸ hadds.added
    · exact hadds.kept (hsound.recorded dir info hinfo fd hfd)
  accounted := by
    intro fd dir hwatch
    rw [infos_insert]
    rcases hadds.only _ hwatch with hkept | hadded
    · refine (hsound.accounted fd dir hkept).imp_left ?_
      intro hrecorded
      obtain ⟨info, hinfo, hfd⟩ := hrecorded
      have hdir : parent ≠ dir := by
        intro hdir
        rw [← hdir, hnone] at hinfo
        cases hinfo
      rw [if_neg hdir]
      exact ⟨info, hinfo, hfd⟩
    · cases hadded
      rw [if_pos rfl]
      exact .inl ⟨_, List.mem_singleton_self _, rfl⟩
  rest := by
    intro dir info rest hinfos
    rw [infos_insert] at hinfos
    split_ifs at hinfos
    · cases hinfos
      intro other hother
      cases hother
    · exact hsound.rest dir info rest hinfos
  stored := stored_insert hsound.stored parent (List.cons_ne_nil _ _)

theorem watch_other (hsound : managed.Sound)
    (hinfos : managed.manager.infos parent ≠ []) (path : String)
    (onChange : κ) :
    Sound ⟨⟨managed.manager.inotify, managed.manager.map.insert parent
      (managed.manager.infos parent ++ [⟨none, path, onChange⟩])⟩,
      managed.refused⟩ where
  numbered := hsound.numbered
  recorded := by
    intro dir info hinfo fd hfd
    rw [infos_insert] at hinfo
    split_ifs at hinfo with hdir
    · rcases List.mem_append.mp hinfo with hinfo | hinfo
      · exact hdir ▸ hsound.recorded parent info hinfo fd hfd
      · rw [List.mem_singleton.mp hinfo] at hfd
        cases hfd
    · exact hsound.recorded dir info hinfo fd hfd
  accounted := by
    intro fd dir hwatch
    refine (hsound.accounted fd dir hwatch).imp_left ?_
    intro hrecorded
    obtain ⟨info, hinfo, hfd⟩ := hrecorded
    refine ⟨info, ?_, hfd⟩
    rw [infos_insert]
    split_ifs with hdir
    · exact List.mem_append_left _ (hdir ▸ hinfo)
    · exact hinfo
  rest := by
    intro dir info rest hcons other hother
    rw [infos_insert] at hcons
    split_ifs at hcons
    · cases hbefore : managed.manager.infos parent with
      | nil => exact absurd hbefore hinfos
      | cons first others =>
          rw [hbefore, List.cons_append] at hcons
          cases hcons
          rcases List.mem_append.mp hother with hother | hother
          · exact hsound.rest parent _ others hbefore other hother
          · rw [List.mem_singleton.mp hother]
    · exact hsound.rest dir info rest hcons other hother
  stored := stored_insert hsound.stored parent
    (List.append_ne_nil_of_right_ne_nil _ (List.cons_ne_nil _ _))

theorem found (hsound : managed.Sound) {path : String} {info : WatchInfo κ}
    (hfind : managed.manager.findWatchInfo parent path = some info) :
    ∃ first rest, managed.manager.infos parent = first :: rest ∧
      (info = first ∧ first.watchConfig = path ∨
        first.watchConfig ≠ path ∧ info.watchFd = none) := by
  unfold findWatchInfo at hfind
  cases hinfos : managed.manager.infos parent with
  | nil =>
      rw [hinfos] at hfind
      cases hfind
  | cons first rest =>
      refine ⟨first, rest, rfl, ?_⟩
      rw [hinfos] at hfind
      by_cases hpath : first.watchConfig = path
      · rw [List.find?_cons_of_pos (by simpa using hpath)] at hfind
        exact .inl ⟨(Option.some.inj hfind).symm, hpath⟩
      · rw [List.find?_cons_of_neg (by simpa using hpath)] at hfind
        exact .inr ⟨hpath, hsound.rest parent first rest hinfos info
          (List.mem_of_find?_eq_some hfind)⟩

theorem holder_eq (hsound : managed.Sound) {dir : String}
    {info first : WatchInfo κ} {rest : List (WatchInfo κ)} {watchFd : Nat}
    (hinfos : managed.manager.infos dir = first :: rest)
    (hinfo : info ∈ managed.manager.infos dir)
    (hfd : info.watchFd = some watchFd) : info = first := by
  rw [hinfos] at hinfo
  cases hinfo with
  | head => rfl
  | tail _ hrest =>
      have hnone := hsound.rest dir first rest hinfos info hrest
      rw [hnone] at hfd
      cases hfd

theorem stored_eraseInfo (hsound : managed.Sound) (inotify : InotifyInstance)
    (path : String) :
    ∀ dir infos, (eraseInfo ⟨inotify, managed.manager.map⟩ parent
      path).map.lookup dir = some infos → infos ≠ [] := by
  rw [map_eraseInfo rfl]
  split_ifs with hrest
  · exact stored_erase hsound.stored parent
  · exact stored_insert hsound.stored parent hrest

theorem rest_eraseInfo (hsound : managed.Sound) (inotify : InotifyInstance)
    (path : String) :
    ∀ dir info rest,
      (eraseInfo ⟨inotify, managed.manager.map⟩ parent path).infos dir =
        info :: rest → ∀ other ∈ rest, other.watchFd = none := by
  intro dir info rest hcons other hother
  rw [infos_eraseInfo, infos_withInotify, infos_withInotify] at hcons
  split_ifs at hcons with hdir
  · cases hinfos : managed.manager.infos parent with
    | nil =>
        rw [hinfos] at hcons
        cases hcons
    | cons first others =>
        have hnone := hsound.rest parent first others hinfos
        rw [hinfos] at hcons
        by_cases hpath : first.watchConfig = path
        · rw [List.eraseP_cons_of_pos (by simpa using hpath)] at hcons
          exact hnone other (hcons ▸ .tail _ hother)
        · rw [List.eraseP_cons_of_neg (by simpa using hpath)] at hcons
          cases hcons
          exact hnone other (List.mem_of_mem_eraseP hother)
  · exact hsound.rest dir info rest hcons other hother

theorem goodbye_other (hsound : managed.Sound) {path : String}
    {info : WatchInfo κ}
    (hfind : managed.manager.findWatchInfo parent path = some info)
    (hnone : info.watchFd = none) :
    Sound ⟨managed.manager.eraseInfo parent path, managed.refused⟩ where
  numbered := hsound.numbered
  recorded := by
    intro dir other hother fd hfd
    rw [infos_eraseInfo] at hother
    split_ifs at hother with hdir
    · exact hdir ▸ hsound.recorded parent other
        (List.mem_of_mem_eraseP hother) fd hfd
    · exact hsound.recorded dir other hother fd hfd
  accounted := by
    intro fd dir hwatch
    refine (hsound.accounted fd dir hwatch).imp_left ?_
    intro hrecorded
    obtain ⟨holder, hholder, hfd⟩ := hrecorded
    refine ⟨holder, ?_, hfd⟩
    rw [infos_eraseInfo]
    split_ifs with hdir
    · subst hdir
      obtain ⟨first, rest, hinfos, hcase⟩ := hsound.found hfind
      have hfirst := hsound.holder_eq hinfos hholder hfd
      have hpath : first.watchConfig ≠ path := by
        rcases hcase with ⟨heq, _⟩ | ⟨hpath, _⟩
        · rw [heq, ← hfirst, hfd] at hnone
          cases hnone
        · exact hpath
      rw [hinfos, List.eraseP_cons_of_neg (by simpa using hpath), hfirst]
      exact List.mem_cons_self
    · exact hholder
  rest := hsound.rest_eraseInfo managed.manager.inotify path
  stored := hsound.stored_eraseInfo managed.manager.inotify path

theorem goodbye_first (hsound : managed.Sound) {path : String}
    {info : WatchInfo κ} {watchFd : Nat}
    (hfind : managed.manager.findWatchInfo parent path = some info)
    (hfd : info.watchFd = some watchFd) :
    Sound ⟨eraseInfo ⟨{ managed.manager.inotify with
        watches := managed.manager.inotify.watches.filter
          fun watch => watch.1 ≠ watchFd }, managed.manager.map⟩ parent path,
      managed.refused⟩ := by
  obtain ⟨first, rest, hinfos, hcase⟩ := hsound.found hfind
  have hinfo : info = first ∧ first.watchConfig = path := by
    rcases hcase with hfirst | ⟨_, hnone⟩
    · exact hfirst
    · rw [hnone] at hfd
      cases hfd
  obtain ⟨rfl, hpath⟩ := hinfo
  have hwatch := hsound.recorded parent info
    (hinfos ▸ List.mem_cons_self) watchFd hfd
  have herased : (managed.manager.infos parent).eraseP
      (fun info => info.watchConfig = path) = rest := by
    rw [hinfos, List.eraseP_cons_of_pos (by simpa using hpath)]
  have hrest := hsound.rest parent info rest hinfos
  constructor
  · exact hsound.numbered.filter _
  · intro dir other hother fd hother'
    rw [infos_eraseInfo, infos_withInotify, infos_withInotify, herased]
      at hother
    split_ifs at hother with hdir
    · rw [hrest other hother] at hother'
      cases hother'
    · have hkept := hsound.recorded dir other hother fd hother'
      refine List.mem_filter.mpr ⟨hkept, ?_⟩
      rw [decide_eq_true_iff]
      intro heq
      have hsame := hsound.numbered.unique _ hkept _ hwatch heq
      exact hdir (congrArg Prod.snd hsame).symm
  · intro fd dir hleft
    obtain ⟨hleft, hne⟩ := List.mem_filter.mp hleft
    refine (hsound.accounted fd dir hleft).imp_left ?_
    intro hrecorded
    obtain ⟨holder, hholder, hholderFd⟩ := hrecorded
    refine ⟨holder, ?_, hholderFd⟩
    rw [infos_eraseInfo, infos_withInotify, infos_withInotify, if_neg]
    · exact hholder
    · intro hdir
      subst hdir
      have hsame := hsound.holder_eq hinfos hholder hholderFd
      rw [hsame, hfd] at hholderFd
      cases hholderFd
      simp at hne
  · exact hsound.rest_eraseInfo _ path
  · exact hsound.stored_eraseInfo _ path

structure Follows (managed : Managed κ) (result : Bool × InotifyManager κ)
    (expected : Bool × Registry κ) : Prop where
  sound : Sound ⟨result.2, managed.refused⟩
  expected : expected = (result.1, result.2.registry)

theorem watchConfig (hsound : managed.Sound) (accepted : Bool) (path : String)
    (onChange : κ) :
    Follows managed (managed.manager.watchConfig accepted path onChange)
      (managed.manager.registry.watchConfig accepted path onChange) := by
  unfold InotifyManager.watchConfig Registry.watchConfig
  have hfound := managed.manager.find_registry path
  cases hfind : managed.manager.findWatchInfo (getParentDir path) path with
  | some info =>
      rw [hfind] at hfound
      simp only [hfind, hfound, Option.map_some]
      exact ⟨hsound, rfl⟩
  | none =>
      rw [hfind] at hfound
      cases hlookup : managed.manager.map.lookup (getParentDir path) with
      | none =>
          have hinfos : managed.manager.infos (getParentDir path) = [] := by
            rw [infos, hlookup, Option.getD_none]
          have hregistry : managed.manager.registry (getParentDir path) =
              [] := by
            rw [registry, hinfos, List.map_nil]
          simp only [hfind, hfound, hlookup, hregistry, Option.map_none]
          cases accepted with
          | false => exact ⟨hsound, rfl⟩
          | true =>
              obtain ⟨watchFd, inotify, hadd, hadds⟩ :=
                hsound.numbered.addWatch (getParentDir path)
              simp only [hadd, if_true]
              refine ⟨hsound.watch_first hinfos hadds path onChange, ?_⟩
              rw [registry_of_infos fun dir => infos_insert managed.manager
                inotify (getParentDir path) dir
                [⟨some watchFd, path, onChange⟩]]
              rfl
      | some stored =>
          have hinfos := infos_of_lookup hlookup
          have hstored := hsound.stored _ _ hlookup
          obtain ⟨first, rest, rfl⟩ := List.exists_cons_of_ne_nil hstored
          have hregistry : managed.manager.registry (getParentDir path) =
              first.entry :: rest.map WatchInfo.entry := by
            rw [registry, hinfos, List.map_cons]
          simp only [hfind, hfound, hlookup, hregistry, Option.map_none]
          refine ⟨?_, ?_⟩
          · rw [← hinfos]
            exact hsound.watch_other (hinfos ▸ hstored) path onChange
          · have hafter := registry_of_infos fun dir =>
              infos_insert managed.manager managed.manager.inotify
                (getParentDir path) dir
                (first :: rest ++ [⟨none, path, onChange⟩])
            rw [List.map_append] at hafter
            exact congrArg (Prod.mk true) hafter.symm

theorem registry_eraseInfo {inotify : InotifyInstance} {path : String}
    (manager : InotifyManager κ) :
    (eraseInfo ⟨inotify, manager.map⟩ parent path).registry =
      Function.update manager.registry parent
        ((manager.registry parent).eraseP fun entry => entry.path = path) := by
  rw [registry_of_infos fun dir => (infos_eraseInfo _ parent path dir)]
  rw [registry, List.eraseP_map]
  rfl

theorem goodbyeConfig (hsound : managed.Sound) (accepted : Bool)
    (path : String) :
    Follows managed (managed.manager.goodbyeConfig accepted path)
      (managed.manager.registry.goodbyeConfig accepted path) := by
  unfold InotifyManager.goodbyeConfig Registry.goodbyeConfig
  have hfound := managed.manager.find_registry path
  cases hfind : managed.manager.findWatchInfo (getParentDir path) path with
  | none =>
      rw [hfind] at hfound
      simp only [hfind, hfound, Option.map_none]
      exact ⟨hsound, rfl⟩
  | some info =>
      rw [hfind] at hfound
      simp only [hfind, hfound, Option.map_some]
      cases hfd : info.watchFd with
      | none =>
          simp only [WatchInfo.entry, hfd]
          refine ⟨hsound.goodbye_other hfind hfd, ?_⟩
          rw [← registry_eraseInfo]
          rfl
      | some watchFd =>
          have hwatch : (watchFd, getParentDir path) ∈
              managed.manager.inotify.watches :=
            hsound.recorded _ info (List.mem_of_find?_eq_some hfind) _ hfd
          cases accepted with
          | false =>
              simp only [WatchInfo.entry, hfd,
                InotifyInstance.removeWatch_refused]
              exact ⟨hsound, rfl⟩
          | true =>
              simp only [WatchInfo.entry, hfd, removeWatch_of_mem hwatch]
              refine ⟨hsound.goodbye_first hfind hfd, ?_⟩
              rw [registry_eraseInfo]
              rfl

theorem mem_watchFds {manager : InotifyManager κ} {dir : String}
    {info : WatchInfo κ} {watchFd : Nat} (hinfo : info ∈ manager.infos dir)
    (hfd : info.watchFd = some watchFd) : watchFd ∈ manager.watchFds := by
  unfold infos at hinfo
  cases hlookup : manager.map.lookup dir with
  | none =>
      rw [hlookup] at hinfo
      cases hinfo
  | some stored =>
      rw [hlookup, Option.getD_some] at hinfo
      exact List.mem_flatMap.mpr ⟨⟨dir, stored⟩,
        AList.mem_lookup_iff.mp hlookup,
        List.mem_filterMap.mpr ⟨info, hinfo, hfd⟩⟩

theorem destroyManager (hsound : managed.Sound) (accepted : Nat → Bool) :
    (managed.step (.destroyManager accepted)).Sound := by
  unfold Managed.step InotifyManager.destroyManager
  simp only [InotifyInstance.foldl_removeWatch]
  constructor
  · exact hsound.numbered.filter _
  · simp [infos]
  · intro watchFd dir hleft
    obtain ⟨hwatch, hkept⟩ := List.mem_filter.mp hleft
    right
    rw [List.mem_append]
    rcases hsound.accounted watchFd dir hwatch with ⟨info, hinfo, hfd⟩ | hleft
    · right
      refine List.mem_filter.mpr ⟨hwatch, ?_⟩
      have hlisted := mem_watchFds hinfo hfd
      simpa [hlisted] using hkept
    · exact .inl hleft
  · simp [infos]
  · simp

theorem step (hsound : managed.Sound) (input : ManagerInput κ) :
    (managed.step input).Sound ∧
      (managed.step input).manager.registry =
        managed.manager.registry.step input ∧
      managed.answers input = managed.manager.registry.answers input := by
  cases input with
  | destroyManager accepted => exact ⟨hsound.destroyManager accepted, rfl, rfl⟩
  | call call accepted =>
      have hfollows : Follows managed (managed.manager.call accepted call)
          (managed.manager.registry.call accepted call) := by
        cases call with
        | watchConfig path onChange =>
            exact hsound.watchConfig accepted path onChange
        | goodbyeConfig path => exact hsound.goodbyeConfig accepted path
      have hexpected := hfollows.expected.symm
      exact ⟨hfollows.sound, congrArg Prod.snd hexpected,
        congrArg (fun result => [Prod.fst result]) hexpected⟩

end Sound

/-- A watch that is left behind serves the next file of its directory. -/
example :
    let managed := run step (start : Managed Unit)
      [.call (.watchConfig "/etc/acl.json" ()) true,
        .destroyManager fun _ => false,
        .call (.watchConfig "/etc/lb.json" ()) true]
    managed.refused = [(1, "/etc")] ∧
      managed.manager.inotify.watches = [(1, "/etc")] ∧
      managed.manager.infos "/etc" = [⟨some 1, "/etc/lb.json", ()⟩] := by
  decide

end Managed

end Hebpf.Inotify
