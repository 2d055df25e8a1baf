import Hebpf.Data.Run
import Hebpf.Inotify.Manager

namespace Hebpf.Inotify

open Hebpf.Data

variable {κ : Type}

/-! Which directories are watched, when the kernel accepts every request. -/

namespace InotifyManager

def callAccepted (manager : InotifyManager κ) (call : Call κ) :
    InotifyManager κ :=
  (manager.call true call).2

/-- A directory has a live watch where a file in it is registered, and the
first element of its vector holds the descriptor. -/
structure Watched (manager : InotifyManager κ) : Prop where
  live_iff : ∀ dir,
    (∃ watchFd, (watchFd, dir) ∈ manager.inotify.watches) ↔
      manager.infos dir ≠ []
  first : ∀ watchFd dir, (watchFd, dir) ∈ manager.inotify.watches →
    ∃ info rest, manager.infos dir = info :: rest ∧
      info.watchFd = some watchFd

structure Consistent (manager : InotifyManager κ) : Prop
    extends Watched manager where
  rest : ∀ dir info rest, manager.infos dir = info :: rest →
    ∀ other ∈ rest, other.watchFd = none
  unique : ∀ watch ∈ manager.inotify.watches,
    ∀ other ∈ manager.inotify.watches, watch.1 = other.1 → watch = other
  fresh : ∀ watch ∈ manager.inotify.watches, watch.1 < manager.inotify.nextFd
  stored : ∀ dir infos, manager.map.lookup dir = some infos → infos ≠ []

theorem start_consistent : (start : InotifyManager κ).Consistent where
  live_iff := by simp [start, infos]
  first := by simp [start]
  rest := by simp [start, infos]
  unique := by simp [start]
  fresh := by simp [start]
  stored := by simp [start]

theorem Consistent.exists_watch {manager : InotifyManager κ}
    (hconsistent : manager.Consistent) {dir : String} {info : WatchInfo κ}
    {rest : List (WatchInfo κ)} (hinfos : manager.infos dir = info :: rest) :
    ∃ watchFd, (watchFd, dir) ∈ manager.inotify.watches ∧
      info.watchFd = some watchFd := by
  obtain ⟨watchFd, hwatch⟩ := (hconsistent.live_iff dir).mpr (by simp [hinfos])
  obtain ⟨first, tail, hfirst, hfd⟩ := hconsistent.first watchFd dir hwatch
  cases hinfos.symm.trans hfirst
  exact ⟨watchFd, hwatch, hfd⟩

theorem Consistent.watch_new {manager : InotifyManager κ}
    (hconsistent : manager.Consistent) {parent : String}
    (hnone : manager.infos parent = []) (path : String) (onChange : κ) :
    Consistent ⟨⟨manager.inotify.watches ++
          [(manager.inotify.nextFd, parent)], manager.inotify.nextFd + 1⟩,
        manager.map.insert parent
          [⟨some manager.inotify.nextFd, path, onChange⟩]⟩ where
  live_iff := by
    intro dir
    rw [infos_insert]
    by_cases heq : parent = dir
    · simp [heq]
    · simpa [heq, Ne.symm heq] using hconsistent.live_iff dir
  first := by
    intro watchFd dir hwatch
    rw [infos_insert]
    rcases List.mem_append.mp hwatch with hold | hnew
    · obtain ⟨info, rest, hinfos, hfd⟩ := hconsistent.first watchFd dir hold
      have hne : parent ≠ dir := by
        rintro rfl
        simp [hnone] at hinfos
      exact ⟨info, rest, by simpa [hne] using hinfos, hfd⟩
    · cases List.mem_singleton.mp hnew
      exact ⟨_, [], if_pos rfl, rfl⟩
  rest := by
    intro dir info rest hinfos
    rw [infos_insert] at hinfos
    split_ifs at hinfos with heq
    · cases hinfos
      simp
    · exact hconsistent.rest dir info rest hinfos
  unique := by
    intro watch hwatch other hother hfd
    rcases List.mem_append.mp hwatch with hwatch | hwatch <;>
      rcases List.mem_append.mp hother with hother | hother
    · exact hconsistent.unique watch hwatch other hother hfd
    · have hlt := hconsistent.fresh watch hwatch
      cases List.mem_singleton.mp hother
      simp only at hfd
      omega
    · have hlt := hconsistent.fresh other hother
      cases List.mem_singleton.mp hwatch
      simp only at hfd
      omega
    · rw [List.mem_singleton.mp hwatch, List.mem_singleton.mp hother]
  fresh := by
    intro watch hwatch
    rcases List.mem_append.mp hwatch with hwatch | hwatch
    · exact Nat.lt_succ_of_lt (hconsistent.fresh watch hwatch)
    · rw [List.mem_singleton.mp hwatch]
      exact Nat.lt_succ_self _
  stored := by
    intro dir infos hlookup
    by_cases heq : dir = parent
    · subst heq
      rw [AList.lookup_insert] at hlookup
      cases hlookup
      simp
    · rw [AList.lookup_insert_ne heq] at hlookup
      exact hconsistent.stored dir infos hlookup

theorem Consistent.change_tail {manager changed : InotifyManager κ}
    (hconsistent : manager.Consistent) {parent : String}
    {info : WatchInfo κ} {rest rest' : List (WatchInfo κ)}
    (hinfos : manager.infos parent = info :: rest)
    (hinotify : changed.inotify = manager.inotify)
    (hmap : changed.map = manager.map.insert parent (info :: rest'))
    (hrest : ∀ other ∈ rest', other.watchFd = none) :
    changed.Consistent := by
  obtain ⟨inotify, map⟩ := changed
  simp only at hinotify hmap
  subst hinotify hmap
  constructor
  · constructor
    · intro dir
      rw [infos_insert]
      by_cases heq : parent = dir
      · subst heq
        simpa [hinfos] using hconsistent.live_iff parent
      · simpa [heq] using hconsistent.live_iff dir
    · intro watchFd dir hwatch
      obtain ⟨first, tail, hfirst, hfd⟩ :=
        hconsistent.first watchFd dir hwatch
      rw [infos_insert]
      by_cases heq : parent = dir
      · subst heq
        cases hinfos.symm.trans hfirst
        exact ⟨info, rest', if_pos rfl, hfd⟩
      · exact ⟨first, tail, by simpa [heq] using hfirst, hfd⟩
  · intro dir first tail hfirst
    rw [infos_insert] at hfirst
    split_ifs at hfirst with heq
    · cases hfirst
      exact hrest
    · exact hconsistent.rest dir first tail hfirst
  · exact hconsistent.unique
  · exact hconsistent.fresh
  · intro dir infos hlookup
    by_cases heq : dir = parent
    · subst heq
      rw [AList.lookup_insert] at hlookup
      cases hlookup
      simp
    · rw [AList.lookup_insert_ne heq] at hlookup
      exact hconsistent.stored dir infos hlookup

theorem Consistent.goodbye_last {manager changed : InotifyManager κ}
    (hconsistent : manager.Consistent) {parent : String} {watchFd : Nat}
    (hwatch : (watchFd, parent) ∈ manager.inotify.watches)
    (hwatches : changed.inotify.watches =
      manager.inotify.watches.filter fun watch => watch.1 ≠ watchFd)
    (hnext : changed.inotify.nextFd = manager.inotify.nextFd)
    (hmap : changed.map = manager.map.erase parent) :
    changed.Consistent := by
  obtain ⟨⟨watches, nextFd⟩, map⟩ := changed
  simp only at hwatches hnext hmap
  subst hwatches hnext hmap
  have hmem : ∀ fd dir, (fd, dir) ∈ manager.inotify.watches.filter
      (fun watch => watch.1 ≠ watchFd) ↔
        (fd, dir) ∈ manager.inotify.watches ∧ dir ≠ parent := by
    intro fd dir
    simp only [List.mem_filter, decide_eq_true_eq]
    refine and_congr_right fun hlive => not_congr ⟨?_, ?_⟩
    · rintro rfl
      cases hconsistent.unique _ hlive _ hwatch rfl
      rfl
    · rintro rfl
      obtain ⟨_, _, hfirst, hfd⟩ := hconsistent.first _ _ hlive
      obtain ⟨_, _, hfirst', hfd'⟩ := hconsistent.first _ _ hwatch
      cases hfirst.symm.trans hfirst'
      exact Option.some.inj (hfd.symm.trans hfd')
  constructor
  · constructor
    · intro dir
      rw [infos_erase]
      simp only [hmem]
      by_cases heq : parent = dir
      · simp [heq]
      · simpa [heq, Ne.symm heq] using hconsistent.live_iff dir
    · intro fd dir hlive
      obtain ⟨hlive, hne⟩ := (hmem fd dir).mp hlive
      obtain ⟨info, rest, hfirst, hfd⟩ := hconsistent.first fd dir hlive
      rw [infos_erase, if_neg (Ne.symm hne)]
      exact ⟨info, rest, hfirst, hfd⟩
  · intro dir info rest hfirst
    rw [infos_erase] at hfirst
    split_ifs at hfirst
    exact hconsistent.rest dir info rest hfirst
  · intro watch hlive other hother
    exact hconsistent.unique watch (List.mem_of_mem_filter hlive) other
      (List.mem_of_mem_filter hother)
  · intro watch hlive
    exact hconsistent.fresh watch (List.mem_of_mem_filter hlive)
  · intro dir infos hlookup
    by_cases heq : dir = parent
    · subst heq
      simp at hlookup
    · rw [AList.lookup_erase_ne heq] at hlookup
      exact hconsistent.stored dir infos hlookup

/-- A file that stands first in the vector of its directory is only removed
when it is the last one there. -/
def GoodbyeAlone (manager : InotifyManager κ) : Call κ → Prop
  | .watchConfig _ _ => True
  | .goodbyeConfig path => ∀ info rest,
      manager.infos (getParentDir path) = info :: rest →
        info.watchConfig = path → rest = []

theorem Consistent.watchConfig {manager : InotifyManager κ}
    (hconsistent : manager.Consistent) (path : String) (onChange : κ) :
    (manager.watchConfig true path onChange).2.Consistent := by
  unfold InotifyManager.watchConfig
  simp only
  cases hfind : manager.findWatchInfo (getParentDir path) path with
  | some info => exact hconsistent
  | none =>
      cases hlookup : manager.map.lookup (getParentDir path) with
      | none =>
          have hnone : manager.infos (getParentDir path) = [] := by
            simp [infos, hlookup]
          have hfresh : (manager.inotify.watches.find?
              fun watch => watch.2 = getParentDir path) = none := by
            rw [List.find?_eq_none]
            rintro ⟨watchFd, dir⟩ hwatch hdir
            obtain rfl : dir = getParentDir path := by simpa using hdir
            exact (hconsistent.live_iff _).mp ⟨watchFd, hwatch⟩ hnone
          simp only [InotifyInstance.addWatch, hfresh, if_true]
          exact hconsistent.watch_new hnone path onChange
      | some infos =>
          cases infos with
          | nil => exact absurd rfl (hconsistent.stored _ _ hlookup)
          | cons info rest =>
              have hinfos := infos_of_lookup hlookup
              simp only [List.cons_append]
              refine hconsistent.change_tail hinfos rfl rfl ?_
              intro other hother
              rcases List.mem_append.mp hother with hother | hother
              · exact hconsistent.rest _ _ _ hinfos other hother
              · rw [List.mem_singleton.mp hother]

/-- What a call of `goodbyeConfig` for a registered file finds: the first
element with its descriptor, or one of the others without. -/
theorem Consistent.found {manager : InotifyManager κ}
    (hconsistent : manager.Consistent) {dir path : String}
    {info : WatchInfo κ} (hfind : manager.findWatchInfo dir path = some info) :
    ∃ first rest, manager.infos dir = first :: rest ∧
      (info = first ∧ first.watchConfig = path ∧
          (∃ watchFd, (watchFd, dir) ∈ manager.inotify.watches ∧
            info.watchFd = some watchFd) ∨
        first.watchConfig ≠ path ∧ info.watchFd = none) := by
  unfold findWatchInfo at hfind
  cases hinfos : manager.infos dir with
  | nil => simp [hinfos] at hfind
  | cons first rest =>
      refine ⟨first, rest, rfl, ?_⟩
      by_cases hpath : first.watchConfig = path
      · obtain rfl : first = info := by simpa [hinfos, hpath] using hfind
        exact .inl ⟨rfl, hpath, hconsistent.exists_watch hinfos⟩
      · rw [hinfos, List.find?_cons_of_neg (by simpa using hpath)] at hfind
        exact .inr ⟨hpath, hconsistent.rest _ _ _ hinfos info
          (List.mem_of_find?_eq_some hfind)⟩

theorem removeWatch_of_mem {inotify : InotifyInstance} {watchFd : Nat}
    {dir : String} (hwatch : (watchFd, dir) ∈ inotify.watches) :
    inotify.removeWatch true watchFd = (true, { inotify with
      watches := inotify.watches.filter fun watch => watch.1 ≠ watchFd }) :=
  if_pos ⟨rfl, _, hwatch, rfl⟩

theorem Consistent.goodbyeConfig {manager : InotifyManager κ}
    (hconsistent : manager.Consistent) {path : String}
    (halone : manager.GoodbyeAlone (.goodbyeConfig path)) :
    (manager.goodbyeConfig true path).2.Consistent := by
  unfold InotifyManager.goodbyeConfig
  simp only
  cases hfind : manager.findWatchInfo (getParentDir path) path with
  | none => exact hconsistent
  | some info =>
      obtain ⟨first, rest, hinfos, ⟨rfl, hpath, watchFd, hwatch, hfd⟩ |
        ⟨hpath, hfd⟩⟩ := hconsistent.found hfind
      · have hrest := halone _ _ hinfos hpath
        subst hrest
        simp only [hfd, removeWatch_of_mem hwatch]
        refine hconsistent.goodbye_last hwatch rfl rfl ?_
        rw [map_eraseInfo ((infos_withInotify ..).trans hinfos)]
        simp [hpath]
      · simp only [hfd]
        refine hconsistent.change_tail hinfos rfl
          (by
            rw [map_eraseInfo hinfos, List.eraseP_cons_of_neg (by simpa),
              if_neg (List.cons_ne_nil _ _)]) ?_
        intro other hother
        exact hconsistent.rest _ _ _ hinfos other
          (List.mem_of_mem_eraseP hother)

theorem Consistent.not_watched_goodbyeConfig {manager : InotifyManager κ}
    (hconsistent : manager.Consistent) {path : String}
    (halone : ¬ manager.GoodbyeAlone (.goodbyeConfig path)) :
    ¬ (manager.goodbyeConfig true path).2.Watched := by
  simp only [GoodbyeAlone, not_forall] at halone
  obtain ⟨info, rest, hinfos, hpath, hrest⟩ := halone
  obtain ⟨watchFd, hwatch, hfd⟩ := hconsistent.exists_watch hinfos
  have hfind : manager.findWatchInfo (getParentDir path) path = some info := by
    simp [findWatchInfo, hinfos, hpath]
  intro hwatched
  simp only [InotifyManager.goodbyeConfig, hfind, hfd,
    removeWatch_of_mem hwatch] at hwatched
  obtain ⟨otherFd, hother⟩ := (hwatched.live_iff (getParentDir path)).mpr (by
    rw [infos_eraseInfo, if_pos rfl, infos_withInotify, hinfos]
    simpa [hpath] using hrest)
  obtain ⟨hother, hne⟩ := List.mem_filter.mp hother
  obtain ⟨_, _, hfirst, hotherFd⟩ := hconsistent.first _ _ hother
  cases hinfos.symm.trans hfirst
  cases hfd.symm.trans hotherFd
  simp at hne

theorem Consistent.callAccepted {manager : InotifyManager κ}
    (hconsistent : manager.Consistent) {call : Call κ}
    (halone : manager.GoodbyeAlone call) :
    (manager.callAccepted call).Consistent := by
  cases call with
  | watchConfig path onChange => exact hconsistent.watchConfig path onChange
  | goodbyeConfig path => exact hconsistent.goodbyeConfig halone

theorem Consistent.not_watched_callAccepted {manager : InotifyManager κ}
    (hconsistent : manager.Consistent) {call : Call κ}
    (halone : ¬ manager.GoodbyeAlone call) :
    ¬ (manager.callAccepted call).Watched := by
  cases call with
  | watchConfig path onChange => exact absurd trivial halone
  | goodbyeConfig path => exact hconsistent.not_watched_goodbyeConfig halone

/-- Throughout a run of calls the directories with registered files are those
with a live watch, known to the first element, exactly where no call removes
the first file of a directory before the others. -/
theorem watched_throughout_iff (calls : List (Call κ)) :
    Throughout callAccepted Watched start calls ↔
      StepsMeet callAccepted GoodbyeAlone start calls :=
  throughout_iff_stepsMeet (fun _ hconsistent => hconsistent.toWatched)
    (fun _ _ hconsistent halone => hconsistent.callAccepted halone)
    (fun _ _ hconsistent halone =>
      hconsistent.not_watched_callAccepted halone)
    start_consistent

/-- Two files of one directory, the first of them removed. -/
theorem not_watched_first_of_two :
    let calls : List (Call Unit) :=
      [.watchConfig "/etc/acl.json" (), .watchConfig "/etc/lb.json" (),
        .goodbyeConfig "/etc/acl.json"]
    (run callAccepted start calls).infos "/etc" =
        [⟨none, "/etc/lb.json", ()⟩] ∧
      (run callAccepted start calls).inotify.watches = [] ∧
      ¬ Throughout callAccepted Watched start calls := by
  intro calls
  have hinfos : (run callAccepted start calls).infos "/etc" =
      [⟨none, "/etc/lb.json", ()⟩] := by decide
  have hwatches : (run callAccepted start calls).inotify.watches = [] := by
    decide
  refine ⟨hinfos, hwatches, fun hall => ?_⟩
  obtain ⟨watchFd, hwatch⟩ :=
    (hall.last.live_iff "/etc").mpr (by simp [hinfos])
  simp [hwatches] at hwatch

end InotifyManager

end Hebpf.Inotify
