import Hebpf.Common.Libc
import Hebpf.Data.Run
import Hebpf.Inotify.Manager

namespace Hebpf.Inotify

open Hebpf.Common Hebpf.Data InotifyManager

variable {κ : Type}

/-! Which callbacks an event reaches, against the registrations that are still
in force. -/

/-- A manager with the registrations acknowledged and not yet withdrawn, in
their order. -/
structure Session (κ : Type) where
  manager : InotifyManager κ
  registered : List (String × κ)

namespace Session

def start : Session κ := ⟨.start, []⟩

def answered (session : Session κ) (call : Call κ) :
    Bool × InotifyManager κ → Session κ
  | (false, manager) => ⟨manager, session.registered⟩
  | (true, manager) =>
      match call with
      | .watchConfig path onChange =>
          ⟨manager, session.registered ++ [(path, onChange)]⟩
      | .goodbyeConfig path =>
          ⟨manager, session.registered.filter fun entry => entry.1 ≠ path⟩

def step (session : Session κ) (input : Call κ × Bool) : Session κ :=
  session.answered input.1 (session.manager.call input.2 input.1)

/-- The manager stores the first registration of each path. -/
structure Tracks (session : Session κ) : Prop where
  find : ∀ path,
    (session.manager.findWatchInfo (getParentDir path) path).map
        (fun info => (info.watchConfig, info.onChange)) =
      session.registered.find? fun entry => entry.1 = path
  distinct : ∀ dir,
    ((session.manager.infos dir).map WatchInfo.watchConfig).Nodup

theorem start_tracks : (start : Session κ).Tracks where
  find := by simp [start, InotifyManager.start, findWatchInfo, infos]
  distinct := by simp [start, InotifyManager.start, infos]

end Session

theorem find?_watchConfig_eraseP {infos : List (WatchInfo κ)}
    (hdistinct : (infos.map WatchInfo.watchConfig).Nodup)
    (removed path : String) :
    ((infos.eraseP fun info => info.watchConfig = removed).find?
        fun info => info.watchConfig = path) =
      if removed = path then none
      else infos.find? fun info => info.watchConfig = path := by
  induction infos with
  | nil => simp
  | cons info rest ih =>
      obtain ⟨hfresh, hrest⟩ := List.nodup_cons.mp hdistinct
      by_cases hremoved : info.watchConfig = removed
      · rw [List.eraseP_cons_of_pos (by simpa using hremoved)]
        subst hremoved
        split_ifs with heq
        · subst heq
          rw [List.find?_eq_none]
          intro other hother hpath
          exact hfresh (List.mem_map.mpr ⟨other, hother, by simpa using hpath⟩)
        · rw [List.find?_cons_of_neg (by simpa using heq)]
      · rw [List.eraseP_cons_of_neg (by simpa using hremoved)]
        by_cases hpath : info.watchConfig = path
        · subst hpath
          simp [Ne.symm hremoved]
        · rw [List.find?_cons_of_neg (by simpa using hpath),
            List.find?_cons_of_neg (by simpa using hpath), ih hrest]

namespace Session

theorem Tracks.watch_again {session : Session κ} (htracks : session.Tracks)
    {path : String} {info : WatchInfo κ}
    (hfind : session.manager.findWatchInfo (getParentDir path) path = some info)
    (onChange : κ) :
    Tracks ⟨session.manager, session.registered ++ [(path, onChange)]⟩ where
  find := by
    intro other
    rw [htracks.find, List.find?_append]
    by_cases heq : path = other
    · subst heq
      rw [← htracks.find, hfind]
      rfl
    · simp [heq]
  distinct := htracks.distinct

theorem Tracks.watch_new {session : Session κ} (htracks : session.Tracks)
    {path : String} {onChange : κ} {watched : InotifyManager κ}
    (hfind : session.manager.findWatchInfo (getParentDir path) path = none)
    {watchFd : Option Nat}
    (hinfos : ∀ dir, watched.infos dir =
      if getParentDir path = dir then
        session.manager.infos dir ++ [⟨watchFd, path, onChange⟩]
      else session.manager.infos dir) :
    Tracks ⟨watched, session.registered ++ [(path, onChange)]⟩ where
  find := by
    intro other
    rw [List.find?_append, ← htracks.find]
    simp only [findWatchInfo, hinfos]
    by_cases heq : path = other
    · subst heq
      simp only [findWatchInfo] at hfind
      simp [hfind]
    · split_ifs with hdir
      · simp [List.find?_append, heq]
      · simp [heq]
  distinct := by
    intro dir
    simp only [hinfos]
    split_ifs with hdir
    · subst hdir
      simp only [findWatchInfo, List.find?_eq_none] at hfind
      rw [List.map_append, List.nodup_append]
      refine ⟨htracks.distinct _, List.nodup_singleton _, ?_⟩
      intro first hfirst last hlast
      obtain ⟨info, hinfo, rfl⟩ := List.mem_map.mp hfirst
      obtain rfl := List.mem_singleton.mp hlast
      simpa using hfind info hinfo
    · exact htracks.distinct dir

theorem Tracks.goodbye {session : Session κ} (htracks : session.Tracks)
    {path : String} {left : InotifyManager κ}
    (hinfos : ∀ dir, left.infos dir =
      if getParentDir path = dir then
        (session.manager.infos dir).eraseP fun info => info.watchConfig = path
      else session.manager.infos dir) :
    Tracks ⟨left, session.registered.filter fun entry => entry.1 ≠ path⟩ where
  find := by
    intro other
    rw [List.find?_filter]
    simp only [findWatchInfo, hinfos]
    by_cases heq : path = other
    · subst heq
      rw [if_pos rfl, find?_watchConfig_eraseP (htracks.distinct _),
        if_pos rfl]
      symm
      simp [List.find?_eq_none]
    · have hsame : (session.registered.find? fun entry =>
          decide (decide (entry.1 ≠ path) = true ∧
            decide (entry.1 = other) = true)) =
          session.registered.find? fun entry => entry.1 = other := by
        congr 1
        funext entry
        by_cases hentry : entry.1 = other <;>
          simp [hentry, Ne.symm heq]
      rw [hsame, ← htracks.find]
      split_ifs with hdir
      · rw [find?_watchConfig_eraseP (htracks.distinct _), if_neg heq]
        rfl
      · rfl
  distinct := by
    intro dir
    rw [hinfos]
    split_ifs
    · exact (htracks.distinct dir).sublist
        ((List.eraseP_sublist).map _)
    · exact htracks.distinct dir

theorem Tracks.of_infos {session : Session κ} (htracks : session.Tracks)
    {manager : InotifyManager κ}
    (hinfos : ∀ dir, manager.infos dir = session.manager.infos dir) :
    Tracks ⟨manager, session.registered⟩ where
  find := by
    intro path
    simp only [findWatchInfo, hinfos]
    exact htracks.find path
  distinct := by
    intro dir
    rw [hinfos]
    exact htracks.distinct dir

theorem Tracks.watchConfig {session : Session κ} (htracks : session.Tracks)
    (path : String) (onChange : κ) (accepted : Bool) :
    (session.step (.watchConfig path onChange, accepted)).Tracks := by
  simp only [step, InotifyManager.call]
  unfold InotifyManager.watchConfig
  simp only
  cases hfind : session.manager.findWatchInfo (getParentDir path) path with
  | some info => exact htracks.watch_again hfind onChange
  | none =>
      cases hlookup : session.manager.map.lookup (getParentDir path) with
      | none =>
          have hnone : session.manager.infos (getParentDir path) = [] := by
            simp [infos, hlookup]
          cases hadd : session.manager.inotify.addWatch accepted
              (getParentDir path) with
          | mk watchFd inotify =>
              cases watchFd with
              | none => exact htracks.of_infos fun _ => rfl
              | some watchFd =>
                  refine @Tracks.watch_new κ session htracks path onChange _
                    hfind (some watchFd) ?_
                  intro dir
                  rw [infos_insert]
                  split_ifs with hdir
                  · rw [← hdir, hnone]
                    rfl
                  · rfl
      | some stored =>
          refine @Tracks.watch_new κ session htracks path onChange _ hfind none ?_
          intro dir
          rw [infos_insert]
          split_ifs with hdir
          · rw [← hdir, infos_of_lookup hlookup]
          · rfl

theorem Tracks.goodbyeConfig {session : Session κ} (htracks : session.Tracks)
    (path : String) (accepted : Bool) :
    (session.step (.goodbyeConfig path, accepted)).Tracks := by
  have herase : ∀ inotify dir,
      InotifyManager.infos (eraseInfo ⟨inotify, session.manager.map⟩
        (getParentDir path) path) dir =
        if getParentDir path = dir then
          (session.manager.infos dir).eraseP
            fun info => info.watchConfig = path
        else session.manager.infos dir := by
    intro inotify dir
    rw [infos_eraseInfo]
    split_ifs with hdir
    · subst hdir
      rfl
    · rfl
  simp only [step, InotifyManager.call]
  unfold InotifyManager.goodbyeConfig
  simp only
  cases hfind : session.manager.findWatchInfo (getParentDir path) path with
  | none =>
      have habsent := htracks.find path
      rw [hfind, Option.map_none, eq_comm, List.find?_eq_none] at habsent
      have hkeep : (session.registered.filter fun entry => entry.1 ≠ path) =
          session.registered := by
        rw [List.filter_eq_self]
        intro entry hentry
        simpa using habsent entry hentry
      simp only [answered, hkeep]
      exact htracks
  | some info =>
      simp only
      cases hfd : info.watchFd with
      | none => exact htracks.goodbye (herase session.manager.inotify)
      | some watchFd =>
          simp only
          cases hremove : session.manager.inotify.removeWatch accepted
              watchFd with
          | mk answer inotify =>
              cases answer with
              | false => exact htracks.of_infos fun _ => rfl
              | true => exact htracks.goodbye (herase inotify)

theorem Tracks.step {session : Session κ} (htracks : session.Tracks)
    (input : Call κ × Bool) : (session.step input).Tracks := by
  obtain ⟨call, accepted⟩ := input
  cases call with
  | watchConfig path onChange => exact htracks.watchConfig path onChange accepted
  | goodbyeConfig path => exact htracks.goodbyeConfig path accepted

theorem run_tracks (inputs : List (Call κ × Bool)) :
    (run step start inputs : Session κ).Tracks :=
  invariant_run (fun _ input htracks => htracks.step input) start_tracks
    inputs

def expected (session : Session κ) (dir name : String) : List (String × κ) :=
  session.registered.filter fun entry =>
    getParentDir entry.1 = dir ∧ baseName entry.1 = name

def invoked (session : Session κ) (event : InotifyEvent) :
    List (String × κ) :=
  (processInotify session.manager [event]).map fun call =>
    (call.1.watchConfig, call.1.onChange)

theorem Tracks.invoked_eq {session : Session κ} (htracks : session.Tracks)
    {event : InotifyEvent} (hname : event.name ≠ "") :
    session.invoked event =
      (session.registered.find? fun entry => entry.1 = event.name).toList := by
  rw [← htracks.find]
  simp only [invoked, processInotify, hname, if_false, onInotifyEvent,
    List.append_nil]
  cases session.manager.findWatchInfo (getParentDir event.name) event.name <;>
    rfl

/-- An event reaches exactly its registrations where there is one of them and
its path is the bare name, or there is none and none for the bare name. -/
theorem Tracks.invoked_perm_iff {session : Session κ} (htracks : session.Tracks)
    (dir : String) {event : InotifyEvent} (hname : event.name ≠ "") :
    (session.invoked event).Perm (session.expected dir event.name) ↔
      (∃ onChange, session.expected dir event.name =
        [(event.name, onChange)]) ∨
      (session.expected dir event.name = [] ∧
        ∀ onChange, (event.name, onChange) ∉ session.registered) := by
  rw [htracks.invoked_eq hname]
  cases hfind : session.registered.find? fun entry =>
      entry.1 = event.name with
  | none =>
      have habsent : ∀ onChange,
          (event.name, onChange) ∉ session.registered := by
        intro onChange hmem
        simpa using List.find?_eq_none.mp hfind _ hmem
      rw [Option.toList_none, List.nil_perm]
      constructor
      · exact fun hnil => .inr ⟨hnil, habsent⟩
      · intro hreached
        cases hreached with
        | inl hone =>
            obtain ⟨onChange, hone⟩ := hone
            have hmem : (event.name, onChange) ∈
                session.expected dir event.name :=
              hone ▸ List.mem_singleton_self _
            exact absurd (List.mem_of_mem_filter hmem) (habsent onChange)
        | inr hnone => exact hnone.1
  | some entry =>
      obtain ⟨path, onChange⟩ := entry
      obtain rfl : path = event.name := by simpa using List.find?_some hfind
      have hmem := List.mem_of_find?_eq_some hfind
      rw [Option.toList_some, List.singleton_perm]
      constructor
      · exact fun hone => .inl ⟨onChange, hone.symm⟩
      · intro hreached
        cases hreached with
        | inl hone =>
            obtain ⟨other, hone⟩ := hone
            have hother : (event.name, other) ∈
                session.expected dir event.name :=
              hone ▸ List.mem_singleton_self _
            have hhere : (event.name, onChange) ∈
                session.expected dir event.name :=
              List.mem_filter.mpr ⟨hmem, (List.mem_filter.mp hother).2⟩
            rw [hone] at hhere ⊢
            rw [List.mem_singleton.mp hhere]
        | inr hnone => exact absurd hmem (hnone.2 onChange)

/-- The same after any calls, with any answers of the kernel. -/
theorem invoked_perm_expected_iff (inputs : List (Call κ × Bool))
    (dir : String) {event : InotifyEvent} (hname : event.name ≠ "") :
    ((run step start inputs).invoked event).Perm
        ((run step start inputs).expected dir event.name) ↔
      (∃ onChange, (run step start inputs).expected dir event.name =
        [(event.name, onChange)]) ∨
      ((run step start inputs).expected dir event.name = [] ∧
        ∀ onChange,
          (event.name, onChange) ∉ (run step start inputs).registered) :=
  (run_tracks inputs).invoked_perm_iff dir hname

/-! A bare name beside files of a watched directory, one of them withdrawn. -/

def watchedBare : List (Call Unit × Bool) :=
  [(.watchConfig "/etc/acl.json" (), true), (.watchConfig "lb.json" (), true),
    (.watchConfig "/etc/lb.json" (), true),
    (.goodbyeConfig "/etc/acl.json", true)]

theorem invoked_perm_expected_iff_bare :
    ((run step start watchedBare).invoked ⟨2, 8, "lb.json"⟩).Perm
        ((run step start watchedBare).expected "." "lb.json") ↔
      (∃ onChange, (run step start watchedBare).expected "." "lb.json" =
        [("lb.json", onChange)]) ∨
      ((run step start watchedBare).expected "." "lb.json" = [] ∧
        ∀ onChange,
          ("lb.json", onChange) ∉ (run step start watchedBare).registered) :=
  @invoked_perm_expected_iff Unit watchedBare "." ⟨2, 8, "lb.json"⟩
    (by decide)

example : (run step start watchedBare).invoked ⟨2, 8, "lb.json"⟩ =
    (run step start watchedBare).expected "." "lb.json" := by decide

def watchedOnce : List (Call Unit × Bool) :=
  [(.watchConfig "/etc/acl.json" (), true)]

/-- The event for the registered file reaches nobody. -/
theorem not_invoked_watchedOnce :
    (run step start watchedOnce).manager.inotify.watches = [(1, "/etc")] ∧
      (run step start watchedOnce).expected "/etc" "acl.json" =
        [("/etc/acl.json", ())] ∧
      (run step start watchedOnce).invoked ⟨1, 8, "acl.json"⟩ = [] ∧
      ¬ ((run step start watchedOnce).invoked ⟨1, 8, "acl.json"⟩).Perm
        ((run step start watchedOnce).expected "/etc" "acl.json") := by
  have hexpected : (run step start watchedOnce).expected "/etc" "acl.json" =
      [("/etc/acl.json", ())] := by decide
  have hinvoked : (run step start watchedOnce).invoked
      ⟨1, 8, "acl.json"⟩ = [] := by decide
  refine ⟨by decide, hexpected, hinvoked, ?_⟩
  rw [hinvoked, hexpected, List.nil_perm]
  exact List.cons_ne_nil _ _

end Session

end Hebpf.Inotify
