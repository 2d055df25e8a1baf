import Hebpf.Daemon.ConfigsYaml
import Hebpf.Data.Run

namespace Hebpf.Daemon

open Hebpf.Common Hebpf.Common.Yaml Hebpf.Data

/-! `ConfigWatcher`: who has been given the last configuration.  `ι` are the
subscribers. -/

variable {ι : Type} [DecidableEq ι]

/-- A weak pointer is `none` where it was made of a null pointer.  `alive` and
`received` are of the subscribers: who still exists, and the configuration each
was given last. -/
structure ConfigWatcher (ι : Type) where
  configPath : String
  lastConfig : Configs
  subscribers : List (Option ι)
  alive : ι → Bool
  received : ι → Option Configs

namespace ConfigWatcher

def new : ConfigWatcher ι := ⟨"", .default, [], fun _ => true, fun _ => none⟩

def lock (watcher : ConfigWatcher ι) (weak : Option ι) : Option ι :=
  weak.filter watcher.alive

def active (watcher : ConfigWatcher ι) : List ι :=
  watcher.subscribers.filterMap watcher.lock

def give (watcher : ConfigWatcher ι) (subscriber : ι) (config : Configs) :
    ConfigWatcher ι :=
  { watcher with
    received := Function.update watcher.received subscriber (some config) }

def attach (update : ι → Configs → Result Unit) (watcher : ConfigWatcher ι)
    (subscriber : Option ι) : Result Unit × ConfigWatcher ι :=
  let watcher :=
    { watcher with subscribers := watcher.subscribers ++ [subscriber] }
  match subscriber with
  | none => (.ok (), watcher)
  | some subscriber =>
      if watcher.configPath = "" then (.ok (), watcher)
      else
        let current := watcher.lastConfig
        (update subscriber current, watcher.give subscriber current)

def detach (watcher : ConfigWatcher ι) (subscriber : Option ι) :
    ConfigWatcher ι :=
  { watcher with
    subscribers := watcher.subscribers.filter fun weak =>
      (watcher.lock weak).isSome && watcher.lock weak ≠ subscriber }

def notifyEach (update : ι → Configs → Result Unit) (config : Configs) :
    List ι → ConfigWatcher ι → Result Unit × ConfigWatcher ι
  | [], watcher => (.ok (), watcher)
  | subscriber :: rest, watcher =>
      match update subscriber config with
      | .error exc => (.error exc, watcher.give subscriber config)
      | .ok () => notifyEach update config rest (watcher.give subscriber config)

def notify (update : ι → Configs → Result Unit) (watcher : ConfigWatcher ι) :
    Result Unit × ConfigWatcher ι :=
  notifyEach update watcher.lastConfig watcher.active watcher

def changed (library : Library) (watcher : ConfigWatcher ι)
    (file : ConfigFile) : Option Configs :=
  match Configs.loadFromConfig library file with
  | .error _ => none
  | .ok config => if config = watcher.lastConfig then none else some config

def loadConfig (update : ι → Configs → Result Unit) (library : Library)
    (watcher : ConfigWatcher ι) (file : ConfigFile) : ConfigWatcher ι :=
  match watcher.changed library file with
  | none => watcher
  | some lastConfig => (notify update { watcher with lastConfig }).2

/-- `watched` is the answer of the inotify manager; `none` is that it is gone. -/
def startWatching (update : ι → Configs → Result Unit) (library : Library)
    (watcher : ConfigWatcher ι) (config : String) (watched : Option Bool)
    (file : ConfigFile) : Result Unit × ConfigWatcher ι :=
  if watcher.configPath = config then (.ok (), watcher)
  else
    let watcher := { watcher with configPath := config }
    match watched with
    | none => (.error ⟨"Inotify is invalid"⟩, watcher)
    | some false => (.error ⟨"Inotify add watch failed"⟩, watcher)
    | some true => (.ok (), watcher.loadConfig update library file)

inductive Event (ι : Type) where
  | attach (subscriber : Option ι)
  | detach (subscriber : Option ι)
  | loadConfig (file : ConfigFile)
  | expire (subscriber : ι)

def step (update : ι → Configs → Result Unit) (library : Library)
    (watcher : ConfigWatcher ι) : Event ι → ConfigWatcher ι
  | .attach subscriber =>
      if watcher.lock subscriber = subscriber then
        (watcher.attach update subscriber).2
      else watcher
  | .detach subscriber => watcher.detach subscriber
  | .loadConfig file => watcher.loadConfig update library file
  | .expire subscriber =>
      { watcher with alive := Function.update watcher.alive subscriber false }

def UpToDate (update : ι → Configs → Result Unit) (watcher : ConfigWatcher ι) :
    Prop :=
  ∀ subscriber ∈ watcher.active,
    update subscriber watcher.lastConfig = .ok () →
      watcher.received subscriber = some watcher.lastConfig

def notified (update : ι → Configs → Result Unit) (config : Configs) :
    List ι → List ι
  | [] => []
  | subscriber :: rest =>
      match update subscriber config with
      | .error _ => [subscriber]
      | .ok () => subscriber :: notified update config rest

/-- Who comes behind the first that throws, does not throw itself, and was not
notified before it, has that configuration already. -/
def NoneMissed (update : ι → Configs → Result Unit) (config : Configs)
    (watcher : ConfigWatcher ι) : Prop :=
  ∀ subscriber ∈ watcher.active,
    subscriber ∉ notified update config watcher.active →
      update subscriber config = .ok () →
        watcher.received subscriber = some config

def Delivers (update : ι → Configs → Result Unit) (library : Library)
    (watcher : ConfigWatcher ι) : Event ι → Prop
  | .loadConfig file =>
      ∀ config ∈ watcher.changed library file, watcher.NoneMissed update config
  | _ => True

/-- The first load either changes the configuration, and misses nobody, or finds
nobody who could be notified. -/
def DeliversFirst (update : ι → Configs → Result Unit) (library : Library)
    (watcher : ConfigWatcher ι) (file : ConfigFile) : Prop :=
  match watcher.changed library file with
  | some config => watcher.NoneMissed update config
  | none => ∀ subscriber ∈ watcher.active,
      update subscriber watcher.lastConfig ≠ .ok ()

section Step

variable {update : ι → Configs → Result Unit} {library : Library}
  {watcher : ConfigWatcher ι}

theorem notifyEach_spec (config : Configs) (subscribers : List ι)
    (watcher : ConfigWatcher ι) :
    (notifyEach update config subscribers watcher).2 =
      { watcher with
        received := fun subscriber =>
          if subscriber ∈ notified update config subscribers then some config
          else watcher.received subscriber } := by
  induction subscribers generalizing watcher with
  | nil => simp [notifyEach, notified]
  | cons head tail ih =>
      unfold notifyEach notified
      cases hupdate : update head config with
      | error exc =>
          simp only [give, List.mem_singleton]
          congr 1
          funext subscriber
          exact Function.update_apply _ _ _ _
      | ok _ =>
          simp only [ih, give, List.mem_cons]
          congr 1
          funext subscriber
          by_cases htail : subscriber ∈ notified update config tail
          · simp [htail]
          · simp [htail, Function.update_apply]

theorem loadConfig_eq {file : ConfigFile} {config : Configs}
    (hchanged : watcher.changed library file = some config) :
    watcher.loadConfig update library file =
      { watcher with
        lastConfig := config
        received := fun subscriber =>
          if subscriber ∈ notified update config watcher.active then some config
          else watcher.received subscriber } := by
  rw [loadConfig, hchanged]
  exact notifyEach_spec config _ _

theorem upToDate_loadConfig_iff {file : ConfigFile} {config : Configs}
    (hchanged : watcher.changed library file = some config) :
    (watcher.loadConfig update library file).UpToDate update ↔
      watcher.NoneMissed update config := by
  rw [loadConfig_eq hchanged]
  refine forall_congr' fun subscriber => forall_congr' fun _ => ?_
  by_cases hnotified : subscriber ∈ notified update config watcher.active
  · simp [hnotified]
  · simp [hnotified]

omit [DecidableEq ι] in
theorem mem_active_iff {subscriber : ι} :
    subscriber ∈ watcher.active ↔
      some subscriber ∈ watcher.subscribers ∧
        watcher.alive subscriber = true := by
  simp [active, lock, Option.filter_eq_some_iff]

theorem UpToDate.attach (hupToDate : watcher.UpToDate update)
    (subscriber : Option ι) (hpath : watcher.configPath ≠ "") :
    (watcher.attach update subscriber).2.UpToDate update := by
  intro other hother hupdate
  rw [mem_active_iff] at hother
  cases subscriber with
  | none =>
      refine hupToDate other (mem_active_iff.mpr ⟨?_, hother.2⟩) hupdate
      simpa [ConfigWatcher.attach] using hother.1
  | some subscriber =>
      simp only [ConfigWatcher.attach, if_neg hpath, give, List.mem_append,
        List.mem_singleton, Option.some.injEq] at hother hupdate ⊢
      by_cases heq : other = subscriber
      · subst heq
        simp
      · rw [Function.update_of_ne heq]
        exact hupToDate other (mem_active_iff.mpr
          ⟨hother.1.resolve_right heq, hother.2⟩) hupdate

omit [DecidableEq ι] in
theorem UpToDate.of_subset (hupToDate : watcher.UpToDate update)
    {subscribers : List (Option ι)} {alive : ι → Bool}
    (hsubset : ∀ weak ∈ subscribers, weak ∈ watcher.subscribers)
    (halive : ∀ subscriber, alive subscriber = true →
      watcher.alive subscriber = true) :
    UpToDate update { watcher with subscribers, alive } := by
  intro subscriber hsubscriber
  rw [mem_active_iff] at hsubscriber
  exact hupToDate subscriber (mem_active_iff.mpr
    ⟨hsubset _ hsubscriber.1, halive _ hsubscriber.2⟩)

theorem UpToDate.step_iff (hupToDate : watcher.UpToDate update)
    (hpath : watcher.configPath ≠ "") (event : Event ι) :
    (watcher.step update library event).UpToDate update ↔
      watcher.Delivers update library event := by
  cases event with
  | attach subscriber =>
      refine iff_of_true ?_ trivial
      simp only [step]
      split_ifs
      · exact hupToDate.attach subscriber hpath
      · exact hupToDate
  | detach subscriber =>
      exact iff_of_true (hupToDate.of_subset
        (fun weak hweak => (List.mem_filter.mp hweak).1) fun _ => id) trivial
  | expire subscriber =>
      refine iff_of_true (hupToDate.of_subset (fun _ => id) ?_) trivial
      intro other hother
      rw [Function.update_apply] at hother
      split_ifs at hother
      exact hother
  | loadConfig file =>
      simp only [step, Delivers]
      cases hchanged : watcher.changed library file with
      | none =>
          simpa [loadConfig, hchanged] using hupToDate
      | some config =>
          simpa using upToDate_loadConfig_iff hchanged

theorem configPath_step (event : Event ι) :
    (watcher.step update library event).configPath = watcher.configPath := by
  cases event with
  | attach subscriber =>
      simp only [step]
      split_ifs
      · cases subscriber with
        | none => rfl
        | some subscriber =>
            simp only [attach]
            split_ifs <;> rfl
      · rfl
  | loadConfig file =>
      simp only [step]
      cases hchanged : watcher.changed library file with
      | none => simp [loadConfig, hchanged]
      | some config => simp [loadConfig_eq hchanged]
  | _ => rfl

end Step

def begun (update : ι → Configs → Result Unit) (library : Library)
    (early : List (Option ι)) (path : String) (file : ConfigFile) :
    ConfigWatcher ι :=
  (startWatching update library { new with subscribers := early } path
    (some true) file).2

theorem begun_eq (update : ι → Configs → Result Unit) (library : Library)
    (early : List (Option ι)) {path : String} (hpath : path ≠ "")
    (file : ConfigFile) :
    begun update library early path file =
      ConfigWatcher.loadConfig update library
        { new with subscribers := early, configPath := path } file := by
  simp [begun, startWatching, new, hpath.symm]

theorem begun_upToDate_iff {update : ι → Configs → Result Unit}
    {library : Library} {early : List (Option ι)} {path : String}
    (hpath : path ≠ "") {file : ConfigFile} :
    (begun update library early path file).UpToDate update ↔
      DeliversFirst update library
        { new with subscribers := early, configPath := path } file := by
  rw [begun_eq update library early hpath, DeliversFirst]
  cases hchanged : changed library
      { new with subscribers := early, configPath := path } file with
  | none =>
      rw [loadConfig, hchanged]
      refine forall_congr' fun subscriber => forall_congr' fun _ => ?_
      simp [new]
  | some config => exact upToDate_loadConfig_iff hchanged

/-- After every event all subscribers are up to date exactly when the first load
and each later one deliver. -/
theorem upToDate_throughout_iff (update : ι → Configs → Result Unit)
    (library : Library) (early : List (Option ι)) {path : String}
    (hpath : path ≠ "") (file : ConfigFile) (events : List (Event ι)) :
    Throughout (step update library) (UpToDate update)
        (begun update library early path file) events ↔
      DeliversFirst update library
          { new with subscribers := early, configPath := path } file ∧
        StepsMeet (step update library) (Delivers update library)
          (begun update library early path file) events := by
  rw [← begun_upToDate_iff hpath]
  have hwatching : (begun update library early path file).configPath ≠ "" := by
    rw [begun_eq update library early hpath]
    exact (configPath_step (.loadConfig file)).trans_ne hpath
  generalize begun update library early path file = watcher at hwatching ⊢
  by_cases hupToDate : watcher.UpToDate update
  · have hrule := @throughout_iff_stepsMeet (ConfigWatcher ι) (Event ι)
      (step update library) (Delivers update library)
      (fun watcher => watcher.UpToDate update ∧ watcher.configPath ≠ "")
      (UpToDate update) (fun _ hboth => hboth.1)
      (fun _ event hboth hdelivers =>
        ⟨(hboth.1.step_iff hboth.2 event).mpr hdelivers,
          (configPath_step event).trans_ne hboth.2⟩)
      (fun _ event hboth hnot hafter =>
        hnot ((hboth.1.step_iff hboth.2 event).mp hafter))
      watcher events ⟨hupToDate, hwatching⟩
    rw [hrule]
    exact (and_iff_right hupToDate).symm
  · refine iff_of_false (fun hall => hupToDate ?_) fun hboth => hupToDate hboth.1
    cases events with
    | nil => exact hall
    | cons _ _ => exact hall.1

def firstThrows (throws : Bool) (subscriber : Bool) (_ : Configs) :
    Result Unit :=
  if throws && subscriber then .error ⟨"Failed to start eBPF service"⟩
  else .ok ()

def enabledFile : ConfigFile :=
  .document (Configs.encode .plain { Configs.default with
    prometheusEnabled := true })

theorem upToDate_throughout_iff_two :
    Throughout (step (firstThrows false) .plain)
        (UpToDate (firstThrows false))
        (begun (firstThrows false) .plain [some true, some false] "hebpf.yaml"
          enabledFile) [.loadConfig enabledFile] ↔
      DeliversFirst (firstThrows false) .plain
          { new with
            subscribers := [some true, some false], configPath := "hebpf.yaml" }
          enabledFile ∧
        StepsMeet (step (firstThrows false) .plain)
          (Delivers (firstThrows false) .plain)
          (begun (firstThrows false) .plain [some true, some false] "hebpf.yaml"
            enabledFile) [.loadConfig enabledFile] :=
  upToDate_throughout_iff (firstThrows false) .plain [some true, some false]
    (by decide) enabledFile [.loadConfig enabledFile]

theorem changed_enabledFile {watcher : ConfigWatcher Bool}
    (hdefault : watcher.lastConfig = .default) :
    watcher.changed .plain enabledFile =
      some { Configs.default with prometheusEnabled := true } := by
  have hload : Configs.loadFromConfig .plain enabledFile =
      .ok { Configs.default with prometheusEnabled := true } := by
    refine (Configs.asConfigs_encode Library.plain_roundTrips _).trans ?_
    rw [if_neg Configs.default_ebpfs_ne_empty]
  rw [changed, hload, hdefault]
  exact if_neg (by decide)

/-- The second is not given the configuration. -/
theorem not_upToDate_firstThrows :
    ¬ Throughout (step (firstThrows true) .plain)
        (UpToDate (firstThrows true))
        (begun (firstThrows true) .plain [some true, some false] "hebpf.yaml"
          enabledFile) [.loadConfig enabledFile] := by
  intro hupToDate
  have hfirst := (begun_upToDate_iff (by decide)).mp hupToDate.1
  rw [DeliversFirst, changed_enabledFile rfl] at hfirst
  have hgiven := hfirst false (by decide) (by decide) rfl
  cases hgiven

end ConfigWatcher

end Hebpf.Daemon
