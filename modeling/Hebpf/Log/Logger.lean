import Hebpf.Data.LastWins
import Hebpf.Data.Run
import Mathlib.Tactic.Common

namespace Hebpf.Log

open Hebpf.Data

/-! The loggers of the modules, each made from the settings that its first
message meets. -/

inductive Id where
  | cmdline
  | daemon
  | debugServer
  | ebpf
  | fd
  | hebpf
  | inotify
  | io
  | monitor
  | prometheus
  | signal
  deriving DecidableEq, Repr

def Id.enumName : Id → String
  | cmdline => "cmdline"
  | daemon => "daemon"
  | debugServer => "debug_server"
  | ebpf => "ebpf"
  | fd => "fd"
  | hebpf => "hebpf"
  | inotify => "inotify"
  | io => "io"
  | monitor => "monitor"
  | prometheus => "prometheus"
  | signal => "signal"

inductive Level where
  | trace
  | debug
  | info
  | warn
  | error
  | critical
  | off
  deriving DecidableEq, Repr

def Level.number : Level → UInt8
  | trace => 0
  | debug => 1
  | info => 2
  | warn => 3
  | error => 4
  | critical => 5
  | off => 6

def HEBPF_PROJECT : String := "hebpf"
def LOGLEVEL_DEFAULT : Level := .info
def LOGFILE_DEFAULT : String := "/var/run/log/hebpf.log"

structure LoggerType where
  level : Level
  file : String
  stdout : Bool
  deriving DecidableEq, Repr

structure Line where
  name : String
  level : Level
  file : String
  stdout : Bool
  deriving DecidableEq, Repr

/-- The globals of the module, and what has been written. -/
structure Logs where
  map : Table String LoggerType
  level : Level
  logfile : String
  stdout : Bool
  lines : List Line

/-- `LOG` of a module, or `GLOBAL_LOG`.  `opens` says whether the file of a new
logger can be opened. -/
structure Message where
  source : Option Id
  level : Level
  opens : Bool
  deriving DecidableEq, Repr

def Message.name (message : Message) : String :=
  match message.source with
  | some id => id.enumName
  | none => HEBPF_PROJECT

namespace Logs

def start : Logs := ⟨∅, LOGLEVEL_DEFAULT, LOGFILE_DEFAULT, false, []⟩

/-- `none`: the file of a new logger cannot be opened, and `spdlog` throws. -/
def getLogger (opens : Bool) (logs : Logs) (name : String) :
    Option (LoggerType × Logs) :=
  match logs.map.lookup name with
  | some logger => some (logger, logs)
  | none =>
      let logger : LoggerType := ⟨logs.level, logs.logfile, logs.stdout⟩
      if opens then
        some (logger, { logs with map := logs.map.insert name logger })
      else none

def log (logs : Logs) (message : Message) : Option Logs :=
  if message.level.number < logs.level.number then some logs
  else
    match logs.getLogger message.opens message.name with
    | none => none
    | some (logger, logs) =>
        if message.level.number < logger.level.number then some logs
        else some { logs with lines := logs.lines ++
          [⟨message.name, message.level, logger.file, logger.stdout⟩] }

def step (logs : Logs) (message : Message) : Logs :=
  (logs.log message).getD logs

def setLevel (logs : Logs) (level : Level) : Logs := { logs with level }

def setStdout (logs : Logs) (set : Bool) : Logs := { logs with stdout := set }

def logPath (file : String) (isDirectory : Bool) : String :=
  let path := if file = "" then LOGFILE_DEFAULT else file
  if isDirectory then
    (if path.endsWith "/" then path else path ++ "/") ++ HEBPF_PROJECT ++
      ".log"
  else path

def setLogFile (logs : Logs) (file : String) (opens isDirectory : Bool) :
    Option Logs := do
  let logs ←
    if file ≠ "" then logs.log ⟨none, .info, opens⟩ else some logs
  some { logs with logfile := logPath file isDirectory }

/-- What `main` sets from the command line, which always has a file. -/
def launch (logs : Logs) (file : String) (level : Level)
    (opens isDirectory : Bool) : Option Logs := do
  let logs ← (logs.setStdout true).setLogFile file opens isDirectory
  some (logs.setLevel level)

def written (level : Level) (loggers : String → LoggerType)
    (message : Message) : Option Line :=
  let logger := loggers message.name
  if message.level.number < level.number ∨
      message.level.number < logger.level.number then none
  else some ⟨message.name, message.level, logger.file, logger.stdout⟩

/-- A name without a logger is to get one from the settings. -/
structure Settled (logs : Logs) (settings : LoggerType)
    (loggers : String → LoggerType) : Prop where
  current : (⟨logs.level, logs.logfile, logs.stdout⟩ : LoggerType) = settings
  made : ∀ name logger, logs.map.lookup name = some logger →
    logger = loggers name
  left : ∀ name, logs.map.lookup name = none → loggers name = settings

variable {logs : Logs} {settings : LoggerType} {loggers : String → LoggerType}

theorem start_settled : start.Settled
    ⟨LOGLEVEL_DEFAULT, LOGFILE_DEFAULT, false⟩
    fun _ => ⟨LOGLEVEL_DEFAULT, LOGFILE_DEFAULT, false⟩ where
  current := rfl
  made _ _ hlookup := by cases hlookup
  left _ _ := rfl

theorem Settled.level (hsettled : logs.Settled settings loggers) :
    logs.level = settings.level :=
  congrArg LoggerType.level hsettled.current

theorem Settled.getLogger (hsettled : logs.Settled settings loggers)
    {opens : Bool} {name : String} {logger : LoggerType} {after : Logs}
    (hget : logs.getLogger opens name = some (logger, after)) :
    logger = loggers name ∧ after.Settled settings loggers ∧
      after.lines = logs.lines := by
  unfold Logs.getLogger at hget
  cases hlookup : logs.map.lookup name with
  | some found =>
      rw [hlookup] at hget
      cases hget
      exact ⟨hsettled.made name logger hlookup, hsettled, rfl⟩
  | none =>
      simp only [hlookup] at hget
      split_ifs at hget
      have hnew := hsettled.current.trans (hsettled.left name hlookup).symm
      cases hget
      rw [hnew]
      refine ⟨rfl, ⟨hsettled.current, ?_, ?_⟩, rfl⟩
      · intro other logger hother
        by_cases hname : other = name
        · subst hname
          rw [AList.lookup_insert] at hother
          exact (Option.some.inj hother).symm
        · rw [AList.lookup_insert_ne hname] at hother
          exact hsettled.made other logger hother
      · intro other hother
        by_cases hname : other = name
        · subst hname
          rw [AList.lookup_insert] at hother
          cases hother
        · rw [AList.lookup_insert_ne hname] at hother
          exact hsettled.left other hother

theorem Settled.log (hsettled : logs.Settled settings loggers)
    {message : Message} {after : Logs} (hlog : logs.log message = some after) :
    after.Settled settings loggers ∧ after.lines =
      logs.lines ++ (written settings.level loggers message).toList := by
  unfold Logs.log at hlog
  unfold written
  rw [hsettled.level] at hlog
  by_cases hglobal : message.level.number < settings.level.number
  · rw [if_pos hglobal] at hlog
    cases hlog
    rw [if_pos (.inl hglobal)]
    exact ⟨hsettled, (List.append_nil _).symm⟩
  · rw [if_neg hglobal] at hlog
    cases hget : logs.getLogger message.opens message.name with
    | none =>
        rw [hget] at hlog
        cases hlog
    | some found =>
        obtain ⟨logger, made⟩ := found
        obtain ⟨rfl, hmade, hlines⟩ := hsettled.getLogger hget
        simp only [hget] at hlog
        split_ifs at hlog with hown
        · cases hlog
          rw [if_pos (.inr hown), hlines]
          exact ⟨hmade, (List.append_nil _).symm⟩
        · cases hlog
          rw [if_neg (not_or.mpr ⟨hglobal, hown⟩), hlines]
          exact ⟨⟨hmade.current, hmade.made, hmade.left⟩, rfl⟩

theorem Settled.lookup_log (hsettled : logs.Settled settings loggers)
    {message : Message} {after : Logs} (hlog : logs.log message = some after)
    (hpasses : ¬ message.level.number < settings.level.number)
    (name : String) :
    after.map.lookup name =
      if name = message.name then some (loggers name)
      else logs.map.lookup name := by
  unfold Logs.log Logs.getLogger at hlog
  rw [hsettled.level, if_neg hpasses] at hlog
  cases hlookup : logs.map.lookup message.name with
  | some logger =>
      have hsame : after.map = logs.map := by
        simp only [hlookup] at hlog
        split_ifs at hlog <;> cases hlog <;> rfl
      rw [hsame]
      split_ifs with hname
      · rw [hname, hlookup, hsettled.made message.name logger hlookup]
      · rfl
  | none =>
      have hnew := hsettled.current.trans
        (hsettled.left message.name hlookup).symm
      have hsame : after.map =
          logs.map.insert message.name (loggers message.name) := by
        rw [← hnew, hsettled.level]
        simp only [hlookup] at hlog
        split_ifs at hlog
        all_goals
          simp only at hlog
          split_ifs at hlog
          cases hlog
          rfl
      rw [hsame]
      split_ifs with hname
      · rw [hname, AList.lookup_insert]
      · rw [AList.lookup_insert_ne hname]

theorem exists_getLogger (logs : Logs) (name : String) :
    ∃ found, logs.getLogger true name = some found := by
  unfold Logs.getLogger
  cases logs.map.lookup name with
  | some logger => exact ⟨_, rfl⟩
  | none => exact ⟨_, rfl⟩

theorem exists_log (logs : Logs) {message : Message}
    (hopens : message.opens = true) :
    ∃ after, logs.log message = some after := by
  obtain ⟨found, hfound⟩ := logs.exists_getLogger message.name
  obtain ⟨logger, made⟩ := found
  unfold Logs.log
  rw [hopens, hfound]
  simp only
  split_ifs
  · exact ⟨_, rfl⟩
  · exact ⟨_, rfl⟩
  · exact ⟨_, rfl⟩

theorem Settled.step (hsettled : logs.Settled settings loggers)
    (message : Message) : (logs.step message).Settled settings loggers := by
  unfold Logs.step
  cases hlog : logs.log message with
  | none => exact hsettled
  | some after => exact (hsettled.log hlog).1

theorem Settled.lines_run (hsettled : logs.Settled settings loggers)
    (messages : List Message)
    (hopens : ∀ message ∈ messages, message.opens = true) :
    (run Logs.step logs messages).lines =
      logs.lines ++ messages.filterMap (written settings.level loggers) := by
  induction messages generalizing logs with
  | nil => exact (List.append_nil _).symm
  | cons message rest ih =>
      obtain ⟨hfirst, hrest⟩ := List.forall_mem_cons.mp hopens
      obtain ⟨after, hlog⟩ := logs.exists_log hfirst
      obtain ⟨hafter, hlines⟩ := hsettled.log hlog
      have hstep : logs.step message = after := by
        rw [Logs.step, hlog, Option.getD_some]
      rw [run_cons, hstep, ih hafter hrest, hlines, List.append_assoc]
      congr 1
      cases hwritten : written settings.level loggers message with
      | none => rw [List.filterMap_cons_none hwritten]; rfl
      | some line => rw [List.filterMap_cons_some hwritten]; rfl

/-- The logger of each name, after `main` has set `settings`.  The global one is
made by `setLogFile` itself, from what was set before. -/
def launchedLogger (early : Logs) (settings : LoggerType) (name : String) :
    LoggerType :=
  if (early.map.lookup name).isSome then
    ⟨LOGLEVEL_DEFAULT, LOGFILE_DEFAULT, false⟩
  else if name = HEBPF_PROJECT then ⟨LOGLEVEL_DEFAULT, LOGFILE_DEFAULT, true⟩
  else settings

section Launch

variable {early launched : Logs} {name : String}
  (hearly : early.Settled ⟨LOGLEVEL_DEFAULT, LOGFILE_DEFAULT, false⟩
    fun _ => ⟨LOGLEVEL_DEFAULT, LOGFILE_DEFAULT, false⟩)
include hearly

theorem Settled.launchedLogger_of_made {logger : LoggerType}
    (hmade : early.map.lookup name = some logger) :
    logger = launchedLogger early settings name := by
  unfold launchedLogger
  rw [hmade, hearly.made name logger hmade]
  rfl

theorem Settled.setStdout : (early.setStdout true).Settled
    ⟨LOGLEVEL_DEFAULT, LOGFILE_DEFAULT, true⟩
    (launchedLogger early ⟨LOGLEVEL_DEFAULT, LOGFILE_DEFAULT, true⟩) where
  current := by
    have hcurrent := hearly.current
    simp only [LoggerType.mk.injEq] at hcurrent ⊢
    exact ⟨hcurrent.1, hcurrent.2.1, rfl⟩
  made _ _ hmade := hearly.launchedLogger_of_made hmade
  left name hleft := by
    change early.map.lookup name = none at hleft
    unfold launchedLogger
    rw [hleft]
    split_ifs with hmade
    · cases hmade
    · rfl
    · rfl

theorem Settled.launch {file : String} {level : Level}
    {opens isDirectory : Bool} (hfile : file ≠ "")
    (hlaunch : early.launch file level opens isDirectory = some launched) :
    launched.Settled ⟨level, logPath file isDirectory, true⟩
      (launchedLogger early ⟨level, logPath file isDirectory, true⟩) := by
  unfold Logs.launch setLogFile at hlaunch
  rw [if_pos hfile] at hlaunch
  obtain ⟨configured, hconfigured, hlevel⟩ := Option.bind_eq_some_iff.mp hlaunch
  obtain ⟨logged, hlog, hpath⟩ := Option.bind_eq_some_iff.mp hconfigured
  cases hlevel
  cases hpath
  -- What `setLogFile` logs first meets the file that was set before.
  have hset := hearly.setStdout
  have hpasses : ¬ Level.info.number < LOGLEVEL_DEFAULT.number := by decide
  have hlookup := hset.lookup_log hlog hpasses
  have hstdout : logged.stdout = true :=
    congrArg LoggerType.stdout (hset.log hlog).1.current
  refine ⟨by rw [← hstdout]; rfl, ?_, ?_⟩
  · intro name logger hmade
    change logged.map.lookup name = some logger at hmade
    rw [hlookup] at hmade
    split_ifs at hmade with hglobal
    · have hname : name = HEBPF_PROJECT := hglobal
      rw [← Option.some.inj hmade]
      simp only [launchedLogger, hname, if_true]
    · exact hearly.launchedLogger_of_made hmade
  · intro name hleft
    change logged.map.lookup name = none at hleft
    rw [hlookup] at hleft
    split_ifs at hleft with hglobal
    have hname : name ≠ HEBPF_PROJECT := hglobal
    change early.map.lookup name = none at hleft
    unfold launchedLogger
    rw [hleft, if_neg hname]
    rfl

end Launch

/-- Whatever is logged before the command line is read: the global messages,
and those of the modules that came before, go to the default file for ever,
and not below the default level; all others go where they were told. -/
theorem launched_lines (before later : List Message) {file : String}
    {level : Level} {opens isDirectory : Bool} {launched : Logs}
    (hfile : file ≠ "")
    (hlaunch : (run step start before).launch file level opens isDirectory =
      some launched)
    (hopens : ∀ message ∈ later, message.opens = true) :
    (run step launched later).lines = launched.lines ++
      later.filterMap (written level (launchedLogger (run step start before)
        ⟨level, logPath file isDirectory, true⟩)) := by
  have hearly := @invariant_run _ _ step (fun logs => logs.Settled _ _)
    (fun _ message hsettled => hsettled.step message) start start_settled
    before
  exact (hearly.launch hfile hlaunch).lines_run later hopens

def warned : Logs :=
  run step start [⟨some .daemon, .warn, true⟩]

def warnedLaunched : Logs :=
  (warned.launch "/tmp/hebpf.log" .debug true false).getD start

/-- The global messages never get to the file, nor the daemon's, and no debug
message of theirs gets anywhere. -/
theorem launched_lines_debug :
    (run step warnedLaunched
      [⟨none, .debug, true⟩, ⟨none, .warn, true⟩, ⟨some .daemon, .error, true⟩,
        ⟨some .io, .debug, true⟩]).lines =
      [⟨"daemon", .warn, LOGFILE_DEFAULT, false⟩,
        ⟨"hebpf", .info, LOGFILE_DEFAULT, true⟩,
        ⟨"hebpf", .warn, LOGFILE_DEFAULT, true⟩,
        ⟨"daemon", .error, LOGFILE_DEFAULT, false⟩,
        ⟨"io", .debug, "/tmp/hebpf.log", true⟩] :=
  (@launched_lines [⟨some .daemon, .warn, true⟩] _ "/tmp/hebpf.log" .debug true
    false warnedLaunched (by decide) rfl (by decide)).trans (by decide)

end Logs

end Hebpf.Log
