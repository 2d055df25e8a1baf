import Hebpf.Data.LockOrder

namespace Hebpf.Mutexes

open Hebpf.Data

/-! Which mutexes each function takes while it holds which, function by
function, and that the threads cannot all wait for one another there.  What the
functions compute is left open, and so are returns: a part that a return may
skip is optional.  A `join` is there where it is made inside a critical section;
what a thread waits for without a mutex is left out. -/

inductive Mutex where
  | subscribers
  | config
  | daemon
  | daemonQueue
  | loader
  | mountInit
  | inotify
  | chain
  | registry
  | queue
  | monitorSubscriber
  | monitorFactory
  | monitor
  | usermode
  | logger
  deriving DecidableEq, Repr

abbrev Code := Locking Mutex

def sequence : List Code → Code
  | [] => .done
  | code :: rest => .seq code (sequence rest)

def optional (code : Code) : Code := .either code .done

def locked (lock : Mutex) : Code := .guarded lock .done

/-- `Thread::join`, inside a scope -/
def join : Code := .wait

def getLevel : Code := locked .logger

def getLogger : Code := locked .logger

def LOG : Code := .seq getLevel (optional getLogger)

def setLogFile : Code := .seq (optional LOG) (locked .logger)

def setLevel : Code := .seq LOG (locked .logger)

def threadStart (func : Code) : Code := .attempt func LOG

/-! `Queue`.  `wait` gives its mutex back and takes it again. -/

namespace Queue

def push : Code := .seq (locked .queue) (.loop (locked .queue))

def tryPop : Code := locked .queue

def pop : Code :=
  sequence [locked .queue, .loop (locked .queue), tryPop]

def empty : Code := locked .queue

def full : Code := locked .queue

end Queue

namespace InotifyManager

def addWatch : Code := LOG

def removeWatch : Code := LOG

def findWatchInfo : Code := locked .inotify

def watchConfig : Code :=
  .seq findWatchInfo
    (.either LOG (.guarded .inotify (optional addWatch)))

def goodbyeConfig : Code :=
  .seq findWatchInfo
    (.either LOG (.guarded .inotify (optional (.seq removeWatch LOG))))

def destroyManager : Code := .guarded .inotify (.loop removeWatch)

/-- The callback is called after both scopes. -/
def onInotifyEvent (onChange : Code) : Code :=
  sequence [findWatchInfo, locked .inotify, optional onChange]

def processInotify (onChange : Code) : Code :=
  .loop (onInotifyEvent onChange)

end InotifyManager

/-- `call_once` keeps others waiting, as a mutex does. -/
def ensureBpffsMounted : Code := optional (.guarded .mountInit LOG)

namespace RingBufferMap

def init : Code := .seq ensureBpffsMounted (optional LOG)

def getRingbuffer : Code := optional init

def cleanup : Code := optional LOG

end RingBufferMap

namespace PinnedProgMap

def ensureMaps : Code :=
  .seq (locked .chain) (.either LOG (.seq (locked .chain) LOG))

def init : Code :=
  sequence [ensureBpffsMounted, optional LOG, optional ensureMaps,
    optional ensureMaps, .guarded .chain (locked .registry)]

def cleanup : Code := locked .chain

def getDebugStatus : Code := locked .chain

def allocateRegion : Code := .guarded .chain (optional LOG)

def getStartIndex : Code := locked .chain

def lookupProgInfo : Code := .guarded .chain (locked .registry)

def getCanonicalName : Code := optional LOG

def updateChain : Code :=
  .either LOG (sequence [.guarded .chain (optional LOG),
    .loop (sequence [getStartIndex, optional getCanonicalName,
      .loop (.seq lookupProgInfo (optional LOG))]),
    optional LOG])

def insertProg : Code :=
  .either LOG (sequence [.guarded .chain (optional LOG),
    optional lookupProgInfo, optional LOG])

end PinnedProgMap

namespace EbpfIf

def start : Code := .loop LOG

def stop : Code := .loop LOG

def onConfigUpdate : Code := .loop LOG

def getDebugStatus : Code := .done

def getPrometheusStatus : Code := .done

end EbpfIf

def onEvent : Code := .either LOG (locked .usermode)

def logEvent : Code := .either LOG (.seq getLevel (optional LOG))

namespace Loader

def getService : Code := locked .loader

def getAllService : Code := locked .loader

def unregisterServiceConfig : Code :=
  optional (sequence [locked .loader, InotifyManager.goodbyeConfig,
    locked .loader, LOG])

def loadServiceConfigs : Code :=
  .seq getService (.either unregisterServiceConfig
    (sequence [optional LOG, EbpfIf.onConfigUpdate, LOG]))

def registerServiceConfig : Code :=
  optional (sequence [locked .loader, InotifyManager.watchConfig,
    loadServiceConfigs, locked .loader, LOG])

/-- The callback that `registerServiceConfig` leaves with inotify. -/
def onChange : Code := .seq LOG loadServiceConfigs

def loadService : Code :=
  sequence [locked .loader, EbpfIf.start, .guarded .loader (optional LOG),
    optional (sequence [.either EbpfIf.onConfigUpdate registerServiceConfig,
      LOG, .guarded .loader (optional LOG),
      optional (.seq getService
        (optional (.seq (optional PinnedProgMap.insertProg) LOG)))])]

def unloadServices : Code :=
  .seq (.guarded .loader (optional LOG))
    (optional (sequence [unregisterServiceConfig,
      .guarded .loader (.seq EbpfIf.stop (optional LOG)), optional LOG]))

def allocateChain : Code :=
  .seq (.guarded .loader (optional LOG))
    (optional PinnedProgMap.allocateRegion)

def updateProgChain : Code :=
  .seq (.guarded .loader (optional LOG)) (optional PinnedProgMap.updateChain)

def getDebugStatus : Code :=
  .guarded .loader (.seq (.loop EbpfIf.getDebugStatus)
    (optional PinnedProgMap.getDebugStatus))

end Loader

namespace Daemon

def loadEbpf : Code :=
  .guarded .daemon (.seq Loader.loadService (optional LOG))

def unloadEbpf : Code :=
  .guarded .daemon (.seq Loader.unloadServices (optional LOG))

def rebuildChains : Code :=
  .seq (.loop PinnedProgMap.getCanonicalName)
    (.loop (.seq (.loop Loader.allocateChain) Loader.updateProgChain))

def loadOrUpdate : Code :=
  .either loadEbpf (.either (.seq unloadEbpf loadEbpf)
    (.seq Loader.unregisterServiceConfig Loader.registerServiceConfig))

def update : Code :=
  sequence [locked .daemon, optional rebuildChains, .loop unloadEbpf,
    .loop (optional loadOrUpdate), locked .daemon]

def updateJson : Code :=
  .guarded .daemonQueue (.seq (optional (.seq Queue.empty Queue.full))
    (optional Loader.getDebugStatus))

def run : Code := optional (locked .daemonQueue)

def stop : Code :=
  optional (sequence [optional (.seq Loader.getAllService (.loop unloadEbpf)),
    LOG, .guarded .daemonQueue (optional join)])

def produceLoop : Code :=
  .attempt (.loop (.seq (locked .daemon) (.loop (sequence [Loader.getService,
    EbpfIf.getPrometheusStatus, optional (.seq (locked .daemonQueue)
      (optional (.seq Queue.full (optional Queue.push))))])))) LOG

end Daemon

namespace MonitorSubscriber

def create : Code := locked .monitorFactory

def incrementCounter : Code := locked .monitor

def run : Code := optional (.seq (.guarded .monitorSubscriber create) LOG)

/-- Destroying the exposer of the monitor ends its threads too. -/
def stop : Code :=
  optional (.seq
    (.guarded .monitorSubscriber (.seq (optional join) (optional join))) LOG)

def update : Code := .seq (optional stop) (optional run)

def consumeLoop : Code :=
  .attempt (.loop (.seq Queue.pop
    (.loop (.seq (locked .monitorSubscriber) (optional incrementCounter)))))
    LOG

end MonitorSubscriber

namespace DebugServer

def start : Code := LOG

def stop : Code := optional LOG

def update : Code := .seq (optional stop) (optional start)

def notify : Code := .loop Daemon.updateJson

def onAccept : Code := optional LOG

def onRead : Code := .either LOG (optional notify)

def onWrite : Code := optional LOG

end DebugServer

namespace ConfigWatcher

def subscriberUpdate : Code :=
  .either Daemon.update
    (.either MonitorSubscriber.update DebugServer.update)

def attach : Code :=
  .guarded .subscribers
    (optional (.seq (locked .config) (optional subscriberUpdate)))

def notify : Code :=
  sequence [locked .subscribers, locked .config, .loop subscriberUpdate]

def loadConfig : Code :=
  .attempt (sequence [optional LOG, locked .config, optional notify]) LOG

/-- The callback that `startWatching` leaves with inotify. -/
def onChange : Code := optional (.seq LOG loadConfig)

def startWatching : Code :=
  optional (sequence [InotifyManager.watchConfig, LOG, loadConfig])

def clear : Code :=
  .attempt (.seq (locked .config) (optional InotifyManager.goodbyeConfig)) LOG

end ConfigWatcher

/-- What `main` runs up to its end, and the destructors behind it. -/
def main : Code :=
  .seq
    (.attempt (sequence [optional LOG, setLogFile, setLevel, LOG, getLevel,
      LOG, PinnedProgMap.init, ConfigWatcher.attach, ConfigWatcher.attach,
      optional MonitorSubscriber.run, ConfigWatcher.attach,
      optional DebugServer.start, RingBufferMap.getRingbuffer,
      ConfigWatcher.startWatching, Daemon.run, DebugServer.stop,
      InotifyManager.destroyManager, Daemon.stop, MonitorSubscriber.stop,
      RingBufferMap.cleanup, LOG]) .done)
    (.seq ConfigWatcher.clear PinnedProgMap.cleanup)

def callback : Code :=
  .either
    (InotifyManager.processInotify
      (.either ConfigWatcher.onChange Loader.onChange))
    (.either (.either (.loop onEvent) (.loop logEvent))
      (.either DebugServer.onAccept
        (.either DebugServer.onRead DebugServer.onWrite)))

inductive ThreadKind where
  | main
  | ioContext
  | producer
  | consumer
  deriving DecidableEq, Repr

def ThreadKind.code : ThreadKind → Code
  | main => Mutexes.main
  | ioContext => threadStart (.attempt (.loop callback) LOG)
  | producer => threadStart Daemon.produceLoop
  | consumer => threadStart MonitorSubscriber.consumeLoop

def Mutex.rank : Mutex → Nat
  | subscribers => 0
  | config => 1
  | daemon => 2
  | daemonQueue => 3
  | loader => 4
  | monitorSubscriber => 5
  | mountInit => 6
  | inotify => 6
  | chain => 6
  | queue => 6
  | monitorFactory => 6
  | monitor => 6
  | usermode => 6
  | registry => 7
  | logger => 8

theorem Mutex.rank_le (lock : Mutex) : lock.rank ≤ 8 := by
  cases lock <;> decide

theorem ThreadKind.ordered (kind : ThreadKind) :
    kind.code.Above Mutex.rank 0 := by
  cases kind with
  | main => decide
  | ioContext => decide
  | producer => decide
  | consumer => decide

def oneInPop : List (Bool × Choice) :=
  [(false, .first), (false, .first), (false, .second), (false, .first),
    (false, .first), (false, .first), (true, .first), (true, .first),
    (true, .second), (true, .first), (true, .first)]

end Hebpf.Mutexes
