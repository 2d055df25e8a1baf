import Hebpf.Data.OrderedMap
import Hebpf.Data.LastWins
import Hebpf.Data.Run
import Hebpf.Data.Allot
import Hebpf.Kernel.BpfMap
import Hebpf.Kernel.Descriptors
import Hebpf.Common.Network
import Hebpf.Common.Libc
import Hebpf.Common.Json
import Hebpf.Common.Yaml
import Hebpf.Services.Acl.Rules
import Hebpf.Services.Acl.Kernel
import Hebpf.Services.Acl.Base
import Hebpf.Services.Acl.Updates
import Hebpf.Services.Acl.Verdict
import Hebpf.Services.Acl.Wildcard
import Hebpf.Services.Lb.Rules
import Hebpf.Services.Lb.Kernel
import Hebpf.Services.Lb.Base
import Hebpf.Services.Lb.Placement
import Hebpf.Services.Lb.Forward
import Hebpf.Services.Lb.Safety
import Hebpf.Services.Lb.Valid
import Hebpf.Ebpf.Chain
import Hebpf.Services.ChainVerdict
import Hebpf.Ebpf.ChainWalk
import Hebpf.Ebpf.HandOver
import Hebpf.Services.Acl.Agreement
import Hebpf.Services.ChainHandOver
import Hebpf.Daemon.Configs
import Hebpf.Daemon.ConfigsYaml
import Hebpf.Ebpf.PinnedProgMap
import Hebpf.Ebpf.CanonicalNames
import Hebpf.Ebpf.NetHook
import Hebpf.Services.Descriptors
import Hebpf.Services.Klog
import Hebpf.Inotify.Manager
import Hebpf.Inotify.Watches
import Hebpf.Inotify.Dispatch
import Hebpf.Data.Reconcile
import Hebpf.Data.Mirror
import Hebpf.Data.Lifetime
import Hebpf.Data.Locks
import Hebpf.Data.Buffer
import Hebpf.Inotify.Holders
import Hebpf.Daemon.Loader
import Hebpf.Daemon.ConfigReload
import Hebpf.Daemon.AtomicLoads
import Hebpf.Daemon.Update
import Hebpf.Daemon.LoadLoop
import Hebpf.Daemon.LoadedServices
import Hebpf.Daemon.FailedLoads
import Hebpf.Daemon.IssuedCalls
import Hebpf.Daemon.RepeatedUpdates
import Hebpf.Daemon.ServiceConfigs
import Hebpf.Ebpf.ChainIndex
import Hebpf.Daemon.ChainOrder
import Hebpf.Daemon.ChainTables
import Hebpf.Daemon.ChainLoop
import Hebpf.Daemon.ExecutedChain
import Hebpf.Ebpf.ChainAsserts
import Hebpf.Ebpf.Regions
import Hebpf.Ebpf.ChainRewrite
import Hebpf.Ebpf.RegionBounds
import Hebpf.Ebpf.RegionCalls
import Hebpf.Daemon.Asserts
import Hebpf.Daemon.ServiceLifetimes
import Hebpf.Daemon.RegionOwnership
import Hebpf.Daemon.ConfigWatcher
import Hebpf.Daemon.Producer
import Hebpf.Daemon.StopProducer
import Hebpf.Daemon.ServiceUses
import Hebpf.DebugServer.Listen
import Hebpf.Monitor.Subscriber
import Hebpf.Monitor.StopJoin
import Hebpf.Monitor.Counters
import Hebpf.Monitor.Series
import Hebpf.Io.Worker
import Hebpf.Data.Bytes
import Hebpf.Data.Calls
import Hebpf.Services.Ports
import Hebpf.Inotify.Events
import Hebpf.Fd.Ownership
import Hebpf.Ebpf.PinnedFiles
import Hebpf.Ebpf.PinLives
import Hebpf.Ebpf.DebugStatus
import Hebpf.Ebpf.TcHook
import Hebpf.DebugServer.Subscribers
import Hebpf.Queue.Sections
import Hebpf.Queue.Laws
import Hebpf.Queue.Waiting
import Hebpf.Monitor.Consumer
import Hebpf.Ebpf.ChainDrops
import Hebpf.Daemon.Delivery
import Hebpf.Data.Simulation
import Hebpf.Queue.Refinement
import Hebpf.Data.Tally
import Hebpf.Queue.Wakeups
import Hebpf.Common.Encode
import Hebpf.Services.Lb.Updates
import Hebpf.Monitor.Exports
import Hebpf.Data.Store
import Hebpf.Services.KlogRing
import Hebpf.Services.Lb.Spread
import Hebpf.Data.LockOrder
import Hebpf.Daemon.Mutexes
import Hebpf.Services.Acl.Equivalence
import Hebpf.Inotify.Lifecycle
import Hebpf.Ebpf.XdpHook
import Hebpf.Log.Logger
