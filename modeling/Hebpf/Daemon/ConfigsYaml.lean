import Hebpf.Common.Yaml
import Hebpf.Daemon.Configs

namespace Hebpf.Daemon

open Hebpf.Common Hebpf.Common.Yaml Hebpf.Data

def CONFIGS_PROMETHEUS : String := "prometheus"
def CONFIGS_ENABLED : String := "enabled"
def CONFIGS_PROM_LISTEN : String := "listen"
def CONFIGS_DEBUG_SERVER : String := "debug_server"
def CONFIGS_DBGSERV_ADDR : String := "address"
def CONFIGS_DBGSERV_PORT : String := "port"
def CONFIGS_EBPFSO : String := "ebpf"
def CONFIGS_EBPF_LIB : String := "lib"
def CONFIGS_EBPF_CONFIG : String := "config"
def CONFIGS_EBPF_HOOK : String := "hook"
def CONFIGS_EBPF_IFINDEX : String := "ifindex"
def CONFIGS_EBPF_ORDER : String := "order"

def DEFAULT_PROM_LISTEN : String := "0.0.0.0:8080"
def DEFAULT_DBGSERV_ADDR : String := "127.0.0.1"
def DEFAULT_DBGSERV_PORT : UInt16 := 9999

def HookType.values : List HookType :=
  [.tc, .xdpGeneric, .xdpNative, .xdpOffload, .kprobe, .unknown]

def HookType.stringEnum (name : String) : Option HookType :=
  values.find? fun hook => hook.enumName = name

@[simp] theorem HookType.stringEnum_enumName (hook : HookType) :
    stringEnum hook.enumName = some hook := by
  cases hook <;> rfl

def ConfigEbpf.default : ConfigEbpf :=
  ⟨"/path/to/libhebpf_xx.so", "/path/to/config.json", .unknown, -1, 0⟩

structure Configs where
  prometheusEnabled : Bool
  prometheusListen : String
  dbgservEnabled : Bool
  dbgservAddr : String
  dbgservPort : UInt16
  ebpfs : EbpfMap
  deriving DecidableEq

def Configs.default : Configs where
  prometheusEnabled := false
  prometheusListen := DEFAULT_PROM_LISTEN
  dbgservEnabled := false
  dbgservAddr := DEFAULT_DBGSERV_ADDR
  dbgservPort := DEFAULT_DBGSERV_PORT
  ebpfs := OrderedMap.empty.emplace "example" .default

def ConfigEbpf.encode (library : Library) (conf : ConfigEbpf) : Node :=
  .map [(.scalar CONFIGS_EBPF_LIB, .scalar conf.lib),
    (.scalar CONFIGS_EBPF_CONFIG, .scalar conf.config),
    (.scalar CONFIGS_EBPF_HOOK, .scalar conf.hook.enumName),
    (.scalar CONFIGS_EBPF_IFINDEX, .scalar (library.int.write conf.ifindex)),
    (.scalar CONFIGS_EBPF_ORDER, .scalar (library.int.write conf.order))]

/-- A name that is no hook is reported and read as `UNKNOWN`. -/
def HookType.decode (library : Library) (node : Node) : Result HookType := do
  let name ← node.asString library
  return (stringEnum name).getD .unknown

def ConfigEbpf.decode (library : Library) (node : Node) (conf : ConfigEbpf) :
    Result ConfigEbpf := do
  let lib ← node.fieldOr library CONFIGS_EBPF_LIB conf.lib
    (Node.asString library)
  let config ← node.fieldOr library CONFIGS_EBPF_CONFIG conf.config
    (Node.asString library)
  let hook ← node.fieldOr library CONFIGS_EBPF_HOOK conf.hook
    (HookType.decode library)
  let ifindex ← node.fieldOr library CONFIGS_EBPF_IFINDEX conf.ifindex
    (Node.asScalar library library.int)
  let order ← node.fieldOr library CONFIGS_EBPF_ORDER conf.order
    (Node.asScalar library library.int)
  return ⟨lib, config, hook, ifindex, order⟩

def asConfigEbpf (library : Library) (node : Node) : Result ConfigEbpf :=
  ConfigEbpf.decode library node .default

namespace Configs

def encode (library : Library) (conf : Configs) : Node :=
  let prometheusNode : Node := .map
    [(.scalar CONFIGS_ENABLED,
        .scalar (library.bool.write conf.prometheusEnabled)),
      (.scalar CONFIGS_PROM_LISTEN, .scalar conf.prometheusListen)]
  let debugNode : Node := .map
    [(.scalar CONFIGS_ENABLED, .scalar (library.bool.write conf.dbgservEnabled)),
      (.scalar CONFIGS_DBGSERV_ADDR, .scalar conf.dbgservAddr),
      (.scalar CONFIGS_DBGSERV_PORT,
        .scalar (library.uint16.write conf.dbgservPort))]
  .map ([(.scalar CONFIGS_PROMETHEUS, prometheusNode),
      (.scalar CONFIGS_DEBUG_SERVER, debugNode)] ++
    if conf.ebpfs = .empty then []
    else [(.scalar CONFIGS_EBPFSO,
      .ofMap (ConfigEbpf.encode library) conf.ebpfs)])

def decodePrometheus (library : Library) (conf : Configs) (node : Node) :
    Result Configs := do
  let prometheusEnabled ← node.fieldOr library CONFIGS_ENABLED
    conf.prometheusEnabled (Node.asScalar library library.bool)
  let prometheusListen ← node.fieldOr library CONFIGS_PROM_LISTEN
    conf.prometheusListen (Node.asString library)
  return { conf with prometheusEnabled, prometheusListen }

def decodeDebugServer (library : Library) (conf : Configs) (node : Node) :
    Result Configs := do
  let dbgservEnabled ← node.fieldOr library CONFIGS_ENABLED conf.dbgservEnabled
    (Node.asScalar library library.bool)
  let dbgservAddr ← node.fieldOr library CONFIGS_DBGSERV_ADDR conf.dbgservAddr
    (Node.asString library)
  let dbgservPort ← node.fieldOr library CONFIGS_DBGSERV_PORT conf.dbgservPort
    (Node.asScalar library library.uint16)
  return { conf with dbgservEnabled, dbgservAddr, dbgservPort }

def decode (library : Library) (node : Node) (conf : Configs) :
    Result Configs := do
  let conf ← node.fieldOr library CONFIGS_PROMETHEUS conf
    (decodePrometheus library conf)
  let conf ← node.fieldOr library CONFIGS_DEBUG_SERVER conf
    (decodeDebugServer library conf)
  let ebpfs ← node.fieldOr library CONFIGS_EBPFSO conf.ebpfs
    (Node.asMap library (asConfigEbpf library))
  return { conf with ebpfs }

def asConfigs (library : Library) (node : Node) : Result Configs :=
  decode library node .default

end Configs

/-- What a path leads to: no file, or an empty one, is not read. -/
inductive ConfigFile where
  | missing
  | unreadable (exc : Exception)
  | document (node : Node)

def Configs.loadFromConfig (library : Library) : ConfigFile → Result Configs
  | .missing => .ok .default
  | .unreadable exc => .error exc
  | .document node => Configs.asConfigs library node

section RoundTrip

variable {library : Library}

theorem asConfigEbpf_encode (hscalars : library.RoundTrips)
    (conf : ConfigEbpf) :
    asConfigEbpf library (conf.encode library) = .ok conf := by
  simp [asConfigEbpf, ConfigEbpf.decode, ConfigEbpf.encode, Node.fieldOr,
    HookType.decode, CONFIGS_EBPF_LIB, CONFIGS_EBPF_CONFIG, CONFIGS_EBPF_HOOK,
    CONFIGS_EBPF_IFINDEX, CONFIGS_EBPF_ORDER, hscalars.int conf.ifindex,
    hscalars.int conf.order, bind, Except.bind, pure, Except.pure]

namespace Configs

theorem asConfigs_encode (hscalars : library.RoundTrips) (conf : Configs) :
    asConfigs library (conf.encode library) =
      .ok { conf with
        ebpfs := if conf.ebpfs = .empty then default.ebpfs
          else conf.ebpfs } := by
  have hebpfs : (Node.ofMap (ConfigEbpf.encode library) conf.ebpfs).asMap
      library (asConfigEbpf library) = .ok conf.ebpfs :=
    Node.asMap_ofMap (asConfigEbpf_encode hscalars) conf.ebpfs
  split_ifs with hempty
  all_goals
    simp [asConfigs, decode, encode, hempty, Node.fieldOr, decodePrometheus,
      decodeDebugServer, CONFIGS_PROMETHEUS, CONFIGS_DEBUG_SERVER,
      CONFIGS_EBPFSO, CONFIGS_ENABLED, CONFIGS_PROM_LISTEN,
      CONFIGS_DBGSERV_ADDR, CONFIGS_DBGSERV_PORT,
      hscalars.bool conf.prometheusEnabled, hscalars.bool conf.dbgservEnabled,
      hscalars.uint16 conf.dbgservPort, hebpfs, bind, Except.bind, pure,
      Except.pure]

theorem default_ebpfs_ne_empty : default.ebpfs ≠ .empty := by decide

theorem ebpfs_of_asConfigs {node : Node} {conf : Configs}
    (habsent : node.at? library CONFIGS_EBPFSO = .ok none)
    (hread : asConfigs library node = .ok conf) :
    conf.ebpfs = default.ebpfs := by
  simp only [asConfigs, decode, bind_eq_ok_iff] at hread
  obtain ⟨first, hfirst, second, hsecond, ebpfs, hebpfs, hconf⟩ := hread
  have hprometheus : first.ebpfs = default.ebpfs := by
    refine Node.of_fieldOr_eq_ok (fun conf => conf.ebpfs = default.ebpfs) rfl
      (fun field result hfield => ?_) hfirst
    simp only [decodePrometheus, bind_eq_ok_iff] at hfield
    obtain ⟨_, -, _, -, hresult⟩ := hfield
    cases hresult
    rfl
  have hdebug : second.ebpfs = default.ebpfs := by
    refine Node.of_fieldOr_eq_ok (fun conf => conf.ebpfs = default.ebpfs)
      hprometheus (fun field result hfield => ?_) hsecond
    simp only [decodeDebugServer, bind_eq_ok_iff] at hfield
    obtain ⟨_, -, _, -, _, -, hresult⟩ := hfield
    cases hresult
    exact hprometheus
  simp only [Node.fieldOr, habsent] at hebpfs
  cases hebpfs
  cases hconf
  exact hdebug

/-- A configuration comes back as it was written exactly when it has entries;
a document without the section never denotes that there are none. -/
theorem asConfigs_encode_eq_iff (hscalars : library.RoundTrips) :
    (∀ conf : Configs, asConfigs library (conf.encode library) = .ok conf ↔
      conf.ebpfs ≠ .empty) ∧
    ∀ node conf, node.at? library CONFIGS_EBPFSO = .ok none →
      asConfigs library node = .ok conf → conf.ebpfs ≠ .empty := by
  constructor
  · intro conf
    rw [asConfigs_encode hscalars, Except.ok.injEq]
    constructor
    · intro hsame hempty
      have hebpfs := congrArg Configs.ebpfs hsame
      rw [if_pos hempty, hempty] at hebpfs
      exact default_ebpfs_ne_empty hebpfs
    · intro hne
      rw [if_neg hne]
  · intro node conf habsent hread
    rw [ebpfs_of_asConfigs habsent hread]
    exact default_ebpfs_ne_empty

end Configs

end RoundTrip

namespace Configs

theorem asConfigs_encode_eq_iff_plain :
    (∀ conf : Configs,
      asConfigs .plain (conf.encode .plain) = .ok conf ↔
        conf.ebpfs ≠ .empty) ∧
    ∀ node conf, node.at? .plain CONFIGS_EBPFSO = .ok none →
      asConfigs .plain node = .ok conf → conf.ebpfs ≠ .empty :=
  asConfigs_encode_eq_iff Library.plain_roundTrips

/-- The default configuration with its entry deleted gets it back. -/
theorem asConfigs_encode_noEntries :
    asConfigs .plain (encode .plain { default with ebpfs := .empty }) ≠
      .ok { default with ebpfs := .empty } := by
  rw [asConfigs_encode Library.plain_roundTrips]
  decide

end Configs

end Hebpf.Daemon
