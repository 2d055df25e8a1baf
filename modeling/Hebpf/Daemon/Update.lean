import Hebpf.Daemon.Loader

namespace Hebpf.Daemon

open Hebpf.Common Hebpf.Data Hebpf.Ebpf Hebpf.Inotify

structure OrderEntry where
  order : Int32
  name : String
  ifindex : Int32
  deriving DecidableEq, Repr

/-- `std::sort` by the order alone: nothing is said of equal orders. -/
structure SortsByOrder (sort : List OrderEntry → List OrderEntry) : Prop where
  perm : ∀ entries, (sort entries).Perm entries
  ordered : ∀ entries,
    (sort entries).Pairwise fun left right => left.order ≤ right.order

/-- The configuration an update is given, and the answers from outside while it
is at the entry of a name. -/
structure UpdateInput (σ ω : Type) where
  config : EbpfMap
  env : String → Env σ ω

structure DaemonState (σ π : Type) where
  loader : Loader σ π
  currentEbpf : EbpfMap

def isScheduler (entry : String × ConfigEbpf) : Bool :=
  entry.1 = schedulerId entry.2.hook entry.2.ifindex

def withoutSchedulers (current : EbpfMap) : EbpfMap :=
  current.filter fun entry => !isScheduler entry

def hookEntries (config : EbpfMap) (hook : HookType) : List ConfigEbpf :=
  (config.entries.map Prod.snd).filter fun cfg => cfg.hook = hook

def ConfigEbpf.orderEntry (cfg : ConfigEbpf) : OrderEntry :=
  ⟨cfg.order, getCanonicalName cfg.hook .library cfg.lib, cfg.ifindex⟩

def hookOrder (sort : List OrderEntry → List OrderEntry) (config : EbpfMap)
    (hook : HookType) : List (String × Int32) :=
  (sort ((hookEntries config hook).map ConfigEbpf.orderEntry)).map
    fun entry => (entry.name, entry.ifindex)

def schedulerConfig (hook : HookType) (ifindex : Int32) : ConfigEbpf :=
  ⟨schedulerPath hook ifindex, "", hook, ifindex, 0⟩

/-- A scheduler for each hook and interface that occurs.  Their ids differ, so
it does not matter in which order they are added. -/
def addSchedulers (config : EbpfMap) : EbpfMap :=
  ((config.entries.map fun entry =>
      (entry.2.hook, entry.2.ifindex)).dedup).foldl
    (fun wanted pair => wanted.emplace (schedulerId pair.1 pair.2)
      (schedulerConfig pair.1 pair.2)) config

theorem mem_foldl_emplace_iff {pairs : List (HookType × Int32)}
    {map : EbpfMap} {entry : String × ConfigEbpf} :
    entry ∈ pairs.foldl (fun wanted pair =>
        wanted.emplace (schedulerId pair.1 pair.2)
          (schedulerConfig pair.1 pair.2)) map ↔
      entry ∈ map ∨ ∃ pair ∈ pairs,
        entry = (schedulerId pair.1 pair.2, schedulerConfig pair.1 pair.2) ∧
        map.find? (schedulerId pair.1 pair.2) = none := by
  induction pairs generalizing map with
  | nil => simp
  | cons head tail ih =>
      simp only [List.foldl_cons, ih, OrderedMap.mem_emplace_iff,
        OrderedMap.find?_emplace_eq_none_iff, List.exists_mem_cons_iff]
      constructor
      · rintro ((hmem | hhead) | ⟨pair, hpair, heq, -, hnone⟩)
        · exact Or.inl hmem
        · exact Or.inr (Or.inl hhead)
        · exact Or.inr (Or.inr ⟨pair, hpair, heq, hnone⟩)
      · rintro (hmem | hhead | ⟨pair, hpair, heq, hnone⟩)
        · exact Or.inl (Or.inl hmem)
        · exact Or.inl (Or.inr hhead)
        · by_cases hid : schedulerId pair.1 pair.2 =
              schedulerId head.1 head.2
          · obtain ⟨hhook, hifindex⟩ := schedulerId_inj.mp hid
            rw [hhook, hifindex] at heq hnone
            exact Or.inl (Or.inr ⟨heq, hnone⟩)
          · exact Or.inr ⟨pair, hpair, heq, hid, hnone⟩

theorem mem_addSchedulers_iff {config : EbpfMap}
    {entry : String × ConfigEbpf} :
    entry ∈ addSchedulers config ↔
      entry ∈ config ∨ ∃ other ∈ config,
        entry = (schedulerId other.2.hook other.2.ifindex,
          schedulerConfig other.2.hook other.2.ifindex) ∧
        config.find? (schedulerId other.2.hook other.2.ifindex) = none := by
  rw [addSchedulers, mem_foldl_emplace_iff]
  simp only [List.mem_dedup, List.mem_map, OrderedMap.mem_entries]
  refine or_congr_right ⟨?_, ?_⟩
  · rintro ⟨pair, ⟨other, hother, rfl⟩, hentry⟩
    exact ⟨other, hother, hentry⟩
  · rintro ⟨other, hother, hentry⟩
    exact ⟨_, ⟨other, hother, rfl⟩, hentry⟩

theorem isScheduler_added (hook : HookType) (ifindex : Int32) :
    isScheduler (schedulerId hook ifindex, schedulerConfig hook ifindex) =
      true := by
  simp [isScheduler, schedulerConfig]

theorem withoutSchedulers_addSchedulers {config : EbpfMap}
    (hfree : ∀ entry ∈ config, isScheduler entry = false) :
    withoutSchedulers (addSchedulers config) = config := by
  apply OrderedMap.eq_of_mem_iff
  intro entry
  rw [withoutSchedulers, OrderedMap.mem_filter, mem_addSchedulers_iff,
    Bool.not_eq_true']
  constructor
  · rintro ⟨hconfig | ⟨other, -, rfl, -⟩, hnot⟩
    · exact hconfig
    · rw [isScheduler_added] at hnot
      cases hnot
  · exact fun hconfig => ⟨Or.inl hconfig, hfree entry hconfig⟩

namespace Loader

variable {σ ω π : Type}

def rebuildChain (loader : Loader σ π) (hook : HookType)
    (namesIfindex : List (String × Int32)) : Loader σ π :=
  let allocated := namesIfindex.foldl
    (fun loader pair => (loader.allocateChain hook pair.2).2) loader
  (allocated.updateProgChain hook namesIfindex).2

/-- Every hook that occurs, in the order of an `unordered_map`. -/
def rebuildChains (sort : List OrderEntry → List OrderEntry)
    (config : EbpfMap) (loader : Loader σ π) : Loader σ π :=
  ((config.entries.map fun entry => entry.2.hook).dedup).foldl
    (fun loader hook => loader.rebuildChain hook (hookOrder sort config hook))
    loader

def loadEbpf (ops : EbpfIf σ ω π) (env : Env σ ω) (loader : Loader σ π)
    (cfg : ConfigEbpf) : Result Unit × Loader σ π :=
  match loader.loadService ops env cfg.lib cfg.hook cfg.ifindex cfg.config with
  | (.error exc, loader) => (.error exc, loader)
  | (.ok _, loader) => (.ok (), loader)

def unloadEbpf (env : Env σ ω) (loader : Loader σ π) (soPath : String) :
    Result Unit × Loader σ π :=
  match loader.unloadServices env soPath with
  | (.error exc, loader) => (.error exc, loader)
  | (.ok _, loader) => (.ok (), loader)

def unloadRemoved (env : String → Env σ ω) (config : EbpfMap) :
    List (String × ConfigEbpf) → Loader σ π → Result Unit × Loader σ π
  | [], loader => (.ok (), loader)
  | (name, cfg) :: rest, loader =>
      match config.find? name with
      | some _ => unloadRemoved env config rest loader
      | none =>
          match loader.unloadEbpf (env name) cfg.lib with
          | (.error exc, loader) => (.error exc, loader)
          | (.ok (), loader) => unloadRemoved env config rest loader

/-- What makes a service load anew: its library, its hook and its interface. -/
def place (cfg : ConfigEbpf) : String × HookType × Int32 :=
  (cfg.lib, cfg.hook, cfg.ifindex)

def updateEntry (ops : EbpfIf σ ω π) (env : Env σ ω) (current : EbpfMap)
    (loader : Loader σ π) (name : String) (cfg : ConfigEbpf) :
    Result Unit × Loader σ π :=
  match current.find? name with
  | none => loader.loadEbpf ops env cfg
  | some held =>
      if place held ≠ place cfg then
        match loader.unloadEbpf env held.lib with
        | (.error exc, loader) => (.error exc, loader)
        | (.ok (), loader) => loader.loadEbpf ops env cfg
      else if held.config ≠ cfg.config then
        match loader.unregisterServiceConfig env held.lib held.config with
        | (.error exc, loader) => (.error exc, loader)
        | (.ok (), loader) =>
            loader.registerServiceConfig ops env cfg.lib cfg.hook cfg.ifindex
              cfg.config
      else (.ok (), loader)

def updateEntries (ops : EbpfIf σ ω π) (env : String → Env σ ω)
    (current : EbpfMap) :
    List (String × ConfigEbpf) → Loader σ π → Result Unit × Loader σ π
  | [], loader => (.ok (), loader)
  | (name, cfg) :: rest, loader =>
      match loader.updateEntry ops (env name) current name cfg with
      | (.error exc, loader) => (.error exc, loader)
      | (.ok (), loader) => updateEntries ops env current rest loader

end Loader

namespace DaemonState

variable {σ ω π : Type}

def start (inotify : InotifyManager ConfigCallback)
    (chain : Option (PinnedProgMap π)) : DaemonState σ π :=
  ⟨.start inotify chain, .empty⟩

def prepare (sort : List OrderEntry → List OrderEntry)
    (daemon : DaemonState σ π) (input : UpdateInput σ ω) :
    Result Unit × Loader σ π :=
  let currentWithoutScd := withoutSchedulers daemon.currentEbpf
  let loader :=
    if input.config ≠ currentWithoutScd then
      daemon.loader.rebuildChains sort input.config
    else daemon.loader
  Loader.unloadRemoved input.env input.config currentWithoutScd.entries loader

/-- An exception ends the update before the configuration is recorded. -/
def update (ops : EbpfIf σ ω π) (sort : List OrderEntry → List OrderEntry)
    (daemon : DaemonState σ π) (input : UpdateInput σ ω) :
    Result Unit × DaemonState σ π :=
  match daemon.prepare sort input with
  | (.error exc, loader) => (.error exc, { daemon with loader })
  | (.ok (), loader) =>
      let newEbpf := addSchedulers input.config
      match loader.updateEntries ops input.env daemon.currentEbpf
          newEbpf.entries with
      | (.error exc, loader) => (.error exc, { daemon with loader })
      | (.ok (), loader) => (.ok (), ⟨loader, newEbpf⟩)

end DaemonState

end Hebpf.Daemon
