import Hebpf.Daemon.ConfigReload
import Hebpf.Daemon.ConfigsYaml
import Hebpf.Daemon.ExecutedChain
import Hebpf.Ebpf.ChainAsserts

namespace Hebpf.Daemon

open Hebpf.Common Hebpf.Common.Yaml Hebpf.Data Hebpf.Ebpf
  Hebpf.Ebpf.PinnedProgMap Hebpf.Inotify

/-! The assertions an update checks on the way.  As for the chains, each
definition follows its namesake and answers whether all that are reached hold. -/

variable {σ ω π : Type}

namespace Loader

def allocateChainAsserts (loader : Loader σ π) (ifindex : Int32) : Bool :=
  match loader.chain with
  | none => true
  | some _ => allocateRegionAsserts ifindex

def updateProgChainAsserts (loader : Loader σ π) (hook : HookType)
    (namesIfindex : List (String × Int32)) : Bool :=
  match loader.chain with
  | none => true
  | some chain => chain.updateChainAsserts hook namesIfindex

def allocateChainsAsserts (hook : HookType) :
    List (String × Int32) → Loader σ π → Bool
  | [], _ => true
  | pair :: rest, loader =>
      loader.allocateChainAsserts pair.2 &&
        allocateChainsAsserts hook rest (loader.allocateChain hook pair.2).2

def rebuildChainAsserts (loader : Loader σ π) (hook : HookType)
    (namesIfindex : List (String × Int32)) : Bool :=
  let allocated := namesIfindex.foldl
    (fun loader pair => (loader.allocateChain hook pair.2).2) loader
  allocateChainsAsserts hook namesIfindex loader &&
    allocated.updateProgChainAsserts hook namesIfindex

def rebuildHooksAsserts (sort : List OrderEntry → List OrderEntry)
    (config : EbpfMap) : List HookType → Loader σ π → Bool
  | [], _ => true
  | hook :: rest, loader =>
      loader.rebuildChainAsserts hook (hookOrder sort config hook) &&
        rebuildHooksAsserts sort config rest
          (loader.rebuildChain hook (hookOrder sort config hook))

def rebuildChainsAsserts (sort : List OrderEntry → List OrderEntry)
    (config : EbpfMap) (loader : Loader σ π) : Bool :=
  (config.entries.all fun entry =>
      getCanonicalNameAsserts entry.2.hook entry.2.lib) &&
    rebuildHooksAsserts sort config
      (config.entries.map fun entry => entry.2.hook).dedup loader

def registerServiceConfigAsserts (hook : HookType) (ifindex : Int32) : Bool :=
  hook ≠ .unknown && 0 < ifindex

def configureLoadedAsserts (soPath : String) (hook : HookType)
    (ifindex : Int32) : Bool :=
  if realSoPath soPath = SCHEDULER_XDP_LIB ∨
      realSoPath soPath = SCHEDULER_TC_LIB then true
  else registerServiceConfigAsserts hook ifindex

def loadServiceAsserts (ops : EbpfIf σ ω π) (env : Env σ ω)
    (loader : Loader σ π) (soPath : String) (hook : HookType)
    (ifindex : Int32) (configPath : String) : Bool :=
  soPath ≠ "" && hook ≠ .unknown && 0 < ifindex &&
    match env.opened with
    | .started service =>
        match loader.services.lookup soPath with
        | some _ => true
        | none =>
            let name := ops.getName service
            let inserted := { loader with
              services := loader.services.insert soPath
                ⟨service, name, soPath, "", hook, ifindex⟩ }
            configureLoadedAsserts soPath hook ifindex &&
              match inserted.configureLoaded ops env soPath hook ifindex
                  configPath with
              | (.error _, _) => true
              | (.ok (), loader) =>
                  match loader.chain, loader.services.lookup soPath with
                  | some _, some _ => getCanonicalNameAsserts hook name
                  | _, _ => true
    | _ => true

def loadEbpfAsserts (ops : EbpfIf σ ω π) (env : Env σ ω)
    (loader : Loader σ π) (cfg : ConfigEbpf) : Bool :=
  cfg.lib ≠ "" &&
    loader.loadServiceAsserts ops env cfg.lib cfg.hook cfg.ifindex cfg.config

def updateEntryAsserts (ops : EbpfIf σ ω π) (env : Env σ ω)
    (current : EbpfMap) (loader : Loader σ π) (name : String)
    (cfg : ConfigEbpf) : Bool :=
  match current.find? name with
  | none => loader.loadEbpfAsserts ops env cfg
  | some held =>
      if place held ≠ place cfg then
        match loader.unloadEbpf env held.lib with
        | (.error _, _) => true
        | (.ok (), loader) => loader.loadEbpfAsserts ops env cfg
      else if held.config ≠ cfg.config then
        match loader.unregisterServiceConfig env held.lib held.config with
        | (.error _, _) => true
        | (.ok (), _) => registerServiceConfigAsserts cfg.hook cfg.ifindex
      else true

def updateEntriesAsserts (ops : EbpfIf σ ω π) (env : String → Env σ ω)
    (current : EbpfMap) : List (String × ConfigEbpf) → Loader σ π → Bool
  | [], _ => true
  | (name, cfg) :: rest, loader =>
      loader.updateEntryAsserts ops (env name) current name cfg &&
        match loader.updateEntry ops (env name) current name cfg with
        | (.error _, _) => true
        | (.ok (), loader) => updateEntriesAsserts ops env current rest loader

end Loader

def DaemonState.updateAsserts (ops : EbpfIf σ ω π)
    (sort : List OrderEntry → List OrderEntry) (daemon : DaemonState σ π)
    (input : UpdateInput σ ω) : Bool :=
  (if input.config ≠ withoutSchedulers daemon.currentEbpf then
      daemon.loader.rebuildChainsAsserts sort input.config
    else true) &&
    match daemon.prepare sort input with
    | (.error _, _) => true
    | (.ok (), loader) => loader.updateEntriesAsserts ops input.env
        daemon.currentEbpf (addSchedulers input.config).entries

namespace ConfigEbpf

structure Complete (cfg : ConfigEbpf) : Prop where
  hook : cfg.hook ≠ .unknown
  lib : cfg.lib ≠ ""
  ifindex : 0 < cfg.ifindex

end ConfigEbpf

theorem schedulerPath_ne_empty (hook : HookType) (ifindex : Int32) :
    schedulerPath hook ifindex ≠ "" := by
  intro hempty
  rw [schedulerPath, String.append_eq_empty_iff] at hempty
  exact schedulerLib_ne_empty hook hempty.1

theorem complete_addSchedulers {config : EbpfMap}
    (hcomplete : ∀ entry ∈ config, entry.2.Complete) :
    ∀ entry ∈ addSchedulers config, entry.2.Complete := by
  intro entry hentry
  rcases mem_addSchedulers_iff.mp hentry with
    hconfig | ⟨other, hother, rfl, -⟩
  · exact hcomplete entry hconfig
  · exact ⟨(hcomplete other hother).hook, schedulerPath_ne_empty _ _,
      (hcomplete other hother).ifindex⟩

namespace Loader

section Complete

variable {ops : EbpfIf σ ω π} (hnames : ∀ service, ops.getName service ≠ "")
  {cfg : ConfigEbpf} (hcomplete : cfg.Complete)

include hnames hcomplete

theorem loadEbpfAsserts_of_complete (env : Env σ ω) (loader : Loader σ π) :
    loader.loadEbpfAsserts ops env cfg = true := by
  obtain ⟨hhook, hlib, hifindex⟩ := hcomplete
  simp only [loadEbpfAsserts, loadServiceAsserts, configureLoadedAsserts,
    registerServiceConfigAsserts, getCanonicalNameAsserts, hhook, hlib,
    hifindex, ne_eq, not_false_eq_true, decide_true, Bool.and_self,
    Bool.true_and, ite_self]
  split
  · split
    · rfl
    · split
      · rfl
      · split
        · simp [hnames]
        · rfl
  · rfl

theorem updateEntryAsserts_of_complete (env : Env σ ω) (current : EbpfMap)
    (loader : Loader σ π) (name : String) :
    loader.updateEntryAsserts ops env current name cfg = true := by
  unfold updateEntryAsserts
  split
  · exact loadEbpfAsserts_of_complete hnames hcomplete env loader
  · split_ifs
    · split
      · rfl
      · exact loadEbpfAsserts_of_complete hnames hcomplete env _
    · split
      · rfl
      · simp [registerServiceConfigAsserts, hcomplete.hook,
          hcomplete.ifindex]
    · rfl

end Complete

theorem updateEntriesAsserts_of_complete {ops : EbpfIf σ ω π}
    (hnames : ∀ service, ops.getName service ≠ "")
    (env : String → Env σ ω) (current : EbpfMap)
    {entries : List (String × ConfigEbpf)}
    (hcomplete : ∀ entry ∈ entries, entry.2.Complete) (loader : Loader σ π) :
    loader.updateEntriesAsserts ops env current entries = true := by
  induction entries generalizing loader with
  | nil => rfl
  | cons entry rest ih =>
      obtain ⟨name, cfg⟩ := entry
      unfold updateEntriesAsserts
      rw [updateEntryAsserts_of_complete hnames (hcomplete _ (.head _)),
        Bool.true_and]
      split
      · rfl
      · exact ih (fun other hother => hcomplete other (.tail _ hother)) _

end Loader

def wantedInterfaces (config : EbpfMap) (hook : HookType) : Finset Int32 :=
  ((hookEntries config hook).map ConfigEbpf.ifindex).toFinset

theorem mem_wantedInterfaces_iff {config : EbpfMap} {hook : HookType}
    {ifindex : Int32} :
    ifindex ∈ wantedInterfaces config hook ↔
      ∃ entry ∈ config, entry.2.hook = hook ∧ entry.2.ifindex = ifindex := by
  simp only [wantedInterfaces, List.mem_toFinset, List.mem_map,
    mem_hookEntries_iff]
  constructor
  · rintro ⟨cfg, ⟨name, hentry, hhook⟩, hifindex⟩
    exact ⟨(name, cfg), hentry, hhook, hifindex⟩
  · rintro ⟨entry, hentry, hhook, hifindex⟩
    exact ⟨entry.2, ⟨entry.1, hentry, hhook⟩, hifindex⟩

/-- The regions of a hook have room for the interfaces of a configuration
besides those that have one. -/
def Fits (chain : PinnedProgMap π) (config : EbpfMap) (hook : HookType) :
    Prop :=
  hook = .tc ∨ hook = .xdpGeneric →
    (interfaces (chain.regions hook) ∪ wantedInterfaces config hook).card ≤
      MAX_NIC_HOOK

namespace Loader

variable {loader : Loader σ π} {chain : PinnedProgMap π}

theorem allocateChain_sound (hchain : loader.chain = some chain)
    (hsound : chain.Sound) (hook : HookType) (ifindex : Int32) :
    ∃ allocated, (loader.allocateChain hook ifindex).2.chain = some allocated ∧
      allocated.Sound ∧
      interfaces (allocated.regions hook) =
        allot MAX_NIC_HOOK (interfaces (chain.regions hook)) ifindex ∧
      ∀ other, other ≠ hook →
        allocated.regions other = chain.regions other := by
  refine ⟨(chain.allocateRegion hook ifindex).2, ?_,
    hsound.allocateRegion hook ifindex⟩
  simp only [allocateChain, hchain]

theorem allocateChains_sound (hchain : loader.chain = some chain)
    (hsound : chain.Sound) (hook : HookType) (pairs : List (String × Int32)) :
    ∃ allocated, (pairs.foldl (fun loader pair =>
        (loader.allocateChain hook pair.2).2) loader).chain =
          some allocated ∧
      allocated.Sound ∧
      interfaces (allocated.regions hook) = (pairs.map Prod.snd).foldl
        (allot MAX_NIC_HOOK) (interfaces (chain.regions hook)) ∧
      ∀ other, other ≠ hook →
        allocated.regions other = chain.regions other := by
  induction pairs generalizing loader chain with
  | nil => exact ⟨chain, hchain, hsound, rfl, fun _ _ => rfl⟩
  | cons pair rest ih =>
      obtain ⟨first, hfirst, hfirstSound, hinterfaces, hothers⟩ :=
        allocateChain_sound hchain hsound hook pair.2
      obtain ⟨allocated, hallocated, hallocatedSound, hall, hkept⟩ :=
        ih hfirst hfirstSound
      refine ⟨allocated, hallocated, hallocatedSound, ?_, fun other hother =>
        (hkept other hother).trans (hothers other hother)⟩
      rw [hall, hinterfaces]
      rfl

theorem allocateChainsAsserts_iff (hchain : loader.chain = some chain)
    (hook : HookType) (pairs : List (String × Int32)) :
    allocateChainsAsserts hook pairs loader = true ↔
      ∀ pair ∈ pairs, 0 < pair.2 := by
  induction pairs generalizing loader chain with
  | nil => simp [allocateChainsAsserts]
  | cons pair rest ih =>
      have hfirst : (loader.allocateChain hook pair.2).2.chain =
          some (chain.allocateRegion hook pair.2).2 := by
        simp only [allocateChain, hchain]
      rw [allocateChainsAsserts, Bool.and_eq_true, ih hfirst,
        List.forall_mem_cons, allocateChainAsserts, hchain,
        allocateRegionAsserts, decide_eq_true_iff]

theorem rebuildChain_sound (hchain : loader.chain = some chain)
    (hsound : chain.Sound) (hook : HookType) {pairs : List (String × Int32)}
    (hpositive : ∀ pair ∈ pairs, 0 < pair.2) :
    ∃ rebuilt, (loader.rebuildChain hook pairs).chain = some rebuilt ∧
      rebuilt.Sound ∧
      interfaces (rebuilt.regions hook) = (pairs.map Prod.snd).foldl
        (allot MAX_NIC_HOOK) (interfaces (chain.regions hook)) ∧
      ∀ other, other ≠ hook →
        rebuilt.regions other = chain.regions other := by
  obtain ⟨allocated, hallocated, hallocatedSound, hinterfaces, hothers⟩ :=
    allocateChains_sound hchain hsound hook pairs
  obtain ⟨hupdated, hregions⟩ := hallocatedSound.updateChain hook hpositive
  refine ⟨(allocated.updateChain hook pairs).2, ?_, hupdated, ?_, ?_⟩
  · simp only [rebuildChain, updateProgChain, hallocated]
  · rw [hregions, hinterfaces]
  · intro other hother
    rw [hregions, hothers other hother]

theorem rebuildChainAsserts_iff (hchain : loader.chain = some chain)
    (hsound : chain.Sound) (hook : HookType)
    (pairs : List (String × Int32)) :
    loader.rebuildChainAsserts hook pairs = true ↔
      (∀ pair ∈ pairs, 0 < pair.2) ∧
        (hook = .tc ∨ hook = .xdpGeneric →
          (interfaces (chain.regions hook) ∪
            (pairs.map Prod.snd).toFinset).card ≤ MAX_NIC_HOOK) := by
  obtain ⟨allocated, hallocated, hallocatedSound, hinterfaces, -⟩ :=
    allocateChains_sound hchain hsound hook pairs
  have hbounded := (hsound.allotted hook).bounded
  rw [← card_interfaces] at hbounded
  simp only [rebuildChainAsserts, Bool.and_eq_true,
    allocateChainsAsserts_iff hchain, updateProgChainAsserts, hallocated,
    hallocatedSound.updateChainAsserts_iff]
  refine and_congr_right fun _ => imp_congr_right fun _ => ?_
  rw [← subset_foldl_allot_iff hbounded, hinterfaces, ← List.forall_mem_map]
  simp only [Finset.subset_iff, List.mem_toFinset]

section Hooks

variable {sort : List OrderEntry → List OrderEntry} {config : EbpfMap}
  (hsort : SortsByOrder sort)

include hsort

theorem toFinset_hookOrder (hook : HookType) :
    ((hookOrder sort config hook).map Prod.snd).toFinset =
      wantedInterfaces config hook := by
  ext ifindex
  simp only [List.mem_toFinset, List.mem_map, mem_hookOrder_iff hsort,
    mem_wantedInterfaces_iff]
  constructor
  · rintro ⟨pair, ⟨name, cfg, hentry, hhook, rfl⟩, hifindex⟩
    exact ⟨(name, cfg), hentry, hhook, hifindex⟩
  · rintro ⟨entry, hentry, hhook, hifindex⟩
    exact ⟨_, ⟨entry.1, entry.2, hentry, hhook, rfl⟩, hifindex⟩

theorem forall_hookOrder_iff (hook : HookType) :
    (∀ pair ∈ hookOrder sort config hook, 0 < pair.2) ↔
      ∀ entry ∈ config, entry.2.hook = hook → 0 < entry.2.ifindex := by
  constructor
  · intro hall entry hentry hhook
    exact hall _ ((mem_hookOrder_iff hsort).mpr
      ⟨entry.1, entry.2, hentry, hhook, rfl⟩)
  · intro hall pair hpair
    obtain ⟨name, cfg, hentry, hhook, rfl⟩ := (mem_hookOrder_iff hsort).mp hpair
    exact hall (name, cfg) hentry hhook

theorem rebuildHook_sound (hchain : loader.chain = some chain)
    (hsound : chain.Sound) (hook : HookType)
    (hpositive : ∀ entry ∈ config, entry.2.hook = hook →
      0 < entry.2.ifindex) :
    ∃ rebuilt, (loader.rebuildChain hook
        (hookOrder sort config hook)).chain = some rebuilt ∧
      rebuilt.Sound ∧
      interfaces (chain.regions hook) ⊆ interfaces (rebuilt.regions hook) ∧
      ((interfaces (chain.regions hook) ∪
          wantedInterfaces config hook).card ≤ MAX_NIC_HOOK →
        wantedInterfaces config hook ⊆ interfaces (rebuilt.regions hook)) ∧
      ∀ other, other ≠ hook →
        rebuilt.regions other = chain.regions other := by
  obtain ⟨rebuilt, hrebuilt, hrebuiltSound, hinterfaces, hothers⟩ :=
    rebuildChain_sound hchain hsound hook
      ((forall_hookOrder_iff hsort hook).mpr hpositive)
  refine ⟨rebuilt, hrebuilt, hrebuiltSound, ?_, ?_, hothers⟩
  · rw [hinterfaces]
    exact subset_foldl_allot _ _
  · intro hroom
    rw [hinterfaces, ← toFinset_hookOrder hsort hook] at *
    exact subset_foldl_allot_of_card hroom

theorem rebuildHooks_sound (hpositive : ∀ entry ∈ config,
      0 < entry.2.ifindex)
    (hchain : loader.chain = some chain) (hsound : chain.Sound)
    {hooks : List HookType} (hnodup : hooks.Nodup) :
    ∃ rebuilt, (hooks.foldl (fun loader hook => loader.rebuildChain hook
        (hookOrder sort config hook)) loader).chain = some rebuilt ∧
      rebuilt.Sound ∧
      (∀ hook,
        interfaces (chain.regions hook) ⊆ interfaces (rebuilt.regions hook)) ∧
      ∀ hook ∈ hooks, (interfaces (chain.regions hook) ∪
          wantedInterfaces config hook).card ≤ MAX_NIC_HOOK →
        wantedInterfaces config hook ⊆
          interfaces (rebuilt.regions hook) := by
  induction hooks generalizing loader chain with
  | nil => exact ⟨chain, hchain, hsound, fun _ => Finset.Subset.refl _, by simp⟩
  | cons head rest ih =>
      obtain ⟨hfresh, hrest⟩ := List.nodup_cons.mp hnodup
      obtain ⟨first, hfirst, hfirstSound, hgrows, hheld, hothers⟩ :=
        rebuildHook_sound hsort hchain hsound head
          fun entry hentry _ => hpositive entry hentry
      obtain ⟨rebuilt, hrebuilt, hrebuiltSound, hkept, hall⟩ :=
        ih hfirst hfirstSound hrest
      refine ⟨rebuilt, hrebuilt, hrebuiltSound, fun hook => ?_, ?_⟩
      · by_cases heq : hook = head
        · subst heq
          exact hgrows.trans (hkept hook)
        · rw [← hothers hook heq]
          exact hkept hook
      · intro hook hmem hroom
        rcases List.mem_cons.mp hmem with rfl | hmem
        · exact (hheld hroom).trans (hkept hook)
        · rw [← hothers hook fun heq => hfresh (heq ▸ hmem)] at hroom
          exact hall hook hmem hroom

theorem rebuildHooksAsserts_iff (hchain : loader.chain = some chain)
    (hsound : chain.Sound) {hooks : List HookType} (hnodup : hooks.Nodup) :
    rebuildHooksAsserts sort config hooks loader = true ↔
      ∀ hook ∈ hooks,
        (∀ entry ∈ config, entry.2.hook = hook → 0 < entry.2.ifindex) ∧
          Fits chain config hook := by
  induction hooks generalizing loader chain with
  | nil => simp [rebuildHooksAsserts]
  | cons head rest ih =>
      obtain ⟨hfresh, hrest⟩ := List.nodup_cons.mp hnodup
      rw [rebuildHooksAsserts, Bool.and_eq_true, List.forall_mem_cons,
        rebuildChainAsserts_iff hchain hsound, forall_hookOrder_iff hsort,
        toFinset_hookOrder hsort]
      refine and_congr_right fun hhead => ?_
      obtain ⟨first, hfirst, hfirstSound, -, -, hothers⟩ :=
        rebuildHook_sound hsort hchain hsound head hhead.1
      rw [ih hfirst hfirstSound hrest]
      refine forall₂_congr fun hook hmem => and_congr_right fun _ => ?_
      rw [Fits, Fits, hothers hook fun heq => hfresh (heq ▸ hmem)]

theorem rebuildChainsAsserts_iff (hchain : loader.chain = some chain)
    (hsound : chain.Sound) :
    loader.rebuildChainsAsserts sort config = true ↔
      (∀ entry ∈ config, entry.2.Complete) ∧
        ∀ hook, Fits chain config hook := by
  have hnames : (config.entries.all fun entry =>
      getCanonicalNameAsserts entry.2.hook entry.2.lib) = true ↔
        ∀ entry ∈ config, entry.2.hook ≠ .unknown ∧ entry.2.lib ≠ "" := by
    simp only [List.all_eq_true, getCanonicalNameAsserts, Bool.and_eq_true,
      decide_eq_true_iff, OrderedMap.mem_entries]
  rw [rebuildChainsAsserts, Bool.and_eq_true, hnames,
    rebuildHooksAsserts_iff hsort hchain hsound (List.nodup_dedup _)]
  have hused : ∀ entry ∈ config, entry.2.hook ∈
      (config.entries.map fun entry => entry.2.hook).dedup :=
    fun entry hentry =>
      List.mem_dedup.mpr (List.mem_map.mpr ⟨entry, hentry, rfl⟩)
  constructor
  · rintro ⟨hfields, hhooks⟩
    refine ⟨fun entry hentry => ⟨(hfields entry hentry).1,
      (hfields entry hentry).2, (hhooks _ (hused entry hentry)).1 entry hentry
        rfl⟩, fun hook => ?_⟩
    by_cases hmem : hook ∈ (config.entries.map fun entry =>
        entry.2.hook).dedup
    · exact (hhooks hook hmem).2
    · -- A hook that does not occur asks for nothing.
      have hunused : wantedInterfaces config hook = ∅ := by
        refine Finset.eq_empty_of_forall_notMem fun ifindex hwanted => ?_
        obtain ⟨entry, hentry, rfl, -⟩ := mem_wantedInterfaces_iff.mp hwanted
        exact hmem (hused entry hentry)
      intro _
      rw [hunused, Finset.union_empty, card_interfaces]
      exact (hsound.allotted hook).bounded
  · rintro ⟨hcomplete, hfits⟩
    exact ⟨fun entry hentry => ⟨(hcomplete entry hentry).hook,
      (hcomplete entry hentry).lib⟩, fun hook _ =>
        ⟨fun entry hentry _ => (hcomplete entry hentry).ifindex, hfits hook⟩⟩

end Hooks

section Chain

def HasChain (kept : PinnedProgMap π → Prop) (loader : Loader σ π) : Prop :=
  ∃ chain, loader.chain = some chain ∧ kept chain

theorem HasChain.congr {kept : PinnedProgMap π → Prop}
    {before after : Loader σ π} (hkept : before.HasChain kept)
    (hchain : after.chain = before.chain) : after.HasChain kept := by
  rwa [HasChain, hchain]

theorem unloadEbpf_chain (env : Env σ ω) (loader : Loader σ π)
    (soPath : String) :
    (loader.unloadEbpf env soPath).2.chain = loader.chain := by
  unfold unloadEbpf unloadServices
  cases loader.services.lookup soPath with
  | none => rfl
  | some handle =>
      have hsame := (unregisterServiceConfig_same noPart env loader
        handle.path handle.config).chain
      simp only
      split_ifs
      · rfl
      · generalize loader.unregisterServiceConfig env handle.path
          handle.config = answer at hsame ⊢
        obtain ⟨result, after⟩ := answer
        cases result <;> exact hsame

theorem unloadRemoved_chain (env : String → Env σ ω) (config : EbpfMap)
    (entries : List (String × ConfigEbpf)) (loader : Loader σ π) :
    (unloadRemoved env config entries loader).2.chain = loader.chain := by
  induction entries generalizing loader with
  | nil => rfl
  | cons entry rest ih =>
      obtain ⟨name, cfg⟩ := entry
      unfold unloadRemoved
      cases config.find? name with
      | some _ => exact ih loader
      | none =>
          have hunloaded := unloadEbpf_chain (env name) loader cfg.lib
          simp only
          generalize loader.unloadEbpf (env name) cfg.lib = answer
            at hunloaded ⊢
          obtain ⟨result, after⟩ := answer
          cases result with
          | error exc => exact hunloaded
          | ok _ => exact (ih after).trans hunloaded

variable (ops : EbpfIf σ ω π) {kept : PinnedProgMap π → Prop}
  (hinsert : ∀ chain hook name prog ifindex, kept chain →
    kept (chain.insertProg hook name prog ifindex).2)

include hinsert

theorem registerToChain_kept {loader : Loader σ π} {chain : PinnedProgMap π}
    (hkept : kept chain) (soPath serviceName : String) (hook : HookType)
    (ifindex : Int32) :
    kept (loader.registerToChain ops chain soPath serviceName hook
      ifindex) := by
  unfold registerToChain
  split
  · exact hkept
  · exact hinsert _ _ _ _ _ hkept

theorem loadEbpf_kept {loader : Loader σ π} (hkept : loader.HasChain kept)
    (env : Env σ ω) (cfg : ConfigEbpf) :
    (loader.loadEbpf ops env cfg).2.HasChain kept := by
  unfold loadEbpf loadService
  cases env.opened with
  | started service =>
      cases loader.services.lookup cfg.lib with
      | some handle => exact hkept
      | none =>
          simp only
          have hchain := (@configureLoaded_same σ ω π Unit ops noPart
            (fun _ _ _ _ _ => rfl) env { loader with
              services := loader.services.insert cfg.lib ⟨service,
                ops.getName service, cfg.lib, "", cfg.hook, cfg.ifindex⟩ }
            cfg.lib cfg.hook cfg.ifindex cfg.config).chain
          generalize configureLoaded ops env _ cfg.lib cfg.hook cfg.ifindex
            cfg.config = answer at hchain ⊢
          obtain ⟨result, after⟩ := answer
          obtain ⟨chain, hloader, hchainKept⟩ := hkept
          rw [hloader] at hchain
          cases result with
          | error exc => exact ⟨chain, hchain, hchainKept⟩
          | ok _ =>
              simp only at hchain
              simp only [hchain]
              exact ⟨_, rfl,
                registerToChain_kept ops hinsert hchainKept _ _ _ _⟩
  | _ => exact hkept

theorem updateEntry_kept {loader : Loader σ π} (hkept : loader.HasChain kept)
    (env : Env σ ω) (current : EbpfMap) (name : String) (cfg : ConfigEbpf) :
    (loader.updateEntry ops env current name cfg).2.HasChain kept := by
  unfold updateEntry
  split
  · exact loadEbpf_kept ops hinsert hkept env cfg
  · rename_i held _
    split_ifs
    · have hunloaded := hkept.congr (unloadEbpf_chain env loader held.lib)
      generalize loader.unloadEbpf env held.lib = answer at hunloaded ⊢
      obtain ⟨result, after⟩ := answer
      cases result with
      | error exc => exact hunloaded
      | ok _ => exact loadEbpf_kept ops hinsert hunloaded env cfg
    · have hunregistered := hkept.congr (unregisterServiceConfig_same noPart
        env loader held.lib held.config).chain
      generalize loader.unregisterServiceConfig env held.lib held.config =
        answer at hunregistered ⊢
      obtain ⟨result, after⟩ := answer
      cases result with
      | error exc => exact hunregistered
      | ok _ =>
          exact hunregistered.congr (@registerServiceConfig_same σ ω π Unit
            ops noPart (fun _ _ _ _ _ => rfl) env after _ _ _ _).chain
    · exact hkept

theorem updateEntries_kept (env : String → Env σ ω) (current : EbpfMap)
    (entries : List (String × ConfigEbpf)) {loader : Loader σ π}
    (hkept : loader.HasChain kept) :
    (updateEntries ops env current entries loader).2.HasChain kept := by
  induction entries generalizing loader with
  | nil => exact hkept
  | cons entry rest ih =>
      obtain ⟨name, cfg⟩ := entry
      unfold updateEntries
      have hentry := updateEntry_kept ops hinsert hkept (env name) current name
        cfg
      generalize loader.updateEntry ops (env name) current name cfg = answer
        at hentry ⊢
      obtain ⟨result, after⟩ := answer
      cases result with
      | error exc => exact hentry
      | ok _ => exact ih hentry

end Chain

end Loader

def Holds (chain : PinnedProgMap π) (config : EbpfMap) : Prop :=
  ∀ entry ∈ config, entry.2.hook = .tc ∨ entry.2.hook = .xdpGeneric →
    entry.2.ifindex ∈ interfaces (chain.regions entry.2.hook)

theorem Holds.addSchedulers {chain : PinnedProgMap π} {config : EbpfMap}
    (hholds : Holds chain config) : Holds chain (addSchedulers config) := by
  intro entry hentry hhook
  rcases mem_addSchedulers_iff.mp hentry with
    hconfig | ⟨other, hother, rfl, -⟩
  · exact hholds entry hconfig hhook
  · exact hholds other hother hhook

theorem Holds.mono {chain after : PinnedProgMap π} {config : EbpfMap}
    (hholds : Holds chain config)
    (hgrows : ∀ hook,
      interfaces (chain.regions hook) ⊆ interfaces (after.regions hook)) :
    Holds after config :=
  fun entry hentry hhook => hgrows _ (hholds entry hentry hhook)

namespace DaemonState

/-- A configuration whose entries are complete and whose interfaces find a
region. -/
structure Admits (daemon : DaemonState σ π) (config : EbpfMap) : Prop where
  complete : ∀ entry ∈ config, entry.2.Complete
  fits : ∀ chain, daemon.loader.chain = some chain →
    ∀ hook, Fits chain config hook

/-- What an update leaves that was admitted: chains with a region for every
entry that is recorded. -/
structure Orderly (daemon : DaemonState σ π) : Prop where
  complete : ∀ entry ∈ daemon.currentEbpf, entry.2.Complete
  chain : daemon.loader.HasChain fun chain =>
    chain.Sound ∧ Holds chain daemon.currentEbpf

theorem start_orderly (inotify : InotifyManager ConfigCallback)
    {progRegistry : String → Option ProgInfo} (hfew : FewIds progRegistry) :
    (start inotify (some (.init progRegistry)) : DaemonState σ π).Orderly where
  complete entry hentry := absurd hentry (OrderedMap.not_mem_empty entry)
  chain := ⟨.init progRegistry, rfl, sound_init hfew, fun entry hentry =>
    absurd hentry (OrderedMap.not_mem_empty entry)⟩

section Step

variable {ops : EbpfIf σ ω π} {sort : List OrderEntry → List OrderEntry}
  {daemon : DaemonState σ π} {input : UpdateInput σ ω}

theorem mem_withoutSchedulers {current : EbpfMap}
    {entry : String × ConfigEbpf}
    (hentry : entry ∈ withoutSchedulers current) : entry ∈ current :=
  (OrderedMap.mem_filter.mp hentry).1

theorem Orderly.admits_of_eq (horderly : daemon.Orderly)
    (hsame : input.config = withoutSchedulers daemon.currentEbpf) :
    daemon.Admits input.config where
  complete entry hentry :=
    horderly.complete entry (mem_withoutSchedulers (hsame ▸ hentry))
  fits chain hchain hook hhook := by
    obtain ⟨held, hheld, hsound, hholds⟩ := horderly.chain
    cases hheld.symm.trans hchain
    have hsubset : wantedInterfaces input.config hook ⊆
        interfaces (chain.regions hook) := by
      intro ifindex hwanted
      obtain ⟨entry, hentry, rfl, rfl⟩ := mem_wantedInterfaces_iff.mp hwanted
      exact hholds entry (mem_withoutSchedulers (hsame ▸ hentry)) hhook
    rw [Finset.union_eq_left.mpr hsubset, card_interfaces]
    exact (hsound.allotted hook).bounded

theorem Orderly.updateAsserts_iff (horderly : daemon.Orderly)
    (hnames : ∀ service, ops.getName service ≠ "")
    (hsort : SortsByOrder sort) :
    daemon.updateAsserts ops sort input = true ↔
      daemon.Admits input.config := by
  have hloads : (∀ entry ∈ input.config, entry.2.Complete) →
      (match daemon.prepare sort input with
        | (.error _, _) => true
        | (.ok (), loader) => loader.updateEntriesAsserts ops input.env
            daemon.currentEbpf (addSchedulers input.config).entries) =
        true := by
    intro hcomplete
    split
    · rfl
    · exact Loader.updateEntriesAsserts_of_complete hnames input.env _
        (complete_addSchedulers hcomplete) _
  obtain ⟨chain, hchain, hsound, -⟩ := horderly.chain
  unfold updateAsserts
  rw [Bool.and_eq_true]
  by_cases hsame : input.config = withoutSchedulers daemon.currentEbpf
  · have hadmits := horderly.admits_of_eq hsame
    rw [if_neg (not_not.mpr hsame)]
    exact iff_of_true ⟨rfl, hloads hadmits.complete⟩ hadmits
  · rw [if_pos hsame, Loader.rebuildChainsAsserts_iff hsort hchain hsound]
    constructor
    · rintro ⟨⟨hcomplete, hfits⟩, -⟩
      refine ⟨hcomplete, fun other hother => ?_⟩
      cases hchain.symm.trans hother
      exact hfits
    · intro hadmits
      exact ⟨⟨hadmits.complete, hadmits.fits chain hchain⟩,
        hloads hadmits.complete⟩

theorem Orderly.prepare (horderly : daemon.Orderly)
    (hsort : SortsByOrder sort) (hadmits : daemon.Admits input.config) :
    (daemon.prepare sort input).2.HasChain fun chain =>
      chain.Sound ∧ Holds chain daemon.currentEbpf ∧
        Holds chain input.config := by
  obtain ⟨chain, hchain, hsound, hholds⟩ := horderly.chain
  unfold DaemonState.prepare
  refine Loader.HasChain.congr ?_ (Loader.unloadRemoved_chain _ _ _ _)
  split_ifs with hsame
  · obtain ⟨rebuilt, hrebuilt, hrebuiltSound, hgrows, hheld⟩ :=
      Loader.rebuildHooks_sound hsort
        (fun entry hentry => (hadmits.complete entry hentry).ifindex) hchain
        hsound (List.nodup_dedup
          (input.config.entries.map fun entry => entry.2.hook))
    refine ⟨rebuilt, hrebuilt, hrebuiltSound, hholds.mono hgrows, ?_⟩
    intro entry hentry hhook
    refine hheld entry.2.hook (List.mem_dedup.mpr (List.mem_map.mpr
      ⟨entry, hentry, rfl⟩)) (hadmits.fits chain hchain _ hhook) ?_
    exact mem_wantedInterfaces_iff.mpr ⟨entry, hentry, rfl, rfl⟩
  · rw [ne_eq, not_not] at hsame
    exact ⟨chain, hchain, hsound, hholds, fun entry hentry =>
      hholds entry (mem_withoutSchedulers (hsame ▸ hentry))⟩

theorem Orderly.update (horderly : daemon.Orderly) (ops : EbpfIf σ ω π)
    (hsort : SortsByOrder sort) (hadmits : daemon.Admits input.config) :
    (daemon.update ops sort input).2.Orderly := by
  have hprepared := horderly.prepare hsort hadmits
  unfold DaemonState.update
  generalize daemon.prepare sort input = answer at hprepared ⊢
  obtain ⟨result, prepared⟩ := answer
  cases result with
  | error exc =>
      obtain ⟨chain, hchain, hsound, hholds, -⟩ := hprepared
      exact ⟨horderly.complete, chain, hchain, hsound, hholds⟩
  | ok _ =>
      have hupdated := Loader.updateEntries_kept ops (by
          rintro chain hook name prog ifindex ⟨hsound, hholds, hconfig⟩
          obtain ⟨hinserted, hregions⟩ :=
            hsound.insertProg hook name prog ifindex
          refine ⟨hinserted, hholds.mono fun hook => ?_,
            hconfig.mono fun hook => ?_⟩ <;> rw [hregions])
        input.env daemon.currentEbpf (addSchedulers input.config).entries
        hprepared
      simp only
      generalize prepared.updateEntries ops input.env daemon.currentEbpf
        (addSchedulers input.config).entries = answer at hupdated ⊢
      obtain ⟨result, updated⟩ := answer
      obtain ⟨chain, hchain, hsound, hholds, hconfig⟩ := hupdated
      cases result with
      | error exc => exact ⟨horderly.complete, chain, hchain, hsound, hholds⟩
      | ok _ =>
          exact ⟨complete_addSchedulers hadmits.complete, chain, hchain,
            hsound, hconfig.addSchedulers⟩

end Step

structure DocumentInput (σ ω : Type) where
  node : Node
  env : String → Env σ ω

def updateDocument (library : Library) (ops : EbpfIf σ ω π)
    (sort : List OrderEntry → List OrderEntry) (daemon : DaemonState σ π)
    (input : DocumentInput σ ω) : DaemonState σ π :=
  match Configs.asConfigs library input.node with
  | .error _ => daemon
  | .ok conf => (daemon.update ops sort ⟨conf.ebpfs, input.env⟩).2

/-- No assertion fails in a run of updates exactly when each document that is
accepted describes complete entries on few enough interfaces. -/
theorem updateAsserts_throughout_iff (library : Library)
    {ops : EbpfIf σ ω π} (hnames : ∀ service, ops.getName service ≠ "")
    {sort : List OrderEntry → List OrderEntry} (hsort : SortsByOrder sort)
    (inotify : InotifyManager ConfigCallback)
    (inputs : List (DocumentInput σ ω)) :
    StepsMeet (updateDocument library ops sort)
        (fun daemon input => ∀ conf,
          Configs.asConfigs library input.node = .ok conf →
          daemon.updateAsserts ops sort ⟨conf.ebpfs, input.env⟩ = true)
        (start inotify (some (.init defaultProgMap))) inputs ↔
      StepsMeet (updateDocument library ops sort)
        (fun daemon input => ∀ conf,
          Configs.asConfigs library input.node = .ok conf →
          daemon.Admits conf.ebpfs)
        (start inotify (some (.init defaultProgMap))) inputs := by
  refine @stepsMeet_iff_stepsMeet _ _ _ _ Orderly _ (fun _ => True)
    ?_ ?_ _ _ (start_orderly inotify fewIds_defaultProgMap)
    fun _ _ => trivial
  · intro daemon input horderly _ hadmits
    unfold updateDocument
    cases hread : Configs.asConfigs library input.node with
    | error exc => exact horderly
    | ok conf =>
        exact @Orderly.update _ _ _ _ _ ⟨conf.ebpfs, input.env⟩ horderly ops
          hsort (hadmits conf hread)
  · intro daemon input horderly _
    exact forall₂_congr fun conf _ =>
      @Orderly.updateAsserts_iff _ _ _ ops sort daemon
        ⟨conf.ebpfs, input.env⟩ horderly hnames hsort

theorem not_admits_of_absent {library : Library} {node : Node}
    {conf : Configs}
    (habsent : node.at? library CONFIGS_EBPFSO = .ok none)
    (hread : Configs.asConfigs library node = .ok conf)
    (daemon : DaemonState σ π) : ¬ daemon.Admits conf.ebpfs := by
  intro hadmits
  rw [Configs.ebpfs_of_asConfigs habsent hread] at hadmits
  exact (hadmits.complete ("example", .default) (.head _)).hook rfl

def aclDocument (hook : String) : DocumentInput RuleService RuleOutcomes where
  node := .map [(.scalar CONFIGS_EBPFSO, .map [(.scalar "acl", .map
    [(.scalar CONFIGS_EBPF_LIB, .scalar "libhebpf_acl.so"),
      (.scalar CONFIGS_EBPF_HOOK, .scalar hook),
      (.scalar CONFIGS_EBPF_IFINDEX, .scalar "1")])])]
  env _ := aclReading (.document .null)

theorem updateAsserts_throughout_iff_acl :
    StepsMeet (updateDocument .plain aclOps sortByOrder)
        (fun daemon input => ∀ conf,
          Configs.asConfigs .plain input.node = .ok conf →
          daemon.updateAsserts aclOps sortByOrder
            ⟨conf.ebpfs, input.env⟩ = true)
        (start .start (some (.init defaultProgMap))) [aclDocument "TC"] ↔
      StepsMeet (updateDocument .plain aclOps sortByOrder)
        (fun daemon input => ∀ conf,
          Configs.asConfigs .plain input.node = .ok conf →
          daemon.Admits conf.ebpfs)
        (start .start (some (.init defaultProgMap))) [aclDocument "TC"] := by
  refine updateAsserts_throughout_iff .plain (fun service => ?_)
    Session.sortsByOrder_sortByOrder .start [aclDocument "TC"]
  cases service <;> simp [aclOps, RuleService.ops]

/-- The name of the hook is misspelled: it is read as `UNKNOWN`, and the name of
the program cannot be formed. -/
theorem not_updateAsserts_misspelled :
    ∃ conf, Configs.asConfigs .plain (aclDocument "tc").node = .ok conf ∧
      (start .start (some (.init defaultProgMap))).updateAsserts aclOps
        sortByOrder ⟨conf.ebpfs, (aclDocument "tc").env⟩ = false := by
  have hifindex : Library.plain.int.read "1" = .ok 1 :=
    Library.plain_roundTrips.int 1
  refine ⟨{ Configs.default with
    ebpfs := ⟨[("acl", ⟨"libhebpf_acl.so", "/path/to/config.json", .unknown,
      1, 0⟩)], by simp⟩ }, ?_, by decide⟩
  simp [aclDocument, Configs.asConfigs, Configs.decode, Node.fieldOr,
    Node.at?, Node.isKey, Node.asMap, Node.readFields, Node.asString,
    Node.asScalar, asConfigEbpf, ConfigEbpf.decode, HookType.decode,
    CONFIGS_PROMETHEUS, CONFIGS_DEBUG_SERVER, CONFIGS_EBPFSO,
    CONFIGS_EBPF_LIB, CONFIGS_EBPF_CONFIG, CONFIGS_EBPF_HOOK,
    CONFIGS_EBPF_IFINDEX, CONFIGS_EBPF_ORDER, hifindex, bind, Except.bind,
    pure, Except.pure]
  decide

end DaemonState

end Hebpf.Daemon
