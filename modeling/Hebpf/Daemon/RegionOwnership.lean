import Hebpf.Daemon.Asserts
import Hebpf.Ebpf.RegionCalls

namespace Hebpf.Daemon

open Hebpf.Common Hebpf.Data Hebpf.Ebpf Hebpf.Ebpf.PinnedProgMap
  Hebpf.Inotify

/-! Which interfaces have a region after a sequence of updates.  No region is
ever given back. -/

variable {σ ω π : Type}

def requested (sort : List OrderEntry → List OrderEntry)
    (inputs : List (UpdateInput σ ω)) (hook : HookType) : List Int32 :=
  inputs.flatMap fun input => (hookOrder sort input.config hook).map Prod.snd

theorem requested_concat (sort : List OrderEntry → List OrderEntry)
    (past : List (UpdateInput σ ω)) (input : UpdateInput σ ω)
    (hook : HookType) :
    requested sort (past ++ [input]) hook =
      requested sort past hook ++
        (hookOrder sort input.config hook).map Prod.snd := by
  simp [requested]

/-- The first `MAX_NIC_HOOK` interfaces that were asked for have the regions. -/
def Serves (chain : PinnedProgMap π) (asked : HookType → List Int32) : Prop :=
  ∀ hook, Allotted (chain.regions hook) ∧
    interfaces (chain.regions hook) =
      (asked hook).foldl (allot MAX_NIC_HOOK) ∅

theorem Serves.congr {chain after : PinnedProgMap π}
    {asked : HookType → List Int32} (hserves : Serves chain asked)
    (hregions : after.regions = chain.regions) : Serves after asked := by
  intro hook
  rw [hregions]
  exact hserves hook

theorem updateChain_regions (chain : PinnedProgMap π) (hook : HookType)
    (orderedNames : List (String × Int32)) :
    (chain.updateChain hook orderedNames).2.regions = chain.regions := by
  unfold updateChain
  split <;> rfl

theorem insertProg_regions (chain : PinnedProgMap π) (hook : HookType)
    (name : String) (prog : π) (ifindex : Int32) :
    (chain.insertProg hook name prog ifindex).2.regions = chain.regions := by
  unfold insertProg
  split
  · split_ifs
    · rfl
    · split
      · rfl
      · split <;> rfl
  · rfl

namespace Loader

variable {loader : Loader σ π} {asked : HookType → List Int32}

theorem allocateChain_serves
    (hserves : loader.HasChain fun chain => Serves chain asked)
    (hook : HookType) (ifindex : Int32) :
    (loader.allocateChain hook ifindex).2.HasChain fun chain =>
      Serves chain
        (Function.update asked hook (asked hook ++ [ifindex])) := by
  obtain ⟨chain, hchain, hserves⟩ := hserves
  obtain ⟨hallotted, hinterfaces⟩ := hserves hook
  obtain ⟨hookRegions, hnew, hafter, hnewInterfaces⟩ :=
    allocateRegion_allotted hallotted ifindex
  refine ⟨(chain.allocateRegion hook ifindex).2, ?_, fun other => ?_⟩
  · simp only [allocateChain, hchain]
  · rw [hafter]
    by_cases heq : other = hook
    · subst heq
      simp only [Function.update_self]
      refine ⟨hnew, ?_⟩
      rw [hnewInterfaces, hinterfaces, List.foldl_append]
      rfl
    · simp only [Function.update_of_ne heq]
      exact hserves other

theorem foldl_allocateChain_serves
    (hserves : loader.HasChain fun chain => Serves chain asked)
    (hook : HookType) (pairs : List (String × Int32)) :
    (pairs.foldl (fun loader pair => (loader.allocateChain hook pair.2).2)
      loader).HasChain fun chain => Serves chain
        (Function.update asked hook (asked hook ++ pairs.map Prod.snd)) := by
  induction pairs generalizing loader asked with
  | nil => simpa using hserves
  | cons pair rest ih =>
      have hrest := ih (allocateChain_serves hserves hook pair.2)
      simpa using hrest

theorem rebuildChain_serves
    (hserves : loader.HasChain fun chain => Serves chain asked)
    (hook : HookType) (pairs : List (String × Int32)) :
    (loader.rebuildChain hook pairs).HasChain fun chain => Serves chain
      (Function.update asked hook (asked hook ++ pairs.map Prod.snd)) := by
  obtain ⟨chain, hchain, hall⟩ := foldl_allocateChain_serves hserves hook pairs
  refine ⟨(chain.updateChain hook pairs).2, ?_,
    hall.congr (updateChain_regions chain hook pairs)⟩
  simp only [rebuildChain, updateProgChain, hchain]

theorem foldl_rebuildChain_serves (sort : List OrderEntry → List OrderEntry)
    (config : EbpfMap) {hooks : List HookType} (hnodup : hooks.Nodup)
    (hserves : loader.HasChain fun chain => Serves chain asked) :
    (hooks.foldl (fun loader hook => loader.rebuildChain hook
      (hookOrder sort config hook)) loader).HasChain fun chain =>
        Serves chain fun hook => if hook ∈ hooks then
          asked hook ++ (hookOrder sort config hook).map Prod.snd
        else asked hook := by
  induction hooks generalizing loader asked with
  | nil => simpa using hserves
  | cons head rest ih =>
      obtain ⟨hfresh, hrest⟩ := List.nodup_cons.mp hnodup
      have hall := ih hrest
        (rebuildChain_serves hserves head (hookOrder sort config head))
      refine (congrArg (fun asked => Loader.HasChain (fun chain =>
        Serves chain asked) _) (funext fun hook => ?_)).mp hall
      by_cases heq : hook = head
      · subst heq
        simp [hfresh]
      · simp [heq]

theorem rebuildChains_serves {sort : List OrderEntry → List OrderEntry}
    (hsort : SortsByOrder sort) (config : EbpfMap)
    (hserves : loader.HasChain fun chain => Serves chain asked) :
    (loader.rebuildChains sort config).HasChain fun chain => Serves chain
      fun hook => asked hook ++ (hookOrder sort config hook).map Prod.snd := by
  have hall := foldl_rebuildChain_serves sort config (List.nodup_dedup
    (config.entries.map fun entry => entry.2.hook)) hserves
  refine (congrArg (fun asked => Loader.HasChain (fun chain =>
    Serves chain asked) _) (funext fun hook => ?_)).mp hall
  split_ifs with hused
  · rfl
  · -- A hook that does not occur asks for nothing.
    have hnone : hookOrder sort config hook = [] := by
      refine List.eq_nil_iff_forall_not_mem.mpr fun pair hpair => hused ?_
      obtain ⟨name, cfg, hentry, rfl, -⟩ := (mem_hookOrder_iff hsort).mp hpair
      exact List.mem_dedup.mpr (List.mem_map.mpr ⟨(name, cfg), hentry, rfl⟩)
    rw [hnone, List.map_nil, List.append_nil]

end Loader

namespace DaemonState

structure Served (sort : List OrderEntry → List OrderEntry)
    (past : List (UpdateInput σ ω)) (daemon : DaemonState σ π) : Prop where
  chain : daemon.loader.HasChain fun chain =>
    Serves chain (requested sort past)
  recorded : ∀ entry ∈ daemon.currentEbpf,
    entry.2.ifindex ∈ requested sort past entry.2.hook

theorem start_served (sort : List OrderEntry → List OrderEntry)
    (inotify : InotifyManager ConfigCallback)
    (progRegistry : String → Option ProgInfo) :
    @Served σ ω π sort []
      (start inotify (some (.init progRegistry))) where
  chain := ⟨.init progRegistry, rfl, fun _ => ⟨allotted_empty, rfl⟩⟩
  recorded entry hentry := absurd hentry (OrderedMap.not_mem_empty entry)

section Step

variable {ops : EbpfIf σ ω π} {sort : List OrderEntry → List OrderEntry}
  {past : List (UpdateInput σ ω)} {daemon : DaemonState σ π}

theorem Served.prepare (hsort : SortsByOrder sort)
    (hserved : daemon.Served sort past) (input : UpdateInput σ ω) :
    (daemon.prepare sort input).2.HasChain fun chain =>
      Serves chain (requested sort (past ++ [input])) := by
  have hasked : requested sort (past ++ [input]) = fun hook =>
      requested sort past hook ++
        (hookOrder sort input.config hook).map Prod.snd :=
    funext (requested_concat sort past input)
  unfold DaemonState.prepare
  refine Loader.HasChain.congr ?_ (Loader.unloadRemoved_chain _ _ _ _)
  rw [hasked]
  split_ifs with hsame
  · exact Loader.rebuildChains_serves hsort input.config hserved.chain
  · rw [ne_eq, not_not] at hsame
    obtain ⟨chain, hchain, hserves⟩ := hserved.chain
    refine ⟨chain, hchain, fun hook => ?_⟩
    obtain ⟨hallotted, hinterfaces⟩ := hserves hook
    refine ⟨hallotted, ?_⟩
    rw [hinterfaces, List.foldl_append, foldl_allot_again]
    intro ifindex hifindex
    obtain ⟨pair, hpair, rfl⟩ := List.mem_map.mp hifindex
    obtain ⟨name, cfg, hentry, rfl, rfl⟩ := (mem_hookOrder_iff hsort).mp hpair
    exact hserved.recorded (name, cfg) (mem_withoutSchedulers (hsame ▸ hentry))

theorem recorded_addSchedulers {config : EbpfMap}
    {asked : HookType → List Int32}
    (hconfig : ∀ entry ∈ config, entry.2.ifindex ∈ asked entry.2.hook) :
    ∀ entry ∈ addSchedulers config,
      entry.2.ifindex ∈ asked entry.2.hook := by
  intro entry hentry
  rcases mem_addSchedulers_iff.mp hentry with
    hconfigured | ⟨other, hother, rfl, -⟩
  · exact hconfig entry hconfigured
  · exact hconfig other hother

theorem Served.update (hsort : SortsByOrder sort)
    (hserved : daemon.Served sort past) (input : UpdateInput σ ω) :
    (daemon.update ops sort input).2.Served sort (past ++ [input]) := by
  have hprepared := hserved.prepare hsort input
  have hkept : ∀ entry ∈ daemon.currentEbpf,
      entry.2.ifindex ∈ requested sort (past ++ [input]) entry.2.hook := by
    intro entry hentry
    rw [requested_concat]
    exact List.mem_append_left _ (hserved.recorded entry hentry)
  unfold DaemonState.update
  generalize daemon.prepare sort input = answer at hprepared ⊢
  obtain ⟨result, prepared⟩ := answer
  cases result with
  | error exc => exact ⟨hprepared, hkept⟩
  | ok _ =>
      have hupdated := Loader.updateEntries_kept ops
        (fun chain hook name prog ifindex hserves =>
          Serves.congr hserves (insertProg_regions chain hook name prog
            ifindex))
        input.env daemon.currentEbpf (addSchedulers input.config).entries
        hprepared
      simp only
      generalize prepared.updateEntries ops input.env daemon.currentEbpf
        (addSchedulers input.config).entries = answer at hupdated ⊢
      obtain ⟨result, updated⟩ := answer
      cases result with
      | error exc => exact ⟨hupdated, hkept⟩
      | ok _ =>
          refine ⟨hupdated, recorded_addSchedulers fun entry hentry => ?_⟩
          rw [requested_concat]
          exact List.mem_append_right _ (List.mem_map.mpr ⟨_,
            (mem_hookOrder_iff hsort).mpr
              ⟨entry.1, entry.2, hentry, rfl, rfl⟩, rfl⟩)

end Step

def updateAll (ops : EbpfIf σ ω π) (sort : List OrderEntry → List OrderEntry)
    (daemon : DaemonState σ π) (inputs : List (UpdateInput σ ω)) :
    DaemonState σ π :=
  run (fun daemon input => (daemon.update ops sort input).2) daemon inputs

theorem updateAll_served (ops : EbpfIf σ ω π)
    {sort : List OrderEntry → List OrderEntry} (hsort : SortsByOrder sort)
    (inotify : InotifyManager ConfigCallback)
    (progRegistry : String → Option ProgInfo)
    (inputs : List (UpdateInput σ ω)) :
    (updateAll ops sort (start inotify (some (.init progRegistry)))
      inputs).Served sort inputs := by
  induction inputs using List.reverseRecOn with
  | nil => exact start_served sort inotify progRegistry
  | append_singleton past input ih =>
      rw [updateAll, run_append]
      exact ih.update hsort input

def OwnsRegions (daemon : DaemonState σ π) (config : EbpfMap) : Prop :=
  ∀ chain, daemon.loader.chain = some chain → ∀ entry ∈ config,
    ∃ start, (chain.regions entry.2.hook).lookup entry.2.ifindex = some start

/-- After any updates the entries of the last one have regions exactly where,
when each interface was first asked for, fewer than four others had been. -/
theorem ownsRegions_iff (ops : EbpfIf σ ω π)
    {sort : List OrderEntry → List OrderEntry} (hsort : SortsByOrder sort)
    (inotify : InotifyManager ConfigCallback)
    (progRegistry : String → Option ProgInfo)
    (earlier : List (UpdateInput σ ω)) (last : UpdateInput σ ω) :
    (updateAll ops sort (start inotify (some (.init progRegistry)))
        (earlier ++ [last])).OwnsRegions last.config ↔
      ∀ entry ∈ last.config, ∃ before after,
        requested sort (earlier ++ [last]) entry.2.hook =
            before ++ entry.2.ifindex :: after ∧
          before.toFinset.card < MAX_NIC_HOOK := by
  obtain ⟨⟨chain, hchain, hserves⟩, -⟩ :=
    updateAll_served ops hsort inotify progRegistry (earlier ++ [last])
  have howned : ∀ hook ifindex,
      (∃ start, (chain.regions hook).lookup ifindex = some start) ↔
        ∃ before after, requested sort (earlier ++ [last]) hook =
            before ++ ifindex :: after ∧
          before.toFinset.card < MAX_NIC_HOOK := by
    intro hook ifindex
    rw [← mem_interfaces_iff, (hserves hook).2, mem_foldl_allot_iff]
    simp only [Finset.notMem_empty, Finset.empty_union, false_or]
  constructor
  · intro howns entry hentry
    exact (howned _ _).mp (howns chain hchain entry hentry)
  · intro hfirst other hother entry hentry
    cases hchain.symm.trans hother
    exact (howned _ _).mpr (hfirst entry hentry)

def movedTo (ifindex : Int32) : UpdateInput Program Unit where
  config := ⟨[("acl", ⟨"libhebpf_acl_xdp.so", "", .xdpGeneric, ifindex, 1⟩)],
    by simp⟩
  env name := opening (Session.chainProgram name)

def chained : DaemonState Program Program :=
  start .start (some (.init defaultProgMap))

theorem ownsRegions_iff_movedTo :
    (updateAll programOps sortByOrder chained
      ([movedTo 1] ++ [movedTo 2])).OwnsRegions (movedTo 2).config := by
  refine (ownsRegions_iff programOps Session.sortsByOrder_sortByOrder .start
    defaultProgMap [movedTo 1] (movedTo 2)).mpr fun entry hentry => ?_
  obtain rfl := List.mem_singleton.mp hentry
  exact ⟨[1], [], by decide, by decide⟩

/-- The fifth interface gets no region, though the other four are gone. -/
theorem not_ownsRegions_movedTo :
    (∀ input ∈ [movedTo 1, movedTo 2, movedTo 3, movedTo 4, movedTo 5],
        ∀ entry ∈ input.config.entries,
          entry.2.hook = .xdpGeneric ∧ 0 < entry.2.ifindex) ∧
      (wantedInterfaces (movedTo 5).config .xdpGeneric).card = 1 ∧
      ¬ (updateAll programOps sortByOrder chained
        ([movedTo 1, movedTo 2, movedTo 3, movedTo 4] ++
          [movedTo 5])).OwnsRegions (movedTo 5).config := by
  have hregion : ((updateAll programOps sortByOrder chained
      ([movedTo 1, movedTo 2, movedTo 3, movedTo 4] ++
        [movedTo 5])).loader.chain.map fun chain =>
          (chain.regions .xdpGeneric).lookup 5) = some none := by
    decide +kernel
  refine ⟨by decide, by decide, fun howns => ?_⟩
  obtain ⟨chain, hchain, hnone⟩ := Option.map_eq_some_iff.mp hregion
  obtain ⟨start, hstart⟩ := howns chain hchain
    ("acl", ⟨"libhebpf_acl_xdp.so", "", .xdpGeneric, 5, 1⟩) (.head _)
  rw [hnone] at hstart
  cases hstart

end DaemonState

namespace Loader

def NoSpace (loader : Loader σ π) (hook : HookType) (ifindex : Int32) : Prop :=
  ∃ chain, loader.chain = some chain ∧
    (chain.regions hook).lookup ifindex = none ∧
    MAX_CHAIN_PROGS < nextStart (chain.regions hook) + MAX_PER_NIC_PROGS

structure AnswersOwnership (loader : Loader σ π) (hook : HookType)
    (ifindex : Int32) : Prop where
  owned : (loader.allocateChain hook ifindex).1 = true ↔
    ∃ chain, (loader.allocateChain hook ifindex).2.chain = some chain ∧
      0 ≤ chain.getStartIndex hook ifindex
  refused : (loader.allocateChain hook ifindex).1 = false ↔
    loader.NoSpace hook ifindex

/-- The interface has a region, but not the first one, or is given one that is
neither the first nor behind the array. -/
def AwayFromEnds (hookRegions : Table Int32 Nat) (ifindex : Int32) : Prop :=
  (∃ start, hookRegions.lookup ifindex = some start ∧ 0 < start) ∨
    hookRegions.lookup ifindex = none ∧
      (∃ other start, hookRegions.lookup other = some start) ∧
      ∀ other, hookRegions.lookup other ≠
        some (MAX_CHAIN_PROGS - MAX_PER_NIC_PROGS)

section Answers

variable (loader : Loader σ π) {chain : PinnedProgMap π} {hook : HookType}
  {ifindex : Int32}

theorem answersOwnership_of_region {start : Nat}
    (hlookup : (chain.regions hook).lookup ifindex = some start) :
    ({ loader with chain := some chain }).AnswersOwnership hook ifindex ↔
      0 < start := by
  have hanswer : ({ loader with chain := some chain } :
      Loader σ π).allocateChain hook ifindex =
        (decide ((start : Int) ≠ 0), { loader with chain := some chain }) := by
    simp only [allocateChain, allocateRegion_of_region hlookup]
  have hindex : chain.getStartIndex hook ifindex = start := by
    simp only [getStartIndex, hlookup]
  constructor
  · intro hanswers
    have howned := hanswers.owned.mpr
    rw [hanswer] at howned
    have hnonzero := of_decide_eq_true
      (howned ⟨chain, rfl, hindex ▸ Int.natCast_nonneg start⟩)
    omega
  · intro hpositive
    have hnonzero : decide ((start : Int) ≠ 0) = true :=
      decide_eq_true (by omega)
    constructor
    · rw [hanswer]
      exact iff_of_true hnonzero
        ⟨chain, rfl, hindex ▸ Int.natCast_nonneg start⟩
    · rw [hanswer, hnonzero]
      refine iff_of_false Bool.noConfusion ?_
      intro hspace
      obtain ⟨other, hchain, hnone, -⟩ := hspace
      cases hchain
      rw [hlookup] at hnone
      cases hnone

theorem not_answersOwnership_of_full
    (hlookup : (chain.regions hook).lookup ifindex = none)
    (hfull : MAX_CHAIN_PROGS <
      nextStart (chain.regions hook) + MAX_PER_NIC_PROGS) :
    ¬ ({ loader with chain := some chain }).AnswersOwnership hook
      ifindex := by
  intro hanswers
  have hanswer : ({ loader with chain := some chain } :
      Loader σ π).allocateChain hook ifindex =
        (true, { loader with chain := some chain }) := by
    simp [allocateChain, allocateRegion, hlookup, hfull]
  have hrefused := hanswers.refused.mpr ⟨chain, rfl, hlookup, hfull⟩
  rw [hanswer] at hrefused
  cases hrefused

theorem answersOwnership_of_space
    (hlookup : (chain.regions hook).lookup ifindex = none)
    (hspace : ¬ MAX_CHAIN_PROGS <
      nextStart (chain.regions hook) + MAX_PER_NIC_PROGS) :
    ({ loader with chain := some chain }).AnswersOwnership hook ifindex ↔
      nextStart (chain.regions hook) ≠ 0 := by
  have hanswer : (({ loader with chain := some chain } :
      Loader σ π).allocateChain hook ifindex).1 =
        decide (nextStart (chain.regions hook) ≠ 0) := by
    simp [allocateChain, allocateRegion, hlookup, hspace]
  have howner : ∃ after, (({ loader with chain := some chain } :
      Loader σ π).allocateChain hook ifindex).2.chain = some after ∧
        0 ≤ after.getStartIndex hook ifindex := by
    refine ⟨(chain.allocateRegion hook ifindex).2, rfl, ?_⟩
    simp [allocateRegion, hlookup, hspace, getStartIndex]
  constructor
  · intro hanswers
    have howned := hanswers.owned.mpr howner
    rw [hanswer] at howned
    exact of_decide_eq_true howned
  · intro hnonzero
    have htrue := decide_eq_true hnonzero
    constructor
    · rw [hanswer]
      exact iff_of_true htrue howner
    · rw [hanswer, htrue]
      refine iff_of_false Bool.noConfusion ?_
      intro hnone
      obtain ⟨other, hchain, -, hfull⟩ := hnone
      cases hchain
      exact hspace hfull

end Answers

/-- On any table that allocations and releases lead to, the answer is right
exactly away from both ends of the array. -/
theorem answersOwnership_iff (loader : Loader σ π)
    (progRegistry : String → Option ProgInfo) (calls : List RegionCall)
    (hook : HookType) (nic : Nic) :
    ({ loader with chain := some (run regionCall (init progRegistry) calls) } :
        Loader σ π).AnswersOwnership hook nic ↔
      AwayFromEnds ((run (@regionCall π) (init progRegistry) calls).regions
        hook) nic := by
  have hspaced := @spaced_regionRun π progRegistry calls hook
  generalize run (@regionCall π) (init progRegistry) calls = chain at hspaced ⊢
  unfold AwayFromEnds
  cases hlookup : (chain.regions hook).lookup nic.val with
  | some start =>
      rw [answersOwnership_of_region loader hlookup]
      simp
  | none =>
      simp only [reduceCtorEq, false_and, exists_const, false_or, true_and]
      by_cases hfull : MAX_CHAIN_PROGS <
          nextStart (chain.regions hook) + MAX_PER_NIC_PROGS
      · refine iff_of_false
          (not_answersOwnership_of_full loader hlookup hfull) ?_
        intro hends
        obtain ⟨last, hlast⟩ := hspaced.full_iff.mp hfull
        exact hends.2 last hlast
      · rw [answersOwnership_of_space loader hlookup hfull, ne_eq,
          hspaced.nextStart_eq_zero_iff]
        have hlast := not_exists.mp (hspaced.full_iff.not.mp hfull)
        constructor
        · intro hused
          obtain ⟨other, hother⟩ := not_forall.mp hused
          exact ⟨⟨other, Option.ne_none_iff_exists'.mp hother⟩, hlast⟩
        · intro hends hnone
          obtain ⟨⟨other, start, hother⟩, -⟩ := hends
          rw [hnone other] at hother
          cases hother

def emptyChain : Loader Unit Unit :=
  start .start (some (.init defaultProgMap))

def fullChain : Loader Unit Unit :=
  start .start (some (run regionCall (init defaultProgMap) fourAllocated))

/-- The first interface is given the first region, and the answer is that it
has none; the fifth one is given none, and the answer is that it has one. -/
theorem not_answersOwnership_ends :
    (emptyChain.allocateChain .xdpGeneric 11).1 = false ∧
      ((emptyChain.allocateChain .xdpGeneric 11).2.chain.map fun chain =>
        chain.getStartIndex .xdpGeneric 11) = some 0 ∧
      ¬ emptyChain.AnswersOwnership .xdpGeneric 11 ∧
      (fullChain.allocateChain .xdpGeneric 5).1 = true ∧
      ((fullChain.allocateChain .xdpGeneric 5).2.chain.map fun chain =>
        chain.getStartIndex .xdpGeneric 5) = some (-1) ∧
      ¬ fullChain.AnswersOwnership .xdpGeneric 5 := by
  refine ⟨by decide, by decide, ?_, by decide, by decide, ?_⟩
  · intro hanswers
    obtain ⟨chain, hchain, -, hfull⟩ := hanswers.refused.mp (by decide)
    cases hchain
    revert hfull
    decide
  · intro hanswers
    obtain ⟨chain, hchain, howned⟩ := hanswers.owned.mp (by decide)
    cases hchain
    revert howned
    decide

end Loader

end Hebpf.Daemon
