import Hebpf.Daemon.ChainTables
import Hebpf.Daemon.LoadLoop

namespace Hebpf.Daemon

open Hebpf.Common Hebpf.Data Hebpf.Ebpf Hebpf.Ebpf.PinnedProgMap Loader

/-! What the loop that loads services leaves in the program arrays. -/

attribute [local irreducible] getCanonicalName schedulerLib hookSuffix

variable {σ ω π : Type}

def Loader.mainProg (ops : EbpfIf σ ω π) (loader : Loader σ π)
    (soPath : String) : Option π :=
  (loader.placed ops.getMainProg soPath).bind Placed.part

def Loads (ops : EbpfIf σ ω π) (env : Env σ ω) (loader : Loader σ π)
    (cfg : ConfigEbpf) : Prop :=
  (loader.loadService ops env cfg.lib cfg.hook cfg.ifindex cfg.config).1 =
    .ok true

/-- The library of an entry gives a service with a program, under the name and
the id the chain knows it by. -/
def BuiltFor (ops : EbpfIf σ ω π) (progId : π → UInt32)
    (progRegistry : String → Option ProgInfo) (env : Env σ ω)
    (entry : String × ConfigEbpf) : Prop :=
  ∀ service, env.opened = .started service → ∃ prog,
    ops.getMainProg service = some prog ∧
      getCanonicalName entry.2.hook .program (ops.getName service) =
        officialName entry ∧
      progRegistry (officialName entry) = some ⟨progId prog, entry.2.hook⟩

def Kept (current : EbpfMap) (entry : String × ConfigEbpf) : Prop :=
  ∃ held, current.find? entry.1 = some held ∧ place held = place entry.2

section Loop

variable (ops : EbpfIf σ ω π) (progId : π → UInt32)
  (sort : List OrderEntry → List OrderEntry)
  (progRegistry : String → Option ProgInfo) (current config : EbpfMap)

def Stands (loader : Loader σ π) (chain : PinnedProgMap π)
    (entry : String × ConfigEbpf) : Prop :=
  ∃ prog, loader.mainProg ops entry.2.lib = some prog ∧
    progRegistry (officialName entry) = some ⟨progId prog, entry.2.hook⟩ ∧
    ∀ k, (chainOf sort config entry.2.hook)[k]? = some (officialName entry) →
      chain.slot entry.2.hook k = some prog

/-- The id hashes hold the chains of the configuration, and nothing stands
behind these in the program arrays. -/
structure Written (chain : PinnedProgMap π) : Prop where
  tables : Tables progRegistry config chain
  indexed : ∀ entry ∈ config, Indexed sort progRegistry config chain
    entry.2.hook entry.2.ifindex
  unused : ∀ hook, hookEntries config hook = [] → chain.regions hook = ∅
  beyond : ∀ hook k, (chainOf sort config hook).length ≤ k →
    k < MAX_CHAIN_PROGS → chain.slot hook k = none

def heldLib (gone : List String) (entry : String × ConfigEbpf) :
    Option String :=
  ((current.find? entry.1).map ConfigEbpf.lib).filter (· ∉ gone)

def loadedLibs (gone : List String) (before rest : List (String × ConfigEbpf)) :
    List String :=
  before.map (fun entry => entry.2.lib) ++ rest.filterMap (heldLib current gone)

structure Progress (gone : List String)
    (before rest : List (String × ConfigEbpf)) (loader : Loader σ π)
    (chain : PinnedProgMap π) : Prop where
  holds : loader.chain = some chain
  keyed : loader.WellKeyed ops.getMainProg
  libs : ∀ soPath, (loader.placed ops.getMainProg soPath).isSome ↔
    soPath ∈ loadedLibs current gone before rest
  nodup : (loadedLibs current gone before rest).Nodup
  written : Written sort progRegistry config chain
  done : ∀ entry ∈ before,
    Stands ops progId sort progRegistry config loader chain entry
  kept : ∀ entry ∈ rest, Kept current entry → entry.2.lib ∉ gone ∧
    Stands ops progId sort progRegistry config loader chain entry

end Loop

section Steps

variable {ops : EbpfIf σ ω π} {progId : π → UInt32}
  {sort : List OrderEntry → List OrderEntry}
  {progRegistry : String → Option ProgInfo} {current config : EbpfMap}
  {gone : List String} {before rest : List (String × ConfigEbpf)}
  {entry : String × ConfigEbpf}
  {loader after : Loader σ π} {chain : PinnedProgMap π}

theorem Stands.congr {changed : PinnedProgMap π}
    (hstands : Stands ops progId sort progRegistry config loader chain entry)
    (hsame : after.placed ops.getMainProg entry.2.lib =
      loader.placed ops.getMainProg entry.2.lib)
    (hplaces : ∀ k,
      (chainOf sort config entry.2.hook)[k]? = some (officialName entry) →
        changed.slot entry.2.hook k = chain.slot entry.2.hook k) :
    Stands ops progId sort progRegistry config after changed entry := by
  obtain ⟨prog, hmain, hid, hslots⟩ := hstands
  refine ⟨prog, ?_, hid, ?_⟩
  · rw [mainProg, hsame]
    exact hmain
  · intro k hk
    rw [hplaces k hk]
    exact hslots k hk

theorem Stands.of_mainProg
    (hstands : Stands ops progId sort progRegistry config loader chain entry)
    (hsame : after.placed ops.getMainProg entry.2.lib =
      loader.placed ops.getMainProg entry.2.lib) :
    Stands ops progId sort progRegistry config after chain entry :=
  hstands.congr hsame fun _ _ => rfl

theorem heldLib_eq {held : ConfigEbpf}
    (hfind : current.find? entry.1 = some held) (hleft : held.lib ∉ gone) :
    heldLib current gone entry = some held.lib := by
  simp [heldLib, hfind, hleft]

theorem Kept.heldLib_eq (hkept : Kept current entry)
    (hleft : entry.2.lib ∉ gone) :
    heldLib current gone entry = some entry.2.lib := by
  obtain ⟨held, hfind, hplace⟩ := hkept
  have hlib : held.lib = entry.2.lib := congrArg Prod.fst hplace
  rw [Hebpf.Daemon.heldLib_eq hfind (hlib ▸ hleft), hlib]

theorem Kept.mem_loadedLibs (hkept : Kept current entry)
    (hleft : entry.2.lib ∉ gone) (hentry : entry ∈ rest) :
    entry.2.lib ∈ loadedLibs current gone before rest :=
  List.mem_append_right _
    (List.mem_filterMap.mpr ⟨entry, hentry, hkept.heldLib_eq hleft⟩)

theorem Progress.same
    (hprogress : Progress ops progId sort progRegistry current config gone before
      rest loader chain)
    (hsame : SameServices ops.getMainProg loader after) :
    Progress ops progId sort progRegistry current config gone before rest after
      chain where
  holds := hsame.chain.trans hprogress.holds
  keyed := fun soPath service hservice =>
    hprogress.keyed soPath service (hsame.placed soPath ▸ hservice)
  libs := fun soPath => by rw [hsame.placed, hprogress.libs]
  nodup := hprogress.nodup
  written := hprogress.written
  done := fun entry hentry =>
    (hprogress.done entry hentry).of_mainProg (hsame.placed _)
  kept := fun entry hentry hkept =>
    (hprogress.kept entry hentry hkept).imp_right
      fun hstands => hstands.of_mainProg (hsame.placed _)

theorem Progress.fresh
    (hprogress : Progress ops progId sort progRegistry current config gone
      before (entry :: rest) loader chain)
    (hfind : current.find? entry.1 = none) :
    Progress ops progId sort progRegistry current config gone before rest
      loader chain := by
  have hlibs : loadedLibs current gone before (entry :: rest) =
      loadedLibs current gone before rest := by
    simp [loadedLibs, heldLib, hfind]
  exact { hprogress with
    libs := hlibs ▸ hprogress.libs
    nodup := hlibs ▸ hprogress.nodup
    kept := fun other hother => hprogress.kept other (.tail _ hother) }

theorem Progress.keep
    (hprogress : Progress ops progId sort progRegistry current config gone
      before (entry :: rest) loader chain) (hkept : Kept current entry) :
    Progress ops progId sort progRegistry current config gone
      (before ++ [entry]) rest loader chain := by
  obtain ⟨hleft, hstands⟩ := hprogress.kept entry (.head _) hkept
  have hlibs : loadedLibs current gone before (entry :: rest) =
      loadedLibs current gone (before ++ [entry]) rest := by
    simp [loadedLibs, hkept.heldLib_eq hleft]
  exact { hprogress with
    libs := hlibs ▸ hprogress.libs
    nodup := hlibs ▸ hprogress.nodup
    done := by
      intro other hother
      rcases List.mem_append.mp hother with hother | hother
      · exact hprogress.done other hother
      · cases List.mem_singleton.mp hother
        exact hstands
    kept := fun other hother => hprogress.kept other (.tail _ hother) }

theorem mem_loadedLibs_concat {soPath : String} :
    soPath ∈ loadedLibs current gone (before ++ [entry]) rest ↔
      soPath = entry.2.lib ∨ soPath ∈ loadedLibs current gone before rest := by
  simp only [loadedLibs, List.map_append, List.mem_append, List.map_cons,
    List.map_nil, List.mem_singleton]
  tauto

theorem nodup_loadedLibs_concat
    (hnot : entry.2.lib ∉ loadedLibs current gone before rest)
    (hnodup : (loadedLibs current gone before rest).Nodup) :
    (loadedLibs current gone (before ++ [entry]) rest).Nodup := by
  have hmiddle : loadedLibs current gone (before ++ [entry]) rest =
      before.map (fun entry => entry.2.lib) ++ entry.2.lib ::
        rest.filterMap (heldLib current gone) := by
    simp [loadedLibs]
  rw [hmiddle, List.nodup_middle, List.nodup_cons]
  exact ⟨hnot, hnodup⟩

theorem loadedLibs_drop {held : ConfigEbpf}
    (hfind : current.find? entry.1 = some held)
    (hgone : held.lib ∈ gone → ∀ other ∈ before, other.2.lib ≠ held.lib)
    (hnodup : (loadedLibs current gone before (entry :: rest)).Nodup) :
    held.lib ∉ loadedLibs current gone before rest ∧
      (loadedLibs current gone before rest).Nodup ∧
      ∀ soPath, soPath ≠ held.lib →
        (soPath ∈ loadedLibs current gone before (entry :: rest) ↔
          soPath ∈ loadedLibs current gone before rest) := by
  by_cases hleft : held.lib ∈ gone
  · have hsame : loadedLibs current gone before (entry :: rest) =
        loadedLibs current gone before rest := by
      simp [loadedLibs, heldLib, hfind, hleft]
    rw [hsame] at hnodup ⊢
    refine ⟨?_, hnodup, fun soPath _ => Iff.rfl⟩
    rw [loadedLibs, List.mem_append, not_or]
    constructor
    · intro hmem
      obtain ⟨other, hother, hlib⟩ := List.mem_map.mp hmem
      exact hgone hleft other hother hlib
    · intro hmem
      obtain ⟨other, -, hlib⟩ := List.mem_filterMap.mp hmem
      exact of_decide_eq_true (Option.filter_eq_some_iff.mp hlib).2 hleft
  · have hmiddle : loadedLibs current gone before (entry :: rest) =
        before.map (fun entry => entry.2.lib) ++ held.lib ::
          rest.filterMap (heldLib current gone) := by
      simp [loadedLibs, heldLib_eq hfind hleft]
    rw [hmiddle] at hnodup ⊢
    rw [List.nodup_middle, List.nodup_cons] at hnodup
    refine ⟨hnodup.1, hnodup.2, fun soPath hne => ?_⟩
    rw [List.mem_append, List.mem_cons, or_iff_right hne, loadedLibs,
      List.mem_append]

theorem Progress.drop
    (hprogress : Progress ops progId sort progRegistry current config gone
      before (entry :: rest) loader chain) {held : ConfigEbpf}
    (hfind : current.find? entry.1 = some held)
    (hgone : held.lib ∈ gone → ∀ other ∈ before, other.2.lib ≠ held.lib)
    (env : Env σ ω) :
    (loader.unloadEbpf env held.lib).1 = .ok () ∧
      Progress ops progId sort progRegistry current config gone before rest
        (loader.unloadEbpf env held.lib).2 chain := by
  obtain ⟨hok, hplaced, hchain⟩ :=
    unloadEbpf_placed hprogress.keyed env held.lib
  obtain ⟨hnot, hnodup, hsame⟩ :=
    loadedLibs_drop hfind hgone hprogress.nodup
  have hstands : ∀ other,
      other.2.lib ∈ loadedLibs current gone before rest →
      Stands ops progId sort progRegistry config loader chain other →
      Stands ops progId sort progRegistry config
        (loader.unloadEbpf env held.lib).2 chain other := by
    intro other hother hold
    refine hold.of_mainProg ?_
    rw [hplaced, if_neg]
    intro heq
    exact hnot (heq ▸ hother)
  refine ⟨hok, hchain.trans hprogress.holds, hprogress.keyed.of_placed hplaced,
    fun soPath => ?_, hnodup, hprogress.written, ?_, ?_⟩
  · rw [hplaced]
    split_ifs with heq
    · subst heq
      exact iff_of_false (by simp) hnot
    · rw [hprogress.libs, hsame soPath (Ne.symm heq)]
  · intro other hother
    exact hstands other (List.mem_append_left _ (List.mem_map_of_mem hother))
      (hprogress.done other hother)
  · intro other hother hkept
    obtain ⟨hleft, hstood⟩ := hprogress.kept other (.tail _ hother) hkept
    exact ⟨hleft, hstands other (hkept.mem_loadedLibs hleft hother) hstood⟩

end Steps

section Loads

variable {ops : EbpfIf σ ω π} {progId : π → UInt32}
  {sort : List OrderEntry → List OrderEntry}
  {progRegistry : String → Option ProgInfo} {current config : EbpfMap}
  {gone : List String} {before rest : List (String × ConfigEbpf)}
  {entry : String × ConfigEbpf}
  {loader : Loader σ π} {chain : PinnedProgMap π}
  (hview : ∀ outcomes hook ifindex config service,
    ops.getMainProg (ops.onConfigUpdate outcomes hook ifindex config
      service).2 = ops.getMainProg service)

include hview

theorem loadEbpf_inserts {env : Env σ ω} (hloads : Loads ops env loader entry.2)
    (hbuilt : BuiltFor ops progId progRegistry env entry)
    (hchain : loader.chain = some chain) :
    let after := (loader.loadEbpf ops env entry.2).2
    (loader.loadEbpf ops env entry.2).1 = .ok () ∧
      loader.placed ops.getMainProg entry.2.lib = none ∧
      ∃ prog, progRegistry (officialName entry) =
          some ⟨progId prog, entry.2.hook⟩ ∧
        (∀ other, after.placed ops.getMainProg other =
          if entry.2.lib = other then
            some ⟨entry.2.lib, entry.2.hook, entry.2.ifindex, some prog⟩
          else loader.placed ops.getMainProg other) ∧
        after.chain = some (chain.insertProg entry.2.hook (officialName entry)
          prog entry.2.ifindex).2 := by
  obtain ⟨service, old, hopened, hfresh, hold, hplaced, hinserted⟩ :=
    loadService_spec hview hloads
  obtain ⟨prog, hprog, hname, hid⟩ := hbuilt service hopened
  cases hchain.symm.trans hold
  have hmain : ((loader.loadService ops env entry.2.lib entry.2.hook
      entry.2.ifindex entry.2.config).2.services.lookup entry.2.lib).bind
        (fun handle => ops.getMainProg handle.service) = some prog := by
    have hself := hplaced entry.2.lib
    rw [if_pos rfl, placed] at hself
    obtain ⟨handle, hlookup, hhandle⟩ := Option.map_eq_some_iff.mp hself
    rw [hlookup, Option.bind_some, ← hprog]
    exact congrArg Placed.part hhandle
  rw [registerToChain, hmain, hname] at hinserted
  rw [hprog] at hplaced
  unfold Loads at hloads
  unfold loadEbpf
  generalize loader.loadService ops env entry.2.lib entry.2.hook
    entry.2.ifindex entry.2.config = answer at hloads hplaced hinserted ⊢
  obtain ⟨result, after⟩ := answer
  cases hloads
  exact ⟨rfl, hfresh, prog, hid, hplaced, hinserted⟩

variable (hsort : SortsByOrder sort) (hdomain : InDomain progRegistry config)
  (hchainable : Chainable progRegistry config)
  (hschedulers : SchedulersRegistered progRegistry)

include hsort hdomain hchainable hschedulers

theorem Progress.load
    (hprogress : Progress ops progId sort progRegistry current config gone before
      rest loader chain)
    (hentry : entry ∈ addSchedulers config)
    (hothers : ∀ other ∈ before ++ rest,
      other ∈ addSchedulers config ∧ other ≠ entry)
    {env : Env σ ω} (hloads : Loads ops env loader entry.2)
    (hbuilt : BuiltFor ops progId progRegistry env entry) :
    (loader.loadEbpf ops env entry.2).1 = .ok () ∧
      ∃ inserted, Progress ops progId sort progRegistry current config gone
        (before ++ [entry]) rest (loader.loadEbpf ops env entry.2).2
        inserted := by
  obtain ⟨hok, hfresh, prog, hid, hplaced, hchain⟩ :=
    loadEbpf_inserts hview hloads hbuilt hprogress.holds
  obtain ⟨other, hother, hhook, hifindex⟩ := hchainable.exists_config hentry
  obtain ⟨k, hk, hname⟩ := List.mem_iff_getElem.mp
    (officialName_mem_chainOf hsort hchainable hentry)
  have hname : (chainOf sort config entry.2.hook)[k]? =
      some (officialName entry) := List.getElem?_eq_some_iff.mpr ⟨hk, hname⟩
  have hlength := hchainable.length_chainOf hsort hdomain entry.2.hook
  have hsize : MAX_PER_NIC_PROGS ≤ MAX_CHAIN_PROGS := by decide
  obtain ⟨htables, hindexed, hregions, hslots⟩ := insertProg_tables
    hprogress.written.tables (hhook ▸ hdomain.hooks other hother)
    (hhook ▸ hifindex ▸ hprogress.written.indexed other hother) hid hname
    (by omega) prog
  have hnot : entry.2.lib ∉ loadedLibs current gone before rest := by
    rw [← hprogress.libs, hfresh]
    exact Bool.false_ne_true
  -- The others keep their services and their places.
  have hstands : ∀ other ∈ before ++ rest,
      other.2.lib ∈ loadedLibs current gone before rest →
      Stands ops progId sort progRegistry config loader chain other →
      Stands ops progId sort progRegistry config
        (loader.loadEbpf ops env entry.2).2 (chain.insertProg entry.2.hook
          (officialName entry) prog entry.2.ifindex).2 other := by
    intro other hother hlib hstood
    apply hstood.congr
    · rw [hplaced, if_neg]
      intro heq
      exact hnot (heq ▸ hlib)
    · intro j hj
      obtain ⟨hbound, -⟩ := List.getElem?_eq_some_iff.mp hj
      have hotherLength :=
        hchainable.length_chainOf hsort hdomain other.2.hook
      rw [hslots _ _ (by omega), if_neg]
      intro hsame
      obtain ⟨heq, rfl⟩ := hsame
      rw [heq, hname] at hj
      obtain ⟨hmem, hne⟩ := hothers other hother
      exact hne (hchainable.officialName_inj hdomain hschedulers hmem hentry
        heq (Option.some.inj hj).symm)
  refine ⟨hok, _, hchain, ?_, fun soPath => ?_, ?_, ⟨htables, ?_, ?_, ?_⟩, ?_,
    ?_⟩
  · intro soPath service hservice
    rw [hplaced] at hservice
    split_ifs at hservice with heq
    · cases hservice
      exact heq
    · exact hprogress.keyed soPath service hservice
  · rw [hplaced, mem_loadedLibs_concat, ← hprogress.libs]
    split_ifs with heq
    · simp [heq]
    · rw [or_iff_right (Ne.symm heq)]
  · exact nodup_loadedLibs_concat hnot hprogress.nodup
  · exact fun other hother =>
      hindexed _ _ (hprogress.written.indexed other hother)
  · rw [hregions]
    exact hprogress.written.unused
  · intro hook j hbehind hj
    rw [hslots _ _ hj, if_neg]
    · exact hprogress.written.beyond hook j hbehind hj
    · rintro ⟨rfl, rfl⟩
      omega
  · intro other hother
    rcases List.mem_append.mp hother with hother | hother
    · exact hstands other (List.mem_append_left _ hother)
        (List.mem_append_left _ (List.mem_map_of_mem hother))
        (hprogress.done other hother)
    · cases List.mem_singleton.mp hother
      refine ⟨prog, by rw [mainProg, hplaced, if_pos rfl]; rfl, hid,
        fun j hj => ?_⟩
      obtain ⟨hbound, -⟩ := List.getElem?_eq_some_iff.mp hj
      rw [hslots _ _ (by omega), if_pos]
      exact ⟨rfl, (hchainable.registered hsort hdomain hschedulers
        entry.2.hook).position_inj hj hname⟩
  · intro other hother hkept
    obtain ⟨hleft, hstood⟩ := hprogress.kept other hother hkept
    exact ⟨hleft, hstands other (List.mem_append_right _ hother)
      (hkept.mem_loadedLibs hleft hother) hstood⟩

theorem Progress.updateEntry
    (hprogress : Progress ops progId sort progRegistry current config gone before
      (entry :: rest) loader chain)
    (hentry : entry ∈ addSchedulers config)
    (hothers : ∀ other ∈ before ++ rest,
      other ∈ addSchedulers config ∧ other ≠ entry)
    (hgone : ∀ held, current.find? entry.1 = some held → held.lib ∈ gone →
      ∀ other ∈ before, other.2.lib ≠ held.lib)
    {env : Env σ ω}
    (hloads : ∀ before,
      loader.beforeLoad env current entry.1 entry.2 = some before →
        Loads ops env before entry.2)
    (hbuilt : BuiltFor ops progId progRegistry env entry)
    (haccepts : Reconfigured current entry → AcceptsConfig ops env entry.2) :
    (loader.updateEntry ops env current entry.1 entry.2).1 = .ok () ∧
      ∃ after, Progress ops progId sort progRegistry current config gone
        (before ++ [entry]) rest
        (loader.updateEntry ops env current entry.1 entry.2).2 after := by
  unfold Loader.updateEntry
  unfold beforeLoad at hloads
  cases hfind : current.find? entry.1 with
  | none =>
      simp only [hfind, Option.some.injEq, forall_eq'] at hloads
      exact (hprogress.fresh hfind).load hview hsort hdomain hchainable
        hschedulers hentry hothers hloads hbuilt
  | some held =>
      simp only [hfind] at hloads ⊢
      by_cases hplace : place held = place entry.2
      · simp only [hplace, ne_eq, not_true_eq_false, if_false]
        have hkept : Kept current entry := ⟨held, hfind, hplace⟩
        split_ifs with hconfig
        · exact ⟨rfl, chain, hprogress.keep hkept⟩
        · obtain ⟨-, prog, hprog, -⟩ := hprogress.kept entry (.head _) hkept
          have hloaded : (loader.loaded entry.2.lib).isSome := by
            rw [Option.isSome_iff_ne_none, ne_eq, ← placed_eq_none_iff]
            intro hnone
            rw [mainProg, hnone] at hprog
            cases hprog
          obtain ⟨after, hok, hregistered, hsame⟩ := reconfigure_same hview
            (congrArg Prod.fst hplace)
            (haccepts ⟨held, hfind, hplace, hconfig⟩) hloaded
          generalize loader.unregisterServiceConfig env held.lib held.config =
            answer at hok hregistered ⊢
          obtain ⟨result, unregistered⟩ := answer
          cases hok
          simp only [hregistered]
          exact ⟨trivial, chain, (hprogress.keep hkept).same hsame⟩
      · simp only [hplace, ne_eq, not_false_eq_true, if_true] at hloads ⊢
        obtain ⟨hok, hdropped⟩ := hprogress.drop hfind (hgone held hfind) env
        generalize loader.unloadEbpf env held.lib = answer
          at hok hdropped hloads ⊢
        obtain ⟨result, dropped⟩ := answer
        cases hok
        simp only [Option.some.injEq, forall_eq'] at hloads
        exact hdropped.load hview hsort hdomain hchainable hschedulers hentry
          hothers hloads hbuilt

theorem Progress.updateEntries {env : String → Env σ ω}
    (hprogress : Progress ops progId sort progRegistry current config gone before
      rest loader chain)
    (hentries : (addSchedulers config).entries = before ++ rest)
    (hgone : ∀ entry ∈ addSchedulers config, ∀ held,
      current.find? entry.1 = some held → held.lib ∈ gone →
      ∀ other ∈ addSchedulers config, other.1 < entry.1 →
        other.2.lib ≠ held.lib)
    (hloads : Loader.LoadCalls ops (Loads ops) env current rest loader)
    (hbuilt : ∀ entry ∈ addSchedulers config,
      BuiltFor ops progId progRegistry (env entry.1) entry)
    (haccepts : ∀ entry ∈ addSchedulers config, Reconfigured current entry →
      AcceptsConfig ops (env entry.1) entry.2) :
    (loader.updateEntries ops env current rest).1 = .ok () ∧
      ∃ after, Progress ops progId sort progRegistry current config gone
        (addSchedulers config).entries []
        (loader.updateEntries ops env current rest).2 after := by
  induction rest generalizing before loader chain with
  | nil =>
      rw [List.append_nil] at hentries
      rw [hentries]
      exact ⟨rfl, chain, hprogress⟩
  | cons entry rest ih =>
      have hmember : ∀ other ∈ before ++ entry :: rest,
          other ∈ addSchedulers config := by
        intro other hother
        change other ∈ (addSchedulers config).entries
        rwa [hentries]
      have hentry := hmember entry (by simp)
      have hdistinct := (addSchedulers config).sorted
      rw [hentries, List.pairwise_append, List.pairwise_cons] at hdistinct
      obtain ⟨-, ⟨hbehind, -⟩, hbefore⟩ := hdistinct
      have hothers : ∀ other ∈ before ++ rest,
          other ∈ addSchedulers config ∧ other ≠ entry := by
        intro other hother
        rcases List.mem_append.mp hother with hother | hother
        · refine ⟨hmember other (by simp [hother]), ?_⟩
          rintro rfl
          exact lt_irrefl _ (hbefore _ hother _ (.head _))
        · refine ⟨hmember other (by simp [hother]), ?_⟩
          rintro rfl
          exact lt_irrefl _ (hbehind _ hother)
      obtain ⟨hfirst, hrest⟩ := hloads
      obtain ⟨hok, next, hnext⟩ := hprogress.updateEntry hview hsort hdomain
        hchainable hschedulers hentry hothers
        (fun held hfind hlib other hother => hgone entry hentry held hfind hlib
          other (hmember other (by simp [hother]))
          (hbefore other hother entry (.head _)))
        hfirst (hbuilt entry hentry) (haccepts entry hentry)
      unfold Loader.updateEntries
      generalize loader.updateEntry ops (env entry.1) current entry.1 entry.2 =
        answer at hok hnext hrest ⊢
      obtain ⟨result, after⟩ := answer
      cases hok
      exact ih hnext (by simpa using hentries) hrest

end Loads

end Hebpf.Daemon
