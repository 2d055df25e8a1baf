import Hebpf.Ebpf.Regions
import Mathlib.Order.Interval.Set.Disjoint

namespace Hebpf.Ebpf

open Hebpf.Common Hebpf.Data Hebpf.Kernel Hebpf.Daemon

/-! Runs of `allocateRegion` and `releaseRegion` alone, the regions of a hook
walked in any order. -/

structure Walk where
  entries : Table Int32 Nat → List (Sigma fun _ : Int32 => Nat)
  perm : ∀ hookRegions, (entries hookRegions).Perm hookRegions.entries

inductive RegionCall where
  | allocateRegion (hook : HookType) (nic : Nic) (walk : Walk)
  | releaseRegion (hook : HookType) (ifindex : Int32)

def RegionCall.Concerns (hook : HookType) (ifindex : Int32) :
    RegionCall → Prop
  | .allocateRegion other nic _ => other = hook ∧ nic = ifindex
  | .releaseRegion other nic => other = hook ∧ nic = ifindex

def RegionCall.chainCall {π : Type} : RegionCall → ChainCall π
  | .allocateRegion hook nic _ => .allocateRegion hook nic
  | .releaseRegion hook ifindex => .releaseRegion hook ifindex

namespace PinnedProgMap

variable {π : Type}

def nextStartAlong (regions : List (Sigma fun _ : Int32 => Nat)) : Nat :=
  regions.foldl (fun next region =>
    if next ≤ region.2 then region.2 + MAX_PER_NIC_PROGS else next) 0

def allocateRegionAlong (chain : PinnedProgMap π) (walk : Walk)
    (hook : HookType) (ifindex : Int32) : Int × PinnedProgMap π :=
  match (chain.regions hook).lookup ifindex with
  | some start => (start, chain)
  | none =>
      let start := nextStartAlong (walk.entries (chain.regions hook))
      if MAX_CHAIN_PROGS < start + MAX_PER_NIC_PROGS then (-1, chain)
      else (start, { chain with
        regions := Function.update chain.regions hook
          ((chain.regions hook).insert ifindex start) })

def regionCall (chain : PinnedProgMap π) : RegionCall → PinnedProgMap π
  | .allocateRegion hook nic walk =>
      (chain.allocateRegionAlong walk hook nic).2
  | .releaseRegion hook ifindex => chain.releaseRegion hook ifindex

end PinnedProgMap

section NextStart

open PinnedProgMap

theorem foldl_nextStart_attained (regions : List (Sigma fun _ : Int32 => Nat))
    {next last : Nat}
    (hlast : regions.foldl (fun next region =>
      if next ≤ region.2 then region.2 + MAX_PER_NIC_PROGS else next) next =
        last) :
    last = next ∨ ∃ region ∈ regions, last = region.2 + MAX_PER_NIC_PROGS := by
  induction regions generalizing next with
  | nil => exact .inl hlast.symm
  | cons region rest ih =>
      rw [List.foldl_cons] at hlast
      split_ifs at hlast with hbelow
      · rcases ih hlast with hsame | ⟨other, hother, heq⟩
        · exact .inr ⟨region, .head _, hsame⟩
        · exact .inr ⟨other, .tail _ hother, heq⟩
      · rcases ih hlast with hsame | ⟨other, hother, heq⟩
        · exact .inl hsame
        · exact .inr ⟨other, .tail _ hother, heq⟩

variable {hookRegions : Table Int32 Nat}

theorem Spaced.dvd_of_mem (hspaced : Spaced hookRegions)
    {regions : List (Sigma fun _ : Int32 => Nat)}
    (hperm : regions.Perm hookRegions.entries) :
    ∀ region ∈ regions, MAX_PER_NIC_PROGS ∣ region.2 := by
  intro region hregion
  apply hspaced.aligned region.1 region.2
  exact AList.mem_lookup_iff.mpr (hperm.mem_iff.mp hregion)

theorem Spaced.nextStartAlong_le (hspaced : Spaced hookRegions)
    {first second : List (Sigma fun _ : Int32 => Nat)}
    (hfirst : first.Perm hookRegions.entries)
    (hsecond : second.Perm hookRegions.entries) :
    nextStartAlong first ≤ nextStartAlong second := by
  obtain ⟨haligned, -, hbehind⟩ :=
    foldl_nextStart_spec (hspaced.dvd_of_mem hsecond) (dvd_zero _)
  rcases foldl_nextStart_attained first rfl with
    hzero | ⟨region, hregion, heq⟩
  · unfold nextStartAlong
    rw [hzero]
    exact Nat.zero_le _
  · unfold nextStartAlong
    rw [heq]
    have hbelow := hbehind region
      (hsecond.mem_iff.mpr (hfirst.mem_iff.mp hregion))
    obtain ⟨m, hstart⟩ := hspaced.dvd_of_mem hfirst region hregion
    obtain ⟨n, hlast⟩ := haligned
    rw [hstart] at hbelow ⊢
    rw [hlast] at hbelow ⊢
    simp only [MAX_PER_NIC_PROGS] at hbelow ⊢
    omega

theorem Spaced.nextStartAlong_eq (hspaced : Spaced hookRegions)
    (walk : Walk) :
    nextStartAlong (walk.entries hookRegions) = nextStart hookRegions :=
  Nat.le_antisymm
    (hspaced.nextStartAlong_le (walk.perm hookRegions) (.refl _))
    (hspaced.nextStartAlong_le (.refl _) (walk.perm hookRegions))

theorem Spaced.full_iff (hspaced : Spaced hookRegions) :
    MAX_CHAIN_PROGS < nextStart hookRegions + MAX_PER_NIC_PROGS ↔
      ∃ ifindex, hookRegions.lookup ifindex =
        some (MAX_CHAIN_PROGS - MAX_PER_NIC_PROGS) := by
  obtain ⟨-, hbehind⟩ := nextStart_spec hspaced
  constructor
  · intro hfull
    rcases foldl_nextStart_attained hookRegions.entries rfl with
      hzero | ⟨region, hregion, heq⟩
    · have hempty : nextStart hookRegions = 0 := hzero
      rw [hempty] at hfull
      exact absurd hfull (by decide)
    · have hlast : nextStart hookRegions = region.2 + MAX_PER_NIC_PROGS := heq
      have hlookup : hookRegions.lookup region.1 = some region.2 :=
        AList.mem_lookup_iff.mpr hregion
      have hroom := hspaced.room region.1 region.2 hlookup
      obtain ⟨m, hstart⟩ := hspaced.aligned region.1 region.2 hlookup
      refine ⟨region.1, ?_⟩
      rw [hlookup]
      rw [hlast, hstart] at hfull
      rw [hstart] at hroom ⊢
      simp only [MAX_CHAIN_PROGS, MAX_PER_NIC_PROGS,
        Option.some.injEq] at hfull hroom ⊢
      omega
  · intro hlast
    obtain ⟨ifindex, hlookup⟩ := hlast
    have hbelow := hbehind ifindex _ hlookup
    simp only [MAX_CHAIN_PROGS, MAX_PER_NIC_PROGS] at hbelow ⊢
    omega

theorem Spaced.nextStart_eq_zero_iff (hspaced : Spaced hookRegions) :
    nextStart hookRegions = 0 ↔
      ∀ ifindex, hookRegions.lookup ifindex = none := by
  obtain ⟨-, hbehind⟩ := nextStart_spec hspaced
  constructor
  · intro hzero ifindex
    cases hlookup : hookRegions.lookup ifindex with
    | none => rfl
    | some start =>
        have hbelow := hbehind ifindex start hlookup
        omega
  · intro hnone
    rcases foldl_nextStart_attained hookRegions.entries rfl with
      hzero | ⟨region, hregion, -⟩
    · exact hzero
    · have hlookup : hookRegions.lookup region.1 = some region.2 :=
        AList.mem_lookup_iff.mpr hregion
      rw [hnone region.1] at hlookup
      cases hlookup

def placeOf (hookRegions : Table Int32 Nat) (ifindex : Int32) : Nat :=
  (hookRegions.lookup ifindex).getD 0 / MAX_PER_NIC_PROGS

theorem Spaced.placeOf_mul (hspaced : Spaced hookRegions) {ifindex : Int32}
    {start : Nat} (hlookup : hookRegions.lookup ifindex = some start) :
    placeOf hookRegions ifindex * MAX_PER_NIC_PROGS = start := by
  rw [placeOf, hlookup]
  exact Nat.div_mul_cancel (hspaced.aligned ifindex start hlookup)

theorem Spaced.placeOf_injOn (hspaced : Spaced hookRegions) :
    Set.InjOn (placeOf hookRegions) (interfaces hookRegions) := by
  intro left hleft right hright heq
  obtain ⟨first, hfirst⟩ := mem_interfaces_iff.mp hleft
  obtain ⟨second, hsecond⟩ := mem_interfaces_iff.mp hright
  have hstarts : first = second := by
    rw [← hspaced.placeOf_mul hfirst, ← hspaced.placeOf_mul hsecond, heq]
  subst hstarts
  exact hspaced.distinct left right first hfirst hsecond

theorem Spaced.image_placeOf_subset (hspaced : Spaced hookRegions) :
    (interfaces hookRegions).image (placeOf hookRegions) ⊆
      Finset.range MAX_NIC_HOOK := by
  intro k hk
  obtain ⟨ifindex, hmem, rfl⟩ := Finset.mem_image.mp hk
  obtain ⟨start, hlookup⟩ := mem_interfaces_iff.mp hmem
  have hroom := hspaced.room ifindex start hlookup
  rw [← hspaced.placeOf_mul hlookup] at hroom
  apply Finset.mem_range.mpr
  simp only [MAX_PER_NIC_PROGS, MAX_CHAIN_PROGS, MAX_NIC_HOOK] at hroom ⊢
  omega

theorem Spaced.mem_image_placeOf_iff (hspaced : Spaced hookRegions) {k : Nat} :
    k ∈ (interfaces hookRegions).image (placeOf hookRegions) ↔
      ∃ ifindex, hookRegions.lookup ifindex = some (k * MAX_PER_NIC_PROGS) := by
  rw [Finset.mem_image]
  constructor
  · intro hplaced
    obtain ⟨ifindex, hinterface, rfl⟩ := hplaced
    obtain ⟨start, hlookup⟩ := mem_interfaces_iff.mp hinterface
    exact ⟨ifindex, by rw [hspaced.placeOf_mul hlookup, hlookup]⟩
  · intro htaken
    obtain ⟨ifindex, hlookup⟩ := htaken
    refine ⟨ifindex, mem_interfaces_iff.mpr ⟨_, hlookup⟩, ?_⟩
    have heq := hspaced.placeOf_mul hlookup
    exact Nat.eq_of_mul_eq_mul_right (by decide) heq

theorem Spaced.length_keys_eq_iff (hspaced : Spaced hookRegions) :
    hookRegions.keys.length = MAX_NIC_HOOK ↔
      ∀ k < MAX_NIC_HOOK, ∃ ifindex,
        hookRegions.lookup ifindex = some (k * MAX_PER_NIC_PROGS) := by
  have hcard : hookRegions.keys.length =
      ((interfaces hookRegions).image (placeOf hookRegions)).card := by
    rw [Finset.card_image_of_injOn hspaced.placeOf_injOn, card_interfaces,
      AList.keys, List.keys, List.length_map]
  rw [hcard]
  constructor
  · intro hfull k hk
    have hall : (interfaces hookRegions).image (placeOf hookRegions) =
        Finset.range MAX_NIC_HOOK := by
      apply Finset.eq_of_subset_of_card_le hspaced.image_placeOf_subset
      rw [hfull, Finset.card_range]
    rw [← hspaced.mem_image_placeOf_iff, hall]
    exact Finset.mem_range.mpr hk
  · intro htaken
    have hall : (interfaces hookRegions).image (placeOf hookRegions) =
        Finset.range MAX_NIC_HOOK := by
      apply Finset.Subset.antisymm hspaced.image_placeOf_subset
      intro k hk
      rw [hspaced.mem_image_placeOf_iff]
      exact htaken k (Finset.mem_range.mp hk)
    rw [hall, Finset.card_range]

end NextStart

namespace PinnedProgMap

variable {π : Type}

section Calls

variable {chain : PinnedProgMap π}

theorem allocateRegionAlong_eq {hook : HookType}
    (hspaced : Spaced (chain.regions hook)) (walk : Walk) (ifindex : Int32) :
    chain.allocateRegionAlong walk hook ifindex =
      chain.allocateRegion hook ifindex := by
  unfold allocateRegionAlong
  rw [hspaced.nextStartAlong_eq walk]
  rfl

theorem regionCall_eq (hspaced : ∀ hook, Spaced (chain.regions hook))
    (input : RegionCall) : chain.regionCall input = chain.call input.chainCall := by
  cases input with
  | allocateRegion hook nic walk =>
      exact congrArg Prod.snd (allocateRegionAlong_eq (hspaced hook) walk nic)
  | releaseRegion hook ifindex => rfl

theorem spaced_regionCall (hspaced : ∀ hook, Spaced (chain.regions hook))
    (input : RegionCall) (hook : HookType) :
    Spaced ((chain.regionCall input).regions hook) := by
  rw [regionCall_eq hspaced]
  exact spaced_call hspaced _ hook

theorem spaced_regionRun (progRegistry : String → Option ProgInfo)
    (calls : List RegionCall) (hook : HookType) :
    Spaced ((run (@regionCall π) (init progRegistry) calls).regions hook) := by
  have hrule := @invariant_run _ _ (@regionCall π)
    (fun chain => ∀ hook, Spaced (chain.regions hook))
    (fun _ input hspaced => spaced_regionCall hspaced input)
    (init progRegistry)
  exact hrule (fun _ => spaced_empty) calls hook

theorem allocateRegion_of_region {hook : HookType} {ifindex : Int32}
    {start : Nat} (hlookup : (chain.regions hook).lookup ifindex = some start) :
    chain.allocateRegion hook ifindex = ((start : Int), chain) := by
  simp only [allocateRegion, hlookup]

theorem allocateRegion_eq_neg_one_iff {hook : HookType} {ifindex : Int32}
    (hlookup : (chain.regions hook).lookup ifindex = none) :
    (chain.allocateRegion hook ifindex).1 = -1 ↔
      MAX_CHAIN_PROGS < nextStart (chain.regions hook) + MAX_PER_NIC_PROGS := by
  simp only [allocateRegion, hlookup]
  split_ifs with hfull
  · exact iff_of_true rfl hfull
  · refine iff_of_false ?_ hfull
    intro hstart
    omega

theorem lookup_regionCall_of_not_concerns
    {hook : HookType} {ifindex : Int32} {input : RegionCall}
    (hother : ¬ input.Concerns hook ifindex) :
    ((chain.regionCall input).regions hook).lookup ifindex =
      (chain.regions hook).lookup ifindex := by
  cases input with
  | allocateRegion other nic walk =>
      simp only [regionCall, allocateRegionAlong]
      split
      · rfl
      · split_ifs
        · rfl
        · simp only [Function.update_apply]
          split_ifs with heq
          · subst heq
            apply AList.lookup_insert_ne
            intro hnic
            exact hother ⟨rfl, hnic.symm⟩
          · rfl
  | releaseRegion other nic =>
      simp only [regionCall, releaseRegion, Function.update_apply]
      split_ifs with heq
      · subst heq
        apply AList.lookup_erase_ne
        intro hnic
        exact hother ⟨rfl, hnic.symm⟩
      · rfl

theorem lookup_regionCall_of_region {hook : HookType} {ifindex : Int32}
    {start : Nat} (hlookup : (chain.regions hook).lookup ifindex = some start)
    {input : RegionCall} (hkept : input ≠ .releaseRegion hook ifindex) :
    ((chain.regionCall input).regions hook).lookup ifindex = some start := by
  cases input with
  | allocateRegion other nic walk =>
      by_cases hsame : other = hook ∧ nic = ifindex
      · obtain ⟨rfl, rfl⟩ := hsame
        simp only [regionCall, allocateRegionAlong, hlookup]
      · rw [lookup_regionCall_of_not_concerns (by exact hsame)]
        exact hlookup
  | releaseRegion other nic =>
      rw [lookup_regionCall_of_not_concerns]
      · exact hlookup
      · intro hsame
        obtain ⟨rfl, rfl⟩ := hsame
        exact hkept rfl

theorem lookup_regionRun_of_region {hook : HookType} {ifindex : Int32}
    {start : Nat} (hlookup : (chain.regions hook).lookup ifindex = some start)
    {calls : List RegionCall}
    (hkept : .releaseRegion hook ifindex ∉ calls) :
    ((run regionCall chain calls).regions hook).lookup ifindex =
      some start := by
  induction calls generalizing chain with
  | nil => exact hlookup
  | cons input calls ih =>
      obtain ⟨hne, hrest⟩ := not_or.mp (List.mem_cons.not.mp hkept)
      exact ih (lookup_regionCall_of_region hlookup (Ne.symm hne)) hrest

theorem regions_of_failed (walk : Walk) (hook : HookType) (ifindex : Int32)
    (hfailed : (chain.allocateRegionAlong walk hook ifindex).1 = -1) :
    (chain.allocateRegionAlong walk hook ifindex).2.regions =
      chain.regions := by
  revert hfailed
  unfold allocateRegionAlong
  split
  · intro _
    rfl
  · simp only
    split_ifs
    · intro _
      rfl
    · intro hstart
      cases hstart

end Calls

def regionSlots (start : Nat) : Set Nat :=
  Set.Ico start (start + MAX_PER_NIC_PROGS)

structure LaidOut (hookRegions : Table Int32 Nat) : Prop where
  disjoint : ∀ left right first second,
    hookRegions.lookup left = some first →
    hookRegions.lookup right = some second → left ≠ right →
    Disjoint (regionSlots first) (regionSlots second)
  inside : ∀ ifindex start, hookRegions.lookup ifindex = some start →
    regionSlots start ⊆ Set.Ico 0 MAX_CHAIN_PROGS
  aligned : ∀ ifindex start, hookRegions.lookup ifindex = some start →
    MAX_PER_NIC_PROGS ∣ start

theorem laidOut_of_spaced {hookRegions : Table Int32 Nat}
    (hspaced : Spaced hookRegions) : LaidOut hookRegions where
  disjoint left right first second hleft hright hne := by
    apply Set.disjoint_left.mpr
    intro slot hfirst hsecond
    obtain ⟨hfrom, hto⟩ := hfirst
    obtain ⟨hfrom', hto'⟩ := hsecond
    have hapart := hspaced.apart hleft hright hne
    omega
  inside ifindex start hlookup := by
    intro slot hslot
    have hroom := hspaced.room ifindex start hlookup
    exact ⟨Nat.zero_le _, Nat.lt_of_lt_of_le hslot.2 hroom⟩
  aligned := hspaced.aligned

structure RegionsHeld (chain : PinnedProgMap π) : Prop where
  laidOut : ∀ hook, LaidOut (chain.regions hook)
  kept : ∀ calls hook ifindex start,
    (chain.regions hook).lookup ifindex = some start →
    .releaseRegion hook ifindex ∉ calls →
    ((run regionCall chain calls).regions hook).lookup ifindex = some start
  failed : ∀ walk hook ifindex,
    (chain.allocateRegionAlong walk hook ifindex).1 = -1 →
    (chain.allocateRegionAlong walk hook ifindex).2.regions = chain.regions
  frame : ∀ (input : RegionCall) hook ifindex,
    ¬ input.Concerns hook ifindex →
    ((chain.regionCall input).regions hook).lookup ifindex =
      (chain.regions hook).lookup ifindex

/-- Whatever is allocated and released, in whatever orders the regions are
walked. -/
theorem regionsHeld_run (progRegistry : String → Option ProgInfo)
    (calls : List RegionCall) :
    RegionsHeld (run (@regionCall π) (init progRegistry) calls) where
  laidOut hook := laidOut_of_spaced (spaced_regionRun progRegistry calls hook)
  kept _ _ _ _ hlookup hkept := lookup_regionRun_of_region hlookup hkept
  failed walk hook ifindex hfailed :=
    regions_of_failed walk hook ifindex hfailed
  frame _ _ _ hother := lookup_regionCall_of_not_concerns hother

/-- The law of the allocator: it only fails on four live regions. -/
def FailsOnlyFull (chain : PinnedProgMap π) : RegionCall → Prop
  | .allocateRegion hook nic walk =>
      (chain.regions hook).lookup nic.val = none →
      (chain.allocateRegionAlong walk hook nic).1 = -1 →
      (chain.regions hook).keys.length = MAX_NIC_HOOK
  | .releaseRegion _ _ => True

/-- Where an interface without a region is given one, the last region of the
array is free, or no region below it is. -/
def NoneFreeBelow (chain : PinnedProgMap π) : RegionCall → Prop
  | .allocateRegion hook nic _ =>
      (chain.regions hook).lookup nic.val = none → ∀ last,
      (chain.regions hook).lookup last =
        some (MAX_CHAIN_PROGS - MAX_PER_NIC_PROGS) →
      ∀ k < MAX_NIC_HOOK - 1, ∃ ifindex,
        (chain.regions hook).lookup ifindex = some (k * MAX_PER_NIC_PROGS)
  | .releaseRegion _ _ => True

theorem failsOnlyFull_iff {chain : PinnedProgMap π}
    (hspaced : ∀ hook, Spaced (chain.regions hook)) (input : RegionCall) :
    chain.FailsOnlyFull input ↔ chain.NoneFreeBelow input := by
  cases input with
  | allocateRegion hook nic walk =>
      refine forall_congr' fun hlookup => ?_
      rw [allocateRegionAlong_eq (hspaced hook),
        allocateRegion_eq_neg_one_iff hlookup, (hspaced hook).full_iff,
        forall_exists_index]
      refine forall_congr' fun last => forall_congr' fun hlast => ?_
      rw [(hspaced hook).length_keys_eq_iff]
      constructor
      · intro htaken k hk
        exact htaken k (Nat.lt_of_lt_of_le hk (Nat.sub_le _ _))
      · intro htaken k hk
        by_cases hbelow : k < MAX_NIC_HOOK - 1
        · exact htaken k hbelow
        · have hthree : k = MAX_NIC_HOOK - 1 := by omega
          subst hthree
          exact ⟨last, hlast⟩
  | releaseRegion hook ifindex => exact Iff.rfl

/-- What is released can be allocated again exactly where every allocation finds
the last region free, or none free below it. -/
theorem stepsMeet_failsOnlyFull_iff
    (progRegistry : String → Option ProgInfo) (calls : List RegionCall) :
    StepsMeet (@regionCall π) FailsOnlyFull (init progRegistry) calls ↔
      StepsMeet (@regionCall π) NoneFreeBelow (init progRegistry) calls := by
  have hrule := @stepsMeet_iff_stepsMeet _ _ (@regionCall π) NoneFreeBelow
    (fun chain => ∀ hook, Spaced (chain.regions hook)) FailsOnlyFull
    (fun _ => True)
  apply hrule
  · intro chain input hspaced _ _
    exact spaced_regionCall hspaced input
  · intro chain input hspaced _
    exact failsOnlyFull_iff hspaced input
  · exact fun _ => spaced_empty
  · exact fun _ _ => trivial

def inOrder : Walk := ⟨AList.entries, fun _ => .refl _⟩

def allocated (hook : HookType) (ifindexes : List Nic) : List RegionCall :=
  ifindexes.map fun nic => .allocateRegion hook nic inOrder

def fourAllocated : List RegionCall :=
  allocated .xdpGeneric [⟨1, by decide⟩, ⟨2, by decide⟩, ⟨3, by decide⟩,
    ⟨4, by decide⟩]

def firstReleased : List RegionCall :=
  fourAllocated ++ [.releaseRegion .xdpGeneric 1]

theorem not_stepsMeet_failsOnlyFull_firstReleased :
    ((run (@regionCall Unit) (init defaultProgMap)
        firstReleased).regions .xdpGeneric).keys.length = 3 ∧
      ((run (@regionCall Unit) (init defaultProgMap)
        firstReleased).allocateRegion .xdpGeneric 5).1 = -1 ∧
      ¬ StepsMeet (@regionCall Unit) FailsOnlyFull (init defaultProgMap)
        (firstReleased ++ allocated .xdpGeneric [⟨5, by decide⟩]) := by
  refine ⟨by decide, by decide, ?_⟩
  intro hmeets
  obtain ⟨-, -, -, -, -, hfifth, -⟩ := hmeets
  have hfull := hfifth (by decide) (by decide)
  revert hfull
  decide

end PinnedProgMap

end Hebpf.Ebpf
