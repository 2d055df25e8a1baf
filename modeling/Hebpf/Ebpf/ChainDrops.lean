import Hebpf.Ebpf.HandOver

namespace Hebpf.Ebpf

open Hebpf.Common Hebpf.Kernel

/-! The verdict of a chain, from what each of its programs does with a frame. -/

variable {ν π ρ : Type}

def ChainMaps.map (behaviour : π → ρ) (maps : ChainMaps π) : ChainMaps ρ where
  parray := ⟨fun index => (maps.parray.values index).map behaviour⟩
  idhash := maps.idhash

theorem ChainMaps.lookupElem_map (behaviour : π → ρ) (maps : ChainMaps π)
    (index : UInt32) :
    (maps.map behaviour).parray.lookupElem index =
      (maps.parray.lookupElem index).map (Option.map behaviour) := by
  unfold BpfArray.lookupElem
  split_ifs <;> rfl

theorem ChainLayout.map {progId : π → UInt32} {otherId : ρ → UInt32}
    {maps : ChainMaps π} {ifindex : UInt32} {start : Nat} {progs : List π}
    (hlayout : ChainLayout progId maps ifindex start progs)
    {behaviour : π → ρ}
    (hid : ∀ prog ∈ progs, otherId (behaviour prog) = progId prog) :
    ChainLayout otherId (maps.map behaviour) ifindex start
      (progs.map behaviour) where
  bound := by
    rw [List.length_map]
    exact hlayout.bound
  index := by
    intro k other hother
    rw [List.getElem?_map] at hother
    obtain ⟨prog, hprog, rfl⟩ := Option.map_eq_some_iff.mp hother
    rw [hid prog (List.mem_of_getElem? hprog)]
    exact hlayout.index k prog hprog
  slot := by
    intro k other hother
    rw [List.getElem?_map] at hother
    obtain ⟨prog, hprog, rfl⟩ := Option.map_eq_some_iff.mp hother
    rw [ChainMaps.lookupElem_map, hlayout.slot k prog hprog]
    rfl
  stop := by
    intro hroom
    rw [List.length_map] at hroom ⊢
    rw [ChainMaps.lookupElem_map, hlayout.stop hroom]
    rfl

section DroppedAlong

variable {κ : Type} {finds denies : κ → Frame → Prop} {kinds : List κ}
  {kind : κ} {frame : Frame}

def DroppedAlong (finds denies : κ → Frame → Prop) (kinds : List κ)
    (frame : Frame) : Prop :=
  ∃ before kind after, kinds = before ++ kind :: after ∧
    (∀ earlier ∈ before, finds earlier frame ∧ ¬ denies earlier frame) ∧
    denies kind frame

theorem not_droppedAlong_nil : ¬ DroppedAlong finds denies [] frame := by
  intro ⟨before, kind, after, hsplit, _⟩
  cases before <;> cases hsplit

theorem droppedAlong_cons_of_denies (hdenies : denies kind frame) :
    DroppedAlong finds denies (kind :: kinds) frame :=
  ⟨[], kind, kinds, rfl, by simp, hdenies⟩

theorem droppedAlong_cons_of_kept (hkept : ¬ denies kind frame) :
    DroppedAlong finds denies (kind :: kinds) frame ↔
      finds kind frame ∧ DroppedAlong finds denies kinds frame := by
  constructor
  · intro ⟨before, other, after, hsplit, hbefore, hdenies⟩
    cases before with
    | nil =>
        cases hsplit
        exact absurd hdenies hkept
    | cons first before =>
        cases hsplit
        obtain ⟨hfirst, hbefore⟩ := List.forall_mem_cons.mp hbefore
        exact ⟨hfirst.1, before, other, after, rfl, hbefore, hdenies⟩
  · intro ⟨hfinds, before, other, after, hsplit, hbefore, hdenies⟩
    refine ⟨kind :: before, other, after, by rw [hsplit]; rfl, ?_, hdenies⟩
    exact List.forall_mem_cons.mpr ⟨⟨hfinds, hkept⟩, hbefore⟩

theorem droppedAlong_congr {sent : Frame}
    (hfinds : ∀ kind, finds kind sent ↔ finds kind frame)
    (hdenies : ∀ kind, denies kind sent ↔ denies kind frame) :
    DroppedAlong finds denies kinds sent ↔
      DroppedAlong finds denies kinds frame := by
  simp only [DroppedAlong, hfinds, hdenies]

/-- A chain answers `dropped` exactly where one of its programs does and those
before it hand the frame over, whatever they have made of it. -/
theorem Classified.runPrograms_eq_dropped_iff
    {program : κ → ChainProgram ν} {dropped : ν}
    (hkinds : Classified program dropped finds denies)
    (hfall : ∀ kind frame,
      ((program kind).exec frame).2 ≠ .chainNext dropped)
    {verdict : ν} (hverdict : verdict ≠ dropped) (kinds : List κ)
    (frame : Frame) :
    (runPrograms (kinds.map program) verdict frame).2 = dropped ↔
      DroppedAlong finds denies kinds frame := by
  induction kinds generalizing verdict frame with
  | nil => exact iff_of_false hverdict not_droppedAlong_nil
  | cons kind rest ih =>
      have hhands := hkinds.hands kind frame
      have hdrops := hkinds.drops kind frame
      have hfalls := hfall kind frame
      rw [List.map_cons, runPrograms]
      cases hexec : (program kind).exec frame with
      | mk sent exit =>
          rw [hexec] at hhands hdrops hfalls
          cases exit with
          | ret answer =>
              simp only [HandsOver, false_iff, not_and, not_not] at hhands
              have hanswer : answer = dropped ↔ denies kind frame := by
                simpa using hdrops
              rw [hanswer]
              constructor
              · exact droppedAlong_cons_of_denies
              · intro halong
                by_contra hkept
                have hfinds :=
                  ((droppedAlong_cons_of_kept hkept).mp halong).1
                exact hkept (hhands hfinds)
          | chainNext fallthrough =>
              obtain ⟨hfinds, hkept⟩ := hhands.mp trivial
              have hother : fallthrough ≠ dropped := by
                simpa using hfalls
              rw [ih hother sent, droppedAlong_cons_of_kept hkept,
                and_iff_right hfinds]
              apply droppedAlong_congr
              · intro other
                simpa [hexec] using hkinds.finds_sent kind other frame
              · intro other
                simpa [hexec] using hkinds.denies_sent kind other frame

end DroppedAlong

end Hebpf.Ebpf
