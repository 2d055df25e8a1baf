import Hebpf.Ebpf.Chain

namespace Hebpf.Ebpf

open Hebpf.Common Hebpf.Kernel

/-! Which programs of a chain a packet is handed to. -/

variable {ν π : Type}

def HandsOver : Exit ν → Prop
  | .ret _ => False
  | .chainNext _ => True

instance (exit : Exit ν) : Decidable (HandsOver exit) :=
  match exit with
  | .ret _ => .isFalse id
  | .chainNext _ => .isTrue trivial

def returned (next : Option π) : Exit ν → Option ν
  | .ret verdict => some verdict
  | .chainNext fallthrough =>
      match next with
      | none => some fallthrough
      | some _ => none

/-- A program that sees a packet, and the frame as it sees it. -/
structure Visit (ν : Type) where
  prog : ChainProgram ν
  frame : Frame

def Visit.exit (visit : Visit ν) : Exit ν := (visit.prog.exec visit.frame).2

def visits (maps : ChainMaps (ChainProgram ν)) (ifindex : UInt32) :
    Nat → ChainProgram ν → Frame → List (Visit ν)
  | calls, prog, frame =>
      ⟨prog, frame⟩ ::
        match prog.exec frame with
        | (_, .ret _) => []
        | (sent, .chainNext _) =>
            match calls, chainNext maps ifindex prog.id with
            | calls + 1, some next => visits maps ifindex calls next sent
            | _, _ => []

def visitsOf : List (ChainProgram ν) → Frame → List (Visit ν)
  | [], _ => []
  | prog :: rest, frame =>
      ⟨prog, frame⟩ ::
        match prog.exec frame with
        | (_, .ret _) => []
        | (sent, .chainNext _) => visitsOf rest sent

theorem ChainLayout.visits_eq {maps : ChainMaps (ChainProgram ν)}
    {ifindex : UInt32} {start : Nat} {prog : ChainProgram ν}
    {rest : List (ChainProgram ν)}
    (hlayout : ChainLayout ChainProgram.id maps ifindex start (prog :: rest))
    {calls : Nat} (hcalls : rest.length ≤ calls) (frame : Frame) :
    visits maps ifindex calls prog frame = visitsOf (prog :: rest) frame := by
  induction rest generalizing prog start calls frame with
  | nil =>
      unfold visits
      rw [hlayout.chainNext_eq]
      simp only [visitsOf, List.head?_nil]
  | cons next rest ih =>
      cases calls with
      | zero => simp at hcalls
      | succ calls =>
          simp only [List.length_cons, Nat.add_le_add_iff_right] at hcalls
          unfold visits
          rw [hlayout.chainNext_eq, visitsOf]
          congr 1
          split
          · rfl
          · exact ih hlayout.tail hcalls _

/-! Along a list, every program with one behind it hands the packet on exactly
where the whole list sees a packet that is not dropped. -/

/-- Every program that sees the packet, has one behind it and does not answer
`dropped` runs `CHAIN_NEXT`. -/
def HandedOn (dropped : ν) (length : Nat) (seen : List (Visit ν)) : Prop :=
  ∀ k visit, seen[k]? = some visit → k + 1 < length →
    visit.exit ≠ .ret dropped → HandsOver visit.exit

theorem handedOn_singleton (dropped : ν) (prog : ChainProgram ν)
    (frame : Frame) : HandedOn dropped 1 (visitsOf [prog] frame) := by
  intro k visit _ hbehind
  omega

theorem handedOn_of_ret {dropped verdict : ν} {prog : ChainProgram ν}
    {rest : List (ChainProgram ν)} {frame sent : Frame} {length : Nat}
    (hlength : 1 < length)
    (hexec : prog.exec frame = (sent, .ret verdict)) :
    HandedOn dropped length (visitsOf (prog :: rest) frame) ↔
      verdict = dropped := by
  simp only [visitsOf, hexec]
  constructor
  · intro hon
    by_contra hne
    have hover := hon 0 ⟨prog, frame⟩ rfl (by omega)
    simp [Visit.exit, hexec, hne, HandsOver] at hover
  · rintro rfl k visit hvisit _ hkept
    cases k with
    | zero =>
        obtain rfl : (⟨prog, frame⟩ : Visit ν) = visit := by simpa using hvisit
        simp [Visit.exit, hexec] at hkept
    | succ k => cases hvisit

theorem handedOn_of_chainNext {dropped fallthrough : ν}
    {prog : ChainProgram ν} {rest : List (ChainProgram ν)}
    {frame sent : Frame} {length : Nat}
    (hexec : prog.exec frame = (sent, .chainNext fallthrough)) :
    HandedOn dropped (length + 1) (visitsOf (prog :: rest) frame) ↔
      HandedOn dropped length (visitsOf rest sent) := by
  simp only [visitsOf, hexec]
  constructor
  · intro hon k visit hvisit hbehind
    exact hon (k + 1) visit hvisit (by omega)
  · intro hon k visit hvisit hbehind hkept
    cases k with
    | zero =>
        obtain rfl : (⟨prog, frame⟩ : Visit ν) = visit := by simpa using hvisit
        simp [Visit.exit, hexec, HandsOver]
    | succ k => exact hon k visit hvisit (by omega) hkept

theorem handedOn_iff_seen {dropped : ν} (progs : List (ChainProgram ν))
    {verdict : ν} (frame : Frame) :
    HandedOn dropped progs.length (visitsOf progs frame) ↔
      ((runPrograms progs verdict frame).2 ≠ dropped →
        (visitsOf progs frame).map Visit.prog = progs) := by
  induction progs generalizing verdict frame with
  | nil => simp [HandedOn, visitsOf]
  | cons prog rest ih =>
      cases hexec : prog.exec frame with
      | mk sent exit =>
          cases exit with
          | chainNext fallthrough =>
              rw [List.length_cons, handedOn_of_chainNext hexec,
                @ih fallthrough sent]
              simp only [runPrograms, visitsOf, hexec, List.map_cons,
                List.cons.injEq, true_and]
          | ret answer =>
              cases rest with
              | nil =>
                  refine iff_of_true
                    (handedOn_singleton dropped prog frame) fun _ => ?_
                  simp only [visitsOf, hexec, List.map_cons, List.map_nil]
              | cons next rest =>
                  rw [handedOn_of_ret (by simp) hexec]
                  simp only [runPrograms, visitsOf, hexec, List.map_cons,
                    List.map_nil, List.cons.injEq, true_and]
                  simp

/-! Programs of several kinds, told apart by what a frame must carry for them
(`finds`) and what they drop (`denies`), both read from headers that none of
them changes. -/

structure Classified {κ : Type} (program : κ → ChainProgram ν) (dropped : ν)
    (finds denies : κ → Frame → Prop) : Prop where
  hands : ∀ kind frame, HandsOver ((program kind).exec frame).2 ↔
    finds kind frame ∧ ¬ denies kind frame
  drops : ∀ kind frame, ((program kind).exec frame).2 = .ret dropped ↔
    denies kind frame
  finds_of_denies : ∀ kind frame, denies kind frame → finds kind frame
  finds_sent : ∀ kind other frame,
    finds other ((program kind).exec frame).1 ↔ finds other frame
  denies_sent : ∀ kind other frame,
    denies other ((program kind).exec frame).1 ↔ denies other frame

def AllFind {κ : Type} (finds denies : κ → Frame → Prop) (kinds : List κ)
    (frame : Frame) : Prop :=
  ∀ before kind next after, kinds = before ++ kind :: next :: after →
    (∀ earlier ∈ before, ¬ denies earlier frame) → finds kind frame

section AllFind

variable {κ : Type} {finds denies : κ → Frame → Prop} {kinds : List κ}
  {kind next : κ} {frame : Frame}

theorem allFind_singleton : AllFind finds denies [kind] frame := by
  intro before other next after hsplit
  have hlength := congrArg List.length hsplit
  simp only [List.length_cons, List.length_append, List.length_nil] at hlength
  omega

theorem allFind_cons_cons :
    AllFind finds denies (kind :: next :: kinds) frame ↔
      finds kind frame ∧
        (¬ denies kind frame → AllFind finds denies (next :: kinds) frame) := by
  constructor
  · intro hall
    refine ⟨hall [] kind next kinds rfl (by simp), fun hkept => ?_⟩
    intro before other behind after hsplit hbefore
    refine hall (kind :: before) other behind after (by rw [hsplit]; rfl) ?_
    intro earlier hearlier
    rcases List.mem_cons.mp hearlier with rfl | hearlier
    · exact hkept
    · exact hbefore earlier hearlier
  · rintro ⟨hfinds, hrest⟩ before other behind after hsplit hbefore
    cases before with
    | nil =>
        obtain ⟨rfl, _⟩ := List.cons.inj hsplit
        exact hfinds
    | cons first before =>
        obtain ⟨rfl, htail⟩ := List.cons.inj hsplit
        exact hrest (hbefore kind (.head _)) before other behind after htail
          fun earlier hearlier => hbefore earlier (.tail _ hearlier)

theorem allFind_congr {sent : Frame}
    (hfinds : ∀ kind, finds kind sent ↔ finds kind frame)
    (hdenies : ∀ kind, denies kind sent ↔ denies kind frame) :
    AllFind finds denies kinds sent ↔ AllFind finds denies kinds frame := by
  simp only [AllFind, hfinds, hdenies]

end AllFind

theorem Classified.handedOn_iff {κ : Type} {program : κ → ChainProgram ν}
    {dropped : ν} {finds denies : κ → Frame → Prop}
    (hkinds : Classified program dropped finds denies) (kinds : List κ)
    (frame : Frame) :
    HandedOn dropped kinds.length (visitsOf (kinds.map program) frame) ↔
      AllFind finds denies kinds frame := by
  induction kinds generalizing frame with
  | nil => simp [HandedOn, AllFind]
  | cons kind rest ih =>
      cases rest with
      | nil =>
          exact iff_of_true (handedOn_singleton dropped (program kind) frame)
            allFind_singleton
      | cons next rest =>
          have hhands := hkinds.hands kind frame
          have hdrops := hkinds.drops kind frame
          rw [allFind_cons_cons]
          cases hexec : (program kind).exec frame with
          | mk sent exit =>
              rw [hexec] at hhands hdrops
              cases exit with
              | ret verdict =>
                  rw [List.map_cons, handedOn_of_ret (by simp) hexec]
                  have hdrops : verdict = dropped ↔ denies kind frame := by
                    simpa using hdrops
                  rw [hdrops]
                  constructor
                  · intro hdenied
                    exact ⟨hkinds.finds_of_denies kind frame hdenied,
                      fun hkept => absurd hdenied hkept⟩
                  · rintro ⟨hfinds, _⟩
                    by_contra hkept
                    exact hhands.mpr ⟨hfinds, hkept⟩
              | chainNext fallthrough =>
                  obtain ⟨hfinds, hkept⟩ := hhands.mp trivial
                  rw [List.map_cons, List.length_cons,
                    handedOn_of_chainNext hexec, ih sent]
                  have hsent := @allFind_congr κ finds denies (next :: rest)
                    frame sent
                    (fun other => by
                      simpa [hexec] using hkinds.finds_sent kind other frame)
                    (fun other => by
                      simpa [hexec] using hkinds.denies_sent kind other frame)
                  rw [hsent]
                  exact ⟨fun hrest => ⟨hfinds, fun _ => hrest⟩,
                    fun hall => hall.2 hkept⟩

/-- A packet that enters the chain `progs` on an interface: each program that
sees it, has one behind it and does not drop it hands it over, so a packet that
is not dropped has been seen by them all. -/
structure HandedAlong (dropped : ν) (maps : ChainMaps (ChainProgram ν))
    (ifindex : UInt32) (prog : ChainProgram ν)
    (rest : List (ChainProgram ν)) (frame : Frame) : Prop where
  handed : HandedOn dropped (prog :: rest).length
    (visits maps ifindex MAX_TAIL_CALL_CNT prog frame)
  seen : (runChain maps ifindex MAX_TAIL_CALL_CNT prog frame).2 ≠ dropped →
    (visits maps ifindex MAX_TAIL_CALL_CNT prog frame).map Visit.prog =
      prog :: rest

theorem ChainLayout.handedAlong_iff {dropped : ν}
    {maps : ChainMaps (ChainProgram ν)} {ifindex : UInt32} {start : Nat}
    {prog : ChainProgram ν} {rest : List (ChainProgram ν)}
    (hlayout : ChainLayout ChainProgram.id maps ifindex start (prog :: rest))
    (frame : Frame) :
    HandedAlong dropped maps ifindex prog rest frame ↔
      HandedOn dropped (prog :: rest).length (visitsOf (prog :: rest) frame) := by
  have hlength : rest.length ≤ MAX_TAIL_CALL_CNT := by
    have hbound := hlayout.bound
    simp only [List.length_cons, MAX_CHAIN_PROGS] at hbound
    simp only [MAX_TAIL_CALL_CNT]
    omega
  have hvisits := hlayout.visits_eq hlength frame
  have hrun := hlayout.runChain_eq hlength dropped frame
  constructor
  · intro halong
    rw [← hvisits]
    exact halong.handed
  · intro hon
    have hseen := (@handedOn_iff_seen ν dropped (prog :: rest) dropped
      frame).mp hon
    rw [← hvisits] at hon hseen
    rw [← hrun] at hseen
    exact ⟨hon, hseen⟩

theorem Classified.handedAlong_iff {κ : Type} {program : κ → ChainProgram ν}
    {dropped : ν} {finds denies : κ → Frame → Prop}
    (hkinds : Classified program dropped finds denies)
    {maps : ChainMaps (ChainProgram ν)} {ifindex : UInt32} {start : Nat}
    {kind : κ} {rest : List κ}
    (hlayout : ChainLayout ChainProgram.id maps ifindex start
      ((kind :: rest).map program)) (frame : Frame) :
    HandedAlong dropped maps ifindex (program kind) (rest.map program) frame ↔
      AllFind finds denies (kind :: rest) frame := by
  rw [hlayout.handedAlong_iff, ← hkinds.handedOn_iff, List.map_cons,
    List.length_cons, List.length_cons, List.length_map]

end Hebpf.Ebpf
