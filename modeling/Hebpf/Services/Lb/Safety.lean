import Hebpf.Services.Lb.Forward

namespace Hebpf.Services.Lb

open Hebpf.Common Hebpf.Kernel

/-! Which addresses a rewritten frame carries, for any configuration. -/

section Update

variable {outcomes : Outcomes} {lb updated : LbBase} {config : Json}
  {rules : LbRules}

/-- The frame that leaves carries the address of a backend of `rule?` and the
configured local address, each parsed in full. -/
structure SentAsConfigured (rules : LbRules) (rule? : Option LbRulesElem)
    (sent : Frame) : Prop where
  dest : ∃ rule, rule? = some rule ∧ ∃ backend ∈ rule.backends, ∃ mac,
    parseMac backend.mac = some mac ∧ ethDest sent = mac.toList
  source : ∃ mac,
    parseMac rules.localMac = some mac ∧ ethSource sent = mac.toList

theorem sentAsConfigured_rewriteMacs_iff {frame : Frame}
    (hlength : 6 ≤ frame.length) {rule : LbRulesElem} {source dest : Mac} :
    SentAsConfigured rules (some rule) (rewriteMacs frame source dest) ↔
      parseMac rules.localMac = some source ∧
        ∃ backend ∈ rule.backends, parseMac backend.mac = some dest := by
  constructor
  · rintro ⟨⟨_, hrule, backend, hmem, destMac, hparse, hdest⟩,
      sourceMac, hlocal, hsource⟩
    rw [ethDest_rewriteMacs, Vector.toList_inj] at hdest
    rw [ethSource_rewriteMacs hlength, Vector.toList_inj] at hsource
    cases hrule
    exact ⟨hsource ▸ hlocal, backend, hmem, hdest ▸ hparse⟩
  · rintro ⟨hlocal, backend, hmem, hparse⟩
    exact ⟨⟨rule, rfl, backend, hmem, dest, hparse, ethDest_rewriteMacs ..⟩,
      source, hlocal, ethSource_rewriteMacs hlength ..⟩

/-- The local address parses, and the map takes it or holds it already. -/
def LocalMacReady (outcomes : Outcomes) (lb : LbBase) (localMac : String) :
    Prop :=
  ∃ mac, parseMac localMac = some mac ∧
    (outcomes.lomac ∨ lb.maps.lbLomac.values 0 = mac)

/-- Backend `i` gets an index below 256, parses, and is inserted; or what is
left at index zero is itself the address of a backend of the rule. -/
def BackendReady (outcomes : Outcomes) (placed : List Placement)
    (pool : BackendPool) (placement : Placement) (i : Nat) : Prop :=
  (poolMac outcomes placement.start placement.rule.grouped
      (placement.start + i)).isSome ∨
    ∃ backend ∈ placement.rule.backends,
      parseMac backend.mac = some (zeroMac outcomes placed pool)

theorem backendReady_iff {outcomes : Outcomes} {placed : List Placement}
    {pool : BackendPool} {placement : Placement} {i : Nat} :
    BackendReady outcomes placed pool placement i ↔
      ∃ backend ∈ placement.rule.backends,
        parseMac backend.mac =
          some (slotMac outcomes placed pool placement i) := by
  unfold BackendReady slotMac
  cases hmac : poolMac outcomes placement.start placement.rule.grouped
      (placement.start + i) with
  | none => simp
  | some mac =>
      obtain ⟨-, backend, hbackend, hparse⟩ := poolMac_eq_some hmac
      have hmem : backend ∈ placement.rule.backends :=
        List.mem_of_mem_take (List.mem_of_getElem? hbackend)
      simp only [Option.isSome_some, true_or, Option.getD_some, true_iff]
      exact ⟨backend, hmem, hparse⟩

theorem localMacReady_iff (hconfig : LbRules.fromJson config = .ok rules)
    (hupdate : lb.onConfigUpdate outcomes config = .ok updated) :
    LocalMacReady outcomes lb rules.localMac ↔
      parseMac rules.localMac = some (updated.maps.lbLomac.values 0) := by
  obtain ⟨-, -, hlomac, -⟩ := onConfigUpdate_spec hconfig hupdate
  rw [hlomac, LocalMacReady]
  cases hparse : parseMac rules.localMac with
  | none => simp
  | some mac =>
      rw [storeOctets_of_parseMac hparse]
      cases outcomes.lomac <;> simp [eq_comm]

/-- Whatever was configured before, a rewritten frame carries addresses of the
current configuration exactly where both are ready. -/
theorem sentAsConfigured_iff
    (hconfig : LbRules.fromJson config = .ok rules)
    (hupdate : lb.onConfigUpdate outcomes config = .ok updated)
    (frame : Frame) :
    ((hebpfLbXdpGen updated.maps frame).2 = .chainNext .tx →
        SentAsConfigured rules
          (lastRule (installedRules (placedBy outcomes rules))
            (frameVipKey frame))
          (hebpfLbXdpGen updated.maps frame).1) ↔
      (CompleteHeaders frame → ∀ placement,
        lastInstalled (placedBy outcomes rules) (frameVipKey frame) =
            some placement →
          placement.rule.grouped ≠ [] →
            LocalMacReady outcomes lb rules.localMac ∧
              BackendReady outcomes (placedBy outcomes rules)
                lb.maps.backendPool placement
                (hashIndex frame placement.rule)) := by
  by_cases hframe : CompleteHeaders frame
  · have hrun := hebpfLbXdpGen_of_onConfigUpdate hconfig hupdate hframe
    have hlength : 6 ≤ frame.length := by
      have hheader := hframe.header
      simp only [sizeofEthhdr, sizeofIphdr] at hheader
      omega
    rw [lastRule_installedRules fun placement hmem =>
      (placedBy_split hmem).2.1]
    cases hlast : lastInstalled (placedBy outcomes rules)
        (frameVipKey frame) with
    | none =>
        rw [hlast] at hrun
        simp [hrun]
    | some placement =>
        rw [hlast] at hrun
        by_cases hnil : placement.rule.grouped = []
        · simp [hrun, hnil]
        · simp [hrun, hnil, hframe, localMacReady_iff hconfig hupdate,
            backendReady_iff, sentAsConfigured_rewriteMacs_iff hlength]
  · rcases hebpfLbXdpGen_of_not_completeHeaders hframe with hrun | hrun <;>
      simp [hrun, hframe]

end Update

def vipFrame : Frame :=
  List.replicate 12 0xff ++ [8, 0] ++
    [0x45, 0, 0, 0, 0, 0, 0, 0, 64, 6, 0, 0, 10, 0, 0, 1, 10, 0, 0, 100] ++
    [0x12, 0x34, 0, 80] ++ List.replicate 16 0

theorem completeHeaders_vipFrame : CompleteHeaders vipFrame :=
  ⟨⟨by decide, by decide⟩, by decide⟩

def malformedRule : LbRulesElem := ⟨"10.0.0.100", 80, [⟨"zz"⟩]⟩

def malformedRules : LbRules := ⟨"02:00:00:00:00:01", [malformedRule]⟩

def malformedConfig : Json :=
  .object [("local_mac", .string "02:00:00:00:00:01"),
    ("rules", .array [.object
      [("vip", .string "10.0.0.100"), ("vport", .number 80),
        ("backends", .array [.object [("mac", .string "zz")]])]])]

def allAccepted : Outcomes :=
  ⟨Vector.replicate 6 0xaa, true, fun _ => true, fun _ => true⟩

def lbMalformed : LbBase :=
  (LbBase.start.updateLocalMac allAccepted "02:00:00:00:00:01").installRules
    allAccepted [malformedRule] 0 0 0

theorem clearKernelRules_start :
    LbBase.start.clearKernelRules = LbBase.start := by
  simp only [LbBase.clearKernelRules, BpfHash.clearCollected_eq_empty,
    BpfArray.clearCollected_eq]
  rfl

theorem onConfigUpdate_malformedConfig :
    LbBase.start.onConfigUpdate allAccepted malformedConfig =
      .ok lbMalformed := by
  have hconfig : LbRules.fromJson malformedConfig = .ok malformedRules := rfl
  simp only [LbBase.onConfigUpdate, hconfig, clearKernelRules_start]
  rfl

theorem sentAsConfigured_iff_vipFrame :
    ((hebpfLbXdpGen lbMalformed.maps vipFrame).2 = .chainNext .tx →
        SentAsConfigured malformedRules
          (lastRule (installedRules (placedBy allAccepted malformedRules))
            (frameVipKey vipFrame))
          (hebpfLbXdpGen lbMalformed.maps vipFrame).1) ↔
      (CompleteHeaders vipFrame → ∀ placement,
        lastInstalled (placedBy allAccepted malformedRules)
            (frameVipKey vipFrame) = some placement →
          placement.rule.grouped ≠ [] →
            LocalMacReady allAccepted .start malformedRules.localMac ∧
              BackendReady allAccepted (placedBy allAccepted malformedRules)
                LbBase.start.maps.backendPool placement
                (hashIndex vipFrame placement.rule)) :=
  sentAsConfigured_iff rfl onConfigUpdate_malformedConfig vipFrame

/-- The frame leaves for the all-zero address. -/
theorem not_sentAsConfigured_vipFrame :
    LbRules.fromJson malformedConfig = .ok malformedRules ∧
      LbBase.start.onConfigUpdate allAccepted malformedConfig =
        .ok lbMalformed ∧
      (hebpfLbXdpGen lbMalformed.maps vipFrame).2 = .chainNext .tx ∧
      ethDest (hebpfLbXdpGen lbMalformed.maps vipFrame).1 =
        List.replicate 6 0 ∧
      ¬ SentAsConfigured malformedRules
        (lastRule (installedRules (placedBy allAccepted malformedRules))
          (frameVipKey vipFrame))
        (hebpfLbXdpGen lbMalformed.maps vipFrame).1 := by
  refine ⟨rfl, onConfigUpdate_malformedConfig, by decide, by decide, ?_⟩
  rintro ⟨⟨rule, hrule, backend, hbackend, mac, hparse, -⟩, -⟩
  have hlast : lastRule (installedRules (placedBy allAccepted malformedRules))
      (frameVipKey vipFrame) = some malformedRule := by decide
  cases hlast.symm.trans hrule
  obtain rfl := List.mem_singleton.mp hbackend
  have hnone : parseMac "zz" = none := by decide
  cases hnone.symm.trans hparse

end Hebpf.Services.Lb
