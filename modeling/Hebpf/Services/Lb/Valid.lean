import Hebpf.Services.Lb.Safety
import Mathlib.Data.List.Dedup

namespace Hebpf.Services.Lb

open Hebpf.Common Hebpf.Kernel

/-! What a valid configuration does to every frame, after any history. -/

/-- Every VIP is an IPv4 address, every MAC address parses, and the tables have
room for the keys, the backends and the rules. -/
structure LbRules.Valid (rules : LbRules) : Prop where
  vips : ∀ rule ∈ rules.rules, ∃ vkey, rule.vipKey? = some vkey
  macs : ∀ rule ∈ rules.rules, ∀ backend ∈ rule.backends,
    ∃ mac, parseMac backend.mac = some mac
  localMac : ∃ mac, parseMac rules.localMac = some mac
  keys : (rules.rules.filterMap LbRulesElem.vipKey?).dedup.length ≤
    MAXSIZE_LB_HASH
  total : (rules.rules.map fun rule =>
    min rule.backends.length MAX_BACKENDS_PER_VIP).sum ≤ TOTAL_BACKENDS
  size : rules.rules.length ≤ MAX_RULES_SIZE

theorem placements_of_valid {outcomes : Outcomes}
    (houtcomes : outcomes.AllAccepted) {allKeys : List VipKey}
    (hroom : allKeys.dedup.length ≤ MAXSIZE_LB_HASH)
    (rules : List LbRulesElem) (attempt success start : Nat)
    (keys : List VipKey) (hnodup : keys.Nodup) (hkeys : keys ⊆ allKeys)
    (hvips : ∀ rule ∈ rules, ∃ vkey ∈ allKeys, rule.vipKey? = some vkey)
    (hsize : success + rules.length ≤ MAX_RULES_SIZE) :
    let placed := placements outcomes rules attempt success start keys
    placed.map Placement.rule = rules ∧
      ∀ placement ∈ placed, placement.installed = true := by
  induction rules generalizing attempt success start keys with
  | nil => simp [placements]
  | cons rule rest ih =>
      obtain ⟨vkey, hvkey, hkey⟩ := hvips rule (.head _)
      have haccept : outcomes.vip attempt ∧
          (vkey ∈ keys ∨ keys.length < MAXSIZE_LB_HASH) := by
        refine ⟨houtcomes.vip attempt, ?_⟩
        by_contra hfull
        obtain ⟨hnew, hfull⟩ := not_or.mp hfull
        have hsub : vkey :: keys ⊆ allKeys.dedup := by
          intro other hother
          rw [List.mem_dedup]
          rcases List.mem_cons.mp hother with rfl | hother
          · exact hvkey
          · exact hkeys hother
        have hlength := (List.subperm_of_subset
          (List.nodup_cons.mpr ⟨hnew, hnodup⟩) hsub).length_le
        simp only [List.length_cons] at hlength
        omega
      simp only [placements, hkey, haccept, and_self, if_true]
      simp only [List.length_cons] at hsize
      split_ifs with hlimit
      · have hrest : rest = [] := List.length_eq_zero_iff.mp (by omega)
        simp [hrest]
      · have hmore := ih (attempt + 1) (success + 1)
          (start + rule.grouped.length) (vkey :: keys.erase vkey)
          (List.nodup_cons.mpr ⟨hnodup.not_mem_erase, hnodup.erase vkey⟩)
          (List.cons_subset.mpr ⟨hvkey, fun other hother =>
            hkeys (List.mem_of_mem_erase hother)⟩)
          (fun rule hrule => hvips rule (.tail _ hrule)) (by omega)
        obtain ⟨hrules, hinstalled⟩ := hmore
        simpa [hrules] using hinstalled

theorem placedBy_of_valid {outcomes : Outcomes}
    (houtcomes : outcomes.AllAccepted) {rules : LbRules}
    (hvalid : rules.Valid) :
    (placedBy outcomes rules).map Placement.rule = rules.rules ∧
      ∀ placement ∈ placedBy outcomes rules,
        placement.installed = true := by
  refine placements_of_valid houtcomes hvalid.keys rules.rules 0 0 0 []
    List.nodup_nil (List.nil_subset _) ?_ (by simpa using hvalid.size)
  intro rule hmem
  obtain ⟨vkey, hkey⟩ := hvalid.vips rule hmem
  exact ⟨vkey, List.mem_filterMap.mpr ⟨rule, hmem, hkey⟩, hkey⟩

theorem installedRules_of_valid {outcomes : Outcomes}
    (houtcomes : outcomes.AllAccepted) {rules : LbRules}
    (hvalid : rules.Valid) :
    installedRules (placedBy outcomes rules) = rules.rules := by
  obtain ⟨hrules, hinstalled⟩ := placedBy_of_valid houtcomes hvalid
  rw [installedRules, List.filter_eq_self.mpr hinstalled, hrules]

theorem length_pooled_of_valid {outcomes : Outcomes}
    (houtcomes : outcomes.AllAccepted) {rules : LbRules}
    (hvalid : rules.Valid) :
    (pooled (placedBy outcomes rules)).length ≤ TOTAL_BACKENDS := by
  have htotal := hvalid.total
  rw [← (placedBy_of_valid houtcomes hvalid).1, List.map_map] at htotal
  simpa [pooled, List.length_flatMap, LbRulesElem.grouped,
    Function.comp_def, Nat.min_comm] using htotal

theorem slotMac_of_valid {outcomes : Outcomes}
    (houtcomes : outcomes.AllAccepted) {rules : LbRules}
    (hvalid : rules.Valid) (pool : BackendPool) {placement : Placement}
    (hmem : placement ∈ placedBy outcomes rules) {i : Nat}
    {backend : Backends} (hbackend : placement.rule.grouped[i]? = some backend) :
    parseMac backend.mac =
      some (slotMac outcomes (placedBy outcomes rules) pool placement i) := by
  obtain ⟨hrule, -, before, after, hsplit, hstart⟩ := placedBy_split hmem
  have hi : i < placement.rule.grouped.length :=
    (List.getElem?_eq_some_iff.mp hbackend).1
  have hindex : placement.start + i < TOTAL_BACKENDS := by
    have htotal := length_pooled_of_valid houtcomes hvalid
    have hpooled : pooled (before ++ placement :: after) =
        pooled before ++ (placement.rule.grouped ++ pooled after) := by
      simp [pooled]
    rw [hsplit, hpooled, List.length_append, List.length_append] at htotal
    omega
  obtain ⟨mac, hparse⟩ := hvalid.macs placement.rule hrule backend
    (List.mem_of_mem_take (List.mem_of_getElem? hbackend))
  have hmac : poolMac outcomes placement.start placement.rule.grouped
      (placement.start + i) = some mac := by
    simp [poolMac, hbackend, placedMac, hindex, houtcomes.pool, hparse]
  rw [hparse, slotMac, hmac, Option.getD_some]

def forwarded (rules : LbRules) (frame : Frame) : Frame × Exit XdpAction :=
  match lastRule rules.rules (frameVipKey frame) with
  | none => (frame, .chainNext .pass)
  | some rule =>
      match rule.grouped[hashIndex frame rule]? with
      | none => (frame, .chainNext .pass)
      | some backend =>
          match parseMac rules.localMac, parseMac backend.mac with
          | some source, some dest =>
              (rewriteMacs frame source dest, .chainNext .tx)
          | _, _ => (frame, .chainNext .pass)

section Update

variable {outcomes : Outcomes} {lb updated : LbBase} {config : Json}
  {rules : LbRules}

theorem hebpfLbXdpGen_of_valid (houtcomes : outcomes.AllAccepted)
    (hvalid : rules.Valid) (hconfig : LbRules.fromJson config = .ok rules)
    (hupdate : lb.onConfigUpdate outcomes config = .ok updated)
    {frame : Frame} (hframe : CompleteHeaders frame) :
    hebpfLbXdpGen updated.maps frame = forwarded rules frame := by
  obtain ⟨-, -, hlomac, -⟩ := onConfigUpdate_spec hconfig hupdate
  obtain ⟨source, hsource⟩ := hvalid.localMac
  rw [houtcomes.lomac, if_pos rfl, storeOctets_of_parseMac hsource] at hlomac
  have hlast := lastRule_installedRules
    (fun _ hmem => (@placedBy_split outcomes rules _ hmem).2.1)
    (frameVipKey frame)
  rw [installedRules_of_valid houtcomes hvalid] at hlast
  rw [hebpfLbXdpGen_of_onConfigUpdate hconfig hupdate hframe, forwarded,
    hlast]
  cases hplacement : lastInstalled (placedBy outcomes rules)
      (frameVipKey frame) with
  | none => rfl
  | some placement =>
      have hmem := (lastInstalled_mem hplacement).1
      simp only [Option.map_some]
      by_cases hnil : placement.rule.grouped = []
      · simp [hnil]
      · have hindex : hashIndex frame placement.rule <
            placement.rule.grouped.length :=
          Nat.mod_lt _ (List.length_pos_iff.mpr hnil)
        have hbackend := List.getElem?_eq_getElem hindex
        simp only [hnil, if_false, hbackend, hsource,
          slotMac_of_valid houtcomes hvalid lb.maps.backendPool hmem hbackend,
          hlomac]

theorem forwarded_of_valid (hvalid : rules.Valid) {frame : Frame}
    {rule : LbRulesElem}
    (hrule : lastRule rules.rules (frameVipKey frame) = some rule)
    (hbackends : rule.backends ≠ []) :
    ∃ source backend dest,
      parseMac rules.localMac = some source ∧
      rule.backends[(ipSaddr frame).loadWord %
        min rule.backends.length MAX_BACKENDS_PER_VIP]? = some backend ∧
      parseMac backend.mac = some dest ∧
      forwarded rules frame =
        (rewriteMacs frame source dest, .chainNext .tx) := by
  have hmem : rule ∈ rules.rules :=
    List.mem_reverse.mp (List.mem_of_find?_eq_some hrule)
  have hlength : rule.grouped.length =
      min rule.backends.length MAX_BACKENDS_PER_VIP := by
    rw [LbRulesElem.grouped, List.length_take, Nat.min_comm]
  have hpositive : 0 < rule.grouped.length := by
    have hsome := List.length_pos_iff.mpr hbackends
    simp only [hlength, MAX_BACKENDS_PER_VIP]
    omega
  have hindex : hashIndex frame rule < rule.grouped.length :=
    Nat.mod_lt _ hpositive
  obtain ⟨source, hsource⟩ := hvalid.localMac
  obtain ⟨backend, hbackend⟩ : ∃ backend,
      rule.grouped[hashIndex frame rule]? = some backend :=
    ⟨_, List.getElem?_eq_getElem hindex⟩
  have hplain : rule.backends[hashIndex frame rule]? = some backend := by
    rw [← hbackend, LbRulesElem.grouped, List.getElem?_take_of_lt]
    rw [hlength] at hindex
    omega
  obtain ⟨dest, hdest⟩ := hvalid.macs rule hmem backend
    (List.mem_of_getElem? hplain)
  refine ⟨source, backend, dest, hsource, ?_, hdest, ?_⟩
  · rw [← hlength]
    exact hplain
  · simp only [forwarded, hrule, hbackend, hsource, hdest]

/-- After a valid configuration a frame for one of its VIPs gets the local
address and that of the backend its source address selects, every other frame
that is not an IPv4 frame of header length below five is left as it is, and
nothing depends on what was configured before. -/
theorem forwards_of_valid (houtcomes : outcomes.AllAccepted)
    (hvalid : rules.Valid) (hconfig : LbRules.fromJson config = .ok rules)
    (hupdate : lb.onConfigUpdate outcomes config = .ok updated) :
    (∀ frame rule, TransportFrame frame →
      lastRule rules.rules (frameVipKey frame) = some rule →
      rule.backends ≠ [] →
        ∃ source backend dest,
          parseMac rules.localMac = some source ∧
          rule.backends[(ipSaddr frame).loadWord %
            min rule.backends.length MAX_BACKENDS_PER_VIP]? = some backend ∧
          parseMac backend.mac = some dest ∧
          ethSource (hebpfLbXdpGen updated.maps frame).1 = source.toList ∧
          ethDest (hebpfLbXdpGen updated.maps frame).1 = dest.toList ∧
          (hebpfLbXdpGen updated.maps frame).1.drop 12 = frame.drop 12) ∧
      (∀ frame, (TransportFrame frame → ∀ rule,
          lastRule rules.rules (frameVipKey frame) = some rule →
            rule.backends = []) →
        ¬ (Ipv4Frame frame ∧ ipIhl frame < 5) →
          (hebpfLbXdpGen updated.maps frame).1 = frame) ∧
      ∀ (other otherUpdated : LbBase) (otherOutcomes : Outcomes),
        otherOutcomes.AllAccepted →
        other.onConfigUpdate otherOutcomes config = .ok otherUpdated →
          ∀ frame, hebpfLbXdpGen otherUpdated.maps frame =
            hebpfLbXdpGen updated.maps frame := by
  refine ⟨?_, ?_, ?_⟩
  · intro frame rule hframe hrule hbackends
    obtain ⟨source, backend, dest, hsource, hbackend, hdest, hforwarded⟩ :=
      forwarded_of_valid hvalid hrule hbackends
    have hlength : 6 ≤ frame.length := by
      have hheader := hframe.header
      simp only [sizeofEthhdr, sizeofIphdr] at hheader
      omega
    refine ⟨source, backend, dest, hsource, hbackend, hdest, ?_⟩
    rw [hebpfLbXdpGen_of_valid houtcomes hvalid hconfig hupdate
      hframe.toCompleteHeaders, hforwarded]
    exact ⟨ethSource_rewriteMacs hlength .., ethDest_rewriteMacs ..,
      drop_rewriteMacs hlength ..⟩
  · intro frame hother hihl
    by_cases hframe : CompleteHeaders frame
    · have htransport : TransportFrame frame :=
        ⟨hframe, not_lt.mp fun hshort => hihl ⟨hframe.toIpv4Frame, hshort⟩⟩
      rw [hebpfLbXdpGen_of_valid houtcomes hvalid hconfig hupdate hframe,
        forwarded]
      cases hrule : lastRule rules.rules (frameVipKey frame) with
      | none => rfl
      | some rule =>
          have hnil := hother htransport rule hrule
          simp [LbRulesElem.grouped, hnil]
    · rcases hebpfLbXdpGen_of_not_completeHeaders hframe with hrun | hrun <;>
        rw [hrun]
  · intro other otherUpdated otherOutcomes hother hotherUpdate frame
    by_cases hframe : CompleteHeaders frame
    · rw [hebpfLbXdpGen_of_valid hother hvalid hconfig hotherUpdate hframe,
        hebpfLbXdpGen_of_valid houtcomes hvalid hconfig hupdate hframe]
    · rcases hebpfLbXdpGen_of_not_completeHeaders hframe with hrun | hrun <;>
        rw [hrun, hrun]

end Update

def balancedRules : LbRules where
  localMac := "02:00:00:00:00:01"
  rules := [⟨"10.0.0.100", 80,
    [⟨"02:00:00:00:00:0a"⟩, ⟨"02:00:00:00:00:0b"⟩]⟩]

def balancedConfig : Json :=
  .object [("local_mac", .string "02:00:00:00:00:01"),
    ("rules", .array [.object
      [("vip", .string "10.0.0.100"), ("vport", .number 80),
        ("backends", .array [.object [("mac", .string "02:00:00:00:00:0a")],
          .object [("mac", .string "02:00:00:00:00:0b")]])]])]

def lbBalanced : LbBase :=
  (LbBase.start.updateLocalMac allAccepted "02:00:00:00:00:01").installRules
    allAccepted balancedRules.rules 0 0 0

theorem balancedRules_valid : balancedRules.Valid where
  vips := by
    intro rule hrule
    obtain rfl := List.mem_singleton.mp hrule
    exact ⟨⟨⟨10, 0, 0, 100⟩, ⟨0, 80⟩, 0⟩, by decide⟩
  macs := by
    intro rule hrule backend hbackend
    obtain rfl := List.mem_singleton.mp hrule
    apply Option.isSome_iff_exists.mp
    revert backend
    decide
  localMac := Option.isSome_iff_exists.mp (by decide)
  keys := by decide
  total := by decide
  size := by decide

/-- Word 0x0100000a of the source address is even: the first backend. -/
theorem forwards_of_valid_vipFrame :
    ethDest (hebpfLbXdpGen lbBalanced.maps vipFrame).1 =
        [2, 0, 0, 0, 0, 0x0a] ∧
      ethSource (hebpfLbXdpGen lbBalanced.maps vipFrame).1 =
        [2, 0, 0, 0, 0, 1] := by
  have hupdate : LbBase.start.onConfigUpdate allAccepted balancedConfig =
      .ok lbBalanced := by
    have hconfig : LbRules.fromJson balancedConfig = .ok balancedRules := rfl
    simp only [LbBase.onConfigUpdate, hconfig, clearKernelRules_start]
    rfl
  obtain ⟨source, backend, dest, hsource, hbackend, hdest, hsent⟩ :=
    (@forwards_of_valid allAccepted .start lbBalanced balancedConfig
      balancedRules ⟨rfl, fun _ => rfl, fun _ => rfl⟩ balancedRules_valid rfl
      hupdate).1 vipFrame _ ⟨completeHeaders_vipFrame, by decide⟩ rfl
      (by decide)
  have hfirst : backend = ⟨"02:00:00:00:00:0a"⟩ :=
    Option.some.inj (hbackend.symm.trans (by decide))
  subst hfirst
  have hsource' : parseMac balancedRules.localMac =
      some #v[2, 0, 0, 0, 0, 1] := by decide
  have hdest' : parseMac "02:00:00:00:00:0a" =
      some #v[2, 0, 0, 0, 0, 0x0a] := by decide
  cases hsource'.symm.trans hsource
  cases hdest'.symm.trans hdest
  exact ⟨hsent.2.1, hsent.1⟩

end Hebpf.Services.Lb
