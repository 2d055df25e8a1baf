import Hebpf.Common.Encode
import Hebpf.Data.Run
import Hebpf.Services.Acl.Updates
import Hebpf.Services.Lb.Valid

namespace Hebpf.Services.Lb

open Hebpf.Common Hebpf.Data Hebpf.Kernel

/-! A load-balancing service over its updates, and what it shows of its
rules. -/

def Backends.toJson (backends : Backends) : Json :=
  .object [("mac", .string backends.mac)]

def LbRulesElem.toJson (rule : LbRulesElem) : Json :=
  .object [("vip", .string rule.vip), ("vport", .number rule.vport.toNat),
    ("backends", .array (rule.backends.map Backends.toJson))]

def LbRules.toJson (lb : LbRules) : Json :=
  .object [("local_mac", .string lb.localMac),
    ("rules", .array (lb.rules.map LbRulesElem.toJson))]

theorem Backends.fromJson_toJson (backends : Backends) :
    fromJson backends.toJson = .ok backends := rfl

theorem LbRulesElem.fromJson_toJson (rule : LbRulesElem) :
    fromJson rule.toJson = .ok rule := by
  have hvip : ∀ default, rule.toJson.fieldOr "vip" default Json.getString =
      .ok rule.vip := fun _ => rfl
  have hvport : ∀ default, rule.toJson.fieldOr "vport" default
      Json.getUInt16 = .ok rule.vport :=
    fun _ => Acl.getUInt16_number rule.vport
  have hbackends : ∀ default, rule.toJson.fieldOr "backends" default
      (Json.getVector Backends.fromJson) = .ok rule.backends :=
    fun _ => Json.getVector_array Backends.fromJson_toJson rule.backends
  simp only [fromJson, hvip, hvport, hbackends]
  rfl

theorem LbRules.fromJson_toJson (lb : LbRules) :
    fromJson lb.toJson = .ok lb := by
  have hlocalMac : ∀ default, lb.toJson.fieldOr "local_mac" default
      Json.getString = .ok lb.localMac := fun _ => rfl
  have hrules : ∀ default, lb.toJson.fieldOr "rules" default
      (Json.getVector LbRulesElem.fromJson) = .ok lb.rules :=
    fun _ => Json.getVector_array LbRulesElem.fromJson_toJson lb.rules
  simp only [fromJson, hlocalMac, hrules]
  rfl

/-- A configuration, whether the maps of the skeleton have their descriptors,
which they get together when it is loaded, and what the kernel answers while the
configuration is installed. -/
structure UpdateCall where
  config : Json
  mapFd : Bool
  outcomes : Outcomes

namespace LbBase

def getDebugStatus (lb : LbBase) : Json := lb.rules.toJson

/-- `onConfigUpdate` of a service.  Without descriptors the first one asked for,
that of `vip_backends`, is missing before anything is cleared. -/
def update (lb : LbBase) (call : UpdateCall) : Result Unit × LbBase :=
  match LbRules.fromJson call.config with
  | .error exc => (.error ⟨"Invalid LB config: " ++ exc.what⟩, lb)
  | .ok _ =>
      if call.mapFd then
        match lb.onConfigUpdate call.outcomes call.config with
        | .error exc => (.error exc, lb)
        | .ok updated => (.ok (), updated)
      else (.error ⟨"Failed to get LB hash rules in kernel mode"⟩, lb)

def step (lb : LbBase) (call : UpdateCall) : LbBase := (lb.update call).2

theorem update_of_ok (lb : LbBase) {call : UpdateCall} {rules : LbRules}
    (hconfig : LbRules.fromJson call.config = .ok rules)
    (hmap : call.mapFd = true) :
    ∃ updated, lb.onConfigUpdate call.outcomes call.config = .ok updated ∧
      lb.update call = (.ok (), updated) := by
  have hupdate : ∃ updated,
      lb.onConfigUpdate call.outcomes call.config = .ok updated := by
    unfold onConfigUpdate
    rw [hconfig]
    exact ⟨_, rfl⟩
  obtain ⟨updated, hupdate⟩ := hupdate
  refine ⟨updated, hupdate, ?_⟩
  unfold update
  simp only [hconfig, hmap, hupdate, if_true]

theorem update_cases (lb : LbBase) (call : UpdateCall) :
    (∃ exc, lb.update call = (.error exc, lb)) ∨
      ∃ rules updated, LbRules.fromJson call.config = .ok rules ∧
        lb.onConfigUpdate call.outcomes call.config = .ok updated ∧
        lb.update call = (.ok (), updated) := by
  cases hconfig : LbRules.fromJson call.config with
  | error exc =>
      unfold update
      rw [hconfig]
      exact .inl ⟨_, rfl⟩
  | ok rules =>
      cases hmap : call.mapFd with
      | false =>
          unfold update
          simp only [hconfig, hmap]
          exact .inl ⟨_, rfl⟩
      | true =>
          obtain ⟨updated, hupdate, hcall⟩ := lb.update_of_ok hconfig hmap
          exact .inr ⟨rules, updated, rfl, hupdate, hcall⟩

/-- The VIPs that the kernel knows are those of the mirrored rules, each with
the backends of the last rule for it. -/
structure Installed (lb : LbBase) : Prop where
  vips : ∀ rule ∈ lb.rules.rules, ∃ vkey, rule.vipKey? = some vkey
  counts : ∀ vkey,
    (lb.maps.vipBackends.lookupElem vkey).map VipGroup.count =
      (lastRule lb.rules.rules vkey).map fun rule =>
        UInt32.ofNat rule.grouped.length
  size : lb.rules.rules.length ≤ MAX_RULES_SIZE

theorem start_installed : start.Installed where
  vips := by
    intro rule hrule
    cases hrule
  counts _ := rfl
  size := Nat.zero_le _

end LbBase

theorem length_installedRules_placements (outcomes : Outcomes)
    (rules : List LbRulesElem) {attempt success start : Nat}
    {keys : List VipKey} (hsuccess : success < MAX_RULES_SIZE) :
    success + (installedRules (placements outcomes rules attempt success start
      keys)).length ≤ MAX_RULES_SIZE := by
  induction rules generalizing attempt success start keys with
  | nil => exact hsuccess.le
  | cons rule rest ih =>
      unfold placements
      cases hkey : rule.vipKey? with
      | none => exact ih hsuccess
      | some vkey =>
          simp only
          split_ifs with hinstall hlimit
          · exact hsuccess
          · have hrest := @ih (attempt + 1) (success + 1)
              (start + rule.grouped.length) (vkey :: keys.erase vkey)
              (not_le.mp hlimit)
            simp only [installedRules, List.filter_cons, if_true,
              List.map_cons, List.length_cons] at hrest ⊢
            omega
          · simpa only [installedRules, List.filter_cons, Bool.false_eq_true,
              if_false] using ih hsuccess

theorem isSome_lastRule {rules : List LbRulesElem} {rule : LbRulesElem}
    {vkey : VipKey} (hrule : rule ∈ rules)
    (hvkey : rule.vipKey? = some vkey) : (lastRule rules vkey).isSome := by
  rw [lastRule, List.find?_isSome]
  exact ⟨rule, List.mem_reverse.mpr hrule, decide_eq_true hvkey⟩

namespace LbBase

variable {lb : LbBase}

theorem installed_of_onConfigUpdate {outcomes : Outcomes} {updated : LbBase}
    {config : Json} {rules : LbRules}
    (hconfig : LbRules.fromJson config = .ok rules)
    (hupdate : lb.onConfigUpdate outcomes config = .ok updated) :
    updated.Installed := by
  obtain ⟨hlookup, -, -, hrules⟩ := onConfigUpdate_spec hconfig hupdate
  have hplaced : ∀ placement ∈ placedBy outcomes rules,
      placement.rule.vipKey? = some placement.vkey :=
    fun placement hmem => (placedBy_split hmem).2.1
  constructor
  · intro rule hrule
    rw [hrules] at hrule
    obtain ⟨placement, hplacement, rfl⟩ := List.mem_map.mp hrule
    exact ⟨_, hplaced placement (List.mem_filter.mp hplacement).1⟩
  · intro vkey
    rw [hlookup, lastValue_vipEntries, hrules,
      lastRule_installedRules hplaced, Option.map_map, Option.map_map]
    rfl
  · have hsize := @length_installedRules_placements outcomes rules.rules 0 0 0
      [] (by decide)
    rw [Nat.zero_add] at hsize
    rw [hrules]
    exact hsize

theorem Installed.step (hinstalled : lb.Installed) (call : UpdateCall) :
    (lb.step call).Installed := by
  unfold LbBase.step
  rcases lb.update_cases call with ⟨exc, hcall⟩ |
    ⟨rules, updated, hconfig, hupdate, hcall⟩
  · rw [hcall]
    exact hinstalled
  · rw [hcall]
    exact installed_of_onConfigUpdate hconfig hupdate

theorem run_installed (calls : List UpdateCall) :
    (run step start calls).Installed :=
  invariant_run (fun _ call hinstalled => hinstalled.step call)
    start_installed calls

theorem Installed.keys (hinstalled : lb.Installed) :
    (lb.rules.rules.filterMap LbRulesElem.vipKey?).dedup.length ≤
      MAXSIZE_LB_HASH := by
  have hsubset : (lb.rules.rules.filterMap LbRulesElem.vipKey?).dedup ⊆
      lb.maps.vipBackends.keys := by
    intro vkey hvkey
    rw [List.mem_dedup, List.mem_filterMap] at hvkey
    obtain ⟨rule, hrule, hkey⟩ := hvkey
    have hcount := congrArg Option.isSome (hinstalled.counts vkey)
    rw [Option.isSome_map, Option.isSome_map, isSome_lastRule hrule hkey]
      at hcount
    exact BpfHash.lookupElem_isSome_iff.mp hcount
  have hsubperm := List.subperm_of_subset (List.nodup_dedup _) hsubset
  exact hsubperm.length_le.trans lb.maps.vipBackends.bounded

theorem Installed.installedRules (hinstalled : lb.Installed)
    {outcomes : Outcomes} (houtcomes : outcomes.AllAccepted) :
    Lb.installedRules (placedBy outcomes lb.rules) = lb.rules.rules := by
  have hsize := hinstalled.size
  rw [← Nat.zero_add lb.rules.rules.length] at hsize
  obtain ⟨hrules, hall⟩ := placements_of_valid houtcomes hinstalled.keys
    lb.rules.rules 0 0 0 [] List.nodup_nil (List.nil_subset _)
    (fun rule hrule => by
      obtain ⟨vkey, hkey⟩ := hinstalled.vips rule hrule
      exact ⟨vkey, List.mem_filterMap.mpr ⟨rule, hrule, hkey⟩, hkey⟩) hsize
  unfold placedBy
  rw [Lb.installedRules, List.filter_eq_self.mpr hall]
  exact hrules

/-- After any updates, whichever insertions the kernel refused, the table and
the mirror agree on the VIPs and the number of their backends, and an update
that throws changes nothing.  What is shown brings any instance whose updates
are accepted to the same rules, VIPs and numbers, and where the rules are valid
to the forwarding that they describe. -/
theorem installed_restored (calls : List UpdateCall) :
    (run step start calls).Installed ∧
    (∀ call exc, ((run step start calls).update call).1 = .error exc →
      ((run step start calls).update call).2 = run step start calls) ∧
    ∀ (fresh : LbBase) (outcomes : Outcomes), outcomes.AllAccepted →
      ∃ restored,
        fresh.update ⟨(run step start calls).getDebugStatus, true, outcomes⟩ =
          (.ok (), restored) ∧
        restored.rules = (run step start calls).rules ∧
        (∀ vkey, (restored.maps.vipBackends.lookupElem vkey).map
            VipGroup.count =
          ((run step start calls).maps.vipBackends.lookupElem vkey).map
            VipGroup.count) ∧
        ((run step start calls).rules.Valid → ∀ frame,
          CompleteHeaders frame → hebpfLbXdpGen restored.maps frame =
            forwarded (run step start calls).rules frame) := by
  have hinstalled := run_installed calls
  generalize run step start calls = lb at hinstalled ⊢
  refine ⟨hinstalled, ?_, ?_⟩
  · intro call exc hthrows
    rcases lb.update_cases call with ⟨other, hcall⟩ |
      ⟨rules, updated, _, _, hcall⟩
    · rw [hcall]
    · rw [hcall] at hthrows
      cases hthrows
  · intro fresh outcomes houtcomes
    have hconfig := lb.rules.fromJson_toJson
    obtain ⟨restored, hupdate, hcall⟩ :=
      @update_of_ok fresh ⟨lb.getDebugStatus, true, outcomes⟩ _ hconfig rfl
    have hrestored := installed_of_onConfigUpdate hconfig hupdate
    obtain ⟨-, -, -, hrules⟩ := onConfigUpdate_spec hconfig hupdate
    rw [hinstalled.installedRules houtcomes] at hrules
    refine ⟨restored, hcall, hrules, ?_, ?_⟩
    · intro vkey
      rw [hrestored.counts, hinstalled.counts, hrules]
    · intro hvalid frame hheaders
      exact hebpfLbXdpGen_of_valid houtcomes hvalid hconfig hupdate hheaders

end LbBase

end Hebpf.Services.Lb
