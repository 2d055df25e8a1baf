import Hebpf.Daemon.Loader
import Hebpf.Services.Acl.Base
import Hebpf.Services.Lb.Placement

namespace Hebpf.Daemon

open Hebpf.Common Hebpf.Data Hebpf.Ebpf Hebpf.Services

/-! What becomes of the rules of a loaded service when its file does not parse. -/

inductive RuleService where
  | acl (base : Acl.AclBase)
  | lb (base : Lb.LbBase)

structure RuleOutcomes where
  acl : Nat → Bool
  lb : Lb.Outcomes

def orUnchanged {σ : Type} (service : σ) : Result σ → Result Unit × σ
  | .error exc => (.error exc, service)
  | .ok updated => (.ok (), updated)

namespace RuleService

def onConfigUpdate (outcomes : RuleOutcomes) (config : Json) :
    RuleService → Result Unit × RuleService
  | acl base =>
      orUnchanged (acl base)
        (acl <$> base.onConfigUpdate outcomes.acl config)
  | lb base =>
      orUnchanged (lb base) (lb <$> base.onConfigUpdate outcomes.lb config)

def ops {π : Type} (getMainProg : RuleService → Option π) :
    EbpfIf RuleService RuleOutcomes π where
  getName
    | acl _ => "acl"
    | lb _ => "lb"
  getMainProg := getMainProg
  onConfigUpdate outcomes _ _ config service :=
    service.onConfigUpdate outcomes config

def SameRules : RuleService → RuleService → Prop
  | acl before, acl after =>
      after.rules = before.rules ∧
        ∀ key, after.krules.lookupElem key = before.krules.lookupElem key
  | lb before, lb after =>
      after.rules = before.rules ∧
        (∀ key, after.maps.vipBackends.lookupElem key =
          before.maps.vipBackends.lookupElem key) ∧
        after.maps.backendPool = before.maps.backendPool ∧
        after.maps.lbLomac.lookupElem 0 = before.maps.lbLomac.lookupElem 0
  | _, _ => False

/-- The tables and the mirror are what installing `config` gives, unless it is
not a document of rules at all. -/
def AlreadyInstalled (outcomes : RuleOutcomes) (config : Json) :
    RuleService → Prop
  | acl base => ∀ rules, Acl.AclRules.fromJson config = .ok rules →
      Acl.installedRules outcomes.acl rules.rules = base.rules.rules ∧
        ∀ key, lastValue (Acl.tableEntries base.rules.rules) key =
          base.krules.lookupElem key
  | lb base => ∀ rules, Lb.LbRules.fromJson config = .ok rules →
      let placements := Lb.placedBy outcomes.lb rules
      ⟨rules.localMac, Lb.installedRules placements⟩ = base.rules ∧
        (∀ key, lastValue (Lb.vipEntries outcomes.lb placements) key =
          base.maps.vipBackends.lookupElem key) ∧
        Lb.poolAfter outcomes.lb 0 (Lb.pooled placements)
          base.maps.backendPool = base.maps.backendPool ∧
        (outcomes.lb.lomac = true → base.maps.lbLomac.lookupElem 0 =
          some (storeOctets outcomes.lb.garbage (sscanfMac rules.localMac)))

theorem SameRules.refl (service : RuleService) : service.SameRules service := by
  cases service with
  | acl base => exact ⟨rfl, fun _ => rfl⟩
  | lb base => exact ⟨rfl, fun _ => rfl, rfl, rfl⟩

theorem acl_sameRules_iff {insert : Nat → Bool} {base updated : Acl.AclBase}
    {config : Json} {rules : Acl.AclRules}
    (hconfig : Acl.AclRules.fromJson config = .ok rules)
    (hupdate : base.onConfigUpdate insert config = .ok updated) :
    (acl base).SameRules (acl updated) ↔
      Acl.installedRules insert rules.rules = base.rules.rules ∧
        ∀ key, lastValue (Acl.tableEntries base.rules.rules) key =
          base.krules.lookupElem key := by
  obtain ⟨hrules, hlookup⟩ := Acl.AclBase.onConfigUpdate_spec hconfig hupdate
  have hmirror : updated.rules = base.rules ↔
      Acl.installedRules insert rules.rules = base.rules.rules := by
    rw [← hrules]
    constructor
    · exact congrArg _
    · intro heq
      cases hbefore : base.rules
      cases hafter : updated.rules
      rw [hbefore, hafter] at heq
      exact congrArg _ heq
  simp only [SameRules, hmirror, hlookup]
  refine and_congr_right fun hinstalled => ?_
  rw [hinstalled]

theorem lb_sameRules_iff {outcomes : Lb.Outcomes} {base updated : Lb.LbBase}
    {config : Json} {rules : Lb.LbRules}
    (hconfig : Lb.LbRules.fromJson config = .ok rules)
    (hupdate : base.onConfigUpdate outcomes config = .ok updated) :
    (lb base).SameRules (lb updated) ↔
      ⟨rules.localMac,
          Lb.installedRules (Lb.placedBy outcomes rules)⟩ = base.rules ∧
        (∀ key, lastValue
            (Lb.vipEntries outcomes (Lb.placedBy outcomes rules)) key =
          base.maps.vipBackends.lookupElem key) ∧
        Lb.poolAfter outcomes 0 (Lb.pooled (Lb.placedBy outcomes rules))
          base.maps.backendPool = base.maps.backendPool ∧
        (outcomes.lomac = true → base.maps.lbLomac.lookupElem 0 =
          some (storeOctets outcomes.garbage
            (sscanfMac rules.localMac))) := by
  obtain ⟨hvip, hpool, hlomac, hrules⟩ :=
    Lb.onConfigUpdate_spec hconfig hupdate
  have hlookup : ∀ maps : Lb.LbMaps, maps.lbLomac.lookupElem 0 =
      some (maps.lbLomac.values 0) := fun _ => rfl
  have hlomacIff : updated.maps.lbLomac.lookupElem 0 =
      base.maps.lbLomac.lookupElem 0 ↔ (outcomes.lomac = true →
        base.maps.lbLomac.lookupElem 0 =
          some (storeOctets outcomes.garbage
            (sscanfMac rules.localMac))) := by
    rw [hlookup, hlookup, hlomac]
    split_ifs with haccepted <;> simp [haccepted, eq_comm]
  simp only [SameRules, hrules, hvip, hpool, hlomacIff]

theorem sameRules_onConfigUpdate_iff (outcomes : RuleOutcomes) (config : Json)
    (service : RuleService) :
    service.SameRules (service.onConfigUpdate outcomes config).2 ↔
      service.AlreadyInstalled outcomes config := by
  cases service with
  | acl base =>
      cases hconfig : Acl.AclRules.fromJson config with
      | error exc =>
          have hupdate : base.onConfigUpdate outcomes.acl config =
              .error ⟨"Invalid ACL config: " ++ exc.what⟩ := by
            simp only [Acl.AclBase.onConfigUpdate, hconfig]
          simp only [onConfigUpdate, hupdate, AlreadyInstalled, hconfig]
          refine iff_of_true (.refl _) fun rules hrules => ?_
          cases hrules
      | ok rules =>
          obtain ⟨updated, hupdate⟩ : ∃ updated,
              base.onConfigUpdate outcomes.acl config = .ok updated := by
            simp only [Acl.AclBase.onConfigUpdate, hconfig]
            exact ⟨_, rfl⟩
          simp only [onConfigUpdate, hupdate, AlreadyInstalled, hconfig,
            Except.ok.injEq, forall_eq']
          exact acl_sameRules_iff hconfig hupdate
  | lb base =>
      cases hconfig : Lb.LbRules.fromJson config with
      | error exc =>
          have hupdate : base.onConfigUpdate outcomes.lb config =
              .error ⟨"Invalid LB config: " ++ exc.what⟩ := by
            simp only [Lb.LbBase.onConfigUpdate, hconfig]
          simp only [onConfigUpdate, hupdate, AlreadyInstalled, hconfig]
          refine iff_of_true (.refl _) fun rules hrules => ?_
          cases hrules
      | ok rules =>
          obtain ⟨updated, hupdate⟩ : ∃ updated,
              base.onConfigUpdate outcomes.lb config = .ok updated := by
            simp only [Lb.LbBase.onConfigUpdate, hconfig]
            exact ⟨_, rfl⟩
          simp only [onConfigUpdate, hupdate, AlreadyInstalled, hconfig,
            Except.ok.injEq, forall_eq']
          exact lb_sameRules_iff hconfig hupdate

end RuleService

open RuleService

theorem loadServiceConfigs_keeps_rules_iff {π : Type}
    (getMainProg : RuleService → Option π)
    {env : Env RuleService RuleOutcomes} {left : Json}
    (hfile : env.file = .failed left) {loader : Loader RuleService π}
    {soPath : String} {handle : ServiceHandle RuleService}
    (hlookup : loader.services.lookup soPath = some handle)
    (hook : HookType) (ifindex : Int32) (confPath : String) :
    (∃ kept, (loader.loadServiceConfigs (ops getMainProg) env soPath hook
          ifindex confPath).2.services.lookup soPath = some kept ∧
        handle.service.SameRules kept.service) ↔
      handle.service.AlreadyInstalled env.outcomes left := by
  rw [← sameRules_onConfigUpdate_iff]
  simp only [Loader.loadServiceConfigs, hlookup, hfile, ParsedFile.json, ops,
    AList.lookup_insert, Option.some.injEq, exists_eq_left']

def denyAllConfig : Json :=
  .object [("rules", .array [.object []])]

def aclReading (file : ParsedFile) : Env RuleService RuleOutcomes where
  opened := .started (.acl .start)
  file := file
  outcomes := ⟨fun _ => true, ⟨Vector.replicate 6 0, true, fun _ => true,
    fun _ => true⟩⟩
  addWatch := true
  removeWatch := true

def aclOps : EbpfIf RuleService RuleOutcomes Unit := ops fun _ => none

def aclLoaded (file : ParsedFile) : Result Bool × Loader RuleService Unit :=
  (Loader.start .start (some (.init defaultProgMap))).loadService aclOps
    (aclReading file) "libhebpf_acl.so" .tc 1 "acl.json"

def notRules : Json := .object [("rules", .number 3)]

/-- What the failed parse leaves is no document of rules. -/
theorem loadServiceConfigs_keeps_rules_iff_notRules :
    ∃ base handle, (aclLoaded (.document denyAllConfig)).2.services.lookup
        "libhebpf_acl.so" = some handle ∧
      handle.service = .acl base ∧ base.rules.rules = [{}] ∧
      ((∃ kept, ((aclLoaded (.document denyAllConfig)).2.loadServiceConfigs
            aclOps (aclReading (.failed notRules)) "libhebpf_acl.so" .tc 1
            "acl.json").2.services.lookup "libhebpf_acl.so" = some kept ∧
          handle.service.SameRules kept.service) ↔
        handle.service.AlreadyInstalled (aclReading (.failed notRules)).outcomes
          notRules) :=
  ⟨_, _, rfl, rfl, rfl, @loadServiceConfigs_keeps_rules_iff Unit
    (fun _ => none) (aclReading (.failed notRules)) notRules rfl _
    "libhebpf_acl.so" _ rfl .tc 1 "acl.json"⟩

/-- The rule is gone once the file is empty. -/
theorem not_keeps_rules_emptied :
    (aclLoaded (.document denyAllConfig)).1 = .ok true ∧
      ∃ base kept,
        ((aclLoaded (.document denyAllConfig)).2.services.lookup
            "libhebpf_acl.so").map ServiceHandle.service = some (.acl base) ∧
          base.rules.rules = [{}] ∧
          (((aclLoaded (.document denyAllConfig)).2.loadServiceConfigs aclOps
              (aclReading (.failed .null)) "libhebpf_acl.so" .tc 1
              "acl.json").2.services.lookup "libhebpf_acl.so").map
            ServiceHandle.service = some kept ∧
          ¬ (RuleService.acl base).SameRules kept := by
  refine ⟨rfl, _, _, rfl, rfl, rfl, ?_⟩
  rintro ⟨hrules, -⟩
  cases hrules

end Hebpf.Daemon
