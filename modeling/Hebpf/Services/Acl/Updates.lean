import Hebpf.Data.Run
import Hebpf.Services.Acl.Base

namespace Hebpf.Services.Acl

open Hebpf.Common Hebpf.Data Hebpf.Kernel

/-! An ACL service over its updates, and what it shows of its rules. -/

def Protocol.enumName : Protocol → String
  | tcp => "TCP"
  | udp => "UDP"
  | unknown => "UNKNOWN"

def Action.enumName : Action → String
  | drop => "DROP"
  | accept => "ACCEPT"
  | unknown => "UNKNOWN"

theorem Protocol.fromJson_enumName (protocol : Protocol) :
    fromJson (.string protocol.enumName) = .ok protocol := by
  cases protocol <;> rfl

theorem Action.fromJson_enumName (action : Action) :
    fromJson (.string action.enumName) = .ok action := by
  cases action <;> rfl

def AclRulesElem.toJson (acl : AclRulesElem) : Json :=
  .object [("saddr", .string acl.saddr), ("daddr", .string acl.daddr),
    ("sport", .number acl.sport.toNat), ("dport", .number acl.dport.toNat),
    ("protocol", .string acl.protocol.enumName),
    ("action", .string acl.action.enumName)]

def AclRules.toJson (acl : AclRules) : Json :=
  .object [("rules", .array (acl.rules.map AclRulesElem.toJson))]

theorem getUInt16_number (port : UInt16) :
    (Json.number port.toNat).getUInt16 = .ok port := by
  have hsmall : ((port.toNat : Int) % 65536).toNat = port.toNat := by
    have hlt := port.toNat_lt
    omega
  simp only [Json.getUInt16, hsmall, UInt16.ofNat_toNat]

theorem AclRulesElem.fromJson_toJson (acl : AclRulesElem) :
    fromJson acl.toJson = .ok acl := by
  have hsaddr : ∀ default, acl.toJson.fieldOr "saddr" default
      Json.getString = .ok acl.saddr := fun _ => rfl
  have hdaddr : ∀ default, acl.toJson.fieldOr "daddr" default
      Json.getString = .ok acl.daddr := fun _ => rfl
  have hsport : ∀ default, acl.toJson.fieldOr "sport" default
      Json.getUInt16 = .ok acl.sport := fun _ => getUInt16_number acl.sport
  have hdport : ∀ default, acl.toJson.fieldOr "dport" default
      Json.getUInt16 = .ok acl.dport := fun _ => getUInt16_number acl.dport
  have hprotocol : ∀ default, acl.toJson.fieldOr "protocol" default
      Protocol.fromJson = .ok acl.protocol :=
    fun _ => Protocol.fromJson_enumName acl.protocol
  have haction : ∀ default, acl.toJson.fieldOr "action" default
      Action.fromJson = .ok acl.action :=
    fun _ => Action.fromJson_enumName acl.action
  simp only [fromJson, hsaddr, hdaddr, hsport, hdport, hprotocol, haction]
  rfl

theorem mapM_fromJson_toJson (rules : List AclRulesElem) :
    (rules.map AclRulesElem.toJson).mapM AclRulesElem.fromJson = .ok rules := by
  induction rules with
  | nil => rfl
  | cons rule rest ih =>
      rw [List.map_cons, List.mapM_cons, AclRulesElem.fromJson_toJson, ih]
      rfl

theorem AclRules.fromJson_toJson (acl : AclRules) :
    fromJson acl.toJson = .ok acl := by
  have hrules : acl.toJson.fieldOr "rules" []
      (Json.getVector AclRulesElem.fromJson) = .ok acl.rules :=
    mapM_fromJson_toJson acl.rules
  simp only [fromJson, hrules]
  rfl

/-- A configuration, and what the kernel answers while it is installed:
whether the map has a descriptor, and which of the insertions it accepts. -/
structure UpdateCall where
  config : Json
  mapFd : Bool
  insert : Nat → Bool

namespace AclBase

def getDebugStatus (acl : AclBase) : Json := acl.rules.toJson

def getMapFd (mapFd : Bool) : Result Unit :=
  if mapFd then .ok () else .error ⟨"Failed to get ACL rules in kernel mode"⟩

/-- `clearKernelRules`, which asks for the descriptor first. -/
def clear (mapFd : Bool) (acl : AclBase) : Result Unit × AclBase :=
  match getMapFd mapFd with
  | .error exc => (.error exc, acl)
  | .ok () => (.ok (), acl.clearKernelRules)

def update (acl : AclBase) (call : UpdateCall) : Result Unit × AclBase :=
  match AclRules.fromJson call.config with
  | .error exc => (.error ⟨"Invalid ACL config: " ++ exc.what⟩, acl)
  | .ok aclRules =>
      match acl.clear call.mapFd with
      | (.error exc, acl) => (.error exc, acl)
      | (.ok (), cleared) =>
          match getMapFd call.mapFd with
          | .error exc => (.error exc, cleared)
          | .ok () =>
              (.ok (), installRules call.insert cleared aclRules.rules 0 0)

def step (acl : AclBase) (call : UpdateCall) : AclBase := (acl.update call).2

variable {acl : AclBase} {call : UpdateCall}

theorem update_of_error {exc : Exception}
    (hconfig : AclRules.fromJson call.config = .error exc) :
    acl.update call = (.error ⟨"Invalid ACL config: " ++ exc.what⟩, acl) := by
  unfold update
  rw [hconfig]

theorem update_of_noMap {rules : AclRules}
    (hconfig : AclRules.fromJson call.config = .ok rules)
    (hmap : call.mapFd = false) :
    acl.update call =
      (.error ⟨"Failed to get ACL rules in kernel mode"⟩, acl) := by
  unfold update
  simp only [hconfig, hmap]
  rfl

theorem update_of_ok {rules : AclRules}
    (hconfig : AclRules.fromJson call.config = .ok rules)
    (hmap : call.mapFd = true) :
    ∃ updated, acl.onConfigUpdate call.insert call.config = .ok updated ∧
      acl.update call = (.ok (), updated) := by
  refine ⟨installRules call.insert acl.clearKernelRules rules.rules 0 0, ?_,
    ?_⟩
  · simp only [onConfigUpdate, hconfig]
  · unfold update
    simp only [hconfig, hmap]
    rfl

theorem update_cases (acl : AclBase) (call : UpdateCall) :
    (∃ exc, acl.update call = (.error exc, acl)) ∨
      ∃ rules updated, AclRules.fromJson call.config = .ok rules ∧
        acl.onConfigUpdate call.insert call.config = .ok updated ∧
        acl.update call = (.ok (), updated) := by
  cases hconfig : AclRules.fromJson call.config with
  | error exc => exact .inl ⟨_, update_of_error hconfig⟩
  | ok rules =>
      cases hmap : call.mapFd with
      | false => exact .inl ⟨_, update_of_noMap hconfig hmap⟩
      | true =>
          obtain ⟨updated, hupdate, hcall⟩ := update_of_ok hconfig hmap
          exact .inr ⟨rules, updated, rfl, hupdate, hcall⟩

/-- Every mirrored rule has a key and an action, and the kernel table gives
each key the action of the last rule with it. -/
structure Installed (acl : AclBase) : Prop where
  entries : ∀ rule ∈ acl.rules.rules, rule.entry?.isSome
  lookup : ∀ key,
    acl.krules.lookupElem key = lastValue (tableEntries acl.rules.rules) key
  size : acl.rules.rules.length ≤ MAX_RULES_SIZE

theorem start_installed : start.Installed where
  entries := by
    intro rule hrule
    cases hrule
  lookup _ := rfl
  size := Nat.zero_le _

end AclBase

theorem isSome_entry?_of_mem_installedRules {insert : Nat → Bool}
    {rules : List AclRulesElem} {rule : AclRulesElem}
    (hrule : rule ∈ installedRules insert rules) : rule.entry?.isSome := by
  obtain ⟨pair, hpair, rfl⟩ := List.mem_map.mp (List.mem_of_mem_take hrule)
  have hnumbered := (List.mem_filter.mp hpair).1
  have hfiltered := List.fst_mem_of_mem_zipIdx hnumbered
  exact (List.mem_filter.mp hfiltered).2

theorem installedRules_of_installed {acl : AclBase} (hinstalled : acl.Installed) :
    installedRules (fun _ => true) acl.rules.rules = acl.rules.rules := by
  have hentries : acl.rules.rules.filter (fun rule => rule.entry?.isSome) =
      acl.rules.rules :=
    List.filter_eq_self.mpr hinstalled.entries
  unfold installedRules acceptedRules
  rw [hentries, List.filter_true, List.zipIdx_map_fst,
    List.take_of_length_le hinstalled.size]

namespace AclBase

variable {acl : AclBase} {call : UpdateCall}

theorem Installed.step (hinstalled : acl.Installed) (call : UpdateCall) :
    (acl.step call).Installed := by
  unfold AclBase.step
  rcases acl.update_cases call with ⟨exc, hcall⟩ |
    ⟨rules, updated, hconfig, hupdate, hcall⟩
  · rw [hcall]
    exact hinstalled
  · obtain ⟨hrules, hlookup⟩ := onConfigUpdate_spec hconfig hupdate
    rw [hcall]
    constructor
    · intro rule hrule
      rw [hrules] at hrule
      exact isSome_entry?_of_mem_installedRules hrule
    · rw [hrules]
      exact hlookup
    · rw [hrules]
      exact List.length_take_le _ _

theorem run_installed (calls : List UpdateCall) :
    (run step start calls).Installed :=
  invariant_run (fun _ call hinstalled => hinstalled.step call)
    start_installed calls

/-- After any updates the table is that of the rules that are shown, and an
update that throws then changes neither. -/
theorem installed_throws_unchanged (calls : List UpdateCall) :
    (run step start calls).Installed ∧
      ∀ call exc, ((run step start calls).update call).1 = .error exc →
        ((run step start calls).update call).2 = run step start calls := by
  refine ⟨run_installed calls, ?_⟩
  intro call exc hthrows
  rcases (run step start calls).update_cases call with ⟨other, hcall⟩ |
    ⟨rules, updated, _, _, hcall⟩
  · rw [hcall]
  · rw [hcall] at hthrows
    cases hthrows

/-- What a service shows brings any instance to its rules and its table. -/
theorem update_getDebugStatus (calls : List UpdateCall) (fresh : AclBase) :
    let acl := run step start calls
    ∃ restored, fresh.update ⟨acl.getDebugStatus, true, fun _ => true⟩ =
        (.ok (), restored) ∧
      restored.rules = acl.rules ∧
      ∀ key, restored.krules.lookupElem key = acl.krules.lookupElem key := by
  intro acl
  have hinstalled : acl.Installed := run_installed calls
  have hconfig := acl.rules.fromJson_toJson
  obtain ⟨restored, hupdate, hcall⟩ := @update_of_ok fresh
    ⟨acl.getDebugStatus, true, fun _ => true⟩ acl.rules hconfig rfl
  obtain ⟨hrules, hlookup⟩ := onConfigUpdate_spec hconfig hupdate
  rw [installedRules_of_installed hinstalled] at hrules hlookup
  refine ⟨restored, hcall, congrArg AclRules.mk hrules, ?_⟩
  intro key
  rw [hlookup, hinstalled.lookup]

end AclBase

end Hebpf.Services.Acl
