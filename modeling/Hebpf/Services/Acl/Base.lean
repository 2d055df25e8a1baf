import Hebpf.Services.Acl.Kernel
import Hebpf.Services.Acl.Rules

namespace Hebpf.Services.Acl

open Hebpf.Common Hebpf.Data Hebpf.Kernel

/-- The key and the action a rule is installed under; `none` is each of the
tests that skip a rule. -/
def AclRulesElem.entry? (rule : AclRulesElem) : Option (Ipv4Tuple × UInt32) :=
  match inetPton rule.saddr, inetPton rule.daddr with
  | some saddr, some daddr =>
      let key (protocol : UInt8) : Ipv4Tuple :=
        { saddr, daddr, sport := htons rule.sport, dport := htons rule.dport,
          protocol, padding := 0 }
      match rule.protocol, rule.action with
      | .tcp, .drop => some (key IPPROTO_TCP, ACL_ACTION_DENY)
      | .tcp, .accept => some (key IPPROTO_TCP, ACL_ACTION_ALLOW)
      | .udp, .drop => some (key IPPROTO_UDP, ACL_ACTION_DENY)
      | .udp, .accept => some (key IPPROTO_UDP, ACL_ACTION_ALLOW)
      | _, _ => none
  | _, _ => none

structure AclBase where
  krules : KrulesAcl
  rules : AclRules

namespace AclBase

def start : AclBase := ⟨.empty, {}⟩

/-- The kernel refuses no deletion. -/
def clearKernelRules (acl : AclBase) : AclBase where
  krules := acl.krules.clearCollected
  rules := {}

/-- The loop over the rules.  `insert` says which of the insertions the kernel
accepts, in the order in which they are tried. -/
def installRules (insert : Nat → Bool) :
    AclBase → List AclRulesElem → (attempt success : Nat) → AclBase
  | acl, [], _, _ => acl
  | acl, rule :: rest, attempt, success =>
      match rule.entry? with
      | none => installRules insert acl rest attempt success
      | some (tuple, action) =>
          match if insert attempt then acl.krules.updateElem tuple action
            else none with
          | none => installRules insert acl rest (attempt + 1) success
          | some krules =>
              let installed : AclBase := ⟨krules, acl.rules.addRules rule⟩
              if MAX_RULES_SIZE ≤ success + 1 then installed
              else installRules insert installed rest (attempt + 1)
                (success + 1)

def onConfigUpdate (insert : Nat → Bool) (acl : AclBase) (config : Json) :
    Result AclBase :=
  match AclRules.fromJson config with
  | .error exc => .error ⟨"Invalid ACL config: " ++ exc.what⟩
  | .ok aclRules =>
      .ok (installRules insert acl.clearKernelRules aclRules.rules 0 0)

end AclBase

def acceptedRules (insert : Nat → Bool) (attempt : Nat)
    (rules : List AclRulesElem) : List AclRulesElem :=
  (((rules.filter fun rule => rule.entry?.isSome).zipIdx attempt).filter
    fun pair => insert pair.2).map Prod.fst

def installedRules (insert : Nat → Bool) (rules : List AclRulesElem) :
    List AclRulesElem :=
  (acceptedRules insert 0 rules).take MAX_RULES_SIZE

def tableEntries (rules : List AclRulesElem) : List (Ipv4Tuple × UInt32) :=
  rules.filterMap AclRulesElem.entry?

theorem tableEntries_concat (rules : List AclRulesElem) {rule : AclRulesElem}
    {entry : Ipv4Tuple × UInt32} (hentry : rule.entry? = some entry) :
    tableEntries (rules ++ [rule]) = tableEntries rules ++ [entry] := by
  simp [tableEntries, hentry]

/-- The kernel table holds, for each key, the action of the last mirrored rule
with that key, and no more keys than rules. -/
structure AclBase.Mirrors (acl : AclBase) : Prop where
  lookup : ∀ key,
    acl.krules.lookupElem key = lastValue (tableEntries acl.rules.rules) key
  size : acl.krules.keys.length ≤ acl.rules.rules.length

theorem AclBase.clearKernelRules_mirrors (acl : AclBase) :
    acl.clearKernelRules.Mirrors where
  lookup := by
    intro key
    simp [clearKernelRules, BpfHash.clearCollected_eq_empty, tableEntries]
  size := by
    simp [clearKernelRules, BpfHash.clearCollected_eq_empty, BpfHash.empty,
      BpfHash.keys]

theorem AclBase.Mirrors.install {acl : AclBase} (hmirrors : acl.Mirrors)
    {rule : AclRulesElem} {tuple : Ipv4Tuple} {action : UInt32}
    (hentry : rule.entry? = some (tuple, action)) {krules : KrulesAcl}
    (hupdate : acl.krules.updateElem tuple action = some krules) :
    AclBase.Mirrors ⟨krules, acl.rules.addRules rule⟩ where
  lookup := by
    intro key
    simp only [AclRules.addRules, tableEntries_concat _ hentry,
      lastValue_concat, BpfHash.lookupElem_updateElem hupdate,
      hmirrors.lookup]
  size := by
    have hsize := hmirrors.size
    have herase : (acl.krules.keys.erase tuple).length ≤
        acl.krules.keys.length := List.length_erase_le
    simp only [AclRules.addRules, BpfHash.keys_of_updateElem hupdate,
      List.length_cons, List.length_append, List.length_nil]
    omega

/-- The loop keeps the mirror and appends the rules it accepts, up to the
limit.  The table never fills before the limit stops the loop. -/
theorem AclBase.installRules_spec (insert : Nat → Bool)
    (rules : List AclRulesElem) (acl : AclBase) (attempt : Nat)
    (hmirrors : acl.Mirrors)
    (hroom : acl.rules.rules.length < MAX_RULES_SIZE) :
    let result := installRules insert acl rules attempt acl.rules.rules.length
    result.Mirrors ∧
      result.rules.rules = acl.rules.rules ++
        (acceptedRules insert attempt rules).take
          (MAX_RULES_SIZE - acl.rules.rules.length) := by
  induction rules generalizing acl attempt with
  | nil => simpa [installRules, acceptedRules] using hmirrors
  | cons rule rest ih =>
      cases hentry : rule.entry? with
      | none =>
          have haccepted : acceptedRules insert attempt (rule :: rest) =
              acceptedRules insert attempt rest := by
            simp [acceptedRules, hentry]
          simp only [installRules, hentry, haccepted]
          exact ih acl attempt hmirrors hroom
      | some entry =>
          obtain ⟨tuple, action⟩ := entry
          have hsplit : acceptedRules insert attempt (rule :: rest) =
              (if insert attempt then [rule] else []) ++
                acceptedRules insert (attempt + 1) rest := by
            by_cases hinsert : insert attempt <;>
              simp [acceptedRules, hentry, hinsert]
          simp only [installRules, hentry, hsplit]
          by_cases hinsert : insert attempt
          · cases hupdate : acl.krules.updateElem tuple action with
            | none =>
                have hfull := BpfHash.updateElem_eq_none_iff.mp hupdate
                have hsize := hmirrors.size
                omega
            | some krules =>
                have hnext := hmirrors.install hentry hupdate
                have hlength :
                    (acl.rules.addRules rule).rules.length =
                      acl.rules.rules.length + 1 := by
                  simp [AclRules.addRules]
                simp only [hinsert, if_true]
                split_ifs with hlimit
                · refine ⟨hnext, ?_⟩
                  have hone : MAX_RULES_SIZE - acl.rules.rules.length = 1 := by
                    omega
                  simp [AclRules.addRules, hone]
                · have hmore := ih ⟨krules, acl.rules.addRules rule⟩
                    (attempt + 1) hnext (by simp only [hlength]; omega)
                  simp only [hlength] at hmore
                  refine ⟨hmore.1, hmore.2.trans ?_⟩
                  obtain ⟨left, hleft⟩ : ∃ left,
                      MAX_RULES_SIZE - acl.rules.rules.length = left + 1 :=
                    ⟨MAX_RULES_SIZE - acl.rules.rules.length - 1, by omega⟩
                  have hleft' :
                      MAX_RULES_SIZE - (acl.rules.rules.length + 1) = left := by
                    omega
                  simp [AclRules.addRules, hleft, hleft']
          · simpa [hinsert] using ih acl (attempt + 1) hmirrors hroom

/-- After an update the mirror is what was installed, and the table gives each
key the action of the last installed rule with it. -/
theorem AclBase.onConfigUpdate_spec {insert : Nat → Bool}
    {acl updated : AclBase} {config : Json} {rules : AclRules}
    (hconfig : AclRules.fromJson config = .ok rules)
    (hupdate : acl.onConfigUpdate insert config = .ok updated) :
    updated.rules.rules = installedRules insert rules.rules ∧
      ∀ key, updated.krules.lookupElem key =
        lastValue (tableEntries (installedRules insert rules.rules)) key := by
  simp only [onConfigUpdate, hconfig, Except.ok.injEq] at hupdate
  have hspec := installRules_spec insert rules.rules acl.clearKernelRules 0
    acl.clearKernelRules_mirrors (by simp [clearKernelRules, MAX_RULES_SIZE])
  have hempty : acl.clearKernelRules.rules.rules = [] := rfl
  simp only [hempty, List.length_nil, List.nil_append, Nat.sub_zero] at hspec
  rw [hupdate] at hspec
  obtain ⟨hmirrors, hrules⟩ := hspec
  refine ⟨hrules, fun key => ?_⟩
  rw [hmirrors.lookup, hrules]
  rfl

end Hebpf.Services.Acl
