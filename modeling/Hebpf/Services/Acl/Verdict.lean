import Hebpf.Services.Acl.Base

namespace Hebpf.Services.Acl

open Hebpf.Common Hebpf.Data Hebpf.Kernel

/-! What an ACL configuration says about a frame, in the terms of the rules, and
what the kernel program makes of it. -/

/-- Addresses as bytes, ports as numbers, the protocol by its number. -/
structure FiveTuple where
  saddr : Be32
  daddr : Be32
  sport : UInt16
  dport : UInt16
  protocol : UInt8
  deriving DecidableEq, Repr

def FiveTuple.key (tuple : FiveTuple) : Ipv4Tuple where
  saddr := tuple.saddr
  daddr := tuple.daddr
  sport := htons tuple.sport
  dport := htons tuple.dport
  protocol := tuple.protocol
  padding := 0

theorem FiveTuple.key_injective : Function.Injective FiveTuple.key := by
  rintro ⟨_, _, sport, dport, _⟩ ⟨_, _, sport', dport', _⟩ heq
  simp only [FiveTuple.key, Ipv4Tuple.mk.injEq] at heq
  obtain ⟨rfl, rfl, hsport, hdport, rfl, _⟩ := heq
  rw [htons_injective hsport, htons_injective hdport]

def Protocol.number : Protocol → Option UInt8
  | tcp => some IPPROTO_TCP
  | udp => some IPPROTO_UDP
  | unknown => none

def Action.code : Action → Option UInt32
  | drop => some ACL_ACTION_DENY
  | accept => some ACL_ACTION_ALLOW
  | unknown => none

theorem Action.code_eq_deny_iff {action : Action} :
    action.code = some ACL_ACTION_DENY ↔ action = .drop := by
  cases action <;> decide

namespace AclRulesElem

def fiveTuple? (rule : AclRulesElem) : Option FiveTuple :=
  match inetPton rule.saddr, inetPton rule.daddr, rule.protocol.number with
  | some saddr, some daddr, some protocol =>
      some { saddr, daddr, sport := rule.sport, dport := rule.dport, protocol }
  | _, _, _ => none

/-- Both addresses, the protocol and the action are ones `onConfigUpdate`
accepts. -/
structure Valid (rule : AclRulesElem) : Prop where
  saddr : (inetPton rule.saddr).isSome
  daddr : (inetPton rule.daddr).isSome
  protocol : rule.protocol ≠ .unknown
  action : rule.action ≠ .unknown

instance (rule : AclRulesElem) : Decidable rule.Valid :=
  decidable_of_iff ((inetPton rule.saddr).isSome ∧
      (inetPton rule.daddr).isSome ∧ rule.protocol ≠ .unknown ∧
      rule.action ≠ .unknown)
    ⟨fun ⟨hsaddr, hdaddr, hprotocol, haction⟩ =>
      ⟨hsaddr, hdaddr, hprotocol, haction⟩,
    fun ⟨hsaddr, hdaddr, hprotocol, haction⟩ =>
      ⟨hsaddr, hdaddr, hprotocol, haction⟩⟩

theorem Valid.entry {rule : AclRulesElem} (hvalid : rule.Valid) :
    ∃ tuple code, rule.fiveTuple? = some tuple ∧
      rule.action.code = some code ∧
      rule.entry? = some (tuple.key, code) := by
  obtain ⟨saddr, hsaddr⟩ := Option.isSome_iff_exists.mp hvalid.saddr
  obtain ⟨daddr, hdaddr⟩ := Option.isSome_iff_exists.mp hvalid.daddr
  have hprotocol := hvalid.protocol
  have haction := hvalid.action
  cases hp : rule.protocol <;> cases ha : rule.action <;>
    simp_all [fiveTuple?, entry?, Protocol.number, Action.code, FiveTuple.key]

end AclRulesElem

def lastAction (rules : List AclRulesElem) (tuple : FiveTuple) :
    Option Action :=
  (rules.reverse.find? fun rule => rule.fiveTuple? = some tuple).map
    AclRulesElem.action

theorem lastAction_concat (rules : List AclRulesElem) (rule : AclRulesElem)
    (tuple : FiveTuple) :
    lastAction (rules ++ [rule]) tuple =
      if rule.fiveTuple? = some tuple then some rule.action
      else lastAction rules tuple := by
  by_cases heq : rule.fiveTuple? = some tuple <;> simp [lastAction, heq]

theorem exists_of_lastAction {rules : List AclRulesElem} {tuple : FiveTuple}
    {action : Action} (hlast : lastAction rules tuple = some action) :
    ∃ rule ∈ rules, rule.fiveTuple? = some tuple ∧ rule.action = action := by
  obtain ⟨rule, hfind, haction⟩ := Option.map_eq_some_iff.mp hlast
  exact ⟨rule, List.mem_reverse.mp (List.mem_of_find?_eq_some hfind),
    by simpa using List.find?_some hfind, haction⟩

theorem lastAction_isSome_of_mem {rules : List AclRulesElem}
    {tuple : FiveTuple} {rule : AclRulesElem} (hmem : rule ∈ rules)
    (htuple : rule.fiveTuple? = some tuple) :
    ∃ action, lastAction rules tuple = some action := by
  cases hlast : lastAction rules tuple with
  | some action => exact ⟨action, rfl⟩
  | none =>
      have hnone := List.find?_eq_none.mp (Option.map_eq_none_iff.mp hlast)
        rule (List.mem_reverse.mpr hmem)
      simp [htuple] at hnone

/-- The last rule for the tuple with any source port decides; where there is
none, the last rule for the tuple itself. -/
def Dropped (rules : List AclRulesElem) (tuple : FiveTuple) : Prop :=
  match lastAction rules { tuple with sport := ACL_ANY_PORT } with
  | some action => action = .drop
  | none => lastAction rules tuple = some .drop

instance (rules : List AclRulesElem) (tuple : FiveTuple) :
    Decidable (Dropped rules tuple) := by
  unfold Dropped
  split <;> infer_instance

def frameFiveTuple (frame : Frame) : FiveTuple where
  saddr := ipSaddr frame
  daddr := ipDaddr frame
  sport := ntohs (transportSource frame)
  dport := ntohs (transportDest frame)
  protocol := ipProtocol frame

theorem lastValue_tableEntries {rules : List AclRulesElem}
    (hvalid : ∀ rule ∈ rules, rule.Valid) (tuple : FiveTuple) :
    lastValue (tableEntries rules) tuple.key =
      (lastAction rules tuple).bind Action.code := by
  induction rules using List.reverseRecOn with
  | nil => rfl
  | append_singleton rules rule ih =>
      obtain ⟨ruleTuple, code, htuple, hcode, hentry⟩ :=
        (hvalid rule (by simp)).entry
      have hrest := ih fun other hother =>
        hvalid other (List.mem_append_left _ hother)
      rw [tableEntries_concat rules hentry, lastValue_concat,
        lastAction_concat, htuple]
      by_cases heq : ruleTuple = tuple
      · simp [heq, hcode]
      · simpa [heq, FiveTuple.key_injective.eq_iff] using hrest

theorem lookupAction_eq_deny_iff {krules : KrulesAcl}
    {rules : List AclRulesElem} (hvalid : ∀ rule ∈ rules, rule.Valid)
    (hlookup : ∀ key, krules.lookupElem key =
      lastValue (tableEntries rules) key)
    (frame : Frame) (originSrcPort dport : UInt16) :
    lookupAction krules frame (htons originSrcPort) (htons dport) =
        some ACL_ACTION_DENY ↔
      Dropped rules { frameFiveTuple frame with
        sport := originSrcPort, dport := dport } := by
  have hread : ∀ sport : UInt16,
      krules.lookupElem (frameTuple frame (htons sport) (htons dport)) =
        (lastAction rules { frameFiveTuple frame with
          sport := sport, dport := dport }).bind Action.code := by
    intro sport
    rw [← lastValue_tableEntries hvalid, ← hlookup]
    rfl
  have hknown : ∀ tuple action, lastAction rules tuple = some action →
      ∃ code, action.code = some code := by
    intro tuple action hlast
    obtain ⟨rule, hmem, _, rfl⟩ := exists_of_lastAction hlast
    obtain ⟨_, code, _, hcode, _⟩ := (hvalid rule hmem).entry
    exact ⟨code, hcode⟩
  have hany := hread ACL_ANY_PORT
  rw [show htons ACL_ANY_PORT = ANY_PORT by decide] at hany
  simp only [lookupAction, hany, Dropped]
  cases hlast : lastAction rules { frameFiveTuple frame with
      sport := ACL_ANY_PORT, dport := dport } with
  | none =>
      simp only [Option.bind_none, hread]
      cases hexact : lastAction rules { frameFiveTuple frame with
          sport := originSrcPort, dport := dport } with
      | none => simp
      | some action => simpa using Action.code_eq_deny_iff
  | some action =>
      obtain ⟨code, hcode⟩ := hknown _ _ hlast
      simp only [Option.bind_some, hcode]
      rw [← hcode]
      exact Action.code_eq_deny_iff

/-- The program reads the ports of the frame: it carries TCP, or too little
behind the IPv4 header for a TCP header. -/
def PortsRead (frame : Frame) : Prop :=
  ipProtocol frame = IPPROTO_TCP ∨
    frame.length < transportOffset frame + sizeofTcphdr

theorem extractPorts_of_portsRead {frame : Frame}
    (hframe : TransportFrame frame) (hread : PortsRead frame) :
    extractPorts frame =
      some (transportSource frame, transportDest frame) := by
  unfold extractPorts
  rcases hframe.transport with ⟨htcp, hlength⟩ | ⟨hudp, hlength⟩
  · simp [htcp, hlength]
  · have hne : IPPROTO_UDP ≠ IPPROTO_TCP := by decide
    have hshort : ¬ transportOffset frame + sizeofTcphdr ≤ frame.length := by
      rcases hread with htcp | hshort
      · exact absurd (hudp.symm.trans htcp) hne
      · omega
    simp [hudp, hshort, hlength]

theorem extractPorts_of_not_portsRead {frame : Frame}
    (hframe : TransportFrame frame) (hread : ¬ PortsRead frame) :
    extractPorts frame = some (ANY_PORT, ANY_PORT) := by
  simp only [PortsRead, not_or, Nat.not_lt] at hread
  obtain ⟨hprotocol, hlength⟩ := hread
  rcases hframe.transport with ⟨htcp, _⟩ | ⟨hudp, _⟩
  · exact absurd htcp hprotocol
  · have hne : IPPROTO_UDP ≠ IPPROTO_TCP := by decide
    simp [extractPorts, hudp, hlength, hne]

def lookupTuple (frame : Frame) : FiveTuple :=
  if ipProtocol frame = IPPROTO_TCP ∨
      frame.length < transportOffset frame + sizeofTcphdr then
    frameFiveTuple frame
  else { frameFiveTuple frame with sport := 0, dport := 0 }

section Update

variable {insert : Nat → Bool} {config : Json} {rules : AclRules}
  {acl updated : AclBase}

theorem drops_iff_dropped_lookupTuple
    (hconfig : AclRules.fromJson config = .ok rules)
    (hvalid : ∀ rule ∈ rules.rules, rule.Valid)
    (hsize : rules.rules.length ≤ MAX_RULES_SIZE)
    (hinsert : ∀ attempt, insert attempt = true)
    (hupdate : acl.onConfigUpdate insert config = .ok updated)
    {frame : Frame} (hframe : TransportFrame frame) (program : AclProgram) :
    program.Drops updated.krules frame ↔
      Dropped rules.rules (lookupTuple frame) := by
  have hfilter : rules.rules.filter (fun rule => rule.entry?.isSome) =
      rules.rules := by
    refine List.filter_eq_self.mpr fun rule hmem => ?_
    obtain ⟨_, _, _, _, hentry⟩ := (hvalid rule hmem).entry
    simp [hentry]
  have hinstalled : installedRules insert rules.rules = rules.rules := by
    simp [installedRules, acceptedRules, hfilter, hinsert,
      List.take_of_length_le hsize]
  have hlookup := (AclBase.onConfigUpdate_spec hconfig hupdate).2
  rw [hinstalled] at hlookup
  rw [program.drops_iff hframe.toIpv4Frame]
  by_cases hread : PortsRead frame
  · have htuple : lookupTuple frame = frameFiveTuple frame := if_pos hread
    have hdeny := lookupAction_eq_deny_iff hvalid hlookup frame
      (ntohs (transportSource frame)) (ntohs (transportDest frame))
    simp only [htons_ntohs] at hdeny
    simp [extractPorts_of_portsRead hframe hread, htuple, hdeny,
      frameFiveTuple]
  · have htuple : lookupTuple frame =
        { frameFiveTuple frame with sport := 0, dport := 0 } := if_neg hread
    have hdeny := lookupAction_eq_deny_iff hvalid hlookup frame 0 0
    rw [show htons 0 = ANY_PORT by decide] at hdeny
    simp [extractPorts_of_not_portsRead hframe hread, htuple, hdeny]

/-- Both programs decide a frame by the last rules for its five-tuple exactly
where they read its ports, or where the rules treat the five-tuple like the one
with both ports zero. -/
theorem drops_iff_dropped_iff
    (hconfig : AclRules.fromJson config = .ok rules)
    (hvalid : ∀ rule ∈ rules.rules, rule.Valid)
    (hsize : rules.rules.length ≤ MAX_RULES_SIZE)
    (hinsert : ∀ attempt, insert attempt = true)
    (hupdate : acl.onConfigUpdate insert config = .ok updated)
    {frame : Frame} (hframe : TransportFrame frame) (program : AclProgram) :
    (program.Drops updated.krules frame ↔
        Dropped rules.rules (frameFiveTuple frame)) ↔
      PortsRead frame ∨
        (Dropped rules.rules (frameFiveTuple frame) ↔
          Dropped rules.rules
            { frameFiveTuple frame with sport := 0, dport := 0 }) := by
  rw [drops_iff_dropped_lookupTuple hconfig hvalid hsize hinsert hupdate hframe
    program]
  by_cases hread : PortsRead frame
  · have htuple : lookupTuple frame = frameFiveTuple frame := if_pos hread
    simp [htuple, hread]
  · have htuple : lookupTuple frame =
        { frameFiveTuple frame with sport := 0, dport := 0 } := if_neg hread
    simp only [htuple, hread, false_or]
    exact iff_comm

end Update

/-! A rule for UDP and a frame with enough behind its UDP header for a TCP
header. -/

def denyDns : AclRulesElem where
  saddr := "10.0.0.1"
  daddr := "10.0.0.2"
  dport := 53
  protocol := .udp

def denyDnsConfig : Json :=
  .object [("rules", .array [.object
    [("saddr", .string "10.0.0.1"), ("daddr", .string "10.0.0.2"),
      ("dport", .number 53), ("protocol", .string "UDP"),
      ("action", .string "DROP")]])]

def dnsFrame (payload : Nat) : Frame :=
  List.replicate 12 0 ++ [8, 0] ++
    [0x45, 0, 0, 0, 0, 0, 0, 0, 64, 17, 0, 0, 10, 0, 0, 1, 10, 0, 0, 2] ++
    [0x12, 0x34, 0, 53, 0, 0, 0, 0] ++ List.replicate payload 0

/-- The service after its first update with `denyDnsConfig`. -/
def aclDenyingDns : AclBase :=
  AclBase.start.installRules (fun _ => true) [denyDns] 0 0

/-- With four bytes of payload the ports are read. -/
theorem drops_iff_dropped_iff_dnsFrame :
    (AclProgram.xdpGeneric.Drops aclDenyingDns.krules (dnsFrame 4) ↔
        Dropped [denyDns] (frameFiveTuple (dnsFrame 4))) ↔
      PortsRead (dnsFrame 4) ∨
        (Dropped [denyDns] (frameFiveTuple (dnsFrame 4)) ↔
          Dropped [denyDns]
            { frameFiveTuple (dnsFrame 4) with sport := 0, dport := 0 }) :=
  @drops_iff_dropped_iff (fun _ => true) denyDnsConfig ⟨[denyDns]⟩ .start
    aclDenyingDns rfl (by decide) (by decide) (fun _ => rfl) rfl (dnsFrame 4)
    ⟨⟨⟨by decide, by decide⟩, by decide⟩, by decide⟩ .xdpGeneric

/-- With twelve the rule no longer applies, to either program. -/
theorem not_drops_dnsFrame :
    AclRules.fromJson denyDnsConfig = .ok ⟨[denyDns]⟩ ∧
      (∀ rule ∈ [denyDns], rule.Valid) ∧
      AclBase.start.onConfigUpdate (fun _ => true) denyDnsConfig =
        .ok aclDenyingDns ∧
      TransportFrame (dnsFrame 12) ∧
      ∀ program : AclProgram,
        ¬ (program.Drops aclDenyingDns.krules (dnsFrame 12) ↔
          Dropped [denyDns] (frameFiveTuple (dnsFrame 12))) := by
  refine ⟨rfl, by decide, rfl,
    ⟨⟨⟨by decide, by decide⟩, by decide⟩, by decide⟩, ?_⟩
  rintro (_ | _) <;> decide

end Hebpf.Services.Acl
