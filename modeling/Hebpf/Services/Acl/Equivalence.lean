import Hebpf.Services.Acl.Agreement
import Hebpf.Services.Acl.Updates

namespace Hebpf.Services.Acl

open Hebpf.Common Hebpf.Data Hebpf.Kernel

/-! When two lists of rules treat every frame alike. -/

def mentioned (rules : List AclRulesElem) : List FiveTuple :=
  rules.filterMap AclRulesElem.fiveTuple?

def Equivalent (rules other : List AclRulesElem) : Prop :=
  ∀ tuple ∈ mentioned rules ++ mentioned other,
    Dropped rules tuple ↔ Dropped other tuple

instance (rules other : List AclRulesElem) :
    Decidable (Equivalent rules other) :=
  inferInstanceAs (Decidable (∀ tuple ∈ _, _))

structure RunsAlike (krules other : KrulesAcl) : Prop where
  tcIngress : ∀ protocol frame, hebpfAclTcIngress krules protocol frame =
    hebpfAclTcIngress other protocol frame
  xdpGeneric : ∀ frame, hebpfAclXdpGeneric krules frame =
    hebpfAclXdpGeneric other frame

section Rules

variable {rules other : List AclRulesElem} {tuple : FiveTuple}

theorem lastAction_of_not_mentioned (htuple : tuple ∉ mentioned rules) :
    lastAction rules tuple = none := by
  cases hlast : lastAction rules tuple with
  | none => rfl
  | some action =>
      obtain ⟨rule, hrule, hrules, _⟩ := exists_of_lastAction hlast
      exact absurd (List.mem_filterMap.mpr ⟨rule, hrule, hrules⟩) htuple

theorem dropped_anyPort_iff :
    Dropped rules { tuple with sport := ACL_ANY_PORT } ↔
      lastAction rules { tuple with sport := ACL_ANY_PORT } = some .drop := by
  unfold Dropped
  cases lastAction rules { tuple with sport := ACL_ANY_PORT } with
  | none => rfl
  | some action => exact Option.some_inj.symm

theorem dropped_iff_anyPort (htuple : tuple ∉ mentioned rules) :
    Dropped rules tuple ↔
      Dropped rules { tuple with sport := ACL_ANY_PORT } := by
  rw [dropped_anyPort_iff]
  unfold Dropped
  rw [lastAction_of_not_mentioned htuple]
  cases lastAction rules { tuple with sport := ACL_ANY_PORT } with
  | none => simp
  | some action => exact Option.some_inj.symm

theorem not_dropped_of_not_mentioned
    (hany : { tuple with sport := ACL_ANY_PORT } ∉ mentioned rules) :
    ¬ Dropped rules { tuple with sport := ACL_ANY_PORT } := by
  rw [dropped_anyPort_iff, lastAction_of_not_mentioned hany]
  simp

theorem Equivalent.dropped_iff (hequivalent : Equivalent rules other)
    (tuple : FiveTuple) : Dropped rules tuple ↔ Dropped other tuple := by
  by_cases htuple : tuple ∈ mentioned rules ++ mentioned other
  · exact hequivalent tuple htuple
  · rw [List.mem_append, not_or] at htuple
    rw [dropped_iff_anyPort htuple.1, dropped_iff_anyPort htuple.2]
    by_cases hany : { tuple with sport := ACL_ANY_PORT } ∈
        mentioned rules ++ mentioned other
    · exact hequivalent _ hany
    · rw [List.mem_append, not_or] at hany
      exact iff_of_false (not_dropped_of_not_mentioned hany.1)
        (not_dropped_of_not_mentioned hany.2)

end Rules

/-- TCP with a complete header, or anything else with a header of UDP's size,
so that the ports are read. -/
def tupleFrame (tuple : FiveTuple) : Frame :=
  [0, 0, 0, 0, 0, 0, 0, 0, 0, 0, 0, 0, 8, 0,
    0x45, 0, 0, 0, 0, 0, 0, 0, 64, tuple.protocol, 0, 0,
    tuple.saddr.first, tuple.saddr.second, tuple.saddr.third,
    tuple.saddr.fourth, tuple.daddr.first, tuple.daddr.second,
    tuple.daddr.third, tuple.daddr.fourth,
    (htons tuple.sport).high, (htons tuple.sport).low,
    (htons tuple.dport).high, (htons tuple.dport).low, 0, 0, 0, 0] ++
  if tuple.protocol = IPPROTO_TCP then List.replicate 12 0 else []

section Frame

variable {tuple : FiveTuple}

theorem transportOffset_tupleFrame :
    transportOffset (tupleFrame tuple) = 34 := by
  have hfirst : byteAt (tupleFrame tuple) sizeofEthhdr = 0x45 := rfl
  unfold transportOffset ipIhl
  rw [hfirst]
  rfl

theorem transportSource_tupleFrame :
    transportSource (tupleFrame tuple) = htons tuple.sport := by
  unfold transportSource
  rw [transportOffset_tupleFrame]
  rfl

theorem transportDest_tupleFrame :
    transportDest (tupleFrame tuple) = htons tuple.dport := by
  unfold transportDest
  rw [transportOffset_tupleFrame]
  rfl

theorem ipv4Frame_tupleFrame : Ipv4Frame (tupleFrame tuple) where
  ipv4 := rfl
  header := by
    simp only [tupleFrame, List.length_append, List.length_cons,
      List.length_nil, sizeofEthhdr, sizeofIphdr]
    omega

theorem extractPorts_tupleFrame
    (hprotocol : tuple.protocol = IPPROTO_TCP ∨
      tuple.protocol = IPPROTO_UDP) :
    extractPorts (tupleFrame tuple) =
      some (htons tuple.sport, htons tuple.dport) := by
  have hread : ipProtocol (tupleFrame tuple) = tuple.protocol := rfl
  unfold extractPorts
  rw [hread, transportSource_tupleFrame, transportDest_tupleFrame,
    transportOffset_tupleFrame]
  rcases hprotocol with htcp | hudp
  · have hlength : (tupleFrame tuple).length = 54 := by
      simp [tupleFrame, htcp]
    simp [htcp, hlength, sizeofTcphdr]
  · have hne : IPPROTO_UDP ≠ IPPROTO_TCP := by decide
    have hlength : (tupleFrame tuple).length = 42 := by
      simp [tupleFrame, hudp, hne]
    simp [hudp, hlength, sizeofTcphdr, sizeofUdphdr]

theorem frameFiveTuple_tupleFrame :
    frameFiveTuple (tupleFrame tuple) = tuple := by
  unfold frameFiveTuple
  rw [transportSource_tupleFrame, transportDest_tupleFrame, ntohs_htons,
    ntohs_htons]
  rfl

end Frame

section Tables

variable {krules other : KrulesAcl}

theorem aclExit_congr {ν : Type} {kept dropped : ν} {protocol : Be16}
    {frame : Frame}
    (hdeny : ∀ originSrcPort dport,
      lookupAction krules frame originSrcPort dport = some ACL_ACTION_DENY ↔
        lookupAction other frame originSrcPort dport =
          some ACL_ACTION_DENY) :
    aclExit krules protocol frame kept dropped =
      aclExit other protocol frame kept dropped := by
  unfold aclExit
  simp only [hdeny]

theorem RunsAlike.lookupAction_iff (halike : RunsAlike krules other)
    {tuple : FiveTuple}
    (hprotocol : tuple.protocol = IPPROTO_TCP ∨
      tuple.protocol = IPPROTO_UDP) :
    lookupAction krules (tupleFrame tuple) (htons tuple.sport)
        (htons tuple.dport) = some ACL_ACTION_DENY ↔
      lookupAction other (tupleFrame tuple) (htons tuple.sport)
        (htons tuple.dport) = some ACL_ACTION_DENY := by
  have hdrops : ∀ krules, AclProgram.xdpGeneric.Drops krules
      (tupleFrame tuple) ↔
        lookupAction krules (tupleFrame tuple) (htons tuple.sport)
          (htons tuple.dport) = some ACL_ACTION_DENY := by
    intro krules
    rw [AclProgram.drops_iff _ ipv4Frame_tupleFrame,
      extractPorts_tupleFrame hprotocol]
    simp
  rw [← hdrops, ← hdrops]
  unfold AclProgram.Drops
  rw [halike.xdpGeneric]

end Tables

theorem AclRulesElem.valid_of_entry? {rule : AclRulesElem}
    (hentry : rule.entry?.isSome) : rule.Valid := by
  unfold entry? at hentry
  cases hsaddr : inetPton rule.saddr with
  | none => simp [hsaddr] at hentry
  | some saddr =>
      cases hdaddr : inetPton rule.daddr with
      | none => simp [hsaddr, hdaddr] at hentry
      | some daddr =>
          simp only [hsaddr, hdaddr] at hentry
          refine ⟨by rw [hsaddr]; rfl, by rw [hdaddr]; rfl, ?_, ?_⟩
          · intro hprotocol
            simp [hprotocol] at hentry
          · intro haction
            cases hprotocol : rule.protocol <;>
              simp [hprotocol, haction] at hentry

namespace AclBase

variable {acl other : AclBase}

theorem Installed.lookupAction_iff (hinstalled : acl.Installed)
    (frame : Frame) (originSrcPort dport : Be16) :
    lookupAction acl.krules frame originSrcPort dport =
        some ACL_ACTION_DENY ↔
      Dropped acl.rules.rules { frameFiveTuple frame with
        sport := ntohs originSrcPort, dport := ntohs dport } := by
  have hdeny := lookupAction_eq_deny_iff
    (fun rule hrule => AclRulesElem.valid_of_entry?
      (hinstalled.entries rule hrule))
    hinstalled.lookup frame (ntohs originSrcPort) (ntohs dport)
  rwa [htons_ntohs, htons_ntohs] at hdeny

theorem Installed.lookupAction_tupleFrame (hinstalled : acl.Installed)
    (tuple : FiveTuple) :
    lookupAction acl.krules (tupleFrame tuple) (htons tuple.sport)
        (htons tuple.dport) = some ACL_ACTION_DENY ↔
      Dropped acl.rules.rules tuple := by
  rw [hinstalled.lookupAction_iff, ntohs_htons, ntohs_htons,
    frameFiveTuple_tupleFrame]

theorem Installed.runsAlike (hinstalled : acl.Installed)
    (hother : other.Installed)
    (hequivalent : Equivalent acl.rules.rules other.rules.rules) :
    RunsAlike acl.krules other.krules := by
  have hdeny : ∀ frame originSrcPort dport,
      lookupAction acl.krules frame originSrcPort dport =
          some ACL_ACTION_DENY ↔
        lookupAction other.krules frame originSrcPort dport =
          some ACL_ACTION_DENY := by
    intro frame originSrcPort dport
    rw [hinstalled.lookupAction_iff, hother.lookupAction_iff,
      hequivalent.dropped_iff]
  constructor
  · intro protocol frame
    rw [hebpfAclTcIngress_eq, hebpfAclTcIngress_eq,
      aclExit_congr (hdeny frame)]
  · intro frame
    rw [hebpfAclXdpGeneric_eq, hebpfAclXdpGeneric_eq,
      aclExit_congr (hdeny frame)]

theorem protocol_of_mentioned {rules : List AclRulesElem} {tuple : FiveTuple}
    (htuple : tuple ∈ mentioned rules) :
    tuple.protocol = IPPROTO_TCP ∨ tuple.protocol = IPPROTO_UDP := by
  obtain ⟨rule, hrule, hrules⟩ := List.mem_filterMap.mp htuple
  unfold AclRulesElem.fiveTuple? at hrules
  split at hrules
  case h_1 saddr daddr protocol hsaddr hdaddr hprotocol =>
    cases hrules
    cases hname : rule.protocol with
    | tcp =>
        rw [hname] at hprotocol
        exact .inl (Option.some.inj hprotocol).symm
    | udp =>
        rw [hname] at hprotocol
        exact .inr (Option.some.inj hprotocol).symm
    | unknown =>
        rw [hname] at hprotocol
        cases hprotocol
  case h_2 => cases hrules

/-- After any updates, whichever insertions the kernel refused, two services
treat all packets alike exactly where the rules they show decide alike what one
of them mentions. -/
theorem runsAlike_iff_equivalent (calls others : List UpdateCall) :
    RunsAlike (run step start calls).krules (run step start others).krules ↔
      Equivalent (run step start calls).rules.rules
        (run step start others).rules.rules := by
  have hinstalled := run_installed calls
  have hother := run_installed others
  constructor
  · intro halike tuple htuple
    have hprotocol : tuple.protocol = IPPROTO_TCP ∨
        tuple.protocol = IPPROTO_UDP := by
      rcases List.mem_append.mp htuple with hmentioned | hmentioned
      · exact protocol_of_mentioned hmentioned
      · exact protocol_of_mentioned hmentioned
    rw [← hinstalled.lookupAction_tupleFrame, ← hother.lookupAction_tupleFrame,
      halike.lookupAction_iff hprotocol]
  · exact hinstalled.runsAlike hother

end AclBase

/-- A rule for one source port is void beside a rule for any. -/
example : Equivalent
    [denyDns, { denyDns with sport := 4660, action := .accept }]
    [denyDns] := by
  decide

end Hebpf.Services.Acl
