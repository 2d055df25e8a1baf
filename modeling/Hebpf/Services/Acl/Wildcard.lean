import Hebpf.Services.Acl.Verdict

namespace Hebpf.Services.Acl

open Hebpf.Common Hebpf.Kernel

/-! The `any` values of a rule as wildcards, against the two lookups of the
kernel programs. -/

def anyIpv4 : Be32 := ⟨0, 0, 0, 0⟩

example : inetPton ACL_ANY_IPV4 = some anyIpv4 := by decide

namespace FiveTuple

structure Covers (pattern tuple : FiveTuple) : Prop where
  saddr : pattern.saddr = anyIpv4 ∨ pattern.saddr = tuple.saddr
  daddr : pattern.daddr = anyIpv4 ∨ pattern.daddr = tuple.daddr
  sport : pattern.sport = ACL_ANY_PORT ∨ pattern.sport = tuple.sport
  dport : pattern.dport = ACL_ANY_PORT ∨ pattern.dport = tuple.dport
  protocol : pattern.protocol = tuple.protocol

/-- The fields are those of `tuple`, up to a source port that may be `any`. -/
structure CoversSourcePort (pattern tuple : FiveTuple) : Prop where
  saddr : pattern.saddr = tuple.saddr
  daddr : pattern.daddr = tuple.daddr
  sport : pattern.sport = ACL_ANY_PORT ∨ pattern.sport = tuple.sport
  dport : pattern.dport = tuple.dport
  protocol : pattern.protocol = tuple.protocol

theorem CoversSourcePort.covers {pattern tuple : FiveTuple}
    (hcovers : pattern.CoversSourcePort tuple) : pattern.Covers tuple where
  saddr := .inr hcovers.saddr
  daddr := .inr hcovers.daddr
  sport := hcovers.sport
  dport := .inr hcovers.dport
  protocol := hcovers.protocol

theorem coversSourcePort_iff {pattern tuple : FiveTuple} :
    pattern.CoversSourcePort tuple ↔
      pattern = { tuple with sport := ACL_ANY_PORT } ∨ pattern = tuple := by
  obtain ⟨saddr, daddr, sport, dport, protocol⟩ := pattern
  constructor
  · rintro ⟨rfl, rfl, rfl | rfl, rfl, rfl⟩
    · exact .inl rfl
    · exact .inr rfl
  · rintro (heq | rfl)
    · cases heq
      exact ⟨rfl, rfl, .inl rfl, rfl, rfl⟩
    · exact ⟨rfl, rfl, .inr rfl, rfl, rfl⟩

end FiveTuple

namespace AclRulesElem

/-- The rule matches field by field, an `any` value matching every value. -/
def Matches (rule : AclRulesElem) (tuple : FiveTuple) : Prop :=
  ∃ pattern, rule.fiveTuple? = some pattern ∧ pattern.Covers tuple

/-- The rule is one of the two the kernel looks up: only the source port may
be `any`. -/
def MatchesSourcePort (rule : AclRulesElem) (tuple : FiveTuple) : Prop :=
  ∃ pattern, rule.fiveTuple? = some pattern ∧ pattern.CoversSourcePort tuple

theorem MatchesSourcePort.matches {rule : AclRulesElem} {tuple : FiveTuple}
    (hmatches : rule.MatchesSourcePort tuple) : rule.Matches tuple :=
  let ⟨pattern, hpattern, hcovers⟩ := hmatches
  ⟨pattern, hpattern, hcovers.covers⟩

theorem matchesSourcePort_iff {rule : AclRulesElem} {tuple : FiveTuple} :
    rule.MatchesSourcePort tuple ↔
      rule.fiveTuple? = some { tuple with sport := ACL_ANY_PORT } ∨
        rule.fiveTuple? = some tuple := by
  simp [MatchesSourcePort, FiveTuple.coversSourcePort_iff, and_or_left,
    exists_or]

end AclRulesElem

theorem dropped_iff_matchesSourcePort {rules : List AclRulesElem}
    (hdrop : ∀ rule ∈ rules, rule.action = .drop) (tuple : FiveTuple) :
    Dropped rules tuple ↔ ∃ rule ∈ rules, rule.MatchesSourcePort tuple := by
  have hlast : ∀ tuple, lastAction rules tuple = some .drop ↔
      ∃ rule ∈ rules, rule.fiveTuple? = some tuple := by
    intro tuple
    constructor
    · intro hlast
      obtain ⟨rule, hmem, htuple, _⟩ := exists_of_lastAction hlast
      exact ⟨rule, hmem, htuple⟩
    · rintro ⟨rule, hmem, htuple⟩
      obtain ⟨action, hlast⟩ := lastAction_isSome_of_mem hmem htuple
      obtain ⟨last, hlastMem, _, rfl⟩ := exists_of_lastAction hlast
      rw [hlast, hdrop last hlastMem]
  have hsplit : (∃ rule ∈ rules, rule.MatchesSourcePort tuple) ↔
      lastAction rules { tuple with sport := ACL_ANY_PORT } = some .drop ∨
        lastAction rules tuple = some .drop := by
    simp only [hlast, AclRulesElem.matchesSourcePort_iff, and_or_left,
      exists_or]
  rw [hsplit, Dropped]
  cases hany : lastAction rules { tuple with sport := ACL_ANY_PORT } with
  | none => simp
  | some action =>
      obtain ⟨rule, hmem, _, rfl⟩ := exists_of_lastAction hany
      simp [hdrop rule hmem]

/-- Under `DROP` rules for TCP the programs drop what some rule matches exactly
where a frame that some rule matches is matched by one whose `any` values stand
in the source port alone. -/
theorem drops_iff_matches_iff {insert : Nat → Bool} {config : Json}
    {rules : AclRules} {acl updated : AclBase}
    (hconfig : AclRules.fromJson config = .ok rules)
    (hvalid : ∀ rule ∈ rules.rules, rule.Valid)
    (hdrop : ∀ rule ∈ rules.rules,
      rule.action = .drop ∧ rule.protocol = .tcp)
    (hsize : rules.rules.length ≤ MAX_RULES_SIZE)
    (hinsert : ∀ attempt, insert attempt = true)
    (hupdate : acl.onConfigUpdate insert config = .ok updated)
    {frame : Frame} (hframe : TransportFrame frame)
    (htcp : ipProtocol frame = IPPROTO_TCP) (program : AclProgram) :
    (program.Drops updated.krules frame ↔
        ∃ rule ∈ rules.rules, rule.Matches (frameFiveTuple frame)) ↔
      ((∃ rule ∈ rules.rules, rule.Matches (frameFiveTuple frame)) →
        ∃ rule ∈ rules.rules,
          rule.MatchesSourcePort (frameFiveTuple frame)) := by
  have htuple : lookupTuple frame = frameFiveTuple frame := if_pos (.inl htcp)
  rw [drops_iff_dropped_lookupTuple hconfig hvalid hsize hinsert hupdate hframe
    program, htuple,
    dropped_iff_matchesSourcePort fun rule hmem => (hdrop rule hmem).1]
  constructor
  · exact fun hiff => hiff.mpr
  · intro hsource
    refine ⟨?_, hsource⟩
    rintro ⟨rule, hmem, hmatches⟩
    exact ⟨rule, hmem, hmatches.matches⟩

/-! A rule that omits its source address and port. -/

def denyWeb : AclRulesElem where
  daddr := "10.0.0.2"
  dport := 80

def denyWebConfig : Json :=
  .object [("rules", .array [.object
    [("daddr", .string "10.0.0.2"), ("dport", .number 80)]])]

def webFrame (saddr : List UInt8) : Frame :=
  List.replicate 12 0 ++ [8, 0] ++
    [0x45, 0, 0, 0, 0, 0, 0, 0, 64, 6, 0, 0] ++ saddr ++ [10, 0, 0, 2] ++
    [0x12, 0x34, 0, 80] ++ List.replicate 16 0

def aclDenyingWeb : AclBase :=
  AclBase.start.installRules (fun _ => true) [denyWeb] 0 0

def denyHost : AclRulesElem := { denyWeb with saddr := "10.0.0.1" }

def denyHostConfig : Json :=
  .object [("rules", .array [
    .object [("daddr", .string "10.0.0.2"), ("dport", .number 80)],
    .object [("saddr", .string "10.0.0.1"), ("daddr", .string "10.0.0.2"),
      ("dport", .number 80)]])]

def aclDenyingHost : AclBase :=
  AclBase.start.installRules (fun _ => true) [denyWeb, denyHost] 0 0

/-- The second rule omits its source port alone. -/
theorem drops_iff_matches_iff_denyHost :
    (AclProgram.tcIngress.Drops aclDenyingHost.krules
        (webFrame [10, 0, 0, 1]) ↔
        ∃ rule ∈ [denyWeb, denyHost],
          rule.Matches (frameFiveTuple (webFrame [10, 0, 0, 1]))) ↔
      ((∃ rule ∈ [denyWeb, denyHost],
          rule.Matches (frameFiveTuple (webFrame [10, 0, 0, 1]))) →
        ∃ rule ∈ [denyWeb, denyHost],
          rule.MatchesSourcePort
            (frameFiveTuple (webFrame [10, 0, 0, 1]))) :=
  @drops_iff_matches_iff (fun _ => true) denyHostConfig
    ⟨[denyWeb, denyHost]⟩ .start aclDenyingHost rfl (by decide) (by decide)
    (by decide) (fun _ => rfl) rfl (webFrame [10, 0, 0, 1])
    ⟨⟨⟨by decide, by decide⟩, by decide⟩, by decide⟩ (by decide) .tcIngress

/-- The first rule alone does not reach the frame. -/
theorem not_drops_webFrame :
    AclRules.fromJson denyWebConfig = .ok ⟨[denyWeb]⟩ ∧
      denyWeb.Valid ∧ denyWeb.action = .drop ∧ denyWeb.protocol = .tcp ∧
      AclBase.start.onConfigUpdate (fun _ => true) denyWebConfig =
        .ok aclDenyingWeb ∧
      TransportFrame (webFrame [10, 0, 0, 1]) ∧
      ipProtocol (webFrame [10, 0, 0, 1]) = IPPROTO_TCP ∧
      ∀ program : AclProgram,
        ¬ (program.Drops aclDenyingWeb.krules (webFrame [10, 0, 0, 1]) ↔
          ∃ rule ∈ [denyWeb],
            rule.Matches (frameFiveTuple (webFrame [10, 0, 0, 1]))) := by
  refine ⟨rfl, by decide, rfl, rfl, rfl,
    ⟨⟨⟨by decide, by decide⟩, by decide⟩, by decide⟩, by decide, ?_⟩
  have hmatches : denyWeb.Matches (frameFiveTuple (webFrame [10, 0, 0, 1])) :=
    ⟨⟨anyIpv4, ⟨10, 0, 0, 2⟩, 0, 80, IPPROTO_TCP⟩, by decide,
      .inl rfl, .inr (by decide), .inl rfl, .inr (by decide), by decide⟩
  intro program hiff
  have hdrops := hiff.mpr ⟨denyWeb, by simp, hmatches⟩
  revert hdrops
  cases program <;> decide

end Hebpf.Services.Acl
