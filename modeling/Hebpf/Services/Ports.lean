import Hebpf.Services.Acl.Rules
import Hebpf.Services.Lb.Rules

namespace Hebpf.Common.Json

/-! What a JSON value must be for a conversion not to throw. -/

variable {α ρ : Type}

def Accepts (get : Json → Result α) (json : Json) : Prop :=
  ∃ value, get json = .ok value

def Fits (json : Json) (key : String) (fits : Json → Prop) : Prop :=
  ∀ value, json.field? key = some value → fits value

def IsString (json : Json) : Prop := json.typeName = "string"

def IsArithmetic (json : Json) : Prop :=
  json.typeName = "number" ∨ json.typeName = "boolean"

def IsArrayOf (fits : Json → Prop) : Json → Prop
  | array items => ∀ item ∈ items, fits item
  | _ => False

theorem exists_bind_iff {first : Result α} {next : α → Result ρ} :
    (∃ result, (do let value ← first; next value) = .ok result) ↔
      ∃ value, first = .ok value ∧ ∃ result, next value = .ok result := by
  simp only [bind_eq_ok_iff]
  constructor
  · intro hresult
    obtain ⟨result, value, hfirst, hnext⟩ := hresult
    exact ⟨value, hfirst, result, hnext⟩
  · intro hvalue
    obtain ⟨value, hfirst, result, hnext⟩ := hvalue
    exact ⟨result, value, hfirst, hnext⟩

theorem exists_pure_iff (value : α) :
    (∃ result, (pure value : Result α) = .ok result) ↔ True :=
  iff_true_intro ⟨value, rfl⟩

theorem exists_fieldOr_iff {json : Json} {key : String} {default : α}
    {get : Json → Result α} {fits : Json → Prop}
    (hget : ∀ value, Accepts get value ↔ fits value) :
    (∃ value, json.fieldOr key default get = .ok value) ↔
      json.Fits key fits := by
  unfold fieldOr Fits
  cases json.field? key with
  | none => simp
  | some value => simpa [Accepts] using hget value

theorem accepts_getString_iff (json : Json) :
    Accepts getString json ↔ json.IsString := by
  cases json <;> simp [Accepts, getString, IsString, typeName]

theorem accepts_convert_getString_iff {convert : String → α} (json : Json) :
    Accepts (fun value => do return convert (← value.getString)) json ↔
      json.IsString := by
  rw [← accepts_getString_iff]
  unfold Accepts
  cases hget : json.getString <;> simp [hget, bind, Except.bind, pure, Except.pure]

theorem accepts_getUInt16_iff (json : Json) :
    Accepts getUInt16 json ↔ json.IsArithmetic := by
  cases json <;> simp [Accepts, getUInt16, IsArithmetic, typeName]

theorem mapM_cons_eq_ok_iff {element : Json → Result ρ} {item : Json}
    {items : List Json} {read : List ρ} :
    (item :: items).mapM element = .ok read ↔
      ∃ first rest, element item = .ok first ∧ items.mapM element = .ok rest ∧
        read = first :: rest := by
  rw [List.mapM_cons, bind_eq_ok_iff]
  simp only [bind_eq_ok_iff, pure, Except.pure, Except.ok.injEq]
  constructor
  · intro hread
    obtain ⟨first, hfirst, rest, hrest, rfl⟩ := hread
    exact ⟨first, rest, hfirst, hrest, rfl⟩
  · intro hread
    obtain ⟨first, rest, hfirst, hrest, rfl⟩ := hread
    exact ⟨first, hfirst, rest, hrest, rfl⟩

theorem accepts_mapM_iff {element : Json → Result ρ} {items : List Json} :
    (∃ read, items.mapM element = .ok read) ↔
      ∀ item ∈ items, Accepts element item := by
  induction items with
  | nil => exact iff_of_true ⟨[], rfl⟩ (by simp)
  | cons item items ih =>
      rw [List.forall_mem_cons, ← ih]
      simp only [mapM_cons_eq_ok_iff]
      constructor
      · intro hread
        obtain ⟨_, first, rest, hfirst, hrest, rfl⟩ := hread
        exact ⟨⟨first, hfirst⟩, rest, hrest⟩
      · intro haccepts
        obtain ⟨⟨first, hfirst⟩, rest, hrest⟩ := haccepts
        exact ⟨_, first, rest, hfirst, hrest, rfl⟩

theorem accepts_getVector_iff {element : Json → Result ρ} {fits : Json → Prop}
    (helement : ∀ item, Accepts element item ↔ fits item) (json : Json) :
    Accepts (getVector element) json ↔ json.IsArrayOf fits := by
  unfold Accepts getVector
  cases json with
  | array items =>
      exact accepts_mapM_iff.trans (forall₂_congr fun item _ => helement item)
  | _ => simp [IsArrayOf]

end Hebpf.Common.Json

namespace Hebpf.Services

open Hebpf.Common

@[mk_iff]
structure Acl.AclRulesElem.WellTyped (json : Json) : Prop where
  saddr : json.Fits "saddr" Json.IsString
  daddr : json.Fits "daddr" Json.IsString
  sport : json.Fits "sport" Json.IsArithmetic
  dport : json.Fits "dport" Json.IsArithmetic
  protocol : json.Fits "protocol" Json.IsString
  action : json.Fits "action" Json.IsString

def Acl.AclRules.WellTyped (config : Json) : Prop :=
  config.Fits "rules" (Json.IsArrayOf Acl.AclRulesElem.WellTyped)

def Lb.Backends.WellTyped (json : Json) : Prop := json.Fits "mac" Json.IsString

@[mk_iff]
structure Lb.LbRulesElem.WellTyped (json : Json) : Prop where
  vip : json.Fits "vip" Json.IsString
  vport : json.Fits "vport" Json.IsArithmetic
  backends : json.Fits "backends" (Json.IsArrayOf Lb.Backends.WellTyped)

@[mk_iff]
structure Lb.LbRules.WellTyped (config : Json) : Prop where
  localMac : config.Fits "local_mac" Json.IsString
  rules : config.Fits "rules" (Json.IsArrayOf Lb.LbRulesElem.WellTyped)

theorem Acl.Protocol.accepts_iff (json : Json) :
    Json.Accepts fromJson json ↔ json.IsString :=
  Json.accepts_convert_getString_iff json

theorem Acl.Action.accepts_iff (json : Json) :
    Json.Accepts fromJson json ↔ json.IsString :=
  Json.accepts_convert_getString_iff json

theorem Acl.AclRulesElem.accepts_iff (json : Json) :
    Json.Accepts fromJson json ↔ WellTyped json := by
  unfold Json.Accepts fromJson
  simp only [Json.exists_bind_iff, Json.exists_pure_iff, exists_and_right,
    and_true,
    Json.exists_fieldOr_iff Json.accepts_getString_iff,
    Json.exists_fieldOr_iff Json.accepts_getUInt16_iff,
    Json.exists_fieldOr_iff Acl.Protocol.accepts_iff,
    Json.exists_fieldOr_iff Acl.Action.accepts_iff, wellTyped_iff]

theorem Acl.AclRules.accepts_iff (config : Json) :
    Json.Accepts fromJson config ↔ WellTyped config := by
  unfold Json.Accepts fromJson WellTyped
  simp only [Json.exists_bind_iff, Json.exists_pure_iff, and_true,
    Json.exists_fieldOr_iff
      (Json.accepts_getVector_iff Acl.AclRulesElem.accepts_iff)]

theorem Lb.Backends.accepts_iff (json : Json) :
    Json.Accepts fromJson json ↔ WellTyped json := by
  unfold Json.Accepts fromJson WellTyped
  simp only [Json.exists_bind_iff, Json.exists_pure_iff, and_true,
    Json.exists_fieldOr_iff Json.accepts_getString_iff]

theorem Lb.LbRulesElem.accepts_iff (json : Json) :
    Json.Accepts fromJson json ↔ WellTyped json := by
  unfold Json.Accepts fromJson
  simp only [Json.exists_bind_iff, Json.exists_pure_iff, exists_and_right,
    and_true,
    Json.exists_fieldOr_iff Json.accepts_getString_iff,
    Json.exists_fieldOr_iff Json.accepts_getUInt16_iff,
    Json.exists_fieldOr_iff
      (Json.accepts_getVector_iff Lb.Backends.accepts_iff), wellTyped_iff]

theorem Lb.LbRules.accepts_iff (config : Json) :
    Json.Accepts fromJson config ↔ WellTyped config := by
  unfold Json.Accepts fromJson
  simp only [Json.exists_bind_iff, Json.exists_pure_iff, exists_and_right,
    and_true,
    Json.exists_fieldOr_iff Json.accepts_getString_iff,
    Json.exists_fieldOr_iff
      (Json.accepts_getVector_iff Lb.LbRulesElem.accepts_iff), wellTyped_iff]

def number? : Json → Option Rat
  | .number value => some value
  | .float value => some value
  | _ => none

def Writes (written : Json) (port : UInt16) : Prop :=
  number? written = some (port.toNat : Rat)

def IsPort (written : Json) : Prop :=
  ∃ value : Nat, value < 65536 ∧ number? written = some (value : Rat)

theorem getUInt16_of_number? {written : Json} {value : Nat}
    (hvalue : value < 65536) (hnumber : number? written = some (value : Rat)) :
    written.getUInt16 = .ok (UInt16.ofNat value) := by
  cases written with
  | number stored =>
      have hstored : stored = value :=
        Int.cast_injective (Option.some.inj hnumber)
      have hsmall : (stored % 65536).toNat = value := by omega
      rw [Json.getUInt16, hsmall]
  | float stored =>
      have hstored : stored = (value : Rat) := Option.some.inj hnumber
      have htruncated :
          ((stored.num.tdiv stored.den) % 65536).toNat = value := by
        rw [hstored, Rat.num_natCast, Rat.den_natCast, Nat.cast_one,
          Int.tdiv_one]
        omega
      rw [Json.getUInt16, htruncated]
  | _ => cases hnumber

theorem writes_getUInt16_iff {written : Json} {port : UInt16}
    (hget : written.getUInt16 = .ok port) :
    Writes written port ↔ IsPort written := by
  constructor
  · intro hwrites
    exact ⟨port.toNat, port.toNat_lt, hwrites⟩
  · intro hwritten
    obtain ⟨value, hvalue, hnumber⟩ := hwritten
    rw [getUInt16_of_number? hvalue hnumber] at hget
    cases hget
    rw [Writes, UInt16.toNat_ofNat_of_lt' hvalue]
    exact hnumber

def rulesOf (config : Json) : List Json :=
  match config.field? "rules" with
  | some (.array items) => items
  | _ => []

section Ports

variable {ρ δ : Type} {ports : List (String × (ρ → UInt16))}
  {element : Json → Result ρ} {item : Json} {rule : ρ}

def SamePorts (ports : List (String × (ρ → UInt16))) (item : Json)
    (rule : ρ) : Prop :=
  ∀ port ∈ ports, item.Fits port.1 fun written => Writes written (port.2 rule)

def PortsFit (ports : List (String × (ρ → UInt16))) (config : Json) : Prop :=
  ∀ item ∈ rulesOf config, ∀ port ∈ ports, item.Fits port.1 IsPort

/-- Each rule has the ports its element writes, and a configuration that writes
anything but a port for one is not accepted. -/
structure KeepsPorts (fromJson : Json → Result δ) (rules : δ → List ρ)
    (ports : List (String × (ρ → UInt16))) (config : Json) : Prop where
  same : ∀ read, fromJson config = .ok read →
    List.Forall₂ (SamePorts ports) (rulesOf config) (rules read)
  rejected : ¬ PortsFit ports config →
    ∃ exc, fromJson config = .error exc

def CastsPorts (ports : List (String × (ρ → UInt16)))
    (element : Json → Result ρ) : Prop :=
  ∀ item rule, element item = .ok rule → ∀ port ∈ ports,
    item.Fits port.1 fun written => written.getUInt16 = .ok (port.2 rule)

theorem CastsPorts.samePorts_iff (hcasts : CastsPorts ports element)
    (hread : element item = .ok rule) :
    SamePorts ports item rule ↔
      ∀ port ∈ ports, item.Fits port.1 IsPort :=
  forall₂_congr fun port hport => forall₂_congr fun _ hwritten =>
    writes_getUInt16_iff (hcasts item rule hread port hport _ hwritten)

theorem CastsPorts.forall₂_iff (hcasts : CastsPorts ports element)
    {items : List Json} {rules : List ρ}
    (hread : items.mapM element = .ok rules) :
    List.Forall₂ (SamePorts ports) items rules ↔
      ∀ item ∈ items, ∀ port ∈ ports, item.Fits port.1 IsPort := by
  induction items generalizing rules with
  | nil =>
      cases hread
      simp
  | cons item items ih =>
      obtain ⟨first, rest, hfirst, hrest, rfl⟩ :=
        Json.mapM_cons_eq_ok_iff.mp hread
      rw [List.forall₂_cons, List.forall_mem_cons, ih hrest,
        hcasts.samePorts_iff hfirst]

/-- A conversion that reads its rules from the array keeps the ports exactly of
what it accepts with ports only. -/
theorem CastsPorts.keeps_iff (hcasts : CastsPorts ports element)
    {fromJson : Json → Result δ} {rules : δ → List ρ} {config : Json}
    (hrules : ∀ read, fromJson config = .ok read →
      (rulesOf config).mapM element = .ok (rules read)) :
    KeepsPorts fromJson rules ports config ↔
      (Json.Accepts fromJson config → PortsFit ports config) := by
  constructor
  · intro hkeeps haccepts
    obtain ⟨read, hconfig⟩ := haccepts
    exact (hcasts.forall₂_iff (hrules read hconfig)).mp
      (hkeeps.same read hconfig)
  · intro hfit
    constructor
    · intro read hconfig
      exact (hcasts.forall₂_iff (hrules read hconfig)).mpr
        (hfit ⟨read, hconfig⟩)
    · intro hnot
      cases hconfig : fromJson config with
      | error exc => exact ⟨exc, rfl⟩
      | ok read => exact absurd (hfit ⟨read, hconfig⟩) hnot

theorem mapM_rulesOf {config : Json} {read : List ρ}
    (hread : config.fieldOr "rules" [] (Json.getVector element) = .ok read) :
    (rulesOf config).mapM element = .ok read := by
  unfold Json.fieldOr at hread
  unfold rulesOf
  cases hfield : config.field? "rules" with
  | none =>
      rw [hfield] at hread
      exact hread
  | some value =>
      rw [hfield] at hread
      cases value with
      | array items => exact hread
      | _ => cases hread

end Ports

theorem getUInt16_of_fieldOr {json : Json} {key : String}
    {default port : UInt16}
    (hport : json.fieldOr key default Json.getUInt16 = .ok port) :
    json.Fits key fun written => written.getUInt16 = .ok port := by
  intro written hwritten
  rw [Json.fieldOr, hwritten] at hport
  exact hport

def aclPorts : List (String × (Acl.AclRulesElem → UInt16)) :=
  [("sport", Acl.AclRulesElem.sport), ("dport", Acl.AclRulesElem.dport)]

def lbPorts : List (String × (Lb.LbRulesElem → UInt16)) :=
  [("vport", Lb.LbRulesElem.vport)]

theorem aclPorts_casts : CastsPorts aclPorts Acl.AclRulesElem.fromJson := by
  intro item rule hread
  simp only [Acl.AclRulesElem.fromJson, bind_eq_ok_iff] at hread
  obtain ⟨_, -, _, -, sport, hsport, dport, hdport, _, -, _, -, hrule⟩ := hread
  cases hrule
  rw [aclPorts, List.forall_mem_cons, List.forall_mem_singleton]
  exact ⟨getUInt16_of_fieldOr hsport, getUInt16_of_fieldOr hdport⟩

theorem lbPorts_casts : CastsPorts lbPorts Lb.LbRulesElem.fromJson := by
  intro item rule hread
  simp only [Lb.LbRulesElem.fromJson, bind_eq_ok_iff] at hread
  obtain ⟨_, -, vport, hvport, _, -, hrule⟩ := hread
  cases hrule
  rw [lbPorts, List.forall_mem_singleton]
  exact getUInt16_of_fieldOr hvport

/-- The ports of both kinds of rules are those of the configuration exactly
where a configuration of the right types writes an integer from 0 to 65535 for
each. -/
theorem keepsPorts_iff (config : Json) :
    (KeepsPorts Acl.AclRules.fromJson Acl.AclRules.rules aclPorts config ↔
      (Acl.AclRules.WellTyped config → PortsFit aclPorts config)) ∧
    (KeepsPorts Lb.LbRules.fromJson Lb.LbRules.rules lbPorts config ↔
      (Lb.LbRules.WellTyped config → PortsFit lbPorts config)) := by
  constructor
  · rw [← Acl.AclRules.accepts_iff]
    apply aclPorts_casts.keeps_iff
    intro read hread
    simp only [Acl.AclRules.fromJson, bind_eq_ok_iff] at hread
    obtain ⟨rules, hrules, hacl⟩ := hread
    cases hacl
    exact mapM_rulesOf hrules
  · rw [← Lb.LbRules.accepts_iff]
    apply lbPorts_casts.keeps_iff
    intro read hread
    simp only [Lb.LbRules.fromJson, bind_eq_ok_iff] at hread
    obtain ⟨_, -, rules, hrules, hlb⟩ := hread
    cases hlb
    exact mapM_rulesOf hrules

/-- A source port of 65536 is read as the one that stands for any. -/
theorem not_keepsPorts_wrapped :
    ¬ KeepsPorts Acl.AclRules.fromJson Acl.AclRules.rules aclPorts
      (.object [("rules", .array [.object [("sport", .number 65536)]])]) := by
  intro hkeeps
  have hsame := hkeeps.same ⟨[{}]⟩ rfl
  have hport := (List.forall₂_cons.mp hsame).1 _ (.head _) (.number 65536) rfl
  simp [Writes, number?, Acl.ACL_ANY_PORT] at hport

end Hebpf.Services
