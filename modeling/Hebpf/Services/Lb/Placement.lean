import Hebpf.Services.Lb.Base

namespace Hebpf.Services.Lb

open Hebpf.Common Hebpf.Data Hebpf.Kernel

/-! What an update installs, said of the configuration and the outcomes. -/

/-- A rule the loop comes to: where its backends start in the pool when the
pool is taken to have no end, and whether its group is installed. -/
structure Placement where
  rule : LbRulesElem
  vkey : VipKey
  start : Nat
  installed : Bool

def placements (outcomes : Outcomes) :
    List LbRulesElem → (attempt success start : Nat) → List VipKey →
      List Placement
  | [], _, _, _, _ => []
  | rule :: rest, attempt, success, start, keys =>
      match rule.vipKey? with
      | none => placements outcomes rest attempt success start keys
      | some vkey =>
          let next := start + rule.grouped.length
          if outcomes.vip attempt ∧
              (vkey ∈ keys ∨ keys.length < MAXSIZE_LB_HASH) then
            ⟨rule, vkey, start, true⟩ ::
              if MAX_RULES_SIZE ≤ success + 1 then []
              else placements outcomes rest (attempt + 1) (success + 1) next
                (vkey :: keys.erase vkey)
          else
            ⟨rule, vkey, start, false⟩ ::
              placements outcomes rest (attempt + 1) success next keys

/-- The placements of a configuration, into tables that have been cleared. -/
def placedBy (outcomes : Outcomes) (rules : LbRules) : List Placement :=
  placements outcomes rules.rules 0 0 0 []

def placedMac (outcomes : Outcomes) (index : Nat) (backend : Backends) :
    Option Mac :=
  if index < TOTAL_BACKENDS ∧ outcomes.pool index then parseMac backend.mac
  else none

/-- The address the pool gets at an index from backends placed from `start`
on; `none` leaves the index as it was. -/
def poolMac (outcomes : Outcomes) (start : Nat) (backends : List Backends)
    (index : Nat) : Option Mac :=
  if start ≤ index then
    backends[index - start]?.bind (placedMac outcomes index)
  else none

/-- Slot `i` of a group whose backends are placed from `start` on: the index
of a backend that reached the pool, zero for any other. -/
def slotOf (outcomes : Outcomes) (start : Nat) (backends : List Backends)
    (i : Nat) : UInt32 :=
  if (poolMac outcomes start backends (start + i)).isSome then
    UInt32.ofNat (start + i)
  else 0

namespace Placement

def group (outcomes : Outcomes) (placement : Placement) : VipGroup where
  backends := Vector.ofFn fun i =>
    slotOf outcomes placement.start placement.rule.grouped i
  count := UInt32.ofNat placement.rule.grouped.length
  padding := 0

end Placement

def installedRules (placed : List Placement) : List LbRulesElem :=
  (placed.filter Placement.installed).map Placement.rule

def vipEntries (outcomes : Outcomes) (placed : List Placement) :
    List (VipKey × VipGroup) :=
  (placed.filter Placement.installed).map fun placement =>
    (placement.vkey, placement.group outcomes)

def pooled (placed : List Placement) : List Backends :=
  placed.flatMap fun placement => placement.rule.grouped

/-! The two loops place what `placements` says. -/

theorem poolMac_cons (outcomes : Outcomes) (start : Nat) (backend : Backends)
    (rest : List Backends) (index : Nat) :
    poolMac outcomes start (backend :: rest) index =
      if index = start then placedMac outcomes index backend
      else poolMac outcomes (start + 1) rest index := by
  unfold poolMac
  by_cases heq : index = start
  · simp [heq]
  · by_cases hle : start ≤ index
    · have hnext : start + 1 ≤ index := by omega
      have hindex : index - start = index - (start + 1) + 1 := by omega
      simp [heq, hle, hnext, hindex]
    · have hnext : ¬ start + 1 ≤ index := by omega
      simp [heq, hle, hnext]

theorem poolMac_eq_none {outcomes : Outcomes} {start : Nat}
    {backends : List Backends} {index : Nat}
    (houtside : index < start ∨ start + backends.length ≤ index ∨
      TOTAL_BACKENDS ≤ index) :
    poolMac outcomes start backends index = none := by
  unfold poolMac
  split_ifs with hle
  · rcases houtside with hbefore | hafter | hbeyond
    · omega
    · rw [List.getElem?_eq_none (by omega), Option.bind_none]
    · have hnot : ¬ index < TOTAL_BACKENDS := by omega
      cases backends[index - start]? <;> simp [placedMac, hnot]
  · rfl

theorem poolMac_append (outcomes : Outcomes) (start : Nat)
    (before after : List Backends) (index : Nat) :
    poolMac outcomes start (before ++ after) index =
      (poolMac outcomes start before index).or
        (poolMac outcomes (start + before.length) after index) := by
  induction before generalizing start with
  | nil => simp [poolMac]
  | cons backend rest ih =>
      have hlength : start + 1 + rest.length =
          start + (backend :: rest).length := by
        simp only [List.length_cons]
        omega
      rw [List.cons_append, poolMac_cons, poolMac_cons, ih, hlength]
      split_ifs with heq
      · rw [poolMac_eq_none (.inl (by simp only [List.length_cons]; omega)),
          Option.or_none]
      · rfl

def poolAfter (outcomes : Outcomes) (start : Nat) (backends : List Backends)
    (pool : BackendPool) : BackendPool where
  values index :=
    match poolMac outcomes start backends index with
    | none => pool.values index
    | some mac => ⟨mac, 0⟩

def slotsAfter (outcomes : Outcomes) (start : Nat) (backends : List Backends)
    (i : Nat) (slots : Vector UInt32 MAX_BACKENDS_PER_VIP) :
    Vector UInt32 MAX_BACKENDS_PER_VIP :=
  Vector.ofFn fun k =>
    if i ≤ k ∧ (poolMac outcomes start backends (start + (k - i))).isSome then
      UInt32.ofNat (start + (k - i))
    else slots[k]

theorem getElem_slotsAfter (outcomes : Outcomes) (start : Nat)
    (backends : List Backends) (i : Nat)
    (slots : Vector UInt32 MAX_BACKENDS_PER_VIP) {k : Nat}
    (hk : k < MAX_BACKENDS_PER_VIP) :
    (slotsAfter outcomes start backends i slots)[k] =
      if i ≤ k ∧
          (poolMac outcomes start backends (start + (k - i))).isSome then
        UInt32.ofNat (start + (k - i))
      else slots[k] :=
  Vector.getElem_ofFn hk

theorem slotsAfter_of_none {outcomes : Outcomes} {start : Nat}
    {backends : List Backends}
    (hnone : ∀ index, poolMac outcomes start backends index = none) (i : Nat)
    (slots : Vector UInt32 MAX_BACKENDS_PER_VIP) :
    slotsAfter outcomes start backends i slots = slots := by
  apply Vector.ext
  intro k hk
  simp [slotsAfter, hnone]

theorem poolAfter_of_none {outcomes : Outcomes} {start : Nat}
    {backends : List Backends}
    (hnone : ∀ index, poolMac outcomes start backends index = none)
    (pool : BackendPool) :
    poolAfter outcomes start backends pool = pool := by
  apply BpfArray.ext
  funext index
  simp [poolAfter, hnone]

theorem slotsAfter_cons (outcomes : Outcomes) (start : Nat)
    (backend : Backends) (rest : List Backends) (i : Nat)
    (slots : Vector UInt32 MAX_BACKENDS_PER_VIP) :
    slotsAfter outcomes start (backend :: rest) i slots =
      slotsAfter outcomes (start + 1) rest (i + 1)
        (if (placedMac outcomes start backend).isSome then
          slots.setIfInBounds i (UInt32.ofNat start) else slots) := by
  apply Vector.ext
  intro k hk
  simp only [getElem_slotsAfter, poolMac_cons]
  rcases Nat.lt_trichotomy k i with hlt | rfl | hgt
  · have hcons : ¬ i ≤ k := by omega
    have hrest : ¬ i + 1 ≤ k := by omega
    have hne : i ≠ k := by omega
    simp only [hcons, hrest, false_and, if_false]
    split_ifs <;> simp [hne]
  · have hrest : ¬ k + 1 ≤ k := by omega
    simp only [Nat.le_refl, Nat.sub_self, Nat.add_zero, true_and, hrest,
      false_and, if_true, if_false]
    split_ifs <;> simp
  · have hcons : i ≤ k := by omega
    have hrest : i + 1 ≤ k := by omega
    have hne : i ≠ k := by omega
    have hindex : start + (k - i) = start + 1 + (k - (i + 1)) := by omega
    have hstart : start + 1 + (k - (i + 1)) ≠ start := by omega
    simp only [hcons, hrest, true_and, hindex, hstart, if_false]
    congr 1
    split_ifs <;> simp [hne]

theorem poolAfter_cons {outcomes : Outcomes} {start : Nat}
    (hstart : start < TOTAL_BACKENDS) (backend : Backends)
    (rest : List Backends) (pool : BackendPool) :
    poolAfter outcomes start (backend :: rest) pool =
      poolAfter outcomes (start + 1) rest
        (match placedMac outcomes start backend with
        | none => pool
        | some mac => ⟨Function.update pool.values ⟨start, hstart⟩ ⟨mac, 0⟩⟩) := by
  apply BpfArray.ext
  funext index
  simp only [poolAfter, poolMac_cons]
  by_cases heq : index.val = start
  · have hindex : index = ⟨start, hstart⟩ := Fin.ext heq
    have hrest : poolMac outcomes (start + 1) rest start = none :=
      poolMac_eq_none (.inl (by omega))
    cases hmac : placedMac outcomes start backend <;>
      simp [hindex, hrest, hmac]
  · have hindex : index ≠ ⟨start, hstart⟩ := fun hindex => heq (by rw [hindex])
    cases hrest : poolMac outcomes (start + 1) rest index <;>
      cases hmac : placedMac outcomes start backend <;>
      simp [heq, hindex]

theorem placeBackends_eq (outcomes : Outcomes) (backends : List Backends)
    (i start : Nat) (slots : Vector UInt32 MAX_BACKENDS_PER_VIP)
    (pool : BackendPool) :
    LbBase.placeBackends outcomes backends i (min start TOTAL_BACKENDS) slots
        pool =
      (slotsAfter outcomes start backends i slots,
        poolAfter outcomes start backends pool,
        min (start + backends.length) TOTAL_BACKENDS) := by
  induction backends generalizing i start slots pool with
  | nil =>
      have hnone : ∀ index, poolMac outcomes start [] index = none :=
        fun index => by simp [poolMac]
      simp [LbBase.placeBackends, slotsAfter_of_none hnone,
        poolAfter_of_none hnone]
  | cons backend rest ih =>
      unfold LbBase.placeBackends
      by_cases hfull : TOTAL_BACKENDS ≤ start
      · have hnone : ∀ index,
            poolMac outcomes start (backend :: rest) index = none := by
          intro index
          by_cases hbefore : index < start
          · exact poolMac_eq_none (.inl hbefore)
          · exact poolMac_eq_none (.inr (.inr (by omega)))
        have hhere : min start TOTAL_BACKENDS = TOTAL_BACKENDS := by omega
        have hnext : min (start + (backend :: rest).length) TOTAL_BACKENDS =
            TOTAL_BACKENDS := by omega
        rw [slotsAfter_of_none hnone, poolAfter_of_none hnone, hhere, hnext,
          if_pos (Nat.le_refl _)]
      · have hstart : start < TOTAL_BACKENDS := by omega
        have hhere : min start TOTAL_BACKENDS = start := by omega
        have hthere : min (start + 1) TOTAL_BACKENDS = start + 1 := by omega
        have hlength : start + (backend :: rest).length =
            start + 1 + rest.length := by
          simp only [List.length_cons]
          omega
        rw [slotsAfter_cons, poolAfter_cons hstart, hlength, hhere,
          if_neg hfull, ← ih, hthere]
        unfold placedMac
        cases parseMac backend.mac with
        | none => simp
        | some mac =>
            by_cases hpool : outcomes.pool start <;>
              simp [hpool, hstart, pool.updateElem_ofNat hstart (by decide)]
theorem poolAfter_append (outcomes : Outcomes) (start : Nat)
    (before after : List Backends) (pool : BackendPool) :
    poolAfter outcomes (start + before.length) after
        (poolAfter outcomes start before pool) =
      poolAfter outcomes start (before ++ after) pool := by
  apply BpfArray.ext
  funext index
  simp only [poolAfter, poolMac_append]
  cases hafter : poolMac outcomes (start + before.length) after index with
  | none => cases poolMac outcomes start before index <;> rfl
  | some mac =>
      have hbefore : poolMac outcomes start before index = none := by
        apply poolMac_eq_none
        by_contra hinside
        rw [poolMac_eq_none (.inl (by omega))] at hafter
        cases hafter
      simp [hbefore]

theorem slotsAfter_replicate (outcomes : Outcomes) (placement : Placement) :
    slotsAfter outcomes placement.start placement.rule.grouped 0
        (Vector.replicate MAX_BACKENDS_PER_VIP 0) =
      (placement.group outcomes).backends := by
  apply Vector.ext
  intro k hk
  simp [getElem_slotsAfter, Placement.group, slotOf]

/-- What placing a list of placements makes of the service. -/
structure Installs (outcomes : Outcomes) (start : Nat)
    (placed : List Placement) (before after : LbBase) : Prop where
  vip : ∀ key, after.maps.vipBackends.lookupElem key =
    (lastValue (vipEntries outcomes placed) key).or
      (before.maps.vipBackends.lookupElem key)
  pool : after.maps.backendPool =
    poolAfter outcomes start (pooled placed) before.maps.backendPool
  lomac : after.maps.lbLomac = before.maps.lbLomac
  localMac : after.rules.localMac = before.rules.localMac
  rules : after.rules.rules = before.rules.rules ++ installedRules placed

namespace Installs

variable {outcomes : Outcomes} {start : Nat}

theorem nil (lb : LbBase) : Installs outcomes start [] lb lb where
  vip := fun key => by simp [vipEntries]
  pool := (poolAfter_of_none (fun index => by simp [pooled, poolMac]) _).symm
  lomac := rfl
  localMac := rfl
  rules := by simp [installedRules]

theorem cons {placement : Placement} {placed : List Placement}
    {before middle after : LbBase}
    (hfirst : Installs outcomes start [placement] before middle)
    (hrest : Installs outcomes (start + placement.rule.grouped.length) placed
      middle after) :
    Installs outcomes start (placement :: placed) before after where
  vip := fun key => by
    rw [hrest.vip, hfirst.vip]
    cases hinstalled : placement.installed <;>
      simp [vipEntries, hinstalled, lastValue_cons, Option.or_assoc]
  pool := by
    rw [hrest.pool, hfirst.pool]
    simpa [pooled] using poolAfter_append outcomes start
      placement.rule.grouped (pooled placed) before.maps.backendPool
  lomac := hrest.lomac.trans hfirst.lomac
  localMac := hrest.localMac.trans hfirst.localMac
  rules := by
    rw [hrest.rules, hfirst.rules]
    cases hinstalled : placement.installed <;>
      simp [installedRules, hinstalled]

theorem refused (lb : LbBase) (rule : LbRulesElem) (vkey : VipKey) :
    Installs outcomes start [⟨rule, vkey, start, false⟩] lb
      ⟨{ lb.maps with
          backendPool := poolAfter outcomes start rule.grouped
            lb.maps.backendPool }, lb.rules⟩ where
  vip := fun key => by simp [vipEntries]
  pool := by simp [pooled]
  lomac := rfl
  localMac := rfl
  rules := by simp [installedRules]

theorem accepted {lb : LbBase} {rule : LbRulesElem} {vkey : VipKey}
    {vipBackends : BpfHash VipKey VipGroup MAXSIZE_LB_HASH}
    (hupdate : lb.maps.vipBackends.updateElem vkey
      (Placement.group outcomes ⟨rule, vkey, start, true⟩) =
        some vipBackends) :
    Installs outcomes start [⟨rule, vkey, start, true⟩] lb
      ⟨{ lb.maps with
          vipBackends
          backendPool := poolAfter outcomes start rule.grouped
            lb.maps.backendPool }, lb.rules.addRules rule⟩ where
  vip := fun key => by
    rw [BpfHash.lookupElem_updateElem hupdate]
    by_cases heq : vkey = key <;> simp [vipEntries, lastValue_cons, heq]
  pool := by simp [pooled]
  lomac := rfl
  localMac := rfl
  rules := by simp [installedRules, LbRules.addRules]

end Installs

theorem installRules_spec (outcomes : Outcomes) (rules : List LbRulesElem)
    (lb : LbBase) (attempt success start : Nat) :
    Installs outcomes start
      (placements outcomes rules attempt success start
        lb.maps.vipBackends.keys)
      lb
      (lb.installRules outcomes rules attempt success
        (min start TOTAL_BACKENDS)) := by
  induction rules generalizing lb attempt success start with
  | nil => exact .nil lb
  | cons rule rest ih =>
      cases hkey : rule.vipKey? with
      | none =>
          simp only [placements, LbBase.installRules, hkey]
          exact ih lb attempt success start
      | some vkey =>
          have hgroup : (⟨slotsAfter outcomes start rule.grouped 0
              (Vector.replicate MAX_BACKENDS_PER_VIP 0),
              UInt32.ofNat rule.grouped.length, 0⟩ : VipGroup) =
                Placement.group outcomes ⟨rule, vkey, start, true⟩ :=
            congrArg (VipGroup.mk · _ _)
              (slotsAfter_replicate outcomes ⟨rule, vkey, start, true⟩)
          simp only [placements, LbBase.installRules, hkey, placeBackends_eq,
            hgroup]
          by_cases hinstall : outcomes.vip attempt ∧
              (vkey ∈ lb.maps.vipBackends.keys ∨
                lb.maps.vipBackends.keys.length < MAXSIZE_LB_HASH)
          · obtain ⟨vipBackends, hupdate⟩ : ∃ vipBackends,
                lb.maps.vipBackends.updateElem vkey
                  (Placement.group outcomes ⟨rule, vkey, start, true⟩) =
                    some vipBackends :=
              BpfHash.exists_updateElem_iff.mpr hinstall.2
            have hfirst := Installs.accepted hupdate
            simp only [hinstall, and_self, if_true, hupdate]
            split_ifs with hlimit
            · exact hfirst
            · rw [← BpfHash.keys_of_updateElem hupdate]
              exact hfirst.cons (ih
                ⟨{ lb.maps with
                    vipBackends
                    backendPool := poolAfter outcomes start rule.grouped
                      lb.maps.backendPool }, lb.rules.addRules rule⟩
                (attempt + 1) (success + 1) (start + rule.grouped.length))
          · have hrefused : (if outcomes.vip attempt then
                lb.maps.vipBackends.updateElem vkey
                  (Placement.group outcomes ⟨rule, vkey, start, true⟩)
                else none) = none := by
              split_ifs with hvip
              · rw [BpfHash.updateElem_eq_none_iff]
                simpa [hvip] using hinstall
              · rfl
            simp only [hinstall, if_false, hrefused]
            exact (Installs.refused lb rule vkey).cons (ih
              ⟨{ lb.maps with
                  backendPool := poolAfter outcomes start rule.grouped
                    lb.maps.backendPool }, lb.rules⟩
              (attempt + 1) success (start + rule.grouped.length))

theorem lbLomac_updateLocalMac (outcomes : Outcomes) (lb : LbBase)
    (localMac : String) :
    (lb.updateLocalMac outcomes localMac).maps.lbLomac.values 0 =
      if outcomes.lomac then
        storeOctets outcomes.garbage (sscanfMac localMac)
      else lb.maps.lbLomac.values 0 := by
  by_cases hlomac : outcomes.lomac <;>
    simp [LbBase.updateLocalMac, BpfArray.updateElem, hlomac]

/-- After an update the tables hold the installed groups, the pool keeps what
no placed backend overwrites, and the mirror is the installed rules. -/
theorem onConfigUpdate_spec {outcomes : Outcomes} {lb updated : LbBase}
    {config : Json} {rules : LbRules}
    (hconfig : LbRules.fromJson config = .ok rules)
    (hupdate : lb.onConfigUpdate outcomes config = .ok updated) :
    (∀ key, updated.maps.vipBackends.lookupElem key =
        lastValue (vipEntries outcomes (placedBy outcomes rules)) key) ∧
      updated.maps.backendPool =
        poolAfter outcomes 0 (pooled (placedBy outcomes rules))
          lb.maps.backendPool ∧
      updated.maps.lbLomac.values 0 =
        (if outcomes.lomac then
          storeOctets outcomes.garbage (sscanfMac rules.localMac)
          else lb.maps.lbLomac.values 0) ∧
      updated.rules =
        ⟨rules.localMac, installedRules (placedBy outcomes rules)⟩ := by
  simp only [LbBase.onConfigUpdate, hconfig, Except.ok.injEq] at hupdate
  have hspec := installRules_spec outcomes rules.rules
    (lb.clearKernelRules.updateLocalMac outcomes rules.localMac) 0 0 0
  rw [Nat.zero_min, hupdate] at hspec
  have hempty : (lb.clearKernelRules.updateLocalMac outcomes
      rules.localMac).maps.vipBackends = .empty := by
    simp only [LbBase.updateLocalMac, LbBase.clearKernelRules,
      BpfHash.clearCollected_eq_empty]
  have hpool : (lb.clearKernelRules.updateLocalMac outcomes
      rules.localMac).maps.backendPool = lb.maps.backendPool := by
    simp only [LbBase.updateLocalMac, LbBase.clearKernelRules,
      BpfArray.clearCollected_eq]
  rw [hempty] at hspec
  refine ⟨fun key => ?_, ?_, ?_, ?_⟩
  · rw [hspec.vip, hempty, BpfHash.lookupElem_empty, Option.or_none]
    rfl
  · rw [hspec.pool, hpool]
    rfl
  · rw [hspec.lomac, lbLomac_updateLocalMac]
    rfl
  · cases hrules : updated.rules with
    | mk localMac installed =>
        have hlocalMac := hspec.localMac
        have hinstalled := hspec.rules
        rw [hrules] at hlocalMac hinstalled
        simp only at hlocalMac hinstalled
        rw [hlocalMac, hinstalled]
        rfl

end Hebpf.Services.Lb
