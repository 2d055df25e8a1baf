import Hebpf.Services.Lb.Placement
import Mathlib.Data.List.Find

namespace Hebpf.Services.Lb

open Hebpf.Common Hebpf.Data Hebpf.Kernel

/-! Where the load balancer sends a frame after an update. -/

def frameVipKey (frame : Frame) : VipKey where
  vip := ipDaddr frame
  vport := transportDest frame
  padding := 0

theorem hebpfLbXdpGen_of_completeHeaders (maps : LbMaps) {frame : Frame}
    (hframe : CompleteHeaders frame) :
    hebpfLbXdpGen maps frame = balance maps frame (transportDest frame) := by
  have hip : ¬ frame.length < sizeofEthhdr + sizeofIphdr :=
    Nat.not_lt.mpr hframe.header
  have heth : ¬ frame.length < sizeofEthhdr := by omega
  simp only [hebpfLbXdpGen, hframe.ipv4, if_neg hip, if_neg heth, ne_eq,
    not_true_eq_false, if_false]
  rcases hframe.transport with ⟨htcp, hlength⟩ | ⟨hudp, hlength⟩
  · simp [htcp, Nat.not_lt.mpr hlength]
  · have hne : IPPROTO_UDP ≠ IPPROTO_TCP := by decide
    simp [hudp, hne, Nat.not_lt.mpr hlength]

theorem hebpfLbXdpGen_of_not_completeHeaders {frame : Frame}
    (hframe : ¬ CompleteHeaders frame) :
    (∀ maps, hebpfLbXdpGen maps frame = (frame, .ret .pass)) ∨
      ∀ maps, hebpfLbXdpGen maps frame = (frame, .chainNext .pass) := by
  unfold hebpfLbXdpGen
  split_ifs with heth hipv4 hip htcp hshort hudp hshort
  · exact .inl fun _ => rfl
  · exact .inl fun _ => rfl
  · exact .inl fun _ => rfl
  · exact .inl fun _ => rfl
  · exact absurd ⟨⟨not_not.mp hipv4, not_lt.mp hip⟩,
      .inl ⟨htcp, not_lt.mp hshort⟩⟩ hframe
  · exact .inl fun _ => rfl
  · exact absurd ⟨⟨not_not.mp hipv4, not_lt.mp hip⟩,
      .inr ⟨hudp, not_lt.mp hshort⟩⟩ hframe
  · exact .inr fun _ => rfl

theorem balance_of_none {maps : LbMaps} {frame : Frame}
    (hvip : maps.vipBackends.lookupElem (frameVipKey frame) = none) :
    balance maps frame (transportDest frame) = (frame, .chainNext .pass) := by
  have hlookup : maps.vipBackends.lookupElem
      ⟨ipDaddr frame, transportDest frame, 0⟩ = none := hvip
  simp [balance, hlookup]

theorem balance_of_some {maps : LbMaps} {frame : Frame} {group : VipGroup}
    (hvip : maps.vipBackends.lookupElem (frameVipKey frame) = some group) :
    balance maps frame (transportDest frame) =
      if group.count = 0 then (frame, .chainNext .pass)
      else
        match group.backends[(ipSaddr frame).loadWord % group.count.toNat]?
          with
        | none => (frame, .chainNext .pass)
        | some poolIdx =>
            match maps.backendPool.lookupElem poolIdx with
            | none => (frame, .chainNext .pass)
            | some backend =>
                (rewriteMacs frame (maps.lbLomac.values 0) backend.mac,
                  .chainNext .tx) := by
  have hlookup : maps.vipBackends.lookupElem
      ⟨ipDaddr frame, transportDest frame, 0⟩ = some group := hvip
  have hlomac : maps.lbLomac.lookupElem 0 = some (maps.lbLomac.values 0) := rfl
  simp only [balance, hlookup, hlomac]
  rfl

def lastInstalled (placed : List Placement) (vkey : VipKey) :
    Option Placement :=
  (placed.filter Placement.installed).reverse.find? fun placement =>
    placement.vkey = vkey

theorem lastValue_vipEntries (outcomes : Outcomes) (placed : List Placement)
    (vkey : VipKey) :
    lastValue (vipEntries outcomes placed) vkey =
      (lastInstalled placed vkey).map (Placement.group outcomes) := by
  unfold lastValue vipEntries lastInstalled
  rw [← List.map_reverse, List.find?_map, Option.map_map]
  rfl

theorem lastInstalled_mem {placed : List Placement} {vkey : VipKey}
    {placement : Placement}
    (hlast : lastInstalled placed vkey = some placement) :
    placement ∈ placed ∧ placement.vkey = vkey := by
  have hmem := List.mem_reverse.mp (List.mem_of_find?_eq_some hlast)
  exact ⟨(List.mem_filter.mp hmem).1, by simpa using List.find?_some hlast⟩

def lastRule (rules : List LbRulesElem) (vkey : VipKey) :
    Option LbRulesElem :=
  rules.reverse.find? fun rule => rule.vipKey? = some vkey

theorem lastRule_installedRules {placed : List Placement}
    (hplaced : ∀ placement ∈ placed,
      placement.rule.vipKey? = some placement.vkey) (vkey : VipKey) :
    lastRule (installedRules placed) vkey =
      (lastInstalled placed vkey).map Placement.rule := by
  unfold lastRule installedRules lastInstalled
  rw [← List.map_reverse, List.find?_map]
  congr 1
  refine List.find?_congr fun placement hmem => ?_
  have hvkey := hplaced placement
    (List.mem_filter.mp (List.mem_reverse.mp hmem)).1
  simp [hvkey]

theorem poolMac_eq_some {outcomes : Outcomes} {start i : Nat}
    {backends : List Backends} {mac : Mac}
    (hmac : poolMac outcomes start backends (start + i) = some mac) :
    start + i < TOTAL_BACKENDS ∧
      ∃ backend, backends[i]? = some backend ∧
        parseMac backend.mac = some mac := by
  rw [poolMac, if_pos (Nat.le_add_right _ _), Nat.add_sub_cancel_left] at hmac
  obtain ⟨backend, hbackend, hplaced⟩ := Option.bind_eq_some_iff.mp hmac
  unfold placedMac at hplaced
  split_ifs at hplaced with hindex
  exact ⟨hindex.1, backend, hbackend, hplaced⟩

theorem placements_split (outcomes : Outcomes) (rules : List LbRulesElem)
    (attempt success start : Nat) (keys : List VipKey) :
    ∀ placement ∈ placements outcomes rules attempt success start keys,
      placement.rule ∈ rules ∧
      placement.rule.vipKey? = some placement.vkey ∧
      ∃ before after,
        placements outcomes rules attempt success start keys =
            before ++ placement :: after ∧
          placement.start = start + (pooled before).length := by
  induction rules generalizing attempt success start keys with
  | nil => simp [placements]
  | cons rule rest ih =>
      intro placement hmem
      cases hkey : rule.vipKey? with
      | none =>
          simp only [placements, hkey] at hmem ⊢
          obtain ⟨hrule, hrest⟩ := ih _ _ _ _ _ hmem
          exact ⟨.tail _ hrule, hrest⟩
      | some vkey =>
          have hnext : ∀ {head : Placement} {tail : List Placement},
              head.rule = rule →
              (placement.rule ∈ rest ∧
                placement.rule.vipKey? = some placement.vkey ∧
                ∃ before after, tail = before ++ placement :: after ∧
                  placement.start = start + rule.grouped.length +
                    (pooled before).length) →
              placement.rule ∈ rule :: rest ∧
                placement.rule.vipKey? = some placement.vkey ∧
                ∃ before after,
                  head :: tail = before ++ placement :: after ∧
                    placement.start = start + (pooled before).length := by
            rintro head tail hhead
              ⟨hrule, hvkey, before, after, htail, hstart⟩
            refine ⟨.tail _ hrule, hvkey, head :: before, after,
              by rw [htail, List.cons_append], ?_⟩
            rw [hstart, pooled, pooled, List.flatMap_cons, List.length_append,
              hhead, Nat.add_assoc]
          simp only [placements, hkey] at hmem ⊢
          split_ifs at hmem ⊢ with hinstall hlimit
          · obtain rfl := List.mem_singleton.mp hmem
            exact ⟨.head _, hkey, [], [], rfl, rfl⟩
          · rcases List.mem_cons.mp hmem with rfl | hmem
            · exact ⟨.head _, hkey, [], _, rfl, rfl⟩
            · exact hnext rfl (ih _ _ _ _ _ hmem)
          · rcases List.mem_cons.mp hmem with rfl | hmem
            · exact ⟨.head _, hkey, [], _, rfl, rfl⟩
            · exact hnext rfl (ih _ _ _ _ _ hmem)

theorem placedBy_split {outcomes : Outcomes} {rules : LbRules}
    {placement : Placement} (hmem : placement ∈ placedBy outcomes rules) :
    placement.rule ∈ rules.rules ∧
      placement.rule.vipKey? = some placement.vkey ∧
      ∃ before after,
        placedBy outcomes rules = before ++ placement :: after ∧
          placement.start = (pooled before).length := by
  have hsplit := placements_split outcomes rules.rules 0 0 0 [] placement hmem
  simp only [Nat.zero_add] at hsplit
  exact hsplit

theorem poolMac_pooled {outcomes : Outcomes} {placement : Placement}
    {before after : List Placement}
    (hstart : placement.start = (pooled before).length) {i : Nat} {mac : Mac}
    (hmac : poolMac outcomes placement.start placement.rule.grouped
      (placement.start + i) = some mac) :
    poolMac outcomes 0 (pooled (before ++ placement :: after))
      (placement.start + i) = some mac := by
  have hbefore : poolMac outcomes 0 (pooled before) (placement.start + i) =
      none := poolMac_eq_none (.inr (.inl (by omega)))
  have hpooled : pooled (before ++ placement :: after) =
      pooled before ++ (placement.rule.grouped ++ pooled after) := by
    simp [pooled]
  rw [hpooled, poolMac_append, hbefore, Option.none_or, Nat.zero_add,
    ← hstart, poolMac_append, hmac, Option.some_or]

/-- What the pool holds at index zero, where every slot without a backend
points. -/
def zeroMac (outcomes : Outcomes) (placed : List Placement)
    (pool : BackendPool) : Mac :=
  (poolMac outcomes 0 (pooled placed) 0).getD
    (pool.values ⟨0, by decide⟩).mac

def slotMac (outcomes : Outcomes) (placed : List Placement)
    (pool : BackendPool) (placement : Placement) (i : Nat) : Mac :=
  (poolMac outcomes placement.start placement.rule.grouped
    (placement.start + i)).getD (zeroMac outcomes placed pool)

theorem mac_poolAfter (outcomes : Outcomes) (start : Nat)
    (backends : List Backends) (pool : BackendPool)
    (index : Fin TOTAL_BACKENDS) :
    ((poolAfter outcomes start backends pool).values index).mac =
      (poolMac outcomes start backends index).getD (pool.values index).mac := by
  cases hmac : poolMac outcomes start backends index <;>
    simp [poolAfter, hmac]

theorem lookupElem_slotOf {outcomes : Outcomes} {placed : List Placement}
    {placement : Placement} {before after : List Placement}
    (hsplit : placed = before ++ placement :: after)
    (hstart : placement.start = (pooled before).length)
    (pool : BackendPool) (i : Nat) :
    ∃ backend,
      (poolAfter outcomes 0 (pooled placed) pool).lookupElem
          (slotOf outcomes placement.start placement.rule.grouped i) =
        some backend ∧
      backend.mac = slotMac outcomes placed pool placement i := by
  unfold slotOf slotMac
  cases hmac : poolMac outcomes placement.start placement.rule.grouped
      (placement.start + i) with
  | none =>
      refine ⟨_, BpfArray.lookupElem_ofNat _ (by decide) (by decide), ?_⟩
      exact mac_poolAfter outcomes 0 (pooled placed) pool ⟨0, by decide⟩
  | some mac =>
      obtain ⟨hindex, -⟩ := poolMac_eq_some hmac
      refine ⟨_, BpfArray.lookupElem_ofNat _ hindex (by decide), ?_⟩
      rw [mac_poolAfter]
      simp only [hsplit, poolMac_pooled hstart hmac, Option.getD_some]

theorem length_grouped_le (rule : LbRulesElem) :
    rule.grouped.length ≤ MAX_BACKENDS_PER_VIP := by
  simp only [LbRulesElem.grouped, List.length_take]
  omega

theorem toNat_count (outcomes : Outcomes) (placement : Placement) :
    (placement.group outcomes).count.toNat =
      placement.rule.grouped.length := by
  have hlength := length_grouped_le placement.rule
  simp only [MAX_BACKENDS_PER_VIP] at hlength
  simp only [Placement.group, UInt32.toNat_ofNat']
  omega

def hashIndex (frame : Frame) (rule : LbRulesElem) : Nat :=
  (ipSaddr frame).loadWord % rule.grouped.length

section Update

variable {outcomes : Outcomes} {lb updated : LbBase} {config : Json}
  {rules : LbRules}

/-- A frame goes to the backend of the last installed placement for its VIP
that its source address selects, and is left alone where there is none. -/
theorem hebpfLbXdpGen_of_onConfigUpdate
    (hconfig : LbRules.fromJson config = .ok rules)
    (hupdate : lb.onConfigUpdate outcomes config = .ok updated)
    {frame : Frame} (hframe : CompleteHeaders frame) :
    hebpfLbXdpGen updated.maps frame =
      match lastInstalled (placedBy outcomes rules) (frameVipKey frame) with
      | none => (frame, .chainNext .pass)
      | some placement =>
          if placement.rule.grouped = [] then (frame, .chainNext .pass)
          else
            (rewriteMacs frame (updated.maps.lbLomac.values 0)
              (slotMac outcomes (placedBy outcomes rules) lb.maps.backendPool
                placement (hashIndex frame placement.rule)),
              .chainNext .tx) := by
  obtain ⟨hvip, hpool, -, -⟩ := onConfigUpdate_spec hconfig hupdate
  have hlookup := hvip (frameVipKey frame)
  rw [lastValue_vipEntries] at hlookup
  rw [hebpfLbXdpGen_of_completeHeaders _ hframe]
  cases hlast : lastInstalled (placedBy outcomes rules)
      (frameVipKey frame) with
  | none =>
      rw [hlast] at hlookup
      exact balance_of_none hlookup
  | some placement =>
      obtain ⟨hmem, -⟩ := lastInstalled_mem hlast
      obtain ⟨-, -, before, after, hsplit, hstart⟩ := placedBy_split hmem
      rw [hlast] at hlookup
      rw [balance_of_some hlookup, toNat_count]
      by_cases hnil : placement.rule.grouped = []
      · simp [Placement.group, hnil]
      · have hlength : 0 < placement.rule.grouped.length :=
          List.length_pos_iff.mpr hnil
        have hcount : (placement.group outcomes).count ≠ 0 := by
          intro hzero
          have hlength' := toNat_count outcomes placement
          rw [hzero, UInt32.toNat_zero] at hlength'
          omega
        have hindex : hashIndex frame placement.rule < MAX_BACKENDS_PER_VIP :=
          Nat.lt_of_lt_of_le (Nat.mod_lt _ hlength)
            (length_grouped_le placement.rule)
        have hslot : (placement.group outcomes).backends[
            (ipSaddr frame).loadWord % placement.rule.grouped.length]? =
              some (slotOf outcomes placement.start placement.rule.grouped
                (hashIndex frame placement.rule)) := by
          change (placement.group outcomes).backends[
            hashIndex frame placement.rule]? = _
          rw [Vector.getElem?_eq_getElem hindex]
          simp [Placement.group]
        obtain ⟨backend, hbackend, hmac⟩ := @lookupElem_slotOf outcomes _ _ _ _
          hsplit hstart lb.maps.backendPool (hashIndex frame placement.rule)
        simp only [hcount, hnil, if_false, hslot, hpool, hbackend, hmac]

end Update

end Hebpf.Services.Lb
