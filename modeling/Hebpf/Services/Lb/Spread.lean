import Hebpf.Data.Bytes
import Hebpf.Services.Lb.Valid
import Mathlib.Data.Int.CardIntervalMod

namespace Hebpf.Services.Lb

open Hebpf.Common Hebpf.Data Hebpf.Kernel

/-! How a service spreads the addresses of its clients over its backends. -/

/-- A frame as it comes from another client, whose address is loaded as
`word`. -/
def fromClient (frame : Frame) (word : Nat) : Frame :=
  memcpy frame (sizeofEthhdr + 12) (wordBytes 4 word)

variable {frame : Frame}

theorem length_memcpy {offset : Nat} {bytes : List UInt8}
    (hroom : offset + bytes.length ≤ frame.length) :
    (memcpy frame offset bytes).length = frame.length := by
  simp only [memcpy, List.length_append, List.length_take, List.length_drop]
  omega

theorem byteAt_memcpy_outside {offset index : Nat} {bytes : List UInt8}
    (hroom : offset + bytes.length ≤ frame.length)
    (hindex : index < offset ∨ offset + bytes.length ≤ index) :
    byteAt (memcpy frame offset bytes) index = byteAt frame index := by
  have htake : (frame.take offset).length = offset := by
    rw [List.length_take]
    omega
  unfold byteAt memcpy
  rw [List.getD_eq_getElem?_getD, List.getD_eq_getElem?_getD]
  rcases hindex with hbefore | hbehind
  · rw [List.append_assoc, List.getElem?_append_left (by omega),
      List.getElem?_take_of_lt hbefore]
  · rw [List.getElem?_append_right (by
      rw [List.length_append, htake]
      exact hbehind), List.getElem?_drop, List.length_append, htake]
    congr 2
    omega

theorem byteAt_memcpy_within {offset index : Nat} {bytes : List UInt8}
    (hroom : offset + bytes.length ≤ frame.length)
    (hindex : index < bytes.length) :
    byteAt (memcpy frame offset bytes) (offset + index) =
      bytes.getD index 0 := by
  have htake : (frame.take offset).length = offset := by
    rw [List.length_take]
    omega
  unfold byteAt memcpy
  rw [List.getD_eq_getElem?_getD, List.getD_eq_getElem?_getD,
    List.append_assoc, List.getElem?_append_right (by omega), htake,
    Nat.add_sub_cancel_left, List.getElem?_append_left hindex]

section Client

variable (hheader : sizeofEthhdr + sizeofIphdr ≤ frame.length) (word : Nat)
include hheader

theorem length_fromClient : (fromClient frame word).length = frame.length := by
  apply length_memcpy
  rw [length_wordBytes]
  simp only [sizeofEthhdr, sizeofIphdr] at hheader ⊢
  omega

theorem byteAt_fromClient {index : Nat}
    (hindex : index < sizeofEthhdr + 12 ∨ sizeofEthhdr + 16 ≤ index) :
    byteAt (fromClient frame word) index = byteAt frame index := by
  apply byteAt_memcpy_outside
  · rw [length_wordBytes]
    simp only [sizeofEthhdr, sizeofIphdr] at hheader ⊢
    omega
  · rw [length_wordBytes]
    exact hindex

theorem loadWord_fromClient (hword : word < 2 ^ 32) :
    (ipSaddr (fromClient frame word)).loadWord = word := by
  have hbyte : ∀ index < 4,
      byteAt (fromClient frame word) (sizeofEthhdr + 12 + index) =
        (wordBytes 4 word).getD index 0 := by
    intro index hindex
    apply byteAt_memcpy_within
    · rw [length_wordBytes]
      simp only [sizeofEthhdr, sizeofIphdr] at hheader ⊢
      omega
    · rwa [length_wordBytes]
  have hfirst : byteAt (fromClient frame word) (sizeofEthhdr + 12) = _ :=
    hbyte 0 (by decide)
  refine Eq.trans ?_ (@wordValue_wordBytes 4 word hword)
  unfold ipSaddr be32At Be32.loadWord
  simp only [hfirst, hbyte 1 (by decide), hbyte 2 (by decide),
    hbyte 3 (by decide), wordBytes, wordValue, List.getD_cons_zero,
    List.getD_cons_succ]
  omega

end Client

theorem transportFrame_fromClient (hframe : TransportFrame frame)
    (word : Nat) :
    TransportFrame (fromClient frame word) ∧
      frameVipKey (fromClient frame word) = frameVipKey frame := by
  have hheader := hframe.header
  have hihl := hframe.ihl
  have hproto : ethProto (fromClient frame word) = ethProto frame := by
    unfold ethProto be16At
    rw [byteAt_fromClient hheader word (.inl (by decide)),
      byteAt_fromClient hheader word (.inl (by decide))]
  have hsame : ipIhl (fromClient frame word) = ipIhl frame := by
    unfold ipIhl
    rw [byteAt_fromClient hheader word (.inl (by decide))]
  have hprotocol : ipProtocol (fromClient frame word) = ipProtocol frame := by
    unfold ipProtocol
    rw [byteAt_fromClient hheader word (.inl (by decide))]
  have hoffset : transportOffset (fromClient frame word) =
      transportOffset frame := by
    unfold transportOffset
    rw [hsame]
  have hbehind : sizeofEthhdr + 16 ≤ transportOffset frame := by
    simp only [transportOffset]
    omega
  refine ⟨⟨⟨⟨?_, ?_⟩, ?_⟩, ?_⟩, ?_⟩
  · rw [hproto]
    exact hframe.ipv4
  · rw [length_fromClient hheader]
    exact hheader
  · rw [length_fromClient hheader, hprotocol, hoffset]
    exact hframe.transport
  · rw [hsame]
    exact hihl
  · unfold frameVipKey transportDest ipDaddr be16At be32At
    rw [hoffset, byteAt_fromClient hheader word (.inr (by decide)),
      byteAt_fromClient hheader word (.inr (by decide)),
      byteAt_fromClient hheader word (.inr (by decide)),
      byteAt_fromClient hheader word (.inr (by decide)),
      byteAt_fromClient hheader word (.inr (by omega)),
      byteAt_fromClient hheader word (.inr (by omega))]

section Update

variable {outcomes : Outcomes} {lb updated : LbBase} {config : Json}
  {rules : LbRules} {rule : LbRulesElem}

theorem slot_of_mac
    (hnodup : (rule.grouped.map fun backend => parseMac backend.mac).Nodup)
    {i j : Nat} {backend other : Backends}
    (hbackend : rule.grouped[i]? = some backend)
    (hother : rule.grouped[j]? = some other)
    (hmac : parseMac other.mac = parseMac backend.mac) : j = i := by
  obtain ⟨hi, hfirst⟩ := List.getElem?_eq_some_iff.mp hbackend
  obtain ⟨hj, hsecond⟩ := List.getElem?_eq_some_iff.mp hother
  rw [← List.length_map fun backend => parseMac backend.mac] at hi hj
  apply (@List.Nodup.getElem_inj_iff _ _ hnodup j hj i hi).mp
  rw [List.getElem_map, List.getElem_map, hfirst, hsecond, hmac]

theorem ethDest_chosen (houtcomes : outcomes.AllAccepted)
    (hvalid : rules.Valid) (hconfig : LbRules.fromJson config = .ok rules)
    (hupdate : lb.onConfigUpdate outcomes config = .ok updated)
    (hframe : TransportFrame frame)
    (hrule : lastRule rules.rules (frameVipKey frame) = some rule)
    {chosen : Backends}
    (hchosen : rule.grouped[hashIndex frame rule]? = some chosen) :
    ∃ dest, parseMac chosen.mac = some dest ∧
      ethDest (hebpfLbXdpGen updated.maps frame).1 = dest.toList := by
  obtain ⟨source, hsource⟩ := hvalid.localMac
  have hmem : rule ∈ rules.rules :=
    List.mem_reverse.mp (List.mem_of_find?_eq_some hrule)
  obtain ⟨dest, hdest⟩ := hvalid.macs rule hmem _
    (List.mem_of_mem_take (List.mem_of_getElem? hchosen))
  refine ⟨dest, hdest, ?_⟩
  rw [hebpfLbXdpGen_of_valid houtcomes hvalid hconfig hupdate
    hframe.toCompleteHeaders]
  simp only [forwarded, hrule, hchosen, hsource, hdest]
  exact ethDest_rewriteMacs _ _ _

theorem exists_chosen {i : Nat} {backend : Backends}
    (hbackend : rule.grouped[i]? = some backend) (frame : Frame) :
    ∃ chosen, rule.grouped[hashIndex frame rule]? = some chosen := by
  have hindex := (List.getElem?_eq_some_iff.mp hbackend).1
  have hhash : hashIndex frame rule < rule.grouped.length :=
    Nat.mod_lt _ (Nat.zero_lt_of_lt hindex)
  exact ⟨_, List.getElem?_eq_getElem hhash⟩

theorem ethDest_eq_iff (houtcomes : outcomes.AllAccepted)
    (hvalid : rules.Valid) (hconfig : LbRules.fromJson config = .ok rules)
    (hupdate : lb.onConfigUpdate outcomes config = .ok updated)
    (hframe : TransportFrame frame)
    (hrule : lastRule rules.rules (frameVipKey frame) = some rule)
    (hnodup : (rule.grouped.map fun backend => parseMac backend.mac).Nodup)
    {i : Nat} {backend : Backends} {mac : Mac}
    (hbackend : rule.grouped[i]? = some backend)
    (hmac : parseMac backend.mac = some mac) :
    ethDest (hebpfLbXdpGen updated.maps frame).1 = mac.toList ↔
      hashIndex frame rule = i := by
  obtain ⟨chosen, hother⟩ := exists_chosen hbackend frame
  obtain ⟨dest, hdest, hsent⟩ := ethDest_chosen houtcomes hvalid hconfig
    hupdate hframe hrule hother
  rw [hsent, Vector.toList_inj]
  constructor
  · intro hsame
    apply slot_of_mac hnodup hbackend hother
    rw [hdest, hmac, hsame]
  · intro hsame
    rw [hsame, hbackend] at hother
    rw [← Option.some.inj hother, hmac] at hdest
    exact (Option.some.inj hdest).symm

/-- Of the 2^32 addresses a client may have, every backend of a VIP gets an
equal share, up to one address, where no two have one address themselves; and a
client stays with its backend, whatever else is in its frames. -/
theorem spreads_clients (houtcomes : outcomes.AllAccepted)
    (hvalid : rules.Valid) (hconfig : LbRules.fromJson config = .ok rules)
    (hupdate : lb.onConfigUpdate outcomes config = .ok updated)
    (hframe : TransportFrame frame)
    (hrule : lastRule rules.rules (frameVipKey frame) = some rule)
    {i : Nat} {backend : Backends} {mac : Mac}
    (hbackend : rule.grouped[i]? = some backend)
    (hmac : parseMac backend.mac = some mac) :
    ((rule.grouped.map fun backend => parseMac backend.mac).Nodup →
      Nat.count (fun word => ethDest (hebpfLbXdpGen updated.maps
          (fromClient frame word)).1 = mac.toList) (2 ^ 32) =
        2 ^ 32 / rule.grouped.length +
          (if i < 2 ^ 32 % rule.grouped.length then 1 else 0)) ∧
    ∀ other, TransportFrame other → frameVipKey other = frameVipKey frame →
      ipSaddr other = ipSaddr frame →
        ethDest (hebpfLbXdpGen updated.maps other).1 =
          ethDest (hebpfLbXdpGen updated.maps frame).1 := by
  constructor
  · intro hnodup
    have hindex := (List.getElem?_eq_some_iff.mp hbackend).1
    have hshare :=
      Nat.count_modEq_card (2 ^ 32) (Nat.zero_lt_of_lt hindex) i
    rw [Nat.mod_eq_of_lt hindex] at hshare
    rw [← hshare]
    have hiff : ∀ word < 2 ^ 32, ethDest (hebpfLbXdpGen updated.maps
        (fromClient frame word)).1 = mac.toList ↔
          word ≡ i [MOD rule.grouped.length] := by
      intro word hword
      obtain ⟨hclient, hkey⟩ := transportFrame_fromClient hframe word
      rw [← hkey] at hrule
      rw [ethDest_eq_iff houtcomes hvalid hconfig hupdate hclient hrule hnodup
        hbackend hmac, hashIndex, loadWord_fromClient hframe.header word hword,
        Nat.ModEq, Nat.mod_eq_of_lt hindex]
    exact Nat.le_antisymm
      (Nat.count_mono_left fun word hword => (hiff word hword).mp)
      (Nat.count_mono_left fun word hword => (hiff word hword).mpr)
  · intro other hother hkey hsaddr
    have hhash : hashIndex other rule = hashIndex frame rule := by
      rw [hashIndex, hsaddr, hashIndex]
    obtain ⟨chosen, hchosen⟩ := exists_chosen hbackend frame
    obtain ⟨dest, hdest, hsent⟩ := ethDest_chosen houtcomes hvalid hconfig
      hupdate hframe hrule hchosen
    rw [← hkey] at hrule
    rw [← hhash] at hchosen
    obtain ⟨same, hsame, hgoes⟩ := ethDest_chosen houtcomes hvalid hconfig
      hupdate hother hrule hchosen
    rw [hgoes, hsent, Option.some.inj (hsame.symm.trans hdest)]

end Update

/-- Two backends halve the addresses. -/
theorem spreads_clients_vipFrame :
    Nat.count (fun word => ethDest (hebpfLbXdpGen lbBalanced.maps
      (fromClient vipFrame word)).1 = [2, 0, 0, 0, 0, 0x0b]) (2 ^ 32) =
        2 ^ 31 := by
  have hupdate : LbBase.start.onConfigUpdate allAccepted balancedConfig =
      .ok lbBalanced := by
    have hconfig : LbRules.fromJson balancedConfig = .ok balancedRules := rfl
    simp only [LbBase.onConfigUpdate, hconfig, clearKernelRules_start]
    rfl
  exact (@spreads_clients vipFrame allAccepted .start lbBalanced
    balancedConfig balancedRules _ ⟨rfl, fun _ => rfl, fun _ => rfl⟩
    balancedRules_valid rfl hupdate ⟨completeHeaders_vipFrame, by decide⟩ rfl
    1 ⟨"02:00:00:00:00:0b"⟩ #v[2, 0, 0, 0, 0, 0x0b] rfl (by decide)).1
      (by decide)

end Hebpf.Services.Lb
