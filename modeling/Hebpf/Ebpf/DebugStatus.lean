import Hebpf.Common.Json
import Hebpf.Ebpf.PinLives
import Hebpf.Ebpf.PinnedProgMap
import Hebpf.Services.Acl.Base
import Hebpf.Services.Lb.Base

namespace Hebpf.Ebpf

open Hebpf.Common Hebpf.Daemon Hebpf.Kernel Hebpf.Services.Acl
  Hebpf.Services.Lb

/-! What the debug server shows of the pinned maps, and the other walks over
hashes. -/

def formatHex (key : ChainKey) : String :=
  "0x" ++ String.ofList (Nat.toDigits 16 key.toNat)

theorem digitChar_inj : ∀ first < 16, ∀ second < 16,
    Nat.digitChar first = Nat.digitChar second → first = second := by
  decide

theorem toDigits_injective : Function.Injective (Nat.toDigits 16) := by
  intro first
  induction first using Nat.strongRecOn with
  | ind first ih =>
      intro second hequal
      rw [Nat.toDigits_eq_if (n := first) (by decide),
        Nat.toDigits_eq_if (n := second) (by decide)] at hequal
      have hlast := Nat.mod_lt first (show 0 < 16 by decide)
      have hlast' := Nat.mod_lt second (show 0 < 16 by decide)
      split_ifs at hequal with hsmall hsmall' hsmall'
      · exact digitChar_inj _ hsmall _ hsmall' (List.cons.inj hequal).1
      · simpa [Nat.toDigits_ne_nil] using congrArg List.length hequal
      · simpa [Nat.toDigits_ne_nil] using congrArg List.length hequal
      · obtain ⟨hinit, hdigit⟩ := List.append_inj' hequal rfl
        have hdiv := ih (first / 16) (by omega) hinit
        have hmod := digitChar_inj _ hlast _ hlast' (List.cons.inj hdigit).1
        omega

theorem formatHex_injective : Function.Injective formatHex := by
  intro first second hequal
  have hdigits : Nat.toDigits 16 first.toNat = Nat.toDigits 16 second.toNat := by
    simpa [formatHex, String.ext_iff] using hequal
  exact BitVec.eq_of_toNat_eq (toDigits_injective hdigits)

structure EbpfHashElem where
  key : String
  value : UInt32
  deriving DecidableEq, Repr

def EbpfHashElem.toJson (elem : EbpfHashElem) : Json :=
  .object [("key", .string elem.key), ("value", .number elem.value.toNat)]

namespace PinnedProgMap

variable {π : Type}

def hashElem? (idhash : Idhash) (key : ChainKey) : Option EbpfHashElem :=
  (idhash.lookupElem key).map fun index => ⟨formatHex key, index⟩

/-- The loop over the id hash.  The answer is `none` when `fuel` runs out
before the walk ends. -/
def listHash (idhash : Idhash) :
    Nat → ChainKey → Option (List EbpfHashElem)
  | 0, _ => none
  | fuel + 1, key64 =>
      match idhash.getNextKey (some key64) with
      | none => some []
      | some nextKey64 =>
          match hashElem? idhash nextKey64 with
          | none => listHash idhash fuel nextKey64
          | some elem => (listHash idhash fuel nextKey64).map (elem :: ·)

theorem listHash_eq_map {idhash : Idhash} (fuel : Nat) (key64 : ChainKey) :
    listHash idhash fuel key64 =
      (idhash.collectKeys fuel (some key64)).map
        (List.filterMap (hashElem? idhash)) := by
  induction fuel generalizing key64 with
  | zero => rfl
  | succ fuel ih =>
      simp only [listHash, BpfHash.collectKeys]
      cases idhash.getNextKey (some key64) with
      | none => rfl
      | some next =>
          simp only [ih]
          cases helem : hashElem? idhash next <;>
            cases idhash.collectKeys fuel (some next) <;> simp [helem]

theorem listHash_eq {idhash : Idhash} {fuel : Nat} (hzero : 0 ∉ idhash.keys)
    (hfuel : idhash.keys.length < fuel) :
    listHash idhash fuel 0 =
      some (idhash.keys.filterMap (hashElem? idhash)) := by
  rw [listHash_eq_map, BpfHash.collectKeys_absent hzero hfuel, Option.map_some]

theorem mem_filterMap_hashElem? {idhash : Idhash} {elem : EbpfHashElem} :
    elem ∈ idhash.keys.filterMap (hashElem? idhash) ↔
      ∃ key index, idhash.lookupElem key = some index ∧
        elem = ⟨formatHex key, index⟩ := by
  simp only [List.mem_filterMap, hashElem?, Option.map_eq_some_iff]
  constructor
  · rintro ⟨key, -, index, hlookup, rfl⟩
    exact ⟨key, index, hlookup, rfl⟩
  · rintro ⟨key, index, hlookup, rfl⟩
    refine ⟨key, ?_, index, hlookup, rfl⟩
    exact BpfHash.lookupElem_isSome_iff.mp (by simp [hlookup])

theorem nodup_filterMap_hashElem? (idhash : Idhash) :
    (idhash.keys.filterMap (hashElem? idhash)).Nodup := by
  refine idhash.keys_nodup.filterMap fun key key' elem helem helem' => ?_
  obtain ⟨index, -, rfl⟩ := Option.map_eq_some_iff.mp helem
  obtain ⟨index', -, hequal⟩ := Option.map_eq_some_iff.mp helem'
  exact formatHex_injective (congrArg EbpfHashElem.key hequal).symm

/-- The loop over the program array, where a program is its id.  An empty slot
cannot be looked up. -/
def listArray (progId : π → UInt32)
    (parray : BpfArray (Option π) MAX_CHAIN_PROGS) : List UInt32 :=
  (List.range MAX_CHAIN_PROGS).filterMap fun key =>
    (parray.lookupElem (UInt32.ofNat key)).join.bind fun prog =>
      if progId prog ≠ 0 then some (progId prog) else none

def hashStatus (idhash : Idhash) : Json :=
  let hash := (listHash idhash (idhash.keys.length + 1) 0).getD []
  .object [("hash", .array (hash.map EbpfHashElem.toJson))]

def arrayStatus (progId : π → UInt32)
    (parray : BpfArray (Option π) MAX_CHAIN_PROGS) : Json :=
  .object [("array", .array ((listArray progId parray).map fun prog =>
    .number prog.toNat))]

def getDebugStatus (progId : π → UInt32) (chain : PinnedProgMap π) : Json :=
  let fields := [HookType.tc, .xdpGeneric].flatMap fun hook =>
    match chain.hookMaps hook, mapNames hook with
    | some maps, some (progArrayName, idToIndexName) =>
        [(getPinPath idToIndexName, hashStatus maps.idhash),
          (getPinPath progArrayName, arrayStatus progId maps.parray)]
    | _, _ => []
  if fields = [] then .null else .object fields

theorem hashStatus_eq {idhash : Idhash} (hzero : 0 ∉ idhash.keys) :
    hashStatus idhash = .object [("hash", .array
      ((idhash.keys.filterMap (hashElem? idhash)).map
        EbpfHashElem.toJson))] := by
  simp only [hashStatus, listHash_eq hzero (Nat.lt_succ_self _),
    Option.getD_some]

theorem field_getDebugStatus (progId : π → UInt32) {chain : PinnedProgMap π}
    {hook : HookType} {maps : ChainMaps π} {names : String × String}
    (hmaps : chain.hookMaps hook = some maps)
    (hnames : names ∈ mapNames hook) :
    (chain.getDebugStatus progId).field? (getPinPath names.2) =
      some (hashStatus maps.idhash) := by
  cases hook <;> cases hnames
  · simp [getDebugStatus, hmaps, mapNames, Json.field?]
  · cases htc : chain.hookMaps .tc with
    | none => simp [getDebugStatus, hmaps, htc, mapNames, Json.field?]
    | some others =>
        simp [getDebugStatus, hmaps, htc, mapNames, Json.field?,
          List.lookup_cons, getPinPath_inj, beq_eq_decide]

/-- Every walk with `bpf_map_get_next_key` ends: the hashes that are to be
cleared are empty, and the debug status lists each entry of an id hash once. -/
theorem walks_end (progId : π → UInt32) :
    (∀ idhash : Idhash, 0 ∉ idhash.keys →
      (∀ fuel, idhash.keys.length < fuel →
        idhash.deleteIterating fuel 0 = some .empty) ∧
      clearIdhash idhash = .empty) ∧
    (∀ acl : AclBase,
      (∀ fuel, acl.krules.keys.length < fuel →
        acl.krules.collectKeys fuel none = some acl.krules.keys) ∧
      acl.clearKernelRules.krules = .empty) ∧
    (∀ lb : LbBase,
      (∀ fuel, lb.maps.vipBackends.keys.length < fuel →
        lb.maps.vipBackends.collectKeys fuel none =
          some lb.maps.vipBackends.keys) ∧
      lb.clearKernelRules.maps.vipBackends = .empty) ∧
    ∀ (chain : PinnedProgMap π) hook maps,
      chain.hookMaps hook = some maps → 0 ∉ maps.idhash.keys →
      ∀ names ∈ mapNames hook, ∃ elems : List EbpfHashElem,
        (∀ fuel, maps.idhash.keys.length < fuel →
          listHash maps.idhash fuel 0 = some elems) ∧
        (chain.getDebugStatus progId).field? (getPinPath names.2) =
          some (.object [("hash", .array (elems.map EbpfHashElem.toJson))]) ∧
        elems.Nodup ∧
        ∀ elem, elem ∈ elems ↔ ∃ key index,
          maps.idhash.lookupElem key = some index ∧
            elem = ⟨formatHex key, index⟩ := by
  refine ⟨fun idhash hzero => ⟨?_, ?_⟩, fun acl => ⟨?_, ?_⟩,
    fun lb => ⟨?_, ?_⟩, fun chain hook maps hmaps hzero names hnames => ?_⟩
  · exact fun fuel hfuel => BpfHash.deleteIterating_eq_empty hzero hfuel
  · rw [clearIdhash, BpfHash.deleteIterating_eq_empty hzero
      (Nat.lt_succ_self _), Option.getD_some]
  · exact fun fuel hfuel => BpfHash.collectKeys_start hfuel
  · exact acl.krules.clearCollected_eq_empty
  · exact fun fuel hfuel => BpfHash.collectKeys_start hfuel
  · exact lb.maps.vipBackends.clearCollected_eq_empty
  · exact ⟨_, fun fuel hfuel => listHash_eq hzero hfuel,
      (field_getDebugStatus progId hmaps hnames).trans
        (congrArg some (hashStatus_eq hzero)),
      nodup_filterMap_hashElem? maps.idhash,
      fun elem => mem_filterMap_hashElem?⟩

end PinnedProgMap

end Hebpf.Ebpf
