import Hebpf.Services.Lb.Kernel
import Hebpf.Services.Lb.Rules

namespace Hebpf.Services.Lb

open Hebpf.Common Hebpf.Data Hebpf.Kernel

def MAX_RULES_SIZE : Nat := 10240

/-- What an update meets outside the code: the bytes of a buffer it does not
initialise, and which map updates the kernel accepts.  Updates of the pool are
numbered by their index, those of the VIP table in the order they are tried. -/
structure Outcomes where
  garbage : Mac
  lomac : Bool
  pool : Nat → Bool
  vip : Nat → Bool

structure Outcomes.AllAccepted (outcomes : Outcomes) : Prop where
  lomac : outcomes.lomac = true
  pool : ∀ index, outcomes.pool index = true
  vip : ∀ attempt, outcomes.vip attempt = true

structure LbBase where
  maps : LbMaps
  rules : LbRules

namespace LbRulesElem

def vipKey? (rule : LbRulesElem) : Option VipKey :=
  (inetPton rule.vip).map fun vip =>
    { vip, vport := htons rule.vport, padding := 0 }

def grouped (rule : LbRulesElem) : List Backends :=
  rule.backends.take MAX_BACKENDS_PER_VIP

end LbRulesElem

abbrev BackendPool := BpfArray BackendInfo TOTAL_BACKENDS

namespace LbBase

def start : LbBase where
  maps := {
    vipBackends := .empty
    backendPool := .fill ⟨Vector.replicate 6 0, 0⟩
    lbLomac := .fill (Vector.replicate 6 0) }
  rules := {}

/-- The kernel refuses no deletion. -/
def clearKernelRules (lb : LbBase) : LbBase where
  maps := { lb.maps with
    vipBackends := lb.maps.vipBackends.clearCollected
    backendPool := lb.maps.backendPool.clearCollected }
  rules := lb.rules.clearRules

/-- `mac` is not initialised; the map is updated whether `sscanf` assigned all
of it or not. -/
def updateLocalMac (outcomes : Outcomes) (lb : LbBase) (localMac : String) :
    LbBase where
  maps := { lb.maps with
    lbLomac :=
      let mac := storeOctets outcomes.garbage (sscanfMac localMac)
      match if outcomes.lomac then lb.maps.lbLomac.updateElem 0 mac
        else none with
      | none => lb.maps.lbLomac
      | some lbLomac => lbLomac }
  rules := lb.rules.setLocalMac localMac

/-- The loop over the backends of one rule, at its `i`th. -/
def placeBackends (outcomes : Outcomes) :
    List Backends → (i poolNext : Nat) → Vector UInt32 MAX_BACKENDS_PER_VIP →
      BackendPool → Vector UInt32 MAX_BACKENDS_PER_VIP × BackendPool × Nat
  | [], _, poolNext, slots, pool => (slots, pool, poolNext)
  | backend :: rest, i, poolNext, slots, pool =>
      if TOTAL_BACKENDS ≤ poolNext then (slots, pool, poolNext)
      else
        match parseMac backend.mac with
        | none => placeBackends outcomes rest (i + 1) (poolNext + 1) slots pool
        | some mac =>
            match if outcomes.pool poolNext then
                pool.updateElem (UInt32.ofNat poolNext) ⟨mac, 0⟩
              else none with
            | none =>
                placeBackends outcomes rest (i + 1) (poolNext + 1) slots pool
            | some updated =>
                placeBackends outcomes rest (i + 1) (poolNext + 1)
                  (slots.setIfInBounds i (UInt32.ofNat poolNext)) updated

def installRules (outcomes : Outcomes) :
    LbBase → List LbRulesElem → (attempt success poolNext : Nat) → LbBase
  | lb, [], _, _, _ => lb
  | lb, rule :: rest, attempt, success, poolNext =>
      match rule.vipKey? with
      | none => installRules outcomes lb rest attempt success poolNext
      | some vkey =>
          let (slots, pool, next) := placeBackends outcomes rule.grouped 0
            poolNext (Vector.replicate MAX_BACKENDS_PER_VIP 0)
            lb.maps.backendPool
          let group : VipGroup :=
            ⟨slots, UInt32.ofNat rule.grouped.length, 0⟩
          let maps := { lb.maps with backendPool := pool }
          match if outcomes.vip attempt then
              maps.vipBackends.updateElem vkey group
            else none with
          | none =>
              installRules outcomes ⟨maps, lb.rules⟩ rest (attempt + 1)
                success next
          | some vipBackends =>
              let installed : LbBase :=
                ⟨{ maps with vipBackends }, lb.rules.addRules rule⟩
              if MAX_RULES_SIZE ≤ success + 1 then installed
              else installRules outcomes installed rest (attempt + 1)
                (success + 1) next

def onConfigUpdate (outcomes : Outcomes) (lb : LbBase) (config : Json) :
    Result LbBase :=
  match LbRules.fromJson config with
  | .error exc => .error ⟨"Invalid LB config: " ++ exc.what⟩
  | .ok lbRules =>
      .ok (installRules outcomes
        (lb.clearKernelRules.updateLocalMac outcomes lbRules.localMac)
        lbRules.rules 0 0 0)

end LbBase

end Hebpf.Services.Lb
