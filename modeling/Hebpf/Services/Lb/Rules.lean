import Hebpf.Common.Json
import Hebpf.Common.Libc

namespace Hebpf.Services.Lb

open Hebpf.Common

structure Backends where
  mac : String := ""
  deriving DecidableEq, Repr

def Backends.fromJson (json : Json) : Result Backends := do
  return ⟨← json.fieldOr "mac" "" Json.getString⟩

structure LbRulesElem where
  vip : String := ""
  vport : UInt16 := 0
  backends : List Backends := []
  deriving DecidableEq, Repr

def LbRulesElem.fromJson (json : Json) : Result LbRulesElem := do
  let vip ← json.fieldOr "vip" "" Json.getString
  let vport ← json.fieldOr "vport" 0 Json.getUInt16
  let backends ← json.fieldOr "backends" []
    (Json.getVector Backends.fromJson)
  return { vip, vport, backends }

structure LbRules where
  localMac : String := ""
  rules : List LbRulesElem := []
  deriving DecidableEq, Repr

namespace LbRules

def setLocalMac (lb : LbRules) (localMac : String) : LbRules :=
  { lb with localMac }

def addRules (lb : LbRules) (rule : LbRulesElem) : LbRules :=
  { lb with rules := lb.rules ++ [rule] }

def clearRules (lb : LbRules) : LbRules := { lb with rules := [] }

def fromJson (json : Json) : Result LbRules := do
  let localMac ← json.fieldOr "local_mac" "" Json.getString
  let rules ← json.fieldOr "rules" [] (Json.getVector LbRulesElem.fromJson)
  return { localMac, rules }

end LbRules

end Hebpf.Services.Lb
