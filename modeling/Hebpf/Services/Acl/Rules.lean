import Hebpf.Common.Json
import Hebpf.Common.Libc

namespace Hebpf.Services.Acl

open Hebpf.Common

def ACL_ANY_IPV4 : String := "0.0.0.0"
def ACL_ANY_PORT : UInt16 := 0

inductive Protocol where
  | tcp
  | udp
  | unknown
  deriving DecidableEq, Repr

inductive Action where
  | drop
  | accept
  | unknown
  deriving DecidableEq, Repr

def Protocol.stringEnum (name : String) : Option Protocol :=
  if name = "TCP" then some tcp
  else if name = "UDP" then some udp
  else if name = "UNKNOWN" then some unknown
  else none

def Action.stringEnum (name : String) : Option Action :=
  if name = "DROP" then some drop
  else if name = "ACCEPT" then some accept
  else if name = "UNKNOWN" then some unknown
  else none

/-- A name that is none of the enum's is `UNKNOWN`. -/
def Protocol.fromJson (json : Json) : Result Protocol := do
  return (stringEnum (← json.getString)).getD .unknown

def Action.fromJson (json : Json) : Result Action := do
  return (stringEnum (← json.getString)).getD .unknown

structure AclRulesElem where
  saddr : String := ACL_ANY_IPV4
  daddr : String := ACL_ANY_IPV4
  sport : UInt16 := ACL_ANY_PORT
  dport : UInt16 := ACL_ANY_PORT
  protocol : Protocol := .tcp
  action : Action := .drop
  deriving DecidableEq, Repr

def AclRulesElem.fromJson (json : Json) : Result AclRulesElem := do
  let default : AclRulesElem := {}
  let saddr ← json.fieldOr "saddr" default.saddr Json.getString
  let daddr ← json.fieldOr "daddr" default.daddr Json.getString
  let sport ← json.fieldOr "sport" default.sport Json.getUInt16
  let dport ← json.fieldOr "dport" default.dport Json.getUInt16
  let protocol ← json.fieldOr "protocol" default.protocol Protocol.fromJson
  let action ← json.fieldOr "action" default.action Action.fromJson
  return { saddr, daddr, sport, dport, protocol, action }

structure AclRules where
  rules : List AclRulesElem := []
  deriving DecidableEq, Repr

def AclRules.addRules (acl : AclRules) (rule : AclRulesElem) : AclRules :=
  ⟨acl.rules ++ [rule]⟩

/-- `from_json(json, AclRules)`: a document without `rules` has none. -/
def AclRules.fromJson (json : Json) : Result AclRules := do
  return ⟨← json.fieldOr "rules" [] (Json.getVector AclRulesElem.fromJson)⟩

end Hebpf.Services.Acl
