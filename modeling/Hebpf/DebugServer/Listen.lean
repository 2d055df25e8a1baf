import Hebpf.Common.Libc
import Hebpf.Daemon.ConfigsYaml
import Hebpf.Data.Run

namespace Hebpf.DebugServer

open Hebpf.Common Hebpf.Daemon Hebpf.Data

/-- A socket is bound to an address and a port; the serial number tells one
acceptor from another. -/
structure Acceptor (α : Type) where
  serial : Nat
  listening : Option (α × UInt16)
  deriving DecidableEq, Repr

inductive IoContext where
  | expired
  | foreign
  | io
  deriving DecidableEq, Repr

inductive SocketCall where
  | open
  | setOption
  | bind
  | listen
  deriving DecidableEq, Repr

/-- The answers of the sockets to one `start`, and the port that is chosen
where none is asked for. -/
structure Sockets where
  fails : SocketCall → Bool
  anyPort : UInt16

structure Sockets.Succeed (sockets : Sockets) : Prop where
  succeed : ∀ call, sockets.fails call = false
  anyPort : sockets.anyPort ≠ 0

/-- `made` counts the acceptors constructed so far. -/
structure DebugServerState (α : Type) where
  ioctx : IoContext
  acceptor : Option (Acceptor α)
  address : String
  port : UInt16
  running : Bool
  made : Nat
  deriving DecidableEq, Repr

namespace DebugServerState

variable {α : Type}

def new (ioctx : IoContext) : DebugServerState α :=
  ⟨ioctx, none, "", 0, false, 0⟩

def setListen (server : DebugServerState α) (addr : String) (port : UInt16) :
    DebugServerState α :=
  { server with address := addr, port }

def newAcceptor (server : DebugServerState α) : DebugServerState α :=
  { server with
    acceptor := some ⟨server.made, none⟩
    made := server.made + 1 }

def listenOn (server : DebugServerState α) (bound : α × UInt16) :
    DebugServerState α :=
  { server with
    acceptor := server.acceptor.map fun acceptor =>
      { acceptor with listening := some bound } }

/-- `make_address` throws where `makeAddress` gives no address.  Nothing here
sets `running`. -/
def start (makeAddress : String → Option α) (sockets : Sockets)
    (server : DebugServerState α) (address : String) (port : UInt16) :
    Result Bool × DebugServerState α :=
  let server := server.setListen address port
  match server.ioctx with
  | .expired => (.error ⟨"IO context is invalid"⟩, server)
  | .foreign => (.error ⟨"IO context is not io::Io"⟩, server)
  | .io =>
      let server := server.newAcceptor
      match makeAddress server.address with
      | none => (.error ⟨"make_address: Invalid argument"⟩, server)
      | some bound =>
          if sockets.fails .open ∨ sockets.fails .setOption ∨
              sockets.fails .bind ∨ sockets.fails .listen then
            (.ok false, server)
          else
            (.ok true, server.listenOn (bound,
              if server.port = 0 then sockets.anyPort else server.port))

def stop (server : DebugServerState α) : DebugServerState α :=
  if server.running then
    { server with
      running := false
      address := ""
      port := 0
      acceptor := server.acceptor.map fun acceptor =>
        { acceptor with listening := none } }
  else server

def update (makeAddress : String → Option α) (sockets : Sockets)
    (server : DebugServerState α) (config : Configs) :
    Result Unit × DebugServerState α :=
  let restart (server : DebugServerState α) :
      Result Unit × DebugServerState α :=
    match server.start makeAddress sockets config.dbgservAddr
        config.dbgservPort with
    | (.error exc, server) => (.error exc, server)
    | (.ok _, server) => (.ok (), server)
  if server.running then
    if config.dbgservEnabled then
      if config.dbgservAddr ≠ server.address ∨
          config.dbgservPort ≠ server.port then
        restart server.stop
      else (.ok (), server)
    else (.ok (), server.stop)
  else if config.dbgservEnabled then restart server
  else (.ok (), server)

def listening (server : DebugServerState α) : Option (α × UInt16) :=
  server.acceptor.bind Acceptor.listening

structure Delivery where
  config : Configs
  sockets : Sockets

def deliver (makeAddress : String → Option α) (server : DebugServerState α)
    (delivery : Delivery) : DebugServerState α :=
  (server.update makeAddress delivery.sockets delivery.config).2

def endpoint (makeAddress : String → Option α) (config : Configs) :
    Option (α × UInt16) :=
  (makeAddress config.dbgservAddr).map (·, config.dbgservPort)

/-- It listens where the configuration says if it is enabled and nowhere if it
is not, and an acceptor that listened there is left alone. -/
structure Obeys (makeAddress : String → Option α)
    (before after : DebugServerState α) (config : Configs) : Prop where
  enabled : config.dbgservEnabled = true → ∃ bound,
    endpoint makeAddress config = some bound ∧ after.listening = some bound
  disabled : config.dbgservEnabled = false → after.listening = none
  untouched : config.dbgservEnabled = true → before.listening ≠ none →
    before.listening = endpoint makeAddress config →
    after.acceptor = before.acceptor

/-- A configuration that disables the server finds nothing listening; one that
enables it names an endpoint nothing listens on. -/
structure Fits (makeAddress : String → Option α) (before : DebugServerState α)
    (config : Configs) : Prop where
  enabled : config.dbgservEnabled = true → config.dbgservPort ≠ 0 ∧
    ∃ bound, endpoint makeAddress config = some bound ∧
      before.listening ≠ some bound
  disabled : config.dbgservEnabled = false → before.listening = none

structure NeverRunning (server : DebugServerState α) : Prop where
  running : server.running = false
  serial : ∀ acceptor, server.acceptor = some acceptor →
    acceptor.serial < server.made
  ioctx : server.ioctx = .io

theorem new_neverRunning : (new .io : DebugServerState α).NeverRunning where
  running := rfl
  serial := fun _ h => by cases h
  ioctx := rfl

section Step

variable {makeAddress : String → Option α} {server : DebugServerState α}

theorem NeverRunning.start_spec (hserver : server.NeverRunning)
    {sockets : Sockets} (hsockets : sockets.Succeed) (address : String)
    (port : UInt16) :
    let after := (server.start makeAddress sockets address port).2
    after.NeverRunning ∧
      after.acceptor = some ⟨server.made, (makeAddress address).map
        (·, if port = 0 then sockets.anyPort else port)⟩ := by
  obtain ⟨hrunning, -, hio⟩ := hserver
  have hcalls : ¬ (sockets.fails .open ∨ sockets.fails .setOption ∨
      sockets.fails .bind ∨ sockets.fails .listen) := by
    simp [hsockets.succeed]
  simp only [start, setListen, hio, newAcceptor, listenOn, if_neg hcalls]
  cases makeAddress address with
  | none =>
      refine ⟨⟨hrunning, fun acceptor hacceptor => ?_, rfl⟩, rfl⟩
      cases hacceptor
      exact Nat.lt_succ_self _
  | some bound =>
      refine ⟨⟨hrunning, fun acceptor hacceptor => ?_, rfl⟩, rfl⟩
      cases hacceptor
      exact Nat.lt_succ_self _

theorem NeverRunning.deliver_eq (hserver : server.NeverRunning)
    (delivery : Delivery) :
    server.deliver makeAddress delivery =
      if delivery.config.dbgservEnabled then
        (server.start makeAddress delivery.sockets
          delivery.config.dbgservAddr delivery.config.dbgservPort).2
      else server := by
  unfold deliver update
  simp only [hserver.running, Bool.false_eq_true, if_false]
  split_ifs with henabled
  · generalize server.start makeAddress delivery.sockets
      delivery.config.dbgservAddr delivery.config.dbgservPort = answer
    obtain ⟨result, after⟩ := answer
    cases result <;> rfl
  · rfl

theorem NeverRunning.deliver (hserver : server.NeverRunning)
    {delivery : Delivery} (hsockets : delivery.sockets.Succeed) :
    (server.deliver makeAddress delivery).NeverRunning := by
  rw [hserver.deliver_eq]
  split_ifs
  · exact (hserver.start_spec hsockets _ _).1
  · exact hserver

theorem NeverRunning.obeys_iff (hserver : server.NeverRunning)
    {delivery : Delivery} (hsockets : delivery.sockets.Succeed) :
    Obeys makeAddress server (server.deliver makeAddress delivery)
        delivery.config ↔
      Fits makeAddress server delivery.config := by
  obtain ⟨config, sockets⟩ := delivery
  rw [hserver.deliver_eq]
  cases henabled : config.dbgservEnabled with
  | false =>
      simp only [Bool.false_eq_true, if_false]
      constructor
      · intro hobeys
        exact ⟨fun h => by simp [henabled] at h, hobeys.disabled⟩
      · intro hfits
        exact ⟨fun h => by simp [henabled] at h, hfits.disabled,
          fun h => by simp [henabled] at h⟩
  | true =>
      obtain ⟨-, hacceptor⟩ := hserver.start_spec hsockets config.dbgservAddr
        config.dbgservPort
      simp only [if_true]
      generalize (server.start makeAddress sockets config.dbgservAddr
        config.dbgservPort).2 = after at hacceptor ⊢
      have hlistening : after.listening = (makeAddress config.dbgservAddr).map
          (·, if config.dbgservPort = 0 then sockets.anyPort
            else config.dbgservPort) := by
        rw [listening, hacceptor]
        rfl
      constructor
      · intro hobeys
        refine ⟨fun _ => ?_, fun h => by simp [henabled] at h⟩
        obtain ⟨bound, hbound, hafter⟩ := hobeys.enabled henabled
        obtain ⟨address, haddress, rfl⟩ := Option.map_eq_some_iff.mp hbound
        rw [hlistening, haddress, Option.map_some, Option.some.injEq,
          Prod.mk.injEq] at hafter
        refine ⟨fun hzero => ?_, _, hbound, fun hbefore => ?_⟩
        · rw [if_pos hzero, hzero] at hafter
          exact hsockets.anyPort hafter.2
        · -- The acceptor that listened there is not the one just made.
          have huntouched := hobeys.untouched henabled
            (by rw [hbefore]; simp) (hbefore.trans hbound.symm)
          rw [hacceptor] at huntouched
          exact (hserver.serial _ huntouched.symm).false
      · intro hfits
        obtain ⟨hport, bound, hbound, hbefore⟩ := hfits.enabled henabled
        refine ⟨fun _ => ⟨bound, hbound, ?_⟩, fun h => by simp [henabled] at h,
          fun _ _ hsame => absurd (hsame.trans hbound) hbefore⟩
        rw [hlistening, if_neg hport]
        exact hbound

end Step

def begun (makeAddress : String → Option α) :
    Option (Sockets × String × UInt16) → DebugServerState α
  | none => new .io
  | some (sockets, address, port) =>
      ((new .io).start makeAddress sockets address port).2

/-- The server obeys every configuration of a run exactly when each of them
fits what is listening when it is delivered. -/
theorem obeys_throughout_iff (makeAddress : String → Option α)
    (direct : Option (Sockets × String × UInt16)) {deliveries : List Delivery}
    (hdirect : ∀ begin ∈ direct, begin.1.Succeed)
    (hsockets : ∀ delivery ∈ deliveries, delivery.sockets.Succeed) :
    StepsMeet (deliver makeAddress)
        (fun server delivery => Obeys makeAddress server
          (server.deliver makeAddress delivery) delivery.config)
        (begun makeAddress direct) deliveries ↔
      StepsMeet (deliver makeAddress)
        (fun server delivery => Fits makeAddress server delivery.config)
        (begun makeAddress direct) deliveries := by
  have hbegun : (begun makeAddress direct).NeverRunning := by
    cases direct with
    | none => exact new_neverRunning
    | some begin =>
        obtain ⟨sockets, address, port⟩ := begin
        exact (new_neverRunning.start_spec (hdirect _ rfl) address port).1
  exact stepsMeet_iff_stepsMeet
    (fun _ _ hserver hsucceed _ => hserver.deliver hsucceed)
    (fun _ _ hserver hsucceed => hserver.obeys_iff hsucceed) hbegun hsockets

def quiet : Sockets := ⟨fun _ => false, 40000⟩

theorem quiet_succeed : quiet.Succeed := ⟨fun _ => rfl, by decide⟩

def enabling : Delivery := ⟨{ Configs.default with dbgservEnabled := true }, quiet⟩

def disabling : Delivery := ⟨.default, quiet⟩

theorem obeys_throughout_iff_once :
    StepsMeet (deliver inetPton)
        (fun server delivery => Obeys inetPton server
          (server.deliver inetPton delivery) delivery.config)
        (begun inetPton (some (quiet, "127.0.0.1", 9998))) [enabling] ↔
      StepsMeet (deliver inetPton)
        (fun server delivery => Fits inetPton server delivery.config)
        (begun inetPton (some (quiet, "127.0.0.1", 9998))) [enabling] := by
  apply obeys_throughout_iff
  · intro begin hbegin
    cases hbegin
    exact quiet_succeed
  · intro delivery hdelivery
    cases List.mem_singleton.mp hdelivery
    exact quiet_succeed

/-- Disabling the server leaves it listening. -/
theorem not_obeys_disabling :
    ¬ StepsMeet (deliver inetPton)
        (fun server delivery => Obeys inetPton server
          (server.deliver inetPton delivery) delivery.config)
        (begun inetPton none) [enabling, disabling] := by
  rintro ⟨-, hobeys, -⟩
  have hclosed := hobeys.disabled rfl
  revert hclosed
  decide

end DebugServerState

end Hebpf.DebugServer
