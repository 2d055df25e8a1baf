import Hebpf.Data.Locks

namespace Hebpf.Daemon

/-! The producer thread in `Daemon::produceLoop`.  `σ` is what `getService`
gives. -/

inductive DaemonLock where
  | mutex
  | queueMutex
  deriving DecidableEq, Repr

/-- Where the producer is in its loop, with the libraries it has yet to look
up. -/
inductive ProducePoint (σ : Type) where
  | check
  | copying
  | copyLocked
  | looking (libs : List String)
  | polling (service : σ) (rest : List String)
  | queueing (rest : List String)
  | queueLocked (rest : List String)
  | pushing (rest : List String)
  | ended
  deriving DecidableEq, Repr

inductive Polled where
  | empty
  | filled
  | threw
  deriving DecidableEq, Repr

namespace ProducePoint

variable {σ : Type}

def lock : ProducePoint σ → Option DaemonLock
  | .copyLocked => some .mutex
  | .queueLocked _ => some .queueMutex
  | _ => none

/-- The way on, once the lock there is to be had.  What is pushed is no concern
of the locks. -/
def next (running : Bool) (currentEbpf : List String)
    (getService : String → Option σ) (polled : Polled) :
    ProducePoint σ → ProducePoint σ
  | .check => if running then .copying else .ended
  | .copying => .copyLocked
  | .copyLocked => .looking currentEbpf
  | .looking [] => .check
  | .looking (lib :: rest) =>
      match getService lib with
      | none => .looking rest
      | some service => .polling service rest
  | .polling _ rest =>
      match polled with
      | .empty => .looking rest
      | .filled => .queueing rest
      | .threw => .ended
  | .queueing rest => .queueLocked rest
  | .queueLocked rest => .pushing rest
  | .pushing rest => .looking rest
  | .ended => .ended

variable {running : Bool} {currentEbpf : List String}
  {getService : String → Option σ} {polled : Polled}

theorem lock_next_of_lock {point : ProducePoint σ} {held : DaemonLock}
    (hheld : point.lock = some held) :
    (point.next running currentEbpf getService polled).lock = none := by
  cases point with
  | copyLocked => rfl
  | queueLocked rest => rfl
  | _ => cases hheld

theorem getService_of_next {point : ProducePoint σ} {service : σ}
    {rest : List String}
    (hnext : point.next running currentEbpf getService polled =
      .polling service rest) : ∃ lib, getService lib = some service := by
  cases point with
  | looking libs =>
      cases libs with
      | nil => cases hnext
      | cons lib libs =>
          refine ⟨lib, ?_⟩
          rw [next] at hnext
          cases hfound : getService lib with
          | none =>
              rw [hfound] at hnext
              cases hnext
          | some found =>
              rw [hfound] at hnext
              cases hnext
              rfl
  | check =>
      rw [next] at hnext
      split_ifs at hnext
  | polling _ _ => cases polled <;> cases hnext
  | _ => cases hnext

end ProducePoint

end Hebpf.Daemon
