import Hebpf.Daemon.Producer
import Hebpf.Data.Run

namespace Hebpf.Daemon

open Hebpf.Data

/-! `Daemon::stop`, called from threads `τ`, against the producer thread: every
interleaving of their steps. -/

/-- Where a thread is in `stop`, with the libraries it has yet to unload. -/
inductive StopPoint where
  | outside
  | checked
  | stored
  | unloading (libs : List String)
  | unloadLocked (lib : String) (rest : List String)
  | unloaded (rest : List String)
  | cleared
  | queueLocked
  | joining
  | joined
  deriving DecidableEq, Repr

def StopPoint.lock : StopPoint → Option DaemonLock
  | .unloadLocked _ _ | .unloaded _ => some .mutex
  | .queueLocked | .joining | .joined => some .queueMutex
  | _ => none

def StopPoint.left : StopPoint → Option (List String)
  | .unloading libs => some libs
  | .unloadLocked lib rest => some (lib :: rest)
  | .unloaded rest => some rest
  | .cleared | .queueLocked | .joining | .joined => some []
  | _ => none

def ProducePoint.waitsFor {σ : Type} : ProducePoint σ → Option DaemonLock
  | .copying => some .mutex
  | .queueing _ => some .queueMutex
  | _ => none

def ProducePoint.queues {σ : Type} : ProducePoint σ → Bool
  | .polling _ _ | .queueing _ => true
  | _ => false

inductive DaemonThread (τ : Type) where
  | stop (thread : τ)
  | producer
  deriving DecidableEq

/-- One step of a thread.  `throws` is whether unloading does, where it is
called. -/
inductive StopAction (τ : Type) where
  | stop (thread : τ) (throws : Bool)
  | produce (polled : Polled)

/-- `loaded` are the paths the loader has services under. -/
structure StopProducer (τ : Type) where
  running : Bool
  owner : DaemonLock → Option (DaemonThread τ)
  loaded : List String
  currentEbpf : List String
  producerThread : Bool
  stops : τ → StopPoint
  producer : ProducePoint String

namespace StopProducer

variable {τ : Type}

def start (loaded currentEbpf : List String) : StopProducer τ where
  running := true
  owner _ := none
  loaded := loaded
  currentEbpf := currentEbpf
  producerThread := true
  stops _ := .outside
  producer := .check

def getService (state : StopProducer τ) (lib : String) : Option String :=
  if lib ∈ state.loaded then some lib else none

/-- What a thread in `stop` does where it is, and where it goes on, once the
lock there is to be had.  `none` is a thread that waits in `join`. -/
def stopNext (state : StopProducer τ) (throws : Bool) :
    StopPoint → Option (StopProducer τ × StopPoint)
  | .outside => some (state, if state.running then .checked else .outside)
  | .checked => some ({ state with running := false }, .stored)
  | .stored => some (state, .unloading state.loaded)
  | .unloading (lib :: rest) => some (state, .unloadLocked lib rest)
  | .unloadLocked lib rest =>
      if throws then some (state, .outside)
      else some ({ state with loaded := state.loaded.filter (· ≠ lib) },
        .unloaded rest)
  | .unloaded rest => some (state, .unloading rest)
  | .unloading [] => some ({ state with currentEbpf := [] }, .cleared)
  | .cleared => some (state, .queueLocked)
  | .queueLocked =>
      some (state, if state.producerThread then .joining else .joined)
  | .joining =>
      match state.producer with
      | .ended => some ({ state with producerThread := false }, .joined)
      | _ => none
  | .joined => some (state, .outside)

def moveStop [DecidableEq τ] (state : StopProducer τ) (thread : τ)
    (throws : Bool) : Option (StopProducer τ) :=
  (state.stopNext throws (state.stops thread)).bind fun (changed, point) =>
    (passLock state.owner (.stop thread) (state.stops thread).lock
      point.lock).map fun owner =>
        { changed with
          owner
          stops := Function.update changed.stops thread point }

def moveProducer (state : StopProducer τ) (polled : Polled) :
    Option (StopProducer τ) :=
  let point := state.producer.next state.running state.currentEbpf
    state.getService polled
  (passLock state.owner .producer state.producer.lock point.lock).map
    fun owner => { state with owner, producer := point }

def move [DecidableEq τ] (state : StopProducer τ) :
    StopAction τ → Option (StopProducer τ)
  | .stop thread throws => state.moveStop thread throws
  | .produce polled => state.moveProducer polled

def step [DecidableEq τ] (state : StopProducer τ) (action : StopAction τ) :
    StopProducer τ :=
  (state.move action).getD state

/-- A thread waits in `stop` for the producer to end, and the producer for a
lock that thread holds. -/
def Deadlocked (state : StopProducer τ) : Prop :=
  ∃ thread lock, state.stops thread = .joining ∧
    state.owner lock = some (.stop thread) ∧
    state.producer.waitsFor = some lock

/-- A thread that is about to join the producer finds it between services. -/
def BetweenServices (state : StopProducer τ) (action : StopAction τ) : Prop :=
  ∀ thread throws, action = .stop thread throws →
    state.stops thread = .queueLocked → state.producerThread = true →
      state.producer.queues = false

def lockOf (state : StopProducer τ) : DaemonThread τ → Option DaemonLock
  | .stop thread => (state.stops thread).lock
  | .producer => state.producer.lock

abbrev Locked (state : StopProducer τ) : Prop := Owned state.owner state.lockOf

theorem start_locked (loaded currentEbpf : List String) :
    (start loaded currentEbpf : StopProducer τ).Locked := by
  intro lock thread
  cases thread <;> simp [start, lockOf, StopPoint.lock, ProducePoint.lock]

section Step

variable {state after changed : StopProducer τ} {point next : StopPoint}
  {throws : Bool}

theorem lock_of_stopNext
    (hnext : state.stopNext throws point = some (changed, next))
    {lock other : DaemonLock} (hheld : point.lock = some lock)
    (hafter : next.lock = some other) : lock = other := by
  cases point with
  | unloadLocked lib rest =>
      rw [stopNext] at hnext
      split_ifs at hnext <;> cases hnext <;> cases hheld <;> cases hafter
      rfl
  | unloaded rest =>
      cases hnext
      cases hafter
  | queueLocked =>
      rw [stopNext, Option.some.injEq, Prod.mk.injEq] at hnext
      rw [← hnext.2] at hafter
      split_ifs at hafter <;> cases hheld <;> cases hafter <;> rfl
  | joining =>
      rw [stopNext] at hnext
      split at hnext <;> cases hnext
      cases hheld
      cases hafter
      rfl
  | joined =>
      cases hnext
      cases hafter
  | _ => cases hheld

theorem stopNext_frame
    (hnext : state.stopNext throws point = some (changed, next)) :
    changed.producer = state.producer ∧ changed.stops = state.stops ∧
      ∀ lib ∈ changed.loaded, lib ∈ state.loaded := by
  have hall : ∀ lib ∈ state.loaded, lib ∈ state.loaded := fun _ => id
  cases point with
  | unloading libs =>
      cases libs <;>
        · cases hnext
          exact ⟨rfl, rfl, hall⟩
  | unloadLocked lib rest =>
      rw [stopNext] at hnext
      split_ifs at hnext <;> cases hnext
      · exact ⟨rfl, rfl, hall⟩
      · exact ⟨rfl, rfl, fun other hother => (List.mem_filter.mp hother).1⟩
  | joining =>
      rw [stopNext] at hnext
      split at hnext <;> cases hnext
      exact ⟨rfl, rfl, hall⟩
  | _ =>
      cases hnext
      exact ⟨rfl, rfl, hall⟩

theorem left_of_stopNext
    (hnext : state.stopNext throws point = some (changed, next))
    (hbefore : ∀ libs, point.left = some libs →
      ∀ lib ∈ state.loaded, lib ∈ libs)
    {libs : List String} (hleft : next.left = some libs) :
    ∀ lib ∈ changed.loaded, lib ∈ libs := by
  cases point with
  | outside =>
      rw [stopNext, Option.some.injEq, Prod.mk.injEq] at hnext
      rw [← hnext.2] at hleft
      split_ifs at hleft <;> cases hleft
  | checked =>
      cases hnext
      cases hleft
  | stored =>
      cases hnext
      cases hleft
      exact fun _ => id
  | unloading libs =>
      cases libs <;>
        · cases hnext
          cases hleft
          exact hbefore _ rfl
  | unloadLocked lib rest =>
      rw [stopNext] at hnext
      split_ifs at hnext <;> cases hnext <;> cases hleft
      intro other hother
      obtain ⟨hmem, hne⟩ := List.mem_filter.mp hother
      rcases List.mem_cons.mp (hbefore _ rfl other hmem) with heq | hrest
      · exact absurd heq (of_decide_eq_true hne)
      · exact hrest
  | unloaded rest =>
      cases hnext
      cases hleft
      exact hbefore _ rfl
  | cleared =>
      cases hnext
      cases hleft
      exact hbefore _ rfl
  | queueLocked =>
      rw [stopNext, Option.some.injEq, Prod.mk.injEq] at hnext
      rw [← hnext.1]
      rw [← hnext.2] at hleft
      split_ifs at hleft <;> cases hleft <;> exact hbefore _ rfl
  | joining =>
      rw [stopNext] at hnext
      split at hnext <;> cases hnext
      cases hleft
      exact hbefore _ rfl
  | joined =>
      cases hnext
      cases hleft

theorem joining_of_stopNext
    (hnext : state.stopNext throws point = some (changed, .joining)) :
    point = .queueLocked ∧ state.producerThread = true := by
  cases point with
  | outside =>
      rw [stopNext, Option.some.injEq, Prod.mk.injEq] at hnext
      obtain ⟨-, hjoining⟩ := hnext
      split_ifs at hjoining
  | unloading libs => cases libs <;> cases hnext
  | unloadLocked lib rest =>
      rw [stopNext] at hnext
      split_ifs at hnext <;> cases hnext
  | queueLocked =>
      rw [stopNext, Option.some.injEq, Prod.mk.injEq] at hnext
      obtain ⟨-, hjoining⟩ := hnext
      split_ifs at hjoining with hthread
      exact ⟨rfl, hthread⟩
  | joining =>
      rw [stopNext] at hnext
      split at hnext <;> cases hnext
  | _ => cases hnext

variable [DecidableEq τ]

theorem moveStop_eq_some {thread : τ}
    (hmove : state.moveStop thread throws = some after) :
    ∃ changed point owner,
      state.stopNext throws (state.stops thread) = some (changed, point) ∧
      passLock state.owner (.stop thread) (state.stops thread).lock
        point.lock = some owner ∧
      after = { changed with
        owner
        stops := Function.update state.stops thread point } := by
  obtain ⟨⟨changed, point⟩, hnext, hrest⟩ := Option.bind_eq_some_iff.mp hmove
  obtain ⟨owner, hpass, rfl⟩ := Option.map_eq_some_iff.mp hrest
  obtain ⟨-, hstops, -⟩ := stopNext_frame hnext
  exact ⟨changed, point, owner, hnext, hpass, by rw [hstops]⟩

theorem Locked.moveStop (hlocked : state.Locked) {thread : τ}
    (hmove : state.moveStop thread throws = some after) : after.Locked := by
  obtain ⟨changed, point, owner, hnext, hpass, rfl⟩ := moveStop_eq_some hmove
  obtain ⟨hproducer, -, -⟩ := stopNext_frame hnext
  have hkeeps : ∀ lock other, state.lockOf (.stop thread) = some lock →
      point.lock = some other → lock = other :=
    fun lock other => lock_of_stopNext hnext
  have hpassed := hlocked.pass hkeeps hpass
  intro lock other
  rw [hpassed]
  cases other with
  | stop other =>
      by_cases heq : other = thread
      · subst heq
        simp [lockOf]
      · simp [lockOf, heq]
  | producer => simp [lockOf, hproducer]

theorem Locked.moveProducer (hlocked : state.Locked) {polled : Polled}
    (hmove : state.moveProducer polled = some after) : after.Locked := by
  obtain ⟨owner, hpass, rfl⟩ := Option.map_eq_some_iff.mp hmove
  have hpassed := hlocked.pass (fun lock other hheld hafter => by
    rw [ProducePoint.lock_next_of_lock hheld] at hafter
    cases hafter) hpass
  intro lock other
  rw [hpassed]
  cases other <;> simp [lockOf]

theorem Locked.step (hlocked : state.Locked) (action : StopAction τ) :
    (state.step action).Locked := by
  unfold StopProducer.step
  cases hmove : state.move action with
  | none => exact hlocked
  | some after =>
      cases action with
      | stop thread throws => exact hlocked.moveStop hmove
      | produce polled => exact hlocked.moveProducer hmove

end Step

/-- What a thread in `stop` has not unloaded yet is all that is loaded, and the
producer that is joined has nothing to queue. -/
structure Quiet (state : StopProducer τ) : Prop where
  locked : state.Locked
  left : ∀ thread libs, (state.stops thread).left = some libs →
    ∀ lib ∈ state.loaded, lib ∈ libs
  queues : ∀ thread, state.stops thread = .joining →
    state.producer.queues = false

theorem start_quiet (loaded currentEbpf : List String) :
    (start loaded currentEbpf : StopProducer τ).Quiet where
  locked := start_locked loaded currentEbpf
  left := by simp [start, StopPoint.left]
  queues := by simp [start]

namespace Quiet

variable {state after : StopProducer τ}

theorem not_deadlocked (hquiet : state.Quiet) : ¬ state.Deadlocked := by
  rintro ⟨thread, lock, hjoining, howner, hwaits⟩
  have hlock := (hquiet.locked lock (.stop thread)).mp howner
  rw [lockOf, hjoining, StopPoint.lock, Option.some.injEq] at hlock
  subst hlock
  have hqueues := hquiet.queues thread hjoining
  cases hpoint : state.producer <;>
    simp [hpoint, ProducePoint.waitsFor, ProducePoint.queues] at hwaits hqueues

theorem getService_eq_none (hquiet : state.Quiet) {thread : τ}
    (hjoining : state.stops thread = .joining) (lib : String) :
    state.getService lib = none := by
  refine if_neg fun hlib => ?_
  have hmem := hquiet.left thread [] (by rw [hjoining]; rfl) lib hlib
  cases hmem

theorem queues_next (hquiet : state.Quiet) {thread : τ}
    (hjoining : state.stops thread = .joining) (polled : Polled) :
    (state.producer.next state.running state.currentEbpf state.getService
      polled).queues = false := by
  have hqueues := hquiet.queues thread hjoining
  cases hpoint : state.producer with
  | check =>
      rw [ProducePoint.next]
      split_ifs <;> rfl
  | looking libs =>
      cases libs with
      | nil => rfl
      | cons lib rest =>
          rw [ProducePoint.next, hquiet.getService_eq_none hjoining]
          rfl
  | polling service rest =>
      rw [hpoint] at hqueues
      cases hqueues
  | queueing rest =>
      rw [hpoint] at hqueues
      cases hqueues
  | _ => rfl

variable [DecidableEq τ]

theorem moveStop (hquiet : state.Quiet) {thread : τ} {throws : Bool}
    (hbetween : state.BetweenServices (.stop thread throws))
    (hmove : state.moveStop thread throws = some after) : after.Quiet := by
  have hlocked := hquiet.locked.moveStop hmove
  obtain ⟨changed, point, owner, hnext, -, rfl⟩ := moveStop_eq_some hmove
  obtain ⟨hproducer, -, hloaded⟩ := stopNext_frame hnext
  refine ⟨hlocked, fun other libs hleft lib hlib => ?_,
    fun other hjoining => ?_⟩
  · by_cases heq : other = thread
    · subst heq
      simp only [Function.update_self] at hleft
      exact left_of_stopNext hnext (hquiet.left other) hleft lib hlib
    · simp only [Function.update_of_ne heq] at hleft
      exact hquiet.left other libs hleft lib (hloaded lib hlib)
  · simp only [hproducer]
    by_cases heq : other = thread
    · subst heq
      simp only [Function.update_self] at hjoining
      subst hjoining
      obtain ⟨hpoint, hthread⟩ := joining_of_stopNext hnext
      exact hbetween other throws rfl hpoint hthread
    · simp only [Function.update_of_ne heq] at hjoining
      exact hquiet.queues other hjoining

theorem step (hquiet : state.Quiet) {action : StopAction τ}
    (hbetween : state.BetweenServices action) :
    (state.step action).Quiet := by
  unfold StopProducer.step
  cases hmove : state.move action with
  | none => exact hquiet
  | some after =>
      cases action with
      | stop thread throws => exact hquiet.moveStop hbetween hmove
      | produce polled =>
          have hlocked := hquiet.locked.moveProducer hmove
          obtain ⟨owner, -, rfl⟩ := Option.map_eq_some_iff.mp hmove
          exact ⟨hlocked, hquiet.left, fun thread hjoining =>
            hquiet.queues_next hjoining polled⟩

end Quiet

variable [DecidableEq τ]

theorem Deadlocked.step {state : StopProducer τ} (hlocked : state.Locked)
    (hdeadlocked : state.Deadlocked) (action : StopAction τ) :
    (state.step action).Deadlocked := by
  obtain ⟨thread, lock, hjoining, howner, hwaits⟩ := hdeadlocked
  have hlock := (hlocked lock (.stop thread)).mp howner
  unfold StopProducer.step
  cases hmove : state.move action with
  | none => exact ⟨thread, lock, hjoining, howner, hwaits⟩
  | some after =>
      cases action with
      | stop other throws =>
          have hafter := hlocked.moveStop hmove
          obtain ⟨changed, point, owner, hnext, -, rfl⟩ :=
            moveStop_eq_some hmove
          obtain ⟨hproducer, -, -⟩ := stopNext_frame hnext
          -- The thread that joins has to wait itself.
          have hother : thread ≠ other := by
            rintro rfl
            rw [hjoining, stopNext] at hnext
            split at hnext
            · rename_i hended
              rw [hended] at hwaits
              cases hwaits
            · cases hnext
          have hsame : Function.update state.stops other point thread =
              state.stops thread := Function.update_of_ne hother ..
          refine ⟨thread, lock, hsame.trans hjoining, ?_, ?_⟩
          · refine (hafter lock (.stop thread)).mpr ?_
            simp only [lockOf, hsame]
            exact hlock
          · rw [Option.getD_some, hproducer]
            exact hwaits
      | produce polled =>
          obtain ⟨taken, hpass, -⟩ := Option.map_eq_some_iff.mp hmove
          cases hpoint : state.producer <;> rw [hpoint] at hwaits <;>
            cases hwaits <;>
            simp [hpoint, ProducePoint.next, ProducePoint.lock, passLock,
              howner] at hpass

theorem deadlocked_of_not_betweenServices {state : StopProducer τ}
    (hlocked : state.Locked) {action : StopAction τ}
    (hbetween : ¬ state.BetweenServices action) :
    ∃ more, (run StopProducer.step (state.step action) more).Deadlocked := by
  simp only [BetweenServices, not_forall] at hbetween
  obtain ⟨thread, throws, rfl, hpoint, hthread, hqueues⟩ := hbetween
  have howner := (hlocked .queueMutex (.stop thread)).mpr
    (by rw [lockOf, hpoint]; rfl)
  have hstep : state.step (.stop thread throws) = { state with
      stops := Function.update state.stops thread .joining } := by
    simp [StopProducer.step, move, moveStop, stopNext, hpoint, hthread,
      passLock, StopPoint.lock]
  rw [hstep]
  cases hproducer : state.producer with
  | polling service rest =>
      refine ⟨[.produce .filled], thread, .queueMutex, ?_⟩
      simp [StopProducer.step, move, moveProducer, passLock,
        ProducePoint.next, ProducePoint.lock, ProducePoint.waitsFor, howner]
  | queueing rest =>
      refine ⟨[], thread, .queueMutex, ?_⟩
      simp [ProducePoint.waitsFor, howner]
  | _ =>
      rw [hproducer] at hqueues
      exact absurd rfl hqueues

/-- No thread in `stop` is ever deadlocked with the producer where each finds
it between services when it goes to join it; where one does not, the run goes
on to a deadlock that lasts. -/
theorem deadlock_free_iff_betweenServices (loaded currentEbpf : List String) :
    (∀ actions : List (StopAction τ),
      StepsMeet StopProducer.step BetweenServices (start loaded currentEbpf)
          actions →
        Throughout StopProducer.step (fun state => ¬ state.Deadlocked)
          (start loaded currentEbpf) actions) ∧
    ∀ (actions : List (StopAction τ)) (action : StopAction τ),
      ¬ (run StopProducer.step (start loaded currentEbpf)
          actions).BetweenServices action →
        ∃ more, ∀ further,
          (run StopProducer.step (start loaded currentEbpf)
            (actions ++ action :: more ++ further)).Deadlocked :=
  @clear_and_lasting _ _ StopProducer.step BetweenServices Locked Deadlocked
    Quiet (fun _ action hlocked => hlocked.step action)
    (fun _ _ hquiet hbetween => hquiet.step hbetween)
    (fun _ hquiet => hquiet.not_deadlocked)
    (fun _ action hlocked hdeadlocked => hdeadlocked.step hlocked action)
    (fun _ _ hlocked hbetween =>
      deadlocked_of_not_betweenServices hlocked hbetween)
    _ (start_locked loaded currentEbpf) (start_quiet loaded currentEbpf)

/-- The one service has answered before `stop` unloads it, and its status is yet
to be queued. -/
theorem deadlocked_oneService :
    (run StopProducer.step (start ["libhebpf_example_usermode.so"]
        ["libhebpf_example_usermode.so"] : StopProducer Unit)
      (List.replicate 5 (.produce .filled) ++
        List.replicate 10 (.stop () false))).Deadlocked :=
  ⟨(), .queueMutex, rfl, rfl, rfl⟩

end StopProducer

end Hebpf.Daemon
