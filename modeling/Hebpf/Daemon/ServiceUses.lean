import Hebpf.Daemon.Loader
import Hebpf.Daemon.Producer
import Hebpf.Data.Lifetime
import Hebpf.Data.Run

namespace Hebpf.Daemon

open Hebpf.Data

/-! The methods that the producer thread, the threads `ι` that handle the
notices of configuration files, and the thread of `Daemon::update` call on the
services: every interleaving of their steps. -/

inductive ServiceMethod where
  | start
  | getName
  | getMainProgFd
  | onConfigUpdate
  | getPrometheusStatus
  | stop
  deriving DecidableEq, Repr

/-- Where the thread of `Daemon::update` is in `loadEbpf`, in `unloadEbpf`, in
`registerServiceConfig` for a configuration that changed, or at the end. -/
inductive UpdatePoint where
  | idle
  | loading (soPath : String)
  | started (soPath : String) (service : Nat)
  | inserted (soPath : String)
  | configuring (soPath : String) (service : Nat)
  | configured (soPath : String)
  | registering (service : Nat)
  | finding (soPath : String)
  | unloading (soPath : String) (service : Nat)
  | looking (soPath : String)
  | reconfiguring (service : Nat)
  | recording (libs : List String)
  deriving DecidableEq, Repr

namespace UpdatePoint

def lock : UpdatePoint → Option DaemonLock
  | .idle | .looking _ | .reconfiguring _ => none
  | _ => some .mutex

def service : UpdatePoint → Option Nat
  | .started _ service | .configuring _ service | .registering service
  | .unloading _ service | .reconfiguring service => some service
  | _ => none

end UpdatePoint

inductive UpdateOrder where
  | load (soPath : String)
  | unload (soPath : String)
  | configure (soPath : String)
  | record (libs : List String)

inductive UpdateAnswer where
  | goesOn
  | skips
  | throws

/-- A notice looks its service up, reads the file, and hands it on. -/
inductive NoticePoint where
  | idle
  | reading (service : Nat)
  deriving DecidableEq, Repr

inductive UsesThread where
  | producer
  | updater
  deriving DecidableEq

inductive UsesAction (ι : Type) where
  | produce (polled : Polled)
  | notice (thread : ι) (soPath : String)
  | update (order : UpdateOrder) (answer : UpdateAnswer)

/-- The services are known by numbers, in the order of their creation. -/
structure ServiceUses (ι : Type) where
  owner : DaemonLock → Option UsesThread
  currentEbpf : List String
  services : String → Option Nat
  created : Nat
  log : List (Nat × ServiceMethod)
  producer : ProducePoint Nat
  updater : UpdatePoint
  notices : ι → NoticePoint

namespace ServiceUses

variable {ι : Type}

def start : ServiceUses ι where
  owner _ := none
  currentEbpf := []
  services _ := none
  created := 0
  log := []
  producer := .check
  updater := .idle
  notices _ := .idle

def call (state : ServiceUses ι) (service : Nat) (method : ServiceMethod) :
    ServiceUses ι :=
  { state with log := state.log ++ [(service, method)] }

def lookUp (state : ServiceUses ι) (soPath : String)
    (found : Nat → UpdatePoint) (absent : UpdatePoint) : UpdatePoint :=
  match state.services soPath with
  | some service => found service
  | none => absent

/-- `loadService` starts an instance before it looks the path up; a service
that is in the table is looked up for each of its calls. -/
def updateNext (state : ServiceUses ι) (order : UpdateOrder)
    (answer : UpdateAnswer) : UpdatePoint → ServiceUses ι × UpdatePoint
  | .idle =>
      match order with
      | .load soPath => (state, .loading soPath)
      | .unload soPath => (state, .finding soPath)
      | .configure soPath => (state, .looking soPath)
      | .record libs => (state, .recording libs)
  | .loading soPath =>
      let created := { state with
        created := state.created + 1 }.call state.created .start
      match answer with
      | .goesOn => (created, .started soPath state.created)
      | .skips => (state, .idle)
      | .throws => (created, .idle)
  | .started soPath service =>
      match state.services soPath with
      | some _ => (state, .idle)
      | none =>
          ({ state with
            services := Function.update state.services soPath
              (some service) }.call service .getName, .inserted soPath)
  | .inserted soPath =>
      (state,
        if Loader.realSoPath soPath = SCHEDULER_XDP_LIB ∨
            Loader.realSoPath soPath = SCHEDULER_TC_LIB then
          state.lookUp soPath (.configuring soPath) (.configured soPath)
        else
          match answer with
          | .goesOn =>
              state.lookUp (Loader.realSoPath soPath) (.configuring soPath)
                .idle
          | .skips => .configured soPath
          | .throws => .idle)
  | .configuring soPath service =>
      (state.call service .onConfigUpdate,
        match answer with
        | .throws => .idle
        | _ => .configured soPath)
  | .configured soPath =>
      (state,
        match answer with
        | .goesOn => state.lookUp soPath .registering .idle
        | _ => .idle)
  | .registering service => (state.call service .getMainProgFd, .idle)
  | .finding soPath =>
      (state, state.lookUp soPath (.unloading soPath) .idle)
  | .unloading soPath service =>
      ({ state with
        services := Function.update state.services soPath none }.call service
          .stop, .idle)
  | .looking soPath =>
      (state,
        match answer with
        | .goesOn => state.lookUp soPath .reconfiguring .idle
        | _ => .idle)
  | .reconfiguring service => (state.call service .onConfigUpdate, .idle)
  | .recording libs => ({ state with currentEbpf := libs }, .idle)

def moveUpdater (state : ServiceUses ι) (order : UpdateOrder)
    (answer : UpdateAnswer) : Option (ServiceUses ι) :=
  let (changed, point) := state.updateNext order answer state.updater
  (passLock state.owner .updater state.updater.lock point.lock).map
    fun owner => { changed with owner, updater := point }

def poll (state : ServiceUses ι) : ServiceUses ι :=
  match state.producer with
  | .polling service _ => state.call service .getPrometheusStatus
  | _ => state

def moveProducer (state : ServiceUses ι) (polled : Polled) :
    Option (ServiceUses ι) :=
  let point := state.producer.next true state.currentEbpf state.services polled
  (passLock state.owner .producer state.producer.lock point.lock).map
    fun owner => { state.poll with owner, producer := point }

def moveNotice [DecidableEq ι] (state : ServiceUses ι) (thread : ι)
    (soPath : String) : ServiceUses ι :=
  match state.notices thread with
  | .idle =>
      match state.services soPath with
      | none => state
      | some service =>
          { state with
            notices := Function.update state.notices thread
              (.reading service) }
  | .reading service =>
      { state.call service .onConfigUpdate with
        notices := Function.update state.notices thread .idle }

def step [DecidableEq ι] (state : ServiceUses ι) : UsesAction ι → ServiceUses ι
  | .produce polled => (state.moveProducer polled).getD state
  | .notice thread soPath => state.moveNotice thread soPath
  | .update order answer => (state.moveUpdater order answer).getD state

def Held (state : ServiceUses ι) (service : Nat) : Prop :=
  (∃ rest, state.producer = .polling service rest) ∨
    ∃ thread, state.notices thread = .reading service

/-- A service that is stopped is at nobody else's hand. -/
def StopsUnheld (state : ServiceUses ι) (action : UsesAction ι) : Prop :=
  ∀ order answer soPath service, action = .update order answer →
    state.updater = .unloading soPath service → ¬ state.Held service

abbrev Stopped (state : ServiceUses ι) (service : Nat) : Prop :=
  (service, .stop) ∈ state.log

abbrev Misused (state : ServiceUses ι) : Prop := UsedAfter .stop state.log

structure Tidy (state : ServiceUses ι) : Prop where
  log_lt : ∀ service method, (service, method) ∈ state.log →
    service < state.created
  services_lt : ∀ soPath service, state.services soPath = some service →
    service < state.created
  live : ∀ soPath service, state.services soPath = some service →
    ¬ state.Stopped service
  once : ∀ left right service, state.services left = some service →
    state.services right = some service → left = right

def AtHand (state : ServiceUses ι) : UpdatePoint → Prop
  | .started _ service =>
      service < state.created ∧ ¬ state.Stopped service ∧
        ∀ soPath, state.services soPath ≠ some service
  | .unloading soPath service => state.services soPath = some service
  | .configuring _ service | .registering service | .reconfiguring service =>
      ∃ soPath, state.services soPath = some service
  | _ => True

section Step

variable {state changed : ServiceUses ι} {point next : UpdatePoint}
  {order : UpdateOrder} {answer : UpdateAnswer}

@[simp] theorem stopped_call {service other : Nat} {method : ServiceMethod} :
    (state.call service method).Stopped other ↔
      state.Stopped other ∨ other = service ∧ method = .stop := by
  simp [Stopped, call, eq_comm]

theorem misused_call {service : Nat} {method : ServiceMethod} :
    (state.call service method).Misused ↔
      state.Misused ∨ state.Stopped service :=
  usedAfter_append_singleton

theorem Tidy.call (htidy : state.Tidy) {service : Nat}
    {method : ServiceMethod} (hlt : service < state.created)
    (hmethod : method ≠ .stop) : (state.call service method).Tidy where
  log_lt other called hmem := by
    rcases List.mem_append.mp hmem with hmem | hmem
    · exact htidy.log_lt other called hmem
    · cases List.mem_singleton.mp hmem
      exact hlt
  services_lt := htidy.services_lt
  live soPath other hservice := by
    rw [stopped_call]
    rintro (hstopped | ⟨-, hstop⟩)
    · exact htidy.live soPath other hservice hstopped
    · exact hmethod hstop
  once := htidy.once

theorem Tidy.lt_of_stopped (htidy : state.Tidy) {service : Nat}
    (hstopped : state.Stopped service) : service < state.created :=
  htidy.log_lt service .stop hstopped

theorem AtHand.spec (htidy : state.Tidy) (hat : state.AtHand point)
    {service : Nat} (hservice : point.service = some service) :
    service < state.created ∧ ¬ state.Stopped service := by
  cases point with
  | started soPath held =>
      cases hservice
      exact ⟨hat.1, hat.2.1⟩
  | configuring soPath held =>
      cases hservice
      obtain ⟨soPath, hfound⟩ := hat
      exact ⟨htidy.services_lt _ _ hfound, htidy.live _ _ hfound⟩
  | registering held =>
      cases hservice
      obtain ⟨soPath, hfound⟩ := hat
      exact ⟨htidy.services_lt _ _ hfound, htidy.live _ _ hfound⟩
  | unloading soPath held =>
      cases hservice
      exact ⟨htidy.services_lt _ _ hat, htidy.live _ _ hat⟩
  | reconfiguring held =>
      cases hservice
      obtain ⟨soPath, hfound⟩ := hat
      exact ⟨htidy.services_lt _ _ hfound, htidy.live _ _ hfound⟩
  | _ => cases hservice

theorem Tidy.create (htidy : state.Tidy) :
    ({ state with created := state.created + 1 }.call state.created
      .start).Tidy := by
  have hcreated : Tidy { state with created := state.created + 1 } :=
    ⟨fun service method hmem => Nat.lt_succ_of_lt (htidy.log_lt _ _ hmem),
      fun soPath service hservice =>
        Nat.lt_succ_of_lt (htidy.services_lt _ _ hservice),
      htidy.live, htidy.once⟩
  exact hcreated.call (Nat.lt_succ_self _) (by decide)

theorem Tidy.insert (htidy : state.Tidy) {soPath : String} {service : Nat}
    (hat : state.AtHand (.started soPath service)) :
    Tidy { state with
      services := Function.update state.services soPath (some service) } := by
  obtain ⟨hlt, hlive, hnew⟩ := hat
  refine ⟨htidy.log_lt, fun other held hheld => ?_, fun other held hheld => ?_,
    fun left right held hleft hright => ?_⟩
  · simp only [Function.update_apply] at hheld
    split_ifs at hheld
    · cases hheld
      exact hlt
    · exact htidy.services_lt other held hheld
  · simp only [Function.update_apply] at hheld
    split_ifs at hheld
    · cases hheld
      exact hlive
    · exact htidy.live other held hheld
  · simp only [Function.update_apply] at hleft hright
    split_ifs at hleft hright with hfirst hsecond
    · rw [hfirst, hsecond]
    · cases hleft
      exact absurd hright (hnew right)
    · cases hright
      exact absurd hleft (hnew left)
    · exact htidy.once left right held hleft hright

theorem Tidy.remove (htidy : state.Tidy) {soPath : String} {service : Nat}
    (hfound : state.services soPath = some service) :
    ({ state with
      services := Function.update state.services soPath none }.call service
        .stop).Tidy := by
  have hbefore : ∀ other held,
      Function.update state.services soPath none other = some held →
        other ≠ soPath ∧ state.services other = some held := by
    intro other held hheld
    rw [Function.update_apply] at hheld
    split_ifs at hheld with heq
    exact ⟨heq, hheld⟩
  refine ⟨fun other method hmem => ?_, fun other held hheld => ?_,
    fun other held hheld => ?_, fun left right held hleft hright => ?_⟩
  · rcases List.mem_append.mp hmem with hmem | hmem
    · exact htidy.log_lt other method hmem
    · cases List.mem_singleton.mp hmem
      exact htidy.services_lt soPath service hfound
  · exact htidy.services_lt other held (hbefore other held hheld).2
  · obtain ⟨hne, hservice⟩ := hbefore other held hheld
    rw [stopped_call]
    rintro (hstopped | ⟨rfl, -⟩)
    · exact htidy.live other held hservice hstopped
    · exact hne (htidy.once other soPath held hservice hfound)
  · exact htidy.once left right held (hbefore left held hleft).2
      (hbefore right held hright).2

theorem atHand_lookUp {soPath : String} {found : Nat → UpdatePoint}
    {absent : UpdatePoint}
    (hfound : ∀ service, state.services soPath = some service →
      state.AtHand (found service)) (habsent : state.AtHand absent) :
    state.AtHand (state.lookUp soPath found absent) := by
  unfold lookUp
  cases hlookup : state.services soPath with
  | some service => exact hfound service hlookup
  | none => exact habsent

theorem updateNext_tidy (htidy : state.Tidy) (hat : state.AtHand point)
    (hnext : state.updateNext order answer point = (changed, next)) :
    changed.Tidy ∧ changed.AtHand next := by
  cases point with
  | idle =>
      cases order <;>
        · cases hnext
          exact ⟨htidy, trivial⟩
  | loading soPath =>
      cases answer with
      | goesOn =>
          cases hnext
          refine ⟨htidy.create, Nat.lt_succ_self _, ?_, ?_⟩
          · rw [stopped_call]
            rintro (hstopped | ⟨-, hstop⟩)
            · exact Nat.lt_irrefl _ (htidy.lt_of_stopped hstopped)
            · cases hstop
          · intro other hservice
            exact Nat.lt_irrefl _ (htidy.services_lt other _ hservice)
      | skips =>
          cases hnext
          exact ⟨htidy, trivial⟩
      | throws =>
          cases hnext
          exact ⟨htidy.create, trivial⟩
  | started soPath service =>
      rw [updateNext] at hnext
      split at hnext <;> cases hnext
      · exact ⟨htidy, trivial⟩
      · exact ⟨(htidy.insert hat).call hat.1 (by decide), trivial⟩
  | inserted soPath =>
      cases hnext
      refine ⟨htidy, ?_⟩
      split_ifs
      · exact atHand_lookUp (fun service hfound => ⟨soPath, hfound⟩) trivial
      · cases answer with
        | goesOn =>
            exact atHand_lookUp (fun service hfound => ⟨_, hfound⟩) trivial
        | _ => trivial
  | configuring soPath service =>
      have hspec := hat.spec htidy rfl
      cases hnext
      refine ⟨htidy.call hspec.1 (by decide), ?_⟩
      cases answer <;> trivial
  | configured soPath =>
      cases hnext
      refine ⟨htidy, ?_⟩
      cases answer with
      | goesOn =>
          exact atHand_lookUp (fun service hfound => ⟨_, hfound⟩) trivial
      | _ => trivial
  | registering service =>
      have hspec := hat.spec htidy rfl
      cases hnext
      exact ⟨htidy.call hspec.1 (by decide), trivial⟩
  | finding soPath =>
      cases hnext
      exact ⟨htidy, atHand_lookUp (fun service => id) trivial⟩
  | unloading soPath service =>
      cases hnext
      exact ⟨htidy.remove hat, trivial⟩
  | looking soPath =>
      cases hnext
      refine ⟨htidy, ?_⟩
      cases answer with
      | goesOn =>
          exact atHand_lookUp (fun service hfound => ⟨_, hfound⟩) trivial
      | _ => trivial
  | reconfiguring service =>
      have hspec := hat.spec htidy rfl
      cases hnext
      exact ⟨htidy.call hspec.1 (by decide), trivial⟩
  | recording libs =>
      cases hnext
      exact ⟨⟨htidy.log_lt, htidy.services_lt, htidy.live, htidy.once⟩,
        trivial⟩

theorem updateNext_frame
    (hnext : state.updateNext order answer point = (changed, next)) :
    changed.producer = state.producer ∧ changed.notices = state.notices ∧
      state.created ≤ changed.created := by
  cases point with
  | idle => cases order <;> cases hnext <;> exact ⟨rfl, rfl, Nat.le_refl _⟩
  | loading soPath =>
      cases answer <;> cases hnext
      · exact ⟨rfl, rfl, Nat.le_succ _⟩
      · exact ⟨rfl, rfl, Nat.le_refl _⟩
      · exact ⟨rfl, rfl, Nat.le_succ _⟩
  | started soPath service =>
      rw [updateNext] at hnext
      split at hnext <;> cases hnext <;> exact ⟨rfl, rfl, Nat.le_refl _⟩
  | _ =>
      cases hnext
      exact ⟨rfl, rfl, Nat.le_refl _⟩

inductive Logs (state after : ServiceUses ι) (stops : Nat → Prop) : Prop
  | nothing (hlog : after.log = state.log)
  | call (service : Nat) (method : ServiceMethod)
      (hlog : after.log = state.log ++ [(service, method)])
      (hstop : method = .stop → stops service)
      (hlive : state.Stopped service → state.Held service)

theorem updateNext_logs (htidy : state.Tidy) (hat : state.AtHand point)
    (hnext : state.updateNext order answer point = (changed, next)) :
    Logs state changed fun service =>
      ∃ soPath, point = .unloading soPath service := by
  have hlive : ∀ service, point.service = some service →
      state.Stopped service → state.Held service :=
    fun service hservice hstopped =>
      absurd hstopped (hat.spec htidy hservice).2
  have hnew : state.Stopped state.created → state.Held state.created :=
    fun hstopped => absurd (htidy.lt_of_stopped hstopped) (Nat.lt_irrefl _)
  cases point with
  | idle => cases order <;> cases hnext <;> exact .nothing rfl
  | loading soPath =>
      cases answer <;> cases hnext
      · exact .call _ .start rfl (fun hstop => by cases hstop) hnew
      · exact .nothing rfl
      · exact .call _ .start rfl (fun hstop => by cases hstop) hnew
  | started soPath service =>
      rw [updateNext] at hnext
      split at hnext <;> cases hnext
      · exact .nothing rfl
      · exact .call _ .getName rfl (fun hstop => by cases hstop)
          (hlive service rfl)
  | configuring soPath service =>
      cases hnext
      exact .call _ .onConfigUpdate rfl (fun hstop => by cases hstop)
        (hlive service rfl)
  | registering service =>
      cases hnext
      exact .call _ .getMainProgFd rfl (fun hstop => by cases hstop)
        (hlive service rfl)
  | unloading soPath service =>
      cases hnext
      exact .call _ .stop rfl (fun _ => ⟨soPath, rfl⟩) (hlive service rfl)
  | reconfiguring service =>
      cases hnext
      exact .call _ .onConfigUpdate rfl (fun hstop => by cases hstop)
        (hlive service rfl)
  | _ =>
      cases hnext
      exact .nothing rfl

end Step

structure Ordered (state : ServiceUses ι) : Prop where
  tidy : state.Tidy
  atHand : state.AtHand state.updater
  held_lt : ∀ service, state.Held service → service < state.created

theorem start_ordered : (start : ServiceUses ι).Ordered where
  tidy := by constructor <;> simp [start]
  atHand := trivial
  held_lt := by simp [start, Held]

section Moves

variable {state after : ServiceUses ι}

theorem moveUpdater_eq_some {order : UpdateOrder} {answer : UpdateAnswer}
    (hmove : state.moveUpdater order answer = some after) :
    ∃ changed next owner,
      state.updateNext order answer state.updater = (changed, next) ∧
      after = { changed with owner, updater := next } := by
  obtain ⟨owner, -, rfl⟩ := Option.map_eq_some_iff.mp hmove
  exact ⟨_, _, owner, rfl, rfl⟩

theorem Ordered.moveUpdater (hordered : state.Ordered) {order : UpdateOrder}
    {answer : UpdateAnswer}
    (hmove : state.moveUpdater order answer = some after) : after.Ordered := by
  obtain ⟨changed, next, owner, hnext, rfl⟩ := moveUpdater_eq_some hmove
  obtain ⟨htidy, hat⟩ := updateNext_tidy hordered.tidy hordered.atHand hnext
  obtain ⟨hproducer, hnotices, hcreated⟩ := updateNext_frame hnext
  refine ⟨⟨htidy.log_lt, htidy.services_lt, htidy.live, htidy.once⟩, ?_,
    fun service hheld => ?_⟩
  · cases next <;> exact hat
  · rw [Held, hproducer, hnotices] at hheld
    exact Nat.lt_of_lt_of_le (hordered.held_lt service hheld) hcreated

theorem AtHand.call {point : UpdatePoint} (hat : state.AtHand point)
    (service : Nat) {method : ServiceMethod} (hmethod : method ≠ .stop) :
    (state.call service method).AtHand point := by
  cases point with
  | started soPath held =>
      refine ⟨hat.1, ?_, hat.2.2⟩
      rw [stopped_call]
      rintro (hstopped | ⟨-, hstop⟩)
      · exact hat.2.1 hstopped
      · exact hmethod hstop
  | _ => exact hat

theorem Ordered.call (hordered : state.Ordered) {service : Nat}
    {method : ServiceMethod} (hheld : state.Held service)
    (hmethod : method ≠ .stop) : (state.call service method).Ordered where
  tidy := hordered.tidy.call (hordered.held_lt service hheld) hmethod
  atHand := hordered.atHand.call service hmethod
  held_lt := hordered.held_lt

theorem Ordered.goOn (hordered : state.Ordered)
    (owner : DaemonLock → Option UsesThread) {producer : ProducePoint Nat}
    {notices : ι → NoticePoint}
    (hheld : ∀ service, Held { state with producer, notices } service →
      state.Held service ∨
        ∃ soPath, state.services soPath = some service) :
    Ordered { state with owner, producer, notices } := by
  have hat := hordered.atHand
  refine ⟨⟨hordered.tidy.log_lt, hordered.tidy.services_lt,
    hordered.tidy.live, hordered.tidy.once⟩, ?_, fun service hservice => ?_⟩
  · unfold AtHand at hat ⊢
    exact hat
  · rcases hheld service hservice with hbefore | ⟨soPath, hfound⟩
    · exact hordered.held_lt service hbefore
    · exact hordered.tidy.services_lt soPath service hfound

theorem held_next {polled : Polled} {service : Nat}
    (hheld : Held { state with
      producer := state.producer.next true state.currentEbpf state.services
        polled } service) :
    state.Held service ∨ ∃ soPath, state.services soPath = some service := by
  rcases hheld with ⟨rest, hpolling⟩ | hreading
  · exact .inr (ProducePoint.getService_of_next hpolling)
  · exact .inl (.inr hreading)

theorem Ordered.moveProducer (hordered : state.Ordered) {polled : Polled}
    (hmove : state.moveProducer polled = some after) : after.Ordered := by
  obtain ⟨owner, -, rfl⟩ := Option.map_eq_some_iff.mp hmove
  unfold poll
  split
  · have hcalled := hordered.call (.inl ⟨_, by assumption⟩)
      (show ServiceMethod.getPrometheusStatus ≠ .stop by decide)
    exact hcalled.goOn owner fun service hheld => @held_next _ state _ _ hheld
  · exact hordered.goOn owner fun service hheld => held_next hheld

variable [DecidableEq ι]

theorem held_reading {thread : ι} {found service : Nat}
    {soPath : String} (hfound : state.services soPath = some found)
    (hheld : Held { state with
      notices := Function.update state.notices thread (.reading found) }
      service) :
    state.Held service ∨ ∃ soPath, state.services soPath = some service := by
  rcases hheld with hpolling | ⟨other, hreading⟩
  · exact .inl (.inl hpolling)
  · simp only [Function.update_apply] at hreading
    split_ifs at hreading
    · cases hreading
      exact .inr ⟨soPath, hfound⟩
    · exact .inl (.inr ⟨other, hreading⟩)

theorem held_idle {thread : ι} {service : Nat}
    (hheld : Held { state with
      notices := Function.update state.notices thread .idle } service) :
    state.Held service := by
  rcases hheld with hpolling | ⟨other, hreading⟩
  · exact .inl hpolling
  · simp only [Function.update_apply] at hreading
    split_ifs at hreading
    exact .inr ⟨other, hreading⟩

theorem Ordered.moveNotice (hordered : state.Ordered) (thread : ι)
    (soPath : String) : (state.moveNotice thread soPath).Ordered := by
  unfold ServiceUses.moveNotice
  cases hpoint : state.notices thread with
  | idle =>
      simp only
      cases hfound : state.services soPath with
      | none => exact hordered
      | some found =>
          exact hordered.goOn state.owner fun service hheld =>
            held_reading hfound hheld
  | reading found =>
      have hcalled := hordered.call (.inr ⟨thread, hpoint⟩)
        (show ServiceMethod.onConfigUpdate ≠ .stop by decide)
      exact hcalled.goOn state.owner fun service hheld =>
        .inl (@held_idle _ state _ _ _ hheld)

theorem Ordered.step (hordered : state.Ordered) (action : UsesAction ι) :
    (state.step action).Ordered := by
  cases action with
  | produce polled =>
      rw [ServiceUses.step]
      cases hmove : state.moveProducer polled with
      | none => exact hordered
      | some after => exact hordered.moveProducer hmove
  | notice thread soPath => exact hordered.moveNotice thread soPath
  | update order answer =>
      rw [ServiceUses.step]
      cases hmove : state.moveUpdater order answer with
      | none => exact hordered
      | some after => exact hordered.moveUpdater hmove

end Moves

section Uses

variable [DecidableEq ι] {state : ServiceUses ι}

theorem step_logs (hordered : state.Ordered) (action : UsesAction ι) :
    Logs state (state.step action) fun service =>
      ∃ order answer soPath, action = .update order answer ∧
        state.updater = .unloading soPath service := by
  cases action with
  | produce polled =>
      rw [step]
      cases hmove : state.moveProducer polled with
      | none => exact .nothing rfl
      | some after =>
          obtain ⟨owner, -, rfl⟩ := Option.map_eq_some_iff.mp hmove
          rw [Option.getD_some]
          unfold poll
          split
          · exact .call _ .getPrometheusStatus rfl
              (fun hstop => by cases hstop) fun _ => .inl ⟨_, by assumption⟩
          · exact .nothing rfl
  | notice thread soPath =>
      rw [step]
      unfold moveNotice
      cases hpoint : state.notices thread with
      | idle =>
          simp only
          cases state.services soPath <;> exact .nothing rfl
      | reading service =>
          exact .call _ .onConfigUpdate rfl (fun hstop => by cases hstop)
            fun _ => .inr ⟨thread, hpoint⟩
  | update order answer =>
      rw [step]
      cases hmove : state.moveUpdater order answer with
      | none => exact .nothing rfl
      | some after =>
          obtain ⟨changed, next, owner, hnext, rfl⟩ := moveUpdater_eq_some hmove
          cases updateNext_logs hordered.tidy hordered.atHand hnext with
          | nothing hlog => exact .nothing hlog
          | call service method hlog hstop hlive =>
              refine .call service method hlog (fun heq => ?_) hlive
              obtain ⟨soPath, hpoint⟩ := hstop heq
              exact ⟨order, answer, soPath, rfl, hpoint⟩

theorem held_step {action : UsesAction ι} {service : Nat}
    (hheld : (state.step action).Held service) :
    state.Held service ∨
      (∀ order answer, action ≠ .update order answer) ∧
        ∃ soPath, state.services soPath = some service := by
  cases action with
  | produce polled =>
      rw [step] at hheld
      cases hmove : state.moveProducer polled with
      | none =>
          rw [hmove] at hheld
          exact .inl hheld
      | some after =>
          rw [hmove, Option.getD_some] at hheld
          obtain ⟨owner, -, rfl⟩ := Option.map_eq_some_iff.mp hmove
          have hnext : state.Held service ∨
              ∃ soPath, state.services soPath = some service := by
            unfold poll at hheld
            split at hheld <;> exact @held_next _ state polled service hheld
          exact hnext.imp id fun hfound => ⟨by simp, hfound⟩
  | notice thread soPath =>
      rw [step, moveNotice] at hheld
      cases hpoint : state.notices thread with
      | idle =>
          simp only [hpoint] at hheld
          cases hfound : state.services soPath with
          | none =>
              simp only [hfound] at hheld
              exact .inl hheld
          | some found =>
              simp only [hfound] at hheld
              exact (held_reading hfound hheld).imp id fun hfound =>
                ⟨by simp, hfound⟩
      | reading found =>
          simp only [hpoint] at hheld
          exact .inl (@held_idle _ state _ thread service hheld)
  | update order answer =>
      rw [step] at hheld
      cases hmove : state.moveUpdater order answer with
      | none =>
          rw [hmove] at hheld
          exact .inl hheld
      | some after =>
          rw [hmove, Option.getD_some] at hheld
          obtain ⟨changed, next, owner, hnext, rfl⟩ := moveUpdater_eq_some hmove
          obtain ⟨hproducer, hnotices, -⟩ := updateNext_frame hnext
          rw [Held, hproducer, hnotices] at hheld
          exact .inl hheld

theorem Misused.step (hordered : state.Ordered) (hmisused : state.Misused)
    (action : UsesAction ι) : (state.step action).Misused := by
  cases step_logs hordered action with
  | nothing hlog =>
      rw [Misused, hlog]
      exact hmisused
  | call service method hlog hstop hlive =>
      rw [Misused, hlog]
      exact usedAfter_append_singleton.mpr (.inl hmisused)

/-- Nobody holds a service that has been stopped. -/
structure Quiet (state : ServiceUses ι) : Prop where
  ordered : state.Ordered
  live : ∀ service, state.Held service → ¬ state.Stopped service
  unused : ¬ state.Misused

theorem Quiet.step (hquiet : state.Quiet) {action : UsesAction ι}
    (hunheld : state.StopsUnheld action) : (state.step action).Quiet := by
  have hbefore : ∀ service, (state.step action).Held service →
      ¬ state.Stopped service := by
    intro service hheld
    rcases held_step hheld with hheld | ⟨-, soPath, hfound⟩
    · exact hquiet.live service hheld
    · exact hquiet.ordered.tidy.live soPath service hfound
  cases step_logs hquiet.ordered action with
  | nothing hlog =>
      refine ⟨hquiet.ordered.step action, fun service hheld => ?_, ?_⟩
      · rw [Stopped, hlog]
        exact hbefore service hheld
      · rw [Misused, hlog]
        exact hquiet.unused
  | call called method hlog hstop hlive =>
      refine ⟨hquiet.ordered.step action, fun service hheld => ?_, ?_⟩
      · rw [Stopped, hlog, List.mem_append, List.mem_singleton, Prod.mk.injEq]
        rintro (hstopped | ⟨rfl, heq⟩)
        · exact hbefore service hheld hstopped
        · obtain ⟨order, answer, soPath, rfl, hpoint⟩ := hstop heq.symm
          rcases held_step hheld with hheld | ⟨hnot, -⟩
          · exact hunheld order answer soPath service rfl hpoint hheld
          · exact hnot order answer rfl
      · rw [Misused, hlog, usedAfter_append_singleton]
        rintro (hmisused | hstopped)
        · exact hquiet.unused hmisused
        · exact hquiet.live called (hlive hstopped) hstopped

theorem misused_of_not_stopsUnheld {action : UsesAction ι}
    (hunheld : ¬ state.StopsUnheld action) :
    ∃ more, (run ServiceUses.step (state.step action) more).Misused := by
  simp only [StopsUnheld, not_forall, not_not] at hunheld
  obtain ⟨order, answer, soPath, service, rfl, hpoint, hheld⟩ := hunheld
  have hstopped : (state.step (.update order answer)).Stopped service := by
    simp [step, moveUpdater, hpoint, updateNext, passLock, UpdatePoint.lock,
      call, Stopped]
  have hkept : (state.step (.update order answer)).producer = state.producer ∧
      (state.step (.update order answer)).notices = state.notices := by
    simp [step, moveUpdater, hpoint, updateNext, passLock, UpdatePoint.lock,
      call]
  generalize state.step (.update order answer) = after at hstopped hkept
  obtain ⟨hproducer, hnotices⟩ := hkept
  rcases hheld with ⟨rest, hpolling⟩ | ⟨thread, hreading⟩
  · refine ⟨[.produce .empty], ?_⟩
    rw [hpolling] at hproducer
    have hstep : (after.step (.produce .empty)).log =
        (after.call service .getPrometheusStatus).log := by
      simp [step, moveProducer, poll, hproducer, ProducePoint.next, passLock,
        ProducePoint.lock]
    rw [run_cons, run_nil, Misused, hstep]
    exact misused_call.mpr (.inr hstopped)
  · refine ⟨[.notice thread soPath], ?_⟩
    rw [← hnotices] at hreading
    have hstep : (after.step (.notice thread soPath)).log =
        (after.call service .onConfigUpdate).log := by
      simp [step, moveNotice, hreading]
    rw [run_cons, run_nil, Misused, hstep]
    exact misused_call.mpr (.inr hstopped)

end Uses

variable [DecidableEq ι]

/-- No service is called after it was stopped where each that is stopped is at
nobody else's hand; where one is not, the run goes on to such a call. -/
theorem not_misused_iff_stopsUnheld :
    (∀ actions : List (UsesAction ι),
      StepsMeet step StopsUnheld start actions →
        Throughout step (fun state => ¬ state.Misused) start actions) ∧
    ∀ (actions : List (UsesAction ι)) (action : UsesAction ι),
      ¬ (run step start actions).StopsUnheld action →
        ∃ more, ∀ further,
          (run step start (actions ++ action :: more ++ further)).Misused :=
  @clear_and_lasting _ _ step StopsUnheld Ordered Misused Quiet
    (fun _ action hordered => hordered.step action)
    (fun _ _ hquiet hunheld => hquiet.step hunheld)
    (fun _ hquiet => hquiet.unused)
    (fun _ action hordered hmisused => Misused.step hordered hmisused action)
    (fun _ _ _ hunheld => misused_of_not_stopsUnheld hunheld)
    _ start_ordered
    ⟨start_ordered, by simp [start, Held], id⟩

def updates (order : UpdateOrder) (answers : List UpdateAnswer) :
    List (UsesAction Unit) :=
  answers.map fun answer => .update order answer

/-- An update unloads the service that the producer has just looked up. -/
theorem misused_unloadAcl :
    (run step (start : ServiceUses Unit)
      (updates (.load "libhebpf_acl_xdp.so")
          [.goesOn, .goesOn, .goesOn, .skips, .goesOn, .goesOn] ++
        updates (.record ["libhebpf_acl_xdp.so"]) [.goesOn, .goesOn] ++
        List.replicate 4 (.produce .empty) ++
        updates (.unload "libhebpf_acl_xdp.so")
          [.goesOn, .goesOn, .goesOn] ++
        [.produce .empty])).Misused := by
  simp only [Misused]
  decide

end ServiceUses

end Hebpf.Daemon
