import Hebpf.Data.LastWins
import Hebpf.Data.Run
import Mathlib.Algebra.Order.BigOperators.Group.List
import Mathlib.Algebra.Order.Ring.Nat

namespace Hebpf.Monitor

open Hebpf.Data

/-! What becomes of the totals of the services on their way to Prometheus: the
producer of the daemon, the queue and the consumer of the monitor. -/

structure KernelData where
  name : String
  value : Nat
  labels : List (String × String)
  deriving DecidableEq, Repr

/-- It crosses the queue as a JSON document. -/
structure Metrics where
  service : String
  metrics : List KernelData
  deriving DecidableEq, Repr

def makeKey (name : String) (labels : List (String × String)) : String :=
  labels.foldl (fun key label => key ++ "|" ++ label.1 ++ "=" ++ label.2) name

def KernelData.key (data : KernelData) : String := makeKey data.name data.labels

abbrev Counters := Table String Nat

namespace Counters

def incrementCounter (counters : Counters) (data : KernelData) : Counters :=
  match counters.lookup data.key with
  | none => counters.insert data.key data.value
  | some value => counters.insert data.key (value + data.value)

def value (counters : Counters) (key : String) : Nat :=
  (counters.lookup key).getD 0

theorem value_incrementCounter (counters : Counters) (data : KernelData)
    (key : String) :
    (counters.incrementCounter data).value key =
      counters.value key + if data.key = key then data.value else 0 := by
  unfold incrementCounter value
  by_cases heq : data.key = key
  · subst heq
    cases counters.lookup data.key <;> simp
  · cases counters.lookup data.key <;>
      simp [AList.lookup_insert_ne (Ne.symm heq), heq]

end Counters

/-- `ExampleUsermodeEbpf::getPrometheusStatus` of a service with its running
total `count_` -/
def getPrometheusStatus (name : String) (count : Nat) : Metrics :=
  ⟨name, if 0 < count then [⟨"execve_total", count, [("service", name)]⟩]
    else []⟩

def counterKey (name : String) : String :=
  makeKey "execve_total" [("service", name)]

theorem counterKey_inj {name other : String} :
    counterKey name = counterKey other ↔ name = other :=
  ⟨fun heq => (String.append_right_inj _).mp heq, fun heq => heq ▸ rfl⟩

/-- The services by their names, the queue, what is left of the element the
consumer is at, the counters, and what the polls of each service have reported
so far. -/
structure Pipeline where
  counts : String → Nat
  queue : List Metrics
  processing : List KernelData
  counters : Counters
  reported : String → List Nat

namespace Pipeline

def start : Pipeline := ⟨fun _ => 0, [], [], ∅, fun _ => []⟩

/-- A kernel event, one service in a round of `produceLoop`, or one step of
`consumeLoop`. -/
inductive Action where
  | onEvent (service : String) (count : Nat)
  | poll (service : String)
  | consume
  deriving DecidableEq, Repr

def poll (pipeline : Pipeline) (service : String) : Pipeline :=
  { pipeline with
    queue := pipeline.queue ++
      [getPrometheusStatus service (pipeline.counts service)]
    reported := Function.update pipeline.reported service
      (pipeline.reported service ++ [pipeline.counts service]) }

def consume (pipeline : Pipeline) : Pipeline :=
  match pipeline.processing, pipeline.queue with
  | data :: rest, _ =>
      { pipeline with
        processing := rest
        counters := pipeline.counters.incrementCounter data }
  | [], metrics :: queue =>
      { pipeline with queue, processing := metrics.metrics }
  | [], [] => pipeline

def step (pipeline : Pipeline) : Action → Pipeline
  | .onEvent service count =>
      { pipeline with
        counts := Function.update pipeline.counts service count }
  | .poll service => pipeline.poll service
  | .consume => pipeline.consume

def Quiescent (pipeline : Pipeline) : Prop :=
  pipeline.queue = [] ∧ pipeline.processing = []

def lastReported (pipeline : Pipeline) (service : String) : Nat :=
  (pipeline.reported service).getLast?.getD 0

def Exported (pipeline : Pipeline) : Prop :=
  ∀ service, pipeline.counters.value (counterKey service) =
    pipeline.lastReported service

def ReportedOnce (pipeline : Pipeline) : Prop :=
  ∀ service, ∀ total ∈ (pipeline.reported service).dropLast, total = 0

def underway (pipeline : Pipeline) : List KernelData :=
  pipeline.processing ++ pipeline.queue.flatMap Metrics.metrics

def valueFor (key : String) (data : List KernelData) : Nat :=
  ((data.filter fun datum => datum.key = key).map KernelData.value).sum

/-- Every reported total is counted once: the invariant of all runs. -/
def Accounted (pipeline : Pipeline) : Prop :=
  ∀ service, pipeline.counters.value (counterKey service) +
      valueFor (counterKey service) pipeline.underway =
    (pipeline.reported service).sum

theorem start_accounted : start.Accounted := by
  intro service
  rfl

@[simp] theorem valueFor_nil (key : String) : valueFor key [] = 0 := rfl

@[simp] theorem valueFor_cons (key : String) (data : KernelData)
    (rest : List KernelData) :
    valueFor key (data :: rest) =
      (if data.key = key then data.value else 0) + valueFor key rest := by
  by_cases heq : data.key = key <;> simp [valueFor, heq]

@[simp] theorem valueFor_append (key : String)
    (first second : List KernelData) :
    valueFor key (first ++ second) =
      valueFor key first + valueFor key second := by
  simp [valueFor]

theorem valueFor_getPrometheusStatus (service other : String) (count : Nat) :
    valueFor (counterKey other) (getPrometheusStatus service count).metrics =
      if service = other then count else 0 := by
  have hkey : ∀ value, (KernelData.mk "execve_total" value
      [("service", service)]).key = counterKey service := fun _ => rfl
  unfold getPrometheusStatus
  split_ifs with hcount heq
  · simp only [valueFor_cons, hkey, counterKey_inj]
    simp [heq]
  · simp only [valueFor_cons, hkey, counterKey_inj]
    simp [heq]
  · simpa using (Nat.eq_zero_of_not_pos hcount).symm
  · rfl

theorem Accounted.poll {pipeline : Pipeline}
    (haccounted : pipeline.Accounted) (service : String) :
    (pipeline.poll service).Accounted := by
  intro other
  have hbefore := haccounted other
  simp only [underway, valueFor_append] at hbefore
  simp only [Pipeline.poll, underway, List.flatMap_append, List.flatMap_cons,
    List.flatMap_nil, List.append_nil, valueFor_append,
    valueFor_getPrometheusStatus, Function.update_apply]
  split_ifs with hservice hother hother
  · subst hservice
    simp only [List.sum_append, List.sum_singleton]
    omega
  · exact absurd hservice.symm hother
  · exact absurd hother.symm hservice
  · omega

theorem Accounted.consume {pipeline : Pipeline}
    (haccounted : pipeline.Accounted) : pipeline.consume.Accounted := by
  intro service
  have hbefore := haccounted service
  unfold Pipeline.consume
  split
  next data rest hprocessing =>
      simp only [underway, hprocessing, List.cons_append, valueFor_cons]
        at hbefore
      simp only [underway, Counters.value_incrementCounter]
      omega
  next metrics queue hprocessing hqueue =>
      simp only [underway, hprocessing, hqueue, List.flatMap_cons,
        List.nil_append] at hbefore
      exact hbefore
  next => exact hbefore

theorem Accounted.step {pipeline : Pipeline}
    (haccounted : pipeline.Accounted) (action : Action) :
    (pipeline.step action).Accounted := by
  cases action with
  | onEvent service count => exact haccounted
  | poll service => exact haccounted.poll service
  | consume => exact haccounted.consume

theorem Accounted.value_eq {pipeline : Pipeline}
    (haccounted : pipeline.Accounted) (hquiescent : pipeline.Quiescent)
    (service : String) :
    pipeline.counters.value (counterKey service) =
      (pipeline.reported service).sum := by
  have hsum := haccounted service
  rw [underway, hquiescent.1, hquiescent.2] at hsum
  simpa using hsum

theorem sum_eq_getLast_iff (totals : List Nat) :
    totals.sum = totals.getLast?.getD 0 ↔
      ∀ total ∈ totals.dropLast, total = 0 := by
  rcases List.eq_nil_or_concat totals with rfl | ⟨earlier, last, rfl⟩
  · simp
  · rw [List.concat_eq_append, List.dropLast_concat, List.sum_append,
      List.sum_singleton, List.getLast?_concat, Option.getD_some,
      Nat.add_eq_right]
    exact List.sum_eq_zero_iff

/-- In every drained state of a run the counters are what the last polls have
reported exactly when in every such state no earlier poll has reported
anything. -/
theorem exported_throughout_iff (actions : List Action) :
    Throughout step (fun pipeline => pipeline.Quiescent → pipeline.Exported)
        start actions ↔
      Throughout step
        (fun pipeline => pipeline.Quiescent → pipeline.ReportedOnce)
        start actions := by
  rw [throughout_iff_take, throughout_iff_take]
  refine forall_congr' fun count => forall_congr' fun hquiescent =>
    forall_congr' fun service => ?_
  have haccounted : (run step start (actions.take count)).Accounted :=
    invariant_run (fun _ action haccounted => haccounted.step action)
      start_accounted (actions.take count)
  rw [haccounted.value_eq hquiescent]
  exact sum_eq_getLast_iff _

/-- Two polls of a total that rose from 5 to 7 make 12. -/
theorem not_exported_twoPolls :
    ¬ Throughout step (fun pipeline => pipeline.Quiescent → pipeline.Exported)
      start [.onEvent "example_usermode" 5, .poll "example_usermode", .consume,
        .consume, .onEvent "example_usermode" 7, .poll "example_usermode",
        .consume, .consume] := by
  intro hexported
  have htwelve := hexported.last ⟨rfl, rfl⟩ "example_usermode"
  revert htwelve
  decide

end Pipeline

end Hebpf.Monitor
