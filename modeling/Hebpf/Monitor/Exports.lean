import Hebpf.Common.Encode
import Hebpf.Monitor.Consumer

namespace Hebpf.Monitor

open Hebpf.Common Hebpf.Data

/-! The totals of the services as they travel, as JSON documents through the
queue to the consumer and its registry. -/

/-- The nearest `double`, the even one of two. -/
def toDouble (value : Nat) : Nat :=
  let unit := 2 ^ (value.log2 - 52)
  let whole := value / unit
  let rest := 2 * (value % unit)
  if rest < unit ∨ (rest = unit ∧ whole % 2 = 0) then whole * unit
  else (whole + 1) * unit

/-- `static_cast<uint64_t>`, of what there is a `uint64_t` for -/
def castUInt64 (value : Rat) : Nat := value.floor.toNat

theorem toDouble_eq {value : Nat} (hvalue : value ≤ 2 ^ 53) :
    toDouble value = value := by
  rcases Nat.lt_or_eq_of_le hvalue with hlt | rfl
  · have hunit : value.log2 - 52 = 0 := by
      by_cases hzero : value = 0
      · rw [hzero]
        rfl
      · have hlog := (Nat.log2_lt hzero).mpr hlt
        omega
    simp only [toDouble, hunit, pow_zero, Nat.mod_one, Nat.div_one, mul_zero,
      Nat.zero_lt_one, true_or, if_true, mul_one]
  · decide

@[simp] theorem castUInt64_natCast (value : Nat) :
    castUInt64 (value : Rat) = value := by
  unfold castUInt64
  rw [← Int.cast_natCast, Rat.floor_intCast, Int.toNat_natCast]

def labelsJson (labels : List (String × String)) : Json :=
  .object (labels.map fun label => (label.1, .string label.2))

/-- `value_` is a `double`. -/
def KernelData.toJson (data : KernelData) : Json :=
  .object [("name", .string data.name),
    ("value", .float (toDouble data.value : Nat)),
    ("labels", labelsJson data.labels)]

def Metrics.toJson (metrics : Metrics) : Json :=
  .object [("service", .string metrics.service),
    ("metrics", .array (metrics.metrics.map KernelData.toJson))]

def mapOf (labels : List (String × String)) : OrderedMap String String :=
  labels.foldl (fun map label => map.emplace label.1 label.2) .empty

def KernelData.event (data : KernelData) : Event :=
  ⟨data.name, (toDouble data.value : Nat), mapOf data.labels⟩

theorem getLabels_labelsJson (labels : List (String × String)) :
    getLabels (labelsJson labels) = .ok (mapOf labels) := by
  unfold mapOf labelsJson getLabels
  simp only
  generalize (OrderedMap.empty : OrderedMap String String) = map
  induction labels generalizing map with
  | nil => rfl
  | cons label rest ih =>
      rw [List.map_cons, List.foldlM_cons, List.foldl_cons, ← ih]
      rfl

theorem KernelData.fromJson_toJson (data : KernelData) :
    Event.fromJson data.toJson = .ok data.event := by
  have hname : ∀ default, data.toJson.fieldOr "name" default Json.getString =
      .ok data.name := fun _ => rfl
  have hvalue : ∀ default, data.toJson.fieldOr "value" default getDouble =
      .ok (toDouble data.value : Rat) := fun _ => rfl
  have hlabels : ∀ default, data.toJson.fieldOr "labels" default getLabels =
      .ok (mapOf data.labels) := fun _ => getLabels_labelsJson data.labels
  simp only [Event.fromJson, hname, hvalue, hlabels]
  rfl

theorem Metrics.fromJson_toJson (metrics : Metrics) :
    Status.fromJson metrics.toJson =
      .ok ⟨metrics.service, metrics.metrics.map KernelData.toJson⟩ := by
  have hservice : ∀ default, metrics.toJson.fieldOr "service" default
      Json.getString = .ok metrics.service := fun _ => rfl
  have hmetrics : ∀ default, metrics.toJson.fieldOr "metrics" default
      (Json.getVector .ok) = .ok (metrics.metrics.map KernelData.toJson) :=
    fun _ => mapM_ok _
  simp only [Status.fromJson, hservice, hmetrics]
  rfl

/-- The services, the queue, what is left of the element the consumer is at,
the consumer, and what the polls have reported so far. -/
structure Exporter where
  counts : String → Nat
  queue : List Json
  processing : List Json
  consumer : Consumer
  reported : String → List Nat

namespace Exporter

def start : Exporter := ⟨fun _ => 0, [], [], .start, fun _ => []⟩

def endConsumer (exporter : Exporter) : Exporter :=
  { exporter with consumer := { exporter.consumer with ended := true } }

def consume (prometheus : Prometheus) (exporter : Exporter) : Exporter :=
  if exporter.consumer.ended then exporter
  else
    match exporter.processing, exporter.queue with
    | json :: rest, _ =>
        match Event.fromJson json with
        | .error _ => exporter.endConsumer
        | .ok event =>
            match exporter.consumer.monitor.incrementCounter prometheus
                event with
            | .error _ => exporter.endConsumer
            | .ok monitor =>
                { exporter with
                  processing := rest
                  consumer := ⟨false, monitor⟩ }
    | [], json :: queue =>
        match Status.fromJson json with
        | .error _ => exporter.endConsumer
        | .ok status =>
            { exporter with queue, processing := status.metrics }
    | [], [] => exporter

/-- One service in `produceLoop`.  The status is dropped where the queue is
full. -/
def poll (capacity : Nat) (exporter : Exporter) (service : String) :
    Exporter :=
  if exporter.queue.length < capacity then
    { exporter with
      queue := exporter.queue ++
        [(getPrometheusStatus service (exporter.counts service)).toJson]
      reported := Function.update exporter.reported service
        (exporter.reported service ++ [exporter.counts service]) }
  else exporter

def step (prometheus : Prometheus) (capacity : Nat) (exporter : Exporter) :
    Pipeline.Action → Exporter
  | .onEvent service count =>
      { exporter with
        counts := Function.update exporter.counts service count }
  | .poll service => exporter.poll capacity service
  | .consume => exporter.consume prometheus

end Exporter

def Pipeline.stepWithin (capacity : Nat) (pipeline : Pipeline) :
    Pipeline.Action → Pipeline
  | .poll service =>
      if pipeline.queue.length < capacity then pipeline.poll service
      else pipeline
  | action => pipeline.step action

def serviceLabels (service : String) : OrderedMap String String :=
  mapOf [("service", service)]

def execveSeries (service : String) : Series where
  name := "execve_total"
  labels := serviceLabels service
  validName := by decide
  validLabels := by
    intro label hlabel
    obtain rfl := List.mem_singleton.mp hlabel
    exact show IsLabelName "service".toList by decide

def increment (total : Nat) (event : Event) : Nat :=
  toDouble (total + toDouble (castUInt64 event.value))

def Exporter.exported (exporter : Exporter) (service : String) : Nat :=
  (exporter.consumer.monitor.applied (execveSeries service)).foldl increment 0

theorem execveSeries_key (service : String) :
    (execveSeries service).key = counterKey service := rfl

def execveTotal (service : String) (value : Nat) : KernelData :=
  ⟨"execve_total", value, [("service", service)]⟩

theorem mem_getPrometheusStatus {service : String} {count : Nat}
    {data : KernelData}
    (hdata : data ∈ (getPrometheusStatus service count).metrics) :
    data = execveTotal service count := by
  unfold getPrometheusStatus at hdata
  split_ifs at hdata
  · exact List.mem_singleton.mp hdata
  · cases hdata

theorem foldl_increment {told : List KernelData} {total : Nat}
    (hsum : total + (told.map KernelData.value).sum ≤ 2 ^ 53) :
    (told.map KernelData.event).foldl increment total =
      total + (told.map KernelData.value).sum := by
  induction told generalizing total with
  | nil => rfl
  | cons data rest ih =>
      rw [List.map_cons, List.sum_cons, ← add_assoc] at hsum
      have hvalue : toDouble data.value = data.value :=
        toDouble_eq (by omega)
      have hnext : increment total data.event = total + data.value := by
        simp only [increment, KernelData.event, castUInt64_natCast, hvalue]
        exact toDouble_eq (by omega)
      rw [List.map_cons, List.foldl_cons, hnext, ih hsum, List.map_cons,
        List.sum_cons, add_assoc]

structure TotalsLogged (prometheus : Prometheus) (told : List KernelData)
    (log : List (Event × Series)) (monitor : EventMonitor) : Prop where
  logged : Logged prometheus log monitor
  events : log.map Prod.fst = told.map KernelData.event
  totals : ∀ data ∈ told, ∃ service value, data = execveTotal service value

/-- What Prometheus accepts of the names that the services use. -/
def AcceptsTotals (prometheus : Prometheus) : Prop :=
  ∀ service, prometheus.accepts "execve_total" (serviceLabels service) = true

variable {prometheus : Prometheus} {log : List (Event × Series)}
variable {monitor : EventMonitor}

theorem AcceptsTotals.series? (haccepts : AcceptsTotals prometheus)
    (service : String) (value : Nat) :
    prometheus.series? (execveTotal service value).event =
      some (execveSeries service) :=
  dif_pos (haccepts service)

namespace TotalsLogged

variable {told : List KernelData}

theorem exists_total (htotals : TotalsLogged prometheus told log monitor)
    {event : Event} (hevent : event ∈ log.map Prod.fst) :
    ∃ service value, event = (execveTotal service value).event := by
  rw [htotals.events] at hevent
  obtain ⟨data, hdata, rfl⟩ := List.mem_map.mp hevent
  obtain ⟨service, value, rfl⟩ := htotals.totals data hdata
  exact ⟨service, value, rfl⟩

theorem keysTold (htotals : TotalsLogged prometheus told log monitor)
    (haccepts : AcceptsTotals prometheus) :
    KeysTold prometheus (log.map Prod.fst) := by
  intro first hfirst second hsecond hkeys series hseries other hother
  obtain ⟨service, value, rfl⟩ := htotals.exists_total hfirst
  obtain ⟨service', value', rfl⟩ := htotals.exists_total hsecond
  obtain rfl := counterKey_inj.mp hkeys
  rw [haccepts.series?] at hseries hother
  exact Option.some.inj (hseries.symm.trans hother)

theorem applied (htotals : TotalsLogged prometheus told log monitor)
    (haccepts : AcceptsTotals prometheus) (service : String) :
    monitor.applied (execveSeries service) =
      (told.filter fun data => data.key = counterKey service).map
        KernelData.event := by
  have hfilter : (log.map Prod.fst).filter
        (fun event => event.key = counterKey service) =
      (told.filter fun data => data.key = counterKey service).map
        KernelData.event := by
    rw [htotals.events, List.filter_map]
    congr 1
    apply List.filter_congr
    intro data hdata
    obtain ⟨other, value, rfl⟩ := htotals.totals data hdata
    rfl
  rw [htotals.logged.applied_eq, execveSeries_key]
  split_ifs with hcounter
  · exact hfilter
  · rw [← hfilter, eq_comm, List.filter_eq_nil_iff]
    intro event hevent hkey
    obtain ⟨other, value, rfl⟩ := htotals.exists_total hevent
    obtain rfl := counterKey_inj.mp (of_decide_eq_true hkey)
    exact hcounter (htotals.logged.counter_of_keysTold
      (htotals.keysTold haccepts) hevent (haccepts.series? other value))

theorem registry (htotals : TotalsLogged prometheus told log monitor)
    (haccepts : AcceptsTotals prometheus) {series : Series}
    (hseries : (monitor.registry.lookup series).isSome) :
    ∃ service, series = execveSeries service := by
  rw [htotals.logged.accounted.registry] at hseries
  split_ifs at hseries with hcounter
  · obtain ⟨call, hcall, rfl⟩ :=
      htotals.logged.accounted.called_of_lookup hcounter
    obtain ⟨entry, hentry, rfl⟩ := List.mem_map.mp hcall
    obtain ⟨other, hother, hown⟩ := htotals.logged.accepted entry hentry
    obtain ⟨service, value, htotal⟩ :=
      htotals.exists_total (List.mem_map_of_mem hother)
    rw [htotal, haccepts.series?] at hown
    exact ⟨service, (Option.some.inj hown).symm⟩
  · cases hseries

theorem step (htotals : TotalsLogged prometheus told log monitor)
    (haccepts : AcceptsTotals prometheus) (service : String) (value : Nat) :
    ∃ next, monitor.incrementCounter prometheus
        (execveTotal service value).event = .ok next ∧
      TotalsLogged prometheus (told ++ [execveTotal service value])
        (log ++ [((execveTotal service value).event, execveSeries service)])
        next := by
  have hseries := haccepts.series? service value
  refine ⟨_, incrementCounter_of_series hseries, ?_, ?_, ?_⟩
  · apply htotals.logged.concat (Prometheus.key_of_series? hseries)
    · intro own hown
      exact Option.some.inj (hseries.symm.trans hown)
    · exact ⟨(_, _), List.mem_append_right _ (List.mem_singleton_self _),
        hseries⟩
  · rw [List.map_append, List.map_append, htotals.events]
    rfl
  · rw [List.forall_mem_append]
    refine ⟨htotals.totals, ?_⟩
    intro data hdata
    exact ⟨service, value, List.mem_singleton.mp hdata⟩

end TotalsLogged

structure Agrees (exporter : Exporter) (pipeline : Pipeline) : Prop where
  counts : exporter.counts = pipeline.counts
  queue : exporter.queue = pipeline.queue.map Metrics.toJson
  processing : exporter.processing = pipeline.processing.map KernelData.toJson
  reported : exporter.reported = pipeline.reported
  running : exporter.consumer.ended = false

/-- The registry shows the counters of the pipeline and nothing else. -/
structure Refines (exporter : Exporter) (pipeline : Pipeline) : Prop
    extends Agrees exporter pipeline where
  exported : ∀ service, exporter.exported service =
    pipeline.counters.value (counterKey service)
  registry : ∀ series,
    (exporter.consumer.monitor.registry.lookup series).isSome →
      ∃ service, series = execveSeries service

/-- What every step keeps, with the totals told so far and the log of their
events. -/
structure Follows (prometheus : Prometheus) (told : List KernelData)
    (log : List (Event × Series)) (exporter : Exporter) (pipeline : Pipeline) :
    Prop extends Agrees exporter pipeline where
  totals : TotalsLogged prometheus told log exporter.consumer.monitor
  counters : ∀ key,
    pipeline.counters.value key = Pipeline.valueFor key told
  underway : ∀ data ∈ pipeline.underway, ∃ service value,
    data = execveTotal service value
  accounted : pipeline.Accounted

variable {told : List KernelData} {exporter : Exporter} {pipeline : Pipeline}

theorem start_follows : Follows prometheus [] [] .start .start where
  counts := rfl
  queue := rfl
  processing := rfl
  reported := rfl
  running := rfl
  totals := ⟨start_logged, rfl, List.forall_mem_nil _⟩
  counters _ := rfl
  underway := List.forall_mem_nil _
  accounted := Pipeline.start_accounted

namespace Follows

theorem refines (hfollows : Follows prometheus told log exporter pipeline)
    (haccepts : AcceptsTotals prometheus)
    (hsums : ∀ service, (exporter.reported service).sum ≤ 2 ^ 53) :
    Refines exporter pipeline where
  toAgrees := hfollows.toAgrees
  exported service := by
    have hcounter := hfollows.counters (counterKey service)
    have hsum := hsums service
    rw [hfollows.reported, ← hfollows.accounted service, hcounter] at hsum
    unfold Exporter.exported
    rw [hfollows.totals.applied haccepts, foldl_increment, hcounter, zero_add]
    · rfl
    · rw [zero_add]
      exact (Nat.le_add_right _ _).trans hsum
  registry _ hseries := hfollows.totals.registry haccepts hseries

theorem poll (hfollows : Follows prometheus told log exporter pipeline)
    (capacity : Nat) (service : String) :
    Follows prometheus told log (exporter.poll capacity service)
      (pipeline.stepWithin capacity (.poll service)) := by
  have hlength : exporter.queue.length = pipeline.queue.length := by
    rw [hfollows.queue, List.length_map]
  unfold Exporter.poll Pipeline.stepWithin
  rw [hlength]
  split_ifs
  · refine ⟨⟨hfollows.counts, ?_, hfollows.processing, ?_, hfollows.running⟩,
      hfollows.totals, hfollows.counters, ?_, hfollows.accounted.poll service⟩
    · simp only [Pipeline.poll, List.map_append, List.map_singleton,
        hfollows.queue, hfollows.counts]
    · simp only [Pipeline.poll, hfollows.reported, hfollows.counts]
    · intro data hdata
      simp only [Pipeline.poll, Pipeline.underway, List.flatMap_append,
        List.flatMap_singleton, ← List.append_assoc] at hdata
      rcases List.mem_append.mp hdata with hbefore | hpolled
      · exact hfollows.underway data hbefore
      · exact ⟨_, _, mem_getPrometheusStatus hpolled⟩
  · exact hfollows

theorem count (hfollows : Follows prometheus told log exporter pipeline)
    (haccepts : AcceptsTotals prometheus) {data : KernelData}
    {rest : List KernelData} (hprocessing : pipeline.processing = data :: rest) :
    ∃ told log, Follows prometheus told log (exporter.consume prometheus)
      pipeline.consume := by
  have hunderway : pipeline.underway =
      data :: (rest ++ pipeline.queue.flatMap Metrics.metrics) := by
    rw [Pipeline.underway, hprocessing, List.cons_append]
  have hnone := hfollows.underway
  rw [hunderway, List.forall_mem_cons] at hnone
  obtain ⟨⟨service, value, rfl⟩, hlater⟩ := hnone
  obtain ⟨next, hnext, htotals⟩ := hfollows.totals.step haccepts service value
  have hconsume : exporter.consume prometheus =
      { exporter with
        processing := rest.map KernelData.toJson
        consumer := ⟨false, next⟩ } := by
    unfold Exporter.consume
    rw [hfollows.running, if_neg Bool.false_ne_true, hfollows.processing,
      hprocessing, List.map_cons]
    simp only [KernelData.fromJson_toJson, hnext]
  have haccounted := hfollows.accounted.consume
  have hpipeline : pipeline.consume =
      { pipeline with
        processing := rest
        counters := pipeline.counters.incrementCounter
          (execveTotal service value) } := by
    unfold Pipeline.consume
    rw [hprocessing]
  rw [hpipeline] at haccounted
  rw [hconsume, hpipeline]
  refine ⟨_, _, ⟨hfollows.counts, hfollows.queue, rfl, hfollows.reported, rfl⟩,
    htotals, ?_, hlater, haccounted⟩
  intro key
  rw [Counters.value_incrementCounter, hfollows.counters,
    Pipeline.valueFor_append, Pipeline.valueFor_cons, Pipeline.valueFor_nil,
    add_zero]

theorem consume (hfollows : Follows prometheus told log exporter pipeline)
    (haccepts : AcceptsTotals prometheus) :
    ∃ told log, Follows prometheus told log (exporter.consume prometheus)
      pipeline.consume := by
  cases hprocessing : pipeline.processing with
  | cons data rest => exact hfollows.count haccepts hprocessing
  | nil =>
      refine ⟨told, log, ?_⟩
      have haccounted := hfollows.accounted.consume
      have hdocuments := hfollows.processing
      rw [hprocessing, List.map_nil] at hdocuments
      have hqueue := hfollows.queue
      unfold Exporter.consume
      unfold Pipeline.consume at haccounted ⊢
      rw [hprocessing] at haccounted
      rw [hfollows.running, if_neg Bool.false_ne_true, hdocuments, hprocessing]
      cases hwaiting : pipeline.queue with
      | nil =>
          rw [hwaiting, List.map_nil] at hqueue
          rw [hqueue]
          exact hfollows
      | cons metrics queue =>
          rw [hwaiting, List.map_cons] at hqueue
          rw [hwaiting] at haccounted
          rw [hqueue]
          simp only [Metrics.fromJson_toJson]
          refine ⟨⟨hfollows.counts, rfl, rfl, hfollows.reported,
            hfollows.running⟩, hfollows.totals, hfollows.counters, ?_,
            haccounted⟩
          have hunderway := hfollows.underway
          rw [Pipeline.underway, hprocessing, hwaiting, List.nil_append,
            List.flatMap_cons] at hunderway
          exact hunderway

theorem step (hfollows : Follows prometheus told log exporter pipeline)
    (haccepts : AcceptsTotals prometheus) (capacity : Nat)
    (action : Pipeline.Action) :
    ∃ told log, Follows prometheus told log
      (exporter.step prometheus capacity action)
      (pipeline.stepWithin capacity action) := by
  cases action with
  | onEvent service count =>
      refine ⟨told, log, ⟨?_, hfollows.queue, hfollows.processing,
        hfollows.reported, hfollows.running⟩, hfollows.totals,
        hfollows.counters, hfollows.underway, hfollows.accounted⟩
      simp only [Exporter.step, Pipeline.stepWithin, Pipeline.step,
        hfollows.counts]
  | poll service => exact ⟨told, log, hfollows.poll capacity service⟩
  | consume => exact hfollows.consume haccepts

theorem run (hfollows : Follows prometheus told log exporter pipeline)
    (haccepts : AcceptsTotals prometheus) (capacity : Nat)
    (actions : List Pipeline.Action) :
    ∃ told log, Follows prometheus told log
      (Data.run (Exporter.step prometheus capacity) exporter actions)
      (Data.run (Pipeline.stepWithin capacity) pipeline actions) := by
  induction actions generalizing told log exporter pipeline with
  | nil => exact ⟨told, log, hfollows⟩
  | cons action rest ih =>
      obtain ⟨later, events, hlater⟩ := hfollows.step haccepts capacity action
      exact ih hlater

end Follows

/-- The consumer by itself drains the queue, and what was reported stays. -/
theorem consume_quiescent (capacity : Nat) (pipeline : Pipeline) :
    ∃ count, ∃ final,
      run (Pipeline.stepWithin capacity) pipeline
          (List.replicate count .consume) = final ∧
        final.Quiescent ∧ final.reported = pipeline.reported := by
  obtain ⟨counts, queue, processing, counters, reported⟩ := pipeline
  induction queue generalizing processing counters with
  | nil =>
      induction processing generalizing counters with
      | nil => exact ⟨0, _, rfl, ⟨rfl, rfl⟩, rfl⟩
      | cons data rest ih =>
          obtain ⟨count, hdrained⟩ := ih (counters.incrementCounter data)
          exact ⟨count + 1, hdrained⟩
  | cons metrics queue ih =>
      induction processing generalizing counters with
      | nil =>
          obtain ⟨count, hdrained⟩ := ih metrics.metrics counters
          exact ⟨count + 1, hdrained⟩
      | cons data rest ihrest =>
          obtain ⟨count, hdrained⟩ :=
            ihrest (counters.incrementCounter data)
          exact ⟨count + 1, hdrained⟩

/-- Whatever is polled when, and while what a service has reported adds up to
no more than its `double` tells apart, the documents do what the totals
themselves would do: the consumer goes on, and Prometheus shows the counters of
the services and no others.  Left to itself it comes to show all that was
reported. -/
theorem exporter_refines (haccepts : AcceptsTotals prometheus)
    (capacity : Nat) (actions : List Pipeline.Action)
    (hsums : ∀ service,
      ((run (Exporter.step prometheus capacity) .start actions).reported
        service).sum ≤ 2 ^ 53) :
    Refines (run (Exporter.step prometheus capacity) .start actions)
        (run (Pipeline.stepWithin capacity) .start actions) ∧
      ∃ count, ∀ service,
        (run (Exporter.step prometheus capacity) .start
            (actions ++ List.replicate count .consume)).exported service =
          ((run (Exporter.step prometheus capacity) .start actions).reported
            service).sum := by
  obtain ⟨told, log, hfollows⟩ := start_follows.run haccepts capacity actions
  refine ⟨hfollows.refines haccepts hsums, ?_⟩
  obtain ⟨count, final, hfinal, hquiescent, hreported⟩ :=
    consume_quiescent capacity (run (Pipeline.stepWithin capacity) .start
      actions)
  refine ⟨count, fun service => ?_⟩
  obtain ⟨later, events, hlater⟩ :=
    hfollows.run haccepts capacity (List.replicate count .consume)
  rw [hfinal] at hlater
  have hsame := hlater.reported.trans (hreported.trans hfollows.reported.symm)
  have hrefines := hlater.refines haccepts fun other => by
    rw [hsame]
    exact hsums other
  rw [run_append, hrefines.exported, hlater.accounted.value_eq hquiescent,
    hreported, hfollows.reported]

theorem acceptsTotals_allAllowed : AcceptsTotals allAllowed := by
  intro service
  apply decide_eq_true
  exact ⟨(execveSeries service).validName, (execveSeries service).validLabels⟩

/-- A queue with room for two, and three polls of a total that rises from 5 to
7 to 9. -/
def threePolls : List Pipeline.Action :=
  [.onEvent "example_usermode" 5, .poll "example_usermode",
    .onEvent "example_usermode" 7, .poll "example_usermode",
    .onEvent "example_usermode" 9, .poll "example_usermode"]

theorem reported_threePolls (service : String) :
    (run (Exporter.step allAllowed 2) .start threePolls).reported service =
      if service = "example_usermode" then [5, 7] else [] := by
  by_cases hservice : service = "example_usermode" <;>
    simp [threePolls, Exporter.step, Exporter.poll, Exporter.start, hservice]

/-- The third poll finds the queue full. -/
theorem exporter_refines_threePolls :
    ∃ count, ∀ service,
      (run (Exporter.step allAllowed 2) .start
        (threePolls ++ List.replicate count .consume)).exported service =
        if service = "example_usermode" then 12 else 0 := by
  obtain ⟨-, count, hexported⟩ := exporter_refines acceptsTotals_allAllowed 2
    threePolls (fun service => by
      rw [reported_threePolls]
      split_ifs <;> decide)
  refine ⟨count, fun service => ?_⟩
  rw [hexported, reported_threePolls]
  split_ifs <;> rfl

end Hebpf.Monitor
