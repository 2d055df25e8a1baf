import Hebpf.Common.Json
import Hebpf.Monitor.Series
import Mathlib.Algebra.FreeMonoid.Basic

namespace Hebpf.Monitor

open Hebpf.Common Hebpf.Data

/-! `consumeLoop` on any JSON documents in its queue.  It has a monitor: `run`
sets that before the thread starts, and `stop` resets it after the join. -/

/-- `KernelData`, with any number for its value. -/
structure Event where
  name : String
  value : Rat
  labels : OrderedMap String String
  deriving DecidableEq

/-- `Metrics`, with any documents in it. -/
structure Status where
  service : String
  metrics : List Json

def getDouble : Json → Result Rat
  | .number value => .ok value
  | .float value => .ok value
  | json => .error (json.typeError "number")

def getLabels : Json → Result (OrderedMap String String)
  | .object fields =>
      fields.foldlM (fun labels field => do
        let text ← field.2.getString
        return labels.emplace field.1 text) .empty
  | json => .error (json.typeError "object")

def Event.fromJson (json : Json) : Result Event := do
  let name ← json.fieldOr "name" "" Json.getString
  let value ← json.fieldOr "value" 0 getDouble
  let labels ← json.fieldOr "labels" .empty getLabels
  return { name, value, labels }

def Status.fromJson (json : Json) : Result Status := do
  let service ← json.fieldOr "service" "" Json.getString
  let metrics ← json.fieldOr "metrics" [] (Json.getVector .ok)
  return { service, metrics }

def Event.key (event : Event) : String :=
  makeKey event.name event.labels.entries

/-- Which names prometheus-cpp accepts, among those that Prometheus allows; for
others it throws. -/
structure Prometheus where
  accepts : String → OrderedMap String String → Bool
  valid : ∀ name labels, accepts name labels = true →
    IsMetricName name.toList ∧ ∀ label ∈ labels, IsLabelName label.1.toList

def Prometheus.series? (prometheus : Prometheus) (event : Event) :
    Option Series :=
  if haccepts : prometheus.accepts event.name event.labels = true then
    some {
      name := event.name
      labels := event.labels
      validName := (prometheus.valid _ _ haccepts).1
      validLabels := (prometheus.valid _ _ haccepts).2 }
  else none

/-- A counter adds up the events it is incremented for. -/
abbrev EventMonitor := MonitorState (FreeAddMonoid Event)

namespace EventMonitor

def incrementCounter (prometheus : Prometheus) (monitor : EventMonitor)
    (event : Event) : Result EventMonitor :=
  if event.key = "" then .error ⟨"invalid key"⟩
  else
    match monitor.counters.lookup event.key with
    | none =>
        match prometheus.series? event with
        | none => .error ⟨"Invalid metric or label name"⟩
        | some series =>
            let added := MonitorState.add monitor series
            .ok (MonitorState.increment
              { added with
                counters := added.counters.insert event.key series }
              series (.of event))
    | some counter => .ok (MonitorState.increment monitor counter (.of event))

def applied (monitor : EventMonitor) (series : Series) : List Event :=
  ((monitor.registry.lookup series).map FreeAddMonoid.toList).getD []

def consumeMetrics (prometheus : Prometheus) :
    EventMonitor → List Json → Result Unit × EventMonitor
  | monitor, [] => (.ok (), monitor)
  | monitor, elem :: rest =>
      match Event.fromJson elem with
      | .error exc => (.error exc, monitor)
      | .ok event =>
          match incrementCounter prometheus monitor event with
          | .error exc => (.error exc, monitor)
          | .ok next => consumeMetrics prometheus next rest

end EventMonitor

structure Consumer where
  ended : Bool
  monitor : EventMonitor

namespace Consumer

def start : Consumer := ⟨false, .start⟩

def consume (prometheus : Prometheus) (consumer : Consumer) (json : Json) :
    Consumer :=
  if consumer.ended then consumer
  else
    match Status.fromJson json with
    | .error _ => { consumer with ended := true }
    | .ok status =>
        match consumer.monitor.consumeMetrics prometheus status.metrics with
        | (.error _, monitor) => ⟨true, monitor⟩
        | (.ok (), monitor) => ⟨false, monitor⟩

end Consumer

def metricsOf (json : Json) : List Json :=
  match json.field? "metrics" with
  | some (.array items) => items
  | _ => []

def eventsOf (prometheus : Prometheus) (series : Series)
    (metrics : List Json) : List Event :=
  metrics.filterMap fun json =>
    match Event.fromJson json with
    | .ok event =>
        if prometheus.series? event = some series then some event else none
    | .error _ => none

/-- The loop goes on, and each well-formed metric was applied to the counter of
its series once. -/
structure Isolates (prometheus : Prometheus) (elements : List Json)
    (consumer : Consumer) : Prop where
  running : consumer.ended = false
  applied : ∀ series, (consumer.monitor.applied series).filter (fun event =>
      prometheus.series? event = some series) =
    eventsOf prometheus series (elements.flatMap metricsOf)

def NamesTold (prometheus : Prometheus) (events : List Event) : Prop :=
  ∀ before event after, events = before ++ event :: after →
    prometheus.series? event = none →
      ∃ other ∈ before, (prometheus.series? other).isSome = true ∧
        other.key = event.key

def KeysTold (prometheus : Prometheus) (events : List Event) : Prop :=
  ∀ first ∈ events, ∀ second ∈ events, first.key = second.key →
    ∀ series ∈ prometheus.series? first,
      ∀ other ∈ prometheus.series? second, series = other

structure Told (prometheus : Prometheus) (events : List Event) : Prop where
  names : NamesTold prometheus events
  keys : KeysTold prometheus events

def Harmless (prometheus : Prometheus) (elements : List Json) : Prop :=
  (∀ json ∈ elements, ∃ status, Status.fromJson json = .ok status) ∧
    ∃ events, List.Forall₂ (fun json event => Event.fromJson json = .ok event)
      (elements.flatMap metricsOf) events ∧ Told prometheus events

variable {prometheus : Prometheus}

theorem mapM_ok (items : List Json) :
    items.mapM (Except.ok : Json → Result Json) = .ok items := by
  induction items with
  | nil => rfl
  | cons first rest ih =>
      rw [List.mapM_cons, ih]
      rfl

theorem getVector_ok {json : Json} {items : List Json}
    (hitems : json.getVector .ok = .ok items) : json = .array items := by
  cases json with
  | array elements =>
      rw [Json.getVector, mapM_ok] at hitems
      cases hitems
      rfl
  | _ => cases hitems

theorem metrics_of_fromJson {json : Json} {status : Status}
    (hstatus : Status.fromJson json = .ok status) :
    status.metrics = metricsOf json := by
  obtain ⟨service, -, hrest⟩ := bind_eq_ok_iff.mp hstatus
  obtain ⟨metrics, hmetrics, hresult⟩ := bind_eq_ok_iff.mp hrest
  cases hresult
  unfold Json.fieldOr at hmetrics
  unfold metricsOf
  cases hfield : json.field? "metrics" with
  | none =>
      rw [hfield] at hmetrics
      cases hmetrics
      rfl
  | some value =>
      rw [hfield] at hmetrics
      rw [getVector_ok hmetrics]

namespace EventMonitor

variable {monitor final : EventMonitor}

theorem consumeMetrics_eq_ok_iff {metrics : List Json} :
    monitor.consumeMetrics prometheus metrics = (.ok (), final) ↔
      ∃ events, List.Forall₂
        (fun json event => Event.fromJson json = .ok event) metrics events ∧
        events.foldlM (incrementCounter prometheus) monitor = .ok final := by
  induction metrics generalizing monitor with
  | nil => simp [consumeMetrics, pure, Except.pure]
  | cons json metrics ih =>
      unfold consumeMetrics
      cases hjson : Event.fromJson json with
      | error exc => simp [List.forall₂_cons_left_iff, hjson]
      | ok event =>
          cases hnext : incrementCounter prometheus monitor event with
          | error exc =>
              simp [List.forall₂_cons_left_iff, hjson, hnext, bind,
                Except.bind]
          | ok next =>
              simp [List.forall₂_cons_left_iff, hjson, hnext, bind,
                Except.bind, ih]

theorem consumeMetrics_append {first second : List Json} :
    monitor.consumeMetrics prometheus (first ++ second) = (.ok (), final) ↔
      ∃ middle, monitor.consumeMetrics prometheus first = (.ok (), middle) ∧
        consumeMetrics prometheus middle second = (.ok (), final) := by
  induction first generalizing monitor with
  | nil => simp [consumeMetrics]
  | cons json first ih =>
      simp only [List.cons_append, consumeMetrics]
      cases Event.fromJson json with
      | error exc => simp
      | ok event =>
          cases hnext : incrementCounter prometheus monitor event with
          | error exc => simp [hnext]
          | ok next => simp [hnext, ih]

end EventMonitor

namespace Consumer

theorem run_ended {consumer : Consumer} (hended : consumer.ended = true)
    (elements : List Json) :
    run (consume prometheus) consumer elements = consumer := by
  induction elements with
  | nil => rfl
  | cons json elements ih => rwa [run_cons, consume, if_pos hended]

theorem run_eq_running_iff {monitor final : EventMonitor}
    {elements : List Json} :
    run (consume prometheus) ⟨false, monitor⟩ elements = ⟨false, final⟩ ↔
      (∀ json ∈ elements, ∃ status, Status.fromJson json = .ok status) ∧
        monitor.consumeMetrics prometheus (elements.flatMap metricsOf) =
          (.ok (), final) := by
  induction elements generalizing monitor with
  | nil => simp [EventMonitor.consumeMetrics]
  | cons json elements ih =>
      rw [run_cons, List.flatMap_cons, EventMonitor.consumeMetrics_append,
        List.forall_mem_cons, consume, if_neg Bool.false_ne_true]
      cases hstatus : Status.fromJson json with
      | error exc =>
          simp only
          rw [run_ended rfl]
          simp
      | ok status =>
          simp only [metrics_of_fromJson hstatus]
          cases hmetrics : monitor.consumeMetrics prometheus
              (metricsOf json) with
          | mk result next =>
              cases result with
              | error exc =>
                  simp only
                  rw [run_ended rfl]
                  simp
              | ok done =>
                  simp only
                  rw [ih]
                  simp

end Consumer

/-! Each event that gets through is a call for a series: its own where it is
accepted, and else the one of the counter it came to. -/

theorem Prometheus.key_of_series? {event : Event} {series : Series}
    (hseries : prometheus.series? event = some series) :
    series.key = event.key := by
  unfold Prometheus.series? at hseries
  split_ifs at hseries
  cases hseries
  rfl

def callOf (entry : Event × Series) : Call (FreeAddMonoid Event) :=
  ⟨entry.2, .of entry.1⟩

structure Logged (prometheus : Prometheus) (log : List (Event × Series))
    (monitor : EventMonitor) : Prop where
  accounted : MonitorState.Accounted (log.map callOf) monitor
  key : ∀ entry ∈ log, entry.2.key = entry.1.key
  own : ∀ entry ∈ log, ∀ series, prometheus.series? entry.1 = some series →
    entry.2 = series
  accepted : ∀ entry ∈ log, ∃ other ∈ log,
    prometheus.series? other.1 = some entry.2

variable {log : List (Event × Series)} {monitor : EventMonitor}
variable {event : Event}

theorem step_eq (call : Call (FreeAddMonoid Event)) :
    MonitorState.step monitor call =
      match monitor.counters.lookup call.series.key with
      | none =>
          let added := MonitorState.add monitor call.series
          MonitorState.increment
            { added with
              counters := added.counters.insert call.series.key call.series }
            call.series call.value
      | some counter => MonitorState.increment monitor counter call.value := by
  unfold MonitorState.step MonitorState.incrementCounter
  rw [if_neg call.series.key_ne_empty]
  cases monitor.counters.lookup call.series.key with
  | none => rfl
  | some counter => rfl

theorem incrementCounter_of_series {series : Series}
    (hseries : prometheus.series? event = some series) :
    monitor.incrementCounter prometheus event =
      .ok (MonitorState.step monitor (callOf (event, series))) := by
  unfold EventMonitor.incrementCounter
  rw [← Prometheus.key_of_series? hseries, if_neg series.key_ne_empty,
    hseries, step_eq]
  simp only [callOf]
  cases monitor.counters.lookup series.key with
  | none => rfl
  | some counter => rfl

theorem incrementCounter_of_counter {counter : Series}
    (hcounter : monitor.counters.lookup event.key = some counter)
    (hkey : counter.key = event.key) :
    monitor.incrementCounter prometheus event =
      .ok (MonitorState.step monitor (callOf (event, counter))) := by
  rw [← hkey] at hcounter
  unfold EventMonitor.incrementCounter
  rw [← hkey, if_neg counter.key_ne_empty, step_eq]
  simp only [callOf, hcounter]

theorem incrementCounter_of_neither {next : EventMonitor}
    (hseries : prometheus.series? event = none)
    (hcounter : monitor.counters.lookup event.key = none) :
    monitor.incrementCounter prometheus event ≠ .ok next := by
  unfold EventMonitor.incrementCounter
  rw [hseries, hcounter]
  split_ifs
  · simp
  · simp

theorem start_logged : Logged prometheus [] .start where
  accounted := MonitorState.start_accounted
  key := by simp
  own := by simp
  accepted := by simp

namespace Logged

theorem counter_iff (hlogged : Logged prometheus log monitor) (key : String) :
    (∃ counter, monitor.counters.lookup key = some counter) ↔
      ∃ entry ∈ log, (prometheus.series? entry.1).isSome = true ∧
        entry.1.key = key := by
  constructor
  · intro hcounter
    obtain ⟨counter, hcounter⟩ := hcounter
    obtain ⟨call, hcall, hseries⟩ :=
      hlogged.accounted.called_of_lookup hcounter
    obtain ⟨entry, hentry, hcallOf⟩ := List.mem_map.mp hcall
    obtain ⟨other, hother, hown⟩ := hlogged.accepted entry hentry
    have hkey := hlogged.accounted.key_eq hcounter
    rw [← hseries, ← hcallOf] at hkey
    refine ⟨other, hother, Option.isSome_of_eq_some hown, ?_⟩
    rw [← Prometheus.key_of_series? hown]
    exact hkey
  · intro hentry
    obtain ⟨entry, hentry, -, hkey⟩ := hentry
    obtain ⟨first, -, -, hcounter⟩ := hlogged.accounted.lookup_of_mem
      (List.mem_map_of_mem hentry)
    have hcallOf : (callOf entry).series.key = key :=
      (hlogged.key entry hentry).trans hkey
    exact ⟨first.series, hcallOf ▸ hcounter⟩

theorem concat (hlogged : Logged prometheus log monitor) {series : Series}
    (hkey : series.key = event.key)
    (hown : ∀ own, prometheus.series? event = some own → series = own)
    (haccepted : ∃ other ∈ log ++ [(event, series)],
      prometheus.series? other.1 = some series) :
    Logged prometheus (log ++ [(event, series)])
      (MonitorState.step monitor (callOf (event, series))) where
  accounted := by
    rw [List.map_append]
    exact hlogged.accounted.step _
  key := by
    rw [List.forall_mem_append, List.forall_mem_singleton]
    exact ⟨hlogged.key, hkey⟩
  own := by
    rw [List.forall_mem_append, List.forall_mem_singleton]
    exact ⟨hlogged.own, hown⟩
  accepted := by
    rw [List.forall_mem_append, List.forall_mem_singleton]
    refine ⟨fun entry hentry => ?_, haccepted⟩
    obtain ⟨other, hother, hseries⟩ := hlogged.accepted entry hentry
    exact ⟨other, List.mem_append_left _ hother, hseries⟩

theorem step (hlogged : Logged prometheus log monitor)
    (hgoes : prometheus.series? event = none →
      ∃ counter, monitor.counters.lookup event.key = some counter) :
    ∃ next series, monitor.incrementCounter prometheus event = .ok next ∧
      Logged prometheus (log ++ [(event, series)]) next := by
  cases hseries : prometheus.series? event with
  | some series =>
      refine ⟨_, series, incrementCounter_of_series hseries, ?_⟩
      apply hlogged.concat (Prometheus.key_of_series? hseries)
      · intro own hown
        exact Option.some.inj (hseries.symm.trans hown)
      · exact ⟨(event, series), by simp, hseries⟩
  | none =>
      obtain ⟨counter, hcounter⟩ := hgoes hseries
      have hkey := hlogged.accounted.key_eq hcounter
      refine ⟨_, counter, incrementCounter_of_counter hcounter hkey, ?_⟩
      apply hlogged.concat hkey
      · intro own hown
        cases hseries.symm.trans hown
      · obtain ⟨call, hcall, hcounterOf⟩ :=
          hlogged.accounted.called_of_lookup hcounter
        obtain ⟨entry, hentry, rfl⟩ := List.mem_map.mp hcall
        obtain ⟨other, hother, hown⟩ := hlogged.accepted entry hentry
        rw [← hcounterOf]
        exact ⟨other, List.mem_append_left _ hother, hown⟩

theorem goes_of_ok {next : EventMonitor}
    (hok : monitor.incrementCounter prometheus event = .ok next)
    (hseries : prometheus.series? event = none) :
    ∃ counter, monitor.counters.lookup event.key = some counter := by
  apply Option.ne_none_iff_exists'.mp
  intro hcounter
  exact incrementCounter_of_neither hseries hcounter hok

end Logged

theorem namesTold_concat {events : List Event} :
    NamesTold prometheus (events ++ [event]) ↔
      NamesTold prometheus events ∧ (prometheus.series? event = none →
        ∃ other ∈ events, (prometheus.series? other).isSome = true ∧
          other.key = event.key) := by
  constructor
  · intro htold
    refine ⟨fun before each after hevents => ?_, htold events event [] rfl⟩
    apply htold before each (after ++ [event])
    rw [hevents, List.append_assoc, List.cons_append]
  · intro htold before each after hevents
    rcases List.eq_nil_or_concat after with rfl | ⟨rest, last, rfl⟩
    · obtain ⟨rfl, heach⟩ := List.append_inj' hevents rfl
      cases heach
      exact htold.2
    · rw [List.concat_eq_append, ← List.cons_append,
        ← List.append_assoc] at hevents
      exact htold.1 before each rest (List.append_inj' hevents rfl).1

theorem logged_of_foldlM {events : List Event} {final : EventMonitor}
    (hfold : events.foldlM (EventMonitor.incrementCounter prometheus) .start =
      .ok final) :
    NamesTold prometheus events ∧
      ∃ log, log.map Prod.fst = events ∧ Logged prometheus log final := by
  induction events using List.reverseRecOn generalizing final with
  | nil =>
      cases hfold
      exact ⟨fun before event after hevents => by simp at hevents, [], rfl,
        start_logged⟩
  | append_singleton events event ih =>
      rw [List.foldlM_append] at hfold
      obtain ⟨middle, hmiddle, hlast⟩ := bind_eq_ok_iff.mp hfold
      obtain ⟨htold, log, rfl, hlogged⟩ := ih hmiddle
      rw [List.foldlM_cons] at hlast
      obtain ⟨next, hnext, hfinal⟩ := bind_eq_ok_iff.mp hlast
      cases hfinal
      have hgoes := Logged.goes_of_ok hnext
      obtain ⟨other, series, hother, hlater⟩ := hlogged.step hgoes
      cases hnext.symm.trans hother
      refine ⟨namesTold_concat.mpr ⟨htold, fun hseries => ?_⟩, _, ?_, hlater⟩
      · obtain ⟨entry, hentry, haccepted⟩ :=
          (hlogged.counter_iff _).mp (hgoes hseries)
        exact ⟨entry.1, List.mem_map_of_mem hentry, haccepted⟩
      · rw [List.map_append, List.map_singleton]

theorem foldlM_of_namesTold {events : List Event}
    (htold : NamesTold prometheus events) :
    ∃ final, events.foldlM (EventMonitor.incrementCounter prometheus) .start =
      .ok final := by
  induction events using List.reverseRecOn with
  | nil => exact ⟨_, rfl⟩
  | append_singleton events event ih =>
      obtain ⟨htold, hgoes⟩ := namesTold_concat.mp htold
      obtain ⟨middle, hmiddle⟩ := ih htold
      obtain ⟨-, log, rfl, hlogged⟩ := logged_of_foldlM hmiddle
      have hcounter : prometheus.series? event = none →
          ∃ counter, middle.counters.lookup event.key = some counter := by
        intro hseries
        obtain ⟨other, hother, haccepted⟩ := hgoes hseries
        obtain ⟨entry, hentry, rfl⟩ := List.mem_map.mp hother
        exact (hlogged.counter_iff _).mpr ⟨entry, hentry, haccepted⟩
      obtain ⟨next, -, hnext, -⟩ := hlogged.step hcounter
      refine ⟨next, ?_⟩
      rw [List.foldlM_append, hmiddle]
      exact bind_eq_ok_iff.mpr ⟨middle, rfl,
        bind_eq_ok_iff.mpr ⟨next, hnext, rfl⟩⟩

namespace Logged

theorem toList_total (log : List (Event × Series)) :
    (total (log.map callOf)).toList = log.map Prod.fst := by
  induction log using List.reverseRecOn with
  | nil => rfl
  | append_singleton log entry ih =>
      rw [List.map_append, List.map_singleton, total_concat,
        FreeAddMonoid.toList_add, ih, List.map_append]
      rfl

theorem applied_eq (hlogged : Logged prometheus log monitor)
    (series : Series) :
    monitor.applied series =
      if monitor.counters.lookup series.key = some series then
        (log.map Prod.fst).filter fun event => event.key = series.key
      else [] := by
  have hcalls : callsWith series.key (log.map callOf) =
      (log.filter fun entry => entry.1.key = series.key).map callOf := by
    rw [callsWith, List.filter_map]
    congr 1
    apply List.filter_congr
    intro entry hentry
    rw [← hlogged.key entry hentry]
    rfl
  unfold EventMonitor.applied
  rw [hlogged.accounted.registry]
  split_ifs with hcounter
  · rw [Option.map_some, Option.getD_some, hcalls, toList_total,
      List.filter_map]
    rfl
  · rfl

theorem entry_of_mem (hlogged : Logged prometheus log monitor)
    (hevent : event ∈ log.map Prod.fst) {series : Series}
    (hseries : prometheus.series? event = some series) :
    (event, series) ∈ log := by
  obtain ⟨entry, hentry, rfl⟩ := List.mem_map.mp hevent
  rw [← hlogged.own entry hentry series hseries]
  exact hentry

theorem counter_of_applied (hlogged : Logged prometheus log monitor)
    {series : Series}
    (happlied : (monitor.applied series).filter (fun event =>
        prometheus.series? event = some series) =
      (log.map Prod.fst).filter fun event =>
        prometheus.series? event = some series)
    (hevent : event ∈ log.map Prod.fst)
    (hseries : prometheus.series? event = some series) :
    monitor.counters.lookup series.key = some series := by
  have hmem : event ∈ (log.map Prod.fst).filter fun event =>
      prometheus.series? event = some series := by
    rw [List.mem_filter]
    exact ⟨hevent, decide_eq_true hseries⟩
  rw [← happlied, hlogged.applied_eq] at hmem
  apply of_not_not
  intro hne
  rw [if_neg hne] at hmem
  cases hmem

theorem counter_of_keysTold (hlogged : Logged prometheus log monitor)
    (hkeys : KeysTold prometheus (log.map Prod.fst))
    (hevent : event ∈ log.map Prod.fst) {series : Series}
    (hseries : prometheus.series? event = some series) :
    monitor.counters.lookup series.key = some series := by
  have hentry := hlogged.entry_of_mem hevent hseries
  obtain ⟨call, hcall, hkey, hcounter⟩ := hlogged.accounted.lookup_of_mem
    (List.mem_map_of_mem hentry)
  obtain ⟨first, hfirst, rfl⟩ := List.mem_map.mp hcall
  obtain ⟨other, hother, haccepted⟩ := hlogged.accepted first hfirst
  have hsame : first.2 = series := by
    apply hkeys other.1 (List.mem_map_of_mem hother) event hevent
      _ _ haccepted _ hseries
    rw [← Prometheus.key_of_series? haccepted,
      ← Prometheus.key_of_series? hseries]
    exact hkey
  rw [← hsame] at hcounter ⊢
  exact hcounter

theorem applied_iff (hlogged : Logged prometheus log monitor) :
    (∀ series, (monitor.applied series).filter (fun event =>
        prometheus.series? event = some series) =
      (log.map Prod.fst).filter fun event =>
        prometheus.series? event = some series) ↔
      KeysTold prometheus (log.map Prod.fst) := by
  constructor
  · intro happlied first hfirst second hsecond hkeys series hseries other hother
    have hkey := Prometheus.key_of_series? hseries
    rw [hkeys, ← Prometheus.key_of_series? hother] at hkey
    have hcounter :=
      hlogged.counter_of_applied (happlied series) hfirst hseries
    rw [hkey, hlogged.counter_of_applied (happlied other) hsecond hother]
      at hcounter
    exact (Option.some.inj hcounter).symm
  · intro hkeys series
    rw [hlogged.applied_eq]
    split_ifs with hcounter
    · rw [List.filter_filter]
      apply List.filter_congr
      intro event hevent
      cases hseries : decide (prometheus.series? event = some series) with
      | false => rfl
      | true =>
          have hkey := Prometheus.key_of_series? (of_decide_eq_true hseries)
          rw [decide_eq_true hkey.symm]
          rfl
    · symm
      apply List.filter_eq_nil_iff.mpr
      intro event hevent hseries
      exact hcounter (hlogged.counter_of_keysTold hkeys hevent
        (of_decide_eq_true hseries))

end Logged

theorem eventsOf_eq {metrics : List Json} {events : List Event}
    (hevents : List.Forall₂
      (fun json event => Event.fromJson json = .ok event) metrics events)
    (series : Series) :
    eventsOf prometheus series metrics =
      events.filter fun event => prometheus.series? event = some series := by
  induction hevents with
  | nil => rfl
  | cons hjson hrest ih =>
      unfold eventsOf at ih ⊢
      rw [List.filterMap_cons, hjson, List.filter_cons, ← ih]
      simp only [decide_eq_true_eq]
      split_ifs with hseries
      · rfl
      · rfl

theorem isolates_iff (prometheus : Prometheus) (elements : List Json) :
    Isolates prometheus elements
        (run (Consumer.consume prometheus) .start elements) ↔
      Harmless prometheus elements := by
  constructor
  · intro hisolates
    have hrunning : run (Consumer.consume prometheus) .start elements =
        ⟨false, (run (Consumer.consume prometheus) .start elements).monitor⟩ :=
      congrArg (Consumer.mk · _) hisolates.running
    obtain ⟨hstatus, hmetrics⟩ := Consumer.run_eq_running_iff.mp hrunning
    obtain ⟨events, hevents, hfold⟩ :=
      EventMonitor.consumeMetrics_eq_ok_iff.mp hmetrics
    obtain ⟨hnames, log, rfl, hlogged⟩ := logged_of_foldlM hfold
    refine ⟨hstatus, _, hevents, hnames, hlogged.applied_iff.mp ?_⟩
    intro series
    rw [hisolates.applied, eventsOf_eq hevents]
  · intro hharmless
    obtain ⟨hstatus, events, hevents, htold⟩ := hharmless
    obtain ⟨final, hfold⟩ := foldlM_of_namesTold htold.names
    obtain ⟨-, log, rfl, hlogged⟩ := logged_of_foldlM hfold
    have hrun : run (Consumer.consume prometheus) .start elements =
        ⟨false, final⟩ := Consumer.run_eq_running_iff.mpr
      ⟨hstatus, EventMonitor.consumeMetrics_eq_ok_iff.mpr
        ⟨_, hevents, hfold⟩⟩
    rw [hrun]
    refine ⟨rfl, fun series => ?_⟩
    rw [eventsOf_eq hevents]
    exact hlogged.applied_iff.mpr htold.keys series

/-- prometheus-cpp, where it accepts all that Prometheus allows. -/
def allAllowed : Prometheus where
  accepts name labels := decide (IsMetricName name.toList ∧
    ∀ label ∈ labels.entries, IsLabelName label.1.toList)
  valid _ _ haccepts := of_decide_eq_true haccepts

/-- A metric whose name is a number, before one that has a name. -/
def numberedName : Json :=
  .object [("service", .string "acl"), ("metrics", .array [
    .object [("name", .number 1)],
    .object [("name", .string "requests"), ("value", .number 2)]])]

theorem not_isolates_numberedName :
    ¬ Isolates allAllowed [numberedName]
      (run (Consumer.consume allAllowed) .start [numberedName]) := by
  intro hisolates
  have hended : (run (Consumer.consume allAllowed) .start
      [numberedName]).ended = true := by decide
  rw [hisolates.running] at hended
  cases hended

end Hebpf.Monitor
