import Hebpf.Data.OrderedMap
import Hebpf.Monitor.Counters
import Mathlib.Data.List.AList
import Mathlib.Data.String.Basic
import Mathlib.Data.List.Induction

namespace Hebpf.Monitor

open Hebpf.Data

/-! `Monitor::incrementCounter`: which counter of the registry a call reaches
through the cache, whose keys are `makeKey`'s. -/

def isNameStart (char : Char) : Bool := char.isAlpha || char = '_'

def isNameChar (char : Char) : Bool := char.isAlphanum || char = '_'

/-- `[a-zA-Z_][a-zA-Z0-9_]*` -/
def IsLabelName : List Char → Prop
  | [] => False
  | first :: rest => isNameStart first = true ∧ rest.all isNameChar = true

instance : DecidablePred IsLabelName
  | [] => inferInstanceAs (Decidable False)
  | _ :: _ => inferInstanceAs (Decidable (_ ∧ _))

/-- `[a-zA-Z_:][a-zA-Z0-9_:]*` -/
def IsMetricName : List Char → Prop
  | [] => False
  | first :: rest =>
      (isNameStart first = true ∨ first = ':') ∧
        rest.all (fun char => isNameChar char || char = ':') = true

instance : DecidablePred IsMetricName
  | [] => inferInstanceAs (Decidable False)
  | _ :: _ => inferInstanceAs (Decidable (_ ∧ _))

theorem isNameChar_of_isNameStart {char : Char}
    (hstart : isNameStart char = true) : isNameChar char = true := by
  unfold isNameStart at hstart
  unfold isNameChar Char.isAlphanum
  rcases Bool.or_eq_true_iff.mp hstart with halpha | hunder
  · rw [halpha, Bool.true_or, Bool.true_or]
  · rw [hunder, Bool.or_true]

theorem IsLabelName.chars {label : List Char}
    (hlabel : IsLabelName label) :
    ∀ char ∈ label, isNameChar char = true := by
  cases label with
  | nil => exact hlabel.elim
  | cons first rest =>
      exact List.forall_mem_cons.mpr
        ⟨isNameChar_of_isNameStart hlabel.1, List.all_eq_true.mp hlabel.2⟩

theorem IsLabelName.not_mem {label : List Char} (hlabel : IsLabelName label)
    {char : Char} (hchar : isNameChar char = false) : char ∉ label := by
  intro hmem
  rw [hlabel.chars char hmem] at hchar
  cases hchar

theorem IsMetricName.bar_not_mem {name : List Char}
    (hname : IsMetricName name) : '|' ∉ name := by
  intro hmem
  cases name with
  | nil => exact hname
  | cons first rest =>
      rcases List.mem_cons.mp hmem with heq | hrest
      · have hstart := hname.1
        rw [← heq] at hstart
        exact absurd hstart (by decide)
      · exact absurd (List.all_eq_true.mp hname.2 '|' hrest) (by decide)

theorem IsMetricName.ne_nil {name : List Char} (hname : IsMetricName name) :
    name ≠ [] := by
  intro hnil
  rw [hnil] at hname
  exact hname

/-- What Prometheus tells one counter from another by. -/
@[ext]
structure Series where
  name : String
  labels : OrderedMap String String
  validName : IsMetricName name.toList
  validLabels : ∀ label ∈ labels, IsLabelName label.1.toList
  deriving DecidableEq

def Series.key (series : Series) : String :=
  makeKey series.name series.labels.entries

/-! The monitor.  A counter of the registry is known by its series, and adds up
what `Counter::Increment` adds. -/

section Counting

variable {Value : Type} [Zero Value] [Add Value]

/-- `registry_`, and `counters_` with its references. -/
structure MonitorState (Value : Type) where
  registry : Table Series Value
  counters : Table String Series

structure Call (Value : Type) where
  series : Series
  value : Value

namespace MonitorState

def start : MonitorState Value := ⟨∅, ∅⟩

/-- `Register` and `Family::Add`: the counter of a series there is none of yet
begins at zero. -/
def add (monitor : MonitorState Value) (series : Series) : MonitorState Value :=
  match monitor.registry.lookup series with
  | some _ => monitor
  | none => { monitor with registry := monitor.registry.insert series 0 }

def increment (monitor : MonitorState Value) (counter : Series) (value : Value) :
    MonitorState Value :=
  match monitor.registry.lookup counter with
  | some total =>
      { monitor with
        registry := monitor.registry.insert counter (total + value) }
  | none => monitor

def counterOf (monitor : MonitorState Value) (series : Series) : Series :=
  match monitor.counters.lookup series.key with
  | some counter => counter
  | none => series

def incrementCounter (monitor : MonitorState Value) (call : Call Value) :
    Except String (MonitorState Value) :=
  if call.series.key = "" then .error "invalid key"
  else
    match monitor.counters.lookup call.series.key with
    | none =>
        let added := monitor.add call.series
        .ok (increment
          { added with
            counters := added.counters.insert call.series.key call.series }
          call.series call.value)
    | some counter => .ok (monitor.increment counter call.value)

def step (monitor : MonitorState Value) (call : Call Value) : MonitorState Value :=
  match monitor.incrementCounter call with
  | .ok next => next
  | .error _ => monitor

end MonitorState

def total (calls : List (Call Value)) : Value :=
  calls.foldl (fun sum call => sum + call.value) 0

/-- A series is exported with the total of its own calls, and calls for
different series increment different counters. -/
structure Exact (calls : List (Call Value)) (monitor : MonitorState Value) :
    Prop where
  exported : ∀ series, monitor.registry.lookup series =
    if ∃ call ∈ calls, call.series = series then
      some (total (calls.filter fun call => call.series = series))
    else none
  apart : ∀ first ∈ calls, ∀ second ∈ calls,
    monitor.counterOf first.series = monitor.counterOf second.series →
      first.series = second.series

end Counting

/-! What a key tells.  A label is cut at each `|` of its value that a label
name and a `=` follow. -/

/-- `label=` at the front of a piece, and what stands behind it. -/
def opens? (piece : List Char) : Option (List Char × List Char) :=
  match piece.dropWhile (· ≠ '=') with
  | [] => none
  | _ :: value =>
      if IsLabelName (piece.takeWhile (· ≠ '=')) then
        some (piece.takeWhile (· ≠ '='), value)
      else none

/-- The pieces behind a label, where one that opens no label belongs to the
value before it. -/
def gatherFrom (label value : List Char) :
    List (List Char) → List (List Char × List Char)
  | [] => [(label, value)]
  | piece :: rest =>
      match opens? piece with
      | some (next, begun) => (label, value) :: gatherFrom next begun rest
      | none => gatherFrom label (value ++ '|' :: piece) rest

def cutLabel (label value : List Char) : List (List Char × List Char) :=
  match value.splitOn '|' with
  | [] => []
  | first :: rest => gatherFrom label first rest

def Series.cut (series : Series) : List (List Char × List Char) :=
  series.labels.entries.flatMap fun label =>
    cutLabel label.1.toList label.2.toList

def labelText (label : List Char × List Char) : List Char :=
  '|' :: (label.1 ++ '=' :: label.2)

theorem makeKey_toList (name : String) (labels : List (String × String)) :
    (makeKey name labels).toList =
      name.toList ++ labels.flatMap fun label =>
        labelText (label.1.toList, label.2.toList) := by
  induction labels generalizing name with
  | nil => exact (List.append_nil _).symm
  | cons label rest ih =>
      rw [makeKey, List.foldl_cons, ← makeKey, ih]
      simp [labelText, String.toList_append]

theorem splitOn_bar_join {text first : List Char} {rest : List (List Char)}
    (hsplit : text.splitOn '|' = first :: rest) :
    text = first ++ rest.flatMap ('|' :: ·) := by
  induction text generalizing first rest with
  | nil =>
      obtain ⟨rfl, rfl⟩ := List.cons.inj hsplit
      rfl
  | cons char text ih =>
      rw [List.splitOn_cons_eq_if_modifyHead] at hsplit
      obtain ⟨head, tail, hwords⟩ :=
        List.exists_cons_of_ne_nil (List.splitOn_ne_nil '|' text)
      have htext := ih hwords
      rw [hwords] at hsplit
      split_ifs at hsplit with hbar
      · obtain ⟨rfl, rfl⟩ := List.cons.inj hsplit
        rw [eq_of_beq hbar, htext]
        rfl
      · obtain ⟨rfl, rfl⟩ := List.cons.inj hsplit
        rw [htext]
        rfl

theorem splitOn_bar_append {front text first : List Char}
    {rest : List (List Char)} (hfront : '|' ∉ front)
    (hsplit : text.splitOn '|' = first :: rest) :
    (front ++ text).splitOn '|' = (front ++ first) :: rest := by
  induction front with
  | nil => exact hsplit
  | cons char front ih =>
      obtain ⟨hchar, hlater⟩ := not_or.mp (List.mem_cons.not.mp hfront)
      rw [List.cons_append, List.splitOn_cons_eq_if_modifyHead, ih hlater,
        if_neg (by simpa using Ne.symm hchar)]
      rfl

theorem opens?_eq_some {piece label value : List Char}
    (hopens : opens? piece = some (label, value)) :
    piece = label ++ '=' :: value := by
  have hpiece : piece.takeWhile (· ≠ '=') ++ piece.dropWhile (· ≠ '=') =
      piece := List.takeWhile_append_dropWhile
  unfold opens? at hopens
  cases hrest : piece.dropWhile (· ≠ '=') with
  | nil =>
      rw [hrest] at hopens
      cases hopens
  | cons char behind =>
      have hchar : char = '=' := by
        have hhead := List.head?_dropWhile_not (· ≠ '=') piece
        rw [hrest] at hhead
        simpa using hhead
      simp only [hrest] at hopens
      split_ifs at hopens with hlabel
      obtain ⟨rfl, rfl⟩ := Prod.mk.inj (Option.some.inj hopens)
      rw [hrest, hchar] at hpiece
      exact hpiece.symm

theorem opens?_label {label : List Char} (hlabel : IsLabelName label)
    (value : List Char) :
    opens? (label ++ '=' :: value) = some (label, value) := by
  have hname : ∀ char ∈ label, decide (char ≠ '=') = true := by
    intro char hchar
    have hequals : '=' ∉ label := hlabel.not_mem (by decide)
    exact decide_eq_true (ne_of_mem_of_not_mem hchar hequals)
  have hdrop : (label ++ '=' :: value).dropWhile (· ≠ '=') = '=' :: value := by
    rw [List.dropWhile_append_of_pos hname]
    exact List.dropWhile_cons_of_neg (by decide)
  have htake : (label ++ '=' :: value).takeWhile (· ≠ '=') = label := by
    rw [List.takeWhile_append_of_pos hname,
      List.takeWhile_cons_of_neg (by decide), List.append_nil]
  unfold opens?
  simp only [hdrop, htake]
  exact if_pos hlabel

theorem flatMap_gatherFrom (label value : List Char)
    (pieces : List (List Char)) :
    (gatherFrom label value pieces).flatMap labelText =
      labelText (label, value) ++ pieces.flatMap ('|' :: ·) := by
  induction pieces generalizing label value with
  | nil => rfl
  | cons piece rest ih =>
      unfold gatherFrom
      cases hopens : opens? piece with
      | none =>
          simp only
          rw [ih]
          simp [labelText]
      | some opened =>
          obtain ⟨next, begun⟩ := opened
          simp only [List.flatMap_cons]
          rw [ih, opens?_eq_some hopens]
          simp [labelText]

theorem flatMap_cutLabel (label value : List Char) :
    (cutLabel label value).flatMap labelText = labelText (label, value) := by
  obtain ⟨first, rest, hsplit⟩ :=
    List.exists_cons_of_ne_nil (List.splitOn_ne_nil '|' value)
  unfold cutLabel
  simp only [hsplit]
  rw [flatMap_gatherFrom, splitOn_bar_join hsplit]
  simp [labelText]

theorem Series.key_toList (series : Series) :
    series.key.toList =
      series.name.toList ++ series.cut.flatMap labelText := by
  rw [key, makeKey_toList, cut, List.flatMap_assoc]
  simp only [flatMap_cutLabel]

def gather : List (List Char) → List (List Char × List Char)
  | [] => []
  | piece :: rest =>
      match opens? piece with
      | some (label, value) => gatherFrom label value rest
      | none => []

theorem gatherFrom_append_label (label value : List Char)
    (pieces : List (List Char)) {next : List Char}
    (hnext : IsLabelName next) (begun : List Char)
    (rest : List (List Char)) :
    gatherFrom label value (pieces ++ (next ++ '=' :: begun) :: rest) =
      gatherFrom label value pieces ++ gatherFrom next begun rest := by
  induction pieces generalizing label value with
  | nil => simp only [List.nil_append, gatherFrom, opens?_label hnext,
      List.singleton_append]
  | cons piece pieces ih =>
      rw [List.cons_append, gatherFrom, gatherFrom]
      cases opens? piece with
      | none => exact ih label (value ++ '|' :: piece)
      | some opened =>
          obtain ⟨found, behind⟩ := opened
          exact congrArg ((label, value) :: ·) (ih found behind)

theorem gatherFrom_append {later : List (List Char)}
    (hlater : later = [] ∨ ∃ label value rest, IsLabelName label ∧
      later = (label ++ '=' :: value) :: rest)
    (label value : List Char) (pieces : List (List Char)) :
    gatherFrom label value (pieces ++ later) =
      gatherFrom label value pieces ++ gather later := by
  rcases hlater with rfl | ⟨next, begun, rest, hnext, rfl⟩
  · simp [gather]
  · rw [gatherFrom_append_label label value pieces hnext begun rest, gather,
      opens?_label hnext]

/-- `label=value`, between the bars of the key. -/
def piecesOf (label : String × String) : List (List Char) :=
  (label.1.toList ++ '=' :: label.2.toList).splitOn '|'

theorem exists_piecesOf {label : String × String}
    (hlabel : IsLabelName label.1.toList) :
    ∃ first rest, label.2.toList.splitOn '|' = first :: rest ∧
      piecesOf label = (label.1.toList ++ '=' :: first) :: rest := by
  obtain ⟨first, rest, hsplit⟩ :=
    List.exists_cons_of_ne_nil (List.splitOn_ne_nil '|' label.2.toList)
  have hfront : '|' ∉ label.1.toList ++ ['='] := by
    rw [List.mem_append, not_or]
    exact ⟨hlabel.not_mem (by decide), by decide⟩
  have hpieces := splitOn_bar_append hfront hsplit
  rw [List.append_assoc, List.append_assoc] at hpieces
  exact ⟨first, rest, hsplit, hpieces⟩

theorem splitOn_key (front : List Char) (labels : List (String × String)) :
    (front ++ labels.flatMap fun label =>
        labelText (label.1.toList, label.2.toList)).splitOn '|' =
      front.splitOn '|' ++ labels.flatMap piecesOf := by
  induction labels generalizing front with
  | nil => simp
  | cons label rest ih =>
      rw [List.flatMap_cons, List.flatMap_cons, labelText, List.cons_append,
        List.splitOn_append_cons_self, ih]
      rfl

theorem gather_flatMap_piecesOf {labels : List (String × String)}
    (hlabels : ∀ label ∈ labels, IsLabelName label.1.toList) :
    gather (labels.flatMap piecesOf) =
      labels.flatMap fun label => cutLabel label.1.toList label.2.toList := by
  induction labels with
  | nil => rfl
  | cons label rest ih =>
      obtain ⟨hlabel, hrest⟩ := List.forall_mem_cons.mp hlabels
      obtain ⟨first, pieces, hvalue, hpieces⟩ := exists_piecesOf hlabel
      have hlater : rest.flatMap piecesOf = [] ∨ ∃ next begun behind,
          IsLabelName next ∧
            rest.flatMap piecesOf = (next ++ '=' :: begun) :: behind := by
        cases rest with
        | nil => exact .inl rfl
        | cons next others =>
            have hnext := hrest next (.head _)
            obtain ⟨begun, behind, -, hbegun⟩ := exists_piecesOf hnext
            refine .inr ⟨next.1.toList, begun,
              behind ++ others.flatMap piecesOf, hnext, ?_⟩
            rw [List.flatMap_cons, hbegun, List.cons_append]
      rw [List.flatMap_cons, List.flatMap_cons, hpieces, List.cons_append,
        gather, opens?_label hlabel]
      simp only [cutLabel, hvalue]
      rw [gatherFrom_append hlater, ih hrest]
      rfl

/-- The bars of a key part the metric name from the labels, and these from one
another as far as their values allow. -/
theorem Series.key_eq_iff {series other : Series} :
    series.key = other.key ↔
      series.name = other.name ∧ series.cut = other.cut := by
  have hsplit : ∀ each : Series, each.key.toList.splitOn '|' =
      each.name.toList :: each.labels.entries.flatMap piecesOf := by
    intro each
    rw [key, makeKey_toList, splitOn_key,
      List.splitOn_eq_singleton each.validName.bar_not_mem,
      List.singleton_append]
  constructor
  · intro hkey
    have hpieces := hsplit series
    rw [hkey, hsplit other] at hpieces
    obtain ⟨hname, hlabels⟩ := List.cons.inj hpieces
    refine ⟨String.toList_injective hname.symm, ?_⟩
    rw [cut, cut, ← gather_flatMap_piecesOf series.validLabels,
      ← gather_flatMap_piecesOf other.validLabels, hlabels]
  · rintro ⟨hname, hcut⟩
    apply String.toList_injective
    rw [key_toList, key_toList, hname, hcut]

theorem Series.key_ne_empty (series : Series) : series.key ≠ "" := by
  intro hkey
  have htext := series.key_toList
  rw [hkey] at htext
  exact series.validName.ne_nil (List.append_eq_nil_iff.mp htext.symm).1

section Runs

variable {Value : Type}

def callsWith (key : String) (calls : List (Call Value)) : List (Call Value) :=
  calls.filter fun call => call.series.key = key

theorem callsWith_concat_self (calls : List (Call Value)) (call : Call Value) :
    callsWith call.series.key (calls ++ [call]) =
      callsWith call.series.key calls ++ [call] := by
  simp [callsWith]

theorem callsWith_concat_of_ne {key : String} {call : Call Value}
    (hkey : call.series.key ≠ key) (calls : List (Call Value)) :
    callsWith key (calls ++ [call]) = callsWith key calls := by
  simp [callsWith, hkey]

namespace MonitorState

theorem counterOf_of_some {monitor : MonitorState Value}
    {series counter : Series}
    (hcounter : monitor.counters.lookup series.key = some counter) :
    monitor.counterOf series = counter := by
  unfold counterOf
  rw [hcounter]

def KeysTell (calls : List (Call Value)) : Prop :=
  ∀ first ∈ calls, ∀ second ∈ calls,
    first.series.key = second.series.key → first.series = second.series

theorem KeysTell.callsWith_eq {calls : List (Call Value)}
    (htell : KeysTell calls) {call : Call Value} (hcall : call ∈ calls) :
    callsWith call.series.key calls =
      calls.filter fun each => each.series = call.series := by
  apply List.filter_congr
  intro each heach
  apply decide_eq_decide.mpr
  exact ⟨htell each heach call hcall, congrArg Series.key⟩

end MonitorState

variable [Zero Value] [Add Value]

theorem total_concat (calls : List (Call Value)) (call : Call Value) :
    total (calls ++ [call]) = total calls + call.value := by
  rw [total, List.foldl_append]
  rfl

namespace MonitorState

variable {monitor : MonitorState Value} {call : Call Value}

theorem step_of_none (hcounter : monitor.counters.lookup call.series.key = none)
    (hseries : monitor.registry.lookup call.series = none) :
    monitor.step call =
      ⟨(monitor.registry.insert call.series 0).insert call.series
        (0 + call.value),
        monitor.counters.insert call.series.key call.series⟩ := by
  unfold step incrementCounter
  rw [if_neg call.series.key_ne_empty]
  simp only [hcounter, add, hseries, increment, AList.lookup_insert]

theorem step_of_some {counter : Series} {sum : Value}
    (hcounter : monitor.counters.lookup call.series.key = some counter)
    (hsum : monitor.registry.lookup counter = some sum) :
    monitor.step call =
      ⟨monitor.registry.insert counter (sum + call.value),
        monitor.counters⟩ := by
  unfold step incrementCounter
  rw [if_neg call.series.key_ne_empty]
  simp only [hcounter, increment, hsum]

/-- The counter for a key is that of the first series called with the key, and
holds what all calls with the key add up to. -/
structure Accounted (calls : List (Call Value))
    (monitor : MonitorState Value) : Prop where
  counters : ∀ key, monitor.counters.lookup key =
    (calls.find? fun call => call.series.key = key).map Call.series
  registry : ∀ series, monitor.registry.lookup series =
    if monitor.counters.lookup series.key = some series then
      some (total (callsWith series.key calls))
    else none

theorem start_accounted : Accounted [] (start : MonitorState Value) :=
  ⟨fun _ => rfl, fun _ => rfl⟩

variable {calls : List (Call Value)}

theorem Accounted.key_eq (haccounted : Accounted calls monitor)
    {key : String} {counter : Series}
    (hcounter : monitor.counters.lookup key = some counter) :
    counter.key = key := by
  rw [haccounted.counters] at hcounter
  obtain ⟨first, hfirst, rfl⟩ := Option.map_eq_some_iff.mp hcounter
  have hkey := List.find?_some hfirst
  exact of_decide_eq_true hkey

theorem Accounted.callsWith_eq_nil (haccounted : Accounted calls monitor)
    {key : String} (hcounter : monitor.counters.lookup key = none) :
    callsWith key calls = [] := by
  rw [haccounted.counters, Option.map_eq_none_iff] at hcounter
  apply List.filter_eq_nil_iff.mpr
  exact List.find?_eq_none.mp hcounter

theorem Accounted.step_none (haccounted : Accounted calls monitor)
    (hcounter : monitor.counters.lookup call.series.key = none) :
    Accounted (calls ++ [call]) (monitor.step call) := by
  have hseries : monitor.registry.lookup call.series = none := by
    rw [haccounted.registry, hcounter]
    exact if_neg (by simp)
  have hfind := haccounted.counters call.series.key
  rw [hcounter] at hfind
  rw [step_of_none hcounter hseries]
  constructor
  · intro key
    rw [List.find?_append]
    by_cases hkey : key = call.series.key
    · rw [hkey, AList.lookup_insert, Option.map_eq_none_iff.mp hfind.symm]
      simp
    · rw [AList.lookup_insert_ne hkey, haccounted.counters key,
        List.find?_singleton, if_neg (by simpa using Ne.symm hkey),
        Option.or_none]
  · intro series
    by_cases heq : series = call.series
    · rw [heq, AList.lookup_insert, AList.lookup_insert, if_pos rfl,
        callsWith_concat_self, total_concat,
        haccounted.callsWith_eq_nil hcounter]
      rfl
    · rw [AList.lookup_insert_ne heq, AList.lookup_insert_ne heq,
        haccounted.registry series]
      by_cases hkey : series.key = call.series.key
      · rw [hkey, hcounter, AList.lookup_insert, if_neg (by simp),
          if_neg (by simpa using Ne.symm heq)]
      · rw [AList.lookup_insert_ne hkey,
          callsWith_concat_of_ne (Ne.symm hkey)]

theorem Accounted.step_some (haccounted : Accounted calls monitor)
    {counter : Series}
    (hcounter : monitor.counters.lookup call.series.key = some counter) :
    Accounted (calls ++ [call]) (monitor.step call) := by
  have hkey := haccounted.key_eq hcounter
  have hsum : monitor.registry.lookup counter =
      some (total (callsWith call.series.key calls)) := by
    rw [haccounted.registry, hkey]
    exact if_pos hcounter
  rw [step_of_some hcounter hsum]
  constructor
  · intro key
    rw [haccounted.counters key, List.find?_append]
    cases hfind : calls.find? fun each => each.series.key = key with
    | some first => rfl
    | none =>
        have hne : call.series.key ≠ key := by
          intro heq
          rw [heq, haccounted.counters, hfind] at hcounter
          cases hcounter
        rw [List.find?_singleton, if_neg (by simpa using hne)]
        rfl
  · intro series
    by_cases heq : series = counter
    · rw [heq, AList.lookup_insert, hkey, if_pos hcounter,
        callsWith_concat_self, total_concat]
    · rw [AList.lookup_insert_ne heq, haccounted.registry series]
      by_cases hsame : monitor.counters.lookup series.key = some series
      · have hne : call.series.key ≠ series.key := by
          intro hkeys
          rw [hkeys, hsame] at hcounter
          exact heq (Option.some.inj hcounter)
        rw [if_pos hsame, if_pos hsame, callsWith_concat_of_ne hne]
      · rw [if_neg hsame, if_neg hsame]

theorem Accounted.step (haccounted : Accounted calls monitor)
    (call : Call Value) :
    Accounted (calls ++ [call]) (monitor.step call) := by
  cases hcounter : monitor.counters.lookup call.series.key with
  | none => exact haccounted.step_none hcounter
  | some counter => exact haccounted.step_some hcounter

theorem run_accounted (calls : List (Call Value)) :
    Accounted calls (run step start calls) := by
  induction calls using List.reverseRecOn with
  | nil => exact start_accounted
  | append_singleton calls call ih =>
      rw [run_append]
      exact ih.step call

theorem Accounted.lookup_of_mem (haccounted : Accounted calls monitor)
    (hcall : call ∈ calls) :
    ∃ first ∈ calls, first.series.key = call.series.key ∧
      monitor.counters.lookup call.series.key = some first.series := by
  rw [haccounted.counters]
  cases hfind : calls.find? fun each => each.series.key = call.series.key with
  | none =>
      have hnone := List.find?_eq_none.mp hfind call hcall
      exact absurd (decide_eq_true rfl) hnone
  | some first =>
      have hkey := List.find?_some hfind
      exact ⟨first, List.mem_of_find?_eq_some hfind, of_decide_eq_true hkey,
        rfl⟩

theorem Accounted.called_of_lookup (haccounted : Accounted calls monitor)
    {key : String} {counter : Series}
    (hcounter : monitor.counters.lookup key = some counter) :
    ∃ call ∈ calls, call.series = counter := by
  rw [haccounted.counters] at hcounter
  obtain ⟨first, hfirst, rfl⟩ := Option.map_eq_some_iff.mp hcounter
  exact ⟨first, List.mem_of_find?_eq_some hfirst, rfl⟩

theorem KeysTell.lookup_iff (htell : KeysTell calls)
    (haccounted : Accounted calls monitor) (series : Series) :
    monitor.counters.lookup series.key = some series ↔
      ∃ call ∈ calls, call.series = series := by
  constructor
  · exact haccounted.called_of_lookup
  · rintro ⟨call, hcall, rfl⟩
    obtain ⟨first, hfirst, hkey, hcounter⟩ := haccounted.lookup_of_mem hcall
    rw [hcounter, htell first hfirst call hcall hkey]

theorem Accounted.exact_iff_keysTell (haccounted : Accounted calls monitor) :
    Exact calls monitor ↔ KeysTell calls := by
  constructor
  · intro hexact first hfirst second hsecond hkey
    apply hexact.apart first hfirst second hsecond
    obtain ⟨counter, -, -, hcounter⟩ := haccounted.lookup_of_mem hsecond
    rw [counterOf_of_some hcounter, ← hkey] at *
    exact counterOf_of_some hcounter
  · intro htell
    constructor
    · intro series
      simp only [haccounted.registry, htell.lookup_iff haccounted]
      split_ifs with hcalled
      · obtain ⟨call, hcall, rfl⟩ := hcalled
        rw [htell.callsWith_eq hcall]
      · rfl
    · intro first hfirst second hsecond hcounters
      obtain ⟨one, hone, honeKey, honeCounter⟩ :=
        haccounted.lookup_of_mem hfirst
      obtain ⟨two, htwo, htwoKey, htwoCounter⟩ :=
        haccounted.lookup_of_mem hsecond
      rw [counterOf_of_some honeCounter, counterOf_of_some htwoCounter]
        at hcounters
      apply htell first hfirst second hsecond
      rw [← honeKey, ← htwoKey, hcounters]

/-- The totals and the counters of a sequence of calls are right exactly where
no two label sets of a metric are the same once they are cut. -/
theorem exact_run_iff (calls : List (Call Value)) :
    Exact calls (run step start calls) ↔
      ∀ first ∈ calls, ∀ second ∈ calls,
        first.series.name = second.series.name →
        first.series.cut = second.series.cut →
          first.series.labels = second.series.labels := by
  rw [(run_accounted calls).exact_iff_keysTell]
  constructor
  · intro htell first hfirst second hsecond hname hcut
    have hkey := Series.key_eq_iff.mpr ⟨hname, hcut⟩
    rw [htell first hfirst second hsecond hkey]
  · intro hlabels first hfirst second hsecond hkey
    obtain ⟨hname, hcut⟩ := Series.key_eq_iff.mp hkey
    exact Series.ext hname (hlabels first hfirst second hsecond hname hcut)

end MonitorState

end Runs

/-! Over the naturals the totals are sums, and the registry is the table of
counters by their keys. -/

theorem total_eq_sum (calls : List (Call Nat)) :
    total calls = (calls.map Call.value).sum := by
  rw [total, List.sum_eq_foldl, List.foldl_map]

def Call.data (call : Call Nat) : KernelData :=
  ⟨call.series.name, call.value, call.series.labels.entries⟩

theorem value_run_incrementCounter (calls : List (Call Nat)) (key : String) :
    (run Counters.incrementCounter ∅ (calls.map Call.data)).value key =
      total (callsWith key calls) := by
  induction calls using List.reverseRecOn with
  | nil => rfl
  | append_singleton calls call ih =>
      rw [List.map_append, run_append, List.map_singleton, run_cons, run_nil,
        Counters.value_incrementCounter, ih]
      by_cases hkey : call.series.key = key
      · rw [← hkey, callsWith_concat_self, total_concat]
        exact congrArg _ (if_pos rfl)
      · rw [callsWith_concat_of_ne hkey]
        exact congrArg _ (if_neg hkey)

theorem MonitorState.registry_run_eq (calls : List (Call Nat)) {key : String}
    {counter : Series}
    (hcounter : (run step start calls).counters.lookup key = some counter) :
    (run step start calls).registry.lookup counter =
      some ((run Counters.incrementCounter ∅ (calls.map Call.data)).value
        key) := by
  have haccounted := run_accounted calls
  have hkey := haccounted.key_eq hcounter
  rw [haccounted.registry, hkey, if_pos hcounter, value_run_incrementCounter]

def oneLabel : Series where
  name := "requests"
  labels := ⟨[("a", "1|b=2")], by decide⟩
  validName := by decide
  validLabels := by decide

def twoLabels : Series where
  name := "requests"
  labels := ⟨[("a", "1"), ("b", "2")], by decide⟩
  validName := by decide
  validLabels := by decide

theorem MonitorState.not_exact_twoLabels :
    ¬ Exact [⟨oneLabel, 5⟩, ⟨twoLabels, 7⟩]
      (run step (start : MonitorState Nat)
        [⟨oneLabel, 5⟩, ⟨twoLabels, 7⟩]) := by
  intro hexact
  have hexported := hexact.exported twoLabels
  revert hexported
  decide

end Hebpf.Monitor
