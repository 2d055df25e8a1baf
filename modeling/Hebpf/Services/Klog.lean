import Hebpf.Data.Buffer
import Mathlib.Data.List.Basic
import Mathlib.Data.List.TakeWhile
import Mathlib.Tactic.IntervalCases

namespace Hebpf.Services

open Hebpf.Data

/-! `Klog::logEvent`: how a log event of the kernel becomes a line of text. -/

def MAX_ARGS_CNT : Nat := 10

def sizeofLogEvent : Nat := 96
def offsetofMsg : Nat := 90

/-- A record of the ring buffer.  `msg` is all that stands from the message on
to the end of the record. -/
structure LogEvent where
  level : UInt16
  args : Vector UInt64 MAX_ARGS_CNT
  msg : List UInt8

def LogEvent.size (event : LogEvent) : Nat := offsetofMsg + event.msg.length

def ascii (text : String) : List UInt8 :=
  text.toList.map fun char => UInt8.ofNat char.toNat

def percentSign : UInt8 := 37

def formattedSize : Nat := 1024

inductive Conversion where
  | signed
  | unsigned
  | hexLower
  | hexUpper
  | pointer
  | protocol
  | address
  deriving DecidableEq, Repr

/-- `d`, `u`, `x`, `X`, `p`, `P` and `A`; any other character is unknown. -/
def conversion? (spec : UInt8) : Option Conversion :=
  [((100 : UInt8), Conversion.signed), (117, .unsigned), (120, .hexLower),
    (88, .hexUpper), (112, .pointer), (80, .protocol),
    (65, .address)].lookup spec

def signedText (val : UInt64) : String := toString val.toInt64.toInt

def hexText (val : UInt64) : String :=
  String.ofList (Nat.toDigits 16 val.toNat)

def hexUpperText (val : UInt64) : String :=
  String.ofList ((Nat.toDigits 16 val.toNat).map Char.toUpper)

def pointerText (val : UInt64) : String :=
  if val = 0 then "(nil)" else "0x" ++ hexText val

def protocolText (val : UInt64) : String :=
  if val = 6 then "TCP"
  else if val = 17 then "UDP"
  else if val = 1 then "ICMP"
  else signedText val

def octetText (val : UInt64) (shift : UInt64) : String :=
  toString ((val >>> shift) % 256).toNat

/-- `inet_ntoa` of the low half, whose lowest byte comes first in memory. -/
def inetNtoa (val : UInt64) : String :=
  octetText val 0 ++ "." ++ octetText val 8 ++ "." ++ octetText val 16 ++
    "." ++ octetText val 24

/-- What `snprintf` makes of an argument. -/
def Conversion.format (val : UInt64) (conversion : Conversion) : List UInt8 :=
  ascii (match conversion with
    | signed => signedText val
    | unsigned => toString val.toNat
    | hexLower => hexText val
    | hexUpper => hexUpperText val
    | pointer => pointerText val
    | protocol => protocolText val
    | address => inetNtoa val)

def missing : List UInt8 := ascii "<missing>"

structure Formatting where
  buffer : Buffer formattedSize
  pos : Nat
  argIdx : Nat

namespace Formatting

def start : Formatting := ⟨.zero, 0, 0⟩

def put (state : Formatting) (byte : UInt8) : Except Fault Formatting := do
  let buffer ← state.buffer.store state.pos byte
  return { state with buffer, pos := state.pos + 1 }

def print (state : Formatting) (text : List UInt8) :
    Except Fault Formatting := do
  let (buffer, length) ← state.buffer.snprintf state.pos
    (formattedSize - state.pos) text
  return { state with buffer, pos := state.pos + length }

/-- A format character that is supported takes the next argument. -/
def convert (args : Vector UInt64 MAX_ARGS_CNT) (state : Formatting)
    (conversion : Conversion) : Except Fault Formatting :=
  if harg : state.argIdx < MAX_ARGS_CNT then
    ({ state with argIdx := state.argIdx + 1 }).print
      (conversion.format args[state.argIdx])
  else state.print missing

/-- From `fmt` on.  Beyond the zero byte of the message there is nothing to be
read. -/
def loop (args : Vector UInt64 MAX_ARGS_CNT) :
    List UInt8 → Formatting → Except Fault Formatting
  | [], _ => .error .readOutside
  | byte :: rest, state =>
      if byte = 0 ∨ formattedSize - 1 ≤ state.pos then .ok state
      else if byte ≠ percentSign then do
        let state ← state.put byte
        loop args rest state
      else
        match rest with
        | [] => .error .readOutside
        | spec :: rest =>
            if spec = percentSign then do
              let state ← state.put percentSign
              loop args rest state
            else
              match conversion? spec with
              | some conversion => do
                  let state ← state.convert args conversion
                  loop args rest state
              | none => do
                  let state ← state.put percentSign
                  let state ← state.put spec
                  -- `fmt` has passed the zero byte, and is read next.
                  if spec = 0 then .error .readOutside
                  else loop args rest state

/-- `formatted_msg[pos] = '\0'`, and what the logger reads then. -/
def finish (state : Formatting) : Except Fault (List UInt8) := do
  let buffer ← state.buffer.store state.pos 0
  return buffer.cString

end Formatting

structure Logged where
  answer : Int
  line : Option (UInt16 × List UInt8)
  deriving DecidableEq, Repr

def logEvent (getLevel : UInt32) (event : LogEvent) : Except Fault Logged :=
  if event.size < sizeofLogEvent then .ok ⟨-1, none⟩
  else if event.size < offsetofMsg then .ok ⟨-1, none⟩
  else if event.level.toUInt32 < getLevel then .ok ⟨0, none⟩
  else do
    let state ← Formatting.start.loop event.args event.msg
    let text ← state.finish
    return ⟨0, some (event.level, text)⟩

inductive Directive where
  | text (byte : UInt8)
  | percent
  | convert (conversion : Conversion)
  | unknown (spec : UInt8)
  | dangling
  deriving DecidableEq, Repr

/-- A message, less its zero byte, as text and directives.  A `%` at its end
has nothing behind it. -/
def directives : List UInt8 → List Directive
  | [] => []
  | byte :: rest =>
      if byte ≠ percentSign then .text byte :: directives rest
      else
        match rest with
        | [] => [.dangling]
        | spec :: rest =>
            if spec = percentSign then .percent :: directives rest
            else
              match conversion? spec with
              | some conversion => .convert conversion :: directives rest
              | none => .unknown spec :: directives rest

theorem directives_text {byte : UInt8} (htext : byte ≠ percentSign)
    (rest : List UInt8) :
    directives (byte :: rest) = .text byte :: directives rest := by
  conv_lhs => unfold directives
  exact if_pos htext

theorem directives_percent (rest : List UInt8) :
    directives (percentSign :: percentSign :: rest) =
      .percent :: directives rest := by
  conv_lhs => unfold directives
  rw [if_neg (not_not.mpr rfl)]
  exact if_pos rfl

theorem directives_convert {spec : UInt8} (hspec : spec ≠ percentSign)
    {conversion : Conversion} (hconversion : conversion? spec = some conversion)
    (rest : List UInt8) :
    directives (percentSign :: spec :: rest) =
      .convert conversion :: directives rest := by
  conv_lhs => unfold directives
  rw [if_neg (not_not.mpr rfl)]
  simp only [if_neg hspec, hconversion]

theorem directives_unknown {spec : UInt8} (hspec : spec ≠ percentSign)
    (hunknown : conversion? spec = none) (rest : List UInt8) :
    directives (percentSign :: spec :: rest) =
      .unknown spec :: directives rest := by
  conv_lhs => unfold directives
  rw [if_neg (not_not.mpr rfl)]
  simp only [if_neg hspec, hunknown]

inductive Message : List UInt8 → Prop where
  | nil : Message []
  | text {byte : UInt8} {rest : List UInt8} (nonzero : byte ≠ 0)
      (notSign : byte ≠ percentSign) (later : Message rest) :
      Message (byte :: rest)
  | dangling : Message [percentSign]
  | percent {rest : List UInt8} (later : Message rest) :
      Message (percentSign :: percentSign :: rest)
  | convert {spec : UInt8} {rest : List UInt8} {conversion : Conversion}
      (notSign : spec ≠ percentSign)
      (known : conversion? spec = some conversion) (later : Message rest) :
      Message (percentSign :: spec :: rest)
  | unknown {spec : UInt8} {rest : List UInt8} (nonzero : spec ≠ 0)
      (notSign : spec ≠ percentSign) (unknown : conversion? spec = none)
      (later : Message rest) : Message (percentSign :: spec :: rest)

theorem message_of_nonzero {message : List UInt8}
    (hmessage : ∀ byte ∈ message, byte ≠ 0) : Message message := by
  induction message using directives.induct with
  | case1 => exact .nil
  | case2 byte rest htext ih =>
      obtain ⟨hbyte, hrest⟩ := List.forall_mem_cons.mp hmessage
      exact .text hbyte htext (ih hrest)
  | case3 byte hpercent =>
      obtain rfl := not_not.mp hpercent
      exact .dangling
  | case4 byte hpercent rest ih =>
      obtain rfl := not_not.mp hpercent
      obtain ⟨-, hspec⟩ := List.forall_mem_cons.mp hmessage
      obtain ⟨-, hrest⟩ := List.forall_mem_cons.mp hspec
      exact .percent (ih hrest)
  | case5 byte hpercent spec rest hspec conversion hconversion ih =>
      obtain rfl := not_not.mp hpercent
      obtain ⟨-, hspecs⟩ := List.forall_mem_cons.mp hmessage
      obtain ⟨-, hrest⟩ := List.forall_mem_cons.mp hspecs
      exact .convert hspec hconversion (ih hrest)
  | case6 byte hpercent spec rest hspec hunknown ih =>
      obtain rfl := not_not.mp hpercent
      obtain ⟨-, hspecs⟩ := List.forall_mem_cons.mp hmessage
      obtain ⟨hnonzero, hrest⟩ := List.forall_mem_cons.mp hspecs
      exact .unknown hnonzero hspec hunknown (ih hrest)

namespace Directive

def expand (args : List UInt64) : Directive → List UInt8
  | text byte => [byte]
  | percent => [percentSign]
  | convert conversion =>
      match args with
      | [] => missing
      | val :: _ => conversion.format val
  | unknown spec => [percentSign, spec]
  | dangling => [percentSign]

def left (args : List UInt64) : Directive → List UInt64
  | convert _ => args.tail
  | _ => args

end Directive

def expandAll (args : List UInt64) : List Directive → List UInt8
  | [] => []
  | directive :: rest =>
      directive.expand args ++ expandAll (directive.left args) rest

def LogEvent.message (event : LogEvent) : List UInt8 :=
  event.msg.takeWhile (· ≠ 0)

/-- The call stays within its memory, and logs the first 1023 characters of the
full expansion, unless events of this level are not logged. -/
def LogEvent.WellLogged (event : LogEvent) (getLevel : UInt32) : Prop :=
  logEvent getLevel event = .ok ⟨0,
    if event.level.toUInt32 < getLevel then none
    else some (event.level,
      (expandAll event.args.toList (directives event.message)).take
        (formattedSize - 1))⟩

/-- No directive that begins within the first 1023 characters of the expansion
ends behind them, or is a `%` with nothing behind it. -/
def Fits (args : List UInt64) (all : List Directive) : Prop :=
  ∀ before directive after, all = before ++ directive :: after →
    (expandAll args before).length < formattedSize - 1 →
    directive ≠ .dangling ∧
      (expandAll args (before ++ [directive])).length ≤ formattedSize - 1

def FitsFrom (args : List UInt64) (pos : Nat) : List Directive → Prop
  | [] => True
  | directive :: rest => pos < formattedSize - 1 →
      directive ≠ .dangling ∧
        pos + (directive.expand args).length ≤ formattedSize - 1 ∧
        FitsFrom (directive.left args)
          (pos + (directive.expand args).length) rest

theorem fitsFrom_iff {args : List UInt64} {pos : Nat} {all : List Directive} :
    FitsFrom args pos all ↔
      ∀ before directive after, all = before ++ directive :: after →
        pos + (expandAll args before).length < formattedSize - 1 →
        directive ≠ .dangling ∧
          pos + (expandAll args (before ++ [directive])).length ≤
            formattedSize - 1 := by
  induction all generalizing args pos with
  | nil => simp [FitsFrom]
  | cons first rest ih =>
      unfold FitsFrom
      constructor
      · intro hfits before directive after hsplit hpos
        cases before with
        | nil =>
            obtain ⟨rfl, rfl⟩ := List.cons.inj hsplit
            obtain ⟨hnamed, hroom, -⟩ := hfits hpos
            exact ⟨hnamed, by simpa [expandAll] using hroom⟩
        | cons head before =>
            obtain ⟨rfl, hrest⟩ := List.cons.inj hsplit
            simp only [List.cons_append, expandAll, List.length_append] at hpos ⊢
            obtain ⟨-, -, hlater⟩ := hfits (by omega)
            have hboth := ih.mp hlater before directive after hrest (by omega)
            exact ⟨hboth.1, by omega⟩
      · intro hall hpos
        have hfirst := hall [] first rest rfl hpos
        simp only [List.nil_append, expandAll, List.append_nil] at hfirst
        refine ⟨hfirst.1, hfirst.2, ih.mpr ?_⟩
        intro before directive after hsplit hlater
        have hboth := hall (first :: before) directive after
          (by rw [hsplit]; rfl) (by
            simp only [expandAll, List.length_append]
            omega)
        simp only [List.cons_append, expandAll, List.length_append] at hboth
        exact ⟨hboth.1, by omega⟩

theorem fitsFrom_zero_iff {args : List UInt64} {all : List Directive} :
    FitsFrom args 0 all ↔ Fits args all := by
  rw [fitsFrom_iff]
  simp only [Nat.zero_add, Fits]

namespace Formatting

variable {args : Vector UInt64 MAX_ARGS_CNT} {state : Formatting}
  {written : List UInt8} {left : List UInt64}

/-- A state in which `written` stands in the buffer, with the arguments that
are left. -/
structure At (args : Vector UInt64 MAX_ARGS_CNT) (state : Formatting)
    (written : List UInt8) (left : List UInt64) : Prop where
  holds : state.buffer.Holds written
  pos : state.pos = written.length
  args : args.toList.drop state.argIdx = left

/-- A turn advances by a text, all of which is in the buffer unless it reaches
behind the last character. -/
structure Writes (args : Vector UInt64 MAX_ARGS_CNT) (after : Formatting)
    (written text : List UInt8) (left : List UInt64) : Prop where
  pos : after.pos = written.length + text.length
  args : args.toList.drop after.argIdx = left
  holds : written.length + text.length ≤ formattedSize - 1 →
    after.buffer.Holds (written ++ text)

theorem Writes.at {after : Formatting} {text : List UInt8}
    (hwrites : Writes args after written text left)
    (hroom : written.length + text.length ≤ formattedSize - 1) :
    At args after (written ++ text) left :=
  ⟨hwrites.holds hroom, by rw [hwrites.pos, List.length_append],
    hwrites.args⟩

theorem At.put (hat : At args state written left)
    (hroom : written.length < formattedSize) (byte : UInt8) :
    ∃ after, state.put byte = .ok after ∧
      At args after (written ++ [byte]) left := by
  obtain ⟨buffer, hstored, hholds⟩ := hat.holds.store hroom byte
  refine ⟨{ state with buffer, pos := state.pos + 1 }, ?_, hholds, ?_,
    hat.args⟩
  · rw [Formatting.put, hat.pos, hstored]
    rfl
  · simp [hat.pos]

theorem At.put_unknown (hat : At args state written left)
    (hpos : written.length < formattedSize - 1) (spec : UInt8) :
    ∃ first after, state.put percentSign = .ok first ∧
      first.put spec = .ok after ∧
      At args after (written ++ [percentSign, spec]) left := by
  obtain ⟨first, hfirst, hheld⟩ := hat.put (by omega) percentSign
  have hroom : (written ++ [percentSign]).length < formattedSize := by
    rw [List.length_append, List.length_singleton]
    simp only [formattedSize] at hpos ⊢
    omega
  obtain ⟨after, hafter, hboth⟩ := hheld.put hroom spec
  rw [List.append_assoc] at hboth
  exact ⟨first, after, hfirst, hafter, hboth⟩

theorem At.writes (hat : At args state (written ++ text) left) :
    Writes args state written text left :=
  ⟨by rw [hat.pos, List.length_append], hat.args, fun _ => hat.holds⟩

theorem At.print (hat : At args state written left)
    (hroom : written.length < formattedSize) (text : List UInt8) :
    ∃ after, state.print text = .ok after ∧
      Writes args after written text left := by
  obtain ⟨buffer, hprinted, hholds⟩ := hat.holds.snprintf hroom text
  refine ⟨{ state with buffer, pos := state.pos + text.length }, ?_, ?_,
    hat.args, fun hfits => ?_⟩
  · rw [Formatting.print, hat.pos, hprinted]
    rfl
  · simp only [hat.pos]
  · rwa [List.take_of_length_le (by omega)] at hholds

theorem At.convert (hat : At args state written left)
    (hroom : written.length < formattedSize) (conversion : Conversion) :
    ∃ after, state.convert args conversion = .ok after ∧
      Writes args after written
        ((Directive.convert conversion).expand left)
        ((Directive.convert conversion).left left) := by
  unfold Formatting.convert
  split_ifs with harg
  · have hleft : left = args[state.argIdx] ::
        args.toList.drop (state.argIdx + 1) := by
      rw [← hat.args, List.drop_eq_getElem_cons (by simpa using harg)]
      simp
    rw [hleft]
    have htaken : At args { state with argIdx := state.argIdx + 1 } written
        (args.toList.drop (state.argIdx + 1)) :=
      ⟨hat.holds, hat.pos, rfl⟩
    exact htaken.print hroom _
  · have hnone : left = [] := by
      rw [← hat.args]
      apply List.drop_eq_nil_of_le
      simpa using Nat.le_of_not_lt harg
    rw [hnone] at hat ⊢
    exact hat.print hroom missing

theorem At.not_full (hat : At args state written left)
    (hpos : written.length < formattedSize - 1) :
    ¬ formattedSize - 1 ≤ state.pos := by
  rw [hat.pos]
  exact Nat.not_le.mpr hpos

theorem loop_of_full (hfull : formattedSize - 1 ≤ state.pos)
    {fmt : List UInt8} (hfmt : fmt ≠ []) :
    loop args fmt state = .ok state := by
  cases fmt with
  | nil => exact absurd rfl hfmt
  | cons byte rest =>
      unfold loop
      exact if_pos (.inr hfull)

section Turns

variable (hpos : ¬ formattedSize - 1 ≤ state.pos)

include hpos

theorem loop_text {byte : UInt8} (hbyte : byte ≠ 0)
    (htext : byte ≠ percentSign) (rest : List UInt8) :
    loop args (byte :: rest) state =
      (state.put byte >>= fun after => loop args rest after) := by
  conv_lhs => unfold loop
  rw [if_neg (not_or.mpr ⟨hbyte, hpos⟩), if_pos htext]

theorem loop_percent (rest : List UInt8) :
    loop args (percentSign :: percentSign :: rest) state =
      (state.put percentSign >>= fun after => loop args rest after) := by
  conv_lhs => unfold loop
  rw [if_neg (not_or.mpr ⟨by decide, hpos⟩), if_neg (not_not.mpr rfl)]
  exact if_pos rfl

theorem loop_convert {spec : UInt8} (hspec : spec ≠ percentSign)
    {conversion : Conversion} (hconversion : conversion? spec = some conversion)
    (rest : List UInt8) :
    loop args (percentSign :: spec :: rest) state =
      (state.convert args conversion >>= fun after => loop args rest after) := by
  conv_lhs => unfold loop
  rw [if_neg (not_or.mpr ⟨by decide, hpos⟩), if_neg (not_not.mpr rfl)]
  simp only [if_neg hspec, hconversion]

theorem loop_unknown {spec : UInt8} (hspec : spec ≠ percentSign)
    (hunknown : conversion? spec = none) (rest : List UInt8) :
    loop args (percentSign :: spec :: rest) state =
      (state.put percentSign >>= fun first => first.put spec >>= fun after =>
        if spec = 0 then .error .readOutside else loop args rest after) := by
  conv_lhs => unfold loop
  rw [if_neg (not_or.mpr ⟨by decide, hpos⟩), if_neg (not_not.mpr rfl)]
  simp only [if_neg hspec, hunknown]

end Turns

def Ends (result : Except Fault Formatting) (fits : Prop)
    (text : List UInt8) : Prop :=
  (fits → ∃ state, result = .ok state ∧ state.buffer.Holds text ∧
    state.pos = text.length) ∧
  (¬ fits → ∀ state, result = .ok state → formattedSize ≤ state.pos)

theorem At.ends_of_full (hat : At args state written left)
    (hpos : written.length = formattedSize - 1) {fmt : List UInt8}
    (hfmt : fmt ≠ []) (all : List Directive) :
    Ends (loop args fmt state) (FitsFrom left written.length all)
      ((written ++ expandAll left all).take (formattedSize - 1)) := by
  have hfits : FitsFrom left written.length all := by
    cases all with
    | nil => trivial
    | cons directive rest =>
        intro hless
        omega
  constructor
  · intro _
    refine ⟨state, loop_of_full (by rw [hat.pos, hpos]) hfmt, ?_, ?_⟩
    · rw [← hpos, List.take_left]
      exact hat.holds
    · rw [← hpos, List.take_left]
      exact hat.pos
  · intro hnot
    exact absurd hfits hnot

theorem Writes.ends {after : Formatting} {directive : Directive}
    {rest : List Directive} {fmt : List UInt8}
    (hwrites : Writes args after written (directive.expand left)
      (directive.left left))
    (hpos : written.length < formattedSize - 1)
    (hnamed : directive ≠ .dangling) (hfmt : fmt ≠ [])
    (hlater : ∀ {text : List UInt8},
      At args after text (directive.left left) →
      text.length < formattedSize - 1 →
      Ends (loop args fmt after)
        (FitsFrom (directive.left left) text.length rest)
        ((text ++ expandAll (directive.left left) rest).take
          (formattedSize - 1))) :
    Ends (loop args fmt after)
      (FitsFrom left written.length (directive :: rest))
      ((written ++ expandAll left (directive :: rest)).take
        (formattedSize - 1)) := by
  by_cases hroom : written.length + (directive.expand left).length ≤
      formattedSize - 1
  · have hat := hwrites.at hroom
    have hends : Ends (loop args fmt after)
        (FitsFrom (directive.left left)
          (written ++ directive.expand left).length rest)
        ((written ++ directive.expand left ++
          expandAll (directive.left left) rest).take (formattedSize - 1)) := by
      rw [← List.length_append] at hroom
      rcases Nat.lt_or_eq_of_le hroom with hless | hfull
      · exact hlater hat hless
      · exact hat.ends_of_full hfull hfmt rest
    rw [List.length_append, List.append_assoc] at hends
    have hfits : FitsFrom left written.length (directive :: rest) ↔
        FitsFrom (directive.left left)
          (written.length + (directive.expand left).length) rest := by
      simp only [FitsFrom, hpos, forall_const, ne_eq, hnamed,
        not_false_eq_true, hroom, true_and]
    rwa [hfits]
  · have hfull : formattedSize ≤ after.pos := by
      rw [hwrites.pos]
      omega
    constructor
    · intro hfits
      exact absurd (hfits hpos).2.1 hroom
    · intro _ state hstate
      rw [loop_of_full (Nat.le_trans (Nat.sub_le _ _) hfull) hfmt] at hstate
      cases hstate
      exact hfull

theorem loop_spec {message : List UInt8} (hmessage : Message message)
    (behind : List UInt8) (hat : At args state written left)
    (hpos : written.length < formattedSize - 1) :
    Ends (loop args (message ++ 0 :: behind) state)
      (FitsFrom left written.length (directives message))
      ((written ++ expandAll left (directives message)).take
        (formattedSize - 1)) := by
  induction hmessage generalizing state written left with
  | nil =>
      have hdone : loop args ([] ++ 0 :: behind) state = .ok state := by
        unfold loop
        exact if_pos (.inl rfl)
      constructor
      · intro _
        refine ⟨state, hdone, ?_, ?_⟩
        · rw [directives, expandAll, List.append_nil,
            List.take_of_length_le (Nat.le_of_lt hpos)]
          exact hat.holds
        · rw [directives, expandAll, List.append_nil,
            List.take_of_length_le (Nat.le_of_lt hpos)]
          exact hat.pos
      · intro hnot
        exact absurd trivial hnot
  | @text byte rest hbyte htext _ ih =>
      obtain ⟨after, hput, hafter⟩ := hat.put (by omega) byte
      rw [List.cons_append, loop_text (hat.not_full hpos) hbyte htext, hput,
        directives_text htext]
      have hwrites : Writes args after written
          ((Directive.text byte).expand left) left := hafter.writes
      apply hwrites.ends hpos (by simp) (by simp)
      exact fun hlater hless => ih hlater hless
  | dangling =>
      constructor
      · intro hfits
        exact absurd rfl (hfits hpos).1
      · intro _ after hafter
        rw [List.singleton_append,
          loop_unknown (hat.not_full hpos) (by decide) (by decide)] at hafter
        obtain ⟨first, second, hfirst, hsecond, -⟩ := hat.put_unknown hpos 0
        rw [hfirst] at hafter
        have hfault : (first.put 0 >>= fun _ =>
            (Except.error Fault.readOutside : Except Fault Formatting)) =
              .ok after := hafter
        rw [hsecond] at hfault
        cases hfault
  | @percent rest _ ih =>
      obtain ⟨after, hput, hafter⟩ := hat.put (by omega) percentSign
      rw [List.cons_append, List.cons_append,
        loop_percent (hat.not_full hpos), hput, directives_percent]
      have hwrites : Writes args after written
          (Directive.percent.expand left) left := hafter.writes
      apply hwrites.ends hpos (by simp) (by simp)
      exact fun hlater hless => ih hlater hless
  | @convert spec rest conversion hspec hconversion _ ih =>
      obtain ⟨after, hconverted, hwrites⟩ := hat.convert (by omega) conversion
      rw [List.cons_append, List.cons_append,
        loop_convert (hat.not_full hpos) hspec hconversion, hconverted,
        directives_convert hspec hconversion]
      apply hwrites.ends hpos (by simp) (by simp)
      exact fun hlater hless => ih hlater hless
  | @unknown spec rest hnonzero hspec hunknown _ ih =>
      obtain ⟨first, after, hfirst, hsecond, hafter⟩ :=
        hat.put_unknown hpos spec
      have hturn : loop args (percentSign :: spec :: rest ++ 0 :: behind)
          state = loop args (rest ++ 0 :: behind) after := by
        rw [List.cons_append, List.cons_append,
          loop_unknown (hat.not_full hpos) hspec hunknown, hfirst]
        change (first.put spec >>= fun after => if spec = 0 then _
          else loop args (rest ++ 0 :: behind) after) = _
        rw [hsecond]
        exact if_neg hnonzero
      have hwrites : Writes args after written
          ((Directive.unknown spec).expand left) left := hafter.writes
      rw [hturn, directives_unknown hspec hunknown]
      apply hwrites.ends hpos (by simp) (by simp)
      exact fun hlater hless => ih hlater hless

end Formatting

def OneByte (char : Char) : Prop := 0 < char.toNat ∧ char.toNat < 256

instance : DecidablePred OneByte := fun _ => inferInstanceAs (Decidable (_ ∧ _))

theorem oneByte_of_all {text : String}
    (hall : text.toList.all (fun char => decide (OneByte char)) = true) :
    ∀ char ∈ text.toList, OneByte char := by
  intro char hchar
  exact of_decide_eq_true (List.all_eq_true.mp hall char hchar)

theorem ne_zero_of_mem_ascii {text : String}
    (htext : ∀ char ∈ text.toList, OneByte char) :
    ∀ byte ∈ ascii text, byte ≠ 0 := by
  intro byte hbyte hzero
  obtain ⟨char, hchar, rfl⟩ := List.mem_map.mp hbyte
  obtain ⟨hpositive, hsmall⟩ := htext char hchar
  have hnat := congrArg UInt8.toNat hzero
  rw [UInt8.toNat_ofNat', UInt8.toNat_zero] at hnat
  omega

theorem oneByte_digitChar {digit : Nat} (hdigit : digit < 16) :
    OneByte (Nat.digitChar digit) ∧
      OneByte (Nat.digitChar digit).toUpper := by
  interval_cases digit <;> decide

theorem oneByte_toDigitsCore {base : Nat} (hbase : 0 < base)
    (hsmall : base ≤ 16) (fuel number : Nat) {digits : List Char}
    (hdigits : ∀ char ∈ digits, OneByte char ∧ OneByte char.toUpper) :
    ∀ char ∈ Nat.toDigitsCore base fuel number digits,
      OneByte char ∧ OneByte char.toUpper := by
  induction fuel generalizing number digits with
  | zero => exact hdigits
  | succ fuel ih =>
      have hdigit : number % base < 16 :=
        Nat.lt_of_lt_of_le (Nat.mod_lt number hbase) hsmall
      have hmore : ∀ char ∈ (number % base).digitChar :: digits,
          OneByte char ∧ OneByte char.toUpper :=
        List.forall_mem_cons.mpr ⟨oneByte_digitChar hdigit, hdigits⟩
      rw [Nat.toDigitsCore]
      split_ifs
      · exact hmore
      · exact ih (number / base) hmore

theorem oneByte_toDigits {base : Nat} (hbase : 0 < base) (hsmall : base ≤ 16)
    (number : Nat) :
    ∀ char ∈ Nat.toDigits base number,
      OneByte char ∧ OneByte char.toUpper :=
  oneByte_toDigitsCore hbase hsmall _ number (List.forall_mem_nil _)

theorem oneByte_natText (number : Nat) :
    ∀ char ∈ (toString number).toList, OneByte char := by
  intro char hchar
  have hdigits : (toString number).toList = Nat.toDigits 10 number :=
    String.toList_ofList
  rw [hdigits] at hchar
  exact (oneByte_toDigits (by decide) (by decide) number char hchar).1

theorem oneByte_append {first second : String}
    (hfirst : ∀ char ∈ first.toList, OneByte char)
    (hsecond : ∀ char ∈ second.toList, OneByte char) :
    ∀ char ∈ (first ++ second).toList, OneByte char := by
  rw [String.toList_append]
  exact List.forall_mem_append.mpr ⟨hfirst, hsecond⟩

theorem oneByte_signedText (val : UInt64) :
    ∀ char ∈ (signedText val).toList, OneByte char := by
  unfold signedText
  cases val.toInt64.toInt with
  | ofNat number => exact oneByte_natText number
  | negSucc number =>
      apply oneByte_append
      · exact oneByte_of_all (by decide)
      · exact oneByte_natText (number + 1)

theorem oneByte_hexText (val : UInt64) :
    ∀ char ∈ (hexText val).toList, OneByte char := by
  intro char hchar
  rw [hexText, String.toList_ofList] at hchar
  exact (oneByte_toDigits (by decide) (by decide) val.toNat char hchar).1

theorem oneByte_hexUpperText (val : UInt64) :
    ∀ char ∈ (hexUpperText val).toList, OneByte char := by
  intro char hchar
  rw [hexUpperText, String.toList_ofList] at hchar
  obtain ⟨digit, hdigit, rfl⟩ := List.mem_map.mp hchar
  exact (oneByte_toDigits (by decide) (by decide) val.toNat digit hdigit).2

theorem oneByte_pointerText (val : UInt64) :
    ∀ char ∈ (pointerText val).toList, OneByte char := by
  unfold pointerText
  split_ifs
  · exact oneByte_of_all (by decide)
  · apply oneByte_append
    · exact oneByte_of_all (by decide)
    · exact oneByte_hexText val

theorem oneByte_protocolText (val : UInt64) :
    ∀ char ∈ (protocolText val).toList, OneByte char := by
  unfold protocolText
  split_ifs
  · exact oneByte_of_all (by decide)
  · exact oneByte_of_all (by decide)
  · exact oneByte_of_all (by decide)
  · exact oneByte_signedText val

theorem oneByte_inetNtoa (val : UInt64) :
    ∀ char ∈ (inetNtoa val).toList, OneByte char := by
  have hdot : ∀ char ∈ ".".toList, OneByte char := oneByte_of_all (by decide)
  have hoctet := fun shift => oneByte_natText ((val >>> shift) % 256).toNat
  have hthree := oneByte_append (oneByte_append (oneByte_append
    (oneByte_append (hoctet 0) hdot) (hoctet 8)) hdot) (hoctet 16)
  exact oneByte_append (oneByte_append hthree hdot) (hoctet 24)

theorem Conversion.ne_zero_of_mem_format (conversion : Conversion)
    (val : UInt64) : ∀ byte ∈ conversion.format val, byte ≠ 0 := by
  apply ne_zero_of_mem_ascii
  cases conversion with
  | signed => exact oneByte_signedText val
  | unsigned => exact oneByte_natText val.toNat
  | hexLower => exact oneByte_hexText val
  | hexUpper => exact oneByte_hexUpperText val
  | pointer => exact oneByte_pointerText val
  | protocol => exact oneByte_protocolText val
  | address => exact oneByte_inetNtoa val

theorem ne_zero_of_mem_missing : ∀ byte ∈ missing, byte ≠ 0 :=
  ne_zero_of_mem_ascii (oneByte_of_all (by decide))

theorem ne_zero_of_mem_convert (conversion : Conversion)
    (left : List UInt64) :
    ∀ byte ∈ (Directive.convert conversion).expand left, byte ≠ 0 := by
  cases left with
  | nil => exact ne_zero_of_mem_missing
  | cons val rest => exact conversion.ne_zero_of_mem_format val

theorem ne_zero_of_mem_expandAll {message : List UInt8}
    (hmessage : Message message) (left : List UInt64) :
    ∀ byte ∈ expandAll left (directives message), byte ≠ 0 := by
  have hsign : ∀ byte ∈ [percentSign], byte ≠ 0 :=
    List.forall_mem_singleton.mpr (by decide)
  induction hmessage generalizing left with
  | nil => exact List.forall_mem_nil _
  | text hbyte htext _ ih =>
      rw [directives_text htext]
      exact List.forall_mem_append.mpr
        ⟨List.forall_mem_singleton.mpr hbyte, ih left⟩
  | dangling => exact hsign
  | percent _ ih =>
      rw [directives_percent]
      exact List.forall_mem_append.mpr ⟨hsign, ih left⟩
  | @convert spec rest conversion hspec hconversion _ ih =>
      rw [directives_convert hspec hconversion]
      exact List.forall_mem_append.mpr
        ⟨ne_zero_of_mem_convert conversion left, ih _⟩
  | unknown hnonzero hspec hunknown _ ih =>
      rw [directives_unknown hspec hunknown]
      refine List.forall_mem_append.mpr ⟨?_, ih left⟩
      exact List.forall_mem_cons.mpr
        ⟨by decide, List.forall_mem_singleton.mpr hnonzero⟩

theorem Formatting.start_at (args : Vector UInt64 MAX_ARGS_CNT) :
    Formatting.At args .start [] args.toList :=
  ⟨Buffer.holds_nil _, rfl, rfl⟩

theorem LogEvent.message_spec (event : LogEvent) : Message event.message := by
  apply message_of_nonzero
  intro byte hbyte
  have hnonzero := List.mem_takeWhile_imp hbyte
  exact of_decide_eq_true hnonzero

theorem LogEvent.msg_eq {event : LogEvent} (hterminated : 0 ∈ event.msg) :
    ∃ behind, event.msg = event.message ++ 0 :: behind := by
  obtain ⟨text, behind, hmsg, htext⟩ :=
    List.eq_append_cons_of_mem hterminated
  have hmessage : event.message = text := by
    rw [message, hmsg, List.takeWhile_append_of_pos]
    · rw [List.takeWhile_cons_of_neg (by decide), List.append_nil]
    · intro byte hbyte
      exact decide_eq_true (ne_of_mem_of_not_mem hbyte htext)
  exact ⟨behind, by rw [hmessage, hmsg]⟩

/-- An event that holds its message is logged as it should be exactly where it
is not logged at all, or its expansion fits. -/
theorem LogEvent.wellLogged_iff (event : LogEvent) (getLevel : UInt32)
    (hsize : sizeofLogEvent ≤ event.size) (hterminated : 0 ∈ event.msg) :
    event.WellLogged getLevel ↔
      event.level.toUInt32 < getLevel ∨
        Fits event.args.toList (directives event.message) := by
  obtain ⟨behind, hmsg⟩ := event.msg_eq hterminated
  have hmessage := event.message_spec
  have hends := Formatting.loop_spec hmessage behind
    (Formatting.start_at event.args) (by decide)
  rw [List.length_nil, fitsFrom_zero_iff, ← hmsg, List.nil_append] at hends
  have hoffset : ¬ event.size < offsetofMsg := by
    simp only [sizeofLogEvent, offsetofMsg] at hsize ⊢
    omega
  unfold WellLogged logEvent
  rw [if_neg (Nat.not_lt.mpr hsize), if_neg hoffset]
  by_cases hlevel : event.level.toUInt32 < getLevel
  · rw [if_pos hlevel, if_pos hlevel]
    exact iff_of_true rfl (.inl hlevel)
  · rw [if_neg hlevel, if_neg hlevel, or_iff_right hlevel]
    by_cases hfits : Fits event.args.toList (directives event.message)
    · refine iff_of_true ?_ hfits
      obtain ⟨state, hloop, hholds, hpos⟩ := hends.1 hfits
      have hlength : state.pos < formattedSize := by
        rw [hpos, List.length_take]
        simp only [formattedSize]
        omega
      rw [hpos] at hlength
      obtain ⟨stored, hstored, hheld⟩ := hholds.store hlength 0
      have htext := hheld.cString fun byte hbyte =>
        ne_zero_of_mem_expandAll hmessage _ byte (List.mem_of_mem_take hbyte)
      rw [hloop]
      change (state.finish >>= fun text => _) = _
      rw [Formatting.finish, hpos, hstored]
      simp only [← htext]
      rfl
    · refine iff_of_false ?_ hfits
      intro hlogged
      cases hloop : Formatting.start.loop event.args event.msg with
      | error fault =>
          rw [hloop] at hlogged
          cases hlogged
      | ok state =>
          have hbehind := hends.2 hfits state hloop
          rw [hloop] at hlogged
          change (state.finish >>= fun text => _) = _ at hlogged
          rw [Formatting.finish, Buffer.store_of_le _ hbehind] at hlogged
          cases hlogged

def LogEvent.percentAtEnd : LogEvent :=
  ⟨4, Vector.replicate MAX_ARGS_CNT 0, ascii "is 100%" ++ [0]⟩

/-- 1022 letters and an unknown format character. -/
def LogEvent.unknownAtEnd : LogEvent :=
  ⟨4, Vector.replicate MAX_ARGS_CNT 0,
    List.replicate 1022 97 ++ ascii "%q" ++ [0]⟩

theorem LogEvent.not_wellLogged_ends :
    (sizeofLogEvent ≤ percentAtEnd.size ∧ 0 ∈ percentAtEnd.msg ∧
      logEvent 2 percentAtEnd = .error .readOutside ∧
      ¬ percentAtEnd.WellLogged 2) ∧
    sizeofLogEvent ≤ unknownAtEnd.size ∧ 0 ∈ unknownAtEnd.msg ∧
      logEvent 2 unknownAtEnd = .error .wroteOutside ∧
      ¬ unknownAtEnd.WellLogged 2 := by
  have hread : logEvent 2 percentAtEnd = .error .readOutside := by
    decide +kernel
  have hwrote : logEvent 2 unknownAtEnd = .error .wroteOutside := by
    decide +kernel
  refine ⟨⟨by decide, by decide, hread, ?_⟩, by decide +kernel,
    by decide +kernel, hwrote, ?_⟩
  · intro hlogged
    rw [WellLogged, hread] at hlogged
    cases hlogged
  · intro hlogged
    rw [WellLogged, hwrote] at hlogged
    cases hlogged

def LogEvent.portEvent : LogEvent :=
  ⟨4, (Vector.replicate MAX_ARGS_CNT 0).set 0 80, ascii "port %d" ++ [0]⟩

theorem LogEvent.wellLogged_iff_portEvent :
    sizeofLogEvent ≤ portEvent.size ∧ 0 ∈ portEvent.msg ∧
      logEvent 2 portEvent = .ok ⟨0, some (4, ascii "port 80")⟩ ∧
      (portEvent.WellLogged 2 ↔
        portEvent.level.toUInt32 < 2 ∨
          Fits portEvent.args.toList (directives portEvent.message)) :=
  ⟨by decide, by decide, by decide +kernel,
    portEvent.wellLogged_iff 2 (by decide) (by decide)⟩

end Hebpf.Services
