import Hebpf.Data.Run
import Hebpf.Data.Store
import Hebpf.Services.Klog

namespace Hebpf.Services

open Hebpf.Data

/-! From `KLOG` in a program of the kernel to the line in the log: a record of
bytes that one side stores by its fields and the other reads. -/

def offsetofArgs : Nat := 8
def offsetofMsgLen : Nat := 88

structure LogCall where
  level : UInt16
  msg : Bytes
  nonzero : ∀ byte ∈ msg, byte ≠ 0
  args : Vector UInt64 MAX_ARGS_CNT

namespace LogCall

variable (call : LogCall)

/-- The loop counts in 16 bits. -/
def msgLen : Nat := call.msg.length % 65536

def totalSize : Nat := sizeofLogEvent + call.msgLen + 1

/-- What is left of the format where the count wraps around -/
def sent : Bytes := call.msg.take call.msgLen

def argWords : List Bytes :=
  call.args.toList.map fun arg => wordBytes 8 arg.toNat

/-- `bpf_log_event_internal` from the reserved memory on, which is as others
left it -/
def bpfLogEventInternal (memory : Vector UInt8 call.totalSize) :
    Except Fault Bytes := do
  let loge ← Bytes.write memory.toList 0 (wordBytes 2 call.level.toNat)
  let loge ← loge.write offsetofMsgLen (wordBytes 2 call.msgLen)
  let loge ← loge.writeAll offsetofMsg (call.sent.map ([·]))
  let loge ← loge.write (offsetofMsg + call.msgLen) [0]
  loge.writeAll offsetofArgs call.argWords

end LogCall

def LogEvent.ofRecord (record : Bytes) : LogEvent where
  level := UInt16.ofNat (wordValue (record.take 2))
  args := Vector.ofFn fun index => UInt64.ofNat
    (wordValue ((record.drop (offsetofArgs + 8 * index.val)).take 8))
  msg := record.drop offsetofMsg

namespace LogCall

variable {call : LogCall}

theorem length_sent : call.sent.length = call.msgLen := by
  rw [sent, List.length_take]
  exact Nat.min_eq_left (Nat.mod_le _ _)

theorem length_argWords : call.argWords.flatten.length = 80 := by
  have hlengths : call.argWords.map List.length = List.replicate 10 8 := by
    rw [argWords, List.map_map, List.eq_replicate_iff]
    refine ⟨?_, ?_⟩
    · rw [List.length_map, Vector.length_toList]
      rfl
    · intro length hlength
      obtain ⟨arg, -, rfl⟩ := List.mem_map.mp hlength
      exact length_wordBytes _ _
  rw [List.length_flatten, hlengths]
  rfl

def layout (call : LogCall) (padding behind : Bytes) : Bytes :=
  wordBytes 2 call.level.toNat ++ (padding ++ (call.argWords.flatten ++
    (wordBytes 2 call.msgLen ++ (call.sent ++ ([0] ++ behind)))))

theorem flatten_sent : (call.sent.map ([·])).flatten = call.sent := by
  rw [← List.flatMap_def, List.flatMap_singleton']

theorem bpfLogEventInternal_eq (memory : Vector UInt8 call.totalSize) :
    ∃ padding behind, padding.length = 6 ∧ behind.length = 6 ∧
      call.bpfLogEventInternal memory = .ok (call.layout padding behind) := by
  obtain ⟨fields, behind, hmemory, hfields⟩ := @Bytes.exists_fields
    memory.toList [2, 6, 80, 2, call.msgLen, 1] (by
      rw [Vector.length_toList, totalSize, sizeofLogEvent]
      simp only [List.sum_cons, List.sum_nil]
      omega)
  simp only [List.map_eq_cons_iff, List.map_eq_nil_iff] at hfields
  obtain ⟨level, _, rfl, hlevel, padding, _, rfl, hpadding, args, _, rfl,
    hargs, length, _, rfl, hlength, msg, _, rfl, hmsg, zero, _, rfl, hzero,
    rfl⟩ := hfields
  simp only [List.flatten_cons, List.flatten_nil, List.append_nil,
    List.append_assoc] at hmemory
  have hbehind : behind.length = 6 := by
    have htotal := congrArg List.length hmemory
    rw [Vector.length_toList, totalSize, sizeofLogEvent] at htotal
    simp only [List.length_append, hlevel, hpadding, hargs, hlength, hmsg,
      hzero] at htotal
    omega
  refine ⟨padding, behind, hpadding, hbehind, ?_⟩
  have hfirst := @Bytes.write_append []
    (padding ++ (args ++ (length ++ (msg ++ (zero ++ behind))))) level
    (wordBytes 2 call.level.toNat) (by rw [hlevel, length_wordBytes])
  have hsecond := @Bytes.write_append
    (wordBytes 2 call.level.toNat ++ (padding ++ args))
    (msg ++ (zero ++ behind)) length (wordBytes 2 call.msgLen)
    (by rw [hlength, length_wordBytes])
  have hthird := @Bytes.writeAll_append
    (wordBytes 2 call.level.toNat ++
      (padding ++ (args ++ wordBytes 2 call.msgLen)))
    (zero ++ behind) msg (call.sent.map ([·]))
    (by rw [hmsg, flatten_sent, length_sent])
  have hfourth := @Bytes.write_append
    (wordBytes 2 call.level.toNat ++
      (padding ++ (args ++ (wordBytes 2 call.msgLen ++ call.sent))))
    behind zero [0] hzero
  have hfifth := @Bytes.writeAll_append
    (wordBytes 2 call.level.toNat ++ padding)
    (wordBytes 2 call.msgLen ++ (call.sent ++ ([0] ++ behind))) args
    call.argWords (by rw [hargs, length_argWords])
  simp only [List.length_append, length_wordBytes, hpadding, hargs,
    length_sent, flatten_sent, List.append_assoc, ← Nat.add_assoc,
    Nat.reduceAdd] at hsecond hthird hfourth hfifth
  simp only [List.nil_append, List.length_nil] at hfirst
  unfold bpfLogEventInternal
  rw [hmemory]
  simp only [offsetofMsgLen, offsetofMsg, offsetofArgs, bind, Except.bind,
    hfirst, hsecond, hthird, hfourth, hfifth]
  rfl

variable {padding behind : Bytes}

theorem ofRecord_layout (hpadding : padding.length = 6) :
    LogEvent.ofRecord (call.layout padding behind) =
      ⟨call.level, call.args, call.sent ++ 0 :: behind⟩ := by
  have hwords : call.argWords =
      (call.args.toList.map UInt64.toNat).map (wordBytes 8) := by
    rw [List.map_map]
    rfl
  unfold LogEvent.ofRecord
  congr 1
  · rw [layout, List.take_left' (length_wordBytes _ _),
      wordValue_wordBytes call.level.toNat_lt, UInt16.ofNat_toNat]
  · ext index hindex
    rw [Vector.getElem_ofFn, layout, hwords,
      ← List.append_assoc (wordBytes 2 call.level.toNat)]
    have hword := @Bytes.word_of_flatten 8 (call.args.toList.map UInt64.toNat)
      (wordBytes 2 call.level.toNat ++ padding)
      (wordBytes 2 call.msgLen ++ (call.sent ++ ([0] ++ behind))) index
      (by rwa [List.length_map, Vector.length_toList])
      (fun value hvalue => by
        obtain ⟨arg, -, rfl⟩ := List.mem_map.mp hvalue
        exact arg.toNat_lt)
    rw [List.length_append, length_wordBytes, hpadding] at hword
    rw [offsetofArgs, hword]
    simp
  · have hdrop := @List.drop_left' UInt8 (wordBytes 2 call.level.toNat ++
      (padding ++ (call.argWords.flatten ++ wordBytes 2 call.msgLen)))
      (call.sent ++ ([0] ++ behind)) offsetofMsg (by
        simp only [List.length_append, length_wordBytes, length_argWords,
          hpadding, offsetofMsg])
    simp only [List.append_assoc] at hdrop
    exact hdrop

/-- The count does not wrap around, and no directive is cut off. -/
structure Fits (call : LogCall) : Prop where
  length : call.msg.length < 65536
  directives : Services.Fits call.args.toList (directives call.msg)

def line (call : LogCall) (getLevel : UInt32) : Option (UInt16 × Bytes) :=
  if call.level.toUInt32 < getLevel then none
  else some (call.level,
    (expandAll call.args.toList (directives call.msg)).take
      (formattedSize - 1))

theorem Fits.sent_eq (hfits : call.Fits) : call.sent = call.msg := by
  rw [sent, msgLen, Nat.mod_eq_of_lt hfits.length, List.take_length]

theorem Fits.finish (hfits : call.Fits) (behind : Bytes) :
    ∃ state, Formatting.start.loop call.args (call.msg ++ 0 :: behind) =
        .ok state ∧
      state.finish = .ok ((expandAll call.args.toList
        (Services.directives call.msg)).take (formattedSize - 1)) := by
  have hmessage := message_of_nonzero call.nonzero
  have hends := Formatting.loop_spec hmessage behind
    (Formatting.start_at call.args) (by decide)
  rw [List.length_nil, fitsFrom_zero_iff, List.nil_append] at hends
  obtain ⟨state, hloop, hholds, hpos⟩ := hends.1 hfits.directives
  have hlength : state.pos < formattedSize := by
    rw [hpos, List.length_take]
    exact Nat.lt_of_le_of_lt (Nat.min_le_left _ _) (by decide)
  rw [hpos] at hlength
  obtain ⟨stored, hstored, hheld⟩ := hholds.store hlength 0
  have htext := hheld.cString fun byte hbyte => ne_zero_of_mem_expandAll
    hmessage _ byte (List.mem_of_mem_take hbyte)
  refine ⟨state, hloop, ?_⟩
  rw [Formatting.finish, hpos, hstored, ← htext]
  rfl

theorem Fits.logEvent (hfits : call.Fits) (getLevel : UInt32)
    (hpadding : padding.length = 6) (hbehind : behind.length = 6) :
    logEvent getLevel (.ofRecord (call.layout padding behind)) =
      .ok ⟨0, call.line getLevel⟩ := by
  have hsize : ¬ (LogEvent.mk call.level call.args
      (call.msg ++ 0 :: behind)).size < sizeofLogEvent := by
    simp only [LogEvent.size, List.length_append, List.length_cons, hbehind,
      offsetofMsg, sizeofLogEvent]
    omega
  have hoffset : ¬ (LogEvent.mk call.level call.args
      (call.msg ++ 0 :: behind)).size < offsetofMsg :=
    fun hless => hsize (hless.trans (by decide))
  rw [ofRecord_layout hpadding, hfits.sent_eq, Services.logEvent,
    if_neg hsize, if_neg hoffset, line]
  split_ifs with hlevel
  · rfl
  · obtain ⟨state, hloop, htext⟩ := hfits.finish behind
    rw [hloop]
    change (state.finish >>= fun text => _) = _
    rw [htext]
    rfl

end LogCall

/-- The records that wait, what `logEvent` has answered, and the lines of the
log. -/
structure Ring where
  records : List Bytes
  answers : List Int
  lines : List (UInt16 × Bytes)

/-- A call in the kernel, which gets memory where there is room, or the next
record for `logEvent` at the level of that moment. -/
inductive RingAction where
  | log (call : LogCall) (memory : Option (Vector UInt8 call.totalSize))
  | poll (getLevel : UInt32)

namespace Ring

def start : Ring := ⟨[], [], []⟩

def step (ring : Ring) : RingAction → Except Fault Ring
  | .log _ none => .ok ring
  | .log call (some memory) => do
      let loge ← call.bpfLogEventInternal memory
      return { ring with records := ring.records ++ [loge] }
  | .poll getLevel =>
      match ring.records with
      | [] => .ok ring
      | record :: rest => do
          let logged ← logEvent getLevel (.ofRecord record)
          return {
            records := rest
            answers := ring.answers ++ [logged.answer]
            lines := ring.lines ++ logged.line.toList }

end Ring

/-- What the log is for: the calls that got memory, in their order. -/
structure KernelLog where
  calls : List LogCall
  lines : List (UInt16 × Bytes)

namespace KernelLog

def start : KernelLog := ⟨[], []⟩

def step (log : KernelLog) : RingAction → KernelLog
  | .log _ none => log
  | .log call (some _) => { log with calls := log.calls ++ [call] }
  | .poll getLevel =>
      match log.calls with
      | [] => log
      | call :: rest =>
          { calls := rest
            lines := log.lines ++ (call.line getLevel).toList }

end KernelLog

/-- The records hold the calls, whatever was in their memory before. -/
structure Ring.Refines (ring : Ring) (log : KernelLog) : Prop where
  records : List.Forall₂ (fun record call => ∃ padding behind : Bytes,
    padding.length = 6 ∧ behind.length = 6 ∧
      record = call.layout padding behind) ring.records log.calls
  fits : ∀ call ∈ log.calls, call.Fits
  answers : ∀ answer ∈ ring.answers, answer = 0
  lines : ring.lines = log.lines

def RingAction.Fits : RingAction → Prop
  | .log call (some _) => call.Fits
  | _ => True

namespace Ring.Refines

variable {ring : Ring} {log : KernelLog}

theorem start : Ring.start.Refines KernelLog.start where
  records := .nil
  fits := List.forall_mem_nil _
  answers := List.forall_mem_nil _
  lines := rfl

theorem sent (hrefines : ring.Refines log) {call : LogCall}
    (hfits : call.Fits) (memory : Vector UInt8 call.totalSize) :
    ∃ next, ring.step (.log call (some memory)) = .ok next ∧
      next.Refines (log.step (.log call (some memory))) := by
  obtain ⟨padding, behind, hpadding, hbehind, hstored⟩ :=
    LogCall.bpfLogEventInternal_eq memory
  refine ⟨{ ring with
    records := ring.records ++ [call.layout padding behind] }, ?_, ?_⟩
  · rw [Ring.step, hstored]
    rfl
  · constructor
    · apply List.rel_append hrefines.records
      exact .cons ⟨padding, behind, hpadding, hbehind, rfl⟩ .nil
    · rw [KernelLog.step, List.forall_mem_append, List.forall_mem_singleton]
      exact ⟨hrefines.fits, hfits⟩
    · exact hrefines.answers
    · exact hrefines.lines

theorem polled (hrefines : ring.Refines log) (getLevel : UInt32) :
    ∃ next, ring.step (.poll getLevel) = .ok next ∧
      next.Refines (log.step (.poll getLevel)) := by
  have hrecords := hrefines.records
  unfold Ring.step KernelLog.step
  cases hcalls : log.calls with
  | nil =>
      rw [hcalls, List.forall₂_nil_right_iff] at hrecords
      rw [hrecords]
      exact ⟨ring, rfl, hrefines⟩
  | cons call rest =>
      rw [hcalls, List.forall₂_cons_right_iff] at hrecords
      obtain ⟨record, records, hrecord, hlater, hring⟩ := hrecords
      obtain ⟨padding, behind, hpadding, hbehind, rfl⟩ := hrecord
      have hfits := hrefines.fits
      rw [hcalls, List.forall_mem_cons] at hfits
      have hlogged := hfits.1.logEvent getLevel hpadding hbehind
      rw [hring]
      simp only [hlogged]
      refine ⟨_, rfl, hlater, hfits.2, ?_, ?_⟩
      · rw [List.forall_mem_append, List.forall_mem_singleton]
        exact ⟨hrefines.answers, rfl⟩
      · rw [hrefines.lines]

theorem step (hrefines : ring.Refines log) {action : RingAction}
    (hfits : action.Fits) :
    ∃ next, ring.step action = .ok next ∧ next.Refines (log.step action) := by
  cases action with
  | log call memory =>
      cases memory with
      | none => exact ⟨ring, rfl, hrefines⟩
      | some memory => exact hrefines.sent hfits memory
  | poll getLevel => exact hrefines.polled getLevel

end Ring.Refines

/-- Whatever stood in the memory of the ring buffer, and whenever its records
are read: no store or load leaves a record, no record is refused, and the lines
are those of the calls, in their order. -/
theorem Ring.logs_calls (actions : List RingAction)
    (hfits : ∀ action ∈ actions, action.Fits) :
    ∃ ring, actions.foldlM Ring.step .start = .ok ring ∧
      ring.Refines (run KernelLog.step .start actions) := by
  have hrun : ∀ (ring : Ring) (log : KernelLog), ring.Refines log →
      ∃ final, actions.foldlM Ring.step ring = .ok final ∧
        final.Refines (run KernelLog.step log actions) := by
    induction actions with
    | nil => exact fun ring log hrefines => ⟨ring, rfl, hrefines⟩
    | cons action rest ih =>
        obtain ⟨hfirst, hrest⟩ := List.forall_mem_cons.mp hfits
        intro ring log hrefines
        obtain ⟨next, hnext, hkept⟩ := hrefines.step hfirst
        rw [List.foldlM_cons, hnext, run_cons]
        exact ih hrest next _ hkept
  exact hrun _ _ .start

instance FitsFrom.decidable (args : List UInt64) (pos : Nat) :
    (all : List Directive) → Decidable (FitsFrom args pos all)
  | [] => .isTrue trivial
  | directive :: rest =>
      have := FitsFrom.decidable (directive.left args)
        (pos + (directive.expand args).length) rest
      inferInstanceAs (Decidable (_ → _ ∧ _ ∧ _))

theorem ascii_packets_nonzero : ∀ byte ∈ ascii "%u packets", byte ≠ 0 := by
  simp [ascii]

def LogCall.packets : LogCall where
  level := 4
  msg := ascii "%u packets"
  nonzero := ascii_packets_nonzero
  args := (Vector.replicate MAX_ARGS_CNT 0).set 0 80 (Nat.zero_lt_succ _)

theorem LogCall.packets_fits : packets.Fits where
  length := by decide
  directives := by
    apply fitsFrom_zero_iff.mp
    decide +kernel

/-- The call is read from memory that was full of ones. -/
theorem Ring.logs_calls_packets :
    ∃ ring : Ring, [.log LogCall.packets (some (Vector.replicate _ 255)),
        .poll 2].foldlM Ring.step .start = .ok ring ∧
      ring.lines = [(4, ascii "80 packets")] := by
  obtain ⟨ring, hring, hrefines⟩ := Ring.logs_calls
    [.log LogCall.packets (some (Vector.replicate _ 255)), .poll 2] (by
      rw [List.forall_mem_cons, List.forall_mem_singleton]
      exact ⟨LogCall.packets_fits, trivial⟩)
  refine ⟨ring, hring, ?_⟩
  rw [hrefines.lines]
  decide +kernel

end Hebpf.Services
