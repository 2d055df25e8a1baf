import Hebpf.Data.Bytes
import Hebpf.Inotify.Manager

namespace Hebpf.Inotify

open Hebpf.Data

/-! The bytes that `read` leaves of the events, and how they are taken apart. -/

/-- An event as the kernel has it.  Behind the name there is as much padding as
it likes, and a name has at least the byte that ends it. -/
structure KernelEvent where
  wd : Int32
  mask : UInt32
  cookie : UInt32
  name : Bytes
  padding : Nat
  nonzero : ∀ byte ∈ name, byte ≠ 0
  terminated : name ≠ [] → 0 < padding
  fits : name.length + padding < 4294967296

namespace KernelEvent

def len (event : KernelEvent) : UInt32 :=
  UInt32.ofNat (event.name.length + event.padding)

def encode (event : KernelEvent) : Bytes :=
  wordBytes 4 event.wd.toUInt32.toNat ++ wordBytes 4 event.mask.toNat ++
    wordBytes 4 event.cookie.toNat ++ wordBytes 4 event.len.toNat ++
      (event.name ++ List.replicate event.padding 0)

theorem toNat_len (event : KernelEvent) :
    event.len.toNat = event.name.length + event.padding :=
  UInt32.toNat_ofNat_of_lt' event.fits

theorem length_encode (event : KernelEvent) :
    event.encode.length = 16 + event.len.toNat := by
  simp only [encode, List.length_append, length_wordBytes,
    List.length_replicate, toNat_len]

end KernelEvent

section Parsing

variable {m : Type → Type} [Monad m]

def reading {α : Type} (answer : Except Fault α) : ExceptT Fault m α :=
  ExceptT.mk (pure answer)

namespace InotifyInstance

/-- The loop of `processInotify` at `ptr`.  The callback may do whatever `m`
has, throw included. -/
def processFrom (cb : Bytes → UInt32 → m Unit) (buffer : Bytes) (ptr : Nat) :
    ExceptT Fault m Unit :=
  if hptr : ptr < buffer.length then
    reading (buffer.readWord32 (ptr + 12)) >>= fun len =>
      (if 0 < len then do
        let name ← reading (buffer.readCString (ptr + 16))
        let mask ← reading (buffer.readWord32 (ptr + 4))
        ExceptT.lift (cb name mask)
      else pure ()) >>= fun _ =>
        processFrom cb buffer (ptr + (16 + len.toNat))
  else pure ()
  termination_by buffer.length - ptr

def processInotify (cb : Bytes → UInt32 → m Unit) (buffer : Bytes) :
    ExceptT Fault m Unit :=
  processFrom cb buffer 0

variable {cb : Bytes → UInt32 → m Unit}

theorem processFrom_end (buffer : Bytes) :
    processFrom cb buffer buffer.length = pure () := by
  rw [processFrom, dif_neg (Nat.lt_irrefl _)]

end InotifyInstance

end Parsing

namespace KernelEvent

variable (front behind : Bytes) (event : KernelEvent)

theorem readWord32_mask :
    Bytes.readWord32 (front ++ event.encode ++ behind) (front.length + 4) =
      .ok event.mask := by
  have hread := Bytes.readWord32_append
    (front ++ wordBytes 4 event.wd.toUInt32.toNat)
    (wordBytes 4 event.cookie.toNat ++ wordBytes 4 event.len.toNat ++
      (event.name ++ List.replicate event.padding 0) ++ behind) event.mask
  rw [List.length_append, length_wordBytes] at hread
  simpa only [encode, List.append_assoc] using hread

theorem readWord32_len :
    Bytes.readWord32 (front ++ event.encode ++ behind) (front.length + 12) =
      .ok event.len := by
  have hread := Bytes.readWord32_append
    (front ++ (wordBytes 4 event.wd.toUInt32.toNat ++
      wordBytes 4 event.mask.toNat ++ wordBytes 4 event.cookie.toNat))
    (event.name ++ List.replicate event.padding 0 ++ behind) event.len
  rw [List.length_append, List.length_append, List.length_append,
    length_wordBytes, length_wordBytes, length_wordBytes] at hread
  simpa only [encode, List.append_assoc] using hread

variable {event} in
theorem padding_pos (hlen : 0 < event.len) : 0 < event.padding := by
  have hlength : 0 < event.name.length + event.padding := by
    rw [← event.toNat_len]
    exact hlen
  by_contra hnone
  refine hnone (event.terminated fun hname => ?_)
  rw [hname, List.length_nil] at hlength
  omega

variable {event} in
theorem readCString_name (hlen : 0 < event.len) :
    Bytes.readCString (front ++ event.encode ++ behind) (front.length + 16) =
      .ok event.name := by
  obtain ⟨padding, hpadding⟩ :=
    Nat.exists_eq_succ_of_ne_zero (padding_pos hlen).ne'
  have hread := Bytes.readCString_append
    (front ++ (wordBytes 4 event.wd.toUInt32.toNat ++
      wordBytes 4 event.mask.toNat ++ wordBytes 4 event.cookie.toNat ++
        wordBytes 4 event.len.toNat))
    (List.replicate padding 0 ++ behind) event.nonzero
  rw [List.length_append, List.length_append, List.length_append,
    List.length_append, length_wordBytes, length_wordBytes, length_wordBytes,
    length_wordBytes] at hread
  simpa only [encode, hpadding, List.replicate_succ, List.append_assoc,
    List.cons_append] using hread

end KernelEvent

section Decoding

variable {m : Type → Type} [Monad m] [LawfulMonad m]
  {cb : Bytes → UInt32 → m Unit}

theorem reading_ok {α β : Type} (value : α) (next : α → ExceptT Fault m β) :
    reading (.ok value) >>= next = next value := by
  apply ExceptT.ext
  simp [reading, ExceptT.run_bind]

def KernelEvent.invoke (cb : Bytes → UInt32 → m Unit) (event : KernelEvent) :
    ExceptT Fault m Unit :=
  if 0 < event.len then ExceptT.lift (cb event.name event.mask) else pure ()

namespace InotifyInstance

/-- From the start of an event the loop comes to the start of the next. -/
theorem processFrom_event (front behind : Bytes) (event : KernelEvent) :
    processFrom cb (front ++ event.encode ++ behind) front.length =
      event.invoke cb >>= fun _ =>
        processFrom cb (front ++ event.encode ++ behind)
          (front ++ event.encode).length := by
  have hptr : front.length < (front ++ event.encode ++ behind).length := by
    rw [List.length_append, List.length_append, event.length_encode]
    omega
  rw [processFrom, dif_pos hptr, event.readWord32_len, reading_ok,
    event.readWord32_mask, List.length_append, event.length_encode,
    KernelEvent.invoke]
  split_ifs with hlen
  · rw [KernelEvent.readCString_name front behind hlen, reading_ok, reading_ok]
  · rfl

theorem processFrom_events (front : Bytes) (events : List KernelEvent) :
    processFrom cb (front ++ events.flatMap KernelEvent.encode) front.length =
      forM events (KernelEvent.invoke cb) := by
  induction events generalizing front with
  | nil =>
      rw [List.flatMap_nil, List.append_nil, processFrom_end]
      rfl
  | cons event events ih =>
      rw [List.flatMap_cons, ← List.append_assoc, processFrom_event, ih]
      rfl

end InotifyInstance

def named (events : List KernelEvent) : List KernelEvent :=
  events.filter fun event => 0 < event.len

theorem run_forM_invoke (events : List KernelEvent) :
    (forM events (KernelEvent.invoke cb)).run =
      Except.ok <$> forM (named events) fun event =>
        cb event.name event.mask := by
  induction events with
  | nil => simp [named]
  | cons event events ih =>
      rw [List.forM_cons, ExceptT.run_bind, ih, KernelEvent.invoke]
      by_cases hlen : 0 < event.len
      · have hnamed : named (event :: events) = event :: named events :=
          List.filter_cons_of_pos (decide_eq_true hlen)
        rw [if_pos hlen, hnamed, List.forM_cons]
        simp
      · have hnamed : named (event :: events) = named events :=
          List.filter_cons_of_neg (by simpa using hlen)
        rw [if_neg hlen, hnamed]
        simp

/-- Every buffer of events is read to its end and within its bounds, and what
happens is that the callback is invoked for each event with a name, in their
order. -/
theorem processInotify_encode (events : List KernelEvent) :
    (InotifyInstance.processInotify cb
      (events.flatMap KernelEvent.encode)).run =
        Except.ok <$> forM (named events) fun event =>
          cb event.name event.mask := by
  have hloop := @InotifyInstance.processFrom_events m _ _ cb [] events
  rw [InotifyInstance.processInotify, ← run_forM_invoke, ← hloop]
  rfl

end Decoding

def ignored : KernelEvent where
  wd := 1
  mask := 32768
  cookie := 0
  name := []
  padding := 0
  nonzero := by simp
  terminated := by simp
  fits := by decide

def closeWrite : KernelEvent where
  wd := 2
  mask := 8
  cookie := 0
  name := [97, 99, 108]
  padding := 13
  nonzero := by simp
  terminated _ := by decide
  fits := by decide

def record (name : Bytes) (mask : UInt32) :
    StateM (List (Bytes × UInt32)) Unit :=
  modify (· ++ [(name, mask)])

theorem processInotify_encode_closeWrite :
    StateT.run (InotifyInstance.processInotify record
      ([ignored, closeWrite].flatMap KernelEvent.encode)).run [] =
        (.ok (), [([97, 99, 108], 8)]) := by
  rw [processInotify_encode]
  rfl

end Hebpf.Inotify
