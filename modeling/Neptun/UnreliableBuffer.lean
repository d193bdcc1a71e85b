/-
Runs of a single `UnreliableStream`.

A write consumes the bytes of the messages it puts into the packet.  The pending
messages that do not fit are dropped from the list, but not from the buffer:
their bytes stay there for good.

* `accounted_iff` — the bytes of the buffer are those of the pending messages all
  along a run, exactly if every packet that takes one of them takes them all;
* `unreliable_round_trip_iff` — the reader gives back what the writer has taken,
  exactly if these are fewer than 256 messages.
-/
import Neptun.UnreliableSegment
import Neptun.Library.System

namespace Neptun

namespace UnreliableStream

/-- What the callback of a `send` returns. -/
def payloadOf (s : UnreliableStream) (fn : WriteToBufferFn) : List UInt8 :=
  let result := fn.run (s.buffer.buffer.slice s.buffer.remaining.off s.buffer.remaining.size)
  result.1.take result.2

/-- The payloads accepted so far, once the callback has returned.  Empty payloads
are ignored. -/
def acceptedAfter (s : UnreliableStream) (fn : WriteToBufferFn) (accepted : List (List UInt8)) :
    List (List UInt8) :=
  if s.payloadOf fn = [] then accepted else accepted ++ [s.payloadOf fn]

/-- The bytes of the pending messages lie in front of the end of the buffer. -/
structure Sound (capacity : ℕ) (s : UnreliableStream) : Prop where
  size : s.buffer.capacity = capacity
  beginIndex : s.buffer.beginIndex = 0
  endIndex : s.buffer.endIndex ≤ capacity
  total : (s.pendingMessages.map Span.size).sum ≤ s.buffer.endIndex
  inside : ∀ span ∈ s.pendingMessages, 0 < span.size ∧ span.off + span.size ≤ s.buffer.endIndex

variable {capacity : ℕ} {s : UnreliableStream}

/-! ### Sending -/

theorem val_send (s : UnreliableStream) (fn : WriteToBufferFn) :
    let result := fn.run (s.buffer.buffer.slice s.buffer.remaining.off s.buffer.remaining.size)
    (s.send fn).val =
      { buffer := { s.buffer with
          buffer := s.buffer.buffer.storeList s.buffer.endIndex result.1
          endIndex := s.buffer.endIndex + result.2 }
        pendingMessages :=
          if result.2 = 0 then s.pendingMessages
          else s.pendingMessages ++ [⟨s.buffer.endIndex, result.2⟩] } := by
  obtain ⟨run, -, -⟩ := fn
  rw [send]
  simp only [FlipBuffer.writeRemaining, FlipBuffer.advance]
  by_cases hzero : (run (s.buffer.buffer.slice s.buffer.remaining.off s.buffer.remaining.size)).2
      = 0
  · simp only [hzero, ne_eq, not_true_eq_false, if_false, if_true]
    rfl
  · simp only [hzero, ne_eq, not_false_eq_true, if_false, if_true]
    rfl

/-- The length of what the callback returns. -/
theorem length_payloadOf (s : UnreliableStream) (fn : WriteToBufferFn) :
    (s.payloadOf fn).length
      = (fn.run (s.buffer.buffer.slice s.buffer.remaining.off s.buffer.remaining.size)).2 := by
  rw [payloadOf, List.length_take, Nat.min_eq_left]
  rw [fn.length_run]
  exact fn.le_run _

/-- The free bytes behind the end. -/
theorem Sound.length_payloadOf_le (h : s.Sound capacity) (fn : WriteToBufferFn) :
    s.buffer.endIndex + (s.payloadOf fn).length ≤ capacity := by
  have hle := fn.le_run (s.buffer.buffer.slice s.buffer.remaining.off s.buffer.remaining.size)
  rw [← length_payloadOf, Memory.length_slice, FlipBuffer.remaining,
    usizeSub_of_le (by rw [h.size]; exact h.endIndex), h.size] at hle
  have hend := h.endIndex
  dsimp only at hle
  omega

/-- The stream after a `send`. -/
theorem send_state (s : UnreliableStream) (fn : WriteToBufferFn) :
    (s.send fn).val.buffer.beginIndex = s.buffer.beginIndex ∧
    (s.send fn).val.buffer.capacity = s.buffer.capacity ∧
    (s.send fn).val.buffer.endIndex = s.buffer.endIndex + (s.payloadOf fn).length ∧
    (s.send fn).val.pendingMessages =
      if s.payloadOf fn = [] then s.pendingMessages
      else s.pendingMessages ++ [⟨s.buffer.endIndex, (s.payloadOf fn).length⟩] := by
  rw [val_send, ← length_payloadOf]
  refine ⟨rfl, rfl, rfl, ?_⟩
  simp only [List.length_eq_zero_iff]

theorem Sound.send (h : s.Sound capacity) (fn : WriteToBufferFn) :
    (s.send fn).val.Sound capacity := by
  obtain ⟨hbegin, hcapacity, hend, hpending⟩ := s.send_state fn
  have hroom := h.length_payloadOf_le fn
  have htotal := h.total
  refine ⟨hcapacity.trans h.size, hbegin.trans h.beginIndex, ?_, ?_, ?_⟩
  · rw [hend]
    exact hroom
  · rw [hend, hpending]
    split
    · omega
    · simp only [List.map_append, List.map_cons, List.map_nil, List.sum_append, List.sum_cons,
        List.sum_nil]
      omega
  · rw [hend, hpending]
    split
    · intro span hspan
      have := h.inside span hspan
      omega
    · next hne =>
      have hpos := List.length_pos_iff.mpr hne
      intro span hspan
      rcases List.mem_append.mp hspan with hspan | hspan
      · have := h.inside span hspan
        omega
      · rw [List.mem_singleton.mp hspan]
        exact ⟨hpos, Nat.le_refl _⟩

/-- A `send` leaves the payloads that are pending alone. -/
theorem Sound.payloads_send (h : s.Sound capacity) (fn : WriteToBufferFn) :
    (s.send fn).val.payloads = s.acceptedAfter fn s.payloads := by
  have hpending := (s.send_state fn).2.2.2
  have hbuffer : (s.send fn).val.buffer.buffer = s.buffer.buffer.storeList s.buffer.endIndex
      (fn.run (s.buffer.buffer.slice s.buffer.remaining.off s.buffer.remaining.size)).1 := by
    rw [val_send]
  have hold : s.pendingMessages.map (payloadAt (s.send fn).val.buffer) = s.payloads := by
    refine List.map_congr_left fun span hspan => ?_
    rw [payloadAt, payloadAt, hbuffer]
    exact Memory.slice_storeList_of_disjoint (Or.inl (h.inside span hspan).2)
  rw [payloads, hpending, acceptedAfter]
  split
  · exact hold
  · rw [List.map_append, hold, List.map_singleton, payloadAt, hbuffer]
    -- the payload is the beginning of what the callback has written
    have hprefix := Memory.take_drop_slice (s.buffer.buffer.storeList s.buffer.endIndex
      (fn.run (s.buffer.buffer.slice s.buffer.remaining.off s.buffer.remaining.size)).1)
      s.buffer.endIndex (show 0 + (s.payloadOf fn).length ≤ (fn.run (s.buffer.buffer.slice
        s.buffer.remaining.off s.buffer.remaining.size)).1.length by
      rw [length_payloadOf, fn.length_run, Nat.zero_add]
      exact fn.le_run _)
    rw [List.drop_zero, Memory.slice_storeList_self, Nat.add_zero] at hprefix
    rw [← hprefix, length_payloadOf]
    rfl

/-! ### Writing -/

/-- The bytes that a write consumes are there. -/
theorem Sound.consumed_le (h : s.Sound capacity) (k : ℕ) :
    ((s.pendingMessages.take k).map Span.size).sum
      + ((s.pendingMessages.drop k).map Span.size).sum ≤ s.buffer.endIndex := by
  have hsplit := congrArg (fun spans : List Span => (spans.map Span.size).sum)
    (List.take_append_drop k s.pendingMessages)
  simp only [List.map_append, List.sum_append] at hsplit
  rw [hsplit]
  exact h.total

/-- The stream after a write that takes something: what does not fit is dropped
from the list only. -/
theorem Sound.write_state (h : s.Sound capacity) (b : Span) (mem : Memory)
    (hfit : s.fitCount b.size ≠ 0) :
    (s.write b mem).val.1.pendingMessages = [] ∧
    (s.write b mem).val.1.buffer.capacity = capacity ∧
    (s.write b mem).val.1.buffer.beginIndex = 0 ∧
    (s.write b mem).val.1.buffer.endIndex = s.buffer.endIndex
      - ((s.pendingMessages.take (s.fitCount b.size)).map Span.size).sum := by
  have hle := h.consumed_le (s.fitCount b.size)
  rw [val_write, if_neg hfit]
  refine ⟨rfl, h.size, rfl, ?_⟩
  show (FlipBuffer.flip _).endIndex = _
  rw [FlipBuffer.flip_endIndex]
  · show s.buffer.endIndex - (s.buffer.beginIndex + _) = _
    rw [h.beginIndex, Nat.zero_add]
  · show s.buffer.beginIndex + _ ≤ s.buffer.endIndex
    rw [h.beginIndex]
    omega

theorem write_of_fitCount (s : UnreliableStream) (b : Span) (mem : Memory)
    (hfit : s.fitCount b.size = 0) : (s.write b mem).val.1 = s := by
  rw [val_write, if_pos hfit]

theorem Sound.write (h : s.Sound capacity) (b : Span) (mem : Memory) :
    (s.write b mem).val.1.Sound capacity := by
  by_cases hfit : s.fitCount b.size = 0
  · rw [write_of_fitCount s b mem hfit]
    exact h
  · obtain ⟨hpending, hcapacity, hbegin, hend⟩ := h.write_state b mem hfit
    have hle := h.endIndex
    refine ⟨hcapacity, hbegin, by omega, ?_, ?_⟩
    · rw [hpending]
      exact Nat.zero_le _
    · rw [hpending]
      intro span hspan
      cases hspan

theorem Sound.start (capacity : ℕ) : (ofCapacity capacity).Sound capacity where
  size := rfl
  beginIndex := rfl
  endIndex := Nat.zero_le _
  total := Nat.le_refl _
  inside := by
    intro span hspan
    cases hspan

end UnreliableStream

/-! ### Runs -/

open UnreliableStream

/-- A call of an `UnreliableStream` that changes it. -/
inductive UnreliableCall
  | send (fn : WriteToBufferFn)
  | write (b : Span) (mem : Memory)

/-- A stream and the payloads accepted since the last packet that took some. -/
structure UnreliableState where
  stream : UnreliableStream
  waiting : List (List UInt8) := []

def UnreliableState.next (s : UnreliableState) : UnreliableCall → UnreliableState
  | .send fn => ⟨(s.stream.send fn).val, s.stream.acceptedAfter fn s.waiting⟩
  | .write b mem =>
    let result := (s.stream.write b mem).val
    ⟨result.1, if result.2.2 = 0 then s.waiting else []⟩

/-- The runs of a stream. -/
def unreliable (capacity : ℕ) : System UnreliableState UnreliableCall where
  init s := s = { stream := ofCapacity capacity }
  enabled _ _ := True
  next := UnreliableState.next

/-! ### The bytes of the buffer -/

/-- The bytes of the buffer are those of the pending messages; without pending
messages the whole capacity is free. -/
structure UnreliableState.Accounted (capacity : ℕ) (s : UnreliableState) : Prop where
  bytes : s.stream.buffer.endIndex
    = s.stream.buffer.beginIndex + (s.stream.pendingMessages.map Span.size).sum
  free : s.stream.pendingMessages = [] → s.stream.buffer.remaining = ⟨0, capacity⟩

/-- A packet for which the first pending message is not too large has room for
all of them. -/
def UnreliableState.TakesAll (s : UnreliableState) : UnreliableCall → Prop
  | .send _ => True
  | .write b _ => ∀ first ∈ s.stream.pendingMessages.head?, b.size < 2 + (2 + first.size) ∨
      2 + (s.stream.pendingMessages.map fun span => 2 + span.size).sum ≤ b.size

theorem UnreliableState.accounted_of_bytes {capacity : ℕ} {s : UnreliableState}
    (h : s.stream.Sound capacity)
    (hbytes : s.stream.buffer.endIndex = (s.stream.pendingMessages.map Span.size).sum) :
    s.Accounted capacity := by
  refine ⟨by rw [h.beginIndex, Nat.zero_add]; exact hbytes, fun hnil => ?_⟩
  have hend : s.stream.buffer.endIndex = 0 := by
    rw [hbytes, hnil]
    rfl
  rw [FlipBuffer.remaining, hend, h.size, usizeSub_of_le (Nat.zero_le _), Nat.sub_zero]

/-- What the sizing loop takes, in terms of the sizes of the messages. -/
theorem UnreliableStream.fitCount_eq_zero_iff (s : UnreliableStream) (bufferSize : ℕ) :
    s.fitCount bufferSize = 0 ↔
      ∀ first ∈ s.pendingMessages.head?, bufferSize < 2 + (2 + first.size) := by
  rw [fitCount]
  cases s.pendingMessages with
  | nil => simp [countMessages]
  | cons first rest =>
    rw [countMessages]
    dsimp only
    split
    · next hlarge =>
      refine iff_of_true rfl fun first' hfirst' => ?_
      cases hfirst'
      exact hlarge
    · next hfits =>
      refine iff_of_false (Nat.succ_ne_zero _) ?_
      intro h
      exact hfits (h first rfl)

theorem UnreliableStream.fitCount_eq_length_iff (s : UnreliableStream) {bufferSize : ℕ}
    (hfit : s.fitCount bufferSize ≠ 0) :
    s.fitCount bufferSize = s.pendingMessages.length ↔
      2 + (s.pendingMessages.map fun span => 2 + span.size).sum ≤ bufferSize := by
  obtain ⟨-, hle, hfits, hmax⟩ :=
    countMessages_spec bufferSize Segment.kSerializedSize s.pendingMessages
  have hsizes : messageSizes s.pendingMessages
      = (s.pendingMessages.map fun span => 2 + span.size).sum := rfl
  constructor
  · intro heq
    have hall := hfits hfit
    rw [show (countMessages bufferSize Segment.kSerializedSize s.pendingMessages).1
      = s.pendingMessages.length from heq, List.take_length, hsizes] at hall
    exact hall
  -- all of them are a prefix that fits, and the loop takes the longest one
  · intro hall
    refine Nat.le_antisymm hle (hmax _ (Nat.le_refl _) ?_)
    rw [List.take_length, hsizes]
    exact hall

/-- A write keeps the books exactly if it takes nothing or everything. -/
theorem UnreliableState.accounted_write_iff {capacity : ℕ} {s : UnreliableState}
    (h : s.stream.Sound capacity) (hs : s.Accounted capacity) (b : Span) (mem : Memory) :
    (s.next (.write b mem)).Accounted capacity ↔ s.TakesAll (.write b mem) := by
  have hstream : (s.next (.write b mem)).stream = (s.stream.write b mem).val.1 := rfl
  have hbytes := hs.bytes
  rw [h.beginIndex, Nat.zero_add] at hbytes
  by_cases hfit : s.stream.fitCount b.size = 0
  -- the first message is too large: the write returns before it touches anything
  · have hsame := s.stream.write_of_fitCount b mem hfit
    refine iff_of_true ⟨?_, ?_⟩ fun first hfirst =>
      Or.inl ((s.stream.fitCount_eq_zero_iff _).mp hfit first hfirst)
    · rw [hstream, hsame]
      exact hs.bytes
    · rw [hstream, hsame]
      exact hs.free
  -- `consume` gets the bytes of the taken messages, and the list is cleared all the same
  · obtain ⟨hpending, -, hbegin, hend⟩ := h.write_state b mem hfit
    have hsplit := congrArg (fun spans : List Span => (spans.map Span.size).sum)
      (List.take_append_drop (s.stream.fitCount b.size) s.stream.pendingMessages)
    simp only [List.map_append, List.sum_append] at hsplit
    constructor
    · intro hnext first hfirst
      refine Or.inr ((s.stream.fitCount_eq_length_iff hfit).mp ?_)
      -- no bytes are left over, and every message has some
      have hzero : ((s.stream.pendingMessages.drop (s.stream.fitCount b.size)).map
          Span.size).sum = 0 := by
        have hnextBytes := hnext.bytes
        rw [hstream, hpending, hbegin, hend] at hnextBytes
        simp only [List.map_nil, List.sum_nil] at hnextBytes
        omega
      have hnil : s.stream.pendingMessages.drop (s.stream.fitCount b.size) = [] := by
        by_contra hne
        obtain ⟨span, rest, hcons⟩ := List.exists_cons_of_ne_nil hne
        have hmem : span ∈ s.stream.pendingMessages := by
          refine List.mem_of_mem_drop (i := s.stream.fitCount b.size) ?_
          rw [hcons]
          exact List.mem_cons_self
        have hpos := (h.inside span hmem).1
        rw [hcons, List.map_cons, List.sum_cons] at hzero
        omega
      have hlength := congrArg List.length hnil
      rw [List.length_drop, List.length_nil] at hlength
      have hle := (countMessages_spec b.size Segment.kSerializedSize
        s.stream.pendingMessages).2.1
      exact Nat.le_antisymm hle (Nat.sub_eq_zero_iff_le.mp hlength)
    · intro hall
      have hlength : s.stream.fitCount b.size = s.stream.pendingMessages.length := by
        rw [s.stream.fitCount_eq_length_iff hfit]
        obtain ⟨first, hfirst, hlt⟩ : ∃ first ∈ s.stream.pendingMessages.head?,
            ¬ b.size < 2 + (2 + first.size) := by
          by_contra hnone
          push Not at hnone
          exact hfit ((s.stream.fitCount_eq_zero_iff _).mpr fun first hfirst => by
            have := hnone first hfirst
            omega)
        exact (hall first hfirst).resolve_left hlt
      refine accounted_of_bytes (h.write b mem) ?_
      rw [hstream, hpending, hend, hlength, List.take_length, hbytes]
      simp

/-- **Buffer accounting.**  The bytes of the buffer are those of the pending
messages all along a run iff no packet leaves some of the messages behind. -/
theorem accounted_iff (capacity : ℕ) (calls : List UnreliableCall) :
    (unreliable capacity).Along (UnreliableState.Accounted capacity)
        { stream := ofCapacity capacity } calls ↔
      (unreliable capacity).RunOk UnreliableState.TakesAll { stream := ofCapacity capacity }
        calls := by
  -- `Sound` holds whatever is called; the books are lost by a write only
  refine System.along_iff_runOk (fun s => s.stream.Sound capacity) ?_ ?_ (Sound.start capacity)
    (UnreliableState.accounted_of_bytes (Sound.start capacity) rfl)
    (System.runOk_anyAction (fun _ _ => trivial) _ _)
  · intro s call hs _
    cases call with
    | send fn => exact hs.send fn
    | write b mem => exact hs.write b mem
  · intro s call hsound hs _
    cases call with
    | send fn =>
      refine iff_of_true (UnreliableState.accounted_of_bytes (hsound.send fn) ?_) trivial
      obtain ⟨-, -, hend, hpending⟩ := s.stream.send_state fn
      have hbytes := hs.bytes
      rw [hsound.beginIndex, Nat.zero_add] at hbytes
      show (s.stream.send fn).val.buffer.endIndex
        = ((s.stream.send fn).val.pendingMessages.map Span.size).sum
      rw [hend, hpending, hbytes]
      split
      · next hnil => simp [hnil]
      · simp
    | write b mem => exact UnreliableState.accounted_write_iff hsound hs b mem

/-- A packet that has room for the first of two messages: the bytes of the second
one stay in the buffer, although it is not pending any more. -/
theorem accounted_not_after_drop :
    let calls : List UnreliableCall := [.send (.ofBytes [1, 2, 3]), .send (.ofBytes [4, 5, 6, 7]),
      .write ⟨0, 10⟩ (fun _ => 0)]
    let s := (unreliable 3200).runFrom { stream := ofCapacity 3200 } calls
    s.stream.pendingMessages = [] ∧ s.stream.buffer.remaining = ⟨4, 3196⟩ ∧
      ¬ (unreliable 3200).Along (UnreliableState.Accounted 3200)
        { stream := ofCapacity 3200 } calls := by
  intro calls s
  have hpending : s.stream.pendingMessages = [] := by decide +kernel
  have hremaining : s.stream.buffer.remaining = ⟨4, 3196⟩ := by decide +kernel
  refine ⟨hpending, hremaining, ?_⟩
  rintro ⟨-, -, -, haccounted⟩
  have hfree : s.stream.buffer.remaining = ⟨0, 3200⟩ := haccounted.free hpending
  rw [hremaining] at hfree
  cases hfree

/-! ### Writing and reading -/

/-- The bytes that a segment of these messages needs. -/
def segmentSize (payloads : List (List UInt8)) : ℕ :=
  2 + (payloads.map fun payload => 2 + payload.length).sum

/-- The length of the longest prefix of the messages that fits. -/
def longestFit (size : ℕ) (payloads : List (List UInt8)) : ℕ :=
  Nat.findGreatest (fun k => segmentSize (payloads.take k) ≤ size) payloads.length

/-- The payloads accepted since the last packet are the pending ones. -/
theorem UnreliableState.payloads_eq {capacity : ℕ} {s : UnreliableState}
    (h : (unreliable capacity).Reachable System.anyAction s) :
    s.stream.Sound capacity ∧ s.stream.payloads = s.waiting := by
  refine h.invariant (P := fun s => s.stream.Sound capacity ∧ s.stream.payloads = s.waiting)
    (fun s hs => ?_) (fun s call _ ih _ _ => ?_)
  · rw [hs]
    exact ⟨Sound.start capacity, rfl⟩
  · obtain ⟨hsound, hpayloads⟩ := ih
    cases call with
    | send fn =>
      refine ⟨hsound.send fn, ?_⟩
      show (s.stream.send fn).val.payloads = s.stream.acceptedAfter fn s.waiting
      rw [hsound.payloads_send fn, hpayloads]
    | write b mem =>
      refine ⟨hsound.write b mem, ?_⟩
      show (s.stream.write b mem).val.1.payloads
        = if (s.stream.write b mem).val.2.2 = 0 then s.waiting else []
      by_cases hfit : s.stream.fitCount b.size = 0
      · rw [s.stream.write_of_fitCount b mem hfit, val_write, hfit, List.take_zero,
          encodeUnreliable, if_pos rfl]
        exact hpayloads
      · have hne : s.stream.payloads.take (s.stream.fitCount b.size) ≠ [] := by
          intro hnil
          have hlength := congrArg List.length hnil
          rw [payloads, ← List.map_take, List.length_map, length_take_fitCount] at hlength
          exact hfit hlength
        rw [payloads, (hsound.write_state b mem hfit).1, val_write, encodeUnreliable, if_neg hne]
        rfl

/-- The sizing loop finds the longest prefix that fits. -/
theorem UnreliableStream.fitCount_eq_longestFit (s : UnreliableStream) (size : ℕ) :
    s.fitCount size = longestFit size s.payloads := by
  have hsize : ∀ k, segmentSize (s.payloads.take k)
      = Segment.kSerializedSize + messageSizes (s.pendingMessages.take k) := by
    intro k
    rw [segmentSize, payloads, ← List.map_take, List.map_map, messageSizes]
    congr 2
    refine List.map_congr_left fun span _ => ?_
    show 2 + (payloadAt s.buffer span).length = _
    rw [payloadAt, Memory.length_slice]
    rfl
  obtain ⟨-, hle, hfits, hmax⟩ := countMessages_spec size Segment.kSerializedSize
    s.pendingMessages
  refine (Nat.findGreatest_eq_iff.mpr ⟨?_, ?_, ?_⟩).symm
  · rw [payloads, List.length_map]
    exact hle
  · intro hne
    rw [hsize]
    exact hfits hne
  · intro k hlt hk hfit
    rw [hsize] at hfit
    rw [payloads, List.length_map] at hk
    exact absurd (hmax k hk hfit) (Nat.not_le.mpr hlt)

theorem UnreliableStream.le_of_readLoop {b : Span} {mem : Memory} {n idx idx' : ℕ}
    {payloads : List (List UInt8)} (h : (readLoop b mem n idx).val = (payloads, .ok idx')) :
    idx ≤ idx' := by
  induction n generalizing idx payloads with
  | zero =>
    cases h
    exact Nat.le_refl _
  | succ n ih =>
    simp only [readLoop, Checked.val_bind] at h
    split at h
    · cases h
    · next size _ =>
      simp only [Checked.val_bind, Checked.val_pure, Prod.mk.injEq] at h
      have hrest := @ih (idx + size) _ (Prod.ext rfl h.2)
      omega

/-- Nothing is read from bytes that do not begin with an unreliable segment, and
something is from those that do. -/
theorem UnreliableStream.read_eq_nothing_iff (b : Span) (mem : Memory) :
    (read b mem).val = ([], .ok 0) ↔
      b.size < 2 ∨ mem b.off ≠ ManagerType.unreliableStream.toU8 := by
  rw [read]
  by_cases hsize : Segment.kSerializedSize > b.size
  · rw [if_pos hsize]
    exact iff_of_true rfl (Or.inl hsize)
  · have hsize' : ¬ b.size < 2 := hsize
    rw [if_neg hsize]
    simp only [Checked.val_bind, Checked.val_ite, Checked.val_pure, Segment.managerType,
      val_readU8, Segment.kManagerTypeOffset, Nat.add_zero]
    split
    · next htype => exact iff_of_true rfl (Or.inr htype)
    · next htype =>
      refine iff_of_false (fun hread => ?_) (by simp [hsize', htype])
      have hle : Segment.kSerializedSize ≤ 0 := le_of_readLoop hread
      cases hle

/-- The bytes behind a packet without a segment do not begin with one. -/
def NoSegment (later : List UInt8) : Prop :=
  later.length < 2 ∨ later.head? ≠ some ManagerType.unreliableStream.toU8

/-- The messages that a packet takes can be carried by the format. -/
theorem UnreliableStream.Sound.payloadFits {capacity size : ℕ} {s : UnreliableStream}
    (h : s.Sound capacity) (hsize : size ≤ 1400) :
    ∀ payload ∈ s.payloads.take (longestFit size s.payloads), PayloadFits payload := by
  intro payload hpayload
  constructor
  · -- pending messages are not empty
    obtain ⟨span, hspan, rfl⟩ := List.mem_map.mp (List.mem_of_mem_take hpayload)
    refine List.length_pos_iff.mp ?_
    rw [payloadAt, Memory.length_slice]
    exact (h.inside span hspan).1
  · have hne : longestFit size s.payloads ≠ 0 := by
      intro hzero
      rw [hzero, List.take_zero] at hpayload
      cases hpayload
    have hfit : segmentSize (s.payloads.take (longestFit size s.payloads)) ≤ size :=
      (Nat.findGreatest_eq_iff.mp (rfl : longestFit size s.payloads = _)).2.1 hne
    have hle : 2 + payload.length ≤ ((s.payloads.take (longestFit size s.payloads)).map
        fun payload => 2 + payload.length).sum :=
      List.single_le_sum (by simp) _ (List.mem_map_of_mem hpayload)
    rw [segmentSize] at hfit
    omega

/-- What a packet of a stream takes, and what is read from it. -/
theorem UnreliableStream.Sound.read_iff {capacity : ℕ} {s : UnreliableStream}
    (h : s.Sound capacity) (b b' : Span) (mem mem' : Memory) (later : List UInt8)
    (hsize : b.size ≤ 1400) (hb' : b'.size = (s.write b mem).val.2.2 + later.length)
    (hmem' : mem'.slice b'.off b'.size
      = (s.write b mem).val.2.1.slice b.off (s.write b mem).val.2.2 ++ later) :
    let taken := s.payloads.take (longestFit b.size s.payloads)
    (s.write b mem).val.2.1.slice b.off (s.write b mem).val.2.2 = encodeUnreliable taken ∧
      ((UnreliableStream.read b' mem').val = (taken, .ok (s.write b mem).val.2.2) ↔
        longestFit b.size s.payloads < 256 ∧
          (longestFit b.size s.payloads = 0 → NoSegment later)) := by
  intro taken
  have hfits : ∀ payload ∈ taken, PayloadFits payload := h.payloadFits hsize
  have hresult : (s.write b mem).val.2
      = (mem.storeList b.off (encodeUnreliable taken), (encodeUnreliable taken).length) := by
    rw [val_write, fitCount_eq_longestFit]
  have hslice : (s.write b mem).val.2.1.slice b.off (s.write b mem).val.2.2
      = encodeUnreliable taken := by
    rw [hresult]
    exact Memory.slice_storeList_self _ _ _
  have hlength : taken.length = longestFit b.size s.payloads := by
    rw [List.length_take]
    exact Nat.min_eq_left (Nat.findGreatest_le _)
  refine ⟨hslice, ?_⟩
  rw [hslice] at hmem'
  rw [hresult] at hb' ⊢
  rw [hb', ← List.length_append] at hmem'
  obtain ⟨hhead, htail⟩ := Memory.slice_eq_of_append hmem'
  rw [← hlength]
  by_cases hnil : taken = []
  · -- nothing was written: what follows is read
    rw [hnil, encodeUnreliable, if_pos rfl] at hb' htail ⊢
    rw [List.length_nil, Nat.zero_add] at hb'
    rw [List.length_nil, Nat.add_zero] at htail
    rw [List.length_nil, read_eq_nothing_iff, hb', NoSegment]
    have hfirst : later.length < 2 ∨ mem' b'.off ≠ ManagerType.unreliableStream.toU8 ↔
        later.length < 2 ∨ later.head? ≠ some ManagerType.unreliableStream.toU8 := by
      cases later with
      | nil => simp
      | cons byte later =>
        rw [List.length_cons, Memory.slice, List.cons.injEq] at htail
        rw [htail.1]
        simp
    rw [hfirst]
    simp
  · have hpos := List.length_pos_iff.mpr hnil
    rw [val_read hnil hfits (by omega) hhead]
    constructor
    · intro hread
      refine ⟨?_, fun hzero => absurd hzero (by omega)⟩
      -- the reader stops after as many messages as its byte counts
      have hcount := congrArg (fun result => result.1.length) hread
      simp only [List.length_take] at hcount
      have hlt := Nat.mod_lt taken.length (show 256 > 0 by decide)
      omega
    · rintro ⟨hlt, -⟩
      rw [Nat.mod_eq_of_lt hlt, List.take_length, encodeUnreliable, if_neg hnil,
        List.length_append]
      rfl

/-- **Writing and reading a segment**, whatever follows it: the reader gives back
the longest prefix of the messages that fits, and the count of the writer, iff
the prefix has fewer than 256 messages.  Where there is no segment at all, what
follows must not look like one. -/
theorem unreliable_round_trip_iff {capacity : ℕ} {s : UnreliableState}
    (h : (unreliable capacity).Reachable System.anyAction s) (b b' : Span)
    (mem mem' : Memory) (later : List UInt8) (hsize : b.size ≤ 1400)
    (hb' : b'.size = (s.stream.write b mem).val.2.2 + later.length)
    (hmem' : mem'.slice b'.off b'.size = (s.stream.write b mem).val.2.1.slice b.off
      (s.stream.write b mem).val.2.2 ++ later) :
    let taken := s.waiting.take (longestFit b.size s.waiting)
    let result := (s.stream.write b mem).val
    (result.2.1.slice b.off result.2.2 = encodeUnreliable taken ∧
        (UnreliableStream.read b' mem').val = (taken, .ok result.2.2)) ↔
      longestFit b.size s.waiting < 256 ∧
        (longestFit b.size s.waiting = 0 → NoSegment later) := by
  obtain ⟨hsound, hpayloads⟩ := UnreliableState.payloads_eq h
  rw [← hpayloads]
  obtain ⟨hslice, hread⟩ := hsound.read_iff b b' mem mem' later hsize hb' hmem'
  rw [← hread]
  exact and_iff_right hslice

/-- Two messages and a packet that has room for both. -/
theorem unreliable_round_trip_two_messages :
    let s := (unreliable 16).runFrom { stream := ofCapacity 16 }
      [.send (.ofBytes [1, 2]), .send (.ofBytes [3])]
    let result := (s.stream.write ⟨12, 1388⟩ (fun _ => 0)).val
    result.2.2 = 9 ∧
      (UnreliableStream.read ⟨12, result.2.2⟩ result.2.1).val
        = ([[1, 2], [3]], .ok result.2.2) := by
  intro s result
  have hcount : result.2.2 = 9 := by decide +kernel
  have hfit : longestFit (Span.mk 12 1388).size s.waiting = 2 := by decide +kernel
  have hwaiting : s.waiting.take 2 = [[1, 2], [3]] := by decide +kernel
  have hread := ((@unreliable_round_trip_iff 16 s
    (System.runFrom_reachable (.init rfl) ⟨trivial, trivial, trivial, trivial, trivial⟩)
    ⟨12, 1388⟩ ⟨12, result.2.2⟩ (fun _ => 0) result.2.1 [] (by decide) rfl
    (List.append_nil _).symm).mpr ⟨by rw [hfit]; decide, fun _ => Or.inl (by decide)⟩).2
  rw [hfit, hwaiting] at hread
  exact ⟨hcount, hread⟩

/-- As long as there is room, a message of one byte is accepted. -/
theorem UnreliableState.waiting_replicate {capacity : ℕ} (byte : UInt8) {n : ℕ}
    (hn : n ≤ capacity) :
    let s := (unreliable capacity).runFrom { stream := ofCapacity capacity }
      (List.replicate n (.send (.ofBytes [byte])))
    s.stream.Sound capacity ∧ s.stream.buffer.endIndex = n ∧
      s.stream.payloads = List.replicate n [byte] := by
  induction n with
  | zero => exact ⟨Sound.start capacity, rfl, rfl⟩
  | succ n ih =>
    obtain ⟨hsound, hend, hpayloads⟩ := ih (Nat.le_of_succ_le hn)
    rw [List.replicate_succ', System.runFrom, List.foldl_append]
    rw [System.runFrom] at hsound hend hpayloads
    generalize List.foldl _ _ _ = s at hsound hend hpayloads
    have hroom : 0 < s.stream.buffer.remaining.size := by
      rw [FlipBuffer.remaining, hsound.size, hend]
      show 0 < usizeSub capacity n
      rw [usizeSub_of_le (Nat.le_of_succ_le hn)]
      omega
    have hpayload : s.stream.payloadOf (.ofBytes [byte]) = [byte] := by
      simp only [payloadOf, WriteToBufferFn.ofBytes, Memory.length_slice, List.length_singleton]
      rw [Nat.min_eq_left hroom, List.take_of_length_le (l := [byte]) hroom]
      rfl
    refine ⟨hsound.send _, ?_, ?_⟩
    · show (s.stream.send (.ofBytes [byte])).val.buffer.endIndex = n + 1
      rw [(s.stream.send_state _).2.2.1, hpayload, hend]
      rfl
    · show (s.stream.send (.ofBytes [byte])).val.payloads = _
      rw [hsound.payloads_send, acceptedAfter, hpayload, hpayloads, if_neg (by simp),
        List.replicate_succ']

/-- A packet that takes 256 messages, and what is read from it: the byte that
counts them is zero. -/
theorem UnreliableStream.read_of_256 {s : UnreliableStream} {b : Span}
    (hfit : s.fitCount b.size = 256)
    (hfits : ∀ payload ∈ s.payloads, PayloadFits payload) (mem : Memory) :
    (UnreliableStream.read ⟨b.off, (s.write b mem).val.2.2⟩ (s.write b mem).val.2.1).val
      = ([], .ok 2) := by
  have hlength : (s.payloads.take 256).length = 256 := by
    rw [← hfit, payloads, ← List.map_take, List.length_map, length_take_fitCount]
  have hne : s.payloads.take 256 ≠ [] := by
    intro hnil
    rw [hnil] at hlength
    cases hlength
  rw [val_write, hfit]
  rw [val_read hne (fun payload hpayload => hfits payload (List.mem_of_mem_take hpayload))
    (Nat.le_refl _) (Memory.slice_storeList_self _ _ _), hlength]
  rfl

/-- 256 messages of one byte fit into a packet, and none of them is read. -/
theorem unreliable_count_wraps :
    let s := (unreliable 3200).runFrom { stream := ofCapacity 3200 }
      (List.replicate 256 (.send (.ofBytes [7])))
    let result := (s.stream.write ⟨12, 1388⟩ (fun _ => 0)).val
    s.stream.payloads = List.replicate 256 [7] ∧
      longestFit 1388 s.stream.payloads = 256 ∧
      (UnreliableStream.read ⟨12, result.2.2⟩ result.2.1).val = ([], .ok 2) := by
  have key : ∀ s : UnreliableStream, s.payloads = List.replicate 256 [7] →
      longestFit 1388 s.payloads = 256 ∧
        (UnreliableStream.read ⟨12, (s.write ⟨12, 1388⟩ (fun _ => 0)).val.2.2⟩
          (s.write ⟨12, 1388⟩ (fun _ => 0)).val.2.1).val = ([], .ok 2) := by
    intro s hpayloads
    have hlongest : longestFit 1388 s.payloads = 256 := by
      rw [hpayloads]
      decide +kernel
    refine ⟨hlongest, @read_of_256 s ⟨12, 1388⟩ ?_ ?_ _⟩
    · rw [s.fitCount_eq_longestFit]
      exact hlongest
    · intro payload hpayload
      rw [hpayloads] at hpayload
      rw [List.eq_of_mem_replicate hpayload]
      exact ⟨by simp, by decide⟩
  obtain ⟨-, -, hpayloads⟩ := @UnreliableState.waiting_replicate 3200 7 256 (by decide)
  exact ⟨hpayloads, key _ hpayloads⟩

end Neptun
