/-
The messages of a `ReliableStream` in its buffer.

`layout start seq payloads` are the messages whose payloads lie one behind the
other from index `start` on, numbered from `seq` on.  A stream `Represents` the
payloads `sent` so far, of which the first `k` are acknowledged, if its messages
are the layout of the others between the two indices of its buffer.  Sending,
writing and delivery statuses keep this, in whatever order they come and
whatever packet ids they carry.

* `Represents.send`, `Represents.write`, `Represents.status` — the three steps;
* `representation` — the invariant over every run, with the checks it makes pass
  and the room it leaves for the next message.
-/
import Neptun.ReliableStream
import Neptun.Library.System

namespace Neptun

/-! ### Layouts -/

/-- The messages of the payloads, one behind the other from index `start` on and
numbered from `seq` on. -/
def layout : ℕ → ℕ → List (List UInt8) → List PendingMessage
  | _, _, [] => []
  | start, seq, payload :: payloads =>
    ⟨⟨start, start + payload.length⟩, UInt32.ofNat seq⟩
      :: layout (start + payload.length) (seq + 1) payloads

theorem layout_append (start seq : ℕ) (payloads payloads' : List (List UInt8)) :
    layout start seq (payloads ++ payloads')
      = layout start seq payloads
        ++ layout (start + payloads.flatten.length) (seq + payloads.length) payloads' := by
  induction payloads generalizing start seq with
  | nil => rfl
  | cons payload payloads ih =>
    rw [List.cons_append, layout, ih, layout, List.cons_append, List.flatten_cons,
      List.length_append, List.length_cons, Nat.add_assoc start, Nat.add_right_comm seq,
      Nat.add_assoc seq]

theorem layout_drop (start seq : ℕ) (payloads : List (List UInt8)) (j : ℕ) :
    (layout start seq payloads).drop j
      = layout (start + (payloads.take j).flatten.length) (seq + j) (payloads.drop j) := by
  induction payloads generalizing start seq j with
  | nil => simp [layout]
  | cons payload payloads ih =>
    cases j with
    | zero => simp
    | succ j =>
      rw [layout, List.drop_succ_cons, ih, List.take_succ_cons, List.flatten_cons,
        List.length_append, List.drop_succ_cons, Nat.add_assoc start, Nat.add_right_comm seq,
        Nat.add_assoc seq]

@[simp] theorem length_layout (start seq : ℕ) (payloads : List (List UInt8)) :
    (layout start seq payloads).length = payloads.length := by
  induction payloads generalizing start seq with
  | nil => rfl
  | cons payload payloads ih => rw [layout, List.length_cons, ih, List.length_cons]

/-- Every range of a layout is inside of it. -/
theorem le_of_mem_layout {start seq : ℕ} {payloads : List (List UInt8)} {msg : PendingMessage}
    (h : msg ∈ layout start seq payloads) :
    start ≤ msg.range.beginIndex ∧ msg.range.beginIndex ≤ msg.range.endIndex := by
  induction payloads generalizing start seq with
  | nil => simp [layout] at h
  | cons payload payloads ih =>
    rw [layout, List.mem_cons] at h
    rcases h with rfl | h
    · exact ⟨Nat.le_refl _, Nat.le_add_right _ _⟩
    · obtain ⟨h1, h2⟩ := ih h
      exact ⟨by omega, h2⟩

/-- A message with its range moved down. -/
def PendingMessage.shift (value : ℕ) (msg : PendingMessage) : PendingMessage :=
  { msg with range := ⟨msg.range.beginIndex - value, msg.range.endIndex - value⟩ }

/-- Moving every range down moves the layout. -/
theorem layout_shift {value start : ℕ} (hvalue : value ≤ start) (seq : ℕ)
    (payloads : List (List UInt8)) :
    (layout start seq payloads).map (PendingMessage.shift value)
      = layout (start - value) seq payloads := by
  induction payloads generalizing start seq with
  | nil => rfl
  | cons payload payloads ih =>
    rw [layout, List.map_cons, ih (by omega), layout, PendingMessage.shift]
    rw [show start + payload.length - value = start - value + payload.length by omega]

/-- A buffer that holds the payloads one behind the other holds each of them in
its range. -/
theorem bufferSpan_layout {f : FlipBuffer} {start : ℕ} (seq : ℕ) {payloads : List (List UInt8)}
    (h : f.buffer.slice start payloads.flatten.length = payloads.flatten) :
    (layout start seq payloads).map (fun msg => f.bufferSpan msg.range) = payloads := by
  induction payloads generalizing start seq with
  | nil => rfl
  | cons payload payloads ih =>
    rw [List.flatten_cons] at h
    obtain ⟨hhead, htail⟩ := Memory.slice_eq_of_append h
    rw [layout, List.map_cons, ih _ htail, FlipBuffer.bufferSpan]
    dsimp only
    rw [usizeSub_of_le (Nat.le_add_right _ _), Nat.add_sub_cancel_left, hhead]

/-- The ranges of a layout have the sizes of its payloads. -/
theorem sum_layout (start seq : ℕ) (payloads : List (List UInt8)) :
    ((layout start seq payloads).map fun msg => msg.range.endIndex - msg.range.beginIndex).sum
      = payloads.flatten.length := by
  induction payloads generalizing start seq with
  | nil => rfl
  | cons payload payloads ih =>
    rw [layout, List.map_cons, List.sum_cons, ih, List.flatten_cons, List.length_append,
      Nat.add_sub_cancel_left]

/-! ### Rebasing -/

/-- The assertions of `BufferRange` and of `FlipBuffer::advance`. -/
def RangeFault (f : Fault) : Prop :=
  f = .assertion .rangeBegin ∨ f = .assertion .rangeEnd ∨ f = .assertion .rangeSize ∨
    f = .assertion .flipAdvance

namespace ReliableStream

theorem sub_spec {r : BufferRange} {value : ℕ} (h : value ≤ r.beginIndex)
    (h' : r.beginIndex ≤ r.endIndex) :
    (r.sub value).val = ⟨r.beginIndex - value, r.endIndex - value⟩ ∧
      (r.sub value).Avoids RangeFault := by
  constructor
  · simp only [BufferRange.sub, Checked.val_bind, Checked.val_pure, usizeSub_of_le h,
      usizeSub_of_le (Nat.le_trans h h')]
  · simp only [BufferRange.sub, Checked.avoids_bind, Checked.avoids_check]
    exact ⟨fun _ => h, fun _ => Nat.le_trans h h', Checked.avoids_pure _⟩

theorem rebaseInFlight_spec {value : ℕ} {msgs : List InFlightMessage}
    (h : ∀ msg ∈ msgs.map (·.message),
      value ≤ msg.range.beginIndex ∧ msg.range.beginIndex ≤ msg.range.endIndex) :
    (rebaseInFlight value msgs).val
        = msgs.map (fun msg => { msg with message := msg.message.shift value }) ∧
      (rebaseInFlight value msgs).Avoids RangeFault := by
  induction msgs with
  | nil => exact ⟨rfl, Checked.avoids_pure _⟩
  | cons msg msgs ih =>
    obtain ⟨hbegin, hend⟩ := h msg.message List.mem_cons_self
    obtain ⟨hsub, hsafe⟩ := sub_spec hbegin hend
    obtain ⟨hval, hrest⟩ := ih fun msg' hmem => h msg' (List.mem_cons_of_mem _ hmem)
    constructor
    · simp only [rebaseInFlight, Checked.val_bind, Checked.val_pure, hval, hsub, List.map_cons]
      rfl
    · simp only [rebaseInFlight, Checked.avoids_bind]
      exact ⟨hsafe, hrest, Checked.avoids_pure _⟩

theorem rebasePending_spec {value : ℕ} {msgs : List PendingMessage}
    (h : ∀ msg ∈ msgs, value ≤ msg.range.beginIndex ∧ msg.range.beginIndex ≤ msg.range.endIndex) :
    (rebasePending value msgs).val = msgs.map (PendingMessage.shift value) ∧
      (rebasePending value msgs).Avoids RangeFault := by
  induction msgs with
  | nil => exact ⟨rfl, Checked.avoids_pure _⟩
  | cons msg msgs ih =>
    obtain ⟨hbegin, hend⟩ := h msg List.mem_cons_self
    obtain ⟨hsub, hsafe⟩ := sub_spec hbegin hend
    obtain ⟨hval, hrest⟩ := ih fun msg' hmem => h msg' (List.mem_cons_of_mem _ hmem)
    constructor
    · simp only [rebasePending, Checked.val_bind, Checked.val_pure, hval, hsub, List.map_cons]
      rfl
    · simp only [rebasePending, Checked.avoids_bind]
      exact ⟨hsafe, hrest, Checked.avoids_pure _⟩

end ReliableStream

/-! ### The invariant -/

open ReliableStream

/-- The stream, with a buffer of the given capacity, holds the payloads `sent`
except for the first `k`, which are acknowledged. -/
structure Represents (capacity : ℕ) (s : ReliableStream) (k : ℕ) (sent : List (List UInt8)) :
    Prop where
  le : k ≤ sent.length
  sizes : ∀ payload ∈ sent, payload ≠ [] ∧ payload.length ≤ capacity
  messages : s.messages = layout s.buffer.beginIndex k (sent.drop k)
  nextOutgoing : s.nextOutgoingSequenceNumber = UInt32.ofNat sent.length
  endIndex : s.buffer.endIndex = s.buffer.beginIndex + (sent.drop k).flatten.length
  capacity_eq : s.buffer.capacity = capacity
  endIndex_le : s.buffer.endIndex ≤ s.buffer.capacity
  bytes : s.buffer.buffer.slice s.buffer.beginIndex (sent.drop k).flatten.length
    = (sent.drop k).flatten

namespace Represents

variable {capacity : ℕ} {s : ReliableStream} {k : ℕ} {sent : List (List UInt8)}

theorem start (capacity : ℕ) : Represents capacity (ofCapacity capacity) 0 [] where
  le := Nat.le_refl 0
  sizes := by simp
  messages := rfl
  nextOutgoing := rfl
  endIndex := rfl
  capacity_eq := rfl
  endIndex_le := Nat.zero_le _
  bytes := rfl

/-- Ranges are inside the buffer and have a size. -/
theorem range_le (h : Represents capacity s k sent) {msg : PendingMessage}
    (hmsg : msg ∈ s.messages) :
    s.buffer.beginIndex ≤ msg.range.beginIndex ∧ msg.range.beginIndex ≤ msg.range.endIndex := by
  rw [h.messages] at hmsg
  exact le_of_mem_layout hmsg

/-- Flipping moves the live bytes to the beginning of the buffer, and the ranges
with them. -/
theorem maybeFlip (h : Represents capacity s k sent) :
    Represents capacity s.maybeFlip.val k sent ∧ s.maybeFlip.val.buffer.beginIndex = 0 ∧
      s.maybeFlip.Avoids RangeFault := by
  rw [ReliableStream.maybeFlip]
  by_cases hbegin : s.buffer.beginIndex > 0
  · rw [if_pos hbegin]
    -- all ranges are moved down by the old begin of the buffer
    have hle : s.buffer.beginIndex ≤ s.buffer.endIndex := by
      rw [h.endIndex]
      exact Nat.le_add_right _ _
    obtain ⟨hinFlight, hsafe⟩ := rebaseInFlight_spec fun msg hmsg =>
      h.range_le (List.mem_append_left s.pendingMessages hmsg)
    obtain ⟨hpending, hsafe'⟩ := rebasePending_spec fun msg hmsg =>
      h.range_le (List.mem_append_right (s.inFlightMessages.map (·.message)) hmsg)
    refine ⟨⟨h.le, h.sizes, ?_, h.nextOutgoing, ?_, h.capacity_eq, ?_, ?_⟩, rfl, ?_⟩
    · have hshift := congrArg (List.map (PendingMessage.shift s.buffer.beginIndex)) h.messages
      rw [layout_shift (Nat.le_refl _), Nat.sub_self] at hshift
      simp only [Checked.val_bind, Checked.val_pure, hinFlight, hpending,
        ReliableStream.messages, FlipBuffer.flip_beginIndex] at hshift ⊢
      rw [← hshift, List.map_append, List.map_map, List.map_map]
      rfl
    · show s.buffer.flip.endIndex = 0 + _
      rw [FlipBuffer.flip_endIndex hle, h.endIndex]
      omega
    · show s.buffer.flip.endIndex ≤ s.buffer.capacity
      rw [FlipBuffer.flip_endIndex hle]
      have := h.endIndex_le
      omega
    · have hflip := FlipBuffer.slice_flip hle (Nat.le_refl _)
        (Nat.le_of_eq h.endIndex.symm)
      rw [Nat.sub_self, h.bytes] at hflip
      exact hflip
    · rw [Checked.avoids_bind, Checked.avoids_bind]
      exact ⟨hsafe, hsafe', Checked.avoids_pure _⟩
  · rw [if_neg hbegin]
    exact ⟨h, Nat.eq_zero_of_not_pos hbegin, Checked.avoids_pure _⟩

/-- The room behind the messages is all that they leave of the buffer. -/
theorem remaining (h : Represents capacity s k sent) :
    s.maybeFlip.val.buffer.remaining.size
      = capacity - (sent.drop k).flatten.length := by
  obtain ⟨h', hbegin, -⟩ := h.maybeFlip
  rw [FlipBuffer.remaining]
  dsimp only
  rw [usizeSub_of_le h'.endIndex_le, h'.endIndex, hbegin, h'.capacity_eq, Nat.zero_add]

end Represents

/-- The payload that a callback hands to `send`: a prefix of the span it is
given. -/
def ReliableStream.payloadOf (s : ReliableStream) (fn : WriteToBufferFn) : List UInt8 :=
  let buffer := s.maybeFlip.val.buffer
  let result := fn.run (buffer.buffer.slice buffer.remaining.off buffer.remaining.size)
  result.1.take result.2

/-- The payloads sent so far, after another `send`; an empty one is ignored. -/
def ReliableStream.sentAfter (s : ReliableStream) (fn : WriteToBufferFn)
    (sent : List (List UInt8)) : List (List UInt8) :=
  if s.payloadOf fn = [] then sent else sent ++ [s.payloadOf fn]

namespace Represents

variable {capacity : ℕ} {s : ReliableStream} {k : ℕ} {sent : List (List UInt8)}

/-- Bytes behind the end may change. -/
theorem fill (h : Represents capacity s k sent) (contents : List UInt8) :
    Represents capacity { s with buffer := { s.buffer with
      buffer := s.buffer.buffer.storeList s.buffer.endIndex contents } } k sent := by
  refine ⟨h.le, h.sizes, h.messages, h.nextOutgoing, h.endIndex, h.capacity_eq,
    h.endIndex_le, ?_⟩
  dsimp only
  rw [Memory.slice_storeList_of_disjoint (Or.inl (Nat.le_of_eq h.endIndex.symm)), h.bytes]

/-- A payload behind the end becomes a message. -/
theorem append (h : Represents capacity s k sent) {payload : List UInt8} (hne : payload ≠ [])
    (hroom : s.buffer.endIndex + payload.length ≤ s.buffer.capacity)
    (hbytes : s.buffer.buffer.slice s.buffer.endIndex payload.length = payload) :
    Represents capacity { s with
      nextOutgoingSequenceNumber := s.nextOutgoingSequenceNumber + 1
      pendingMessages := s.pendingMessages ++
        [⟨⟨s.buffer.endIndex, s.buffer.endIndex + payload.length⟩, s.nextOutgoingSequenceNumber⟩]
      buffer := { s.buffer with endIndex := s.buffer.endIndex + payload.length } }
      k (sent ++ [payload]) := by
  have hdrop : (sent ++ [payload]).drop k = sent.drop k ++ [payload] :=
    List.drop_append_of_le_length h.le
  have hflatten : (sent.drop k ++ [payload]).flatten = (sent.drop k).flatten ++ payload := by
    simp
  constructor
  · rw [List.length_append]
    exact Nat.le_add_right_of_le h.le
  · intro p hp
    rcases List.mem_append.mp hp with hp | hp
    · exact h.sizes p hp
    · rw [List.mem_singleton.mp hp, ← h.capacity_eq]
      exact ⟨hne, by omega⟩
  · have hcount : k + (sent.drop k).length = sent.length := by
      rw [List.length_drop]
      have := h.le
      omega
    -- the new message continues the layout where it ended
    rw [hdrop, layout_append, hcount, ← h.messages, ← h.endIndex, layout, layout,
      ← h.nextOutgoing]
    simp only [ReliableStream.messages, List.append_assoc]
  · rw [h.nextOutgoing, List.length_append, List.length_singleton]
    exact (UInt32.ofNat_add _ _).symm
  · rw [hdrop, hflatten, List.length_append]
    dsimp only
    rw [h.endIndex, Nat.add_assoc]
  · exact h.capacity_eq
  · exact hroom
  · dsimp only
    rw [hdrop, hflatten, List.length_append, Memory.slice_add, h.bytes, ← h.endIndex, hbytes]

/-- **A send** appends its payload. -/
theorem send (h : Represents capacity s k sent) (fn : WriteToBufferFn) :
    Represents capacity (s.send fn).val k (s.sentAfter fn sent) ∧
      (s.send fn).Avoids RangeFault := by
  obtain ⟨h', -, hsafe⟩ := h.maybeFlip
  rw [sentAfter, payloadOf, ReliableStream.send]
  simp only [Checked.val_bind, Checked.avoids_bind]
  -- from here on only the flipped stream matters
  generalize s.maybeFlip.val = t at h' ⊢
  obtain ⟨contents, size, hrun⟩ : ∃ contents size,
      fn.run (t.buffer.buffer.slice t.buffer.remaining.off t.buffer.remaining.size)
        = (contents, size) := ⟨_, _, rfl⟩
  have hwrite : t.buffer.writeRemaining fn = ({ t.buffer with
      buffer := t.buffer.buffer.storeList t.buffer.endIndex contents }, size) := by
    rw [FlipBuffer.writeRemaining]
    simp only [hrun]
    rfl
  rw [hrun, hwrite]
  dsimp only
  have hlength : contents.length = t.buffer.capacity - t.buffer.endIndex := by
    have := fn.length_run (t.buffer.buffer.slice t.buffer.remaining.off t.buffer.remaining.size)
    rw [hrun, Memory.length_slice] at this
    exact this.trans (usizeSub_of_le h'.endIndex_le)
  have hle : size ≤ contents.length := by
    have hlen := fn.length_run (t.buffer.buffer.slice t.buffer.remaining.off
      t.buffer.remaining.size)
    have := fn.le_run (t.buffer.buffer.slice t.buffer.remaining.off t.buffer.remaining.size)
    rw [← hlen, hrun] at this
    exact this
  have htake : (contents.take size).length = size := List.length_take_of_le hle
  have hfill := h'.fill contents
  -- a callback that returns nothing sends nothing
  by_cases hzero : size = 0
  · rw [hzero, List.take_zero, if_pos rfl, if_neg (by simp)]
    exact ⟨hfill, hsafe, Checked.avoids_pure _⟩
  · have hne : contents.take size ≠ [] := by
      intro hnil
      rw [hnil] at htake
      exact hzero htake.symm
    have hcapacity : t.buffer.endIndex + size ≤ t.buffer.capacity := by
      have := h'.endIndex_le
      omega
    rw [if_neg hne, if_pos hzero]
    constructor
    · have happend := hfill.append hne (by rw [htake]; exact hcapacity) ?_
      · rw [htake] at happend
        exact happend
      · have hself := Memory.slice_storeList_self t.buffer.buffer t.buffer.endIndex contents
        rw [← List.take_append_drop size contents] at hself
        have := (Memory.slice_eq_of_append hself).1
        rwa [List.take_append_drop] at this
    · simp only [FlipBuffer.advance, Checked.avoids_bind, Checked.avoids_check]
      exact ⟨hsafe, ⟨fun _ => hcapacity, Checked.avoids_pure _⟩, Checked.avoids_pure _⟩

/-- **A write** puts messages into flight and changes nothing else. -/
theorem write (h : Represents capacity s k sent) (packetId : PacketId) (b : Span) (mem : Memory) :
    Represents capacity (s.write packetId b mem).val.1 k sent := by
  have hmessages := messages_write s packetId b mem
  rw [write_state] at hmessages ⊢
  exact ⟨h.le, h.sizes, hmessages.trans h.messages, h.nextOutgoing, h.endIndex, h.capacity_eq,
    h.endIndex_le, h.bytes⟩

end Represents

theorem ReliableStream.write_avoids (s : ReliableStream) (packetId : PacketId) (b : Span)
    (mem : Memory) : (s.write packetId b mem).Avoids RangeFault :=
  avoids_write (by simp [RangeFault]) (by simp [RangeFault]) (by simp [RangeFault])
    (by simp [RangeFault]) s packetId b mem

/-- The number of messages that an ACK of the packet takes out of flight. -/
def ReliableStream.ackCount (s : ReliableStream) (packetId : PacketId) : ℕ :=
  s.inFlightMessages.length
    - (s.onPacketDeliveryStatus packetId .ack).val.inFlightMessages.length

theorem ReliableStream.ackCount_eq (s : ReliableStream) (packetId : PacketId) :
    s.ackCount packetId
      = (s.inFlightMessages.takeWhile fun msg => msg.packetId = packetId).length := by
  have hlength := congrArg List.length (@List.takeWhile_append_dropWhile _
    (fun msg : InFlightMessage => decide (msg.packetId = packetId)) s.inFlightMessages)
  rw [List.length_append] at hlength
  rw [ackCount, inFlightMessages_ack]
  omega

/-- The ACK loop on messages that are laid out one behind the other. -/
theorem ackLoop_spec (packetId : PacketId) (buffer : FlipBuffer) {inFlight : List InFlightMessage}
    {pending : List PendingMessage} {start seq : ℕ} {live : List (List UInt8)}
    (h : inFlight.map (·.message) ++ pending = layout start seq live) :
    (ackLoop packetId buffer inFlight).val =
        (buffer.consume ((live.take (inFlight.takeWhile
            fun msg => msg.packetId = packetId).length).flatten.length),
          inFlight.drop (inFlight.takeWhile fun msg => msg.packetId = packetId).length) ∧
      (ackLoop packetId buffer inFlight).Avoids RangeFault := by
  induction inFlight generalizing buffer start seq live with
  | nil => exact ⟨rfl, Checked.avoids_pure _⟩
  | cons msg inFlight ih =>
    cases live with
    | nil => simp [layout] at h
    | cons payload live =>
      rw [layout, List.map_cons, List.cons_append, List.cons.injEq] at h
      obtain ⟨hmsg, hrest⟩ := h
      rw [ackLoop]
      -- the loop goes on while the front is tagged with the packet
      by_cases hid : msg.packetId = packetId
      · rw [if_pos hid, List.takeWhile_cons_of_pos (by simpa using hid)]
        have hsize : msg.message.range.size.val = payload.length := by
          rw [hmsg]
          simp only [BufferRange.size, Checked.val_bind, Checked.val_pure]
          rw [usizeSub_of_le (Nat.le_add_right _ _), Nat.add_sub_cancel_left]
        obtain ⟨hval, hsafe⟩ := ih (buffer.consume payload.length) hrest
        simp only [Checked.val_bind, Checked.avoids_bind, hsize, hval, List.length_cons,
          List.take_succ_cons, List.flatten_cons, List.length_append, List.drop_succ_cons,
          FlipBuffer.consume_consume]
        refine ⟨trivial, ?_, hsafe⟩
        rw [hmsg]
        simp only [BufferRange.size, Checked.avoids_bind, Checked.avoids_check]
        exact ⟨fun _ => Nat.le_add_right _ _, Checked.avoids_pure _⟩
      · rw [if_neg hid, List.takeWhile_cons_of_neg (by simpa using hid)]
        exact ⟨rfl, Checked.avoids_pure _⟩

/-- How many more messages are acknowledged after a status. -/
def ReliableStream.ackedAfter (s : ReliableStream) (packetId : PacketId) :
    PacketDeliveryStatus → ℕ → ℕ
  | .ack, k => k + s.ackCount packetId
  | .drop, k => k

namespace Represents

variable {capacity : ℕ} {s : ReliableStream} {k : ℕ} {sent : List (List UInt8)}

theorem ack (h : Represents capacity s k sent) (packetId : PacketId) :
    Represents capacity (s.onPacketDeliveryStatus packetId .ack).val (k + s.ackCount packetId)
        sent ∧
      (s.onPacketDeliveryStatus packetId .ack).Avoids RangeFault := by
  have horder : ¬ RangeFault (.assertion .ackOrder) := by simp [RangeFault]
  obtain ⟨hval, hsafe⟩ := ackLoop_spec packetId s.buffer h.messages
  rw [ackCount_eq]
  set j := (s.inFlightMessages.takeWhile fun msg => msg.packetId = packetId).length with hj
  have hcount : j ≤ s.inFlightMessages.length := (List.takeWhile_prefix _).length_le
  have hlength : s.inFlightMessages.length + s.pendingMessages.length = sent.length - k := by
    have := congrArg List.length h.messages
    simpa [ReliableStream.messages] using this
  have hdrop : (sent.drop k).drop j = sent.drop (k + j) := List.drop_drop
  -- the bytes that are consumed are those of the first `j` messages
  have hsplit : (sent.drop k).flatten
      = ((sent.drop k).take j).flatten ++ (sent.drop (k + j)).flatten := by
    conv_lhs => rw [← List.take_append_drop j (sent.drop k), hdrop]
    rw [List.flatten_append]
  constructor
  · simp only [onPacketDeliveryStatus, Checked.val_bind, Checked.val_pure, hval]
    refine ⟨by have := h.le; omega, h.sizes, ?_, h.nextOutgoing, ?_, h.capacity_eq,
      h.endIndex_le, ?_⟩
    · have hmessages := congrArg (List.drop j) h.messages
      rw [layout_drop, hdrop, ReliableStream.messages,
        List.drop_append_of_le_length (by simpa using hcount), ← List.map_drop] at hmessages
      exact hmessages
    · have hend := h.endIndex
      rw [hsplit, List.length_append, ← Nat.add_assoc] at hend
      exact hend
    · have hbytes := h.bytes
      rw [hsplit] at hbytes
      exact (Memory.slice_eq_of_append hbytes).2
  · simp only [onPacketDeliveryStatus, Checked.avoids_bind, Checked.avoids_check]
    exact ⟨hsafe, fun hbad => absurd hbad horder, Checked.avoids_pure _⟩

theorem drop (h : Represents capacity s k sent) (packetId : PacketId) :
    Represents capacity (s.onPacketDeliveryStatus packetId .drop).val k sent ∧
      (s.onPacketDeliveryStatus packetId .drop).Avoids RangeFault := by
  have horder : ¬ RangeFault (.assertion .dropOrder) := by simp [RangeFault]
  constructor
  · rw [val_drop]
    exact ⟨h.le, h.sizes, h.messages, h.nextOutgoing, h.endIndex, h.capacity_eq,
      h.endIndex_le, h.bytes⟩
  · simp only [onPacketDeliveryStatus, Checked.avoids_bind, Checked.avoids_check]
    exact ⟨fun hbad => absurd hbad horder, Checked.avoids_pure _⟩

/-- **A delivery status** takes acknowledged messages off the front, or puts all
messages back. -/
theorem status (h : Represents capacity s k sent) (packetId : PacketId)
    (status : PacketDeliveryStatus) :
    Represents capacity (s.onPacketDeliveryStatus packetId status).val
        (s.ackedAfter packetId status k) sent ∧
      (s.onPacketDeliveryStatus packetId status).Avoids RangeFault := by
  cases status with
  | ack => exact h.ack packetId
  | drop => exact h.drop packetId

end Represents

/-! ### Runs -/

/-- A call of the sending half of a `ReliableStream`. -/
inductive BufferCall
  | send (fn : WriteToBufferFn)
  | write (packetId : PacketId) (b : Span) (mem : Memory)
  | onPacketDeliveryStatus (packetId : PacketId) (status : PacketDeliveryStatus)

/-- A stream, the payloads given to `send` and the broken obligations. -/
structure BufferState where
  stream : ReliableStream
  sent : List (List UInt8) := []
  faults : List Fault := []

def BufferState.next (s : BufferState) : BufferCall → BufferState
  | .send fn =>
    let result := s.stream.send fn
    ⟨result.val, s.stream.sentAfter fn s.sent, s.faults ++ result.faults⟩
  | .write packetId b mem =>
    let result := s.stream.write packetId b mem
    ⟨result.val.1, s.sent, s.faults ++ result.faults⟩
  | .onPacketDeliveryStatus packetId status =>
    let result := s.stream.onPacketDeliveryStatus packetId status
    ⟨result.val, s.sent, s.faults ++ result.faults⟩

/-- The runs of a stream with a buffer of the given capacity. -/
def buffering (capacity : ℕ) : System BufferState BufferCall where
  init s := s = { stream := ofCapacity capacity }
  enabled _ _ := True
  next := BufferState.next

/-- The invariant of the runs. -/
def BufferState.Sound (capacity : ℕ) (s : BufferState) : Prop :=
  (∃ k, Represents capacity s.stream k s.sent) ∧ ∀ f ∈ s.faults, ¬ RangeFault f

theorem BufferState.Sound.next {capacity : ℕ} {s : BufferState} (h : s.Sound capacity)
    (call : BufferCall) : (s.next call).Sound capacity := by
  obtain ⟨⟨k, hk⟩, hfaults⟩ := h
  have happend : ∀ {α : Type} {x : Checked Fault α}, x.Avoids RangeFault →
      ∀ f ∈ s.faults ++ x.faults, ¬ RangeFault f := by
    intro α x hx f hf
    rcases List.mem_append.mp hf with hf | hf
    · exact hfaults f hf
    · exact hx f hf
  cases call with
  | send fn => exact ⟨⟨k, (hk.send fn).1⟩, happend (hk.send fn).2⟩
  | write packetId b mem =>
    exact ⟨⟨k, hk.write packetId b mem⟩, happend (s.stream.write_avoids packetId b mem)⟩
  | onPacketDeliveryStatus packetId status =>
    exact ⟨⟨_, (hk.status packetId status).1⟩, happend (hk.status packetId status).2⟩

theorem BufferState.sound_of_reachable {capacity : ℕ} {s : BufferState}
    (h : (buffering capacity).Reachable System.anyAction s) : s.Sound capacity := by
  refine h.invariant (fun s hs => ?_) (fun s call _ hs _ _ => hs.next call)
  cases hs
  exact ⟨⟨0, Represents.start capacity⟩, by simp⟩

/-- **The representation invariant** of a `ReliableStream`: in every reachable
state the messages in flight and the pending ones are the last ones sent, with
consecutive sequence numbers up to the next one; their ranges tile the live part
of the buffer and hold their payloads; no check of the buffer fails, and the next
callback gets all the room they leave. -/
theorem representation {capacity : ℕ} {s : BufferState}
    (h : (buffering capacity).Reachable System.anyAction s) :
    ∃ k ≤ s.sent.length,
      s.stream.messages = layout s.stream.buffer.beginIndex k (s.sent.drop k) ∧
      s.stream.nextOutgoingSequenceNumber = UInt32.ofNat s.sent.length ∧
      s.stream.buffer.endIndex
        = s.stream.buffer.beginIndex + (s.sent.drop k).flatten.length ∧
      s.stream.buffer.endIndex ≤ capacity ∧
      s.stream.messages.map (fun msg => s.stream.buffer.bufferSpan msg.range) = s.sent.drop k ∧
      (∀ f ∈ s.faults, ¬ RangeFault f) ∧
      s.stream.maybeFlip.val.buffer.remaining.size = capacity
        - (s.stream.messages.map fun msg => msg.range.endIndex - msg.range.beginIndex).sum := by
  obtain ⟨⟨k, hk⟩, hfaults⟩ := BufferState.sound_of_reachable h
  refine ⟨k, hk.le, hk.messages, hk.nextOutgoing, hk.endIndex, ?_, ?_, hfaults, ?_⟩
  · rw [← hk.capacity_eq]
    exact hk.endIndex_le
  · rw [hk.messages]
    exact bufferSpan_layout k hk.bytes
  · rw [hk.remaining, hk.messages, sum_layout]

/-- Two messages are sent in packets of their own, the first one is acknowledged
and a third one makes the buffer flip. -/
theorem representation_after_flip :
    let s := (buffering 8).runFrom { stream := ofCapacity 8 }
      [.send (.ofBytes [1, 2, 3]), .write 0 ⟨0, 100⟩ (fun _ => 0), .send (.ofBytes [4, 5]),
        .write 1 ⟨0, 100⟩ (fun _ => 0), .onPacketDeliveryStatus 0 .ack,
        .send (.ofBytes [6, 7, 8, 9])]
    s.sent = [[1, 2, 3], [4, 5], [6, 7, 8, 9]] ∧
      ∃ k ≤ s.sent.length,
        s.stream.messages = layout s.stream.buffer.beginIndex k (s.sent.drop k) := by
  intro s
  refine ⟨by decide +kernel, ?_⟩
  obtain ⟨k, hk, hmessages, -⟩ := @representation 8 s (System.runFrom_reachable (.init rfl)
    ⟨trivial, trivial, trivial, trivial, trivial, trivial, trivial, trivial, trivial, trivial,
      trivial, trivial, trivial⟩)
  exact ⟨k, hk, hmessages⟩

end Neptun
