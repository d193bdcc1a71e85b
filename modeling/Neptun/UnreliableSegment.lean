/-
The segment of an `UnreliableStream` in a packet.

`write` takes the longest prefix of the pending messages that fits, and stores
their payloads behind a header that counts them in one byte.  `read` goes
through as many messages as that byte says, so that it gives back all of them
only if there are fewer than 256.

* `UnreliableStream.val_write` — the bytes of a segment, and what is left of the
  stream;
* `UnreliableStream.val_read` — what is read from these bytes.
-/
import Neptun.UnreliableStream

namespace Neptun

/-- The bytes of the messages of an unreliable segment. -/
def encodePayloads (payloads : List (List UInt8)) : List UInt8 :=
  payloads.flatMap UnreliableMessage.encode

/-- The bytes of an unreliable segment; there is none without messages. -/
def encodeUnreliable (payloads : List (List UInt8)) : List UInt8 :=
  if payloads = [] then []
  else [ManagerType.unreliableStream.toU8, UInt8.ofNat payloads.length]
    ++ encodePayloads payloads

/-- A payload that the format can carry. -/
def PayloadFits (payload : List UInt8) : Prop := payload ≠ [] ∧ payload.length < 2 ^ 16

theorem encodePayloads_cons (payload : List UInt8) (payloads : List (List UInt8)) :
    encodePayloads (payload :: payloads)
      = UnreliableMessage.encode payload ++ encodePayloads payloads :=
  List.flatMap_cons

namespace UnreliableStream

/-- The payload of a pending message. -/
def payloadAt (f : FlipBuffer) (span : Span) : List UInt8 := f.buffer.slice span.off span.size

/-- The payloads of the pending messages. -/
def payloads (s : UnreliableStream) : List (List UInt8) :=
  s.pendingMessages.map (payloadAt s.buffer)

/-- The number of pending messages that fit into a buffer. -/
def fitCount (s : UnreliableStream) (bufferSize : ℕ) : ℕ :=
  (countMessages bufferSize Segment.kSerializedSize s.pendingMessages).1

/-- The sizes of messages in a segment. -/
def messageSizes (spans : List Span) : ℕ :=
  (spans.map fun span => UnreliableMessage.serializedSize span.size).sum

/-! ### Sizing -/

theorem messageSizes_cons (span : Span) (spans : List Span) :
    messageSizes (span :: spans)
      = UnreliableMessage.serializedSize span.size + messageSizes spans := by
  simp [messageSizes]

theorem length_encodePayloads (f : FlipBuffer) (spans : List Span) :
    (encodePayloads (spans.map (payloadAt f))).length = messageSizes spans := by
  induction spans with
  | nil => rfl
  | cons span spans ih =>
    rw [List.map_cons, encodePayloads_cons, List.length_append, ih, messageSizes_cons,
      UnreliableMessage.length_encode, payloadAt, Memory.length_slice,
      UnreliableMessage.serializedSize]

/-- The sizing loop takes the longest prefix that fits. -/
theorem countMessages_spec (bufferSize totalSize : ℕ) (spans : List Span) :
    let k := (countMessages bufferSize totalSize spans).1
    (countMessages bufferSize totalSize spans).2 = totalSize + messageSizes (spans.take k) ∧
      k ≤ spans.length ∧
      (k ≠ 0 → totalSize + messageSizes (spans.take k) ≤ bufferSize) ∧
      ∀ j ≤ spans.length, totalSize + messageSizes (spans.take j) ≤ bufferSize → j ≤ k := by
  induction spans generalizing totalSize with
  | nil => simp [countMessages, messageSizes]
  | cons span spans ih =>
    simp only [countMessages]
    split
    -- the loop stops at the first message that is too large, even if a later one would fit
    · next hlarge =>
      refine ⟨by simp [messageSizes], Nat.zero_le _, fun h => absurd rfl h, ?_⟩
      intro j hj hfits
      cases j with
      | zero => exact Nat.le_refl 0
      | succ j =>
        rw [List.take_succ_cons, messageSizes_cons] at hfits
        omega
    · next hfirst =>
      obtain ⟨hsize, hle, hfits, hmax⟩ :=
        ih (totalSize + UnreliableMessage.serializedSize span.size)
      dsimp only at hsize hle hfits hmax ⊢
      rw [List.take_succ_cons, messageSizes_cons, List.length_cons, ← Nat.add_assoc]
      refine ⟨hsize, Nat.succ_le_succ hle, fun _ => ?_, ?_⟩
      · by_cases hzero : (countMessages bufferSize
            (totalSize + UnreliableMessage.serializedSize span.size) spans).1 = 0
        · rw [hzero, List.take_zero]
          simpa [messageSizes] using hfirst
        · exact hfits hzero
      · intro j hj hfit
        cases j with
        | zero => exact Nat.zero_le _
        | succ j =>
          rw [List.take_succ_cons, messageSizes_cons, ← Nat.add_assoc] at hfit
          exact Nat.succ_le_succ (hmax j (Nat.le_of_succ_le_succ hj) hfit)

/-! ### Writing -/

/-- The writing loop stores the messages one behind the other, and consumes their
bytes. -/
theorem val_writeLoop (b : Span) (n idx : ℕ) (f : FlipBuffer) (pending : List Span)
    (mem : Memory) :
    (writeLoop b n idx f pending mem).val.1
        = f.consume ((pending.take n).map Span.size).sum ∧
      (writeLoop b n idx f pending mem).val.2.1 = mem.storeList (b.off + idx)
        (encodePayloads ((pending.take n).map (payloadAt f))) := by
  -- on the number of messages that are left; the buffer only moves its begin
  induction n generalizing idx f pending mem with
  | zero => exact ⟨rfl, rfl⟩
  | succ n ih =>
    cases pending with
    | nil => exact ⟨rfl, rfl⟩
    | cons span pending =>
      -- consuming bytes leaves them where they are
      have hmessage := UnreliableMessage.val_write ⟨b.off + idx, usizeSub b.size idx⟩ mem
        ((f.consume span.size).buffer.slice span.off span.size)
      rw [Memory.length_slice] at hmessage
      simp only [writeLoop, Checked.val_bind, val_advance, hmessage]
      obtain ⟨hstate, hmem⟩ := ih (idx + (2 + span.size)) (f.consume span.size) pending
        (mem.storeList (b.off + idx) (UnreliableMessage.encode (payloadAt f span)))
      rw [List.take_succ_cons, List.map_cons, List.map_cons, encodePayloads_cons,
        Memory.storeList_append, UnreliableMessage.length_encode, List.sum_cons]
      constructor
      · rw [← FlipBuffer.consume_consume]
        exact hstate
      · rw [payloadAt, Memory.length_slice, Nat.add_assoc]
        exact hmem

theorem length_take_fitCount (s : UnreliableStream) (bufferSize : ℕ) :
    (s.pendingMessages.take (s.fitCount bufferSize)).length = s.fitCount bufferSize := by
  obtain ⟨-, hle, -⟩ := countMessages_spec bufferSize Segment.kSerializedSize s.pendingMessages
  rw [List.length_take]
  exact Nat.min_eq_left hle

/-- **What `write` puts into a packet**, and what is left of the stream. -/
theorem val_write (s : UnreliableStream) (b : Span) (mem : Memory) :
    let taken := s.payloads.take (s.fitCount b.size)
    let consumed := ((s.pendingMessages.take (s.fitCount b.size)).map Span.size).sum
    (s.write b mem).val =
      (if s.fitCount b.size = 0 then s
        else { s with buffer := (s.buffer.consume consumed).flip, pendingMessages := [] },
      mem.storeList b.off (encodeUnreliable taken), (encodeUnreliable taken).length) := by
  intro taken consumed
  have htaken : taken = (s.pendingMessages.take (s.fitCount b.size)).map (payloadAt s.buffer) :=
    List.map_take.symm
  have hlength : taken.length = s.fitCount b.size := by
    rw [htaken, List.length_map, length_take_fitCount]
  obtain ⟨hsize, -⟩ := countMessages_spec b.size Segment.kSerializedSize s.pendingMessages
  have hfit : (countMessages b.size Segment.kSerializedSize s.pendingMessages).1
      = s.fitCount b.size := rfl
  rw [hfit] at hsize
  rw [write]
  dsimp only
  rw [hfit]
  -- without a message there is no segment header either
  by_cases hzero : s.fitCount b.size = 0
  · have hnil : taken = [] := List.length_eq_zero_iff.mp (hlength.trans hzero)
    rw [if_pos hzero, if_pos hzero, hnil, encodeUnreliable, if_pos rfl]
    rfl
  · have hne : taken ≠ [] := fun h => hzero (by rw [← hlength, h]; rfl)
    obtain ⟨hbuffer, hmem⟩ := val_writeLoop b (s.fitCount b.size) 2 s.buffer s.pendingMessages
      (mem.storeList b.off [ManagerType.unreliableStream.toU8,
        UInt8.ofNat (s.fitCount b.size)])
    rw [if_neg hzero, if_neg hzero, encodeUnreliable, if_neg hne]
    simp only [Checked.val_bind, Checked.val_pure, Segment.val_write, hbuffer, hmem]
    rw [hsize, hlength, Memory.storeList_append, List.length_append, htaken,
      length_encodePayloads]
    rfl

/-- The segment fits into the span. -/
theorem encodeUnreliable_length_le (s : UnreliableStream) (bufferSize : ℕ) :
    (encodeUnreliable (s.payloads.take (s.fitCount bufferSize))).length ≤ bufferSize := by
  obtain ⟨-, -, hfits, -⟩ := countMessages_spec bufferSize Segment.kSerializedSize
    s.pendingMessages
  rw [encodeUnreliable]
  split
  · exact Nat.zero_le _
  · next hne =>
    have hzero : s.fitCount bufferSize ≠ 0 := by
      intro hzero
      rw [hzero] at hne
      exact hne rfl
    rw [List.length_append, payloads, ← List.map_take, length_encodePayloads]
    exact hfits hzero

/-! ### Reading -/

/-- The reading loop goes through the first `n` messages. -/
theorem val_readLoop {b : Span} {mem : Memory} {payloads : List (List UInt8)} {idx n : ℕ}
    (hn : n ≤ payloads.length) (hfits : ∀ payload ∈ payloads, PayloadFits payload)
    (hsize : idx + (encodePayloads payloads).length ≤ b.size)
    (hmem : mem.slice (b.off + idx) (encodePayloads payloads).length = encodePayloads payloads) :
    (readLoop b mem n idx).val
      = (payloads.take n, .ok (idx + (encodePayloads (payloads.take n)).length)) := by
  induction n generalizing idx payloads with
  | zero => rfl
  | succ n ih =>
    cases payloads with
    | nil => cases hn
    | cons payload payloads =>
      rw [encodePayloads_cons] at hmem hsize
      rw [List.length_append, UnreliableMessage.length_encode] at hsize
      -- the bytes of the first message, and those of the others behind it
      obtain ⟨hhead, htail⟩ := Memory.slice_eq_of_append hmem
      rw [UnreliableMessage.length_encode, Nat.add_assoc] at htail
      obtain ⟨hne, hlength⟩ := hfits payload List.mem_cons_self
      obtain ⟨hvalid, hpayload, hbytes⟩ := UnreliableMessage.read_encode
        (b := ⟨b.off + idx, b.size - idx⟩) hne hlength (by dsimp only; omega) hhead
      have hrest := @ih payloads (idx + (2 + payload.length)) (Nat.le_of_succ_le_succ hn)
        (fun p hp => hfits p (List.mem_cons_of_mem _ hp)) (by omega) htail
      dsimp only at hbytes
      rw [List.take_succ_cons, encodePayloads_cons, List.length_append,
        UnreliableMessage.length_encode, readLoop]
      simp only [Checked.val_bind, Checked.val_pure, val_advance,
        usizeSub_of_le (by omega : idx ≤ b.size), hvalid, hpayload, hbytes, hrest]
      rw [Nat.add_assoc idx]

/-- **What `read` makes of a segment**, whatever follows it in the packet: the
messages that the byte in its header counts. -/
theorem val_read {b : Span} {mem : Memory} {payloads : List (List UInt8)} (hne : payloads ≠ [])
    (hfits : ∀ payload ∈ payloads, PayloadFits payload)
    (hsize : (encodeUnreliable payloads).length ≤ b.size)
    (hmem : mem.slice b.off (encodeUnreliable payloads).length = encodeUnreliable payloads) :
    (read b mem).val = (payloads.take (payloads.length % 256),
      .ok (2 + (encodePayloads (payloads.take (payloads.length % 256))).length)) := by
  rw [encodeUnreliable, if_neg hne] at hmem hsize
  obtain ⟨hhead, htail⟩ := Memory.slice_eq_of_append hmem
  simp only [List.length_cons, List.length_nil, Memory.slice, List.cons.injEq, and_true] at hhead
  obtain ⟨htype, hmessages⟩ := hhead
  rw [List.length_append] at hsize
  simp only [List.length_cons, List.length_nil, Nat.zero_add, Nat.reduceAdd] at hsize htail
  have hloop := val_readLoop (Nat.mod_le payloads.length 256) hfits hsize htail
  have hsegment : ¬ Segment.kSerializedSize > b.size := by
    have : Segment.kSerializedSize = 2 := rfl
    omega
  -- the byte of the message count holds the number of messages modulo 256
  have hnumber : (UInt8.ofNat payloads.length).toNat = payloads.length % 256 :=
    UInt8.toNat_ofNat'
  rw [read, if_neg hsegment]
  simp only [Checked.val_bind, Segment.managerType, Segment.messageCount, val_readU8,
    Segment.kManagerTypeOffset, Segment.kMessageCountOffset, Nat.add_zero, Nat.zero_add, htype,
    hmessages, hnumber, ne_eq, not_true_eq_false, ite_false]
  exact hloop

end UnreliableStream

end Neptun
