/-
Writing and reading a reliable segment.

The messages of a packet have consecutive sequence numbers, also after a DROP has
put messages back.  So a receiver that expects one of these numbers takes all
messages from there on, and a receiver that expects another number takes none.  A
packet without messages has no segment header either, so that what follows in the
packet is read in its place.

* `isGreatest_fitCount` — `write` takes the longest prefix of the pending messages
  that fits;
* `receive_consecutive` — what a receiver makes of consecutive messages;
* `reliable_round_trip` — both together, for every packet buffer.
-/
import Neptun.Grammar
import Neptun.PacketSize
import Neptun.ReliableChannel

namespace Neptun

open ReliableStream

/-! ### The longest prefix -/

/-- The sizing loop takes no fewer messages than fit. -/
theorem ReliableStream.le_countMessages (f : FlipBuffer) (bufferSize totalSize : ℕ)
    (msgs : List PendingMessage) {j : ℕ} (hj : j ≤ msgs.length)
    (hfits : totalSize + (encodeMessages ((msgs.take j).map (toWire f))).length ≤ bufferSize) :
    j ≤ (countMessages f bufferSize totalSize msgs).1 := by
  induction msgs generalizing totalSize j with
  | nil => exact hj
  | cons msg msgs ih =>
    cases j with
    | zero => exact Nat.zero_le _
    | succ j =>
      rw [List.take_succ_cons, List.map_cons, encodeMessages_cons, List.length_append,
        ReliableMessage.length_encode] at hfits
      have hsize : ReliableMessage.serializedSize (f.bufferSpan msg.range).length
          = 6 + (toWire f msg).2.length := rfl
      rw [countMessages]
      dsimp only
      rw [hsize, if_neg (by omega)]
      exact Nat.succ_le_succ (ih _ (Nat.le_of_succ_le_succ hj) (by omega))

theorem ReliableStream.isGreatest_fitCount (s : ReliableStream) (bufferSize : ℕ) :
    IsGreatest {j | j ≤ s.pendingMessages.length ∧ (encodeSegment
      ((s.pendingMessages.take j).map (toWire s.buffer))).length ≤ bufferSize}
      (s.fitCount bufferSize) := by
  constructor
  · exact ⟨countMessages_le _ _ _ _, s.length_encodeSegment_le bufferSize⟩
  · rintro j ⟨hj, hfits⟩
    cases j with
    | zero => exact Nat.zero_le _
    | succ j =>
      have hne : (s.pendingMessages.take (j + 1)).map (toWire s.buffer) ≠ [] := by
        intro hnil
        have hlength := congrArg List.length hnil
        rw [List.length_map, List.length_take, Nat.min_eq_left hj] at hlength
        cases hlength
      rw [encodeSegment, if_neg hne, List.length_append] at hfits
      exact le_countMessages s.buffer bufferSize Segment.kSerializedSize s.pendingMessages hj hfits

/-! ### Consecutive messages -/

theorem receive_in_sequence (seq : ℕ) (payloads : List (List UInt8)) :
    receive (UInt32.ofNat seq) (numberFrom seq payloads)
      = (UInt32.ofNat (seq + payloads.length), payloads) := by
  induction payloads generalizing seq with
  | nil => rfl
  | cons payload payloads ih =>
    have hone : UInt32.ofNat seq + 1 = UInt32.ofNat (seq + 1) := (UInt32.ofNat_add _ _).symm
    rw [numberFrom, receive, if_pos rfl, hone, ih, List.length_cons, Nat.add_right_comm,
      Nat.add_assoc]

theorem map_snd_numberFrom (seq : ℕ) (payloads : List (List UInt8)) :
    (numberFrom seq payloads).map Prod.snd = payloads := by
  induction payloads generalizing seq with
  | nil => rfl
  | cons payload payloads ih => rw [numberFrom, List.map_cons, ih]

/-- A receiver of consecutive messages takes those from the number on that it expects. -/
theorem receive_consecutive (expected : UInt32) (seq : ℕ) (payloads : List (List UInt8)) :
    let rest := (numberFrom seq payloads).dropWhile fun msg => msg.1 ≠ expected
    receive expected (numberFrom seq payloads)
      = (expected + UInt32.ofNat rest.length, rest.map Prod.snd) := by
  induction payloads generalizing seq with
  | nil => simp [numberFrom, receive]
  | cons payload payloads ih =>
    have hcons : numberFrom seq (payload :: payloads)
        = (UInt32.ofNat seq, payload) :: numberFrom (seq + 1) payloads := rfl
    by_cases heq : UInt32.ofNat seq = expected
    · -- all messages from here on are in sequence
      subst heq
      rw [hcons, List.dropWhile_cons_of_neg (by simp), ← hcons]
      dsimp only
      rw [receive_in_sequence, map_snd_numberFrom, length_numberFrom, UInt32.ofNat_add]
    · rw [hcons, List.dropWhile_cons_of_pos (by simpa using heq), receive, if_neg heq]
      exact ih (seq + 1)

/-! ### Writing and reading -/

/-- The bytes behind a packet without a reliable segment do not begin with one. -/
def NoReliableSegment (later : List UInt8) : Prop :=
  later.length < 2 ∨ later.head? ≠ some ManagerType.reliableStream.toU8

theorem le_length_encodeMessages {msgs : List WireMessage} {msg : WireMessage} (h : msg ∈ msgs) :
    6 + msg.2.length ≤ (encodeMessages msgs).length := by
  rw [encodeMessages, List.length_flatMap, ← ReliableMessage.length_encode msg.1 msg.2]
  exact List.single_le_sum (by simp) _ (List.mem_map_of_mem h)

/-- The messages that a packet takes can be carried by the format, and can be counted
in a byte. -/
theorem Represents.taken_fits {capacity k : ℕ} {s : ReliableStream} {sent : List (List UInt8)}
    (h : Represents capacity s k sent) {bufferSize : ℕ} (hsize : bufferSize ≤ 1400) :
    let taken := (s.pendingMessages.take (s.fitCount bufferSize)).map
      (ReliableStream.toWire s.buffer)
    (∀ msg ∈ taken, WireMessage.Fits msg) ∧ taken.length < 2 ^ 8 := by
  intro taken
  have hsegment : (encodeSegment taken).length ≤ bufferSize := s.length_encodeSegment_le bufferSize
  have hbytes : (encodeMessages taken).length ≤ 1400 := by
    rw [encodeSegment] at hsegment
    split at hsegment
    · next hnil =>
      rw [hnil]
      exact Nat.zero_le _
    · rw [List.length_append] at hsegment
      omega
  have hfits : ∀ msg ∈ taken, WireMessage.Fits msg := by
    intro msg hmsg
    have hle := le_length_encodeMessages hmsg
    obtain ⟨pending, hpending, rfl⟩ := List.mem_map.mp hmsg
    have hmem := h.bufferSpan_mem (List.mem_of_mem_take hpending)
    exact ⟨(h.sizes _ hmem).1, by omega⟩
  have hcount := length_le_encodeMessages hfits
  exact ⟨hfits, by omega⟩

/-- **Writing and reading a reliable segment.**  A stream in any state puts the longest
prefix of its pending messages that fits into a packet buffer, in order, and sends it
under the id of the packet.  A receiver in any state, whatever follows in the packet,
takes the messages from the number on that it expects.  Where there is no segment,
what follows must not look like one. -/
theorem reliable_round_trip {capacity : ℕ} {s : BufferState}
    (h : (buffering capacity).Reachable System.anyAction s) (packetId : PacketId)
    {b b' : Span} (mem mem' : Memory) (later : List UInt8) (receiver : ReliableStream)
    (hsize : b.size ≤ 1400)
    (hb' : b'.size = (s.stream.write packetId b mem).val.2.2 + later.length)
    (hmem' : mem'.slice b'.off b'.size = (s.stream.write packetId b mem).val.2.1.slice b.off
      (s.stream.write packetId b mem).val.2.2 ++ later) :
    let wire := s.stream.pendingMessages.map (ReliableStream.toWire s.stream.buffer)
    let result := s.stream.write packetId b mem
    ∃ k, IsGreatest {j | j ≤ wire.length ∧ (encodeSegment (wire.take j)).length ≤ b.size} k ∧
      result.val.1 = { s.stream with
        pendingMessages := s.stream.pendingMessages.drop k
        inFlightMessages := s.stream.inFlightMessages
          ++ (s.stream.pendingMessages.take k).map (InFlightMessage.mk packetId) } ∧
      result.val.2 = (mem.storeList b.off (encodeSegment (wire.take k)),
        (encodeSegment (wire.take k)).length) ∧
      result.Avoids BuildFault ∧
      (0 < k →
        let delivered := (wire.take k).dropWhile fun msg =>
          msg.1 ≠ receiver.nextExpectedSequenceNumber
        (receiver.read b' mem').val = ({ receiver with
            nextExpectedSequenceNumber := receiver.nextExpectedSequenceNumber
              + UInt32.ofNat delivered.length },
          delivered.map Prod.snd, .ok result.val.2.2)) ∧
      (k = 0 → result.val.2.2 = 0 ∧
        (NoReliableSegment later → (receiver.read b' mem').val = (receiver, [], .ok 0))) := by
  intro wire result
  obtain ⟨⟨acked, hk⟩, -⟩ := BufferState.sound_of_reachable h
  have htake : ∀ j, wire.take j
      = (s.stream.pendingMessages.take j).map (ReliableStream.toWire s.stream.buffer) :=
    fun j => List.map_take.symm
  have hlength : wire.length = s.stream.pendingMessages.length := List.length_map _
  have hwrite := s.stream.val_write packetId b mem
  dsimp only at hwrite
  refine ⟨s.stream.fitCount b.size, ?_, s.stream.write_state packetId b mem, ?_,
    s.stream.write_avoids_build packetId b mem, fun hpos => ?_, fun hzero => ?_⟩
  · simp only [htake, hlength]
    exact s.stream.isGreatest_fitCount b.size
  · rw [htake]
    exact hwrite
  · -- the messages that are written, and what their numbers are
    obtain ⟨hfits, hcount⟩ := hk.taken_fits hsize
    have hnumbers : wire.take (s.stream.fitCount b.size) = numberFrom
        (acked + s.stream.inFlightMessages.length) ((s.sent.drop
          (acked + s.stream.inFlightMessages.length)).take (s.stream.fitCount b.size)) := by
      rw [← numberFrom_take, ← hk.pending_toWire]
    rw [← htake] at hwrite hfits hcount
    have hne : wire.take (s.stream.fitCount b.size) ≠ [] := by
      intro hnil
      have hlen := congrArg List.length hnil
      have hle : s.stream.fitCount b.size ≤ wire.length := hlength ▸ countMessages_le _ _ _ _
      rw [List.length_take, Nat.min_eq_left hle, List.length_nil] at hlen
      omega
    rw [hwrite] at hb' hmem'
    rw [Memory.slice_storeList_self] at hmem'
    rw [hb', ← List.length_append] at hmem'
    rw [receiver.val_read hne hcount hfits (hb' ▸ Nat.le_add_right _ _)
      (Memory.slice_eq_of_append hmem').1, hwrite, hnumbers, receive_consecutive]
  · rw [hzero, List.take_zero] at hwrite
    have hcount : result.val.2.2 = 0 := congrArg Prod.snd hwrite
    refine ⟨hcount, fun hlater => receiver.read_other ?_⟩
    have hzero' : (s.stream.write packetId b mem).val.2.2 = 0 := hcount
    rw [hzero', Nat.zero_add] at hb'
    rw [hzero', hb', Memory.slice, List.nil_append] at hmem'
    -- the reader sees what follows in the packet
    rcases hlater with hshort | hhead
    · exact Or.inl (hb' ▸ hshort)
    · cases later with
      | nil => exact Or.inl (hb' ▸ Nat.zero_lt_two)
      | cons byte later =>
        rw [List.length_cons, Memory.slice, List.cons.injEq] at hmem'
        rw [hmem'.1]
        exact Or.inr fun hbyte => hhead (congrArg some hbyte)

/-- A sender that has two messages, the first of which was dropped once, and a receiver
that has the first one. -/
theorem reliable_round_trip_second_message :
    let s := (buffering 16).runFrom { stream := ofCapacity 16 }
      [.send (.ofBytes [1, 2]), .write 0 ⟨12, 1388⟩ (fun _ => 0), .send (.ofBytes [3]),
        .onPacketDeliveryStatus 0 .drop]
    let receiver : ReliableStream := { nextExpectedSequenceNumber := 1 }
    let result := (s.stream.write 1 ⟨12, 1388⟩ (fun _ => 0)).val
    result.2.2 = 17 ∧
      (receiver.read ⟨12, result.2.2⟩ result.2.1).val.2 = ([[3]], .ok result.2.2) := by
  intro s receiver result
  have hcount : result.2.2 = 17 := by decide +kernel
  obtain ⟨k, hgreatest, -, -, -, hread, -⟩ := @reliable_round_trip 16 s
    (System.runFrom_reachable (.init rfl)
      ⟨trivial, trivial, trivial, trivial, trivial, trivial, trivial, trivial, trivial⟩)
    1 ⟨12, 1388⟩ ⟨12, result.2.2⟩ (fun _ => 0) result.2.1 [] receiver (by decide) rfl
    (List.append_nil _).symm
  have hle : k ≤ 2 := hgreatest.1.1
  have hge : 2 ≤ k := hgreatest.2 ⟨by decide +kernel, by decide +kernel⟩
  obtain rfl : k = 2 := Nat.le_antisymm hle hge
  refine ⟨hcount, ?_⟩
  rw [hread (by decide)]
  exact congrArg (·, Except.ok result.2.2) (by decide +kernel)

/-- An empty sender writes nothing, and the receiver takes the bytes that follow in the
packet for a segment. -/
theorem reliable_not_round_trip :
    let later : List UInt8 := [3, 1, 0, 0, 0, 0, 0, 1, 9]
    let s : ReliableStream := {}
    let receiver : ReliableStream := {}
    let packet := (s.write 0 ⟨12, 1388⟩ fun _ => 0).val.2.1.storeList 12 later
    (s.write 0 ⟨12, 1388⟩ fun _ => 0).val.2.2 = 0 ∧
      (receiver.read ⟨12, 9⟩ packet).val.2 = ([[9]], .ok 9) := by
  decide +kernel

end Neptun
