/-
Messages that are too large for a packet.

`send` accepts every message that fits into the buffer of its stream, and `write`
stops at the first message that does not fit into the packet.  A message between
the two limits is accepted and then stays in front of all others: there is no packet
that it fits into.

* `ReliableStream.unblocked_iff`, `UnreliableStream.unblocked_iff` — a write takes a
  message iff the first one is small enough;
* `unblocked_iff_small` — so a stream to which only small messages are given never
  blocks.
-/
import Neptun.ReliableChannel
import Neptun.UnreliableBuffer
import Neptun.Endpoint

namespace Neptun

/-- The room behind the header of the largest packet. -/
def largestRoom : ℕ := kJustBelowMtu.toNat - PacketHeader.kSerializedSize

theorem largestRoom_eq : largestRoom = 1388 := by decide

/-! ### One write -/

namespace ReliableStream

/-- A write into the largest packet takes a message, if there is one. -/
def Unblocked (s : ReliableStream) : Prop :=
  s.pendingMessages ≠ [] → ∀ (packetId : PacketId) (b : Span) (mem : Memory),
    b.size = largestRoom →
    (s.write packetId b mem).val.1.pendingMessages.length < s.pendingMessages.length

theorem fitCount_eq_zero_iff (s : ReliableStream) (bufferSize : ℕ) :
    s.fitCount bufferSize = 0 ↔ ∀ first ∈ s.pendingMessages.head?,
      bufferSize < 2 + (6 + (s.buffer.bufferSpan first.range).length) := by
  rw [fitCount]
  cases s.pendingMessages with
  | nil => simp [countMessages]
  | cons first rest =>
    rw [countMessages]
    dsimp only
    split
    · next hlarge =>
      refine iff_of_true rfl fun first' hfirst' => ?_
      cases hfirst'
      exact hlarge
    · next hfits =>
      refine iff_of_false (Nat.succ_ne_zero _) ?_
      intro h
      exact hfits (h first rfl)

theorem unblocked_iff (s : ReliableStream) :
    s.Unblocked ↔ ∀ first ∈ s.pendingMessages.head?,
      (s.buffer.bufferSpan first.range).length ≤ 1380 := by
  have hzero := s.fitCount_eq_zero_iff largestRoom
  have hle : s.fitCount largestRoom ≤ s.pendingMessages.length := countMessages_le _ _ _ _
  rw [largestRoom_eq] at hzero hle
  cases hpending : s.pendingMessages with
  | nil => exact iff_of_true (fun hne => absurd hpending hne) (by simp)
  | cons first rest =>
    rw [hpending, List.length_cons] at hle
    rw [hpending] at hzero
    simp only [List.head?_cons, Option.mem_some_iff, forall_eq'] at hzero ⊢
    have htakes : s.Unblocked ↔ s.fitCount 1388 ≠ 0 := by
      rw [Unblocked]
      simp only [write_state, List.length_drop, hpending, List.length_cons, largestRoom_eq]
      constructor
      · intro h hcount
        have := h (List.cons_ne_nil _ _) 0 ⟨0, 1388⟩ (fun _ => 0) rfl
        dsimp only at this
        omega
      · intro hcount _ packetId b mem hsize
        rw [hsize]
        omega
    rw [htakes, ne_eq, hzero]
    omega

end ReliableStream

namespace UnreliableStream

/-- A write into the largest packet takes a message, if there is one. -/
def Unblocked (s : UnreliableStream) : Prop :=
  s.pendingMessages ≠ [] → ∀ (b : Span) (mem : Memory), b.size = largestRoom →
    (s.write b mem).val.1.pendingMessages.length < s.pendingMessages.length

theorem unblocked_iff (s : UnreliableStream) :
    s.Unblocked ↔ ∀ first ∈ s.pendingMessages.head?, first.size ≤ 1384 := by
  have hzero := s.fitCount_eq_zero_iff largestRoom
  rw [largestRoom_eq] at hzero
  cases hpending : s.pendingMessages with
  | nil => exact iff_of_true (fun hne => absurd hpending hne) (by simp)
  | cons first rest =>
    rw [hpending] at hzero
    simp only [List.head?_cons, Option.mem_some_iff, forall_eq'] at hzero ⊢
    have htakes : s.Unblocked ↔ s.fitCount 1388 ≠ 0 := by
      rw [Unblocked]
      simp only [val_write, hpending, List.length_cons, largestRoom_eq]
      constructor
      · intro h hcount
        have := h (List.cons_ne_nil _ _) ⟨0, 1388⟩ (fun _ => 0) rfl
        rw [if_pos hcount, hpending] at this
        exact Nat.lt_irrefl _ this
      · intro hcount _ b mem hsize
        rw [hsize, if_neg hcount]
        exact Nat.succ_pos _
    rw [htakes, ne_eq, hzero]
    omega

end UnreliableStream

/-! ### Runs -/

/-- The message that is accepted, if any, has at most `limit` bytes. -/
def BufferState.SendsSmall (limit : ℕ) (s : BufferState) : BufferCall → Prop
  | .send fn => (s.stream.payloadOf fn).length ≤ limit
  | _ => True

def UnreliableState.SendsSmall (limit : ℕ) (s : UnreliableState) : UnreliableCall → Prop
  | .send fn => (s.stream.payloadOf fn).length ≤ limit
  | _ => True

variable {capacity limit : ℕ}

theorem BufferState.sent_small {s : BufferState}
    (h : (buffering capacity).Reachable (BufferState.SendsSmall limit) s) :
    ∀ payload ∈ s.sent, payload.length ≤ limit := by
  refine h.invariant (P := fun s => ∀ payload ∈ s.sent, payload.length ≤ limit)
    (fun s hs => ?_) (fun s call _ ih _ hsmall => ?_)
  · cases hs
    simp
  · cases call with
    | send fn =>
      show ∀ payload ∈ s.stream.sentAfter fn s.sent, payload.length ≤ limit
      rw [ReliableStream.sentAfter]
      split
      · exact ih
      · intro payload hpayload
        rcases List.mem_append.mp hpayload with hold | hnew
        · exact ih payload hold
        · rw [List.mem_singleton.mp hnew]
          exact hsmall
    | write packetId b mem => exact ih
    | onPacketDeliveryStatus packetId status => exact ih

theorem UnreliableState.waiting_small {s : UnreliableState}
    (h : (unreliable capacity).Reachable (UnreliableState.SendsSmall limit) s) :
    ∀ payload ∈ s.waiting, payload.length ≤ limit := by
  refine h.invariant (P := fun s => ∀ payload ∈ s.waiting, payload.length ≤ limit)
    (fun s hs => ?_) (fun s call _ ih _ hsmall => ?_)
  · cases hs
    simp
  · cases call with
    | send fn =>
      show ∀ payload ∈ s.stream.acceptedAfter fn s.waiting, payload.length ≤ limit
      rw [UnreliableStream.acceptedAfter]
      split
      · exact ih
      · intro payload hpayload
        rcases List.mem_append.mp hpayload with hold | hnew
        · exact ih payload hold
        · rw [List.mem_singleton.mp hnew]
          exact hsmall
    | write b mem =>
      show ∀ payload ∈ (if (s.stream.write b mem).val.2.2 = 0 then s.waiting else []),
        payload.length ≤ limit
      split
      · exact ih
      · simp

/-- **A stream is blocked** iff its first pending message is too large for a packet, and
so a stream that is only given messages of at most 1380 bytes, or 1384 bytes if it is
unreliable, is blocked in no state of its run. -/
theorem unblocked_iff_small (s : BufferState) (u : UnreliableState) :
    (((buffering 3200).Reachable System.anyAction s → (s.stream.Unblocked ↔
        ∀ first ∈ s.stream.pendingMessages.head?,
          (s.stream.buffer.bufferSpan first.range).length ≤ 1380)) ∧
      ((buffering 3200).Reachable (BufferState.SendsSmall 1380) s → s.stream.Unblocked)) ∧
    ((unreliable 3200).Reachable System.anyAction u → (u.stream.Unblocked ↔
        ∀ first ∈ u.stream.pendingMessages.head?, first.size ≤ 1384)) ∧
      ((unreliable 3200).Reachable (UnreliableState.SendsSmall 1384) u →
        u.stream.Unblocked) := by
  refine ⟨⟨fun _ => s.stream.unblocked_iff, fun h => ?_⟩,
    fun _ => u.stream.unblocked_iff, fun h => ?_⟩
  · rw [s.stream.unblocked_iff]
    intro first hfirst
    obtain ⟨⟨k, hk⟩, -⟩ := BufferState.sound_of_reachable (h.mono fun _ _ _ => trivial)
    exact BufferState.sent_small h _ (hk.bufferSpan_mem (List.mem_of_mem_head? hfirst))
  · rw [u.stream.unblocked_iff]
    intro first hfirst
    obtain ⟨-, hpayloads⟩ := UnreliableState.payloads_eq (h.mono fun _ _ _ => trivial)
    have hmem : UnreliableStream.payloadAt u.stream.buffer first ∈ u.waiting := by
      rw [← hpayloads]
      exact List.mem_map_of_mem (List.mem_of_mem_head? hfirst)
    have hsmall := UnreliableState.waiting_small h _ hmem
    rwa [UnreliableStream.payloadAt, Memory.length_slice] at hsmall

/-- A message of 1380 bytes, the largest one that is safe. -/
theorem unblocked_largest_message :
    let s := (buffering 3200).runFrom { stream := ReliableStream.ofCapacity 3200 }
      [.send (.ofBytes (List.replicate 1380 0))]
    s.stream.pendingMessages = [⟨⟨0, 1380⟩, 0⟩] ∧ s.stream.Unblocked := by
  intro s
  have hpending : s.stream.pendingMessages = [⟨⟨0, 1380⟩, 0⟩] := by decide +kernel
  refine ⟨hpending, ((unblocked_iff_small s { stream := UnreliableStream.ofCapacity 3200 }).1.1
    (System.runFrom_reachable (.init rfl) ⟨trivial, trivial, trivial⟩)).mpr
      fun first hfirst => ?_⟩
  rw [hpending] at hfirst
  cases hfirst
  rw [FlipBuffer.bufferSpan, Memory.length_slice]
  decide

/-- One byte more, and the stream is blocked, with a small message behind the large one; and
the same for an unreliable stream. -/
theorem blocked_by_accepted_message :
    let s := (buffering 3200).runFrom { stream := ReliableStream.ofCapacity 3200 }
      [.send (.ofBytes (List.replicate 1381 0)), .send (.ofBytes [7])]
    let u := (unreliable 3200).runFrom { stream := UnreliableStream.ofCapacity 3200 }
      [.send (.ofBytes (List.replicate 1385 0)), .send (.ofBytes [7])]
    s.stream.pendingMessages.length = 2 ∧ ¬ s.stream.Unblocked ∧
      u.stream.pendingMessages.length = 2 ∧ ¬ u.stream.Unblocked := by
  intro s u
  have hpending : s.stream.pendingMessages = [⟨⟨0, 1381⟩, 0⟩, ⟨⟨1381, 1382⟩, 1⟩] := by
    decide +kernel
  have hpending' : u.stream.pendingMessages = [⟨0, 1385⟩, ⟨1385, 1⟩] := by decide +kernel
  rw [s.stream.unblocked_iff, u.stream.unblocked_iff, hpending, hpending']
  refine ⟨rfl, fun h => ?_, rfl, fun h => ?_⟩
  · have hle := h ⟨⟨0, 1381⟩, 0⟩ rfl
    rw [FlipBuffer.bufferSpan, Memory.length_slice] at hle
    revert hle
    decide
  · have hle := h ⟨0, 1385⟩ rfl
    revert hle
    decide

end Neptun
