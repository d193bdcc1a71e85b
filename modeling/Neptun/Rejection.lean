/-
A request that is refused.

A manager that has read a `LetsConnect` with a packet size below 100 has failed,
and its next handshake message is a rejection, which has no body.  But the
rejection goes out under the message type of `LetsConnect`: the peer takes the
bytes behind it for limits, and goes on parsing six bytes behind its end.

* `handshakePacket_failed` — the bytes of a packet from a failed manager;
* `read_rejection` — what the peer makes of them;
* `rejection_never_arrives` — so no peer ever learns that it is rejected.
-/
import Neptun.PacketLayout

namespace Neptun

namespace ConnectionManager

variable {b : Span} {mem : Memory}

/-- The span holds a `LetsConnect` that `validate` refuses. -/
def HoldsInvalid (b : Span) (mem : Memory) : Prop :=
  2 ≤ b.size ∧ mem b.off = 0 ∧ mem (b.off + 1) = 1 ∧ mem (b.off + 2) = 0 ∧
    ¬ ValidLimit (limitAt mem (b.off + 3))

/-- A refused request changes nothing but the flag. -/
theorem read_invalid (c : ConnectionManager) (h : HoldsInvalid b mem) :
    (c.read b mem).val = ({ c with isFail := true }, .ok 9) := by
  obtain ⟨hsize, hzero, hone, htype, hlimit⟩ := h
  have hsegment : ¬ (b.size < 2 ∨ mem b.off ≠ 0) := by
    rw [not_or, not_not]
    exact ⟨by omega, hzero⟩
  rw [val_read, if_neg hsegment, if_neg (not_not.mpr hone), if_pos htype, received, if_neg hlimit]

/-- The packet of a failed manager: three bytes, if it has a message to send. -/
theorem handshakePacket_failed {c : ConnectionManager} (hfail : c.isFail = true) (id : PacketId)
    (b : Span) (mem : Memory) (later : List UInt8) :
    c.handshakePacket id b mem later
      = (if 0 < c.numLetsConnectToSend then [0, 1, 0] else []) ++ later := by
  obtain ⟨hcount, hbytes⟩ := c.write_encodeHandshake id b mem
  have hencode : c.encodeHandshake (mem (b.off + 5))
      = if 0 < c.numLetsConnectToSend then [0, 1, 0] else [] := by
    rw [encodeHandshake, if_pos hfail]
  rw [hencode] at hcount hbytes
  rw [handshakePacket, hcount, Memory.slice_add,
    Memory.slice_storeList_of_disjoint (Or.inl (Nat.le_refl _)), hbytes,
    Memory.slice_storeList_self]

/-- The limits that the peer reads from a rejection are the bytes behind it, and it
skips nine bytes. -/
theorem read_rejection (r : ConnectionManager) (hsize : 3 ≤ b.size)
    (hmem : mem.slice b.off 3 = [0, 1, 0]) :
    (r.read b mem).val = (r.received (limitAt mem (b.off + 3)), .ok 9) := by
  simp only [Memory.slice, List.cons.injEq, and_true, Nat.add_assoc, Nat.reduceAdd] at hmem
  obtain ⟨hzero, hone, htype⟩ := hmem
  have hsegment : ¬ (b.size < 2 ∨ mem b.off ≠ 0) := by
    rw [not_or, not_not]
    exact ⟨by omega, hzero⟩
  rw [val_read, if_neg hsegment, if_neg (not_not.mpr hone), if_pos htype]

/-- A handshake segment of `count` bytes tells its reader that it is rejected, and
nothing else. -/
def RejectionArrives (count : ℕ) (reader : ConnectionManager) (b : Span) (mem : Memory) : Prop :=
  0 < count ∧ (reader.read b mem).val.2 = .error .letsConnectRejected ∧
    (reader.peerLimit = none → (reader.read b mem).val.1.peerLimit = none)

/-- The packet of a failed manager is no rejection for its reader. -/
theorem not_rejectionArrives {c : ConnectionManager} (hfail : c.isFail = true)
    (reader : ConnectionManager) (id : PacketId) (b : Span) (mem : Memory) {later : List UInt8}
    {packet : Span} {memPacket : Memory} (hpacket : memPacket.slice packet.off packet.size
      = c.handshakePacket id b mem later) :
    ¬ RejectionArrives (c.write id b mem).val.2.2 reader packet memPacket := by
  rintro ⟨hcount, hrejected, -⟩
  rw [handshakePacket_failed hfail] at hpacket
  by_cases hnum : 0 < c.numLetsConnectToSend
  · -- the peer reads a `LetsConnect`
    rw [if_pos hnum] at hpacket
    have hlength := congrArg List.length hpacket
    rw [Memory.length_slice] at hlength
    rw [hlength] at hpacket
    have hsize : 3 ≤ packet.size := by
      rw [hlength, List.length_append]
      exact Nat.le_add_right _ _
    rw [reader.read_rejection hsize (Memory.slice_eq_of_append hpacket).1] at hrejected
    cases hrejected
  · -- there is no message to send
    rw [(c.write_encodeHandshake id b mem).1, encodeHandshake, if_neg hnum] at hcount
    cases hcount

end ConnectionManager

open ConnectionManager

/-- Only a read can clear the flag again. -/
theorem isFail_next {s : HandshakeState} (h : s.manager.isFail = true) {call : HandshakeCall}
    (hcall : ∀ b mem, call ≠ .read b mem) : (s.next call).manager.isFail = true := by
  cases call with
  | connect => exact h
  | read b mem => exact absurd rfl (hcall b mem)
  | write packetId b mem =>
    show (s.manager.write packetId b mem).val.1.isFail = true
    rw [write_state]
    split <;> exact h
  | onPacketStatusDelivery packetId status =>
    show (s.manager.onPacketStatusDelivery packetId status).val.isFail = true
    rcases s.manager.status_cases packetId status with ⟨-, heq⟩ | ⟨-, -, heq⟩ | ⟨-, -, heq⟩ <;>
      rw [heq] <;> exact h

theorem isFail_runFrom (config : ConnectionManagerConfig) {s : HandshakeState}
    (h : s.manager.isFail = true) {calls : List HandshakeCall}
    (hcalls : ∀ call ∈ calls, ∀ b mem, call ≠ .read b mem) :
    ((handshake config).runFrom s calls).manager.isFail = true := by
  induction calls generalizing s with
  | nil => exact h
  | cons call calls ih =>
    obtain ⟨hcall, hrest⟩ := List.forall_mem_cons.mp hcalls
    exact ih (isFail_next h hcall) hrest

/-- **A rejection never arrives.**  After any calls, a manager reads a request with a
packet size below 100, and reads nothing more before it writes.  No peer that reads
the packet, whatever else is in it, learns that it is rejected. -/
theorem rejection_never_arrives (config : ConnectionManagerConfig) (before : List HandshakeCall)
    {request : Span} {memRequest : Memory} (hrequest : HoldsInvalid request memRequest)
    {after : List HandshakeCall} (hafter : ∀ call ∈ after, ∀ b mem, call ≠ .read b mem)
    (reader : ConnectionManager) (id : PacketId) (b : Span) (mem : Memory) {later : List UInt8}
    {packet : Span} {memPacket : Memory} :
    let failed := ((handshake config).runFrom { manager := { config := config } }
      (before ++ .read request memRequest :: after)).manager
    memPacket.slice packet.off packet.size = failed.handshakePacket id b mem later →
      ¬ RejectionArrives (failed.write id b mem).val.2.2 reader packet memPacket := by
  intro failed hpacket
  have hfail : failed.isFail = true := by
    show ((handshake config).runFrom _ (before ++ .read request memRequest :: after)).manager.isFail
      = true
    rw [System.runFrom, List.foldl_append, List.foldl_cons]
    refine isFail_runFrom config ?_ hafter
    exact congrArg (fun result => ConnectionManager.isFail result.1) (read_invalid _ hrequest)
  exact not_rejectionArrives hfail reader id b mem hpacket

/-- An initiator refuses the answer to its request, and its next packet has an unreliable
segment behind the rejection. -/
theorem rejection_never_arrives_initiator :
    let config : ConnectionManagerConfig := ⟨0, ⟨0, 1400, 0, 1400⟩⟩
    let answer := Memory.storeList (fun _ => 0) 0 [0, 1, 0, 0, 0, 0, 0, 50, 0, 50]
    let packet := Memory.storeList (fun _ => 0) 0 [0, 1, 0, 4, 1, 0, 3, 9, 9, 9]
    let failed := ((handshake config).runFrom { manager := { config := config } }
      [.connect, .read ⟨0, 10⟩ answer]).manager
    HoldsInvalid ⟨0, 10⟩ answer ∧
      ¬ RejectionArrives (failed.write 7 ⟨12, 1388⟩ fun _ => 0).val.2.2 { config := config }
        ⟨0, 10⟩ packet := by
  intro config answer packet failed
  have hanswer : HoldsInvalid ⟨0, 10⟩ answer := by
    unfold HoldsInvalid
    decide
  have hnone : ∀ call ∈ ([] : List HandshakeCall), ∀ b mem, call ≠ .read b mem := by
    simp
  exact ⟨hanswer, @rejection_never_arrives config [.connect] ⟨0, 10⟩ answer hanswer [] hnone
    { config := config } 7 ⟨12, 1388⟩ (fun _ => 0) [4, 1, 0, 3, 9, 9, 9] ⟨0, 10⟩ packet
    (by decide)⟩

/-- The peer of this initiator takes the segment for limits, and goes on behind it; and a
manager that did not ask for the connection sends nothing at all. -/
theorem rejection_read_as_limits :
    let config : ConnectionManagerConfig := ⟨0, ⟨0, 1400, 0, 1400⟩⟩
    let request := Memory.storeList (fun _ => 0) 0 [0, 1, 0, 0, 0, 0, 0, 50, 0, 50]
    let packet := Memory.storeList (fun _ => 0) 0 [0, 1, 0, 4, 1, 0, 3, 9, 9, 9]
    let initiator := ((handshake config).runFrom { manager := { config := config } }
      [.connect, .read ⟨0, 10⟩ request]).manager
    let server := ((handshake config).runFrom { manager := { config := config } }
      [.read ⟨0, 10⟩ request]).manager
    let reader : ConnectionManager := { config := config }
    initiator.handshakePacket 7 ⟨12, 1388⟩ (fun _ => 0) [4, 1, 0, 3, 9, 9, 9]
        = packet.slice 0 10 ∧
      (reader.read ⟨0, 10⟩ packet).val.2 = .ok 9 ∧
      (reader.read ⟨0, 10⟩ packet).val.1.peerLimit = some ⟨1, 2313, 4, 777⟩ ∧
      (server.write 7 ⟨12, 1388⟩ fun _ => 0).val.2.2 = 0 ∧
      ¬ RejectionArrives (initiator.write 7 ⟨12, 1388⟩ fun _ => 0).val.2.2 reader ⟨0, 10⟩
        packet := by
  intro config request packet initiator server reader
  have hread : (reader.read ⟨0, 10⟩ packet).val.2 = .ok 9 := by decide
  refine ⟨by decide, hread, by decide, by decide, fun h => ?_⟩
  rw [RejectionArrives, hread] at h
  cases h.2.1

end Neptun
