/-
Runs of a single `PacketDeliveryManager`.

The calls come in any order, with any clock values and with arbitrary headers,
also forged ones.  `DeliveryState` keeps the statuses returned so far next to
the manager.

* `statuses_then_inFlight` — every packet sent is resolved exactly once and in
  order: the ids of the statuses returned so far, followed by the ids in flight,
  are `0, 1, 2, …` up to the last id sent.
-/
import Neptun.PacketDeliveryManager
import Neptun.Library.System

namespace Neptun

/-- A call of a `PacketDeliveryManager`. -/
inductive DeliveryCall
  | write (buffer : Span) (mem : Memory) (now : ℤ)
  | dropOldPackets (now : ℤ)
  | processRead (header : PacketHeader)

/-- A manager, the statuses it has returned and the number of packets it has
written. -/
structure DeliveryState where
  manager : PacketDeliveryManager
  statuses : DeliveryStatuses := []
  written : ℕ := 0

def DeliveryState.next (s : DeliveryState) : DeliveryCall → DeliveryState
  | .write buffer mem now =>
    { s with manager := (s.manager.write buffer mem now).val.1, written := s.written + 1 }
  | .dropOldPackets now =>
    let result := s.manager.dropOldPackets now
    { s with manager := result.1, statuses := s.statuses ++ result.2 }
  | .processRead header =>
    let result := (s.manager.processRead header).val
    { s with manager := result.1, statuses := s.statuses ++ result.2.2.1 }

/-- The runs of a manager from its construction on. -/
def delivery (nextExpectedPacketId : PacketId) (packetTimeout : ℤ) :
    System DeliveryState DeliveryCall where
  init s := s = { manager := {
    packetTimeout := packetTimeout
    nextExpectedPacketId := nextExpectedPacketId } }
  enabled _ _ := True
  next := DeliveryState.next

/-- The statuses returned so far and the packets in flight are the packets
written so far. -/
def DeliveryState.Resolved (s : DeliveryState) : Prop :=
  s.statuses.map Prod.fst ++ s.manager.ids = (List.range s.written).map UInt32.ofNat
    ∧ s.manager.nextOutgoingPacketId = UInt32.ofNat s.written

theorem DeliveryState.Resolved.next {s : DeliveryState} (h : s.Resolved) (call : DeliveryCall) :
    (s.next call).Resolved := by
  obtain ⟨hids, hnext⟩ := h
  cases call with
  | write buffer mem now =>
    -- the new packet is the last in flight, under the next number
    have hframe := PacketDeliveryManager.nextHeader_frame s.manager now
    constructor
    · simp only [DeliveryState.next, PacketDeliveryManager.write_state]
      rw [hframe]
      simp only [PacketDeliveryManager.ids, List.map_append, List.map_cons, List.map_nil]
      rw [← List.append_assoc, List.range_succ, List.map_append, ← hids, hnext]
      rfl
    · simp only [DeliveryState.next, PacketDeliveryManager.write_state]
      rw [hframe, hnext]
      simp
  | dropOldPackets now =>
    refine ⟨?_, hnext⟩
    -- what is reported moves from the front of the flight to the end of the statuses
    simp only [DeliveryState.next, List.map_append, List.append_assoc]
    rw [PacketDeliveryManager.dropOldPackets_ids, hids]
  | processRead header =>
    constructor
    · simp only [DeliveryState.next, List.map_append, List.append_assoc]
      rw [PacketDeliveryManager.processRead_ids, hids]
    · exact (PacketDeliveryManager.processRead_nextOutgoing _ _).trans hnext

/-- **Every sent packet is resolved exactly once and in order.** -/
theorem statuses_then_inFlight {nextExpectedPacketId : PacketId} {packetTimeout : ℤ}
    {s : DeliveryState}
    (h : (delivery nextExpectedPacketId packetTimeout).Reachable System.anyAction s)
    (hcount : s.written < 2 ^ 32) :
    s.statuses.map Prod.fst ++ s.manager.ids
      = (List.range s.manager.nextOutgoingPacketId.toNat).map UInt32.ofNat := by
  have hinv : s.Resolved := by
    refine h.invariant (fun s hs => ?_) (fun s call _ ih _ _ => ih.next call)
    cases hs
    exact ⟨rfl, rfl⟩
  obtain ⟨hids, hnext⟩ := hinv
  rw [hids, hnext, UInt32.toNat_ofNat', Nat.mod_eq_of_lt hcount]

/-- Two packets are written, and a header with a fresh id acknowledges the
second one. -/
theorem statuses_then_inFlight_second_acked :
    let s := (delivery 0 5000).runFrom
      { manager := { packetTimeout := 5000, nextExpectedPacketId := 0 } }
      [.write ⟨0, 1400⟩ (fun _ => 0) 0, .write ⟨0, 1400⟩ (fun _ => 0) 1, .processRead ⟨7, 0, 2⟩]
    s.statuses = [(0, .drop), (1, .ack)] ∧
      s.statuses.map Prod.fst ++ s.manager.ids
        = (List.range s.manager.nextOutgoingPacketId.toNat).map UInt32.ofNat := by
  refine ⟨by decide +kernel, ?_⟩
  refine @statuses_then_inFlight 0 5000 _ (System.runFrom_reachable (.init rfl) ?_) ?_
  · exact ⟨trivial, trivial, trivial, trivial, trivial, trivial, trivial⟩
  · decide +kernel

end Neptun
