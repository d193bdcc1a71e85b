/-
The acknowledgements of a single `PacketDeliveryManager`.

A manager takes its pending acknowledgements from the front and puts them into
the mask of the next header, as far as they fit behind the first of them.  As
the accepted ids increase, nothing is lost, invented or repeated by this; the
one id that breaks the order is the largest one, behind which the next expected
id wraps around to zero.

* `acks_encoded` — the ids of all headers written so far, followed by the
  pending ones, are the accepted ids in order, if the largest id never comes;
* `no_replay_iff` — no id is accepted twice, the pending ids stay in order and
  the assertion of `write` holds, all along a run, exactly if the largest id
  never comes.
-/
import Neptun.AckSoundness

namespace Neptun

/-- The positions of the bits that are set, in increasing order. -/
def setBits (mask : UInt32) : List ℕ := (List.range 32).filter fun i => mask.toNat.testBit i

/-- The ids that a header acknowledges, in increasing order. -/
def PacketHeader.ackedIds (h : PacketHeader) : List ℕ :=
  (setBits h.ackBitmask).map fun i => h.ackSequenceNumber.toNat + i

namespace PacketDeliveryManager

/-! ### Bits in order -/

theorem setBits_zero : setBits 0 = [] := by
  simp [setBits]

theorem sorted_setBits (mask : UInt32) : (setBits mask).Pairwise (· < ·) :=
  List.pairwise_lt_range.filter _

/-- A bit above all others comes last. -/
theorem setBits_or_bit {d mask : UInt32} (hd : d.toNat < 32)
    (hmask : ∀ i ∈ setBits mask, i < d.toNat) :
    setBits (mask ||| ((1 : UInt32) <<< d)) = setBits mask ++ [d.toNat] := by
  have hsorted : (setBits mask ++ [d.toNat]).Pairwise (· < ·) := by
    refine List.pairwise_append.mpr ⟨sorted_setBits mask, List.pairwise_singleton _ _, ?_⟩
    intro i hi j hj
    rw [List.mem_singleton.mp hj]
    exact hmask i hi
  refine (sorted_setBits _).eq_of_mem_iff hsorted fun i => ?_
  simp only [setBits, List.mem_filter, List.mem_range, List.mem_append, List.mem_singleton,
    testBit_or_bit hd]
  constructor
  · rintro ⟨hi, hbit | rfl⟩
    · exact Or.inl ⟨hi, hbit⟩
    · exact Or.inr rfl
  · rintro (⟨hi, hbit⟩ | rfl)
    · exact ⟨hi, Or.inl hbit⟩
    · exact ⟨hd, Or.inr rfl⟩

/-! ### Writing acknowledgements -/

/-- Increasing ids from the base on are taken into the mask from the front, and
the assertion holds for each of them. -/
theorem takeAcks_sorted {base : UInt32} (mask : UInt32) {acks : List PacketId}
    (hsorted : SortedIds UInt32.toNat acks) (hbase : ∀ ack ∈ acks, base ≤ ack)
    (hmask : ∀ i ∈ setBits mask, ∀ ack ∈ acks, i < ack.toNat - base.toNat) :
    (setBits (takeAcks base mask acks).val.1).map (fun i => base.toNat + i)
        ++ (takeAcks base mask acks).val.2.map UInt32.toNat
      = (setBits mask).map (fun i => base.toNat + i) ++ acks.map UInt32.toNat ∧
    (takeAcks base mask acks).Avoids (· = .assertion .pendingAck) := by
  induction acks generalizing mask with
  | nil => exact ⟨rfl, Checked.avoids_pure _⟩
  | cons ack acks ih =>
    obtain ⟨hfirst, hrest⟩ := List.pairwise_cons.mp hsorted
    have hle : base ≤ ack := hbase ack List.mem_cons_self
    have hsub : (ack - base).toNat = ack.toNat - base.toNat := UInt32.toNat_sub_of_le _ _ hle
    have hleNat : base.toNat ≤ ack.toNat := UInt32.le_iff_toNat_le.mp hle
    simp only [takeAcks, Checked.val_bind, Checked.val_ite, Checked.val_pure,
      Checked.avoids_bind, Checked.avoids_check, Checked.avoids_ite]
    split
    · next hge =>
      refine ⟨rfl, fun _ => hle, fun _ => Checked.avoids_pure _, fun hlt => absurd hge hlt⟩
    · next hge =>
      have hlt : (ack - base).toNat < 32 := by
        rw [ge_iff_le, UInt32.le_iff_toNat_le] at hge
        simpa using hge
      -- the new bit is above all bits that are set, so it is the last one
      have hbits : setBits (mask ||| ((1 : UInt32) <<< (ack - base)))
          = setBits mask ++ [(ack - base).toNat] := by
        refine setBits_or_bit hlt fun i hi => ?_
        rw [hsub]
        exact hmask i hi ack List.mem_cons_self
      have hmask' : ∀ i ∈ setBits (mask ||| ((1 : UInt32) <<< (ack - base))),
          ∀ ack' ∈ acks, i < ack'.toNat - base.toNat := by
        intro i hi ack' hack'
        rw [hbits, List.mem_append, List.mem_singleton] at hi
        rcases hi with hi | rfl
        · exact hmask i hi ack' (List.mem_cons_of_mem _ hack')
        · have := hfirst ack' hack'
          omega
      obtain ⟨heq, havoids⟩ := ih _ hrest
        (fun ack' hack' => hbase ack' (List.mem_cons_of_mem _ hack')) hmask'
      refine ⟨?_, fun _ => hle, fun h => absurd h hge, fun _ => havoids⟩
      rw [heq, hbits, List.map_append, List.append_assoc, hsub, List.map_singleton,
        List.map_cons, Nat.add_sub_cancel' hleNat]
      rfl

/-- The next header takes acknowledgements from the front of the pending ones. -/
theorem nextHeader_sorted {m : PacketDeliveryManager}
    (h : SortedIds UInt32.toNat m.pendingAcks) (now : ℤ) :
    (m.nextHeader now).val.2.ackedIds ++ (m.nextHeader now).val.1.pendingAcks.map UInt32.toNat
      = m.pendingAcks.map UInt32.toNat ∧
    (m.nextHeader now).Avoids (· = .assertion .pendingAck) := by
  unfold nextHeader
  dsimp only
  split
  · next hpending =>
    refine ⟨?_, Checked.avoids_pure _⟩
    show PacketHeader.ackedIds ⟨_, 0, 0⟩ ++ m.pendingAcks.map UInt32.toNat = _
    rw [PacketHeader.ackedIds, setBits_zero]
    rfl
  · next ack acks hpending =>
    rw [hpending] at h ⊢
    -- the base is the first pending id, and the others are larger
    have hbase : ∀ ack' ∈ ack :: acks, ack ≤ ack' := by
      intro ack' hack'
      rw [UInt32.le_iff_toNat_le]
      rcases List.mem_cons.mp hack' with rfl | hack'
      · exact Nat.le_refl _
      · exact Nat.le_of_lt ((List.pairwise_cons.mp h).1 ack' hack')
    obtain ⟨heq, havoids⟩ := takeAcks_sorted 0 h hbase (by simp [setBits_zero])
    rw [setBits_zero] at heq
    exact ⟨heq, Checked.avoids_bind.mpr ⟨havoids, Checked.avoids_pure _⟩⟩

/-- The pending acknowledgements go out from the front. -/
theorem nextHeader_pendingAcks_sorted {m : PacketDeliveryManager}
    (h : SortedIds UInt32.toNat m.pendingAcks) (now : ℤ) :
    SortedIds UInt32.toNat (m.nextHeader now).val.1.pendingAcks := by
  have hsorted : (m.pendingAcks.map UInt32.toNat).Pairwise (· < ·) := List.pairwise_map.mpr h
  rw [← (nextHeader_sorted h now).1] at hsorted
  exact List.pairwise_map.mp (List.pairwise_append.mp hsorted).2.1

end PacketDeliveryManager

open PacketDeliveryManager

/-! ### Runs -/

/-- A manager, the headers it has written, the ids it has accepted and the checks
it has failed. -/
structure AckState where
  manager : PacketDeliveryManager
  headers : List PacketHeader := []
  accepted : List PacketId := []
  faults : List Fault := []

namespace AckState

/-- A header is taken from the buffer into which it was written. -/
def next (s : AckState) : DeliveryCall → AckState
  | .write buffer mem now =>
    let result := s.manager.write buffer mem now
    { s with
      manager := result.val.1
      headers := s.headers ++ [(PacketHeader.read buffer result.val.2.1).val]
      faults := s.faults ++ result.faults }
  | .dropOldPackets now => { s with manager := (s.manager.dropOldPackets now).1 }
  | .processRead header =>
    let result := s.manager.processRead header
    { s with
      manager := result.val.1
      accepted := s.manager.acceptedAfter s.accepted header
      faults := s.faults ++ result.faults }

def init (nextExpectedPacketId : PacketId) (packetTimeout : ℤ) : AckState where
  manager := {
    packetTimeout := packetTimeout
    nextExpectedPacketId := nextExpectedPacketId }

/-- The call does not bring the packet with the largest id. -/
def IdFits (_ : AckState) : DeliveryCall → Prop
  | .write _ _ _ => True
  | .dropOldPackets _ => True
  | .processRead header => header.id.toNat < 2 ^ 32 - 1

/-- The ids of the headers and the pending ones are the accepted ids, which
increase up to the next expected id. -/
structure Encoded (s : AckState) : Prop where
  sorted : SortedIds UInt32.toNat s.accepted
  below : ∀ p ∈ s.accepted, p.toNat < s.manager.nextExpectedPacketId.toNat
  encoded : s.headers.flatMap PacketHeader.ackedIds ++ s.manager.pendingAcks.map UInt32.toNat
    = s.accepted.map UInt32.toNat
  faults : Fault.assertion .pendingAck ∉ s.faults

variable {s : AckState}

namespace Encoded

/-- The pending ids are the last accepted ones. -/
theorem sorted_pending (h : s.Encoded) : SortedIds UInt32.toNat s.manager.pendingAcks := by
  have hsorted : (s.accepted.map UInt32.toNat).Pairwise (· < ·) := List.pairwise_map.mpr h.sorted
  rw [← h.encoded] at hsorted
  exact List.pairwise_map.mp (List.pairwise_append.mp hsorted).2.1

theorem pending_below (h : s.Encoded) :
    ∀ p ∈ s.manager.pendingAcks, p < s.manager.nextExpectedPacketId := by
  intro p hp
  have hmem : p.toNat ∈ s.accepted.map UInt32.toNat := by
    rw [← h.encoded]
    exact List.mem_append_right _ (List.mem_map_of_mem hp)
  obtain ⟨q, hq, heq⟩ := List.mem_map.mp hmem
  rw [UInt32.lt_iff_toNat_lt, ← heq]
  exact h.below q hq

theorem write (h : s.Encoded) (buffer : Span) (mem : Memory) (now : ℤ) :
    (s.next (.write buffer mem now)).Encoded := by
  obtain ⟨hencoded, havoids⟩ := nextHeader_sorted h.sorted_pending now
  have hexp := congrArg nextExpectedPacketId (nextHeader_frame s.manager now)
  -- the header in the buffer is the one that was chosen
  have hheader : (PacketHeader.read buffer (s.manager.write buffer mem now).val.2.1).val
      = (s.manager.nextHeader now).val.2 := by
    refine PacketHeader.val_read ?_
    have hslice := Memory.slice_storeList_self mem buffer.off
      (s.manager.nextHeader now).val.2.encode
    rw [PacketHeader.length_encode] at hslice
    rw [val_write]
    exact hslice
  constructor
  · exact h.sorted
  · intro p hp
    show p.toNat < (s.manager.write buffer mem now).val.1.nextExpectedPacketId.toNat
    rw [write_state, hexp]
    exact h.below p hp
  · show (s.headers ++ [(PacketHeader.read buffer (s.manager.write buffer mem now).val.2.1).val]
      ).flatMap PacketHeader.ackedIds ++ _ = _
    rw [hheader, List.flatMap_append, List.flatMap_singleton, List.append_assoc, next,
      write_state, hencoded]
    exact h.encoded
  · show Fault.assertion .pendingAck ∉ s.faults ++ (s.manager.write buffer mem now).faults
    rw [List.mem_append, not_or]
    refine ⟨h.faults, fun hfault => ?_⟩
    exact avoids_write havoids (by simp) mem _ hfault rfl

theorem processRead (h : s.Encoded) {header : PacketHeader}
    (hid : header.id.toNat < 2 ^ 32 - 1) : (s.next (.processRead header)).Encoded := by
  have hfaults : Fault.assertion .pendingAck ∉ (s.manager.processRead header).faults := by
    intro hfault
    exact @avoids_processRead (· = .assertion .pendingAck) (by simp) (by simp) s.manager
      header _ hfault rfl
  obtain ⟨hsorted, hbelow⟩ :=
    acceptedAfter_sorted h.sorted h.below (by omega : header.id.toNat + 1 < 2 ^ 32)
  refine ⟨hsorted, hbelow, ?_, ?_⟩
  · show s.headers.flatMap PacketHeader.ackedIds
        ++ (s.manager.processRead header).val.1.pendingAcks.map UInt32.toNat
      = (s.manager.acceptedAfter s.accepted header).map UInt32.toNat
    -- the new id, if there is one, is the last of both lists
    rcases acceptedAfter_cases s.manager s.accepted header with
      ⟨haccepted, hpending⟩ | ⟨haccepted, hpending⟩
    · rw [haccepted, hpending]
      exact h.encoded
    · rw [haccepted, hpending, List.map_append, List.map_append, ← List.append_assoc, h.encoded]
  · exact fun hfault => (List.mem_append.mp hfault).elim h.faults hfaults

theorem init (nextExpectedPacketId : PacketId) (packetTimeout : ℤ) :
    (AckState.init nextExpectedPacketId packetTimeout).Encoded where
  sorted := List.Pairwise.nil
  below := by simp [AckState.init]
  encoded := rfl
  faults := by simp [AckState.init]

theorem next (h : s.Encoded) {call : DeliveryCall} (hok : s.IdFits call) :
    (s.next call).Encoded := by
  cases call with
  | write buffer mem now => exact h.write buffer mem now
  | dropOldPackets now => exact ⟨h.sorted, h.below, h.encoded, h.faults⟩
  | processRead header => exact h.processRead hok

end Encoded

end AckState

/-- The runs of a manager from its construction on. -/
def acknowledging (nextExpectedPacketId : PacketId) (packetTimeout : ℤ) :
    System AckState DeliveryCall where
  init s := s = AckState.init nextExpectedPacketId packetTimeout
  enabled _ _ := True
  next := AckState.next

/-- **Acknowledgements are neither lost, invented nor repeated.** -/
theorem acks_encoded {nextExpectedPacketId : PacketId} {packetTimeout : ℤ} {s : AckState}
    (h : (acknowledging nextExpectedPacketId packetTimeout).Reachable AckState.IdFits s) :
    s.headers.flatMap PacketHeader.ackedIds ++ s.manager.pendingAcks.map UInt32.toNat
      = s.accepted.map UInt32.toNat := by
  have hinv : s.Encoded := by
    refine h.invariant (fun s hs => ?_) (fun s call _ ih _ hok => ih.next hok)
    rw [hs]
    exact .init _ _
  exact hinv.encoded

/-- Three packets with a gap between them: the mask of the first header has room
for two of them. -/
theorem acks_encoded_gap :
    let s := (acknowledging 0 5000).runFrom (AckState.init 0 5000)
      [.processRead ⟨3, 0, 0⟩, .processRead ⟨34, 0, 0⟩, .processRead ⟨35, 0, 0⟩,
        .write ⟨0, 1400⟩ (fun _ => 0) 0]
    s.headers.map PacketHeader.ackedIds = [[3, 34]] ∧ s.manager.pendingAcks = [35] ∧
      s.headers.flatMap PacketHeader.ackedIds ++ s.manager.pendingAcks.map UInt32.toNat
        = s.accepted.map UInt32.toNat := by
  refine ⟨by decide +kernel, by decide +kernel, ?_⟩
  refine @acks_encoded 0 5000 _ (System.runFrom_reachable (.init rfl) ?_)
  have h3 : (3 : PacketId).toNat < 2 ^ 32 - 1 := by
    show 3 < 4294967295
    omega
  have h34 : (34 : PacketId).toNat < 2 ^ 32 - 1 := by
    show 34 < 4294967295
    omega
  have h35 : (35 : PacketId).toNat < 2 ^ 32 - 1 := by
    show 35 < 4294967295
    omega
  exact ⟨trivial, h3, trivial, h34, trivial, h35, trivial, trivial, trivial⟩

/-! ### Arbitrary headers -/

/-- No id is accepted twice, the pending ids increase and are below the next
expected one, and the assertion of `write` has not failed. -/
structure AckState.NoReplay (s : AckState) : Prop where
  accepted : s.accepted.Nodup
  sorted : SortedIds UInt32.toNat s.manager.pendingAcks
  below : ∀ p ∈ s.manager.pendingAcks, p < s.manager.nextExpectedPacketId
  faults : Fault.assertion .pendingAck ∉ s.faults

theorem AckState.Encoded.noReplay {s : AckState} (h : s.Encoded) : s.NoReplay where
  accepted := h.sorted.imp fun hlt heq => by
    rw [heq] at hlt
    exact Nat.lt_irrefl _ hlt
  sorted := h.sorted_pending
  below := h.pending_below
  faults := h.faults

/-- The largest id is always accepted, and nothing is below the id expected
behind it. -/
theorem AckState.idFits_of_noReplay {s : AckState} {call : DeliveryCall}
    (h : (s.next call).NoReplay) : s.IdFits call := by
  cases call with
  | write buffer mem now => trivial
  | dropOldPackets now => trivial
  | processRead header =>
    show header.id.toNat < 2 ^ 32 - 1
    by_contra hmax
    have hid : header.id.toNat = 2 ^ 32 - 1 := by
      have := header.id.toNat_lt
      omega
    have hbelow : ∀ p ∈ (s.manager.processRead header).val.1.pendingAcks,
        p < (s.manager.processRead header).val.1.nextExpectedPacketId := h.below
    rcases processRead_cases s.manager header with ⟨-, hlt, -, -⟩ | ⟨-, -, hpending, hexp⟩
    · have := s.manager.nextExpectedPacketId.toNat_lt
      rw [UInt32.lt_iff_toNat_lt] at hlt
      omega
    · have hlt := hbelow header.id (by rw [hpending]; simp)
      rw [hexp, UInt32.lt_iff_toNat_lt, UInt32.toNat_add, hid] at hlt
      exact absurd hlt (by decide)

/-- **No replay.**  All along a run the duplicate filter works and the assertion
holds iff no header with the largest id is read. -/
theorem no_replay_iff (nextExpectedPacketId : PacketId) (packetTimeout : ℤ)
    (calls : List DeliveryCall) :
    (acknowledging nextExpectedPacketId packetTimeout).Along AckState.NoReplay
        (AckState.init nextExpectedPacketId packetTimeout) calls ↔
      (acknowledging nextExpectedPacketId packetTimeout).RunOk AckState.IdFits
        (AckState.init nextExpectedPacketId packetTimeout) calls := by
  refine System.along_iff_runOk_of_invariant AckState.Encoded (fun s hs => hs.noReplay)
    (fun s call hs _ hok => hs.next hok) (fun s call _ _ hs => AckState.idFits_of_noReplay hs)
    (.init _ _) ?_
  generalize AckState.init nextExpectedPacketId packetTimeout = s
  induction calls generalizing s with
  | nil => trivial
  | cons call calls ih => exact ⟨trivial, trivial, ih _⟩

/-- A header with the largest id lets an old packet in for the second time, and
the second write behind it fails its assertion. -/
theorem replay_after_largest_id :
    let calls : List DeliveryCall := [.processRead ⟨7, 0, 0⟩, .processRead ⟨0xFFFFFFFF, 0, 0⟩,
      .processRead ⟨7, 0, 0⟩, .write ⟨0, 1400⟩ (fun _ => 0) 0, .write ⟨0, 1400⟩ (fun _ => 0) 1]
    ¬ (acknowledging 0 5000).Along AckState.NoReplay (AckState.init 0 5000) calls ∧
      ((acknowledging 0 5000).runFrom (AckState.init 0 5000) calls).accepted
        = [7, 0xFFFFFFFF, 7] ∧
      Fault.assertion .pendingAck
        ∈ ((acknowledging 0 5000).runFrom (AckState.init 0 5000) calls).faults := by
  refine ⟨?_, by decide +kernel, by decide +kernel⟩
  rintro ⟨-, -, -, hreplay, -⟩
  exact absurd hreplay.accepted (by decide +kernel)

end Neptun
