/-
What a `LetsConnect` can do after the handshake.

Redundant and delayed `LetsConnect` messages are normal, so they come in every
state of a manager.  The comments of the code say that only the first one is
processed, and that none is after an invalid one; `read` processes them all.

* `handshake_final_iff` — no `LetsConnect` after the handshake changes the limits
  of the peer or gives `write` something to send, and none after an invalid one
  connects the peer, all along a run iff every valid `LetsConnect` that is read
  after the handshake repeats the limits to the side that has called `connect`,
  and none is read after an invalid one by a manager that is not connected.
-/
import Neptun.Handshake

namespace Neptun

open ConnectionManager

/-- The span holds a `LetsConnect`, whatever limits it carries. -/
def IsLetsConnect (b : Span) (mem : Memory) : Prop :=
  2 ≤ b.size ∧ mem b.off = 0 ∧ mem (b.off + 1) = 1 ∧ mem (b.off + 2) = 0

instance (b : Span) (mem : Memory) : Decidable (IsLetsConnect b mem) :=
  inferInstanceAs (Decidable (_ ∧ _))

/-- A `LetsConnect` that was read: the manager before and after, and whether one
with invalid limits had been read before. -/
structure LetsConnectRead where
  before : ConnectionManager
  after : ConnectionManager
  invalidBefore : Bool
  deriving DecidableEq

/-- A manager and the `LetsConnect` messages it has read. -/
structure FinalState where
  manager : ConnectionManager
  invalidRead : Bool := false
  reads : List LetsConnectRead := []

def FinalState.next (s : FinalState) : HandshakeCall → FinalState
  | .connect => { s with manager := s.manager.connect }
  | .read b mem =>
    let manager := (s.manager.read b mem).val.1
    if IsLetsConnect b mem then
      { manager := manager
        invalidRead := s.invalidRead || !decide (ValidLimit (limitAt mem (b.off + 3)))
        reads := s.reads ++ [⟨s.manager, manager, s.invalidRead⟩] }
    else
      { s with manager := manager }
  | .write packetId b mem => { s with manager := (s.manager.write packetId b mem).val.1 }
  | .onPacketStatusDelivery packetId status =>
    { s with manager := (s.manager.onPacketStatusDelivery packetId status).val }

/-- The runs of a manager; `connect` is not called after the handshake. -/
def completing (config : ConnectionManagerConfig) : System FinalState HandshakeCall where
  init s := s = { manager := { config := config } }
  enabled s call := match call with
    | .connect => s.manager.isFullyConnected = false
    | _ => True
  next := FinalState.next

/-- How many of the given writes emit a handshake segment. -/
def ConnectionManager.emitted : ConnectionManager → List (PacketId × Span × Memory) → ℕ
  | _, [] => 0
  | c, (packetId, b, mem) :: writes =>
    let result := (c.write packetId b mem).val
    (if result.2.2 = 0 then 0 else 1) + emitted result.1 writes

/-- The `LetsConnect` has respected that the handshake was over, or that it had
failed. -/
structure LetsConnectRead.Respected (r : LetsConnectRead) : Prop where
  limit : r.before.isFullyConnected = true → r.after.peerLimit = r.before.peerLimit
  writes : r.before.isFullyConnected = true →
    ∀ writes, r.after.emitted writes ≤ r.before.emitted writes
  failed : r.invalidBefore = true → r.after.isPeerConnected = true →
    r.before.isPeerConnected = true

/-- Every `LetsConnect` so far has respected the handshake. -/
def FinalState.Final (s : FinalState) : Prop := ∀ r ∈ s.reads, r.Respected

/-- A valid `LetsConnect` after the handshake repeats the limits to the side that
has called `connect`, and there is none after an invalid one before the manager
is connected. -/
def FinalState.Repeats (s : FinalState) : HandshakeCall → Prop
  | .read b mem => HoldsLetsConnect b mem →
      (s.manager.isFullyConnected = true → s.manager.isInitiator = true ∧
        s.manager.peerLimit = some (limitAt mem (b.off + 3))) ∧
      (s.invalidRead = true → s.manager.isPeerConnected = true)
  | _ => True

instance (config : ConnectionManagerConfig) (s : FinalState) (call : HandshakeCall) :
    Decidable ((completing config).enabled s call) :=
  match call with
  | .connect => inferInstanceAs (Decidable (s.manager.isFullyConnected = false))
  | .read _ _ => isTrue trivial
  | .write _ _ _ => isTrue trivial
  | .onPacketStatusDelivery _ _ => isTrue trivial

instance (s : FinalState) (call : HandshakeCall) : Decidable (s.Repeats call) :=
  match call with
  | .connect => isTrue trivial
  | .read b mem => inferInstanceAs (Decidable (HoldsLetsConnect b mem → _ ∧ _))
  | .write _ _ _ => isTrue trivial
  | .onPacketStatusDelivery _ _ => isTrue trivial

/-! ### Writing -/

theorem ConnectionManager.write_count_eq_zero_iff (c : ConnectionManager) (packetId : PacketId)
    (b : Span) (mem : Memory) :
    (c.write packetId b mem).val.2.2 = 0 ↔ c.numLetsConnectToSend = 0 := by
  by_cases hnum : 0 < c.numLetsConnectToSend
  · refine iff_of_false ?_ (by omega)
    rw [ConnectionManager.write, if_pos hnum]
    cases hfail : c.isFail <;>
      simp [writeMessage, hfail, MessageHeader.kSerializedSize]
  · refine iff_of_true ?_ (by omega)
    rw [ConnectionManager.write, if_neg hnum]
    rfl

/-- Writes emit the messages that are to be sent, as long as there are any. -/
theorem ConnectionManager.emitted_eq (c : ConnectionManager)
    (writes : List (PacketId × Span × Memory)) :
    c.emitted writes = min c.numLetsConnectToSend writes.length := by
  induction writes generalizing c with
  | nil => simp [emitted]
  | cons write writes ih =>
    obtain ⟨packetId, b, mem⟩ := write
    rw [emitted, ih, write_state, List.length_cons]
    simp only [write_count_eq_zero_iff]
    by_cases hnum : c.numLetsConnectToSend = 0
    · simp [hnum]
    · rw [if_neg hnum, if_pos (Nat.pos_of_ne_zero hnum)]
      dsimp only
      omega

/-- Fewer segments are emitted, whatever is written, iff fewer are to be sent. -/
theorem ConnectionManager.emitted_le_iff (c c' : ConnectionManager) :
    (∀ writes, c'.emitted writes ≤ c.emitted writes)
      ↔ c'.numLetsConnectToSend ≤ c.numLetsConnectToSend := by
  simp only [emitted_eq]
  constructor
  · intro h
    have hall := h (List.replicate c'.numLetsConnectToSend (0, ⟨0, 0⟩, fun _ => 0))
    rw [List.length_replicate, Nat.min_self] at hall
    exact Nat.le_trans hall (Nat.min_le_left _ _)
  · intro h writes
    omega

/-! ### One call -/

namespace FinalState

variable {s : FinalState}

/-- A manager that has not called `connect` has nothing to do before it is
connected, and nothing to send after the handshake. -/
structure Settled (s : FinalState) : Prop where
  final : s.Final
  idle : s.manager.isInitiator = false → s.manager.isPeerConnected = false →
    s.manager.numLetsConnectToSend = 0 ∧ s.manager.inFlightLetsConnect = [] ∧
      s.manager.selfIsConnected = false
  done : s.manager.isInitiator = false → s.manager.isFullyConnected = true →
    s.manager.numLetsConnectToSend = 0

/-- A `LetsConnect` respects the handshake exactly if it is one of those that
`Repeats` allows. -/
theorem respected_iff (h : s.Settled) (b : Span) (mem : Memory) :
    LetsConnectRead.Respected ⟨s.manager, (s.manager.read b mem).val.1, s.invalidRead⟩
      ↔ s.Repeats (.read b mem) := by
  show _ ↔ (HoldsLetsConnect b mem → _)
  rcases read_cases s.manager b mem with ⟨hvalid, hread⟩ | ⟨hinvalid, isFail, hread⟩
  · rw [hread]
    constructor
    · rintro ⟨hlimit, hwrites, hfailed⟩ -
      refine ⟨fun hfull => ⟨?_, (hlimit hfull).symm⟩, fun hinvalid => hfailed hinvalid rfl⟩
      -- a request gives the other side something to send again
      by_contra hinit
      rw [Bool.not_eq_true] at hinit
      have hle := (emitted_le_iff _ _).mp (hwrites hfull)
      rw [h.done hinit hfull] at hle
      simp [hinit] at hle
    · intro hok
      obtain ⟨hrepeat, hconnected⟩ := hok hvalid
      refine ⟨fun hfull => (hrepeat hfull).2.symm, fun hfull => ?_,
        fun hinvalid _ => hconnected hinvalid⟩
      rw [emitted_le_iff]
      simp [(hrepeat hfull).1]
  · rw [hread]
    refine iff_of_true ⟨fun _ => rfl, fun _ => ?_, fun _ h => h⟩ fun h => absurd h hinvalid
    rw [emitted_le_iff]

theorem final_next_read (b : Span) (mem : Memory) (h : s.Settled) :
    (s.next (.read b mem)).Final ↔ s.Repeats (.read b mem) := by
  rw [FinalState.next]
  split
  · rw [← respected_iff h]
    constructor
    · exact fun hfinal => hfinal _ (List.mem_append_right _ List.mem_cons_self)
    · intro hread r hr
      rcases List.mem_append.mp hr with hr | hr
      · exact h.final r hr
      · rw [List.mem_singleton.mp hr]
        exact hread
  · next hother =>
    refine iff_of_true h.final fun hholds => absurd ?_ hother
    exact ⟨hholds.1, hholds.2.1, hholds.2.2.1, hholds.2.2.2.1⟩

theorem next_read_manager (s : FinalState) (b : Span) (mem : Memory) :
    (s.next (.read b mem)).manager = (s.manager.read b mem).val.1 := by
  rw [FinalState.next]
  split <;> rfl

namespace Settled

theorem read (h : s.Settled) (b : Span) (mem : Memory) (hok : s.Repeats (.read b mem)) :
    (s.next (.read b mem)).Settled := by
  refine ⟨(final_next_read b mem h).mpr hok, ?_, ?_⟩
  · rw [next_read_manager]
    rcases read_cases s.manager b mem with ⟨-, hread⟩ | ⟨-, isFail, hread⟩
    · rw [hread]
      intro _ hpeer
      cases hpeer
    · rw [hread]
      exact h.idle
  · rw [next_read_manager]
    rcases read_cases s.manager b mem with ⟨hvalid, hread⟩ | ⟨-, isFail, hread⟩
    · rw [hread]
      intro hinit hfull
      -- its own message cannot have been acknowledged: it has not written any
      have hself : s.manager.selfIsConnected = true := by
        simpa [isFullyConnected] using (Bool.and_eq_true_iff.mp hfull).2
      cases hpeer : s.manager.isPeerConnected with
      | false => exact absurd hself (by rw [(h.idle hinit hpeer).2.2]; decide)
      | true =>
        have hbefore : s.manager.isFullyConnected = true := by
          rw [isFullyConnected, hpeer, hself]
          rfl
        have hinit' := ((hok hvalid).1 hbefore).1
        exact absurd hinit' (by rw [show s.manager.isInitiator = false from hinit]; decide)
    · rw [hread]
      exact h.done

theorem write (h : s.Settled) (packetId : PacketId) (b : Span) (mem : Memory) :
    (s.next (.write packetId b mem)).Settled := by
  have hmanager : (s.next (.write packetId b mem)).manager
      = (s.manager.write packetId b mem).val.1 := rfl
  refine ⟨h.final, ?_, ?_⟩
  · rw [hmanager, write_state]
    split
    · next hnum =>
      intro hinit hpeer
      have hzero := (h.idle hinit hpeer).1
      omega
    · exact h.idle
  · rw [hmanager, write_state]
    split
    · next hnum =>
      intro hinit hfull
      have hzero := h.done hinit hfull
      omega
    · exact h.done

theorem status (h : s.Settled) (packetId : PacketId) (status : PacketDeliveryStatus) :
    (s.next (.onPacketStatusDelivery packetId status)).Settled := by
  have hmanager : (s.next (.onPacketStatusDelivery packetId status)).manager
      = (s.manager.onPacketStatusDelivery packetId status).val := rfl
  -- a manager that is idle has no packet in flight that a status could be for
  have hqueue : s.manager.inFlightLetsConnect.head? = some packetId →
      ¬ (s.manager.isInitiator = false ∧ s.manager.isPeerConnected = false) := by
    rintro hhead ⟨hinit, hpeer⟩
    rw [(h.idle hinit hpeer).2.1] at hhead
    cases hhead
  rcases s.manager.status_cases packetId status with
    ⟨-, hval⟩ | ⟨hhead, -, hval⟩ | ⟨hhead, -, hval⟩
  · refine ⟨h.final, ?_, ?_⟩
    · rw [hmanager, hval]
      exact h.idle
    · rw [hmanager, hval]
      exact h.done
  · refine ⟨h.final, ?_, ?_⟩
    · rw [hmanager, hval]
      exact fun hinit hpeer => absurd ⟨hinit, hpeer⟩ (hqueue hhead)
    · rw [hmanager, hval]
      exact fun _ _ => rfl
  · refine ⟨h.final, ?_, ?_⟩
    · rw [hmanager, hval]
      exact fun hinit hpeer => absurd ⟨hinit, hpeer⟩ (hqueue hhead)
    · rw [hmanager, hval]
      intro hinit hfull
      have hpeer : s.manager.peerBandwidthLimit.isSome = true := (Bool.and_eq_true_iff.mp hfull).1
      show (if s.manager.peerBandwidthLimit.isSome = true then _ else _) = 0
      rw [if_pos hpeer]
      exact h.done hinit hfull

theorem next (h : s.Settled) {call : HandshakeCall} (hok : s.Repeats call) :
    (s.next call).Settled := by
  cases call with
  | connect =>
    refine ⟨h.final, ?_, ?_⟩
    · intro hinit
      cases hinit
    · intro hinit
      cases hinit
  | read b mem => exact h.read b mem hok
  | write packetId b mem => exact h.write packetId b mem
  | onPacketStatusDelivery packetId status => exact h.status packetId status

end Settled

end FinalState

/-- **A finished handshake is final**, exactly as far as the code has it. -/
theorem handshake_final_iff (config : ConnectionManagerConfig) (calls : List HandshakeCall)
    (hcalls : (completing config).RunOk System.anyAction { manager := { config := config } }
      calls) :
    (completing config).Along FinalState.Final { manager := { config := config } } calls ↔
      (completing config).RunOk FinalState.Repeats { manager := { config := config } } calls := by
  refine System.along_iff_runOk_of_invariant FinalState.Settled (fun s hs => hs.final)
    (fun s call hs _ hok => hs.next hok) (fun s call hs _ hfinal => ?_) ⟨?_, ?_, ?_⟩ hcalls
  · cases call with
    | read b mem => exact (FinalState.final_next_read b mem hs).mp hfinal
    | connect => trivial
    | write packetId b mem => trivial
    | onPacketStatusDelivery packetId status => trivial
  · intro r hr
    cases hr
  · exact fun _ _ => ⟨rfl, rfl, rfl⟩
  · exact fun _ _ => rfl

/-- The side that has called `connect` reads the same answer twice. -/
theorem handshake_final_repeated_answer :
    let config : ConnectionManagerConfig := ⟨0, ⟨0, 1400, 0, 1400⟩⟩
    let answer := Memory.storeList (fun _ => 0) 0 [0, 1, 0, 0, 0, 0, 5, 120, 5, 120]
    let calls : List HandshakeCall := [.connect, .write 0 ⟨12, 1388⟩ (fun _ => 0),
      .onPacketStatusDelivery 0 .ack, .read ⟨0, 10⟩ answer, .read ⟨0, 10⟩ answer]
    (completing config).Along FinalState.Final { manager := { config := config } } calls := by
  intro config answer calls
  refine (handshake_final_iff config calls ?_).mpr ?_
  · decide +kernel
  · decide +kernel

/-- An invalid request is read, and then a valid one, which connects the peer all
the same.  When the answer has been acknowledged, a late request with other
limits changes them, and the answer is sent once more. -/
theorem handshake_not_final :
    let config : ConnectionManagerConfig := ⟨0, ⟨0, 1400, 0, 1400⟩⟩
    let invalid := Memory.storeList (fun _ => 0) 0 [0, 1, 0, 0, 0, 0, 0, 50, 5, 120]
    let request := Memory.storeList (fun _ => 0) 0 [0, 1, 0, 0, 0, 0, 5, 120, 5, 120]
    let other := Memory.storeList (fun _ => 0) 0 [0, 1, 0, 0, 0, 0, 5, 120, 0, 200]
    let connecting : List HandshakeCall := [.read ⟨0, 10⟩ invalid, .read ⟨0, 10⟩ request,
      .write 0 ⟨12, 1388⟩ (fun _ => 0), .onPacketStatusDelivery 0 .ack]
    let s := (completing config).runFrom { manager := { config := config } } connecting
    let s' := s.next (.read ⟨0, 10⟩ other)
    (completing config).RunOk System.anyAction { manager := { config := config } }
        (connecting ++ [.read ⟨0, 10⟩ other]) ∧
      s.invalidRead = true ∧ s.manager.isFullyConnected = true ∧
      s.manager.peerLimit = some ⟨0, 1400, 0, 1400⟩ ∧
      s'.manager.peerLimit = some ⟨0, 200, 0, 1400⟩ ∧
      (s.manager.write 1 ⟨12, 1388⟩ (fun _ => 0)).val.2.2 = 0 ∧
      (s'.manager.write 1 ⟨12, 1388⟩ (fun _ => 0)).val.2.2 = 9 ∧
      ¬ (completing config).Along FinalState.Final { manager := { config := config } }
        (connecting ++ [.read ⟨0, 10⟩ other]) := by
  intro config invalid request other connecting s s'
  refine ⟨by decide +kernel, by decide +kernel, by decide +kernel, by decide +kernel,
    by decide +kernel, by decide +kernel, by decide +kernel, ?_⟩
  rintro ⟨-, -, -, -, -, hfinal⟩
  -- the last of the three reads
  have hmem : (⟨s.manager, s'.manager, true⟩ : LetsConnectRead) ∈ s'.reads := by decide +kernel
  have hlimit := (hfinal _ hmem).limit
  exact absurd (hlimit (by decide +kernel)) (by decide +kernel)

end Neptun
