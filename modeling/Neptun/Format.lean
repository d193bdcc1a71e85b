/-
`format_neptun_payload`: a second parser of the packet format, for reading captures.

It takes every byte for what the packet says it is: nothing is compared with the
size of the span before it is read, and the loop goes on until no byte is left.
Here the result is the list of what is printed, in place of the text; the loop
gets fuel, and `Formats` says that some amount of it is enough for all segments.

A segment that was written is found again with two exceptions:

* `appendSegment_handshake_iff` — a handshake of three or nine bytes is taken for
  one of nine, and read with the byte behind it;
* `formats_reliable_iff`, `formats_unreliable_iff` — a segment of more than 255
  messages is cut off, and the rest of them taken for segments.
-/
import Neptun.PacketLayout
import Neptun.UnreliableSegment

namespace Neptun

/-- What is printed of a handshake message; nothing, if it is of another type. -/
inductive FormattedHandshake
  | letsConnect (limit : BandwidthLimit)
  | rejectLetsConnect
  | other
  deriving DecidableEq, Repr

/-- What is printed of a reliable message. -/
structure FormattedReliable where
  sequenceNumber : UInt32
  length : UInt16
  payload : List UInt8
  deriving DecidableEq, Repr

/-- What is printed of an unreliable message. -/
structure FormattedUnreliable where
  length : UInt16
  payload : List UInt8
  deriving DecidableEq, Repr

/-- What is printed of a segment. -/
inductive FormattedSegment
  | connectionManager (messageCount : ℕ) (message : FormattedHandshake)
  | reliable (messageCount : ℕ) (messages : List FormattedReliable)
  | unreliable (messageCount : ℕ) (messages : List FormattedUnreliable)
  deriving DecidableEq, Repr

/-- How the loop ends. -/
inductive FormatEnd
  /-- The span is empty. -/
  | done (payload : Span)
  | thrown (what : String)
  | outOfFuel
  deriving DecidableEq, Repr

/-- `append_connection_manager_segment`. -/
def appendConnectionManagerSegment (header : Span) (mem : Memory) :
    Checked Fault (FormattedHandshake × Span) := do
  let payload ← advance header MessageHeader.kSerializedSize
  let messageType ← MessageHeader.messageType header mem
  if messageType = LetsConnect.kId then
    let letsConnect := payload
    let payload ← advance payload LetsConnect.kSerializedSize
    let maxReadPacketRate ← LetsConnect.maxReadPacketRate letsConnect mem
    let maxReadPacketSize ← LetsConnect.maxReadPacketSize letsConnect mem
    let maxSendPacketRate ← LetsConnect.maxSendPacketRate letsConnect mem
    let maxSendPacketSize ← LetsConnect.maxSendPacketSize letsConnect mem
    let limit := ⟨maxReadPacketRate, maxReadPacketSize, maxSendPacketRate, maxSendPacketSize⟩
    pure (.letsConnect limit, payload)
  else if messageType = RejectLetsConnect.kId then
    pure (.rejectLetsConnect, payload)
  else
    pure (.other, payload)

/-- `append_reliable_segment`, with `n` messages left. -/
def appendReliableSegment (mem : Memory) :
    ℕ → Span → Checked Fault (List FormattedReliable × Span)
  | 0, payload => pure ([], payload)
  | n + 1, msg => do
    let size ← ReliableMessage.readSerializedSize msg mem
    let payload ← advance msg size
    let sequenceNumber ← ReliableMessage.sequenceNumber msg mem
    let length ← ReliableMessage.length msg mem
    let bytes ← ReliableMessage.payload msg mem
    let (messages, payload) ← appendReliableSegment mem n payload
    pure (⟨sequenceNumber, length, mem.slice bytes.off bytes.size⟩ :: messages, payload)

/-- `append_unreliable_segment`, with `n` messages left. -/
def appendUnreliableSegment (mem : Memory) :
    ℕ → Span → Checked Fault (List FormattedUnreliable × Span)
  | 0, payload => pure ([], payload)
  | n + 1, msg => do
    let size ← UnreliableMessage.readSerializedSize msg mem
    let payload ← advance msg size
    let length ← UnreliableMessage.length msg mem
    let bytes ← UnreliableMessage.payload msg mem
    let (messages, payload) ← appendUnreliableSegment mem n payload
    pure (⟨length, mem.slice bytes.off bytes.size⟩ :: messages, payload)

/-- `append_segment`: what is printed, and what is left of the payload. -/
def appendSegment (segment : Span) (mem : Memory) :
    Checked Fault (Except String (FormattedSegment × Span)) := do
  let managerType ← Segment.managerType segment mem
  let messageCount ← Segment.messageCount segment mem
  let payload ← advance segment Segment.kSerializedSize
  if managerType = ManagerType.connectionManager.toU8 then
    Checked.check (messageCount = 1) (.assertion .formatMessageCount)
    let (message, payload) ← appendConnectionManagerSegment payload mem
    pure (.ok (.connectionManager messageCount.toNat message, payload))
  else if managerType = ManagerType.reliableStream.toU8 then
    let (messages, payload) ← appendReliableSegment mem messageCount.toNat payload
    pure (.ok (.reliable messageCount.toNat messages, payload))
  else if managerType = ManagerType.unreliableStream.toU8 then
    let (messages, payload) ← appendUnreliableSegment mem messageCount.toNat payload
    pure (.ok (.unreliable messageCount.toNat messages, payload))
  else
    pure (.error ("Unknown manager type: " ++ toString managerType.toNat))

/-- The loop over the segments. -/
def formatLoop (mem : Memory) : ℕ → Span → Checked Fault (List FormattedSegment × FormatEnd)
  | 0, payload => pure ([], if payload.size = 0 then .done payload else .outOfFuel)
  | fuel + 1, payload =>
    if payload.size = 0 then
      pure ([], .done payload)
    else do
      match ← appendSegment payload mem with
      | .error what => pure ([], .thrown what)
      | .ok (segment, payload) => do
        let (segments, stop) ← formatLoop mem fuel payload
        pure (segment :: segments, stop)

def formatNeptunPayload (fuel : ℕ) (payload : Span) (mem : Memory) :
    Checked Fault (PacketHeader × List FormattedSegment × FormatEnd) := do
  let packetHeader := payload
  let payload ← advance payload PacketHeader.kSerializedSize
  let id ← PacketHeader.readId packetHeader mem
  let ackSequenceNumber ← PacketHeader.readAckSequenceNumber packetHeader mem
  let ackBitmask ← PacketHeader.readAckBitmask packetHeader mem
  let (segments, stop) ← formatLoop mem fuel payload
  pure (⟨id, ackSequenceNumber, ackBitmask⟩, segments, stop)

/-- The segments are all that is found in the payload, and it ends at `stop`. -/
def Formats (mem : Memory) (payload : Span) (stop : ℕ) (segments : List FormattedSegment) :
    Prop :=
  ∃ fuel, formatLoop mem fuel payload = pure (segments, .done ⟨stop, 0⟩)

variable {mem : Memory} {payload : Span} {stop : ℕ} {segments : List FormattedSegment}

/-! ### The loop -/

theorem formats_empty_iff {off : ℕ} :
    Formats mem ⟨off, 0⟩ stop segments ↔ segments = [] ∧ stop = off := by
  have hloop : ∀ fuel, formatLoop mem fuel ⟨off, 0⟩ = pure ([], .done ⟨off, 0⟩) := by
    intro fuel
    cases fuel with
    | zero => rfl
    | succ fuel => exact if_pos rfl
  constructor
  · rintro ⟨fuel, h⟩
    rw [hloop] at h
    have hval := Checked.pure_inj h
    simp only [Prod.mk.injEq, FormatEnd.done.injEq, Span.mk.injEq, and_true] at hval
    exact ⟨hval.1.symm, hval.2.symm⟩
  · rintro ⟨rfl, rfl⟩
    exact ⟨0, hloop 0⟩

/-- The first segment, and the others behind it. -/
theorem formats_cons_iff (hsize : payload.size ≠ 0) {segment : FormattedSegment} :
    Formats mem payload stop (segment :: segments) ↔ ∃ rest,
      appendSegment payload mem = pure (.ok (segment, rest)) ∧ Formats mem rest stop segments := by
  constructor
  · rintro ⟨fuel, h⟩
    cases fuel with
    | zero =>
      have hval := congrArg Prod.fst (Checked.pure_inj h)
      cases hval
    | succ fuel =>
      rw [formatLoop, if_neg hsize, Checked.bind_eq_pure_iff] at h
      obtain ⟨happend, h⟩ := h
      generalize (appendSegment payload mem).val = result at happend h
      cases result with
      | error what =>
        have hval := congrArg Prod.fst (Checked.pure_inj h)
        cases hval
      | ok found =>
        rw [Checked.bind_eq_pure_iff] at h
        obtain ⟨hrest, h⟩ := h
        have hval := Checked.pure_inj h
        simp only [Prod.mk.injEq, List.cons.injEq] at hval
        obtain ⟨⟨rfl, hsegments⟩, hstop⟩ := hval
        refine ⟨found.2, happend, fuel, ?_⟩
        rw [hrest]
        exact congrArg pure (Prod.ext hsegments hstop)
  · rintro ⟨rest, happend, fuel, h⟩
    refine ⟨fuel + 1, ?_⟩
    rw [formatLoop, if_neg hsize, happend, Checked.pure_bind]
    dsimp only
    rw [h, Checked.pure_bind]

theorem formats_of_append {segment found : FormattedSegment} {rest : Span}
    (hsize : payload.size ≠ 0) (h : appendSegment payload mem = pure (.ok (found, rest))) :
    Formats mem payload stop (segment :: segments)
      ↔ found = segment ∧ Formats mem rest stop segments := by
  rw [formats_cons_iff hsize, h]
  constructor
  · rintro ⟨rest', happend, hrest⟩
    obtain ⟨rfl, rfl⟩ := Prod.mk.inj (Except.ok.inj (Checked.pure_inj happend))
    exact ⟨rfl, hrest⟩
  · rintro ⟨rfl, hrest⟩
    exact ⟨rest, rfl, hrest⟩

/-- More fuel changes nothing. -/
theorem formatLoop_mono {fuel : ℕ} {stop : Span}
    (h : formatLoop mem fuel payload = pure (segments, .done stop)) {fuel' : ℕ}
    (hle : fuel ≤ fuel') : formatLoop mem fuel' payload = pure (segments, .done stop) := by
  induction fuel generalizing payload segments fuel' with
  | zero =>
    rw [formatLoop] at h
    obtain ⟨hnil, hstop⟩ := Prod.mk.inj (Checked.pure_inj h)
    split at hstop
    · next hempty =>
      cases fuel' with
      | zero => rw [formatLoop, if_pos hempty, hnil, hstop]
      | succ fuel' => rw [formatLoop, if_pos hempty, hnil, hstop]
    · cases hstop
  | succ fuel ih =>
    obtain ⟨fuel', rfl⟩ : ∃ k, fuel' = k + 1 := ⟨fuel' - 1, by omega⟩
    rw [formatLoop] at h ⊢
    split at h
    · next hempty => rw [if_pos hempty, h]
    · next hsize =>
      rw [if_neg hsize, Checked.bind_eq_pure_iff]
      rw [Checked.bind_eq_pure_iff] at h
      refine ⟨h.1, ?_⟩
      obtain ⟨-, h⟩ := h
      split at h
      · exact h
      · rw [Checked.bind_eq_pure_iff] at h ⊢
        obtain ⟨hrest, hval⟩ := h
        obtain ⟨hsegments, hstop⟩ := Prod.mk.inj (Checked.pure_inj hval)
        rw [← Prod.eta (formatLoop mem fuel _).val, hstop] at hrest
        have hmore := ih hrest (show fuel ≤ fuel' by omega)
        rw [hmore]
        exact ⟨rfl, congrArg pure (Prod.ext hsegments rfl)⟩

/-! ### Handshakes -/

theorem val_appendConnectionManagerSegment {b : Span} (h : mem b.off = 0) :
    (appendConnectionManagerSegment b mem).val
      = (.letsConnect (ConnectionManager.limitAt mem (b.off + 1)),
        ⟨b.off + 1 + 6, usizeSub (usizeSub b.size 1) 6⟩) := by
  simp only [appendConnectionManagerSegment, MessageHeader.messageType,
    MessageHeader.kMessageTypeOffset, MessageHeader.kSerializedSize, LetsConnect.kId,
    LetsConnect.maxSendPacketSize, LetsConnect.maxReadPacketSize, LetsConnect.maxSendPacketRate,
    LetsConnect.maxReadPacketRate, LetsConnect.kMaxReadPacketSize, LetsConnect.kMaxSendPacketSize,
    LetsConnect.kMaxReadPacketRate, LetsConnect.kMaxSendPacketRate, LetsConnect.kSerializedSize,
    Checked.val_bind, Checked.val_pure, val_readU8, val_readU16, val_advance, Nat.add_zero, h,
    if_true, ConnectionManager.limitAt]

/-- The message ends one byte behind the place that is advanced to. -/
theorem avoids_appendConnectionManagerSegment {b : Span} (h : mem b.off = 0) :
    (appendConnectionManagerSegment b mem).Avoids (fun _ => True) ↔ 8 ≤ b.size := by
  simp only [appendConnectionManagerSegment, MessageHeader.messageType,
    MessageHeader.kMessageTypeOffset, MessageHeader.kSerializedSize, LetsConnect.kId,
    LetsConnect.maxSendPacketSize, LetsConnect.maxReadPacketSize, LetsConnect.maxSendPacketRate,
    LetsConnect.maxReadPacketRate, LetsConnect.kMaxReadPacketSize, LetsConnect.kMaxSendPacketSize,
    LetsConnect.kMaxReadPacketRate, LetsConnect.kMaxSendPacketRate, LetsConnect.kSerializedSize,
    Checked.avoids_bind, Checked.avoids_pure, val_readU8, avoids_readU8, avoids_readU16,
    avoids_advance, val_advance, Nat.add_zero, h, if_true, forall_const, and_true]
  constructor
  · rintro ⟨h1, -, -, -, h7, -⟩
    rw [usizeSub_of_le h1] at h7
    omega
  · intro h8
    rw [usizeSub_of_le (by omega)]
    omega

/-- A handshake segment is taken for a `LetsConnect`, whatever it is. -/
theorem appendSegment_handshake_iff {off n : ℕ} {segment : FormattedSegment} {rest : Span}
    (hmem : mem.slice off 3 = [0, 1, 0]) :
    appendSegment ⟨off, n⟩ mem = pure (.ok (segment, rest)) ↔ 10 ≤ n ∧
      segment = .connectionManager 1 (.letsConnect (ConnectionManager.limitAt mem (off + 3))) ∧
      rest = ⟨off + 9, n - 9⟩ := by
  simp only [Memory.slice, List.cons.injEq, and_true] at hmem
  obtain ⟨h0, h1, h2⟩ := hmem
  have hval : (appendSegment ⟨off, n⟩ mem).val = .ok (.connectionManager 1 (.letsConnect
      (ConnectionManager.limitAt mem (off + 3))), ⟨off + 9, usizeSub (usizeSub (usizeSub n 2) 1) 6⟩)
      := by
    simp only [appendSegment, Segment.managerType, Segment.messageCount,
      Segment.kManagerTypeOffset, Segment.kMessageCountOffset, Segment.kSerializedSize,
      ManagerType.toU8, Checked.val_bind, Checked.val_pure, val_readU8, val_advance,
      Nat.add_zero, Nat.zero_add, h0, h1, if_true]
    rw [val_appendConnectionManagerSegment h2]
    rfl
  have havoids : (appendSegment ⟨off, n⟩ mem).Avoids (fun _ => True) ↔ 10 ≤ n := by
    simp only [appendSegment, Segment.managerType, Segment.messageCount,
      Segment.kManagerTypeOffset, Segment.kMessageCountOffset, Segment.kSerializedSize,
      ManagerType.toU8, Checked.avoids_bind, Checked.avoids_pure, Checked.avoids_check,
      avoids_readU8, avoids_advance, val_readU8, val_advance,
      Nat.add_zero, Nat.zero_add, h0, h1, if_true, forall_const, and_true, true_and]
    rw [avoids_appendConnectionManagerSegment h2]
    constructor
    · rintro ⟨-, h2, -, h8⟩
      dsimp only at h8
      rw [usizeSub_of_le h2] at h8
      omega
    · intro h10
      dsimp only
      rw [usizeSub_of_le (by omega)]
      omega
  have hleft : 10 ≤ n → usizeSub (usizeSub (usizeSub n 2) 1) 6 = n - 9 := by
    intro h10
    rw [usizeSub_of_le (show 2 ≤ n by omega), usizeSub_of_le (show 1 ≤ n - 2 by omega),
      usizeSub_of_le (by omega)]
    omega
  constructor
  · intro h
    have h10 := havoids.mp (Checked.avoids_of_eq_pure h)
    rw [h, hleft h10] at hval
    obtain ⟨hsegment, hrest⟩ := Prod.mk.inj (Except.ok.inj hval)
    exact ⟨h10, hsegment, hrest⟩
  · rintro ⟨h10, rfl, rfl⟩
    refine Checked.eq_pure ?_ (havoids.mpr h10)
    rw [hval, hleft h10]

/-- A handshake that was written is found again iff it is a `LetsConnect` and there is a
byte behind it, which then becomes a part of the limits. -/
theorem formats_handshake_iff {c : ConnectionManager} {limit : BandwidthLimit} {gap : UInt8}
    {later : List UInt8} {off : ℕ} (hnum : 0 < c.numLetsConnectToSend)
    (hmem : mem.slice off (c.encodeHandshake gap ++ later).length
      = c.encodeHandshake gap ++ later) :
    Formats mem ⟨off, (c.encodeHandshake gap ++ later).length⟩ stop
        (.connectionManager 1 (if c.isFail then .rejectLetsConnect else .letsConnect limit)
          :: segments) ↔
      c.isFail = false ∧ ∃ low ∈ later.head?,
        ConnectionManager.withLowByte c.config.limit low = limit ∧
          Formats mem ⟨off + (c.encodeHandshake gap).length, later.length⟩ stop segments := by
  obtain ⟨hhandshake, hlater⟩ := Memory.slice_eq_of_append hmem
  rw [ConnectionManager.encodeHandshake, if_pos hnum] at hhandshake hlater ⊢
  cases hfail : c.isFail with
  | true =>
    rw [hfail, if_pos rfl] at hhandshake
    rw [if_pos rfl, formats_cons_iff (by simp)]
    -- what is found is a `LetsConnect`
    refine iff_of_false ?_ (fun h => by cases h.1)
    rintro ⟨rest, happend, -⟩
    obtain ⟨-, hsegment, -⟩ := (appendSegment_handshake_iff hhandshake).mp happend
    cases hsegment
  | false =>
    rw [hfail] at hhandshake hlater
    simp only [Bool.false_eq_true, if_false] at hhandshake hlater ⊢
    have hnine : (letsConnectBytes c.config.limit gap).length = 9 := by simp [letsConnectBytes]
    have hthree : mem.slice off 3 = [0, 1, 0] :=
      congrArg (List.take 3) hhandshake
    rw [hnine] at hhandshake hlater ⊢
    have hlimit := ConnectionManager.limitAt_handshake hhandshake
    rw [formats_cons_iff (by simp [hnine])]
    simp only [appendSegment_handshake_iff hthree, hlimit, List.length_append, hnine,
      Nat.add_sub_cancel_left, true_and]
    cases later with
    | nil =>
      refine iff_of_false ?_ ?_
      · rintro ⟨rest, ⟨hten, -⟩, -⟩
        exact absurd hten (by decide)
      · rintro ⟨low, hlow, -⟩
        cases hlow
    | cons low later =>
      have hlow : mem (off + 9) = low := by
        rw [List.length_cons, Memory.slice, List.cons.injEq] at hlater
        exact hlater.1
      rw [hlow]
      constructor
      · rintro ⟨rest, ⟨-, hsegment, rfl⟩, hrest⟩
        cases hsegment
        exact ⟨low, rfl, rfl, hrest⟩
      · rintro ⟨low', hlow', rfl, hrest⟩
        cases hlow'
        exact ⟨_, ⟨by rw [List.length_cons]; omega, rfl, rfl⟩, hrest⟩

/-! ### Messages -/

/-- A reliable message as it is printed. -/
def FormattedReliable.ofWire (msg : WireMessage) : FormattedReliable :=
  ⟨msg.1, UInt16.ofNat msg.2.length, msg.2⟩

/-- An unreliable message as it is printed. -/
def FormattedUnreliable.ofPayload (payload : List UInt8) : FormattedUnreliable :=
  ⟨UInt16.ofNat payload.length, payload⟩

/-- The first messages of those that are there. -/
theorem appendReliableSegment_of_bytes {msgs : List WireMessage} {n : ℕ} (off size : ℕ)
    (hn : n ≤ msgs.length) (hlengths : ∀ msg ∈ msgs, msg.2.length < 2 ^ 16)
    (hsize : (encodeMessages msgs).length ≤ size)
    (hmem : mem.slice off (encodeMessages msgs).length = encodeMessages msgs) :
    appendReliableSegment mem n ⟨off, size⟩ = pure ((msgs.take n).map FormattedReliable.ofWire,
      ⟨off + (encodeMessages (msgs.take n)).length,
        size - (encodeMessages (msgs.take n)).length⟩) := by
  induction n generalizing msgs off size with
  | zero => rfl
  | succ n ih =>
    cases msgs with
    | nil => cases hn
    | cons msg msgs =>
      obtain ⟨hmsg, hlengths⟩ := List.forall_mem_cons.mp hlengths
      rw [encodeMessages_cons] at hmem hsize
      rw [List.length_append, ReliableMessage.length_encode] at hsize
      obtain ⟨hhead, htail⟩ := Memory.slice_eq_of_append hmem
      rw [ReliableMessage.length_encode] at htail
      obtain ⟨hnumber, hlength, hpayload, hbytes⟩ := ReliableMessage.fields_of_bytes
        (b := ⟨off, size⟩) hmsg (by dsimp only; omega) hhead
      have hserialized : ReliableMessage.readSerializedSize ⟨off, size⟩ mem
          = pure (6 + msg.2.length) := by
        rw [ReliableMessage.readSerializedSize,
          show readU16 _ mem ReliableMessage.kLengthOffset = _ from hlength, Checked.pure_bind,
          UInt16.toNat_ofNat', Nat.mod_eq_of_lt hmsg]
      have hadvance : advance ⟨off, size⟩ (6 + msg.2.length)
          = pure ⟨off + (6 + msg.2.length), size - (6 + msg.2.length)⟩ :=
        advance_of_le (by dsimp only; omega)
      rw [appendReliableSegment, hserialized, Checked.pure_bind, hadvance, Checked.pure_bind,
        hnumber, Checked.pure_bind,
        hlength, Checked.pure_bind, hpayload, Checked.pure_bind,
        ih _ _ (Nat.le_of_succ_le_succ hn) hlengths (by omega) htail, Checked.pure_bind,
        List.take_succ_cons, encodeMessages_cons, List.length_append,
        ReliableMessage.length_encode, hbytes, Nat.add_assoc, Nat.sub_sub]
      rfl

theorem appendUnreliableSegment_of_bytes {payloads : List (List UInt8)} {n : ℕ} (off size : ℕ)
    (hn : n ≤ payloads.length) (hlengths : ∀ payload ∈ payloads, payload.length < 2 ^ 16)
    (hsize : (encodePayloads payloads).length ≤ size)
    (hmem : mem.slice off (encodePayloads payloads).length = encodePayloads payloads) :
    appendUnreliableSegment mem n ⟨off, size⟩
      = pure ((payloads.take n).map FormattedUnreliable.ofPayload,
        ⟨off + (encodePayloads (payloads.take n)).length,
          size - (encodePayloads (payloads.take n)).length⟩) := by
  induction n generalizing payloads off size with
  | zero => rfl
  | succ n ih =>
    cases payloads with
    | nil => cases hn
    | cons payload payloads =>
      obtain ⟨hmsg, hlengths⟩ := List.forall_mem_cons.mp hlengths
      rw [encodePayloads_cons] at hmem hsize
      rw [List.length_append, UnreliableMessage.length_encode] at hsize
      obtain ⟨hhead, htail⟩ := Memory.slice_eq_of_append hmem
      rw [UnreliableMessage.length_encode] at htail
      obtain ⟨hlength, hpayload, hbytes⟩ := UnreliableMessage.fields_of_bytes
        (b := ⟨off, size⟩) hmsg (by dsimp only; omega) hhead
      have hserialized : UnreliableMessage.readSerializedSize ⟨off, size⟩ mem
          = pure (2 + payload.length) := by
        rw [UnreliableMessage.readSerializedSize,
          show readU16 _ mem UnreliableMessage.kLengthOffset = _ from hlength, Checked.pure_bind,
          UInt16.toNat_ofNat', Nat.mod_eq_of_lt hmsg]
      have hadvance : advance ⟨off, size⟩ (2 + payload.length)
          = pure ⟨off + (2 + payload.length), size - (2 + payload.length)⟩ :=
        advance_of_le (by dsimp only; omega)
      rw [appendUnreliableSegment, hserialized, Checked.pure_bind, hadvance, Checked.pure_bind,
        hlength, Checked.pure_bind, hpayload, Checked.pure_bind,
        ih _ _ (Nat.le_of_succ_le_succ hn) hlengths (by omega) htail, Checked.pure_bind,
        List.take_succ_cons, encodePayloads_cons, List.length_append,
        UnreliableMessage.length_encode, hbytes, Nat.add_assoc, Nat.sub_sub]
      rfl

/-! ### Segments of messages -/

/-- The header of a segment that is not a handshake. -/
theorem appendSegment_header {off n : ℕ} {managerType messageCount : UInt8} (hn : 2 ≤ n)
    (hmem : mem.slice off 2 = [managerType, messageCount]) :
    Segment.managerType ⟨off, n⟩ mem = pure managerType ∧
      Segment.messageCount ⟨off, n⟩ mem = pure messageCount ∧
      advance ⟨off, n⟩ Segment.kSerializedSize = pure ⟨off + 2, n - 2⟩ := by
  simp only [Memory.slice, List.cons.injEq, and_true] at hmem
  refine ⟨Checked.eq_pure ?_ (avoids_readU8.mpr fun _ => ?_),
    Checked.eq_pure ?_ (avoids_readU8.mpr fun _ => ?_), advance_of_le hn⟩
  · rw [Segment.managerType, val_readU8]
    exact hmem.1
  · rw [Segment.kManagerTypeOffset]
    dsimp only
    omega
  · rw [Segment.messageCount, val_readU8]
    exact hmem.2
  · rw [Segment.kMessageCountOffset, Segment.kManagerTypeOffset]
    dsimp only
    omega

/-- The count of a segment is a byte. -/
theorem toNat_ofNat_eq_iff {n : ℕ} : (UInt8.ofNat n).toNat = n ↔ n ≤ 255 := by
  rw [UInt8.toNat_ofNat']
  omega

/-- What is found of a segment by a count that has been cut to a byte. -/
theorem formats_counted_iff (count : ℕ) (segment : ℕ → FormattedSegment) (rest : ℕ → Span)
    (hsize : payload.size ≠ 0) (hcount : ∀ k, segment k = segment count → k = count)
    (h : appendSegment payload mem = pure (.ok (segment (UInt8.ofNat count).toNat,
      rest (UInt8.ofNat count).toNat))) :
    Formats mem payload stop (segment count :: segments)
      ↔ count ≤ 255 ∧ Formats mem (rest count) stop segments := by
  rw [formats_of_append hsize h]
  constructor
  · rintro ⟨hsegment, hrest⟩
    have hsame := hcount _ hsegment
    rw [hsame] at hrest
    exact ⟨toNat_ofNat_eq_iff.mp hsame, hrest⟩
  · rintro ⟨hle, hrest⟩
    rw [toNat_ofNat_eq_iff.mpr hle]
    exact ⟨rfl, hrest⟩

/-- A reliable segment is found again, unless its count does not fit into a byte. -/
theorem formats_reliable_iff {msgs : List WireMessage} {off n : ℕ} (hne : msgs ≠ [])
    (hlengths : ∀ msg ∈ msgs, msg.2.length < 2 ^ 16) (hn : (encodeSegment msgs).length ≤ n)
    (hmem : mem.slice off (encodeSegment msgs).length = encodeSegment msgs) :
    Formats mem ⟨off, n⟩ stop
        (.reliable msgs.length (msgs.map FormattedReliable.ofWire) :: segments) ↔
      msgs.length ≤ 255 ∧ Formats mem
        ⟨off + (encodeSegment msgs).length, n - (encodeSegment msgs).length⟩ stop segments := by
  rw [encodeSegment, if_neg hne] at hmem hn ⊢
  obtain ⟨hhead, htail⟩ := Memory.slice_eq_of_append hmem
  have hlength : ([ManagerType.reliableStream.toU8, UInt8.ofNat msgs.length]
      ++ encodeMessages msgs).length = 2 + (encodeMessages msgs).length := by
    rw [List.length_append]
    rfl
  rw [hlength] at hn ⊢
  obtain ⟨htype, hcount, hadvance⟩ := appendSegment_header (n := n) (by omega) hhead
  have hle : (UInt8.ofNat msgs.length).toNat ≤ msgs.length := by
    rw [UInt8.toNat_ofNat']
    exact Nat.mod_le _ _
  have hmessages := appendReliableSegment_of_bytes (off + 2) (n - 2) hle hlengths (by omega) htail
  have happend : appendSegment ⟨off, n⟩ mem
      = (do
        let (messages, rest) ← appendReliableSegment mem (UInt8.ofNat msgs.length).toNat
          ⟨off + 2, n - 2⟩
        pure (.ok (.reliable (UInt8.ofNat msgs.length).toNat messages, rest))) := by
    rw [appendSegment, htype, Checked.pure_bind, hcount, Checked.pure_bind, hadvance,
      Checked.pure_bind, if_neg (by decide), if_pos rfl]
  rw [hmessages, Checked.pure_bind] at happend
  have hiff := @formats_counted_iff mem ⟨off, n⟩ stop segments msgs.length
    (fun k => .reliable k ((msgs.take k).map FormattedReliable.ofWire))
    (fun k => ⟨off + 2 + (encodeMessages (msgs.take k)).length,
      n - 2 - (encodeMessages (msgs.take k)).length⟩)
    (by dsimp only; omega) (fun k h => (FormattedSegment.reliable.inj h).1) happend
  rwa [List.take_length, Nat.add_assoc, Nat.sub_sub] at hiff

/-- The same for an unreliable segment. -/
theorem formats_unreliable_iff {payloads : List (List UInt8)} {off n : ℕ} (hne : payloads ≠ [])
    (hlengths : ∀ payload ∈ payloads, payload.length < 2 ^ 16)
    (hn : (encodeUnreliable payloads).length ≤ n)
    (hmem : mem.slice off (encodeUnreliable payloads).length = encodeUnreliable payloads) :
    Formats mem ⟨off, n⟩ stop
        (.unreliable payloads.length (payloads.map FormattedUnreliable.ofPayload) :: segments) ↔
      payloads.length ≤ 255 ∧ Formats mem
        ⟨off + (encodeUnreliable payloads).length, n - (encodeUnreliable payloads).length⟩ stop
        segments := by
  rw [encodeUnreliable, if_neg hne] at hmem hn ⊢
  obtain ⟨hhead, htail⟩ := Memory.slice_eq_of_append hmem
  have hlength : ([ManagerType.unreliableStream.toU8, UInt8.ofNat payloads.length]
      ++ encodePayloads payloads).length = 2 + (encodePayloads payloads).length := by
    rw [List.length_append]
    rfl
  rw [hlength] at hn ⊢
  obtain ⟨htype, hcount, hadvance⟩ := appendSegment_header (n := n) (by omega) hhead
  have hle : (UInt8.ofNat payloads.length).toNat ≤ payloads.length := by
    rw [UInt8.toNat_ofNat']
    exact Nat.mod_le _ _
  have hmessages := appendUnreliableSegment_of_bytes (off + 2) (n - 2) hle hlengths (by omega)
    htail
  have happend : appendSegment ⟨off, n⟩ mem
      = (do
        let (messages, rest) ← appendUnreliableSegment mem (UInt8.ofNat payloads.length).toNat
          ⟨off + 2, n - 2⟩
        pure (.ok (.unreliable (UInt8.ofNat payloads.length).toNat messages, rest))) := by
    rw [appendSegment, htype, Checked.pure_bind, hcount, Checked.pure_bind, hadvance,
      Checked.pure_bind, if_neg (by decide), if_neg (by decide), if_pos rfl]
  rw [hmessages, Checked.pure_bind] at happend
  have hiff := @formats_counted_iff mem ⟨off, n⟩ stop segments payloads.length
    (fun k => .unreliable k ((payloads.take k).map FormattedUnreliable.ofPayload))
    (fun k => ⟨off + 2 + (encodePayloads (payloads.take k)).length,
      n - 2 - (encodePayloads (payloads.take k)).length⟩)
    (by dsimp only; omega) (fun k h => (FormattedSegment.unreliable.inj h).1) happend
  rwa [List.take_length, Nat.add_assoc, Nat.sub_sub] at hiff

/-! ### Packets -/

/-- The segments of the streams in a packet. -/
def streamSegments (msgs : List WireMessage) (payloads : List (List UInt8)) :
    List FormattedSegment :=
  (if msgs = [] then [] else [.reliable msgs.length (msgs.map FormattedReliable.ofWire)]) ++
    if payloads = [] then []
    else [.unreliable payloads.length (payloads.map FormattedUnreliable.ofPayload)]

/-- The first byte of the segments of the streams. -/
def streamsHead (msgs : List WireMessage) (payloads : List (List UInt8)) : Option UInt8 :=
  if msgs ≠ [] then some ManagerType.reliableStream.toU8
  else if payloads ≠ [] then some ManagerType.unreliableStream.toU8
  else none

theorem head?_streams (msgs : List WireMessage) (payloads : List (List UInt8)) :
    (encodeSegment msgs ++ encodeUnreliable payloads).head? = streamsHead msgs payloads := by
  rw [encodeSegment, encodeUnreliable, streamsHead]
  by_cases hmsgs : msgs = []
  · by_cases hpayloads : payloads = []
    · simp [hmsgs, hpayloads]
    · simp [hmsgs, hpayloads]
  · simp [hmsgs]

/-- What the streams have put into a packet, up to its end. -/
theorem formats_streams_iff {msgs : List WireMessage} {payloads : List (List UInt8)} {off : ℕ}
    (hmsgs : ∀ msg ∈ msgs, msg.2.length < 2 ^ 16)
    (hpayloads : ∀ payload ∈ payloads, payload.length < 2 ^ 16)
    (hmem : mem.slice off (encodeSegment msgs ++ encodeUnreliable payloads).length
      = encodeSegment msgs ++ encodeUnreliable payloads) :
    Formats mem ⟨off, (encodeSegment msgs ++ encodeUnreliable payloads).length⟩
        (off + (encodeSegment msgs ++ encodeUnreliable payloads).length)
        (streamSegments msgs payloads) ↔
      msgs.length ≤ 255 ∧ payloads.length ≤ 255 := by
  obtain ⟨hreliable, hunreliable⟩ := Memory.slice_eq_of_append hmem
  rw [List.length_append, ← Nat.add_assoc]
  generalize hstart : off + (encodeSegment msgs).length = start at hunreliable
  -- the last segment ends where the packet ends
  have hlast : Formats mem ⟨start, (encodeUnreliable payloads).length⟩
      (start + (encodeUnreliable payloads).length) (streamSegments [] payloads)
        ↔ payloads.length ≤ 255 := by
    rw [streamSegments, if_pos rfl, List.nil_append]
    by_cases hnil : payloads = []
    · rw [if_pos hnil, encodeUnreliable, if_pos hnil, List.length_nil, formats_empty_iff, hnil]
      simp
    · rw [if_neg hnil, formats_unreliable_iff hnil hpayloads le_rfl hunreliable, Nat.sub_self,
        formats_empty_iff]
      simp
  by_cases hnil : msgs = []
  · rw [hnil, encodeSegment, if_pos rfl, List.length_nil, Nat.add_zero] at hstart
    rw [hnil, encodeSegment, if_pos rfl, List.length_nil, Nat.zero_add, hstart, hlast]
    simp
  · have hsegments : streamSegments msgs payloads
        = .reliable msgs.length (msgs.map FormattedReliable.ofWire)
          :: streamSegments [] payloads := by
      rw [streamSegments, if_neg hnil, streamSegments, if_pos rfl]
      rfl
    rw [hsegments, formats_reliable_iff hnil hmsgs (Nat.le_add_right _ _) hreliable, hstart,
      Nat.add_sub_cancel_left, hlast]

/-- The header of a packet, and the loop behind it. -/
theorem formatNeptunPayload_iff {header : PacketHeader} {off n : ℕ} (hn : 12 ≤ n)
    (hmem : mem.slice off header.encode.length = header.encode) :
    (∃ fuel, formatNeptunPayload fuel ⟨off, n⟩ mem = pure (header, segments, .done ⟨stop, 0⟩)) ↔
      Formats mem ⟨off + 12, n - 12⟩ stop segments := by
  rw [PacketHeader.encode] at hmem
  obtain ⟨hmem, hbitmask⟩ := Memory.slice_eq_of_append hmem
  obtain ⟨hid, hnumber⟩ := Memory.slice_eq_of_append hmem
  simp only [List.length_append, length_beEncode] at hid hnumber hbitmask
  have hreadId : PacketHeader.readId ⟨off, n⟩ mem = pure header.id :=
    readU32_of_bytes (le_trans (by decide) hn) hid
  have hreadNumber : PacketHeader.readAckSequenceNumber ⟨off, n⟩ mem
      = pure header.ackSequenceNumber :=
    readU32_of_bytes (le_trans (by decide) hn) hnumber
  have hreadBitmask : PacketHeader.readAckBitmask ⟨off, n⟩ mem = pure header.ackBitmask :=
    readU32_of_bytes (le_trans (by decide) hn) hbitmask
  have hadvance : advance ⟨off, n⟩ PacketHeader.kSerializedSize = pure ⟨off + 12, n - 12⟩ :=
    advance_of_le hn
  have hformat : ∀ fuel, formatNeptunPayload fuel ⟨off, n⟩ mem = (do
      let (segments, stop) ← formatLoop mem fuel ⟨off + 12, n - 12⟩
      pure (header, segments, stop)) := by
    intro fuel
    rw [formatNeptunPayload, hadvance, Checked.pure_bind, hreadId, Checked.pure_bind, hreadNumber,
      Checked.pure_bind, hreadBitmask, Checked.pure_bind]
  refine exists_congr fun fuel => ?_
  rw [hformat, Checked.bind_eq_pure_iff]
  constructor
  · rintro ⟨hloop, hval⟩
    rw [hloop, ← (Prod.mk.inj (Checked.pure_inj hval)).2]
  · intro hloop
    rw [hloop]
    exact ⟨rfl, rfl⟩

theorem formatNeptunPayload_mono {header : PacketHeader} {fuel : ℕ} {stop : Span}
    (h : formatNeptunPayload fuel payload mem = pure (header, segments, .done stop)) {fuel' : ℕ}
    (hle : fuel ≤ fuel') :
    formatNeptunPayload fuel' payload mem = pure (header, segments, .done stop) := by
  rw [formatNeptunPayload] at h ⊢
  simp only [Checked.bind_eq_pure_iff] at h ⊢
  obtain ⟨hadvance, hid, hnumber, hbitmask, hloop, hval⟩ := h
  have hresult := Checked.pure_inj hval
  obtain ⟨hheader, hrest⟩ := Prod.mk.inj hresult
  obtain ⟨hsegments, hstop⟩ := Prod.mk.inj hrest
  have hmore : formatLoop mem fuel' (advance payload PacketHeader.kSerializedSize).val
      = pure (segments, .done stop) := by
    refine formatLoop_mono ?_ hle
    rw [hloop]
    exact congrArg pure (Prod.ext hsegments hstop)
  refine ⟨hadvance, hid, hnumber, hbitmask, ?_⟩
  rw [hmore]
  exact ⟨rfl, congrArg pure (Prod.ext hheader rfl)⟩

end Neptun
