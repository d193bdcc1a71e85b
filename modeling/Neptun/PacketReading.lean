/-
What `read` makes of the packets that `write_to_peer` builds.

A `PacketContent` is a packet by its parts: the header, the handshake bytes and the
messages of both streams.  If it is `Formed`, as the packets of an endpoint with
sufficient limits are, then an endpoint that accepts it reads exactly these
messages, or none if it is not connected to the sender.

* `receive_sent` — from numbered messages the stream takes those that continue what
  it has taken;
* `Peer.read_keepsStreams` — what reading does to what is to be sent;
* `Peer.read_content` — the outcome of reading a packet;
* `Peer.nextContent_formed` — the content of a packet that is written.
-/
import Neptun.FormatAgreement
import Neptun.ReliableRoundTrip

namespace Neptun

/-! ### Messages that were sent -/

/-- A message with the payload that was sent under its number. -/
def WireMessage.Among (sent : List (List UInt8)) (msg : WireMessage) : Prop :=
  ∃ i, msg.1 = UInt32.ofNat i ∧ sent[i]? = some msg.2

theorem WireMessage.Among.append {sent : List (List UInt8)} {msg : WireMessage}
    (h : msg.Among sent) (new : List (List UInt8)) : msg.Among (sent ++ new) := by
  obtain ⟨i, hnumber, hi⟩ := h
  refine ⟨i, hnumber, ?_⟩
  rw [List.getElem?_append_left (List.getElem?_eq_some_iff.mp hi).1]
  exact hi

theorem among_numberFrom {sent : List (List UInt8)} {k n : ℕ} {msg : WireMessage}
    (h : msg ∈ numberFrom k ((sent.drop k).take n)) : msg.Among sent := by
  induction n generalizing k with
  | zero => simp [numberFrom] at h
  | succ n ih =>
    cases hdrop : sent.drop k with
    | nil =>
      rw [hdrop] at h
      simp [numberFrom] at h
    | cons payload rest =>
      have hk : k < sent.length := by
        by_contra hge
        rw [List.drop_eq_nil_of_le (Nat.not_lt.mp hge)] at hdrop
        cases hdrop
      rw [List.drop_eq_getElem_cons hk, List.take_succ_cons, numberFrom] at h
      rcases List.mem_cons.mp h with rfl | h
      · exact ⟨k, rfl, List.getElem?_eq_getElem hk⟩
      · exact ih h

/-- **The stream goes on where it was.**  Out of messages with the payloads that were
sent under their numbers, in any order, it takes the next ones of what was sent. -/
theorem receive_sent {sent : List (List UInt8)} (hsent : sent.length < 2 ^ 32)
    {msgs : List WireMessage} (hmsgs : ∀ msg ∈ msgs, msg.Among sent) {taken : ℕ}
    (htaken : taken ≤ sent.length) :
    ∃ taken', taken ≤ taken' ∧ taken' ≤ sent.length ∧
      (receive (UInt32.ofNat taken) msgs).1 = UInt32.ofNat taken' ∧
      sent.take taken ++ (receive (UInt32.ofNat taken) msgs).2 = sent.take taken' := by
  induction msgs generalizing taken with
  | nil => exact ⟨taken, Nat.le_refl _, htaken, rfl, List.append_nil _⟩
  | cons msg msgs ih =>
    obtain ⟨i, hnumber, hi⟩ := hmsgs msg List.mem_cons_self
    have hrest := fun m hm => hmsgs m (List.mem_cons_of_mem _ hm)
    have hlt : i < sent.length := (List.getElem?_eq_some_iff.mp hi).1
    obtain ⟨number, payload⟩ := msg
    dsimp only at hnumber hi
    subst hnumber
    rw [receive]
    -- the numbers do not wrap around
    have hiff : UInt32.ofNat i = UInt32.ofNat taken ↔ i = taken := by
      rw [← UInt32.toNat_inj, UInt32.toNat_ofNat', UInt32.toNat_ofNat',
        Nat.mod_eq_of_lt (by omega), Nat.mod_eq_of_lt (by omega)]
    by_cases heq : i = taken
    · subst heq
      have hone : UInt32.ofNat i + 1 = UInt32.ofNat (i + 1) := (UInt32.ofNat_add _ _).symm
      rw [if_pos rfl, hone]
      obtain ⟨taken', hle, hle', hexpected, hpayloads⟩ := ih hrest (show i + 1 ≤ _ from hlt)
      refine ⟨taken', by omega, hle', hexpected, ?_⟩
      rw [← hpayloads, List.take_add_one, hi, Option.toList_some, List.append_assoc]
      rfl
    · rw [if_neg fun h => heq (hiff.mp h)]
      exact ih hrest htaken

/-! ### The content of a packet -/

/-- A packet by its parts. -/
structure PacketContent where
  header : PacketHeader
  handshake : List UInt8
  messages : List WireMessage
  chunk : List (List UInt8)

namespace PacketContent

/-- The bytes of a packet. -/
def bytes (c : PacketContent) : List UInt8 :=
  c.header.encode ++ (c.handshake ++ (encodeSegment c.messages ++ encodeUnreliable c.chunk))

/-- A packet of an endpoint with the given limits, to which `sent` was passed. -/
structure Formed (limit : BandwidthLimit) (sent : List (List UInt8)) (c : PacketContent) :
    Prop where
  handshake : c.handshake = [] ∨ ∃ gap, c.handshake = letsConnectBytes limit gap
  among : ∀ msg ∈ c.messages, msg.Among sent
  fits : ∀ msg ∈ c.messages, msg.Fits
  chunkFits : ∀ payload ∈ c.chunk, PayloadFits payload
  short : c.bytes.length ≤ kJustAboveMtu

variable {limit : BandwidthLimit} {sent : List (List UInt8)} {c : PacketContent}

theorem Formed.append (h : c.Formed limit sent) (new : List (List UInt8)) :
    c.Formed limit (sent ++ new) :=
  ⟨h.handshake, fun msg hmsg => (h.among msg hmsg).append new, h.fits, h.chunkFits, h.short⟩

theorem length_bytes (c : PacketContent) :
    c.bytes.length = 12 + (c.handshake.length + ((encodeSegment c.messages).length
      + (encodeUnreliable c.chunk).length)) := by
  rw [bytes, List.length_append, List.length_append, List.length_append,
    PacketHeader.length_encode]

/-- The byte that counts the messages does not wrap. -/
theorem Formed.count_lt (h : c.Formed limit sent) : c.messages.length < 2 ^ 8 := by
  have hmin := length_le_encodeMessages h.fits
  have hshort := h.short
  have habove : kJustAboveMtu = 1600 := rfl
  rw [length_bytes, encodeSegment] at hshort
  split at hshort
  · next hnil =>
    rw [hnil]
    exact Nat.pow_pos Nat.zero_lt_two
  · rw [List.length_append] at hshort
    omega

end PacketContent

/-! ### Reading the streams -/

theorem encodeUnreliable_head {chunk : List (List UInt8)} {mem : Memory} {off : ℕ}
    (hne : chunk ≠ [])
    (hmem : mem.slice off (encodeUnreliable chunk).length = encodeUnreliable chunk) :
    mem off = ManagerType.unreliableStream.toU8 := by
  rw [encodeUnreliable, if_neg hne] at hmem
  obtain ⟨hhead, -⟩ := Memory.slice_eq_of_append hmem
  simp only [List.length_cons, List.length_nil, Memory.slice, List.cons.injEq] at hhead
  exact hhead.1

/-- The first two stages of reading streams, on a span with both segments. -/
theorem ReliableStream.val_read_before (s : ReliableStream) {b : Span} {mem : Memory}
    {msgs : List WireMessage} {chunk : List (List UInt8)} (hcount : msgs.length < 2 ^ 8)
    (hfits : ∀ msg ∈ msgs, msg.Fits)
    (hsize : b.size = (encodeSegment msgs ++ encodeUnreliable chunk).length)
    (hmem : mem.slice b.off b.size = encodeSegment msgs ++ encodeUnreliable chunk) :
    (s.read b mem).val
      = ({ s with nextExpectedSequenceNumber :=
            (receive s.nextExpectedSequenceNumber msgs).1 },
          (receive s.nextExpectedSequenceNumber msgs).2, .ok (encodeSegment msgs).length) := by
  rw [hsize] at hmem
  rw [List.length_append] at hsize
  obtain ⟨hsegment, hrest⟩ := Memory.slice_eq_of_append hmem
  by_cases hne : msgs = []
  · -- what comes first is not for this stream
    subst hne
    rw [read]
    by_cases hsmall : Segment.kSerializedSize > b.size
    · rw [if_pos hsmall]
      rfl
    · have hchunk : chunk ≠ [] := by
        rintro rfl
        refine hsmall ?_
        rw [hsize]
        decide
      have htype := encodeUnreliable_head hchunk hrest
      rw [if_neg hsmall]
      simp only [Checked.val_bind, Segment.managerType, val_readU8, Segment.kManagerTypeOffset,
        Checked.val_ite]
      rw [if_pos]
      · rfl
      · show mem (b.off + 0) ≠ _
        rw [show b.off + 0 = b.off + (encodeSegment ([] : List WireMessage)).length from rfl,
          htype]
        decide
  · exact s.val_read hne hcount hfits (by omega) hsegment

theorem UnreliableStream.val_read_last {b : Span} {mem : Memory} {chunk : List (List UInt8)}
    (hfits : ∀ payload ∈ chunk, PayloadFits payload)
    (hsize : b.size = (encodeUnreliable chunk).length)
    (hmem : mem.slice b.off b.size = encodeUnreliable chunk) :
    (read b mem).val.1 = chunk.take (chunk.length % 256) := by
  by_cases hne : chunk = []
  · subst hne
    have hzero : b.size = 0 := hsize
    rw [read, if_pos (by rw [hzero]; exact Nat.zero_lt_two)]
    rfl
  · rw [hsize] at hmem
    rw [val_read hne hfits (Nat.le_of_eq hsize.symm) hmem]

namespace Peer

/-- Reading both streams from a span that holds their segments. -/
theorem readStreams_content (config : ConnectionManagerConfig) (p : Peer)
    (limit : BandwidthLimit) {b : Span} {mem : Memory} {msgs : List WireMessage}
    {chunk : List (List UInt8)} (hcount : msgs.length < 2 ^ 8) (hfits : ∀ msg ∈ msgs, msg.Fits)
    (hchunk : ∀ payload ∈ chunk, PayloadFits payload)
    (hsize : b.size = (encodeSegment msgs ++ encodeUnreliable chunk).length)
    (hmem : mem.slice b.off b.size = encodeSegment msgs ++ encodeUnreliable chunk)
    (report : ReadReport) :
    let result := (readStreams config p limit b mem report).val
    (∃ ticker, result.1 = { p with
      sendPacketTicker := ticker
      reliableStream := { p.reliableStream with nextExpectedSequenceNumber :=
        (receive p.reliableStream.nextExpectedSequenceNumber msgs).1 } }) ∧
      result.2.reliable = (receive p.reliableStream.nextExpectedSequenceNumber msgs).2 ∧
      result.2.unreliable = chunk.take (chunk.length % 256) := by
  intro result
  have hrate : ∀ rate, ∃ ticker, p.updateSendRate rate = { p with sendPacketTicker := ticker } := by
    intro rate
    rw [updateSendRate]
    split <;> exact ⟨_, rfl⟩
  simp only [result]
  rw [readStreams]
  generalize hq : (if limit.maxReadPacketRate = 0 then _ else _ : Peer) = q
  obtain ⟨ticker, rfl⟩ : ∃ ticker, q = { p with sendPacketTicker := ticker } := by
    rw [← hq]
    split_ifs <;> exact hrate _
  have hread := p.reliableStream.val_read_before hcount hfits hsize hmem
  -- the unreliable segment is all that follows
  have hrest : usizeSub b.size (encodeSegment msgs).length = (encodeUnreliable chunk).length := by
    rw [hsize, List.length_append, usizeSub_of_le (Nat.le_add_right _ _),
      Nat.add_sub_cancel_left]
  rw [hsize] at hmem
  obtain ⟨-, htail⟩ := Memory.slice_eq_of_append hmem
  have hunreliable := @UnreliableStream.val_read_last
    ⟨b.off + (encodeSegment msgs).length, (encodeUnreliable chunk).length⟩ mem chunk hchunk rfl
    htail
  simp only [Checked.val_bind, hread, val_advance, hrest]
  cases hresult : (UnreliableStream.read ⟨b.off + (encodeSegment msgs).length,
      (encodeUnreliable chunk).length⟩ mem).val.2 with
  | error e => exact ⟨⟨ticker, rfl⟩, rfl, hunreliable⟩
  | ok count => exact ⟨⟨ticker, rfl⟩, rfl, hunreliable⟩

end Peer

/-! ### Reading the handshake -/

/-- Limits that stay valid whatever byte is taken for the low one of
`max_read_packet_size`. -/
def BandwidthLimit.Robust (limit : BandwidthLimit) : Prop :=
  100 ≤ limit.maxSendPacketSize ∧ 256 ≤ limit.maxReadPacketSize

instance (limit : BandwidthLimit) : Decidable limit.Robust := inferInstanceAs (Decidable (_ ∧ _))

theorem ConnectionManager.status_isFail (c : ConnectionManager) (id : PacketId)
    (status : PacketDeliveryStatus) :
    (c.onPacketStatusDelivery id status).val.isFail = c.isFail := by
  rcases c.status_cases id status with ⟨-, hval⟩ | ⟨-, -, hval⟩ | ⟨-, -, hval⟩ <;> rw [hval]

theorem BandwidthLimit.Robust.validLimit {limit : BandwidthLimit} (h : limit.Robust) :
    ConnectionManager.ValidLimit limit := by
  refine ⟨h.1, UInt16.le_iff_toNat_le.mpr ?_⟩
  have hread := UInt16.le_iff_toNat_le.mp h.2
  have h256 : (256 : UInt16).toNat = 256 := rfl
  have h100 : (100 : UInt16).toNat = 100 := rfl
  omega

theorem BandwidthLimit.Robust.valid {limit : BandwidthLimit} (h : limit.Robust) (low : UInt8) :
    ConnectionManager.ValidLimit (ConnectionManager.withLowByte limit low) := by
  have hread := UInt16.le_iff_toNat_le.mp h.2
  have h256 : (256 : UInt16).toNat = 256 := rfl
  rw [ConnectionManager.validLimit_withLowByte h.validLimit]
  omega

/-- Without a handshake the streams begin with another type. -/
theorem ConnectionManager.val_read_streams (c : ConnectionManager) {b : Span} {mem : Memory}
    {msgs : List WireMessage} {chunk : List (List UInt8)}
    (hsize : b.size = (encodeSegment msgs ++ encodeUnreliable chunk).length)
    (hmem : mem.slice b.off b.size = encodeSegment msgs ++ encodeUnreliable chunk) :
    (c.read b mem).val = (c, .ok 0) := by
  have hother : b.size < 2 ∨ mem b.off ≠ 0 := by
    rw [or_iff_not_imp_left]
    intro hge
    have hhead := head?_streams msgs chunk
    rw [← hmem, List.head?_eq_getElem?, Memory.getElem?_slice (by omega), streamsHead,
      Nat.add_zero] at hhead
    split_ifs at hhead
    · rw [Option.some_inj.mp hhead]
      decide
    · rw [Option.some_inj.mp hhead]
      decide
  rw [val_read, if_pos hother]

/-- The handshake of a packet is read up to its end, and is no reason to fail. -/
theorem ConnectionManager.read_content {limit : BandwidthLimit} {sent : List (List UInt8)}
    {content : PacketContent} (h : content.Formed limit sent) (hlimit : limit.Robust)
    (c : ConnectionManager) {b : Span} {mem : Memory}
    (hsize : b.size = (content.handshake ++ (encodeSegment content.messages
      ++ encodeUnreliable content.chunk)).length)
    (hmem : mem.slice b.off b.size = content.handshake ++ (encodeSegment content.messages
      ++ encodeUnreliable content.chunk)) :
    (c.read b mem).val.2 = .ok content.handshake.length ∧
      (c.isFail = false → (c.read b mem).val.1.isFail = false) := by
  rcases h.handshake with hnil | ⟨gap, hgap⟩
  · rw [hnil, List.nil_append] at hsize hmem
    rw [c.val_read_streams hsize hmem, hnil]
    exact ⟨rfl, fun hfail => hfail⟩
  · rw [hgap] at hsize hmem
    have hnine : (letsConnectBytes limit gap).length = 9 := by simp [letsConnectBytes]
    rw [hsize] at hmem
    obtain ⟨hbytes, -⟩ := Memory.slice_eq_of_append hmem
    rw [hnine] at hbytes
    have hthree : mem.slice b.off 3 = [0, 1, 0] := by
      have htake := Memory.take_drop_slice mem b.off (show 0 + 3 ≤ 9 by omega)
      rw [hbytes, List.drop_zero, Nat.add_zero] at htake
      rw [← htake]
      rfl
    rw [List.length_append, hnine] at hsize
    rw [c.read_letsConnect (by omega) hthree, limitAt_handshake hbytes, received,
      if_pos (hlimit.valid _), hgap, hnine]
    exact ⟨rfl, fun _ => rfl⟩

/-! ### What reading leaves alone -/

namespace Peer

theorem processDeliveryStatuses_keepsStreams {P : ReliableStream → Prop}
    (hstatus : ∀ s id status, P s → P (ReliableStream.onPacketDeliveryStatus s id status).val)
    {p : Peer} (h : P p.reliableStream) (statuses : DeliveryStatuses) :
    P (p.processDeliveryStatuses statuses).val.reliableStream ∧
      (p.processDeliveryStatuses statuses).val.unreliableStream = p.unreliableStream := by
  induction statuses generalizing p with
  | nil => exact ⟨h, rfl⟩
  | cons s statuses ih =>
    simp only [processDeliveryStatuses, Checked.val_bind]
    exact @ih { p with
      connectionManager := (p.connectionManager.onPacketStatusDelivery s.1 s.2).val
      reliableStream := (p.reliableStream.onPacketDeliveryStatus s.1 s.2).val }
      (hstatus _ _ _ h)

theorem dropOldPackets_keepsStreams {P : ReliableStream → Prop}
    (hstatus : ∀ s id status, P s → P (ReliableStream.onPacketDeliveryStatus s id status).val)
    {p : Peer} (h : P p.reliableStream) (now : ℤ) :
    P (p.dropOldPackets now).val.1.reliableStream ∧
      (p.dropOldPackets now).val.1.unreliableStream = p.unreliableStream := by
  rw [val_dropOldPackets]
  exact processDeliveryStatuses_keepsStreams hstatus (p := { p with
    packetDeliveryManager := (p.packetDeliveryManager.dropOldPackets now).1 }) h _

theorem readStreams_keepsStreams {P : ReliableStream → Prop}
    (hexpect : ∀ s expected, P s → P { s with nextExpectedSequenceNumber := expected })
    (config : ConnectionManagerConfig) {p : Peer} (h : P p.reliableStream)
    (limit : BandwidthLimit) (b : Span) (mem : Memory) (report : ReadReport) :
    P (readStreams config p limit b mem report).val.1.reliableStream ∧
      (readStreams config p limit b mem report).val.1.unreliableStream = p.unreliableStream := by
  have hrate : ∀ rate, (p.updateSendRate rate).reliableStream = p.reliableStream ∧
      (p.updateSendRate rate).unreliableStream = p.unreliableStream := by
    intro rate
    rw [updateSendRate]
    split <;> exact ⟨rfl, rfl⟩
  rw [readStreams]
  generalize hq : (if limit.maxReadPacketRate = 0 then _ else _ : Peer) = q
  obtain ⟨hreliable, hunreliable⟩ : q.reliableStream = p.reliableStream ∧
      q.unreliableStream = p.unreliableStream := by
    rw [← hq]
    split_ifs <;> exact hrate _
  obtain ⟨expected, hread⟩ := q.reliableStream.read_state b mem
  have hafter : P (q.reliableStream.read b mem).val.1 := by
    rw [hread, hreliable]
    exact hexpect _ _ h
  simp only [Checked.val_bind]
  split
  · exact ⟨hafter, hunreliable⟩
  · simp only [Checked.val_bind]
    split <;> exact ⟨hafter, hunreliable⟩

/-- What statuses and received messages keep true of the reliable stream, all of
`read` does.  The unreliable stream keeps no state of what is received. -/
theorem read_keepsStreams {P : ReliableStream → Prop}
    (hstatus : ∀ s id status, P s → P (ReliableStream.onPacketDeliveryStatus s id status).val)
    (hexpect : ∀ s expected, P s → P { s with nextExpectedSequenceNumber := expected })
    (config : ConnectionManagerConfig) {p : Peer} (h : P p.reliableStream) (b : Span)
    (mem : Memory) :
    P (p.read config b mem).val.1.reliableStream ∧
      (p.read config b mem).val.1.unreliableStream = p.unreliableStream := by
  rcases Peer.read_cases config p b mem with ⟨-, hval⟩ | ⟨-, hval⟩
  · rw [hval]
    exact ⟨h, rfl⟩
  · have hresolved := processDeliveryStatuses_keepsStreams hstatus (p := { p with
      packetDeliveryManager := (p.packetDeliveryManager.processRead
        (PacketHeader.read b mem).val).val.1 }) h
      (p.packetDeliveryManager.processRead (PacketHeader.read b mem).val).val.2.2.1
    rw [hval, readConnection]
    simp only [Checked.val_bind]
    split
    · exact hresolved
    · simp only [Checked.val_bind]
      split
      · exact hresolved
      · obtain ⟨hreliable, hunreliable⟩ := hresolved
        obtain ⟨hreliable', hunreliable'⟩ := readStreams_keepsStreams hexpect config
          (p := { (processDeliveryStatuses _ _).val with
            connectionManager := (ConnectionManager.read _ _ mem).val.1 }) hreliable _ _ mem _
        exact ⟨hreliable', hunreliable'.trans hunreliable⟩

/-! ### Packets -/

/-- The stages behind the header, for a packet. -/
theorem readConnection_content {limit : BandwidthLimit} {sent : List (List UInt8)}
    {content : PacketContent} (h : content.Formed limit sent) (hlimit : limit.Robust)
    (config : ConnectionManagerConfig) (p : Peer) {b : Span} {mem : Memory}
    (hsize : b.size = (content.handshake ++ (encodeSegment content.messages
      ++ encodeUnreliable content.chunk)).length)
    (hmem : mem.slice b.off b.size = content.handshake ++ (encodeSegment content.messages
      ++ encodeUnreliable content.chunk)) (id : PacketId) (statuses : DeliveryStatuses) :
    let result := (readConnection config p b mem ⟨id, true, statuses, none, [], []⟩).val
    let expected := p.reliableStream.nextExpectedSequenceNumber
    ((result.1.reliableStream.nextExpectedSequenceNumber, result.2.reliable) = (expected, []) ∨
        (result.1.reliableStream.nextExpectedSequenceNumber, result.2.reliable)
          = receive expected content.messages) ∧
      (result.2.unreliable = [] ∨
        result.2.unreliable = content.chunk.take (content.chunk.length % 256)) := by
  intro result expected
  obtain ⟨hcount, -⟩ := ConnectionManager.read_content h hlimit p.connectionManager hsize hmem
  simp only [result]
  rw [readConnection]
  simp only [Checked.val_bind, hcount, val_advance]
  cases hpeer : (p.connectionManager.read b mem).val.1.peerLimit with
  | none => exact ⟨Or.inl rfl, Or.inl rfl⟩
  | some peerLimit =>
    -- the streams take what is behind the handshake
    have hrest : usizeSub b.size content.handshake.length
        = (encodeSegment content.messages ++ encodeUnreliable content.chunk).length := by
      rw [hsize, List.length_append, usizeSub_of_le (Nat.le_add_right _ _),
        Nat.add_sub_cancel_left]
    rw [hsize] at hmem
    obtain ⟨-, hstreams⟩ := Memory.slice_eq_of_append hmem
    obtain ⟨⟨ticker, hticked⟩, hreliable, hunreliable⟩ := @readStreams_content config
      { p with connectionManager := (p.connectionManager.read b mem).val.1 } peerLimit
      ⟨b.off + content.handshake.length, _⟩ mem content.messages content.chunk h.count_lt h.fits
      h.chunkFits rfl hstreams ⟨id, true, statuses, none, [], []⟩
    simp only [hrest]
    refine ⟨Or.inr ?_, Or.inr hunreliable⟩
    rw [hticked, hreliable]

/-- **Reading a packet**: its messages are received, or none of them; unreliable
ones only if the packet is not too old. -/
theorem read_content {limit : BandwidthLimit} {sent : List (List UInt8)}
    {content : PacketContent} (h : content.Formed limit sent) (hlimit : limit.Robust)
    (config : ConnectionManagerConfig) (p : Peer) (mem : Memory) :
    let result := (p.read config ⟨0, content.bytes.length⟩ (mem.storeList 0 content.bytes)).val
    let expected := p.reliableStream.nextExpectedSequenceNumber
    result.1.packetDeliveryManager
        = (p.packetDeliveryManager.processRead content.header).val.1 ∧
      ((result.1.reliableStream.nextExpectedSequenceNumber, result.2.reliable) = (expected, []) ∨
        (result.1.reliableStream.nextExpectedSequenceNumber, result.2.reliable)
          = receive expected content.messages) ∧
      (result.2.unreliable = [] ∨
        ¬ content.header.id < p.packetDeliveryManager.nextExpectedPacketId ∧
          result.2.unreliable = content.chunk.take (content.chunk.length % 256)) ∧
      (p.connectionManager.isFail = false → result.1.connectionManager.isFail = false) := by
  intro result expected
  have hslice := Memory.slice_storeList_self mem 0 content.bytes
  simp only [result]
  generalize mem.storeList 0 content.bytes = mem' at hslice ⊢
  have hlength : content.bytes.length = 12 + (content.handshake ++ (encodeSegment
      content.messages ++ encodeUnreliable content.chunk)).length := by
    rw [PacketContent.bytes, List.length_append, PacketHeader.length_encode]
  rw [PacketContent.bytes] at hslice
  obtain ⟨hhead, htail⟩ := Memory.slice_eq_of_append hslice
  rw [PacketHeader.length_encode] at hhead htail
  have hheader : (PacketHeader.read ⟨0, content.bytes.length⟩ mem').val = content.header :=
    PacketHeader.val_read hhead
  refine ⟨by rw [read_delivery, hheader], ?_⟩
  rcases Peer.read_cases config p ⟨0, content.bytes.length⟩ mem' with ⟨-, hval⟩ | ⟨hnew, hval⟩
  · rw [hval]
    exact ⟨Or.inl rfl, Or.inl rfl, fun hfail => hfail⟩
  · rw [hheader] at hnew hval
    have hsize : usizeSub content.bytes.length 12 = (content.handshake ++ (encodeSegment
        content.messages ++ encodeUnreliable content.chunk)).length := by
      rw [hlength, usizeSub_of_le (Nat.le_add_right _ _), Nat.add_sub_cancel_left]
    rw [hval, hsize]
    generalize (p.packetDeliveryManager.processRead content.header).val.2.2.1 = statuses
    generalize (p.packetDeliveryManager.processRead content.header).val.1 = delivery
    -- statuses change neither what is expected nor whether the handshake has failed
    have hexpected := (processDeliveryStatuses_keepsStreams
      (P := fun s => s.nextExpectedSequenceNumber = expected)
      (fun s id status hs => (ReliableStream.status_nextExpected s id status).trans hs)
      (p := { p with packetDeliveryManager := delivery }) rfl statuses).1
    have hstatuses := processDeliveryStatuses_connection ConnectionManager.isFail
      ConnectionManager.status_isFail { p with packetDeliveryManager := delivery } statuses
    generalize (processDeliveryStatuses { p with packetDeliveryManager := delivery }
      statuses).val = q at hexpected hstatuses ⊢
    obtain ⟨hreliable, hunreliable⟩ := readConnection_content h hlimit config q
      (b := ⟨0 + 12, _⟩) rfl htail content.header.id statuses
    rw [hexpected] at hreliable
    refine ⟨hreliable, hunreliable.imp id fun h => ⟨hnew, h⟩, fun hfail => ?_⟩
    rw [readConnection_connection]
    refine (ConnectionManager.read_content h hlimit q.connectionManager
      (b := ⟨0 + 12, _⟩) rfl htail).2 ?_
    rw [hstatuses]
    exact hfail

end Peer

/-! ### Writing -/

/-- What a packet takes, and what is left of the stream. -/
theorem UnreliableStream.Sound.write_payloads {capacity : ℕ} {s : UnreliableStream}
    (h : s.Sound capacity) (b : Span) (mem : Memory) :
    (s.payloads.take (s.fitCount b.size) ++ (s.write b mem).val.1.payloads).Sublist
      s.payloads := by
  by_cases hfit : s.fitCount b.size = 0
  · rw [hfit, List.take_zero, s.write_of_fitCount b mem hfit]
    exact List.Sublist.refl _
  · -- what does not fit is dropped
    rw [payloads, payloads, (h.write_state b mem hfit).1, List.map_nil, List.append_nil]
    exact List.take_sublist _ _

namespace Peer

variable {p : Peer}

/-- The parts of the packet that is written next, given the byte in the gap. -/
def nextContent (p : Peer) (now : ℤ) (size : UInt16) (gap : UInt8) : PacketContent where
  header := (p.packetDeliveryManager.nextHeader now).val.2
  handshake := p.connectionManager.encodeHandshake gap
  messages := p.takenReliable size
  chunk := p.takenUnreliable size

theorem bytes_nextContent (p : Peer) (now : ℤ) (size : UInt16) (gap : UInt8) :
    (p.encodePacket now size gap).payload = (p.nextContent now size gap).bytes :=
  p.encodePacket_payload now size gap

/-- The stages behind the handshake, in the room that it leaves. -/
theorem writeToPeer_streams (p : Peer) (mem : Memory) (now : ℤ) (size : UInt16) :
    let p' := (p.writeToPeer mem now size).val.1
    let room := p.streamRoom size
    (∃ id b mem', p'.connectionManager = (p.connectionManager.write id b mem').val.1) ∧
      (∃ id b mem', p'.reliableStream = (p.reliableStream.write id b mem').val.1) ∧
      ∃ b mem', b.size = usizeSub room (encodeSegment (p.takenReliable size)).length ∧
        p'.unreliableStream = (p.unreliableStream.write b mem').val.1 := by
  intro p' room
  have hcount : ∀ (id : PacketId) (b : Span) (mem : Memory),
      (p.connectionManager.write id b mem).val.2.2
        = (p.connectionManager.encodeHandshake 0).length := by
    intro id b mem
    rw [(p.connectionManager.write_encodeHandshake id b mem).1]
    exact p.connectionManager.length_encodeHandshake _ _
  simp only [p', writeToPeer, Checked.val_bind, Checked.val_pure, PacketDeliveryManager.val_write]
  refine ⟨⟨_, _, _, rfl⟩, ⟨_, _, _, rfl⟩, _, _, ?_, rfl⟩
  simp only [val_advance, hcount, ReliableStream.val_write]
  rfl

variable {k : ℕ} {sent : List (List UInt8)}

/-- The packet of an entry with enough room is formed. -/
theorem nextContent_formed (hreliable : Represents 3200 p.reliableStream k sent)
    (hunreliable : p.unreliableStream.Sound 3200) (hfail : p.connectionManager.isFail = false)
    (now : ℤ) {size : UInt16} (hroom : 21 ≤ (min kJustBelowMtu size).toNat) (gap : UInt8) :
    (p.nextContent now size gap).Formed p.connectionManager.config.limit sent := by
  have hmtu : (min kJustBelowMtu size).toNat ≤ 1400 := by
    have hle := (le_toNat_min_iff (x := kJustBelowMtu) (y := size)).mp (Nat.le_refl _)
    exact hle.1
  have hhandshake : (p.connectionManager.encodeHandshake 0).length ≤ 9 := by
    rw [ConnectionManager.encodeHandshake]
    split_ifs <;> simp [letsConnectBytes]
  have hspan : p.streamRoom size + (12 + (p.connectionManager.encodeHandshake 0).length)
      ≤ 1400 := by
    have htwelve := usizeSub_of_le (show 12 ≤ (min kJustBelowMtu size).toNat by omega)
    rw [streamRoom, htwelve, usizeSub_of_le (by omega)]
    omega
  have hsegment : (encodeSegment (p.takenReliable size)).length ≤ p.streamRoom size :=
    p.reliableStream.length_encodeSegment_le _
  have hchunk : (encodeUnreliable (p.takenUnreliable size)).length
      ≤ usizeSub (p.streamRoom size) (encodeSegment (p.takenReliable size)).length :=
    UnreliableStream.encodeUnreliable_length_le _ _
  rw [usizeSub_of_le hsegment] at hchunk
  refine ⟨?_, ?_, (hreliable.taken_fits (by omega)).1, ?_, ?_⟩
  · show p.connectionManager.encodeHandshake gap = [] ∨
      ∃ gap', p.connectionManager.encodeHandshake gap = _
    rw [ConnectionManager.encodeHandshake, hfail]
    split
    · exact Or.inr ⟨gap, rfl⟩
    · exact Or.inl rfl
  · intro msg hmsg
    have hwire : p.takenReliable size = numberFrom (k + p.reliableStream.inFlightMessages.length)
        ((sent.drop (k + p.reliableStream.inFlightMessages.length)).take
          (p.reliableStream.fitCount (p.streamRoom size))) := by
      rw [takenReliable, List.map_take, hreliable.pending_toWire, numberFrom_take]
    rw [show (p.nextContent now size gap).messages = _ from hwire] at hmsg
    exact among_numberFrom hmsg
  · show ∀ payload ∈ p.takenUnreliable size, PayloadFits payload
    rw [takenUnreliable, UnreliableStream.fitCount_eq_longestFit]
    refine hunreliable.payloadFits ?_
    rw [usizeSub_of_le hsegment]
    omega
  · have hlength := (p.nextContent now size gap).length_bytes
    have hgap : (p.nextContent now size gap).handshake.length
        = (p.connectionManager.encodeHandshake 0).length :=
      p.connectionManager.length_encodeHandshake _ _
    have habove : kJustAboveMtu = 1600 := rfl
    rw [hlength, hgap]
    show 12 + (_ + ((encodeSegment (p.takenReliable size)).length
      + (encodeUnreliable (p.takenUnreliable size)).length)) ≤ _
    omega

end Peer

end Neptun
