/-
Reading past the end of a datagram.

A datagram lies at the beginning of the network buffer, in front of whatever the
buffer held before.  No stage of `read` knows where it ends except by the size of
its span, and the connection manager does not look at that before it reads a
`LetsConnect`; a datagram without a whole header is not noticed either.

* `Peer.Seals` — the datagrams that are read without the bytes behind them;
* `Peer.read_sealed_iff` — they are exactly those for which the new state does not
  depend on the old contents of the buffer.
-/
import Neptun.AckLog
import Neptun.ReliableSegment

namespace Neptun

/-! ### Reading the streams -/

/-- Two buffers with the same bytes inside the span. -/
def Span.Agree (b : Span) (mem mem' : Memory) : Prop :=
  ∀ i < b.size, mem (b.off + i) = mem' (b.off + i)

namespace Span.Agree

variable {b : Span} {mem mem' : Memory}

theorem slice (h : b.Agree mem mem') {i k : ℕ} (hle : i + k ≤ b.size) :
    mem.slice (b.off + i) k = mem'.slice (b.off + i) k := by
  refine Memory.slice_congr fun j hj => ?_
  rw [Nat.add_assoc]
  exact h (i + j) (by omega)

theorem advance (h : b.Agree mem mem') {i : ℕ} (hle : i ≤ b.size) :
    Span.Agree ⟨b.off + i, b.size - i⟩ mem mem' := by
  intro j hj
  dsimp only at hj ⊢
  rw [Nat.add_assoc]
  exact h (i + j) (by omega)

theorem validateSize (h : b.Agree mem mem') {minimumSize lengthOffset : ℕ}
    (hle : lengthOffset + 2 ≤ minimumSize) :
    (Neptun.validateSize minimumSize lengthOffset b mem).val
      = (Neptun.validateSize minimumSize lengthOffset b mem').val := by
  rw [Neptun.validateSize, Neptun.validateSize]
  split
  · rfl
  · next hsize =>
    simp only [Checked.val_bind, val_readU16, h.slice (by omega : lengthOffset + 2 ≤ b.size)]

end Span.Agree

/-- The sequence number that the loop of `ReliableStream::read` ends with depends on
its span only. -/
theorem ReliableStream.readLoop_congr {b : Span} {mem mem' : Memory} (h : b.Agree mem mem')
    (n : ℕ) {idx : ℕ} (hidx : idx ≤ b.size) (expected : UInt32) :
    (readLoop b mem n idx expected).val.1 = (readLoop b mem' n idx expected).val.1 := by
  induction n generalizing idx expected with
  | zero => rfl
  | succ n ih =>
    have hsize := (h.advance hidx).validateSize (by decide : 4 + 2 ≤ 4 + 2)
    obtain ⟨-, hok⟩ := validateSize_inside (by decide : 4 + 2 ≤ 4 + 2)
      ⟨b.off + idx, b.size - idx⟩ mem
    simp only [readLoop, Checked.val_bind, val_advance, usizeSub_of_le hidx,
      ReliableMessage.validateSize, ReliableMessage.kLengthOffset,
      ReliableMessage.kSequenceNumberOffset, Nat.zero_add, ← hsize]
    cases hval : (Neptun.validateSize (4 + 2) 4 ⟨b.off + idx, b.size - idx⟩ mem).val with
    | error e => rfl
    | ok size =>
      obtain ⟨hmin, hmax⟩ := hok size hval
      dsimp only at hmax
      -- `validate_size` has seen the whole message, so its sequence number is in the span
      have hnumber : mem.slice (b.off + idx) 4 = mem'.slice (b.off + idx) 4 :=
        h.slice (by omega)
      simp only [Checked.val_bind, Checked.val_ite, ReliableMessage.sequenceNumber,
        ReliableMessage.kSequenceNumberOffset, val_readU32, Nat.add_zero, hnumber]
      split
      · exact ih (by omega) _
      · exact ih (by omega) _

theorem ReliableStream.read_congr (s : ReliableStream) {b : Span} {mem mem' : Memory}
    (h : b.Agree mem mem') : (s.read b mem).val.1 = (s.read b mem').val.1 := by
  rw [read, read]
  split
  · rfl
  · next hsize =>
    have h2 : 2 ≤ b.size := Nat.not_lt.mp hsize
    have htype := h 0 (by omega)
    have hcount := h 1 (by omega)
    simp only [Checked.val_bind, Checked.val_ite, Segment.managerType, Segment.messageCount,
      Segment.kManagerTypeOffset, Segment.kMessageCountOffset, val_readU8, htype, hcount,
      Nat.zero_add]
    split
    · rfl
    · exact congrArg (fun expected => { s with nextExpectedSequenceNumber := expected })
        (readLoop_congr h _ h2 _)

namespace Peer

/-- Apart from the send rate, the streams change the reliable stream only. -/
theorem readStreams_state (config : ConnectionManagerConfig) (p : Peer)
    (limit : BandwidthLimit) :
    ∃ q : Peer, ∀ (b : Span) (mem : Memory) (report : ReadReport),
      (readStreams config p limit b mem report).val.1
        = { q with reliableStream := (p.reliableStream.read b mem).val.1 } := by
  have hrate : ∀ rate, (p.updateSendRate rate).reliableStream = p.reliableStream := by
    intro rate
    rw [updateSendRate]
    split <;> rfl
  refine ⟨if limit.maxReadPacketRate = 0 then p.updateSendRate config.limit.maxSendPacketRate
    else if config.limit.maxSendPacketRate = 0 then p.updateSendRate limit.maxReadPacketRate
    else p.updateSendRate (min limit.maxReadPacketRate config.limit.maxSendPacketRate),
    fun b mem report => ?_⟩
  rw [readStreams]
  generalize hq : (if limit.maxReadPacketRate = 0 then _ else _ : Peer) = q
  have hstream : q.reliableStream = p.reliableStream := by
    rw [← hq]
    split_ifs <;> exact hrate _
  simp only [Checked.val_bind, hstream]
  split
  · rfl
  · simp only [Checked.val_bind]
    split <;> rfl

end Peer

/-! ### Reading the handshake -/

/-- A handshake at the beginning of the span is read without the bytes behind the
span: it is complete, or it is refused because of a field that is there and nothing
of the streams is read behind it. -/
def Span.SealsHandshake (b : Span) (mem : Memory) (connected : Bool) : Prop :=
  2 ≤ b.size → mem b.off = 0 → mem (b.off + 1) = 1 → 3 ≤ b.size ∧
    (mem (b.off + 2) = 0 → 10 ≤ b.size ∨
      (8 ≤ b.size ∧ ¬ (ConnectionManager.limitAt mem (b.off + 3)).maxSendPacketSize ≥ 100 ∧
        (9 ≤ b.size ∨ connected = false)))

/-- What `ConnectionManager::read` returns depends on such a span only. -/
theorem ConnectionManager.read_congr (c : ConnectionManager) {b : Span} {mem mem' : Memory}
    (h : b.Agree mem mem') {connected : Bool} (hsealed : b.SealsHandshake mem connected) :
    (c.read b mem).val = (c.read b mem').val := by
  rw [val_read, val_read]
  by_cases hsize : b.size < 2
  · rw [if_pos (Or.inl hsize), if_pos (Or.inl hsize)]
  · have hfirst : mem b.off = mem' b.off := h 0 (by omega)
    rw [← hfirst, ← h 1 (by omega)]
    by_cases h0 : mem b.off = 0
    · by_cases h1 : mem (b.off + 1) = 1
      · obtain ⟨h3, hbody⟩ := hsealed (by omega) h0 h1
        rw [← h 2 (by omega)]
        -- a `LetsConnect` is the only message with more than a type
        by_cases h2 : mem (b.off + 2) = 0
        · have hreceived : c.received (limitAt mem (b.off + 3))
              = c.received (limitAt mem' (b.off + 3)) := by
            rcases hbody h2 with h10 | ⟨h8, hrefused, -⟩
            · have hlimit : limitAt mem (b.off + 3) = limitAt mem' (b.off + 3) := by
                simp only [limitAt, Nat.add_assoc, Nat.reduceAdd, h 3 (by omega), h 4 (by omega),
                  h.slice (by omega : 6 + 2 ≤ b.size), h.slice (by omega : 8 + 2 ≤ b.size)]
              rw [hlimit]
            · -- the size that is refused is in the span
              have hsend : (limitAt mem (b.off + 3)).maxSendPacketSize
                  = (limitAt mem' (b.off + 3)).maxSendPacketSize := by
                simp only [limitAt, Nat.add_assoc, Nat.reduceAdd,
                  h.slice (by omega : 6 + 2 ≤ b.size)]
              rw [received, received, if_neg (fun hvalid => hrefused hvalid.1), if_neg]
              rw [hsend] at hrefused
              exact fun hvalid => hrefused hvalid.1
          rw [hreceived]
        · rw [if_neg h2, if_neg h2]
      · rw [if_pos h1, if_pos h1]
    · rw [if_pos (Or.inr h0), if_pos (Or.inr h0)]

/-- Where the streams begin. -/
theorem ConnectionManager.read_count {c : ConnectionManager} {b : Span} {mem : Memory} {count : ℕ}
    (h : (c.read b mem).val.2 = .ok count) :
    count = 0 ∨ (count = 9 ∧ 2 ≤ b.size ∧ mem b.off = 0 ∧ mem (b.off + 1) = 1 ∧
      mem (b.off + 2) = 0 ∧ (c.read b mem).val.1 = c.received (limitAt mem (b.off + 3))) := by
  rw [val_read] at h ⊢
  split_ifs at h ⊢ with hnone hone hzero hreject
  · cases h
    exact Or.inl rfl
  · cases h
    rw [not_or, not_not] at hnone
    exact Or.inr ⟨rfl, by omega, hnone.2, not_not.mp hone, hzero, rfl⟩

/-- The stages behind the header depend on such a span only. -/
theorem Peer.readConnection_congr (config : ConnectionManagerConfig) (p : Peer) {b : Span}
    {mem mem' : Memory} (h : b.Agree mem mem')
    (hsealed : b.SealsHandshake mem p.connectionManager.isPeerConnected)
    (report report' : ReadReport) :
    (readConnection config p b mem report).val.1
      = (readConnection config p b mem' report').val.1 := by
  rw [readConnection, readConnection]
  simp only [Checked.val_bind, ← p.connectionManager.read_congr h hsealed]
  cases hresult : (p.connectionManager.read b mem).val.2 with
  | error e => rfl
  | ok count =>
    simp only [Checked.val_bind, val_advance]
    cases hlimit : (p.connectionManager.read b mem).val.1.peerLimit with
    | none => rfl
    | some limit =>
      -- the streams begin inside the span
      have hstreams : Span.Agree ⟨b.off + count, usizeSub b.size count⟩ mem mem' := by
        rcases ConnectionManager.read_count hresult with rfl | ⟨rfl, h2, hm0, hm1, hm2, hstate⟩
        · rw [usizeSub_of_le (Nat.zero_le _)]
          exact h.advance (Nat.zero_le _)
        · have h9 : 9 ≤ b.size := by
            rcases (hsealed h2 hm0 hm1).2 hm2 with h10 | ⟨-, hrefused, h9 | hnot⟩
            · omega
            · exact h9
            · -- a peer that is not connected does not become so
              rw [hstate, ConnectionManager.received, if_neg (fun hvalid => hrefused hvalid.1),
                ConnectionManager.peerLimit] at hlimit
              rw [ConnectionManager.isPeerConnected, hlimit] at hnot
              cases hnot
          rw [usizeSub_of_le h9]
          exact h.advance h9
      obtain ⟨q, hq⟩ := readStreams_state config
        { p with connectionManager := (p.connectionManager.read b mem).val.1 } limit
      rw [hq, hq, ReliableStream.read_congr _ hstreams]

/-- The bytes behind the header are not a handshake that needs the bytes behind the
datagram: it is complete, or it is refused because of a field that is there and nothing
of the streams is read behind it. -/
def SealedHandshake (rest : List UInt8) (connected : Bool) : Prop :=
  rest[0]? = some 0 → rest[1]? = some 1 → 3 ≤ rest.length ∧
    (rest[2]? = some 0 → 10 ≤ rest.length ∨
      (8 ≤ rest.length ∧ beDecode ((rest.drop 6).take 2) < 100 ∧
        (9 ≤ rest.length ∨ connected = false)))

namespace ConnectionManager

theorem limitAt_maxSendPacketSize (mem : Memory) (a : ℕ) :
    (limitAt mem a).maxSendPacketSize.toNat
      = (mem (a + 3)).toNat * 256 + (mem (a + 4)).toNat := by
  have h3 := (mem (a + 3)).toNat_lt
  have h4 := (mem (a + 4)).toNat_lt
  simp only [limitAt, Memory.slice, beDecode, List.length_cons, List.length_nil, Nat.add_assoc,
    Nat.reduceAdd, pow_one, pow_zero, Nat.mul_one, Nat.add_zero]
  exact UInt16.toNat_ofNat_of_lt' (by rw [UInt16.size]; omega)

theorem limitAt_maxReadPacketSize (mem : Memory) (a : ℕ) :
    (limitAt mem a).maxReadPacketSize.toNat
      = (mem (a + 5)).toNat * 256 + (mem (a + 6)).toNat := by
  have h5 := (mem (a + 5)).toNat_lt
  have h6 := (mem (a + 6)).toNat_lt
  simp only [limitAt, Memory.slice, beDecode, List.length_cons, List.length_nil, Nat.add_assoc,
    Nat.reduceAdd, pow_one, pow_zero, Nat.mul_one, Nat.add_zero]
  exact UInt16.toNat_ofNat_of_lt' (by rw [UInt16.size]; omega)

end ConnectionManager

section

variable {payload : List UInt8}

theorem sealsHandshake_iff (h12 : 12 ≤ payload.length) (mem : Memory) (connected : Bool) :
    Span.SealsHandshake ⟨12, payload.length - 12⟩ (mem.storeList 0 payload) connected
      ↔ SealedHandshake (payload.drop 12) connected := by
  have hbyte : ∀ i < payload.length, ∀ byte,
      mem.storeList 0 payload i = byte ↔ payload[i]? = some byte :=
    fun i hi byte => storeList_eq_iff _ _ hi byte
  simp only [Span.SealsHandshake, SealedHandshake, List.getElem?_drop, List.length_drop,
    List.drop_drop, Nat.reduceAdd, Nat.add_zero]
  constructor
  · intro h h0 h1
    have h14 : 13 < payload.length := (List.getElem?_eq_some_iff.mp h1).1
    obtain ⟨h3, hbody⟩ := h (by omega) ((hbyte 12 (by omega) 0).mpr h0) ((hbyte 13 h14 1).mpr h1)
    refine ⟨h3, fun h2 => ?_⟩
    refine (hbody ((hbyte 14 (by omega) 0).mpr h2)).imp id ?_
    rintro ⟨h8, hrefused, hend⟩
    rw [maxSendPacketSize_storeList (by omega), not_not] at hrefused
    exact ⟨h8, hrefused, hend⟩
  · intro h hsize h0 h1
    obtain ⟨h3, hbody⟩ := h ((hbyte 12 (by omega) 0).mp h0) ((hbyte 13 (by omega) 1).mp h1)
    refine ⟨h3, fun h2 => ?_⟩
    refine (hbody ((hbyte 14 (by omega) 0).mp h2)).imp id ?_
    rintro ⟨h8, hrefused, hend⟩
    rw [maxSendPacketSize_storeList (by omega), not_not]
    exact ⟨h8, hrefused, hend⟩

end

namespace ConnectionManager

variable {mem mem' : Memory} {a : ℕ}

theorem validLimit_limitAt (hsend : 100 ≤ (mem (a + 3)).toNat * 256 + (mem (a + 4)).toNat)
    (hread : 100 ≤ (mem (a + 6)).toNat) : ValidLimit (limitAt mem a) := by
  constructor
  · rw [ge_iff_le, UInt16.le_iff_toNat_le, limitAt_maxSendPacketSize]
    exact hsend
  · rw [ge_iff_le, UInt16.le_iff_toNat_le, limitAt_maxReadPacketSize]
    exact Nat.le_add_left_of_le hread

/-- The last byte of a `LetsConnect` matters. -/
theorem last_of_limitAt_eq (h : limitAt mem a = limitAt mem' a) : mem (a + 6) = mem' (a + 6) := by
  have hsize := congrArg (fun limit => limit.maxReadPacketSize.toNat) h
  rw [limitAt_maxReadPacketSize, limitAt_maxReadPacketSize] at hsize
  have h6 := (mem (a + 6)).toNat_lt
  have h6' := (mem' (a + 6)).toNat_lt
  exact UInt8.toNat_inj.mp (by omega)

end ConnectionManager

namespace Peer

variable {payload : List UInt8}

/-- The limits are stored as they are read. -/
theorem readConnection_limit (config : ConnectionManagerConfig) (p : Peer) {b : Span}
    {mem : Memory} (report : ReadReport) (hsize : 2 ≤ b.size)
    (hbytes : mem.slice b.off 3 = [0, 1, 0])
    (hvalid : ConnectionManager.ValidLimit (ConnectionManager.limitAt mem (b.off + 3))) :
    (readConnection config p b mem report).val.1.connectionManager.peerBandwidthLimit
      = some (ConnectionManager.limitAt mem (b.off + 3)) := by
  rw [readConnection_connection, ConnectionManager.read_letsConnect _ hsize hbytes,
    ConnectionManager.received, if_pos hvalid]

/-- An old buffer that completes a `LetsConnect`. -/
def stale (byte : UInt8) : Memory := fun i => if i = 14 then 0 else if i = 21 then byte else 255

/-- A `LetsConnect` that is cut off takes its limits from the old buffer. -/
theorem not_sealed_of_letsConnect (config : ConnectionManagerConfig) (p : Peer)
    (report : ReadReport) (h14 : 14 ≤ payload.length) (h22 : payload.length < 22)
    (h0 : payload[12]? = some 0) (h1 : payload[13]? = some 1)
    (h2 : 15 ≤ payload.length → payload[14]? = some 0)
    (hsend : 20 ≤ payload.length → ¬ beDecode ((payload.drop 18).take 2) < 100) :
    ¬ ∀ mem mem' : Memory,
      (readConnection config p ⟨12, payload.length - 12⟩ (mem.storeList 0 payload) report).val.1
        = (readConnection config p ⟨12, payload.length - 12⟩ (mem'.storeList 0 payload)
          report).val.1 := by
  have hlimit : ∀ byte : UInt8, 100 ≤ byte.toNat →
      (readConnection config p ⟨12, payload.length - 12⟩ ((stale byte).storeList 0 payload)
        report).val.1.connectionManager.peerBandwidthLimit
      = some (ConnectionManager.limitAt ((stale byte).storeList 0 payload) 15) := by
    intro byte hbyte
    have hlast : (stale byte).storeList 0 payload 21 = byte :=
      Memory.storeList_apply_of_ge (by omega)
    have hrest : ∀ i, payload.length ≤ i → i ≠ 14 → i ≠ 21 →
        (stale byte).storeList 0 payload i = 255 := by
      intro i hi h14 h21
      rw [Memory.storeList_apply_of_ge (by omega), stale, if_neg h14, if_neg h21]
    have hfirst := (storeList_eq_iff (stale byte) payload (by omega) 0).mpr h0
    have hcount := (storeList_eq_iff (stale byte) payload (by omega) 1).mpr h1
    have htype : (stale byte).storeList 0 payload 14 = 0 := by
      by_cases h15 : 15 ≤ payload.length
      · exact (storeList_eq_iff (stale byte) payload h15 0).mpr (h2 h15)
      · exact Memory.storeList_apply_of_ge (by omega)
    refine readConnection_limit config p report (by dsimp only; omega) ?_ ?_
    · simp only [Memory.slice, hfirst, hcount, htype]
    · refine ConnectionManager.validLimit_limitAt ?_ (by rw [hlast]; exact hbyte)
      -- the size that is checked first is there and large enough, or it is stale
      by_cases h20 : 20 ≤ payload.length
      · have hge := (maxSendPacketSize_storeList h20 (stale byte)).mpr (hsend h20)
        rw [ge_iff_le, UInt16.le_iff_toNat_le, ConnectionManager.limitAt_maxSendPacketSize] at hge
        exact hge
      · have h255 : (255 : UInt8).toNat = 255 := rfl
        have h19 := hrest 19 (by omega) (by decide) (by decide)
        dsimp only [Nat.reduceAdd]
        rw [h19, h255]
        omega
  intro hsealed
  have heq := congrArg (fun p => p.connectionManager.peerBandwidthLimit)
    (hsealed (stale 100) (stale 101))
  rw [hlimit 100 (by decide), hlimit 101 (by decide), Option.some_inj] at heq
  have hbyte := ConnectionManager.last_of_limitAt_eq heq
  rw [Memory.storeList_apply_of_ge (by omega), Memory.storeList_apply_of_ge (by omega)] at hbyte
  cases hbyte

/-- Behind a `LetsConnect` that is refused, the streams are read nevertheless. -/
theorem readConnection_refused (config : ConnectionManagerConfig) {p : Peer} {b : Span}
    {mem : Memory} (report : ReadReport) (hsize : 2 ≤ b.size)
    (hbytes : mem.slice b.off 3 = [0, 1, 0])
    (hrefused : ¬ (ConnectionManager.limitAt mem (b.off + 3)).maxSendPacketSize ≥ 100)
    (hconnected : p.connectionManager.isPeerConnected = true) :
    (readConnection config p b mem report).val.1.reliableStream
      = (p.reliableStream.read ⟨b.off + 9, usizeSub b.size 9⟩ mem).val.1 := by
  obtain ⟨limit, hlimit⟩ := Option.isSome_iff_exists.mp hconnected
  have hread := p.connectionManager.read_letsConnect hsize hbytes
  rw [ConnectionManager.received, if_neg fun hvalid => hrefused hvalid.1] at hread
  simp only [readConnection, Checked.val_bind, hread, ConnectionManager.peerLimit, hlimit,
    val_advance]
  obtain ⟨q, hq⟩ := readStreams_state config { p with connectionManager :=
    { p.connectionManager with isFail := true, peerBandwidthLimit := some limit } } limit
  exact congrArg reliableStream (hq _ _ _)

/-- Behind a datagram that ends in a `LetsConnect` that is refused, the old buffer is
read as a stream. -/
theorem not_sealed_of_refused (config : ConnectionManagerConfig) {p : Peer}
    (report : ReadReport) (h20 : payload.length = 20) (h0 : payload[12]? = some 0)
    (h1 : payload[13]? = some 1) (h2 : payload[14]? = some 0)
    (hsend : beDecode ((payload.drop 18).take 2) < 100)
    (hconnected : p.connectionManager.isPeerConnected = true) :
    ¬ ∀ mem mem' : Memory,
      (readConnection config p ⟨12, payload.length - 12⟩ (mem.storeList 0 payload) report).val.1
        = (readConnection config p ⟨12, payload.length - 12⟩ (mem'.storeList 0 payload)
          report).val.1 := by
  have hstream : ∀ mem : Memory,
      (readConnection config p ⟨12, payload.length - 12⟩ (mem.storeList 0 payload)
        report).val.1.reliableStream
      = (p.reliableStream.read ⟨21, usizeSub 8 9⟩ (mem.storeList 0 payload)).val.1 := by
    intro mem
    have hfirst := (storeList_eq_iff mem payload (by omega) 0).mpr h0
    have hcount := (storeList_eq_iff mem payload (by omega) 1).mpr h1
    have htype := (storeList_eq_iff mem payload (by omega) 0).mpr h2
    rw [h20]
    refine readConnection_refused config report (by decide) ?_ ?_ hconnected
    · simp only [Memory.slice, hfirst, hcount, htype]
    · rw [maxSendPacketSize_storeList (by omega), not_not]
      exact hsend
  -- the message that the stream waits for, behind the datagram
  set expected := p.reliableStream.nextExpectedSequenceNumber with hexpected
  set datagram : Memory := Memory.storeList (fun _ => 0) 0 payload with hdatagram
  have hsame : ∀ bs, (datagram.storeList 21 bs).storeList 0 payload = datagram.storeList 21 bs := by
    intro bs
    refine Memory.storeList_of_slice_eq ?_
    rw [Memory.slice_storeList_of_disjoint (Or.inl (by omega)), hdatagram,
      Memory.slice_storeList_self]
  intro hsealed
  have heq := congrArg reliableStream
    (hsealed (datagram.storeList 21 (encodeSegment [(expected, [0])])) (fun _ => 0))
  rw [hstream, hstream, hsame, ← hdatagram,
    ReliableStream.val_read _ (by simp) (by simp) (by simp [WireMessage.Fits]) ?_
      (Memory.slice_storeList_self _ _ _)] at heq
  · have hnumber := congrArg ReliableStream.nextExpectedSequenceNumber heq
    have hzero : datagram 21 = 0 := Memory.storeList_apply_of_ge (by omega)
    have hkeep : (p.reliableStream.read ⟨21, usizeSub 8 9⟩ datagram).val.1 = p.reliableStream := by
      simp only [ReliableStream.read, Segment.managerType, Segment.kManagerTypeOffset,
        Checked.val_ite, Checked.val_bind, val_readU8, Nat.add_zero, hzero]
      rfl
    rw [hkeep, ← hexpected] at hnumber
    simp only [receive, if_true] at hnumber
    simp at hnumber
  · simp [encodeSegment, encodeMessages, usizeSub]

end Peer

/-! ### Headers that are cut off -/

/-- Every twelve bytes are a header. -/
theorem PacketHeader.encode_read (b : Span) (mem : Memory) :
    (PacketHeader.read b mem).val.encode = mem.slice b.off 12 := by
  have hword : ∀ a, beEncode 4 (UInt32.ofNat (beDecode (mem.slice a 4))).toNat
      = mem.slice a 4 := by
    intro a
    have hlt := beDecode_lt (mem.slice a 4)
    have hbytes := beEncode_beDecode (mem.slice a 4)
    rw [Memory.length_slice] at hlt hbytes
    rw [UInt32.toNat_ofNat_of_lt' hlt, hbytes]
  simp only [PacketHeader.read, PacketHeader.readId, PacketHeader.readAckSequenceNumber,
    PacketHeader.readAckBitmask, PacketHeader.kIdOffset, PacketHeader.kAckSequenceNumberOffset,
    PacketHeader.kAckBitmaskOffset, Checked.val_bind, Checked.val_pure, val_readU32,
    PacketHeader.encode, hword, Nat.add_zero, Nat.zero_add]
  rw [← Memory.slice_add, ← Memory.slice_add]

/-- The base, and the part of the mask, in a datagram that is too short for a header. -/
theorem PacketHeader.parts_of_beginning {payload : List UInt8} {header : PacketHeader}
    (h : payload <+: header.encode) (hlength : 8 < payload.length) :
    beEncode 4 header.ackSequenceNumber.toNat = (payload.drop 4).take 4 ∧
      beEncode (payload.length - 8)
        (header.ackBitmask.toNat / 256 ^ (4 - (payload.length - 8))) = payload.drop 8 := by
  have hle := h.length_le
  rw [length_encode] at hle
  rw [List.prefix_iff_eq_take] at h
  have h8 : (beEncode 4 header.id.toNat
      ++ beEncode 4 header.ackSequenceNumber.toNat).length = 8 := by simp
  constructor
  · rw [h, encode, List.drop_take, List.take_take, List.append_assoc,
      List.drop_left' (length_beEncode _ _), Nat.min_eq_left (by omega),
      List.take_left' (length_beEncode _ _)]
  · rw [← take_beEncode (by omega)]
    conv_rhs => rw [h, encode, List.drop_take, List.drop_left' h8]

namespace PacketDeliveryManager

/-- The highest bit is found in the high part of the mask, unless that is zero. -/
theorem mostSignificantBit_congr {value value' : UInt32} {k : ℕ}
    (h : value.toNat / 2 ^ k = value'.toNat / 2 ^ k) (hne : value.toNat / 2 ^ k ≠ 0) :
    mostSignificantBit value = mostSignificantBit value' := by
  have hlog : ∀ v : ℕ, v / 2 ^ k ≠ 0 → v ≠ 0 ∧ Nat.log2 v = Nat.log2 (v / 2 ^ k) + k := by
    intro v hv
    have hpos : v ≠ 0 := by
      rintro rfl
      exact hv (Nat.zero_div _)
    refine ⟨hpos, (Nat.log2_eq_iff hpos).mpr ?_⟩
    obtain ⟨hlow, hhigh⟩ := (Nat.log2_eq_iff hv).mp rfl
    rw [pow_add, show (v / 2 ^ k).log2 + k + 1 = (v / 2 ^ k).log2 + 1 + k by omega, pow_add]
    exact ⟨(Nat.le_div_iff_mul_le (Nat.two_pow_pos k)).mp hlow,
      (Nat.div_lt_iff_lt_mul (Nat.two_pow_pos k)).mp hhigh⟩
  obtain ⟨hpos, hvalue⟩ := hlog value.toNat hne
  obtain ⟨hpos', hvalue'⟩ := hlog value'.toNat (h ▸ hne)
  rw [mostSignificantBit_eq, mostSignificantBit_eq, if_neg hpos, if_neg hpos', hvalue, hvalue', h]

/-- The manager without the packets that a header resolves. -/
def withoutResolved (m : PacketDeliveryManager) (header : PacketHeader) : PacketDeliveryManager :=
  { m with inFlightPackets := m.inFlightPackets.drop (m.resolvedBy header).length }

theorem processAcks_state (m : PacketDeliveryManager) (header : PacketHeader) :
    (m.processAcks header.ackSequenceNumber header.ackBitmask).val.1
      = m.withoutResolved header := by
  rw [processAcks, withoutResolved, resolvedBy]
  cases mostSignificantBit header.ackBitmask with
  | none => rfl
  | some msb =>
    simp only [Checked.val_bind, Checked.val_pure, val_processAcksLoop, ids, List.takeWhile_map,
      List.length_map]
    congr 1
    -- what is left is behind the packets that are resolved
    have hsplit := @List.takeWhile_append_dropWhile _
      (fun p : InFlightPacket => decide (p.id ≤ header.ackSequenceNumber + msb))
      m.inFlightPackets
    have hdrop := congrArg (List.drop (m.inFlightPackets.takeWhile fun p : InFlightPacket =>
      decide (p.id ≤ header.ackSequenceNumber + msb)).length) hsplit
    rw [List.drop_left' rfl] at hdrop
    exact hdrop

/-- An old packet does nothing else. -/
theorem processRead_old {m : PacketDeliveryManager} {header : PacketHeader}
    (h : header.id < m.nextExpectedPacketId) :
    (m.processRead header).val.1 = m.withoutResolved header := by
  simp only [processRead, Checked.val_bind, Checked.val_pure, processAcks_state]
  rcases processPacketHeader_cases (m.withoutResolved header) header with ⟨-, hval⟩ | ⟨hnot, -⟩
  · rw [hval]
  · exact absurd h hnot

/-- What is resolved can be seen from what is left. -/
theorem resolvedBy_eq_nil_of_same {m : PacketDeliveryManager} {header header' : PacketHeader}
    (h : m.withoutResolved header = m.withoutResolved header') (hnone : m.resolvedBy header' = []) :
    m.resolvedBy header = [] := by
  have hlength := congrArg (fun m => m.inFlightPackets.length) h
  have hle : (m.resolvedBy header).length ≤ m.inFlightPackets.length := by
    have hids := congrArg List.length (m.processRead_ids header)
    rw [processRead_resolved, List.length_append, ids, ids, List.length_map, List.length_map]
      at hids
    omega
  simp only [withoutResolved, hnone, List.length_nil, List.drop_zero, List.length_drop] at hlength
  exact List.length_eq_zero_iff.mp (by omega)

/-- A datagram that is too short for a header does not depend on what follows: with
all headers that begin like this the packet is too old, and they resolve the same
packets.  The first byte of the mask that is not zero decides about these. -/
def SealsHeader (m : PacketDeliveryManager) (payload : List UInt8) : Prop :=
  ∀ header : PacketHeader, payload <+: header.encode →
    header.id < m.nextExpectedPacketId ∧
      ((∃ byte ∈ payload.drop 8, byte ≠ 0) ∨ m.resolvedBy header = [])

/-- The highest bit of the mask is known. -/
theorem resolvedBy_congr (m : PacketDeliveryManager) {payload : List UInt8}
    {header header' : PacketHeader} (h : payload <+: header.encode)
    (h' : payload <+: header'.encode) (hmask : ∃ byte ∈ payload.drop 8, byte ≠ 0) :
    m.resolvedBy header = m.resolvedBy header' := by
  obtain ⟨byte, hbyte, hne⟩ := hmask
  have hlength : 8 < payload.length := by
    by_contra hle
    rw [List.drop_of_length_le (by omega)] at hbyte
    cases hbyte
  have hle := h.length_le
  rw [PacketHeader.length_encode] at hle
  obtain ⟨hseq, hhigh⟩ := PacketHeader.parts_of_beginning h hlength
  obtain ⟨hseq', hhigh'⟩ := PacketHeader.parts_of_beginning h' hlength
  have hbase : header.ackSequenceNumber = header'.ackSequenceNumber :=
    UInt32.toNat_inj.mp (beEncode_inj header.ackSequenceNumber.toNat_lt
      header'.ackSequenceNumber.toNat_lt (hseq.trans hseq'.symm))
  -- the datagram has the first `j` bytes of the mask, which are its highest ones
  set j := payload.length - 8 with hj
  have hfits : ∀ value : UInt32, value.toNat / 256 ^ (4 - j) < 256 ^ j := by
    intro value
    rw [Nat.div_lt_iff_lt_mul (Nat.pow_pos (by norm_num)), ← pow_add,
      show j + (4 - j) = 4 by omega]
    exact value.toNat_lt
  have hpow : (256 : ℕ) ^ (4 - j) = 2 ^ (8 * (4 - j)) := by rw [pow_mul]; norm_num
  have hdiv := beEncode_inj (hfits _) (hfits _) (hhigh.trans hhigh'.symm)
  have hmsb : mostSignificantBit header.ackBitmask = mostSignificantBit header'.ackBitmask := by
    rw [hpow] at hdiv
    refine mostSignificantBit_congr hdiv ?_
    intro hzero
    rw [← hhigh, hpow, hzero, beEncode_zero] at hbyte
    exact hne (List.eq_of_mem_replicate hbyte)
  rw [resolvedBy, resolvedBy, hmsb, hbase]

/-- If the part of the mask that is there is zero, then all of it may be. -/
theorem prefix_of_zero {payload : List UInt8} {header : PacketHeader}
    (h : payload <+: header.encode) (hmask : ¬ ∃ byte ∈ payload.drop 8, byte ≠ 0) :
    payload <+: PacketHeader.encode { header with ackBitmask := 0 } := by
  have hle := h.length_le
  rw [PacketHeader.length_encode] at hle
  have h8 : (beEncode 4 header.id.toNat
      ++ beEncode 4 header.ackSequenceNumber.toNat).length = 8 := by simp
  rw [PacketHeader.encode] at h ⊢
  rcases Nat.le_total payload.length 8 with hshort | hlong
  · -- the mask is not there at all
    refine (List.prefix_of_prefix_length_le h (List.prefix_append _ _) ?_).trans
      (List.prefix_append _ _)
    rw [h8]
    exact hshort
  · have hzeros : payload.drop 8 = List.replicate (payload.length - 8) 0 := by
      rw [List.eq_replicate_iff, List.length_drop]
      refine ⟨rfl, fun byte hbyte => ?_⟩
      by_contra hne
      exact hmask ⟨byte, hbyte, hne⟩
    have hfirst : payload.take 8 = beEncode 4 header.id.toNat
        ++ beEncode 4 header.ackSequenceNumber.toNat := by
      have htake := (h.take 8).eq_of_length (by
        rw [List.length_take, List.length_take, List.length_append, h8, length_beEncode]
        omega)
      rwa [List.take_left' h8] at htake
    rw [← List.take_append_drop 8 payload, hfirst, hzeros, List.prefix_append_right_inj,
      show (0 : UInt32).toNat = 0 from rfl, beEncode_zero]
    refine List.prefix_replicate_iff.mpr ⟨?_, by rw [List.length_replicate]⟩
    rw [List.length_replicate]
    omega

end PacketDeliveryManager

/-! ### Datagrams -/

namespace Peer

variable {payload : List UInt8}

/-- The stages behind the header of a datagram do not depend on the old buffer iff the
handshake is sealed. -/
theorem readConnection_sealed_iff (config : ConnectionManagerConfig) (p : Peer)
    (report : ReadReport) (h12 : 12 ≤ payload.length) :
    (∀ mem mem' : Memory,
      (readConnection config p ⟨12, payload.length - 12⟩ (mem.storeList 0 payload) report).val.1
        = (readConnection config p ⟨12, payload.length - 12⟩ (mem'.storeList 0 payload)
          report).val.1)
      ↔ SealedHandshake (payload.drop 12) p.connectionManager.isPeerConnected := by
  constructor
  · intro hsealed h0 h1
    simp only [List.getElem?_drop, List.length_drop, List.drop_drop, Nat.reduceAdd,
      Nat.add_zero] at h0 h1 ⊢
    have h14 : 13 < payload.length := (List.getElem?_eq_some_iff.mp h1).1
    refine ⟨?_, fun h2 => ?_⟩
    · by_contra h3
      exact not_sealed_of_letsConnect config p report h14 (by omega) h0 h1 (by omega) (by omega)
        hsealed
    · have h15 : 14 < payload.length := (List.getElem?_eq_some_iff.mp h2).1
      by_contra hopen
      rw [not_or] at hopen
      obtain ⟨h10, hopen⟩ := hopen
      by_cases hrefused : 20 ≤ payload.length ∧ beDecode ((payload.drop 18).take 2) < 100
      · -- the handshake is refused, so it is the stream that is stale
        have hend : ¬ (9 ≤ payload.length - 12 ∨ p.connectionManager.isPeerConnected = false) :=
          fun hend => hopen ⟨by omega, hrefused.2, hend⟩
        rw [not_or, Bool.not_eq_false] at hend
        exact not_sealed_of_refused config report (by omega) h0 h1 h2 hrefused.2 hend.2 hsealed
      · exact not_sealed_of_letsConnect config p report h14 (by omega) h0 h1 (fun _ => h2)
          (fun h20 hlt => hrefused ⟨h20, hlt⟩) hsealed
  · intro hsealed mem mem'
    refine readConnection_congr config p ?_ ((sealsHandshake_iff h12 mem _).mpr hsealed) _ _
    intro i hi
    have hbyte := (storeList_eq_iff mem payload (by dsimp only at hi; omega : 12 + i < _) _).mp rfl
    exact ((storeList_eq_iff mem' payload (by dsimp only at hi; omega) _).mpr hbyte).symm

/-- The datagrams that are read without the bytes behind them. -/
def Seals (p : Peer) (payload : List UInt8) : Prop :=
  (payload.length < 12 → p.packetDeliveryManager.SealsHeader payload) ∧
    (12 ≤ payload.length → ¬ datagramId payload < p.packetDeliveryManager.nextExpectedPacketId →
      SealedHandshake (payload.drop 12) p.connectionManager.isPeerConnected)

/-- The new state does not depend on the old buffer. -/
def ReadSealed (config : ConnectionManagerConfig) (p : Peer) (payload : List UInt8) : Prop :=
  ∀ mem mem' : Memory,
    (p.read config ⟨0, payload.length⟩ (mem.storeList 0 payload)).val.1
      = (p.read config ⟨0, payload.length⟩ (mem'.storeList 0 payload)).val.1

/-- A datagram with a whole header. -/
theorem readSealed_iff_of_header (config : ConnectionManagerConfig) (p : Peer)
    (h12 : 12 ≤ payload.length) :
    p.ReadSealed config payload ↔
      (¬ datagramId payload < p.packetDeliveryManager.nextExpectedPacketId →
        SealedHandshake (payload.drop 12) p.connectionManager.isPeerConnected) := by
  obtain ⟨header, hencode⟩ : ∃ header : PacketHeader, payload.take 12 = header.encode := by
    refine ⟨(PacketHeader.read ⟨0, payload.length⟩
      (Memory.storeList (fun _ => 0) 0 payload)).val, ?_⟩
    rw [PacketHeader.encode_read, slice_storeList_eq _ _ (by omega), List.drop_zero]
  have hheader : ∀ mem : Memory,
      (PacketHeader.read ⟨0, payload.length⟩ (mem.storeList 0 payload)).val = header := by
    intro mem
    refine PacketHeader.val_read ?_
    rw [slice_storeList_eq _ _ (by omega), List.drop_zero, hencode]
  rw [datagramId_of_header hencode]
  -- the header is the same for all buffers; an old packet ends there
  by_cases hold : header.id < p.packetDeliveryManager.nextExpectedPacketId
  · refine iff_of_true (fun mem mem' => ?_) fun h => absurd hold h
    have hval : ∀ mem : Memory, (p.read config ⟨0, payload.length⟩ (mem.storeList 0 payload)).val.1
        = { p with
            packetDeliveryManager := (p.packetDeliveryManager.processRead header).val.1 } := by
      intro mem
      rcases read_cases config p ⟨0, payload.length⟩ (mem.storeList 0 payload) with
        ⟨-, hval⟩ | ⟨hnot, -⟩
      · rw [hval, hheader]
      · rw [hheader] at hnot
        exact absurd hold hnot
    rw [hval, hval]
  · set q := (processDeliveryStatuses { p with
      packetDeliveryManager := (p.packetDeliveryManager.processRead header).val.1 }
      (p.packetDeliveryManager.processRead header).val.2.2.1).val with hq
    -- delivery statuses do not connect a peer
    have hconnected : q.connectionManager.isPeerConnected
        = p.connectionManager.isPeerConnected := by
      rw [hq, processDeliveryStatuses_connection ConnectionManager.isPeerConnected]
      intro c id status
      rw [ConnectionManager.isPeerConnected, ConnectionManager.status_peerLimit]
      rfl
    have hval : ∀ mem : Memory, (p.read config ⟨0, payload.length⟩ (mem.storeList 0 payload)).val.1
        = (readConnection config q ⟨12, payload.length - 12⟩ (mem.storeList 0 payload)
          ⟨header.id, true, (p.packetDeliveryManager.processRead header).val.2.2.1, none, [],
            []⟩).val.1 := by
      intro mem
      rcases read_cases config p ⟨0, payload.length⟩ (mem.storeList 0 payload) with
        ⟨hlt, -⟩ | ⟨-, hval⟩
      · rw [hheader] at hlt
        exact absurd hlt hold
      · rw [hval, hheader, usizeSub_of_le h12, Nat.zero_add]
    rw [← hconnected, imp_iff_right hold, ReadSealed]
    simp only [hval]
    exact readConnection_sealed_iff config q _ h12

/-- The header that a datagram is read with begins like the datagram. -/
theorem prefix_read (h12 : payload.length ≤ 12) (mem : Memory) :
    payload <+: (PacketHeader.read ⟨0, payload.length⟩ (mem.storeList 0 payload)).val.encode := by
  rw [PacketHeader.encode_read, ← Nat.add_sub_cancel' h12, Memory.slice_add,
    Memory.slice_storeList_self]
  exact List.prefix_append _ _

theorem read_old {config : ConnectionManagerConfig} {p : Peer} {b : Span} {mem : Memory}
    (h : (PacketHeader.read b mem).val.id < p.packetDeliveryManager.nextExpectedPacketId) :
    (p.read config b mem).val.1 = { p with packetDeliveryManager :=
      p.packetDeliveryManager.withoutResolved (PacketHeader.read b mem).val } := by
  rcases read_cases config p b mem with ⟨-, hval⟩ | ⟨hnot, -⟩
  · rw [hval, PacketDeliveryManager.processRead_old h]
  · exact absurd h hnot

/-- A buffer that completes the header, and goes on with `bs`. -/
theorem exists_completed {header : PacketHeader} (hbegin : payload <+: header.encode)
    (bs : List UInt8) :
    ∃ mem : Memory, mem.storeList 0 payload = mem ∧
      (PacketHeader.read ⟨0, payload.length⟩ mem).val = header ∧ mem.slice 12 bs.length = bs := by
  set mem := Memory.storeList (fun _ => 0) 0 (header.encode ++ bs) with hmem
  obtain ⟨hhead, htail⟩ := Memory.slice_eq_of_append
    (Memory.slice_storeList_self (fun _ => 0) 0 (header.encode ++ bs))
  rw [← hmem, PacketHeader.length_encode] at hhead htail
  refine ⟨mem, Memory.storeList_of_slice_eq ?_, PacketHeader.val_read hhead, htail⟩
  have hle := hbegin.length_le
  rw [PacketHeader.length_encode] at hle
  have htake := Memory.take_drop_slice mem 0 (by omega : 0 + payload.length ≤ 12)
  rw [hhead, List.drop_zero, Nat.add_zero, ← List.prefix_iff_eq_take.mp hbegin] at htake
  exact htake.symm

/-- If the header can be completed to that of a new packet, then the limits of a
`LetsConnect` are read from the old buffer. -/
theorem ReadSealed.old {config : ConnectionManagerConfig} {p : Peer}
    (hsealed : p.ReadSealed config payload) (h12 : payload.length < 12) {header : PacketHeader}
    (hbegin : payload <+: header.encode) :
    header.id < p.packetDeliveryManager.nextExpectedPacketId := by
  by_contra hnew
  have hlimit : ∀ byte : UInt8, 100 ≤ byte.toNat → ∃ mem : Memory,
      (p.read config ⟨0, payload.length⟩
        (mem.storeList 0 payload)).val.1.connectionManager.peerBandwidthLimit
        = some (ConnectionManager.limitAt mem 15) ∧ mem 21 = byte := by
    intro byte hbyte
    obtain ⟨mem, hmem, hread, hbytes⟩ :=
      exists_completed hbegin [0, 1, 0, 255, 255, 255, 255, 255, 255, byte]
    simp only [List.length_cons, List.length_nil, Memory.slice, List.cons.injEq, Nat.reduceAdd,
      and_true] at hbytes
    obtain ⟨h0, h1, h2, -, -, -, h18, h19, -, h21⟩ := hbytes
    refine ⟨mem, ?_, h21⟩
    rw [hmem]
    rcases read_cases config p ⟨0, payload.length⟩ mem with ⟨hlt, -⟩ | ⟨-, hval⟩
    · rw [hread] at hlt
      exact absurd hlt hnew
    · rw [hval]
      refine readConnection_limit config _ _ ?_ ?_ ?_
      · -- the span has no end
        show 2 ≤ usizeSub payload.length 12
        rw [usizeSub, if_neg (Nat.not_le.mpr h12)]
        omega
      · simp only [Memory.slice, Nat.reduceAdd, h0, h1, h2]
      · refine ConnectionManager.validLimit_limitAt ?_ ?_
        · simp only [Nat.reduceAdd, h18, h19]
          decide
        · simp only [Nat.reduceAdd, h21]
          exact hbyte
  obtain ⟨mem, hfirst, hbyte⟩ := hlimit 100 (by decide)
  obtain ⟨mem', hsecond, hbyte'⟩ := hlimit 101 (by decide)
  rw [hsealed mem mem', hsecond, Option.some_inj] at hfirst
  have hlast : mem' 21 = mem 21 := ConnectionManager.last_of_limitAt_eq hfirst
  rw [hbyte, hbyte'] at hlast
  cases hlast

/-- A datagram without a whole header. -/
theorem readSealed_iff_of_short (config : ConnectionManagerConfig) (p : Peer)
    (h12 : payload.length < 12) :
    p.ReadSealed config payload ↔ p.packetDeliveryManager.SealsHeader payload := by
  constructor
  · intro hsealed header hbegin
    refine ⟨hsealed.old h12 hbegin, ?_⟩
    by_contra hopen
    rw [not_or] at hopen
    obtain ⟨hzero, hresolved⟩ := hopen
    -- with a mask of zero nothing is resolved
    have hbegin' := PacketDeliveryManager.prefix_of_zero hbegin hzero
    obtain ⟨mem, hmem, hread, -⟩ := exists_completed hbegin []
    obtain ⟨mem', hmem', hread', -⟩ := exists_completed hbegin' []
    have hsame := hsealed mem mem'
    rw [hmem, hmem', read_old (by rw [hread]; exact hsealed.old h12 hbegin),
      read_old (by rw [hread']; exact hsealed.old h12 hbegin'), hread, hread'] at hsame
    refine hresolved (PacketDeliveryManager.resolvedBy_eq_nil_of_same
      (congrArg packetDeliveryManager hsame) ?_)
    rw [PacketDeliveryManager.resolvedBy, show mostSignificantBit 0 = none by decide]
  · intro hseals mem mem'
    obtain ⟨hold, hresolved⟩ := hseals _ (prefix_read (Nat.le_of_lt h12) mem)
    obtain ⟨hold', hresolved'⟩ := hseals _ (prefix_read (Nat.le_of_lt h12) mem')
    rw [read_old hold, read_old hold']
    have hsame : p.packetDeliveryManager.resolvedBy (PacketHeader.read ⟨0, payload.length⟩
        (mem.storeList 0 payload)).val = p.packetDeliveryManager.resolvedBy
          (PacketHeader.read ⟨0, payload.length⟩ (mem'.storeList 0 payload)).val := by
      by_cases hmask : ∃ byte ∈ payload.drop 8, byte ≠ 0
      · exact p.packetDeliveryManager.resolvedBy_congr (prefix_read (Nat.le_of_lt h12) mem)
          (prefix_read (Nat.le_of_lt h12) mem') hmask
      · rw [hresolved.resolve_left hmask, hresolved'.resolve_left hmask]
    -- an old packet only takes out of flight what it resolves
    rw [PacketDeliveryManager.withoutResolved, hsame]
    rfl

/-- **A datagram is read without what is behind it** iff `Seals` says so. -/
theorem read_sealed_iff (config : ConnectionManagerConfig) (p : Peer) (payload : List UInt8) :
    p.ReadSealed config payload ↔ p.Seals payload := by
  rw [Seals]
  by_cases h12 : payload.length < 12
  · rw [readSealed_iff_of_short config p h12, imp_iff_right h12]
    exact (and_iff_left fun h => absurd h (Nat.not_le.mpr h12)).symm
  · have hle := Nat.not_lt.mp h12
    rw [readSealed_iff_of_header config p hle, imp_iff_right hle]
    exact (and_iff_right fun h => absurd h h12).symm

end Peer

end Neptun
