/-
The grammar of the stream segments.

A segment is a manager type, a number `n`, and `n` messages one behind the other.
The loops of the two streams take a message after the other and stop at the
first place where none begins.  So what they read is determined by the bytes as
`LongestItems`, the longest list of at most `n` messages that begins there, and
they succeed iff it has `n` messages.

* `ReliableStream.readLoop_longest`, `UnreliableStream.readLoop_longest` — what the
  loops read;
* `readers_accept_grammar` — the two readers, for all bytes.
-/
import Neptun.Parsing
import Neptun.ReliableSegment
import Neptun.UnreliableSegment
import Neptun.Library.Items

namespace Neptun

/-! ### Messages -/

/-- The length in the header of a valid message, which is inside the span. -/
theorem validateSize_ok {minimumSize lengthOffset : ℕ} {b : Span} {mem : Memory} {size : ℕ}
    (h : (validateSize minimumSize lengthOffset b mem).val = .ok size) :
    let length := (readU16 b mem lengthOffset).val.toNat
    length ≠ 0 ∧ size = minimumSize + length ∧ minimumSize + length ≤ b.size := by
  intro length
  rw [validateSize] at h
  split at h
  · cases h
  · simp only [Checked.val_bind, Checked.val_ite, Checked.val_pure] at h
    split at h
    · cases h
    · next htotal =>
      push Not at htotal
      have hsize := Except.ok.inj h
      refine ⟨fun hzero => htotal.2 ?_, hsize.symm, htotal.1⟩
      rw [show (readU16 b mem lengthOffset).val.toNat = length from rfl, hzero, Nat.add_zero]

/-- The bytes of a length, as they are in the memory. -/
theorem encode_readU16 (b : Span) (mem : Memory) (idx : ℕ) :
    beEncode 2 (readU16 b mem idx).val.toNat = mem.slice (b.off + idx) 2 := by
  have hlt := beDecode_lt (mem.slice (b.off + idx) 2)
  rw [Memory.length_slice] at hlt
  have hencode := beEncode_beDecode (mem.slice (b.off + idx) 2)
  rw [Memory.length_slice] at hencode
  rw [val_readU16, UInt16.toNat_ofNat', Nat.mod_eq_of_lt (by simpa using hlt), hencode]

theorem encode_readU32 (b : Span) (mem : Memory) (idx : ℕ) :
    beEncode 4 (readU32 b mem idx).val.toNat = mem.slice (b.off + idx) 4 := by
  have hlt := beDecode_lt (mem.slice (b.off + idx) 4)
  rw [Memory.length_slice] at hlt
  have hencode := beEncode_beDecode (mem.slice (b.off + idx) 4)
  rw [Memory.length_slice] at hencode
  rw [val_readU32, UInt32.toNat_ofNat', Nat.mod_eq_of_lt (by simpa using hlt), hencode]

/-- A valid message has a payload behind its length, whatever is in front of that. -/
theorem payload_of_valid (lengthOffset : ℕ) {b : Span} {mem : Memory} {size : ℕ}
    (h : (validateSize (lengthOffset + 2) lengthOffset b mem).val = .ok size) :
    ∃ payload : List UInt8, PayloadFits payload ∧ size = lengthOffset + 2 + payload.length ∧
      size ≤ b.size ∧ mem.slice (b.off + lengthOffset) (UnreliableMessage.encode payload).length
        = UnreliableMessage.encode payload := by
  obtain ⟨hne, hsize, hle⟩ := validateSize_ok h
  set length := (readU16 b mem lengthOffset).val with hlength
  have hpayload : (mem.slice (b.off + lengthOffset + 2) length.toNat).length = length.toNat :=
    Memory.length_slice _ _ _
  refine ⟨mem.slice (b.off + lengthOffset + 2) length.toNat, ⟨fun hnil => hne ?_, ?_⟩, ?_, ?_, ?_⟩
  · rw [← hpayload, hnil, List.length_nil]
  · rw [hpayload]
    exact length.toNat_lt
  · rw [hpayload, hsize]
  · rw [hsize]
    exact hle
  · rw [UnreliableMessage.length_encode, UnreliableMessage.encode, hpayload, UInt16.ofNat_toNat,
      hlength, encode_readU16, Memory.slice_add]

/-- The bytes that are accepted as a message are those of a message. -/
theorem UnreliableMessage.exists_of_valid {b : Span} {mem : Memory} {size : ℕ}
    (h : (validateSize b mem).val = .ok size) :
    ∃ payload : List UInt8, PayloadFits payload ∧ size = (encode payload).length ∧
      encode payload <+: mem.slice b.off b.size := by
  obtain ⟨payload, hfits, hsize, hle, hmem⟩ := payload_of_valid 0 h
  have hlength : size = (encode payload).length := by
    rw [hsize, length_encode, Nat.zero_add]
  exact ⟨payload, hfits, hlength, Memory.prefix_slice_iff.mpr ⟨hlength ▸ hle, hmem⟩⟩

theorem ReliableMessage.encode_eq (sequenceNumber : UInt32) (payload : List UInt8) :
    encode sequenceNumber payload
      = beEncode 4 sequenceNumber.toNat ++ UnreliableMessage.encode payload := by
  rw [encode, UnreliableMessage.encode, List.append_assoc]

theorem ReliableMessage.exists_of_valid {b : Span} {mem : Memory} {size : ℕ}
    (h : (validateSize b mem).val = .ok size) :
    ∃ msg : WireMessage, msg.Fits ∧ size = (encode msg.1 msg.2).length ∧
      encode msg.1 msg.2 <+: mem.slice b.off b.size := by
  obtain ⟨payload, hfits, hsize, hle, hmem⟩ := payload_of_valid 4 h
  have hlength : size = (encode (readU32 b mem 0).val payload).length := by
    rw [hsize, length_encode]
  refine ⟨((readU32 b mem 0).val, payload), hfits, hlength,
    Memory.prefix_slice_iff.mpr ⟨hlength ▸ hle, ?_⟩⟩
  rw [encode_eq, List.length_append, length_beEncode, Memory.slice_add, hmem, encode_readU32,
    Nat.add_zero]

/-- A memory that begins with a message is read as this message. -/
theorem ReliableMessage.read_prefix {b : Span} {mem : Memory} {msg : WireMessage}
    (hfits : msg.Fits) (h : encode msg.1 msg.2 <+: mem.slice b.off b.size) :
    (ReliableMessage.validateSize b mem).val = .ok (6 + msg.2.length) ∧
    (ReliableMessage.sequenceNumber b mem).val = msg.1 ∧
    (ReliableMessage.payload b mem).val = ⟨b.off + 6, msg.2.length⟩ ∧
    mem.slice (b.off + 6) msg.2.length = msg.2 := by
  obtain ⟨hle, hmem⟩ := Memory.prefix_slice_iff.mp h
  rw [length_encode] at hle
  exact read_encode hfits.1 hfits.2 hle hmem

theorem UnreliableMessage.read_prefix {b : Span} {mem : Memory} {payload : List UInt8}
    (hfits : PayloadFits payload) (h : encode payload <+: mem.slice b.off b.size) :
    (UnreliableMessage.validateSize b mem).val = .ok (2 + payload.length) ∧
    (UnreliableMessage.payload b mem).val = ⟨b.off + 2, payload.length⟩ ∧
    mem.slice (b.off + 2) payload.length = payload := by
  obtain ⟨hle, hmem⟩ := Memory.prefix_slice_iff.mp h
  rw [length_encode] at hle
  exact read_encode hfits.1 hfits.2 hle hmem

/-- The reader determines the message. -/
theorem uniquelyRead_unreliable : UniquelyRead UnreliableMessage.encode PayloadFits := by
  intro x y hx hy s t h
  -- a memory that begins with both messages
  set bytes := UnreliableMessage.encode x ++ s with hbytes
  set mem : Memory := Memory.storeList (fun _ => 0) 0 bytes
  have hmem : mem.slice 0 bytes.length = bytes := Memory.slice_storeList_self _ _ _
  obtain ⟨-, hxspan, hxpayload⟩ := UnreliableMessage.read_prefix (b := ⟨0, bytes.length⟩) hx
    ⟨s, hmem.symm⟩
  obtain ⟨-, hyspan, hypayload⟩ := UnreliableMessage.read_prefix (b := ⟨0, bytes.length⟩) hy
    ⟨t, (hmem.trans h).symm⟩
  have hlength : x.length = y.length := congrArg Span.size (hxspan.symm.trans hyspan)
  rw [← hxpayload, ← hypayload, hlength]

theorem uniquelyRead_reliable :
    UniquelyRead (fun msg : WireMessage => ReliableMessage.encode msg.1 msg.2)
      WireMessage.Fits := by
  intro x y hx hy s t h
  simp only [ReliableMessage.encode_eq, List.append_assoc] at h
  obtain ⟨hnumber, hrest⟩ := List.append_inj h (by rw [length_beEncode, length_beEncode])
  have hlt : ∀ number : UInt32, number.toNat < 256 ^ 4 := fun number => number.toNat_lt
  exact Prod.ext (UInt32.toNat_inj.mp (beEncode_inj (hlt _) (hlt _) hnumber))
    (uniquelyRead_unreliable hx hy hrest)

/-! ### The loops -/

/-- The result of a reader that has found `found` of `n` messages. -/
def segmentResult (n found size : ℕ) : Except NeptunError ℕ :=
  if found = n then .ok size else .error .malformedPacket

theorem segmentResult_ok_iff {n found size : ℕ} :
    (∃ count, segmentResult n found size = .ok count) ↔ found = n := by
  rw [segmentResult]
  by_cases h : found = n
  · rw [if_pos h]
    exact iff_of_true ⟨size, rfl⟩ h
  · rw [if_neg h]
    exact iff_of_false (fun ⟨_, hcount⟩ => nomatch hcount) h

theorem segmentResult_succ (n found size : ℕ) :
    segmentResult (n + 1) (found + 1) size = segmentResult n found size := by
  simp only [segmentResult, Nat.add_right_cancel_iff]

/-- The bytes behind a message that the rest of the span begins with. -/
theorem slice_behind {b : Span} {mem : Memory} {idx : ℕ} {bytes : List UInt8}
    (h : bytes <+: mem.slice (b.off + idx) (b.size - idx)) :
    mem.slice (b.off + idx) (b.size - idx)
      = bytes ++ mem.slice (b.off + (idx + bytes.length)) (b.size - (idx + bytes.length)) := by
  obtain ⟨hle, hbytes⟩ := Memory.prefix_slice_iff.mp h
  have hcut := Memory.slice_add mem (b.off + idx) bytes.length (b.size - idx - bytes.length)
  rw [Nat.add_sub_cancel' hle, hbytes, Nat.sub_sub, Nat.add_assoc] at hcut
  exact hcut

/-- The loop of `ReliableStream::read` takes the longest list of messages, and hands on
those in sequence. -/
theorem ReliableStream.readLoop_longest {b : Span} {mem : Memory} (n idx : ℕ)
    (expected : UInt32) (hidx : idx ≤ b.size) :
    ∃ msgs, LongestItems (fun msg : WireMessage => ReliableMessage.encode msg.1 msg.2)
        WireMessage.Fits n (mem.slice (b.off + idx) (b.size - idx)) msgs ∧
      (readLoop b mem n idx expected).val
        = ((receive expected msgs).1, (receive expected msgs).2,
          segmentResult n msgs.length (idx + (encodeMessages msgs).length)) := by
  -- on the number of messages that are left
  induction n generalizing idx expected with
  | zero => exact ⟨[], LongestItems.zero _, rfl⟩
  | succ n ih =>
    have hrest : usizeSub b.size idx = b.size - idx := usizeSub_of_le hidx
    cases hvalid : (ReliableMessage.validateSize ⟨b.off + idx, b.size - idx⟩ mem).val with
    | error e =>
      -- a message that begins here would have been accepted
      refine ⟨[], LongestItems.stuck _ fun msg hfits hprefix => ?_, ?_⟩
      · have hok := (ReliableMessage.read_prefix (b := ⟨b.off + idx, b.size - idx⟩) hfits
          hprefix).1
        rw [hvalid] at hok
        cases hok
      · rw [readLoop]
        simp only [Checked.val_bind, val_advance, hrest, hvalid, Checked.val_pure]
        rfl
    | ok size =>
      obtain ⟨⟨number, payload⟩, hfits, hsize, hprefix⟩ := ReliableMessage.exists_of_valid hvalid
      obtain ⟨-, hnumber, hpayload, hbytes⟩ := ReliableMessage.read_prefix hfits hprefix
      dsimp only at hprefix hbytes hsize hpayload hnumber
      have hle := hprefix.length_le
      rw [Memory.length_slice, ← hsize] at hle
      have hnext : idx + size ≤ b.size := by omega
      have hbehind := slice_behind hprefix
      rw [← hsize] at hbehind
      have hcount : ∀ msgs : List WireMessage,
          idx + (encodeMessages ((number, payload) :: msgs)).length
          = idx + size + (encodeMessages msgs).length := by
        intro msgs
        rw [encodeMessages_cons, List.length_append, hsize, Nat.add_assoc]
      rw [readLoop]
      simp only [Checked.val_bind, val_advance, hrest, hvalid, hnumber]
      by_cases heq : number = expected
      · obtain ⟨msgs, hlongest, hloop⟩ := ih (idx + size) (expected + 1) hnext
        refine ⟨(number, payload) :: msgs,
          hbehind ▸ LongestItems.cons uniquelyRead_reliable hfits hlongest, ?_⟩
        rw [if_pos heq, List.length_cons, segmentResult_succ, hcount, receive, if_pos heq]
        simp only [Checked.val_bind, Checked.val_pure, hpayload, hbytes, hloop]
      -- a message out of order is skipped
      · obtain ⟨msgs, hlongest, hloop⟩ := ih (idx + size) expected hnext
        refine ⟨(number, payload) :: msgs,
          hbehind ▸ LongestItems.cons uniquelyRead_reliable hfits hlongest, ?_⟩
        rw [if_neg heq, List.length_cons, segmentResult_succ, hcount, receive, if_neg heq, hloop]

/-- The loop of `UnreliableStream::read` hands on all messages. -/
theorem UnreliableStream.readLoop_longest {b : Span} {mem : Memory} (n idx : ℕ)
    (hidx : idx ≤ b.size) :
    ∃ payloads, LongestItems UnreliableMessage.encode PayloadFits n
        (mem.slice (b.off + idx) (b.size - idx)) payloads ∧
      (readLoop b mem n idx).val
        = (payloads, segmentResult n payloads.length (idx + (encodePayloads payloads).length)) := by
  induction n generalizing idx with
  | zero => exact ⟨[], LongestItems.zero _, rfl⟩
  | succ n ih =>
    have hrest : usizeSub b.size idx = b.size - idx := usizeSub_of_le hidx
    cases hvalid : (UnreliableMessage.validateSize ⟨b.off + idx, b.size - idx⟩ mem).val with
    | error e =>
      refine ⟨[], LongestItems.stuck _ fun payload hfits hprefix => ?_, ?_⟩
      · have hok := (UnreliableMessage.read_prefix (b := ⟨b.off + idx, b.size - idx⟩) hfits
          hprefix).1
        rw [hvalid] at hok
        cases hok
      · rw [readLoop]
        simp only [Checked.val_bind, val_advance, hrest, hvalid, Checked.val_pure]
        rfl
    | ok size =>
      obtain ⟨payload, hfits, hsize, hprefix⟩ := UnreliableMessage.exists_of_valid hvalid
      obtain ⟨-, hpayload, hbytes⟩ := UnreliableMessage.read_prefix hfits hprefix
      dsimp only at hprefix hbytes hpayload
      have hle := hprefix.length_le
      rw [Memory.length_slice, ← hsize] at hle
      have hbehind := slice_behind hprefix
      rw [← hsize] at hbehind
      obtain ⟨payloads, hlongest, hloop⟩ := ih (idx + size) (by omega)
      refine ⟨payload :: payloads,
        hbehind ▸ LongestItems.cons uniquelyRead_unreliable hfits hlongest, ?_⟩
      rw [readLoop, List.length_cons, segmentResult_succ, encodePayloads_cons, List.length_append,
        ← hsize, ← Nat.add_assoc]
      simp only [Checked.val_bind, val_advance, hrest, hvalid, hpayload, hbytes, hloop,
        Checked.val_pure]

/-! ### The readers -/

theorem ReliableStream.read_other (s : ReliableStream) {b : Span} {mem : Memory}
    (h : b.size < 2 ∨ mem b.off ≠ 3) : (s.read b mem).val = (s, [], .ok 0) := by
  rw [read]
  by_cases hsize : Segment.kSerializedSize > b.size
  · rw [if_pos hsize]
    rfl
  · have hne : mem b.off ≠ 3 := h.resolve_left hsize
    rw [if_neg hsize]
    simp only [Checked.val_bind, Segment.managerType, val_readU8, Segment.kManagerTypeOffset,
      Nat.add_zero, ManagerType.toU8, if_pos hne, Checked.val_pure]

theorem UnreliableStream.read_other {b : Span} {mem : Memory}
    (h : b.size < 2 ∨ mem b.off ≠ 4) : (UnreliableStream.read b mem).val = ([], .ok 0) := by
  rw [UnreliableStream.read]
  by_cases hsize : Segment.kSerializedSize > b.size
  · rw [if_pos hsize]
    rfl
  · have hne : mem b.off ≠ 4 := h.resolve_left hsize
    rw [if_neg hsize]
    simp only [Checked.val_bind, Segment.managerType, val_readU8, Segment.kManagerTypeOffset,
      Nat.add_zero, ManagerType.toU8, if_pos hne, Checked.val_pure]

theorem ReliableStream.read_longest (s : ReliableStream) {b : Span} {mem : Memory}
    (hsize : 2 ≤ b.size) (htype : mem b.off = 3) :
    ∃ msgs, LongestItems (fun msg : WireMessage => ReliableMessage.encode msg.1 msg.2)
        WireMessage.Fits (mem (b.off + 1)).toNat (mem.slice (b.off + 2) (b.size - 2)) msgs ∧
      (s.read b mem).val = ({ s with nextExpectedSequenceNumber :=
            (receive s.nextExpectedSequenceNumber msgs).1 },
          (receive s.nextExpectedSequenceNumber msgs).2,
          segmentResult (mem (b.off + 1)).toNat msgs.length
            (2 + (encodeMessages msgs).length)) := by
  obtain ⟨msgs, hlongest, hloop⟩ := readLoop_longest (mem (b.off + 1)).toNat 2
    s.nextExpectedSequenceNumber hsize
  have hsegment : ¬ Segment.kSerializedSize > b.size := Nat.not_lt.mpr hsize
  refine ⟨msgs, hlongest, ?_⟩
  rw [read, if_neg hsegment]
  simp only [Checked.val_bind, Checked.val_pure, Segment.managerType, Segment.messageCount,
    val_readU8, Segment.kManagerTypeOffset, Segment.kMessageCountOffset, Nat.add_zero,
    Nat.zero_add, ManagerType.toU8, htype, ne_eq, not_true_eq_false, ite_false]
  rw [show Segment.kSerializedSize = 2 from rfl, hloop]

theorem UnreliableStream.read_longest {b : Span} {mem : Memory} (hsize : 2 ≤ b.size)
    (htype : mem b.off = 4) :
    ∃ payloads, LongestItems UnreliableMessage.encode PayloadFits (mem (b.off + 1)).toNat
        (mem.slice (b.off + 2) (b.size - 2)) payloads ∧
      (UnreliableStream.read b mem).val = (payloads,
        segmentResult (mem (b.off + 1)).toNat payloads.length
          (2 + (encodePayloads payloads).length)) := by
  obtain ⟨payloads, hlongest, hloop⟩ := readLoop_longest (mem (b.off + 1)).toNat 2 hsize
  have hsegment : ¬ Segment.kSerializedSize > b.size := Nat.not_lt.mpr hsize
  refine ⟨payloads, hlongest, ?_⟩
  rw [UnreliableStream.read, if_neg hsegment]
  simp only [Checked.val_bind, Segment.managerType, Segment.messageCount,
    val_readU8, Segment.kManagerTypeOffset, Segment.kMessageCountOffset, Nat.add_zero,
    Nat.zero_add, ManagerType.toU8, htype, ne_eq, not_true_eq_false, ite_false]
  rw [show Segment.kSerializedSize = 2 from rfl, hloop]

/-- **The readers accept their grammar.**  A span that holds another segment or none is
passed over.  In a segment, the callback gets the messages of the longest list that the
bytes behind the segment header begin with (the reliable stream hands on those in
sequence), the segment is accepted iff the bytes begin with as many messages as it
announces, and nothing outside the span is read. -/
theorem readers_accept_grammar (s : ReliableStream) (b : Span) (mem : Memory) :
    let n := (mem (b.off + 1)).toNat
    let bytes := mem.slice (b.off + 2) (b.size - 2)
    let encode := fun msg : WireMessage => ReliableMessage.encode msg.1 msg.2
    ((b.size < 2 ∨ mem b.off ≠ 3 → (s.read b mem).val = (s, [], .ok 0)) ∧
      (b.size < 2 ∨ mem b.off ≠ 4 → (UnreliableStream.read b mem).val = ([], .ok 0))) ∧
    (2 ≤ b.size → mem b.off = 3 →
      (∃ msgs, LongestItems encode WireMessage.Fits n bytes msgs ∧
        (s.read b mem).val = ({ s with nextExpectedSequenceNumber :=
              (receive s.nextExpectedSequenceNumber msgs).1 },
            (receive s.nextExpectedSequenceNumber msgs).2,
            segmentResult n msgs.length (2 + (msgs.flatMap encode).length))) ∧
      ((∃ count, (s.read b mem).val.2.2 = .ok count) ↔ ∃ msgs : List WireMessage,
        msgs.length = n ∧ (∀ msg ∈ msgs, msg.Fits) ∧ msgs.flatMap encode <+: bytes)) ∧
    (2 ≤ b.size → mem b.off = 4 →
      (∃ payloads, LongestItems UnreliableMessage.encode PayloadFits n bytes payloads ∧
        (UnreliableStream.read b mem).val = (payloads, segmentResult n payloads.length
          (2 + (payloads.flatMap UnreliableMessage.encode).length))) ∧
      ((∃ count, (UnreliableStream.read b mem).val.2 = .ok count) ↔
        ∃ payloads : List (List UInt8), payloads.length = n ∧
          (∀ payload ∈ payloads, PayloadFits payload) ∧
          payloads.flatMap UnreliableMessage.encode <+: bytes)) ∧
    (s.read b mem).Avoids MemoryFault ∧ (UnreliableStream.read b mem).Avoids MemoryFault := by
  intro n bytes encode
  refine ⟨⟨s.read_other, UnreliableStream.read_other⟩, fun hsize htype => ?_,
    fun hsize htype => ?_, (s.read_inside b mem).1, (UnreliableStream.read_inside b mem).1⟩
  · obtain ⟨msgs, hlongest, hread⟩ := s.read_longest hsize htype
    refine ⟨⟨msgs, hlongest, hread⟩, ?_⟩
    rw [hread, segmentResult_ok_iff, hlongest.length_eq_iff]
  · obtain ⟨payloads, hlongest, hread⟩ := UnreliableStream.read_longest hsize htype
    refine ⟨⟨payloads, hlongest, hread⟩, ?_⟩
    rw [hread, segmentResult_ok_iff, hlongest.length_eq_iff]

/-- A segment that announces two messages, the second of which is cut off: its bytes are
rejected, after the first message has been handed on. -/
theorem readers_accept_grammar_cut_off :
    let mem := Memory.storeList (fun _ => 0) 0
      [3, 2, 0, 0, 0, 0, 0, 1, 9, 0, 0, 0, 1, 0, 2, 5]
    let s : ReliableStream := {}
    (s.read ⟨0, 16⟩ mem).val.2 = ([[9]], .error .malformedPacket) ∧
      ¬ ∃ msgs : List WireMessage, msgs.length = 2 ∧ (∀ msg ∈ msgs, msg.Fits) ∧
        msgs.flatMap (fun msg => ReliableMessage.encode msg.1 msg.2) <+: mem.slice 2 14 := by
  intro mem s
  have hread : (s.read ⟨0, 16⟩ mem).val.2 = ([[9]], .error .malformedPacket) := by decide +kernel
  refine ⟨hread, fun hgrammar => ?_⟩
  obtain ⟨count, hcount⟩ := ((readers_accept_grammar s ⟨0, 16⟩ mem).2.1 (by decide) rfl).2.mpr
    hgrammar
  rw [hread] at hcount
  cases hcount

end Neptun
