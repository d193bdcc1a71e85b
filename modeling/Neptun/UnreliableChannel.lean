/-
Two unreliable streams over an unreliable network.

A `StreamNode` is a `PacketDeliveryManager` and an `UnreliableStream`, wired as in
`write_to_peer` and `read`.  The stream has no sequence numbers: that nothing is
received twice or out of order rests on the packet ids.  Every packet carries a
piece of what was sent, the pieces are in the order of the ids, and the receiver
takes packets with increasing ids only.

* `Carries` — the invariant of one direction, for a trace of the packets;
* `unreliable_subsequence` — what has been received is a subsequence of what was
  sent.
-/
import Neptun.AckSoundness
import Neptun.UnreliableBuffer

namespace Neptun

open UnreliableStream PacketDeliveryManager

/-- One end of a channel and its past: the payloads accepted by `send`, the
payloads given to the callback and the packets written. -/
structure StreamNode where
  delivery : PacketDeliveryManager
  stream : UnreliableStream := {}
  networkBuffer : Memory := fun _ => 0
  accepted : List (List UInt8) := []
  received : List (List UInt8) := []
  packets : List (List UInt8) := []

inductive StreamCall
  | send (fn : WriteToBufferFn)
  | write (now : ℤ) (size : ℕ)
  | dropOldPackets (now : ℤ)
  | read (packet : List UInt8)

namespace StreamNode

def send (n : StreamNode) (fn : WriteToBufferFn) : StreamNode :=
  { n with stream := (n.stream.send fn).val, accepted := n.stream.acceptedAfter fn n.accepted }

/-- A packet of at most `size` bytes. -/
def write (n : StreamNode) (now : ℤ) (size : ℕ) : Checked Fault StreamNode := do
  let buffer : Span := ⟨0, size⟩
  let (delivery, mem, packetHeaderCount) ← n.delivery.write buffer n.networkBuffer now
  let buffer ← advance buffer packetHeaderCount
  let (stream, mem, unreliableStreamCount) ← n.stream.write buffer mem
  let payload := mem.slice 0 (packetHeaderCount + unreliableStreamCount)
  pure { n with
    delivery := delivery
    stream := stream
    networkBuffer := mem
    packets := n.packets ++ [payload] }

/-- The stream does not hear of the statuses. -/
def dropOldPackets (n : StreamNode) (now : ℤ) : StreamNode :=
  { n with delivery := (n.delivery.dropOldPackets now).1 }

def read (n : StreamNode) (packet : List UInt8) : Checked Fault StreamNode := do
  let payload := packet.take kJustAboveMtu
  let mem := n.networkBuffer.storeList 0 payload
  let b : Span := ⟨0, payload.length⟩
  let header ← PacketHeader.read b mem
  let (delivery, readCount, _) ← n.delivery.processRead header
  let n := { n with delivery := delivery, networkBuffer := mem }
  if readCount = 0 then
    pure n
  else
    let b ← advance b readCount
    let (payloads, _) ← UnreliableStream.read b mem
    pure { n with received := n.received ++ payloads }

def next (n : StreamNode) : StreamCall → StreamNode
  | .send fn => n.send fn
  | .write now size => (n.write now size).val
  | .dropOldPackets now => n.dropOldPackets now
  | .read packet => (n.read packet).val

end StreamNode

/-- The runs of a channel.  A packet has room for its header and stays below the
MTU; a side reads what the other side has written, in any order and any number
of times. -/
def streams (nextExpectedPacketId : Side → PacketId) (packetTimeout : Side → ℤ) :
    System (Side → StreamNode) (Side × StreamCall) where
  init s := s = fun side => { delivery := {
    packetTimeout := packetTimeout side
    nextExpectedPacketId := nextExpectedPacketId side } }
  enabled s call := match call.2 with
    | .write _ size => PacketHeader.kSerializedSize ≤ size ∧ size ≤ kJustBelowMtu.toNat
    | .read packet => packet ∈ (s call.1.other).packets
    | _ => True
  next s call := Side.set s call.1 ((s call.1).next call.2)

namespace StreamNode

/-! ### What the calls do -/

/-- What a packet takes from the stream. -/
def chunk (n : StreamNode) (size : ℕ) : List (List UInt8) :=
  n.stream.payloads.take (n.stream.fitCount (size - 12))

/-- The packet has the next header and the messages that fit behind it. -/
theorem val_write (n : StreamNode) (now : ℤ) {size : ℕ} (hsize : 12 ≤ size) :
    ∃ mem mem', (n.write now size).val = { n with
      delivery := (n.delivery.nextHeader now).val.1
      stream := (n.stream.write ⟨12, size - 12⟩ mem').val.1
      networkBuffer := mem
      packets := n.packets
        ++ [(n.delivery.nextHeader now).val.2.encode ++ encodeUnreliable (n.chunk size)] } := by
  set header := (n.delivery.nextHeader now).val.2 with hheader
  have hslice : (n.networkBuffer.storeList 0 header.encode).slice 0 12 = header.encode := by
    have := Memory.slice_storeList_self n.networkBuffer 0 header.encode
    rwa [PacketHeader.length_encode] at this
  refine ⟨(n.networkBuffer.storeList 0 header.encode).storeList 12
    (encodeUnreliable (n.chunk size)), n.networkBuffer.storeList 0 header.encode, ?_⟩
  rw [write]
  simp only [Checked.val_bind, Checked.val_pure, PacketDeliveryManager.val_write, val_advance,
    usizeSub_of_le hsize, Nat.zero_add, ← hheader]
  have hresult : (n.stream.write ⟨12, size - 12⟩
        (n.networkBuffer.storeList 0 header.encode)).val.2
      = ((n.networkBuffer.storeList 0 header.encode).storeList 12
          (encodeUnreliable (n.chunk size)), (encodeUnreliable (n.chunk size)).length) := by
    rw [UnreliableStream.val_write]
    rfl
  simp only [hresult]
  rw [Memory.slice_add, Memory.slice_storeList_of_disjoint (Or.inl (by omega)), hslice,
    Nat.zero_add, Memory.slice_storeList_self]

/-- What is received from a packet: as many of its messages as its byte counts. -/
theorem val_read (n : StreamNode) {header : PacketHeader} {chunk : List (List UInt8)}
    (hfits : ∀ payload ∈ chunk, PayloadFits payload)
    (hshort : (header.encode ++ encodeUnreliable chunk).length ≤ kJustAboveMtu) :
    ∃ mem, (n.read (header.encode ++ encodeUnreliable chunk)).val = { n with
      delivery := (n.delivery.processRead header).val.1
      networkBuffer := mem
      received :=
        if (n.delivery.processRead header).val.2.1 = 0 then n.received
        else n.received ++ chunk.take (chunk.length % 256) } := by
  set packet := header.encode ++ encodeUnreliable chunk with hpacket
  set mem := n.networkBuffer.storeList 0 packet with hmem
  have hslice := Memory.slice_storeList_self n.networkBuffer 0 packet
  rw [← hmem, hpacket] at hslice
  obtain ⟨hhead, htail⟩ := Memory.slice_eq_of_append hslice
  rw [PacketHeader.length_encode] at hhead htail
  have hheader : (PacketHeader.read ⟨0, packet.length⟩ mem).val = header :=
    PacketHeader.val_read hhead
  have hlength : packet.length = 12 + (encodeUnreliable chunk).length := by
    rw [hpacket, List.length_append, PacketHeader.length_encode]
  -- a packet without messages ends behind its header
  have hread : (UnreliableStream.read ⟨12, (encodeUnreliable chunk).length⟩ mem).val.1
      = chunk.take (chunk.length % 256) := by
    by_cases hnil : chunk = []
    · rw [hnil]
      rfl
    · rw [UnreliableStream.val_read hnil hfits (Nat.le_refl _) htail]
  refine ⟨mem, ?_⟩
  rw [read, List.take_of_length_le hshort]
  simp only [Checked.val_bind, ← hmem, hheader]
  rcases processRead_cases n.delivery header with ⟨hcount, -⟩ | ⟨hcount, -⟩
  · rw [if_pos hcount, if_pos hcount]
    rfl
  · have hne : (n.delivery.processRead header).val.2.1 ≠ 0 := by
      rw [hcount]
      decide
    rw [if_neg hne, if_neg hne]
    simp only [Checked.val_bind, Checked.val_pure, val_advance, hcount, hlength,
      usizeSub_of_le (Nat.le_add_right 12 _), Nat.add_sub_cancel_left, Nat.zero_add, hread]

theorem packets_le (n : StreamNode) (call : StreamCall) :
    n.packets.length ≤ (n.next call).packets.length := by
  cases call with
  | send fn => exact Nat.le_refl _
  | write now size =>
    show _ ≤ (n.packets ++ [_]).length
    rw [List.length_append]
    exact Nat.le_add_right _ _
  | dropOldPackets now => exact Nat.le_refl _
  | read packet =>
    rw [next, read]
    simp only [Checked.val_bind]
    split <;> exact Nat.le_refl _

end StreamNode

/-! ### One direction -/

/-- The bytes of a packet. -/
def tracedBytes (packet : PacketHeader × List (List UInt8)) : List UInt8 :=
  packet.1.encode ++ encodeUnreliable packet.2

/-- The messages of packets, in order. -/
def tracedMessages (trace : List (PacketHeader × List (List UInt8))) : List (List UInt8) :=
  trace.flatMap Prod.snd

/-- One direction of a channel: the packets of `a` carry what it has accepted, in
order, and `b` has received from those below its next expected id. -/
structure Carries (a b : StreamNode) (trace : List (PacketHeader × List (List UInt8))) :
    Prop where
  packets : a.packets = trace.map tracedBytes
  numbered : Numbered a.delivery (trace.map Prod.fst)
  sound : a.stream.Sound 3200
  accepted : (tracedMessages trace ++ a.stream.payloads).Sublist a.accepted
  fits : ∀ packet ∈ trace, (∀ payload ∈ packet.2, PayloadFits payload) ∧
    (tracedBytes packet).length ≤ kJustAboveMtu
  received : b.received.Sublist
    (tracedMessages (trace.take b.delivery.nextExpectedPacketId.toNat))

namespace Carries

variable {a b : StreamNode} {trace : List (PacketHeader × List (List UInt8))}

theorem tracedMessages_append (trace trace' : List (PacketHeader × List (List UInt8))) :
    tracedMessages (trace ++ trace') = tracedMessages trace ++ tracedMessages trace' :=
  List.flatMap_append

theorem tracedMessages_take_sublist (trace : List (PacketHeader × List (List UInt8)))
    {i j : ℕ} (h : i ≤ j) :
    (tracedMessages (trace.take i)).Sublist (tracedMessages (trace.take j)) := by
  rw [show trace.take i = (trace.take j).take i by rw [List.take_take, Nat.min_eq_left h]]
  exact List.Sublist.flatMap (List.take_sublist i _) _

/-- Only what `b` has received, and the id it expects, matter. -/
theorem congr_receiver (h : Carries a b trace) {b' : StreamNode}
    (hreceived : b'.received = b.received)
    (hexp : b'.delivery.nextExpectedPacketId = b.delivery.nextExpectedPacketId) :
    Carries a b' trace := by
  refine ⟨h.packets, h.numbered, h.sound, h.accepted, h.fits, ?_⟩
  rw [hreceived, hexp]
  exact h.received

/-- Only the stream, the packets and the next id of `a` matter. -/
theorem congr_sender (h : Carries a b trace) {a' : StreamNode} (hpackets : a'.packets = a.packets)
    (hnext : a'.delivery.nextOutgoingPacketId = a.delivery.nextOutgoingPacketId)
    (hstream : a'.stream = a.stream) (haccepted : a'.accepted = a.accepted) :
    Carries a' b trace := by
  refine ⟨hpackets.trans h.packets, h.numbered.congr hnext, ?_, ?_, h.fits, h.received⟩
  · rw [hstream]
    exact h.sound
  · rw [hstream, haccepted]
    exact h.accepted

theorem send (h : Carries a b trace) (fn : WriteToBufferFn) : Carries (a.send fn) b trace := by
  refine ⟨h.packets, h.numbered, h.sound.send fn, ?_, h.fits, h.received⟩
  show (tracedMessages trace ++ (a.stream.send fn).val.payloads).Sublist
    (a.stream.acceptedAfter fn a.accepted)
  rw [h.sound.payloads_send, UnreliableStream.acceptedAfter, UnreliableStream.acceptedAfter]
  split
  · exact h.accepted
  · rw [← List.append_assoc]
    exact h.accepted.append (List.Sublist.refl _)

/-- What a packet takes is taken from the front of the pending messages, and the
rest is either still pending or dropped. -/
theorem write (h : Carries a b trace) (now : ℤ) {size : ℕ} (hmin : 12 ≤ size)
    (hmax : size ≤ kJustBelowMtu.toNat) :
    Carries (a.write now size).val b
      (trace ++ [((a.delivery.nextHeader now).val.2, a.chunk size)]) := by
  obtain ⟨mem, mem', hval⟩ := a.val_write now hmin
  have hmtu : kJustBelowMtu.toNat = 1400 := rfl
  have hmtu' : kJustAboveMtu = 1600 := rfl
  have hchunk : a.chunk size
      = a.stream.payloads.take (longestFit (size - 12) a.stream.payloads) := by
    rw [StreamNode.chunk, fitCount_eq_longestFit]
  rw [hval]
  refine ⟨?_, ?_, h.sound.write _ _, ?_, ?_, ?_⟩
  · rw [List.map_append, ← h.packets]
    rfl
  · rw [List.map_append]
    exact h.numbered.nextHeader now
  · show (tracedMessages (trace ++ [(_, a.chunk size)])
      ++ (a.stream.write ⟨12, size - 12⟩ mem').val.1.payloads).Sublist a.accepted
    rw [tracedMessages_append, List.append_assoc]
    refine List.Sublist.trans (List.Sublist.append (List.Sublist.refl _) ?_) h.accepted
    show ((a.chunk size ++ []) ++ _).Sublist _
    rw [List.append_nil]
    -- nothing is taken and all stays pending, or the rest is dropped
    by_cases hfit : a.stream.fitCount (size - 12) = 0
    · rw [StreamNode.chunk, hfit, List.take_zero, write_of_fitCount _ _ _ hfit]
      exact List.Sublist.refl _
    · rw [payloads, (h.sound.write_state ⟨12, size - 12⟩ mem' hfit).1, List.map_nil,
        List.append_nil]
      exact List.take_sublist _ _
  · intro packet hpacket
    rcases List.mem_append.mp hpacket with hpacket | hpacket
    · exact h.fits packet hpacket
    · rw [List.mem_singleton.mp hpacket]
      refine ⟨?_, ?_⟩
      · show ∀ payload ∈ a.chunk size, PayloadFits payload
        rw [hchunk]
        exact h.sound.payloadFits (by omega)
      · have hcount : (encodeUnreliable (a.chunk size)).length ≤ size - 12 :=
          encodeUnreliable_length_le a.stream (size - 12)
        rw [tracedBytes, List.length_append, PacketHeader.length_encode]
        dsimp only
        omega
  · refine List.Sublist.trans h.received ?_
    rw [List.take_append, tracedMessages_append]
    exact List.sublist_append_left _ _

/-- A packet that is accepted is not below the next expected one, so its messages
come behind all that was received before. -/
theorem read (h : Carries a b trace) (hcount : a.packets.length < 2 ^ 32) {packet : List UInt8}
    (hpacket : packet ∈ a.packets) : Carries a (b.read packet).val trace := by
  rw [h.packets] at hpacket
  obtain ⟨⟨header, chunk⟩, hmem, rfl⟩ := List.mem_map.mp hpacket
  obtain ⟨i, hi, hget⟩ := List.mem_iff_getElem.mp hmem
  have hlength : a.packets.length = trace.length := by rw [h.packets, List.length_map]
  -- the id of a packet is its place
  have hid : header.id.toNat = i := by
    have hids := h.numbered.ids
    rw [List.map_map, List.length_map] at hids
    have hi' := congrArg (fun ids => ids[i]?) hids
    simp only [List.getElem?_map, List.getElem?_eq_getElem hi, List.getElem?_range hi, hget,
      Option.map_some, Option.some.injEq, Function.comp] at hi'
    rw [hi', UInt32.toNat_ofNat', Nat.mod_eq_of_lt (by omega)]
  obtain ⟨hfits, hshort⟩ := h.fits _ hmem
  obtain ⟨mem, hval⟩ := b.val_read hfits hshort
  rw [tracedBytes, hval]
  refine ⟨h.packets, h.numbered, h.sound, h.accepted, h.fits, ?_⟩
  rcases processRead_cases b.delivery header with ⟨hzero, -, -, hexp⟩ | ⟨htwelve, hge, -, hexp⟩
  · rw [if_pos hzero]
    dsimp only
    rw [hexp]
    exact h.received
  -- the packets between the expected one and this one are lost for good
  · rw [if_neg (by rw [htwelve]; decide)]
    dsimp only
    have hsucc : (header.id + 1).toNat = i + 1 := by
      rw [UInt32.toNat_add, UInt32.toNat_one, hid, Nat.mod_eq_of_lt (by omega)]
    have hle : b.delivery.nextExpectedPacketId.toNat ≤ i := by
      rw [UInt32.lt_iff_toNat_lt, hid] at hge
      omega
    rw [hexp, hsucc, List.take_succ_eq_append_getElem hi, hget, tracedMessages_append]
    refine List.Sublist.append
      (h.received.trans (tracedMessages_take_sublist trace hle)) ?_
    show (chunk.take (chunk.length % 256)).Sublist (chunk ++ [])
    rw [List.append_nil]
    exact List.take_sublist _ _

end Carries

/-! ### Both directions -/

/-- Each side carries what it has accepted to the other one. -/
def StreamsSound (s : Side → StreamNode) : Prop :=
  ∀ side, ∃ trace, Carries (s side) (s side.other) trace

/-- One side changes: it is the sender of one direction and the receiver of the
other one. -/
theorem StreamsSound.set {s : Side → StreamNode} {side : Side} {n : StreamNode}
    (hsender : ∃ trace, Carries n (s side.other) trace)
    (hreceiver : ∃ trace, Carries (s side.other) n trace) : StreamsSound (side.set s n) := by
  intro t
  by_cases ht : t = side
  · subst ht
    rw [Side.set_self, Side.set_other]
    exact hsender
  · rw [Side.eq_other_of_ne ht, Side.other_other, Side.set_self, Side.set_other]
    exact hreceiver

theorem StreamsSound.next {s : Side → StreamNode} (h : StreamsSound s) {side : Side}
    {call : StreamCall} (hcount : (s side.other).packets.length < 2 ^ 32)
    (hwrite : ∀ now size, call = .write now size → 12 ≤ size ∧ size ≤ kJustBelowMtu.toNat)
    (hread : ∀ packet, call = .read packet → packet ∈ (s side.other).packets) :
    StreamsSound (side.set s ((s side).next call)) := by
  obtain ⟨trace, hsend⟩ := h side
  obtain ⟨trace', hreceive⟩ := h side.other
  rw [Side.other_other] at hreceive
  cases call with
  | send fn => exact .set ⟨trace, hsend.send fn⟩ ⟨trace', hreceive.congr_receiver rfl rfl⟩
  | write now size =>
    obtain ⟨hmin, hmax⟩ := hwrite now size rfl
    refine .set ⟨_, hsend.write now hmin hmax⟩ ⟨trace', hreceive.congr_receiver ?_ ?_⟩
    · obtain ⟨mem, mem', hval⟩ := (s side).val_write now hmin
      rw [StreamNode.next, hval]
    · obtain ⟨mem, mem', hval⟩ := (s side).val_write now hmin
      rw [StreamNode.next, hval]
      show ((s side).delivery.nextHeader now).val.1.nextExpectedPacketId = _
      rw [nextHeader_frame]
  | dropOldPackets now =>
    exact .set ⟨trace, hsend.congr_sender rfl rfl rfl rfl⟩
      ⟨trace', hreceive.congr_receiver rfl rfl⟩
  | read packet =>
    refine .set ⟨trace, hsend.congr_sender ?_ ?_ ?_ ?_⟩
      ⟨trace', hreceive.read hcount (hread packet rfl)⟩
    -- reading changes what is received and expected, which is no matter for a sender
    all_goals
      rw [StreamNode.next, StreamNode.read]
      simp only [Checked.val_bind]
      split
    · rfl
    · rfl
    · exact processRead_nextOutgoing _ _
    · exact processRead_nextOutgoing _ _
    · rfl
    · rfl
    · rfl
    · rfl

/-- **Unreliable messages** are received at most once, unaltered and in order:
what a side has received is at every moment a subsequence of what the other side
has accepted. -/
theorem unreliable_subsequence {nextExpectedPacketId : Side → PacketId}
    {packetTimeout : Side → ℤ} {s : Side → StreamNode}
    (h : (streams nextExpectedPacketId packetTimeout).Reachable System.anyAction s)
    (hcount : ∀ side, (s side).packets.length < 2 ^ 32) (side : Side) :
    (s side.other).received.Sublist (s side).accepted := by
  have hbound : ∀ (s : Side → StreamNode) (call : Side × StreamCall),
      (∀ side, (Side.set s call.1 ((s call.1).next call.2) side).packets.length < 2 ^ 32) →
      ∀ side, (s side).packets.length < 2 ^ 32 := by
    intro s call hnext side
    refine Nat.lt_of_le_of_lt ?_ (hnext side)
    rw [Side.set]
    split
    · next heq =>
      rw [heq]
      exact (s call.1).packets_le call.2
    · exact Nat.le_refl _
  -- there were never more packets than there are now
  have hs : StreamsSound s := by
    refine h.invariant_of_bound (fun s => ∀ side, (s side).packets.length < 2 ^ 32) hbound
      (fun s hs side => ?_) (fun s call _ hs hen _ hnext => ?_) hcount
    · rw [hs]
      refine ⟨[], rfl, ⟨rfl, rfl⟩, Sound.start 3200, List.Sublist.refl _, ?_, ?_⟩
      · intro packet hpacket
        cases hpacket
      · exact List.nil_sublist _
    · obtain ⟨side, call⟩ := call
      refine hs.next (hbound s (side, call) hnext side.other) ?_ ?_
      · rintro now size rfl
        exact hen
      · rintro packet rfl
        exact hen
  obtain ⟨trace, htrace⟩ := hs side
  have htake : (tracedMessages (trace.take
      (s side.other).delivery.nextExpectedPacketId.toNat)).Sublist (tracedMessages trace) :=
    List.Sublist.flatMap (List.take_sublist _ _) _
  exact ((htrace.received.trans htake).trans (List.sublist_append_left _ _)).trans htrace.accepted

/-- The second packet overtakes the first one, which is then too old, and a
duplicate of it comes as well. -/
theorem unreliable_subsequence_reordered :
    let first := [0, 0, 0, 0, 0, 0, 0, 0, 0, 0, 0, 0, 4, 2, 0, 1, 1, 0, 2, 2, 3]
    let second := [0, 0, 0, 1, 0, 0, 0, 0, 0, 0, 0, 0, 4, 1, 0, 1, 4]
    let s := (streams (fun _ => 0) (fun _ => 5000)).runFrom
      (fun _ => { delivery := { packetTimeout := 5000, nextExpectedPacketId := 0 } })
      [(.a, .send (.ofBytes [1])), (.a, .send (.ofBytes [2, 3])), (.a, .write 0 1400),
        (.a, .send (.ofBytes [4])), (.a, .write 1 1400), (.b, .read second), (.b, .read first),
        (.b, .read second)]
    (s .a).accepted = [[1], [2, 3], [4]] ∧ (s .b).received = [[4]] ∧
      (s .b).received.Sublist (s .a).accepted := by
  refine ⟨by decide +kernel, by decide +kernel, ?_⟩
  refine @unreliable_subsequence (fun _ => 0) (fun _ => 5000) _
    (System.runFrom_reachable (.init rfl) ?_) ?_ .a
  · refine ⟨trivial, trivial, trivial, trivial, ⟨by decide, by decide⟩, trivial, trivial, trivial,
      ⟨by decide, by decide⟩, trivial, ?_, trivial, ?_, trivial, ?_, trivial, trivial⟩
    -- the packets that are read have been written before
    · show [0, 0, 0, 1, 0, 0, 0, 0, 0, 0, 0, 0, 4, 1, 0, 1, 4] ∈ _
      decide +kernel
    · show [0, 0, 0, 0, 0, 0, 0, 0, 0, 0, 0, 0, 4, 2, 0, 1, 1, 0, 2, 2, 3] ∈ _
      decide +kernel
    · show [0, 0, 0, 1, 0, 0, 0, 0, 0, 0, 0, 0, 4, 1, 0, 1, 4] ∈ _
      decide +kernel
  · intro side
    cases side <;> decide +kernel

end Neptun
