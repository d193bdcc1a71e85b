/-
Two entries that belong to each other, over an unreliable network.

A `link` is the machine of one address (`PeerRuns.lean`) twice: what one of them has
sent, the other one may read, in any order and any number of times.

`Sending` and `Receiving` are the two halves of an entry's invariant.  A trace records
the content of the packets; a packet has its place in it for its id.

* `Sending.write`, `Receiving.read` — the two steps that matter;
* `link_sound` — both halves hold in every reachable state, as long as there are
  fewer than `2 ^ 32` packets and messages.
-/
import Neptun.PacketIds
import Neptun.PacketReading
import Neptun.PeerRuns

namespace Neptun

/-- The runs of two entries that belong to each other. -/
def link (setup : Setup) : System (Side → PeerNode) (Side × PeerCall) where
  init s := s = fun _ => {}
  enabled s call := match call.2 with
    | .tick _ (some packet) _ _ => packet ∈ (s call.1.other).history.packets
    | _ => True
  next s call := Side.set s call.1
    ((s call.1).next (setup.config call.1) (setup.packetTimeout call.1) call.2)

theorem link_next (setup : Setup) (s : Side → PeerNode) (call : Side × PeerCall) :
    (link setup).next s call = Side.set s call.1
      ((s call.1).next (setup.config call.1) (setup.packetTimeout call.1) call.2) := rfl

/-! ### Sending -/

/-- What an entry has sent and still has to send. -/
structure Sending (config : ConnectionManagerConfig) (contents : List PacketContent)
    (h : PeerHistory) (p : Peer) : Prop where
  packets : h.packets = contents.map PacketContent.bytes
  ids : ∀ i content, contents[i]? = some content → content.header.id = UInt32.ofNat i
  formed : ∀ content ∈ contents, content.Formed config.limit h.reliableSent
  nextId : p.nextId = UInt32.ofNat contents.length
  config : p.connectionManager.config = config
  intact : p.connectionManager.isFail = false
  limits : p.LimitsValid
  reliable : ∃ k, Represents 3200 p.reliableStream k h.reliableSent
  unreliable : p.unreliableStream.Sound 3200
  accepted : (contents.flatMap PacketContent.chunk ++ p.unreliableStream.payloads).Sublist
    h.unreliableSent

namespace Sending

variable {config : ConnectionManagerConfig} {contents : List PacketContent} {h : PeerHistory}
  {p : Peer}

theorem fresh (config : ConnectionManagerConfig) (packetTimeout now : ℤ) :
    Sending config [] {} (.fresh config packetTimeout now) where
  packets := rfl
  ids := by simp
  formed := by simp
  nextId := rfl
  config := rfl
  intact := rfl
  limits := by
    intro limit hlimit
    cases hlimit
  reliable := ⟨0, Represents.start 3200⟩
  unreliable := UnreliableStream.Sound.start 3200
  accepted := List.Sublist.refl _

/-- What is received is none of the sender's business. -/
theorem congr_history (hs : Sending config contents h p) (reliable unreliable : List (List UInt8)) :
    Sending config contents
      { h with reliableReceived := reliable, unreliableReceived := unreliable } p :=
  ⟨hs.packets, hs.ids, hs.formed, hs.nextId, hs.config, hs.intact, hs.limits, hs.reliable,
    hs.unreliable, hs.accepted⟩

theorem connect (hs : Sending config contents h p) :
    Sending config contents h { p with connectionManager := p.connectionManager.connect } :=
  ⟨hs.packets, hs.ids, hs.formed, hs.nextId, hs.config, hs.intact, hs.limits, hs.reliable,
    hs.unreliable, hs.accepted⟩

theorem sendReliable (hs : Sending config contents h p) (fn : WriteToBufferFn) :
    Sending config contents
      { h with reliableSent := p.reliableStream.sentAfter fn h.reliableSent }
      { p with reliableStream := (p.reliableStream.send fn).val } := by
  obtain ⟨k, hk⟩ := hs.reliable
  refine ⟨hs.packets, hs.ids, ?_, hs.nextId, hs.config, hs.intact, hs.limits,
    ⟨k, (hk.send fn).1⟩, hs.unreliable, hs.accepted⟩
  -- the messages of old packets are among those that are sent now
  intro content hcontent
  dsimp only
  rw [ReliableStream.sentAfter]
  split
  · exact hs.formed content hcontent
  · exact (hs.formed content hcontent).append _

theorem sendUnreliable (hs : Sending config contents h p) (fn : WriteToBufferFn) :
    Sending config contents
      { h with unreliableSent := p.unreliableStream.acceptedAfter fn h.unreliableSent }
      { p with unreliableStream := (p.unreliableStream.send fn).val } := by
  refine ⟨hs.packets, hs.ids, hs.formed, hs.nextId, hs.config, hs.intact, hs.limits, hs.reliable,
    hs.unreliable.send fn, ?_⟩
  dsimp only
  rw [hs.unreliable.payloads_send, UnreliableStream.acceptedAfter, UnreliableStream.acceptedAfter]
  split
  · exact hs.accepted
  · rw [← List.append_assoc]
    exact hs.accepted.append (List.Sublist.refl _)

/-- Statuses do not change what was sent. -/
theorem represents_status {sent : List (List UInt8)} (s : ReliableStream) (id : PacketId)
    (status : PacketDeliveryStatus) (hs : ∃ k, Represents 3200 s k sent) :
    ∃ k, Represents 3200 (s.onPacketDeliveryStatus id status).val k sent := by
  obtain ⟨k, hk⟩ := hs
  exact ⟨_, (hk.status id status).1⟩

theorem represents_expect {sent : List (List UInt8)} (s : ReliableStream) (expected : UInt32)
    (hs : ∃ k, Represents 3200 s k sent) :
    ∃ k, Represents 3200 { s with nextExpectedSequenceNumber := expected } k sent := by
  obtain ⟨k, hk⟩ := hs
  exact ⟨k, hk.expect expected⟩

theorem dropOldPackets (hs : Sending config contents h p) (now : ℤ) :
    Sending config contents h (p.dropOldPackets now).val.1 := by
  obtain ⟨hreliable, hunreliable⟩ := Peer.dropOldPackets_keepsStreams represents_status
    hs.reliable now
  refine ⟨hs.packets, hs.ids, hs.formed, ?_, ?_, ?_, hs.limits.dropOldPackets now, hreliable,
    ?_, ?_⟩
  · rw [Peer.dropOldPackets_nextId]
    exact hs.nextId
  · rw [Peer.dropOldPackets_connection _ ConnectionManager.status_config]
    exact hs.config
  · rw [Peer.dropOldPackets_connection _ ConnectionManager.status_isFail]
    exact hs.intact
  · rw [hunreliable]
    exact hs.unreliable
  · rw [hunreliable]
    exact hs.accepted

/-- A packet of the other side is no reason to fail. -/
theorem read (hs : Sending config contents h p) {limit : BandwidthLimit} (hlimit : limit.Robust)
    {sent : List (List UInt8)} {content : PacketContent} (hcontent : content.Formed limit sent)
    (mem : Memory) :
    Sending config contents h (p.read config ⟨0, content.bytes.length⟩
      (mem.storeList 0 content.bytes)).val.1 := by
  obtain ⟨-, -, -, hfail⟩ := Peer.read_content hcontent hlimit config p mem
  obtain ⟨hreliable, hunreliable⟩ := Peer.read_keepsStreams represents_status represents_expect
    config hs.reliable ⟨0, content.bytes.length⟩ (mem.storeList 0 content.bytes)
  refine ⟨hs.packets, hs.ids, hs.formed, ?_, ?_, hfail hs.intact, hs.limits.read _ _ _, hreliable,
    ?_, ?_⟩
  · rw [Peer.read_nextId]
    exact hs.nextId
  · rw [Peer.read_connection _ ConnectionManager.status_config ConnectionManager.read_config]
    exact hs.config
  · rw [hunreliable]
    exact hs.unreliable
  · rw [hunreliable]
    exact hs.accepted

/-- A packet extends the trace by its content. -/
theorem writeToPeer (hs : Sending config contents h p) (mem : Memory) (now : ℤ) {size : UInt16}
    (hroom : 21 ≤ (min kJustBelowMtu size).toNat) :
    Sending config (contents ++ [p.nextContent now size (mem 17)])
      { h with packets := h.packets ++ [(p.writeToPeer mem now size).val.2.2.payload] }
      (p.writeToPeer mem now size).val.1 := by
  obtain ⟨k, hk⟩ := hs.reliable
  obtain ⟨⟨id, b, mem₁, hconnection⟩, ⟨id', b', mem₂, hreliable⟩, b'', mem₃, hsize,
    hunreliable⟩ := p.writeToPeer_streams mem now size
  have hdelivery := (p.writeToPeer_frame mem now size).1
  have hformed := Peer.nextContent_formed hk hs.unreliable hs.intact now hroom (mem 17)
  rw [hs.config] at hformed
  refine ⟨?_, ?_, ?_, ?_, ?_, ?_, ?_, ⟨k, ?_⟩, ?_, ?_⟩
  · dsimp only
    rw [hs.packets, List.map_append, List.map_singleton, Peer.writeToPeer_encodePacket,
      Peer.bytes_nextContent]
  · intro i content hi
    rw [List.getElem?_append] at hi
    split at hi
    · exact hs.ids i content hi
    · -- the new packet has the next id
      rw [List.getElem?_singleton] at hi
      split at hi
      · have hlast : i = contents.length := by omega
        rw [hlast, ← hs.nextId, ← Option.some_inj.mp hi]
        exact PacketDeliveryManager.nextHeader_id _ _
      · cases hi
  · intro content hcontent
    rcases List.mem_append.mp hcontent with hcontent | hcontent
    · exact hs.formed content hcontent
    · rw [List.mem_singleton.mp hcontent]
      exact hformed
  · have hnext : p.nextId + 1 = UInt32.ofNat (contents.length + 1) := by
      rw [hs.nextId]
      exact (UInt32.ofNat_add _ _).symm
    rw [Peer.nextId, hdelivery, PacketDeliveryManager.nextHeader_frame, List.length_append]
    exact hnext
  · rw [hconnection, ConnectionManager.write_config]
    exact hs.config
  · rw [hconnection, ConnectionManager.write_state]
    split <;> exact hs.intact
  · intro limit hlimit
    rw [hconnection, ConnectionManager.peerLimit, ConnectionManager.write_peerLimit] at hlimit
    exact hs.limits limit hlimit
  · rw [hreliable]
    exact hk.write _ _ _
  · rw [hunreliable]
    exact hs.unreliable.write _ _
  · -- the packet takes from the front of what is pending
    have htaken := hs.unreliable.write_payloads b'' mem₃
    rw [hsize] at htaken
    rw [List.flatMap_append, List.flatMap_singleton, List.append_assoc, hunreliable]
    exact List.Sublist.trans (List.Sublist.append (List.Sublist.refl _) htaken) hs.accepted

/-- **Writing** extends the trace by the packet that is sent, if one is. -/
theorem write (hs : Sending config contents h p) (hconfig : config.limit.Robust) (mem : Memory)
    (now : ℤ) :
    ∃ new, Sending config (contents ++ new)
      { h with packets := h.packets
          ++ (p.write config mem now).val.2.2.toList.map (·.payload) }
      (p.write config mem now).val.1 := by
  -- the ticker is not a part of what is sent
  have hticked : Sending config contents h
      { p with sendPacketTicker := (p.sendPacketTicker.tick now).val.1 } :=
    ⟨hs.packets, hs.ids, hs.formed, hs.nextId, hs.config, hs.intact, hs.limits, hs.reliable,
      hs.unreliable, hs.accepted⟩
  rcases Peer.write_cases config p mem now with hval | ⟨-, hval⟩
  · refine ⟨[], ?_⟩
    rw [hval, List.append_nil]
    simpa using hticked
  · have hroom := @Peer.LimitsValid.le_maxPacketSize p hs.limits config hconfig.1
    rw [hval]
    exact ⟨_, hticked.writeToPeer mem now (by omega)⟩

end Sending

/-! ### Receiving -/

/-- What an entry has received of the reliable messages `sent` and the packets of the
other side. -/
structure Receiving (sent : List (List UInt8)) (contents : List PacketContent)
    (h : PeerHistory) (p : Peer) : Prop where
  expected : p.reliableStream.nextExpectedSequenceNumber = UInt32.ofNat h.reliableReceived.length
  received : h.reliableReceived = sent.take h.reliableReceived.length
  unreliable : h.unreliableReceived.Sublist ((contents.take
    p.packetDeliveryManager.nextExpectedPacketId.toNat).flatMap PacketContent.chunk)

namespace Receiving

variable {sent : List (List UInt8)} {contents : List PacketContent} {h : PeerHistory} {p : Peer}

theorem fresh (config : ConnectionManagerConfig) (packetTimeout now : ℤ) :
    Receiving [] [] {} (.fresh config packetTimeout now) :=
  ⟨rfl, rfl, List.Sublist.refl _⟩

theorem take_flatMap_sublist {i j : ℕ} (h : i ≤ j) :
    ((contents.take i).flatMap PacketContent.chunk).Sublist
      ((contents.take j).flatMap PacketContent.chunk) := by
  rw [show contents.take i = (contents.take j).take i by
    rw [List.take_take, Nat.min_eq_left h]]
  exact List.Sublist.flatMap (List.take_sublist i _) _

/-- Messages and packets are appended to what was sent. -/
theorem extend (hr : Receiving sent contents h p) (newSent : List (List UInt8))
    (new : List PacketContent) : Receiving (sent ++ newSent) (contents ++ new) h p := by
  refine ⟨hr.expected, ?_, ?_⟩
  · have hle : h.reliableReceived.length ≤ sent.length := by
      have hlength := congrArg List.length hr.received
      rw [List.length_take] at hlength
      omega
    rw [List.take_append_of_le_length hle]
    exact hr.received
  · refine hr.unreliable.trans (List.Sublist.flatMap ?_ _)
    rw [List.take_append]
    exact List.sublist_append_left _ _

/-- Only what was received, and what is expected, matters. -/
theorem congr (hr : Receiving sent contents h p) {h' : PeerHistory} {p' : Peer}
    (hexpected : p'.reliableStream.nextExpectedSequenceNumber
      = p.reliableStream.nextExpectedSequenceNumber)
    (hid : p'.packetDeliveryManager.nextExpectedPacketId
      = p.packetDeliveryManager.nextExpectedPacketId)
    (hreliable : h'.reliableReceived = h.reliableReceived)
    (hunreliable : h'.unreliableReceived = h.unreliableReceived) :
    Receiving sent contents h' p' := by
  refine ⟨?_, ?_, ?_⟩
  · rw [hexpected, hreliable]
    exact hr.expected
  · rw [hreliable]
    exact hr.received
  · rw [hunreliable, hid]
    exact hr.unreliable

theorem sendReliable (hr : Receiving sent contents h p) (fn : WriteToBufferFn)
    (reliableSent : List (List UInt8)) :
    Receiving sent contents { h with reliableSent := reliableSent }
      { p with reliableStream := (p.reliableStream.send fn).val } :=
  hr.congr (ReliableStream.send_nextExpected _ fn) rfl rfl rfl

theorem dropOldPackets (hr : Receiving sent contents h p) (now : ℤ) :
    Receiving sent contents h (p.dropOldPackets now).val.1 := by
  refine hr.congr ?_ ?_ rfl rfl
  · exact (Peer.dropOldPackets_keepsStreams
      (P := fun s => s.nextExpectedSequenceNumber = p.reliableStream.nextExpectedSequenceNumber)
      (fun s id status hs => (ReliableStream.status_nextExpected s id status).trans hs) rfl now).1
  · rw [Peer.dropOldPackets_delivery]
    rfl

theorem write (hr : Receiving sent contents h p) (config : ConnectionManagerConfig) (mem : Memory)
    (now : ℤ) (packets : List (List UInt8)) :
    Receiving sent contents { h with packets := packets } (p.write config mem now).val.1 := by
  refine hr.congr ?_ ?_ rfl rfl
  · rcases Peer.write_cases config p mem now with hval | ⟨-, hval⟩
    · rw [hval]
    · obtain ⟨-, ⟨id, b, mem', hreliable⟩, -⟩ := Peer.writeToPeer_streams { p with
        sendPacketTicker := (p.sendPacketTicker.tick now).val.1 } mem now (p.maxPacketSize config)
      rw [hval, hreliable, ReliableStream.write_state]
  · rcases Peer.write_delivery config p mem now with hdelivery | hdelivery
    · rw [hdelivery]
    · rw [hdelivery, PacketDeliveryManager.nextHeader_frame]

/-- **Reading a packet** of the other side: it has its place for its id, so that its
messages come behind all that was received before. -/
theorem read (hr : Receiving sent contents h p) {config : ConnectionManagerConfig}
    {limit : BandwidthLimit} (hlimit : limit.Robust) (hsent : sent.length < 2 ^ 32)
    (hcount : contents.length < 2 ^ 32)
    (hids : ∀ i content, contents[i]? = some content → content.header.id = UInt32.ofNat i)
    {content : PacketContent} (hcontent : content ∈ contents)
    (hformed : content.Formed limit sent) (mem : Memory) :
    let result := (p.read config ⟨0, content.bytes.length⟩ (mem.storeList 0 content.bytes)).val
    Receiving sent contents { h with
      reliableReceived := h.reliableReceived ++ result.2.reliable
      unreliableReceived := h.unreliableReceived ++ result.2.unreliable } result.1 := by
  intro result
  obtain ⟨hdelivery, hreliable, hunreliable, -⟩ := Peer.read_content hformed hlimit config p mem
  obtain ⟨i, hi, rfl⟩ := List.mem_iff_getElem.mp hcontent
  have hid : contents[i].header.id.toNat = i := by
    rw [hids i _ (List.getElem?_eq_getElem hi), UInt32.toNat_ofNat', Nat.mod_eq_of_lt (by omega)]
  have hle : h.reliableReceived.length ≤ sent.length := by
    have hlength := congrArg List.length hr.received
    rw [List.length_take] at hlength
    omega
  -- the reliable messages that are taken continue those that were taken
  obtain ⟨taken, htaken, hexpected, hreceived⟩ : ∃ taken, taken ≤ sent.length ∧
      result.1.reliableStream.nextExpectedSequenceNumber = UInt32.ofNat taken ∧
      h.reliableReceived ++ result.2.reliable = sent.take taken := by
    rcases hreliable with hnone | hall
    · obtain ⟨hexpected, hnil⟩ := Prod.ext_iff.mp hnone
      refine ⟨h.reliableReceived.length, hle, hexpected.trans hr.expected, ?_⟩
      rw [show result.2.reliable = [] from hnil, List.append_nil]
      exact hr.received
    · obtain ⟨taken, -, htaken, hexpected, hreceived⟩ := receive_sent hsent hformed.among hle
      rw [← hr.expected] at hexpected hreceived
      obtain ⟨hexpected', hpayloads⟩ := Prod.ext_iff.mp hall
      refine ⟨taken, htaken, hexpected'.trans hexpected, ?_⟩
      rw [← hreceived, ← hr.received]
      exact congrArg _ hpayloads
  have hlength : (h.reliableReceived ++ result.2.reliable).length = taken := by
    rw [hreceived, List.length_take, Nat.min_eq_left htaken]
  refine ⟨?_, ?_, ?_⟩
  · dsimp only
    rw [hlength]
    exact hexpected
  · dsimp only
    rw [hlength]
    exact hreceived
  · dsimp only
    rw [show result.1.packetDeliveryManager = _ from hdelivery]
    rcases PacketDeliveryManager.processRead_cases p.packetDeliveryManager contents[i].header with
      ⟨-, hlt, -, hexp⟩ | ⟨-, hge, -, hexp⟩
    · -- an old packet
      rcases hunreliable with hnil | ⟨hnew, -⟩
      · rw [hexp, show result.2.unreliable = [] from hnil, List.append_nil]
        exact hr.unreliable
      · exact absurd hlt hnew
    · have hsucc : (contents[i].header.id + 1).toNat = i + 1 := by
        rw [UInt32.toNat_add, UInt32.toNat_one, hid, Nat.mod_eq_of_lt (by omega)]
      have hbefore : p.packetDeliveryManager.nextExpectedPacketId.toNat ≤ i := by
        rw [UInt32.lt_iff_toNat_lt, hid] at hge
        omega
      rw [hexp, hsucc, List.take_succ_eq_append_getElem hi, List.flatMap_append,
        List.flatMap_singleton]
      refine List.Sublist.append (hr.unreliable.trans (take_flatMap_sublist hbefore)) ?_
      rcases hunreliable with hnil | ⟨-, hchunk⟩
      · rw [show result.2.unreliable = [] from hnil]
        exact List.nil_sublist _
      · rw [show result.2.unreliable = _ from hchunk]
        exact List.take_sublist _ _

end Receiving

/-! ### Nodes -/

/-- Both halves of the invariant of a node; an entry may still have to be created. -/
structure PeerNode.Linked (config : ConnectionManagerConfig) (packetTimeout : ℤ)
    (contents : List PacketContent) (sent : List (List UInt8)) (contents' : List PacketContent)
    (x : PeerNode) : Prop where
  sending : ∀ now, Sending config contents x.history
    (x.entry.getD (.fresh config packetTimeout now))
  receiving : ∀ now, Receiving sent contents' x.history
    (x.entry.getD (.fresh config packetTimeout now))

namespace PeerNode.Linked

variable {config : ConnectionManagerConfig} {packetTimeout : ℤ} {contents : List PacketContent}
  {sent : List (List UInt8)} {contents' : List PacketContent} {x : PeerNode}

theorem dropOldPackets (h : x.Linked config packetTimeout contents sent contents') (now : ℤ) :
    (x.dropOldPackets now).Linked config packetTimeout contents sent contents' := by
  rw [PeerNode.dropOldPackets]
  cases hentry : x.entry with
  | none =>
    refine ⟨fun now => ?_, fun now => ?_⟩
    · have hs := h.sending now
      rw [hentry] at hs
      exact hs
    · have hr := h.receiving now
      rw [hentry] at hr
      exact hr
  | some p =>
    have hs := h.sending 0
    have hr := h.receiving 0
    rw [hentry] at hs hr
    exact ⟨fun _ => hs.dropOldPackets now, fun _ => hr.dropOldPackets now⟩

theorem read (h : x.Linked config packetTimeout contents sent contents') {limit : BandwidthLimit}
    (hlimit : limit.Robust) (hsent : sent.length < 2 ^ 32) (hcount : contents'.length < 2 ^ 32)
    (hids : ∀ i content, contents'[i]? = some content → content.header.id = UInt32.ofNat i)
    {content : PacketContent} (hcontent : content ∈ contents')
    (hformed : content.Formed limit sent) (now : ℤ) (mem : Memory) :
    (x.read config packetTimeout now content.bytes mem).Linked config packetTimeout contents sent
      contents' := by
  rw [PeerNode.read, List.take_of_length_le hformed.short]
  exact ⟨fun _ => ((h.sending now).read hlimit hformed mem).congr_history _ _,
    fun _ => (h.receiving now).read hlimit hsent hcount hids hcontent hformed mem⟩

theorem write (h : x.Linked config packetTimeout contents sent contents')
    (hconfig : config.limit.Robust) (now : ℤ) (mem : Memory) :
    ∃ new, (x.write config now mem).Linked config packetTimeout (contents ++ new) sent contents' ∧
      (x.write config now mem).history.reliableSent = x.history.reliableSent := by
  rw [PeerNode.write]
  cases hentry : x.entry with
  | none =>
    refine ⟨[], ?_, rfl⟩
    rw [List.append_nil]
    exact h
  | some p =>
    have hs := h.sending 0
    have hr := h.receiving 0
    rw [hentry] at hs hr
    obtain ⟨new, hnew⟩ := hs.write hconfig mem now
    exact ⟨new, ⟨fun _ => hnew, fun _ => hr.write config mem now _⟩, rfl⟩

/-- **A call of a node** keeps both halves of the invariant, if what it reads has been sent by
the other side. -/
theorem next (h : x.Linked config packetTimeout contents sent contents')
    (hconfig : config.limit.Robust) {limit : BandwidthLimit} (hlimit : limit.Robust)
    (hsent : sent.length < 2 ^ 32) (hcount : contents'.length < 2 ^ 32)
    (hids : ∀ i content, contents'[i]? = some content → content.header.id = UInt32.ofNat i)
    (hformed : ∀ content ∈ contents', content.Formed limit sent) (call : PeerCall)
    (hincoming : ∀ now packet readBuffer writeBuffer,
      call = .tick now (some packet) readBuffer writeBuffer →
        packet ∈ contents'.map PacketContent.bytes) :
    ∃ new newSent, (x.next config packetTimeout call).Linked config packetTimeout (contents ++ new)
        sent contents' ∧
      (x.next config packetTimeout call).history.reliableSent
        = x.history.reliableSent ++ newSent := by
  cases call with
  | connect now =>
    refine ⟨[], [], ⟨fun _ => ?_, fun _ => ?_⟩, (List.append_nil _).symm⟩
    · rw [List.append_nil]
      exact (h.sending now).connect
    · exact (h.receiving now).congr rfl rfl rfl rfl
  | sendReliable fn now =>
    refine ⟨[], ?_⟩
    rw [List.append_nil]
    have hlinked : (x.next config packetTimeout (.sendReliable fn now)).Linked config
        packetTimeout contents sent contents' :=
      ⟨fun _ => (h.sending now).sendReliable fn, fun _ => (h.receiving now).sendReliable fn _⟩
    rw [PeerNode.next] at hlinked ⊢
    dsimp only at hlinked ⊢
    rw [ReliableStream.sentAfter] at hlinked ⊢
    split
    · next hnil =>
      rw [if_pos hnil] at hlinked
      exact ⟨[], hlinked, (List.append_nil _).symm⟩
    · next hne =>
      rw [if_neg hne] at hlinked
      exact ⟨_, hlinked, rfl⟩
  | sendUnreliable fn now =>
    refine ⟨[], [], ⟨fun _ => ?_, fun _ => ?_⟩, (List.append_nil _).symm⟩
    · rw [List.append_nil]
      exact (h.sending now).sendUnreliable fn
    · exact (h.receiving now).congr rfl rfl rfl rfl
  | tick now incoming readBuffer writeBuffer =>
    have hdropped := h.dropOldPackets now
    cases incoming with
    | none =>
      obtain ⟨new, hnew, hsame⟩ := hdropped.write hconfig now writeBuffer
      exact ⟨new, [], hnew, hsame.trans (List.append_nil _).symm⟩
    | some packet =>
      obtain ⟨content, hcontent, rfl⟩ := List.mem_map.mp (hincoming _ _ _ _ rfl)
      have hread := hdropped.read hlimit hsent hcount hids hcontent (hformed _ hcontent) now
        readBuffer
      obtain ⟨new, hnew, hsame⟩ := hread.write hconfig now writeBuffer
      exact ⟨new, [], hnew, hsame.trans (List.append_nil _).symm⟩

end PeerNode.Linked

/-! ### Both sides -/

/-- The invariant of a link. -/
def LinkSound (setup : Setup) (s : Side → PeerNode) (t : Side → List PacketContent) : Prop :=
  ∀ side, (s side).Linked (setup.config side) (setup.packetTimeout side) (t side)
    (s side.other).history.reliableSent (t side.other)

/-- Fewer than `2 ^ 32` packets and reliable messages on either side. -/
def LinkBound (s : Side → PeerNode) : Prop :=
  ∀ side, (s side).history.packets.length < 2 ^ 32 ∧
    (s side).history.reliableSent.length < 2 ^ 32

theorem PeerNode.lengths_le (config : ConnectionManagerConfig) (packetTimeout : ℤ) (x : PeerNode)
    (call : PeerCall) :
    x.history.packets.length ≤ (x.next config packetTimeout call).history.packets.length ∧
      x.history.reliableSent.length
        ≤ (x.next config packetTimeout call).history.reliableSent.length := by
  have hwrite : ∀ (x : PeerNode) now mem,
      x.history.packets.length ≤ (x.write config now mem).history.packets.length ∧
      (x.write config now mem).history.reliableSent = x.history.reliableSent := by
    intro x now mem
    rw [PeerNode.write]
    split
    · exact ⟨Nat.le_refl _, rfl⟩
    · exact ⟨List.length_append ▸ Nat.le_add_right _ _, rfl⟩
  cases call with
  | connect now => exact ⟨Nat.le_refl _, Nat.le_refl _⟩
  | sendReliable fn now =>
    refine ⟨Nat.le_refl _, ?_⟩
    rw [PeerNode.next]
    dsimp only
    rw [ReliableStream.sentAfter]
    split
    · exact Nat.le_refl _
    · exact List.length_append ▸ Nat.le_add_right _ _
  | sendUnreliable fn now => exact ⟨Nat.le_refl _, Nat.le_refl _⟩
  | tick now incoming readBuffer writeBuffer =>
    cases incoming with
    | none =>
      obtain ⟨hpackets, hsent⟩ := hwrite (x.dropOldPackets now) now writeBuffer
      exact ⟨hpackets, Nat.le_of_eq (congrArg List.length hsent.symm)⟩
    | some packet =>
      obtain ⟨hpackets, hsent⟩ := hwrite ((x.dropOldPackets now).read config packetTimeout now
        packet readBuffer) now writeBuffer
      exact ⟨hpackets, Nat.le_of_eq (congrArg List.length hsent.symm)⟩

theorem LinkBound.of_next {setup : Setup} {s : Side → PeerNode} {call : Side × PeerCall}
    (h : LinkBound ((link setup).next s call)) : LinkBound s := by
  intro side
  by_cases hside : side = call.1
  · have hbound := h side
    obtain ⟨hpackets, hsent⟩ := (s call.1).lengths_le (setup.config call.1)
      (setup.packetTimeout call.1) call.2
    rw [hside] at hbound ⊢
    rw [link_next, Side.set_self] at hbound
    exact ⟨Nat.lt_of_le_of_lt hpackets hbound.1, Nat.lt_of_le_of_lt hsent hbound.2⟩
  · have hbound := h side
    rwa [link_next, Side.set, if_neg hside] at hbound

theorem LinkSound.next {setup : Setup} (hrobust : ∀ side, (setup.config side).limit.Robust)
    {s : Side → PeerNode} {t : Side → List PacketContent} (h : LinkSound setup s t)
    (hbound : LinkBound s) {call : Side × PeerCall} (hen : (link setup).enabled s call) :
    ∃ t', LinkSound setup ((link setup).next s call) t' := by
  obtain ⟨side, call⟩ := call
  have hother := (h side.other).sending 0
  have hcount : (t side.other).length < 2 ^ 32 := by
    have hlength := congrArg List.length hother.packets
    rw [List.length_map] at hlength
    rw [← hlength]
    exact (hbound side.other).1
  obtain ⟨new, newSent, hlinked, hsent⟩ := (h side).next (hrobust side) (hrobust side.other)
    (hbound side.other).2 hcount hother.ids hother.formed call (by
      rintro now packet readBuffer writeBuffer rfl
      rw [← hother.packets]
      exact hen)
  refine ⟨side.set t (t side ++ new), fun x => ?_⟩
  show (side.set s _ x).Linked _ _ _ (side.set s _ x.other).history.reliableSent _
  by_cases hx : x = side
  · subst hx
    rw [Side.set_self, Side.set_self, Side.set_other, Side.set_other]
    exact hlinked
  · -- the other side may receive more than before
    rw [Side.eq_other_of_ne hx, Side.other_other, Side.set_self, Side.set_self, Side.set_other,
      Side.set_other, hsent]
    have hreceiving := (h side.other).receiving
    rw [Side.other_other] at hreceiving
    exact ⟨(h side.other).sending, fun now => (hreceiving now).extend newSent new⟩

/-- **A link is sound** in every reachable state. -/
theorem link_sound {setup : Setup} (hrobust : ∀ side, (setup.config side).limit.Robust)
    {s : Side → PeerNode} (h : (link setup).Reachable System.anyAction s) (hbound : LinkBound s) :
    ∃ t, LinkSound setup s t := by
  refine h.invariant_of_bound (P := fun s => ∃ t, LinkSound setup s t) LinkBound
    (fun s call hnext => hnext.of_next) (fun s hs => ?_) (fun s call _ hs hen _ hnext => ?_) hbound
  · rw [hs]
    exact ⟨fun _ => [], fun side => ⟨fun now => Sending.fresh _ _ now,
      fun now => Receiving.fresh _ _ now⟩⟩
  · obtain ⟨t, ht⟩ := hs
    exact ht.next hrobust hnext.of_next hen

end Neptun
