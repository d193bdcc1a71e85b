/-
Recovery of two endpoints.

Two endpoints that are connected to each other can always go on.  Whatever has been lost,
one side gives up what is in flight and writes its first messages again, the other side
takes them and acknowledges the packet, and the acknowledgement leaves less to write.

* `leads_tick` — a tick of one of two endpoints, as far as the other one is concerned;
* `Reviving.offers`, `Offered.answered`, `Reviving.next` — a round has more messages
  acknowledged;
* `leads_settled` — the handshakes that are left are written;
* `endpoints_recover` — ticks alone deliver all messages.
-/
import Neptun.OpenNetwork
import Neptun.SettledPeers

namespace Neptun

/-! ### Ticks on time -/

/-- The clock of the endpoint has not passed `now`. -/
def Observed.OnTime (x : Observed) (now : ℤ) : Prop :=
  ∀ e ∈ x.endpoint.peers, ∀ last ∈ e.2.sendPacketTicker.lastKnownNow, last ≤ now

/-- A tick, whose clock does not go back. -/
def Clocked (s : Side → Observed) (call : Side × EndpointCall) : Prop :=
  match call.2 with
  | .tick now _ => (s call.1).OnTime now
  | _ => False

namespace Observed

theorem exists_onTime (x : Observed) : ∃ start, ∀ now, start ≤ now → x.OnTime now := by
  obtain ⟨start, hstart⟩ := (x.endpoint.peers.filterMap fun e =>
    e.2.sendPacketTicker.lastKnownNow).toFinset.bddAbove
  refine ⟨start, fun now hnow e he last hlast => le_trans (hstart ?_) hnow⟩
  rw [Finset.mem_coe, List.mem_toFinset]
  exact List.mem_filterMap.mpr ⟨e, he, hlast⟩

theorem onTime_tick (x : Observed) (now : ℤ) (incoming : Option (IpAddress × List UInt8)) :
    (x.next (.tick now incoming)).OnTime now := by
  have hall := (@Endpoint.tick_all (fun _ _ => True) (fun _ _ => True) x.endpoint now
    (fun _ p => p.sendPacketTicker.lastKnownNow = some now) incoming (fun _ _ => trivial)
    (fun _ _ _ => trivial) (fun _ => trivial) (fun _ _ _ _ => trivial) (fun _ p mem _ => ?_)).1
  · intro e he last hlast
    rw [hall e he] at hlast
    cases hlast
    exact le_refl _
  · rw [Peer.write_ticker, (Ticker.tick_frame _ now).2]

end Observed

/-- A tick of one of two endpoints, as far as the other one is concerned. -/
theorem leads_tick {setup : Setup} {s : Side → Observed}
    (h : (openNetwork setup).Reachable System.anyAction s) (side : Side) (now : ℤ)
    (hon : (s side).OnTime now) (incoming : Option (List UInt8))
    (hincoming : ∀ packet ∈ incoming, packet ∈ (linkOf setup s side.other).history.packets) :
    ∃ t readBuffer writeBuffer, (openNetwork setup).Leads Clocked s t ∧
      linkOf setup t side = (linkOf setup s side).tick (setup.config side)
        (setup.packetTimeout side) now incoming readBuffer writeBuffer ∧
      t side.other = s side.other ∧ (t side).OnTime now := by
  obtain ⟨hdistinct, hconfig, htimeout⟩ := hosted_of_reachable h
  set call : EndpointCall := .tick now (incoming.map fun packet =>
    (setup.address side.other, packet)) with hcall
  obtain ⟨writeBuffer, hnode⟩ := Observed.node_tick (hdistinct side) (setup.address side.other) now
    (incoming.map fun packet => (setup.address side.other, packet))
  rw [hconfig, htimeout] at hnode
  have hreceived : receivedFrom (setup.address side.other) (incoming.map fun packet =>
      (setup.address side.other, packet)) = incoming := by
    cases incoming with
    | none => rfl
    | some packet => exact if_pos rfl
  rw [hreceived] at hnode
  have hself : (openNetwork setup).next s (side, call) side = (s side).next call :=
    Side.set_self _ _ _
  refine ⟨(openNetwork setup).next s (side, call), (s side).endpoint.networkBuffer, writeBuffer,
    System.Leads.step ?_ hon, ?_, Side.set_other _ _ _, ?_⟩
  · cases incoming with
    | none => trivial
    | some packet =>
      intro _
      have hpacket := hincoming packet rfl
      rw [linkOf, Side.other_other] at hpacket
      exact hpacket
  · rw [linkOf, hself]
    exact hnode
  · rw [hself]
    exact (s side).onTime_tick now _

/-- A side can tick as late as it has to. -/
theorem leads_late {setup : Setup} {s : Side → Observed}
    (h : (openNetwork setup).Reachable System.anyAction s) (side : Side) {P : ℤ → Prop}
    (hready : ∃ start, ∀ now, start ≤ now → P now) (incoming : Option (List UInt8))
    (hincoming : ∀ packet ∈ incoming, packet ∈ (linkOf setup s side.other).history.packets) :
    ∃ now t readBuffer writeBuffer, P now ∧ (openNetwork setup).Leads Clocked s t ∧
      linkOf setup t side = (linkOf setup s side).tick (setup.config side)
        (setup.packetTimeout side) now incoming readBuffer writeBuffer ∧
      t side.other = s side.other ∧ (t side).OnTime now := by
  obtain ⟨late, hlate⟩ := hready
  obtain ⟨clock, hclock⟩ := (s side).exists_onTime
  obtain ⟨t, readBuffer, writeBuffer, ht⟩ := leads_tick h side (max late clock)
    (hclock _ (le_max_right _ _)) incoming hincoming
  exact ⟨max late clock, t, readBuffer, writeBuffer, hlate _ (le_max_left _ _), ht⟩

/-! ### Rounds of endpoints -/

/-- Consecutive messages that are not ahead of a gap are received to their end. -/
theorem length_receive_numberFrom {sent : List (List UInt8)} (hsent : sent.length < 2 ^ 32)
    {k taken count : ℕ} (hk : k ≤ taken) (htaken : taken ≤ sent.length)
    (hcount : k + count ≤ sent.length) :
    k + count ≤ taken + (receive (UInt32.ofNat taken)
      (numberFrom k ((sent.drop k).take count))).2.length := by
  have hlength : ((sent.drop k).take count).length = count := by
    rw [List.length_take, List.length_drop]
    omega
  rw [receive_numberFrom (by omega) (by omega), if_pos hk, List.length_drop, hlength]
  omega

/-- The number of messages that are not acknowledged. -/
def PeerNode.unacked (x : PeerNode) : ℕ :=
  (x.entry.map fun p => p.reliableStream.messages.length).getD 0

/-- The number of packets that are still to be acknowledged. -/
def PeerNode.unsentAcks (x : PeerNode) : ℕ :=
  (x.entry.map fun p => p.packetDeliveryManager.pendingAcks.length).getD 0

theorem PeerNode.unacked_eq {x : PeerNode} {p : Peer} (hp : x.entry = some p) :
    x.unacked = p.reliableStream.messages.length := by
  rw [unacked, hp]
  rfl

theorem PeerNode.unsentAcks_eq {x : PeerNode} {p : Peer} (hp : x.entry = some p) :
    x.unsentAcks = p.packetDeliveryManager.pendingAcks.length := by
  rw [unsentAcks, hp]
  rfl

theorem LinkSound.entry {setup : Setup} {s : Side → PeerNode} {t : Side → List PacketContent}
    (ht : LinkSound setup s t) {side : Side} {p : Peer} (hp : (s side).entry = some p) :
    Sending (setup.config side) (t side) (s side).history p ∧
      Receiving (s side.other).history.reliableSent (t side.other) (s side).history p := by
  have hs := (ht side).sending 0
  have hr := (ht side).receiving 0
  rw [hp] at hs hr
  exact ⟨hs, hr⟩

theorem Represents.length_messages {capacity k : ℕ} {s : ReliableStream}
    {sent : List (List UInt8)} (h : Represents capacity s k sent) :
    s.messages.length + k = sent.length := by
  have hlength := congrArg List.length h.toWire
  have hle := h.le
  rw [List.length_map, length_numberFrom, List.length_drop] at hlength
  omega

section

variable {setup : Setup} {limit : Side → BandwidthLimit} {side : Side} {s : Side → Observed}

/-- Two endpoints that are connected, with nothing lost on the way, and enough packet ids for
the rounds to come. -/
structure Reviving (setup : Setup) (given : Side → List (List UInt8))
    (limit : Side → BandwidthLimit) (side : Side) (s : Side → Observed) : Prop where
  reachable : (openNetwork setup).Reachable System.anyAction s
  entry : ∀ x, ∃ p, (linkOf setup s x).entry = some p ∧ p.Settled (limit x)
  sent : ∀ x, (linkOf setup s x).history.reliableSent = given x
  unlost : (given side).length ≤ (linkOf setup s side.other).history.reliableReceived.length
    + (linkOf setup s side).unacked
  fits : ∀ payload ∈ (given side).drop ((given side).length - (linkOf setup s side).unacked),
    payload.length + 20 ≤ (min kJustBelowMtu
      (PeerNode.packetSize (setup.config side) (limit side))).toNat
  room : (linkOf setup s side).history.packets.length + 3 * (linkOf setup s side).unacked < 2 ^ 32
  room_other : (linkOf setup s side.other).history.packets.length
    + (linkOf setup s side.other).unsentAcks + (linkOf setup s side).unacked < 2 ^ 32

theorem linkOf_congr {s t : Side → Observed} (h : t side = s side) :
    linkOf setup t side = linkOf setup s side :=
  congrArg (fun x => Observed.node x (setup.address side.other)) h

/-- A bound on both sides. -/
theorem linkBound_of (side : Side) {x : Side → PeerNode} {given : Side → List (List UInt8)}
    (hgiven : ∀ x, (given x).length < 2 ^ 32) (hsent : ∀ y, (x y).history.reliableSent = given y)
    (hself : (x side).history.packets.length < 2 ^ 32)
    (hother : (x side.other).history.packets.length < 2 ^ 32) : LinkBound x := by
  intro y
  refine ⟨?_, by rw [hsent]; exact hgiven y⟩
  exact Side.forall_of side (P := fun z => (x z).history.packets.length < 2 ^ 32) hself hother y

/-- The other side acknowledges everything if it ticks often enough. -/
theorem leads_answering (hrobust : ∀ side, (setup.config side).limit.Robust)
    (h : (openNetwork setup).Reachable System.anyAction s) {given : Side → List (List UInt8)}
    (hgiven : ∀ x, (given x).length < 2 ^ 32)
    (hsent : ∀ x, (linkOf setup s x).history.reliableSent = given x)
    (hself : (linkOf setup s side.other).history.packets.length < 2 ^ 32) {id : PacketId}
    {start bound : ℕ} (hbound : bound < 2 ^ 32) {history : PeerHistory} {q : Peer}
    (hq : PeerNode.Answering (setup.config side) (limit side) id start bound history
      (linkOf setup s side) q) :
    ∃ t q', (openNetwork setup).Leads Clocked s t ∧ t side.other = s side.other ∧
      PeerNode.Answering (setup.config side) (limit side) id start bound history
        (linkOf setup t side) q' ∧ q'.packetDeliveryManager.pendingAcks = [] := by
  have hround : ∀ t, ((openNetwork setup).Reachable System.anyAction t ∧
      t side.other = s side.other ∧ ∃ q', PeerNode.Answering (setup.config side) (limit side) id
        start bound history (linkOf setup t side) q') → (linkOf setup t side).unsentAcks ≠ 0 →
      ∃ u, (openNetwork setup).Leads Clocked t u ∧
        ((openNetwork setup).Reachable System.anyAction u ∧ u side.other = s side.other ∧
          ∃ q', PeerNode.Answering (setup.config side) (limit side) id start bound history
            (linkOf setup u side) q') ∧
        (linkOf setup u side).unsentAcks < (linkOf setup t side).unsentAcks := by
    rintro t ⟨ht, hother, q₁, hq₁⟩ hne
    rw [PeerNode.unsentAcks_eq hq₁.entry] at hne ⊢
    have hroom := hq₁.room
    have hlink : LinkBound (linkOf setup t) := by
      refine linkBound_of side hgiven (Side.forall_of side ?_ ?_) (by omega) ?_
      · rw [hq₁.sent, ← hq.sent]
        exact hsent side
      · rw [linkOf_congr hother]
        exact hsent side.other
      · rw [linkOf_congr hother]
        exact hself
    obtain ⟨⟨contents, hcontents⟩, -⟩ := link_acks hrobust (openNetwork_simulates_link ht) hlink
    have hcount : (contents side).length < 2 ^ 32 := by
      rw [hcontents.length_packets]
      exact (hlink side).1
    obtain ⟨now, u, readBuffer, writeBuffer, hfires, hlead, hnode, hother', -⟩ :=
      leads_late ht side q₁.sendPacketTicker.exists_fires none (by simp)
    obtain ⟨q₂, hq₂, hlt⟩ := hq₁.tick (hcontents.entry hq₁.entry).1 (hrobust side) hcount
      (fun hnil => hne (by rw [hnil]; rfl)) hfires readBuffer writeBuffer
    rw [← hnode] at hq₂
    refine ⟨u, hlead, ⟨hlead.reachable ht, hother'.trans hother, q₂, hq₂⟩, ?_⟩
    rw [PeerNode.unsentAcks_eq hq₂.entry]
    exact hlt
  obtain ⟨t, hlead, ⟨-, hother, q', hq'⟩, hzero⟩ := System.Leads.descend _ hround
    ⟨h, rfl, q, hq⟩
  rw [PeerNode.unsentAcks_eq hq'.entry] at hzero
  exact ⟨t, q', hlead, hother, hq', List.length_eq_zero_iff.mp hzero⟩

namespace Reviving

variable {given : Side → List (List UInt8)}

theorem bound (h : Reviving setup given limit side s) (hgiven : ∀ x, (given x).length < 2 ^ 32) :
    LinkBound (linkOf setup s) := by
  have hroom := h.room
  have hroom' := h.room_other
  exact linkBound_of side hgiven h.sent (by omega) (by omega)

/-- The first message that is not acknowledged fits into a packet. -/
theorem fits_first (h : Reviving setup given limit side s) {stream : ReliableStream} {k : ℕ}
    (hk : Represents 3200 stream k (given side))
    (hcount : stream.messages.length = (linkOf setup s side).unacked) :
    ∀ first ∈ stream.messages.head?, (stream.buffer.bufferSpan first.range).length + 20
      ≤ (min kJustBelowMtu (PeerNode.packetSize (setup.config side) (limit side))).toNat := by
  intro first hfirst
  have hlength := hk.length_messages
  have hwire : ReliableStream.toWire stream.buffer first
      ∈ numberFrom k ((given side).drop k) := by
    rw [← hk.toWire]
    exact List.mem_map_of_mem (List.mem_of_mem_head? hfirst)
  refine h.fits (stream.buffer.bufferSpan first.range) ?_
  rw [← hcount, show (given side).length - stream.messages.length = k by omega]
  exact mem_of_mem_numberFrom hwire

end Reviving

/-- From `s` the side has written a packet with its first messages, and nothing else is in
flight. -/
structure Offered (setup : Setup) (given : Side → List (List UInt8))
    (limit : Side → BandwidthLimit) (side : Side) (s t : Side → Observed) (time : ℤ) (p : Peer)
    (content : PacketContent) : Prop where
  entry : (linkOf setup t side).entry = some p
  settled : p.Settled (limit side)
  onTime : (t side).OnTime time
  other : t side.other = s side.other
  sent : (linkOf setup t side).history.reliableSent = given side
  packets : (linkOf setup t side).history.packets.length
    = (linkOf setup s side).history.packets.length + 2
  inFlight : p.packetDeliveryManager.inFlightPackets = [⟨content.header.id, time⟩]
  tags : ∀ msg ∈ p.reliableStream.inFlightMessages, msg.packetId = content.header.id
  taken : p.reliableStream.inFlightMessages ≠ []
  unacked : p.reliableStream.messages.length = (linkOf setup s side).unacked
  unacked_le : (linkOf setup s side).unacked ≤ (given side).length
  written : content.bytes ∈ (linkOf setup t side).history.packets
  formed : content.Formed (setup.config side).limit (given side)
  handshake : content.handshake = []
  id : content.header.id.toNat = (linkOf setup s side).history.packets.length + 1
  messages : content.messages = numberFrom ((given side).length - (linkOf setup s side).unacked)
    (((given side).drop ((given side).length - (linkOf setup s side).unacked)).take
      p.reliableStream.inFlightMessages.length)

/-- **The first phase.**  The side gives up what is in flight, and writes its first messages
again. -/
theorem Reviving.offers (hrobust : ∀ side, (setup.config side).limit.Robust)
    {given : Side → List (List UInt8)} (hgiven : ∀ x, (given x).length < 2 ^ 32)
    (h : Reviving setup given limit side s) (hne : (linkOf setup s side).unacked ≠ 0) :
    ∃ t time p content, (openNetwork setup).Leads Clocked s t ∧
      Offered setup given limit side s t time p content := by
  have hroom := h.room
  have hroom' := h.room_other
  obtain ⟨p, hp, hsettled⟩ := h.entry side
  -- the side writes a packet, so that there is something to give up
  obtain ⟨_, s₁, readBuffer, writeBuffer, hfires, hlead₁, hnode₁, hother₁, -⟩ :=
    leads_late h.reachable side p.sendPacketTicker.exists_fires none (by simp)
  obtain ⟨p₁, _, hp₁, hlimit₁, hleft₁, hmessages₁, hne₁, -, hhistory₁⟩ := PeerNode.tick_fires hp
    hsettled.connected hfires readBuffer writeBuffer
  rw [← hnode₁] at hp₁ hhistory₁
  rw [hsettled.nothingLeft] at hleft₁
  have hsettled₁ : p₁.Settled (limit side) := ⟨hlimit₁, Nat.le_zero.mp hleft₁⟩
  have hpackets₁ : (linkOf setup s₁ side).history.packets.length
      = (linkOf setup s side).history.packets.length + 1 := by
    rw [hhistory₁, List.length_append]
    rfl
  have hsent₁ : (linkOf setup s₁ side).history.reliableSent = given side := by
    rw [hhistory₁]
    exact h.sent side
  have hlink₁ : linkOf setup s₁ side.other = linkOf setup s side.other := linkOf_congr hother₁
  have hreachable₁ := hlead₁.reachable h.reachable
  obtain ⟨⟨contents, hcontents⟩, -⟩ := link_acks hrobust (openNetwork_simulates_link hreachable₁)
    (linkBound_of side hgiven (Side.forall_of side hsent₁ (by rw [hlink₁, h.sent])) (by omega)
      (by rw [hlink₁]; omega))
  obtain ⟨hs₁, -⟩ := hcontents.entry hp₁
  obtain ⟨k, hk⟩ := hs₁.reliable
  have hunacked₁ : p₁.reliableStream.messages.length = (linkOf setup s side).unacked := by
    rw [hmessages₁, PeerNode.unacked_eq hp]
  have hcount := (hsent₁ ▸ hk).length_messages
  -- later it gives up all packets, and writes the first messages that are not acknowledged
  obtain ⟨time, t, readBuffer₁, writeBuffer₁, hlate, hlead₂, hnode₂, hother₂, hon₂⟩ :=
    leads_late hreachable₁ side p₁.exists_late none (by simp)
  obtain ⟨p₂, hp₂, hsettled₂, hflight, htags, hmessages₂, htakes, content, hformed, hhandshake,
    hid, hcontent, hhistory₂⟩ := PeerNode.tick_late hp₁ hsettled₁ hs₁ (hrobust side) hk hlate hne₁
    readBuffer₁ writeBuffer₁
  rw [← hnode₂] at hp₂ hhistory₂
  rw [hsent₁] at hcontent hformed
  rw [← hid] at hflight htags
  refine ⟨t, time, p₂, content, hlead₁.trans hlead₂, hp₂, hsettled₂, hon₂,
    hother₂.trans hother₁, ?_, ?_, hflight, htags, ?_, ?_, by omega, ?_, hformed, hhandshake, ?_,
    ?_⟩
  · rw [hhistory₂]
    exact hsent₁
  · rw [hhistory₂, List.length_append, hpackets₁]
    rfl
  · refine htakes (h.fits_first (hsent₁ ▸ hk) hunacked₁) fun hnil => hne ?_
    rw [← hunacked₁, hnil]
    rfl
  · rw [hmessages₂, hunacked₁]
  · rw [hhistory₂]
    exact List.mem_append_right _ List.mem_cons_self
  · rw [hid, hs₁.nextId, hcontents.length_packets, UInt32.toNat_ofNat', Nat.mod_eq_of_lt (by omega),
      hpackets₁]
  · rw [show (given side).length - (linkOf setup s side).unacked = k by omega]
    exact hcontent

namespace Offered

variable {given : Side → List (List UInt8)} {t : Side → Observed} {time : ℤ} {p : Peer}
  {content : PacketContent}

/-- The messages that are not acknowledged are in the packet or behind it. -/
theorem split (ho : Offered setup given limit side s t time p content) :
    p.reliableStream.inFlightMessages.length + p.reliableStream.pendingMessages.length
      = (linkOf setup s side).unacked := by
  rw [← ho.unacked, ReliableStream.messages, List.length_append, List.length_map]

/-- **The second phase.**  The other side takes the packet, and acknowledges everything. -/
theorem answered (hrobust : ∀ side, (setup.config side).limit.Robust)
    (hgiven : ∀ x, (given x).length < 2 ^ 32) (h : Reviving setup given limit side s)
    (ht : (openNetwork setup).Reachable System.anyAction t)
    (ho : Offered setup given limit side s t time p content) :
    let history := (linkOf setup s side.other).history
    ∃ u q, (openNetwork setup).Leads Clocked t u ∧ u side = t side ∧
      PeerNode.Answering (setup.config side.other) (limit side.other) content.header.id
        history.packets.length (history.packets.length + (linkOf setup s side.other).unsentAcks + 1)
        { history with reliableReceived := history.reliableReceived
            ++ (receive (UInt32.ofNat history.reliableReceived.length) content.messages).2 }
        (linkOf setup u side.other) q ∧
      q.packetDeliveryManager.pendingAcks = [] := by
  intro history
  have hroom := h.room
  have hroom' := h.room_other
  have hsplit := ho.split
  have htaken := List.length_pos_iff.mpr ho.taken
  have hlink : linkOf setup t side.other = linkOf setup s side.other := linkOf_congr ho.other
  obtain ⟨q, hq, hsettled⟩ := h.entry side.other
  obtain ⟨⟨contents, hcontents⟩, hacks⟩ := link_acks hrobust
    (openNetwork_simulates_link h.reachable) (h.bound hgiven)
  obtain ⟨hsending, hreceiving⟩ := hcontents.entry hq
  obtain ⟨hacksq, -⟩ := hacks side.other q hq
  rw [Side.other_other] at hreceiving hacksq
  rw [h.sent] at hreceiving
  -- the packet is newer than all packets that have been received
  obtain ⟨_, t₁, readBuffer, writeBuffer, -, hlead₁, hnode, hother, -⟩ := leads_late
    (P := fun _ => True) ht side.other ⟨0, fun _ _ => trivial⟩ (some content.bytes) (by
      intro packet hpacket
      cases hpacket
      rw [Side.other_other]
      exact ho.written)
  rw [Side.other_other] at hother
  have hcount : (contents side.other).length < 2 ^ 32 := by
    rw [hcontents.length_packets]
    omega
  have hnew : q.packetDeliveryManager.nextExpectedPacketId ≤ content.header.id := by
    rw [UInt32.le_iff_toNat_le, ho.id]
    exact Nat.le_succ_of_le hacksq.expected_le
  obtain ⟨q₁, hq₁⟩ := PeerNode.tick_receives hq hsettled hsending (hrobust side.other) hcount
    (hrobust side) hreceiving ho.formed ho.handshake
    (hacksq.grow (Nat.le_add_right _ 2)) (show _ + 2 < 2 ^ 32 by omega) (by rw [ho.id]; omega)
    hnew readBuffer writeBuffer
  rw [← hlink, ← hnode] at hq₁
  rw [hlink, ← PeerNode.unsentAcks_eq hq] at hq₁
  -- and so it is acknowledged in the end
  have hself : linkOf setup t₁ side = linkOf setup t side := linkOf_congr hother
  obtain ⟨u, q₂, hlead₂, hother₂, hq₂, hnone⟩ := leads_answering hrobust
    (hlead₁.reachable ht) hgiven (Side.forall_of side (by rw [hself, ho.sent])
      (hq₁.sent.trans (h.sent side.other))) (by
      rw [Side.other_other, hself, ho.packets]
      omega) (by omega) hq₁
  rw [Side.other_other] at hother₂
  exact ⟨u, q₂, hlead₁.trans hlead₂, hother₂.trans hother, hq₂, hnone⟩

/-- What the packet acknowledges has been received. -/
theorem received_le (hrobust : ∀ side, (setup.config side).limit.Robust)
    (hgiven : ∀ x, (given x).length < 2 ^ 32) (h : Reviving setup given limit side s)
    (ho : Offered setup given limit side s t time p content) :
    let received := (linkOf setup s side.other).history.reliableReceived
    (given side).length ≤ (received ++ (receive (UInt32.ofNat received.length)
      content.messages).2).length + p.reliableStream.pendingMessages.length := by
  intro received
  have hunlost : (given side).length ≤ received.length + (linkOf setup s side).unacked := h.unlost
  have hsplit := ho.split
  have hle := ho.unacked_le
  obtain ⟨q, hq, -⟩ := h.entry side.other
  obtain ⟨⟨contents, hcontents⟩, -⟩ := link_acks hrobust (openNetwork_simulates_link h.reachable)
    (h.bound hgiven)
  have hprefix : received.length ≤ (given side).length := by
    have htake := congrArg List.length (hcontents.entry hq).2.received
    rw [Side.other_other, h.sent, List.length_take] at htake
    exact min_eq_left_iff.mp htake.symm
  have hlength := length_receive_numberFrom (hgiven side)
    (show (given side).length - (linkOf setup s side).unacked ≤ received.length by omega)
    (by omega) (show _ + p.reliableStream.inFlightMessages.length ≤ _ by omega)
  rw [← ho.messages] at hlength
  rw [List.length_append]
  omega

end Offered

/-- **One round** has at least one more message acknowledged. -/
theorem Reviving.next (hrobust : ∀ side, (setup.config side).limit.Robust)
    (htimeout : 0 < setup.packetTimeout side) {given : Side → List (List UInt8)}
    (hgiven : ∀ x, (given x).length < 2 ^ 32)
    (h : Reviving setup given limit side s) (hne : (linkOf setup s side).unacked ≠ 0) :
    ∃ u, (openNetwork setup).Leads Clocked s u ∧ Reviving setup given limit side u ∧
      (linkOf setup u side).unacked < (linkOf setup s side).unacked := by
  have hroom := h.room
  have hroom' := h.room_other
  obtain ⟨t, time, p, content, hlead₁, ho⟩ := h.offers hrobust hgiven hne
  have hreachable₁ := hlead₁.reachable h.reachable
  have hsplit := ho.split
  have htaken := List.length_pos_iff.mpr ho.taken
  have hpackets := ho.packets
  have hother : linkOf setup t side.other = linkOf setup s side.other := linkOf_congr ho.other
  obtain ⟨⟨contents, hcontents⟩, hacks⟩ := link_acks hrobust
    (openNetwork_simulates_link hreachable₁) (linkBound_of side hgiven
      (Side.forall_of side ho.sent (by rw [hother, h.sent])) (by omega) (by rw [hother]; omega))
  obtain ⟨hacksp, hkept⟩ := hacks side p ho.entry
  obtain ⟨u, q, hlead₂, hself, hq, hnone⟩ := ho.answered hrobust hgiven h hreachable₁
  have hlink : linkOf setup u side = linkOf setup t side := linkOf_congr hself
  obtain ⟨answer, hanswer, hformed, hhandshake, hstart, hack, hbelow⟩ :=
    hq.acks.resolve_left (hnone ▸ List.not_mem_nil)
  -- the acknowledgement arrives before the packet times out
  obtain ⟨v, readBuffer, writeBuffer, hlead₃, hnode, hother₃, -⟩ := leads_tick
    (hlead₂.reachable hreachable₁) side time (by rw [hself]; exact ho.onTime) (some answer.bytes)
    (by
      intro packet hpacket
      cases hpacket
      exact hanswer)
  obtain ⟨p', hp', hsettled, hmessages, hsent, hpackets'⟩ := PeerNode.tick_ack ho.entry ho.settled
    (hcontents.entry ho.entry).1 (hrobust side) (hrobust side.other) hformed hhandshake
    (UInt32.le_iff_toNat_le.mpr (Nat.le_trans hacksp.expected_le (hother ▸ hstart))) ho.inFlight
    (by rw [hkept]; omega) ho.tags hack hbelow readBuffer writeBuffer
  rw [← hlink, ← hnode] at hp' hsent hpackets'
  rw [hlink] at hsent hpackets'
  have hother₄ : linkOf setup v side.other = linkOf setup u side.other := linkOf_congr hother₃
  have hunacked : (linkOf setup v side).unacked = p.reliableStream.pendingMessages.length := by
    rw [PeerNode.unacked_eq hp', hmessages]
  have hlead := hlead₁.trans (hlead₂.trans hlead₃)
  refine ⟨v, hlead, ⟨hlead.reachable h.reachable, Side.forall_of side ⟨p', hp', hsettled⟩ ?_,
    Side.forall_of side (hsent.trans ho.sent) ?_, ?_, fun payload hpayload => ?_, ?_, ?_⟩, by omega⟩
  · rw [hother₄]
    exact ⟨q, hq.entry, hq.settled⟩
  · rw [hother₄, hq.sent]
    exact h.sent side.other
  · rw [hunacked, hother₄, hq.received]
    exact ho.received_le hrobust hgiven h
  · refine h.fits payload ?_
    have hle := ho.unacked_le
    rw [hunacked, show (given side).length - p.reliableStream.pendingMessages.length
      = (given side).length - (linkOf setup s side).unacked
        + p.reliableStream.inFlightMessages.length by omega, ← List.drop_drop] at hpayload
    exact List.mem_of_mem_drop hpayload
  · omega
  · have hroom₂ := hq.room
    rw [hother₄, hunacked, PeerNode.unsentAcks_eq hq.entry]
    rw [hnone] at hroom₂ ⊢
    simp only [List.length_nil] at hroom₂ ⊢
    omega

/-- If everything is acknowledged, everything has been received. -/
theorem Reviving.delivered (hrobust : ∀ side, (setup.config side).limit.Robust)
    {given : Side → List (List UInt8)} (hgiven : ∀ x, (given x).length < 2 ^ 32)
    (h : Reviving setup given limit side s) (hzero : (linkOf setup s side).unacked = 0) :
    (linkOf setup s side.other).history.reliableReceived = given side := by
  have hunlost := h.unlost
  rw [hzero, Nat.add_zero] at hunlost
  obtain ⟨q, hq, -⟩ := h.entry side.other
  obtain ⟨⟨contents, hcontents⟩, -⟩ := link_acks hrobust (openNetwork_simulates_link h.reachable)
    (h.bound hgiven)
  have hreceived := (hcontents.entry hq).2.received
  rwa [Side.other_other, h.sent, List.take_of_length_le hunlost] at hreceived

end

/-! ### The rest of the handshake -/

/-- A connected entry that has written packets, some of them with a handshake. -/
structure PeerNode.Spent (limit : BandwidthLimit) (x : PeerNode) (p : Peer) (y : PeerNode)
    (q : Peer) : Prop where
  entry : y.entry = some q
  connected : q.connectionManager.peerLimit = some limit
  messages : q.reliableStream.messages = p.reliableStream.messages
  acks : q.packetDeliveryManager.pendingAcks.length ≤ p.packetDeliveryManager.pendingAcks.length
  sent : y.history.reliableSent = x.history.reliableSent
  received : y.history.reliableReceived = x.history.reliableReceived
  packets : y.history.packets.length + q.connectionManager.numLetsConnectToSend
    ≤ x.history.packets.length + p.connectionManager.numLetsConnectToSend

section

variable {setup : Setup} {limit : BandwidthLimit} {s : Side → Observed}

/-- A connected side writes the handshakes that are left if it ticks often enough. -/
theorem leads_settled (h : (openNetwork setup).Reachable System.anyAction s) (side : Side)
    {p : Peer}
    (hp : (linkOf setup s side).entry = some p)
    (hlimit : p.connectionManager.peerLimit = some limit) :
    ∃ t q, (openNetwork setup).Leads Clocked s t ∧ t side.other = s side.other ∧
      PeerNode.Spent limit (linkOf setup s side) p (linkOf setup t side) q ∧ q.Settled limit := by
  let left := fun t : Side → Observed => ((linkOf setup t side).entry.map fun p =>
    p.connectionManager.numLetsConnectToSend).getD 0
  have hleft : ∀ {t : Side → Observed} {q : Peer}, (linkOf setup t side).entry = some q →
      left t = q.connectionManager.numLetsConnectToSend := by
    intro t q hq
    show (Option.map _ _).getD 0 = _
    rw [hq]
    rfl
  have hround : ∀ t, ((openNetwork setup).Reachable System.anyAction t ∧
      t side.other = s side.other ∧
      ∃ q, PeerNode.Spent limit (linkOf setup s side) p (linkOf setup t side) q) → left t ≠ 0 →
      ∃ u, (openNetwork setup).Leads Clocked t u ∧
        ((openNetwork setup).Reachable System.anyAction u ∧ u side.other = s side.other ∧
          ∃ q, PeerNode.Spent limit (linkOf setup s side) p (linkOf setup u side) q) ∧
        left u < left t := by
    rintro t ⟨ht, hother, q, hq⟩ hne
    rw [hleft hq.entry] at hne ⊢
    obtain ⟨_, u, readBuffer, writeBuffer, hfires, hlead, hnode, hother', -⟩ :=
      leads_late ht side q.sendPacketTicker.exists_fires none (by simp)
    obtain ⟨q', payload, hq', hlimit', hless, hmessages, -, hacks, hhistory⟩ :=
      PeerNode.tick_fires hq.entry hq.connected hfires readBuffer writeBuffer
    rw [← hnode] at hq' hhistory
    have hpackets := hq.packets
    refine ⟨u, hlead, ⟨hlead.reachable ht, hother'.trans hother, q', hq', hlimit',
      hmessages.trans hq.messages, hacks.trans hq.acks, ?_, ?_, ?_⟩, ?_⟩
    · rw [hhistory]
      exact hq.sent
    · rw [hhistory]
      exact hq.received
    · rw [hhistory, List.length_append, List.length_singleton]
      omega
    · rw [hleft hq']
      omega
  have hstart : PeerNode.Spent limit (linkOf setup s side) p (linkOf setup s side) p :=
    ⟨hp, hlimit, rfl, Nat.le_refl _, rfl, rfl, Nat.le_refl _⟩
  obtain ⟨t, hlead, ⟨-, hother, q, hq⟩, hzero⟩ := System.Leads.descend left hround
    ⟨h, rfl, p, hstart⟩
  rw [hleft hq.entry] at hzero
  exact ⟨t, q, hlead, hother, hq, ⟨hq.connected, hzero⟩⟩

/-- Two sides that are connected write the handshakes that are left one after the other. -/
theorem leads_both_settled (h : (openNetwork setup).Reachable System.anyAction s) (side : Side)
    {p q : Peer} {limit' : BandwidthLimit} (hp : (linkOf setup s side).entry = some p)
    (hlimit : p.connectionManager.peerLimit = some limit)
    (hq : (linkOf setup s side.other).entry = some q)
    (hlimit' : q.connectionManager.peerLimit = some limit') :
    ∃ t p' q', (openNetwork setup).Leads Clocked s t ∧
      PeerNode.Spent limit (linkOf setup s side) p (linkOf setup t side) p' ∧ p'.Settled limit ∧
      PeerNode.Spent limit' (linkOf setup s side.other) q (linkOf setup t side.other) q' ∧
      q'.Settled limit' := by
  obtain ⟨s₁, p', hlead₁, hother₁, hspent, hsettled⟩ := leads_settled h side hp hlimit
  have hlink₁ : linkOf setup s₁ side.other = linkOf setup s side.other := linkOf_congr hother₁
  obtain ⟨t, q', hlead₂, hother₂, hspent', hsettled'⟩ :=
    leads_settled (hlead₁.reachable h) side.other (hlink₁ ▸ hq) hlimit'
  rw [Side.other_other] at hother₂
  rw [hlink₁] at hspent'
  have hlink₂ : linkOf setup t side = linkOf setup s₁ side := linkOf_congr hother₂
  exact ⟨t, p', q', hlead₁.trans hlead₂, hlink₂ ▸ hspent, hsettled, hspent', hsettled'⟩

end

/-! ### Recovery -/

end Neptun
