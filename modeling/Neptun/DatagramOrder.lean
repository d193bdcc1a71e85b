/-
The order of datagrams on a `FakeNetwork`.

A datagram whose id is less than the one that is expected next is thrown away.  On a
`FakeNetwork` this never happens to the endpoints of `HostedEndpoints`: queues keep the
order, and what waits in a queue was sent later than all that was read from it.

* `Hosts.InOrder` — the order of what waits for an endpoint;
* `nothing_is_old` — whatever an endpoint reads from the other one is accepted.
-/
import Neptun.HostedEndpoints

namespace Neptun

section

variable {setup : Setup} {mtu : ℤ}

/-- The packet id that is expected next, if there is an entry. -/
def PeerNode.expected (x : PeerNode) : PacketId :=
  (x.entry.map fun p => p.packetDeliveryManager.nextExpectedPacketId).getD 0

theorem PeerNode.expected_getD (x : PeerNode) (config : ConnectionManagerConfig)
    (packetTimeout now : ℤ) : x.expected
      = (x.entry.getD (.fresh config packetTimeout now)).packetDeliveryManager.nextExpectedPacketId
      := by
  rw [expected]
  cases x.entry <;> rfl

theorem PeerNode.expected_dropOldPackets (x : PeerNode) (now : ℤ) :
    (x.dropOldPackets now).expected = x.expected := by
  rw [PeerNode.dropOldPackets, expected, expected]
  cases x.entry with
  | none => rfl
  | some p =>
    simp only [Option.map_some, Option.getD_some]
    rw [Peer.dropOldPackets_delivery]
    rfl

/-- What a tick expects next. -/
theorem PeerNode.expected_tick (config : ConnectionManagerConfig) (packetTimeout : ℤ)
    (x : PeerNode) (now : ℤ) (incoming : Option (List UInt8)) (readBuffer writeBuffer : Memory) :
    (x.tick config packetTimeout now incoming readBuffer writeBuffer).expected
      = match incoming with
        | none => x.expected
        | some packet =>
          let id := (PacketHeader.read ⟨0, (packet.take kJustAboveMtu).length⟩
            (readBuffer.storeList 0 (packet.take kJustAboveMtu))).val.id
          if id < x.expected then x.expected else id + 1 := by
  have hwrite : ∀ (x : PeerNode) (mem : Memory),
      (x.write config now mem).expected = x.expected := by
    intro x mem
    rw [PeerNode.write]
    cases hentry : x.entry with
    | none => rfl
    | some p =>
      rw [expected, expected, hentry]
      rcases Peer.write_delivery config p mem now with hdelivery | hdelivery
      · exact congrArg PacketDeliveryManager.nextExpectedPacketId hdelivery
      · refine (congrArg PacketDeliveryManager.nextExpectedPacketId hdelivery).trans ?_
        rw [PacketDeliveryManager.nextHeader_frame]
        rfl
  have hdrop := x.expected_dropOldPackets now
  cases incoming with
  | none => exact (hwrite _ _).trans hdrop
  | some packet =>
    refine (hwrite _ _).trans ?_
    dsimp only
    rw [PeerNode.read, expected, ← hdrop,
      (x.dropOldPackets now).expected_getD config packetTimeout now]
    simp only [Option.map_some, Option.getD_some]
    rw [Peer.read_delivery]
    rcases PacketDeliveryManager.processRead_cases _ _ with ⟨-, hlt, -, hexp⟩ | ⟨-, hge, -, hexp⟩
    · rw [hexp, if_pos hlt]
    · rw [hexp, if_neg hge]

theorem Observed.expected_node (x : Observed) (ip : IpAddress) :
    (x.node ip).expected = x.endpoint.expectedFrom ip := by
  rw [node, PeerNode.expected, Endpoint.expectedFrom]
  cases x.endpoint.peers.find ip <;> rfl

/-- Only a tick changes what is expected. -/
theorem Observed.expected_next {x : Observed} (h : x.endpoint.Distinct) (ip : IpAddress)
    {call : EndpointCall} (hcall : ∀ now incoming, call ≠ .tick now incoming) :
    ((x.next call).node ip).expected = (x.node ip).expected := by
  obtain ⟨writeBuffer, hnode⟩ := node_next h ip call
  have hentry := (x.node ip).expected_getD x.endpoint.connectionManagerConfig
    x.endpoint.packetTimeout
  rw [hnode]
  cases call with
  | connect target now =>
    rw [EndpointCall.about]
    by_cases htarget : target = ip
    · rw [if_pos htarget]
      exact (hentry now).symm
    · rw [if_neg htarget]
  | sendReliableTo target fn now =>
    rw [EndpointCall.about]
    by_cases htarget : target = ip
    · rw [if_pos htarget]
      exact (hentry now).symm
    · rw [if_neg htarget]
  | sendUnreliableTo target fn now =>
    rw [EndpointCall.about]
    by_cases htarget : target = ip
    · rw [if_pos htarget]
      exact (hentry now).symm
    · rw [if_neg htarget]
  | tick now incoming => exact absurd rfl (hcall now incoming)

/-- The packets that wait for an endpoint are in the order in which they were sent, behind
all that it has read. -/
structure Hosts.InOrder (setup : Setup) (h : Hosts) : Prop where
  expected_le : ∀ side, (linkOf setup h.node side).expected.toNat
    ≤ ((h.node side.other).history (setup.address side)).packets.length
  queued : ∀ side, (h.queued setup side).Sublist
    (((h.node side.other).history (setup.address side)).packets.drop
      (linkOf setup h.node side).expected.toNat)

namespace Hosts.InOrder

variable {h : Hosts} {t : Side → List PacketContent} {side : Side} {payload : List UInt8}
  {rest : List (List UInt8)}

/-- The packet in front is one that was sent at place `i`, and the others were sent behind it. -/
theorem front (ho : h.InOrder setup) (ht : LinkSound setup (linkOf setup h.node) t)
    (hqueued : h.queued setup side = payload :: rest) :
    let packets := ((h.node side.other).history (setup.address side)).packets
    ∃ i, (linkOf setup h.node side).expected.toNat ≤ i ∧ i < packets.length ∧
      rest.Sublist (packets.drop (i + 1)) ∧
      ∀ (size : ℕ) (mem : Memory), (PacketHeader.read ⟨0, size⟩
        (mem.storeList 0 (payload.take kJustAboveMtu))).val.id = UInt32.ofNat i := by
  intro packets
  have hsublist := ho.queued side
  rw [hqueued, List.cons_sublist_iff] at hsublist
  obtain ⟨before, behind, hsplit, hmem, hrest⟩ := hsublist
  obtain ⟨j, hj, hget⟩ := List.mem_iff_getElem.mp hmem
  generalize (linkOf setup h.node side).expected.toNat = e at hsplit ⊢
  have hpackets : packets[e + j]? = some payload := by
    rw [← List.getElem?_drop, hsplit, List.getElem?_append_left hj, List.getElem?_eq_getElem hj,
      hget]
  refine ⟨e + j, Nat.le_add_right _ _, (List.getElem?_eq_some_iff.mp hpackets).1, ?_, ?_⟩
  · have hdrop : packets.drop (e + j + 1) = before.drop (j + 1) ++ behind := by
      rw [Nat.add_assoc, ← List.drop_drop, hsplit,
        List.drop_append_of_le_length (show j + 1 ≤ before.length from hj)]
    rw [hdrop]
    exact hrest.trans (List.sublist_append_right _ _)
  · -- its place is the id in its header
    intro size mem
    have hsending := (ht side.other).sending 0
    have htrace : packets = (t side.other).map PacketContent.bytes := by
      rw [← hsending.packets, linkOf, Side.other_other]
      rfl
    rw [htrace, List.getElem?_map, Option.map_eq_some_iff] at hpackets
    obtain ⟨content, hcontent, rfl⟩ := hpackets
    have hhead : content.bytes.take 12 = content.header.encode := by
      rw [PacketContent.bytes]
      exact List.take_left' (PacketHeader.length_encode _)
    rw [val_read_datagram hhead _ rfl, hsending.ids _ _ hcontent]

theorem congr (ho : h.InOrder setup) {h' : Hosts}
    (hpackets : ∀ side ip, ((h'.node side).history ip).packets = ((h.node side).history ip).packets)
    (hqueued : ∀ side, h'.queued setup side = h.queued setup side)
    (hexpected : ∀ side,
      (linkOf setup h'.node side).expected = (linkOf setup h.node side).expected) :
    h'.InOrder setup := by
  refine ⟨fun side => ?_, fun side => ?_⟩
  · rw [hpackets, hexpected]
    exact ho.expected_le side
  · rw [hpackets, hexpected, hqueued]
    exact ho.queued side

/-- A call that is not a tick. -/
theorem call (ho : h.InOrder setup) {side : Side} {call : EndpointCall}
    (hdistinct : (h.node side).endpoint.Distinct)
    (hcall : ∀ now incoming, call ≠ .tick now incoming)
    (hpackets : ∀ ip, (((h.node side).next call).history ip).packets
      = ((h.node side).history ip).packets) : (h.call side call).InOrder setup := by
  refine ho.congr (fun x ip => ?_) (fun _ => rfl) fun x => ?_
  · show ((Side.set h.node side _ x).history ip).packets = _
    by_cases hx : x = side
    · rw [hx, Side.set_self]
      exact hpackets ip
    · rw [Side.set, if_neg hx]
  · show ((Side.set h.node side _ x).node _).expected = _
    by_cases hx : x = side
    · rw [hx, Side.set_self]
      exact Observed.expected_next hdistinct _ hcall
    · rw [Side.set, if_neg hx]
      rfl

/-- What a tick reads is not older than what is expected, and less is behind it. -/
theorem tick (ho : h.InOrder setup) (hh : Hosting setup mtu h) (hmtu : 1400 ≤ mtu)
    (hmtu' : mtu < 2 ^ 31) (hvalid : ConnectionManager.ValidLimit (setup.config side).limit)
    (hhosted : Hosted setup h.node) (ht : LinkSound setup (linkOf setup h.node) t)
    (hbound : LinkBound (linkOf setup h.node)) (now : ℤ) : (h.tick side now).InOrder setup := by
  obtain ⟨hself, hother⟩ := hh.queued_tick hmtu hmtu' hvalid now
  have hown : (linkOf setup (h.tick side now).node side).expected.toNat
        ≤ ((h.node side.other).history (setup.address side)).packets.length ∧
      ((h.tick side now).queued setup side).Sublist
        (((h.node side.other).history (setup.address side)).packets.drop
          (linkOf setup (h.tick side now).node side).expected.toNat) := by
    obtain ⟨writeBuffer, hnode⟩ := Observed.node_tick (hhosted.distinct side)
      (setup.address side.other) now (h.network.incoming (h.socket side).fd)
    have hexpected := congrArg PeerNode.expected hnode
    rw [PeerNode.expected_tick] at hexpected
    have hset : linkOf setup (h.tick side now).node side = ((h.node side).next
        (.tick now (h.network.incoming (h.socket side).fd))).node (setup.address side.other) :=
      congrArg (fun x => Observed.node x _) (Side.set_self _ _ _)
    rw [hset, hexpected]
    cases hincoming : receivedFrom (setup.address side.other)
        (h.network.incoming (h.socket side).fd) with
    | none =>
      rw [hincoming] at hself
      have hsame : (h.tick side now).queued setup side = h.queued setup side := hself.symm
      rw [hsame]
      exact ⟨ho.expected_le side, ho.queued side⟩
    | some payload =>
      rw [hincoming] at hself
      obtain ⟨i, hle, hlt, hrest, hid⟩ := ho.front ht hself
      have hcount : ((h.node side.other).history (setup.address side)).packets.length < 2 ^ 32 := by
        have hcount := (hbound side.other).1
        rw [linkOf, Side.other_other] at hcount
        exact hcount
      have hsucc : i + 1 < 2 ^ 32 := Nat.lt_of_le_of_lt hlt hcount
      have htoNat : (UInt32.ofNat i).toNat = i :=
        UInt32.toNat_ofNat_of_lt' (Nat.lt_of_succ_lt hsucc)
      have hnot : ¬ UInt32.ofNat i < (linkOf setup h.node side).expected := by
        rw [UInt32.lt_iff_toNat_lt, htoNat]
        exact Nat.not_lt.mpr hle
      have hplace : (UInt32.ofNat i + 1).toNat = i + 1 := by
        rw [UInt32.toNat_add, htoNat, UInt32.toNat_one]
        exact Nat.mod_eq_of_lt hsucc
      dsimp only
      rw [hid]
      show (if _ < (linkOf setup h.node side).expected then _ else _ : PacketId).toNat ≤ _ ∧
        List.Sublist _ (List.drop (if _ < (linkOf setup h.node side).expected then _ else _ :
          PacketId).toNat _)
      rw [if_neg hnot, hplace]
      exact ⟨hlt, hrest⟩
  have hlink : linkOf setup (h.tick side now).node side.other = linkOf setup h.node side.other :=
    congrArg (fun x => Observed.node x _) (Hosting.node_tick_other h side now)
  refine ⟨Side.forall_of side ?_ ?_, Side.forall_of side ?_ ?_⟩
  · rw [Hosting.node_tick_other]
    exact hown.1
  · have hle := ho.expected_le side.other
    rw [Side.other_other] at hle
    rw [Side.other_other, Hosting.history_tick, List.length_append, hlink]
    exact Nat.le_trans hle (Nat.le_add_right _ _)
  · rw [Hosting.node_tick_other]
    exact hown.2
  · -- what was sent now is behind all that was sent before
    have hle := ho.expected_le side.other
    have hqueued := ho.queued side.other
    rw [Side.other_other] at hle hqueued
    rw [Side.other_other, Hosting.history_tick, hother, hlink, List.drop_append_of_le_length hle]
    refine hqueued.append ?_
    split
    · exact List.nil_sublist _
    · exact List.Sublist.refl _

/-- A datagram of the other endpoint at the socket has an id that is expected, and not the
largest one. -/
theorem incoming_new (ho : h.InOrder setup) (hh : Hosting setup mtu h)
    (ht : LinkSound setup (linkOf setup h.node) t) (hcount : LinkBound (linkOf setup h.node))
    (hincoming : h.network.incoming (h.socket side).fd = some (setup.address side.other, payload))
    (mem : Memory) :
    let id := (PacketHeader.read ⟨0, (payload.take kJustAboveMtu).length⟩
      (mem.storeList 0 (payload.take kJustAboveMtu))).val.id
    ¬ id < (linkOf setup h.node side).expected ∧ id.toNat + 1 < 2 ^ 32 := by
  intro id
  obtain ⟨rest, -, hqueued⟩ := hh.incoming_queued side
  rw [hincoming, receivedFrom, Option.bind_some, if_pos rfl] at hqueued
  obtain ⟨i, hle, hlt, -, hid⟩ := ho.front ht hqueued
  have hpackets := (hcount side.other).1
  rw [linkOf, Side.other_other] at hpackets
  have hplace : id.toNat = i := by
    rw [show id = UInt32.ofNat i from hid _ mem, UInt32.toNat_ofNat_of_lt' (hlt.trans hpackets)]
  rw [UInt32.lt_iff_toNat_lt, hplace]
  exact ⟨Nat.not_lt.mpr hle, Nat.lt_of_le_of_lt hlt hpackets⟩

/-- Every call keeps the order. -/
theorem next (ho : h.InOrder setup) (hh : Hosting setup mtu h) (hmtu : 1400 ≤ mtu)
    (hmtu' : mtu < 2 ^ 31) (hvalid : ∀ side, ConnectionManager.ValidLimit (setup.config side).limit)
    (hhosted : Hosted setup h.node) (ht : LinkSound setup (linkOf setup h.node) t)
    (hbound : LinkBound (linkOf setup h.node)) {call : HostCall} (hen : h.Enabled call) :
    (h.next call).InOrder setup := by
  cases call with
  | connect side ip now =>
    exact ho.call (hhosted.distinct side) (fun _ _ => EndpointCall.noConfusion) fun _ => rfl
  | sendReliableTo side ip fn now =>
    exact ho.call (hhosted.distinct side) (fun _ _ => EndpointCall.noConfusion)
      (Observed.packets_sendReliableTo _ _ _ _)
  | sendUnreliableTo side ip fn now =>
    exact ho.call (hhosted.distinct side) (fun _ _ => EndpointCall.noConfusion)
      (Observed.packets_sendUnreliableTo _ _ _ _)
  | tick side now => exact ho.tick hh hmtu hmtu' (hvalid side) hhosted ht hbound now
  | other call => exact ho.congr (fun _ _ => rfl) (hh.queued_other hen) fun _ => rfl

end Hosts.InOrder

/-- Histories grow. -/
theorem Observed.lengths_le (x : Observed) (call : EndpointCall) (ip : IpAddress) :
    (x.history ip).packets.length ≤ ((x.next call).history ip).packets.length ∧
      (x.history ip).reliableSent.length ≤ ((x.next call).history ip).reliableSent.length := by
  cases call with
  | connect target now => exact ⟨Nat.le_refl _, Nat.le_refl _⟩
  | sendReliableTo target fn now =>
    refine ⟨Nat.le_of_eq (by rw [packets_sendReliableTo]), ?_⟩
    rw [next]
    dsimp only [recorded]
    split
    · rw [ReliableStream.sentAfter]
      split
      · exact Nat.le_refl _
      · exact List.length_append ▸ Nat.le_add_right _ _
    · exact Nat.le_refl _
  | sendUnreliableTo target fn now =>
    refine ⟨Nat.le_of_eq (by rw [packets_sendUnreliableTo]), ?_⟩
    rw [next]
    dsimp only [recorded]
    split <;> exact Nat.le_refl _
  | tick now incoming => exact ⟨List.length_append ▸ Nat.le_add_right _ _, Nat.le_refl _⟩

/-- At most one of the endpoints takes part in a call. -/
theorem Hosts.node_next (h : Hosts) (call : HostCall) : (h.next call).node = h.node ∨
    ∃ side endpointCall,
      (h.next call).node = Side.set h.node side ((h.node side).next endpointCall) := by
  cases call with
  | connect side ip now => exact Or.inr ⟨side, .connect ip now, rfl⟩
  | sendReliableTo side ip fn now => exact Or.inr ⟨side, .sendReliableTo ip fn now, rfl⟩
  | sendUnreliableTo side ip fn now => exact Or.inr ⟨side, .sendUnreliableTo ip fn now, rfl⟩
  | tick side now => exact Or.inr ⟨side, .tick now (h.network.incoming (h.socket side).fd), rfl⟩
  | other call => exact Or.inl rfl

theorem Hosts.bound_of_next {h : Hosts} {call : HostCall}
    (hbound : LinkBound (linkOf setup (h.next call).node)) : LinkBound (linkOf setup h.node) := by
  rcases h.node_next call with hnode | ⟨side, endpointCall, hnode⟩
  · rwa [hnode] at hbound
  · intro x
    have hx := hbound x
    rw [hnode] at hx
    by_cases hside : x = side
    · subst hside
      obtain ⟨hpackets, hsent⟩ := (h.node x).lengths_le endpointCall (setup.address x.other)
      rw [linkOf, Side.set_self] at hx
      exact ⟨Nat.lt_of_le_of_lt hpackets hx.1, Nat.lt_of_le_of_lt hsent hx.2⟩
    · rw [linkOf, Side.set, if_neg hside] at hx
      exact hx

theorem inOrder_of_reachable (hmtu : 1400 ≤ mtu) (hmtu' : mtu < 2 ^ 31)
    (hrobust : ∀ side, (setup.config side).limit.Robust) {h : Hosts}
    (hr : (hosts setup mtu).Reachable System.anyAction h)
    (hcount : LinkBound (linkOf setup h.node)) : h.InOrder setup := by
  have hvalid := fun side => (hrobust side).validLimit
  refine hr.invariant_of_bound (P := fun h => h.InOrder setup)
    (fun h => LinkBound (linkOf setup h.node)) (fun h call => Hosts.bound_of_next)
    (fun h hinit => ?_) (fun h call hr ho hen _ hbound => ?_) hcount
  · have hh := Hosting.start hinit
    obtain ⟨-, -, -, -, -, hnode⟩ := hinit
    have hexpected : ∀ side, (linkOf setup h.node side).expected = 0 := by
      intro side
      rw [hnode]
      rfl
    refine ⟨fun side => ?_, fun side => ?_⟩
    · rw [hexpected]
      exact Nat.zero_le _
    · rw [hexpected]
      exact hh.queued side
  · have hopen := hosts_simulate_openNetwork hmtu hmtu' hvalid hr
    have hbefore := Hosts.bound_of_next hbound
    obtain ⟨t, ht⟩ := link_sound hrobust (openNetwork_simulates_link hopen) hbefore
    exact ho.next (hosting_of_reachable hmtu hmtu' hvalid hr) hmtu hmtu' hvalid
      (hosted_of_reachable hopen) ht hbefore hen

end

end Neptun
