/-
Two endpoints on a `FakeNetwork`.

The endpoints are made on a network that is in use, and others go on using it: they open
sockets, send from theirs to anybody, and let packets be dropped.  Packets of the
endpoints go through the queues of the network.

* `hosts_simulate_openNetwork` — what the endpoints do is a run of the open network;
* `delivery_over_fake_network` — what is delivered to them.
-/
import Neptun.FakeNetwork
import Neptun.OpenNetwork

namespace Neptun

/-- The network, and the endpoints with their sockets and their histories. -/
structure Hosts where
  network : FakeNetwork
  socket : Side → UdpSocket
  node : Side → Observed

/-- A call of one of the endpoints, or of the network by somebody else. -/
inductive HostCall
  | connect (side : Side) (ip : IpAddress) (now : ℤ)
  | sendReliableTo (side : Side) (ip : IpAddress) (fn : WriteToBufferFn) (now : ℤ)
  | sendUnreliableTo (side : Side) (ip : IpAddress) (fn : WriteToBufferFn) (now : ℤ)
  | tick (side : Side) (now : ℤ)
  | other (call : NetworkCall)

/-- What a tick finds at its socket. -/
def FakeNetwork.incoming (n : FakeNetwork) (fd : FileDescriptor) :
    Option (IpAddress × List UInt8) :=
  match n.readFromSocket fd kJustAboveMtu with
  | .ok (_, packet) => packet.map fun packet => (packet.sender, packet.payload)
  | .error _ => none

/-- Sending the packets of a tick. -/
def FakeNetwork.sendAll (n : FakeNetwork) (fd : FileDescriptor) (sent : List (IpAddress × Packet)) :
    FakeNetwork :=
  sent.foldl (fun n packet => n.next (.sendTo fd packet.1 packet.2.payload)) n

namespace Hosts

def call (h : Hosts) (side : Side) (call : EndpointCall) : Hosts :=
  { h with node := Side.set h.node side ((h.node side).next call) }

def tick (h : Hosts) (side : Side) (now : ℤ) : Hosts :=
  let fd := (h.socket side).fd
  let incoming := h.network.incoming fd
  let sent := ((h.node side).endpoint.tick now incoming).val.2.sent
  { (h.call side (.tick now incoming)) with
    network := (h.network.next (.readFromSocket fd kJustAboveMtu)).sendAll fd sent }

def next (h : Hosts) : HostCall → Hosts
  | .connect side ip now => h.call side (.connect ip now)
  | .sendReliableTo side ip fn now => h.call side (.sendReliableTo ip fn now)
  | .sendUnreliableTo side ip fn now => h.call side (.sendUnreliableTo ip fn now)
  | .tick side now => h.tick side now
  | .other call => { h with network := h.network.next call }

/-- Others use their own sockets. -/
def Enabled (h : Hosts) : HostCall → Prop
  | .other (.sendTo fd _ _) => ∀ side, fd ≠ (h.socket side).fd
  | .other (.readFromSocket fd _) => ∀ side, fd ≠ (h.socket side).fd
  | _ => True

end Hosts

/-- Two endpoints on a network that nobody has used before. -/
def Hosts.onNewNetwork (setup : Setup) (mtu : ℤ) : Hosts where
  network := {
    mtu := mtu
    nextFd := 2
    bindings := [(setup.address .a, ⟨0⟩), (setup.address .b, ⟨1⟩)] }
  socket
    | .a => ⟨⟨0⟩, setup.address .a⟩
    | .b => ⟨⟨1⟩, setup.address .b⟩
  node side := { endpoint := {
    packetTimeout := setup.packetTimeout side
    connectionManagerConfig := setup.config side } }

/-- The runs of two endpoints that are made on a network, one after the other. -/
def hosts (setup : Setup) (mtu : ℤ) : System Hosts HostCall where
  init h := ∃ n n', (fakeNetwork mtu).Reachable System.anyAction n ∧
    UdpSocket.bind (setup.address .a) n = (n', .ok (h.socket .a)) ∧
    UdpSocket.bind (setup.address .b) n' = (h.network, .ok (h.socket .b)) ∧
    h.node = fun side => { endpoint := {
      packetTimeout := setup.packetTimeout side
      connectionManagerConfig := setup.config side } }
  enabled := Hosts.Enabled
  next := Hosts.next

theorem Observed.packets_sendReliableTo (x : Observed) (target : IpAddress) (fn : WriteToBufferFn)
    (now : ℤ) (ip : IpAddress) :
    ((x.next (.sendReliableTo target fn now)).history ip).packets = (x.history ip).packets := by
  rw [next]
  dsimp only [recorded]
  split <;> rfl

theorem Observed.packets_sendUnreliableTo (x : Observed) (target : IpAddress)
    (fn : WriteToBufferFn) (now : ℤ) (ip : IpAddress) :
    ((x.next (.sendUnreliableTo target fn now)).history ip).packets = (x.history ip).packets := by
  rw [next]
  dsimp only [recorded]
  split <;> rfl

/-! ### The network of a tick -/

namespace FakeNetwork

variable {n : FakeNetwork} {fd : FileDescriptor} {ip sender : IpAddress}

/-- The packets of a tick go to the ends of their queues. -/
theorem sendAll_spec (h : n.findIp fd = some sender) (sent : List (IpAddress × Packet)) :
    (n.sendAll fd sent).bindings = n.bindings ∧ (n.sendAll fd sent).nextFd = n.nextFd ∧
      (n.sendAll fd sent).mtu = n.mtu ∧
      (n.sendAll fd sent).shouldDropPackets = n.shouldDropPackets ∧
      ∀ ip, (n.sendAll fd sent).buffers ip = n.buffers ip ++
        if n.shouldDropPackets then []
        else (sent.filter fun packet => packet.1 = ip).map fun packet =>
          ⟨sender, n.truncate packet.2.payload⟩ := by
  induction sent generalizing n with
  | nil =>
    refine ⟨rfl, rfl, rfl, rfl, fun ip => ?_⟩
    rw [List.filter_nil, List.map_nil, ite_self, List.append_nil]
    rfl
  | cons packet sent ih =>
    obtain ⟨stats, hsend⟩ := sendTo_bound h packet.1 packet.2.payload
    have hnext : n.next (.sendTo fd packet.1 packet.2.payload) = { n with
        buffers := if n.shouldDropPackets then n.buffers
          else Function.update n.buffers packet.1
            (n.buffers packet.1 ++ [⟨sender, n.truncate packet.2.payload⟩])
        stats := stats } := by
      rw [next, hsend]
      rfl
    have hstep : n.sendAll fd (packet :: sent)
        = (n.next (.sendTo fd packet.1 packet.2.payload)).sendAll fd sent := rfl
    obtain ⟨hbindings, hnextFd, hmtu, hdrop, hbuffers⟩ := @ih
      (n.next (.sendTo fd packet.1 packet.2.payload)) (findIp_next h _)
    rw [hstep]
    refine ⟨?_, ?_, ?_, ?_, fun ip => ?_⟩
    · rw [hbindings, hnext]
    · rw [hnextFd, hnext]
    · rw [hmtu, hnext]
    · rw [hdrop, hnext]
    · rw [hbuffers, hnext]
      dsimp only
      cases hflag : n.shouldDropPackets with
      | true => rfl
      | false =>
        by_cases hip : packet.1 = ip
        · subst hip
          simp [truncate]
        · simp [truncate, hip, Function.update_of_ne (Ne.symm hip)]

theorem Sound.sendAll (h : n.Sound) (fd : FileDescriptor) (sent : List (IpAddress × Packet)) :
    (n.sendAll fd sent).Sound := by
  induction sent generalizing n with
  | nil => exact h
  | cons packet sent ih => exact ih (h.next (.sendTo fd packet.1 packet.2.payload))

end FakeNetwork

/-! ### The queues of the endpoints -/

/-- The packets of the other endpoint that wait for a side. -/
def Hosts.queued (setup : Setup) (h : Hosts) (side : Side) : List (List UInt8) :=
  ((h.network.buffers (setup.address side)).filter fun packet =>
    packet.sender = setup.address side.other).map (·.payload)

/-- What waits for an endpoint comes from the other one. -/
structure Hosting (setup : Setup) (mtu : ℤ) (h : Hosts) : Prop where
  sound : h.network.Sound
  mtu : h.network.mtu = mtu
  address : ∀ side, h.network.findIp (h.socket side).fd = some (setup.address side)
  endpoint : ∀ side, (neptun (setup.config side) (setup.packetTimeout side)).Reachable
    System.anyAction (h.node side).endpoint
  short : ∀ side, ∀ packet ∈ ((h.node side).history (setup.address side.other)).packets,
    packet.length ≤ kJustBelowMtu.toNat
  queued : ∀ side, (h.queued setup side).Sublist
    ((h.node side.other).history (setup.address side)).packets

namespace Hosting

variable {setup : Setup} {mtu : ℤ} {h : Hosts} {side : Side}

theorem address_ne (setup : Setup) (side : Side) :
    setup.address side ≠ setup.address side.other := by
  intro heq
  have := setup.address_injective heq
  cases side <;> cases this

/-- What is read from the other endpoint waited in front. -/
theorem incoming_queued (hh : Hosting setup mtu h) (side : Side) :
    ∃ rest, h.network.next (.readFromSocket (h.socket side).fd kJustAboveMtu) = { h.network with
        buffers := Function.update h.network.buffers (setup.address side) rest
        stats := (h.network.next (.readFromSocket (h.socket side).fd kJustAboveMtu)).stats } ∧
      h.queued setup side
        = (receivedFrom (setup.address side.other) (h.network.incoming (h.socket side).fd)).toList
          ++ (rest.filter fun packet => packet.sender = setup.address side.other).map
            (·.payload) := by
  rw [FakeNetwork.next, FakeNetwork.incoming, Hosts.queued]
  cases hqueue : h.network.buffers (setup.address side) with
  | nil =>
    rw [FakeNetwork.readFromSocket_empty (hh.address side) hqueue]
    refine ⟨[], ?_, rfl⟩
    have hsame : Function.update h.network.buffers (setup.address side) [] = h.network.buffers := by
      rw [← hqueue, Function.update_eq_self]
    rw [hsame]
    rfl
  | cons packet rest =>
    obtain ⟨stats, hread⟩ := FakeNetwork.readFromSocket_front (hh.address side) hqueue
      kJustAboveMtu
    rw [hread]
    refine ⟨rest, rfl, ?_⟩
    by_cases hsender : packet.sender = setup.address side.other
    · -- such a packet fits into the buffer
      have hmem : packet.payload ∈ h.queued setup side := by
        rw [Hosts.queued, hqueue]
        exact List.mem_map_of_mem (List.mem_filter.mpr ⟨List.mem_cons_self, by simpa using hsender⟩)
      have hshort := hh.short side.other packet.payload (by
        rw [Side.other_other]
        exact (hh.queued side).mem hmem)
      have htake : packet.payload.take kJustAboveMtu = packet.payload :=
        List.take_of_length_le (Nat.le_trans hshort (by decide))
      rw [List.filter_cons_of_pos (by simpa using hsender)]
      simp only [Option.map_some, receivedFrom, Option.bind_some, hsender, if_true, htake]
      rfl
    · rw [List.filter_cons_of_neg (by simpa using hsender)]
      simp only [Option.map_some, receivedFrom, Option.bind_some, hsender, if_false]
      rfl

/-- The datagrams that a tick sends to an address. -/
def sentTo (h : Hosts) (side : Side) (now : ℤ) (ip : IpAddress) : List (List UInt8) :=
  (((h.node side).endpoint.tick now (h.network.incoming (h.socket side).fd)).val.2.sent.filter
    fun sent => sent.1 = ip).map (·.2.payload)

theorem history_tick (h : Hosts) (side : Side) (now : ℤ) (ip : IpAddress) :
    (((h.tick side now).node side).history ip).packets
      = ((h.node side).history ip).packets ++ sentTo h side now ip := by
  show ((Side.set h.node side _ side).history ip).packets = _
  rw [Side.set_self]
  rfl

theorem node_tick_other (h : Hosts) (side : Side) (now : ℤ) :
    (h.tick side now).node side.other = h.node side.other := Side.set_other _ _ _

theorem sentTo_short (hh : Hosting setup mtu h)
    (hvalid : ConnectionManager.ValidLimit (setup.config side).limit) (now : ℤ) {ip : IpAddress}
    {packet : List UInt8} (hpacket : packet ∈ sentTo h side now ip) :
    packet.length ≤ kJustBelowMtu.toNat := by
  obtain ⟨⟨ip', sent⟩, hsent, rfl⟩ := List.mem_map.mp hpacket
  exact (Endpoint.sent_length_le (hh.endpoint side) hvalid (List.mem_of_mem_filter hsent)).2.1

/-- **The queues after a tick**: what was read is gone from the own one, and what was sent is at
the end of the other one, unless packets are dropped. -/
theorem queued_tick (hh : Hosting setup mtu h) (hmtu : 1400 ≤ mtu) (hmtu' : mtu < 2 ^ 31)
    (hvalid : ConnectionManager.ValidLimit (setup.config side).limit) (now : ℤ) :
    h.queued setup side
        = (receivedFrom (setup.address side.other) (h.network.incoming (h.socket side).fd)).toList
          ++ (h.tick side now).queued setup side ∧
      (h.tick side now).queued setup side.other = h.queued setup side.other
        ++ if h.network.shouldDropPackets then [] else sentTo h side now (setup.address side.other)
      := by
  obtain ⟨rest, hread, hqueued⟩ := hh.incoming_queued side
  have haddress : (h.network.next (.readFromSocket (h.socket side).fd kJustAboveMtu)).findIp
      (h.socket side).fd = some (setup.address side) :=
    FakeNetwork.findIp_next (hh.address side) _
  obtain ⟨-, -, -, -, hbuffers⟩ := FakeNetwork.sendAll_spec haddress
    ((h.node side).endpoint.tick now (h.network.incoming (h.socket side).fd)).val.2.sent
  have hne := address_ne setup side
  have hbuffers' : ∀ ip, (h.tick side now).network.buffers ip
      = Function.update h.network.buffers (setup.address side) rest ip ++
        if h.network.shouldDropPackets then []
        else (((h.node side).endpoint.tick now
          (h.network.incoming (h.socket side).fd)).val.2.sent.filter fun sent => sent.1 = ip).map
            fun sent => ⟨setup.address side, sent.2.payload⟩ := by
    intro ip
    have htruncate : ∀ packet ∈ sentTo h side now ip,
        packet.take (mtu % 2 ^ 64).toNat = packet := by
      intro packet hpacket
      have hshort := hh.sentTo_short hvalid now hpacket
      have hmtu : kJustBelowMtu.toNat = 1400 := rfl
      refine List.take_of_length_le ?_
      rw [Int.emod_eq_of_lt (by omega) (by omega)]
      omega
    refine (hbuffers ip).trans ?_
    rw [hread]
    refine congrArg _ ?_
    dsimp only
    split
    · rfl
    · refine List.map_congr_left fun sent hsent => ?_
      rw [FakeNetwork.truncate, hh.mtu, htruncate _ (List.mem_map_of_mem hsent)]
  constructor
  · -- nobody else writes to the own queue under the address of the other endpoint
    rw [hqueued, Hosts.queued, hbuffers', Function.update_self, List.filter_append]
    refine congrArg _ ?_
    have hnone : (if h.network.shouldDropPackets then [] else
        (((h.node side).endpoint.tick now (h.network.incoming (h.socket side).fd)).val.2.sent.filter
          fun sent => sent.1 = setup.address side).map fun sent =>
            (⟨setup.address side, sent.2.payload⟩ : PendingPacket)).filter
          (fun packet => packet.sender = setup.address side.other) = [] := by
      rw [List.filter_eq_nil_iff]
      intro packet hpacket
      split at hpacket
      · cases hpacket
      · obtain ⟨sent, -, rfl⟩ := List.mem_map.mp hpacket
        simpa using hne
    rw [hnone, List.append_nil]
  · rw [Hosts.queued, hbuffers', Function.update_of_ne (Ne.symm hne), List.filter_append,
      List.map_append, Side.other_other]
    refine congrArg₂ _ ?_ ?_
    · rw [Hosts.queued, Side.other_other]
    · split
      · rfl
      · rw [List.filter_map, List.map_map, sentTo]
        refine congrArg _ (List.filter_eq_self.mpr fun sent _ => ?_)
        simp

theorem tick (hh : Hosting setup mtu h) (hmtu : 1400 ≤ mtu) (hmtu' : mtu < 2 ^ 31)
    (hvalid : ConnectionManager.ValidLimit (setup.config side).limit) (now : ℤ) :
    Hosting setup mtu (h.tick side now) := by
  obtain ⟨hself, hother⟩ := hh.queued_tick hmtu hmtu' hvalid now
  have haddress := fun side' => FakeNetwork.findIp_next (hh.address side')
    (.readFromSocket (h.socket side).fd kJustAboveMtu)
  obtain ⟨hbindings, hnextFd, hmtu'', -, -⟩ := FakeNetwork.sendAll_spec (haddress side)
    ((h.node side).endpoint.tick now (h.network.incoming (h.socket side).fd)).val.2.sent
  refine ⟨?_, ?_, fun x => ?_, Side.forall_of side ?_ ?_, Side.forall_of side ?_ ?_,
    Side.forall_of side ?_ ?_⟩
  · exact (hh.sound.next _).sendAll _ _
  · refine hmtu''.trans ?_
    obtain ⟨rest, hread, -⟩ := hh.incoming_queued side
    rw [hread]
    exact hh.mtu
  · refine Eq.trans ?_ (haddress x)
    show FakeNetwork.findIp (FakeNetwork.sendAll _ _ _) _ = _
    rw [FakeNetwork.findIp, FakeNetwork.findIp, hbindings]
    rfl
  · show (neptun _ _).Reachable _ (Side.set h.node side _ side).endpoint
    rw [Side.set_self]
    exact .step (hh.endpoint side) trivial trivial
  · rw [node_tick_other]
    exact hh.endpoint side.other
  · rw [history_tick]
    intro packet hpacket
    rcases List.mem_append.mp hpacket with hold | hnew
    · exact hh.short side packet hold
    · exact hh.sentTo_short hvalid now hnew
  · rw [node_tick_other]
    exact hh.short side.other
  · rw [node_tick_other]
    refine List.Sublist.trans ?_ (hh.queued side)
    rw [hself]
    exact List.sublist_append_right _ _
  · rw [hother, Side.other_other, history_tick]
    have hqueued := hh.queued side.other
    rw [Side.other_other] at hqueued
    refine hqueued.append ?_
    split
    · exact List.nil_sublist _
    · exact List.Sublist.refl _

/-- A call that sends nothing. -/
theorem call (hh : Hosting setup mtu h) (side : Side) {call : EndpointCall}
    (hpackets : ∀ ip, (((h.node side).next call).history ip).packets
      = ((h.node side).history ip).packets) : Hosting setup mtu (h.call side call) := by
  have hnode : ∀ x ip, (((h.call side call).node x).history ip).packets
      = ((h.node x).history ip).packets := by
    intro x ip
    show ((Side.set h.node side _ x).history ip).packets = _
    by_cases hx : x = side
    · rw [hx, Side.set_self]
      exact hpackets ip
    · rw [Side.set, if_neg hx]
  refine ⟨hh.sound, hh.mtu, hh.address, fun x => ?_, fun x => ?_, fun x => ?_⟩
  · show (neptun _ _).Reachable _ (Side.set h.node side _ x).endpoint
    by_cases hx : x = side
    · rw [hx, Side.set_self]
      exact .step (hh.endpoint side) trivial trivial
    · rw [Side.set, if_neg hx]
      exact hh.endpoint x
  · rw [hnode]
    exact hh.short x
  · rw [hnode]
    exact hh.queued x

/-- What others do to the network. -/
theorem queued_other (hh : Hosting setup mtu h) {call : NetworkCall}
    (hen : h.Enabled (.other call)) (side : Side) :
    (h.next (.other call)).queued setup side = h.queued setup side := by
  rw [Hosts.queued, Hosts.queued]
  cases call with
  | udpSocketIpv4 => rfl
  | dropPackets shouldDropPackets => rfl
  | clearStats => rfl
  | bind fd ip =>
    rw [Hosts.next, FakeNetwork.next]
    rcases h.network.bind_cases fd ip with ⟨⟨e, herror⟩, -⟩ | ⟨hok, -⟩
    · rw [herror]
      rfl
    · rw [hok]
      rfl
  | sendTo fd ip payload =>
    rcases h.network.next_sendTo fd ip payload with hsame | ⟨sender, stats, hfd, hnext⟩
    · rw [Hosts.next, hsame]
    · rw [Hosts.next, hnext]
      dsimp only
      split
      · rfl
      · by_cases hip : setup.address side = ip
        · -- the sender has another address
          have hsender : sender ≠ setup.address side.other := fun heq =>
            hen side.other (hh.sound.findIp_inj (heq ▸ hfd) (hh.address side.other))
          rw [hip, Function.update_self, List.filter_append, List.map_append,
            List.filter_cons_of_neg (by simpa using hsender), List.filter_nil, List.map_nil,
            List.append_nil]
        · rw [Function.update_of_ne hip]
  | readFromSocket fd bufferSize =>
    rcases h.network.next_readFromSocket fd bufferSize with hsame | ⟨ip, packet, packets, stats,
      hfd, hqueue, hnext⟩
    · rw [Hosts.next, hsame]
    · rw [Hosts.next, hnext]
      have hip : setup.address side ≠ ip := fun heq =>
        hen side (hh.sound.findIp_inj hfd (heq ▸ hh.address side))
      dsimp only
      rw [Function.update_of_ne hip]

theorem other (hh : Hosting setup mtu h) {call : NetworkCall} (hen : h.Enabled (.other call)) :
    Hosting setup mtu (h.next (.other call)) := by
  refine ⟨hh.sound.next call, (FakeNetwork.next_mtu _ _).trans hh.mtu,
    fun side => FakeNetwork.findIp_next (hh.address side) call, hh.endpoint, hh.short,
    fun side => ?_⟩
  rw [hh.queued_other hen side]
  exact hh.queued side

end Hosting

/-- A socket that is bound has a new number, and a new address. -/
theorem UdpSocket.bind_ok {ip : IpAddress} {n n' : FakeNetwork} {socket : UdpSocket}
    (h : UdpSocket.bind ip n = (n', .ok socket)) :
    n' = (n.next .udpSocketIpv4).next (.bind socket.fd ip) ∧
      (∀ b ∈ n.bindings, b.1 ≠ ip ∧ b.2 ≠ socket.fd) ∧ n'.findIp socket.fd = some ip ∧
      n'.bindings = n.bindings ++ [(ip, socket.fd)] ∧ n'.buffers = n.buffers := by
  rw [bind] at h
  dsimp only at h
  rcases n.udpSocketIpv4.1.bind_cases n.udpSocketIpv4.2 ip with ⟨⟨e, herror⟩, -⟩ | ⟨hok, -, hnew⟩
  · rw [herror] at h
    cases h
  · rw [hok] at h
    cases h
    refine ⟨?_, hnew, ?_, rfl, rfl⟩
    · rw [FakeNetwork.next, FakeNetwork.next, hok]
      rfl
    · rw [FakeNetwork.findIp_append (b := (ip, n.udpSocketIpv4.2)) fun b hb => (hnew b hb).2]
      exact if_pos rfl

/-- A socket is bound to an address that has none. -/
theorem UdpSocket.bind_new {n : FakeNetwork} {ip : IpAddress}
    (hnew : ∀ b ∈ n.bindings, b.1 ≠ ip ∧ b.2 ≠ ⟨n.nextFd⟩) :
    UdpSocket.bind ip n = ({ n with
        nextFd := n.nextFd + 1
        bindings := n.bindings ++ [(ip, ⟨n.nextFd⟩)] },
      .ok ⟨⟨n.nextFd⟩, ip⟩) := by
  rw [bind]
  dsimp only
  rcases n.udpSocketIpv4.1.bind_cases n.udpSocketIpv4.2 ip with
    ⟨-, hclosed | ⟨b, hb, hused⟩⟩ | ⟨hok, -, -⟩
  · exact absurd (Int.lt_succ n.nextFd) (not_lt.mpr hclosed)
  · rcases hused with hip | hfd
    · exact absurd hip (hnew b hb).1
    · exact absurd hfd (hnew b hb).2
  · rw [hok]
    rfl

theorem Hosts.init_onNewNetwork (setup : Setup) (mtu : ℤ) :
    (hosts setup mtu).init (.onNewNetwork setup mtu) := by
  refine ⟨{ mtu := mtu }, _, .init rfl, UdpSocket.bind_new fun b hb => ?_,
    UdpSocket.bind_new fun b hb => ?_, rfl⟩
  · cases hb
  · rw [List.mem_singleton.mp hb]
    exact ⟨setup.address_ne, fun hfd => by cases hfd⟩

namespace Hosting

variable {setup : Setup} {mtu : ℤ} {h : Hosts}

/-- Nobody has sent from an address before it was bound. -/
theorem start (hinit : (hosts setup mtu).init h) : Hosting setup mtu h := by
  obtain ⟨n, n', hn, ha, hb, hnode⟩ := hinit
  have hsound := FakeNetwork.sound_of_reachable hn
  have hmtu : n.mtu = mtu := by
    refine hn.invariant (P := fun n => n.mtu = mtu) (fun n hn => ?_) fun n call _ ih _ _ => ?_
    · rw [hn]
    · exact (n.next_mtu call).trans ih
  obtain ⟨hn', hnew, hfind, hbindings, hbuffers⟩ := UdpSocket.bind_ok ha
  obtain ⟨hn'', hnew', hfind', hbindings', hbuffers'⟩ := UdpSocket.bind_ok hb
  have hsender : ∀ side ip, ∀ packet ∈ h.network.buffers ip,
      packet.sender ≠ setup.address side := by
    intro side ip packet hpacket heq
    rw [hbuffers', hbuffers] at hpacket
    obtain ⟨fd, hfd⟩ := hsound.senders ip packet hpacket
    cases side with
    | a => exact (hnew _ hfd).1 heq
    | b => exact (hnew' _ (hbindings ▸ List.mem_append_left _ hfd)).1 heq
  refine ⟨?_, ?_, fun side => ?_, fun side => ?_, fun side => ?_, fun side => ?_⟩
  · rw [hn'', hn']
    exact (((hsound.next _).next _).next _).next _
  · rw [hn'', hn']
    simp only [FakeNetwork.next_mtu]
    exact hmtu
  · cases side with
    | a =>
      rw [hn'']
      exact FakeNetwork.findIp_next (FakeNetwork.findIp_next hfind _) _
    | b => exact hfind'
  · rw [hnode]
    exact .init rfl
  · rw [hnode]
    intro packet hpacket
    cases hpacket
  · have hnone : h.queued setup side = [] := by
      rw [Hosts.queued, List.map_eq_nil_iff, List.filter_eq_nil_iff]
      intro packet hpacket
      simpa using hsender side.other _ packet hpacket
    rw [hnone]
    exact List.nil_sublist _

theorem next (hh : Hosting setup mtu h) (hmtu : 1400 ≤ mtu) (hmtu' : mtu < 2 ^ 31)
    (hvalid : ∀ side, ConnectionManager.ValidLimit (setup.config side).limit) {call : HostCall}
    (hen : h.Enabled call) : Hosting setup mtu (h.next call) := by
  cases call with
  | connect side ip now => exact hh.call side fun _ => rfl
  | sendReliableTo side ip fn now =>
    exact hh.call side (Observed.packets_sendReliableTo _ _ _ _)
  | sendUnreliableTo side ip fn now =>
    exact hh.call side (Observed.packets_sendUnreliableTo _ _ _ _)
  | tick side now => exact hh.tick hmtu hmtu' (hvalid side) now
  | other call => exact hh.other hen

end Hosting

theorem hosting_of_reachable {setup : Setup} {mtu : ℤ} (hmtu : 1400 ≤ mtu) (hmtu' : mtu < 2 ^ 31)
    (hvalid : ∀ side, ConnectionManager.ValidLimit (setup.config side).limit) {h : Hosts}
    (hr : (hosts setup mtu).Reachable System.anyAction h) : Hosting setup mtu h :=
  hr.invariant (P := Hosting setup mtu) (fun _ hinit => .start hinit)
    fun _ _ _ ih hen _ => ih.next hmtu hmtu' hvalid hen

/-! ### Delivery -/

section

variable {setup : Setup} {mtu : ℤ}

/-- **The endpoints on the network simulate the open network**: other sockets are strangers. -/
theorem hosts_simulate_openNetwork (hmtu : 1400 ≤ mtu) (hmtu' : mtu < 2 ^ 31)
    (hvalid : ∀ side, ConnectionManager.ValidLimit (setup.config side).limit) {h : Hosts}
    (hr : (hosts setup mtu).Reachable System.anyAction h) :
    (openNetwork setup).Reachable System.anyAction h.node := by
  refine hr.simulate Hosts.node (fun h hinit => ?_) fun h call hr _ _ => ?_
  · obtain ⟨n, n', -, -, -, hnode⟩ := hinit
    exact hnode
  · have hh := hosting_of_reachable hmtu hmtu' hvalid hr
    cases call with
    | connect side ip now => exact Or.inr ⟨(side, .connect ip now), trivial, rfl⟩
    | sendReliableTo side ip fn now =>
      exact Or.inr ⟨(side, .sendReliableTo ip fn now), trivial, rfl⟩
    | sendUnreliableTo side ip fn now =>
      exact Or.inr ⟨(side, .sendUnreliableTo ip fn now), trivial, rfl⟩
    | tick side now =>
      refine Or.inr ⟨(side, .tick now (h.network.incoming (h.socket side).fd)), ?_, rfl⟩
      -- what is found at the socket has waited in the queue
      obtain ⟨rest, -, hqueued⟩ := hh.incoming_queued side
      cases hincoming : h.network.incoming (h.socket side).fd with
      | none => trivial
      | some datagram =>
        obtain ⟨sender, payload⟩ := datagram
        intro hsender
        refine (hh.queued side).mem ?_
        rw [hqueued, hincoming, receivedFrom, Option.bind_some, if_pos hsender]
        exact List.mem_append_left _ List.mem_cons_self
    | other call => exact Or.inl rfl

/-- **Delivery over a `FakeNetwork`**, whoever else uses it and whatever packets it drops. -/
theorem delivery_over_fake_network (hmtu : 1400 ≤ mtu) (hmtu' : mtu < 2 ^ 31)
    (hrobust : ∀ side, (setup.config side).limit.Robust) {h : Hosts}
    (hr : (hosts setup mtu).Reachable System.anyAction h)
    (hcount : LinkBound (linkOf setup h.node)) (side : Side) :
    let sender := (h.node side).history (setup.address side.other)
    let receiver := (h.node side.other).history (setup.address side)
    receiver.reliableReceived = sender.reliableSent.take receiver.reliableReceived.length ∧
      receiver.unreliableReceived.Sublist sender.unreliableSent := by
  obtain ⟨t, ht⟩ := link_sound hrobust (openNetwork_simulates_link
    (hosts_simulate_openNetwork hmtu hmtu' (fun side => (hrobust side).validLimit) hr)) hcount
  exact ht.delivered side

end

/-- A stranger binds a socket and sends something to one of the endpoints. -/
theorem delivery_over_fake_network_with_stranger :
    let setup := Setup.alike ⟨0, ⟨0, 1400, 0, 1400⟩⟩ 5000
    let h := (hosts setup 1400).runFrom (.onNewNetwork setup 1400) [.connect .a ⟨2, 1⟩ 0,
      .tick .a 0, .tick .b 1, .tick .a 2, .sendReliableTo .a ⟨2, 1⟩ (.ofBytes [1, 2]) 3,
      .sendUnreliableTo .a ⟨2, 1⟩ (.ofBytes [3]) 3, .other .udpSocketIpv4,
      .other (.bind ⟨2⟩ ⟨9, 9⟩), .other (.sendTo ⟨2⟩ ⟨2, 1⟩ [7, 7, 7]), .tick .a 3, .tick .b 4,
      .tick .b 5, .tick .b 6]
    let sender := (h.node .a).history ⟨2, 1⟩
    let receiver := (h.node .b).history ⟨1, 1⟩
    (receiver.reliableReceived, receiver.unreliableReceived) = ([[1, 2]], [[3]]) ∧
      receiver.reliableReceived = sender.reliableSent.take receiver.reliableReceived.length ∧
      receiver.unreliableReceived.Sublist sender.unreliableSent := by
  refine ⟨by decide +kernel, ?_⟩
  have hrobust : BandwidthLimit.Robust ⟨0, 1400, 0, 1400⟩ := by decide
  refine @delivery_over_fake_network (Setup.alike ⟨0, ⟨0, 1400, 0, 1400⟩⟩ 5000) 1400 (by decide)
    (by decide) (fun _ => hrobust) _
    (System.runFrom_reachable (.init (Hosts.init_onNewNetwork _ _)) ?_) ?_ .a
  · refine ⟨trivial, trivial, trivial, trivial, trivial, trivial, trivial, trivial, trivial,
      trivial, trivial, trivial, trivial, trivial, trivial, trivial, fun side => ?_, trivial,
      trivial, trivial, trivial, trivial, trivial, trivial, trivial, trivial, trivial⟩
    cases side <;> decide +kernel
  · intro side
    cases side <;> decide +kernel

end Neptun
