/-
Packet ids in runs.

An endpoint numbers the packets to every address on its own.  As long as fewer
than 2^32 datagrams were sent, the sender, the receiver and the packet id
identify a datagram.

* `World.Numbered` — all ids that were sent to an address are below the next
  one, and no two datagrams have the same;
* `World.Numbered.next` — every call keeps this.
-/
import Neptun.AckLog
import Neptun.EndpointRuns
import Neptun.StatusRuns

namespace Neptun

/-! ### The next id of a peer -/

namespace Peer

variable {p : Peer} {config : ConnectionManagerConfig} {mem : Memory} {now : ℤ} {packet : Packet}

/-- The id of the next packet. -/
def nextId (p : Peer) : PacketId := p.packetDeliveryManager.nextOutgoingPacketId

theorem dropOldPackets_nextId (p : Peer) (now : ℤ) :
    (p.dropOldPackets now).val.1.nextId = p.nextId := by
  rw [nextId, dropOldPackets_delivery]
  rfl

theorem read_nextId (config : ConnectionManagerConfig) (p : Peer) (b : Span) (mem : Memory) :
    (p.read config b mem).val.1.nextId = p.nextId := by
  rw [nextId, read_delivery, PacketDeliveryManager.processRead_nextOutgoing]
  rfl

theorem write_nextId_of_none (h : (p.write config mem now).val.2.2 = none) :
    (p.write config mem now).val.1.nextId = p.nextId := by
  rcases write_cases config p mem now with hval | ⟨-, hval⟩
  · rw [hval]
    rfl
  · rw [hval] at h
    cases h

/-- A packet takes the next id. -/
theorem write_nextId_of_some (h : (p.write config mem now).val.2.2 = some packet) :
    datagramId packet.payload = p.nextId ∧
      (p.write config mem now).val.1.nextId = p.nextId + 1 := by
  constructor
  · rw [datagramId_of_header (write_wellFormed h).header, PacketDeliveryManager.nextHeader_id]
    rfl
  · rcases write_cases config p mem now with hval | ⟨-, hval⟩
    · rw [hval] at h
      cases h
    · rw [hval, nextId, (writeToPeer_frame _ mem now _).1, PacketDeliveryManager.nextHeader_frame]
      rfl

/-- Ids grow, unless they wrap around. -/
theorem nextId_write (h : (p.write config mem now).val.2.2 = some packet)
    (hlt : p.nextId.toNat + 1 < 2 ^ 32) :
    (p.write config mem now).val.1.nextId.toNat = p.nextId.toNat + 1 := by
  rw [(write_nextId_of_some h).2, UInt32.toNat_add, UInt32.toNat_one, Nat.mod_eq_of_lt hlt]

end Peer

/-! ### Runs -/

namespace World

open PeerMap

/-- The ids of the datagrams to an address are below the next one, and different
from each other. -/
structure Numbered (setup : Setup) (w : World) : Prop where
  distinct : ∀ side, (w.endpoint side).Distinct
  nextId_le : ∀ side, All (fun _ p => p.nextId.toNat ≤ w.sent.length) (w.endpoint side).peers
  fresh : ∀ dg ∈ w.sent, ∀ side, setup.address side = dg.sender →
    ∃ p, (w.endpoint side).peers.find dg.receiver = some p ∧
      (datagramId dg.packet.payload).toNat < p.nextId.toNat
  unique : ∀ dg ∈ w.sent, ∀ dg' ∈ w.sent, dg.sender = dg'.sender →
    dg.receiver = dg'.receiver →
    datagramId dg.packet.payload = datagramId dg'.packet.payload → dg = dg'

theorem numbered_init (setup : Setup) : (init setup).Numbered setup where
  distinct := fun _ => List.nodup_nil
  nextId_le := fun _ => all_nil
  fresh := by
    intro dg hdg
    cases hdg
  unique := by
    intro dg hdg
    cases hdg

variable {setup : Setup} {w : World} {side : Side} {now : ℤ} {incoming : Option Datagram}

/-- What a tick finds at the socket. -/
def found (incoming : Option Datagram) : Option (IpAddress × List UInt8) :=
  incoming.map fun dg => (dg.sender, dg.packet.payload)

theorem sent_tick (setup : Setup) (w : World) (side : Side) (now : ℤ)
    (incoming : Option Datagram) :
    (w.next setup (side, .tick now incoming)).sent
      = w.sent ++ datagrams setup side ((w.endpoint side).tick now (found incoming)).val.2 := rfl

theorem endpoint_tick (setup : Setup) (w : World) (side : Side) (now : ℤ)
    (incoming : Option Datagram) :
    (w.next setup (side, .tick now incoming)).endpoint side
      = ((w.endpoint side).tick now (found incoming)).val.1 := extend_endpoint_self _ _ _ _ _

namespace Numbered

/-- The ids when a tick begins to write. -/
theorem beforeWrite_nextId_le (h : w.Numbered setup) (side : Side) (now : ℤ)
    (incoming : Option (IpAddress × List UInt8)) :
    All (fun _ p => p.nextId.toNat ≤ w.sent.length)
      ((w.endpoint side).beforeWrite now incoming).peers := by
  refine Endpoint.beforeWrite_all (fun _ _ => Nat.zero_le _) ?_ ?_ (h.nextId_le side) now incoming
  · intro ip p now hp
    rw [Peer.dropOldPackets_nextId]
    exact hp
  · intro ip p b mem hp
    rw [Peer.read_nextId]
    exact hp

/-- An entry after a tick: its next id has grown by the packets that were sent
to its address. -/
theorem tick_nextId (h : w.Numbered setup)
    (hcount : (w.next setup (side, .tick now incoming)).sent.length < 2 ^ 32) {ip : IpAddress}
    {p : Peer}
    (hp : ((w.endpoint side).tick now (found incoming)).val.1.peers.find ip = some p) :
    ∃ q, ((w.endpoint side).beforeWrite now (found incoming)).peers.find ip = some q ∧
      q.nextId.toNat ≤ p.nextId.toNat ∧ p.nextId.toNat ≤ q.nextId.toNat
        + ((w.endpoint side).tick now (found incoming)).val.2.sent.length ∧
      ∀ packet, (ip, packet) ∈ ((w.endpoint side).tick now (found incoming)).val.2.sent →
        datagramId packet.payload = q.nextId ∧ q.nextId.toNat < p.nextId.toNat := by
  obtain ⟨q, mem, hq, rfl, hsent⟩ := (h.distinct side).tick_find hp
  have hle := (h.beforeWrite_nextId_le side now (found incoming)).find hq
  rw [sent_tick, List.length_append, datagrams, List.length_map] at hcount
  refine ⟨q, hq, ?_⟩
  cases hwrite : (q.write (w.endpoint side).connectionManagerConfig mem now).val.2.2 with
  | none =>
    rw [Peer.write_nextId_of_none hwrite]
    refine ⟨Nat.le_refl _, Nat.le_add_right _ _, fun packet hpacket => ?_⟩
    rw [hsent, hwrite] at hpacket
    cases hpacket
  | some packet =>
    have hpos := List.length_pos_of_mem ((hsent packet).mpr hwrite)
    rw [Peer.nextId_write hwrite (by omega)]
    refine ⟨Nat.le_succ _, by omega, fun packet' hpacket' => ⟨?_, Nat.lt_succ_self _⟩⟩
    exact (Peer.write_nextId_of_some ((hsent packet').mp hpacket')).1

/-- The entry of an address before a tick, and when the tick begins to write. -/
theorem beforeWrite_nextId {n : Endpoint} {ip : IpAddress} {p q : Peer}
    {incoming : Option (IpAddress × List UInt8)} (hp : n.peers.find ip = some p)
    (hq : (n.beforeWrite now incoming).peers.find ip = some q) : q.nextId = p.nextId := by
  obtain ⟨q', hq', hcases⟩ := Endpoint.find_beforeWrite hp now incoming
  obtain rfl : q' = q := Option.some_inj.mp (hq'.symm.trans hq)
  rcases hcases with rfl | ⟨b, mem, rfl⟩
  · exact Peer.dropOldPackets_nextId p now
  · rw [Peer.read_nextId, Peer.dropOldPackets_nextId]

/-- A call that changes one entry, and not its ids. -/
theorem update (h : w.Numbered setup) (ip : IpAddress) (now : ℤ) {n : Endpoint}
    {entry : LogEntry} {f : Peer → Peer} (hf : ∀ p, (f p).nextId = p.nextId)
    (hpeers : n.peers = ((w.endpoint side).findOrCreatePeer 0 ip now).1.peers.update ip
      (f ((w.endpoint side).findOrCreatePeer 0 ip now).2)) :
    (w.extend side n [] entry).Numbered setup := by
  have hsent : (w.extend side n [] entry).sent = w.sent := List.append_nil _
  refine ⟨fun s => ?_, fun s => ?_, fun dg hdg s hs => ?_, ?_⟩
  · by_cases heq : s = side
    · subst heq
      rw [extend_endpoint_self, Endpoint.Distinct, hpeers, keys_update]
      exact (h.distinct s).findOrCreatePeer 0 ip now
    · rw [extend_endpoint_of_ne heq]
      exact h.distinct s
  · rw [hsent]
    by_cases heq : s = side
    · subst heq
      rw [extend_endpoint_self, hpeers]
      obtain ⟨hall, hp⟩ := Endpoint.findOrCreatePeer_all ip
        (h.nextId_le s) (Nat.zero_le _)
      refine hall.update ?_
      rw [hf]
      exact hp
    · rw [extend_endpoint_of_ne heq]
      exact h.nextId_le s
  · rw [hsent] at hdg
    obtain ⟨p, hp, hlt⟩ := h.fresh dg hdg s hs
    by_cases heq : s = side
    · subst heq
      rw [extend_endpoint_self, hpeers, Endpoint.find_update_created hp]
      refine ⟨_, rfl, ?_⟩
      split
      · rw [hf]
        exact hlt
      · exact hlt
    · rw [extend_endpoint_of_ne heq]
      exact ⟨p, hp, hlt⟩
  · rw [hsent]
    exact h.unique

/-- A new datagram has the next id of its address. -/
theorem tick_sent (h : w.Numbered setup)
    (hcount : (w.next setup (side, .tick now incoming)).sent.length < 2 ^ 32) {ip : IpAddress}
    {packet : Packet}
    (hpacket : (ip, packet) ∈ ((w.endpoint side).tick now (found incoming)).val.2.sent) :
    ∃ p q, ((w.endpoint side).tick now (found incoming)).val.1.peers.find ip = some p ∧
      ((w.endpoint side).beforeWrite now (found incoming)).peers.find ip = some q ∧
      datagramId packet.payload = q.nextId ∧ q.nextId.toNat < p.nextId.toNat := by
  obtain ⟨q₀, mem₀, -, hp, -⟩ := (h.distinct side).tick_sent hpacket
  obtain ⟨q, hq, -, -, hids⟩ := h.tick_nextId hcount hp
  exact ⟨_, q, hp, hq, hids packet hpacket⟩

/-- An old datagram has not. -/
theorem lt_nextId (h : w.Numbered setup) {dg : Datagram} (hdg : dg ∈ w.sent)
    (hsender : setup.address side = dg.sender) {q : Peer}
    (hq : ((w.endpoint side).beforeWrite now (found incoming)).peers.find dg.receiver = some q) :
    (datagramId dg.packet.payload).toNat < q.nextId.toNat := by
  obtain ⟨p, hp, hlt⟩ := h.fresh dg hdg side hsender
  rw [beforeWrite_nextId hp hq]
  exact hlt

theorem tick (h : w.Numbered setup)
    (hcount : (w.next setup (side, .tick now incoming)).sent.length < 2 ^ 32) :
    (w.next setup (side, .tick now incoming)).Numbered setup := by
  have hother : ∀ s, s ≠ side →
      (w.next setup (side, .tick now incoming)).endpoint s = w.endpoint s :=
    fun s hs => next_endpoint_of_ne setup w hs _
  have hdistinct : ∀ s, ((w.next setup (side, .tick now incoming)).endpoint s).Distinct := by
    intro s
    by_cases heq : s = side
    · rw [heq, endpoint_tick]
      exact (h.distinct side).tick now _
    · rw [hother s heq]
      exact h.distinct s
  refine ⟨hdistinct, fun s => ?_, ?_, ?_⟩
  · rw [sent_tick, List.length_append, datagrams, List.length_map]
    by_cases heq : s = side
    -- the entry has advanced by at most the one packet that was sent
    · rw [heq, endpoint_tick]
      intro e he
      have hkeys := hdistinct side
      rw [endpoint_tick] at hkeys
      obtain ⟨q, hq, -, hle, -⟩ := h.tick_nextId hcount (find_of_mem hkeys he)
      have hq' := (h.beforeWrite_nextId_le side now (found incoming)).find hq
      omega
    · rw [hother s heq]
      exact (h.nextId_le s).mono fun _ p hp => Nat.le_trans hp (Nat.le_add_right _ _)
  · intro dg hdg s hs
    rcases List.mem_append.mp hdg with hold | hnew
    · -- an old datagram
      obtain ⟨p, hp, hlt⟩ := h.fresh dg hold s hs
      by_cases heq : s = side
      · subst heq
        obtain ⟨q, hq, -⟩ := Endpoint.find_beforeWrite hp now (found incoming)
        obtain ⟨mem, hfind, -⟩ := (h.distinct s).tick_entry now (found incoming) hq
        obtain ⟨q', hq', hle, -⟩ := h.tick_nextId hcount hfind
        rw [endpoint_tick]
        exact ⟨_, hfind, Nat.lt_of_lt_of_le (h.lt_nextId hold hs hq') hle⟩
      · rw [hother s heq]
        exact ⟨p, hp, hlt⟩
    · -- a new one
      obtain ⟨⟨ip, packet⟩, hpacket, rfl⟩ := List.mem_map.mp hnew
      obtain rfl : s = side := setup.address_injective hs
      obtain ⟨p, q, hp, -, hid, hlt⟩ := h.tick_sent hcount hpacket
      rw [endpoint_tick]
      refine ⟨p, hp, ?_⟩
      rw [hid]
      exact hlt
  · -- an old id is below a new one, and no tick sends two packets to an address
    have hnew : ∀ dg ∈ w.sent, ∀ ip packet,
        (ip, packet) ∈ ((w.endpoint side).tick now (found incoming)).val.2.sent →
        dg.sender = setup.address side → dg.receiver = ip →
        datagramId dg.packet.payload ≠ datagramId packet.payload := by
      intro dg hdg ip packet hpacket hsender hreceiver hid
      subst hreceiver
      obtain ⟨-, q, -, hq, hnext, -⟩ := h.tick_sent hcount hpacket
      have hlt := h.lt_nextId hdg hsender.symm hq
      rw [hid, hnext] at hlt
      exact Nat.lt_irrefl _ hlt
    intro dg hdg dg' hdg' hsender hreceiver hid
    rcases List.mem_append.mp hdg with hdg | hdg <;>
      rcases List.mem_append.mp hdg' with hdg' | hdg'
    · exact h.unique dg hdg dg' hdg' hsender hreceiver hid
    · obtain ⟨⟨ip, packet⟩, hpacket, rfl⟩ := List.mem_map.mp hdg'
      exact absurd hid (hnew dg hdg ip packet hpacket hsender hreceiver)
    · obtain ⟨⟨ip, packet⟩, hpacket, rfl⟩ := List.mem_map.mp hdg
      exact absurd hid.symm (hnew dg' hdg' ip packet hpacket hsender.symm hreceiver.symm)
    · obtain ⟨⟨ip, packet⟩, hpacket, rfl⟩ := List.mem_map.mp hdg
      obtain ⟨⟨ip', packet'⟩, hpacket', rfl⟩ := List.mem_map.mp hdg'
      obtain rfl : ip = ip' := hreceiver
      -- both were sent by this tick, to the same address
      obtain ⟨q₀, mem₀, -, hp, -⟩ := (h.distinct side).tick_sent hpacket
      obtain ⟨q, mem, -, -, hsent⟩ := (h.distinct side).tick_find hp
      have heq := ((hsent packet).mp hpacket).symm.trans ((hsent packet').mp hpacket')
      rw [Option.some_inj.mp heq]

theorem next (h : w.Numbered setup) (call : Side × Action)
    (hcount : (w.next setup call).sent.length < 2 ^ 32) : (w.next setup call).Numbered setup := by
  obtain ⟨side, action⟩ := call
  cases action with
  | connect ip now => exact h.update ip now (f := fun p => { p with
      connectionManager := p.connectionManager.connect }) (fun _ => rfl) rfl
  | sendReliableTo ip fn now => exact h.update ip now (f := fun p => { p with
      reliableStream := (p.reliableStream.send fn).val }) (fun _ => rfl) rfl
  | sendUnreliableTo ip fn now => exact h.update ip now (f := fun p => { p with
      unreliableStream := (p.unreliableStream.send fn).val }) (fun _ => rfl) rfl
  | tick now incoming => exact h.tick hcount

end Numbered

end World

end Neptun
