/-
Runs of a single endpoint.

The calls come in any order, with any clock values; a tick finds any bytes from
any address at the socket, or nothing.

* `Endpoint.next_all` — a property of all entries that every call keeps;
* `Endpoint.Distinct` — no address has two entries, so that the entry that is
  found is the one that is written to;
* `World.reachable_next` — the endpoints of a world run like this.
-/
import Neptun.Peers
import Neptun.World

namespace Neptun

namespace PeerMap

variable {peers : PeerMap} {ip : IpAddress} {p : Peer}

/-- The addresses of the entries. -/
def keys (peers : PeerMap) : List IpAddress := peers.map Prod.fst

theorem find_eq_none_iff : peers.find ip = none ↔ ip ∉ peers.keys := by
  induction peers with
  | nil => simp [PeerMap.find, keys]
  | cons e peers ih =>
    rw [PeerMap.find, keys, List.map_cons, List.mem_cons, not_or]
    split
    · next hkey =>
      refine iff_of_false (by simp) fun h => h.1 hkey.symm
    · next hne =>
      rw [ih, keys]
      exact ⟨fun h => ⟨Ne.symm hne, h⟩, fun h => h.2⟩

theorem keys_insert_perm (peers : PeerMap) (ip : IpAddress) (p : Peer) :
    (peers.insert ip p).keys.Perm (ip :: peers.keys) := by
  induction peers with
  | nil => exact List.Perm.refl _
  | cons e peers ih =>
    rw [PeerMap.insert]
    split
    · exact List.Perm.refl _
    · exact (List.Perm.cons e.1 ih).trans (List.Perm.swap ip e.1 _)

theorem keys_update (peers : PeerMap) (ip : IpAddress) (p : Peer) :
    (peers.update ip p).keys = peers.keys := by
  induction peers with
  | nil => rfl
  | cons e peers ih =>
    rw [PeerMap.update]
    split
    · rfl
    · exact congrArg (List.cons e.1) ih

/-- Where no address has two entries, every entry is found. -/
theorem find_of_mem (h : peers.keys.Nodup) (hmem : (ip, p) ∈ peers) : peers.find ip = some p := by
  induction peers with
  | nil => cases hmem
  | cons e peers ih =>
    obtain ⟨hnot, hnodup⟩ := List.nodup_cons.mp h
    rw [PeerMap.find]
    rcases List.mem_cons.mp hmem with rfl | hmem
    · exact if_pos rfl
    · rw [if_neg]
      · exact ih hnodup hmem
      · intro hkey
        refine hnot ?_
        rw [hkey]
        exact List.mem_map_of_mem (f := Prod.fst) hmem

theorem mem_of_find (h : peers.find ip = some p) : (ip, p) ∈ peers := by
  induction peers with
  | nil => cases h
  | cons e peers ih =>
    rw [PeerMap.find] at h
    split at h
    · next hkey =>
      cases h
      rw [← hkey]
      exact List.mem_cons_self
    · exact List.mem_cons_of_mem _ (ih h)

end PeerMap

namespace Endpoint

open PeerMap

variable {n : Endpoint} {now : ℤ} {Q : IpAddress → Peer → Prop}

/-! ### The second half of a tick -/

/-- The endpoint when a tick begins to write. -/
def beforeWrite (n : Endpoint) (now : ℤ) (incoming : Option (IpAddress × List UInt8)) :
    Endpoint :=
  (read { n with peers := (dropOldPackets now n.peers).val.1 } now incoming).val.1

/-- What a tick writes: the entries afterwards, the network buffer and the
packets. -/
def written (n : Endpoint) (now : ℤ) (incoming : Option (IpAddress × List UInt8)) :
    PeerMap × Memory × List (IpAddress × Packet) :=
  (write n.connectionManagerConfig now (n.beforeWrite now incoming).peers
    (n.beforeWrite now incoming).networkBuffer).val

theorem beforeWrite_config (n : Endpoint) (now : ℤ)
    (incoming : Option (IpAddress × List UInt8)) :
    (n.beforeWrite now incoming).connectionManagerConfig = n.connectionManagerConfig := by
  rw [beforeWrite]
  cases incoming with
  | none => rfl
  | some datagram => rw [(read_some _ now datagram.1 datagram.2).1]

theorem tick_written (n : Endpoint) (now : ℤ) (incoming : Option (IpAddress × List UInt8)) :
    (n.tick now incoming).val.1.peers = (n.written now incoming).1 ∧
      (n.tick now incoming).val.2.sent = (n.written now incoming).2.2 := by
  rw [written, ← beforeWrite_config n now incoming]
  exact ⟨rfl, rfl⟩

/-! ### Distinct addresses -/

/-- No address has two entries. -/
def Distinct (n : Endpoint) : Prop := n.peers.keys.Nodup

theorem Distinct.findOrCreatePeer (h : n.Distinct) (id : PacketId) (ip : IpAddress) (now : ℤ) :
    (n.findOrCreatePeer id ip now).1.Distinct := by
  rw [Endpoint.findOrCreatePeer]
  cases hfind : n.peers.find ip with
  | none =>
    show (n.peers.insert ip _).keys.Nodup
    rw [(keys_insert_perm _ _ _).nodup_iff]
    exact List.nodup_cons.mpr ⟨find_eq_none_iff.mp hfind, h⟩
  | some p => exact h

theorem keys_dropOldPackets (now : ℤ) (peers : PeerMap) :
    (dropOldPackets now peers).val.1.keys = peers.keys := by
  induction peers with
  | nil => rfl
  | cons e peers ih => exact congrArg (List.cons e.1) ih

theorem keys_write (config : ConnectionManagerConfig) (now : ℤ) (peers : PeerMap)
    (mem : Memory) : (write config now peers mem).val.1.keys = peers.keys := by
  induction peers generalizing mem with
  | nil => rfl
  | cons e peers ih => exact congrArg (List.cons e.1) (ih _)

/-- What the second loop does with the entry of one address, if no address has two
entries. -/
theorem write_entry (config : ConnectionManagerConfig) (now : ℤ) {peers : PeerMap}
    (hkeys : peers.keys.Nodup) {ip : IpAddress} {p : Peer} (hp : peers.find ip = some p)
    (mem : Memory) :
    ∃ mem', (write config now peers mem).val.1.find ip = some (p.write config mem' now).val.1 ∧
      (write config now peers mem).val.2.2.filter (fun sent => sent.1 = ip)
        = (p.write config mem' now).val.2.2.toList.map fun packet => (ip, packet) := by
  induction peers generalizing mem with
  | nil => cases hp
  | cons e peers ih =>
    obtain ⟨key, q⟩ := e
    obtain ⟨hnot, hnodup⟩ := List.nodup_cons.mp hkeys
    simp only [write, Checked.val_bind, Checked.val_pure, PeerMap.find] at hp ⊢
    rw [List.filter_append]
    split at hp
    · next hkey =>
      -- the other entries have other addresses
      subst hkey
      cases hp
      refine ⟨mem, if_pos rfl, ?_⟩
      rw [List.filter_eq_self.mpr (by simp), List.filter_eq_nil_iff.mpr, List.append_nil]
      rintro ⟨ip, packet⟩ hpacket hip
      obtain ⟨q', -, hq', -⟩ := mem_sent_of_write hpacket
      refine hnot (List.mem_map.mpr ⟨_, hq', ?_⟩)
      simpa using hip
    · next hkey =>
      obtain ⟨mem', hfind, hsent⟩ := ih hnodup hp (q.write config mem now).val.2.1
      refine ⟨mem', (if_neg hkey).trans hfind, ?_⟩
      rw [hsent, List.filter_eq_nil_iff.mpr (by simp [hkey]), List.nil_append]

theorem Distinct.beforeWrite (h : n.Distinct) (now : ℤ)
    (incoming : Option (IpAddress × List UInt8)) : (n.beforeWrite now incoming).Distinct := by
  have hdropped : Distinct { n with peers := (dropOldPackets now n.peers).val.1 } := by
    show (dropOldPackets now n.peers).val.1.keys.Nodup
    rw [keys_dropOldPackets]
    exact h
  rw [Endpoint.beforeWrite]
  cases incoming with
  | none => exact hdropped
  | some datagram =>
    rw [(read_some _ now datagram.1 datagram.2).1]
    show (PeerMap.update _ _ _).keys.Nodup
    rw [keys_update]
    exact hdropped.findOrCreatePeer 0 datagram.1 now

theorem Distinct.tick (h : n.Distinct) (now : ℤ)
    (incoming : Option (IpAddress × List UInt8)) : (n.tick now incoming).val.1.Distinct := by
  rw [Distinct, (n.tick_written now incoming).1, written, keys_write]
  exact h.beforeWrite now incoming

/-- The entry that an address has when a tick begins to write, and what is written
for it. -/
theorem Distinct.tick_entry (h : n.Distinct) (now : ℤ) (incoming : Option (IpAddress × List UInt8))
    {ip : IpAddress} {p : Peer} (hp : (n.beforeWrite now incoming).peers.find ip = some p) :
    ∃ mem, (n.tick now incoming).val.1.peers.find ip
        = some (p.write n.connectionManagerConfig mem now).val.1 ∧
      (n.tick now incoming).val.2.sent.filter (fun sent => sent.1 = ip)
        = (p.write n.connectionManagerConfig mem now).val.2.2.toList.map
            fun packet => (ip, packet) := by
  obtain ⟨hpeers, hsent⟩ := n.tick_written now incoming
  rw [hpeers, hsent]
  exact write_entry _ now (h.beforeWrite now incoming) hp _

/-- The packets to one address, where at most one is sent. -/
theorem mem_sent_iff {sent : List (IpAddress × Packet)} {ip : IpAddress} {written : Option Packet}
    (h : sent.filter (fun sent => sent.1 = ip) = written.toList.map fun packet => (ip, packet))
    (packet : Packet) : (ip, packet) ∈ sent ↔ written = some packet := by
  have hfilter : (ip, packet) ∈ sent ↔ (ip, packet) ∈ sent.filter fun sent => sent.1 = ip := by
    simp
  rw [hfilter, h]
  simp

/-- A packet that was sent is one that was written for the entry of its address. -/
theorem Distinct.tick_sent (h : n.Distinct) {now : ℤ} {incoming : Option (IpAddress × List UInt8)}
    {ip : IpAddress} {packet : Packet} (hpacket : (ip, packet) ∈ (n.tick now incoming).val.2.sent) :
    ∃ p mem, (n.beforeWrite now incoming).peers.find ip = some p ∧
      (n.tick now incoming).val.1.peers.find ip
        = some (p.write n.connectionManagerConfig mem now).val.1 ∧
      (p.write n.connectionManagerConfig mem now).val.2.2 = some packet := by
  have hwritten := hpacket
  rw [(n.tick_written now incoming).2] at hwritten
  obtain ⟨p, -, hp, -⟩ := mem_sent_of_write hwritten
  have hfind := find_of_mem (h.beforeWrite now incoming) hp
  obtain ⟨mem, hafter, hfilter⟩ := h.tick_entry now incoming hfind
  exact ⟨p, mem, hfind, hafter, (mem_sent_iff hfilter packet).mp hpacket⟩

/-! ### One entry -/

/-- What a change of one entry leaves at an address that has an entry. -/
theorem find_update_created {ip : IpAddress} {p : Peer} (hp : n.peers.find ip = some p)
    (target : IpAddress) (now : ℤ) (f : Peer → Peer) :
    ((n.findOrCreatePeer 0 target now).1.peers.update target
      (f (n.findOrCreatePeer 0 target now).2)).find ip
        = some (if ip = target then f p else p) := by
  rw [find_update (by rw [n.find_findOrCreatePeer 0 target now]; rfl)]
  by_cases htarget : ip = target
  · subst htarget
    rw [if_pos rfl, if_pos rfl, findOrCreatePeer, hp]
  · rw [if_neg htarget, if_neg htarget, findOrCreatePeer]
    cases hfind : n.peers.find target with
    | none => exact (find_insert hfind ip).trans ((if_neg htarget).trans hp)
    | some q => exact hp

/-- The entry of an address when a tick begins to write: it has been read on, or
not. -/
theorem find_beforeWrite {ip : IpAddress} {p : Peer} (hp : n.peers.find ip = some p) (now : ℤ)
    (incoming : Option (IpAddress × List UInt8)) :
    ∃ q, (n.beforeWrite now incoming).peers.find ip = some q ∧
      (q = (p.dropOldPackets now).val.1 ∨ ∃ b mem,
        q = ((p.dropOldPackets now).val.1.read n.connectionManagerConfig b mem).val.1) := by
  have hdropped : (dropOldPackets now n.peers).val.1.find ip
      = some (p.dropOldPackets now).val.1 := by
    rw [find_dropOldPackets, hp]
    rfl
  rw [beforeWrite]
  cases incoming with
  | none => exact ⟨_, hdropped, Or.inl rfl⟩
  | some datagram =>
    obtain ⟨sender, payload⟩ := datagram
    rw [(read_some _ now sender payload).1]
    refine ⟨_, find_update_created (n := { n with peers := (dropOldPackets now n.peers).val.1 })
      hdropped sender now fun q => (q.read n.connectionManagerConfig
        ⟨0, (payload.take kJustAboveMtu).length⟩
        (n.networkBuffer.storeList 0 (payload.take kJustAboveMtu))).val.1, ?_⟩
    split
    · exact Or.inr ⟨_, _, rfl⟩
    · exact Or.inl rfl

/-- The entry of the sender when a tick begins to write. -/
theorem find_beforeWrite_sender (n : Endpoint) (now : ℤ) (sender : IpAddress)
    (payload : List UInt8) :
    (n.beforeWrite now (some (sender, payload))).peers.find sender
      = some ((n.readEntry now sender).read n.connectionManagerConfig
          ⟨0, (payload.take kJustAboveMtu).length⟩
          (n.networkBuffer.storeList 0 (payload.take kJustAboveMtu))).val.1 := by
  rw [beforeWrite, (read_some _ now sender payload).1, ← findOrCreatePeer_dropOldPackets]
  refine (find_update ?_ sender).trans (if_pos rfl)
  rw [find_findOrCreatePeer]
  rfl

/-- An entry after a tick, and the packet that was sent to its address. -/
theorem Distinct.tick_find (h : n.Distinct) {now : ℤ}
    {incoming : Option (IpAddress × List UInt8)} {ip : IpAddress} {p : Peer}
    (hp : (n.tick now incoming).val.1.peers.find ip = some p) :
    ∃ q mem, (n.beforeWrite now incoming).peers.find ip = some q ∧
      p = (q.write n.connectionManagerConfig mem now).val.1 ∧
      ∀ packet, (ip, packet) ∈ (n.tick now incoming).val.2.sent ↔
        (q.write n.connectionManagerConfig mem now).val.2.2 = some packet := by
  have hkey : ip ∈ (n.beforeWrite now incoming).peers.keys := by
    have hmem := List.mem_map_of_mem (f := Prod.fst) (mem_of_find hp)
    rw [(n.tick_written now incoming).1] at hmem
    rw [← keys_write n.connectionManagerConfig now]
    exact hmem
  obtain ⟨q, hq⟩ : ∃ q, (n.beforeWrite now incoming).peers.find ip = some q := by
    refine Option.ne_none_iff_exists'.mp fun hnone => ?_
    exact find_eq_none_iff.mp hnone hkey
  obtain ⟨mem, hfind, hfilter⟩ := h.tick_entry now incoming hq
  exact ⟨q, mem, hq, Option.some_inj.mp (hp.symm.trans hfind), mem_sent_iff hfilter⟩

/-! ### Calls -/

end Endpoint

/-- A call of an endpoint. -/
inductive EndpointCall
  | connect (ip : IpAddress) (now : ℤ)
  | sendReliableTo (ip : IpAddress) (fn : WriteToBufferFn) (now : ℤ)
  | sendUnreliableTo (ip : IpAddress) (fn : WriteToBufferFn) (now : ℤ)
  | tick (now : ℤ) (incoming : Option (IpAddress × List UInt8))

namespace Endpoint

open PeerMap

variable {n : Endpoint} {now : ℤ} {Q : IpAddress → Peer → Prop}

def next (n : Endpoint) : EndpointCall → Endpoint
  | .connect ip now => n.connect ip now
  | .sendReliableTo ip fn now => (n.sendReliableTo ip fn now).val
  | .sendUnreliableTo ip fn now => (n.sendUnreliableTo ip fn now).val
  | .tick now incoming => (n.tick now incoming).val.1

theorem next_config (n : Endpoint) (call : EndpointCall) :
    (n.next call).connectionManagerConfig = n.connectionManagerConfig := by
  cases call with
  | connect ip now => exact findOrCreatePeer_config n 0 ip now
  | sendReliableTo ip fn now => exact findOrCreatePeer_config n 0 ip now
  | sendUnreliableTo ip fn now => exact findOrCreatePeer_config n 0 ip now
  | tick now incoming => exact tick_config n now incoming

theorem Distinct.next (h : n.Distinct) (call : EndpointCall) : (n.next call).Distinct := by
  have hupdate : ∀ ip now p,
      ((n.findOrCreatePeer 0 ip now).1.peers.update ip p).keys.Nodup := by
    intro ip now p
    rw [keys_update]
    exact h.findOrCreatePeer 0 ip now
  cases call with
  | connect ip now => exact hupdate ip now _
  | sendReliableTo ip fn now => exact hupdate ip now _
  | sendUnreliableTo ip fn now => exact hupdate ip now _
  | tick now incoming => exact h.tick now incoming

/-- A property of all entries that holds of new ones and is kept by everything
that is done to an entry. -/
theorem next_all (hnew : ∀ ip now, Q ip (n.createPeer 0 now))
    (hconnect : ∀ ip p, Q ip p → Q ip { p with connectionManager := p.connectionManager.connect })
    (hreliable : ∀ ip p (fn : WriteToBufferFn), Q ip p →
      Q ip { p with reliableStream := (p.reliableStream.send fn).val })
    (hunreliable : ∀ ip p (fn : WriteToBufferFn), Q ip p →
      Q ip { p with unreliableStream := (p.unreliableStream.send fn).val })
    (hdrop : ∀ ip p now, Q ip p → Q ip (p.dropOldPackets now).val.1)
    (hread : ∀ ip p b mem, Q ip p → Q ip (p.read n.connectionManagerConfig b mem).val.1)
    (hwrite : ∀ ip p mem now, Q ip p → Q ip (p.write n.connectionManagerConfig mem now).val.1)
    (h : All Q n.peers) (call : EndpointCall) : All Q (n.next call).peers := by
  cases call with
  | connect ip now =>
    obtain ⟨hall, hp⟩ := findOrCreatePeer_all ip h (hnew ip now)
    exact hall.update (hconnect ip _ hp)
  | sendReliableTo ip fn now =>
    obtain ⟨hall, hp⟩ := findOrCreatePeer_all ip h (hnew ip now)
    exact hall.update (hreliable ip _ fn hp)
  | sendUnreliableTo ip fn now =>
    obtain ⟨hall, hp⟩ := findOrCreatePeer_all ip h (hnew ip now)
    exact hall.update (hunreliable ip _ fn hp)
  | tick now incoming =>
    exact (tick_all incoming h (fun ip p hp => hdrop ip p now hp) (fun ip => hnew ip now)
      (fun sender payload _ hp => hread sender _ _ _ hp)
      (fun ip p mem hp => hwrite ip p mem now hp)).1

/-- What holds of all entries when a tick begins to write. -/
theorem beforeWrite_all_of_read {Q' : IpAddress → Peer → Prop} (h : All Q n.peers)
    (hdrop : ∀ ip p, Q ip p → Q' ip (p.dropOldPackets now).val.1)
    (hnew : ∀ ip, Q' ip (n.createPeer 0 now)) {incoming : Option (IpAddress × List UInt8)}
    (hread : ∀ sender payload, incoming = some (sender, payload) →
      Q' sender (n.readEntry now sender) →
      Q' sender ((n.readEntry now sender).read n.connectionManagerConfig
        ⟨0, (payload.take kJustAboveMtu).length⟩
        (n.networkBuffer.storeList 0 (payload.take kJustAboveMtu))).val.1) :
    All Q' (n.beforeWrite now incoming).peers := by
  have hdropped : All Q' (dropOldPackets now n.peers).val.1 := dropOldPackets_all hdrop h
  rw [beforeWrite]
  cases incoming with
  | none => exact hdropped
  | some datagram =>
    obtain ⟨sender, payload⟩ := datagram
    rw [(read_some _ now sender payload).1]
    obtain ⟨hall, hp⟩ := findOrCreatePeer_all (n := { n with peers := _ }) sender hdropped
      (hnew sender)
    rw [findOrCreatePeer_dropOldPackets] at hp ⊢
    exact hall.update (hread sender payload rfl hp)

/-- The same for what every read keeps. -/
theorem beforeWrite_all (hnew : ∀ ip now, Q ip (n.createPeer 0 now))
    (hdrop : ∀ ip p now, Q ip p → Q ip (p.dropOldPackets now).val.1)
    (hread : ∀ ip p b mem, Q ip p → Q ip (p.read n.connectionManagerConfig b mem).val.1)
    (h : All Q n.peers) (now : ℤ) (incoming : Option (IpAddress × List UInt8)) :
    All Q (n.beforeWrite now incoming).peers :=
  beforeWrite_all_of_read h (fun ip p hp => hdrop ip p now hp) (fun ip => hnew ip now)
    (fun sender _ _ hp => hread sender _ _ _ hp)

/-- A property of the entry of an address that every call keeps. -/
theorem Distinct.find_next {P : Peer → Prop}
    (hconnect : ∀ p, P p → P { p with connectionManager := p.connectionManager.connect })
    (hreliable : ∀ p stream, P p → P { p with reliableStream := stream })
    (hunreliable : ∀ p stream, P p → P { p with unreliableStream := stream })
    (hdrop : ∀ p now, P p → P (p.dropOldPackets now).val.1)
    (hread : ∀ p b mem, P p → P (p.read n.connectionManagerConfig b mem).val.1)
    (hwrite : ∀ p mem now, P p → P (p.write n.connectionManagerConfig mem now).val.1)
    (h : n.Distinct) {ip : IpAddress} {p : Peer} (hp : n.peers.find ip = some p) (hP : P p)
    (call : EndpointCall) : ∃ p', (n.next call).peers.find ip = some p' ∧ P p' := by
  have hupdate : ∀ target now (f : Peer → Peer), (∀ q, P q → P (f q)) →
      ∃ p', ((n.findOrCreatePeer 0 target now).1.peers.update target
          (f (n.findOrCreatePeer 0 target now).2)).find ip = some p' ∧ P p' := by
    intro target now f hf
    refine ⟨_, find_update_created hp target now f, ?_⟩
    split
    · exact hf p hP
    · exact hP
  cases call with
  | connect target now => exact hupdate target now (fun q => { q with
      connectionManager := q.connectionManager.connect }) fun q hq => hconnect q hq
  | sendReliableTo target fn now => exact hupdate target now (fun q => { q with
      reliableStream := (q.reliableStream.send fn).val }) fun q hq => hreliable q _ hq
  | sendUnreliableTo target fn now => exact hupdate target now (fun q => { q with
      unreliableStream := (q.unreliableStream.send fn).val }) fun q hq => hunreliable q _ hq
  | tick now incoming =>
    obtain ⟨q, hq, hcases⟩ := find_beforeWrite hp now incoming
    have hPq : P q := by
      rcases hcases with rfl | ⟨b, mem, rfl⟩
      · exact hdrop p now hP
      · exact hread _ b mem (hdrop p now hP)
    obtain ⟨mem, hfind, -⟩ := h.tick_entry now incoming hq
    exact ⟨_, hfind, hwrite q mem now hPq⟩

end Endpoint

/-- The runs of an endpoint from its construction on. -/
def neptun (config : ConnectionManagerConfig) (packetTimeout : ℤ) :
    System Endpoint EndpointCall where
  init n := n = { packetTimeout := packetTimeout, connectionManagerConfig := config }
  enabled _ _ := True
  next := Endpoint.next

/-! ### The endpoints of a world -/

/-- The call that an endpoint sees. -/
def Action.call : Action → EndpointCall
  | .connect ip now => .connect ip now
  | .sendReliableTo ip fn now => .sendReliableTo ip fn now
  | .sendUnreliableTo ip fn now => .sendUnreliableTo ip fn now
  | .tick now incoming => .tick now (incoming.map fun dg => (dg.sender, dg.packet.payload))

namespace World

/-- Both endpoints are in states that they reach on their own. -/
def EndpointsReachable (setup : Setup) (w : World) : Prop :=
  ∀ side, (neptun (setup.config side) (setup.packetTimeout side)).Reachable System.anyAction
    (w.endpoint side)

theorem next_endpoint_self (setup : Setup) (w : World) (side : Side) (action : Action) :
    (w.next setup (side, action)).endpoint side = (w.endpoint side).next action.call := by
  cases action <;> exact extend_endpoint_self _ _ _ _ _

theorem next_endpoint_of_ne (setup : Setup) (w : World) {side s : Side} (hs : s ≠ side)
    (action : Action) : (w.next setup (side, action)).endpoint s = w.endpoint s := by
  cases action <;> exact extend_endpoint_of_ne hs

theorem reachable_init (setup : Setup) : (init setup).EndpointsReachable setup :=
  fun _ => .init rfl

theorem reachable_next {setup : Setup} {w : World} (h : w.EndpointsReachable setup)
    (call : Side × Action) : (w.next setup call).EndpointsReachable setup := by
  obtain ⟨side, action⟩ := call
  intro s
  by_cases hs : s = side
  · rw [hs, next_endpoint_self]
    exact .step (h side) trivial trivial
  · rw [next_endpoint_of_ne setup w hs]
    exact h s

end World

end Neptun
