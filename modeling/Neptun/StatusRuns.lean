/-
Delivery statuses in whole runs.

The facts about one `Peer` are lifted to all entries of an endpoint, and from a
call to a run of two endpoints.  Nothing is assumed about the datagrams.

* `tracked_iff_forwarded` — everything that waits waits for a packet in flight,
  and the assertions on the order of the tags hold, all along a run iff no old
  packet of the run resolves something that is waited for.
-/
import Neptun.StatusRouting

namespace Neptun

namespace Endpoint

open PeerMap Peer

variable {n : Endpoint} {count : ℕ} {now : ℤ} {sender : IpAddress} {payload : List UInt8}

/-- The header of a datagram, as the endpoint reads it. -/
def headerOf (n : Endpoint) (payload : List UInt8) : PacketHeader :=
  let payload := payload.take kJustAboveMtu
  (PacketHeader.read ⟨0, payload.length⟩ (n.networkBuffer.storeList 0 payload)).val

/-- The statuses that a datagram brings reach everything that waits for them.
The timeouts of the same tick come first. -/
def Forwards (n : Endpoint) (now : ℤ) (sender : IpAddress) (payload : List UInt8) : Prop :=
  ∀ p ∈ n.peers.find sender, (p.dropOldPackets now).val.1.Forwards (n.headerOf payload)

instance (n : Endpoint) (now : ℤ) (sender : IpAddress) (payload : List UInt8) :
    Decidable (n.Forwards now sender payload) :=
  inferInstanceAs (Decidable (∀ p ∈ n.peers.find sender, _))

/-! ### The three parts of a tick -/

theorem dropOldPackets_ordered {peers : PeerMap} (h : All (fun _ => Ordered count) peers) :
    All (fun _ => Ordered count) (dropOldPackets now peers).val.1 :=
  dropOldPackets_all (fun _ _ hp => hp.dropOldPackets now) h

theorem dropOldPackets_tracked (now : ℤ) {peers : PeerMap} (h : All (fun _ => Ordered count) peers)
    (htracked : All (fun _ => Tracked) peers) :
    All (fun _ => Tracked) (dropOldPackets now peers).val.1 ∧
      (dropOldPackets now peers).Avoids OrderFault := by
  induction peers with
  | nil => exact ⟨all_nil, Checked.avoids_pure _⟩
  | cons e peers ih =>
    obtain ⟨ip, p⟩ := e
    obtain ⟨hp, hpeers⟩ := all_cons.mp h
    obtain ⟨hptracked, hpeerstracked⟩ := all_cons.mp htracked
    obtain ⟨h1, h2⟩ := hp.dropOldPackets_tracked hptracked now
    obtain ⟨h3, h4⟩ := ih hpeers hpeerstracked
    refine ⟨all_cons.mpr ⟨h1, h3⟩, ?_⟩
    rw [dropOldPackets, Checked.avoids_bind, Checked.avoids_bind]
    exact ⟨h2, h4, Checked.avoids_pure _⟩

/-- A peer that has just been created expects every packet. -/
theorem forwards_createPeer (n : Endpoint) (now : ℤ) (header : PacketHeader) :
    (n.createPeer 0 now).Forwards header := by
  intro hlt
  exact absurd hlt (Nat.not_lt_zero _)

theorem read_ordered (h : All (fun _ => Ordered count) n.peers)
    (incoming : Option (IpAddress × List UInt8)) :
    All (fun _ => Ordered count) (n.read now incoming).val.1.peers := by
  cases incoming with
  | none => exact h
  | some datagram =>
    obtain ⟨sender, payload⟩ := datagram
    obtain ⟨hpeers, hp⟩ := findOrCreatePeer_all sender h (ordered_createPeer n 0 now)
    rw [(n.read_some now sender payload).1]
    exact hpeers.update (hp.read _ _ _)

/-- The only entry that can lose a status is the one of the sender. -/
theorem read_tracked_iff (h : All (fun _ => Ordered count) n.peers)
    (htracked : All (fun _ => Tracked) n.peers) :
    All (fun _ => Tracked) (n.read now (some (sender, payload))).val.1.peers ↔
      ∀ p ∈ n.peers.find sender, p.Forwards (n.headerOf payload) := by
  obtain ⟨-, hp⟩ := findOrCreatePeer_all sender h (ordered_createPeer n 0 now)
  obtain ⟨hpeers, hptracked⟩ := findOrCreatePeer_all sender htracked
    (tracked_createPeer n 0 now)
  rw [(n.read_some now sender payload).1]
  -- the other entries are as before, so only the updated one is looked at
  have hentry : All (fun _ => Tracked) ((n.findOrCreatePeer 0 sender now).1.peers.update sender
        ((n.findOrCreatePeer 0 sender now).2.read n.connectionManagerConfig
          ⟨0, (payload.take kJustAboveMtu).length⟩
          (n.networkBuffer.storeList 0 (payload.take kJustAboveMtu))).val.1) ↔
      (n.findOrCreatePeer 0 sender now).2.Forwards (n.headerOf payload) := by
    rw [headerOf, ← Peer.read_tracked_iff hp hptracked n.connectionManagerConfig]
    constructor
    · intro hall
      have hfind := n.find_findOrCreatePeer 0 sender now
      exact hall.find ((find_update (by rw [hfind]; rfl) sender).trans (if_pos rfl))
    · exact fun hread => hpeers.update hread
  rw [hentry, findOrCreatePeer]
  cases n.peers.find sender with
  | none =>
    -- a new peer has sent nothing, so there is no status to lose
    refine iff_of_true (forwards_createPeer n now _) ?_
    intro p hp
    cases hp
  | some p =>
    constructor
    · rintro hforwards q hq
      cases hq
      exact hforwards
    · exact fun hforwards => hforwards p rfl

theorem read_avoids_order (h : All (fun _ => Ordered count) n.peers)
    (htracked : All (fun _ => Tracked) n.peers)
    (incoming : Option (IpAddress × List UInt8)) :
    (n.read now incoming).Avoids OrderFault := by
  cases incoming with
  | none => exact Checked.avoids_pure _
  | some datagram =>
    obtain ⟨sender, payload⟩ := datagram
    obtain ⟨-, hp⟩ := findOrCreatePeer_all sender h (ordered_createPeer n 0 now)
    obtain ⟨-, hptracked⟩ := findOrCreatePeer_all sender htracked
      (tracked_createPeer n 0 now)
    rw [Checked.Avoids, (n.read_some now sender payload).2]
    exact hp.read_avoids_order hptracked _ _ _

theorem write_avoids_order (config : ConnectionManagerConfig) (peers : PeerMap) (mem : Memory) :
    (write config now peers mem).Avoids OrderFault := by
  induction peers generalizing mem with
  | nil => exact Checked.avoids_pure _
  | cons e peers ih =>
    rw [write, Checked.avoids_bind, Checked.avoids_bind]
    exact ⟨Peer.write_avoids_order _ _ _ _, ih _, Checked.avoids_pure _⟩

/-! ### A tick -/

theorem tick_ordered (h : All (fun _ => Ordered count) n.peers)
    (incoming : Option (IpAddress × List UInt8))
    (hcount : count + (n.tick now incoming).val.2.sent.length < 2 ^ 32) :
    All (fun _ => Ordered (count + (n.tick now incoming).val.2.sent.length))
      (n.tick now incoming).val.1.peers := by
  have hdropped : All (fun _ => Ordered count) (dropOldPackets now n.peers).val.1 :=
    dropOldPackets_ordered h
  have hread : All (fun _ => Ordered count)
      (read { n with peers := (dropOldPackets now n.peers).val.1 } now incoming).val.1.peers :=
    read_ordered hdropped incoming
  -- a packet of this tick takes the next id, which has not wrapped yet
  intro e he
  obtain ⟨p, mem, hp, heq, hle⟩ := mem_write he
  rw [heq]
  refine ((hread _ hp).write _ mem now ?_).mono (Nat.add_le_add_left hle count)
  exact Nat.lt_of_le_of_lt (Nat.add_le_add_left hle count) hcount

/-- **A tick** keeps everything tracked, and its assertions hold, iff the
statuses of the datagram it reads are forwarded. -/
theorem tick_tracked_iff (h : All (fun _ => Ordered count) n.peers)
    (htracked : All (fun _ => Tracked) n.peers)
    (incoming : Option (IpAddress × List UInt8)) :
    (All (fun _ => Tracked) (n.tick now incoming).val.1.peers ∧
        (n.tick now incoming).Avoids OrderFault) ↔
      ∀ datagram ∈ incoming, n.Forwards now datagram.1 datagram.2 := by
  have hdropped : All (fun _ => Ordered count) (dropOldPackets now n.peers).val.1 :=
    dropOldPackets_ordered h
  obtain ⟨htracked', hsafe⟩ := dropOldPackets_tracked now h htracked
  have hread : All (fun _ => Ordered count)
      (read { n with peers := (dropOldPackets now n.peers).val.1 } now incoming).val.1.peers :=
    read_ordered hdropped incoming
  have havoids : (n.tick now incoming).Avoids OrderFault := by
    rw [tick, Checked.avoids_bind, Checked.avoids_bind, Checked.avoids_bind]
    exact ⟨hsafe, read_avoids_order hdropped htracked' incoming, write_avoids_order _ _ _,
      Checked.avoids_pure _⟩
  rw [and_iff_left havoids]
  -- the writes at the end change nothing
  have hwrite : All (fun _ => Tracked) (n.tick now incoming).val.1.peers ↔
      All (fun _ => Tracked) (read { n with peers := (dropOldPackets now n.peers).val.1 }
        now incoming).val.1.peers :=
    write_all_iff (fun _ p mem hp => hp.write_tracked _ mem now) hread
  rw [hwrite]
  cases incoming with
  | none =>
    refine iff_of_true htracked' ?_
    intro datagram hdatagram
    cases hdatagram
  | some datagram =>
    obtain ⟨sender, payload⟩ := datagram
    rw [read_tracked_iff hdropped htracked', find_dropOldPackets]
    cases hfind : n.peers.find sender with
    | none => simp [Forwards, hfind]
    | some p => simp [Forwards, hfind, headerOf]

/-! ### The other calls -/

/-- A call that changes one entry, and neither its delivery manager nor what
waits there. -/
theorem update_all {p' : Peer} (ip : IpAddress)
    (hdelivery : p'.packetDeliveryManager
      = (n.findOrCreatePeer 0 ip now).2.packetDeliveryManager)
    (htags : p'.tags = (n.findOrCreatePeer 0 ip now).2.tags)
    (hqueue : p'.queue = (n.findOrCreatePeer 0 ip now).2.queue) :
    (∀ count, All (fun _ => Ordered count) n.peers →
      All (fun _ => Ordered count) ((n.findOrCreatePeer 0 ip now).1.peers.update ip p')) ∧
    (All (fun _ => Tracked) n.peers →
      All (fun _ => Tracked) ((n.findOrCreatePeer 0 ip now).1.peers.update ip p')) := by
  constructor
  · intro count h
    obtain ⟨hpeers, hp⟩ := findOrCreatePeer_all ip h (ordered_createPeer n 0 now)
    refine hpeers.update (hp.shrink ?_ ?_ ?_ ?_)
    · rw [hdelivery]
    · rw [htags]
    · rw [hqueue]
    · rw [hdelivery]
  · intro h
    obtain ⟨hpeers, hp⟩ := findOrCreatePeer_all ip h (tracked_createPeer n 0 now)
    refine hpeers.update ?_
    rw [tracked_iff, hdelivery, htags, hqueue]
    exact tracked_iff.mp hp

theorem connect_all (n : Endpoint) (ip : IpAddress) (now : ℤ) :
    (∀ count, All (fun _ => Ordered count) n.peers →
        All (fun _ => Ordered count) (n.connect ip now).peers) ∧
      (All (fun _ => Tracked) n.peers → All (fun _ => Tracked) (n.connect ip now).peers) := by
  have hpeers : (n.connect ip now).peers = (n.findOrCreatePeer 0 ip now).1.peers.update ip
      { (n.findOrCreatePeer 0 ip now).2 with connectionManager :=
          (n.findOrCreatePeer 0 ip now).2.connectionManager.connect } := rfl
  rw [hpeers]
  exact update_all ip rfl rfl rfl

theorem sendReliableTo_all (n : Endpoint) (ip : IpAddress) (fn : WriteToBufferFn) (now : ℤ) :
    (∀ count, All (fun _ => Ordered count) n.peers →
        All (fun _ => Ordered count) (n.sendReliableTo ip fn now).val.peers) ∧
      (All (fun _ => Tracked) n.peers →
        All (fun _ => Tracked) (n.sendReliableTo ip fn now).val.peers) := by
  have hpeers : (n.sendReliableTo ip fn now).val.peers
      = (n.findOrCreatePeer 0 ip now).1.peers.update ip
        { (n.findOrCreatePeer 0 ip now).2 with reliableStream :=
            ((n.findOrCreatePeer 0 ip now).2.reliableStream.send fn).val } := rfl
  rw [hpeers]
  exact update_all ip rfl (ReliableStream.send_packetId _ fn) rfl

theorem sendUnreliableTo_all (n : Endpoint) (ip : IpAddress) (fn : WriteToBufferFn) (now : ℤ) :
    (∀ count, All (fun _ => Ordered count) n.peers →
        All (fun _ => Ordered count) (n.sendUnreliableTo ip fn now).val.peers) ∧
      (All (fun _ => Tracked) n.peers →
        All (fun _ => Tracked) (n.sendUnreliableTo ip fn now).val.peers) := by
  have hpeers : (n.sendUnreliableTo ip fn now).val.peers
      = (n.findOrCreatePeer 0 ip now).1.peers.update ip
        { (n.findOrCreatePeer 0 ip now).2 with unreliableStream :=
            ((n.findOrCreatePeer 0 ip now).2.unreliableStream.send fn).val } := rfl
  rw [hpeers]
  exact update_all ip rfl rfl rfl

theorem sendReliableTo_avoids_order (n : Endpoint) (ip : IpAddress) (fn : WriteToBufferFn)
    (now : ℤ) : (n.sendReliableTo ip fn now).Avoids OrderFault := by
  simp only [sendReliableTo, Checked.avoids_bind, Checked.avoids_check, Checked.avoids_pure,
    ReliableStream.send_avoids_order, and_true]
  simp [OrderFault]

theorem sendUnreliableTo_avoids_order (n : Endpoint) (ip : IpAddress) (fn : WriteToBufferFn)
    (now : ℤ) : (n.sendUnreliableTo ip fn now).Avoids OrderFault := by
  simp only [sendUnreliableTo, Checked.avoids_bind, Checked.avoids_check, Checked.avoids_pure,
    UnreliableStream.send_avoids_order, and_true]
  simp [OrderFault]

end Endpoint

/-! ### Runs -/

namespace World

open PeerMap

variable {setup : Setup} {w : World} {side : Side} {n : Endpoint} {sent : List Datagram}
  {entry : LogEntry}

/-- In all entries the ids are in order, and there are at most as many as
datagrams. -/
def Ordered (w : World) : Prop :=
  ∀ side, All (fun _ => Peer.Ordered w.sent.length) (w.endpoint side).peers

/-- In all entries, whatever waits for a delivery status waits for a packet in
flight; and neither of the two assertions has failed so far. -/
def Tracked (w : World) : Prop :=
  (∀ side, ∀ e ∈ (w.endpoint side).peers, e.2.Tracked) ∧
    ∀ entry ∈ w.log, ∀ f ∈ entry.faults, ¬ OrderFault f

/-- If the call reads a datagram, all statuses it brings are forwarded. -/
def Forwards (w : World) (call : Side × Action) : Prop :=
  match call.2 with
  | .tick now (some dg) => (w.endpoint call.1).Forwards now dg.sender dg.packet.payload
  | _ => True

instance (w : World) (call : Side × Action) : Decidable (w.Forwards call) :=
  match call with
  | (side, .tick now (some dg)) =>
    inferInstanceAs (Decidable ((w.endpoint side).Forwards now dg.sender dg.packet.payload))
  | (_, .tick _ none) => isTrue trivial
  | (_, .connect _ _) => isTrue trivial
  | (_, .sendReliableTo _ _ _) => isTrue trivial
  | (_, .sendUnreliableTo _ _ _) => isTrue trivial

theorem Ordered.extend (h : w.Ordered)
    (hn : All (fun _ => Peer.Ordered (w.sent.length + sent.length)) n.peers) :
    (w.extend side n sent entry).Ordered := by
  intro s
  rw [World.extend, List.length_append]
  by_cases hs : s = side
  · simp only [hs, if_true]
    exact hn
  · simp only [hs, if_false]
    exact (h s).mono fun _ p hp => hp.mono (Nat.le_add_right _ _)

theorem Tracked.extend_iff (h : w.Tracked) :
    (w.extend side n sent entry).Tracked ↔
      All (fun _ => Peer.Tracked) n.peers ∧ ∀ f ∈ entry.faults, ¬ OrderFault f := by
  constructor
  · rintro ⟨hpeers, hlog⟩
    have hside := hpeers side
    rw [extend_endpoint_self] at hside
    exact ⟨hside, hlog entry (List.mem_append_right _ List.mem_cons_self)⟩
  · rintro ⟨hn, hentry⟩
    refine ⟨fun s => ?_, fun e he => ?_⟩
    · by_cases hs : s = side
      · rw [hs, extend_endpoint_self]
        exact hn
      · rw [extend_endpoint_of_ne hs]
        exact h.1 s
    · rcases List.mem_append.mp he with he | he
      · exact h.2 e he
      · rw [List.mem_singleton.mp he]
        exact hentry

theorem ordered_init (setup : Setup) : (init setup).Ordered := fun _ => all_nil

theorem tracked_init (setup : Setup) : (init setup).Tracked := by
  constructor
  · intro side e he
    cases he
  · intro entry hentry
    cases hentry

theorem length_sent_le_next (setup : Setup) (w : World) (call : Side × Action) :
    w.sent.length ≤ (w.next setup call).sent.length := by
  obtain ⟨side, action⟩ := call
  cases action <;> exact Nat.le.intro List.length_append.symm

/-- Every call keeps the order. -/
theorem Ordered.next (h : w.Ordered) (call : Side × Action)
    (hcount : (w.next setup call).sent.length < 2 ^ 32) : (w.next setup call).Ordered := by
  obtain ⟨side, action⟩ := call
  cases action with
  | connect ip now =>
    refine h.extend ?_
    exact (Endpoint.connect_all _ ip now).1 _ (h side)
  | sendReliableTo ip fn now =>
    refine h.extend ?_
    exact (Endpoint.sendReliableTo_all _ ip fn now).1 _ (h side)
  | sendUnreliableTo ip fn now =>
    refine h.extend ?_
    exact (Endpoint.sendUnreliableTo_all _ ip fn now).1 _ (h side)
  | tick now incoming =>
    have hsent : (datagrams setup side ((w.endpoint side).tick now
        (incoming.map fun dg => (dg.sender, dg.packet.payload))).val.2).length
        = ((w.endpoint side).tick now
          (incoming.map fun dg => (dg.sender, dg.packet.payload))).val.2.sent.length :=
      List.length_map _
    have hlength := hcount
    simp only [World.next, World.extend, List.length_append, hsent] at hlength
    refine h.extend ?_
    rw [hsent]
    exact Endpoint.tick_ordered (h side) _ hlength

/-- Exactly the ticks that forward all statuses keep everything tracked. -/
theorem Tracked.next_iff (h : w.Tracked) (hordered : w.Ordered) (call : Side × Action) :
    (w.next setup call).Tracked ↔ w.Forwards call := by
  obtain ⟨side, action⟩ := call
  cases action with
  | connect ip now =>
    refine (extend_iff h).trans (iff_of_true ⟨?_, ?_⟩ trivial)
    · exact (Endpoint.connect_all _ ip now).2 (h.1 side)
    · intro f hf
      cases hf
  | sendReliableTo ip fn now =>
    refine (extend_iff h).trans (iff_of_true ⟨?_, ?_⟩ trivial)
    · exact (Endpoint.sendReliableTo_all _ ip fn now).2 (h.1 side)
    · exact Endpoint.sendReliableTo_avoids_order _ ip fn now
  | sendUnreliableTo ip fn now =>
    refine (extend_iff h).trans (iff_of_true ⟨?_, ?_⟩ trivial)
    · exact (Endpoint.sendUnreliableTo_all _ ip fn now).2 (h.1 side)
    · exact Endpoint.sendUnreliableTo_avoids_order _ ip fn now
  | tick now incoming =>
    refine (extend_iff h).trans ((Endpoint.tick_tracked_iff (hordered side) (h.1 side) _).trans ?_)
    cases incoming with
    | none =>
      refine iff_of_true ?_ trivial
      intro datagram hdatagram
      cases hdatagram
    | some dg =>
      constructor
      · exact fun hforwards => hforwards (dg.sender, dg.packet.payload) rfl
      · rintro hforwards datagram hdatagram
        cases hdatagram
        exact hforwards

end World

end Neptun
