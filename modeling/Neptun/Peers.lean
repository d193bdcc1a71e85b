/-
The entries of an endpoint, one by one.

Every call works on the entries of the peer map separately.  The rules here lift
facts about a `Peer` to facts about all entries of a map.

* `PeerMap.All` — a property of all entries, with the rules for `update`,
  `insert` and `findOrCreatePeer`;
* `Endpoint.dropOldPackets_all`, `Endpoint.mem_write`, `Endpoint.write_all_iff` —
  the two loops of `tick`;
* `Endpoint.read_some` — between them, `read` works on one entry only;
* `Endpoint.tick_all` — all entries after a tick, and all packets it has sent.
-/
import Neptun.Endpoint

namespace Neptun

/-- The two ways through `read`: the packet is too old, or the later stages are
run on what is behind its header. -/
theorem Peer.read_cases (config : ConnectionManagerConfig) (p : Peer) (b : Span) (mem : Memory) :
    let header := (PacketHeader.read b mem).val
    let statuses := (p.packetDeliveryManager.processRead header).val.2.2.1
    let resolved : Peer :=
      { p with packetDeliveryManager := (p.packetDeliveryManager.processRead header).val.1 }
    (header.id < p.packetDeliveryManager.nextExpectedPacketId ∧
      (read config p b mem).val = (resolved, ⟨header.id, false, statuses, none, [], []⟩)) ∨
    (¬ header.id < p.packetDeliveryManager.nextExpectedPacketId ∧
      (read config p b mem).val = (readConnection config
        (resolved.processDeliveryStatuses statuses).val ⟨b.off + 12, usizeSub b.size 12⟩ mem
        ⟨header.id, true, statuses, none, [], []⟩).val) := by
  intro header statuses resolved
  have hid : (p.packetDeliveryManager.processRead header).val.2.2.2 = header.id := rfl
  rw [read]
  simp only [Checked.val_bind, Checked.val_ite]
  rcases p.packetDeliveryManager.processRead_cases header with
    ⟨hcount, hlt, -⟩ | ⟨hcount, hnlt, -⟩
  · refine Or.inl ⟨hlt, ?_⟩
    rw [if_pos hcount, hcount, hid]
    rfl
  · refine Or.inr ⟨hnlt, ?_⟩
    rw [if_neg (by rw [hcount]; decide), hcount, hid]
    rfl

/-- The largest packet that may be sent to the peer. -/
def Peer.maxPacketSize (config : ConnectionManagerConfig) (p : Peer) : UInt16 :=
  match p.connectionManager.peerLimit with
  | some limit => min limit.maxReadPacketSize config.limit.maxSendPacketSize
  | none => config.limit.maxSendPacketSize

/-- One iteration of `write` sends nothing, or the packet that `writeToPeer`
builds. -/
theorem Peer.write_cases (config : ConnectionManagerConfig) (p : Peer) (mem : Memory) (now : ℤ) :
    let ticked := { p with sendPacketTicker := (p.sendPacketTicker.tick now).val.1 }
    (write config p mem now).val = (ticked, mem, none) ∨
      ((p.sendPacketTicker.tick now).val.2 = true ∨
          p.connectionManager.isFullyConnected = false) ∧
        (write config p mem now).val
          = ((ticked.writeToPeer mem now (p.maxPacketSize config)).val.1,
            (ticked.writeToPeer mem now (p.maxPacketSize config)).val.2.1,
            some (ticked.writeToPeer mem now (p.maxPacketSize config)).val.2.2) := by
  intro ticked
  rw [write]
  simp only [Checked.val_bind, Checked.val_ite]
  split
  · next hsend =>
    refine Or.inr ⟨?_, rfl⟩
    simpa using hsend
  · exact Or.inl rfl

namespace PeerMap

variable {Q Q' : IpAddress → Peer → Prop} {peers : PeerMap} {ip : IpAddress} {p : Peer}

/-- All entries have the property. -/
def All (Q : IpAddress → Peer → Prop) (peers : PeerMap) : Prop := ∀ e ∈ peers, Q e.1 e.2

theorem all_nil : All Q [] := by
  intro e he
  cases he

theorem all_cons {e : IpAddress × Peer} : All Q (e :: peers) ↔ Q e.1 e.2 ∧ All Q peers :=
  List.forall_mem_cons

theorem All.mono (h : All Q peers) (hQ : ∀ ip p, Q ip p → Q' ip p) : All Q' peers :=
  fun e he => hQ e.1 e.2 (h e he)

theorem All.find (h : All Q peers) (hp : peers.find ip = some p) : Q ip p := by
  induction peers with
  | nil => cases hp
  | cons e peers ih =>
    obtain ⟨hq, hpeers⟩ := all_cons.mp h
    rw [PeerMap.find] at hp
    split at hp
    · next hkey =>
      cases hp
      exact hkey ▸ hq
    · exact ih hpeers hp

theorem All.insert (h : All Q peers) (hp : Q ip p) : All Q (peers.insert ip p) := by
  induction peers with
  | nil => exact all_cons.mpr ⟨hp, h⟩
  | cons e peers ih =>
    rw [PeerMap.insert]
    split
    · exact all_cons.mpr ⟨hp, h⟩
    · obtain ⟨hq, hpeers⟩ := all_cons.mp h
      exact all_cons.mpr ⟨hq, ih hpeers⟩

theorem All.update (h : All Q peers) (hp : Q ip p) : All Q (peers.update ip p) := by
  induction peers with
  | nil => exact h
  | cons e peers ih =>
    obtain ⟨hq, hpeers⟩ := all_cons.mp h
    rw [PeerMap.update]
    split
    · next hkey => exact all_cons.mpr ⟨hkey ▸ hp, hpeers⟩
    · exact all_cons.mpr ⟨hq, ih hpeers⟩

theorem find_insert (hfresh : peers.find ip = none) (key : IpAddress) :
    (peers.insert ip p).find key = if key = ip then some p else peers.find key := by
  induction peers with
  | nil => simp [PeerMap.insert, PeerMap.find, eq_comm]
  | cons e peers ih =>
    obtain ⟨key', q⟩ := e
    rw [PeerMap.find] at hfresh
    have hne : key' ≠ ip := by
      rintro rfl
      simp at hfresh
    rw [if_neg hne] at hfresh
    rw [PeerMap.insert]
    split
    · rw [PeerMap.find]
      simp only [eq_comm]
    · rw [PeerMap.find, ih hfresh, PeerMap.find]
      by_cases hkey : key' = key
      · rw [if_pos hkey, if_pos hkey, if_neg (hkey ▸ hne)]
      · rw [if_neg hkey, if_neg hkey]

theorem find_update (hp : (peers.find ip).isSome) (key : IpAddress) :
    (peers.update ip p).find key = if key = ip then some p else peers.find key := by
  induction peers with
  | nil => simp [PeerMap.find] at hp
  | cons e peers ih =>
    obtain ⟨key', q⟩ := e
    rw [PeerMap.update]
    split
    · next heq =>
      subst heq
      rw [PeerMap.find, PeerMap.find]
      by_cases hkey : key' = key
      · rw [if_pos hkey, if_pos hkey.symm]
      · rw [if_neg hkey, if_neg (Ne.symm hkey), if_neg hkey]
    · next hne =>
      rw [PeerMap.find, if_neg hne] at hp
      rw [PeerMap.find, ih hp, PeerMap.find]
      by_cases hkey : key' = key
      · rw [if_pos hkey, if_pos hkey, if_neg (hkey ▸ hne)]
      · rw [if_neg hkey, if_neg hkey]

end PeerMap

namespace Endpoint

open PeerMap

variable {Q Q' : IpAddress → Peer → Prop} {n : Endpoint} {id : PacketId} {now : ℤ}

theorem findOrCreatePeer_all (ip : IpAddress) (h : All Q n.peers)
    (hnew : Q ip (n.createPeer id now)) :
    All Q (n.findOrCreatePeer id ip now).1.peers ∧ Q ip (n.findOrCreatePeer id ip now).2 := by
  rw [findOrCreatePeer]
  cases hfind : n.peers.find ip with
  | none => exact ⟨h.insert hnew, hnew⟩
  | some p => exact ⟨h, h.find hfind⟩

theorem findOrCreatePeer_config (n : Endpoint) (id : PacketId) (ip : IpAddress) (now : ℤ) :
    (n.findOrCreatePeer id ip now).1.connectionManagerConfig = n.connectionManagerConfig := by
  rw [findOrCreatePeer]
  cases n.peers.find ip <;> rfl

/-- `findOrCreatePeer` leaves an entry for the address behind. -/
theorem find_findOrCreatePeer (n : Endpoint) (id : PacketId) (ip : IpAddress) (now : ℤ) :
    (n.findOrCreatePeer id ip now).1.peers.find ip = some (n.findOrCreatePeer id ip now).2 := by
  rw [findOrCreatePeer]
  cases hfind : n.peers.find ip with
  | none => exact (find_insert hfind ip).trans (if_pos rfl)
  | some p => exact hfind

/-- `read` works on one entry only. -/
theorem read_some (n : Endpoint) (now : ℤ) (sender : IpAddress) (payload : List UInt8) :
    let created := n.findOrCreatePeer 0 sender now
    let mem := n.networkBuffer.storeList 0 (payload.take kJustAboveMtu)
    let result := created.2.read n.connectionManagerConfig
      ⟨0, (payload.take kJustAboveMtu).length⟩ mem
    (n.read now (some (sender, payload))).val =
        ({ n with
            networkBuffer := mem
            peers := created.1.peers.update sender result.val.1 },
          some (sender, result.val.2)) ∧
      (n.read now (some (sender, payload))).faults = result.faults := by
  intro created mem result
  have hcreated : findOrCreatePeer { n with networkBuffer := mem } 0 sender now
      = ({ n with networkBuffer := mem, peers := created.1.peers }, created.2) := by
    simp only [created, findOrCreatePeer]
    cases n.peers.find sender <;> rfl
  rw [read]
  simp only [Checked.val_bind, Checked.faults_bind, Checked.faults_pure, List.append_nil]
  rw [hcreated]
  exact ⟨rfl, rfl⟩

theorem dropOldPackets_all (hQ : ∀ ip p, Q ip p → Q' ip (p.dropOldPackets now).val.1)
    {peers : PeerMap} (h : All Q peers) : All Q' (dropOldPackets now peers).val.1 := by
  induction peers with
  | nil => exact all_nil
  | cons e peers ih =>
    obtain ⟨hq, hpeers⟩ := all_cons.mp h
    exact all_cons.mpr ⟨hQ _ _ hq, ih hpeers⟩

theorem find_dropOldPackets (now : ℤ) (peers : PeerMap) (ip : IpAddress) :
    (dropOldPackets now peers).val.1.find ip
      = (peers.find ip).map fun p => (p.dropOldPackets now).val.1 := by
  induction peers with
  | nil => rfl
  | cons e peers ih =>
    simp only [dropOldPackets, Checked.val_bind, Checked.val_pure, PeerMap.find]
    split
    · rfl
    · exact ih

/-- An entry after the second loop is one that has been written to. -/
theorem mem_write {config : ConnectionManagerConfig} {peers : PeerMap} {mem : Memory}
    {e : IpAddress × Peer} (h : e ∈ (write config now peers mem).val.1) :
    ∃ p mem', (e.1, p) ∈ peers ∧ e.2 = (p.write config mem' now).val.1 ∧
      (p.write config mem' now).val.2.2.toList.length
        ≤ (write config now peers mem).val.2.2.length := by
  induction peers generalizing mem with
  | nil => cases h
  | cons e' peers ih =>
    obtain ⟨ip, p⟩ := e'
    have hsent : (write config now ((ip, p) :: peers) mem).val.2.2.length
        = (p.write config mem now).val.2.2.toList.length
          + (write config now peers (p.write config mem now).val.2.1).val.2.2.length := by
      simp [write]
    rw [hsent]
    rcases List.mem_cons.mp h with rfl | hmem
    · exact ⟨p, mem, List.mem_cons_self, rfl, Nat.le_add_right _ _⟩
    · obtain ⟨q, mem', hq, heq, hle⟩ := ih hmem
      exact ⟨q, mem', List.mem_cons_of_mem _ hq, heq, Nat.le_trans hle (Nat.le_add_left _ _)⟩

/-- A packet that was sent is one that was written for an entry. -/
theorem mem_sent_of_write {config : ConnectionManagerConfig} {peers : PeerMap} {mem : Memory}
    {ip : IpAddress} {packet : Packet}
    (h : (ip, packet) ∈ (write config now peers mem).val.2.2) :
    ∃ p mem', (ip, p) ∈ peers ∧ (p.write config mem' now).val.2.2 = some packet := by
  induction peers generalizing mem with
  | nil => cases h
  | cons e peers ih =>
    obtain ⟨ip', p⟩ := e
    rcases List.mem_append.mp h with hmem | hmem
    · obtain ⟨packet', hpacket, heq⟩ := List.mem_map.mp hmem
      cases heq
      exact ⟨p, mem, List.mem_cons_self, Option.mem_toList.mp hpacket⟩
    · obtain ⟨q, mem', hq, hpacket⟩ := ih hmem
      exact ⟨q, mem', List.mem_cons_of_mem _ hq, hpacket⟩

/-- What a write of one packet neither gives nor takes, the second loop does
not. -/
theorem write_all_iff {config : ConnectionManagerConfig}
    (hQ : ∀ ip p mem, Q ip p → (Q' ip (p.write config mem now).val.1 ↔ Q' ip p)) {peers : PeerMap}
    {mem : Memory} (h : All Q peers) :
    All Q' (write config now peers mem).val.1 ↔ All Q' peers := by
  induction peers generalizing mem with
  | nil => rfl
  | cons e peers ih =>
    obtain ⟨hq, hpeers⟩ := all_cons.mp h
    simp only [write, Checked.val_bind, Checked.val_pure]
    rw [all_cons, all_cons, hQ e.1 e.2 mem hq, ih hpeers]

/-! ### A whole tick -/

/-- The entry on which a tick reads a datagram: timeouts come first. -/
def readEntry (n : Endpoint) (now : ℤ) (sender : IpAddress) : Peer :=
  match n.peers.find sender with
  | some p => (p.dropOldPackets now).val.1
  | none => n.createPeer 0 now

theorem findOrCreatePeer_dropOldPackets (n : Endpoint) (now : ℤ) (sender : IpAddress) :
    (findOrCreatePeer { n with peers := (dropOldPackets now n.peers).val.1 } 0 sender now).2
      = n.readEntry now sender := by
  rw [findOrCreatePeer, readEntry]
  simp only [find_dropOldPackets]
  cases n.peers.find sender <;> rfl

theorem tick_config (n : Endpoint) (now : ℤ) (incoming : Option (IpAddress × List UInt8)) :
    (n.tick now incoming).val.1.connectionManagerConfig = n.connectionManagerConfig := by
  have hread : (n.tick now incoming).val.1.connectionManagerConfig
      = (read { n with peers := (dropOldPackets now n.peers).val.1 } now
          incoming).val.1.connectionManagerConfig := rfl
  rw [hread]
  cases incoming with
  | none => rfl
  | some datagram => rw [(read_some _ now datagram.1 datagram.2).1]

/-- The report of a tick that has read a datagram. -/
theorem tick_read_some (n : Endpoint) (now : ℤ) (sender : IpAddress) (payload : List UInt8) :
    (n.tick now (some (sender, payload))).val.2.read
      = some (sender, ((n.readEntry now sender).read n.connectionManagerConfig
          ⟨0, (payload.take kJustAboveMtu).length⟩
          (n.networkBuffer.storeList 0 (payload.take kJustAboveMtu))).val.2) := by
  have hread : (n.tick now (some (sender, payload))).val.2.read
      = (read { n with peers := (dropOldPackets now n.peers).val.1 } now
          (some (sender, payload))).val.2 := rfl
  rw [hread, (read_some _ now sender payload).1, findOrCreatePeer_dropOldPackets]

/-- The entries after a tick, if every entry satisfies `Q` after the timeouts
and every new one does, and if reading and writing keep it. -/
theorem tick_all {Q'' : IpAddress → Peer → Prop} (incoming : Option (IpAddress × List UInt8))
    (h : All Q n.peers) (hdrop : ∀ ip p, Q ip p → Q' ip (p.dropOldPackets now).val.1)
    (hnew : ∀ ip, Q' ip (n.createPeer 0 now))
    (hread : ∀ sender payload, incoming = some (sender, payload) →
      Q' sender (n.readEntry now sender) →
      Q' sender ((n.readEntry now sender).read n.connectionManagerConfig
        ⟨0, (payload.take kJustAboveMtu).length⟩
        (n.networkBuffer.storeList 0 (payload.take kJustAboveMtu))).val.1)
    (hwrite : ∀ ip p mem, Q' ip p → Q'' ip (p.write n.connectionManagerConfig mem now).val.1) :
    All Q'' (n.tick now incoming).val.1.peers ∧
      ∀ ip packet, (ip, packet) ∈ (n.tick now incoming).val.2.sent →
        ∃ p mem, Q' ip p ∧ (p.write n.connectionManagerConfig mem now).val.2.2 = some packet := by
  have hdropped : All Q' (dropOldPackets now n.peers).val.1 := dropOldPackets_all hdrop h
  -- between the two loops only the entry of the sender changes
  have hentries : All Q' (read { n with peers := (dropOldPackets now n.peers).val.1 } now
        incoming).val.1.peers ∧
      (read { n with peers := (dropOldPackets now n.peers).val.1 } now
        incoming).val.1.connectionManagerConfig = n.connectionManagerConfig := by
    cases incoming with
    | none => exact ⟨hdropped, rfl⟩
    | some datagram =>
      obtain ⟨sender, payload⟩ := datagram
      have hcreated : All Q' (findOrCreatePeer { n with
            peers := (dropOldPackets now n.peers).val.1 } 0 sender now).1.peers ∧
          Q' sender (findOrCreatePeer { n with
            peers := (dropOldPackets now n.peers).val.1 } 0 sender now).2 :=
        findOrCreatePeer_all sender hdropped (hnew sender)
      obtain ⟨hpeers, hp⟩ := hcreated
      rw [(read_some _ now sender payload).1]
      rw [findOrCreatePeer_dropOldPackets] at hp ⊢
      exact ⟨hpeers.update (hread sender payload rfl hp), rfl⟩
  obtain ⟨hall, hconfig⟩ := hentries
  constructor
  · intro e he
    obtain ⟨p, mem, hp, heq, -⟩ := mem_write he
    rw [heq, hconfig]
    exact hwrite _ p mem (hall _ hp)
  · intro ip packet hpacket
    obtain ⟨p, mem, hp, heq⟩ := mem_sent_of_write hpacket
    rw [hconfig] at heq
    exact ⟨p, mem, hall _ hp, heq⟩

end Endpoint

end Neptun
