/-
The machine behind one address of an endpoint.

An endpoint keeps an entry for every address, and its calls work on these entries
separately.  `peerRuns` is what they do to one of them: its state is the entry and
the history of the address, its calls are those about this address, and a tick also
takes what the network buffer holds when the entry is read to and written from.
These contents are all that is left of the other addresses.

* `Endpoint.find_beforeWrite_eq`, `Endpoint.Distinct.write_outcome` — an entry when
  a tick begins to write, and after it;
* `Observed.node_next` — one call of the endpoint is one call, or none, of the
  machine of an address;
* `peers_run_apart` — a run of the endpoint is a run of the machine of every
  address, on the calls about this address.
-/
import Neptun.EndpointRuns
import Neptun.ReliableBuffer
import Neptun.UnreliableBuffer

namespace Neptun

/-- The entry that an address gets when it is first seen. -/
def Peer.fresh (config : ConnectionManagerConfig) (packetTimeout : ℤ) (now : ℤ) : Peer where
  sendPacketTicker := Ticker.ofNow now none
  packetDeliveryManager := { packetTimeout := packetTimeout, nextExpectedPacketId := 0 }
  connectionManager := { config := config }

/-- The messages that were accepted for an address and received from it, and the
datagrams that were sent to it. -/
structure PeerHistory where
  reliableSent : List (List UInt8) := []
  unreliableSent : List (List UInt8) := []
  reliableReceived : List (List UInt8) := []
  unreliableReceived : List (List UInt8) := []
  packets : List (List UInt8) := []

/-- The entry of an address, if it has one, and its history. -/
structure PeerNode where
  entry : Option Peer := none
  history : PeerHistory := {}

/-- A call, as far as it is about one address. -/
inductive PeerCall
  | connect (now : ℤ)
  | sendReliable (fn : WriteToBufferFn) (now : ℤ)
  | sendUnreliable (fn : WriteToBufferFn) (now : ℤ)
  | tick (now : ℤ) (incoming : Option (List UInt8)) (readBuffer writeBuffer : Memory)

namespace PeerNode

def dropOldPackets (x : PeerNode) (now : ℤ) : PeerNode :=
  { x with entry := x.entry.map fun p => (p.dropOldPackets now).val.1 }

def read (config : ConnectionManagerConfig) (packetTimeout : ℤ) (x : PeerNode) (now : ℤ)
    (payload : List UInt8) (buffer : Memory) : PeerNode :=
  let payload := payload.take kJustAboveMtu
  let result := ((x.entry.getD (.fresh config packetTimeout now)).read config
    ⟨0, payload.length⟩ (buffer.storeList 0 payload)).val
  { entry := some result.1
    history := { x.history with
      reliableReceived := x.history.reliableReceived ++ result.2.reliable
      unreliableReceived := x.history.unreliableReceived ++ result.2.unreliable } }

def write (config : ConnectionManagerConfig) (x : PeerNode) (now : ℤ) (buffer : Memory) :
    PeerNode :=
  match x.entry with
  | none => x
  | some p =>
    let result := (p.write config buffer now).val
    { entry := some result.1
      history := { x.history with
        packets := x.history.packets ++ result.2.2.toList.map (·.payload) } }

def tick (config : ConnectionManagerConfig) (packetTimeout : ℤ) (x : PeerNode) (now : ℤ)
    (incoming : Option (List UInt8)) (readBuffer writeBuffer : Memory) : PeerNode :=
  let x := x.dropOldPackets now
  let x := match incoming with
    | none => x
    | some payload => x.read config packetTimeout now payload readBuffer
  x.write config now writeBuffer

def next (config : ConnectionManagerConfig) (packetTimeout : ℤ) (x : PeerNode) :
    PeerCall → PeerNode
  | .connect now =>
    let p := x.entry.getD (.fresh config packetTimeout now)
    { x with entry := some { p with connectionManager := p.connectionManager.connect } }
  | .sendReliable fn now =>
    let p := x.entry.getD (.fresh config packetTimeout now)
    { entry := some { p with reliableStream := (p.reliableStream.send fn).val }
      history := { x.history with
        reliableSent := p.reliableStream.sentAfter fn x.history.reliableSent } }
  | .sendUnreliable fn now =>
    let p := x.entry.getD (.fresh config packetTimeout now)
    { entry := some { p with unreliableStream := (p.unreliableStream.send fn).val }
      history := { x.history with
        unreliableSent := p.unreliableStream.acceptedAfter fn x.history.unreliableSent } }
  | .tick now incoming readBuffer writeBuffer =>
    x.tick config packetTimeout now incoming readBuffer writeBuffer

end PeerNode

/-- The runs of the machine of one address. -/
def peerRuns (config : ConnectionManagerConfig) (packetTimeout : ℤ) :
    System PeerNode PeerCall where
  init x := x = {}
  enabled _ _ := True
  next := PeerNode.next config packetTimeout

/-! ### Entries -/

/-- What is at the socket for an address. -/
def receivedFrom (ip : IpAddress) (incoming : Option (IpAddress × List UInt8)) :
    Option (List UInt8) :=
  incoming.bind fun datagram => if datagram.1 = ip then some datagram.2 else none

namespace Endpoint

open PeerMap

variable {n : Endpoint} {now : ℤ}

theorem findOrCreatePeer_snd (n : Endpoint) (ip : IpAddress) (now : ℤ) :
    (n.findOrCreatePeer 0 ip now).2
      = (n.peers.find ip).getD (.fresh n.connectionManagerConfig n.packetTimeout now) := by
  rw [findOrCreatePeer]
  cases n.peers.find ip <;> rfl

/-- A change of the entry of one address leaves the others alone. -/
theorem find_update_target (n : Endpoint) (target ip : IpAddress) (now : ℤ) (p : Peer) :
    ((n.findOrCreatePeer 0 target now).1.peers.update target p).find ip
      = if ip = target then some p else n.peers.find ip := by
  rw [find_update (by rw [find_findOrCreatePeer]; rfl)]
  by_cases htarget : ip = target
  · rw [if_pos htarget, if_pos htarget]
  · rw [if_neg htarget, if_neg htarget, findOrCreatePeer]
    cases hfind : n.peers.find target with
    | none => exact (find_insert hfind ip).trans (if_neg htarget)
    | some q => rfl

/-- Connecting and sending change the entry of their target. -/
theorem find_single (n : Endpoint) (target ip : IpAddress) (now : ℤ) (f : Peer → Peer) :
    ((n.findOrCreatePeer 0 target now).1.peers.update target
        (f (n.findOrCreatePeer 0 target now).2)).find ip
      = if target = ip then some (f ((n.peers.find ip).getD
          (.fresh n.connectionManagerConfig n.packetTimeout now))) else n.peers.find ip := by
  rw [find_update_target]
  by_cases htarget : target = ip
  · rw [if_pos htarget.symm, if_pos htarget, htarget, findOrCreatePeer_snd]
  · rw [if_neg htarget, if_neg (Ne.symm htarget)]

theorem find_connect (n : Endpoint) (target ip : IpAddress) (now : ℤ) :
    (n.connect target now).peers.find ip = if target = ip then
        let p := (n.peers.find ip).getD (.fresh n.connectionManagerConfig n.packetTimeout now)
        some { p with connectionManager := p.connectionManager.connect }
      else n.peers.find ip :=
  n.find_single target ip now fun p =>
    { p with connectionManager := p.connectionManager.connect }

theorem find_sendReliableTo (n : Endpoint) (target ip : IpAddress) (fn : WriteToBufferFn)
    (now : ℤ) :
    (n.sendReliableTo target fn now).val.peers.find ip = if target = ip then
        let p := (n.peers.find ip).getD (.fresh n.connectionManagerConfig n.packetTimeout now)
        some { p with reliableStream := (p.reliableStream.send fn).val }
      else n.peers.find ip :=
  n.find_single target ip now fun p =>
    { p with reliableStream := (p.reliableStream.send fn).val }

theorem find_sendUnreliableTo (n : Endpoint) (target ip : IpAddress) (fn : WriteToBufferFn)
    (now : ℤ) :
    (n.sendUnreliableTo target fn now).val.peers.find ip = if target = ip then
        let p := (n.peers.find ip).getD (.fresh n.connectionManagerConfig n.packetTimeout now)
        some { p with unreliableStream := (p.unreliableStream.send fn).val }
      else n.peers.find ip :=
  n.find_single target ip now fun p =>
    { p with unreliableStream := (p.unreliableStream.send fn).val }

theorem readEntry_eq (n : Endpoint) (now : ℤ) (ip : IpAddress) :
    n.readEntry now ip = ((n.peers.find ip).map fun p => (p.dropOldPackets now).val.1).getD
      (.fresh n.connectionManagerConfig n.packetTimeout now) := by
  rw [readEntry]
  cases n.peers.find ip <;> rfl

/-- The entry of any address when a tick begins to write. -/
theorem find_beforeWrite_eq (n : Endpoint) (now : ℤ)
    (incoming : Option (IpAddress × List UInt8)) (ip : IpAddress) :
    (n.beforeWrite now incoming).peers.find ip = match receivedFrom ip incoming with
      | none => (n.peers.find ip).map fun p => (p.dropOldPackets now).val.1
      | some payload => some ((n.readEntry now ip).read n.connectionManagerConfig
          ⟨0, (payload.take kJustAboveMtu).length⟩
          (n.networkBuffer.storeList 0 (payload.take kJustAboveMtu))).val.1 := by
  cases incoming with
  | none => exact find_dropOldPackets now n.peers ip
  | some datagram =>
    obtain ⟨sender, payload⟩ := datagram
    by_cases hip : sender = ip
    · subst hip
      rw [find_beforeWrite_sender, receivedFrom, Option.bind_some, if_pos rfl]
    · rw [receivedFrom, Option.bind_some, if_neg hip, beforeWrite,
        (read_some _ now sender payload).1, find_update_target, if_neg (Ne.symm hip)]
      exact find_dropOldPackets now n.peers ip

/-- An entry after the second loop, and the packets to its address. -/
theorem write_outcome (config : ConnectionManagerConfig) (now : ℤ) {peers : PeerMap}
    (hkeys : peers.keys.Nodup) (ip : IpAddress) (mem : Memory) :
    ∃ buffer, (write config now peers mem).val.1.find ip
        = (peers.find ip).map (fun p => (p.write config buffer now).val.1) ∧
      (write config now peers mem).val.2.2.filter (fun sent => sent.1 = ip)
        = match peers.find ip with
          | none => []
          | some p => (p.write config buffer now).val.2.2.toList.map fun packet =>
              (ip, packet) := by
  cases hfind : peers.find ip with
  | none =>
    have hkey := find_eq_none_iff.mp hfind
    refine ⟨mem, ?_, List.filter_eq_nil_iff.mpr fun sent hsent => ?_⟩
    · rw [Option.map_none, find_eq_none_iff, keys_write]
      exact hkey
    · -- packets go to addresses with an entry
      obtain ⟨p, -, hp, -⟩ := mem_sent_of_write hsent
      have hmem : sent.1 ∈ peers.keys := List.mem_map_of_mem (f := Prod.fst) hp
      have hne : sent.1 ≠ ip := fun heq => hkey (heq ▸ hmem)
      simpa using hne
  | some p =>
    obtain ⟨buffer, hp, hsent⟩ := write_entry config now hkeys hfind mem
    exact ⟨buffer, hp, hsent⟩

end Endpoint

/-! ### Observed endpoints -/

/-- What a tick adds to the history of an address. -/
def PeerHistory.afterTick (h : PeerHistory) (ip : IpAddress) (report : TickReport) :
    PeerHistory :=
  let reads := report.read.toList.filter fun read => read.1 = ip
  { h with
    reliableReceived := h.reliableReceived ++ reads.flatMap (·.2.reliable)
    unreliableReceived := h.unreliableReceived ++ reads.flatMap (·.2.unreliable)
    packets := h.packets ++ (report.sent.filter fun sent => sent.1 = ip).map (·.2.payload) }

/-- An endpoint and its history with every address. -/
structure Observed where
  endpoint : Endpoint
  history : IpAddress → PeerHistory := fun _ => {}

namespace Observed

/-- A send is accepted by the stream of its target. -/
def recorded (x : Observed) (ip : IpAddress) : EndpointCall → PeerHistory
  | .connect _ _ => x.history ip
  | .sendReliableTo target fn now =>
    let p := (x.endpoint.findOrCreatePeer 0 ip now).2
    let sent := p.reliableStream.sentAfter fn (x.history ip).reliableSent
    if target = ip then { x.history ip with reliableSent := sent } else x.history ip
  | .sendUnreliableTo target fn now =>
    let p := (x.endpoint.findOrCreatePeer 0 ip now).2
    let sent := p.unreliableStream.acceptedAfter fn (x.history ip).unreliableSent
    if target = ip then { x.history ip with unreliableSent := sent } else x.history ip
  | .tick now incoming => (x.history ip).afterTick ip (x.endpoint.tick now incoming).val.2

def next (x : Observed) (call : EndpointCall) : Observed where
  endpoint := x.endpoint.next call
  history ip := x.recorded ip call

/-- What the endpoint has to do with an address. -/
def node (x : Observed) (ip : IpAddress) : PeerNode := ⟨x.endpoint.peers.find ip, x.history ip⟩

end Observed

/-- The runs of an endpoint with its history. -/
def observed (config : ConnectionManagerConfig) (packetTimeout : ℤ) :
    System Observed EndpointCall where
  init x := x = { endpoint := {
    packetTimeout := packetTimeout
    connectionManagerConfig := config } }
  enabled _ _ := True
  next := Observed.next

/-- The part of a call that is about an address. -/
def EndpointCall.about (ip : IpAddress) (readBuffer writeBuffer : Memory) :
    EndpointCall → Option PeerCall
  | .connect target now => if target = ip then some (.connect now) else none
  | .sendReliableTo target fn now => if target = ip then some (.sendReliable fn now) else none
  | .sendUnreliableTo target fn now =>
    if target = ip then some (.sendUnreliable fn now) else none
  | .tick now incoming => some (.tick now (receivedFrom ip incoming) readBuffer writeBuffer)

namespace Observed

variable {x : Observed}

/-- What a tick reads from an address. -/
theorem tick_reads (n : Endpoint) (now : ℤ) (incoming : Option (IpAddress × List UInt8))
    (ip : IpAddress) :
    ((n.tick now incoming).val.2.read.toList.filter fun read => read.1 = ip)
      = match receivedFrom ip incoming with
        | none => []
        | some payload => [(ip, ((n.readEntry now ip).read n.connectionManagerConfig
            ⟨0, (payload.take kJustAboveMtu).length⟩
            (n.networkBuffer.storeList 0 (payload.take kJustAboveMtu))).val.2)] := by
  cases incoming with
  | none => rfl
  | some datagram =>
    obtain ⟨sender, payload⟩ := datagram
    rw [n.tick_read_some, receivedFrom, Option.bind_some]
    by_cases hip : sender = ip
    · subst hip
      rw [if_pos rfl]
      exact List.filter_cons_of_pos (by simp)
    · rw [if_neg hip]
      exact List.filter_cons_of_neg (by simpa using hip)

theorem node_next_eq (x : Observed) (call : EndpointCall) (ip : IpAddress) :
    (x.next call).node ip = ⟨(x.endpoint.next call).peers.find ip, x.recorded ip call⟩ := rfl

/-- A tick of the endpoint is a tick of the machine of every address. -/
theorem node_tick (h : x.endpoint.Distinct) (ip : IpAddress) (now : ℤ)
    (incoming : Option (IpAddress × List UInt8)) :
    ∃ writeBuffer, (x.next (.tick now incoming)).node ip
      = (x.node ip).tick x.endpoint.connectionManagerConfig x.endpoint.packetTimeout now
          (receivedFrom ip incoming) x.endpoint.networkBuffer writeBuffer := by
  obtain ⟨hpeers, hsent⟩ := x.endpoint.tick_written now incoming
  obtain ⟨buffer, hfind, hfilter⟩ := Endpoint.write_outcome x.endpoint.connectionManagerConfig
    now (h.beforeWrite now incoming) ip (x.endpoint.beforeWrite now incoming).networkBuffer
  have hbefore := x.endpoint.find_beforeWrite_eq now incoming ip
  have hreads := tick_reads x.endpoint now incoming ip
  rw [Endpoint.readEntry_eq] at hbefore hreads
  refine ⟨buffer, ?_⟩
  rw [node_next_eq]
  simp only [Endpoint.next, recorded, PeerHistory.afterTick]
  rw [hreads, hpeers, hsent, Endpoint.written, hfind, hfilter, hbefore]
  cases hreceived : receivedFrom ip incoming with
  | none =>
    -- the entry is dropped from and written, if there is one
    cases hentry : x.endpoint.peers.find ip with
    | none => simp [node, hentry, PeerNode.tick, PeerNode.dropOldPackets, PeerNode.write]
    | some p => simp [node, hentry, PeerNode.tick, PeerNode.dropOldPackets, PeerNode.write]
  | some payload =>
    cases hentry : x.endpoint.peers.find ip with
    | none =>
      simp [node, hentry, PeerNode.tick, PeerNode.dropOldPackets, PeerNode.read, PeerNode.write]
    | some p =>
      simp [node, hentry, PeerNode.tick, PeerNode.dropOldPackets, PeerNode.read, PeerNode.write]

/-- **A call of the endpoint** is one call, or none, of the machine of an address. -/
theorem node_next (h : x.endpoint.Distinct) (ip : IpAddress) (call : EndpointCall) :
    ∃ writeBuffer, (x.next call).node ip
      = match call.about ip x.endpoint.networkBuffer writeBuffer with
        | none => x.node ip
        | some peerCall => (x.node ip).next x.endpoint.connectionManagerConfig
            x.endpoint.packetTimeout peerCall := by
  have hsnd := x.endpoint.findOrCreatePeer_snd ip
  cases call with
  | connect target now =>
    refine ⟨x.endpoint.networkBuffer, ?_⟩
    rw [node_next_eq, Endpoint.next, Endpoint.find_connect, EndpointCall.about]
    by_cases htarget : target = ip
    · rw [if_pos htarget, if_pos htarget]
      rfl
    · rw [if_neg htarget, if_neg htarget]
      rfl
  | sendReliableTo target fn now =>
    refine ⟨x.endpoint.networkBuffer, ?_⟩
    rw [node_next_eq, Endpoint.next, Endpoint.find_sendReliableTo, EndpointCall.about]
    simp only [recorded, hsnd]
    by_cases htarget : target = ip
    · simp only [if_pos htarget]
      rfl
    · simp only [if_neg htarget]
      rfl
  | sendUnreliableTo target fn now =>
    refine ⟨x.endpoint.networkBuffer, ?_⟩
    rw [node_next_eq, Endpoint.next, Endpoint.find_sendUnreliableTo, EndpointCall.about]
    simp only [recorded, hsnd]
    by_cases htarget : target = ip
    · simp only [if_pos htarget]
      rfl
    · simp only [if_neg htarget]
      rfl
  | tick now incoming => exact node_tick h ip now incoming

end Observed

/-! ### Runs -/

theorem Endpoint.next_packetTimeout (n : Endpoint) (call : EndpointCall) :
    (n.next call).packetTimeout = n.packetTimeout := by
  have hcreated : ∀ ip now, (n.findOrCreatePeer 0 ip now).1.packetTimeout = n.packetTimeout := by
    intro ip now
    rw [findOrCreatePeer]
    cases n.peers.find ip <;> rfl
  cases call with
  | connect ip now => exact hcreated ip now
  | sendReliableTo ip fn now => exact hcreated ip now
  | sendUnreliableTo ip fn now => exact hcreated ip now
  | tick now incoming =>
    show (read { n with peers := (dropOldPackets now n.peers).val.1 } now
      incoming).val.1.packetTimeout = _
    cases incoming with
    | none => rfl
    | some datagram => rw [(read_some _ now datagram.1 datagram.2).1]

/-- Every state of an endpoint's run is one of a machine's run, for any run from a
state with distinct entries. -/
theorem Observed.run_node (config : ConnectionManagerConfig) (packetTimeout : ℤ)
    (ip : IpAddress) {x : Observed} (h : x.endpoint.Distinct)
    (hconfig : x.endpoint.connectionManagerConfig = config)
    (htimeout : x.endpoint.packetTimeout = packetTimeout) (calls : List EndpointCall) :
    ∃ buffers : List (Memory × Memory), buffers.length = calls.length ∧
      ((observed config packetTimeout).runFrom x calls).node ip
        = (peerRuns config packetTimeout).runFrom (x.node ip)
            ((calls.zip buffers).filterMap fun call => call.1.about ip call.2.1 call.2.2) := by
  induction calls generalizing x with
  | nil => exact ⟨[], rfl, rfl⟩
  | cons call calls ih =>
    obtain ⟨writeBuffer, hnode⟩ := node_next h ip call
    obtain ⟨buffers, hlength, hrun⟩ := @ih (x.next call) (h.next call)
      ((x.endpoint.next_config call).trans hconfig)
      ((x.endpoint.next_packetTimeout call).trans htimeout)
    refine ⟨(x.endpoint.networkBuffer, writeBuffer) :: buffers, congrArg (· + 1) hlength, ?_⟩
    rw [hconfig, htimeout] at hnode
    rw [List.zip_cons_cons, List.filterMap_cons]
    show ((observed config packetTimeout).runFrom (x.next call) calls).node ip = _
    rw [hrun, hnode]
    cases call.about ip x.endpoint.networkBuffer writeBuffer <;> rfl

end Neptun
