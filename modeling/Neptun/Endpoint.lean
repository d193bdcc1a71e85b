/-
`Neptun`: one endpoint, with a `Peer` entry for every address it talks to.

A tick times out old packets of every peer, reads at most one datagram and
writes to every peer.  Reading and writing pass through four stages (packet
delivery, connection, reliable and unreliable stream) that share one network
buffer; a stage goes on behind the bytes of the one before.  The socket is
modelled by what it does to the buffer: a received datagram is copied to its
beginning, a sent one is cut from it.

Besides the new state a tick returns a `TickReport`: what was read, which
delivery statuses came up, which packets were sent.  Metrics and log lines are
left out; nothing reads them.
-/
import Neptun.ConnectionManager
import Neptun.ReliableStream
import Neptun.UnreliableStream
import Neptun.Ticker

namespace Neptun

def kJustAboveMtu : ℕ := 1600
def kJustBelowMtu : UInt16 := 1400

/-- An address, ordered by ip and then by port. -/
structure IpAddress where
  ip : UInt32
  port : UInt16
  deriving DecidableEq, Repr

def IpAddress.lt (x y : IpAddress) : Bool :=
  x.ip < y.ip || (x.ip == y.ip && x.port < y.port)

structure Peer where
  sendPacketTicker : Ticker
  packetDeliveryManager : PacketDeliveryManager
  connectionManager : ConnectionManager
  reliableStream : ReliableStream := {}
  unreliableStream : UnreliableStream := {}

/-- What happened to a datagram that was read. -/
structure ReadReport where
  packetId : PacketId
  /-- The packet delivery manager returned a non-zero count. -/
  accepted : Bool
  /-- The statuses returned by `process_read`. -/
  statuses : DeliveryStatuses
  /-- The span that was handed to `ReliableStream::read`. -/
  reliableSpan : Option Span := none
  /-- The payloads given to `on_reliable`. -/
  reliable : List (List UInt8) := []
  /-- The payloads given to `on_unreliable`. -/
  unreliable : List (List UInt8) := []

/-- A packet built by `write_to_peer`, with the counts of its four stages. -/
structure Packet where
  payload : List UInt8
  packetHeaderCount : ℕ
  connectionManagerCount : ℕ
  reliableStreamCount : ℕ
  unreliableStreamCount : ℕ
  deriving DecidableEq, Repr

namespace Peer

def updateSendRate (p : Peer) (rate : UInt8) : Peer :=
  if rate = 0 then
    { p with sendPacketTicker := p.sendPacketTicker.clearTickInterval }
  else
    { p with sendPacketTicker :=
        p.sendPacketTicker.setTickInterval ((1000000000 : ℤ).tdiv rate.toNat) }

def processDeliveryStatuses : Peer → DeliveryStatuses → Checked Fault Peer
  | p, [] => pure p
  | p, (packetId, status) :: statuses => do
    let connectionManager ← p.connectionManager.onPacketStatusDelivery packetId status
    let reliableStream ← p.reliableStream.onPacketDeliveryStatus packetId status
    processDeliveryStatuses
      { p with connectionManager := connectionManager, reliableStream := reliableStream } statuses

def dropOldPackets (p : Peer) (now : ℤ) : Checked Fault (Peer × DeliveryStatuses) := do
  let (packetDeliveryManager, statuses) := p.packetDeliveryManager.dropOldPackets now
  let p ← processDeliveryStatuses { p with packetDeliveryManager := packetDeliveryManager } statuses
  pure (p, statuses)

/-- The stream stages of `read`, for a connected peer. -/
def readStreams (config : ConnectionManagerConfig) (p : Peer) (limit : BandwidthLimit)
    (b : Span) (mem : Memory) (report : ReadReport) : Checked Fault (Peer × ReadReport) := do
  let peerMaxReadPacketRate := limit.maxReadPacketRate
  let selfMaxSendPacketRate := config.limit.maxSendPacketRate
  let p :=
    if peerMaxReadPacketRate = 0 then p.updateSendRate selfMaxSendPacketRate
    else if selfMaxSendPacketRate = 0 then p.updateSendRate peerMaxReadPacketRate
    else p.updateSendRate (min peerMaxReadPacketRate selfMaxSendPacketRate)
  let (reliableStream, reliable, result) ← p.reliableStream.read b mem
  let p := { p with reliableStream := reliableStream }
  let report := { report with reliableSpan := some b, reliable := reliable }
  match result with
  | .error _ => pure (p, report)
  | .ok reliableStreamCount =>
    let b ← advance b reliableStreamCount
    let (unreliable, result) ← UnreliableStream.read b mem
    let report := { report with unreliable := unreliable }
    match result with
    | .error _ => pure (p, report)
    | .ok unreliableStreamCount =>
      let _ ← advance b unreliableStreamCount
      pure (p, report)

/-- The connection manager stage of `read`. -/
def readConnection (config : ConnectionManagerConfig) (p : Peer) (b : Span) (mem : Memory)
    (report : ReadReport) : Checked Fault (Peer × ReadReport) := do
  let (connectionManager, result) ← p.connectionManager.read b mem
  let p := { p with connectionManager := connectionManager }
  match result with
  | .error _ => pure (p, report)
  | .ok connectionManagerCount =>
    let b ← advance b connectionManagerCount
    match p.connectionManager.peerLimit with
    -- messages are not processed unless the connection has been established
    | none => pure (p, report)
    | some limit => readStreams config p limit b mem report

/-- The packet delivery manager stage of `read`, and all that follows.  The
statuses of a packet that is ignored are not processed. -/
def read (config : ConnectionManagerConfig) (p : Peer) (b : Span) (mem : Memory) :
    Checked Fault (Peer × ReadReport) := do
  let header ← PacketHeader.read b mem
  let (packetDeliveryManager, readCount, statuses, packetId) ←
    p.packetDeliveryManager.processRead header
  let p := { p with packetDeliveryManager := packetDeliveryManager }
  let report : ReadReport := ⟨packetId, readCount ≠ 0, statuses, none, [], []⟩
  if readCount = 0 then
    pure (p, report)
  else
    let b ← advance b readCount
    let p ← p.processDeliveryStatuses statuses
    readConnection config p b mem report

def writeToPeer (p : Peer) (mem : Memory) (now : ℤ) (maxSendPacketSize : UInt16) :
    Checked Fault (Peer × Memory × Packet) := do
  let buffer : Span := ⟨0, (min kJustBelowMtu maxSendPacketSize).toNat⟩
  let (packetDeliveryManager, mem, packetHeaderCount) ←
    p.packetDeliveryManager.write buffer mem now
  let packetId ← PacketHeader.readId ⟨buffer.off, packetHeaderCount⟩ mem
  let buffer ← advance buffer packetHeaderCount
  let (connectionManager, mem, connectionManagerCount) ←
    p.connectionManager.write packetId buffer mem
  let buffer ← advance buffer connectionManagerCount
  let (reliableStream, mem, reliableStreamCount) ← p.reliableStream.write packetId buffer mem
  let buffer ← advance buffer reliableStreamCount
  let (unreliableStream, mem, unreliableStreamCount) ← p.unreliableStream.write buffer mem
  let _ ← advance buffer unreliableStreamCount
  let payload := mem.slice 0 (packetHeaderCount + connectionManagerCount
    + reliableStreamCount + unreliableStreamCount)
  pure (⟨p.sendPacketTicker, packetDeliveryManager, connectionManager, reliableStream,
      unreliableStream⟩, mem,
    ⟨payload, packetHeaderCount, connectionManagerCount, reliableStreamCount,
      unreliableStreamCount⟩)

/-- One iteration of `write`: the packet is none if the rate limiter holds it
back. -/
def write (config : ConnectionManagerConfig) (p : Peer) (mem : Memory) (now : ℤ) :
    Checked Fault (Peer × Memory × Option Packet) := do
  let maxSendPacketSize := match p.connectionManager.peerLimit with
    | some limit => min limit.maxReadPacketSize config.limit.maxSendPacketSize
    | none => config.limit.maxSendPacketSize
  let (sendPacketTicker, ticked) ← p.sendPacketTicker.tick now
  let p := { p with sendPacketTicker := sendPacketTicker }
  if ticked || !p.connectionManager.isFullyConnected then
    let (p, mem, packet) ← p.writeToPeer mem now maxSendPacketSize
    pure (p, mem, some packet)
  else
    pure (p, mem, none)

end Peer

/-- The peers in the order of their addresses. -/
abbrev PeerMap := List (IpAddress × Peer)

namespace PeerMap

def find (peers : PeerMap) (ip : IpAddress) : Option Peer :=
  match peers with
  | [] => none
  | (key, p) :: peers => if key = ip then some p else find peers ip

/-- Insert an entry for an address that has none. -/
def insert (peers : PeerMap) (ip : IpAddress) (p : Peer) : PeerMap :=
  match peers with
  | [] => [(ip, p)]
  | (key, q) :: peers =>
    if ip.lt key then (ip, p) :: (key, q) :: peers else (key, q) :: insert peers ip p

/-- Replace the entry of an address. -/
def update (peers : PeerMap) (ip : IpAddress) (p : Peer) : PeerMap :=
  match peers with
  | [] => []
  | (key, q) :: peers =>
    if key = ip then (key, p) :: peers else (key, q) :: update peers ip p

end PeerMap

/-- The state of a `Neptun` object. -/
structure Endpoint where
  peers : PeerMap := []
  networkBuffer : Memory := fun _ => 0
  packetTimeout : ℤ
  connectionManagerConfig : ConnectionManagerConfig

/-- What a tick did. -/
structure TickReport where
  /-- The statuses of packets that timed out. -/
  dropped : List (IpAddress × DeliveryStatuses) := []
  /-- The datagram that was read. -/
  read : Option (IpAddress × ReadReport) := none
  /-- The packets that were sent. -/
  sent : List (IpAddress × Packet) := []

namespace Endpoint

def createPeer (n : Endpoint) (nextExpectedPacketId : PacketId) (now : ℤ) : Peer where
  sendPacketTicker := Ticker.ofNow now none
  packetDeliveryManager := {
    packetTimeout := n.packetTimeout
    nextExpectedPacketId := nextExpectedPacketId }
  connectionManager := { config := n.connectionManagerConfig }

/-- The peer of an address, and the endpoint with an entry for it. -/
def findOrCreatePeer (n : Endpoint) (nextExpectedPacketId : PacketId) (ip : IpAddress) (now : ℤ) :
    Endpoint × Peer :=
  match n.peers.find ip with
  | some p => (n, p)
  | none =>
    let p := n.createPeer nextExpectedPacketId now
    ({ n with peers := n.peers.insert ip p }, p)

def connect (n : Endpoint) (ip : IpAddress) (now : ℤ) : Endpoint :=
  let (n, p) := n.findOrCreatePeer 0 ip now
  { n with peers :=
      n.peers.update ip { p with connectionManager := p.connectionManager.connect } }

def isConnected (n : Endpoint) (ip : IpAddress) : Bool :=
  match n.peers.find ip with
  | some p => p.connectionManager.isPeerConnected
  | none => false

def sendReliableTo (n : Endpoint) (ip : IpAddress) (fn : WriteToBufferFn) (now : ℤ) :
    Checked Fault Endpoint := do
  Checked.check (n.isConnected ip) (.assertion .isConnected)
  let (n, p) := n.findOrCreatePeer 0 ip now
  let reliableStream ← p.reliableStream.send fn
  pure { n with peers := n.peers.update ip { p with reliableStream := reliableStream } }

def sendUnreliableTo (n : Endpoint) (ip : IpAddress) (fn : WriteToBufferFn) (now : ℤ) :
    Checked Fault Endpoint := do
  Checked.check (n.isConnected ip) (.assertion .isConnected)
  let (n, p) := n.findOrCreatePeer 0 ip now
  let unreliableStream ← p.unreliableStream.send fn
  pure { n with peers := n.peers.update ip { p with unreliableStream := unreliableStream } }

/-- The first loop of `tick`. -/
def dropOldPackets (now : ℤ) :
    PeerMap → Checked Fault (PeerMap × List (IpAddress × DeliveryStatuses))
  | [] => pure ([], [])
  | (ip, p) :: peers => do
    let (p, statuses) ← p.dropOldPackets now
    let (peers, dropped) ← dropOldPackets now peers
    pure ((ip, p) :: peers, (ip, statuses) :: dropped)

/-- `read`, given the datagram that is waiting at the socket, if any. -/
def read (n : Endpoint) (now : ℤ) (incoming : Option (IpAddress × List UInt8)) :
    Checked Fault (Endpoint × Option (IpAddress × ReadReport)) :=
  match incoming with
  | none => pure (n, none)
  | some (sender, payload) => do
    let payload := payload.take kJustAboveMtu
    let n := { n with networkBuffer := n.networkBuffer.storeList 0 payload }
    let (n, p) := n.findOrCreatePeer 0 sender now
    let (p, report) ← p.read n.connectionManagerConfig ⟨0, payload.length⟩ n.networkBuffer
    pure ({ n with peers := n.peers.update sender p }, some (sender, report))

/-- The loop of `write`. -/
def write (config : ConnectionManagerConfig) (now : ℤ) :
    PeerMap → Memory → Checked Fault (PeerMap × Memory × List (IpAddress × Packet))
  | [], mem => pure ([], mem, [])
  | (ip, p) :: peers, mem => do
    let (p, mem, packet) ← p.write config mem now
    let (peers, mem, sent) ← write config now peers mem
    pure ((ip, p) :: peers, mem, packet.toList.map (fun packet => (ip, packet)) ++ sent)

def tick (n : Endpoint) (now : ℤ) (incoming : Option (IpAddress × List UInt8)) :
    Checked Fault (Endpoint × TickReport) := do
  let (peers, dropped) ← dropOldPackets now n.peers
  let n := { n with peers := peers }
  let (n, report) ← n.read now incoming
  let (peers, mem, sent) ← write n.connectionManagerConfig now n.peers n.networkBuffer
  pure ({ n with peers := peers, networkBuffer := mem }, ⟨dropped, report, sent⟩)

end Endpoint

end Neptun
