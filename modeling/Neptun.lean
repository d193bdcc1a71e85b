import Neptun.AckEncoding
import Neptun.AckMeansProcessed
import Neptun.AckSoundness
import Neptun.AddressText
import Neptun.AssertionSafety
import Neptun.Blocking
import Neptun.DatagramOrder
import Neptun.EndpointRecovery
import Neptun.Grammar
import Neptun.Handshake
import Neptun.HandshakeAgreement
import Neptun.HandshakeFinal
import Neptun.Metrics
import Neptun.PacketLayout
import Neptun.PacketSize
import Neptun.Parsing
import Neptun.PcapFile
import Neptun.Ping
import Neptun.RateLimit
import Neptun.Recovery
import Neptun.Rejection
import Neptun.ReliableChannel
import Neptun.ReliableRoundTrip
import Neptun.Resolution
import Neptun.SharedBuffer
import Neptun.StatusRuns
import Neptun.TickerPhase
import Neptun.TickerSafety
import Neptun.UnreliableBuffer
import Neptun.UnreliableChannel
