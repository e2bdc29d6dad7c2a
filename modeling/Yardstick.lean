import Yardstick.Base.Runs
import Yardstick.Base.Chain
import Yardstick.Base.LittleEndian
import Yardstick.Base.Framing
import Yardstick.Base.Spool
import Yardstick.Base.OrderedSearch
import Yardstick.Base.InsertionMap
import Yardstick.Base.TaggedLog
import Yardstick.Base.SocketFrames
import Yardstick.Base.Delimited
import Yardstick.Base.ChunkedBody
import Yardstick.Base.BlockHash
import Yardstick.Base.Base64
import Yardstick.Base.WrappingCounter
import Yardstick.Base.TicketRing
import Yardstick.Base.RingWindow
import Yardstick.Base.BoundedFifo
import Yardstick.Base.Ledger
import Yardstick.Base.Guarded
import Yardstick.Base.WordMixing
import Yardstick.PointerHash
import Yardstick.Protocol
import Yardstick.Wire
import Yardstick.EncodeBounds
import Yardstick.EventReader
import Yardstick.RoundTrip
import Yardstick.Reencode
import Yardstick.YsProtocol
import Yardstick.YsState
import Yardstick.CounterTotals
import Yardstick.YsConnection
import Yardstick.FrameTimeline
import Yardstick.YsView
import Yardstick.SinkSession
import Yardstick.SinkSessions
import Yardstick.SinkBlocks
import Yardstick.SinkListen
import Yardstick.SinkResources
import Yardstick.SinkRelisten
import Yardstick.SinkRelistenList
import Yardstick.SinkRelistenSafe
import Yardstick.SinkClosed
import Yardstick.WebbyServer
import Yardstick.WebbyConnection
import Yardstick.WebbyQuery
import Yardstick.WebbyFrames
import Yardstick.WebbyOutput
import Yardstick.WebbyResponses
import Yardstick.WebbyRequest
import Yardstick.WebbyHandshake
import Yardstick.WebbyMessages
import Yardstick.WebbyUpdate
import Yardstick.WebbyIncoming
import Yardstick.WebbyServing
import Yardstick.SinkWire
import Yardstick.SinkServer
import Yardstick.SinkStalls
import Yardstick.WebbySlots
import Yardstick.WebbyBlocking
import Yardstick.StringTable
import Yardstick.StringsOnce
import Yardstick.ThreadRegistry
import Yardstick.ConcurrentQueue
import Yardstick.QueueInvariant
import Yardstick.QueueSafety
import Yardstick.QueueAnswers
import Yardstick.ThreadQueue
import Yardstick.ThreadDrain
import Yardstick.Delivery
import Yardstick.ConcurrentCircularBuffer
import Yardstick.CircularBufferFifo
import Yardstick.Lifecycle
import Yardstick.Reinitialize
import Yardstick.Spinlock
import Yardstick.Signal
import Yardstick.EmitEvent
