import Ringline.H2.HpackSync
import Ringline.Uring.SendOrder
import Ringline.H2.FrameRoundTrip
import Ringline.H2.FrameSizes
import Ringline.H2.SendWindow
import Ringline.H2.RecvWindow
import Ringline.H2.HpackPeers
import Ringline.Runtime.TaskOwnership
import Ringline.Http.H1Head
import Ringline.Http.BlockedSends
import Ringline.Grpc.CallErrors
import Ringline.Grpc.Messages
import Ringline.H3.SendQueue
import Ringline.H3.Cuts
import Ringline.H3.RoundTrip
import Ringline.Runtime.Cancellation
import Ringline.Runtime.Channel
import Ringline.Runtime.SendCapacity
import Ringline.Quic.Responses
import Ringline.Quic.Connections
import Ringline.Mio.Wakeups
import Ringline.Quic.Identifiers
import Ringline.Mio.SendOrder
import Ringline.Mio.Forwards
import Ringline.Uring.RecvOrder
import Ringline.Tls.SlotBound
import Ringline.Ketama.Ring
import Ringline.Uring.AccumulatorTable
