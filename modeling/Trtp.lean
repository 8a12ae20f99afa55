import Trtp.Lib.Bytes
import Trtp.Lib.Mask
import Trtp.Lib.Serial
import Trtp.Lib.Run
import Trtp.Lib.Circular
import Trtp.Lib.Reorder
import Trtp.Lib.SlidingWindow
import Trtp.Lib.Crc
import Trtp.Lib.Burst
import Trtp.Lib.Queue
import Trtp.Lib.Access
import Trtp.Process
import Trtp.Packet
import Trtp.Codec
import Trtp.Encoding
import Trtp.Accessors
import Trtp.WireFormat
import Trtp.Truncation
import Trtp.InPlace
import Trtp.Dissector
import Trtp.Buffer
import Trtp.Fifo
import Trtp.Iteration
import Trtp.Lookup
import Trtp.Net
import Trtp.Transmit
import Trtp.SendBuffer
import Trtp.SenderRuns
import Trtp.SenderLog
import Trtp.Retransmission
import Trtp.Silence
import Trtp.Nack
import Trtp.FlowControl
import Trtp.FastRetransmit
import Trtp.Receive
import Trtp.ReceiveBuffer
import Trtp.ReceiverRuns
import Trtp.DataStream
import Trtp.Overflow
import Trtp.InOrder
import Trtp.Acknowledgement
import Trtp.Progress
import Trtp.Network
import Trtp.Transfer
import Trtp.Marking
import Trtp.PairFlow
import Trtp.Undisturbed
import Trtp.Traffic
import Trtp.Accord
import Trtp.Refinement
import Trtp.Window
import Trtp.Promise
import Trtp.Conformance
import Trtp.Garbling
import Trtp.OnlyData
import Trtp.FullTest
import Trtp.Rejection
import Trtp.AnyOrder
import Trtp.EndOfTransfer
import Trtp.ZeroWindow
import Trtp.Draining
import Trtp.Aliasing
import Trtp.NackRequests
import Trtp.Reads
import Trtp.Lingering
import Trtp.Completion
import Trtp.Faultless
