import NetHelper.Theorems.TxProtocol
import NetHelper.Theorems.Reservations
import NetHelper.Theorems.SlotCredit
import NetHelper.Theorems.Grants
import NetHelper.Theorems.SlotFilling
import NetHelper.Theorems.RxProtocol
import NetHelper.Theorems.RecvBatch
import NetHelper.Theorems.HeldFrames
import NetHelper.Theorems.Grouping
import NetHelper.Theorems.FallbackChannel
import NetHelper.Theorems.FallbackHeap
import NetHelper.Theorems.InterfaceName
import NetHelper.Theorems.Request
import NetHelper.Theorems.Resolution
import NetHelper.Theorems.AsyncRead
import NetHelper.Theorems.AsyncWrite
import NetHelper.Theorems.Wakeups
import NetHelper.Theorems.GeneratedPackets
import NetHelper.Theorems.GeneratorStores
import NetHelper.Theorems.SendLoop
import NetHelper.Theorems.Interface
import NetHelper.Theorems.OpenedInterface
import NetHelper.Theorems.Pipe
import NetHelper.Theorems.GeneratorStream
import NetHelper.Theorems.OnTheWire
import NetHelper.Theorems.AsyncProtocol
import NetHelper.Theorems.PipeWriters
import NetHelper.Theorems.StandIn
import NetHelper.Theorems.MainLoop
import NetHelper.Theorems.Faults
import NetHelper.Theorems.Program
