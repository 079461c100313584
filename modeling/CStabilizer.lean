import CStabilizer.Library.MachineOrder
import CStabilizer.Library.StableSort
import CStabilizer.Library.SearchTree
import CStabilizer.Library.Containers
import CStabilizer.Library.Splits
import CStabilizer.Library.Machine
import CStabilizer.Library.Buckets
import CStabilizer.Library.LinkedList
import CStabilizer.Library.ConditionVariable
import CStabilizer.Library.CString
import CStabilizer.Library.Decimal
import CStabilizer.Library.Memory
import CStabilizer.Library.Segments
import CStabilizer.Message
import CStabilizer.Data
import CStabilizer.Data.Refinement
import CStabilizer.ServerAPI.Segmentation
import CStabilizer.ServerAPI.Framing
import CStabilizer.ServerAPI.Payload
import CStabilizer.ServerAPI.TelnetLines
import CStabilizer.ThreadUtil.PacketOrder
import CStabilizer.ThreadUtil.Wakeups
import CStabilizer.ThreadUtil.Linearization
import CStabilizer.ThreadUtil.ThreadToken
import CStabilizer.ProcessingThread.Delivery
import CStabilizer.ProcessingThread.FailedDelivery
import CStabilizer.ProcessingThread.LoopIterator
import CStabilizer.ProcessingThread.UpperBound
import CStabilizer.ProcessingThread.Interleaving
import CStabilizer.ProcessingThread.StableOrder
import CStabilizer.ProcessingThread.Independence
import CStabilizer.ProcessingThread.WireFormat
import CStabilizer.SocketManager.TimerIds
import CStabilizer.SocketManager.TimerOnTime
import CStabilizer.SocketManager.TimerLaps
import CStabilizer.SocketManager.TimerDelay
import CStabilizer.SocketManager.SlotPass
import CStabilizer.SocketManager.CatchUp
import CStabilizer.SocketManager.SendResult
import CStabilizer.SocketManager.Callbacks
import CStabilizer.SocketManager.Charged
import CStabilizer.SocketManager.LocalPointer
import CStabilizer.SocketManager.ReadTurns
import CStabilizer.MultiplexerServer.EndToEnd
