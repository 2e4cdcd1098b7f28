import Brtos.Properties.Scheduling
import Brtos.Properties.Delay
import Brtos.Properties.WaitLists
import Brtos.Properties.Blocking
import Brtos.Properties.Ceiling
import Brtos.Properties.Mutex
import Brtos.Properties.Semaphore
import Brtos.Properties.Queue
import Brtos.Properties.Uninstall
import Brtos.Properties.Idle
import Brtos.Properties.TableBounds
import Brtos.Properties.TaskTable
import Brtos.Properties.Mailbox
import Brtos.Properties.Tickless
import Brtos.Properties.Creation
import Brtos.Properties.Lifecycle
import Brtos.Properties.NewTask
import Brtos.Properties.Calendar
import Brtos.Properties.QueueHeap
import Brtos.Timer.Sleep
import Brtos.Properties.StaticQueue
import Brtos.Properties.DynamicQueue
import Brtos.Timer.Stop
import Brtos.Timer.Expiry
import Brtos.Timer.Get
import Brtos.Port.CreateStack
import Brtos.Interrupts.Nesting
import Brtos.Properties.BinarySem
import Brtos.Properties.Deadlines
import Brtos.Properties.DelayHMSM
import Brtos.Properties.RuntimeStats
import Brtos.Device.Open
import Brtos.Lib.BinarySearch
import Brtos.Terminal.Model
import Brtos.Terminal.Tokens
import Brtos.Terminal.History
import Brtos.Terminal.Input
import Brtos.Terminal.Lookup
import Brtos.Terminal.Bounds
import Brtos.Terminal.Editing
import Brtos.Properties.Selection
import Brtos.LwIP.SysArch
import Brtos.Lib.Links
import Brtos.Lib.Cuts
import Brtos.MemoryAllocation.Model
import Brtos.MemoryAllocation.Arena
import Brtos.MemoryAllocation.Heap
import Brtos.MemoryAllocation.Alloc
import Brtos.Lib.ByteStore
import Brtos.MemoryAllocation.System
import Brtos.MemoryAllocation.Store
import Brtos.MemoryAllocation.Info
import Brtos.MemoryAllocation.Kernel
import Brtos.MemoryAllocation.Messages
import Brtos.Properties.CeilingProtocol
import Brtos.Info.Text
import Brtos.Info.Clock
import Brtos.Info.CpuLoad
