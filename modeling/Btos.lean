import Btos.Kernel.Lock
import Btos.Kernel.Messaging.Access
import Btos.Kernel.Messaging.Replies
import Btos.Kernel.Mm2.SafePtr
import Btos.Kernel.Mm2.Syscalls
import Btos.User.Semaphore
import Btos.Kernel.Messaging.ContentRuns
import Btos.Kernel.Messaging.Delivery
import Btos.Kernel.Messaging.ReceiptRuns
import Btos.Kernel.Mm2.FreePages
import Btos.Kernel.Mm2.MmapRuns
import Btos.Kernel.Mm2.ShmReadOnly
import Btos.Modules.Ata.Mbr
import Btos.Kernel.Processes.ChildReturns
import Btos.Kernel.Processes.PermissionRuns
import Btos.Kernel.Processes.Protection
import Btos.Modules.Pcrtc.ClockTime
import Btos.User.Cmd.Globbing
import Btos.Kernel.Processes.HandleCleanup
import Btos.Modules.Ata.Async
import Btos.Modules.Ata.Freshness
import Btos.User.Btoslib.InfoTables
import Btos.User.Btoslib.Interpolate
import Btos.User.Cmd.ArrayRoundTrip
import Btos.User.Cmd.ScriptRun
import Btos.User.Newlib.DescriptorRuns
import Btos.User.Newlib.PthreadCond
import Btos.User.Newlib.PthreadKeys
import Btos.User.Package.Containment
import Btos.Kernel.Messaging.AwaitFiltered
import Btos.Kernel.Mm2.PhysicalSearch
import Btos.Kernel.Mm2.ShmClose
import Btos.Kernel.FileSeek
import Btos.Kernel.Filesystems
import Btos.Modules.Iso9660
import Btos.Kernel.Mm2.ShmBacking
import Btos.Kernel.LockCounts
import Btos.Modules.OperationQueue
import Btos.Util.CircularBuffer
import Btos.User.Wm.Client
import Btos.User.Package.Features
import Btos.User.Wm.Windows
import Btos.Modules.Terminal.Console
import Btos.Modules.Terminal.ReadLine
import Btos.User.Eloader.HashLookup
import Btos.User.Eloader.Malloc
