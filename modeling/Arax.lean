import Arax.Lib.Run
import Arax.Lib.Words
import Arax.Utils.Bitmap
import Arax.Utils.BitmapPaths
import Arax.Utils.BitmapRuns
import Arax.Utils.BitmapBounds
import Arax.Utils.BitmapComplete
import Arax.Arch.InitExit
import Arax.Arch.ControllerReady
import Arax.Async.Semaphore
import Arax.Utils.Queue
import Arax.Utils.QueueCapacity
import Arax.Lib.Circular
import Arax.Utils.List
import Arax.Core.LastReference
import Arax.Core.Object
import Arax.Core.PendingTasks
import Arax.Core.PipeInit
import Arax.Core.References
import Arax.Core.Issue
import Arax.Core.Destructors
import Arax.Core.Api
import Arax.Core.Calls
import Arax.Core.Conservation
import Arax.Core.DataOrder
import Arax.Core.DataGet
import Arax.Core.ProcMap
import Arax.Core.ThrottleMutex
import Arax.Core.ThrottleSpin
import Arax.Core.Ownership
import Arax.Core.Assignment
import Arax.Core.Heterogeneous
import Arax.Core.FullQueue
import Arax.Core.QueuedTasks
import Arax.Core.PhysLifetime
import Arax.Core.ProcReferences
import Arax.Core.ProcRegistry
import Arax.Core.ProcHandles
import Arax.Core.RegisterFailure
import Arax.Core.PipeAttach
import Arax.Core.HeldVaqs
import Arax.Core.DevicePressure
import Arax.Lib.Heap
import Arax.Controller.DeviceOps
import Arax.Controller.Migration
import Arax.Lib.Loop
import Arax.Controller.MigrationCharge
import Arax.Controller.AssignVac
import Arax.Controller.Elastic
import Arax.Controller.ElasticBuffers
import Arax.Lib.Budget
import Arax.Controller.Serve
import Arax.Controller.Builtins
import Arax.Controller.BuiltinAgreement
import Arax.Controller.GpuThrottle
import Arax.Controller.CpuThrottle
import Arax.Controller.RoundRobin
import Arax.Controller.VacBalancer
import Arax.Controller.AllocateRemote
import Arax.Alloc.Layout
import Arax.Core.DataBuffer
import Arax.Core.DataLookup
import Arax.Core.DataMemcpy
import Arax.Controller.MemcpyRange
import Arax.Core.TaskWait
import Arax.Controller.ThrowingKernel
import Arax.Core.AccelReferences
import Arax.Core.FreeVaqs
import Arax.Core.AccelList
import Arax.Arch.SegmentSize
import Arax.Lib.Scan
import Arax.Utils.Config
import Arax.Utils.ConfigLookup
import Arax.Utils.ConfigDefault
import Arax.Lib.Numeral
import Arax.Utils.ConfigTyped
import Arax.Utils.ConfigPath
import Arax.Utils.ListRuns
import Arax.Lib.Serial
import Arax.Utils.Spinlock
import Arax.Utils.Kv
import Arax.Alloc.Pages
import Arax.Arch.MapAddress
import Arax.Core.AccelTypes
import Arax.Core.KernelTable
import Arax.Controller.ConfigFile
import Arax.Async.Condition
import Arax.Controller.Lifecycle
