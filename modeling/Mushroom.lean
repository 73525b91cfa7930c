import Mushroom.L2Memory.Isolation
import Mushroom.L4Services.CommandQueue
import Mushroom.L5Files.Links
import Mushroom.L5Files.Tree
import Mushroom.L5Files.Open
import Mushroom.L3Launch.Measure
import Mushroom.L6Process.Credentials
import Mushroom.L4Services.Task
import Mushroom.L4Services.Notify
import Mushroom.L6Process.ProcessTree
import Mushroom.L6Process.ThreadSafe
import Mushroom.L6Process.SignalFailures
import Mushroom.L2Memory.Ranges
import Mushroom.L2Memory.Usage
import Mushroom.L2Memory.TableUnmap
import Mushroom.L2Memory.SharedPage
import Mushroom.L2Memory.HotUnplug
import Mushroom.L2Memory.KernelHeap
import Mushroom.L4Services.HostAllocator
import Mushroom.L4Services.RwLock
import Mushroom.L4Services.Scheduler
import Mushroom.L3Launch.Image
import Mushroom.L2Memory.ChunkRelease
import Mushroom.L3Launch.InitFile
import Mushroom.L5Files.AppendFile
import Mushroom.L5Files.FileLock
import Mushroom.L5Files.FindParent
import Mushroom.L5Files.Readiness
import Mushroom.L5Files.Rename
import Mushroom.L5Files.SeqPacket
import Mushroom.L6Process.CloneCall
import Mushroom.L6Process.ProcFs
import Mushroom.L6Process.Pselect
import Mushroom.L5Files.OutputDevice
import Mushroom.L2Memory.Vmsa
import Mushroom.L2Memory.SplitVec
import Mushroom.L2Memory.Pcid
import Mushroom.L1Encoding.GhcbMsr
import Mushroom.L6Process.Alarm
import Mushroom.L6Process.Timeouts
