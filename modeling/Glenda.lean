import Glenda.Basic
import Glenda.Lib.LinkedList
import Glenda.Lib.Update
import Glenda.Irq.Trampoline
import Glenda.Irq.Trap
import Glenda.Irq.Resume
import Glenda.Fs.LRUCache
import Glenda.Fs.Buffer
import Glenda.Fs.BufferInvariant
import Glenda.Fs.BufferRuns
import Glenda.Fs.Eviction
import Glenda.Fs.FailedReads
import Glenda.Fs.BlockCache
import Glenda.Mem.Pte
import Glenda.Mem.Pmem
import Glenda.Mem.PageMap
import Glenda.Mem.PageTable
import Glenda.Mem.PageTableSpec
import Glenda.Mem.PageTableRuns
import Glenda.Mem.PmemSteps
import Glenda.Mem.PmemHarts
import Glenda.Lib.Intervals
import Glenda.Mem.PmemFlow
import Glenda.Mem.PmemInit
import Glenda.Mem.Mmap
import Glenda.Mem.MmapLists
import Glenda.Mem.AddressSpace
import Glenda.Mem.MmapSpec
import Glenda.Mem.MmapRuns
import Glenda.Mem.MmapPanics
import Glenda.Mem.MmapOutcomes
import Glenda.Mem.MmapArguments
import Glenda.Lib.Keeps
import Glenda.Lib.Ends
import Glenda.Mem.Holders
import Glenda.Mem.PageTableCopy
import Glenda.Mem.PageTableDeepCopy
import Glenda.Mem.PageTableDestroy
import Glenda.Mem.PageTableClone
import Glenda.Mem.Uvm
import Glenda.Mem.KernelStack
import Glenda.Mem.UserSpace
import Glenda.Mem.UserCopy
import Glenda.Proc.Process
import Glenda.Proc.Runs
import Glenda.Proc.MmapNodes
import Glenda.Lib.Traced
import Glenda.Proc.Scheduler
import Glenda.Proc.SchedulerView
import Glenda.Proc.SchedulerInvariants
import Glenda.Proc.Families
import Glenda.Proc.Zombies
import Glenda.Proc.Locks
import Glenda.Drivers.Disk
import Glenda.Mem.KernelSpace
import Glenda.Mem.Estates
import Glenda.Proc.Images
import Glenda.Proc.Steps
import Glenda.Proc.World
import Glenda.Proc.WorldSteps
import Glenda.Proc.WorldImages
import Glenda.Proc.WorldRuns
import Glenda.Proc.Boot
import Glenda.Proc.Ownership
import Glenda.Proc.Heap
import Glenda.Proc.KernelStacks
import Glenda.Proc.Isolation
import Glenda.Proc.LiveFrame
import Glenda.Mem.UserImage
import Glenda.Proc.ExecImage
import Glenda.Proc.ExecStack
import Glenda.Proc.ExecArgs
import Glenda.Proc.ExecResult
import Glenda.Proc.SysExec
import Glenda.Proc.ExecProgram
import Glenda.Lib.BlockStore
import Glenda.Lib.StoreWatch
import Glenda.Lib.Bytes
import Glenda.Lib.Slots
import Glenda.Fs.Store
import Glenda.Fs.Bitmap
import Glenda.Fs.Allocators
import Glenda.Fs.Inode
import Glenda.Fs.Pointers
import Glenda.Fs.Locate
import Glenda.Fs.FileData
import Glenda.Fs.FileIo
import Glenda.Fs.Deletion
import Glenda.Fs.InodeTable
import Glenda.Fs.References
import Glenda.Fs.InodeRuns
import Glenda.Fs.BlockMap
import Glenda.Fs.Dentry
import Glenda.Fs.Directory
import Glenda.Fs.Path
import Glenda.Fs.BufferNeutral
import Glenda.Fs.Syscalls
import Glenda.Fs.Descriptors
import Glenda.Fs.RawCalls
import Glenda.Fs.Parent
import Glenda.Fs.Balance
import Glenda.Fs.Seek
import Glenda.Fs.ChunkedIo
import Glenda.Fs.FailedIo
import Glenda.Drivers.Utf8
import Glenda.Drivers.Console
