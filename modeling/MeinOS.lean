import MeinOS.Lib.Exec
import MeinOS.Lib.Runs
import MeinOS.Lib.Memory
import MeinOS.Llist
import MeinOS.Procm
import MeinOS.ProcmLists
import MeinOS.ProcmRounds
import MeinOS.ProcmIdle
import MeinOS.Ipc
import MeinOS.Msg
import MeinOS.Sem
import MeinOS.Rpc
import MeinOS.RpcPairing
import MeinOS.Memphys
import MeinOS.Malloc
import MeinOS.MallocTiling
import MeinOS.Paging
import MeinOS.PagingInvariant
import MeinOS.PagingOps
import MeinOS.Memuser
import MeinOS.MemuserPages
import MeinOS.PagingUser
import MeinOS.Shm
import MeinOS.ShmDestroy
import MeinOS.SemCaller
import MeinOS.ProcmWait
import MeinOS.IpcAccess
import MeinOS.PagingWindow
import MeinOS.Tlb
import MeinOS.Memkernel
import MeinOS.KernelHeap
import MeinOS.UserPages
import MeinOS.UserIsolation
import MeinOS.ShmIsolation
import MeinOS.Interrupt
import MeinOS.InterruptAddrspace
import MeinOS.InterruptContext
import MeinOS.SyscallResult
import MeinOS.Syscall
import MeinOS.Path
import MeinOS.PathNormal
import MeinOS.Lib.LongestPrefix
import MeinOS.Vfs
import MeinOS.VfsCache
import MeinOS.Lib.Unpack
import MeinOS.Procdata
import MeinOS.IpcNamespace
import MeinOS.ShmPrivate
import MeinOS.FileServers
import MeinOS.Lib.Copy
import MeinOS.Lib.Ring
import MeinOS.Ringbuf
import MeinOS.Fifo
import MeinOS.Storage
import MeinOS.Stdio
import MeinOS.ProcmTree
import MeinOS.MemphysStack
import MeinOS.PagingEntries
import MeinOS.ProcmMemory
import MeinOS.AddrspaceBooks
import MeinOS.MemuserHeap
import MeinOS.ProcmSpaces
import MeinOS.ProcmCalls
import MeinOS.ProcmIdentity
import MeinOS.ProcmConfinement
import MeinOS.IpcLookup
import MeinOS.SemLedger
import MeinOS.SemLibrary
import MeinOS.IpcNowait
import MeinOS.RpcRemoval
import MeinOS.StringCopies
import MeinOS.ProcCall
import MeinOS.ShmRoundTrip
import MeinOS.CowFault
import MeinOS.StackGrowth
import MeinOS.FilePositions
import MeinOS.RpcVcall
import MeinOS.MallocSizes
import MeinOS.MemphysMap
import MeinOS.RpcParams
import MeinOS.Devfs
import MeinOS.StdioInput
import MeinOS.FilesClose
import MeinOS.Calendar
import MeinOS.SigMask
