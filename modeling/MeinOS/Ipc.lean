import MeinOS.Procm

/-! What message queues, semaphore sets and shared memory objects have in common:
the list of IPC objects with their headers (`kernel2/ipc.c`) and the permission
check (`lib/libmeinos/perm.c`). -/
namespace MeinOS.Ipc
open Procm

/-- `PERM_R`, `PERM_W` and `PERM_X`. -/
inductive PermOp where
  | r
  | w
  | x
  deriving DecidableEq

/-- The bits of a mode that an operation asks for. -/
def opmode (mode : BitVec 32) : PermOp → BitVec 32
  | .r => mode &&& 0o444
  | .w => mode &&& 0o222
  | .x => mode &&& 0o111

/-- `perm_check`; `PERM_ROOTUID` and `PERM_ROOTGID` are 1. -/
def permCheck (ownerUid ownerGid accessUid accessGid : Int) (mode : BitVec 32) (op : PermOp) : Bool :=
  accessUid = 1 || accessGid = 1 ||
    (accessUid = ownerUid && opmode mode op &&& 0o700 != 0) ||
    (accessGid = ownerGid && opmode mode op &&& 0o070 != 0) ||
    opmode mode op &&& 0o007 != 0

/-- `IPC_MSG`, `IPC_SEM` and `IPC_SHM`. -/
inductive IpcType where
  | msg
  | sem
  | shm
  deriving DecidableEq

/-- `ipc_obj_t`. -/
structure IpcObj where
  type : IpcType
  id : Int
  key : Int
  owner : Ptr
  creator : Ptr
  mode : BitVec 32
  deriving DecidableEq

def einval : Int := 28
def eacces : Int := 2
def eexist : Int := 20
def enomsg : Int := 50

/-- `IPC_PRIVATE`. -/
def ipcPrivate : Int := 0

/-- `IPC_NOWAIT` of the kernel. -/
def ipcNowait : BitVec 32 := 0x203

/-- The kernel with its IPC objects. -/
structure Objects where
  kernel : Kernel
  ipcObjects : List Ptr
  ipc : Ptr → IpcObj
  ipcLastid : Int

/-- `ipc_find`: the first object of the type, where `-1` stands for any key or id. -/
def ipcFind (key id : Int) (type : IpcType) (o : Objects) : Option Ptr :=
  o.ipcObjects.find? fun p => (o.ipc p).type = type &&
    ((o.ipc p).key = key || key = -1) && ((o.ipc p).id = id || id = -1)

/-- The process that makes the system call. -/
def Objects.caller (o : Objects) : Proc := o.kernel.procs o.kernel.procCurrent

end MeinOS.Ipc
