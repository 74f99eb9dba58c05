import MeinOS.Ipc
import MeinOS.Lib.Runs
import MeinOS.ProcmRounds

/-! Remote procedure calls: the kernel side, `kernel2/rpc.c`, and the loop of a
server, `rpc_poll` in `apps/lib/libmeinos/rpc.c`.

A server learns the synopsis of a function with pending calls from
`rpc_function_getinfo`, takes a call with `rpc_call_poll` and answers it with
`rpc_call_return`. These are three system calls. `rpc_call_poll` ignores the id it
is given and takes a call of the first function of the server that has one. -/
namespace MeinOS.Rpc
open Lib Lib.Runs Llist Procm Ipc

/-- `rpc_call_t` with the block behind `params`. -/
structure Call where
  caller : Ptr
  params : List Byte
  ret : Ptr
  retParams : Ptr
  error : Ptr
  deriving DecidableEq

/-- `rpc_function_t` with its strings. -/
structure Function where
  id : Int
  name : List Byte
  func : Ptr
  synopsis : List Byte
  paramsSize : Nat
  owner : Ptr
  calls : List Ptr
  current : Ptr
  deriving DecidableEq

/-- The kernel with the registered functions and the calls in its heap. -/
structure Rpcs where
  kernel : Kernel
  rpcFunctions : List Ptr
  functions : Ptr → Function
  calls : Ptr → Call
  allocated : List Ptr
  rpcLastid : Int

/-- What the kernel writes to user memory. -/
inductive Stored where
  | int (value : Int)
  | bytes (content : List Byte)
  deriving DecidableEq

/-- One write to user memory: in which address space, where and what. -/
structure Store where
  pagedir : Ptr
  address : Ptr
  content : Stored
  deriving DecidableEq

/-- A write through a pointer that may be NULL. -/
def storeAt (pagedir address : Ptr) (content : Stored) : List Store :=
  if address ≠ 0 then [⟨pagedir, address, content⟩] else []

/-- `memcpy` of the first bytes of a buffer. -/
def copyBytes (source : Nat → Byte) (size : Nat) : List Byte := (List.range size).map source

/-- `strncpy` of `lib/stdlibc/string.c` for a positive `n`, without the NUL that ends the copy. -/
def strncpy (source : List Byte) (n : Nat) : List Byte :=
  source.take ((if n < source.length + 1 then n else source.length + 1) - 1)

/-- Writes one function record. -/
def Rpcs.setFunction (s : Rpcs) (func : Ptr) (f : Function → Function) : Rpcs :=
  { s with functions := Function.update s.functions func (f (s.functions func)) }

/-- `rpc_find`, with `-1`, `none` and `0` for what may be anything. -/
def rpcFind (id : Int) (name : Option (List Byte)) (owner : Ptr) (pid : Int) (hasCalls : Bool)
    (s : Rpcs) : Option Ptr :=
  s.rpcFunctions.find? fun func =>
    let f := s.functions func
    (id = -1 || id = f.id) && (name.isNone || name = some f.name) && (owner = 0 || owner = f.owner) &&
      (pid = 0 || pid = (s.kernel.procs f.owner).pid) && (!hasCalls || !f.calls.isEmpty)

/-- What a call of `rpc_function_create` is given, with the block `malloc` finds and
the word in it that becomes `current`. -/
structure Registration where
  new : Ptr
  memory : Ptr
  name : List Byte
  func : Ptr
  synopsis : List Byte
  paramsSize : Nat
  deriving DecidableEq

/-- `rpc_function_create`. It does not write `current`. -/
def rpcFunctionCreate (c : Registration) (s : Rpcs) : Int × Rpcs :=
  let f : Function :=
    ⟨s.rpcLastid, c.name, c.func, c.synopsis, c.paramsSize, s.kernel.procCurrent, [], c.memory⟩
  (s.rpcLastid,
    { s with
      rpcLastid := s.rpcLastid + 1
      functions := Function.update s.functions c.new f
      rpcFunctions := llistPush s.rpcFunctions c.new })

/-- What `rpc_function_destroy` leaves in the blocks of the two strings that it frees. -/
structure Freed where
  name : List Byte
  synopsis : List Byte
  deriving DecidableEq

/-- `rpc_function_destroy`. The function stays on `rpc_functions` with its strings freed, and
no process is woken. -/
def rpcFunctionDestroy (id : Int) (freed : Freed) (s : Rpcs) : Int × Rpcs :=
  match rpcFind id none 0 0 false s with
  | none => (-einval, s)
  | some func =>
    if (s.functions func).owner = s.kernel.procCurrent then
      let dropped := (s.functions func).calls
      let s := s.setFunction func fun f =>
        { f with name := freed.name, synopsis := freed.synopsis, calls := [] }
      (0, { s with allocated := dropped.foldl List.erase s.allocated })
    else (-eacces, s)

/-- Sets `eax` in the frame of the interrupt. -/
def setEax (value : Int) (k : Kernel) : Kernel :=
  { k with curregs := { k.curregs with eax := BitVec.ofInt 32 value } }

/-- What `rpc_function_getinfo` returns and writes. -/
structure Info where
  ret : Int
  synopsis : List Byte
  paramsSize : Nat
  deriving DecidableEq

/-- `rpc_function_getinfo`. -/
def rpcFunctionGetinfo (id : Int) (name : Option (List Byte)) (pid : Int) (hasCalls : Bool)
    (maxlen : Nat) (sleep : Bool) (s : Rpcs) : Exec Rpcs Info :=
  match rpcFind id name 0 pid hasCalls s with
  | some func =>
    let f := s.functions func
    .ret ⟨f.id, strncpy f.synopsis maxlen, f.paramsSize⟩ s
  | none =>
    if sleep && hasCalls && pid = (s.kernel.procs s.kernel.procCurrent).pid then
      ((procSleep s.kernel.procCurrent (setEax (-1) s.kernel)).within fun k =>
        { s with kernel := k }).andThen fun _ s => .ret ⟨-1, [], 0⟩ s
    else .ret ⟨-einval, [], 0⟩ s

/-- What a call of `rpc_function_call` is given: its arguments, the memory behind
`params`, and the block `malloc` finds. -/
structure CallArgs where
  id : Int
  new : Ptr
  params : Nat → Byte
  ret : Ptr
  retParams : Ptr
  error : Ptr

/-- Queues the call and wakes the server. -/
def enqueueCall (c : CallArgs) (func : Ptr) (s : Rpcs) : Rpcs :=
  let f := s.functions func
  let call : Call :=
    ⟨s.kernel.procCurrent, copyBytes c.params f.paramsSize, c.ret, c.retParams, c.error⟩
  let s := s.setFunction func fun f => { f with calls := llistPush f.calls c.new }
  { s with
    calls := Function.update s.calls c.new call
    allocated := c.new :: s.allocated
    kernel := setEax 0 (procWake f.owner s.kernel) }

/-- `rpc_function_call`. -/
def rpcFunctionCall (c : CallArgs) (s : Rpcs) : Exec Rpcs (Int × List Store) :=
  match rpcFind c.id none 0 0 false s with
  | none => .ret (-einval, []) s
  | some func =>
    let stores := storeAt s.kernel.curpd c.error (.int 1)
    let s := enqueueCall c func s
    ((procSleep s.kernel.procCurrent s.kernel).within fun k =>
      { s with kernel := k }).andThen fun _ s => .ret (0, stores) s

/-- What `rpc_call_poll` hands to the server, with the block of the call. -/
structure Polled where
  call : Ptr
  func : Ptr
  caller : Int
  params : List Byte
  deriving DecidableEq

/-- `rpc_call_poll`. The id is not used. -/
def rpcCallPoll (_id : Int) (s : Rpcs) : Option Polled × Rpcs :=
  match rpcFind (-1) none s.kernel.procCurrent 0 true s with
  | none => (none, s)
  | some func =>
    let f := s.functions func
    let popped := llistPop f.calls
    let call := popped.1.getD 0
    let record := s.calls call
    (some ⟨call, f.func, (s.kernel.procs record.caller).pid, record.params.take f.paramsSize⟩,
      s.setFunction func fun f => { f with calls := popped.2, current := call })

/-- What `rpc_call_return` writes to user memory. -/
def replyStores (call : Call) (pagedir : Ptr) (ret : Int) (bytes : List Byte) : List Store :=
  storeAt pagedir call.retParams (.bytes bytes) ++ storeAt pagedir call.ret (.int ret) ++
    storeAt pagedir call.error (.int 0)

/-- `rpc_call_return`: its value, what it wrote, and the new state. -/
def rpcCallReturn (id ret : Int) (retParams : Nat → Byte) (s : Rpcs) : Int × List Store × Rpcs :=
  match rpcFind id none s.kernel.procCurrent 0 false s with
  | none => (-einval, [], s)
  | some func =>
    let f := s.functions func
    if f.current ≠ 0 then
      let call := s.calls f.current
      let caller := memuserLoadAddrspace call.caller s.kernel
      let stores := replyStores call caller.curpd ret (copyBytes retParams f.paramsSize)
      let k := procWake call.caller (memuserLoadAddrspace caller.procCurrent caller)
      let s := s.setFunction func fun f => { f with current := 0 }
      (0, stores, { s with kernel := k, allocated := s.allocated.erase f.current })
    else (-einval, [], s)

end MeinOS.Rpc
