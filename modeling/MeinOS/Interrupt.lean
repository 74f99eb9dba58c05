import MeinOS.Lib.Runs
import MeinOS.ProcmWait

/-! Interrupts and system calls: the entry stubs of `kernel2/isr.asm`, `interrupt.c` and
`syscall.c`, and what the handlers behind them do to contexts and address spaces.

All gates of the IDT are interrupt gates, so nothing interrupts a handler except its own
page faults. The stub of such a page fault pushes a second frame, and `interrupt_curregs`
points into that frame from then on, also after the page fault handler has returned.
`proc_idle` does not return to its caller either: the next interrupt starts with an empty
kernel stack. What a handler does is a list of operations, one for each call that touches
processes, frames or address spaces. -/
namespace MeinOS.Interrupt
open Lib Lib.Runs Llist Procm
open ProcmWait (noteWait tellsParent)

/-- The frame as `interrupt_save_stack` reads it. `pushsr` pushes `ds`, `es`, `fs`, `gs` in
this order, and the slots are read, and popped by `popsr`, in the same order from the other
end. -/
def pushFrame (r : Registers) : Registers :=
  { r with ds := r.gs, es := r.fs, fs := r.es, gs := r.ds }

/-- The low half of a register, as `mov ax,ds` and `mov [reg_ds],ax` keep it. -/
def low (value : BitVec 32) : BitVec 32 := value &&& 0xFFFF

/-- The end of `isr37`: `mov dx,[reg_ds]` and `mov ds,dx`, after the frame is popped. -/
def restoreDs (regDs : BitVec 32) (r : Registers) : Registers :=
  { r with edx := (r.edx &&& 0xFFFF0000) ||| low regDs, ds := low regDs }

/-- What is known about a process from outside, for the statements only. -/
structure Account where
  /-- The registers it is to go on with: those it was interrupted with, `eax` replaced by the
  result of its own system call or of its wait, `eip` and `esp` by what was set for it. -/
  due : Registers
  /-- It is asleep in `proc_waitpid`. -/
  waiting : Bool
  /-- The result of its last system call, until other code writes its saved `eax`. -/
  owed : Option (BitVec 32)
  deriving DecidableEq

/-- The machine between two interrupts, or inside a handler. -/
structure World where
  kernel : Kernel
  /-- The registers of `proc_current` in user mode; `none` while `proc_idle` waits. -/
  user : Option Registers
  /-- The frame the handler returns through, if `interrupt_curregs` points into another. -/
  frame : Option Registers
  /-- The kernel at the end of every handler that has ended since the last interrupt from
  outside, nested page fault handlers included. -/
  ended : List Kernel
  /-- `proc_call` of `syscall_handler`, NULL in other handlers. -/
  caller : Ptr
  /-- `paging_kernelpd`. -/
  kernelpd : Ptr
  accounts : Ptr → Account

/-- Writes the account of one process. -/
def World.note (w : World) (proc : Ptr) (f : Account → Account) : World :=
  { w with accounts := Function.update w.accounts proc (f (w.accounts proc)) }

@[simp] theorem note_self (w : World) (proc : Ptr) (f : Account → Account) :
    (w.note proc f).accounts proc = f (w.accounts proc) := Function.update_self ..

theorem note_other (w : World) (f : Account → Account) {proc p : Ptr} (different : p ≠ proc) :
    (w.note proc f).accounts p = w.accounts p := Function.update_of_ne different ..

/-- A note that leaves a field alone. -/
theorem note_keeps (field : Account → β) (w : World) (proc : Ptr) {f : Account → Account}
    (kept : ∀ a, field (f a) = field a) (p : Ptr) :
    field ((w.note proc f).accounts p) = field (w.accounts p) := by
  by_cases same : p = proc
  · subst same
    rw [note_self]
    exact kept _
  · rw [note_other w f same]

/-- Changes the kernel state. -/
def World.update (w : World) (f : Kernel → Kernel) : World := { w with kernel := f w.kernel }

/-- Runs kernel code that may end in `proc_idle`. -/
def World.exec (w : World) (code : Kernel → Exec Kernel Unit) : Exec World Unit :=
  match code w.kernel with
  | .ret _ k => .ret () { w with kernel := k }
  | .idle k => .idle { w with kernel := k, user := none }
  | .halt k => .halt { w with kernel := k, user := none }

/-- `memuser_syncpds`, as far as it loads address spaces. -/
def memuserSyncpds (k : Kernel) : Kernel :=
  let k := k.procAll.foldl (fun k proc => memuserLoadAddrspace proc k) k
  if k.procCurrent ≠ 0 then memuserLoadAddrspace k.procCurrent k else k

/-- `malloc`, when the heap grows by some number of pages. -/
def growHeap (pages : Nat) (k : Kernel) : Kernel := memuserSyncpds^[pages] k

private theorem load_all_eq (procs : List Ptr) (k : Kernel) :
    procs.foldl (fun k proc => memuserLoadAddrspace proc k) k =
      { k with curpd := (procs.foldl (fun k proc => memuserLoadAddrspace proc k) k).curpd } := by
  induction procs generalizing k with
  | nil => rfl
  | cons proc procs ih => exact ih (memuserLoadAddrspace proc k)

theorem syncpds_eq (k : Kernel) : memuserSyncpds k = { k with curpd := (memuserSyncpds k).curpd } := by
  unfold memuserSyncpds
  rw [load_all_eq]
  simp only
  split <;> rfl

/-- The growth of the heap changes which address space is loaded, at most. -/
theorem grow_eq (pages : Nat) (k : Kernel) :
    growHeap pages k = { k with curpd := (growHeap pages k).curpd } := by
  unfold growHeap
  induction pages generalizing k with
  | zero => rfl
  | succ pages ih =>
    have rest := ih (memuserSyncpds k)
    rw [syncpds_eq] at rest
    rw [Function.iterate_succ_apply, syncpds_eq]
    exact rest

/-- A page fault of kernel code that `memuser_pagefault` resolves. -/
structure Fault where
  /-- The registers the stub pushes. -/
  registers : Registers
  /-- By how many pages the heap grows for the lists of the address space. -/
  pages : Nat
  deriving DecidableEq

/-- The stub of a page fault inside a handler, and `memuser_pagefault`. -/
def enterFault (f : Fault) (w : World) : World :=
  { w with
    frame := some (w.frame.getD w.kernel.curregs)
    kernel := growHeap f.pages { w.kernel with curregs := pushFrame f.registers } }

/-- The handler of a page fault inside a handler. Without a current process it ends in the
scheduler and leaves to user mode through its own frame. -/
def pageFault (f : Fault) (w : World) : Exec World Unit :=
  if (enterFault f w).kernel.procCurrent = 0 then
    ((enterFault f w).exec procShedule).andThen fun _ w =>
      .idle { w with user := some w.kernel.curregs, ended := w.ended ++ [w.kernel] }
  else
    .ret () { enterFault f w with ended := w.ended ++ [(enterFault f w).kernel] }

/-- Page faults one after the other. -/
def pageFaults (faults : List Fault) (w : World) : Exec World Unit := Exec.each pageFault faults w

/-- Stores a word in the loaded user address space. -/
def storeWord (addr : Nat) (value : Int) (k : Kernel) : Kernel :=
  { k with user := Function.update k.user k.curpd (Function.update (k.user k.curpd) addr value) }

/-- Writes a register of a process: in the frame for the current one, in its record for
another. -/
def setRegisters (proc : Ptr) (f : Registers → Registers) (k : Kernel) : Kernel :=
  if k.procCurrent = proc then { k with curregs := f k.curregs }
  else k.setProc proc fun p => { p with registers := f p.registers }

/-- The registers `setRegisters` writes. -/
def registersOf (proc : Ptr) (k : Kernel) : Registers :=
  if k.procCurrent = proc then k.curregs else (k.procs proc).registers

/-- `proc_push`. The store may fault. -/
def procPush (proc : Ptr) (value : BitVec 32) (faults : List Fault) (w : World) : Exec World Unit :=
  let w := w.update (setRegisters proc fun r => { r with esp := r.esp - 4 })
  let esp := (registersOf proc w.kernel).esp
  (pageFaults faults w).andThen fun _ w => .ret () (w.update (storeWord esp.toNat value.toInt))

/-- A call of `proc_call`: the parameters in the order they are pushed, and the page faults
of each push. -/
structure Call where
  proc : Ptr
  func : BitVec 32
  params : List (BitVec 32 × List Fault)
  /-- Of the push of `*eip`. -/
  faults : List Fault
  deriving DecidableEq

/-- All page faults of a call. -/
def Call.allFaults (c : Call) : List Fault := c.params.flatMap (·.2) ++ c.faults

/-- The loop of `proc_call` over the parameters. -/
def pushParams (proc : Ptr) (params : List (BitVec 32 × List Fault)) (w : World) : Exec World Unit :=
  Exec.each (fun param w => procPush proc param.1 param.2 w) params w

/-- `*eip = func`. The pointer was read before the stores, so a page fault in between does
not move it. -/
def setEip (proc : Ptr) (func : BitVec 32) (before : Option Registers) (w : World) : World :=
  match before, w.frame with
  | none, some frame =>
    if w.kernel.procCurrent = proc then { w with frame := some { frame with eip := func } }
    else w.update (setRegisters proc fun r => { r with eip := func })
  | _, _ => w.update (setRegisters proc fun r => { r with eip := func })

/-- `memuser_load_addrspace(proc_current->addrspace)` behind a check for NULL. -/
def loadCurrent (k : Kernel) : Kernel :=
  if k.procCurrent ≠ 0 then memuserLoadAddrspace k.procCurrent k else k

/-- The registers with `eip` and `esp` of others. -/
def moveTo (r place : Registers) : Registers := { r with eip := place.eip, esp := place.esp }

/-- Records `eip` and `esp` as set for the process. -/
def noteCall (proc : Ptr) (w : World) : World :=
  w.note proc fun a => { a with due := moveTo a.due (registersOf proc w.kernel) }

/-- `proc_call`. -/
def procCall (c : Call) (w : World) : Exec World Unit :=
  if (w.kernel.procs c.proc).defunc then .ret () w
  else
    let eip := (registersOf c.proc w.kernel).eip
    let before := w.frame
    (pushParams c.proc c.params (w.update (memuserLoadAddrspace c.proc))).andThen fun _ w =>
    (procPush c.proc eip c.faults w).andThen fun _ w =>
    .ret () ((noteCall c.proc (setEip c.proc c.func before (w.update loadCurrent))).update
      (procWake c.proc))

/-- `rpc_call_return`, as far as it concerns address spaces and processes. -/
def rpcCallReturn (caller : Ptr) (faults : List Fault) (w : World) : Exec World Unit :=
  (pageFaults faults (w.update (memuserLoadAddrspace caller))).andThen fun _ w =>
  .ret () (w.update fun k => procWake caller (memuserLoadAddrspace k.procCurrent k))

/-- `proc_memmap`, `proc_memunmap` and `proc_memfree`, as far as they load address spaces. -/
def visitAddrspace (proc : Ptr) (k : Kernel) : Kernel :=
  memuserLoadAddrspace k.procCurrent (memuserLoadAddrspace proc k)

/-- The parent of the current process. -/
def World.parent (w : World) : Ptr := (w.kernel.procs w.kernel.procCurrent).parent

/-- The store of `proc_exit` through the `wait_stat` of the parent, which may fault. -/
def storeStatusFaulting (parent : Ptr) (ret : Int) (faults : List Fault) (w : World) :
    Exec World Unit :=
  if (w.kernel.procs parent).waitStat ≠ 0 then
    (pageFaults faults (w.update (memuserLoadAddrspace parent))).andThen fun _ t =>
    .ret () (t.update fun k => memuserLoadAddrspace k.procCurrent
      (storeWord (w.kernel.procs parent).waitStat ret k))
  else .ret () w

/-- Records that the wait of a parent is satisfied. -/
def noteReport (parent : Ptr) (pid : BitVec 32) (w : World) : World :=
  w.note parent fun a =>
    { due := if a.waiting then { a.due with eax := pid } else a.due, waiting := false, owed := none }

/-- Writes the saved `eax` of a process. -/
def saveEax (proc : Ptr) (value : BitVec 32) (k : Kernel) : Kernel :=
  k.setProc proc fun p => { p with registers := { p.registers with eax := value } }

/-- The id of the current process, as `eax` holds it. -/
def World.pid (w : World) : BitVec 32 := BitVec.ofInt 32 (w.kernel.procs w.kernel.procCurrent).pid

/-- The id of the current process goes to the saved `eax` of its parent. -/
def answerParent (w : World) : World := (noteReport w.parent w.pid w).update (saveEax w.parent w.pid)

/-- The wait of the parent is over. -/
def endWait (parent : Ptr) (k : Kernel) : Kernel :=
  procWake parent (k.setProc parent fun p => { p with wait := false })

/-- The report of `proc_exit` to a waiting parent. -/
def reportExitFaulting (ret : Int) (faults : List Fault) (w : World) : Exec World Unit :=
  if tellsParent w.kernel then
    (storeStatusFaulting w.parent ret faults (answerParent w)).andThen fun _ t =>
    .ret () (t.update (endWait w.parent))
  else .ret () w

/-- The rest of `proc_exit`. -/
def exitCurrent (ret : Int) (k : Kernel) : Kernel :=
  let k := k.setProc k.procCurrent fun p => { p with ret := ret, defunc := true }
  { k with
    procRunning := (llistRemove k.procRunning (llistFind k.procRunning k.procCurrent)).2
    procCurrent := 0 }

/-- `proc_exit`, which never returns a result. -/
def procExitFaulting (ret : Int) (faults : List Fault) (w : World) : Exec World Unit :=
  (reportExitFaulting ret faults w).andThen fun _ w =>
  (w.note w.kernel.procCurrent fun a => { a with owed := none }).exec fun k =>
    .idle (exitCurrent ret k)

/-- `proc_destroy`. The address space is destroyed only if it is loaded. -/
def procDestroyWhole (proc : Ptr) (w : World) : World :=
  w.update fun k =>
    { procDestroy proc k with
      curpd := if k.curpd = (k.procs proc).pagedir then w.kernelpd else k.curpd }

/-- The end of `proc_waitpid`. -/
def sleepWaiting (pid : Int) (stat : Ptr) (k : Kernel) : Exec Kernel Unit :=
  procSleep k.procCurrent (noteWait pid stat k)

/-- What a handler does to processes, frames and address spaces. -/
inductive Op where
  /-- An allocation for which the heap grows. -/
  | malloc (pages : Nat)
  | wake (proc : Ptr)
  /-- `proc_sleep(proc_current)`. -/
  | sleep
  /-- `proc_waitpid`, where it goes to sleep. -/
  | waitpid (pid : Int) (stat : Ptr)
  | create (c : Creation)
  | destroy (proc : Ptr)
  /-- `*(interrupt_curregs.eax) = value`. -/
  | setEax (value : Int)
  | call (c : Call)
  | jump (proc : Ptr) (dest : BitVec 32)
  | createstack (proc : Ptr) (stack : BitVec 32)
  | visit (proc : Ptr)
  | rpcReturn (caller : Ptr) (faults : List Fault)
  | exit (ret : Int) (faults : List Fault)
  /-- A page fault in the address space of the current process. -/
  | fault (f : Fault)
  /-- `proc_shedule()`, unconditional in the timer. -/
  | shedule
  /-- `if (proc_current==NULL) proc_shedule()`, at the end of `interrupt_handler`. -/
  | resume
  deriving DecidableEq

/-- Writes `eip` or `esp` in the record of a process. For the current process the record is
not what it goes on with. -/
def setRecord (proc : Ptr) (f : Registers → Registers) (w : World) : World :=
  let w := if proc = w.kernel.procCurrent then w
    else w.note proc fun a => { a with due := f a.due }
  w.update fun k => k.setProc proc fun p => { p with registers := f p.registers }

/-- `proc_create`. `malloc` returns no block that a process of `proc_all` lies in. -/
def createProc (c : Creation) (w : World) : Exec World Unit :=
  if c.new ≠ 0 ∧ c.new ∉ w.kernel.procAll then
    .ret () ((w.note c.new fun _ => ⟨initialRegisters, false, none⟩).update (procCreate c))
  else .halt w

/-- `proc_destroy_syscall`, which destroys no other processes than those of `proc_all`
without the current one. -/
def destroyProc (proc : Ptr) (w : World) : Exec World Unit :=
  if proc ∈ w.kernel.procAll ∧ proc ≠ w.kernel.procCurrent then .ret () (procDestroyWhole proc w)
  else .halt w

/-- Writes `eax` in the frame, on behalf of the caller. -/
def setFrameEax (value : Int) (w : World) : World :=
  (w.note w.caller fun a => { a with due := { a.due with eax := BitVec.ofInt 32 value } }).update
    fun k => { k with curregs := { k.curregs with eax := BitVec.ofInt 32 value } }

/-- The last line of `interrupt_handler`. -/
def sheduleIfNone (w : World) : Exec World Unit :=
  if w.kernel.procCurrent = 0 then w.exec procShedule else .ret () w

/-- One operation. -/
def Op.exec : Op → World → Exec World Unit
  | .malloc pages, w => .ret () (w.update (growHeap pages))
  | .wake proc, w => .ret () (w.update (procWake proc))
  | .sleep, w => w.exec fun k => procSleep k.procCurrent k
  | .waitpid pid stat, w =>
    (w.note w.kernel.procCurrent fun a => { a with waiting := true }).exec (sleepWaiting pid stat)
  | .create c, w => createProc c w
  | .destroy proc, w => destroyProc proc w
  | .setEax value, w => .ret () (setFrameEax value w)
  | .call c, w => procCall c w
  | .jump proc dest, w => .ret () (setRecord proc (fun r => { r with eip := dest }) w)
  | .createstack proc stack, w => .ret () (setRecord proc (fun r => { r with esp := stack }) w)
  | .visit proc, w => .ret () (w.update (visitAddrspace proc))
  | .rpcReturn caller faults, w => rpcCallReturn caller faults w
  | .exit ret faults, w => procExitFaulting ret faults w
  | .fault f, w => pageFault f w
  | .shedule, w => w.exec procShedule
  | .resume, w => sheduleIfNone w

/-- An entry of the list of an IRQ. -/
inductive Listener where
  /-- `IRQ_SLEEP`. -/
  | sleep (proc : Ptr)
  /-- `IRQ_HANDLER`. -/
  | handler (c : Call)
  deriving DecidableEq

/-- What `interrupt_irq_check` does for an entry. -/
def Listener.op : Listener → Op
  | .sleep proc => .wake proc
  | .handler c => .call c

/-- What comes from outside, with the registers the processor runs with at that moment. -/
inductive Event where
  /-- The timer, with the processes whose sleep ends. -/
  | timer (registers : Registers) (woken : List Ptr)
  | irq (registers : Registers) (listeners : List Listener)
  /-- A page fault in user mode, with the pages by which the heap grows. -/
  | pagefault (registers : Registers) (pages : Nat)
  /-- `int 0x37`, with what the handler of the call does and returns. -/
  | syscall (registers : Registers) (ops : List Op) (result : Int)
  deriving DecidableEq

/-- The operations of a handler of `interrupt_handler`, with its last line. -/
def Event.ops : Event → List Op
  | .timer _ woken => woken.map .wake ++ [.shedule, .resume]
  | .irq _ listeners => listeners.map Listener.op ++ [.resume]
  | .pagefault _ pages => [.malloc pages, .resume]
  | .syscall _ ops _ => ops

def Event.registers : Event → Registers
  | .timer registers _ => registers
  | .irq registers _ => registers
  | .pagefault registers _ => registers
  | .syscall registers _ _ => registers

/-- What is known of the interrupted process: a system call is owed its result. -/
def Event.account : Event → Account
  | .syscall registers _ result => ⟨registers, false, some (BitVec.ofInt 32 result)⟩
  | event => ⟨event.registers, false, none⟩

/-- The accounts when the event comes. In `proc_idle` no process is interrupted. -/
def interrupted (event : Event) (w : World) : Ptr → Account :=
  if w.user.isSome then Function.update w.accounts w.kernel.procCurrent event.account else w.accounts

/-- The entry stub and `interrupt_save_stack`. -/
def enter (event : Event) (w : World) : World :=
  { w with
    accounts := interrupted event w
    kernel := { w.kernel with curregs := pushFrame event.registers }
    frame := none
    ended := []
    caller := match event with
      | .syscall _ _ _ => w.kernel.procCurrent
      | _ => 0 }

/-- The last line of `syscall_handler`. -/
def syscallReturn (result : Int) (w : World) : World :=
  if w.kernel.procCurrent = w.caller then setFrameEax result w else w

/-- What follows the operations of the handler. -/
def Event.finish : Event → World → World
  | .syscall _ _ result, w => syscallReturn result w
  | _, w => w

/-- The handler of an event. -/
def handle (event : Event) (w : World) : Exec World Unit :=
  (Exec.each Op.exec event.ops w).andThen fun _ w => .ret () (event.finish w)

/-- The end of the stub, after the frame is popped. -/
def Event.restore : Event → Registers → Registers
  | .syscall registers _ _ => restoreDs registers.ds
  | _ => id

/-- The return to user mode. -/
def leave (event : Event) (w : World) : World :=
  { w with
    user := some (event.restore (w.frame.getD w.kernel.curregs))
    ended := w.ended ++ [w.kernel] }

/-- Page faults in user mode and system calls come from a process only. -/
def Event.possible (w : World) : Event → Bool
  | .pagefault _ _ => w.user.isSome
  | .syscall _ _ _ => w.user.isSome
  | _ => true

/-- One interrupt or system call, up to the next moment at which interrupts are on. -/
def step (w : World) (event : Event) : Option World :=
  if event.possible w then
    match handle event (enter event w) with
    | .ret _ w => some (leave event w)
    | .idle w => some w
    | .halt _ => none
  else none

/-- An idle machine: every process is due the registers in its record. -/
def start (kernelpd : Ptr) (k : Kernel) : World where
  kernel := { k with procCurrent := 0 }
  user := none
  frame := none
  ended := []
  caller := 0
  kernelpd := kernelpd
  accounts proc := ⟨(k.procs proc).registers, false, none⟩

/-- A record with nothing in it but a page directory and a time slice. -/
def plainProc (pid : Int) (parent : Ptr) (children : List Ptr) (pagedir : Ptr) : Proc where
  pid := pid
  uid := 1
  gid := 1
  parent := parent
  children := children
  registers := initialRegisters
  pagedir := pagedir
  nice := 0
  ticksRem := 1
  isSleeping := false
  defunc := false
  ret := 0
  wait := false
  waitPid := 0
  waitStat := 0

/-- A parent and its child, both ready to run. -/
def twoProcesses : Kernel where
  procs proc := if proc = 1 then plainProc 1 0 [2] 11
    else if proc = 2 then plainProc 2 1 [] 12 else plainProc 0 0 [] 0
  procAll := [2, 1]
  procRunning := [2, 1]
  procSleeping := []
  procNextpid := 3
  procCurrent := 0
  curregs := initialRegisters
  curpd := 0
  user _ _ := 0

/-- What holds at the end of the handler and is turned by the return to user mode into
`Between`, and what `proc_idle` leaves behind, hold after the step. -/
theorem step_ends {Inside Between : World → Prop} {w t : World} {event : Event}
    (ends : (handle event (enter event w)).Ends Inside Between)
    (leaves : ∀ w, Inside w → Between (leave event w)) (ran : step w event = some t) :
    Between t := by
  unfold step at ran
  split at ran
  · split at ran
    · rename_i ended
      rw [ended] at ends
      cases ran
      exact leaves _ ends
    · rename_i ended
      rw [ended] at ends
      cases ran
      exact ends
    · cases ran
  · cases ran

/-- A handler keeps what its operations keep, and ends with the last line of
`syscall_handler`. -/
theorem handle_ends {guard : World → Op → Prop} {Inside After Between : World → Prop} {w : World}
    {event : Event}
    (ends : ∀ w op, Inside w → guard w op → (op.exec w).Ends Inside Between)
    (returns : ∀ w, Inside w → After (event.finish w))
    (start : Inside w) (met : Exec.EachMet Op.exec guard event.ops w) :
    (handle event w).Ends After Between := by
  apply Exec.Ends.andThen (Exec.each_ends ends start met)
  exact fun _ t inside => returns t inside

/-- Parameters that are pushed without page faults. -/
theorem params_ends {Inside Between : World → Prop} {w : World} {proc : Ptr}
    {params : List (BitVec 32 × List Fault)} (quiet : ∀ param ∈ params, param.2 = [])
    (pushes : ∀ t value, Inside t → (procPush proc value [] t).Ends Inside Between) (start : Inside w) :
    (pushParams proc params w).Ends Inside Between := by
  have met : Exec.EachMet (fun param w => procPush proc param.1 param.2 w)
      (fun _ param => param.2 = []) params w :=
    Exec.each_met_of_forall fun param member _ => quiet param member
  refine Exec.each_ends ?_ start met
  intro t param held none
  rw [none]
  exact pushes t param.1 held

/-- Code of the process manager keeps what holds of the state it leaves. -/
theorem exec_ends {Inside Between : World → Prop} {w : World} {code : Kernel → Exec Kernel Unit}
    (after : ∀ k, code w.kernel = .ret () k → Inside { w with kernel := k })
    (left : ∀ k, code w.kernel = .idle k → Between { w with kernel := k, user := none }) :
    (w.exec code).Ends Inside Between := by
  unfold World.exec
  cases ran : code w.kernel with
  | ret value k => exact after k ran
  | idle k => exact left k ran
  | halt k => trivial

end MeinOS.Interrupt
