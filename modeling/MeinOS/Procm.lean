import MeinOS.Lib.Exec
import MeinOS.Llist

/-! The process manager, `kernel2/procm.c`: the `proc_t` records, the three
process lists, sleeping and waking, the scheduler and the end of a process.

A pointer is a number and NULL is `0`. The `proc_t` memory is a total map, so
that a record keeps what it held when `free` gives its memory back. `curregs` is
the frame on the kernel stack that `interrupt_curregs` points into, and `user`
holds the words of each user address space. -/
namespace MeinOS.Procm
open Lib Llist

/-- A kernel address. -/
abbrev Ptr := Nat

abbrev Byte := BitVec 8

/-- `struct proc_registers`. -/
structure Registers where
  eax : BitVec 32
  ebx : BitVec 32
  ecx : BitVec 32
  edx : BitVec 32
  esi : BitVec 32
  edi : BitVec 32
  ebp : BitVec 32
  esp : BitVec 32
  eip : BitVec 32
  efl : BitVec 32
  cs : BitVec 32
  ds : BitVec 32
  es : BitVec 32
  fs : BitVec 32
  gs : BitVec 32
  ss : BitVec 32
  deriving DecidableEq

/-- `struct proc_S`, as far as the modelled code reads it. -/
structure Proc where
  pid : Int
  uid : Int
  gid : Int
  parent : Ptr
  children : List Ptr
  registers : Registers
  /-- `addrspace->pagedir`. -/
  pagedir : Ptr
  nice : Int
  ticksRem : BitVec 32
  isSleeping : Bool
  defunc : Bool
  ret : Int
  wait : Bool
  waitPid : Int
  waitStat : Ptr
  deriving DecidableEq

/-- The global state of the process manager. -/
structure Kernel where
  procs : Ptr → Proc
  procAll : List Ptr
  procRunning : List Ptr
  procSleeping : List Ptr
  procNextpid : Int
  procCurrent : Ptr
  /-- The registers behind `interrupt_curregs`. -/
  curregs : Registers
  /-- `paging_curpd`. -/
  curpd : Ptr
  /-- The words of every user address space, by page directory and address. -/
  user : Ptr → Nat → Int

/-- Writes one process record. -/
def Kernel.setProc (k : Kernel) (proc : Ptr) (f : Proc → Proc) : Kernel :=
  { k with procs := Function.update k.procs proc (f (k.procs proc)) }

/-- `memuser_load_addrspace`. -/
def memuserLoadAddrspace (proc : Ptr) (k : Kernel) : Kernel :=
  { k with curpd := (k.procs proc).pagedir }

/-- `NICE2TICKS`. -/
def nice2ticks (_nice : Int) : BitVec 32 := 1

/-- `IDX2SEL(idx,PRIV_USER)`. -/
def userSelector (idx : Nat) : BitVec 32 := BitVec.ofNat 32 (idx * 8 + 3)

/-- The registers a process is created with. -/
def initialRegisters : Registers where
  eax := 0
  ebx := 0
  ecx := 0
  edx := 0
  esi := 0
  edi := 0
  ebp := 0
  esp := 0
  eip := 0
  efl := 0x202
  cs := userSelector 3
  ds := userSelector 4
  es := userSelector 4
  fs := userSelector 4
  gs := userSelector 4
  ss := userSelector 4

/-- `proc_init`: empty lists over a memory with any contents. -/
def procInit (k : Kernel) : Kernel :=
  { k with procAll := [], procRunning := [], procSleeping := [], procNextpid := 1, procCurrent := 0 }

/-- What a call of `proc_create` is given: its arguments, the block `malloc` finds
for the record with whatever it holds, and the page directory of the new address
space. -/
structure Creation where
  new : Ptr
  memory : Proc
  pagedir : Ptr
  uid : Int
  gid : Int
  parent : Ptr
  running : Bool
  deriving DecidableEq

/-- The record `proc_create` writes over its block. The fields `wait`, `wait_pid`,
`wait_stat` and `ret` keep what the block held. -/
def Creation.record (c : Creation) (pid : Int) : Proc :=
  { c.memory with
    pid := pid
    uid := c.uid
    gid := c.gid
    parent := c.parent
    children := []
    registers := initialRegisters
    pagedir := c.pagedir
    nice := 0
    ticksRem := nice2ticks 0
    isSleeping := !c.running
    defunc := false }

/-- `proc_create`. -/
def procCreate (c : Creation) (k : Kernel) : Kernel :=
  let adopted := if c.parent ≠ 0 then
      k.setProc c.parent fun p => { p with children := llistPush p.children c.new } else k
  let created := adopted.setProc c.new fun _ => c.record k.procNextpid
  { created with
    procNextpid := k.procNextpid + 1
    procAll := llistPush k.procAll c.new
    procRunning := if c.running then llistPush k.procRunning c.new else k.procRunning
    procSleeping := if c.running then k.procSleeping else llistPush k.procSleeping c.new }

/-- The loop of `proc_destroy` that hands the children to the grandparent. It
writes their parent pointer and nothing else. -/
def reparent (parent : Ptr) (children : List Ptr) (k : Kernel) : Kernel :=
  children.foldl (fun k child => k.setProc child fun p => { p with parent := parent }) k

/-- `proc_destroy`, as far as it concerns the process manager: the name, the
address space and the time handlers are released elsewhere. -/
def procDestroy (proc : Ptr) (k : Kernel) : Kernel :=
  let parent := (k.procs proc).parent
  let k := reparent parent (k.procs proc).children k
  let k := k.setProc proc fun p => { p with children := [] }
  let k := if parent ≠ 0 then k.setProc parent fun p =>
      { p with children := (llistRemove p.children (llistFind p.children proc)).2 } else k
  let all := (llistRemove k.procAll (llistFind k.procAll proc)).2
  let running := llistRemove k.procRunning (llistFind k.procRunning proc)
  let sleeping := if running.1 ≠ some proc then
      (llistRemove k.procSleeping (llistFind k.procSleeping proc)).2 else k.procSleeping
  { k with procAll := all, procRunning := running.2, procSleeping := sleeping }

/-- `proc_regs_save`. -/
def procRegsSave (proc : Ptr) (k : Kernel) : Kernel :=
  k.setProc proc fun p => { p with registers := k.curregs }

/-- `proc_regs_load`. -/
def procRegsLoad (proc : Ptr) (k : Kernel) : Kernel :=
  { k with curregs := (k.procs proc).registers }

/-- The scheduler charges the process whose time slice ended. -/
def sheduleCharge (k : Kernel) : Kernel :=
  if k.procCurrent ≠ 0 then
    { k.setProc k.procCurrent (fun p => { p with ticksRem := p.ticksRem - 1 }) with procCurrent := 0 }
  else k

/-- The search loop of the scheduler, which keeps the last process with time. -/
def sheduleSearch (k : Kernel) : Ptr :=
  k.procRunning.foldl (fun found proc => if 0 < (k.procs proc).ticksRem then proc else found) 0

/-- Fills the time slice of every running process. -/
def sheduleRefill (k : Kernel) : Kernel :=
  k.procRunning.foldl (fun k proc => k.setProc proc fun p => { p with ticksRem := nice2ticks p.nice }) k

/-- Picks the next process, after a refill if none has time left. -/
def sheduleSelect (k : Kernel) : Kernel :=
  if sheduleSearch k ≠ 0 then { k with procCurrent := sheduleSearch k }
  else { sheduleRefill k with procCurrent := (llistGet k.procRunning 0).getD 0 }

/-- Sets context and address space of the selected process. -/
def sheduleSwitch (old : Ptr) (k : Kernel) : Kernel :=
  if old ≠ k.procCurrent then
    let k := if old ≠ 0 then procRegsSave old k else k
    memuserLoadAddrspace k.procCurrent (procRegsLoad k.procCurrent k)
  else k

/-- `proc_shedule`. Without a running process it does not return: `proc_idle`
waits on a fresh kernel stack for the next interrupt, and `cpu_shutdown` stops
the machine. -/
def procShedule (k : Kernel) : Exec Kernel Unit :=
  if k.procRunning.isEmpty then
    if k.procSleeping.isEmpty then .halt k
    else .idle { procRegsSave k.procCurrent k with procCurrent := 0 }
  else .ret () (sheduleSwitch k.procCurrent (sheduleSelect (sheduleCharge k)))

/-- Moves a process from the running to the sleeping list. -/
def sleepMove (proc : Ptr) (k : Kernel) : Kernel :=
  { k.setProc proc (fun p => { p with isSleeping := true }) with
    procRunning := (llistRemove k.procRunning (llistFind k.procRunning proc)).2
    procSleeping := llistPush k.procSleeping proc }

/-- `proc_sleep`. -/
def procSleep (proc : Ptr) (k : Kernel) : Exec Kernel Unit :=
  if (k.procs proc).isSleeping then .ret () k
  else if proc = k.procCurrent then procShedule (sleepMove proc k)
  else .ret () (sleepMove proc k)

/-- `proc_wake`. -/
def procWake (proc : Ptr) (k : Kernel) : Kernel :=
  if (k.procs proc).isSleeping then
    { k.setProc proc (fun p => { p with isSleeping := false }) with
      procSleeping := (llistRemove k.procSleeping (llistFind k.procSleeping proc)).2
      procRunning := llistPush k.procRunning proc }
  else k

/-- Whether the `wait_pid` of the parent asks for this child. -/
def waitMatches (pid : Int) (child parent : Proc) : Bool :=
  pid = -1 || pid = child.pid || (pid = 0 && child.gid = parent.gid) ||
    (pid < -1 && -pid = child.gid)

/-- Writes the exit status through the `wait_stat` of the parent, in the address
space of the parent. -/
def storeStatus (parent : Ptr) (ret : Int) (k : Kernel) : Kernel :=
  if (k.procs parent).waitStat ≠ 0 then
    let k := memuserLoadAddrspace parent k
    let words := Function.update (k.user k.curpd) (k.procs parent).waitStat ret
    memuserLoadAddrspace k.procCurrent { k with user := Function.update k.user k.curpd words }
  else k

/-- The part of `proc_exit` that reports to a waiting parent. -/
def reportExit (ret : Int) (k : Kernel) : Kernel :=
  let child := k.procs k.procCurrent
  let parent := k.procs child.parent
  if child.parent ≠ 0 && parent.wait && waitMatches parent.waitPid child parent then
    let k := k.setProc child.parent fun p =>
      { p with registers := { p.registers with eax := BitVec.ofInt 32 child.pid } }
    let k := storeStatus child.parent ret k
    procWake child.parent (k.setProc child.parent fun p => { p with wait := false })
  else k

/-- `proc_exit`, which ends in `proc_idle`. -/
def procExit (ret : Int) (k : Kernel) : Exec Kernel Unit :=
  let k := reportExit ret k
  let k := k.setProc k.procCurrent fun p => { p with ret := ret, defunc := true }
  .idle { k with
    procRunning := (llistRemove k.procRunning (llistFind k.procRunning k.procCurrent)).2
    procCurrent := 0 }

section Records
variable (k : Kernel) (proc : Ptr) (f : Proc → Proc)

@[simp] theorem setProc_all : (k.setProc proc f).procAll = k.procAll := rfl
@[simp] theorem setProc_running : (k.setProc proc f).procRunning = k.procRunning := rfl
@[simp] theorem setProc_sleeping : (k.setProc proc f).procSleeping = k.procSleeping := rfl
@[simp] theorem setProc_current : (k.setProc proc f).procCurrent = k.procCurrent := rfl
@[simp] theorem setProc_curregs : (k.setProc proc f).curregs = k.curregs := rfl
@[simp] theorem setProc_curpd : (k.setProc proc f).curpd = k.curpd := rfl
@[simp] theorem setProc_user : (k.setProc proc f).user = k.user := rfl

@[simp] theorem setProc_self : (k.setProc proc f).procs proc = f (k.procs proc) :=
  Function.update_self ..

theorem setProc_other {other : Ptr} (different : other ≠ proc) :
    (k.setProc proc f).procs other = k.procs other := Function.update_of_ne different ..

theorem setProc_apply (other : Ptr) :
    (k.setProc proc f).procs other = if other = proc then f (k.procs other) else k.procs other := by
  by_cases same : other = proc
  · subst other
    simp
  · rw [setProc_other k proc f same, if_neg same]

/-- A field that the update keeps is the same in every record. -/
theorem setProc_keeps (field : Proc → β) (kept : ∀ p, field (f p) = field p) (other : Ptr) :
    field ((k.setProc proc f).procs other) = field (k.procs other) := by
  rw [setProc_apply]
  split
  · exact kept _
  · rfl

/-- Updates of many records change nothing else. -/
theorem fold_set_proc_eq (procs : List Ptr) :
    procs.foldl (fun k proc => k.setProc proc f) k =
      { k with procs := (procs.foldl (fun k proc => k.setProc proc f) k).procs } := by
  induction procs generalizing k with
  | nil => rfl
  | cons proc procs ih => exact ih (k.setProc proc f)

theorem fold_set_proc_keeps (field : Proc → β) {f : Proc → Proc} (kept : ∀ p, field (f p) = field p)
    (procs : List Ptr) (p : Ptr) :
    field ((procs.foldl (fun k proc => k.setProc proc f) k).procs p) = field (k.procs p) := by
  induction procs generalizing k with
  | nil => rfl
  | cons proc procs ih =>
    rw [List.foldl_cons, ih]
    exact setProc_keeps k proc f field kept p

end Records

section Ticks
variable (field : Proc → β) (ticks : ∀ p t, field { p with ticksRem := t } = field p)
include ticks

theorem charge_keeps (k : Kernel) (p : Ptr) :
    field ((sheduleCharge k).procs p) = field (k.procs p) := by
  unfold sheduleCharge
  split
  · have kept := setProc_keeps k k.procCurrent (fun q => { q with ticksRem := q.ticksRem - 1 })
      field (fun q => ticks q _) p
    exact kept
  · rfl

theorem refill_keeps (k : Kernel) (p : Ptr) :
    field ((sheduleRefill k).procs p) = field (k.procs p) :=
  fold_set_proc_keeps k field (fun q => ticks q _) k.procRunning p

/-- Up to the choice of the next process the scheduler writes time slices only. -/
theorem select_keeps (k : Kernel) (p : Ptr) :
    field ((sheduleSelect k).procs p) = field (k.procs p) := by
  unfold sheduleSelect
  split
  · rfl
  · exact refill_keeps field ticks k p

end Ticks

/-- Up to the switch the scheduler writes records and the current process, nothing else. -/
theorem select_eq (k : Kernel) : sheduleSelect (sheduleCharge k) = { k with
    procs := (sheduleSelect (sheduleCharge k)).procs
    procCurrent := (sheduleSelect (sheduleCharge k)).procCurrent } := by
  unfold sheduleSelect sheduleRefill sheduleCharge
  rw [fold_set_proc_eq]
  split <;> split <;> rfl

section Registers
variable (field : Proc → β) (registers : ∀ p r, field { p with registers := r } = field p)
include registers

theorem regs_save_keeps (proc : Ptr) (k : Kernel) (p : Ptr) :
    field ((procRegsSave proc k).procs p) = field (k.procs p) :=
  setProc_keeps k proc _ field (fun q => registers q _) p

theorem switch_keeps (old : Ptr) (k : Kernel) (p : Ptr) :
    field ((sheduleSwitch old k).procs p) = field (k.procs p) := by
  unfold sheduleSwitch
  split
  · split
    · exact regs_save_keeps field registers old k p
    · rfl
  · rfl

end Registers

/-- The record that `proc_regs_save` writes. -/
theorem regs_save_registers (proc : Ptr) (k : Kernel) (p : Ptr) :
    ((procRegsSave proc k).procs p).registers =
      if p = proc then k.curregs else (k.procs p).registers := by
  rw [procRegsSave, setProc_apply]
  split <;> rfl

/-- `proc_wake` in terms of the records. -/
theorem wake_record (proc p : Ptr) (k : Kernel) : (procWake proc k).procs p =
    if p = proc then { k.procs p with isSleeping := false } else k.procs p := by
  unfold procWake
  split
  · simp only [setProc_apply]
  · rename_i awake
    have flag := Bool.eq_false_of_not_eq_true awake
    split
    · rename_i same
      subst same
      rw [← flag]
    · rfl

theorem wake_keeps (field : Proc → β) (sleeping : ∀ p b, field { p with isSleeping := b } = field p)
    (proc : Ptr) (k : Kernel) (p : Ptr) : field ((procWake proc k).procs p) = field (k.procs p) := by
  rw [wake_record]
  split
  · exact sleeping _ _
  · rfl

/-- A field that sleeping, waking and scheduling do not write. -/
structure Untouched (field : Proc → β) : Prop where
  registers : ∀ p r, field { p with registers := r } = field p
  ticks : ∀ p t, field { p with ticksRem := t } = field p
  sleeping : ∀ p b, field { p with isSleeping := b } = field p

section Fields
variable {field : Proc → β} (untouched : Untouched field)
include untouched

theorem shedule_untouched (k : Kernel) (p : Ptr) :
    field ((procShedule k).state.procs p) = field (k.procs p) := by
  unfold procShedule
  split
  · split
    · rfl
    · exact regs_save_keeps field untouched.registers k.procCurrent k p
  · rw [Exec.state_ret, switch_keeps field untouched.registers, select_keeps field untouched.ticks,
      charge_keeps field untouched.ticks]

theorem sleep_untouched (proc : Ptr) (k : Kernel) (p : Ptr) :
    field ((procSleep proc k).state.procs p) = field (k.procs p) := by
  have moved : field ((sleepMove proc k).procs p) = field (k.procs p) :=
    setProc_keeps k proc (fun q => { q with isSleeping := true }) field
      (fun q => untouched.sleeping q _) p
  unfold procSleep
  split
  · rfl
  · split
    · rw [shedule_untouched untouched, moved]
    · exact moved

end Fields

theorem create_record (c : Creation) (k : Kernel) :
    (procCreate c k).procs c.new = c.record k.procNextpid := by
  simp [procCreate]

/-- `proc_create` writes no other record except the list of children. -/
theorem create_keeps (field : Proc → β) (kept : ∀ p cs, field { p with children := cs } = field p)
    (c : Creation) (k : Kernel) {p : Ptr} (other : p ≠ c.new) :
    field ((procCreate c k).procs p) = field (k.procs p) := by
  simp only [procCreate, setProc_other _ _ _ other]
  split
  · exact setProc_keeps k c.parent _ field (fun q => kept q _) p
  · rfl

theorem reparent_keeps (field : Proc → β) (kept : ∀ p parent, field { p with parent := parent } = field p)
    (parent : Ptr) (children : List Ptr) (k : Kernel) (p : Ptr) :
    field ((reparent parent children k).procs p) = field (k.procs p) :=
  fold_set_proc_keeps k field (fun q => kept q _) children p

/-- Only records change. -/
theorem reparent_eq (parent : Ptr) (children : List Ptr) (k : Kernel) :
    reparent parent children k = { k with procs := (reparent parent children k).procs } :=
  fold_set_proc_eq k _ children

/-- Besides records and lists nothing changes, and the running list loses the process. -/
theorem destroy_eq (proc : Ptr) (k : Kernel) :
    procDestroy proc k = { k with
      procs := (procDestroy proc k).procs
      procAll := (procDestroy proc k).procAll
      procRunning := k.procRunning.erase proc
      procSleeping := (procDestroy proc k).procSleeping } := by
  have removed := llist_remove_find k.procRunning proc
  simp only [procDestroy]
  rw [reparent_eq]
  split
  · simp only [setProc_running, removed]
    rfl
  · simp only [setProc_running, removed]
    rfl

/-- `proc_destroy` writes pointers between parents and children only. -/
theorem destroy_keeps (field : Proc → β) (parents : ∀ p parent, field { p with parent := parent } = field p)
    (families : ∀ p cs, field { p with children := cs } = field p) (proc : Ptr) (k : Kernel) (p : Ptr) :
    field ((procDestroy proc k).procs p) = field (k.procs p) := by
  simp only [procDestroy]
  split
  · rw [setProc_keeps _ _ _ field (fun q => families q _), setProc_keeps _ _ _ field (fun q => families q _)]
    exact reparent_keeps field parents _ _ k p
  · rw [setProc_keeps _ _ _ field (fun q => families q _)]
    exact reparent_keeps field parents _ _ k p

theorem pagedir_untouched : Untouched Proc.pagedir := ⟨fun _ _ => rfl, fun _ _ => rfl, fun _ _ => rfl⟩

theorem shedule_switch_curpd {k : Kernel} (different : old ≠ k.procCurrent) :
    (sheduleSwitch old k).curpd = (k.procs k.procCurrent).pagedir := by
  rw [sheduleSwitch, if_pos different]
  by_cases real : old ≠ 0
  · rw [if_pos real]
    exact regs_save_keeps Proc.pagedir (fun _ _ => rfl) old k k.procCurrent
  · rw [if_neg real]
    rfl

end MeinOS.Procm
