import MeinOS.Ipc
import MeinOS.Lib.Runs
import MeinOS.ProcmLists

/-! Semaphore sets, `kernel2/sem.c`. An operation that cannot be done now puts its
caller on one of the two wait lists of the semaphore and to sleep; after every other
operation the lists are popped and the waiters woken.

`proc_sleep` picks another process and returns, so the loop of `ipc_sem_op` goes on
after an operation 0 as that other process, and in its address space. If no other process can run,
`proc_sleep` does not return. -/
namespace MeinOS.Sem
open Lib Lib.Runs Llist Procm Ipc

/-- `ipc_sem_sleepn_t`. -/
structure Sleepn where
  val : Int
  proc : Ptr
  deriving DecidableEq

/-- `ipc_sem_sem_t`. -/
structure Semaphore where
  val : Int
  lopid : Int
  waitn : List Sleepn
  waitz : List Ptr
  deriving DecidableEq

/-- `struct ipc_sem_S` after its `ipc_obj_t`. -/
structure Semset where
  num : Nat
  sems : Nat → Semaphore
  otime : Int
  ctime : Int

/-- `ipc_sem_op_t`. -/
structure SemOp where
  num : BitVec 16
  op : BitVec 16
  flags : BitVec 16
  deriving DecidableEq

/-- One semaphore: the set it belongs to and its index. -/
abbrev SemId := Ptr × Nat

/-- The IPC objects with the semaphore sets. `blocked` is no data of the kernel: it
records on which semaphore a process was put to sleep, until it is woken. -/
structure Sems extends Objects where
  semsets : Ptr → Semset
  blocked : Ptr → Option SemId

/-- The semaphore as it is in memory. -/
def Sems.sem (s : Sems) (sem : SemId) : Semaphore := (s.semsets sem.1).sems sem.2

/-- Writes one semaphore. -/
def Sems.setSem (s : Sems) (sem : SemId) (f : Semaphore → Semaphore) : Sems :=
  let semset := s.semsets sem.1
  let sems := Function.update semset.sems sem.2 (f (semset.sems sem.2))
  { s with semsets := Function.update s.semsets sem.1 { semset with sems := sems } }

/-- A semaphore nobody used yet. -/
def emptySem : Semaphore := ⟨0, 0, [], []⟩

/-- `ipc_sem_create`, given the block that `malloc` finds. -/
def ipcSemCreate (new : Ptr) (key : Int) (nsems : Nat) (mode : BitVec 32) (time : Int)
    (s : Sems) : Int × Sems :=
  if key ≠ ipcPrivate && (ipcFind key (-1) .sem s.toObjects).isSome then (-eexist, s)
  else
    let header : IpcObj := ⟨.sem, s.ipcLastid, key, s.kernel.procCurrent, s.kernel.procCurrent, mode⟩
    (s.ipcLastid,
      { s with
        ipcLastid := s.ipcLastid + 1
        ipc := Function.update s.ipc new header
        semsets := Function.update s.semsets new ⟨nsems, fun _ => emptySem, 0, time⟩
        ipcObjects := llistPush s.ipcObjects new })

/-- Addition on the `int` value. -/
def addInt (val op : Int) : Int := Int.bmod (val + op) (2 ^ 32)

/-- `proc_wake`. -/
def wakeProc (proc : Ptr) (s : Sems) : Sems :=
  { s with
    kernel := procWake proc s.kernel
    blocked := Function.update s.blocked proc none }

/-- `proc_sleep(proc_current)` by a process that waits on a semaphore. -/
def sleepOn (sem : SemId) (s : Sems) : Exec Sems Unit :=
  (procSleep s.kernel.procCurrent s.kernel).within fun k =>
    { s with kernel := k, blocked := Function.update s.blocked s.kernel.procCurrent (some sem) }

/-- The end of the loop body of `ipc_sem_op`: at value 0 it wakes everyone on
`waitz`; above 0 it takes everyone off `waitn` and wakes those who ask for less. -/
def wakeWaiters (sem : SemId) (s : Sems) : Sems :=
  if (s.sem sem).val = 0 then
    (s.sem sem).waitz.foldl (fun s proc => wakeProc proc s) (s.setSem sem fun m => { m with waitz := [] })
  else if (s.sem sem).val > 0 then
    (s.sem sem).waitn.foldl
      (fun t sleepn => if sleepn.val < (s.sem sem).val then wakeProc sleepn.proc t else t)
      (s.setSem sem fun m => { m with waitn := [] })
  else s

/-- Puts the caller on `waitn`. -/
def pushWaitn (sem : SemId) (amount : Int) (s : Sems) : Sems :=
  s.setSem sem fun m => { m with waitn := llistPush m.waitn ⟨amount, s.kernel.procCurrent⟩ }

/-- Puts the caller on `waitz`. -/
def pushWaitz (sem : SemId) (s : Sems) : Sems :=
  s.setSem sem fun m => { m with waitz := llistPush m.waitz s.kernel.procCurrent }

/-- Adds to the value. -/
def addVal (sem : SemId) (op : Int) (s : Sems) : Sems :=
  s.setSem sem fun m => { m with val := addInt m.val op }

/-- The bookkeeping at the start of an operation. -/
def noteOp (sem : SemId) (time : Int) (s : Sems) : Sems :=
  let s := s.setSem sem fun m => { m with lopid := s.caller.pid }
  { s with semsets := Function.update s.semsets sem.1 { s.semsets sem.1 with otime := time } }

/-- One operation on a semaphore that exists; `i` is its index in the array. The
result is the value `ipc_sem_op` returns early with, if it does. -/
def operate (sem : SemId) (i : Nat) (op : SemOp) (s : Sems) : Exec Sems (Option Int) :=
  if op.op.toInt < 0 then
    if -op.op.toInt ≤ (s.sem sem).val then .ret none (wakeWaiters sem (addVal sem op.op.toInt s))
    else if op.flags &&& 0x203 ≠ 0 then .ret (some 0) s
    else (sleepOn sem (pushWaitn sem (-op.op.toInt) s)).andThen fun _ s => .ret (some i) s
  else if op.op.toInt > 0 then .ret none (wakeWaiters sem (addVal sem op.op.toInt s))
  else (sleepOn sem (pushWaitz sem s)).andThen fun _ s => .ret none (wakeWaiters sem s)

/-- The semaphore an operation is for, if it exists. -/
def semOf (id : Int) (op : SemOp) (s : Sems) : Except Int SemId :=
  match ipcFind (-1) id .sem s.toObjects with
  | none => .error (-einval)
  | some semset =>
    if op.num.toNat ≥ (s.semsets semset).num then .error (-1) else .ok (semset, op.num.toNat)

/-- The loop body of `ipc_sem_op`. -/
def semOpOne (id time : Int) (i : Nat) (op : SemOp) (s : Sems) : Exec Sems (Option Int) :=
  match semOf id op s with
  | .error e => .ret (some e) s
  | .ok sem => operate sem i op (noteOp sem time s)

/-- What a call of `ipc_sem_op` is given. The array lies in user memory and is read
in the address space that is loaded when the loop gets to it. -/
structure OpCall where
  id : Int
  ops : Ptr → Nat → SemOp
  nops : Nat
  time : Int

/-- The loop of `ipc_sem_op` from index `i` on, with `left` operations left. -/
def semOpFrom (c : OpCall) : Nat → Nat → Sems → Exec Sems Int
  | 0, _, s => .ret 0 s
  | left + 1, i, s => (semOpOne c.id c.time i (c.ops s.kernel.curpd i) s).andThen fun early s =>
    match early with
    | some value => .ret value s
    | none => semOpFrom c left (i + 1) s

/-- `ipc_sem_op`. -/
def ipcSemOp (c : OpCall) (s : Sems) : Exec Sems Int := semOpFrom c c.nops 0 s

/-- The permission check of the semaphore functions, which passes the process id of the
owner as its user id. -/
def permitted (semset : Ptr) (op : PermOp) (s : Sems) : Bool :=
  let owner := s.kernel.procs (s.ipc semset).owner
  let creator := s.kernel.procs (s.ipc semset).creator
  permCheck owner.pid owner.gid s.caller.uid s.caller.gid (s.ipc semset).mode op ||
    s.caller.uid = creator.uid

/-- The set that a call finds, if the semaphore it names is in it. -/
def semsetOf (id : Int) (num : Nat) (s : Sems) : Option Ptr :=
  (ipcFind (-1) id .sem s.toObjects).filter fun semset => num < (s.semsets semset).num

/-- `ipc_sem_getval`; values and errors are told apart, though both are an `int`. -/
def ipcSemGetval (id : Int) (num : Nat) (s : Sems) : Except Int Int :=
  match semsetOf id num s with
  | none => .error (-einval)
  | some semset =>
    if permitted semset .r s then .ok (s.sem (semset, num)).val else .error (-eacces)

/-- `ipc_sem_setval`. -/
def ipcSemSetval (id : Int) (num : Nat) (val time : Int) (s : Sems) : Int × Sems :=
  match semsetOf id num s with
  | none => (-einval, s)
  | some semset =>
    if permitted semset .w s then
      let s := s.setSem (semset, num) fun m => { m with val := val }
      (0, { s with semsets := Function.update s.semsets semset { s.semsets semset with ctime := time } })
    else (-eacces, s)

/-- The loop body of `ipc_sem_destroy`: all of `waitz` is woken, and those of `waitn` who
ask for less than the value. -/
def releaseSem (sem : SemId) (s : Sems) : Sems :=
  let m := s.sem sem
  let s := m.waitz.foldl (fun s proc => wakeProc proc s) s
  let s := m.waitn.foldl (fun s sleepn => if sleepn.val < m.val then wakeProc sleepn.proc s else s) s
  s.setSem sem fun m => { m with waitz := [], waitn := [] }

/-- `ipc_sem_destroy`, which says `-EINVAL` also when it has destroyed the set. -/
def ipcSemDestroy (id : Int) (s : Sems) : Int × Sems :=
  match ipcFind (-1) id .sem s.toObjects with
  | none => (-einval, s)
  | some semset =>
    if permitted semset .w s then
      let s := (List.range (s.semsets semset).num).foldl (fun s i => releaseSem (semset, i) s) s
      (-einval, { s with ipcObjects := (llistRemove s.ipcObjects (llistFind s.ipcObjects semset)).2 })
    else (-eacces, s)

/-- The events: calls by the current process, and whatever the process manager does
in between. -/
inductive Event where
  | create (new : Ptr) (key : Int) (nsems : Nat) (mode : BitVec 32) (time : Int)
  | op (c : OpCall)
  | proc (event : ProcmLists.Event)

/-- After an event of the process manager, who is awake or gone no longer waits. -/
def forgetWoken (k : Kernel) (blocked : Ptr → Option SemId) (proc : Ptr) : Option SemId :=
  if (k.procs proc).isSleeping ∧ proc ∈ k.procAll then blocked proc else none

/-- One event. -/
def step (s : Sems) : Event → Option Sems
  | .create new key nsems mode time =>
    onlyIf (s.kernel.procCurrent ≠ 0 ∧ new ≠ 0 ∧ new ∉ s.ipcObjects)
      (ipcSemCreate new key nsems mode time s).2
  | .op c => onlyIf (s.kernel.procCurrent ≠ 0) (ipcSemOp c s).state
  | .proc event => (ProcmLists.step s.kernel event).map fun k =>
    { s with kernel := k, blocked := forgetWoken k s.blocked }

/-- `ipc_init`, before any set exists. -/
def start (k : Kernel) : Sems where
  kernel := k
  ipcObjects := []
  ipc := fun _ => ⟨.sem, 0, 0, 0, 0, 0⟩
  ipcLastid := 0
  semsets := fun _ => ⟨0, fun _ => emptySem, 0, 0⟩
  blocked := fun _ => none

/-- No waiter is lost: a process asleep on a semaphore is on one of its lists, no
process on `waitn` asks for an amount the value covers, and none is on `waitz` at
value 0. -/
structure WaitersKept (s : Sems) : Prop where
  listed : ∀ proc sem, s.blocked proc = some sem →
    proc ∈ (s.sem sem).waitn.map Sleepn.proc ∨ proc ∈ (s.sem sem).waitz
  uncovered : ∀ sem, ∀ sleepn ∈ (s.sem sem).waitn, ¬ sleepn.val ≤ (s.sem sem).val
  nonzero : ∀ sem, (s.sem sem).val = 0 → (s.sem sem).waitz = []

/-- `proc_sleep(proc_current)` comes back: another process is on `proc_running` (or
the caller counts as asleep already, and nothing happens). -/
def SleepReturns (k : Kernel) : Prop :=
  (k.procs k.procCurrent).isSleeping = true ∨ k.procRunning.erase k.procCurrent ≠ []

/-- The operation gets to the end of the loop body. -/
def Settles (sem : SemId) (op : SemOp) (s : Sems) : Prop :=
  (op.op.toInt < 0 → -op.op.toInt ≤ (s.sem sem).val) ∧
    (op.op.toInt = 0 → SleepReturns s.kernel)

/-- The value after the operation. -/
def resultVal (sem : SemId) (op : SemOp) (s : Sems) : Int :=
  if op.op.toInt = 0 then (s.sem sem).val else addInt (s.sem sem).val op.op.toInt

/-- Every process asleep on `waitn` asks for less than the value an operation leaves
if that is above 0, and an operation 0 at value 0 is made only while another process
can run. -/
structure OpMeetsAt (sem : SemId) (op : SemOp) (s : Sems) : Prop where
  everyone : Settles sem op s → 0 < resultVal sem op s → ∀ sleepn ∈ (s.sem sem).waitn,
    s.blocked sleepn.proc = some sem → sleepn.val < resultVal sem op s
  returns : op.op.toInt = 0 → (s.sem sem).val = 0 → SleepReturns s.kernel

def OpMeets (id : Int) (op : SemOp) (s : Sems) : Prop :=
  ∀ sem, semOf id op s = .ok sem → OpMeetsAt sem op s

/-- Every operation of a call meets the condition when the loop gets to it. -/
def OpsMeet (c : OpCall) : Nat → Nat → Sems → Prop
  | 0, _, _ => True
  | left + 1, i, s => OpMeets c.id (c.ops s.kernel.curpd i) s ∧
    match semOpOne c.id c.time i (c.ops s.kernel.curpd i) s with
    | .ret none t => OpsMeet c left (i + 1) t
    | _ => True

def CallMeets (s : Sems) : Event → Prop
  | .op c => OpsMeet c c.nops 0 s
  | _ => True

instance (k : Kernel) : Decidable (SleepReturns k) := inferInstanceAs (Decidable (_ ∨ _))

instance (sem : SemId) (op : SemOp) (s : Sems) : Decidable (Settles sem op s) :=
  inferInstanceAs (Decidable (_ ∧ _))

instance (sem : SemId) (op : SemOp) (s : Sems) : Decidable (OpMeetsAt sem op s) :=
  decidable_of_iff ((Settles sem op s → 0 < resultVal sem op s → ∀ sleepn ∈ (s.sem sem).waitn,
    s.blocked sleepn.proc = some sem → sleepn.val < resultVal sem op s) ∧
    (op.op.toInt = 0 → (s.sem sem).val = 0 → SleepReturns s.kernel))
    ⟨fun both => ⟨both.1, both.2⟩, fun both => ⟨both.everyone, both.returns⟩⟩

instance (id : Int) (op : SemOp) (s : Sems) : Decidable (OpMeets id op s) :=
  match found : semOf id op s with
  | .error _ => isTrue fun _ same => by simp [found] at same
  | .ok sem => decidable_of_iff (OpMeetsAt sem op s)
    ⟨fun met _ same => Except.ok.inj (found.symm.trans same) ▸ met, fun met => met sem found⟩

instance decidableOpsMeet (c : OpCall) :
    (left i : Nat) → (s : Sems) → Decidable (OpsMeet c left i s)
  | 0, _, _ => isTrue trivial
  | left + 1, i, s =>
    have : Decidable (match semOpOne c.id c.time i (c.ops s.kernel.curpd i) s with
        | .ret none t => OpsMeet c left (i + 1) t
        | _ => True) :=
      match semOpOne c.id c.time i (c.ops s.kernel.curpd i) s with
      | .ret none t => decidableOpsMeet c left (i + 1) t
      | .ret (some _) _ => isTrue trivial
      | .idle _ | .halt _ => isTrue trivial
    inferInstanceAs (Decidable (_ ∧ _))

instance (s : Sems) : (event : Event) → Decidable (CallMeets s event)
  | .op c => decidableOpsMeet c c.nops 0 s
  | .create .. | .proc _ => isTrue trivial

section Memory
variable (s : Sems) (sem : SemId) (f : Semaphore → Semaphore)

@[simp] theorem sem_setSem_self : (s.setSem sem f).sem sem = f (s.sem sem) := by
  simp [Sems.setSem, Sems.sem]

theorem sem_setSem_other {other : SemId} (different : other ≠ sem) :
    (s.setSem sem f).sem other = s.sem other := by
  by_cases set : other.1 = sem.1
  · have index : other.2 ≠ sem.2 := fun same => different (Prod.ext set same)
    simp [Sems.setSem, Sems.sem, set, index]
  · simp [Sems.setSem, Sems.sem, set]

end Memory

/-- The invariant: no waiter is lost, amounts are positive, and processes wait on
semaphores of sets that exist. -/
structure Waiting (s : Sems) : Prop extends WaitersKept s where
  positive : ∀ sem, ∀ sleepn ∈ (s.sem sem).waitn, 0 < sleepn.val
  created : ∀ proc sem, s.blocked proc = some sem → sem.1 ∈ s.ipcObjects

/-- The state in the middle of an operation: `uncovered` and `nonzero` may fail for
its semaphore. -/
structure Unsettled (sem : SemId) (s : Sems) : Prop where
  listed : ∀ proc other, s.blocked proc = some other →
    proc ∈ (s.sem other).waitn.map Sleepn.proc ∨ proc ∈ (s.sem other).waitz
  uncovered : ∀ other ≠ sem, ∀ sleepn ∈ (s.sem other).waitn, ¬ sleepn.val ≤ (s.sem other).val
  nonzero : ∀ other ≠ sem, (s.sem other).val = 0 → (s.sem other).waitz = []
  positive : ∀ other, ∀ sleepn ∈ (s.sem other).waitn, 0 < sleepn.val
  created : ∀ proc other, s.blocked proc = some other → other.1 ∈ s.ipcObjects

/-- What a wake-up loop does: it changes no semaphore, and who is woken is no longer
blocked. -/
theorem fold_wake (list : List α) (P : α → Prop) [DecidablePred P] (proc : α → Ptr) (s : Sems) :
    let woken := list.foldl (fun t x => if P x then wakeProc (proc x) t else t) s
    woken.semsets = s.semsets ∧ woken.ipcObjects = s.ipcObjects ∧
      ∀ p, woken.blocked p = if ∃ x ∈ list, P x ∧ proc x = p then none else s.blocked p := by
  induction list generalizing s with
  | nil => simp
  | cons x list ih =>
    by_cases wakes : P x
    · obtain ⟨same, objects, blocked⟩ := ih (wakeProc (proc x) s)
      simp only [List.foldl_cons, wakes, ↓reduceIte]
      refine ⟨same, objects, fun p => (blocked p).trans ?_⟩
      by_cases here : proc x = p
      · subst here
        simp [wakeProc, wakes]
      · simp [wakeProc, here, Function.update_of_ne (Ne.symm here)]
    · obtain ⟨same, objects, blocked⟩ := ih s
      simp only [List.foldl_cons, wakes, ↓reduceIte]
      refine ⟨same, objects, fun p => (blocked p).trans ?_⟩
      simp [wakes]

theorem sem_of_semsets {s t : Sems} (same : t.semsets = s.semsets) (sem : SemId) :
    t.sem sem = s.sem sem := by
  rw [Sems.sem, same, Sems.sem]

section
variable (mid : Unsettled sem s)
include mid

/-- The operation is over once its own semaphore is in order again. -/
theorem Unsettled.settle (there : ∀ other ≠ sem, t.sem other = s.sem other)
    (objects : t.ipcObjects = s.ipcObjects)
    (asleep : ∀ proc other, t.blocked proc = some other → s.blocked proc = some other)
    (listed : ∀ proc, t.blocked proc = some sem → proc ∈ (t.sem sem).waitn.map Sleepn.proc ∨ proc ∈ (t.sem sem).waitz)
    (amounts : ∀ sleepn ∈ (t.sem sem).waitn, ¬ sleepn.val ≤ (t.sem sem).val ∧ 0 < sleepn.val)
    (nonzero : (t.sem sem).val = 0 → (t.sem sem).waitz = []) : Waiting t := by
  refine ⟨⟨?_, ?_, ?_⟩, ?_, ?_⟩
  · intro proc other waits
    by_cases at_sem : other = sem
    · exact at_sem ▸ listed proc (at_sem ▸ waits)
    · rw [there other at_sem]
      exact mid.listed proc other (asleep proc other waits)
  · intro other sleepn inList
    by_cases at_sem : other = sem
    · subst at_sem
      exact (amounts sleepn inList).1
    · rw [there other at_sem] at inList ⊢
      exact mid.uncovered other at_sem sleepn inList
  · intro other value
    by_cases at_sem : other = sem
    · exact at_sem ▸ nonzero (at_sem ▸ value)
    · rw [there other at_sem] at value ⊢
      exact mid.nonzero other at_sem value
  · intro other sleepn inList
    by_cases at_sem : other = sem
    · subst at_sem
      exact (amounts sleepn inList).2
    · rw [there other at_sem] at inList
      exact mid.positive other sleepn inList
  · intro proc other waits
    rw [objects]
    exact mid.created proc other (asleep proc other waits)

theorem Unsettled.settled (uncovered : ∀ sleepn ∈ (s.sem sem).waitn, ¬ sleepn.val ≤ (s.sem sem).val)
    (nonzero : (s.sem sem).val = 0 → (s.sem sem).waitz = []) : Waiting s :=
  mid.settle (fun _ _ => rfl) rfl (fun _ _ waits => waits) (fun proc => mid.listed proc sem)
    (fun sleepn listed => ⟨uncovered sleepn listed, mid.positive sem sleepn listed⟩) nonzero

/-- A wake-up loop settles the semaphore if everyone it leaves asleep there is still listed. -/
theorem Unsettled.wake (list : List α) (P : α → Prop) [DecidablePred P] (proc : α → Ptr)
    {f : Semaphore → Semaphore}
    (listed : ∀ p, s.blocked p = some sem → (∀ x ∈ list, proc x = p → ¬ P x) →
      p ∈ (f (s.sem sem)).waitn.map Sleepn.proc ∨ p ∈ (f (s.sem sem)).waitz)
    (amounts : ∀ sleepn ∈ (f (s.sem sem)).waitn, ¬ sleepn.val ≤ (f (s.sem sem)).val ∧ 0 < sleepn.val)
    (nonzero : (f (s.sem sem)).val = 0 → (f (s.sem sem)).waitz = []) :
    Waiting (list.foldl (fun t x => if P x then wakeProc (proc x) t else t) (s.setSem sem f)) := by
  obtain ⟨same, objects, blocked⟩ := fold_wake list P proc (s.setSem sem f)
  generalize List.foldl _ _ _ = t at same objects blocked ⊢
  have here : t.sem sem = f (s.sem sem) := by
    rw [sem_of_semsets same, sem_setSem_self]
  have asleep : ∀ p other, t.blocked p = some other →
      s.blocked p = some other ∧ ∀ x ∈ list, proc x = p → ¬ P x := by
    intro p other waits
    rw [blocked] at waits
    split at waits
    · cases waits
    · rename_i unwoken
      exact ⟨waits, fun x member named wakes => unwoken ⟨x, member, wakes, named⟩⟩
  rw [← here] at listed amounts nonzero
  refine mid.settle (fun other different => ?_) objects (fun p other waits => (asleep p other waits).1)
    (fun p waits => listed p (asleep p sem waits).1 (asleep p sem waits).2) amounts nonzero
  rw [sem_of_semsets same, sem_setSem_other s sem _ different]

/-- At value 0 the loop over `waitz` settles the semaphore. -/
theorem wake_zero_waiting (zero : (s.sem sem).val = 0) : Waiting (wakeWaiters sem s) := by
  rw [wakeWaiters, if_pos zero]
  have woken := mid.wake (s.sem sem).waitz (fun _ => True) (fun proc => proc)
    (f := fun m => { m with waitz := [] }) (fun p waits off => ?_) (fun sleepn listed => ?_) fun _ => rfl
  · simpa only [if_true] using woken
  · exact .inl ((mid.listed p sem waits).resolve_right fun listed => off p listed rfl trivial)
  · have positive := mid.positive sem sleepn listed
    simp only [zero]
    omega

/-- Above 0 the loop over `waitn` settles the semaphore if it wakes everyone who is
asleep there. -/
theorem wake_above_waiting (above : 0 < (s.sem sem).val)
    (everyone : ∀ sleepn ∈ (s.sem sem).waitn, s.blocked sleepn.proc = some sem →
      sleepn.val < (s.sem sem).val ∨ sleepn.proc ∈ (s.sem sem).waitz) :
    Waiting (wakeWaiters sem s) := by
  rw [wakeWaiters, if_neg (by omega), if_pos above]
  refine mid.wake (s.sem sem).waitn _ Sleepn.proc (fun p waits unwoken => ?_) (by simp) fun value => ?_
  · rcases mid.listed p sem waits with onWaitn | onWaitz
    · obtain ⟨sleepn, listed, rfl⟩ := List.mem_map.mp onWaitn
      exact .inr ((everyone sleepn listed waits).resolve_left (unwoken sleepn listed rfl))
    · exact .inr onWaitz
  · simp only at value
    omega

/-- The end of the loop body settles the semaphore. -/
theorem wake_waiters_waiting
    (everyone : 0 < (s.sem sem).val → ∀ sleepn ∈ (s.sem sem).waitn,
      s.blocked sleepn.proc = some sem →
        sleepn.val < (s.sem sem).val ∨ sleepn.proc ∈ (s.sem sem).waitz) :
    Waiting (wakeWaiters sem s) := by
  rcases Int.lt_trichotomy (s.sem sem).val 0 with below | zero | above
  · rw [wakeWaiters, if_neg (by omega), if_neg (by omega)]
    refine mid.settled (fun sleepn listed => ?_) fun value => by omega
    have positive := mid.positive sem sleepn listed
    omega
  · exact wake_zero_waiting mid zero
  · exact wake_above_waiting mid above (everyone above)

end

/-- The value and both lists of every semaphore are the same before and after. -/
def SameLists (s t : Sems) : Prop :=
  ∀ sem, (t.sem sem).val = (s.sem sem).val ∧ (t.sem sem).waitn = (s.sem sem).waitn ∧
    (t.sem sem).waitz = (s.sem sem).waitz

theorem note_op_sem (sem other : SemId) (time : Int) (s : Sems) :
    (noteOp sem time s).sem other = (s.setSem sem fun m => { m with lopid := s.caller.pid }).sem other := by
  by_cases set : other.1 = sem.1 <;> simp [noteOp, Sems.sem, set]

theorem note_op_same_lists (sem : SemId) (time : Int) (s : Sems) :
    SameLists s (noteOp sem time s) := by
  intro other
  rw [note_op_sem]
  by_cases same : other = sem
  · simp [same]
  · simp [sem_setSem_other s sem _ same]

/-- Each semaphore is the same, or new and nobody waits on it. -/
theorem Waiting.of_sems (held : Waiting s) (blocked : t.blocked = s.blocked)
    (objects : ∀ object ∈ s.ipcObjects, object ∈ t.ipcObjects)
    (same : ∀ sem, ((t.sem sem).val = (s.sem sem).val ∧ (t.sem sem).waitn = (s.sem sem).waitn ∧
        (t.sem sem).waitz = (s.sem sem).waitz) ∨
      ((t.sem sem).waitn = [] ∧ (t.sem sem).waitz = [] ∧ sem.1 ∉ s.ipcObjects)) : Waiting t := by
  refine ⟨⟨fun proc sem waits => ?_, fun sem => ?_, fun sem => ?_⟩, fun sem => ?_, fun proc sem waits => ?_⟩
  · rw [blocked] at waits
    obtain ⟨-, waitn, waitz⟩ | ⟨-, -, new⟩ := same sem
    · rw [waitn, waitz]
      exact held.listed proc sem waits
    · exact absurd (held.created proc sem waits) new
  · obtain ⟨val, waitn, -⟩ | ⟨empty, -⟩ := same sem
    · rw [val, waitn]
      exact held.uncovered sem
    · simp [empty]
  · obtain ⟨val, -, waitz⟩ | ⟨-, empty, -⟩ := same sem
    · rw [val, waitz]
      exact held.nonzero sem
    · exact fun _ => empty
  · obtain ⟨-, waitn, -⟩ | ⟨empty, -⟩ := same sem
    · rw [waitn]
      exact held.positive sem
    · simp [empty]
  · rw [blocked] at waits
    exact objects _ (held.created proc sem waits)

section
variable (held : Waiting s) (sem : SemId)
include held sem

/-- A write that keeps everyone on the lists and the amounts positive leaves at most
the value of its own semaphore to settle. -/
theorem set_sem_unsettled {f : Semaphore → Semaphore}
    (listed : ∀ proc, proc ∈ (s.sem sem).waitn.map Sleepn.proc ∨ proc ∈ (s.sem sem).waitz →
      proc ∈ (f (s.sem sem)).waitn.map Sleepn.proc ∨ proc ∈ (f (s.sem sem)).waitz)
    (positive : ∀ sleepn ∈ (f (s.sem sem)).waitn, 0 < sleepn.val) :
    Unsettled sem (s.setSem sem f) := by
  refine ⟨fun proc other waits => ?_, fun other different => ?_, fun other different => ?_,
    fun other => ?_, held.created⟩
  · by_cases same : other = sem
    · subst same
      rw [sem_setSem_self]
      exact listed proc (held.listed proc other waits)
    · rw [sem_setSem_other s sem f same]
      exact held.listed proc other waits
  · rw [sem_setSem_other s sem f different]
    exact held.uncovered other
  · rw [sem_setSem_other s sem f different]
    exact held.nonzero other
  · by_cases same : other = sem
    · subst same
      rw [sem_setSem_self]
      exact positive
    · rw [sem_setSem_other s sem f same]
      exact held.positive other

theorem add_val_unsettled (op : Int) : Unsettled sem (addVal sem op s) :=
  set_sem_unsettled held sem (fun _ listed => listed) (held.positive sem)

theorem push_waitn_unsettled (positive : 0 < amount) : Unsettled sem (pushWaitn sem amount s) := by
  apply set_sem_unsettled held sem
  · rintro proc (onWaitn | onWaitz)
    · exact .inl (List.mem_cons_of_mem _ onWaitn)
    · exact .inr onWaitz
  · intro sleepn listed
    rcases List.mem_cons.mp listed with rfl | old
    · exact positive
    · exact held.positive sem sleepn old

theorem push_waitz_unsettled : Unsettled sem (pushWaitz sem s) := by
  apply set_sem_unsettled held sem
  · rintro proc (onWaitn | onWaitz)
    · exact .inl onWaitn
    · exact .inr (List.mem_cons_of_mem _ onWaitz)
  · exact held.positive sem

end

/-- Whether `proc_sleep` comes back depends on the running list only. -/
theorem sleep_returns (returns : SleepReturns k) :
    ∃ k', procSleep k.procCurrent k = .ret () k' := by
  unfold procSleep
  cases awake : (k.procs k.procCurrent).isSleeping with
  | true => exact ⟨k, rfl⟩
  | false =>
    have some : (sleepMove k.procCurrent k).procRunning ≠ [] := by
      simp only [sleepMove, llist_remove_find]
      exact returns.resolve_left (by simp [awake])
    simp only [Bool.false_eq_true, ↓reduceIte]
    exact ⟨_, (ProcmLists.shedule_selects _ some).1⟩

theorem sleep_idles (stays : ¬ SleepReturns k) :
    ∃ k', procSleep k.procCurrent k = .idle k' := by
  simp only [SleepReturns, not_or, Bool.not_eq_true, not_not] at stays
  obtain ⟨awake, alone⟩ := stays
  simp only [procSleep, awake, Bool.false_eq_true, ↓reduceIte, procShedule]
  rw [if_pos (by simp [sleepMove, llist_remove_find, alone]), if_neg (by simp [sleepMove, llistPush])]
  exact ⟨_, rfl⟩

/-- A process that goes to sleep on a list it was put on keeps the lists in order,
up to the two facts about the value of this semaphore. -/
theorem sleep_on_unsettled (before : Unsettled sem s)
    (entered : s.kernel.procCurrent ∈ (s.sem sem).waitn.map Sleepn.proc ∨
      s.kernel.procCurrent ∈ (s.sem sem).waitz)
    (exist : sem.1 ∈ s.ipcObjects) (k : Kernel) :
    Unsettled sem { s with
      kernel := k, blocked := Function.update s.blocked s.kernel.procCurrent (some sem) } := by
  refine ⟨fun proc other waits => ?_, before.uncovered, before.nonzero, before.positive,
    fun proc other waits => ?_⟩
  · by_cases caller : proc = s.kernel.procCurrent
    · subst caller
      simp only [Function.update_self, Option.some.injEq] at waits
      subst waits
      exact entered
    · simp only [Function.update_of_ne caller] at waits
      exact before.listed proc other waits
  · by_cases caller : proc = s.kernel.procCurrent
    · subst caller
      simp only [Function.update_self, Option.some.injEq] at waits
      subst waits
      exact exist
    · simp only [Function.update_of_ne caller] at waits
      exact before.created proc other waits

/-- Adding to the value loses no waiter if everyone asleep on `waitn` is woken. -/
theorem add_waiting (held : Waiting s) (sem : SemId) (op : Int)
    (everyone : 0 < addInt (s.sem sem).val op → ∀ sleepn ∈ (s.sem sem).waitn,
      s.blocked sleepn.proc = some sem → sleepn.val < addInt (s.sem sem).val op) :
    Waiting (wakeWaiters sem (addVal sem op s)) := by
  have here : (addVal sem op s).sem sem = { s.sem sem with val := addInt (s.sem sem).val op } :=
    sem_setSem_self ..
  refine wake_waiters_waiting (add_val_unsettled held sem op) fun above sleepn listed asleep => ?_
  rw [here] at above listed ⊢
  exact .inl (everyone above sleepn listed asleep)

/-- Waiting for an amount that the value does not cover. -/
theorem wait_amount_waiting (held : Waiting s) (exist : sem.1 ∈ s.ipcObjects)
    (positive : 0 < amount) (short : ¬ amount ≤ (s.sem sem).val) :
    Waiting (sleepOn sem (pushWaitn sem amount s)).state := by
  have here : (pushWaitn sem amount s).sem sem =
      { s.sem sem with waitn := ⟨amount, s.kernel.procCurrent⟩ :: (s.sem sem).waitn } :=
    sem_setSem_self ..
  have entered : s.kernel.procCurrent ∈
      ((pushWaitn sem amount s).sem sem).waitn.map Sleepn.proc := by
    rw [here]
    exact List.mem_cons_self
  rw [sleepOn, Exec.state_within]
  refine (sleep_on_unsettled (push_waitn_unsettled held sem positive) (.inl entered) exist _).settled
    ?_ ?_
  · change ∀ sleepn ∈ ((pushWaitn sem amount s).sem sem).waitn,
      ¬ sleepn.val ≤ ((pushWaitn sem amount s).sem sem).val
    rw [here]
    intro sleepn listed
    rcases List.mem_cons.mp listed with rfl | old
    · exact short
    · exact held.uncovered sem sleepn old
  · change ((pushWaitn sem amount s).sem sem).val = 0 →
      ((pushWaitn sem amount s).sem sem).waitz = []
    rw [here]
    exact held.nonzero sem

/-- The state in which a process sleeps on `waitz`. -/
def asleepOnZero (sem : SemId) (k : Kernel) (s : Sems) : Sems :=
  { pushWaitz sem s with
    kernel := k
    blocked := Function.update s.blocked s.kernel.procCurrent (some sem) }

theorem asleep_on_zero_sem (sem : SemId) (k : Kernel) (s : Sems) : (asleepOnZero sem k s).sem sem =
    { s.sem sem with waitz := s.kernel.procCurrent :: (s.sem sem).waitz } := by
  have written := sem_setSem_self s sem
    fun m => { m with waitz := s.kernel.procCurrent :: m.waitz }
  exact written

section
variable {sem : SemId} (held : Waiting s) (exist : sem.1 ∈ s.ipcObjects)
include held exist

theorem asleep_on_zero_unsettled (k : Kernel) : Unsettled sem (asleepOnZero sem k s) := by
  refine sleep_on_unsettled (push_waitz_unsettled held sem) (.inr ?_) exist k
  have here := asleep_on_zero_sem sem k s
  change (pushWaitz sem s).sem sem = _ at here
  rw [here]
  exact List.mem_cons_self

/-- Waiting for the value 0, with another process to go on or without. -/
theorem wait_zero_waiting
    (everyone : SleepReturns s.kernel → 0 < (s.sem sem).val → ∀ sleepn ∈ (s.sem sem).waitn,
      s.blocked sleepn.proc = some sem → sleepn.val < (s.sem sem).val)
    (returns : (s.sem sem).val = 0 → SleepReturns s.kernel) :
    Waiting ((sleepOn sem (pushWaitz sem s)).andThen fun _ s =>
      .ret (none : Option Int) (wakeWaiters sem s)).state := by
  by_cases back : SleepReturns s.kernel
  · obtain ⟨k, slept⟩ := sleep_returns back
    have shape : sleepOn sem (pushWaitz sem s) = .ret () (asleepOnZero sem k s) :=
      congrArg (Exec.within _) slept
    have here := asleep_on_zero_sem sem k s
    rw [shape, Exec.ret_andThen, Exec.state_ret]
    refine wake_waiters_waiting (asleep_on_zero_unsettled held exist k)
      fun above sleepn listed waits => ?_
    rw [here] at above listed ⊢
    by_cases caller : sleepn.proc = s.kernel.procCurrent
    · exact .inr (List.mem_cons.mpr (.inl caller))
    · simp only [asleepOnZero, Function.update_of_ne caller] at waits
      exact .inl (everyone back above sleepn listed waits)
  · obtain ⟨k, slept⟩ := sleep_idles back
    have shape : sleepOn sem (pushWaitz sem s) = .idle (asleepOnZero sem k s) :=
      congrArg (Exec.within _) slept
    have here := asleep_on_zero_sem sem k s
    rw [shape]
    refine (asleep_on_zero_unsettled held exist k).settled ?_ ?_
    · rw [here]
      exact held.uncovered sem
    · rw [here]
      exact fun value => absurd (returns value) back

/-- An operation that meets the condition loses no waiter. -/
theorem operate_waiting
    (everyone : Settles sem op s → 0 < resultVal sem op s → ∀ sleepn ∈ (s.sem sem).waitn,
      s.blocked sleepn.proc = some sem → sleepn.val < resultVal sem op s)
    (returns : op.op.toInt = 0 → (s.sem sem).val = 0 → SleepReturns s.kernel) :
    Waiting (operate sem i op s).state := by
  unfold operate
  split
  · rename_i negative
    have value : resultVal sem op s = addInt (s.sem sem).val op.op.toInt := if_neg (by omega)
    rw [value] at everyone
    split
    · exact add_waiting held sem _ (everyone ⟨fun _ => ‹_›, by omega⟩)
    · split
      · exact held
      · rw [Exec.state_andThen_ret]
        exact wait_amount_waiting held exist (by omega) ‹_›
  · split
    · have value : resultVal sem op s = addInt (s.sem sem).val op.op.toInt := if_neg (by omega)
      rw [value] at everyone
      exact add_waiting held sem _ (everyone ⟨by omega, by omega⟩)
    · have zero : op.op.toInt = 0 := by omega
      have value : resultVal sem op s = (s.sem sem).val := if_pos zero
      rw [value] at everyone
      exact wait_zero_waiting held exist (fun back => everyone ⟨by omega, fun _ => back⟩)
        (returns zero)

end

theorem sem_of_mem {id : Int} (found : semOf id op s = .ok sem) : sem.1 ∈ s.ipcObjects := by
  unfold semOf at found
  split at found
  · cases found
  · rename_i semset located
    split at found
    · cases found
    · cases found
      exact List.mem_of_find?_eq_some located

theorem op_one_waiting {id : Int} (time : Int) (i : Nat) (held : Waiting s)
    (meets : OpMeets id op s) :
    Waiting (semOpOne id time i op s).state := by
  unfold semOpOne
  cases found : semOf id op s with
  | error e => exact held
  | ok sem =>
    obtain ⟨everyone, returns⟩ := meets sem found
    have same := note_op_same_lists sem time s
    obtain ⟨val, waitn, -⟩ := same sem
    have result : resultVal sem op (noteOp sem time s) = resultVal sem op s := by
      simp only [resultVal, val]
    have exist : sem.1 ∈ s.ipcObjects := sem_of_mem found
    have noted : Waiting (noteOp sem time s) :=
      held.of_sems rfl (fun _ listed => listed) fun other => .inl (same other)
    apply operate_waiting noted exist
    · intro settles above
      rw [result] at above ⊢
      rw [waitn]
      refine everyone ⟨fun negative => ?_, settles.2⟩ above
      exact val ▸ settles.1 negative
    · intro zero value
      exact returns zero (val ▸ value)

/-- The loop of `ipc_sem_op`. -/
theorem op_from_waiting (c : OpCall) (left i : Nat) (held : Waiting s)
    (meets : OpsMeet c left i s) : Waiting (semOpFrom c left i s).state := by
  induction left generalizing i s with
  | zero => exact held
  | succ left ih =>
    obtain ⟨first, rest⟩ := meets
    have kept := op_one_waiting c.time i held first
    simp only [semOpFrom]
    cases done : semOpOne c.id c.time i (c.ops s.kernel.curpd i) s with
    | idle | halt =>
      rw [done] at kept
      exact kept
    | ret early t =>
      rw [done] at kept rest
      cases early with
      | some value => exact kept
      | none => exact ih (i + 1) kept rest

theorem create_waiting (held : Waiting s) (new : Ptr) (key : Int) (nsems : Nat) (mode : BitVec 32)
    (time : Int) (fresh : new ∉ s.ipcObjects) :
    Waiting (ipcSemCreate new key nsems mode time s).2 := by
  unfold ipcSemCreate
  split
  · exact held
  · refine held.of_sems rfl (fun _ listed => List.mem_cons_of_mem _ listed) fun sem => ?_
    by_cases same : sem.1 = new
    · right
      simp [Sems.sem, same, emptySem, fresh]
    · left
      simp [Sems.sem, same]

theorem forget_woken_some (waits : forgetWoken k blocked proc = some sem) :
    blocked proc = some sem := by
  unfold forgetWoken at waits
  split at waits
  · exact waits
  · cases waits

theorem step_waiting (held : Waiting s) (meets : CallMeets s event)
    (ran : step s event = some t) : Waiting t := by
  cases event with
  | create new key nsems mode time =>
    obtain ⟨⟨-, -, fresh⟩, rfl⟩ := onlyIf_eq_some ran
    exact create_waiting held new key nsems mode time fresh
  | op c =>
    obtain ⟨-, rfl⟩ := onlyIf_eq_some ran
    exact op_from_waiting c c.nops 0 held meets
  | proc event =>
    obtain ⟨k, -, rfl⟩ := Option.map_eq_some_iff.mp ran
    refine ⟨⟨fun proc sem waits => ?_, held.uncovered, held.nonzero⟩, held.positive,
      fun proc sem waits => ?_⟩
    · exact held.listed proc sem (forget_woken_some waits)
    · exact held.created proc sem (forget_woken_some waits)

theorem start_waiting (k : Kernel) : Waiting (start k) := by
  refine ⟨⟨?_, ?_, ?_⟩, ?_, ?_⟩ <;> simp [start, Sems.sem, emptySem]

/-- In every run in which each operation that leaves a value above 0 finds only
smaller amounts asleep on `waitn`, and no operation 0 is made at value 0 by the only
process that can run, no waiter is lost. -/
theorem semaphore_waiters_kept (k : Kernel) (events : List Event)
    (meets : Along step CallMeets (start k) events)
    (ran : run step (start k) events = some s) : WaitersKept s :=
  (run_guarded (fun _ _ _ => step_waiting) (start_waiting k) meets ran).toWaitersKept

/-- Two processes that can run; the first one is the current process. -/
def twoProcesses : Kernel :=
  (run ProcmLists.step (procInit ProcmLists.bootKernel)
    [.create ⟨1, ProcmLists.staleBlock, 11, 1, 1, 0, true⟩,
      .create ⟨2, ProcmLists.staleBlock, 12, 1, 1, 0, true⟩, .shedule]).getD ProcmLists.bootKernel

/-- A call with one operation on semaphore 0 of set 0. -/
def singleOp (op : BitVec 16) : Event := .op ⟨0, fun _ _ => ⟨0, op, 0⟩, 1, 0⟩

/-- The first process waits for 5, the second one adds 5: the waiter is taken off its
list and stays asleep. -/
theorem waiter_for_exact_amount_is_lost :
    ∃ s, run step (start twoProcesses) [.create 100 7 1 0 0, singleOp (-5), singleOp 5] = some s ∧
      s.blocked 1 = some (100, 0) ∧ s.kernel.procSleeping = [1] ∧
      (s.sem (100, 0)).val = 5 ∧ (s.sem (100, 0)).waitn = [] ∧ (s.sem (100, 0)).waitz = [] ∧
      ¬ WaitersKept s := by
  refine ⟨_, rfl, by decide, by decide, by decide, by decide, by decide, fun kept => ?_⟩
  have lost := kept.listed 1 (100, 0) (by decide)
  exact absurd lost (by decide)

theorem smaller_amount_is_woken :
    ∃ s, run step (start twoProcesses)
        [.create 100 7 1 0 0, singleOp (-5), singleOp 6, singleOp (-6)] = some s ∧
      s.kernel.procRunning = [1, 2] ∧ WaitersKept s :=
  ⟨_, rfl, by decide, semaphore_waiters_kept twoProcesses
    [.create 100 7 1 0 0, singleOp (-5), singleOp 6, singleOp (-6)] (by decide) rfl⟩

end MeinOS.Sem
