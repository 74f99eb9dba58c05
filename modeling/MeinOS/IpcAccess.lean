import MeinOS.Msg
import MeinOS.Sem
import MeinOS.Shm

/-! Who may use an IPC object. The rule is the one of `perm_check`, asked for the caller:
root and the creating user may do anything, and otherwise the mode has to grant the bit
to the owner's user, to the owner's group or to everyone.

The three files ask in different ways. The queue functions swap the two parties and take
a mode nobody sets, the semaphore and shared memory functions compare the caller's user
with the owner's process id, and `ipc_sem_op`, `ipc_shm_attach` and `ipc_shm_destroy` do
not ask. -/
namespace MeinOS.IpcAccess
open Lib Procm Ipc Msg Memphys Paging Memuser

/-- All IPC objects with what belongs to them. -/
structure World extends Objects where
  msqs : Ptr → Msq
  messages : Ptr → Message
  allocated : List Ptr
  semsets : Ptr → Sem.Semset
  blocked : Ptr → Option Sem.SemId
  shms : Ptr → Shm.IpcShm
  machine : Machine
  spaces : Ptr → Addrspace

/-- What `msg.c` sees. -/
def World.queues (w : World) : Queues := { w with }

/-- What `sem.c` sees. -/
def World.sems (w : World) : Sem.Sems := { w with }

/-- What `shm.c` sees. -/
def World.shared (w : World) : Shm.Shms := { w with }

/-- The system calls on an object that exists, with their arguments. -/
inductive Operation where
  | msgSend (call : Send)
  | msgRecv (call : Recv)
  | msgDestroy (id : Int) (stale : Ptr → Message)
  | semOp (call : Sem.OpCall)
  | semGetval (id : Int) (num : Nat)
  | semSetval (id : Int) (num : Nat) (val time : Int)
  | semDestroy (id : Int)
  | shmAttach (id : Int) (virt : Nat) (flags : BitVec 32) (time : Int)
  | shmSet (id : Int) (mode : BitVec 32) (time : Int)
  | shmDestroy (id : Int)

/-- The bit an operation needs. Only a read-only attachment, a receive and `getval` read. -/
def Operation.need : Operation → PermOp
  | .msgRecv _ => .r
  | .semGetval _ _ => .r
  | .shmAttach _ _ flags _ => if flags &&& Shm.shmRdonly != 0 then .r else .w
  | _ => .w

/-- The object the operation works on; `getval` and `setval` name a semaphore of it. -/
def Operation.object (w : World) : Operation → Option Ptr
  | .msgSend call => ipcFind (-1) call.id .msg w.toObjects
  | .msgRecv call => ipcFind (-1) call.id .msg w.toObjects
  | .msgDestroy id _ => ipcFind (-1) id .msg w.toObjects
  | .semOp call => ipcFind (-1) call.id .sem w.toObjects
  | .semGetval id num => Sem.semsetOf id num w.sems
  | .semSetval id num _ _ => Sem.semsetOf id num w.sems
  | .semDestroy id => ipcFind (-1) id .sem w.toObjects
  | .shmAttach id _ _ _ => ipcFind (-1) id .shm w.toObjects
  | .shmSet id _ _ => ipcFind (-1) id .shm w.toObjects
  | .shmDestroy id => ipcFind (-1) id .shm w.toObjects

/-- The call is turned away: it answers `-EACCES` and leaves everything as it was. -/
def Refused (w : World) : Operation → Prop
  | .msgSend call => ipcMsgSend call w.queues = .ret (-eacces) w.queues
  | .msgRecv call => ipcMsgRecv call w.queues = .ret ⟨-eacces, []⟩ w.queues
  | .msgDestroy id stale => ipcMsgDestroy id stale w.queues = (-eacces, w.queues)
  | .semOp call => Sem.ipcSemOp call w.sems = .ret (-eacces) w.sems
  | .semGetval id num => Sem.ipcSemGetval id num w.sems = .error (-eacces)
  | .semSetval id num val time => Sem.ipcSemSetval id num val time w.sems = (-eacces, w.sems)
  | .semDestroy id => Sem.ipcSemDestroy id w.sems = (-eacces, w.sems)
  | .shmAttach id virt flags time =>
    Shm.ipcShmAttach id virt flags time w.shared = some (-eacces, virt, w.shared)
  | .shmSet id mode time => Shm.ipcShmSet id mode time w.shared = (-eacces, w.shared)
  | .shmDestroy id => Shm.ipcShmDestroy id w.shared = some (-eacces, w.shared)

/-- The call is carried out. -/
def TakesEffect (op : Operation) (w : World) : Prop := ¬ Refused w op

/-- The bit of the owner's user in a mode. -/
def ownerBit (mode : BitVec 32) (op : PermOp) : Bool := opmode mode op &&& 0o700 != 0

/-- The bit of the owner's group in a mode. -/
def groupBit (mode : BitVec 32) (op : PermOp) : Bool := opmode mode op &&& 0o070 != 0

/-- The bit of everyone in a mode. -/
def otherBit (mode : BitVec 32) (op : PermOp) : Bool := opmode mode op &&& 0o007 != 0

/-- The process that owns the object. -/
def owner (obj : Ptr) (o : Objects) : Proc := o.kernel.procs (o.ipc obj).owner

/-- The caller may use the object for a reason other than being its owner's user. -/
def AllowedAnyway (op : PermOp) (obj : Ptr) (o : Objects) : Prop :=
  o.caller.uid = 1 ∨ o.caller.gid = 1 ∨
    o.caller.uid = (o.kernel.procs (o.ipc obj).creator).uid ∨
    (o.caller.gid = (owner obj o).gid ∧ groupBit (o.ipc obj).mode op) ∨
    otherBit (o.ipc obj).mode op

/-- The access rule. -/
def Allowed (op : PermOp) (obj : Ptr) (o : Objects) : Prop :=
  AllowedAnyway op obj o ∨ (o.caller.uid = (owner obj o).uid ∧ ownerBit (o.ipc obj).mode op)

/-- What the queue functions ask: root is looked for in the owner, the owner's user is
compared with the caller's process id, and the mode is the one of the queue. -/
def QueueAnswers (op : PermOp) (msq : Ptr) (w : World) : Prop :=
  (owner msq w.toObjects).uid = 1 ∨ (owner msq w.toObjects).gid = 1 ∨
    ((owner msq w.toObjects).uid = w.caller.pid ∧ ownerBit (w.msqs msq).mode op) ∨
    ((owner msq w.toObjects).gid = w.caller.gid ∧ groupBit (w.msqs msq).mode op) ∨
    otherBit (w.msqs msq).mode op

/-- When the operation follows the rule. The queue functions have to answer by chance as
the rule does, the unchecked operations follow it for callers who may use the object, and
the others do unless the owner's process id passes for its user. -/
def Follows (w : World) (obj : Ptr) (op : Operation) : Prop :=
  match op with
  | .msgSend _ | .msgRecv _ | .msgDestroy _ _ =>
    QueueAnswers op.need obj w ↔ Allowed op.need obj w.toObjects
  | .semGetval _ _ | .semSetval _ _ _ _ | .semDestroy _ | .shmSet _ _ _ =>
    AllowedAnyway op.need obj w.toObjects ∨ ownerBit (w.ipc obj).mode op.need = false ∨
      (w.caller.uid = (owner obj w.toObjects).uid ↔ w.caller.uid = (owner obj w.toObjects).pid)
  | .semOp _ | .shmAttach _ _ _ _ | .shmDestroy _ => Allowed op.need obj w.toObjects

section Answers

variable {w : World} {obj : Ptr} {id : Int}

/-- What the semaphore and shared memory functions ask. -/
def OwnerPidAnswers (op : PermOp) (obj : Ptr) (o : Objects) : Prop :=
  AllowedAnyway op obj o ∨ (o.caller.uid = (owner obj o).pid ∧ ownerBit (o.ipc obj).mode op)

theorem perm_check_iff : permCheck ownerUid ownerGid accessUid accessGid mode op = true ↔
    accessUid = 1 ∨ accessGid = 1 ∨ (accessUid = ownerUid ∧ ownerBit mode op) ∨
      (accessGid = ownerGid ∧ groupBit mode op) ∨ otherBit mode op := by
  simp only [permCheck, ownerBit, groupBit, otherBit, Bool.or_eq_true, Bool.and_eq_true,
    decide_eq_true_eq, or_assoc]

theorem queue_permitted_iff :
    Msg.permitted obj need w.queues = true ↔ QueueAnswers need obj w := by
  simp only [Msg.permitted, perm_check_iff]
  exact Iff.rfl

theorem sem_permitted_iff :
    Sem.permitted obj need w.sems = true ↔ OwnerPidAnswers need obj w.toObjects := by
  simp only [Sem.permitted, Bool.or_eq_true, perm_check_iff, decide_eq_true_eq]
  simp only [OwnerPidAnswers, AllowedAnyway, owner, Objects.caller, World.sems]
  tauto

theorem shm_permitted_iff :
    Shm.permitted obj need w.shared = true ↔ OwnerPidAnswers need obj w.toObjects := by
  simp only [Shm.permitted, Bool.or_eq_true, perm_check_iff, decide_eq_true_eq]
  simp only [OwnerPidAnswers, AllowedAnyway, owner, Objects.caller, World.shared]
  tauto

/-- Code that sleeps and then answers something else is no refusal. -/
theorem sleep_then_answers {code : Exec σ Unit} {value refusal : α} (other : value ≠ refusal)
    (t : σ) : (code.andThen fun _ s => .ret value s) ≠ .ret refusal t := by
  cases code with
  | ret value s => simp [other]
  | idle | halt => simp [Exec.andThen]

/-- What answers with the refusal only if the check fails. -/
theorem refused_unless {granted : Bool} {done refusal : α} (other : done ≠ refusal) :
    (if granted then done else refusal) = refusal ↔ ¬ granted = true := by
  cases granted <;> simp [other]

theorem send_refused_iff (found : ipcFind (-1) call.id .msg w.toObjects = some obj) :
    Refused w (.msgSend call) ↔ ¬ QueueAnswers .w obj w := by
  have exist : ipcFind (-1) call.id .msg w.queues.toObjects = some obj := found
  simp only [Refused, ipcMsgSend, exist, ← queue_permitted_iff]
  apply refused_unless
  split
  · exact sleep_then_answers (by decide) _
  · simp [eacces]

theorem recv_refused_iff (found : ipcFind (-1) call.id .msg w.toObjects = some obj) :
    Refused w (.msgRecv call) ↔ ¬ QueueAnswers .r obj w := by
  have exist : ipcFind (-1) call.id .msg w.queues.toObjects = some obj := found
  simp only [Refused, ipcMsgRecv, exist, ← queue_permitted_iff]
  apply refused_unless
  split
  · simp only [deliver, ne_eq, Exec.ret.injEq, Received.mk.injEq, eacces]
    omega
  · split
    · exact sleep_then_answers (by decide) _
    · simp [enomsg, eacces]

theorem msg_destroy_refused_iff (found : ipcFind (-1) id .msg w.toObjects = some obj) :
    Refused w (.msgDestroy id stale) ↔ ¬ QueueAnswers .w obj w := by
  have exist : ipcFind (-1) id .msg w.queues.toObjects = some obj := found
  simp only [Refused, ipcMsgDestroy, exist, ← queue_permitted_iff]
  split
  case isTrue granted => simp [granted, eacces]
  case isFalse denied => simp [denied]

theorem getval_refused_iff (found : Sem.semsetOf id num w.sems = some obj) :
    Refused w (.semGetval id num) ↔ ¬ OwnerPidAnswers .r obj w.toObjects := by
  simp only [Refused, Sem.ipcSemGetval, found, ← sem_permitted_iff]
  split
  case isTrue granted => simp [granted]
  case isFalse denied => simp [denied]

theorem setval_refused_iff (found : Sem.semsetOf id num w.sems = some obj) :
    Refused w (.semSetval id num val time) ↔ ¬ OwnerPidAnswers .w obj w.toObjects := by
  simp only [Refused, Sem.ipcSemSetval, found, ← sem_permitted_iff]
  split
  case isTrue granted => simp [granted, eacces]
  case isFalse denied => simp [denied]

theorem sem_destroy_refused_iff (found : ipcFind (-1) id .sem w.toObjects = some obj) :
    Refused w (.semDestroy id) ↔ ¬ OwnerPidAnswers .w obj w.toObjects := by
  have exist : ipcFind (-1) id .sem w.sems.toObjects = some obj := found
  simp only [Refused, Sem.ipcSemDestroy, exist, ← sem_permitted_iff]
  split
  case isTrue granted => simp [granted, eacces, einval]
  case isFalse denied => simp [denied]

theorem shm_set_refused_iff (found : ipcFind (-1) id .shm w.toObjects = some obj) :
    Refused w (.shmSet id mode time) ↔ ¬ OwnerPidAnswers .w obj w.toObjects := by
  have exist : ipcFind (-1) id .shm w.shared.toObjects = some obj := found
  simp only [Refused, Shm.ipcShmSet, exist, ← shm_permitted_iff]
  split
  case isTrue granted => simp [granted, eacces]
  case isFalse denied => simp [denied]

end Answers

section Unchecked

open Sem

/-- An operation ends the loop with a value that is no refusal. -/
theorem operate_value_ne (ran : operate sem i op s = .ret (some value) t) : value ≠ -eacces := by
  simp only [operate] at ran
  split at ran
  · split at ran
    · cases ran
    · split at ran
      · cases ran
        decide
      · cases slept : sleepOn sem (pushWaitn sem (-op.op.toInt) s) with
        | ret value u =>
          simp only [slept, Exec.ret_andThen] at ran
          cases ran
          simp only [eacces]
          omega
        | idle | halt => simp [slept, Exec.andThen] at ran
  · split at ran
    · cases ran
    · cases slept : sleepOn sem (pushWaitz sem s) with
      | ret value u =>
        simp only [slept, Exec.ret_andThen] at ran
        cases ran
      | idle | halt => simp [slept, Exec.andThen] at ran

theorem sem_op_one_value_ne {id : Int} (ran : semOpOne id time i op s = .ret (some value) t) :
    value ≠ -eacces := by
  simp only [semOpOne] at ran
  split at ran
  case h_1 error missing =>
    cases ran
    simp only [semOf] at missing
    split at missing
    · cases missing
      decide
    · split at missing
      · cases missing
        decide
      · cases missing
  case h_2 sem there => exact operate_value_ne ran

/-- However far the loop gets, it does not answer `-EACCES`. -/
theorem sem_op_from_value_ne (c : OpCall) (left i : Nat) (s : Sems) (ran : semOpFrom c left i s = .ret value t) :
    value ≠ -eacces := by
  induction left generalizing i s with
  | zero =>
    simp only [semOpFrom, Exec.ret.injEq] at ran
    rw [← ran.1]
    decide
  | succ left ih =>
    simp only [semOpFrom] at ran
    cases one : semOpOne c.id c.time i (c.ops s.kernel.curpd i) s with
    | ret early u =>
      simp only [one, Exec.ret_andThen] at ran
      cases early with
      | none => exact ih (i + 1) u ran
      | some early =>
        cases ran
        exact sem_op_one_value_ne one
    | idle | halt => simp [one, Exec.andThen] at ran

theorem sem_op_takes_effect (call : OpCall) (w : World) : TakesEffect (.semOp call) w :=
  fun refused => sem_op_from_value_ne call call.nops 0 w.sems refused rfl

theorem attach_takes_effect (id : Int) (virt : Nat) (flags : BitVec 32) (time : Int) (w : World) :
    TakesEffect (.shmAttach id virt flags time) w := by
  intro refused
  simp only [Refused, Shm.ipcShmAttach] at refused
  split at refused
  · split at refused
    · simp [einval, eacces] at refused
    · simp only [Option.bind_eq_some_iff, Option.map_eq_some_iff] at refused
      obtain ⟨_, _, _, _, _, _, same⟩ := refused
      simp [eacces] at same
  · simp [einval, eacces] at refused

theorem shm_destroy_takes_effect (id : Int) (w : World) : TakesEffect (.shmDestroy id) w := by
  intro refused
  simp only [Refused, Shm.ipcShmDestroy] at refused
  split at refused
  · simp [eacces] at refused
  · simp only [Option.bind_eq_some_iff, Option.map_eq_some_iff] at refused
    obtain ⟨_, _, _, _, same⟩ := refused
    simp [eacces] at same

end Unchecked

/-- For the operations that compare with the owner's process id. -/
theorem owner_pid_follows_iff (op : PermOp) (obj : Ptr) (o : Objects) :
    (OwnerPidAnswers op obj o ↔ Allowed op obj o) ↔
      (AllowedAnyway op obj o ∨ ownerBit (o.ipc obj).mode op = false ∨
        (o.caller.uid = (owner obj o).uid ↔ o.caller.uid = (owner obj o).pid)) := by
  simp only [OwnerPidAnswers, Allowed, ← Bool.not_eq_true]
  tauto

/-- An operation on an object that exists follows the access rule exactly when `Follows`
says so. -/
theorem takes_effect_iff_allowed (w : World) (op : Operation) (obj : Ptr)
    (found : op.object w = some obj) :
    (TakesEffect op w ↔ Allowed op.need obj w.toObjects) ↔ Follows w obj op := by
  cases op with
  | msgSend call => simp only [TakesEffect, send_refused_iff found, not_not, Follows, Operation.need]
  | msgRecv call => simp only [TakesEffect, recv_refused_iff found, not_not, Follows, Operation.need]
  | msgDestroy id stale =>
    simp only [TakesEffect, msg_destroy_refused_iff found, not_not, Follows, Operation.need]
  | semOp call => simp only [sem_op_takes_effect, true_iff, Follows]
  | semGetval id num =>
    simp only [TakesEffect, getval_refused_iff found, not_not, Follows, Operation.need]
    exact owner_pid_follows_iff .r obj w.toObjects
  | semSetval id num val time =>
    simp only [TakesEffect, setval_refused_iff found, not_not, Follows, Operation.need]
    exact owner_pid_follows_iff .w obj w.toObjects
  | semDestroy id =>
    simp only [TakesEffect, sem_destroy_refused_iff found, not_not, Follows, Operation.need]
    exact owner_pid_follows_iff .w obj w.toObjects
  | shmAttach id virt flags time => simp only [attach_takes_effect, true_iff, Follows]
  | shmSet id mode time =>
    simp only [TakesEffect, shm_set_refused_iff found, not_not, Follows, Operation.need]
    exact owner_pid_follows_iff .w obj w.toObjects
  | shmDestroy id => simp only [shm_destroy_takes_effect, true_iff, Follows]

/-- A root process 1 and the current process 2 of user and group 5. -/
def rootAndUser : Kernel :=
  { ProcmLists.bootKernel with
    procs := fun proc => if proc = 1 then { ProcmLists.staleBlock with pid := 2, uid := 1, gid := 1 }
      else { ProcmLists.staleBlock with pid := 3, uid := 5, gid := 5 }
    procAll := [2, 1]
    procRunning := [2, 1]
    procNextpid := 4
    procCurrent := 2 }

/-- Root has created the queue 100 and the user the semaphore set 101, each for itself. -/
def queueAndSemset : World where
  kernel := rootAndUser
  ipcObjects := [101, 100]
  ipc := fun obj => if obj = 100 then ⟨.msg, 0, 7, 1, 1, 0o600⟩ else ⟨.sem, 1, 8, 2, 2, 0o600⟩
  ipcLastid := 2
  msqs := fun _ => emptyMsq
  messages := fun _ => ⟨[], 0, 0, 0, 0⟩
  allocated := []
  semsets := fun _ => ⟨1, fun _ => Sem.emptySem, 0, 0⟩
  blocked := fun _ => none
  shms := fun _ => ⟨0, 0, [], [], 0, 0, 0, 0⟩
  machine := ⟨fun _ _ => blank, ⟨fun _ => 0, 0, 1024, fun _ => none, fun _ => 0⟩, 0, 0, 0⟩
  spaces := fun _ => ⟨[], [], [], 0, 0⟩

/-- The user may send to root's private queue. -/
theorem user_sends_to_root_queue :
    TakesEffect (.msgSend ⟨0, 200, [1], 5, 0, 0⟩) queueAndSemset ∧
      ¬ Allowed .w 100 queueAndSemset.toObjects := by
  constructor
  · intro refused
    have denied : ¬ QueueAnswers .w 100 queueAndSemset := (send_refused_iff rfl).mp refused
    exact denied (.inl rfl)
  · simp only [Allowed, AllowedAnyway]
    decide

/-- The user may set a semaphore of its own set. -/
theorem user_sets_own_semaphore :
    TakesEffect (.semSetval 1 0 3 0) queueAndSemset ↔ Allowed .w 101 queueAndSemset.toObjects :=
  (takes_effect_iff_allowed queueAndSemset (.semSetval 1 0 3 0) 101 rfl).mpr
    (.inl (.inr (.inr (.inl rfl))))

end MeinOS.IpcAccess
