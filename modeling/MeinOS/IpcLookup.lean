import MeinOS.IpcNamespace

/-! What the calls on an IPC object do with an id that no object of their type has. They
all look the object up with `ipc_find`, for which the id `-1` stands for any object: a call
with `-1` gets the first object of the type and goes on with it. -/
namespace MeinOS.IpcLookup
open Lib Llist Procm Ipc Msg Sem Shm IpcAccess IpcNamespace
open Memuser (userdataAddress)

/-- The system calls that look an object up by its id. -/
inductive Call where
  | shmAttach
  | shmDestroy
  | semOp
  | semDestroy
  | msgSend
  | msgRecv
  | msgDestroy
  deriving DecidableEq

/-- The type of object that a call looks for. -/
def Call.type : Call → IpcType
  | .shmAttach | .shmDestroy => .shm
  | .semOp | .semDestroy => .sem
  | .msgSend | .msgRecv | .msgDestroy => .msg

/-- Whatever else the call is given, it answers with a negative value and changes nothing.
A call of `ipc_sem_op` has at least one operation. -/
def Rejects (w : World) (id : Int) : Call → Prop
  | .shmAttach => ∀ virt flags time, ∃ value < 0,
    ipcShmAttach id virt flags time w.shared = some (value, virt, w.shared)
  | .shmDestroy => ∃ value < 0, ipcShmDestroy id w.shared = some (value, w.shared)
  | .semOp => ∀ call : OpCall, call.id = id → 1 ≤ call.nops → ∃ value < 0,
    ipcSemOp call w.sems = .ret value w.sems
  | .semDestroy => ∃ value < 0, ipcSemDestroy id w.sems = (value, w.sems)
  | .msgSend => ∀ call : Send, call.id = id → ∃ value < 0,
    ipcMsgSend call w.queues = .ret value w.queues
  | .msgRecv => ∀ call : Recv, call.id = id → ∃ value < 0,
    ipcMsgRecv call w.queues = .ret ⟨value, []⟩ w.queues
  | .msgDestroy => ∀ stale, ∃ value < 0, ipcMsgDestroy id stale w.queues = (value, w.queues)

/-- The call does not turn the caller away from this object: the set has a semaphore, or
the permission check passes where there is one. -/
def Admits (w : World) (obj : Ptr) : Call → Prop
  | .shmAttach | .shmDestroy => True
  | .semOp => 0 < (w.semsets obj).num
  | .semDestroy => Sem.permitted obj .w w.sems = true
  | .msgSend | .msgDestroy => Msg.permitted obj .w w.queues = true
  | .msgRecv => Msg.permitted obj .r w.queues = true

variable {w : World} {id : Int} {obj : Ptr}

/-- An id other than `-1` that no object of the type has finds nothing. -/
theorem find_unknown {type : IpcType} {o : Objects} (definite : id ≠ -1)
    (unknown : ∀ obj ∈ o.ipcObjects, (o.ipc obj).type = type → (o.ipc obj).id ≠ id) :
    ipcFind (-1) id type o = none := by
  apply List.find?_eq_none.mpr
  intro obj member
  by_cases same : (o.ipc obj).type = type
  · simp [unknown obj member same, definite]
  · simp [same]

/-- A call that finds nothing is turned away, and so is one that finds an object which does so,
whichever way it was found. -/
theorem away_rejects (call : Call)
    (away : ∀ obj, ipcFind (-1) id call.type w.toObjects = some obj → ¬ Admits w obj call) :
    Rejects w id call := by
  have einval_neg : -einval < 0 := by decide
  have eacces_neg : -eacces < 0 := by decide
  cases call with
  | shmAttach =>
    intro virt flags time
    have nothing : ipcFind (-1) id .shm w.shared.toObjects = none :=
      Option.eq_none_iff_forall_ne_some.mpr fun obj found => away obj found trivial
    refine ⟨-einval, einval_neg, ?_⟩
    rw [ipcShmAttach, nothing]
    split <;> rfl
  | shmDestroy =>
    have nothing : ipcFind (-1) id .shm w.shared.toObjects = none :=
      Option.eq_none_iff_forall_ne_some.mpr fun obj found => away obj found trivial
    refine ⟨-1, by decide, ?_⟩
    rw [ipcShmDestroy, nothing]
  | semOp =>
    rintro ⟨asked, ops, nops, time⟩ rfl atLeast
    obtain ⟨left, rfl⟩ := Nat.exists_eq_add_of_le' atLeast
    have nothing : ∃ value < 0, ∀ op, semOf asked op w.sems = .error value := by
      cases found : ipcFind (-1) asked .sem w.sems.toObjects with
      | none => exact ⟨-einval, einval_neg, fun op => by rw [semOf, found]⟩
      | some obj =>
        have empty : (w.sems.semsets obj).num = 0 := Nat.eq_zero_of_not_pos (away obj found)
        exact ⟨-1, by decide, fun op => by simp [semOf, found, empty]⟩
    obtain ⟨value, negative, nothing⟩ := nothing
    refine ⟨value, negative, ?_⟩
    rw [ipcSemOp, semOpFrom, semOpOne, nothing]
    rfl
  | semDestroy =>
    rw [Rejects, ipcSemDestroy]
    cases found : ipcFind (-1) id .sem w.sems.toObjects with
    | none => exact ⟨-einval, einval_neg, rfl⟩
    | some obj => exact ⟨-eacces, eacces_neg, if_neg (away obj found)⟩
  | msgSend =>
    rintro call rfl
    rw [ipcMsgSend]
    cases found : ipcFind (-1) call.id .msg w.queues.toObjects with
    | none => exact ⟨-einval, einval_neg, rfl⟩
    | some obj => exact ⟨-eacces, eacces_neg, if_neg (away obj found)⟩
  | msgRecv =>
    rintro call rfl
    rw [ipcMsgRecv]
    cases found : ipcFind (-1) call.id .msg w.queues.toObjects with
    | none => exact ⟨-einval, einval_neg, rfl⟩
    | some obj => exact ⟨-eacces, eacces_neg, if_neg (away obj found)⟩
  | msgDestroy =>
    intro stale
    rw [ipcMsgDestroy]
    cases found : ipcFind (-1) id .msg w.queues.toObjects with
    | none => exact ⟨-einval, einval_neg, rfl⟩
    | some obj => exact ⟨-eacces, eacces_neg, if_neg (away obj found)⟩

/-- A destroyed object is off the list. -/
theorem removed_ne {objects : List Ptr} (member : obj ∈ objects) :
    (llistRemove objects (llistFind objects obj)).2 ≠ objects := by
  rw [remove_erase]
  intro same
  have shorter := List.length_erase_of_mem member
  have positive := List.length_pos_of_mem member
  rw [same] at shorter
  omega

/-- A caller that is not turned away gets something done. -/
theorem admitted_acts (call : Call) (found : ipcFind (-1) id call.type w.toObjects = some obj)
    (admits : Admits w obj call) : ¬ Rejects w id call := by
  intro rejects
  have member : obj ∈ w.ipcObjects := List.mem_of_find?_eq_some found
  cases call with
  | shmAttach =>
    obtain ⟨value, negative, attached⟩ := rejects userdataAddress 0 0
    have there : ipcFind (-1) id .shm w.shared.toObjects = some obj := found
    rw [ipcShmAttach, if_pos (Or.inl (Nat.le_refl _)), there] at attached
    obtain ⟨-, -, attached⟩ := Option.bind_eq_some_iff.mp attached
    obtain ⟨-, -, attached⟩ := Option.bind_eq_some_iff.mp attached
    obtain ⟨machine, -, same⟩ := Option.map_eq_some_iff.mp attached
    cases congrArg Prod.fst same
    exact absurd negative (by decide)
  | shmDestroy =>
    obtain ⟨value, negative, destroyed⟩ := rejects
    have there : ipcFind (-1) id .shm w.shared.toObjects = some obj := found
    rw [ipcShmDestroy, there] at destroyed
    obtain ⟨unmapped, -, destroyed⟩ := Option.bind_eq_some_iff.mp destroyed
    obtain ⟨freed, -, same⟩ := Option.map_eq_some_iff.mp destroyed
    cases congrArg Prod.fst same
    exact absurd negative (by decide)
  | semOp =>
    -- one operation adds 1 to the first semaphore
    obtain ⟨value, negative, ran⟩ := rejects ⟨id, fun _ _ => ⟨0, 1, 0⟩, 1, 0⟩ rfl (Nat.le_refl 1)
    have there : ipcFind (-1) id .sem w.sems.toObjects = some obj := found
    have sem : semOf id ⟨0, 1, 0⟩ w.sems = .ok (obj, 0) := by
      have first : ¬ (w.sems.semsets obj).num = 0 := Nat.ne_of_gt admits
      simp [semOf, there, first]
    rw [ipcSemOp, semOpFrom, semOpOne, sem] at ran
    cases (Exec.ret.inj ran).1
    exact absurd negative (by decide)
  | semDestroy =>
    obtain ⟨value, -, destroyed⟩ := rejects
    have there : ipcFind (-1) id .sem w.sems.toObjects = some obj := found
    rw [ipcSemDestroy, there] at destroyed
    simp only [show Sem.permitted obj .w w.sems = true from admits, if_true] at destroyed
    have objects := congrArg (fun done => done.2.ipcObjects) destroyed
    have kept : ((List.range (w.sems.semsets obj).num).foldl
        (fun s i => releaseSem (obj, i) s) w.sems).ipcObjects = w.ipcObjects :=
      foldl_keeps (fun s : Sems => s.ipcObjects)
        (fun s i => congrArg Directory.ipcObjects (release_directory (obj, i) s)) w.sems _
    rw [kept] at objects
    exact removed_ne member objects
  | msgSend =>
    obtain ⟨value, negative, ran⟩ := rejects ⟨id, 0, [], 0, 0, 0⟩ rfl
    have there : ipcFind (-1) id .msg w.queues.toObjects = some obj := found
    rw [ipcMsgSend, there] at ran
    simp only [show Msg.permitted obj .w w.queues = true from admits, if_true] at ran
    rw [if_neg (by decide)] at ran
    cases (Exec.ret.inj ran).1
    exact absurd negative (by decide)
  | msgRecv =>
    obtain ⟨value, negative, ran⟩ := rejects ⟨id, 0, 0, 0, 0, fun _ => ⟨[], 0, 0, 0, 0⟩⟩ rfl
    have there : ipcFind (-1) id .msg w.queues.toObjects = some obj := found
    rw [ipcMsgRecv, there] at ran
    simp only [show Msg.permitted obj .r w.queues = true from admits, if_true] at ran
    split at ran
    · obtain ⟨same, -⟩ := Exec.ret.inj ran
      have count := congrArg Received.ret same
      simp only at count
      omega
    · rw [if_pos (by decide), waitForMessage] at ran
      cases slept : sleepCaller (w.queues.setMsq obj { w.queues.msqs obj with
          waiting := llistPush (w.queues.msqs obj).waiting w.queues.kernel.procCurrent }) with
      | ret nothing s =>
        rw [slept] at ran
        cases ran
        exact absurd negative (by decide)
      | idle | halt =>
        rw [slept] at ran
        cases ran
  | msgDestroy =>
    obtain ⟨value, negative, destroyed⟩ := rejects fun _ => ⟨[], 0, 0, 0, 0⟩
    have there : ipcFind (-1) id .msg w.queues.toObjects = some obj := found
    rw [ipcMsgDestroy, there] at destroyed
    simp only [show Msg.permitted obj .w w.queues = true from admits, if_true] at destroyed
    cases congrArg Prod.fst destroyed
    exact absurd negative (by decide)

/-- An id that no object of the type has is turned away, except that `-1` finds the first
object of the type and is turned away only if that object does. -/
theorem unknown_id_rejected_iff (w : World) (id : Int) (call : Call)
    (unknown : ∀ obj ∈ w.ipcObjects, (w.ipc obj).type = call.type → (w.ipc obj).id ≠ id) :
    Rejects w id call ↔
      id ≠ -1 ∨ ∀ obj, w.ipcObjects.find? (fun p => (w.ipc p).type = call.type) = some obj →
        ¬ Admits w obj call := by
  by_cases any : id = -1
  · subst any
    have first : ipcFind (-1) (-1) call.type w.toObjects =
        w.ipcObjects.find? fun p => (w.ipc p).type = call.type := by
      simp [ipcFind]
    constructor
    · intro rejects
      refine Or.inr fun obj found admits => ?_
      exact admitted_acts call (first.trans found) admits rejects
    · rintro (definite | away)
      · exact absurd rfl definite
      · exact away_rejects call fun obj found => away obj (first.symm.trans found)
  · constructor
    · intro _
      exact Or.inl any
    · refine fun _ => away_rejects call fun obj found => ?_
      rw [find_unknown any unknown] at found
      cases found

/-- The id 5 is nobody's, and a message that is sent to it is turned away. -/
theorem send_to_five_rejected :
    (∀ obj ∈ queueAndSemset.ipcObjects, (queueAndSemset.ipc obj).type = Call.msgSend.type →
      (queueAndSemset.ipc obj).id ≠ 5) ∧ Rejects queueAndSemset 5 .msgSend := by
  have unknown : ∀ obj ∈ queueAndSemset.ipcObjects,
      (queueAndSemset.ipc obj).type = Call.msgSend.type → (queueAndSemset.ipc obj).id ≠ 5 := by
    decide
  exact ⟨unknown, (unknown_id_rejected_iff queueAndSemset 5 .msgSend unknown).mpr
    (Or.inl (by decide))⟩

/-- No queue has the id `-1`, but a message to it is accepted and lands in queue 0. -/
theorem send_to_any_accepted :
    (∀ obj ∈ queueAndSemset.ipcObjects, (queueAndSemset.ipc obj).type = .msg →
      (queueAndSemset.ipc obj).id ≠ -1) ∧
      ∃ s, ipcMsgSend ⟨-1, 200, [1], 5, 0, 0⟩ queueAndSemset.queues = .ret 0 s ∧
        (s.msqs 100).msgs = [200] ∧ (queueAndSemset.msqs 100).msgs = [] := by
  refine ⟨by decide, _, rfl, ?_, rfl⟩
  decide

end MeinOS.IpcLookup
