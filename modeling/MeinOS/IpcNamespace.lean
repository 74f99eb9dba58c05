import MeinOS.IpcAccess
import MeinOS.Lib.Runs

/-! The names of IPC objects. Message queues, semaphore sets and shared memory objects are
in one list, take their ids from one counter and are found by one search, in which `-1`
stands for any key or id; the three kinds only differ in the type they search for. -/
namespace MeinOS.IpcNamespace
open Llist Procm Ipc Msg IpcAccess Lib.Runs

def enospc : Int := 52

/-- The id of the object that a search by key finds, or an error. -/
def getByKey (type : IpcType) (error key : Int) (o : Objects) : Int :=
  match ipcFind key (-1) type o with
  | none => error
  | some object => (o.ipc object).id

/-- `ipc_msg_get`. -/
def ipcMsgGet : Int → Objects → Int := getByKey .msg (-1)

/-- `ipc_sem_get`. -/
def ipcSemGet : Int → Objects → Int := getByKey .sem (-einval)

/-- `ipc_shm_get`. -/
def ipcShmGet : Int → Objects → Int := getByKey .shm (-einval)

/-- The get call of a type. -/
def ipcGet : IpcType → Int → Objects → Int
  | .msg => ipcMsgGet
  | .sem => ipcSemGet
  | .shm => ipcShmGet

/-- A call of `msg.c` in the world. -/
def withQueues (w : World) (done : Int × Queues) : Int × World :=
  (done.1, { w with
    toObjects := done.2.toObjects, msqs := done.2.msqs, messages := done.2.messages
    allocated := done.2.allocated })

/-- A call of `sem.c` in the world. -/
def withSems (w : World) (done : Int × Sem.Sems) : Int × World :=
  (done.1, { w with toObjects := done.2.toObjects, semsets := done.2.semsets, blocked := done.2.blocked })

/-- A call of `shm.c` in the world. -/
def withShared (w : World) (done : Int × Shm.Shms) : Int × World :=
  (done.1, { w with
    toObjects := done.2.toObjects, shms := done.2.shms, machine := done.2.machine
    spaces := done.2.spaces })

/-- The system calls that make or destroy an object, and anything that happens to the
processes in between. A new object is given the block that `malloc` finds, if it finds one. -/
inductive Event where
  | msgCreate (new : Option Ptr) (key : Int) (mode : BitVec 32) (time : Int)
  | semCreate (new : Option Ptr) (key : Int) (nsems : Nat) (mode : BitVec 32) (time : Int)
  | shmCreate (new : Option Ptr) (key : Int) (size : Nat) (flags : BitVec 32)
  | msgDestroy (id : Int) (stale : Ptr → Message)
  | semDestroy (id : Int)
  | shmDestroy (id : Int)
  | kernel (k : Kernel)

/-- The type and the key of the object that an event makes. -/
def Event.creates : Event → Option (IpcType × Int)
  | .msgCreate _ key _ _ => some (.msg, key)
  | .semCreate _ key _ _ _ => some (.sem, key)
  | .shmCreate _ key _ _ => some (.shm, key)
  | _ => none

/-- A creation finds an object with its key. -/
def taken (type : IpcType) (key : Int) (o : Objects) : Bool :=
  key ≠ ipcPrivate && (ipcFind key (-1) type o).isSome

/-- The result of a creation without memory. -/
def noMemory (type : IpcType) (key exist : Int) (w : World) : Int × World :=
  (if taken type key w.toObjects then exist else -enospc, w)

/-- A system call: its result and what it leaves. `malloc` finds a block that no object is in. -/
def call (w : World) : Event → Option (Int × World)
  | .msgCreate none _ _ _ => some (-einval, w)
  | .msgCreate (some new) key mode time => onlyIf (new ∉ w.ipcObjects)
    (withQueues w (ipcMsgCreate new key mode time w.queues))
  | .semCreate none key _ _ _ => some (noMemory .sem key (-eexist) w)
  | .semCreate (some new) key nsems mode time => onlyIf (new ∉ w.ipcObjects)
    (withSems w (Sem.ipcSemCreate new key nsems mode time w.sems))
  | .shmCreate none key _ _ => some (noMemory .shm key (-eexist) w)
  | .shmCreate (some new) key size flags =>
    if new ∈ w.ipcObjects then none
    else (Shm.ipcShmCreate new key size flags w.shared).map (withShared w)
  | .msgDestroy id stale => some (withQueues w (ipcMsgDestroy id stale w.queues))
  | .semDestroy id => some (withSems w (Sem.ipcSemDestroy id w.sems))
  | .shmDestroy id => (Shm.ipcShmDestroy id w.shared).map (withShared w)
  | .kernel k => some (0, { w with kernel := k })

def step (w : World) (event : Event) : Option World := (call w event).map (·.2)

/-- No object has been made. -/
structure Initial (w : World) : Prop where
  ipcObjects : w.ipcObjects = []
  ipcLastid : w.ipcLastid = 0

/-! What a call does to the list, the headers and the counter. -/

/-- What `ipc.c` knows of the objects. -/
structure Directory where
  ipcObjects : List Ptr
  ipc : Ptr → IpcObj
  ipcLastid : Int

def directory (o : Objects) : Directory := ⟨o.ipcObjects, o.ipc, o.ipcLastid⟩

/-- No object of the type has the key. -/
def Free (d : Directory) (type : IpcType) (key : Int) : Prop :=
  ∀ object ∈ d.ipcObjects, (d.ipc object).type = type → (d.ipc object).key ≠ key

/-- A new object takes the next id and a key that is free; an old one leaves the list. -/
inductive Moves (d : Directory) : Directory → Prop where
  | kept : Moves d d
  | created (new : Ptr) (header : IpcObj) (unused : new ∉ d.ipcObjects) (id : header.id = d.ipcLastid)
      (free : header.key ≠ ipcPrivate → Free d header.type header.key) :
      Moves d ⟨new :: d.ipcObjects, Function.update d.ipc new header, d.ipcLastid + 1⟩
  | destroyed (object : Ptr) : Moves d ⟨d.ipcObjects.erase object, d.ipc, d.ipcLastid⟩

theorem find_none {o : Objects} {type : IpcType} {key : Int} (missing : ipcFind key (-1) type o = none) :
    Free (directory o) type key := by
  intro object member same
  have other := List.find?_eq_none.mp missing object member
  simp only [Bool.and_eq_true, Bool.or_eq_true, decide_eq_true_eq, decide_true, or_true, and_true] at other
  exact fun equal => other ⟨same, .inl equal⟩

theorem free_of_untaken {o : Objects} {type : IpcType} {key : Int} (untaken : ¬ taken type key o = true)
    (named : key ≠ ipcPrivate) : Free (directory o) type key := by
  apply find_none
  simpa [taken, named] using untaken

theorem foldl_keeps (view : σ → β) {f : σ → α → σ} (keeps : ∀ s a, view (f s a) = view s) (s : σ)
    (values : List α) : view (values.foldl f s) = view s := by
  induction values generalizing s with
  | nil => rfl
  | cons a values ih => rw [List.foldl_cons, ih, keeps]

theorem remove_erase (list : List Ptr) (object : Ptr) :
    (llistRemove list (llistFind list object)).2 = list.erase object :=
  congrArg Prod.snd (llist_remove_find list object)

section
variable {w : World} {new : Ptr} (unused : new ∉ w.ipcObjects)
include unused

theorem msg_create_moves (key : Int) (mode : BitVec 32) (time : Int) : Moves (directory w.toObjects)
      (directory (ipcMsgCreate new key mode time w.queues).2.toObjects) := by
  unfold ipcMsgCreate
  split
  · exact .kept
  · exact .created new _ unused rfl (free_of_untaken ‹_›)

theorem sem_create_moves (key : Int) (nsems : Nat) (mode : BitVec 32) (time : Int) :
    Moves (directory w.toObjects)
      (directory (Sem.ipcSemCreate new key nsems mode time w.sems).2.toObjects) := by
  unfold Sem.ipcSemCreate
  split
  · exact .kept
  · exact .created new _ unused rfl (free_of_untaken ‹_›)

theorem shm_create_moves {key : Int} {size : Nat} {flags : BitVec 32} {done : Int × Shm.Shms}
    (ran : Shm.ipcShmCreate new key size flags w.shared = some done) :
    Moves (directory w.toObjects) (directory done.2.toObjects) := by
  unfold Shm.ipcShmCreate at ran
  split at ran
  · cases ran
    exact .kept
  · rename_i untaken
    obtain ⟨-, -, rfl⟩ := Option.map_eq_some_iff.mp ran
    exact .created new _ unused rfl (free_of_untaken untaken)

end

theorem removed_moves {o o' : Objects} (same : directory o' = directory o) (object : Ptr) : Moves (directory o)
    ⟨(llistRemove o'.ipcObjects (llistFind o'.ipcObjects object)).2, o'.ipc, o'.ipcLastid⟩ := by
  rw [remove_erase, ← same]
  exact .destroyed object

theorem msg_destroy_moves (w : World) (id : Int) (stale : Ptr → Message) : Moves (directory w.toObjects)
    (directory (ipcMsgDestroy id stale w.queues).2.toObjects) := by
  unfold ipcMsgDestroy
  split
  · exact .kept
  · rename_i msq _
    split
    · exact removed_moves (foldl_keeps (fun q : Queues => directory q.toObjects) (f := dropMessage stale)
        (fun _ _ => rfl) w.queues (w.queues.msqs msq).msgs) msq
    · exact .kept

theorem release_directory (sem : Sem.SemId) (s : Sem.Sems) :
    directory (Sem.releaseSem sem s).toObjects = directory s.toObjects := by
  let view (s : Sem.Sems) := directory s.toObjects
  have asking : ∀ (t : Sem.Sems) (sleepn : Sem.Sleepn),
      view (if sleepn.val < (s.sem sem).val then Sem.wakeProc sleepn.proc t else t) = view t := by
    intro t sleepn
    split <;> rfl
  have zero := foldl_keeps view (f := fun s proc => Sem.wakeProc proc s) (fun _ _ => rfl) s (s.sem sem).waitz
  exact (foldl_keeps view asking _ (s.sem sem).waitn).trans zero

theorem sem_destroy_moves (w : World) (id : Int) : Moves (directory w.toObjects)
    (directory (Sem.ipcSemDestroy id w.sems).2.toObjects) := by
  unfold Sem.ipcSemDestroy
  split
  · exact .kept
  · rename_i semset _
    split
    · exact removed_moves (foldl_keeps (fun s : Sem.Sems => directory s.toObjects)
        (f := fun s i => Sem.releaseSem (semset, i) s) (fun s i => release_directory (semset, i) s) w.sems
        (List.range (w.sems.semsets semset).num)) semset
    · exact .kept

theorem shm_destroy_moves {w : World} {id : Int} {done : Int × Shm.Shms}
    (ran : Shm.ipcShmDestroy id w.shared = some done) :
    Moves (directory w.toObjects) (directory done.2.toObjects) := by
  unfold Shm.ipcShmDestroy at ran
  split at ran
  · cases ran
    exact .kept
  · rename_i shm _
    obtain ⟨unmapped, -, ran⟩ := Option.bind_eq_some_iff.mp ran
    obtain ⟨-, -, rfl⟩ := Option.map_eq_some_iff.mp ran
    exact removed_moves (o := w.toObjects) rfl shm

/-- Every call makes one object, destroys one or leaves the names alone. -/
theorem call_moves {w : World} {event : Event} {done : Int × World} (ran : call w event = some done) :
    Moves (directory w.toObjects) (directory done.2.toObjects) := by
  cases event with
  | msgCreate new key mode time =>
    cases new with
    | none =>
      cases ran
      exact .kept
    | some new =>
      obtain ⟨unused, rfl⟩ := onlyIf_eq_some ran
      exact msg_create_moves unused key mode time
  | semCreate new key nsems mode time =>
    cases new with
    | none =>
      cases ran
      exact .kept
    | some new =>
      obtain ⟨unused, rfl⟩ := onlyIf_eq_some ran
      exact sem_create_moves unused key nsems mode time
  | shmCreate new key size flags =>
    cases new with
    | none =>
      cases ran
      exact .kept
    | some new =>
      obtain ⟨unused, ran⟩ := Option.ite_none_left_eq_some.mp ran
      obtain ⟨made, created, rfl⟩ := Option.map_eq_some_iff.mp ran
      exact shm_create_moves unused created
  | msgDestroy id stale =>
    cases ran
    exact msg_destroy_moves w id stale
  | semDestroy id =>
    cases ran
    exact sem_destroy_moves w id
  | shmDestroy id =>
    obtain ⟨left, destroyed, rfl⟩ := Option.map_eq_some_iff.mp ran
    exact shm_destroy_moves destroyed
  | kernel k =>
    cases ran
    exact .kept

/-! The names. -/

/-- No pointer, id or key of a type is there twice, and the ids are below the counter. -/
structure Distinct (d : Directory) : Prop where
  nodup : d.ipcObjects.Nodup
  counter : 0 ≤ d.ipcLastid
  below : ∀ object ∈ d.ipcObjects, 0 ≤ (d.ipc object).id ∧ (d.ipc object).id < d.ipcLastid
  ids : ∀ object ∈ d.ipcObjects, ∀ other ∈ d.ipcObjects, (d.ipc object).id = (d.ipc other).id → object = other
  keys : ∀ object ∈ d.ipcObjects, ∀ other ∈ d.ipcObjects, (d.ipc object).type = (d.ipc other).type →
    (d.ipc object).key = (d.ipc other).key → (d.ipc object).key ≠ ipcPrivate → object = other

theorem created_distinct {d : Directory} (distinct : Distinct d) {new : Ptr} {header : IpcObj}
    (unused : new ∉ d.ipcObjects) (id : header.id = d.ipcLastid)
    (free : header.key ≠ ipcPrivate → Free d header.type header.key) :
    Distinct ⟨new :: d.ipcObjects, Function.update d.ipc new header, d.ipcLastid + 1⟩ := by
  have here : Function.update d.ipc new header new = header := Function.update_self ..
  have old : ∀ object ∈ d.ipcObjects, Function.update d.ipc new header object = d.ipc object :=
    fun object member => Function.update_of_ne (ne_of_mem_of_not_mem member unused) ..
  have counter := distinct.counter
  refine ⟨List.nodup_cons.mpr ⟨unused, distinct.nodup⟩, by change 0 ≤ d.ipcLastid + 1; omega, ?_, ?_, ?_⟩
  · refine List.forall_mem_cons.mpr ⟨?_, fun object member => ?_⟩
    · simp only [here]
      omega
    · simp only [old object member]
      have below := distinct.below object member
      omega
  · -- An old id is below the new one.
    refine List.forall_mem_cons.mpr ⟨List.forall_mem_cons.mpr ⟨fun _ => rfl, fun other member same => ?_⟩,
      fun object member => List.forall_mem_cons.mpr ⟨fun same => ?_, fun other found same => ?_⟩⟩
    · change (Function.update d.ipc new header new).id = (Function.update d.ipc new header other).id at same
      rw [here, old other member] at same
      have below := distinct.below other member
      omega
    · change (Function.update d.ipc new header object).id = (Function.update d.ipc new header new).id at same
      rw [here, old object member] at same
      have below := distinct.below object member
      omega
    · change (Function.update d.ipc new header object).id = (Function.update d.ipc new header other).id at same
      rw [old object member, old other found] at same
      exact distinct.ids object member other found same
  · refine List.forall_mem_cons.mpr
      ⟨List.forall_mem_cons.mpr ⟨fun _ _ _ => rfl, fun other member type key named => ?_⟩,
      fun object member => List.forall_mem_cons.mpr ⟨fun type key named => ?_, fun other found type key named => ?_⟩⟩
    · simp only [here, old other member] at type key named
      exact absurd key.symm (free named other member type.symm)
    · simp only [here, old object member] at type key named
      exact absurd key (free (key ▸ named) object member type)
    · simp only [old object member, old other found] at type key named
      exact distinct.keys object member other found type key named

theorem moves_distinct {d d' : Directory} (distinct : Distinct d) (moves : Moves d d') : Distinct d' := by
  cases moves with
  | kept => exact distinct
  | created new header unused id free => exact created_distinct distinct unused id free
  | destroyed gone =>
    have part : d.ipcObjects.erase gone ⊆ d.ipcObjects := List.erase_subset
    exact {
      nodup := distinct.nodup.erase gone
      counter := distinct.counter
      below object member := distinct.below object (part member)
      ids object member other found := distinct.ids object (part member) other (part found)
      keys object member other found := distinct.keys object (part member) other (part found) }

theorem run_distinct {first w : World} (initial : Initial first) {events : List Event}
    (ran : run step first events = some w) : Distinct (directory w.toObjects) := by
  have keeps : ∀ w event w', Distinct (directory w.toObjects) → step w event = some w' →
      Distinct (directory w'.toObjects) := by
    intro w event w' distinct ran
    obtain ⟨done, called, rfl⟩ := Option.map_eq_some_iff.mp ran
    exact moves_distinct distinct (call_moves called)
  have none : ∀ object, object ∉ (directory first.toObjects).ipcObjects := by
    change ∀ object, object ∉ first.ipcObjects
    rw [initial.ipcObjects]
    exact fun _ => List.not_mem_nil
  have fresh : Distinct (directory first.toObjects) := {
    nodup := by
      change first.ipcObjects.Nodup
      rw [initial.ipcObjects]
      exact List.nodup_nil
    counter := initial.ipcLastid.ge
    below object member := absurd member (none object)
    ids object member := absurd member (none object)
    keys object member := absurd member (none object) }
  have carried := run_invariant keeps fresh ran
  exact carried

/-! Finding and creating by key. -/

/-- There is an object of this type with this key. -/
def Named (w : World) (type : IpcType) (key : Int) (object : Ptr) : Prop :=
  object ∈ w.ipcObjects ∧ (w.ipc object).type = type ∧ (w.ipc object).key = key

theorem find_named {w : World} {type : IpcType} {key : Int} {object : Ptr} (named : Named w type key object) :
    (ipcFind key (-1) type w.toObjects).isSome := by
  obtain ⟨member, rfl, rfl⟩ := named
  exact List.find?_isSome.mpr ⟨object, member, by simp⟩

theorem found_named {w : World} {type : IpcType} {key : Int} {object : Ptr} (definite : key ≠ -1)
    (found : ipcFind key (-1) type w.toObjects = some object) : Named w type key object := by
  have member := List.mem_of_find?_eq_some found
  have met := List.find?_some found
  simp only [Bool.and_eq_true, Bool.or_eq_true, decide_eq_true_eq, definite, or_false, decide_true, or_true,
    and_true] at met
  exact ⟨member, met⟩

section Taken
variable {w : World} {key : Int} (new : Ptr)

theorem msg_create_taken (full : taken .msg key w.toObjects) (mode : BitVec 32) (time : Int) :
    ipcMsgCreate new key mode time w.queues = (-einval, w.queues) := if_pos full

theorem sem_create_taken (full : taken .sem key w.toObjects) (nsems : Nat) (mode : BitVec 32) (time : Int) :
    Sem.ipcSemCreate new key nsems mode time w.sems = (-eexist, w.sems) := if_pos full

theorem shm_create_taken (full : taken .shm key w.toObjects) (size : Nat) (flags : BitVec 32) :
    Shm.ipcShmCreate new key size flags w.shared = some (-eexist, w.shared) := if_pos full

end Taken

/-- A creation with a key that an object of its type has fails and changes nothing. -/
theorem create_taken {w : World} {event : Event} {type : IpcType} {key : Int} {object : Ptr}
    {done : Int × World} (creates : event.creates = some (type, key)) (nonprivate : key ≠ ipcPrivate)
    (named : Named w type key object) (ran : call w event = some done) : done.1 < 0 ∧ done.2 = w := by
  have full : taken type key w.toObjects := by simpa [taken, nonprivate] using find_named named
  cases event with
  | msgCreate new key mode time =>
    cases creates
    cases new with
    | none =>
      cases ran
      exact ⟨show -einval < 0 by decide, rfl⟩
    | some new =>
      obtain ⟨-, rfl⟩ := onlyIf_eq_some ran
      rw [msg_create_taken new full]
      exact ⟨show -einval < 0 by decide, rfl⟩
  | semCreate new key nsems mode time =>
    cases creates
    cases new with
    | none =>
      cases ran
      unfold noMemory
      rw [if_pos full]
      exact ⟨show -eexist < 0 by decide, rfl⟩
    | some new =>
      obtain ⟨-, rfl⟩ := onlyIf_eq_some ran
      rw [sem_create_taken new full]
      exact ⟨show -eexist < 0 by decide, rfl⟩
  | shmCreate new key size flags =>
    cases creates
    cases new with
    | none =>
      cases ran
      unfold noMemory
      rw [if_pos full]
      exact ⟨show -eexist < 0 by decide, rfl⟩
    | some new =>
      obtain ⟨-, ran⟩ := Option.ite_none_left_eq_some.mp ran
      rw [shm_create_taken new full] at ran
      cases ran
      exact ⟨show -eexist < 0 by decide, rfl⟩
  | msgDestroy | semDestroy | shmDestroy | kernel => cases creates

/-- The get call of a type is a search by key with an error of its own. -/
theorem get_by_key (type : IpcType) : ∃ error, error < 0 ∧ ipcGet type = getByKey type error := by
  cases type with
  | msg => exact ⟨-1, by decide, rfl⟩
  | sem | shm => exact ⟨-einval, by decide, rfl⟩

section Get
variable {w : World} {type : IpcType} {key : Int}

theorem get_named (distinct : Distinct (directory w.toObjects)) (nonprivate : key ≠ ipcPrivate)
    (definite : key ≠ -1) {object : Ptr} (named : Named w type key object) :
    ipcGet type key w.toObjects = (w.ipc object).id := by
  obtain ⟨error, -, get⟩ := get_by_key type
  rw [get, getByKey]
  cases found : ipcFind key (-1) type w.toObjects with
  | none =>
    have some := find_named named
    rw [found] at some
    cases some
  | some other =>
    obtain ⟨member, sameType, sameKey⟩ := found_named definite found
    obtain ⟨held, rfl, rfl⟩ := named
    have same : other = object := distinct.keys other member object held sameType sameKey (sameKey ▸ nonprivate)
    rw [same]

theorem get_error_iff (distinct : Distinct (directory w.toObjects)) (definite : key ≠ -1) :
    ipcGet type key w.toObjects < 0 ↔ ¬ ∃ object, Named w type key object := by
  obtain ⟨error, negative, get⟩ := get_by_key type
  rw [get, getByKey]
  cases found : ipcFind key (-1) type w.toObjects with
  | none =>
    refine iff_of_true negative ?_
    rintro ⟨object, named⟩
    have some := find_named named
    rw [found] at some
    cases some
  | some other =>
    have named := found_named definite found
    have below := (distinct.below other named.1).1
    refine iff_of_false (Int.not_lt.mpr below) (not_not.mpr ⟨other, named⟩)

end Get

/-- After any creations and destructions of queues, sets and shared memory objects all ids are
distinct, and so are the keys of a type other than `IPC_PRIVATE`; a creation with a key that is
taken fails without effect; and a get call with a definite key returns the id of the object
that has the key, or an error exactly if there is none. -/
theorem ipc_names_are_unique {first w : World} (initial : Initial first) {events : List Event}
    (ran : run step first events = some w) :
    w.ipcObjects.Nodup ∧
    (∀ object ∈ w.ipcObjects, ∀ other ∈ w.ipcObjects, (w.ipc object).id = (w.ipc other).id → object = other) ∧
    (∀ object ∈ w.ipcObjects, ∀ other ∈ w.ipcObjects, (w.ipc object).type = (w.ipc other).type →
      (w.ipc object).key = (w.ipc other).key → (w.ipc object).key ≠ ipcPrivate → object = other) ∧
    (∀ event done type key, event.creates = some (type, key) → key ≠ ipcPrivate →
      (∃ object, Named w type key object) → call w event = some done → done.1 < 0 ∧ done.2 = w) ∧
    ∀ type key, key ≠ 0 → key ≠ -1 →
      (∀ object, Named w type key object → ipcGet type key w.toObjects = (w.ipc object).id) ∧
      (ipcGet type key w.toObjects < 0 ↔ ¬ ∃ object, Named w type key object) := by
  have distinct := run_distinct initial ran
  refine ⟨distinct.nodup, distinct.ids, distinct.keys, ?_, fun type key nonprivate definite => ⟨?_, ?_⟩⟩
  · rintro event done type key creates nonprivate ⟨object, named⟩ called
    exact create_taken creates nonprivate named called
  · exact fun object named => get_named distinct nonprivate definite named
  · exact get_error_iff distinct definite

/-- Root runs, and there are no objects. -/
def noObjects : World :=
  { queueAndSemset with kernel := { rootAndUser with procCurrent := 1 }, ipcObjects := [], ipcLastid := 0 }

/-- A queue and a semaphore set with one key are told apart, also after the queue is gone. -/
theorem set_is_found_by_key : Initial noObjects ∧ ∃ w,
    run step noObjects [.msgCreate (some 100) 7 0o600 0, .semCreate (some 101) 7 1 0o600 0,
      .msgDestroy 0 fun _ => ⟨[], 0, 0, 0, 0⟩] = some w ∧
    ipcGet .sem 7 w.toObjects = 1 ∧ ipcGet .msg 7 w.toObjects < 0 := by
  have initial : Initial noObjects := ⟨rfl, rfl⟩
  refine ⟨initial, reached_of (P := fun w => w.ipcObjects = [101] ∧ (w.ipc 101).type = .sem ∧
    (w.ipc 101).key = 7 ∧ (w.ipc 101).id = 1) ⟨_, rfl, by decide +kernel⟩ ?_⟩
  rintro w ran ⟨listed, type, key, id⟩
  obtain ⟨-, -, -, -, get⟩ := ipc_names_are_unique initial ran
  refine ⟨?_, (get .msg 7 (by decide) (by decide)).2.mpr ?_⟩
  · rw [(get .sem 7 (by decide) (by decide)).1 101 ⟨listed ▸ List.mem_cons_self, type, key⟩]
    exact id
  · rintro ⟨object, member, other, -⟩
    rw [listed] at member
    rw [List.mem_singleton.mp member, type] at other
    cases other

end MeinOS.IpcNamespace
