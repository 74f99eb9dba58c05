import MeinOS.IpcNamespace
import MeinOS.ShmDestroy

/-! `shmget(IPC_PRIVATE,size,0)` of `apps/lib/stdlibc/shm.c`: a system call that creates an
object, and one that looks the key up. All private objects have the key `IPC_PRIVATE`, so the
second one finds the newest of them. Between the two any process may run. -/
namespace MeinOS.ShmPrivate
open Llist Procm Ipc Shm Lib.Runs
open IpcNamespace (enospc ipcShmGet getByKey)

/-- `IPC_CREAT` and `IPC_EXCL` of the library. -/
def ipcCreat : BitVec 32 := 0x200
def ipcExcl : BitVec 32 := 0x400

/-- Whether `shmget` looks the key up after it was told the result of the creation. -/
def looksUp (flags : BitVec 32) (ret : Int) : Bool :=
  (flags &&& ipcCreat = 0 || ret < 0) && flags &&& ipcExcl = 0

/-- A call between its two system calls, with the result of the first one. -/
structure Call where
  proc : Ptr
  made : Int
  deriving DecidableEq

/-- A call that has returned, with the results of both. -/
structure Return extends Call where
  returned : Int
  deriving DecidableEq

/-- The shared memory objects, the calls that are under way and those that have returned. -/
structure Calls extends Shms where
  pending : List Call
  ended : List Return

/-- A system call by a process: `shm_create(IPC_PRIVATE,size,0)` with the block that `malloc`
finds, if it finds one, or `shm_get(IPC_PRIVATE)`. -/
inductive Event where
  | create (proc : Ptr) (new : Option Ptr) (size : Nat)
  | get (proc : Ptr)
  deriving DecidableEq

/-- The process that makes the system call is the current one. -/
def current (proc : Ptr) (s : Shms) : Shms := { s with kernel := { s.kernel with procCurrent := proc } }

/-- The result of the creation. -/
def shmCreate (new : Option Ptr) (size : Nat) (s : Shms) : Option (Int × Shms) :=
  match new with
  | none => some (-enospc, s)
  | some new => if new ∈ s.ipcObjects then none else ipcShmCreate new ipcPrivate size 0 s

/-- The call goes on after its creation. -/
def afterCreate (w : Calls) (proc : Ptr) (done : Int × Shms) : Calls :=
  if looksUp 0 done.1 then
    { w with toShms := done.2, pending := ⟨proc, done.1⟩ :: w.pending }
  else { w with toShms := done.2, ended := ⟨⟨proc, done.1⟩, done.1⟩ :: w.ended }

/-- The call returns what the lookup finds. -/
def afterGet (w : Calls) (call : Call) : Calls :=
  { w with
    pending := w.pending.erase call
    ended := ⟨call, ipcShmGet ipcPrivate w.toObjects⟩ :: w.ended }

def step (w : Calls) : Event → Option Calls
  | .create proc new size =>
    if ∀ call ∈ w.pending, call.proc ≠ proc then
      (shmCreate new size (current proc w.toShms)).map (afterCreate w proc)
    else none
  | .get proc => (w.pending.find? (·.proc = proc)).map
    (afterGet { w with toShms := current proc w.toShms })

/-- Every call that has succeeded returned the id that it created, and no two the same. -/
structure Private (w : Calls) : Prop where
  own : ∀ done ∈ w.ended, 0 ≤ done.returned → done.returned = done.made
  apart : ((w.ended.filter (0 ≤ ·.returned)).map (·.returned)).Nodup

/-- The objects have ids below the counter, and no call is under way. -/
structure Ready (w : Calls) : Prop where
  counter : 0 ≤ w.ipcLastid
  below : ∀ object ∈ w.ipcObjects, 0 ≤ (w.ipc object).id ∧ (w.ipc object).id < w.ipcLastid
  pending : w.pending = []
  ended : w.ended = []

/-- A creation is made only while no other call is between its system calls, and if there is no
memory for it, while there is no private object. -/
def Alone (w : Calls) : Event → Prop
  | .create _ new _ => w.pending = [] ∧ (new = none → ipcFind ipcPrivate (-1) .shm w.toObjects = none)
  | .get _ => True

instance (w : Calls) : (event : Event) → Decidable (Alone w event)
  | .create _ new _ => inferInstanceAs (Decidable (_ ∧ (new = none → _)))
  | .get _ => isTrue trivial

/-! What the two system calls do. -/

theorem looks_up (ret : Int) : looksUp 0 ret = true := by
  unfold looksUp
  simp

/-- A new private object takes the next id and is the first that the lookup finds. -/
theorem create_private {s : Shms} {new : Ptr} {size : Nat} {done : Int × Shms}
    (ran : ipcShmCreate new ipcPrivate size 0 s = some done) :
    done.1 = s.ipcLastid ∧ done.2.ipcLastid = s.ipcLastid + 1 ∧ done.2.ipcObjects = new :: s.ipcObjects ∧
    (done.2.ipc new).id = s.ipcLastid ∧ (∀ object ≠ new, done.2.ipc object = s.ipc object) ∧
    ipcShmGet ipcPrivate done.2.toObjects = s.ipcLastid := by
  unfold ipcShmCreate at ran
  rw [if_neg (by simp)] at ran
  obtain ⟨⟨phys, machine⟩, -, rfl⟩ := Option.map_eq_some_iff.mp ran
  refine ⟨rfl, rfl, rfl, ?_, fun object other => Function.update_of_ne other .., ?_⟩
  · change (Function.update s.ipc new _ new).id = _
    rw [Function.update_self]
  · unfold ipcShmGet getByKey ipcFind
    change (match (new :: s.ipcObjects).find? _ with | none => _ | some object => _) = _
    rw [List.find?_cons_of_pos (by simp [ipcPrivate])]
    change (Function.update s.ipc new _ new).id = _
    rw [Function.update_self]

/-- What a call that is under way will be told. -/
def Waits (w : Calls) (call : Call) : Prop :=
  (ipcShmGet ipcPrivate w.toObjects = call.made ∧ call.made < w.ipcLastid ∧
    ∀ done ∈ w.ended, 0 ≤ done.returned → done.returned ≠ call.made) ∨
  ipcShmGet ipcPrivate w.toObjects < 0

/-- The calls that have returned are private, and at most one is under way. -/
structure Orderly (w : Calls) : Prop extends Private w where
  counter : 0 ≤ w.ipcLastid
  below : ∀ object ∈ w.ipcObjects, 0 ≤ (w.ipc object).id ∧ (w.ipc object).id < w.ipcLastid
  past : ∀ done ∈ w.ended, done.returned < w.ipcLastid
  pending : ∀ call ∈ w.pending, w.pending = [call] ∧ Waits w call

theorem ready_orderly {w : Calls} (ready : Ready w) : Orderly w := by
  have none : ∀ done, done ∉ w.ended := by
    rw [ready.ended]
    exact fun _ => List.not_mem_nil
  refine ⟨⟨fun done member => absurd member (none done), ?_⟩, ready.counter, ready.below,
    fun done member => absurd member (none done), fun call member => ?_⟩
  · rw [ready.ended]
    exact List.nodup_nil
  · rw [ready.pending] at member
    exact absurd member List.not_mem_nil

section Steps
variable {w next : Calls} {proc : Ptr}

section
variable (orderly : Orderly w)
include orderly

theorem created_orderly (idle : w.pending = []) {new : Ptr} {size : Nat}
    {done : Int × Shms} (unused : new ∉ w.ipcObjects)
    (ran : ipcShmCreate new ipcPrivate size 0 (current proc w.toShms) = some done) :
    Orderly (afterCreate w proc done) := by
  obtain ⟨made, counter, listed, own, others, found⟩ := create_private ran
  change done.1 = w.ipcLastid at made
  change done.2.ipcLastid = w.ipcLastid + 1 at counter
  change done.2.ipcObjects = new :: w.ipcObjects at listed
  unfold afterCreate
  rw [if_pos (looks_up done.1)]
  have positive := orderly.counter
  refine ⟨⟨orderly.own, orderly.apart⟩, ?_, ?_, fun earlier member => ?_, ?_⟩
  · change 0 ≤ done.2.ipcLastid
    omega
  · change ∀ object ∈ done.2.ipcObjects, 0 ≤ (done.2.ipc object).id ∧ (done.2.ipc object).id < done.2.ipcLastid
    rw [listed, counter]
    refine List.forall_mem_cons.mpr ⟨?_, fun object member => ?_⟩
    · rw [own]
      change 0 ≤ w.ipcLastid ∧ w.ipcLastid < _
      omega
    · rw [others object (ne_of_mem_of_not_mem member unused)]
      have old := orderly.below object member
      change 0 ≤ (w.ipc object).id ∧ (w.ipc object).id < _
      omega
  · have old := orderly.past earlier member
    change earlier.returned < done.2.ipcLastid
    omega
  · change ∀ call ∈ (⟨proc, done.1⟩ :: w.pending : List Call), _ = [call] ∧ _
    rw [idle]
    refine List.forall_mem_singleton.mpr ⟨rfl, .inl ⟨found.trans made.symm, ?_, fun earlier member _ => ?_⟩⟩
    · change done.1 < done.2.ipcLastid
      omega
    · have old := orderly.past earlier member
      change earlier.returned ≠ done.1
      omega

/-- Without memory the lookup finds nothing either. -/
theorem failed_orderly (idle : w.pending = [])
    (missing : ipcFind ipcPrivate (-1) .shm w.toObjects = none) :
    Orderly (afterCreate w proc (-enospc, current proc w.toShms)) := by
  unfold afterCreate
  rw [if_pos (looks_up _)]
  refine ⟨⟨orderly.own, orderly.apart⟩, orderly.counter, orderly.below, orderly.past, ?_⟩
  change ∀ call ∈ (⟨proc, -enospc⟩ :: w.pending : List Call), _ = [call] ∧ _
  rw [idle]
  refine List.forall_mem_singleton.mpr ⟨rfl, .inr ?_⟩
  have lost : ipcShmGet ipcPrivate w.toObjects = -einval := by
    unfold ipcShmGet getByKey
    rw [missing]
  change ipcShmGet ipcPrivate w.toObjects < 0
  rw [lost]
  decide

theorem get_below : ipcShmGet ipcPrivate w.toObjects < w.ipcLastid := by
  have counter := orderly.counter
  unfold ipcShmGet getByKey
  cases found : ipcFind ipcPrivate (-1) .shm w.toObjects with
  | none =>
    change -einval < _
    unfold einval
    omega
  | some object => exact (orderly.below object (List.mem_of_find?_eq_some found)).2

theorem got_orderly {call : Call} (member : call ∈ w.pending) :
    Orderly (afterGet { w with toShms := current proc w.toShms } call) := by
  obtain ⟨only, waits⟩ := orderly.pending call member
  refine ⟨⟨List.forall_mem_cons.mpr ⟨fun success => ?_, orderly.own⟩, ?_⟩, orderly.counter, orderly.below,
    List.forall_mem_cons.mpr ⟨get_below (w := w) orderly, orderly.past⟩, fun other left => ?_⟩
  · rcases waits with ⟨found, -⟩ | failed
    · exact found
    · exact absurd success (Int.not_le.mpr failed)
  · change (((⟨call, ipcShmGet ipcPrivate w.toObjects⟩ :: w.ended : List Return).filter _).map _).Nodup
    rw [List.filter_cons]
    split
    · rename_i success
      have positive : 0 ≤ ipcShmGet ipcPrivate w.toObjects := by simpa using success
      refine List.nodup_cons.mpr ⟨fun listed => ?_, orderly.apart⟩
      obtain ⟨done, kept, same⟩ := List.mem_map.mp listed
      obtain ⟨earlier, good⟩ := List.mem_filter.mp kept
      rcases waits with ⟨found, -, fresh⟩ | failed
      · exact fresh done earlier (by simpa using good) (same.trans found)
      · exact absurd positive (Int.not_le.mpr failed)
    · exact orderly.apart
  · change other ∈ w.pending.erase call at left
    rw [only, List.erase_cons_head] at left
    exact absurd left List.not_mem_nil

theorem step_orderly {event : Event} (alone : Alone w event)
    (ran : step w event = some next) : Orderly next := by
  cases event with
  | create proc new size =>
    obtain ⟨idle, noMemory⟩ := alone
    obtain ⟨-, ran⟩ := Option.ite_none_right_eq_some.mp ran
    obtain ⟨done, created, rfl⟩ := Option.map_eq_some_iff.mp ran
    cases new with
    | none =>
      cases created
      exact failed_orderly orderly idle (noMemory rfl)
    | some new =>
      obtain ⟨unused, created⟩ := Option.ite_none_left_eq_some.mp created
      exact created_orderly orderly idle unused created
  | get proc =>
    obtain ⟨call, found, rfl⟩ := Option.map_eq_some_iff.mp ran
    exact got_orderly orderly (List.mem_of_find?_eq_some found)

end

end Steps

/-- If creations are made only between other calls, and never without memory while there is a
private object, every call that succeeds returns its own object and no two the same. -/
theorem lone_calls_are_private {w : Calls} (ready : Ready w) {events : List Event}
    (alone : Along step Alone w events) : Throughout step Private w events :=
  guarded_throughout (fun _ orderly => orderly.toPrivate)
    (fun _ _ _ orderly alone ran => step_orderly orderly alone ran) (ready_orderly ready) alone

/-- No object and no call, in the address space of `Shm.oneProcess`. -/
def noCalls : Calls := { Shm.oneProcess with pending := [], ended := [] }

theorem no_calls_ready : Ready noCalls :=
  ⟨by decide, List.forall_mem_nil _, rfl, rfl⟩

/-- Two processes create before either looks up, and both are told the second object. -/
theorem two_calls_share_an_object : ∃ w, Ready noCalls ∧
    run step noCalls [.create 1 (some 9) 4096, .create 2 (some 10) 4096, .get 1, .get 2] = some w ∧
    w.ended = [⟨⟨2, 1⟩, 1⟩, ⟨⟨1, 0⟩, 1⟩] ∧ ¬ Private w := by
  obtain ⟨w, ran, ended⟩ : ∃ w, run step noCalls
      [.create 1 (some 9) 4096, .create 2 (some 10) 4096, .get 1, .get 2] = some w ∧
      w.ended = [⟨⟨2, 1⟩, 1⟩, ⟨⟨1, 0⟩, 1⟩] := by decide +kernel
  refine ⟨w, no_calls_ready, ran, ended, fun holds => ?_⟩
  have own := holds.own ⟨⟨1, 0⟩, 1⟩ (by rw [ended]; decide) (by decide)
  exact absurd own (by decide)

/-- One call after the other. -/
theorem calls_in_turn_are_private : Ready noCalls ∧ Throughout step Private noCalls
    [.create 1 (some 9) 4096, .get 1, .create 2 (some 10) 4096, .get 2] := by
  have alone : Along step Alone noCalls
      [.create 1 (some 9) 4096, .get 1, .create 2 (some 10) 4096, .get 2] := by
    decide +kernel
  exact ⟨no_calls_ready, lone_calls_are_private no_calls_ready alone⟩

end MeinOS.ShmPrivate
