import MeinOS.Sem

/-! Whom a call of `ipc_sem_op` blocks and records. The loop takes `proc_current` anew for
every operation. `proc_sleep` changes it, and after an operation 0 the loop goes on: the
operations that follow are read in the address space of the process that runs next, and
applied for it. -/
namespace MeinOS.Sem
open Lib Llist Procm Ipc

/-- The operation puts `proc_current` on a wait list and calls `proc_sleep`. -/
def waits (sem : SemId) (op : SemOp) (s : Sems) : Bool :=
  op.op.toInt = 0 ||
    (op.op.toInt < 0 && !(-op.op.toInt ≤ (s.sem sem).val) && op.flags &&& 0x203 = 0)

/-- An operation that the loop applies. `proc` is `proc_current` at that moment: its pid is
recorded, and it is what is put on a wait list and to sleep. -/
structure Applied where
  index : Nat
  proc : Ptr
  sleeps : Bool
  deriving DecidableEq

/-- The operations that the loop applies from index `i` on. -/
def appliedFrom (c : OpCall) : Nat → Nat → Sems → List Applied
  | 0, _, _ => []
  | left + 1, i, s =>
    match semOf c.id (c.ops s.kernel.curpd i) s with
    | .error _ => []
    | .ok sem =>
      ⟨i, s.kernel.procCurrent, waits sem (c.ops s.kernel.curpd i) s &&
          !(s.kernel.procs s.kernel.procCurrent).isSleeping⟩ ::
        match semOpOne c.id c.time i (c.ops s.kernel.curpd i) s with
        | .ret none t => appliedFrom c left (i + 1) t
        | _ => []

def applied (c : OpCall) (s : Sems) : List Applied := appliedFrom c c.nops 0 s

/-- The processes on the wait lists of a semaphore. -/
def Semaphore.waiters (m : Semaphore) : List Ptr := m.waitn.map Sleepn.proc ++ m.waitz

/-- Between the two states only this process was put to sleep, entered a wait list or was
recorded as the last to operate. -/
structure Confined (proc : Ptr) (s t : Sems) : Prop where
  awake : ∀ p, p ≠ proc → (s.kernel.procs p).isSleeping = false →
    (t.kernel.procs p).isSleeping = false
  waiters : ∀ sem, ∀ p ∈ (t.sem sem).waiters, p ∈ (s.sem sem).waiters ∨ p = proc
  lopid : ∀ sem, (t.sem sem).lopid = (s.sem sem).lopid ∨
    (t.sem sem).lopid = (s.kernel.procs proc).pid
  pid : (t.kernel.procs proc).pid = (s.kernel.procs proc).pid

/-- Only the caller is blocked: every operation is applied for it, none after the one it
is put to sleep on, and the whole call does nothing to any other process. -/
structure OnlyCaller (c : OpCall) (s : Sems) : Prop where
  acting : ∀ a ∈ applied c s, a.proc = s.kernel.procCurrent
  stops : (applied c s).Pairwise fun a _ => a.sleeps = false
  confined : Confined s.kernel.procCurrent s (ipcSemOp c s).state

/-- The process that `proc_shedule` selects once the caller is off `proc_running`. -/
def successor (k : Kernel) : Ptr :=
  (sheduleSelect (sheduleCharge (sleepMove k.procCurrent k))).procCurrent

/-- After this operation 0 nothing is applied: it is the last one, or no other process can
run, or what the next process has in its own memory as the next operation is for no
semaphore of the set. -/
def NothingFollows (c : OpCall) (left i : Nat) (s : Sems) : Prop :=
  left = 0 ∨ s.kernel.procRunning.erase s.kernel.procCurrent = [] ∨
    ∀ sem, semOf c.id (c.ops (s.kernel.procs (successor s.kernel)).pagedir (i + 1)) s ≠ .ok sem

/-- Nothing follows the first operation 0 that the loop gets to. -/
def ZeroLast (c : OpCall) : Nat → Nat → Sems → Prop
  | 0, _, _ => True
  | left + 1, i, s =>
    if (c.ops s.kernel.curpd i).op.toInt = 0 then
      ∀ sem, semOf c.id (c.ops s.kernel.curpd i) s = .ok sem → NothingFollows c left i s
    else
      match semOpOne c.id c.time i (c.ops s.kernel.curpd i) s with
      | .ret none t => ZeroLast c left (i + 1) t
      | _ => True

instance (c : OpCall) (left i : Nat) (s : Sems) : Decidable (NothingFollows c left i s) :=
  have : Decidable (∀ sem, semOf c.id
      (c.ops (s.kernel.procs (successor s.kernel)).pagedir (i + 1)) s ≠ .ok sem) :=
    match found : semOf c.id (c.ops (s.kernel.procs (successor s.kernel)).pagedir (i + 1)) s with
    | .error _ => isTrue fun _ same => by cases same
    | .ok sem => isFalse fun none => none sem rfl
  show Decidable (_ ∨ _ ∨ _) from inferInstance

instance decidableZeroLast (c : OpCall) :
    (left i : Nat) → (s : Sems) → Decidable (ZeroLast c left i s)
  | 0, _, _ => isTrue trivial
  | left + 1, i, s =>
    have : Decidable (∀ sem, semOf c.id (c.ops s.kernel.curpd i) s = .ok sem →
        NothingFollows c left i s) :=
      match found : semOf c.id (c.ops s.kernel.curpd i) s with
      | .error _ => isTrue fun _ same => by cases same
      | .ok sem => decidable_of_iff (NothingFollows c left i s)
        ⟨fun nothing _ _ => nothing, fun nothing => nothing sem rfl⟩
    have : Decidable (match semOpOne c.id c.time i (c.ops s.kernel.curpd i) s with
        | .ret none t => ZeroLast c left (i + 1) t
        | _ => True) :=
      match semOpOne c.id c.time i (c.ops s.kernel.curpd i) s with
      | .ret none t => decidableZeroLast c left (i + 1) t
      | .ret (some _) _ => isTrue trivial
      | .idle _ | .halt _ => isTrue trivial
    inferInstanceAs (Decidable (ite _ _ _))

/-- The process that makes the call is awake, and on `proc_running` at most once. -/
structure CallerRuns (k : Kernel) : Prop where
  awake : (k.procs k.procCurrent).isSleeping = false
  once : k.procRunning.count k.procCurrent ≤ 1

section Confined
variable {s t u : Sems} {proc : Ptr}

theorem Confined.refl (proc : Ptr) (s : Sems) : Confined proc s s :=
  ⟨fun _ _ awake => awake, fun _ _ on => Or.inl on, fun _ => Or.inl rfl, rfl⟩

theorem Confined.trans (first : Confined proc s t) (second : Confined proc t u) :
    Confined proc s u where
  awake p other awake := second.awake p other (first.awake p other awake)
  waiters sem p on := by
    rcases second.waiters sem p on with before | same
    · exact first.waiters sem p before
    · exact Or.inr same
  lopid sem := by
    rcases second.lopid sem with before | own
    · rw [before]
      exact first.lopid sem
    · rw [own, first.pid]
      exact Or.inr rfl
  pid := second.pid.trans first.pid

/-- A write to one semaphore that adds at most this process. -/
theorem set_sem_confined (proc : Ptr) (s : Sems) (sem : SemId) {f : Semaphore → Semaphore}
    (waiters : ∀ p ∈ (f (s.sem sem)).waiters, p ∈ (s.sem sem).waiters ∨ p = proc)
    (lopid : (f (s.sem sem)).lopid = (s.sem sem).lopid ∨
      (f (s.sem sem)).lopid = (s.kernel.procs proc).pid) :
    Confined proc s (s.setSem sem f) := by
  refine ⟨fun _ _ awake => awake, fun other p on => ?_, fun other => ?_, rfl⟩
  · by_cases same : other = sem
    · subst same
      rw [sem_setSem_self] at on
      exact waiters p on
    · rw [sem_setSem_other s sem f same] at on
      exact Or.inl on
  · by_cases same : other = sem
    · subst same
      rw [sem_setSem_self]
      exact lopid
    · rw [sem_setSem_other s sem f same]
      exact Or.inl rfl

theorem note_op_confined (sem : SemId) (time : Int) (s : Sems) :
    Confined s.kernel.procCurrent s (noteOp sem time s) := by
  have written : Confined s.kernel.procCurrent s
      (s.setSem sem fun m => { m with lopid := s.caller.pid }) :=
    set_sem_confined _ s sem (fun _ on => Or.inl on) (Or.inr rfl)
  refine ⟨written.awake, fun other => ?_, fun other => ?_, written.pid⟩
  · rw [note_op_sem]
    exact written.waiters other
  · rw [note_op_sem]
    exact written.lopid other

/-- Processes were woken, and nothing else happened in the process manager. -/
structure OnlyWakes (k k' : Kernel) : Prop where
  current : k'.procCurrent = k.procCurrent
  curpd : k'.curpd = k.curpd
  awake : ∀ p, (k.procs p).isSleeping = false → (k'.procs p).isSleeping = false
  count : ∀ p, (k.procs p).isSleeping = false → k'.procRunning.count p = k.procRunning.count p
  pid : ∀ p, (k'.procs p).pid = (k.procs p).pid

theorem OnlyWakes.refl (k : Kernel) : OnlyWakes k k :=
  ⟨rfl, rfl, fun _ awake => awake, fun _ _ => rfl, fun _ => rfl⟩

theorem OnlyWakes.trans {a b c : Kernel} (first : OnlyWakes a b) (second : OnlyWakes b c) :
    OnlyWakes a c where
  current := second.current.trans first.current
  curpd := second.curpd.trans first.curpd
  awake p awake := second.awake p (first.awake p awake)
  count p awake := (second.count p (first.awake p awake)).trans (first.count p awake)
  pid p := (second.pid p).trans (first.pid p)

theorem wake_only_wakes (proc : Ptr) (k : Kernel) : OnlyWakes k (procWake proc k) := by
  cases flag : (k.procs proc).isSleeping with
  | false =>
    have same : procWake proc k = k := by simp [procWake, flag]
    rw [same]
    exact .refl k
  | true =>
    rw [ProcmLists.procWake_eq flag]
    refine ⟨rfl, rfl, fun p awake => ?_, fun p awake => ?_, fun p => ?_⟩
    · simp only [setProc_apply]
      split
      · rfl
      · exact awake
    · have other : p ≠ proc := by
        rintro rfl
        rw [flag] at awake
        cases awake
      exact List.count_cons_of_ne (Ne.symm other)
    · have kept := setProc_keeps k proc (fun q => { q with isSleeping := false }) Proc.pid
        (fun _ => rfl) p
      exact kept

/-- The sets that can be found, and their sizes, are the same. -/
structure SameSets (s t : Sems) : Prop where
  objects : t.ipcObjects = s.ipcObjects
  headers : t.ipc = s.ipc
  nums : ∀ set, (t.semsets set).num = (s.semsets set).num

theorem SameSets.trans (first : SameSets s t) (second : SameSets t u) : SameSets s u where
  objects := second.objects.trans first.objects
  headers := second.headers.trans first.headers
  nums set := (second.nums set).trans (first.nums set)

theorem SameSets.sem_of (same : SameSets s t) (id : Int) (op : SemOp) : semOf id op t = semOf id op s := by
  have found : ipcFind (-1) id .sem t.toObjects = ipcFind (-1) id .sem s.toObjects := by
    rw [ipcFind, ipcFind, same.objects, same.headers]
  rw [semOf, semOf, found]
  cases ipcFind (-1) id .sem s.toObjects with
  | none => rfl
  | some set => simp only [same.nums set]

theorem set_sem_same_sets (s : Sems) (sem : SemId) (f : Semaphore → Semaphore) :
    SameSets s (s.setSem sem f) := by
  refine ⟨rfl, rfl, fun set => ?_⟩
  by_cases same : set = sem.1
  · simp [Sems.setSem, same]
  · simp [Sems.setSem, Function.update_of_ne same]

theorem note_op_same_sets (sem : SemId) (time : Int) (s : Sems) : SameSets s (noteOp sem time s) := by
  have written := set_sem_same_sets s sem fun m => { m with lopid := s.caller.pid }
  refine ⟨rfl, rfl, fun set => ?_⟩
  rw [← written.nums set]
  by_cases same : set = sem.1
  · simp [noteOp, same]
  · simp [noteOp, Function.update_of_ne same]

/-- The loops that wake waiters. -/
theorem fold_only_wakes (list : List α) (P : α → Prop) [DecidablePred P] (proc : α → Ptr) (s : Sems) :
    let woken := list.foldl (fun t x => if P x then wakeProc (proc x) t else t) s
    OnlyWakes s.kernel woken.kernel ∧ woken.semsets = s.semsets ∧ woken.ipcObjects = s.ipcObjects ∧
      woken.ipc = s.ipc := by
  induction list generalizing s with
  | nil => exact ⟨.refl s.kernel, rfl, rfl, rfl⟩
  | cons x list ih =>
    rw [List.foldl_cons]
    by_cases wakes : P x
    · obtain ⟨kernel, rest⟩ := ih (wakeProc (proc x) s)
      rw [if_pos wakes]
      exact ⟨(wake_only_wakes (proc x) s.kernel).trans kernel, rest⟩
    · rw [if_neg wakes]
      exact ih s

/-- What the end of the loop body does: it takes processes off the wait lists and wakes
them. -/
structure Releases (s t : Sems) : Prop where
  kernel : OnlyWakes s.kernel t.kernel
  sets : SameSets s t
  confined : ∀ proc, Confined proc s t

theorem drain_releases (list : List α) (P : α → Prop) [DecidablePred P] (proc : α → Ptr) (s : Sems)
    (sem : SemId) {f : Semaphore → Semaphore}
    (fewer : ∀ p ∈ (f (s.sem sem)).waiters, p ∈ (s.sem sem).waiters)
    (lopid : (f (s.sem sem)).lopid = (s.sem sem).lopid) :
    Releases s (list.foldl (fun t x => if P x then wakeProc (proc x) t else t) (s.setSem sem f)) := by
  obtain ⟨kernel, semsets, objects, headers⟩ := fold_only_wakes list P proc (s.setSem sem f)
  generalize List.foldl _ _ _ = t at kernel semsets objects headers ⊢
  have sets := set_sem_same_sets s sem f
  refine ⟨kernel, ⟨objects, headers, fun set => ?_⟩, fun proc => ?_⟩
  · rw [semsets]
    exact sets.nums set
  · have drained := set_sem_confined proc s sem (fun p on => Or.inl (fewer p on)) (Or.inl lopid)
    refine drained.trans ⟨fun p _ awake => kernel.awake p awake, fun other p on => ?_,
      fun other => Or.inl ?_, kernel.pid proc⟩
    · rw [sem_of_semsets semsets] at on
      exact Or.inl on
    · rw [sem_of_semsets semsets]

theorem wake_waiters_releases (sem : SemId) (s : Sems) : Releases s (wakeWaiters sem s) := by
  unfold wakeWaiters
  split
  · have drained := drain_releases (s.sem sem).waitz (fun _ => True) (fun proc => proc) s sem
      (f := fun m => { m with waitz := [] }) (fun p on => by
        simp only [Semaphore.waiters, List.append_nil] at on
        exact List.mem_append_left _ on) rfl
    simp only [if_true] at drained
    exact drained
  · split
    · exact drain_releases (s.sem sem).waitn _ Sleepn.proc s sem
        (fun p on => List.mem_append_right _ on) rfl
    · exact ⟨.refl _, ⟨rfl, rfl, fun _ => rfl⟩, fun proc => .refl proc s⟩

theorem add_val_releases (sem : SemId) (op : Int) (s : Sems) : Releases s (addVal sem op s) :=
  ⟨.refl _, set_sem_same_sets s sem _, fun proc =>
    set_sem_confined proc s sem (fun _ on => Or.inl on) (Or.inl rfl)⟩

theorem Releases.trans (first : Releases s t) (second : Releases t u) : Releases s u :=
  ⟨first.kernel.trans second.kernel, first.sets.trans second.sets, fun proc =>
    (first.confined proc).trans (second.confined proc)⟩

theorem add_wakes_releases (sem : SemId) (op : Int) (s : Sems) :
    Releases s (wakeWaiters sem (addVal sem op s)) :=
  (add_val_releases sem op s).trans (wake_waiters_releases sem _)

theorem push_waitn_confined (sem : SemId) (amount : Int) (s : Sems) :
    Confined s.kernel.procCurrent s (pushWaitn sem amount s) := by
  refine set_sem_confined _ s sem (fun p on => ?_) (Or.inl rfl)
  simp only [Semaphore.waiters, llistPush, List.map_cons, List.cons_append, List.mem_cons] at on ⊢
  exact on.symm

theorem push_waitz_confined (sem : SemId) (s : Sems) :
    Confined s.kernel.procCurrent s (pushWaitz sem s) := by
  refine set_sem_confined _ s sem (fun p on => ?_) (Or.inl rfl)
  simp only [Semaphore.waiters, llistPush, List.mem_append, List.mem_cons] at on ⊢
  tauto

theorem pid_untouched : Untouched Proc.pid := ⟨fun _ _ => rfl, fun _ _ => rfl, fun _ _ => rfl⟩

theorem sleep_on_confined (sem : SemId) (s : Sems) :
    Confined s.kernel.procCurrent s (sleepOn sem s).state := by
  rw [sleepOn, Exec.state_within]
  refine ⟨fun p other awake => ?_, fun _ _ on => Or.inl on, fun _ => Or.inl rfl,
    sleep_untouched pid_untouched _ _ _⟩
  rw [← awake]
  exact ProcmLists.sleep_flags s.kernel other

theorem operate_confined (sem : SemId) (i : Nat) (op : SemOp) (s : Sems) :
    Confined s.kernel.procCurrent s (operate sem i op s).state := by
  have adds := add_wakes_releases sem op.op.toInt s
  unfold operate
  split
  · split
    · exact adds.confined _
    · split
      · exact .refl _ s
      · rw [Exec.state_andThen_ret]
        exact (push_waitn_confined sem (-op.op.toInt) s).trans
          (sleep_on_confined sem (pushWaitn sem (-op.op.toInt) s))
  · split
    · exact adds.confined _
    · have slept := (push_waitz_confined sem s).trans (sleep_on_confined sem (pushWaitz sem s))
      exact Exec.andThen_keeps slept fun _ t _ before =>
        before.trans ((wake_waiters_releases sem t).confined _)

theorem op_one_confined (id time : Int) (i : Nat) (op : SemOp) (s : Sems) :
    Confined s.kernel.procCurrent s (semOpOne id time i op s).state := by
  unfold semOpOne
  cases semOf id op s with
  | error e => exact .refl _ s
  | ok sem =>
    exact (note_op_confined sem time s).trans (operate_confined sem i op (noteOp sem time s))

/-- While every operation is applied for one process, the loop does nothing to others. -/
theorem op_from_confined (c : OpCall) (left i : Nat) (s : Sems)
    (acting : ∀ a ∈ appliedFrom c left i s, a.proc = proc) :
    Confined proc s (semOpFrom c left i s).state := by
  induction left generalizing i s with
  | zero => exact .refl proc s
  | succ left ih =>
    have first := op_one_confined c.id c.time i (c.ops s.kernel.curpd i) s
    rw [appliedFrom] at acting
    rw [semOpFrom]
    cases found : semOf c.id (c.ops s.kernel.curpd i) s with
    | error e =>
      rw [semOpOne, found]
      exact .refl proc s
    | ok sem =>
      simp only [found, List.mem_cons, forall_eq_or_imp] at acting
      obtain ⟨here, later⟩ := acting
      rw [here] at first
      cases done : semOpOne c.id c.time i (c.ops s.kernel.curpd i) s with
      | idle | halt =>
        rw [done] at first
        exact first
      | ret early t =>
        rw [done] at first later
        cases early with
        | some value => exact first
        | none => exact first.trans (ih (i + 1) t later)

end Confined

section Acting
variable {s t : Sems} {c : OpCall} {left i : Nat}

/-- An operation other than 0 that lets the loop go on. -/
theorem op_one_goes_on {id time : Int} (found : semOf id op s = .ok sem) (nonzero : op.op.toInt ≠ 0)
    (ran : semOpOne id time i op s = .ret none t) :
    waits sem op s = false ∧ OnlyWakes s.kernel t.kernel := by
  have val := (note_op_same_lists sem time s sem).1
  have adds := add_wakes_releases sem op.op.toInt (noteOp sem time s)
  simp only [semOpOne, found, operate, val] at ran
  by_cases negative : op.op.toInt < 0
  · rw [if_pos negative] at ran
    by_cases covered : -op.op.toInt ≤ (s.sem sem).val
    · rw [if_pos covered] at ran
      cases ran
      refine ⟨?_, adds.kernel⟩
      simp [waits, nonzero, covered]
    · rw [if_neg covered] at ran
      split at ran
      · cases ran
      · cases slept : sleepOn sem (pushWaitn sem (-op.op.toInt) (noteOp sem time s)) <;>
          rw [slept] at ran <;> cases ran
  · rw [if_neg negative, if_pos (by omega)] at ran
    cases ran
    refine ⟨?_, adds.kernel⟩
    simp [waits, nonzero, negative]

theorem CallerRuns.of_wakes (runs : CallerRuns k) (wakes : OnlyWakes k k') : CallerRuns k' := by
  constructor
  · rw [wakes.current]
    exact wakes.awake _ runs.awake
  · rw [wakes.current, wakes.count _ runs.awake]
    exact runs.once

theorem sleep_move_running (proc : Ptr) (k : Kernel) :
    (sleepMove proc k).procRunning = k.procRunning.erase proc := by
  simp only [sleepMove, llist_remove_find]

/-- `proc_sleep` of the caller, where another process can run. -/
theorem sleep_switches {k : Kernel} (runs : CallerRuns k) (others : k.procRunning.erase k.procCurrent ≠ []) :
    procSleep k.procCurrent k = .ret ()
        (sheduleSwitch k.procCurrent (sheduleSelect (sheduleCharge (sleepMove k.procCurrent k)))) ∧
      successor k ≠ k.procCurrent := by
  have running := sleep_move_running k.procCurrent k
  have awake : ¬ (k.procs k.procCurrent).isSleeping = true := by simp [runs.awake]
  constructor
  · rw [procSleep, if_neg awake, if_pos rfl, procShedule, running, if_neg (by simpa using others)]
    rfl
  · have charged := (ProcmLists.shedule_charge_same_book (sleepMove k.procCurrent k)).running
    have selected := ProcmLists.shedule_select_current
      (sheduleCharge (sleepMove k.procCurrent k)) (by rw [charged, running]; exact others)
    rw [charged, running] at selected
    intro same
    change successor k ∈ _ at selected
    rw [same] at selected
    have count := List.count_erase_self (a := k.procCurrent) (l := k.procRunning)
    have positive := List.count_pos_iff.mpr selected
    have once := runs.once
    omega

theorem selected_pagedir (k : Kernel) (p : Ptr) :
    ((sheduleSelect (sheduleCharge (sleepMove proc k))).procs p).pagedir = (k.procs p).pagedir := by
  rw [select_keeps Proc.pagedir fun _ _ => rfl, charge_keeps Proc.pagedir fun _ _ => rfl]
  exact setProc_keeps k proc (fun q => { q with isSleeping := true }) Proc.pagedir (fun _ => rfl) p

/-- An operation 0, as code that runs after the caller's `proc_sleep`. -/
theorem zero_op_eq {id time : Int} (found : semOf id op s = .ok sem) (zero : op.op.toInt = 0) :
    semOpOne id time i op s =
      ((procSleep s.kernel.procCurrent s.kernel).within fun k =>
        { pushWaitz sem (noteOp sem time s) with
          kernel := k
          blocked := Function.update s.blocked s.kernel.procCurrent (some sem) }).andThen
        fun _ t => .ret none (wakeWaiters sem t) := by
  rw [semOpOne, found]
  change operate sem i op (noteOp sem time s) = _
  rw [operate, if_neg (by omega), if_neg (by omega)]
  rfl

/-- After an operation 0 by a process that is not the only one to run, the loop goes on as
the process that the scheduler selects, in its address space. -/
theorem zero_op_switches {id : Int} (time : Int) (i : Nat) (runs : CallerRuns s.kernel)
    (found : semOf id op s = .ok sem) (zero : op.op.toInt = 0)
    (others : s.kernel.procRunning.erase s.kernel.procCurrent ≠ []) :
    ∃ t, semOpOne id time i op s = .ret none t ∧ SameSets s t ∧
      t.kernel.procCurrent = successor s.kernel ∧ successor s.kernel ≠ s.kernel.procCurrent ∧
      t.kernel.curpd = (s.kernel.procs (successor s.kernel)).pagedir := by
  obtain ⟨slept, different⟩ := sleep_switches runs others
  have pushed : SameSets s (pushWaitz sem (noteOp sem time s)) :=
    (note_op_same_sets sem time s).trans (set_sem_same_sets (noteOp sem time s) sem _)
  have asleep : ∀ k blocked, SameSets s
      { pushWaitz sem (noteOp sem time s) with kernel := k, blocked := blocked } := fun _ _ =>
    ⟨pushed.objects, pushed.headers, pushed.nums⟩
  rw [zero_op_eq found zero, slept]
  refine ⟨_, rfl, ?_, ?_, different, ?_⟩
  · exact (asleep _ _).trans (wake_waiters_releases sem _).sets
  · rw [(wake_waiters_releases sem _).kernel.current]
    exact ProcmLists.shedule_switch_current _ _
  · rw [(wake_waiters_releases sem _).kernel.curpd]
    exact (shedule_switch_curpd (Ne.symm different)).trans (selected_pagedir s.kernel _)

/-- `proc_sleep` of the only process that can run does not come back. -/
theorem CallerRuns.idles (runs : CallerRuns k) (alone : k.procRunning.erase k.procCurrent = []) :
    ∃ k', procSleep k.procCurrent k = .idle k' := by
  apply sleep_idles
  rintro (asleep | others)
  · rw [runs.awake] at asleep
    cases asleep
  · exact others alone

/-- An operation 0 by the only process that can run does not come back. -/
theorem zero_op_idles {id : Int} (time : Int) (i : Nat) (runs : CallerRuns s.kernel) (found : semOf id op s = .ok sem)
    (zero : op.op.toInt = 0) (alone : s.kernel.procRunning.erase s.kernel.procCurrent = []) :
    ∃ t, semOpOne id time i op s = .idle t := by
  obtain ⟨k, slept⟩ := runs.idles alone
  rw [zero_op_eq found zero, slept]
  exact ⟨_, rfl⟩

/-- The loop applies every operation for the caller, and none after the one the caller
sleeps on, exactly if nothing follows the first operation 0. -/
theorem applied_from_iff (c : OpCall) (left i : Nat) (s : Sems) (runs : CallerRuns s.kernel) :
    ((∀ a ∈ appliedFrom c left i s, a.proc = s.kernel.procCurrent) ∧
      (appliedFrom c left i s).Pairwise fun a _ => a.sleeps = false) ↔ ZeroLast c left i s := by
  induction left generalizing i s with
  | zero => simp [appliedFrom, ZeroLast]
  | succ left ih =>
    rw [appliedFrom, ZeroLast]
    cases found : semOf c.id (c.ops s.kernel.curpd i) s with
    | error e =>
      have done : semOpOne c.id c.time i (c.ops s.kernel.curpd i) s = .ret (some e) s := by
        rw [semOpOne, found]
      simp [done]
    | ok sem =>
      by_cases zero : (c.ops s.kernel.curpd i).op.toInt = 0
      · rw [if_pos zero]
        by_cases alone : s.kernel.procRunning.erase s.kernel.procCurrent = []
        · obtain ⟨t, done⟩ := zero_op_idles c.time i runs found zero alone
          simp [done, NothingFollows, alone]
        · obtain ⟨t, done, sets, current, different, curpd⟩ :=
            zero_op_switches c.time i runs found zero alone
          simp only [done]
          cases left with
          | zero => simp [appliedFrom, NothingFollows]
          | succ left =>
            rw [appliedFrom, current, curpd, sets.sem_of]
            cases next : semOf c.id (c.ops (s.kernel.procs (successor s.kernel)).pagedir (i + 1)) s with
            | error e => simp [NothingFollows, next]
            | ok sem' => simp [NothingFollows, next, alone, different]
      · rw [if_neg zero]
        cases done : semOpOne c.id c.time i (c.ops s.kernel.curpd i) s with
        | idle | halt => simp
        | ret early t =>
          cases early with
          | some value => simp
          | none =>
            obtain ⟨stays, wakes⟩ := op_one_goes_on found zero done
            have rest := ih (i + 1) t (runs.of_wakes wakes)
            rw [wakes.current] at rest
            simp only [List.mem_cons, forall_eq_or_imp, true_and, List.pairwise_cons, stays,
              Bool.false_and, implies_true]
            exact rest

end Acting

/-- A call of `ipc_sem_op` blocks and records nobody but its caller exactly if nothing
follows the first operation 0 it gets to. -/
theorem only_caller_iff_zero_last (c : OpCall) (s : Sems) (runs : CallerRuns s.kernel) :
    OnlyCaller c s ↔ ZeroLast c c.nops 0 s := by
  rw [← applied_from_iff c c.nops 0 s runs]
  constructor
  · intro only
    exact ⟨only.acting, only.stops⟩
  · rintro ⟨acting, stops⟩
    exact ⟨acting, stops, op_from_confined c c.nops 0 s acting⟩

/-- A set with one semaphore, made by the first of two processes. -/
def oneSet : Sems := (ipcSemCreate 100 7 1 0 0 (start twoProcesses)).2

/-- The operations 0 and -2, which both processes have at the same address. -/
def zeroFirst : OpCall := ⟨0, fun _ i => ⟨0, if i = 0 then 0 else -2, 0⟩, 2, 0⟩

/-- The first process calls, and the second one is put to sleep. -/
theorem second_process_is_blocked :
    oneSet.kernel.procCurrent = 1 ∧
      applied zeroFirst oneSet = [⟨0, 1, true⟩, ⟨1, 2, true⟩] ∧
      (ipcSemOp zeroFirst oneSet).state.kernel.procSleeping = [2] ∧
      ((ipcSemOp zeroFirst oneSet).state.sem (100, 0)).waitn = [⟨2, 2⟩] ∧
      ¬ OnlyCaller zeroFirst oneSet := by
  refine ⟨by decide, by decide, by decide, by decide, fun only => ?_⟩
  have second := only.acting ⟨1, 2, true⟩ (by decide)
  exact absurd second (by decide)

/-- The operations 3 and 0. -/
def zeroSecond : OpCall := ⟨0, fun _ i => ⟨0, if i = 0 then 3 else 0, 0⟩, 2, 0⟩

theorem zero_as_last_operation :
    CallerRuns oneSet.kernel ∧ ZeroLast zeroSecond 2 0 oneSet ∧
      (ipcSemOp zeroSecond oneSet).state.kernel.procSleeping = [1] ∧ OnlyCaller zeroSecond oneSet := by
  have runs : CallerRuns oneSet.kernel := ⟨by decide, by decide⟩
  have last : ZeroLast zeroSecond 2 0 oneSet := by decide
  exact ⟨runs, last, by decide, (only_caller_iff_zero_last zeroSecond oneSet runs).mpr last⟩

end MeinOS.Sem
