import MeinOS.SemCaller

/-! The values of semaphores over whole runs. A ledger keeps every operation that
`ipc_sem_op` executes, that is, adds to a value; what it refuses, and what it puts its
caller to sleep for, is not entered. As long as the additions to a semaphore fit an `int`,
its value is what the ledger says. -/
namespace MeinOS.SemLedger
open Lib Lib.Runs Llist Procm Ipc Sem

/-- The operation is neither refused nor put to sleep: it adds to the value. -/
def executes (sem : SemId) (op : SemOp) (s : Sems) : Bool :=
  0 < op.op.toInt || (op.op.toInt < 0 && -op.op.toInt ≤ (s.sem sem).val)

theorem executes_iff {sem : SemId} {op : SemOp} {s : Sems} : executes sem op s = true ↔
    0 < op.op.toInt ∨ (op.op.toInt < 0 ∧ -op.op.toInt ≤ (s.sem sem).val) := by
  simp [executes]

/-- The operations that the loop of `ipc_sem_op` executes from index `i` on. -/
def executedFrom (c : OpCall) : Nat → Nat → Sems → List (SemId × Int)
  | 0, _, _ => []
  | left + 1, i, s =>
    match semOf c.id (c.ops s.kernel.curpd i) s with
    | .error _ => []
    | .ok sem =>
      (if executes sem (c.ops s.kernel.curpd i) s then
        [(sem, (c.ops s.kernel.curpd i).op.toInt)] else []) ++
        match semOpOne c.id c.time i (c.ops s.kernel.curpd i) s with
        | .ret none t => executedFrom c left (i + 1) t
        | _ => []

/-- The semaphores with all operations that were executed. -/
structure Ledger extends Sems where
  executed : List (SemId × Int)

def executedBy (s : Sems) : Event → List (SemId × Int)
  | .op c => executedFrom c c.nops 0 s
  | _ => []

/-- One event: a new set, a call of `ipc_sem_op`, or something in the process manager. -/
def step (l : Ledger) (event : Event) : Option Ledger :=
  (Sem.step l.toSems event).map fun s =>
    { toSems := s, executed := l.executed ++ executedBy l.toSems event }

/-- The ledger before anything is executed. -/
def opened (s : Sems) : Ledger := { toSems := s, executed := [] }

/-- The sum of the operations on a semaphore. -/
def total (executed : List (SemId × Int)) (sem : SemId) : Int :=
  ((executed.filter fun e => e.1 = sem).map Prod.snd).sum

/-- The sum of the positive operations on a semaphore. -/
def added (executed : List (SemId × Int)) (sem : SemId) : Int :=
  total (executed.filter fun e => 0 < e.2) sem

/-- The additions to every semaphore of the set fit an `int`. -/
def Bounded (set : Ptr) (executed : List (SemId × Int)) : Prop :=
  ∀ i, added executed (set, i) < 2 ^ 31

/-- Every semaphore of the set has the value the ledger says, and none is below 0. -/
def Balanced (set : Ptr) (executed : List (SemId × Int)) (s : Sems) : Prop :=
  ∀ i, (s.sem (set, i)).val = total executed (set, i) ∧ 0 ≤ (s.sem (set, i)).val

section Sums
variable {executed more : List (SemId × Int)} {sem : SemId} {set : Ptr}

theorem total_append (executed more : List (SemId × Int)) (sem : SemId) :
    total (executed ++ more) sem = total executed sem + total more sem := by
  simp [total]

theorem total_single (sem other : SemId) (op : Int) :
    total [(sem, op)] other = if sem = other then op else 0 := by
  by_cases same : sem = other <;> simp [total, same]

theorem added_append (executed more : List (SemId × Int)) (sem : SemId) :
    added (executed ++ more) sem = added executed sem + added more sem := by
  rw [added, List.filter_append, total_append, added, added]

theorem added_nonneg (executed : List (SemId × Int)) (sem : SemId) : 0 ≤ added executed sem := by
  apply List.sum_nonneg
  intro op member
  obtain ⟨e, entered, rfl⟩ := List.mem_map.mp member
  have positive := (List.mem_filter.mp (List.mem_of_mem_filter entered)).2
  simp only [decide_eq_true_eq] at positive
  omega

/-- What was taken away can only make the sum smaller. -/
theorem total_le_added (executed : List (SemId × Int)) (sem : SemId) :
    total executed sem ≤ added executed sem := by
  induction executed with
  | nil => exact Int.le_refl _
  | cons e executed ih =>
    have split : e :: executed = [e] ++ executed := rfl
    rw [split, total_append, added_append]
    have head : total [e] sem ≤ added [e] sem := by
      by_cases positive : 0 < e.2
      · simp [added, positive]
      · rw [added, List.filter_cons_of_neg (by simpa using positive), total_single]
        change _ ≤ (0 : Int)
        split <;> omega
    omega

theorem Bounded.part (bounded : Bounded set (executed ++ more)) : Bounded set executed := by
  intro i
  have whole := bounded i
  rw [added_append] at whole
  have rest := added_nonneg more (set, i)
  omega

end Sums

section Values
variable {s : Sems} {sem other : SemId} {op : SemOp}

theorem set_sem_val {f : Semaphore → Semaphore} (keeps : ∀ m, (f m).val = m.val) (s : Sems)
    (sem other : SemId) : ((s.setSem sem f).sem other).val = (s.sem other).val := by
  by_cases same : other = sem
  · rw [same, sem_setSem_self, keeps]
  · rw [sem_setSem_other s sem f same]

theorem note_op_val (sem : SemId) (time : Int) (s : Sems) (other : SemId) :
    ((noteOp sem time s).sem other).val = (s.sem other).val := by
  rw [note_op_sem]
  exact set_sem_val (by intro m; rfl) s sem other

theorem add_val_val (sem : SemId) (amount : Int) (s : Sems) (other : SemId) :
    ((addVal sem amount s).sem other).val =
      if other = sem then addInt (s.sem sem).val amount else (s.sem other).val := by
  split
  · rename_i same
    rw [same, addVal, sem_setSem_self]
  · rename_i different
    rw [addVal, sem_setSem_other s sem _ different]

/-- Waking waiters changes no value. -/
theorem wake_waiters_val (sem : SemId) (s : Sems) (other : SemId) :
    ((wakeWaiters sem s).sem other).val = (s.sem other).val := by
  unfold wakeWaiters
  split
  · have woken := (fold_wake (s.sem sem).waitz (fun _ => True) (fun proc => proc)
      (s.setSem sem fun m => { m with waitz := [] })).1
    simp only [if_true] at woken
    rw [sem_of_semsets woken]
    exact set_sem_val (by intro m; rfl) s sem other
  · split
    · rw [sem_of_semsets (fold_wake (s.sem sem).waitn (fun sleepn => sleepn.val < (s.sem sem).val)
        Sleepn.proc (s.setSem sem fun m => { m with waitn := [] })).1]
      exact set_sem_val (by intro m; rfl) s sem other
    · rfl

theorem sleep_on_val (sem : SemId) (s : Sems) (other : SemId) :
    ((sleepOn sem s).state.sem other).val = (s.sem other).val := by
  rw [sleepOn, Exec.state_within]
  rfl

/-- An operation changes one value, and that only if it is executed. -/
theorem operate_val (sem : SemId) (i : Nat) (op : SemOp) (s : Sems) (other : SemId) :
    ((operate sem i op s).state.sem other).val =
      if executes sem op s ∧ other = sem then addInt (s.sem sem).val op.op.toInt
      else (s.sem other).val := by
  unfold operate
  split
  · rename_i negative
    split
    · rename_i enough
      rw [Exec.state_ret, wake_waiters_val, add_val_val]
      simp [executes, negative, enough]
    · rename_i short
      have refused : ¬ (executes sem op s ∧ other = sem) := by
        rw [executes_iff]
        omega
      rw [if_neg refused]
      split
      · rfl
      · rw [Exec.state_andThen_ret, sleep_on_val]
        exact set_sem_val (by intro m; rfl) s sem other
  · split
    · rename_i positive
      rw [Exec.state_ret, wake_waiters_val, add_val_val]
      simp [executes, positive]
    · have zero : ¬ (executes sem op s ∧ other = sem) := by
        rw [executes_iff]
        omega
      rw [if_neg zero]
      have slept : ((sleepOn sem (pushWaitz sem s)).state.sem other).val = (s.sem other).val := by
        rw [sleep_on_val]
        exact set_sem_val (by intro m; rfl) s sem other
      refine @Exec.andThen_keeps _ _ _ (fun t : Sems => (t.sem other).val = (s.sem other).val) _ _ slept
        fun _ t _ before => ?_
      exact (wake_waiters_val sem t other).trans before

theorem op_one_val {id : Int} (time : Int) (i : Nat) (found : semOf id op s = .ok sem) (other : SemId) :
    ((semOpOne id time i op s).state.sem other).val =
      if executes sem op s ∧ other = sem then addInt (s.sem sem).val op.op.toInt
      else (s.sem other).val := by
  have same : executes sem op (noteOp sem time s) = executes sem op s := by
    rw [executes, executes, note_op_val]
  rw [semOpOne, found]
  change ((operate sem i op (noteOp sem time s)).state.sem other).val = _
  rw [operate_val, same, note_op_val, note_op_val]

end Values

/-- A sum that an `int` can hold. -/
theorem add_int_fits {val op : Int} (low : 0 ≤ val + op) (high : val + op < 2 ^ 31) :
    addInt val op = val + op := by
  rw [addInt]
  apply Int.bmod_eq_of_le
  · omega
  · omega

section Calls
variable {set : Ptr} {executed : List (SemId × Int)} {s : Sems} {sem : SemId} {op : SemOp}

/-- One operation, and its entry in the ledger. -/
theorem op_one_balanced {id : Int} (time : Int) (i : Nat) (found : semOf id op s = .ok sem)
    (balanced : Balanced set executed s)
    (bounded : Bounded set (executed ++ if executes sem op s then [(sem, op.op.toInt)] else [])) :
    Balanced set (executed ++ if executes sem op s then [(sem, op.op.toInt)] else [])
      (semOpOne id time i op s).state := by
  intro j
  obtain ⟨sums, nonneg⟩ := balanced j
  rw [op_one_val time i found]
  by_cases changes : executes sem op s ∧ (set, j) = sem
  · obtain ⟨runs, rfl⟩ := changes
    have fits := bounded j
    rw [if_pos runs] at fits ⊢
    rw [if_pos ⟨runs, rfl⟩]
    have least : 0 ≤ (s.sem (set, j)).val + op.op.toInt := by
      rw [executes_iff] at runs
      omega
    have most := total_le_added (executed ++ [((set, j), op.op.toInt)]) (set, j)
    have entered : total (executed ++ [((set, j), op.op.toInt)]) (set, j) =
        (s.sem (set, j)).val + op.op.toInt := by
      rw [total_append, total_single, if_pos rfl, sums]
    rw [entered] at most ⊢
    rw [add_int_fits least (by omega)]
    exact ⟨rfl, least⟩
  · rw [if_neg changes]
    refine ⟨?_, nonneg⟩
    split
    · rename_i runs
      rw [total_append, total_single, if_neg fun same => changes ⟨runs, same.symm⟩, Int.add_zero]
      exact sums
    · rw [List.append_nil]
      exact sums

/-- The loop: what is executed first is entered first. -/
theorem op_from_balanced (c : OpCall) (left i : Nat) (balanced : Balanced set executed s)
    (bounded : Bounded set (executed ++ executedFrom c left i s)) :
    Balanced set (executed ++ executedFrom c left i s) (semOpFrom c left i s).state := by
  induction left generalizing i s executed with
  | zero =>
    rw [executedFrom, List.append_nil]
    exact balanced
  | succ left ih =>
    rw [semOpFrom]
    rw [executedFrom] at bounded ⊢
    cases found : semOf c.id (c.ops s.kernel.curpd i) s with
    | error e =>
      simp only [found, List.append_nil] at bounded ⊢
      simp only [semOpOne, found]
      exact balanced
    | ok sem =>
      simp only [found] at bounded ⊢
      rw [← List.append_assoc] at bounded ⊢
      have first := op_one_balanced c.time i found balanced bounded.part
      cases ran : semOpOne c.id c.time i (c.ops s.kernel.curpd i) s with
      | ret early t =>
        rw [ran] at first
        cases early with
        | some value =>
          simp only [List.append_nil]
          exact first
        | none =>
          simp only [ran] at bounded
          exact ih (i + 1) first bounded
      | idle | halt =>
        rw [ran] at first
        simp only [List.append_nil]
        exact first

end Calls

section Sets
variable {s : Sems} {sem : SemId}

theorem sleep_on_same_sets (same : SameSets s t) : SameSets s (sleepOn sem t).state := by
  rw [sleepOn, Exec.state_within]
  exact ⟨same.objects, same.headers, same.nums⟩

theorem operate_same_sets (sem : SemId) (i : Nat) (op : SemOp) (s : Sems) :
    SameSets s (operate sem i op s).state := by
  have adds := (add_wakes_releases sem op.op.toInt s).sets
  unfold operate
  split
  · split
    · exact adds
    · split
      · exact ⟨rfl, rfl, fun _ => rfl⟩
      · rw [Exec.state_andThen_ret]
        exact sleep_on_same_sets (set_sem_same_sets s sem _)
  · split
    · exact adds
    · have slept : SameSets s (sleepOn sem (pushWaitz sem s)).state :=
        sleep_on_same_sets (set_sem_same_sets s sem _)
      exact Exec.andThen_keeps slept fun _ t _ before =>
        before.trans (wake_waiters_releases sem t).sets

theorem op_one_same_sets (id time : Int) (i : Nat) (op : SemOp) (s : Sems) :
    SameSets s (semOpOne id time i op s).state := by
  unfold semOpOne
  cases semOf id op s with
  | error e => exact ⟨rfl, rfl, fun _ => rfl⟩
  | ok sem => exact (note_op_same_sets sem time s).trans (operate_same_sets sem i op _)

/-- A call of `ipc_sem_op` makes and destroys no set. -/
theorem op_from_same_sets (c : OpCall) (left i : Nat) (s : Sems) :
    SameSets s (semOpFrom c left i s).state := by
  induction left generalizing i s with
  | zero => exact ⟨rfl, rfl, fun _ => rfl⟩
  | succ left ih =>
    have first := op_one_same_sets c.id c.time i (c.ops s.kernel.curpd i) s
    refine Exec.andThen_keeps first fun early t _ before => ?_
    cases early with
    | some value => exact before
    | none => exact before.trans (ih (i + 1) t)

end Sets

section Runs
variable {set : Ptr} {s : Sems} {l : Ledger}

/-- The set exists, and if the additions fit, the ledger is right about it. -/
structure Kept (set : Ptr) (l : Ledger) : Prop where
  exist : set ∈ l.ipcObjects
  balanced : Bounded set l.executed → Balanced set l.executed l.toSems

theorem create_keeps (exist : set ∈ s.ipcObjects) {new : Ptr} (fresh : new ∉ s.ipcObjects)
    (key : Int) (nsems : Nat) (mode : BitVec 32) (time : Int) :
    set ∈ (ipcSemCreate new key nsems mode time s).2.ipcObjects ∧
      ∀ i, (ipcSemCreate new key nsems mode time s).2.sem (set, i) = s.sem (set, i) := by
  unfold ipcSemCreate
  split
  · exact ⟨exist, fun _ => rfl⟩
  · have other : set ≠ new := fun same => fresh (same ▸ exist)
    refine ⟨List.mem_cons_of_mem _ exist, fun i => ?_⟩
    simp [Sems.sem, Function.update_of_ne other]

theorem step_kept (l : Ledger) (event : Event) (l' : Ledger) (held : Kept set l)
    (ran : step l event = some l') : Kept set l' := by
  obtain ⟨s, stepped, rfl⟩ := Option.map_eq_some_iff.mp ran
  cases event with
  | create new key nsems mode time =>
    obtain ⟨⟨-, -, fresh⟩, rfl⟩ := onlyIf_eq_some stepped
    obtain ⟨exist, sems⟩ := create_keeps held.exist fresh key nsems mode time
    refine ⟨exist, fun bounded i => ?_⟩
    simp only [executedBy, List.append_nil] at bounded ⊢
    rw [sems i]
    exact held.balanced bounded i
  | op c =>
    obtain ⟨-, rfl⟩ := onlyIf_eq_some stepped
    constructor
    · change set ∈ (ipcSemOp c l.toSems).state.ipcObjects
      rw [ipcSemOp, (op_from_same_sets c c.nops 0 l.toSems).objects]
      exact held.exist
    · intro bounded
      exact op_from_balanced c c.nops 0 (held.balanced bounded.part) bounded
  | proc event =>
    obtain ⟨k, -, rfl⟩ := Option.map_eq_some_iff.mp stepped
    refine ⟨held.exist, fun bounded i => ?_⟩
    simp only [executedBy, List.append_nil] at bounded ⊢
    exact held.balanced bounded i

/-- The set that `ipc_sem_create` has just made. -/
theorem created_kept {new : Ptr} {key : Int} {nsems : Nat} {mode : BitVec 32} {time id : Int} {t : Sems}
    (fresh : new ∉ s.ipcObjects) (created : ipcSemCreate new key nsems mode time s = (id, t))
    (made : new ∈ t.ipcObjects) : Kept new (opened t) := by
  refine ⟨made, fun _ i => ?_⟩
  unfold ipcSemCreate at created
  split at created
  · cases created
    exact absurd made fresh
  · cases created
    simp [opened, Sems.sem, emptySem, total]

end Runs

/-- After any run of `ipc_sem_op` calls since a set was made, with other sets made and
processes scheduled in between, the value of each of its semaphores is the sum of the
operations executed on it and not below 0, if the positive ones among them fit an `int`. -/
theorem value_is_sum_of_executed (s t : Sems) (new : Ptr) (key : Int) (nsems : Nat) (mode : BitVec 32)
    (time id : Int) (events : List Event) (l : Ledger) (fresh : new ∉ s.ipcObjects)
    (created : ipcSemCreate new key nsems mode time s = (id, t)) (made : new ∈ t.ipcObjects)
    (ran : run step (opened t) events = some l)
    (fits : ∀ i, added l.executed (new, i) < 2 ^ 31) :
    ∀ i, (l.sem (new, i)).val = total l.executed (new, i) ∧ 0 ≤ (l.sem (new, i)).val :=
  (run_invariant step_kept (created_kept fresh created made) ran).balanced fits

/-- 5 is added and 3 taken; the process that asks for 4 then is put to sleep. -/
theorem two_of_three_executed :
    ∃ l, run step (opened oneSet) [singleOp 5, singleOp (-3), singleOp (-4)] = some l ∧
      l.executed = [((100, 0), 5), ((100, 0), -3)] ∧ l.kernel.procSleeping = [1] ∧
      ∀ i, (l.sem (100, i)).val = total l.executed (100, i) ∧ 0 ≤ (l.sem (100, i)).val := by
  refine reached_of (P := fun l => l.executed = [((100, 0), 5), ((100, 0), -3)] ∧
    l.kernel.procSleeping = [1]) (by decide +kernel) ?_
  rintro l ran ⟨entries, asleep⟩
  refine ⟨entries, asleep, ?_⟩
  refine value_is_sum_of_executed (start twoProcesses) oneSet 100 7 1 0 0 0 _ l (by decide) rfl
    (by decide) ran fun i => ?_
  rw [entries]
  by_cases first : i = 0
  · subst first
    decide
  · simp [added, total, Ne.symm first]

end MeinOS.SemLedger
