import MeinOS.SemCaller
import MeinOS.SemLedger

/-! The library call `semop` of `lib/stdlibc/sem.c`, a loop around the system call
`ipc_sem_op`. The loop takes the result for the number of operations done and calls again,
with the whole array, while it is smaller than the number asked for; but the system call
returns 0 when all are done. -/
namespace MeinOS.SemLibrary
open Lib Llist Procm Ipc Sem SemLedger

/-! The loops of the C library around system calls that may put their caller to sleep, `semop` and
`msgrcv`. The kernel stores the result of a system call in `eax` only while the caller is the
current process, so that a caller that was put to sleep finds there what it had there before the
call. Between two system calls of the loop, and while the caller sleeps, the other processes run. -/

section Loops

/-- What the loop does not decide itself: the `eax` it has at each of its system calls, and
what the other processes do before the next one. When they are done the caller runs again,
in its own address space. -/
structure Others (kernel : σ → Kernel) (k : Kernel) where
  eax : Nat → BitVec 32
  between : Nat → σ → σ
  runs : ∀ round s, Sem.CallerRuns (kernel (between round s))
  current : ∀ round s, (kernel (between round s)).procCurrent = k.procCurrent
  curpd : ∀ round s, (kernel (between round s)).curpd = k.curpd

/-- The result the library sees. -/
def answer (kernel : σ → Kernel) (eax : BitVec 32) (caller : Ptr) : Exec σ Int → Int
  | .ret value t => if (kernel t).procCurrent = caller then value else eax.toInt
  | _ => eax.toInt

/-- The states in which the loop makes its system calls, for at most `fuel` of them. -/
def rounds (again : Nat → σ → Bool) (next : Nat → σ → σ) : Nat → Nat → σ → List σ
  | 0, _, _ => []
  | fuel + 1, round, s =>
    s :: if again round s then rounds again next fuel (round + 1) (next round s) else []

theorem rounds_keep (Inv : σ → Prop) {next : Nat → σ → σ} (keeps : ∀ round s, Inv (next round s))
    (start : Inv s) (fuel round : Nat) : ∀ t ∈ rounds again next fuel round s, Inv t := by
  induction fuel generalizing round s with
  | zero =>
    intro t on
    cases on
  | succ fuel ih =>
    intro t on
    rw [rounds] at on
    rcases List.mem_cons.mp on with rfl | later
    · exact start
    · split at later
      · exact ih (keeps round s) (round + 1) t later
      · cases later

end Loops

/-- The operation can be done without waiting. -/
def proceeds (sem : SemId) (op : SemOp) (s : Sems) : Bool :=
  executes sem op s || (op.op.toInt = 0 && (s.sem sem).val = 0)

/-- All operations from index `i` on can be done without waiting, one after the other. -/
def AllProceed (c : OpCall) : Nat → Nat → Sems → Prop
  | 0, _, _ => True
  | left + 1, i, s => ∃ sem, semOf c.id (c.ops s.kernel.curpd i) s = .ok sem ∧
    proceeds sem (c.ops s.kernel.curpd i) s = true ∧
      AllProceed c left (i + 1) (addVal sem (c.ops s.kernel.curpd i).op.toInt s)

/-- The operations, with their index, that a call of `ipc_sem_op` does from index `i` on. -/
def performedFrom (c : OpCall) : Nat → Nat → Sems → List (Nat × SemOp)
  | 0, _, _ => []
  | left + 1, i, s =>
    match semOf c.id (c.ops s.kernel.curpd i) s with
    | .error _ => []
    | .ok sem =>
      (if proceeds sem (c.ops s.kernel.curpd i) s then [(i, c.ops s.kernel.curpd i)] else []) ++
        match semOpOne c.id c.time i (c.ops s.kernel.curpd i) s with
        | .ret none t => performedFrom c left (i + 1) t
        | _ => []

/-- The other processes while a call of `semop` that began in this state goes on. -/
abbrev SemOthers (s : Sems) := Others (fun t : Sems => t.kernel) s.kernel

/-- They change no value. -/
def Quiet (o : SemOthers s) : Prop :=
  ∀ round t sem, ((o.between round t).sem sem).val = (t.sem sem).val

/-- The result of the system call as `semop` sees it. -/
def opAnswer (c : OpCall) (eax : BitVec 32) (s : Sems) : Int :=
  answer (fun t : Sems => t.kernel) eax s.kernel.procCurrent (ipcSemOp c s)

/-- What `semop` returns, the operations that its system calls performed, and the state they
left. -/
structure Outcome where
  ret : Int
  performed : List (Nat × SemOp)
  state : Sems

/-- The loop of `semop` from its system call number `round` on, for at most `fuel` calls;
`none` says that it is still in the loop. -/
def semopFrom (c : OpCall) (o : SemOthers s₀) : Nat → Nat → List (Nat × SemOp) → Sems → Option Outcome
  | 0, _, _, _ => none
  | fuel + 1, round, performed, s =>
    let performed := performed ++ performedFrom c c.nops 0 s
    let ret := opAnswer c (o.eax round) s
    if ret < 0 then some ⟨-1, performed, (ipcSemOp c s).state⟩
    else if ret < c.nops then
      semopFrom c o fuel (round + 1) performed (o.between round (ipcSemOp c s).state)
    else some ⟨0, performed, (ipcSemOp c s).state⟩

/-- `semop`. -/
def semop (c : OpCall) (s : Sems) (o : SemOthers s) (fuel : Nat) : Option Outcome :=
  semopFrom c o fuel 0 [] s

/-- What the library promises: a call that returns 0 has done each operation of its array
once and in order, one that returns -1 has left the values as they were, and one whose
operations can all be done without waiting returns after its first system call. -/
structure ExactlyOnce (c : OpCall) (s : Sems) (o : SemOthers s) : Prop where
  success : ∀ fuel out, semop c s o fuel = some out → out.ret = 0 →
    out.performed = (List.range c.nops).map fun i => (i, c.ops s.kernel.curpd i)
  failure : Quiet o → ∀ fuel out, semop c s o fuel = some out → out.ret = -1 →
    ∀ sem, (out.state.sem sem).val = (s.sem sem).val
  prompt : AllProceed c c.nops 0 s → ∃ out, semop c s o 1 = some out

/-- How a walk through an array ends: all operations are executed, one is refused with an
error, one is given up or waits because the value does not cover it, or one is an operation 0. -/
inductive Stop where
  | done
  | refused (i : Nat) (error : Int)
  | nowait (i : Nat)
  | waits (i : Nat)
  | zero (i : Nat)
  deriving DecidableEq

/-- The first operation that is not executed, found from the values alone, and the values
when it is reached. -/
def walk (c : OpCall) : Nat → Nat → Sems → Stop × Sems
  | 0, _, s => (.done, s)
  | left + 1, i, s =>
    match semOf c.id (c.ops s.kernel.curpd i) s with
    | .error error => (.refused i error, s)
    | .ok sem =>
      if executes sem (c.ops s.kernel.curpd i) s then
        walk c left (i + 1) (addVal sem (c.ops s.kernel.curpd i).op.toInt s)
      else if (c.ops s.kernel.curpd i).op.toInt = 0 then (.zero i, s)
      else if (c.ops s.kernel.curpd i).flags &&& 0x203 ≠ 0 then (.nowait i, s)
      else (.waits i, s)

/-- The operations before the one at which the walk ends have no effect together. -/
def CancelsOut (c : OpCall) (s : Sems) : Prop :=
  ∀ sem, ((walk c c.nops 0 s).2.sem sem).val = (s.sem sem).val

section Walk
variable {s t : Sems} {c : OpCall} {left i : Nat} {sem : SemId} {op : SemOp}

/-- Two states that a walk cannot tell apart. -/
structure SameValues (s t : Sems) : Prop where
  sets : SameSets s t
  values : ∀ sem, (t.sem sem).val = (s.sem sem).val
  curpd : t.kernel.curpd = s.kernel.curpd

theorem SameValues.executes (same : SameValues s t) (sem : SemId) (op : SemOp) :
    executes sem op t = executes sem op s := by
  rw [SemLedger.executes, SemLedger.executes, same.values]

theorem add_val_same_values (same : SameValues s t) (sem : SemId) (amount : Int) :
    SameValues (addVal sem amount s) (addVal sem amount t) := by
  refine ⟨?_, fun other => ?_, same.curpd⟩
  · have before := set_sem_same_sets s sem fun m => { m with val := addInt m.val amount }
    have after := set_sem_same_sets t sem fun m => { m with val := addInt m.val amount }
    refine ⟨same.sets.objects, same.sets.headers, fun set => ?_⟩
    calc ((addVal sem amount t).semsets set).num
      _ = (t.semsets set).num := after.nums set
      _ = (s.semsets set).num := same.sets.nums set
      _ = ((addVal sem amount s).semsets set).num := (before.nums set).symm
  · rw [add_val_val, add_val_val, same.values, same.values]

theorem walk_congr (same : SameValues s t) :
    (walk c left i t).1 = (walk c left i s).1 ∧
      ∀ sem, ((walk c left i t).2.sem sem).val = ((walk c left i s).2.sem sem).val := by
  induction left generalizing i s t with
  | zero => exact ⟨rfl, same.values⟩
  | succ left ih =>
    rw [walk, walk, same.curpd, same.sets.sem_of]
    cases semOf c.id (c.ops s.kernel.curpd i) s with
    | error e => exact ⟨rfl, same.values⟩
    | ok sem =>
      simp only [same.executes]
      split
      · exact ih (add_val_same_values same sem _)
      · repeat' split
        all_goals exact ⟨rfl, same.values⟩

/-- An operation that is executed lets the loop go on, as far as a walk can tell from the
state in which only the value has changed. -/
theorem executed_goes_on {id : Int} (time : Int) (i : Nat) (found : semOf id op s = .ok sem)
    (runs : executes sem op s = true) :
    ∃ t, semOpOne id time i op s = .ret none t ∧ OnlyWakes s.kernel t.kernel ∧
      SameValues (addVal sem op.op.toInt s) t := by
  have val := note_op_val sem time s sem
  have returned : semOpOne id time i op s =
      .ret none (wakeWaiters sem (addVal sem op.op.toInt (noteOp sem time s))) := by
    rw [semOpOne, found]
    change operate sem i op (noteOp sem time s) = _
    rw [executes_iff] at runs
    rw [operate]
    rcases runs with positive | ⟨negative, covered⟩
    · rw [if_neg (by omega), if_pos positive]
    · rw [if_pos negative, val, if_pos covered]
  have adds := add_wakes_releases sem op.op.toInt (noteOp sem time s)
  have noted : SameValues s (noteOp sem time s) :=
    ⟨note_op_same_sets sem time s, note_op_val sem time s, rfl⟩
  refine ⟨_, returned, adds.kernel, ?_⟩
  have added := add_val_same_values noted sem op.op.toInt
  have wakes := wake_waiters_releases sem (addVal sem op.op.toInt (noteOp sem time s))
  refine ⟨added.sets.trans wakes.sets, fun other => ?_, ?_⟩
  · rw [wake_waiters_val, added.values]
  · rw [wakes.kernel.curpd, added.curpd]

theorem not_executed (stops : ¬ executes sem op s = true) (nonzero : op.op.toInt ≠ 0) :
    op.op.toInt < 0 ∧ ¬ -op.op.toInt ≤ (s.sem sem).val := by
  rw [executes_iff] at stops
  omega

/-- The call returns this to its caller, with the values of `v`. -/
def Returns (caller : Ptr) (value : Int) (v : Sems) (done : Exec Sems Int) : Prop :=
  ∃ t, done = .ret value t ∧ t.kernel.procCurrent = caller ∧
    ∀ sem, (t.sem sem).val = (v.sem sem).val

/-- How a call of `ipc_sem_op` ends, by how its walk does. -/
def EndsAs (caller : Ptr) (done : Exec Sems Int) : Stop × Sems → Prop
  | (.done, v) => Returns caller 0 v done
  | (.refused _ error, v) => Returns caller error v done
  | (.nowait _, v) => Returns caller 0 v done
  | (.waits _, _) => ∀ value t, done = .ret value t → t.kernel.procCurrent ≠ caller
  | (.zero _, _) => True

theorem EndsAs.of_same {done : Exec Sems Int} {caller : Ptr} {w w' : Stop × Sems} (ends : EndsAs caller done w)
    (stop : w'.1 = w.1) (values : ∀ sem, (w'.2.sem sem).val = (w.2.sem sem).val) :
    EndsAs caller done w' := by
  obtain ⟨stop', v'⟩ := w'
  obtain ⟨stop, v⟩ := w
  subst stop
  have moved : ∀ value, Returns caller value v done → Returns caller value v' done := by
    rintro value ⟨t, returned, current, same⟩
    exact ⟨t, returned, current, fun sem => (same sem).trans (values sem).symm⟩
  cases stop' with
  | done | refused | nowait => exact moved _ ends
  | waits k => exact ends
  | zero k => trivial

theorem op_from_ends (c : OpCall) (left i : Nat) (s : Sems) (runs : CallerRuns s.kernel) :
    EndsAs s.kernel.procCurrent (semOpFrom c left i s) (walk c left i s) := by
  induction left generalizing i s with
  | zero => exact ⟨s, rfl, rfl, fun _ => rfl⟩
  | succ left ih =>
    rw [walk, semOpFrom]
    cases found : semOf c.id (c.ops s.kernel.curpd i) s with
    | error e =>
      have refused : semOpOne c.id c.time i (c.ops s.kernel.curpd i) s = .ret (some e) s := by
        rw [semOpOne, found]
      rw [refused]
      exact ⟨s, rfl, rfl, fun _ => rfl⟩
    | ok sem =>
      simp only
      split
      · rename_i goes
        obtain ⟨t, returned, wakes, same⟩ := executed_goes_on c.time i found goes
        have rest := ih (i + 1) t (runs.of_wakes wakes)
        rw [wakes.current] at rest
        rw [returned]
        apply rest.of_same (walk_congr same).1.symm
        intro sem
        exact ((walk_congr same).2 sem).symm
      · rename_i stops
        split
        · trivial
        · rename_i nonzero
          obtain ⟨negative, short⟩ := not_executed stops nonzero
          rw [← note_op_val sem c.time s sem] at short
          have one : semOpOne c.id c.time i (c.ops s.kernel.curpd i) s =
              operate sem i (c.ops s.kernel.curpd i) (noteOp sem c.time s) := by
            rw [semOpOne, found]
          rw [one, operate, if_pos negative, if_neg short]
          split
          · exact ⟨noteOp sem c.time s, rfl, rfl, note_op_val sem c.time s⟩
          · -- the caller is put to sleep: another process is current, or none
            intro value t returned
            rw [Exec.andThen_assoc, sleepOn] at returned
            change ((procSleep s.kernel.procCurrent s.kernel).within _).andThen _ = _ at returned
            by_cases alone : s.kernel.procRunning.erase s.kernel.procCurrent = []
            · obtain ⟨k, slept⟩ := runs.idles alone
              rw [slept] at returned
              cases returned
            · obtain ⟨slept, different⟩ := sleep_switches runs alone
              rw [slept] at returned
              cases returned
              intro same
              apply different
              rw [← same]
              exact (ProcmLists.shedule_switch_current _ _).symm

theorem walk_done_all_proceed (done : (walk c left i s).1 = .done) : AllProceed c left i s := by
  fun_induction walk c left i s with
  | case1 => trivial
  | case3 left i s sem found goes ih =>
    refine ⟨sem, found, ?_, ih done⟩
    rw [proceeds, goes, Bool.true_or]
  | case2 | case4 | case5 | case6 => cases done

/-- The operation that the caller waits at is not performed. -/
theorem waits_not_performed (stopped : (walk c left i s).1 = .waits k) :
    i ≤ k ∧ k < i + left ∧ ∀ p ∈ performedFrom c left i s, p.1 ≠ k := by
  induction left generalizing i s with
  | zero => cases stopped
  | succ left ih =>
    rw [walk] at stopped
    rw [performedFrom]
    cases found : semOf c.id (c.ops s.kernel.curpd i) s with
    | error e =>
      rw [found] at stopped
      cases stopped
    | ok sem =>
      rw [found] at stopped
      simp only at stopped ⊢
      split at stopped
      · rename_i goes
        obtain ⟨t, returned, -, same⟩ := executed_goes_on c.time i found goes
        rw [← (walk_congr same).1] at stopped
        obtain ⟨from_i, below, rest⟩ := ih stopped
        refine ⟨by omega, by omega, fun p on => ?_⟩
        rw [returned] at on
        rcases List.mem_append.mp on with first | later
        · have index : p.1 = i := by
            split at first
            · rw [List.mem_singleton.mp first]
            · cases first
          omega
        · exact rest p later
      · rename_i stops
        split at stopped
        · cases stopped
        · rename_i nonzero
          split at stopped
          · cases stopped
          · rename_i flags
            obtain rfl : i = k := Stop.waits.inj stopped
            refine ⟨Nat.le_refl i, by omega, fun p on => ?_⟩
            obtain ⟨negative, short⟩ := not_executed stops nonzero
            have unable : proceeds sem (c.ops s.kernel.curpd i) s = false := by
              rw [proceeds, Bool.eq_false_iff.mpr stops, decide_eq_false nonzero]
              rfl
            have ended : ∀ t, semOpOne c.id c.time i (c.ops s.kernel.curpd i) s ≠ .ret none t := by
              intro t returned
              have covered := (op_one_goes_on found nonzero returned).1
              simp only [waits, negative, short, decide_true, decide_false, Bool.not_false,
                Bool.true_and, Bool.or_eq_false_iff, decide_eq_false_iff_not] at covered
              exact flags covered.2
            rw [unable, if_neg Bool.false_ne_true, List.nil_append] at on
            split at on
            · rename_i returned
              exact absurd returned (ended _)
            · cases on

end Walk

section Library
variable {s s₀ : Sems} {c : OpCall} {o : SemOthers s₀}

theorem sem_of_error_negative {id : Int} {op : SemOp} (refused : semOf id op s = .error e) : e < 0 := by
  rw [semOf] at refused
  split at refused
  · cases refused
    decide
  · split at refused
    · cases refused
      decide
    · cases refused

theorem walk_refused_negative (stopped : (walk c left i s).1 = .refused k e) : e < 0 := by
  fun_induction walk c left i s with
  | case2 left i s error refused =>
    cases stopped
    exact sem_of_error_negative refused
  | case3 left i s sem found goes ih => exact ih stopped
  | case1 | case4 | case5 | case6 => cases stopped

theorem answer_returned (eax : BitVec 32)
    (returns : Returns s.kernel.procCurrent value v (ipcSemOp c s)) : opAnswer c eax s = value := by
  obtain ⟨t, returned, current, -⟩ := returns
  rw [opAnswer, returned]
  exact if_pos current

theorem returns_values {caller : Ptr} {done : Exec Sems Int} (returns : Returns caller value v done)
    (sem : SemId) : (done.state.sem sem).val = (v.sem sem).val := by
  obtain ⟨t, rfl, -, values⟩ := returns
  exact values sem

/-- How the first system call of `semop` ends, from how its walk does. -/
theorem first_call_ends (runs : CallerRuns s.kernel) (stopped : (walk c c.nops 0 s).1 = stop) :
    EndsAs s.kernel.procCurrent (ipcSemOp c s) (stop, (walk c c.nops 0 s).2) := by
  have ends := op_from_ends c c.nops 0 s runs
  exact ends.of_same stopped.symm fun _ => rfl

section
variable (fuel : Nat) (round : Nat) (performed : List (Nat × SemOp))
include fuel round performed

/-- A system call with a negative result ends the loop. -/
theorem semop_refused (failed : opAnswer c (o.eax round) s < 0) :
    semopFrom c o (fuel + 1) round performed s =
      some ⟨-1, performed ++ performedFrom c c.nops 0 s, (ipcSemOp c s).state⟩ :=
  if_pos failed

/-- A system call with a smaller result than the number of operations is repeated. -/
theorem semop_repeats (fine : 0 ≤ opAnswer c (o.eax round) s)
    (fewer : opAnswer c (o.eax round) s < c.nops) :
    semopFrom c o (fuel + 1) round performed s =
      semopFrom c o fuel (round + 1) (performed ++ performedFrom c c.nops 0 s)
        (o.between round (ipcSemOp c s).state) := by
  rw [semopFrom, if_neg (not_lt.mpr fine), if_pos fewer]

theorem semop_succeeds (enough : c.nops ≤ opAnswer c (o.eax round) s) :
    semopFrom c o (fuel + 1) round performed s =
      some ⟨0, performed ++ performedFrom c c.nops 0 s, (ipcSemOp c s).state⟩ := by
  rw [semopFrom, if_neg (by omega), if_neg (by omega)]

end

/-- A refused call returns -1 at once, with the values that the operations before the refused
one have left. -/
theorem refused_semop (runs : CallerRuns s.kernel) (stopped : (walk c c.nops 0 s).1 = .refused k e)
    (o : SemOthers s) (fuel : Nat) : ∃ out, semop c s o (fuel + 1) = some out ∧ out.ret = -1 ∧
      ∀ sem, (out.state.sem sem).val = ((walk c c.nops 0 s).2.sem sem).val := by
  have returns : Returns _ _ _ _ := first_call_ends runs stopped
  have failed : opAnswer c (o.eax 0) s < 0 := by
    rw [answer_returned (o.eax 0) returns]
    exact walk_refused_negative stopped
  exact ⟨_, semop_refused fuel 0 [] failed, rfl, returns_values returns⟩

/-- The other processes destroy every object. -/
def destroyed (runs : CallerRuns s.kernel) : SemOthers s where
  eax _ := 0
  between _ t := { t with kernel := s.kernel, ipcObjects := [] }
  runs _ _ := runs
  current _ _ := rfl
  curpd _ _ := rfl

/-- Without objects the first operation is refused. -/
theorem empty_refuses (empty : s.ipcObjects = []) (asked : 1 ≤ c.nops) :
    ipcSemOp c s = .ret (-einval) s := by
  obtain ⟨left, count⟩ := Nat.exists_eq_add_of_le' asked
  have missing : semOf c.id (c.ops s.kernel.curpd 0) s = .error (-einval) := by
    simp only [semOf, ipcFind, empty, List.find?_nil]
  rw [ipcSemOp, count, semOpFrom, semOpOne, missing]
  rfl

/-- A call that is given up, with the set destroyed before the next one. -/
theorem given_up_semop (asked : 1 ≤ c.nops) (runs : CallerRuns s.kernel)
    (stopped : (walk c c.nops 0 s).1 = .nowait k) :
    ∃ out, semop c s (destroyed runs) 2 = some out ∧ out.ret = -1 ∧
      ∀ sem, (out.state.sem sem).val = ((walk c c.nops 0 s).2.sem sem).val := by
  have returns : Returns _ _ _ _ := first_call_ends runs stopped
  have zero := answer_returned ((destroyed runs).eax 0) returns
  have again : semop c s (destroyed runs) 2 = semopFrom c (destroyed runs) 1 1 (performedFrom c c.nops 0 s)
      { (ipcSemOp c s).state with kernel := s.kernel, ipcObjects := [] } :=
    semop_repeats 1 0 [] (by omega) (by omega)
  have second := empty_refuses (c := c)
    (s := { (ipcSemOp c s).state with kernel := s.kernel, ipcObjects := [] }) rfl asked
  rw [again, semop_refused 0 1]
  · refine ⟨_, rfl, rfl, fun sem => ?_⟩
    rw [second]
    exact returns_values returns sem
  · rw [opAnswer, second, answer, if_pos rfl]
    decide

theorem once_of_cancelling (runs : CallerRuns s.kernel) (stopped : (walk c c.nops 0 s).1 = .refused k e)
    (cancels : CancelsOut c s) (o : SemOthers s) : ExactlyOnce c s o where
  success fuel out returned succeeded := by
    cases fuel with
    | zero => cases returned
    | succ fuel =>
      obtain ⟨failed, result, ret, -⟩ := refused_semop runs stopped o fuel
      cases returned.symm.trans result
      rw [ret] at succeeded
      cases succeeded
  failure _ fuel out returned _ sem := by
    cases fuel with
    | zero => cases returned
    | succ fuel =>
      obtain ⟨failed, result, -, values⟩ := refused_semop runs stopped o fuel
      cases returned.symm.trans result
      exact (values sem).trans (cancels sem)
  prompt _ := by
    obtain ⟨out, returned, -⟩ := refused_semop runs stopped o 0
    exact ⟨out, returned⟩

theorem cancelling_of_once (runs : CallerRuns s.kernel) (stopped : (walk c c.nops 0 s).1 = .refused k e)
    (once : ExactlyOnce c s (destroyed runs)) : CancelsOut c s := by
  obtain ⟨out, returned, ret, values⟩ := refused_semop runs stopped (destroyed runs) 0
  intro sem
  rw [← values sem]
  exact once.failure (fun _ _ _ => rfl) 1 out returned ret sem

/-- A call that does all its operations is made again. -/
theorem done_not_once (asked : 1 ≤ c.nops) (runs : CallerRuns s.kernel)
    (stopped : (walk c c.nops 0 s).1 = .done) (o : SemOthers s) : ¬ ExactlyOnce c s o := by
  intro once
  obtain ⟨out, returned⟩ := once.prompt (walk_done_all_proceed stopped)
  have returns : Returns _ _ _ _ := first_call_ends runs stopped
  have zero := answer_returned (o.eax 0) returns
  rw [semop, semop_repeats 0 0 [] (by omega) (by omega)] at returned
  cases returned

/-- A caller that waits takes what is in `eax` for the number of operations done. -/
theorem waits_not_once {o : SemOthers s} (runs : CallerRuns s.kernel) (stopped : (walk c c.nops 0 s).1 = .waits k)
    (enough : c.nops ≤ (o.eax 0).toInt) : ¬ ExactlyOnce c s o := by
  intro once
  have switched : ∀ value t, ipcSemOp c s = .ret value t → t.kernel.procCurrent ≠ s.kernel.procCurrent :=
    first_call_ends runs stopped
  have stale : opAnswer c (o.eax 0) s = (o.eax 0).toInt := by
    rw [opAnswer]
    cases done : ipcSemOp c s with
    | ret value t => exact if_neg (switched value t done)
    | idle t => rfl
    | halt t => rfl
  have returned := semop_succeeds (o := o) 0 0 [] (by rw [stale]; exact enough)
  have performed := once.success 1 _ returned rfl
  obtain ⟨-, below, missing⟩ := waits_not_performed stopped
  have listed : (k, c.ops s.kernel.curpd k) ∈
      (List.range c.nops).map fun i => (i, c.ops s.kernel.curpd i) := by
    apply List.mem_map_of_mem (f := fun i => (i, c.ops s.kernel.curpd i))
    apply List.mem_range.mpr
    omega
  rw [← performed] at listed
  exact missing _ listed rfl

/-- `semop` keeps its promise if its first system call is refused at an operation before
which the others cancel each other out. It breaks it if all operations are executed; if one
is refused or given up after others with an effect; and if the caller waits with a large
enough number in `eax`. -/
theorem semop_once_if_refused (c : OpCall) (s : Sems) (asked : 1 ≤ c.nops) (runs : CallerRuns s.kernel) :
    (∀ k e, (walk c c.nops 0 s).1 = .refused k e → ((∀ o, ExactlyOnce c s o) ↔ CancelsOut c s)) ∧
    ((walk c c.nops 0 s).1 = .done → ∀ o, ¬ ExactlyOnce c s o) ∧
    (∀ k, (walk c c.nops 0 s).1 = .waits k →
      ∀ o : SemOthers s, c.nops ≤ (o.eax 0).toInt → ¬ ExactlyOnce c s o) ∧
    (∀ k, (walk c c.nops 0 s).1 = .nowait k → ¬ CancelsOut c s → ¬ ∀ o, ExactlyOnce c s o) := by
  refine ⟨fun k e stopped => ?_, done_not_once asked runs, fun k stopped o enough => ?_,
    fun k stopped effect all => ?_⟩
  · constructor
    · intro all
      exact cancelling_of_once runs stopped (all (destroyed runs))
    · exact once_of_cancelling runs stopped
  · exact waits_not_once runs stopped enough
  · obtain ⟨out, returned, ret, values⟩ := given_up_semop asked runs stopped
    apply effect
    intro sem
    rw [← values sem]
    exact (all (destroyed runs)).failure (fun _ _ _ => rfl) 2 out returned ret sem

end Library

theorem one_set_runs : CallerRuns oneSet.kernel := ⟨by decide, by decide⟩

/-- The operations 5 and -5 of the only semaphore of the set with id 0, and one of another. -/
def cancelling : OpCall := ⟨0, fun _ i => [⟨0, 5, 0⟩, ⟨0, -5, 0⟩, ⟨1, 5, 0⟩].getD i ⟨0, 0, 0⟩, 3, 0⟩

/-- The call is refused after two operations that cancel each other out. -/
theorem cancelled_operations_refused :
    1 ≤ cancelling.nops ∧ CallerRuns oneSet.kernel ∧
      (walk cancelling 3 0 oneSet).1 = .refused 2 (-1) ∧ ∀ o, ExactlyOnce cancelling oneSet o := by
  have refused : (walk cancelling 3 0 oneSet).1 = .refused 2 (-1) := by decide
  refine ⟨by decide, one_set_runs, refused, ?_⟩
  apply ((semop_once_if_refused cancelling oneSet (by decide) one_set_runs).1 2 (-1) refused).mpr
  intro sem
  change ((addVal (100, 0) (-5) (addVal (100, 0) 5 oneSet)).sem sem).val = _
  rw [add_val_val, add_val_val, if_pos rfl, add_val_val]
  split
  · rename_i same
    rw [same]
    decide
  · rfl

/-- One operation, 5 to be added to the semaphore of the set with id 0. -/
def addFive : OpCall := ⟨0, fun _ _ => ⟨0, 5, 0⟩, 1, 0⟩

/-- No other process does anything, and `eax` is 0 at every call. -/
def alone : SemOthers oneSet where
  eax _ := 0
  between _ s := { s with kernel := oneSet.kernel }
  runs _ _ := one_set_runs
  current _ _ := rfl
  curpd _ _ := rfl

/-- The first system call adds 5 and returns 0, the second adds 5 again, and `semop` is still
in its loop. -/
theorem five_added_twice :
    AllProceed addFive addFive.nops 0 oneSet ∧ semop addFive oneSet alone 2 = none ∧
      ((ipcSemOp addFive (ipcSemOp addFive oneSet).state).state.sem (100, 0)).val = 10 ∧
      ¬ ExactlyOnce addFive oneSet alone := by
  have proceed : AllProceed addFive addFive.nops 0 oneSet :=
    ⟨(100, 0), by rfl, by decide, trivial⟩
  refine ⟨proceed, rfl, by decide, fun once => ?_⟩
  obtain ⟨out, returned⟩ := once.prompt proceed
  cases returned

end MeinOS.SemLibrary
