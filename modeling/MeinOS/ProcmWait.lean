import MeinOS.ProcmLists

/-! Waiting for children: `proc_waitpid`, and what `proc_exit` reports to a parent that
waits (`kernel2/procm.c`).

A parent that waits for one process by its id first looks whether that process is defunct.
One that waits for any child or for a group does not look, so a child that is gone already
is not noticed. Nothing marks a child as reported, and `proc_create` leaves the fields
`wait`, `wait_pid` and `wait_stat` as `malloc` found them. -/
namespace MeinOS.ProcmWait
open Lib Lib.Runs Llist Procm ProcmLists

/-- `proc_find`. -/
def procFind (pid : Int) (k : Kernel) : Option Ptr :=
  if (k.procs k.procCurrent).pid = pid then some k.procCurrent
  else k.procAll.find? fun proc => (k.procs proc).pid = pid

/-- What `proc_waitpid` writes to the record of its caller. -/
def noteWait (pid : Int) (stat : Ptr) (k : Kernel) : Kernel :=
  k.setProc k.procCurrent fun p => { p with waitPid := pid, waitStat := stat, wait := true }

/-- The second half of `proc_waitpid`. -/
def sleepForChild (pid : Int) (stat : Ptr) (k : Kernel) : Exec Kernel Int :=
  (procSleep k.procCurrent (noteWait pid stat k)).andThen fun _ k => .ret (-1) k

/-- `proc_waitpid`, which ignores its options. -/
def procWaitpid (pid : Int) (stat : Ptr) (k : Kernel) : Exec Kernel Int :=
  if 0 < pid then
    match procFind pid k with
    | none => .ret (-1) k
    | some proc =>
      if (k.procs proc).defunc then
        let words := Function.update (k.user k.curpd) stat (k.procs proc).ret
        .ret pid { k with user := Function.update k.user k.curpd words }
      else sleepForChild pid stat k
  else sleepForChild pid stat k

/-- `proc_exit` finds that the parent of the current process waits for it. -/
def tellsParent (k : Kernel) : Bool :=
  let child := k.procs k.procCurrent
  let parent := k.procs child.parent
  child.parent ≠ 0 && parent.wait && waitMatches parent.waitPid child parent

/-- The process manager with two records of what happened: the argument of the
`proc_waitpid` that a process is asleep in, and to how many calls of `proc_waitpid` the
exit status of a process was reported. -/
structure Waits where
  kernel : Kernel
  blocked : Ptr → Option Int
  reports : Ptr → Nat

/-- The process whose end this `proc_waitpid` reports at once. -/
def reportedAtOnce (pid : Int) (k : Kernel) : Option Ptr :=
  if 0 < pid then (procFind pid k).filter fun proc => (k.procs proc).defunc else none

/-- `proc_waitpid` goes to sleep. -/
def sleepsFor (pid : Int) (k : Kernel) : Bool :=
  if 0 < pid then (procFind pid k).any fun proc => !(k.procs proc).defunc else true

/-- The parent of the current process. -/
def Waits.parent (s : Waits) : Ptr := (s.kernel.procs s.kernel.procCurrent).parent

/-- Who is still asleep in `proc_waitpid` after the current process has exited. -/
def Waits.blockedAfterExit (s : Waits) : Ptr → Option Int :=
  if tellsParent s.kernel then Function.update s.blocked s.parent none else s.blocked

/-- The reports after the current process has exited. -/
def Waits.reportsAfterExit (s : Waits) : Ptr → Nat :=
  if tellsParent s.kernel ∧ s.blocked s.parent ≠ none then
    Function.update s.reports s.kernel.procCurrent (s.reports s.kernel.procCurrent + 1)
  else s.reports

inductive Event where
  | create (c : Creation)
  | shedule
  /-- A process that is not asleep in `proc_waitpid` is woken, for instance after its creation. -/
  | wake (proc : Ptr)
  | waitpid (pid : Int) (stat : Ptr)
  | exit (ret : Int)

/-- One event. -/
def step (s : Waits) : Event → Option Waits
  | .create c => (ProcmLists.step s.kernel (.create c)).map fun k => { s with kernel := k }
  | .shedule => (ProcmLists.step s.kernel .shedule).map fun k => { s with kernel := k }
  | .wake proc => if s.blocked proc = none then
      (ProcmLists.step s.kernel (.wake proc)).map fun k => { s with kernel := k } else none
  | .waitpid pid stat => onlyIf (s.kernel.procCurrent ≠ 0)
      { kernel := (procWaitpid pid stat s.kernel).state
        blocked := if sleepsFor pid s.kernel then
          Function.update s.blocked s.kernel.procCurrent (some pid) else s.blocked
        reports := match reportedAtOnce pid s.kernel with
          | some proc => Function.update s.reports proc (s.reports proc + 1)
          | none => s.reports }
  | .exit ret => (ProcmLists.step s.kernel (.exit ret)).map fun k =>
      { kernel := k, blocked := s.blockedAfterExit, reports := s.reportsAfterExit }

/-- `proc_init`. -/
def start (k : Kernel) : Waits := ⟨procInit k, fun _ => none, fun _ => 0⟩

/-- The process is a child of `parent` that has exited and that `arg` asks for. -/
def GoneChild (k : Kernel) (parent : Ptr) (arg : Int) (child : Ptr) : Prop :=
  child ∈ k.procAll ∧ (k.procs child).parent = parent ∧ (k.procs child).defunc = true ∧
    waitMatches arg (k.procs child) (k.procs parent) = true

/-- Nobody sleeps in `proc_waitpid` for a child that has exited and was not reported, and
no exit is reported twice. -/
structure HandedOver (s : Waits) : Prop where
  noticed : ∀ parent arg, s.blocked parent = some arg → ∀ child,
    GoneChild s.kernel parent arg child → s.reports child ≠ 0
  once : ∀ child, s.reports child ≤ 1

/-- The end of the current process writes to the registers or the memory of its parent
only while that parent is asleep in `proc_waitpid`. -/
def SparesParent (s t : Waits) : Prop :=
  s.blocked s.parent = none →
    (t.kernel.procs s.parent).registers = (s.kernel.procs s.parent).registers ∧
      t.kernel.user = s.kernel.user

/-- A new process finds 0 in its `wait`; a process that is waited for by its id was not
reported before; and a process that waits for any child or a group has no child of that
kind that is gone and was not reported. -/
def Meets (s : Waits) : Event → Prop
  | .create c => c.memory.wait = false
  | .waitpid pid _ =>
    if 0 < pid then ∀ proc, reportedAtOnce pid s.kernel = some proc → s.reports proc = 0
    else ∀ child, GoneChild s.kernel s.kernel.procCurrent pid child → s.reports child ≠ 0
  | _ => True

instance (k : Kernel) (parent : Ptr) (arg : Int) (child : Ptr) :
    Decidable (GoneChild k parent arg child) := inferInstanceAs (Decidable (_ ∧ _ ∧ _ ∧ _))

instance (s : Waits) : (event : Event) → Decidable (Meets s event)
  | .create c => inferInstanceAs (Decidable (c.memory.wait = false))
  | .waitpid pid _ =>
    have : Decidable (∀ proc, reportedAtOnce pid s.kernel = some proc → s.reports proc = 0) :=
      decidable_of_iff (∀ proc ∈ reportedAtOnce pid s.kernel, s.reports proc = 0) Iff.rfl
    have : Decidable (∀ child, GoneChild s.kernel s.kernel.procCurrent pid child →
        s.reports child ≠ 0) :=
      decidable_of_iff (∀ child ∈ s.kernel.procAll,
          GoneChild s.kernel s.kernel.procCurrent pid child → s.reports child ≠ 0)
        ⟨fun all child gone => all child gone.1 gone, fun all child _ => all child⟩
    inferInstanceAs (Decidable (ite _ _ _))
  | .shedule | .wake _ | .exit _ => isTrue trivial

/-- Two records of the same process, defunct in both or in neither. -/
structure Kin (a b : Proc) : Prop where
  pid : a.pid = b.pid
  gid : a.gid = b.gid
  parent : a.parent = b.parent
  defunc : a.defunc = b.defunc

/-- Also what the process waits for is the same. -/
structure Akin (a b : Proc) : Prop extends Kin a b where
  wait : a.wait = b.wait
  waitPid : a.waitPid = b.waitPid

/-- The parts that `Akin` compares. -/
def family (p : Proc) : Int × Int × Ptr × Bool × Bool × Int :=
  (p.pid, p.gid, p.parent, p.defunc, p.wait, p.waitPid)

theorem family_untouched : Untouched family := ⟨fun _ _ => rfl, fun _ _ => rfl, fun _ _ => rfl⟩

theorem Akin.of_family (same : family a = family b) : Akin a b := by
  simp only [family, Prod.mk.injEq] at same
  obtain ⟨pid, gid, parent, defunc, wait, waitPid⟩ := same
  exact ⟨⟨pid, gid, parent, defunc⟩, wait, waitPid⟩

/-- The invariant: the field `wait` says who is asleep in `proc_waitpid`, process ids are
unique, and only processes that have exited were reported. -/
structure Waiting (s : Waits) : Prop extends HandedOver s where
  consistent : Consistent s.kernel
  parents : ∀ p ∈ s.kernel.procAll, ParentExists s.kernel p
  pids : ∀ p ∈ s.kernel.procAll, (s.kernel.procs p).pid < s.kernel.procNextpid
  distinct : ∀ p ∈ s.kernel.procAll, ∀ q ∈ s.kernel.procAll,
    (s.kernel.procs p).pid = (s.kernel.procs q).pid → p = q
  flags : ∀ p ∈ s.kernel.procAll, s.blocked p =
    if (s.kernel.procs p).wait then some (s.kernel.procs p).waitPid else none
  asleep : ∀ p, s.blocked p ≠ none → p ∈ s.kernel.procAll ∧ (s.kernel.procs p).isSleeping = true
  exited : ∀ p, s.reports p ≠ 0 → p ∈ s.kernel.procAll ∧ (s.kernel.procs p).defunc = true

section Steps
variable {s t : Waits} {k k' : Kernel}

theorem start_waiting (k : Kernel) : Waiting (start k) := by
  refine ⟨⟨?_, ?_⟩, init_consistent k, ?_, ?_, ?_, ?_, ?_, ?_⟩ <;> simp [start, procInit]

theorem GoneChild.of_kin (gone : GoneChild k' parent arg child) (all : child ∈ k.procAll)
    (own : Kin (k'.procs child) (k.procs child)) (other : Kin (k'.procs parent) (k.procs parent)) :
    GoneChild k parent arg child := by
  obtain ⟨-, ofParent, defunct, matched⟩ := gone
  refine ⟨all, own.parent ▸ ofParent, own.defunc ▸ defunct, ?_⟩
  simp only [waitMatches, own.pid, own.gid, other.gid] at matched
  exact matched

/-- A step that keeps process ids and parents. -/
theorem Waiting.named (held : Waiting s) (all : k'.procAll = s.kernel.procAll)
    (next : k'.procNextpid = s.kernel.procNextpid)
    (pid : ∀ p, (k'.procs p).pid = (s.kernel.procs p).pid)
    (parent : ∀ p, (k'.procs p).parent = (s.kernel.procs p).parent) :
    (∀ p ∈ k'.procAll, ParentExists k' p) ∧ (∀ p ∈ k'.procAll, (k'.procs p).pid < k'.procNextpid) ∧
      ∀ p ∈ k'.procAll, ∀ q ∈ k'.procAll, (k'.procs p).pid = (k'.procs q).pid → p = q := by
  simp only [ParentExists, all, next, pid, parent]
  exact ⟨held.parents, held.pids, held.distinct⟩

/-- A step that leaves what the processes wait for as it is. -/
theorem Waiting.of_akin (held : Waiting s) (consistent : Consistent k')
    (all : k'.procAll = s.kernel.procAll) (next : k'.procNextpid = s.kernel.procNextpid)
    (same : ∀ p, Akin (k'.procs p) (s.kernel.procs p))
    (asleep : ∀ p, s.blocked p ≠ none → (k'.procs p).isSleeping = true) :
    Waiting { s with kernel := k' } := by
  obtain ⟨parents, pids, distinct⟩ := held.named all next (fun p => (same p).pid) fun p => (same p).parent
  refine ⟨⟨fun parent arg waits child gone => ?_, held.once⟩, consistent, parents, pids, distinct,
    fun p member => ?_, fun p waits => ?_, fun p reported => ?_⟩
  · exact held.noticed parent arg waits child
      (gone.of_kin (all ▸ gone.1) (same child).toKin (same parent).toKin)
  · simp only [all] at member
    simp only [(same p).wait, (same p).waitPid]
    exact held.flags p member
  · simp only [all]
    exact ⟨(held.asleep p waits).1, asleep p waits⟩
  · simp only [all, (same p).defunc]
    exact held.exited p reported

theorem shedule_nextpid (k : Kernel) : (procShedule k).state.procNextpid = k.procNextpid := by
  unfold procShedule
  split
  · split <;> rfl
  · rw [Exec.state_ret, select_eq, sheduleSwitch]
    split
    · split <;> rfl
    · rfl

theorem shedule_waiting (held : Waiting s) (consistent : Consistent (procShedule s.kernel).state) :
    Waiting { s with kernel := (procShedule s.kernel).state } := by
  have book := shedule_same_book s.kernel
  refine held.of_akin consistent book.all (shedule_nextpid s.kernel)
    (fun p => .of_family (shedule_untouched family_untouched s.kernel p)) fun p waits => ?_
  rw [book.isSleeping]
  exact (held.asleep p waits).2

theorem wake_nextpid (proc : Ptr) (k : Kernel) : (procWake proc k).procNextpid = k.procNextpid := by
  unfold procWake
  split <;> rfl

theorem wake_waiting (held : Waiting s) (consistent : Consistent (procWake proc s.kernel))
    (free : s.blocked proc = none) : Waiting { s with kernel := procWake proc s.kernel } := by
  refine held.of_akin consistent (wake_all proc s.kernel) (wake_nextpid proc s.kernel)
    (fun p => .of_family (wake_keeps family (fun _ _ => rfl) proc s.kernel p)) fun p waits => ?_
  have other : p ≠ proc := by
    rintro rfl
    exact waits free
  rw [wake_record, if_neg other]
  exact (held.asleep p waits).2

/-- `proc_create` changes what other processes have in their records in no way that
matters here. -/
theorem create_others (c : Creation) (k : Kernel) (other : p ≠ c.new) :
    Akin ((procCreate c k).procs p) (k.procs p) ∧
      ((procCreate c k).procs p).isSleeping = (k.procs p).isSleeping :=
  ⟨.of_family (create_keeps family (fun _ _ => rfl) c k other),
    create_keeps Proc.isSleeping (fun _ _ => rfl) c k other⟩

theorem create_waiting (held : Waiting s) (consistent : Consistent (procCreate c s.kernel))
    (fresh : c.new ∉ s.kernel.procAll) (parent : c.parent = 0 ∨ c.parent ∈ s.kernel.procAll)
    (clear : c.memory.wait = false) : Waiting { s with kernel := procCreate c s.kernel } := by
  have all : (procCreate c s.kernel).procAll = c.new :: s.kernel.procAll := rfl
  have next : (procCreate c s.kernel).procNextpid = s.kernel.procNextpid + 1 := rfl
  have record := create_record c s.kernel
  have old : ∀ p ∈ s.kernel.procAll, Akin ((procCreate c s.kernel).procs p) (s.kernel.procs p) ∧
      ((procCreate c s.kernel).procs p).isSleeping = (s.kernel.procs p).isSleeping :=
    fun p member => create_others c s.kernel fun same => fresh (same ▸ member)
  have unknown : s.blocked c.new = none := by
    by_contra waits
    exact fresh (held.asleep _ waits).1
  have newest : ∀ p ∈ s.kernel.procAll,
      ((procCreate c s.kernel).procs p).pid < ((procCreate c s.kernel).procs c.new).pid := by
    intro p member
    rw [record, (old p member).1.pid]
    exact held.pids p member
  refine ⟨⟨fun p arg waits child gone => ?_, held.once⟩, consistent, fun p member => ?_,
    fun p member => ?_, fun p inP q inQ equal => ?_, fun p member => ?_, fun p waits => ?_,
    fun p reported => ?_⟩
  · have known := (held.asleep p (by rw [waits]; simp)).1
    have member := gone.1
    simp only [all, List.mem_cons] at member
    rcases member with rfl | member
    · have defunct := gone.2.2.1
      simp only [record, Creation.record] at defunct
      cases defunct
    · exact held.noticed p arg waits child 
        (gone.of_kin member (old child member).1.toKin (old p known).1.toKin)
  · simp only [all, List.mem_cons] at member
    rw [ParentExists]
    simp only [all, List.mem_cons]
    rcases member with rfl | member
    · simp only [record, Creation.record]
      exact parent.imp_right Or.inr
    · rw [(old p member).1.parent]
      exact (held.parents p member).imp_right Or.inr
  · simp only [all, List.mem_cons] at member
    simp only [next]
    rcases member with rfl | member
    · simp only [record, Creation.record]
      omega
    · have bound := held.pids p member
      rw [(old p member).1.pid]
      omega
  · simp only [all, List.mem_cons] at inP inQ
    rcases inP with rfl | inP <;> rcases inQ with rfl | inQ
    · rfl
    · exact absurd equal.symm (newest q inQ).ne
    · exact absurd equal (newest p inP).ne
    · simp only [(old p inP).1.pid, (old q inQ).1.pid] at equal
      exact held.distinct p inP q inQ equal
  · simp only [all, List.mem_cons] at member
    rcases member with rfl | member
    · simp only [record, Creation.record, clear]
      exact unknown
    · simp only [(old p member).1.wait, (old p member).1.waitPid]
      exact held.flags p member
  · obtain ⟨member, sleeping⟩ := held.asleep p waits
    refine ⟨List.mem_cons_of_mem _ member, ?_⟩
    rw [← sleeping]
    exact (old p member).2
  · obtain ⟨member, defunct⟩ := held.exited p reported
    refine ⟨List.mem_cons_of_mem _ member, ?_⟩
    rw [← defunct]
    exact (old p member).1.defunc

theorem find_spec (current : k.procCurrent ∈ k.procAll) (found : procFind pid k = some proc) :
    proc ∈ k.procAll ∧ (k.procs proc).pid = pid := by
  unfold procFind at found
  split at found
  · cases found
    exact ⟨current, by assumption⟩
  · have matched := List.find?_some found
    exact ⟨List.mem_of_find?_eq_some found, by simpa using matched⟩

/-- A positive id that does not lead to a defunct process belongs to no defunct process. -/
theorem gone_is_found (held : Waiting s) (current : s.kernel.procCurrent ∈ s.kernel.procAll)
    (positive : 0 < pid) (gone : GoneChild s.kernel parent pid child) :
    sleepsFor pid s.kernel = false := by
  obtain ⟨member, -, defunct, matched⟩ := gone
  have same : (s.kernel.procs child).pid = pid := by
    simp only [waitMatches, Bool.or_eq_true, Bool.and_eq_true, decide_eq_true_eq] at matched
    omega
  rw [sleepsFor, if_pos positive]
  cases found : procFind pid s.kernel with
  | none => rfl
  | some proc =>
    obtain ⟨listed, pids⟩ := find_spec current found
    have this := held.distinct proc listed child member (pids.trans same.symm)
    simp [this, defunct]

theorem sleep_nextpid (proc : Ptr) (k : Kernel) :
    (procSleep proc k).state.procNextpid = k.procNextpid := by
  unfold procSleep
  split
  · rfl
  · split
    · rw [shedule_nextpid]
      rfl
    · rfl

/-- What `proc_waitpid` that goes to sleep changes in the records. -/
theorem sleep_records (pid : Int) (stat : Ptr) (k : Kernel) :
    let k' := (procSleep k.procCurrent (noteWait pid stat k)).state
    (∀ p, Kin (k'.procs p) (k.procs p)) ∧
      (∀ p, p ≠ k.procCurrent → (k'.procs p).wait = (k.procs p).wait ∧
        (k'.procs p).waitPid = (k.procs p).waitPid ∧
        (k'.procs p).isSleeping = (k.procs p).isSleeping) ∧
      (k'.procs k.procCurrent).wait = true ∧ (k'.procs k.procCurrent).waitPid = pid ∧
      (k'.procs k.procCurrent).isSleeping = true := by
  intro k'
  have slept : ∀ p, Akin (k'.procs p) ((noteWait pid stat k).procs p) := fun p =>
    .of_family (sleep_untouched family_untouched k.procCurrent (noteWait pid stat k) p)
  have other : ∀ p, p ≠ k.procCurrent → (noteWait pid stat k).procs p = k.procs p := fun p different =>
    setProc_other k k.procCurrent _ different
  have own : (noteWait pid stat k).procs k.procCurrent =
      { k.procs k.procCurrent with waitPid := pid, waitStat := stat, wait := true } :=
    setProc_self k k.procCurrent _
  refine ⟨fun p => ?_, fun p different => ⟨?_, ?_, ?_⟩, ?_, ?_, ?_⟩
  · have after := (slept p).toKin
    by_cases same : p = k.procCurrent
    · subst same
      rw [own] at after
      exact ⟨after.pid, after.gid, after.parent, after.defunc⟩
    · rw [other p same] at after
      exact after
  · rw [(slept p).wait, other p different]
  · rw [(slept p).waitPid, other p different]
  · rw [sleep_flags _ different, other p different]
  · rw [(slept _).wait, own]
  · rw [(slept _).waitPid, own]
  · exact sleep_sleeps k.procCurrent (noteWait pid stat k)

/-- `proc_waitpid` that goes to sleep. -/
theorem sleep_waiting (held : Waiting s) (current : s.kernel.procCurrent ≠ 0)
    (sleeps : sleepsFor pid s.kernel = true)
    (unreported : ¬ 0 < pid → ∀ child, GoneChild s.kernel s.kernel.procCurrent pid child →
      s.reports child ≠ 0) :
    Waiting { s with
      kernel := (procSleep s.kernel.procCurrent (noteWait pid stat s.kernel)).state
      blocked := Function.update s.blocked s.kernel.procCurrent (some pid) } := by
  obtain ⟨member, alive⟩ := current_listed held.consistent current
  obtain ⟨kin, others, wait, waitPid, asleep⟩ := sleep_records pid stat s.kernel
  have noted : SameBook s.kernel (noteWait pid stat s.kernel) :=
    set_proc_same_book s.kernel _ (fun _ => rfl) (fun _ => rfl)
  have consistent : Consistent (procSleep s.kernel.procCurrent (noteWait pid stat s.kernel)).state :=
    sleep_consistent (held.consistent.of_same_book noted rfl) member (by rw [noted.defunc]; exact alive)
  have all : (procSleep s.kernel.procCurrent (noteWait pid stat s.kernel)).state.procAll =
      s.kernel.procAll := sleep_all _ _
  have next : (procSleep s.kernel.procCurrent (noteWait pid stat s.kernel)).state.procNextpid =
      s.kernel.procNextpid := sleep_nextpid _ _
  generalize (procSleep s.kernel.procCurrent (noteWait pid stat s.kernel)).state = k' at *
  obtain ⟨parents, pids, distinct⟩ := held.named all next (fun p => (kin p).pid) fun p => (kin p).parent
  refine ⟨⟨fun parent arg waits child gone => ?_, held.once⟩, consistent, parents, pids, distinct,
    fun p inP => ?_, fun p waits => ?_, fun p reported => ?_⟩
  · have before := gone.of_kin (all ▸ gone.1) (kin child) (kin parent)
    by_cases caller : parent = s.kernel.procCurrent
    · subst caller
      simp only [Function.update_self, Option.some.injEq] at waits
      subst waits
      by_cases positive : 0 < pid
      · rw [gone_is_found held member positive before] at sleeps
        cases sleeps
      · exact unreported positive child before
    · simp only [Function.update_of_ne caller] at waits
      exact held.noticed parent arg waits child before
  · simp only [all] at inP
    by_cases caller : p = s.kernel.procCurrent
    · subst caller
      simp [wait, waitPid]
    · obtain ⟨sameWait, samePid, -⟩ := others p caller
      simp only [Function.update_of_ne caller, sameWait, samePid]
      exact held.flags p inP
  · simp only [all]
    by_cases caller : p = s.kernel.procCurrent
    · subst caller
      exact ⟨member, asleep⟩
    · simp only [ne_eq, Function.update_of_ne caller] at waits
      rw [(others p caller).2.2]
      exact held.asleep p waits
  · simp only [all, (kin p).defunc]
    exact held.exited p reported

/-- `proc_waitpid` that finds the process defunct. -/
theorem report_waiting (held : Waiting s) (current : s.kernel.procCurrent ≠ 0)
    (found : reportedAtOnce pid s.kernel = some proc) (unreported : s.reports proc = 0)
    (user : Ptr → Nat → Int) :
    Waiting { s with
      kernel := { s.kernel with user := user }
      reports := Function.update s.reports proc (s.reports proc + 1) } := by
  have listed := (current_listed held.consistent current).1
  obtain ⟨positive, found⟩ := Option.ite_none_right_eq_some.mp found
  obtain ⟨found, defunct⟩ := Option.filter_eq_some_iff.mp found
  have member := (find_spec listed found).1
  have same : SameBook s.kernel { s.kernel with user := user } :=
    ⟨rfl, rfl, rfl, fun _ => rfl, fun _ => rfl⟩
  refine ⟨⟨fun parent arg waits child gone => ?_, fun child => ?_⟩,
    held.consistent.of_same_book same rfl, held.parents, held.pids, held.distinct, held.flags,
    held.asleep, fun p reported => ?_⟩
  · by_cases this : child = proc
    · subst this
      simp
    · simp only [Function.update_of_ne this]
      exact held.noticed parent arg waits child gone
  · by_cases this : child = proc
    · subst this
      simp [unreported]
    · simp only [Function.update_of_ne this]
      exact held.once child
  · by_cases this : p = proc
    · subst this
      exact ⟨member, defunct⟩
    · simp only [ne_eq, Function.update_of_ne this] at reported
      exact held.exited p reported

theorem store_status_procs (parent : Ptr) (ret : Int) (k : Kernel) :
    (storeStatus parent ret k).procs = k.procs := by
  unfold storeStatus
  split <;> rfl

theorem quiet_report (quiet : tellsParent k = false) : reportExit ret k = k := by
  have silent : ¬ tellsParent k = true := by simp [quiet]
  exact if_neg silent

/-- The report to a waiting parent. -/
theorem told_record (tells : tellsParent k = true) (p : Ptr) :
    (reportExit ret k).procs p = if p = (k.procs k.procCurrent).parent then
      { k.procs p with
        registers := { (k.procs p).registers with
          eax := BitVec.ofInt 32 (k.procs k.procCurrent).pid }
        wait := false
        isSleeping := false } else k.procs p := by
  have taken : reportExit ret k = _ := if_pos tells
  rw [taken]
  simp only [wake_record, setProc_apply, store_status_procs]
  split <;> rfl

section
variable (ret : Int) (k : Kernel)

theorem report_frame :
    (reportExit ret k).procCurrent = k.procCurrent ∧ (reportExit ret k).procAll = k.procAll ∧
      (reportExit ret k).procNextpid = k.procNextpid := by
  rcases report_exit_cases ret k with same | ⟨m, book, current, next, -, woken⟩
  · rw [same]
    exact ⟨rfl, rfl, rfl⟩
  · rw [woken, wake_current, wake_all, wake_nextpid]
    exact ⟨current, book.all, next⟩

/-- The record of every process after the current one has exited. -/
theorem exit_record (p : Ptr) :
    (procExit ret k).state.procs p = if p = k.procCurrent then
      { (reportExit ret k).procs p with ret := ret, defunc := true }
    else (reportExit ret k).procs p := by
  have current := (report_frame ret k).1
  simp only [procExit, Exec.state_idle, setProc_apply, current]

theorem exit_kin (p : Ptr) :
    let k' := (procExit ret k).state
    (k'.procs p).pid = (k.procs p).pid ∧ (k'.procs p).gid = (k.procs p).gid ∧
      (k'.procs p).parent = (k.procs p).parent ∧
      (k'.procs p).defunc = (decide (p = k.procCurrent) || (k.procs p).defunc) := by
  have told : Kin ((reportExit ret k).procs p) (k.procs p) := by
    cases tells : tellsParent k with
    | false =>
      rw [quiet_report tells]
      exact ⟨rfl, rfl, rfl, rfl⟩
    | true =>
      rw [told_record tells]
      split
      · exact ⟨rfl, rfl, rfl, rfl⟩
      · exact ⟨rfl, rfl, rfl, rfl⟩
  simp only [exit_record]
  split
  · rename_i current
    exact ⟨told.pid, told.gid, told.parent, by simp [current]⟩
  · rename_i other
    exact ⟨told.pid, told.gid, told.parent, by simp [other, told.defunc]⟩

/-- A process that is not told keeps what it waits for, its flag and its registers. -/
theorem exit_untold (untold : tellsParent k = true → p ≠ (k.procs k.procCurrent).parent) :
    let k' := (procExit ret k).state
    (k'.procs p).wait = (k.procs p).wait ∧ (k'.procs p).waitPid = (k.procs p).waitPid ∧
      (k'.procs p).isSleeping = (k.procs p).isSleeping ∧
      (k'.procs p).registers = (k.procs p).registers := by
  have same : (reportExit ret k).procs p = k.procs p := by
    cases tells : tellsParent k with
    | false => rw [quiet_report tells]
    | true => rw [told_record tells, if_neg (untold tells)]
  simp only [exit_record, same]
  split
  · exact ⟨rfl, rfl, rfl, rfl⟩
  · exact ⟨rfl, rfl, rfl, rfl⟩

theorem exit_told (tells : tellsParent k = true) :
    ((procExit ret k).state.procs (k.procs k.procCurrent).parent).wait = false := by
  rw [exit_record, told_record tells, if_pos rfl]
  split <;> rfl

end

/-- The parent that is told is one that is asleep in `proc_waitpid`. -/
theorem told_parent (held : Waiting s) (current : s.kernel.procCurrent ≠ 0)
    (tells : tellsParent s.kernel = true) : s.blocked s.parent ≠ none := by
  have listed := (current_listed held.consistent current).1
  simp only [tellsParent, Bool.and_eq_true, decide_eq_true_eq] at tells
  have parent := (held.parents _ listed).resolve_left tells.1.1
  have flag := held.flags _ parent
  rw [tells.1.2] at flag
  rw [Waits.parent, flag]
  simp

/-- A parent that sleeps for this child is told. -/
theorem tells_of_match (held : Waiting s) (waits : s.blocked s.parent = some arg)
    (matched : waitMatches arg (s.kernel.procs s.kernel.procCurrent)
      (s.kernel.procs s.parent) = true) : tellsParent s.kernel = true := by
  have listed := (held.asleep _ (by rw [waits]; simp)).1
  have real : s.parent ≠ 0 := fun null => held.consistent.null_free (null ▸ listed)
  have flag := held.flags _ listed
  rw [waits] at flag
  split at flag
  · rename_i waiting
    cases flag
    simp only [Waits.parent] at real waiting matched
    simp [tellsParent, real, waiting, matched]
  · cases flag

theorem blocked_of_others (untold : tellsParent s.kernel = true → p ≠ s.parent) :
    s.blockedAfterExit p = s.blocked p := by
  unfold Waits.blockedAfterExit
  split
  · rename_i tells
    rw [Function.update_of_ne (untold tells)]
  · rfl

theorem blocked_after_exit (waits : s.blockedAfterExit p = some arg) :
    s.blocked p = some arg ∧ (tellsParent s.kernel = true → p ≠ s.parent) := by
  have untold : tellsParent s.kernel = true → p ≠ s.parent := by
    rintro tells rfl
    simp [Waits.blockedAfterExit, tells] at waits
  rw [blocked_of_others untold] at waits
  exact ⟨waits, untold⟩

theorem reports_of_others (other : p ≠ s.kernel.procCurrent) :
    s.reportsAfterExit p = s.reports p := by
  unfold Waits.reportsAfterExit
  split
  · rw [Function.update_of_ne other]
  · rfl

/-- A process that still runs was not reported before. -/
theorem report_of_current (held : Waiting s) (current : s.kernel.procCurrent ≠ 0) :
    s.reportsAfterExit s.kernel.procCurrent ≤ 1 := by
  have alive := (current_listed held.consistent current).2
  have unreported : s.reports s.kernel.procCurrent = 0 := by
    by_contra reported
    rw [(held.exited _ reported).2] at alive
    cases alive
  unfold Waits.reportsAfterExit
  split
  · rw [Function.update_self, unreported]
  · omega

theorem exit_waiting (held : Waiting s) (current : s.kernel.procCurrent ≠ 0)
    (consistent : Consistent (procExit ret s.kernel).state) :
    Waiting ⟨(procExit ret s.kernel).state, s.blockedAfterExit, s.reportsAfterExit⟩ := by
  have listed := (current_listed held.consistent current).1
  obtain ⟨-, all, next⟩ := report_frame ret s.kernel
  change (procExit ret s.kernel).state.procAll = _ at all
  change (procExit ret s.kernel).state.procNextpid = _ at next
  have kin := exit_kin ret s.kernel
  have untold : ∀ p, _ := fun p => exit_untold (p := p) ret s.kernel
  have told := exit_told ret s.kernel
  generalize (procExit ret s.kernel).state = k' at *
  obtain ⟨parents, pids, distinct⟩ := held.named all next (fun p => (kin p).1) fun p => (kin p).2.2.1
  refine ⟨⟨fun p arg waits child gone => ?_, fun child => ?_⟩, consistent, parents, pids, distinct,
    fun p inP => ?_, fun p waits => ?_, fun p reported => ?_⟩
  · obtain ⟨before, spared⟩ := blocked_after_exit waits
    obtain ⟨member, ofParent, defunct, matched⟩ := gone
    simp only [waitMatches, kin] at ofParent defunct matched
    by_cases this : child = s.kernel.procCurrent
    · subst this
      subst ofParent
      exact absurd rfl (spared (tells_of_match held before matched))
    · simp only [reports_of_others this]
      simp only [this, decide_false, Bool.false_or] at defunct
      exact held.noticed p arg before child ⟨all ▸ member, ofParent, defunct, matched⟩
  · by_cases this : child = s.kernel.procCurrent
    · rw [this]
      exact report_of_current held current
    · simp only [reports_of_others this]
      exact held.once child
  · simp only [all] at inP
    by_cases tells : tellsParent s.kernel = true ∧ p = s.parent
    · obtain ⟨tells, rfl⟩ := tells
      have flag := told tells
      change (k'.procs s.parent).wait = false at flag
      simp [Waits.blockedAfterExit, tells, flag]
    · have spared : tellsParent s.kernel = true → p ≠ s.parent := fun told same => tells ⟨told, same⟩
      obtain ⟨wait, waitPid, -⟩ := untold p spared
      simp only [blocked_of_others spared, wait, waitPid]
      exact held.flags p inP
  · cases after : s.blockedAfterExit p with
    | none => exact absurd after waits
    | some arg =>
      obtain ⟨before, spared⟩ := blocked_after_exit after
      obtain ⟨member, sleeping⟩ := held.asleep p (by rw [before]; simp)
      simp only [all, (untold p spared).2.2.1]
      exact ⟨member, sleeping⟩
  · simp only [all, kin]
    by_cases this : p = s.kernel.procCurrent
    · subst this
      exact ⟨listed, by simp⟩
    · simp only [reports_of_others this] at reported
      simpa [this] using held.exited p reported

theorem waitpid_waiting (held : Waiting s) (meets : Meets s (.waitpid pid stat))
    (ran : step s (.waitpid pid stat) = some t) : Waiting t := by
  obtain ⟨current, rfl⟩ := onlyIf_eq_some ran
  by_cases positive : 0 < pid
  · simp only [Meets, if_pos positive] at meets
    cases found : procFind pid s.kernel with
    | none =>
      have missing : procWaitpid pid stat s.kernel = .ret (-1) s.kernel := by
        simp only [procWaitpid, if_pos positive, found]
      simp only [missing, sleepsFor, reportedAtOnce, if_pos positive, found]
      exact held
    | some proc =>
      cases defunct : (s.kernel.procs proc).defunc with
      | true =>
        have once : reportedAtOnce pid s.kernel = some proc := by
          simp [reportedAtOnce, positive, found, defunct]
        have awake : sleepsFor pid s.kernel = false := by
          simp [sleepsFor, positive, found, defunct]
        simp only [procWaitpid, if_pos positive, found, defunct, if_true, once, awake,
          Bool.false_eq_true, if_false]
        exact report_waiting held current once (meets proc once) _
      | false =>
        have none : reportedAtOnce pid s.kernel = none := by
          simp [reportedAtOnce, positive, found, defunct]
        have sleeps : sleepsFor pid s.kernel = true := by
          simp [sleepsFor, positive, found, defunct]
        simp only [procWaitpid, if_pos positive, found, defunct, Bool.false_eq_true, if_false, none,
          sleeps, if_true, sleepForChild, Exec.state_andThen_ret]
        exact sleep_waiting held current sleeps fun negative => absurd positive negative
  · simp only [Meets, if_neg positive] at meets
    have none : reportedAtOnce pid s.kernel = none := if_neg positive
    have sleeps : sleepsFor pid s.kernel = true := if_neg positive
    simp only [procWaitpid, if_neg positive, none, sleeps, if_true, sleepForChild,
      Exec.state_andThen_ret]
    exact sleep_waiting held current sleeps fun _ => meets

theorem step_waiting (s : Waits) (e : Event) (t : Waits) (held : Waiting s) (meets : Meets s e)
    (ran : step s e = some t) : Waiting t := by
  cases e with
  | create c =>
    obtain ⟨k', created, rfl⟩ := Option.map_eq_some_iff.mp ran
    have exist : ParentsExist s.kernel (.create c) := trivial
    have consistent := step_consistent held.consistent exist created
    obtain ⟨⟨-, fresh, parent⟩, rfl⟩ := onlyIf_eq_some created
    exact create_waiting held consistent fresh parent meets
  | shedule =>
    have exist : ParentsExist s.kernel .shedule := trivial
    have consistent := step_consistent held.consistent exist rfl
    cases ran
    exact shedule_waiting held consistent
  | wake proc =>
    obtain ⟨free, ran⟩ := Option.ite_none_right_eq_some.mp ran
    obtain ⟨k', woken, rfl⟩ := Option.map_eq_some_iff.mp ran
    have exist : ParentsExist s.kernel (.wake proc) := trivial
    have consistent := step_consistent held.consistent exist woken
    obtain ⟨-, rfl⟩ := onlyIf_eq_some woken
    exact wake_waiting held consistent free
  | waitpid pid stat => exact waitpid_waiting held meets ran
  | exit ret =>
    obtain ⟨k', exited, rfl⟩ := Option.map_eq_some_iff.mp ran
    obtain ⟨current, rfl⟩ := onlyIf_eq_some exited
    have listed := (current_listed held.consistent current).1
    have consistent : Consistent (procExit ret s.kernel).state :=
      exit_consistent held.consistent current (held.parents _ listed)
    exact exit_waiting held current consistent

/-- A parent that is not told is not written to. -/
theorem exit_spares (held : Waiting s) (ran : step s (.exit ret) = some t) : SparesParent s t := by
  obtain ⟨k', exited, rfl⟩ := Option.map_eq_some_iff.mp ran
  obtain ⟨current, rfl⟩ := onlyIf_eq_some exited
  intro free
  have quiet : tellsParent s.kernel = false := by
    by_contra tells
    exact told_parent held current (Bool.eq_true_of_not_eq_false tells) free
  constructor
  · exact (exit_untold (p := s.parent) ret s.kernel fun tells => by rw [quiet] at tells; cases tells).2.2.2
  · change (reportExit ret s.kernel).user = _
    rw [quiet_report quiet]

end Steps

/-- In every run in which new processes find `wait` cleared, nobody waits by its id for a
process that was reported before, and nobody waits for any child or a group while such a
child is gone and unreported, the ends of children are handed over, and a parent that does
not wait is left alone. -/
theorem exits_handed_over (k : Kernel) (events : List Event)
    (meets : Along step Meets (start k) events) (ran : run step (start k) events = some s) :
    HandedOver s ∧ ∀ ret t, step s (.exit ret) = some t → SparesParent s t := by
  have held := run_guarded step_waiting (start_waiting k) meets ran
  exact ⟨held.toHandedOver, fun ret t exited => exit_spares held exited⟩

/-- A block of the heap that is all zero. -/
def clearBlock : Proc := { staleBlock with wait := false, waitPid := 0 }

/-- A parent and its child, which exits before the parent waits for any child. -/
def lateParent : List Event :=
  [.create ⟨1, clearBlock, 11, 1, 1, 0, true⟩, .create ⟨2, clearBlock, 12, 1, 1, 1, true⟩, .shedule,
    .shedule, .exit 5, .shedule, .waitpid (-1) 0x1000]

/-- The parent sleeps although its only child has exited, and was not told. -/
theorem exited_child_is_missed : ∃ s, run step (start bootKernel) lateParent = some s ∧
    s.blocked 1 = some (-1) ∧ (s.kernel.procs 2).parent = 1 ∧ (s.kernel.procs 2).defunc = true ∧
    s.reports 2 = 0 ∧ s.kernel.procRunning = [] ∧ ¬ HandedOver s := by
  refine ⟨_, rfl, by decide, by decide, by decide, by decide, by decide, fun handed => ?_⟩
  exact handed.noticed 1 (-1) (by decide) 2 (by decide) (by decide)

/-- The parent waits first and is told. -/
def earlyParent : List Event :=
  [.create ⟨1, clearBlock, 11, 1, 1, 0, true⟩, .create ⟨2, clearBlock, 12, 1, 1, 1, true⟩, .shedule,
    .waitpid (-1) 0x1000, .exit 5]

theorem waiting_parent_is_told : ∃ s, run step (start bootKernel) earlyParent = some s ∧
    s.reports 2 = 1 ∧ s.kernel.procRunning = [1] ∧ s.kernel.user 11 0x1000 = 5 ∧ HandedOver s :=
  ⟨_, rfl, by decide, by decide, by decide,
    (exits_handed_over bootKernel earlyParent (by decide) rfl).1⟩

end MeinOS.ProcmWait
