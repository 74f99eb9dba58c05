import MeinOS.Lib.Runs
import MeinOS.Procm

/-! The three process lists stay in step with the flags of the processes. Every
operation of the process manager is described once by what it does to the lists
and flags; the invariant follows step by step, and then along every run.

The one thing that can break it is a parent pointer that outlived its process:
`proc_destroy` hands the children of a process to the grandparent without putting
them on its children list, so a later `proc_destroy` of the grandparent leaves
them behind with a pointer into freed memory, and `proc_exit` wakes through it. -/
namespace MeinOS.ProcmLists
open Lib Lib.Runs Llist Procm

/-- What C programs can rely on about the lists: no duplicates in `proc_all`,
every living process on exactly one list, the one its flag names, every defunct
process on neither, and nothing else on the lists. -/
structure ListsAgree (k : Kernel) : Prop where
  all_nodup : k.procAll.Nodup
  living : ∀ p ∈ k.procAll, (k.procs p).defunc = false →
    k.procRunning.count p + k.procSleeping.count p = 1 ∧
      (p ∈ k.procSleeping ↔ (k.procs p).isSleeping = true)
  defunct : ∀ p ∈ k.procAll, (k.procs p).defunc = true →
    p ∉ k.procRunning ∧ p ∉ k.procSleeping
  running_all : k.procRunning ⊆ k.procAll
  sleeping_all : k.procSleeping ⊆ k.procAll

/-- The invariant behind `ListsAgree`: membership of both lists in terms of the
flags, and no sleeping defunct process. -/
structure Books (k : Kernel) : Prop where
  all_nodup : k.procAll.Nodup
  null_free : 0 ∉ k.procAll
  running_nodup : k.procRunning.Nodup
  sleeping_nodup : k.procSleeping.Nodup
  mem_running : ∀ p, p ∈ k.procRunning ↔
    p ∈ k.procAll ∧ (k.procs p).defunc = false ∧ (k.procs p).isSleeping = false
  mem_sleeping : ∀ p, p ∈ k.procSleeping ↔
    p ∈ k.procAll ∧ (k.procs p).defunc = false ∧ (k.procs p).isSleeping = true
  defunct_awake : ∀ p ∈ k.procAll, (k.procs p).defunc = true → (k.procs p).isSleeping = false

/-- Between two events the current process, if there is one, is running. -/
structure Consistent (k : Kernel) : Prop extends Books k where
  current_running : k.procCurrent ≠ 0 → k.procCurrent ∈ k.procRunning

theorem Books.lists_agree (held : Books k) : ListsAgree k where
  all_nodup := held.all_nodup
  living := by
    intro p member alive
    cases flag : (k.procs p).isSleeping with
    | true =>
      have onSleeping : p ∈ k.procSleeping := (held.mem_sleeping p).mpr ⟨member, alive, flag⟩
      have offRunning : p ∉ k.procRunning := fun on => by
        simpa [flag] using ((held.mem_running p).mp on).2.2
      simp [List.count_eq_one_of_mem held.sleeping_nodup onSleeping,
        List.count_eq_zero_of_not_mem offRunning, onSleeping]
    | false =>
      have onRunning : p ∈ k.procRunning := (held.mem_running p).mpr ⟨member, alive, flag⟩
      have offSleeping : p ∉ k.procSleeping := fun on => by
        simpa [flag] using ((held.mem_sleeping p).mp on).2.2
      simp [List.count_eq_one_of_mem held.running_nodup onRunning,
        List.count_eq_zero_of_not_mem offSleeping, offSleeping]
  defunct := by
    intro p _ dead
    refine ⟨fun on => ?_, fun on => ?_⟩
    · simpa [dead] using ((held.mem_running p).mp on).2.1
    · simpa [dead] using ((held.mem_sleeping p).mp on).2.1
  running_all := fun p on => ((held.mem_running p).mp on).1
  sleeping_all := fun p on => ((held.mem_sleeping p).mp on).1

/-- The lists and the flags they depend on are the same before and after. -/
structure SameBook (before after : Kernel) : Prop where
  all : after.procAll = before.procAll
  running : after.procRunning = before.procRunning
  sleeping : after.procSleeping = before.procSleeping
  defunc : ∀ p, (after.procs p).defunc = (before.procs p).defunc
  isSleeping : ∀ p, (after.procs p).isSleeping = (before.procs p).isSleeping

theorem SameBook.refl (k : Kernel) : SameBook k k := ⟨rfl, rfl, rfl, fun _ => rfl, fun _ => rfl⟩

theorem SameBook.trans (first : SameBook a b) (second : SameBook b c) : SameBook a c where
  all := second.all.trans first.all
  running := second.running.trans first.running
  sleeping := second.sleeping.trans first.sleeping
  defunc := fun p => (second.defunc p).trans (first.defunc p)
  isSleeping := fun p => (second.isSleeping p).trans (first.isSleeping p)

theorem set_proc_same_book (k : Kernel) (proc : Ptr) {f : Proc → Proc}
    (defunc : ∀ p, (f p).defunc = p.defunc) (isSleeping : ∀ p, (f p).isSleeping = p.isSleeping) :
    SameBook k (k.setProc proc f) where
  all := rfl
  running := rfl
  sleeping := rfl
  defunc := setProc_keeps k proc f Proc.defunc defunc
  isSleeping := setProc_keeps k proc f Proc.isSleeping isSleeping

/-- A change outside the books keeps the invariant. -/
theorem Books.of_same_book (held : Books k) (same : SameBook k k') : Books k' where
  all_nodup := same.all ▸ held.all_nodup
  null_free := same.all ▸ held.null_free
  running_nodup := same.running ▸ held.running_nodup
  sleeping_nodup := same.sleeping ▸ held.sleeping_nodup
  mem_running := fun p => by
    rw [same.running, same.all, same.defunc, same.isSleeping]
    exact held.mem_running p
  mem_sleeping := fun p => by
    rw [same.sleeping, same.all, same.defunc, same.isSleeping]
    exact held.mem_sleeping p
  defunct_awake := fun p => by
    rw [same.all, same.defunc, same.isSleeping]
    exact held.defunct_awake p

theorem Consistent.of_same_book (held : Consistent k) (same : SameBook k k')
    (current : k'.procCurrent = k.procCurrent) : Consistent k' := by
  refine ⟨held.toBooks.of_same_book same, fun some => ?_⟩
  rw [same.running, current]
  exact held.current_running (current ▸ some)

theorem regs_save_same_book (proc : Ptr) (k : Kernel) : SameBook k (procRegsSave proc k) :=
  set_proc_same_book k proc (fun _ => rfl) (fun _ => rfl)

theorem shedule_charge_same_book (k : Kernel) : SameBook k (sheduleCharge k) := by
  unfold sheduleCharge
  split
  · have charged : SameBook k
        (k.setProc k.procCurrent fun p => { p with ticksRem := p.ticksRem - 1 }) :=
      set_proc_same_book k _ (fun _ => rfl) (fun _ => rfl)
    exact { charged with }
  · exact .refl k

theorem shedule_select_same_book (k : Kernel) : SameBook k (sheduleSelect k) := by
  refine ⟨?_, ?_, ?_, select_keeps Proc.defunc (fun _ _ => rfl) k,
    select_keeps Proc.isSleeping (fun _ _ => rfl) k⟩
  all_goals
    unfold sheduleSelect sheduleRefill
    rw [fold_set_proc_eq]
    split <;> rfl

theorem shedule_switch_same_book (old : Ptr) (k : Kernel) : SameBook k (sheduleSwitch old k) := by
  unfold sheduleSwitch
  split
  · split
    · have saved := regs_save_same_book old k
      exact { saved with }
    · exact ⟨rfl, rfl, rfl, fun _ => rfl, fun _ => rfl⟩
  · exact .refl k

/-- The scheduler changes no list and no flag. -/
theorem shedule_same_book (k : Kernel) : SameBook k (procShedule k).state := by
  unfold procShedule
  split
  · split
    · exact .refl k
    · have saved := regs_save_same_book k.procCurrent k
      exact { saved with }
  · exact ((shedule_charge_same_book k).trans (shedule_select_same_book _)).trans
      (shedule_switch_same_book _ _)

/-- The search of `proc_shedule` finds the last process with time. -/
theorem search_spec (k : Kernel) (procs : List Ptr) (found : Ptr) :
    (procs.foldl (fun found p => if 0 < (k.procs p).ticksRem then p else found) found = found ∧
      ∀ p ∈ procs, p ≠ found → (k.procs p).ticksRem = 0) ∨
    (∃ p ∈ procs, 0 < (k.procs p).ticksRem ∧
      procs.foldl (fun found p => if 0 < (k.procs p).ticksRem then p else found) found = p) := by
  induction procs generalizing found with
  | nil => exact .inl ⟨rfl, by simp⟩
  | cons proc procs ih =>
    rw [List.foldl_cons]
    by_cases time : 0 < (k.procs proc).ticksRem
    · rw [if_pos time]
      rcases ih proc with ⟨same, -⟩ | ⟨p, member, left, last⟩
      · exact .inr ⟨proc, List.mem_cons_self, time, same⟩
      · exact .inr ⟨p, List.mem_cons_of_mem _ member, left, last⟩
    · rw [if_neg time]
      rcases ih found with ⟨same, none⟩ | ⟨p, member, left, last⟩
      · refine .inl ⟨same, fun p member other => ?_⟩
        rcases List.mem_cons.mp member with rfl | member
        · bv_omega
        · exact none p member other
      · exact .inr ⟨p, List.mem_cons_of_mem _ member, left, last⟩

/-- The search finds nothing or a running process. -/
theorem shedule_search_mem (k : Kernel) (found : sheduleSearch k ≠ 0) :
    sheduleSearch k ∈ k.procRunning := by
  obtain ⟨none, -⟩ | ⟨p, running, -, last⟩ := search_spec k k.procRunning 0
  · exact absurd none found
  · rw [sheduleSearch, last]
    exact running

@[simp] theorem shedule_switch_current (old : Ptr) (k : Kernel) :
    (sheduleSwitch old k).procCurrent = k.procCurrent := by
  unfold sheduleSwitch
  split
  · split <;> rfl
  · rfl

theorem shedule_select_current (k : Kernel) (some : k.procRunning ≠ []) :
    (sheduleSelect k).procCurrent ∈ k.procRunning := by
  unfold sheduleSelect
  split
  · exact shedule_search_mem k ‹_›
  · cases shape : k.procRunning with
    | nil => exact absurd shape some
    | cons first rest => simp [llistGet]

/-- With a running process the scheduler returns, and the process it selected is
a running one. -/
theorem shedule_selects (k : Kernel) (some : k.procRunning ≠ []) :
    procShedule k = .ret () (procShedule k).state ∧
      (procShedule k).state.procCurrent ∈ k.procRunning := by
  have shape : procShedule k =
      .ret () (sheduleSwitch k.procCurrent (sheduleSelect (sheduleCharge k))) := by
    unfold procShedule
    rw [if_neg (by simpa using some)]
  have charged := (shedule_charge_same_book k).running
  rw [shape, Exec.state_ret, shedule_switch_current, ← charged]
  exact ⟨rfl, shedule_select_current _ (charged ▸ some)⟩

/-- The scheduler restores the whole invariant: it leaves no current process or
a running one. -/
theorem shedule_consistent (held : Books k)
    (stopped : k.procRunning = [] → k.procSleeping = [] → k.procCurrent = 0) :
    Consistent (procShedule k).state := by
  have same := shedule_same_book k
  refine ⟨held.of_same_book same, fun selected => ?_⟩
  rw [same.running]
  by_cases empty : k.procRunning = []
  · refine absurd ?_ selected
    unfold procShedule
    rw [empty]
    simp only [List.isEmpty_nil, ↓reduceIte]
    split
    · exact stopped empty (by simpa using ‹k.procSleeping.isEmpty = true›)
    · rfl
  · exact (shedule_selects k empty).2

/-- With nobody on `proc_running` there is no current process. -/
theorem Consistent.stopped (held : Consistent k) (none : k.procRunning = []) : k.procCurrent = 0 := by
  by_contra some
  simpa [none] using held.current_running some

theorem sleep_sleeps (proc : Ptr) (k : Kernel) : ((procSleep proc k).state.procs proc).isSleeping = true := by
  have moved : ((sleepMove proc k).procs proc).isSleeping = true := by
    simp [sleepMove]
  unfold procSleep
  split
  · assumption
  · split
    · rw [(shedule_same_book _).isSleeping, moved]
    · exact moved

theorem procWake_eq (asleep : (k.procs proc).isSleeping = true) : procWake proc k =
    { k.setProc proc (fun p => { p with isSleeping := false }) with
      procSleeping := k.procSleeping.erase proc
      procRunning := proc :: k.procRunning } := by
  simp only [procWake, asleep, ↓reduceIte, llist_remove_find, llistPush]

/-- Waking any process, awake, asleep or defunct, keeps the invariant. -/
theorem wake_consistent (held : Consistent k) (member : proc ∈ k.procAll) :
    Consistent (procWake proc k) := by
  cases flag : (k.procs proc).isSleeping with
  | false => simpa [procWake, flag] using held
  | true =>
    have alive : (k.procs proc).defunc = false := by
      cases dead : (k.procs proc).defunc with
      | false => rfl
      | true => simpa [flag] using held.defunct_awake proc member dead
    have offRunning : proc ∉ k.procRunning := fun on => by
      simpa [flag] using ((held.mem_running proc).mp on).2.2
    rw [procWake_eq flag]
    refine ⟨⟨held.all_nodup, held.null_free, List.nodup_cons.mpr ⟨offRunning, held.running_nodup⟩,
      held.sleeping_nodup.erase proc, fun p => ?_, fun p => ?_, fun p => ?_⟩, fun current => ?_⟩
    · by_cases same : p = proc
      · subst p
        simp [member, alive]
      · simpa [same, setProc_other k proc _ same] using held.mem_running p
    · rw [held.sleeping_nodup.mem_erase_iff]
      by_cases same : p = proc
      · subst p
        simp
      · simpa [same, setProc_other k proc _ same] using held.mem_sleeping p
    · by_cases same : p = proc
      · subst p
        simp
      · simpa [setProc_other k proc _ same] using held.defunct_awake p
    · exact List.mem_cons_of_mem _ (held.current_running current)

/-- Moving a running process to the sleeping list keeps the books. -/
theorem sleep_move_books (held : Books k) (on : proc ∈ k.procRunning) :
    Books (sleepMove proc k) := by
  simp only [sleepMove, llist_remove_find, llistPush]
  obtain ⟨member, alive, awake⟩ := (held.mem_running proc).mp on
  have offSleeping : proc ∉ k.procSleeping := fun asleep => by
    simpa [awake] using ((held.mem_sleeping proc).mp asleep).2.2
  refine ⟨held.all_nodup, held.null_free, held.running_nodup.erase proc,
    List.nodup_cons.mpr ⟨offSleeping, held.sleeping_nodup⟩, fun p => ?_, fun p => ?_, fun p => ?_⟩
  · rw [held.running_nodup.mem_erase_iff]
    by_cases same : p = proc
    · subst p
      simp
    · simpa [same, setProc_other k proc _ same] using held.mem_running p
  · by_cases same : p = proc
    · subst p
      simp [member, alive]
    · simpa [same, setProc_other k proc _ same] using held.mem_sleeping p
  · by_cases same : p = proc
    · subst p
      simp [alive]
    · simpa [setProc_other k proc _ same] using held.defunct_awake p

/-- A living process that sleeps leaves the invariant intact, also when the
machine goes idle because it was the last one. -/
theorem sleep_consistent (held : Consistent k) (member : proc ∈ k.procAll)
    (alive : (k.procs proc).defunc = false) : Consistent (procSleep proc k).state := by
  unfold procSleep
  cases awake : (k.procs proc).isSleeping with
  | true => simpa using held
  | false =>
    have on : proc ∈ k.procRunning := (held.mem_running proc).mpr ⟨member, alive, awake⟩
    have moved : Books (sleepMove proc k) := sleep_move_books held.toBooks on
    simp only [Bool.false_eq_true, ↓reduceIte]
    split
    · exact shedule_consistent moved (by simp [sleepMove, llistPush])
    · rename_i other
      refine ⟨moved, fun some => ?_⟩
      simp only [sleepMove, llist_remove_find, setProc_current, Exec.state_ret] at some ⊢
      exact held.running_nodup.mem_erase_iff.mpr ⟨Ne.symm other, held.current_running some⟩

@[simp] theorem sleep_all (proc : Ptr) (k : Kernel) : (procSleep proc k).state.procAll = k.procAll := by
  rw [procSleep]
  split
  · rfl
  · split
    · exact (shedule_same_book _).all
    · rfl

/-- The current process exists and lives. -/
theorem current_listed (held : Consistent k) (current : k.procCurrent ≠ 0) :
    k.procCurrent ∈ k.procAll ∧ (k.procs k.procCurrent).defunc = false := by
  obtain ⟨listed, alive, -⟩ := (held.mem_running _).mp (held.current_running current)
  exact ⟨listed, alive⟩

/-- `proc_sleep` sets no flag but that of the process it is called for. -/
theorem sleep_flags (k : Kernel) (other : p ≠ proc) :
    ((procSleep proc k).state.procs p).isSleeping = (k.procs p).isSleeping := by
  have moved : ((sleepMove proc k).procs p).isSleeping = (k.procs p).isSleeping := by
    simp only [sleepMove, setProc_other k proc _ other]
  unfold procSleep
  split
  · rfl
  · split
    · rw [(shedule_same_book _).isSleeping, moved]
    · exact moved

@[simp] theorem create_current (c : Creation) (k : Kernel) :
    (procCreate c k).procCurrent = k.procCurrent := by
  unfold procCreate
  simp only [setProc_current]
  split <;> rfl

/-- A new process goes on the list its flag names. -/
theorem create_consistent (held : Consistent k) (nonnull : c.new ≠ 0) (fresh : c.new ∉ k.procAll) :
    Consistent (procCreate c k) := by
  have flags : ∀ p, p ≠ c.new →
      ((procCreate c k).procs p).defunc = (k.procs p).defunc ∧
        ((procCreate c k).procs p).isSleeping = (k.procs p).isSleeping := fun p other =>
    ⟨create_keeps Proc.defunc (fun _ _ => rfl) c k other,
      create_keeps Proc.isSleeping (fun _ _ => rfl) c k other⟩
  have record : ((procCreate c k).procs c.new).defunc = false ∧
      ((procCreate c k).procs c.new).isSleeping = !c.running := by
    simp [create_record, Creation.record]
  have offRunning : c.new ∉ k.procRunning := fun on => fresh ((held.mem_running _).mp on).1
  have offSleeping : c.new ∉ k.procSleeping := fun on => fresh ((held.mem_sleeping _).mp on).1
  have all : (procCreate c k).procAll = c.new :: k.procAll := rfl
  have running : (procCreate c k).procRunning =
      if c.running then c.new :: k.procRunning else k.procRunning := rfl
  have sleeping : (procCreate c k).procSleeping =
      if c.running then k.procSleeping else c.new :: k.procSleeping := rfl
  refine ⟨⟨?_, ?_, ?_, ?_, fun p => ?_, fun p => ?_, fun p => ?_⟩, fun current => ?_⟩
  · rw [all]
    exact List.nodup_cons.mpr ⟨fresh, held.all_nodup⟩
  · rw [all, List.mem_cons]
    rintro (same | old)
    · exact nonnull same.symm
    · exact held.null_free old
  · rw [running]
    split
    · exact List.nodup_cons.mpr ⟨offRunning, held.running_nodup⟩
    · exact held.running_nodup
  · rw [sleeping]
    split
    · exact held.sleeping_nodup
    · exact List.nodup_cons.mpr ⟨offSleeping, held.sleeping_nodup⟩
  · by_cases same : p = c.new
    · subst p
      cases kind : c.running <;> simp [running, all, record, kind, offRunning]
    · rw [(flags p same).1, (flags p same).2, running, all]
      cases c.running <;> simpa [same] using held.mem_running p
  · by_cases same : p = c.new
    · subst p
      cases kind : c.running <;> simp [sleeping, all, record, kind, offSleeping]
    · rw [(flags p same).1, (flags p same).2, sleeping, all]
      cases c.running <;> simpa [same] using held.mem_sleeping p
  · by_cases same : p = c.new
    · subst p
      simp [record]
    · rw [(flags p same).1, (flags p same).2, all]
      simpa [same] using held.defunct_awake p
  · rw [create_current] at current ⊢
    have old := held.current_running current
    rw [running]
    split
    · exact List.mem_cons_of_mem _ old
    · exact old

/-- `proc_destroy` writes parent pointers and children lists, which no list of
the scheduler depends on, and takes the process off every list. -/
theorem destroy_books (proc : Ptr) (k : Kernel) :
    (procDestroy proc k).procAll = k.procAll.erase proc ∧
    (procDestroy proc k).procRunning = k.procRunning.erase proc ∧
    (procDestroy proc k).procSleeping =
      (if proc ∈ k.procRunning then k.procSleeping else k.procSleeping.erase proc) ∧
    (procDestroy proc k).procCurrent = k.procCurrent ∧
    ∀ p, ((procDestroy proc k).procs p).defunc = (k.procs p).defunc ∧
      ((procDestroy proc k).procs p).isSleeping = (k.procs p).isSleeping := by
  have lists : (procDestroy proc k).procAll = k.procAll.erase proc ∧ (procDestroy proc k).procSleeping =
      if proc ∈ k.procRunning then k.procSleeping else k.procSleeping.erase proc := by
    simp only [procDestroy, llist_remove_find]
    rw [reparent_eq]
    split
    all_goals
      refine ⟨rfl, ?_⟩
      simp only [setProc_running, setProc_sleeping]
      split <;> simp_all
  refine ⟨lists.1, by rw [destroy_eq], lists.2, by rw [destroy_eq], fun p => ⟨?_, ?_⟩⟩
  · exact destroy_keeps Proc.defunc (fun _ _ => rfl) (fun _ _ => rfl) proc k p
  · exact destroy_keeps Proc.isSleeping (fun _ _ => rfl) (fun _ _ => rfl) proc k p

theorem destroy_consistent (held : Consistent k) (other : proc ≠ k.procCurrent) :
    Consistent (procDestroy proc k) := by
  obtain ⟨all, running, sleeping, current, flags⟩ := destroy_books proc k
  have sleepingErased : (procDestroy proc k).procSleeping = k.procSleeping.erase proc := by
    rw [sleeping]
    split
    · rename_i on
      refine (List.erase_of_not_mem fun asleep => ?_).symm
      have awake := ((held.mem_running proc).mp on).2.2
      simpa [awake] using ((held.mem_sleeping proc).mp asleep).2.2
    · rfl
  refine ⟨⟨?_, ?_, ?_, ?_, fun p => ?_, fun p => ?_, fun p => ?_⟩, fun some => ?_⟩
  · rw [all]
    exact held.all_nodup.erase proc
  · rw [all]
    exact fun null => held.null_free (List.mem_of_mem_erase null)
  · rw [running]
    exact held.running_nodup.erase proc
  · rw [sleepingErased]
    exact held.sleeping_nodup.erase proc
  · rw [(flags p).1, (flags p).2, running, all, held.running_nodup.mem_erase_iff,
      held.all_nodup.mem_erase_iff, held.mem_running p, and_assoc]
  · rw [(flags p).1, (flags p).2, sleepingErased, all, held.sleeping_nodup.mem_erase_iff,
      held.all_nodup.mem_erase_iff, held.mem_sleeping p, and_assoc]
  · rw [(flags p).1, (flags p).2, all]
    exact fun member => held.defunct_awake p (List.mem_of_mem_erase member)
  · rw [running, current]
    rw [current] at some
    exact (held.running_nodup.mem_erase_iff).mpr ⟨Ne.symm other, held.current_running some⟩

/-- The parent pointer of a process is NULL or names a process that still exists. -/
def ParentExists (k : Kernel) (proc : Ptr) : Prop :=
  (k.procs proc).parent = 0 ∨ (k.procs proc).parent ∈ k.procAll

theorem store_status_same_book (parent : Ptr) (ret : Int) (k : Kernel) :
    SameBook k (storeStatus parent ret k) ∧ (storeStatus parent ret k).procCurrent = k.procCurrent ∧
      (storeStatus parent ret k).procNextpid = k.procNextpid := by
  unfold storeStatus
  split
  · exact ⟨⟨rfl, rfl, rfl, fun _ => rfl, fun _ => rfl⟩, rfl, rfl⟩
  · exact ⟨.refl k, rfl, rfl⟩

@[simp] theorem wake_current (proc : Ptr) (k : Kernel) :
    (procWake proc k).procCurrent = k.procCurrent := by
  unfold procWake
  split <;> rfl

@[simp] theorem wake_all (proc : Ptr) (k : Kernel) : (procWake proc k).procAll = k.procAll := by
  unfold procWake
  split <;> rfl

/-- A report is a wake-up of the parent, after writes that no list depends on. -/
theorem report_exit_cases (ret : Int) (k : Kernel) : reportExit ret k = k ∨
    ∃ m, SameBook k m ∧ m.procCurrent = k.procCurrent ∧ m.procNextpid = k.procNextpid ∧
      (k.procs k.procCurrent).parent ≠ 0 ∧ reportExit ret k = procWake (k.procs k.procCurrent).parent m := by
  unfold reportExit
  simp only
  split
  · rename_i waits
    simp only [Bool.and_eq_true, decide_eq_true_eq] at waits
    generalize (k.procs k.procCurrent).parent = q at waits ⊢
    have first : SameBook k (k.setProc q fun p => { p with
        registers := { p.registers with eax := BitVec.ofInt 32 (k.procs k.procCurrent).pid } }) :=
      set_proc_same_book k q (fun _ => rfl) (fun _ => rfl)
    obtain ⟨second, current, next⟩ := store_status_same_book q ret (k.setProc q fun p => { p with
        registers := { p.registers with eax := BitVec.ofInt 32 (k.procs k.procCurrent).pid } })
    generalize storeStatus q ret _ = m at second current next ⊢
    have third : SameBook m (m.setProc q fun p => { p with wait := false }) :=
      set_proc_same_book m q (fun _ => rfl) (fun _ => rfl)
    exact .inr ⟨_, (first.trans second).trans third, current, next, waits.1.1, rfl⟩
  · exact .inl rfl

theorem report_exit_consistent (ret : Int) (held : Consistent k)
    (parent : ParentExists k k.procCurrent) :
    Consistent (reportExit ret k) ∧ (reportExit ret k).procCurrent = k.procCurrent ∧
      (reportExit ret k).procAll = k.procAll := by
  rcases report_exit_cases ret k with same | ⟨m, same, current, -, some, woken⟩
  · rw [same]
    exact ⟨held, rfl, rfl⟩
  · rw [woken, wake_current, wake_all]
    have member := same.all ▸ parent.resolve_left some
    exact ⟨wake_consistent (held.of_same_book same current) member, current, same.all⟩

/-- The end of a process takes it off the running list and marks it defunct. -/
theorem exit_consistent (held : Consistent k) (current : k.procCurrent ≠ 0)
    (parent : ParentExists k k.procCurrent) : Consistent (procExit ret k).state := by
  obtain ⟨reported, same, -⟩ := report_exit_consistent ret held parent
  unfold procExit
  generalize reportExit ret k = m at reported same
  have on : m.procCurrent ∈ m.procRunning := reported.current_running (same ▸ current)
  obtain ⟨member, alive, awake⟩ := (reported.mem_running _).mp on
  simp only [Exec.state_idle, llist_remove_find, setProc_running, setProc_current]
  generalize m.procCurrent = proc at on member alive awake ⊢
  refine ⟨⟨reported.all_nodup, reported.null_free, reported.running_nodup.erase proc,
    reported.sleeping_nodup, fun p => ?_, fun p => ?_, fun p => ?_⟩, fun some => absurd rfl some⟩
  · rw [reported.running_nodup.mem_erase_iff]
    by_cases same : p = proc
    · subst p
      simp
    · simpa [same, setProc_other m proc _ same] using reported.mem_running p
  · by_cases same : p = proc
    · subst p
      simp [reported.mem_sleeping, alive, awake]
    · simpa [setProc_other m proc _ same] using reported.mem_sleeping p
  · by_cases same : p = proc
    · subst p
      simp [awake]
    · simpa [setProc_other m proc _ same] using reported.defunct_awake p

/-- The events of the process manager. -/
inductive Event where
  | create (c : Creation)
  | destroy (proc : Ptr)
  | sleep
  | wake (proc : Ptr)
  | shedule
  | exit (ret : Int)
  deriving DecidableEq

/-- One event. `malloc` hands out memory of no existing process, a parent is NULL
or exists, only processes that exist are woken or destroyed, the destroyed one is
not the current one, and only the current process sleeps or exits. -/
def step (k : Kernel) : Event → Option Kernel
  | .create c =>
    onlyIf (c.new ≠ 0 ∧ c.new ∉ k.procAll ∧ (c.parent = 0 ∨ c.parent ∈ k.procAll)) (procCreate c k)
  | .destroy proc => onlyIf (proc ∈ k.procAll ∧ proc ≠ k.procCurrent) (procDestroy proc k)
  | .sleep => onlyIf (k.procCurrent ≠ 0) (procSleep k.procCurrent k).state
  | .wake proc => onlyIf (proc ∈ k.procAll) (procWake proc k)
  | .shedule => some (procShedule k).state
  | .exit ret => onlyIf (k.procCurrent ≠ 0) (procExit ret k).state

/-- The process that exits or is destroyed has no parent or one that exists. -/
def ParentsExist (k : Kernel) : Event → Prop
  | .exit _ => ParentExists k k.procCurrent
  | .destroy proc => ParentExists k proc
  | _ => True

instance (k : Kernel) : (event : Event) → Decidable (ParentsExist k event)
  | .exit _ | .destroy _ => inferInstanceAs (Decidable (_ ∨ _))
  | .create _ | .sleep | .wake _ | .shedule => isTrue trivial

/-- One step keeps the invariant. -/
theorem step_consistent (held : Consistent k) (parents : ParentsExist k event)
    (ran : step k event = some k') : Consistent k' := by
  cases event with
  | create c =>
    obtain ⟨⟨nonnull, fresh, -⟩, rfl⟩ := onlyIf_eq_some ran
    exact create_consistent held nonnull fresh
  | destroy proc =>
    obtain ⟨⟨-, other⟩, rfl⟩ := onlyIf_eq_some ran
    exact destroy_consistent held other
  | sleep =>
    obtain ⟨current, rfl⟩ := onlyIf_eq_some ran
    obtain ⟨member, alive⟩ := current_listed held current
    exact sleep_consistent held member alive
  | wake proc =>
    obtain ⟨member, rfl⟩ := onlyIf_eq_some ran
    exact wake_consistent held member
  | shedule =>
    cases ran
    exact shedule_consistent held.toBooks fun empty _ => held.stopped empty
  | exit ret =>
    obtain ⟨current, rfl⟩ := onlyIf_eq_some ran
    exact exit_consistent held current parents

theorem init_consistent (k : Kernel) : Consistent (procInit k) := by
  refine ⟨⟨?_, ?_, ?_, ?_, ?_, ?_, ?_⟩, ?_⟩ <;> simp [procInit]

/-- In every run from `proc_init` in which no process that exits or is destroyed
has a parent pointer to a destroyed process, the lists agree with the flags in
every state. -/
theorem process_lists_agree (k : Kernel) (events : List Event)
    (parents : Along step ParentsExist (procInit k) events)
    (ran : run step (procInit k) events = some k') : ListsAgree k' :=
  (run_guarded (fun _ _ _ => step_consistent) (init_consistent k) parents ran).lists_agree

/-- A block of the heap in which the word that becomes `wait` is not zero. -/
def staleBlock : Proc where
  pid := 0
  uid := 0
  gid := 0
  parent := 0
  children := []
  registers := initialRegisters
  pagedir := 0
  nice := 0
  ticksRem := 0
  isSleeping := false
  defunc := false
  ret := 0
  wait := true
  waitPid := -1
  waitStat := 0

/-- The machine before `proc_init`. -/
def bootKernel : Kernel where
  procs := fun _ => staleBlock
  procAll := []
  procRunning := []
  procSleeping := []
  procNextpid := 0
  procCurrent := 0
  curregs := initialRegisters
  curpd := 0
  user := fun _ _ => 0

/-- A grandparent, a parent and a running child; the child, a system process,
destroys the parent and then the grandparent, and exits. -/
def orphanRun : List Event :=
  [.create ⟨1, staleBlock, 11, 1, 1, 0, false⟩, .create ⟨2, staleBlock, 12, 1, 1, 1, false⟩,
    .create ⟨3, staleBlock, 13, 1, 1, 2, true⟩, .shedule, .destroy 2, .destroy 1, .exit 0]

/-- The exit wakes the destroyed grandparent, which is then on `proc_running`
and no longer in `proc_all`. -/
theorem orphan_exit_wakes_freed_process :
    ∃ k', run step (procInit bootKernel) orphanRun = some k' ∧
      k'.procAll = [3] ∧ k'.procRunning = [1] ∧ ¬ ListsAgree k' := by
  refine ⟨_, rfl, rfl, rfl, fun agree => ?_⟩
  have dangling := agree.running_all (show 1 ∈ [1] from List.mem_cons_self)
  exact absurd dangling (by decide)

/-- Two processes that are created, scheduled, sleep and wake; the child exits
while its parent exists. -/
def orderlyRun : List Event :=
  [.create ⟨1, staleBlock, 11, 1, 1, 0, true⟩, .create ⟨2, staleBlock, 12, 1, 1, 1, true⟩,
    .shedule, .sleep, .wake 2, .shedule, .exit 0]

theorem orderly_run_lists_agree :
    ∃ k', run step (procInit bootKernel) orderlyRun = some k' ∧ ListsAgree k' :=
  ⟨_, rfl, process_lists_agree bootKernel orderlyRun (by decide) rfl⟩

end MeinOS.ProcmLists
