import MeinOS.ProcmLists

/-! The rounds of the scheduler. Between two refills of the time slices every
process that stays on the running list is selected exactly once, whatever
sleeps, wakes or is created meanwhile, and the process that runs always has a
tick left to be charged. -/
namespace MeinOS.ProcmRounds
open Lib Lib.Runs Llist Procm ProcmLists

/-- The events of a round. -/
inductive Event where
  | shedule
  | sleep (proc : Ptr)
  | wake (proc : Ptr)
  | create (c : Creation)
  deriving DecidableEq

/-- One event; processes that sleep or wake exist, and a sleeping one has not
exited. -/
def step (k : Kernel) : Event → Option Kernel
  | .shedule => some (procShedule k).state
  | .sleep proc =>
    onlyIf (proc ∈ k.procAll ∧ (k.procs proc).defunc = false) (procSleep proc k).state
  | .wake proc => onlyIf (proc ∈ k.procAll) (procWake proc k)
  | .create c =>
    onlyIf (c.new ≠ 0 ∧ c.new ∉ k.procAll ∧ (c.parent = 0 ∨ c.parent ∈ k.procAll)) (procCreate c k)

/-- The state in which an event enters `proc_shedule` with a process to run. -/
def entry (k : Kernel) : Event → Option Kernel
  | .shedule => onlyIf (k.procRunning ≠ []) k
  | .sleep proc =>
    onlyIf ((k.procs proc).isSleeping = false ∧ proc = k.procCurrent ∧
      (sleepMove proc k).procRunning ≠ []) (sleepMove proc k)
  | _ => none

/-- The event refills the time slices. -/
def Refills (k : Kernel) (event : Event) : Prop :=
  ∃ m, entry k event = some m ∧ sheduleSearch (sheduleCharge m) = 0

/-- The event selects this process. -/
def Selects (k : Kernel) (event : Event) (proc : Ptr) : Prop :=
  ∃ m, entry k event = some m ∧ (procShedule m).state.procCurrent = proc

instance (k : Kernel) (event : Event) : Decidable (Refills k event) :=
  match found : entry k event with
  | none => isFalse fun ⟨_, entered, _⟩ => by simp [found] at entered
  | some m => decidable_of_iff (sheduleSearch (sheduleCharge m) = 0) (by simp [Refills, found])

instance (k : Kernel) (event : Event) (proc : Ptr) : Decidable (Selects k event proc) :=
  match found : entry k event with
  | none => isFalse fun ⟨_, entered, _⟩ => by simp [found] at entered
  | some m => decidable_of_iff ((procShedule m).state.procCurrent = proc) (by simp [Selects, found])

/-- How often a process is selected in the course of a run. -/
def selections (proc : Ptr) : Kernel → List Event → Nat
  | _, [] => 0
  | k, event :: events => (if Selects k event proc then 1 else 0) +
    match step k event with
    | none => 0
    | some k' => selections proc k' events

theorem charge_other {p : Ptr} (other : p ≠ k.procCurrent) :
    (sheduleCharge k).procs p = k.procs p := by
  unfold sheduleCharge
  split
  · have kept := setProc_other k k.procCurrent (fun p => { p with ticksRem := p.ticksRem - 1 }) other
    exact kept
  · rfl

theorem charge_current (some : k.procCurrent ≠ 0) :
    ((sheduleCharge k).procs k.procCurrent).ticksRem = (k.procs k.procCurrent).ticksRem - 1 := by
  simp [sheduleCharge, some]

/-- The search finds a process with time, or no running process has any. -/
theorem search_zero (null : 0 ∉ k.procRunning) (none : sheduleSearch k = 0) :
    ∀ p ∈ k.procRunning, (k.procs p).ticksRem = 0 := by
  intro p member
  rcases search_spec k k.procRunning 0 with ⟨-, spent⟩ | ⟨q, running, -, found⟩
  · exact spent p member (fun same => null (same ▸ member))
  · exact absurd (found.symm.trans none ▸ running) null

theorem search_found (found : sheduleSearch k ≠ 0) :
    0 < (k.procs (sheduleSearch k)).ticksRem := by
  rcases search_spec k k.procRunning 0 with ⟨none, -⟩ | ⟨q, -, time, same⟩
  · exact absurd none found
  · have named : sheduleSearch k = q := same
    exact named ▸ time

private theorem fold_refill (procs : List Ptr) (k : Kernel) (p : Ptr) :
    ((procs.foldl (fun k q => k.setProc q fun r => { r with ticksRem := nice2ticks r.nice }) k).procs
      p).ticksRem = if p ∈ procs then 1 else (k.procs p).ticksRem := by
  induction procs generalizing k with
  | nil => simp
  | cons q procs ih =>
    rw [List.foldl_cons, ih]
    by_cases later : p ∈ procs
    · simp [later]
    · by_cases same : p = q
      · subst p
        simp [later, nice2ticks]
      · simp [later, same, setProc_other k q _ same]

/-- A refill gives every running process one tick. -/
theorem refill_ticks (k : Kernel) (p : Ptr) :
    ((sheduleRefill k).procs p).ticksRem =
      if p ∈ k.procRunning then 1 else (k.procs p).ticksRem := fold_refill ..

section
variable {k : Kernel} (some : k.procRunning ≠ [])
include some

theorem shedule_eq : (procShedule k).state =
    sheduleSwitch k.procCurrent (sheduleSelect (sheduleCharge k)) := by
  unfold procShedule
  rw [if_neg (by simpa using some), Exec.state_ret]

/-- Without a refill the scheduler only charges the process that ran. -/
theorem shedule_without_refill (found : sheduleSearch (sheduleCharge k) ≠ 0) :
    (procShedule k).state.procCurrent = sheduleSearch (sheduleCharge k) ∧
      ∀ p, ((procShedule k).state.procs p).ticksRem = ((sheduleCharge k).procs p).ticksRem := by
  rw [shedule_eq some, shedule_switch_current]
  refine ⟨by simp [sheduleSelect, found], fun p => ?_⟩
  rw [switch_keeps Proc.ticksRem fun _ _ => rfl]
  simp [sheduleSelect, found]

/-- With a refill every running process has a tick. -/
theorem shedule_with_refill (none : sheduleSearch (sheduleCharge k) = 0) :
    ∀ p ∈ k.procRunning, ((procShedule k).state.procs p).ticksRem = 1 := by
  intro p member
  have listed : p ∈ (sheduleCharge k).procRunning := by
    rw [(shedule_charge_same_book k).running]
    exact member
  have filled : ((sheduleRefill (sheduleCharge k)).procs p).ticksRem = 1 := by
    rw [refill_ticks, if_pos listed]
  rw [shedule_eq some, switch_keeps Proc.ticksRem fun _ _ => rfl]
  simpa [sheduleSelect, none] using filled

/-- The process the scheduler selects has a tick left. -/
theorem shedule_selected_has_time :
    0 < ((procShedule k).state.procs (procShedule k).state.procCurrent).ticksRem := by
  by_cases none : sheduleSearch (sheduleCharge k) = 0
  · rw [shedule_with_refill some none _ (shedule_selects k some).2]
    decide
  · obtain ⟨selected, ticks⟩ := shedule_without_refill some none
    rw [ticks, selected]
    exact search_found none

end

/-- The step leaves the scheduler alone: no existing process gains or loses a
tick, and the current process stays unless nothing is left to run. -/
structure Quiet (k k' : Kernel) : Prop where
  ticks : ∀ p ∈ k.procAll, (k'.procs p).ticksRem = (k.procs p).ticksRem
  current : k'.procCurrent = k.procCurrent ∨ k'.procCurrent = 0 ∧ k'.procRunning = []

/-- The scheduler is entered in state `m`, which differs from `k` at most by the
current process having gone to sleep. -/
structure Enters (k m : Kernel) : Prop where
  books : Books m
  some : m.procRunning ≠ []
  kept : ∀ p ∈ k.procRunning, p ≠ k.procCurrent → p ∈ m.procRunning
  current : m.procCurrent = k.procCurrent
  ticks : ∀ p, (m.procs p).ticksRem = (k.procs p).ticksRem

theorem sleep_move_ticks (proc : Ptr) (k : Kernel) (p : Ptr) :
    ((sleepMove proc k).procs p).ticksRem = (k.procs p).ticksRem :=
  setProc_keeps k proc (fun p => { p with isSleeping := true }) Proc.ticksRem (fun _ => rfl) p

/-- Without a running process the scheduler leaves the ticks alone. -/
theorem shedule_idles (none : k.procRunning = [])
    (stopped : k.procSleeping = [] → k.procCurrent = 0) :
    (procShedule k).state.procCurrent = 0 ∧
      ∀ p, ((procShedule k).state.procs p).ticksRem = (k.procs p).ticksRem := by
  unfold procShedule
  rw [if_pos (by simp [none])]
  split
  · exact ⟨stopped (by simpa using ‹k.procSleeping.isEmpty = true›), fun _ => rfl⟩
  · exact ⟨rfl, regs_save_keeps Proc.ticksRem (fun _ _ => rfl) k.procCurrent k⟩

theorem step_consistent (held : Consistent k) (ran : step k event = some k') :
    Consistent k' := by
  cases event with
  | shedule =>
    cases ran
    exact shedule_consistent held.toBooks fun empty _ => held.stopped empty
  | sleep proc =>
    obtain ⟨⟨member, alive⟩, rfl⟩ := onlyIf_eq_some ran
    exact sleep_consistent held member alive
  | wake proc =>
    obtain ⟨member, rfl⟩ := onlyIf_eq_some ran
    exact wake_consistent held member
  | create c =>
    obtain ⟨⟨nonnull, fresh, -⟩, rfl⟩ := onlyIf_eq_some ran
    exact create_consistent held nonnull fresh

private theorem idle_quiet (books : SameBook m (procShedule m).state)
    (ticks : ∀ p, (m.procs p).ticksRem = (k.procs p).ticksRem) (none : m.procRunning = [])
    (stopped : m.procSleeping = [] → m.procCurrent = 0) : Quiet k (procShedule m).state := by
  obtain ⟨current, same⟩ := shedule_idles none stopped
  refine ⟨fun p _ => (same p).trans (ticks p), .inr ⟨current, ?_⟩⟩
  rw [books.running, none]

/-- All a step can do: it leaves the scheduler alone, or it enters it. -/
theorem step_cases (held : Consistent k) (ran : step k event = some k') :
    (entry k event = none ∧ Quiet k k') ∨
      ∃ m, entry k event = some m ∧ k' = (procShedule m).state ∧ Enters k m := by
  cases event with
  | shedule =>
    cases ran
    by_cases empty : k.procRunning = []
    · refine .inl ⟨by simp [entry, onlyIf, empty], ?_⟩
      exact idle_quiet (shedule_same_book k) (fun _ => rfl) empty fun _ => held.stopped empty
    · exact .inr ⟨k, by simp [entry, onlyIf, empty], rfl,
        held.toBooks, empty, fun _ on _ => on, rfl, fun _ => rfl⟩
  | sleep proc =>
    obtain ⟨⟨member, alive⟩, rfl⟩ := onlyIf_eq_some ran
    unfold procSleep
    cases awake : (k.procs proc).isSleeping with
    | true => exact .inl ⟨by simp [entry, onlyIf, awake], ⟨fun _ _ => rfl, .inl rfl⟩⟩
    | false =>
      simp only [Bool.false_eq_true, ↓reduceIte]
      by_cases current : proc = k.procCurrent
      · rw [if_pos current]
        by_cases empty : (sleepMove proc k).procRunning = []
        · refine .inl ⟨by simp [entry, onlyIf, empty], ?_⟩
          exact idle_quiet (shedule_same_book _) (sleep_move_ticks proc k) empty
            (by simp [sleepMove, llistPush])
        · have on : proc ∈ k.procRunning := (held.mem_running proc).mpr ⟨member, alive, awake⟩
          refine .inr ⟨_, if_pos ⟨awake, current, empty⟩, rfl,
            sleep_move_books held.toBooks on, empty, fun p listed other => ?_, rfl,
            sleep_move_ticks proc k⟩
          simp only [sleepMove, llist_remove_find]
          exact (List.mem_erase_of_ne (current ▸ other)).mpr listed
      · rw [if_neg current]
        exact .inl ⟨by simp [entry, onlyIf, current],
          ⟨fun p _ => sleep_move_ticks proc k p, .inl rfl⟩⟩
  | wake proc =>
    obtain ⟨-, rfl⟩ := onlyIf_eq_some ran
    exact .inl ⟨rfl, fun p _ => wake_keeps Proc.ticksRem (fun _ _ => rfl) proc k p,
      .inl (wake_current proc k)⟩
  | create c =>
    obtain ⟨⟨-, fresh, -⟩, rfl⟩ := onlyIf_eq_some ran
    refine .inl ⟨rfl, fun p member => ?_, .inl (create_current c k)⟩
    exact create_keeps Proc.ticksRem (fun _ _ => rfl) c k fun same => fresh (same ▸ member)

/-- The invariant of the time slices. -/
structure Ticking (k : Kernel) : Prop extends Consistent k where
  has_time : k.procCurrent ≠ 0 → 0 < (k.procs k.procCurrent).ticksRem

theorem step_ticking (held : Ticking k) (ran : step k event = some k') : Ticking k' := by
  refine ⟨step_consistent held.toConsistent ran, fun selected => ?_⟩
  rcases step_cases held.toConsistent ran with ⟨-, quiet⟩ | ⟨m, -, rfl, enters⟩
  · rcases quiet.current with same | ⟨idle, -⟩
    · rw [same] at selected ⊢
      rw [quiet.ticks _ (current_listed held.toConsistent selected).1]
      exact held.has_time selected
    · exact absurd idle selected
  · exact shedule_selected_has_time enters.some

/-- How a process that stays on the running list stands in a round in which it
was selected `n` times: it runs on its one tick, it still has its tick and was
not selected, or its tick was charged. -/
structure Served (proc : Ptr) (n : Nat) (k : Kernel) : Prop where
  runs : proc = k.procCurrent → (k.procs proc).ticksRem = 1 ∧ n = 1
  waits : proc ≠ k.procCurrent →
    (k.procs proc).ticksRem = 1 ∧ n = 0 ∨ (k.procs proc).ticksRem = 0 ∧ n = 1

theorem Served.charge (served : Served proc n m) (nonnull : proc ≠ 0) :
    ((sheduleCharge m).procs proc).ticksRem = 1 ∧ n = 0 ∨
      ((sheduleCharge m).procs proc).ticksRem = 0 ∧ n = 1 := by
  by_cases current : proc = m.procCurrent
  · obtain ⟨tick, once⟩ := served.runs current
    subst proc
    rw [charge_current nonnull, tick]
    exact .inr ⟨by decide, once⟩
  · rw [charge_other current]
    exact served.waits current

theorem Served.enter (served : Served proc n k) (enters : Enters k m) : Served proc n m := by
  refine ⟨fun current => ?_, fun other => ?_⟩
  · rw [enters.ticks]
    exact served.runs (current.trans enters.current)
  · rw [enters.ticks]
    exact served.waits (enters.current ▸ other)

theorem entered_mem (enters : Enters k m) (on : proc ∈ (procShedule m).state.procRunning) :
    proc ∈ m.procRunning ∧ proc ≠ 0 := by
  rw [(shedule_same_book m).running] at on
  refine ⟨on, fun null => enters.books.null_free ?_⟩
  exact null ▸ ((enters.books.mem_running proc).mp on).1

section
variable (held : Consistent k) (ran : step k event = some k')
include held ran

/-- The account of a process after one event without a refill. -/
theorem step_served (kept : ¬ Refills k event) (was : proc ∈ k.procRunning)
    (on : proc ∈ k'.procRunning) (served : Served proc n k) :
    Served proc (n + if Selects k event proc then 1 else 0) k' := by
  rcases step_cases held ran with ⟨outside, quiet⟩ | ⟨m, entered, rfl, enters⟩
  · have exist := ((held.mem_running proc).mp was).1
    have unselected : ¬ Selects k event proc := fun ⟨m, entered, _⟩ => by
      simp [outside] at entered
    have same : k'.procCurrent = k.procCurrent := by
      rcases quiet.current with same | ⟨-, empty⟩
      · exact same
      · simp [empty] at on
    rw [if_neg unselected, Nat.add_zero]
    refine ⟨fun current => ?_, fun other => ?_⟩
    · rw [quiet.ticks _ exist]
      exact served.runs (current.trans same)
    · rw [quiet.ticks _ exist]
      exact served.waits (same ▸ other)
  · obtain ⟨listed, nonnull⟩ := entered_mem enters on
    have found : sheduleSearch (sheduleCharge m) ≠ 0 := fun none => kept ⟨m, entered, none⟩
    obtain ⟨selected, ticks⟩ := shedule_without_refill enters.some found
    have account := (served.enter enters).charge nonnull
    have selects : Selects k event proc ↔ proc = (procShedule m).state.procCurrent := by
      simp [Selects, entered, eq_comm]
    by_cases current : proc = (procShedule m).state.procCurrent
    · rw [if_pos (selects.mpr current)]
      have time := search_found found
      rw [← selected, ← current] at time
      refine ⟨fun _ => ?_, fun other => absurd current other⟩
      rw [ticks]
      rcases account with ⟨tick, none⟩ | ⟨spent, -⟩
      · exact ⟨tick, by omega⟩
      · rw [spent] at time
        exact absurd time (by decide)
    · rw [if_neg (mt selects.mp current)]
      refine ⟨fun same => absurd same current, fun _ => ?_⟩
      rw [ticks]
      exact account

/-- A refill opens the account of every running process. -/
theorem refill_served (refill : Refills k event) (on : proc ∈ k'.procRunning) :
    Served proc (if Selects k event proc then 1 else 0) k' := by
  obtain ⟨m, entered, none⟩ := refill
  rcases step_cases held ran with ⟨outside, -⟩ | ⟨m', entered', rfl, enters⟩
  · simp [outside] at entered
  · cases entered.symm.trans entered'
    obtain ⟨listed, -⟩ := entered_mem enters on
    have tick := shedule_with_refill enters.some none proc listed
    have selects : Selects k event proc ↔ proc = (procShedule m).state.procCurrent := by
      simp [Selects, entered, eq_comm]
    refine ⟨fun current => ⟨tick, if_pos (selects.mpr current)⟩, fun other => ?_⟩
    exact .inl ⟨tick, if_neg (mt selects.mp other)⟩

/-- The next refill finds every account at one selection. -/
theorem served_until_refill (refill : Refills k event) (was : proc ∈ k.procRunning)
    (served : Served proc n k) : n = 1 := by
  obtain ⟨m, entered, none⟩ := refill
  rcases step_cases held ran with ⟨outside, -⟩ | ⟨m', entered', rfl, enters⟩
  · simp [outside] at entered
  · cases entered.symm.trans entered'
    by_cases current : proc = k.procCurrent
    · exact (served.runs current).2
    · have listed : proc ∈ m.procRunning := enters.kept proc was current
      have nonnull : proc ≠ 0 := fun null =>
        enters.books.null_free (null ▸ ((enters.books.mem_running proc).mp listed).1)
      have charged := shedule_charge_same_book m
      have null : 0 ∉ (sheduleCharge m).procRunning := by
        rw [charged.running]
        exact fun on => enters.books.null_free ((enters.books.mem_running 0).mp on).1
      have spent := search_zero null none proc (charged.running ▸ listed)
      rcases (served.enter enters).charge nonnull with ⟨tick, -⟩ | ⟨-, once⟩
      · rw [spent] at tick
        exact absurd tick (by decide)
      · exact once

end

/-- The process is on the running list and the event does not refill. -/
def StaysUnfilled (proc : Ptr) (k : Kernel) (event : Event) : Prop :=
  proc ∈ k.procRunning ∧ ¬ Refills k event

instance (proc : Ptr) (k : Kernel) (event : Event) : Decidable (StaysUnfilled proc k event) :=
  inferInstanceAs (Decidable (_ ∧ _))

/-- The accounts along a stretch of a run without a refill. -/
theorem run_served (events : List Event) (held : Consistent k) (served : Served proc n k)
    (ran : run step k events = some k') (stays : Along step (StaysUnfilled proc) k events)
    (last : proc ∈ k'.procRunning) :
    Consistent k' ∧ Served proc (n + selections proc k events) k' := by
  induction events generalizing k n with
  | nil =>
    cases ran
    exact ⟨held, served⟩
  | cons event events ih =>
    obtain ⟨m, first, rest⟩ := run_cons_some ran
    obtain ⟨⟨was, unfilled⟩, later⟩ := along_cons.mp stays
    have on : proc ∈ m.procRunning := by
      cases events with
      | nil =>
        cases rest
        exact last
      | cons => exact (along_cons.mp (later m first)).1.1
    have next := step_served held first unfilled was on served
    have shape : selections proc k (event :: events) =
        (if Selects k event proc then 1 else 0) + selections proc m events := by
      simp only [selections, first]
    rw [shape, ← Nat.add_assoc]
    exact ih (step_consistent held first) next rest (later m first)

theorem init_ticking (k : Kernel) : Ticking (procInit k) :=
  ⟨init_consistent k, fun some => absurd rfl some⟩

/-- In every run from `proc_init` the current process has a tick left, and a
process that is on `proc_running` in every state from one refill, the event
`first`, until the next one, the event `next`, is selected exactly once by `first`
and the events before `next`. -/
theorem scheduler_rounds (k : Kernel) :
    (∀ events k', run step (procInit k) events = some k' →
      k'.procCurrent ≠ 0 → 1 ≤ (k'.procs k'.procCurrent).ticksRem) ∧
    ∀ earlier first between next proc k₁ k₂ k₃ k₄,
      run step (procInit k) earlier = some k₁ → step k₁ first = some k₂ →
      run step k₂ between = some k₃ → step k₃ next = some k₄ →
      Refills k₁ first → Refills k₃ next →
      Along step (StaysUnfilled proc) k₂ between → proc ∈ k₃.procRunning →
      selections proc k₁ (first :: between) = 1 := by
  constructor
  · intro events k' ran some
    have ticking := run_invariant (fun _ _ _ => step_ticking) (init_ticking k) ran
    have time := ticking.has_time some
    bv_omega
  · intro earlier first between next proc k₁ k₂ k₃ k₄ started opened ran closed refilled again
      stays last
    have held : Consistent k₁ :=
      run_invariant (fun _ _ _ => step_consistent) (init_consistent k) started
    have on : proc ∈ k₂.procRunning := by
      cases between with
      | nil =>
        cases ran
        exact last
      | cons => exact (along_cons.mp stays).1.1
    have opening := refill_served held opened refilled on
    obtain ⟨kept, account⟩ := run_served between (step_consistent held opened) opening ran stays last
    have once := served_until_refill kept closed again last account
    simpa only [selections, opened] using once

/-- In every run the current process exists, has not exited and is awake. -/
theorem current_process_can_run (k : Kernel) (events : List Event) :
    Throughout step (fun k => k.procCurrent ≠ 0 → k.procCurrent ∈ k.procAll ∧
      (k.procs k.procCurrent).defunc = false ∧ (k.procs k.procCurrent).isSleeping = false)
      (procInit k) events := by
  intro before k' _ ran current
  have held := run_invariant (fun _ _ _ => step_consistent) (init_consistent k) ran
  exact (held.mem_running _).mp (held.current_running current)

/-- Two running processes use up the ticks they were created with. -/
def firstRound : List Event :=
  [.create ⟨1, staleBlock, 11, 1, 1, 0, true⟩, .create ⟨2, staleBlock, 12, 1, 1, 1, true⟩,
    .shedule, .shedule]

theorem second_round_serves_first_process :
    ∃ k₁ k₂ k₃ k₄, run step (procInit bootKernel) firstRound = some k₁ ∧
      step k₁ .shedule = some k₂ ∧ run step k₂ [.wake 1, .shedule] = some k₃ ∧
      step k₃ .shedule = some k₄ ∧ k₃.procCurrent = 1 ∧ 1 ≤ (k₃.procs 1).ticksRem ∧
      selections 1 k₁ [.shedule, .wake 1, .shedule] = 1 := by
  refine ⟨_, _, _, _, rfl, rfl, rfl, rfl, rfl, ?_, ?_⟩
  · exact (scheduler_rounds bootKernel).1 (firstRound ++ [.shedule, .wake 1, .shedule]) _ rfl
      (by decide)
  · exact (scheduler_rounds bootKernel).2 firstRound .shedule [.wake 1, .shedule] .shedule 1
      _ _ _ _ rfl rfl rfl rfl (by decide) (by decide) (by decide) (by decide)

end MeinOS.ProcmRounds
