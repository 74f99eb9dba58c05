import MeinOS.ProcmLists

/-! NULL in the scheduler. While no process runs, `proc_current` is NULL, and `proc_shedule` may be
entered by the timer or by the last line of `interrupt_handler`. -/
namespace MeinOS.ProcmIdle
open Lib Lib.Runs Llist Procm ProcmLists

/-- The processes through which `proc_shedule` reads or writes: to save the registers before it
idles, to charge the old process, to look for time, and to switch. -/
def sheduleTouches (k : Kernel) : List Ptr :=
  if k.procRunning.isEmpty then
    if k.procSleeping.isEmpty then [] else [k.procCurrent]
  else
    let old := if k.procCurrent ≠ 0 then [k.procCurrent] else []
    let next := (sheduleSelect (sheduleCharge k)).procCurrent
    old ++ k.procRunning ++ if k.procCurrent ≠ next then old ++ [next] else []

/-- The same for an event. A tick is the wake-ups and a `shedule`; any other interrupt ends with
one if there is no current process. An exit idles by itself. -/
def touches (k : Kernel) : Event → List Ptr
  | .shedule => sheduleTouches k
  | .sleep =>
    if k.procCurrent = 0 ∨ (k.procs k.procCurrent).isSleeping then []
    else sheduleTouches (sleepMove k.procCurrent k)
  | _ => []

/-- The scheduler is not entered by an interrupt while all processes are asleep. -/
def Awake (k : Kernel) : Event → Prop
  | .shedule => k.procRunning = [] → k.procSleeping = [] ∨ k.procCurrent ≠ 0
  | _ => True

structure NonNull (k : Kernel) : Prop where
  all : 0 ∉ k.procAll
  running : 0 ∉ k.procRunning

theorem NonNull.of_same_book (held : NonNull k) (same : SameBook k k') : NonNull k' :=
  ⟨same.all ▸ held.all, same.running ▸ held.running⟩

theorem NonNull.wake (held : NonNull k) (some : proc ≠ 0) : NonNull (procWake proc k) := by
  refine ⟨by rw [wake_all]; exact held.all, ?_⟩
  cases asleep : (k.procs proc).isSleeping with
  | false => simpa [procWake, asleep] using held.running
  | true => simpa [procWake_eq asleep] using ⟨some.symm, held.running⟩

theorem sleep_move_non_null (held : NonNull k) (proc : Ptr) : NonNull (sleepMove proc k) := by
  refine ⟨held.all, fun listed => held.running ?_⟩
  rw [sleepMove, llist_remove_find] at listed
  exact List.mem_of_mem_erase listed

theorem NonNull.exit (held : NonNull k) (ret : Int) : NonNull (procExit ret k).state := by
  have reported : NonNull (reportExit ret k) := by
    rcases report_exit_cases ret k with same | ⟨m, same, -, -, some, woken⟩
    · rwa [same]
    · rw [woken]
      exact (held.of_same_book same).wake some
  refine ⟨reported.all, fun listed => reported.running ?_⟩
  simp only [procExit, Exec.state_idle, llist_remove_find] at listed
  exact List.mem_of_mem_erase listed

theorem step_non_null (held : NonNull k) (ran : step k event = some k') : NonNull k' := by
  cases event with
  | create c =>
    obtain ⟨⟨some, -⟩, rfl⟩ := onlyIf_eq_some ran
    have kept : 0 ∉ llistPush k.procRunning c.new := by simpa using ⟨some.symm, held.running⟩
    refine ⟨by simpa [procCreate] using ⟨some.symm, held.all⟩, ?_⟩
    change 0 ∉ if c.running = true then llistPush k.procRunning c.new else k.procRunning
    split
    · exact kept
    · exact held.running
  | destroy proc =>
    obtain ⟨-, rfl⟩ := onlyIf_eq_some ran
    obtain ⟨all, running, -⟩ := destroy_books proc k
    exact ⟨fun listed => held.all (List.mem_of_mem_erase (all ▸ listed)),
      fun listed => held.running (List.mem_of_mem_erase (running ▸ listed))⟩
  | sleep =>
    obtain ⟨-, rfl⟩ := onlyIf_eq_some ran
    unfold procSleep
    split
    · exact held
    · rw [if_pos rfl]
      exact (sleep_move_non_null held _).of_same_book (shedule_same_book _)
  | wake proc =>
    obtain ⟨listed, rfl⟩ := onlyIf_eq_some ran
    exact held.wake (ne_of_mem_of_not_mem listed held.all)
  | shedule =>
    cases ran
    exact held.of_same_book (shedule_same_book k)
  | exit ret =>
    obtain ⟨-, rfl⟩ := onlyIf_eq_some ran
    exact held.exit ret

theorem shedule_touches_iff (held : NonNull k) :
    0 ∉ sheduleTouches k ↔ (k.procRunning = [] → k.procSleeping = [] ∨ k.procCurrent ≠ 0) := by
  unfold sheduleTouches
  by_cases idle : k.procRunning = []
  · by_cases none : k.procSleeping = []
    · simp [idle, none]
    · simpa [idle, none] using not_congr eq_comm
  · have charged := (shedule_charge_same_book k).running
    have next : (sheduleSelect (sheduleCharge k)).procCurrent ≠ 0 := by
      have member := shedule_select_current (sheduleCharge k) (by rwa [charged])
      rw [charged] at member
      exact ne_of_mem_of_not_mem member held.running
    have old : 0 ∉ if k.procCurrent ≠ 0 then [k.procCurrent] else [] := by
      split
      · rename_i some
        simpa using some.symm
      · exact List.not_mem_nil
    simp only [List.isEmpty_iff, idle, ↓reduceIte, false_implies, iff_true]
    generalize (if k.procCurrent ≠ 0 then [k.procCurrent] else []) = before at old ⊢
    split
    · simp [old, held.running, next.symm]
    · simp [old, held.running]

theorem touches_iff (held : NonNull k) (event : Event) : 0 ∉ touches k event ↔ Awake k event := by
  cases event with
  | shedule => exact shedule_touches_iff held
  | sleep =>
    refine iff_of_true ?_ trivial
    rw [touches]
    split
    · exact List.not_mem_nil
    · rename_i current
      exact (shedule_touches_iff (sleep_move_non_null held _)).mpr
        fun _ => .inr fun none => current (.inl none)
  | create | destroy | wake | exit => exact iff_of_true List.not_mem_nil trivial

/-- In a run of the process manager the scheduler uses no NULL exactly if no interrupt enters it
while all processes are asleep. -/
theorem no_null_iff_awake (k : Kernel) (events : List Event) :
    Along step (fun k event => 0 ∉ touches k event) (procInit k) events ↔
      Along step Awake (procInit k) events := by
  have fresh : NonNull (procInit k) := ⟨List.not_mem_nil, List.not_mem_nil⟩
  constructor
  · exact fun safe => safe.derive (fun k event held => (touches_iff held event).mp)
      (fun _ _ _ held _ => step_non_null held) fresh
  · exact fun awake => awake.derive (fun k event held => (touches_iff held event).mpr)
      (fun _ _ _ held _ => step_non_null held) fresh

/-- A process is created, runs and sleeps, and then comes a tick. -/
theorem tick_while_asleep : ¬ Along step (fun k event => 0 ∉ touches k event) (procInit bootKernel)
    [.create ⟨1, staleBlock, 11, 1, 1, 0, true⟩, .shedule, .sleep, .shedule] := by
  decide

end MeinOS.ProcmIdle
