import MeinOS.Interrupt

/-! The registers a process goes on with.

The registers of every process but the current one lie in its record, those of the current
one in the frame. `Saved` and `InFrame` say that of any relation between registers and
accounts; the scheduler keeps both, whatever the relation is. For context isolation the
relation is equality with the registers that are due.

Three things break the isolation. `pushsr` and `interrupt_save_stack` disagree about the
order of the segment registers, so each interrupt exchanges `ds` with `gs` and `es` with
`fs`. The end of `isr37` writes the `ds` of the caller over `dx` and `ds` of whichever
process it returns to. And `proc_exit` writes the saved `eax` of a parent whose flag `wait`
is set, also if that parent does not sleep in `proc_waitpid` any more. -/
namespace MeinOS.InterruptContext
open Lib Lib.Runs Llist Procm Interrupt
open ProcmWait (noteWait tellsParent)

/-- The process runs or may be woken. -/
def Live (k : Kernel) (proc : Ptr) : Prop :=
  proc ∈ k.procRunning ∨ (k.procs proc).isSleeping = true

section Relation
variable (Fits : Registers → Account → Prop) (accounts : Ptr → Account)

/-- The record of every process but the current one fits its account. -/
def Saved (k : Kernel) : Prop :=
  ∀ p, p ≠ 0 → Live k p → p ≠ k.procCurrent → Fits (k.procs p).registers (accounts p)

/-- The frame fits the account of the current process. -/
def InFrame (k : Kernel) : Prop := k.procCurrent ≠ 0 → Fits k.curregs (accounts k.procCurrent)

end Relation

/-- The same registers in records and frame, and no process that has come to life. -/
structure SameContexts (k k' : Kernel) : Prop where
  current : k'.procCurrent = k.procCurrent
  curregs : k'.curregs = k.curregs
  registers : ∀ p, (k'.procs p).registers = (k.procs p).registers
  live : ∀ p, Live k' p → Live k p

theorem SameContexts.trans (first : SameContexts k k') (second : SameContexts k' k'') :
    SameContexts k k'' where
  current := second.current.trans first.current
  curregs := second.curregs.trans first.curregs
  registers p := (second.registers p).trans (first.registers p)
  live p alive := first.live p (second.live p alive)

variable {Fits : Registers → Account → Prop} {accounts : Ptr → Account} {w : World} {k : Kernel}

theorem Saved.of_same (saved : Saved Fits accounts k) (same : SameContexts k k') :
    Saved Fits accounts k' := by
  intro p some alive other
  rw [same.registers]
  exact saved p some (same.live p alive) (same.current ▸ other)

theorem InFrame.of_same (framed : InFrame Fits accounts k) (same : SameContexts k k') :
    InFrame Fits accounts k' := by
  intro some
  rw [same.curregs, same.current]
  exact framed (same.current ▸ some)

theorem live_set_proc (k : Kernel) (proc : Ptr) {f : Proc → Proc}
    (sleeping : ∀ p, (f p).isSleeping = p.isSleeping) : Live (k.setProc proc f) p ↔ Live k p := by
  unfold Live
  rw [setProc_keeps k proc f Proc.isSleeping sleeping]
  rfl

/-- A write to saved registers wakes nobody. -/
theorem live_set_record (k : Kernel) (proc : Ptr) (f : Registers → Registers) :
    Live (k.setProc proc fun q => { q with registers := f q.registers }) p ↔ Live k p :=
  live_set_proc k proc fun _ => rfl

theorem set_proc_same_contexts (k : Kernel) (proc : Ptr) {f : Proc → Proc}
    (registers : ∀ p, (f p).registers = p.registers) (sleeping : ∀ p, (f p).isSleeping = p.isSleeping) :
    SameContexts k (k.setProc proc f) where
  current := rfl
  curregs := rfl
  registers := setProc_keeps k proc f Proc.registers registers
  live _ := (live_set_proc k proc sleeping).mp

theorem wake_same_contexts (proc : Ptr) (k : Kernel) : SameContexts k (procWake proc k) := by
  unfold procWake
  split
  · rename_i asleep
    constructor
    · rfl
    · rfl
    · exact setProc_keeps k proc (fun p => { p with isSleeping := false }) Proc.registers fun _ => rfl
    · intro p alive
      rcases alive with running | sleeping
      · rcases mem_llist_push.mp running with rfl | before
        · exact .inr asleep
        · exact .inl before
      · have flag := setProc_apply k proc (fun p => { p with isSleeping := false }) p
        right
        by_cases same : p = proc
        · exact same ▸ asleep
        · rw [if_neg same] at flag
          exact (congrArg Proc.isSleeping flag).symm.trans sleeping
  · exact ⟨rfl, rfl, fun _ => rfl, fun _ alive => alive⟩

/-! The scheduler. -/

/-- What the scheduler does to the contexts when it switches to another process. -/
theorem switch_contexts {old : Ptr} (switched : old ≠ k.procCurrent) :
    (sheduleSwitch old k).curregs = (k.procs k.procCurrent).registers ∧
      ∀ p, p ≠ 0 → ((sheduleSwitch old k).procs p).registers =
        if p = old then k.curregs else (k.procs p).registers := by
  rw [sheduleSwitch, if_pos switched]
  by_cases some : old ≠ 0
  · rw [if_pos some]
    constructor
    · exact congrArg Proc.registers (setProc_other k old _ (Ne.symm switched))
    · exact fun p _ => regs_save_registers old k p
  · rw [if_neg some]
    refine ⟨rfl, fun p real => ?_⟩
    rw [not_not.mp some, if_neg real]
    rfl

/-- The process that the scheduler selects goes on with the registers in its record; the one
it leaves finds its own there. -/
theorem shedule_contexts (some : k.procRunning ≠ []) :
    (procShedule k).state.curregs = (if k.procCurrent = (procShedule k).state.procCurrent then
        k.curregs else (k.procs (procShedule k).state.procCurrent).registers) ∧
      ∀ p, p ≠ 0 → p ≠ (procShedule k).state.procCurrent →
        ((procShedule k).state.procs p).registers =
          if p = k.procCurrent then k.curregs else (k.procs p).registers := by
  have shape : (procShedule k).state = sheduleSwitch k.procCurrent (sheduleSelect (sheduleCharge k)) := by
    rw [procShedule, if_neg (by simpa using some)]
    rfl
  have curregs : (sheduleSelect (sheduleCharge k)).curregs = k.curregs :=
    (congrArg Kernel.curregs (select_eq k) :)
  have registers : ∀ p, ((sheduleSelect (sheduleCharge k)).procs p).registers =
      (k.procs p).registers := by
    intro p
    rw [select_keeps Proc.registers fun _ _ => rfl, charge_keeps Proc.registers fun _ _ => rfl]
  rw [shape, ProcmLists.shedule_switch_current]
  by_cases same : k.procCurrent = (sheduleSelect (sheduleCharge k)).procCurrent
  · rw [if_pos same, sheduleSwitch, if_neg (not_not.mpr same)]
    refine ⟨curregs, fun p _ other => ?_⟩
    rw [if_neg (same ▸ other)]
    exact registers p
  · obtain ⟨loaded, saved⟩ := switch_contexts same
    rw [if_neg same]
    refine ⟨loaded.trans (registers _), fun p real _ => ?_⟩
    rw [saved p real, curregs, registers]

theorem shedule_live (k : Kernel) (p : Ptr) : Live (procShedule k).state p ↔ Live k p := by
  have book := ProcmLists.shedule_same_book k
  unfold Live
  rw [book.running, book.isSleeping]

/-- Without a running process the interrupted one is saved and none is current. -/
theorem idle_contexts (none : k.procRunning = []) (p : Ptr) :
    procShedule k = .halt k ∨ ((procShedule k).state.procCurrent = 0 ∧
      ((procShedule k).state.procs p).registers =
        if p = k.procCurrent then k.curregs else (k.procs p).registers) := by
  unfold procShedule
  rw [if_pos (by simpa using none)]
  split
  · exact .inl rfl
  · exact .inr ⟨rfl, regs_save_registers k.procCurrent k p⟩

/-- The current process goes on, or the frame holds the registers of another running one. -/
def Switched (k k' : Kernel) : Prop :=
  (k'.procCurrent = k.procCurrent ∧ k'.curregs = k.curregs) ∨
    ∃ p ∈ k.procRunning, p ≠ k.procCurrent ∧ k'.curregs = (k.procs p).registers

theorem shedule_switched {k k' : Kernel} (ran : procShedule k = .ret () k') : Switched k k' := by
  by_cases none : k.procRunning = []
  · rw [procShedule, if_pos (by simpa using none)] at ran
    split at ran <;> cases ran
  · obtain ⟨-, running⟩ := ProcmLists.shedule_selects k none
    have curregs := (shedule_contexts none).1
    rw [ran, Exec.state_ret] at curregs running
    by_cases stays : k.procCurrent = k'.procCurrent
    · left
      rw [if_pos stays] at curregs
      exact ⟨stays.symm, curregs⟩
    · right
      refine ⟨k'.procCurrent, running, Ne.symm stays, ?_⟩
      rw [curregs, if_neg stays]

theorem shedule_idle {k k' : Kernel} (ran : procShedule k = .idle k') : k'.procCurrent = 0 := by
  unfold procShedule at ran
  split at ran
  · split at ran
    · cases ran
    · cases ran
      rfl
  · cases ran

/-! Going to sleep. -/

theorem sleep_move_running (member : p ∈ (sleepMove proc k).procRunning) : p ∈ k.procRunning := by
  have removed : (sleepMove proc k).procRunning = k.procRunning.erase proc :=
    congrArg Prod.snd (llist_remove_find k.procRunning proc)
  rw [removed] at member
  exact List.mem_of_mem_erase member

theorem sleep_move_registers (proc : Ptr) (k : Kernel) (p : Ptr) :
    ((sleepMove proc k).procs p).registers = (k.procs p).registers :=
  setProc_keeps k proc (fun q => { q with isSleeping := true }) Proc.registers (fun _ => rfl) p

theorem sleep_move_saved (saved : Saved Fits accounts k) :
    Saved Fits accounts (sleepMove k.procCurrent k) := by
  intro p some alive other
  have record := setProc_other k k.procCurrent (fun q => { q with isSleeping := true }) other
  rw [sleep_move_registers]
  refine saved p some ?_ other
  rcases alive with running | sleeping
  · exact .inl (sleep_move_running running)
  · exact .inr ((congrArg Proc.isSleeping record).symm.trans sleeping)

theorem sleep_switched {k k' : Kernel} (ran : procSleep k.procCurrent k = .ret () k') :
    Switched k k' := by
  unfold procSleep at ran
  split at ran
  · cases ran
    exact .inl ⟨rfl, rfl⟩
  · rw [if_pos rfl] at ran
    rcases shedule_switched ran with stays | ⟨p, running, other, curregs⟩
    · exact .inl stays
    · exact .inr ⟨p, sleep_move_running running, other, curregs.trans (sleep_move_registers _ k p)⟩

theorem sleep_idle {k k' : Kernel} (ran : procSleep k.procCurrent k = .idle k') :
    k'.procCurrent = 0 := by
  unfold procSleep at ran
  split at ran
  · cases ran
  · rw [if_pos rfl] at ran
    exact shedule_idle ran

section
variable (saved : Saved Fits accounts k) (framed : InFrame Fits accounts k)
include saved framed

theorem shedule_saved : Saved Fits accounts (procShedule k).state := by
  intro p some alive other
  have before := (shedule_live k p).mp alive
  have fits : Fits (if p = k.procCurrent then k.curregs else (k.procs p).registers) (accounts p) := by
    split
    · rename_i same
      subst same
      exact framed some
    · exact saved p some before ‹_›
  by_cases none : k.procRunning = []
  · rcases idle_contexts none p with halted | ⟨-, registers⟩
    · rw [halted] at other ⊢
      exact saved p some before other
    · rw [registers]
      exact fits
  · rw [(shedule_contexts none).2 p some other]
    exact fits

theorem shedule_in_frame : InFrame Fits accounts (procShedule k).state := by
  intro some
  by_cases none : k.procRunning = []
  · rcases idle_contexts none 0 with halted | ⟨idle, -⟩
    · rw [halted] at some ⊢
      exact framed some
    · exact absurd idle some
  · rw [(shedule_contexts none).1]
    split
    · rename_i same
      rw [← same]
      exact framed (same ▸ some)
    · rename_i switched
      have running := (ProcmLists.shedule_selects k none).2
      exact saved _ some (.inl running) (Ne.symm switched)

theorem sleep_saved : Saved Fits accounts (procSleep k.procCurrent k).state := by
  unfold procSleep
  split
  · exact saved
  · rw [if_pos rfl]
    exact shedule_saved (sleep_move_saved saved) framed

theorem sleep_in_frame : InFrame Fits accounts (procSleep k.procCurrent k).state := by
  unfold procSleep
  split
  · exact framed
  · rw [if_pos rfl]
    exact shedule_in_frame (sleep_move_saved saved) framed

end

/-! Context isolation. -/

/-- The registers are those that are due. -/
def Due (r : Registers) (a : Account) : Prop := r = a.due

/-- The end of `isr37` for a caller with this `ds` changes nothing in these registers. -/
def KeepsDs : Option (BitVec 32) → Registers → Prop
  | none, _ => True
  | some regDs, r => low r.edx = low regDs ∧ r.ds = low regDs

instance (regDs : Option (BitVec 32)) (r : Registers) : Decidable (KeepsDs regDs r) :=
  match regDs with
  | none => isTrue trivial
  | some _ => inferInstanceAs (Decidable (_ ∧ _))

/-- So it is with every process the scheduler may choose. -/
def Selectable (regDs : Option (BitVec 32)) (k : Kernel) : Prop :=
  ∀ p ∈ k.procRunning, p ≠ k.procCurrent → KeepsDs regDs (k.procs p).registers

instance (regDs : Option (BitVec 32)) (k : Kernel) : Decidable (Selectable regDs k) :=
  inferInstanceAs (Decidable (∀ p ∈ k.procRunning, _))

/-- The current process is once among the running ones and does not count as asleep, and a
parent that it reports to sleeps in `proc_waitpid`. -/
def CleanExit (w : World) : Prop :=
  w.kernel.procCurrent ∉ w.kernel.procRunning.erase w.kernel.procCurrent ∧
    (w.kernel.procs w.kernel.procCurrent).isSleeping = false ∧
    (tellsParent w.kernel = true → (w.accounts w.parent).waiting = true)

instance (w : World) : Decidable (CleanExit w) := inferInstanceAs (Decidable (_ ∧ _))

/-- An operation that keeps contexts apart, in a handler whose stub ends with this `ds`. -/
def Isolating (regDs : Option (BitVec 32)) (w : World) : Op → Prop
  | .sleep => Selectable regDs w.kernel
  | .waitpid _ _ | .shedule | .resume => Selectable regDs w.kernel
  | .create c => c.new ≠ w.kernel.procCurrent
  | .setEax _ => w.kernel.procCurrent = w.caller
  | .call c => c.allFaults = []
  | .rpcReturn _ faults => faults = []
  | .exit _ faults => faults = [] ∧ CleanExit w
  | .fault _ => False
  | _ => True

instance (regDs : Option (BitVec 32)) (w : World) : (op : Op) → Decidable (Isolating regDs w op)
  | .sleep | .waitpid _ _ | .shedule | .resume => inferInstanceAs (Decidable (Selectable regDs w.kernel))
  | .create _ => inferInstanceAs (Decidable (_ ≠ _))
  | .setEax _ => inferInstanceAs (Decidable (_ = _))
  | .call c => inferInstanceAs (Decidable (c.allFaults = []))
  | .rpcReturn _ faults => inferInstanceAs (Decidable (faults = []))
  | .exit _ faults => inferInstanceAs (Decidable (faults = [] ∧ CleanExit w))
  | .fault _ => isFalse not_false
  | .malloc _ | .wake _ | .destroy _ | .jump _ _ | .createstack _ _ | .visit _ => isTrue trivial

/-- The `ds` that the stub restores at its end. -/
def restoredDs : Event → Option (BitVec 32)
  | .syscall registers _ _ => some registers.ds
  | _ => none

/-- The segment registers that change places are equal. -/
def Paired (r : Registers) : Prop := r.ds = r.gs ∧ r.es = r.fs

instance (r : Registers) : Decidable (Paired r) := inferInstanceAs (Decidable (_ ∧ _))

/-- The interrupted process has paired segment registers and, in a system call, `ds` in
`dx`; all operations of the handler keep contexts apart. -/
def IsolatingEvent (w : World) (event : Event) : Prop :=
  (w.user.isSome → Paired event.registers ∧ KeepsDs (restoredDs event) event.registers) ∧
    Exec.EachMet Op.exec (Isolating (restoredDs event)) event.ops (enter event w)

instance (w : World) (event : Event) : Decidable (IsolatingEvent w event) :=
  inferInstanceAs (Decidable (_ ∧ _))

/-- Inside a handler. -/
structure Inside (regDs : Option (BitVec 32)) (w : World) : Prop where
  saved : Saved Due w.accounts w.kernel
  framed : InFrame Due w.accounts w.kernel
  own : w.frame = none
  keeps : w.kernel.procCurrent ≠ 0 → KeepsDs regDs w.kernel.curregs

/-- Between two interrupts. -/
structure Between (w : World) : Prop where
  saved : Saved Due w.accounts w.kernel
  idle : w.user = none → w.kernel.procCurrent = 0
  resumed : ∀ r, w.user = some r → w.kernel.procCurrent ≠ 0 →
    r = (w.accounts w.kernel.procCurrent).due

theorem Inside.of_same {w w' : World} (inside : Inside regDs w)
    (same : SameContexts w.kernel w'.kernel) (accounts : w'.accounts = w.accounts)
    (frame : w'.frame = w.frame) : Inside regDs w' where
  saved := by
    rw [accounts]
    exact inside.saved.of_same same
  framed := by
    rw [accounts]
    exact inside.framed.of_same same
  own := frame.trans inside.own
  keeps some := by
    rw [same.curregs]
    exact inside.keeps (same.current ▸ some)

section
variable (inside : Inside regDs w) (selectable : Selectable regDs w.kernel)
include inside selectable

/-- Code that may end in the scheduler. -/
theorem exec_inside {code : Kernel → Exec Kernel Unit}
    (saved : Saved Due w.accounts (code w.kernel).state)
    (framed : InFrame Due w.accounts (code w.kernel).state)
    (switched : ∀ k, code w.kernel = .ret () k → Switched w.kernel k)
    (idle : ∀ k, code w.kernel = .idle k → k.procCurrent = 0) :
    (w.exec code).Ends (Inside regDs) Between := by
  apply exec_ends
  · intro k ran
    rw [ran] at saved framed
    refine ⟨saved, framed, inside.own, fun some => ?_⟩
    rcases switched k ran with ⟨current, curregs⟩ | ⟨p, running, other, curregs⟩
    · rw [curregs]
      exact inside.keeps (current ▸ some)
    · rw [curregs]
      exact selectable p running other
  · intro k ran
    rw [ran] at saved
    exact ⟨saved, fun _ => idle k ran, fun r resumed => nomatch resumed⟩

theorem shedule_inside : (w.exec procShedule).Ends (Inside regDs) Between := by
  apply exec_inside inside selectable
  · exact shedule_saved inside.saved inside.framed
  · exact shedule_in_frame inside.saved inside.framed
  · exact fun k ran => shedule_switched ran
  · exact fun k ran => shedule_idle ran

theorem sleep_inside : (w.exec fun k => procSleep k.procCurrent k).Ends (Inside regDs) Between := by
  apply exec_inside inside selectable
  · exact sleep_saved inside.saved inside.framed
  · exact sleep_in_frame inside.saved inside.framed
  · exact fun k ran => sleep_switched ran
  · exact fun k ran => sleep_idle ran

end

theorem note_saved {f : Account → Account} (proc : Ptr) (saved : Saved Due w.accounts w.kernel)
    (kept : ∀ a, (f a).due = a.due) : Saved Due (w.note proc f).accounts w.kernel :=
  fun p some alive other => (saved p some alive other).trans (note_keeps Account.due w proc kept p).symm

theorem note_wait_same_contexts (pid : Int) (stat : Ptr) (k : Kernel) :
    SameContexts k (noteWait pid stat k) :=
  set_proc_same_contexts k k.procCurrent (fun _ => rfl) (fun _ => rfl)

theorem create_same {c : Creation} (other : p ≠ c.new) :
    ((procCreate c k).procs p).registers = (k.procs p).registers ∧
      (Live (procCreate c k) p → Live k p) := by
  have sleeping := create_keeps Proc.isSleeping (fun _ _ => rfl) c k other
  refine ⟨create_keeps Proc.registers (fun _ _ => rfl) c k other, fun alive => ?_⟩
  rcases alive with running | asleep
  · left
    change p ∈ (if c.running then llistPush k.procRunning c.new else k.procRunning) at running
    split at running
    · exact (mem_llist_push.mp running).resolve_left other
    · exact running
  · exact .inr (sleeping.symm.trans asleep)

theorem create_curregs (c : Creation) (k : Kernel) : (procCreate c k).curregs = k.curregs := by
  unfold procCreate
  simp only [setProc_curregs]
  split <;> rfl

theorem destroy_same_contexts (proc : Ptr) (w : World) :
    SameContexts w.kernel (procDestroyWhole proc w).kernel := by
  have shape := destroy_eq proc w.kernel
  constructor
  · exact (congrArg Kernel.procCurrent shape :)
  · exact (congrArg Kernel.curregs shape :)
  · exact destroy_keeps Proc.registers (fun _ _ => rfl) (fun _ _ => rfl) proc w.kernel
  · intro p alive
    have sleeping := destroy_keeps Proc.isSleeping (fun _ _ => rfl) (fun _ _ => rfl) proc w.kernel p
    have running : (procDestroyWhole proc w).kernel.procRunning = w.kernel.procRunning.erase proc :=
      (congrArg Kernel.procRunning shape :)
    rcases alive with runs | asleep
    · rw [running] at runs
      exact .inl (List.mem_of_mem_erase runs)
    · exact .inr (sleeping.symm.trans asleep)

/-! Calling a function of a process. While its stack is written, its registers are due up to
`eip` and `esp`. -/

/-- Where records and frame fit, the registers of every process do. -/
theorem fits_iff : Saved Fits accounts k ∧ InFrame Fits accounts k ↔
    ∀ p, p ≠ 0 → p = k.procCurrent ∨ Live k p → Fits (registersOf p k) (accounts p) := by
  constructor
  · rintro ⟨saved, framed⟩ p some here
    unfold registersOf
    split
    · rename_i current
      exact current ▸ framed (current ▸ some)
    · exact saved p some (here.resolve_left (Ne.symm ‹_›)) (Ne.symm ‹_›)
  · refine fun fits => ⟨fun p some alive other => ?_, fun some => ?_⟩
    · have record : registersOf p k = (k.procs p).registers := if_neg (Ne.symm other)
      exact record ▸ fits p some (.inr alive)
    · have frame : registersOf k.procCurrent k = k.curregs := if_pos rfl
      exact frame ▸ fits _ some (.inl rfl)

theorem registers_of_set (proc p : Ptr) (f : Registers → Registers) (k : Kernel) :
    registersOf p (setRegisters proc f k) = if p = proc then f (registersOf proc k) else registersOf p k := by
  unfold setRegisters registersOf
  by_cases current : k.procCurrent = proc
  · subst current
    simp only [if_true, eq_comm]
    split <;> rfl
  · simp only [current, if_false, setProc_current, setProc_apply]
    by_cases same : p = proc
    · subst same
      simp only [current, if_false, if_true]
    · simp only [same, if_false, setProc_curregs]

theorem set_registers_live (proc : Ptr) (f : Registers → Registers) (k : Kernel) :
    (setRegisters proc f k).procCurrent = k.procCurrent ∧ (Live (setRegisters proc f k) p ↔ Live k p) := by
  unfold setRegisters
  split
  · exact ⟨rfl, .rfl⟩
  · exact ⟨rfl, live_set_record k proc f⟩

theorem keeps_ds_move {r place : Registers} (keeps : KeepsDs regDs r) : KeepsDs regDs (moveTo r place) := by
  cases regDs with
  | none => trivial
  | some _ => exact keeps

/-- The account of another process is not written. -/
theorem note_call_other {proc : Ptr} (other : p ≠ proc) :
    (noteCall proc w).accounts p = w.accounts p := note_other w _ other

theorem note_call_due (w : World) (proc : Ptr) :
    ((noteCall proc w).accounts proc).due =
      moveTo (w.accounts proc).due (registersOf proc w.kernel) := by
  unfold noteCall
  rw [note_self]

theorem set_registers_called {proc : Ptr} {f : Registers → Registers}
    (only : ∀ r, f r = moveTo r (f r)) (called : Inside regDs (noteCall proc w)) :
    Inside regDs (noteCall proc (w.update (setRegisters proc f))) := by
  have fits := fits_iff.mp ⟨called.saved, called.framed⟩
  obtain ⟨saved, framed⟩ : Saved Due (noteCall proc (w.update (setRegisters proc f))).accounts
      (setRegisters proc f w.kernel) ∧ InFrame Due (noteCall proc (w.update (setRegisters proc f))).accounts
      (setRegisters proc f w.kernel) := by
    refine fits_iff.mpr fun p some here => ?_
    obtain ⟨current, live⟩ := set_registers_live proc f w.kernel (p := p)
    rw [current, live] at here
    have due : registersOf p w.kernel = ((noteCall proc w).accounts p).due := fits p some here
    unfold Due
    rw [registers_of_set]
    by_cases same : p = proc
    · subst same
      have placed : registersOf p (w.update (setRegisters p f)).kernel = f (registersOf p w.kernel) := by
        rw [World.update, registers_of_set, if_pos rfl]
      rw [note_call_due] at due
      rw [if_pos rfl, note_call_due, placed, only (registersOf p w.kernel)]
      exact (congrArg (fun r => moveTo r (f (registersOf p w.kernel))) due :)
    · rw [if_neg same, note_call_other same]
      rw [note_call_other same] at due
      exact due
  refine ⟨saved, framed, called.own, fun some => ?_⟩
  have keeps := called.keeps ((set_registers_live proc f w.kernel (p := proc)).1 ▸ some)
  change KeepsDs regDs (setRegisters proc f w.kernel).curregs
  unfold setRegisters
  split
  · change KeepsDs regDs (f w.kernel.curregs)
    rw [only]
    exact keeps_ds_move keeps
  · exact keeps

/-- What neither registers nor lists notice. -/
theorem update_called {proc : Ptr} {f : Kernel → Kernel} (same : SameContexts w.kernel (f w.kernel))
    (called : Inside regDs (noteCall proc w)) : Inside regDs (noteCall proc (w.update f)) := by
  have place : registersOf proc (f w.kernel) = registersOf proc w.kernel := by
    unfold registersOf
    rw [same.current, same.curregs, same.registers]
  have accounts : (noteCall proc (w.update f)).accounts = (noteCall proc w).accounts := by
    change (w.note proc fun a => { a with due := moveTo a.due (registersOf proc (f w.kernel)) }).accounts = _
    rw [place]
    rfl
  exact called.of_same same accounts rfl

theorem same_contexts_refl (k : Kernel) (user : Ptr → Nat → Int) (curpd : Ptr) :
    SameContexts k { k with user := user, curpd := curpd } :=
  ⟨rfl, rfl, fun _ => rfl, fun _ alive => alive⟩

/-- `rpc_call_return` stores the results in the address space of the caller and wakes it. -/
theorem rpc_return_same_contexts (caller : Ptr) (k : Kernel) : SameContexts k
    (procWake caller (memuserLoadAddrspace k.procCurrent (memuserLoadAddrspace caller k))) :=
  (same_contexts_refl k k.user _).trans (wake_same_contexts caller _)

theorem end_wait_same_contexts (parent : Ptr) (k : Kernel) : SameContexts k (endWait parent k) := by
  have cleared : SameContexts k (k.setProc parent fun p => { p with wait := false }) :=
    set_proc_same_contexts k parent (fun _ => rfl) (fun _ => rfl)
  exact cleared.trans (wake_same_contexts parent _)

/-- `proc_push` without page faults. -/
theorem quiet_push (proc : Ptr) (value : BitVec 32) (w : World) :
    procPush proc value [] w = .ret () ((w.update (setRegisters proc fun r => { r with esp := r.esp - 4 })).update
      (storeWord (registersOf proc (setRegisters proc (fun r => { r with esp := r.esp - 4 }) w.kernel)).esp.toNat
        value.toInt)) := rfl

theorem push_called (proc : Ptr) (value : BitVec 32) (called : Inside regDs (noteCall proc w)) :
    (procPush proc value [] w).Ends (fun t => Inside regDs (noteCall proc t)) Between := by
  have lowered := set_registers_called (f := fun r => { r with esp := r.esp - 4 }) (fun _ => rfl) called
  rw [quiet_push]
  exact update_called (same_contexts_refl _ _ _) lowered

theorem set_eip_called (proc : Ptr) (func : BitVec 32) (own : w.frame = none)
    (called : Inside regDs (noteCall proc w)) :
    Inside regDs (noteCall proc (setEip proc func none w)) := by
  unfold setEip
  rw [own]
  exact set_registers_called (f := fun r => { r with eip := func }) (fun _ => rfl) called

theorem load_current_same_contexts (k : Kernel) : SameContexts k (loadCurrent k) := by
  unfold loadCurrent
  split
  · exact same_contexts_refl k k.user _
  · exact same_contexts_refl k k.user k.curpd

/-! The end of a process. -/

/-- A process that leaves the running list is not woken afterwards. -/
def Leaves (k : Kernel) (proc : Ptr) : Prop :=
  proc ∉ k.procRunning.erase proc ∧ (k.procs proc).isSleeping = false

theorem Leaves.set_proc (leaves : Leaves k p) (proc : Ptr) {f : Proc → Proc}
    (sleeping : ∀ q, (f q).isSleeping = q.isSleeping) : Leaves (k.setProc proc f) p :=
  ⟨leaves.1, (setProc_keeps k proc f Proc.isSleeping sleeping p).trans leaves.2⟩

theorem Leaves.wake (leaves : Leaves k p) (proc : Ptr) : Leaves (procWake proc k) p := by
  unfold procWake
  split
  · rename_i asleep
    have other : p ≠ proc := by
      rintro rfl
      rw [leaves.2] at asleep
      cases asleep
    have record := setProc_other k proc (fun q => { q with isSleeping := false }) other
    constructor
    · change p ∉ (proc :: k.procRunning).erase p
      rw [List.erase_cons_tail (by simpa using Ne.symm other)]
      simpa [other] using leaves.1
    · exact (congrArg Proc.isSleeping record).trans leaves.2
  · exact leaves

theorem answer_saved (saved : Saved Due w.accounts w.kernel)
    (waits : (w.accounts w.parent).waiting = true) :
    Saved Due (answerParent w).accounts (answerParent w).kernel := by
  intro p some alive other
  have lived : Live w.kernel p :=
    (live_set_record w.kernel w.parent fun r => { r with eax := w.pid }).mp alive
  have fits := saved p some lived other
  change Due ((saveEax w.parent w.pid w.kernel).procs p).registers
    ((noteReport w.parent w.pid w).accounts p)
  unfold saveEax noteReport
  by_cases same : p = w.parent
  · subst same
    rw [setProc_self, note_self, if_pos waits]
    exact congrArg (fun r => { r with eax := w.pid }) fits
  · rw [setProc_other _ _ _ same, note_other w _ same]
    exact fits

/-- What the report of an exit leaves. -/
structure Reported (proc : Ptr) (w : World) : Prop where
  saved : Saved Due w.accounts w.kernel
  current : w.kernel.procCurrent = proc
  leaves : Leaves w.kernel proc

theorem Reported.of_same {w w' : World} (reported : Reported proc w)
    (same : SameContexts w.kernel w'.kernel) (accounts : w'.accounts = w.accounts)
    (leaves : Leaves w'.kernel proc) : Reported proc w' where
  saved := by
    rw [accounts]
    exact reported.saved.of_same same
  current := same.current.trans reported.current
  leaves := leaves

theorem status_reported (parent : Ptr) (ret : Int) (reported : Reported proc w) :
    (storeStatusFaulting parent ret [] w).Ends (Reported proc) Between := by
  unfold storeStatusFaulting
  split
  · exact reported.of_same (same_contexts_refl _ _ _) rfl reported.leaves
  · exact reported

theorem end_wait_reported (parent : Ptr) (reported : Reported proc w) :
    Reported proc (w.update (endWait parent)) := by
  have leaves := (reported.leaves.set_proc parent (f := fun p => { p with wait := false }) fun _ => rfl).wake parent
  exact reported.of_same (end_wait_same_contexts parent w.kernel) rfl leaves

theorem report_reported (ret : Int) (saved : Saved Due w.accounts w.kernel) (clean : CleanExit w) :
    (reportExitFaulting ret [] w).Ends (Reported w.kernel.procCurrent) Between := by
  obtain ⟨once, awake, waits⟩ := clean
  unfold reportExitFaulting
  split
  · rename_i tells
    have leaves : Leaves (saveEax w.parent w.pid w.kernel) w.kernel.procCurrent :=
      Leaves.set_proc ⟨once, awake⟩ w.parent fun _ => rfl
    have answered : Reported w.kernel.procCurrent (answerParent w) :=
      ⟨answer_saved saved (waits tells), rfl, leaves⟩
    apply (status_reported w.parent ret answered).andThen
    intro _ t reported
    exact end_wait_reported w.parent reported
  · exact ⟨saved, rfl, once, awake⟩

/-- Who is left after an exit ran or slept before, with the same registers. -/
theorem exit_contexts (ret : Int) (k : Kernel) (p : Ptr) :
    ((exitCurrent ret k).procs p).registers = (k.procs p).registers ∧ (Live (exitCurrent ret k) p →
      p ∈ k.procRunning.erase k.procCurrent ∨ (k.procs p).isSleeping = true) := by
  have flags := setProc_keeps k k.procCurrent (fun q => { q with ret := ret, defunc := true })
    Proc.isSleeping (fun _ => rfl) p
  have registers := setProc_keeps k k.procCurrent (fun q => { q with ret := ret, defunc := true })
    Proc.registers (fun _ => rfl) p
  have running : (exitCurrent ret k).procRunning = k.procRunning.erase k.procCurrent :=
    congrArg Prod.snd (llist_remove_find k.procRunning k.procCurrent)
  exact ⟨registers, fun alive => alive.imp (running ▸ ·) flags.symm.trans⟩

theorem exit_between (ret : Int) (reported : Reported proc w) :
    (w.exec fun k => .idle (exitCurrent ret k)).Ends (Inside regDs) Between := by
  apply exec_ends
  · exact fun k ran => nomatch ran
  · intro k ran
    cases ran
    refine ⟨fun p some alive _ => ?_, fun _ => rfl, fun r resumed => nomatch resumed⟩
    obtain ⟨registers, left⟩ := exit_contexts ret w.kernel p
    have lived := left alive
    rw [reported.current] at lived
    have other : p ≠ proc := by
      rintro rfl
      rcases lived with runs | asleep
      · exact reported.leaves.1 runs
      · rw [reported.leaves.2] at asleep
        cases asleep
    have before : Live w.kernel p := lived.imp_left List.mem_of_mem_erase
    have fits := reported.saved p some before (reported.current ▸ other)
    exact registers.trans fits

/-! The main result. -/

section
variable (inside : Inside regDs w)
include inside

theorem note_inside (proc : Ptr) {f : Account → Account} (kept : ∀ a, (f a).due = a.due) :
    Inside regDs (w.note proc f) where
  saved := note_saved proc inside.saved kept
  framed some := (inside.framed some).trans (note_keeps Account.due w proc kept _).symm
  own := inside.own
  keeps := inside.keeps

theorem waitpid_inside (pid : Int) (stat : Ptr) (selectable : Selectable regDs w.kernel) :
    (w.exec (sleepWaiting pid stat)).Ends (Inside regDs) Between := by
  have noted : Inside regDs (w.update (noteWait pid stat)) :=
    inside.of_same (note_wait_same_contexts pid stat w.kernel) rfl rfl
  have choice : Selectable regDs (noteWait pid stat w.kernel) := by
    intro p running other
    rw [(note_wait_same_contexts pid stat w.kernel).registers]
    exact selectable p running other
  exact sleep_inside noted choice

theorem create_inside {c : Creation} (apart : c.new ≠ w.kernel.procCurrent) :
    (createProc c w).Ends (Inside regDs) Between := by
  unfold createProc
  split
  · have current := ProcmLists.create_current c w.kernel
    have curregs := create_curregs c w.kernel
    refine ⟨fun p some alive other => ?_, fun some => ?_, inside.own, fun some => ?_⟩
    · change Due ((procCreate c w.kernel).procs p).registers (Function.update w.accounts c.new _ p)
      by_cases same : p = c.new
      · subst same
        rw [Function.update_self, create_record]
        rfl
      · rw [Function.update_of_ne same, (create_same same).1]
        exact inside.saved p some ((create_same same).2 alive) (current ▸ other)
    · change Due (procCreate c w.kernel).curregs
        (Function.update w.accounts c.new _ (procCreate c w.kernel).procCurrent)
      rw [curregs, current, Function.update_of_ne apart.symm]
      exact inside.framed (current ▸ some)
    · change KeepsDs regDs (procCreate c w.kernel).curregs
      rw [curregs]
      exact inside.keeps (current ▸ some)
  · trivial

theorem note_call_inside (proc : Ptr) : Inside regDs (noteCall proc w) := by
  have fits := fits_iff.mp ⟨inside.saved, inside.framed⟩
  obtain ⟨saved, framed⟩ : Saved Due (noteCall proc w).accounts w.kernel ∧
      InFrame Due (noteCall proc w).accounts w.kernel := by
    refine fits_iff.mpr fun p some here => ?_
    have due : registersOf p w.kernel = (w.accounts p).due := fits p some here
    by_cases same : p = proc
    · subst same
      unfold Due
      rw [note_call_due, ← due]
      rfl
    · rw [note_call_other same]
      exact due
  exact ⟨saved, framed, inside.own, inside.keeps⟩

theorem call_inside {c : Call} (quiet : c.allFaults = []) :
    (procCall c w).Ends (Inside regDs) Between := by
  obtain ⟨params, last⟩ := List.append_eq_nil_iff.mp quiet
  have loaded : Inside regDs (noteCall c.proc (w.update (memuserLoadAddrspace c.proc))) :=
    update_called (same_contexts_refl w.kernel w.kernel.user _) (note_call_inside inside c.proc)
  unfold procCall
  split
  · exact inside
  · rw [inside.own, last]
    apply (params_ends (List.flatMap_eq_nil_iff.mp params) (fun _ => push_called c.proc) loaded).andThen
    intro _ t pushed
    apply (push_called c.proc _ pushed).andThen
    intro _ t' called
    have back : Inside regDs (noteCall c.proc (t'.update loadCurrent)) :=
      update_called (load_current_same_contexts t'.kernel) called
    have own : (t'.update loadCurrent).frame = none := back.own
    have set := set_eip_called c.proc c.func own back
    exact set.of_same (wake_same_contexts c.proc _) rfl rfl

theorem rpc_return_inside {caller : Ptr} :
    (rpcCallReturn caller [] w).Ends (Inside regDs) Between :=
  inside.of_same (rpc_return_same_contexts caller w.kernel) rfl rfl

theorem set_record_inside (proc : Ptr) (f : Registers → Registers) :
    Inside regDs (setRecord proc f w) := by
  have lived : ∀ p, Live (w.kernel.setProc proc fun q => { q with registers := f q.registers }) p →
      Live w.kernel p := fun p => (live_set_record w.kernel proc f).mp
  unfold setRecord
  split
  · rename_i current
    refine ⟨fun p some alive other => ?_, inside.framed, inside.own, inside.keeps⟩
    have apart : p ≠ proc := current ▸ other
    have record := setProc_other w.kernel proc (fun q => { q with registers := f q.registers }) apart
    change Due ((w.kernel.setProc proc fun q => { q with registers := f q.registers }).procs p).registers _
    rw [record]
    exact inside.saved p some (lived p alive) other
  · rename_i current
    refine ⟨fun p some alive other => ?_, fun some => ?_, inside.own, inside.keeps⟩
    · have fits := inside.saved p some (lived p alive) other
      change Due ((w.kernel.setProc proc fun q => { q with registers := f q.registers }).procs p).registers
        ((w.note proc fun a => { a with due := f a.due }).accounts p)
      by_cases same : p = proc
      · subst same
        rw [setProc_self, note_self]
        exact congrArg f fits
      · rw [setProc_other _ _ _ same, note_other w _ same]
        exact fits
    · change Due w.kernel.curregs ((w.note proc fun a => { a with due := f a.due }).accounts w.kernel.procCurrent)
      rw [note_other w _ (Ne.symm current)]
      exact inside.framed some

theorem exit_inside (ret : Int) (clean : CleanExit w) :
    (procExitFaulting ret [] w).Ends (Inside regDs) Between := by
  apply (report_reported ret inside.saved clean).andThen
  intro _ t reported
  have noted : Reported w.kernel.procCurrent (t.note t.kernel.procCurrent fun a => { a with owed := none }) :=
    ⟨note_saved t.kernel.procCurrent reported.saved fun _ => rfl, reported.current, reported.leaves⟩
  exact exit_between ret noted

theorem set_eax_inside (value : Int) (own : w.kernel.procCurrent = w.caller) :
    Inside regDs (setFrameEax value w) := by
  refine ⟨fun p some alive other => ?_, fun some => ?_, inside.own, fun some => ?_⟩
  · have apart : p ≠ w.caller := own ▸ other
    have account : (setFrameEax value w).accounts p = w.accounts p := Function.update_of_ne apart ..
    rw [account]
    exact inside.saved p some alive other
  · have due : ((setFrameEax value w).accounts w.caller).due =
        { (w.accounts w.caller).due with eax := BitVec.ofInt 32 value } := by
      unfold setFrameEax World.update
      rw [note_self]
    have fits : w.kernel.curregs = (w.accounts w.caller).due := own ▸ inside.framed some
    have current : (setFrameEax value w).kernel.procCurrent = w.caller := own
    rw [current]
    exact (congrArg (fun r => { r with eax := BitVec.ofInt 32 value }) fits).trans due.symm
  · cases regDs with
    | none => trivial
    | some _ => exact inside.keeps some

end

theorem grow_same_contexts (pages : Nat) (k : Kernel) : SameContexts k (growHeap pages k) := by
  rw [grow_eq]
  exact same_contexts_refl k k.user _

theorem op_inside (w : World) (op : Op) (inside : Inside regDs w) (isolating : Isolating regDs w op) :
    (op.exec w).Ends (Inside regDs) Between := by
  cases op with
  | malloc pages => exact inside.of_same (grow_same_contexts pages w.kernel) rfl rfl
  | wake proc => exact inside.of_same (wake_same_contexts proc w.kernel) rfl rfl
  | sleep => exact sleep_inside inside isolating
  | waitpid pid stat =>
    have noted : Inside regDs (w.note w.kernel.procCurrent fun a => { a with waiting := true }) :=
      note_inside inside w.kernel.procCurrent fun _ => rfl
    exact waitpid_inside noted pid stat isolating
  | create c => exact create_inside inside isolating
  | destroy proc =>
    change (destroyProc proc w).Ends _ _
    unfold destroyProc
    split
    · exact inside.of_same (destroy_same_contexts proc w) rfl rfl
    · trivial
  | setEax value => exact set_eax_inside inside value isolating
  | call c => exact call_inside inside isolating
  | jump proc dest => exact set_record_inside inside proc _
  | createstack proc stack => exact set_record_inside inside proc _
  | visit proc => exact inside.of_same (same_contexts_refl w.kernel w.kernel.user _) rfl rfl
  | rpcReturn caller faults =>
    cases isolating
    exact rpc_return_inside inside
  | exit ret faults =>
    obtain ⟨rfl, clean⟩ := isolating
    exact exit_inside inside ret clean
  | fault f => exact isolating.elim
  | shedule => exact shedule_inside inside isolating
  | resume =>
    change (sheduleIfNone w).Ends _ _
    unfold sheduleIfNone
    split
    · exact shedule_inside inside isolating
    · exact inside

theorem finish_inside (event : Event) (w : World) (inside : Inside regDs w) :
    Inside regDs (event.finish w) := by
  cases event with
  | syscall registers ops result =>
    change Inside regDs (syscallReturn result w)
    unfold syscallReturn
    split
    · exact set_eax_inside inside result ‹_›
    · exact inside
  | timer | irq | pagefault => exact inside

/-- The halves of a register put together again. -/
theorem join_halves (value : BitVec 32) : (value &&& 0xFFFF0000) ||| low value = value := by
  unfold low
  rw [← BitVec.and_or_distrib_left]
  exact BitVec.and_allOnes

theorem restore_keeps {event : Event} {r : Registers} (keeps : KeepsDs (restoredDs event) r) :
    event.restore r = r := by
  cases event with
  | syscall registers ops result =>
    obtain ⟨dx, ds⟩ := keeps
    change restoreDs registers.ds r = r
    rw [restoreDs, ← dx, join_halves, dx, ← ds]
  | timer | irq | pagefault => rfl

theorem push_paired {r : Registers} (paired : Paired r) : pushFrame r = r := by
  obtain ⟨ds, es⟩ := paired
  cases r
  simp only at ds es
  subst ds es
  rfl

/-- The stub writes no account but that of the process it interrupts. -/
theorem enter_saved (event : Event) (saved : Saved Fits w.accounts w.kernel) :
    Saved Fits (enter event w).accounts (enter event w).kernel := by
  intro p some alive other
  have account : interrupted event w p = w.accounts p := by
    unfold interrupted
    split
    · exact Function.update_of_ne other ..
    · rfl
  have fits := saved p some alive other
  rw [← account] at fits
  exact fits

theorem enter_account (event : Event) (user : w.user.isSome) :
    (enter event w).accounts w.kernel.procCurrent = event.account := by
  have accounts : (enter event w).accounts =
    Function.update w.accounts w.kernel.procCurrent event.account := if_pos user
  rw [accounts, Function.update_self]

theorem enter_inside {event : Event} (held : Between w) (isolating : IsolatingEvent w event) :
    Inside (restoredDs event) (enter event w) := by
  have saved := enter_saved event held.saved
  by_cases user : w.user.isSome
  · obtain ⟨paired, keeps⟩ := isolating.1 user
    have kernel : (enter event w).kernel = { w.kernel with curregs := event.registers } := by
      rw [← push_paired paired]
      rfl
    refine ⟨saved, fun _ => ?_, rfl, ?_⟩
    · have account : event.account.due = event.registers := by cases event <;> rfl
      rw [kernel]
      change event.registers = ((enter event w).accounts w.kernel.procCurrent).due
      rw [enter_account event user, account]
    · rw [kernel]
      exact fun _ => keeps
  · have idle : w.kernel.procCurrent = 0 := held.idle (by simpa using user)
    exact ⟨saved, fun some => absurd idle some, rfl, fun some => absurd idle some⟩

theorem step_between (w : World) (event : Event) (t : World) (held : Between w)
    (isolating : IsolatingEvent w event) (ran : step w event = some t) : Between t := by
  have handled := handle_ends op_inside (finish_inside event) (enter_inside held isolating) isolating.2
  apply step_ends handled _ ran
  intro m inside
  refine ⟨inside.saved, fun idle => (nomatch idle), fun r resumed some => ?_⟩
  have frame : m.frame.getD m.kernel.curregs = m.kernel.curregs := by rw [inside.own]; rfl
  have popped : event.restore (m.frame.getD m.kernel.curregs) = r := Option.some.inj resumed
  rw [← popped, frame, restore_keeps (inside.keeps some)]
  exact inside.framed some

theorem start_between (kernelpd : Ptr) (k : Kernel) : Between (start kernelpd k) where
  saved _ _ _ _ := rfl
  idle _ := rfl
  resumed _ resumed := nomatch resumed

/-- In every run in which interrupted processes have paired segment registers, system calls
are made and left with `ds` in `dx`, no page fault happens inside a handler, no process is
created in the block of the current one and `proc_exit` reports to no parent but one that
sleeps in `proc_waitpid`, a process that goes on in user mode has exactly the registers that
are due. -/
theorem contexts_are_isolated (kernelpd : Ptr) (k : Kernel) (events : List Event)
    (isolating : Along step IsolatingEvent (start kernelpd k) events) :
    Throughout step
      (fun w => ∀ r, w.user = some r → w.kernel.procCurrent ≠ 0 →
        r = (w.accounts w.kernel.procCurrent).due)
      (start kernelpd k) events := by
  have resumed : ∀ w, Between w → ∀ r, w.user = some r → w.kernel.procCurrent ≠ 0 →
      r = (w.accounts w.kernel.procCurrent).due := fun w held => held.resumed
  exact guarded_throughout resumed step_between (start_between kernelpd k) isolating

/-- A system call that touches nothing, as `proc_getpid`, leaves its caller with the `ds`
selector in `dx`. -/
theorem system_call_changes_dx :
    ∃ w r, run step (start 1 twoProcesses)
        [.timer initialRegisters [],
          .syscall { initialRegisters with edx := 0x12345678 } [] 1] = some w ∧
      w.user = some r ∧ w.kernel.procCurrent = 1 ∧
      (w.accounts 1).due.edx = 0x12345678 ∧ r.edx = 0x12340023 := by
  simp only [exists_and_left]
  decide +kernel

/-- Two processes with the selector in `dx`: one waits, the other is called, exits and is
reported, and the first goes on. -/
theorem selector_in_dx_is_isolated :
    let calls := { initialRegisters with edx := 0x23 }
    let called := fun (proc : Ptr) => { plainProc proc (proc - 1) [] (10 + proc) with registers := calls }
    Throughout step
      (fun w => ∀ r, w.user = some r → w.kernel.procCurrent ≠ 0 →
        r = (w.accounts w.kernel.procCurrent).due)
      (start 1 { twoProcesses with procs := called })
      [.timer calls [],
        .syscall calls [.waitpid (-1) 0x1000] (-1),
        .irq { calls with ecx := 7 } [.handler ⟨2, 0x40001000, [(1, [])], []⟩],
        .syscall { calls with ebx := 9 } [.exit 5 []] 0,
        .timer calls []] :=
  contexts_are_isolated 1 _ _ (by decide +kernel)

end MeinOS.InterruptContext
