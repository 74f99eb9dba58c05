import MeinOS.Interrupt

/-! Which address space is loaded when a handler ends.

Several handlers load the address space of another process for a while. They load the one
of the current process again before they end, on every path. There are two gaps. A page
fault while another address space is loaded runs a handler that ends in between. And the
record of the current process may lie in a block that was given back: a process that was
destroyed in its sleep is woken by its time-out, and the next `proc_create` may write over
its record. -/
namespace MeinOS.InterruptAddrspace
open Lib Lib.Runs Llist Procm Interrupt
open ProcmWait (noteWait)

/-- The loaded address space is that of the current process, if there is one. -/
def Loaded (k : Kernel) : Prop :=
  k.procCurrent ≠ 0 → k.curpd = (k.procs k.procCurrent).pagedir

/-- Every handler that ended left the address space of the current process loaded. -/
def EndedLoaded (w : World) : Prop := ∀ k ∈ w.ended, Loaded k

/-- It is loaded now, too. -/
structure Sound (w : World) : Prop where
  ended : EndedLoaded w
  loaded : Loaded w.kernel

/-- No page fault happens while the address space of this process is loaded, or it is the
one of the current process. -/
def Foreign (proc : Ptr) (faults : List Fault) (k : Kernel) : Prop :=
  faults = [] ∨ k.procCurrent = 0 ∨ (k.procs proc).pagedir = (k.procs k.procCurrent).pagedir

instance (proc : Ptr) (faults : List Fault) (k : Kernel) : Decidable (Foreign proc faults k) :=
  inferInstanceAs (Decidable (_ ∨ _))

/-- An operation that leaves the record and the address space of the current process alone. -/
def Careful (w : World) : Op → Prop
  | .create c => c.new ≠ w.kernel.procCurrent
  | .destroy proc => (w.kernel.procs proc).pagedir ≠ w.kernel.curpd
  | .call c => Foreign c.proc c.allFaults w.kernel
  | .rpcReturn caller faults => Foreign caller faults w.kernel
  | .exit _ faults => Foreign w.parent faults w.kernel
  | _ => True

instance (w : World) : (op : Op) → Decidable (Careful w op)
  | .create _ | .destroy _ => inferInstanceAs (Decidable (_ ≠ _))
  | .call _ | .rpcReturn _ _ | .exit _ _ => inferInstanceAs (Decidable (Foreign _ _ _))
  | .malloc _ | .wake _ | .sleep | .waitpid _ _ | .setEax _ | .jump _ _ | .createstack _ _
  | .visit _ | .fault _ | .shedule | .resume => isTrue trivial

/-- All operations of a handler are careful. -/
def CarefulEvent (w : World) (event : Event) : Prop :=
  Exec.EachMet Op.exec Careful event.ops (enter event w)

instance (w : World) (event : Event) : Decidable (CarefulEvent w event) :=
  inferInstanceAs (Decidable (Exec.EachMet _ _ _ _))

/-- The same current process, loaded address space and page directories. -/
structure SameSpaces (k k' : Kernel) : Prop where
  current : k'.procCurrent = k.procCurrent
  curpd : k'.curpd = k.curpd
  pagedir : ∀ p, (k'.procs p).pagedir = (k.procs p).pagedir

theorem SameSpaces.trans (first : SameSpaces k k') (second : SameSpaces k' k'') :
    SameSpaces k k'' where
  current := second.current.trans first.current
  curpd := second.curpd.trans first.curpd
  pagedir p := (second.pagedir p).trans (first.pagedir p)

theorem Loaded.of_same (loaded : Loaded k) (same : SameSpaces k k') : Loaded k' := by
  intro some
  rw [same.curpd, same.pagedir, same.current]
  exact loaded (same.current ▸ some)

theorem Foreign.of_same (foreign : Foreign proc faults k) (same : SameSpaces k k') :
    Foreign proc faults k' := by
  unfold Foreign
  rw [same.current, same.pagedir, same.pagedir]
  exact foreign

theorem Sound.of_same {w w' : World} (sound : Sound w) (same : SameSpaces w.kernel w'.kernel)
    (ended : w'.ended = w.ended) : Sound w' where
  ended := by
    unfold EndedLoaded
    rw [ended]
    exact sound.ended
  loaded := sound.loaded.of_same same

theorem set_proc_same_spaces (k : Kernel) (proc : Ptr) {f : Proc → Proc}
    (kept : ∀ p, (f p).pagedir = p.pagedir) : SameSpaces k (k.setProc proc f) :=
  ⟨rfl, rfl, setProc_keeps k proc f Proc.pagedir kept⟩

theorem wake_same_spaces (proc : Ptr) (k : Kernel) : SameSpaces k (procWake proc k) where
  current := by
    unfold procWake
    split <;> rfl
  curpd := by
    unfold procWake
    split <;> rfl
  pagedir := wake_keeps Proc.pagedir (fun _ _ => rfl) proc k

theorem set_registers_same_spaces (proc : Ptr) (f : Registers → Registers) (k : Kernel) :
    SameSpaces k (setRegisters proc f k) := by
  unfold setRegisters
  split
  · exact ⟨rfl, rfl, fun _ => rfl⟩
  · exact set_proc_same_spaces k proc fun _ => rfl

/-! The scheduler and the heap load the address space of the current process last. -/

theorem load_loaded (k : Kernel) : Loaded (memuserLoadAddrspace k.procCurrent k) := fun _ => rfl

theorem load_current_loaded (k : Kernel) : Loaded (loadCurrent k) := by
  unfold loadCurrent
  split
  · exact load_loaded k
  · intro some
    contradiction

theorem syncpds_loaded (k : Kernel) : Loaded (memuserSyncpds k) :=
  load_current_loaded (k.procAll.foldl (fun k proc => memuserLoadAddrspace proc k) k)

theorem grow_loaded (pages : Nat) {k : Kernel} (loaded : Loaded k) : Loaded (growHeap pages k) := by
  cases pages with
  | zero => exact loaded
  | succ pages =>
    unfold growHeap
    rw [Function.iterate_succ_apply']
    exact syncpds_loaded _

/-- The scheduler keeps page directories and loads one only for a new process. -/
theorem select_same_pagedirs (k : Kernel) :
    (sheduleSelect (sheduleCharge k)).curpd = k.curpd ∧
      ∀ p, ((sheduleSelect (sheduleCharge k)).procs p).pagedir = (k.procs p).pagedir := by
  constructor
  · exact (congrArg Kernel.curpd (select_eq k) :)
  · intro p
    rw [select_keeps Proc.pagedir fun _ _ => rfl, charge_keeps Proc.pagedir fun _ _ => rfl]

theorem shedule_loaded {k : Kernel} (loaded : Loaded k) : Loaded (procShedule k).state := by
  unfold procShedule
  split
  · split
    · exact loaded
    · intro some
      contradiction
  · obtain ⟨curpd, pagedir⟩ := select_same_pagedirs k
    intro some
    rw [Exec.state_ret, ProcmLists.shedule_switch_current, switch_keeps Proc.pagedir fun _ _ => rfl]
    rw [Exec.state_ret, ProcmLists.shedule_switch_current] at some
    by_cases switched : k.procCurrent ≠ (sheduleSelect (sheduleCharge k)).procCurrent
    · exact shedule_switch_curpd switched
    · have same := not_not.mp switched
      rw [sheduleSwitch, if_neg switched, curpd, pagedir, ← same]
      exact loaded (same ▸ some)

theorem sleep_loaded (proc : Ptr) {k : Kernel} (loaded : Loaded k) :
    Loaded (procSleep proc k).state := by
  have flagged : SameSpaces k (k.setProc proc fun p => { p with isSleeping := true }) :=
    set_proc_same_spaces k proc fun _ => rfl
  have moved : SameSpaces k (sleepMove proc k) := ⟨rfl, rfl, flagged.pagedir⟩
  unfold procSleep
  split
  · exact loaded
  · split
    · exact shedule_loaded (loaded.of_same moved)
    · exact loaded.of_same moved

theorem sleep_waiting_loaded (pid : Int) (stat : Ptr) {k : Kernel} (loaded : Loaded k) :
    Loaded (sleepWaiting pid stat k).state := by
  have noted : SameSpaces k (noteWait pid stat k) := set_proc_same_spaces k k.procCurrent fun _ => rfl
  exact sleep_loaded k.procCurrent (loaded.of_same noted)

theorem save_eax_same_spaces (proc : Ptr) (value : BitVec 32) (k : Kernel) :
    SameSpaces k (saveEax proc value k) := set_proc_same_spaces k proc fun _ => rfl

theorem create_loaded (c : Creation) {k : Kernel} (loaded : Loaded k)
    (apart : c.new ≠ k.procCurrent) : Loaded (procCreate c k) := by
  have current := ProcmLists.create_current c k
  have curpd : (procCreate c k).curpd = k.curpd := by
    unfold procCreate
    simp only [setProc_curpd]
    split <;> rfl
  have pagedir := create_keeps Proc.pagedir (fun _ _ => rfl) c k apart.symm
  intro some
  rw [current] at some ⊢
  rw [curpd, pagedir]
  exact loaded some

theorem exit_loaded (ret : Int) (k : Kernel) : Loaded (exitCurrent ret k) := by
  intro some
  contradiction

/-! What is done with the world. -/

section
variable {w : World}

/-- Code of the process manager that leaves the right address space. -/
theorem exec_sound {code : Kernel → Exec Kernel Unit} (sound : Sound w)
    (loaded : Loaded (code w.kernel).state) : (w.exec code).Ends Sound Sound := by
  apply exec_ends
  · intro k ran
    rw [ran] at loaded
    exact ⟨sound.ended, loaded⟩
  · intro k ran
    rw [ran] at loaded
    exact ⟨sound.ended, loaded⟩

/-- A handler that ends in a sound state. -/
theorem Sound.at_end (sound : Sound w) (user : Option Registers) :
    Sound { w with user := user, ended := w.ended ++ [w.kernel] } where
  ended := by
    intro k member
    rcases List.mem_append.mp member with earlier | last
    · exact sound.ended k earlier
    · rw [List.mem_singleton.mp last]
      exact sound.loaded
  loaded := sound.loaded

theorem page_fault_sound (f : Fault) (sound : Sound w) : (pageFault f w).Ends Sound Sound := by
  have entered : Loaded { w.kernel with curregs := pushFrame f.registers } :=
    sound.loaded.of_same ⟨rfl, rfl, fun _ => rfl⟩
  have grown : Sound (enterFault f w) := ⟨sound.ended, grow_loaded f.pages entered⟩
  unfold pageFault
  split
  · apply (exec_sound grown (shedule_loaded grown.loaded)).andThen
    intro _ t scheduled
    exact scheduled.at_end (some t.kernel.curregs)
  · exact grown.at_end w.user

theorem page_faults_sound (faults : List Fault) (sound : Sound w) :
    (pageFaults faults w).Ends Sound Sound :=
  Exec.each_ends_all (fun _ f held => page_fault_sound f held) sound

theorem push_sound (proc : Ptr) (value : BitVec 32) (faults : List Fault) (sound : Sound w) :
    (procPush proc value faults w).Ends Sound Sound := by
  have lowered : Sound (w.update (setRegisters proc fun r => { r with esp := r.esp - 4 })) :=
    sound.of_same (set_registers_same_spaces proc (fun r => { r with esp := r.esp - 4 }) w.kernel) rfl
  apply (page_faults_sound faults lowered).andThen
  intro _ t held
  exact held.of_same ⟨rfl, rfl, fun _ => rfl⟩ rfl

/-- Loading an address space that is the one of the current process. -/
theorem load_own_sound {proc : Ptr} (sound : Sound w)
    (own : w.kernel.procCurrent = 0 ∨ (w.kernel.procs proc).pagedir = (w.kernel.procs w.kernel.procCurrent).pagedir) :
    Sound (w.update (memuserLoadAddrspace proc)) := by
  refine ⟨sound.ended, fun some => ?_⟩
  rcases own with none | same
  · contradiction
  · exact same

/-- While another address space is loaded, only the ends of earlier handlers count. -/
theorem foreign_faults {proc : Ptr} {faults : List Fault} (sound : Sound w)
    (foreign : Foreign proc faults w.kernel) :
    (pageFaults faults (w.update (memuserLoadAddrspace proc))).Ends EndedLoaded Sound := by
  rcases foreign with none | own
  · subst none
    exact sound.ended
  · exact (page_faults_sound faults (load_own_sound sound own)).weaken fun _ held => held.ended

theorem params_sound (proc : Ptr) (params : List (BitVec 32 × List Fault)) (sound : Sound w) :
    (pushParams proc params w).Ends Sound Sound :=
  Exec.each_ends_all (fun _ param held => push_sound proc param.1 param.2 held) sound

/-- The stores of `proc_call`. -/
theorem foreign_pushes {c : Call} (eip : BitVec 32) (sound : Sound w)
    (foreign : Foreign c.proc c.allFaults w.kernel) :
    ((pushParams c.proc c.params (w.update (memuserLoadAddrspace c.proc))).andThen fun _ w =>
      procPush c.proc eip c.faults w).Ends EndedLoaded Sound := by
  rcases foreign with none | own
  · obtain ⟨params, last⟩ := List.append_eq_nil_iff.mp none
    have away : EndedLoaded (w.update (memuserLoadAddrspace c.proc)) := sound.ended
    apply (params_ends (List.flatMap_eq_nil_iff.mp params) (fun _ _ held => held) away).andThen
    intro _ t ended
    rw [last]
    exact ended
  · apply (params_sound c.proc c.params (load_own_sound sound own)).andThen
    intro _ t held
    exact (push_sound c.proc eip c.faults held).weaken fun _ kept => kept.ended

/-- The end of `proc_call` loads the address space of the current process. -/
theorem call_end_sound (proc : Ptr) (func : BitVec 32) (before : Option Registers)
    (ended : EndedLoaded w) :
    Sound ((noteCall proc (setEip proc func before (w.update loadCurrent))).update (procWake proc)) := by
  have back : Sound (w.update loadCurrent) := ⟨ended, load_current_loaded w.kernel⟩
  have set : Sound (setEip proc func before (w.update loadCurrent)) := by
    unfold setEip
    split
    · split
      · exact ⟨back.ended, back.loaded⟩
      · exact back.of_same (set_registers_same_spaces proc (fun r => { r with eip := func }) _) rfl
    · exact back.of_same (set_registers_same_spaces proc (fun r => { r with eip := func }) _) rfl
  exact set.of_same (wake_same_spaces proc _) rfl

theorem call_sound {c : Call} (sound : Sound w) (foreign : Foreign c.proc c.allFaults w.kernel) :
    (procCall c w).Ends Sound Sound := by
  unfold procCall
  split
  · exact sound
  · rw [← Exec.andThen_assoc]
    apply (foreign_pushes _ sound foreign).andThen
    intro _ t ended
    exact call_end_sound c.proc c.func w.frame ended

theorem rpc_return_sound {caller : Ptr} {faults : List Fault} (sound : Sound w)
    (foreign : Foreign caller faults w.kernel) : (rpcCallReturn caller faults w).Ends Sound Sound := by
  apply (foreign_faults sound foreign).andThen
  intro _ t ended
  have back : Sound (t.update fun k => memuserLoadAddrspace k.procCurrent k) :=
    ⟨ended, load_loaded t.kernel⟩
  exact back.of_same (wake_same_spaces caller _) rfl

section
variable {faults : List Fault} (ret : Int) (sound : Sound w)
include sound

theorem status_sound {parent : Ptr}
    (foreign : Foreign parent faults w.kernel) :
    (storeStatusFaulting parent ret faults w).Ends Sound Sound := by
  unfold storeStatusFaulting
  split
  · apply (foreign_faults sound foreign).andThen
    intro _ t ended
    exact ⟨ended, load_loaded (storeWord _ ret t.kernel)⟩
  · exact sound

theorem report_sound (foreign : Foreign w.parent faults w.kernel) :
    (reportExitFaulting ret faults w).Ends Sound Sound := by
  have answered : SameSpaces w.kernel (answerParent w).kernel :=
    save_eax_same_spaces w.parent w.pid w.kernel
  unfold reportExitFaulting
  split
  · apply (status_sound ret (sound.of_same answered rfl) (foreign.of_same answered)).andThen
    intro _ t held
    have cleared : SameSpaces t.kernel (t.kernel.setProc w.parent fun p => { p with wait := false }) :=
      set_proc_same_spaces t.kernel w.parent fun _ => rfl
    exact held.of_same (cleared.trans (wake_same_spaces w.parent _)) rfl
  · exact sound

theorem exit_sound (foreign : Foreign w.parent faults w.kernel) :
    (procExitFaulting ret faults w).Ends Sound Sound := by
  apply (report_sound ret sound foreign).andThen
  intro _ t held
  have noted : Sound (t.note t.kernel.procCurrent fun a => { a with owed := none }) :=
    ⟨held.ended, held.loaded⟩
  exact exec_sound noted (exit_loaded ret t.kernel)

end

theorem create_sound {c : Creation} (sound : Sound w) (apart : c.new ≠ w.kernel.procCurrent) :
    (createProc c w).Ends Sound Sound := by
  unfold createProc
  split
  · exact ⟨sound.ended, create_loaded c sound.loaded apart⟩
  · trivial

theorem destroy_loaded {proc : Ptr} (loaded : Loaded w.kernel)
    (apart : (w.kernel.procs proc).pagedir ≠ w.kernel.curpd) :
    Loaded (procDestroyWhole proc w).kernel := by
  have pagedir := destroy_keeps Proc.pagedir (fun _ _ => rfl) (fun _ _ => rfl) proc w.kernel
  have current : (procDestroyWhole proc w).kernel.procCurrent = w.kernel.procCurrent :=
    (congrArg Kernel.procCurrent (destroy_eq proc w.kernel) :)
  have curpd : (procDestroyWhole proc w).kernel.curpd = w.kernel.curpd := if_neg apart.symm
  intro some
  rw [current] at some ⊢
  rw [curpd]
  exact (loaded some).trans (pagedir w.kernel.procCurrent).symm

theorem destroy_sound {proc : Ptr} (sound : Sound w)
    (apart : (w.kernel.procs proc).pagedir ≠ w.kernel.curpd) :
    (destroyProc proc w).Ends Sound Sound := by
  unfold destroyProc
  split
  · exact ⟨sound.ended, destroy_loaded sound.loaded apart⟩
  · trivial

theorem set_eax_sound (value : Int) (sound : Sound w) : Sound (setFrameEax value w) :=
  sound.of_same ⟨rfl, rfl, fun _ => rfl⟩ rfl

theorem resume_sound (sound : Sound w) : (sheduleIfNone w).Ends Sound Sound := by
  unfold sheduleIfNone
  split
  · exact exec_sound sound (shedule_loaded sound.loaded)
  · exact sound

theorem set_record_sound (proc : Ptr) (f : Registers → Registers) (sound : Sound w) :
    Sound (setRecord proc f w) := by
  have written := set_proc_same_spaces w.kernel proc (f := fun p =>
    { p with registers := f p.registers }) fun _ => rfl
  unfold setRecord
  split
  · exact sound.of_same written rfl
  · exact sound.of_same written rfl

end

/-- Every careful operation keeps the address space of the current process loaded. -/
theorem op_sound (w : World) (op : Op) (sound : Sound w) (careful : Careful w op) :
    (op.exec w).Ends Sound Sound := by
  cases op with
  | malloc pages => exact ⟨sound.ended, grow_loaded pages sound.loaded⟩
  | wake proc => exact sound.of_same (wake_same_spaces proc w.kernel) rfl
  | sleep => exact exec_sound sound (sleep_loaded _ sound.loaded)
  | waitpid pid stat =>
    have noted : Sound (w.note w.kernel.procCurrent fun a => { a with waiting := true }) :=
      ⟨sound.ended, sound.loaded⟩
    exact exec_sound noted (sleep_waiting_loaded pid stat sound.loaded)
  | create c => exact create_sound sound careful
  | destroy proc => exact destroy_sound sound careful
  | setEax value => exact set_eax_sound value sound
  | call c => exact call_sound sound careful
  | jump proc dest => exact set_record_sound proc _ sound
  | createstack proc stack => exact set_record_sound proc _ sound
  | visit proc => exact ⟨sound.ended, load_loaded (memuserLoadAddrspace proc w.kernel)⟩
  | rpcReturn caller faults => exact rpc_return_sound sound careful
  | exit ret faults => exact exit_sound ret sound careful
  | fault f => exact page_fault_sound f sound
  | shedule => exact exec_sound sound (shedule_loaded sound.loaded)
  | resume => exact resume_sound sound

theorem finish_sound (event : Event) (w : World) (sound : Sound w) : Sound (event.finish w) := by
  cases event with
  | syscall registers ops result =>
    change Sound (syscallReturn result w)
    unfold syscallReturn
    split
    · exact set_eax_sound result sound
    · exact sound
  | timer | irq | pagefault => exact sound

theorem enter_sound (event : Event) {w : World} (sound : Sound w) : Sound (enter event w) := by
  constructor
  · exact List.forall_mem_nil _
  · exact sound.loaded.of_same ⟨rfl, rfl, fun _ => rfl⟩

theorem step_sound (w : World) (event : Event) (t : World) (sound : Sound w)
    (careful : CarefulEvent w event) (ran : step w event = some t) : Sound t := by
  apply step_ends (handle_ends op_sound (finish_sound event) (enter_sound event sound) careful) _ ran
  intro m held
  exact held.at_end _

/-- In every run in which no page fault happens while another address space is loaded, and
in which no process is created in the block of the current one and no page directory is
destroyed that is loaded, every handler leaves the address space of the current process
loaded. -/
theorem current_addrspace_is_loaded (kernelpd : Ptr) (k : Kernel) (events : List Event)
    (careful : Along step CarefulEvent (start kernelpd k) events) :
    Throughout step
      (fun w => ∀ k ∈ w.ended, k.procCurrent ≠ 0 → k.curpd = (k.procs k.procCurrent).pagedir)
      (start kernelpd k) events := by
  apply guarded_throughout (fun w (sound : Sound w) => sound.ended) step_sound _ careful
  exact ⟨List.forall_mem_nil _, fun some => absurd rfl some⟩

/-- A parent that waits with its status word on a page not yet in memory. -/
def faultyExit : List Event :=
  [.timer initialRegisters [],
    .syscall initialRegisters [.waitpid (-1) 0x40001000] (-1),
    .syscall initialRegisters [.exit 5 [⟨initialRegisters, 0⟩]] 0]

/-- A process that sleeps, is destroyed, is woken by its time-out and creates a process in
its own block. -/
def reusedBlock : List Event :=
  [.timer initialRegisters [],
    .syscall initialRegisters [.sleep] 0,
    .syscall initialRegisters [.destroy 1] 0,
    .timer initialRegisters [1],
    .syscall initialRegisters [.create ⟨1, twoProcesses.procs 0, 13, 0, 0, 0, false⟩] 3]

/-- The page fault handler inside `proc_exit` ends with the address space of the parent
loaded, and the system call that creates a process ends with an address space loaded that is
no longer the one of its caller. -/
theorem other_addrspace_stays_loaded :
    (∃ w, run step (start 1 twoProcesses) faultyExit = some w ∧ ∃ k ∈ w.ended,
      k.procCurrent = 2 ∧ k.curpd = 11 ∧ (k.procs k.procCurrent).pagedir = 12) ∧
    ∃ w, run step (start 1 twoProcesses) reusedBlock = some w ∧ ∃ k ∈ w.ended,
      k.procCurrent = 1 ∧ k.curpd = 11 ∧ (k.procs k.procCurrent).pagedir = 13 := by
  decide +kernel

/-- The same exit, with the status word on a page in memory. -/
theorem undisturbed_exit_is_loaded :
    Throughout step
      (fun w => ∀ k ∈ w.ended, k.procCurrent ≠ 0 → k.curpd = (k.procs k.procCurrent).pagedir)
      (start 1 twoProcesses)
      [.timer initialRegisters [],
        .syscall initialRegisters [.waitpid (-1) 0x40001000] (-1),
        .syscall initialRegisters [.visit 1, .exit 5 []] 0,
        .timer initialRegisters []] :=
  current_addrspace_is_loaded 1 twoProcesses _ (by decide +kernel)

end MeinOS.InterruptAddrspace
