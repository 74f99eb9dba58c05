import MeinOS.InterruptContext

/-! The results of system calls, `syscall_handler` in `kernel2/syscall.c`.

The result of a handler goes to `eax` in the frame if the caller is still the current
process. A handler that puts its caller to sleep returns while another process is current,
or does not return at all; the caller has then been saved with whatever `eax` the frame held
at that moment. Only `rpc_function_call` and `rpc_function_getinfo` store their result there
before they sleep. A page fault inside a handler moves `interrupt_curregs` to a frame that is
gone when the result is stored. -/
namespace MeinOS.SyscallResult
open Lib Lib.Runs Llist Procm Interrupt InterruptContext
open ProcmWait (noteWait tellsParent)

/-- A result that is owed is in `eax`. -/
def Owed (r : Registers) (a : Account) : Prop := ∀ value, a.owed = some value → r.eax = value

/-- While the caller is current, the frame holds its result already. -/
def Ready (result : BitVec 32) (w : World) : Prop :=
  w.caller ≠ 0 → w.kernel.procCurrent = w.caller → w.kernel.curregs.eax = result

instance (result : BitVec 32) (w : World) : Decidable (Ready result w) :=
  inferInstanceAs (Decidable (_ → _))

/-- The caller of a handler is put to sleep only with the result in its frame, `eax` is
written only while the caller is current, and there is no page fault in the handler. -/
def Answering (result : BitVec 32) (w : World) : Op → Prop
  | .sleep => Ready result w
  | .waitpid _ _ | .shedule | .resume => Ready result w
  | .setEax _ => w.kernel.procCurrent = w.caller
  | .call c => c.allFaults = []
  | .rpcReturn _ faults => faults = []
  | .exit _ faults => faults = []
  | .fault _ => False
  | _ => True

instance (result : BitVec 32) (w : World) : (op : Op) → Decidable (Answering result w op)
  | .sleep | .waitpid _ _ | .shedule | .resume => inferInstanceAs (Decidable (Ready result w))
  | .setEax _ => inferInstanceAs (Decidable (_ = _))
  | .call c => inferInstanceAs (Decidable (c.allFaults = []))
  | .rpcReturn _ faults | .exit _ faults => inferInstanceAs (Decidable (faults = []))
  | .fault _ => isFalse not_false
  | .malloc _ | .wake _ | .create _ | .destroy _ | .jump _ _ | .createstack _ _ | .visit _ =>
    isTrue trivial

/-- The value that `syscall_handler` stores. -/
def resultOf : Event → BitVec 32
  | .syscall _ _ result => BitVec.ofInt 32 result
  | _ => 0

/-- All operations of a handler leave the result to its caller. -/
def AnsweringEvent (w : World) (event : Event) : Prop :=
  Exec.EachMet Op.exec (Answering (resultOf event)) event.ops (enter event w)

instance (w : World) (event : Event) : Decidable (AnsweringEvent w event) :=
  inferInstanceAs (Decidable (Exec.EachMet _ _ _ _))

/-- Inside a handler. The caller is owed no other value than the result. -/
structure Delivering (caller : Ptr) (result : BitVec 32) (w : World) : Prop where
  whose : w.caller = caller
  saved : Saved Owed w.accounts w.kernel
  framed : w.kernel.procCurrent ≠ w.caller → InFrame Owed w.accounts w.kernel
  own : w.frame = none
  promised : w.caller ≠ 0 → ∀ value, (w.accounts w.caller).owed = some value → value = result

/-- Between two interrupts. -/
structure Delivered (w : World) : Prop where
  saved : Saved Owed w.accounts w.kernel
  idle : w.user = none → w.kernel.procCurrent = 0
  resumed : ∀ r, w.user = some r → w.kernel.procCurrent ≠ 0 → Owed r (w.accounts w.kernel.procCurrent)

theorem Delivering.of_same {w w' : World} (held : Delivering caller result w)
    (same : SameContexts w.kernel w'.kernel) (owed : ∀ p, (w'.accounts p).owed = (w.accounts p).owed)
    (frame : w'.frame = w.frame) (same_caller : w'.caller = w.caller) : Delivering caller result w' where
  whose := same_caller.trans held.whose
  saved p some alive other value promised :=
    held.saved.of_same same p some alive other value ((owed p).symm.trans promised)
  framed other some value promised := by
    rw [same.current, same_caller] at other
    exact (held.framed other).of_same same some value ((owed _).symm.trans promised)
  own := frame.trans held.own
  promised := by
    rw [same_caller, owed]
    exact held.promised

variable {w : World}

theorem note_call_owed (proc : Ptr) (w : World) (p : Ptr) :
    ((noteCall proc w).accounts p).owed = (w.accounts p).owed :=
  note_keeps Account.owed w proc (f := fun a => { a with due := moveTo a.due (registersOf proc w.kernel) })
    (fun _ => rfl) p

theorem status_saved (parent : Ptr) (ret : Int) (saved : Saved Owed w.accounts w.kernel) :
    (storeStatusFaulting parent ret [] w).Ends
      (fun t => Saved Owed t.accounts t.kernel) Delivered := by
  unfold storeStatusFaulting
  split
  · exact saved.of_same (same_contexts_refl _ _ _)
  · exact saved

/-- The process that exits is owed nothing. -/
theorem exit_delivered (ret : Int) (saved : Saved Owed w.accounts w.kernel) :
    ((w.note w.kernel.procCurrent fun a => { a with owed := none }).exec fun k =>
      .idle (exitCurrent ret k)).Ends (Delivering caller result) Delivered := by
  apply exec_ends
  · exact fun k ran => nomatch ran
  · intro k ran
    cases ran
    refine ⟨fun p some alive _ value promised => ?_, fun _ => rfl, fun r resumed => nomatch resumed⟩
    obtain ⟨registers, left⟩ := exit_contexts ret w.kernel p
    have lived : Live w.kernel p := (left alive).imp_left List.mem_of_mem_erase
    change ((w.note w.kernel.procCurrent fun a => { a with owed := none }).accounts p).owed = _ at promised
    by_cases same : p = w.kernel.procCurrent
    · subst same
      rw [note_self] at promised
      cases promised
    · rw [note_other w _ same] at promised
      exact (congrArg Registers.eax registers).trans (saved p some lived same value promised)

section
variable (held : Delivering caller result w)
include held

/-- With the result in the frame, the frame fits whoever is current. -/
theorem Delivering.in_frame (ready : Ready result w) : InFrame Owed w.accounts w.kernel := by
  by_cases current : w.kernel.procCurrent = w.caller
  · intro some value promised
    have real : w.caller ≠ 0 := current ▸ some
    rw [current] at promised
    rw [held.promised real value promised]
    exact ready real current
  · exact held.framed current

/-- Code that may end in the scheduler. -/
theorem exec_delivering {code : Kernel → Exec Kernel Unit}
    (saved : Saved Owed w.accounts (code w.kernel).state)
    (framed : InFrame Owed w.accounts (code w.kernel).state)
    (idle : ∀ k, code w.kernel = .idle k → k.procCurrent = 0) :
    (w.exec code).Ends (Delivering caller result) Delivered := by
  apply exec_ends
  · intro k ran
    rw [ran] at saved framed
    exact ⟨held.whose, saved, fun _ => framed, held.own, held.promised⟩
  · intro k ran
    rw [ran] at saved
    exact ⟨saved, fun _ => idle k ran, fun r resumed => nomatch resumed⟩

theorem shedule_delivering (ready : Ready result w) :
    (w.exec procShedule).Ends (Delivering caller result) Delivered := by
  apply exec_delivering held
  · exact shedule_saved held.saved (held.in_frame ready)
  · exact shedule_in_frame held.saved (held.in_frame ready)
  · exact fun k ran => shedule_idle ran

theorem sleep_delivering (ready : Ready result w) :
    (w.exec fun k => procSleep k.procCurrent k).Ends (Delivering caller result) Delivered := by
  apply exec_delivering held
  · exact sleep_saved held.saved (held.in_frame ready)
  · exact sleep_in_frame held.saved (held.in_frame ready)
  · exact fun k ran => sleep_idle ran

theorem waitpid_delivering (pid : Int) (stat : Ptr) (ready : Ready result w) :
    ((Op.waitpid pid stat).exec w).Ends (Delivering caller result) Delivered := by
  have owed := note_keeps Account.owed w w.kernel.procCurrent (f := fun a => { a with waiting := true }) fun _ => rfl
  have noted : Delivering caller result
      ((w.note w.kernel.procCurrent fun a => { a with waiting := true }).update (noteWait pid stat)) :=
    held.of_same (note_wait_same_contexts pid stat w.kernel) owed rfl rfl
  exact sleep_delivering noted ready

/-- Registers may change as long as `eax` stays. -/
theorem set_registers_delivering (proc : Ptr) {f : Registers → Registers}
    (kept : ∀ r, (f r).eax = r.eax) :
    Delivering caller result (w.update (setRegisters proc f)) := by
  by_cases current : w.kernel.procCurrent = proc
  · have written : (w.update (setRegisters proc f)).kernel =
      { w.kernel with curregs := f w.kernel.curregs } := if_pos current
    refine ⟨held.whose, ?_, ?_, held.own, held.promised⟩
    · rw [written]
      exact held.saved
    · rw [written]
      intro other some value promised
      exact (kept _).trans (held.framed other some value promised)
  · have written : (w.update (setRegisters proc f)).kernel =
      w.kernel.setProc proc fun q => { q with registers := f q.registers } := if_neg current
    have eax := setProc_keeps w.kernel proc (fun q => { q with registers := f q.registers })
      (fun q => q.registers.eax) fun _ => kept _
    refine ⟨held.whose, ?_, ?_, held.own, held.promised⟩
    · rw [written]
      intro p some alive other value promised
      have lived : Live w.kernel p := (live_set_record w.kernel proc f).mp alive
      exact (eax p).trans (held.saved p some lived other value promised)
    · rw [written]
      exact held.framed

theorem push_delivering (proc : Ptr) (value : BitVec 32) :
    (procPush proc value [] w).Ends (Delivering caller result) Delivered := by
  have lowered := set_registers_delivering held proc (f := fun r => { r with esp := r.esp - 4 }) fun _ => rfl
  rw [quiet_push]
  exact lowered.of_same (same_contexts_refl _ _ _) (fun _ => rfl) rfl rfl

theorem set_eip_delivering (proc : Ptr) (func : BitVec 32) :
    Delivering caller result (setEip proc func none w) := by
  unfold setEip
  rw [held.own]
  exact set_registers_delivering held proc (f := fun r => { r with eip := func }) fun _ => rfl

theorem call_delivering {c : Call} (quiet : c.allFaults = []) :
    (procCall c w).Ends (Delivering caller result) Delivered := by
  obtain ⟨params, last⟩ := List.append_eq_nil_iff.mp quiet
  have loaded : Delivering caller result (w.update (memuserLoadAddrspace c.proc)) :=
    held.of_same (same_contexts_refl w.kernel w.kernel.user _) (fun _ => rfl) rfl rfl
  unfold procCall
  split
  · exact held
  · rw [held.own, last]
    apply (params_ends (List.flatMap_eq_nil_iff.mp params)
      (fun _ value held => push_delivering held c.proc value) loaded).andThen
    intro _ t pushed
    apply (push_delivering pushed c.proc _).andThen
    intro _ t' called
    have back : Delivering caller result (t'.update loadCurrent) :=
      called.of_same (load_current_same_contexts t'.kernel) (fun _ => rfl) rfl rfl
    have set := set_eip_delivering back c.proc c.func
    have owed := note_call_owed c.proc (setEip c.proc c.func none (t'.update loadCurrent))
    exact set.of_same (wake_same_contexts c.proc _) owed rfl rfl

theorem rpc_return_delivering {proc : Ptr} :
    (rpcCallReturn proc [] w).Ends (Delivering caller result) Delivered :=
  held.of_same (rpc_return_same_contexts proc w.kernel) (fun _ => rfl) rfl rfl

theorem set_record_delivering (proc : Ptr) {f : Registers → Registers}
    (kept : ∀ r, (f r).eax = r.eax) : Delivering caller result (setRecord proc f w) := by
  have eax := setProc_keeps w.kernel proc (fun q => { q with registers := f q.registers })
    (fun q => q.registers.eax) fun _ => kept _
  have written : Delivering caller result
      (w.update fun k => k.setProc proc fun q => { q with registers := f q.registers }) := by
    refine ⟨held.whose, fun p some alive other value promised => ?_, held.framed, held.own, held.promised⟩
    have lived : Live w.kernel p := (live_set_record w.kernel proc f).mp alive
    exact (eax p).trans (held.saved p some lived other value promised)
  unfold setRecord
  split
  · exact written
  · have owed := note_keeps Account.owed w proc (f := fun a => { a with due := f a.due }) fun _ => rfl
    exact written.of_same ⟨rfl, rfl, fun _ => rfl, fun _ alive => alive⟩ owed rfl rfl

theorem create_delivering {c : Creation} :
    (createProc c w).Ends (Delivering caller result) Delivered := by
  unfold createProc
  split
  · have current := ProcmLists.create_current c w.kernel
    have curregs := create_curregs c w.kernel
    -- The account of the new process owes nothing, also if its block is that of the current one.
    have owed : ∀ p value, ((w.note c.new fun _ => ⟨initialRegisters, false, none⟩).accounts p).owed =
        some value → p ≠ c.new ∧ (w.accounts p).owed = some value := by
      intro p value promised
      by_cases same : p = c.new
      · subst same
        rw [note_self] at promised
        cases promised
      · rw [note_other w _ same] at promised
        exact ⟨same, promised⟩
    refine ⟨held.whose, ?_, ?_, held.own, ?_⟩
    · intro p some alive other value promised
      obtain ⟨apart, before⟩ := owed p value promised
      obtain ⟨registers, lived⟩ := create_same (k := w.kernel) apart
      exact (congrArg Registers.eax registers).trans
        (held.saved p some (lived alive) (current ▸ other) value before)
    · intro other some value promised
      obtain ⟨-, before⟩ := owed _ value promised
      have account : (w.accounts w.kernel.procCurrent).owed = Option.some value := current ▸ before
      exact (congrArg Registers.eax curregs).trans
        (held.framed (current ▸ other) (current ▸ some) value account)
    · intro real value promised
      exact held.promised real value (owed _ value promised).2
  · trivial

/-- Reports take nothing from a process that is owed a result. -/
theorem answer_delivering : Saved Owed (answerParent w).accounts (answerParent w).kernel := by
  intro p some alive other value promised
  have lived : Live w.kernel p :=
    (live_set_record w.kernel w.parent fun r => { r with eax := w.pid }).mp alive
  change ((noteReport w.parent w.pid w).accounts p).owed = Option.some value at promised
  unfold noteReport at promised
  by_cases same : p = w.parent
  · subst same
    rw [note_self] at promised
    cases promised
  · rw [note_other w _ same] at promised
    have record := setProc_other w.kernel w.parent
      (fun q => { q with registers := { q.registers with eax := w.pid } }) same
    exact (congrArg (fun q => q.registers.eax) record).trans
      (held.saved p some lived other value promised)

theorem report_delivering (ret : Int) :
    (reportExitFaulting ret [] w).Ends (fun t => Saved Owed t.accounts t.kernel) Delivered := by
  unfold reportExitFaulting
  split
  · apply (status_saved w.parent ret (answer_delivering held)).andThen
    intro _ t saved
    exact saved.of_same (end_wait_same_contexts w.parent t.kernel)
  · exact held.saved

theorem exit_delivering (ret : Int) :
    (procExitFaulting ret [] w).Ends (Delivering caller result) Delivered := by
  apply (report_delivering held ret).andThen
  intro _ t saved
  exact exit_delivered ret saved

theorem set_eax_delivering (value : Int) (own : w.kernel.procCurrent = w.caller) :
    Delivering caller result (setFrameEax value w) := by
  have owed : ∀ p, ((setFrameEax value w).accounts p).owed = (w.accounts p).owed :=
    note_keeps Account.owed w w.caller
      (f := fun a => { a with due := { a.due with eax := BitVec.ofInt 32 value } }) fun _ => rfl
  refine ⟨held.whose, ?_, fun other => absurd own other, held.own, ?_⟩
  · intro p some alive other stored promised
    exact held.saved p some alive other stored ((owed p).symm.trans promised)
  · intro real stored promised
    exact held.promised real stored ((owed _).symm.trans promised)

end

theorem op_delivering (w : World) (op : Op) (held : Delivering caller result w)
    (answering : Answering result w op) : (op.exec w).Ends (Delivering caller result) Delivered := by
  cases op with
  | malloc pages => exact held.of_same (grow_same_contexts pages w.kernel) (fun _ => rfl) rfl rfl
  | wake proc => exact held.of_same (wake_same_contexts proc w.kernel) (fun _ => rfl) rfl rfl
  | sleep => exact sleep_delivering held answering
  | waitpid pid stat => exact waitpid_delivering held pid stat answering
  | create c => exact create_delivering held
  | destroy proc =>
    change (destroyProc proc w).Ends _ _
    unfold destroyProc
    split
    · exact held.of_same (destroy_same_contexts proc w) (fun _ => rfl) rfl rfl
    · trivial
  | setEax value => exact set_eax_delivering held value answering
  | call c => exact call_delivering held answering
  | jump proc dest => exact set_record_delivering held proc fun _ => rfl
  | createstack proc stack => exact set_record_delivering held proc fun _ => rfl
  | visit proc => exact held.of_same (same_contexts_refl w.kernel w.kernel.user _) (fun _ => rfl) rfl rfl
  | rpcReturn proc faults =>
    cases answering
    exact rpc_return_delivering held
  | exit ret faults =>
    cases answering
    exact exit_delivering held ret
  | fault f => exact answering.elim
  | shedule => exact shedule_delivering held answering
  | resume =>
    change (sheduleIfNone w).Ends _ _
    unfold sheduleIfNone
    split
    · exact shedule_delivering held answering
    · exact held

/-- After the last line of `syscall_handler` the frame fits the current process. -/
structure Returned (w : World) : Prop where
  saved : Saved Owed w.accounts w.kernel
  framed : InFrame Owed w.accounts w.kernel
  own : w.frame = none

theorem syscall_returned (result : Int) (held : Delivering caller (BitVec.ofInt 32 result) w) :
    Returned (syscallReturn result w) := by
  unfold syscallReturn
  split
  · rename_i own
    have stored := set_eax_delivering held result own
    refine ⟨stored.saved, fun some value promised => ?_, stored.own⟩
    have real : w.caller ≠ 0 := own ▸ some
    have current : (setFrameEax result w).kernel.procCurrent = w.caller := own
    rw [current] at promised
    exact (stored.promised real value promised).symm
  · exact ⟨held.saved, held.framed ‹_›, held.own⟩

/-- The caller of the handler of an event. -/
def callerOf (w : World) : Event → Ptr
  | .syscall _ _ _ => w.kernel.procCurrent
  | _ => 0

/-- Without a caller the frame has fitted all along. -/
theorem Delivering.returned (held : Delivering 0 result w) : Returned w := by
  refine ⟨held.saved, fun some => ?_, held.own⟩
  have other : w.kernel.procCurrent ≠ w.caller := by
    rw [held.whose]
    exact some
  exact held.framed other some

theorem finish_returned (m : World) (event : Event) (w : World)
    (held : Delivering (callerOf m event) (resultOf event) w) : Returned (event.finish w) := by
  cases event with
  | syscall registers ops result => exact syscall_returned result held
  | timer | irq | pagefault => exact Delivering.returned held

theorem enter_delivering (event : Event) (held : Delivered w) :
    Delivering (callerOf w event) (resultOf event) (enter event w) := by
  have whose : (enter event w).caller = callerOf w event := by cases event <;> rfl
  have saved := enter_saved event held.saved
  by_cases user : w.user.isSome
  · have account := enter_account event user
    refine ⟨whose, saved, ?_, rfl, ?_⟩
    · rw [whose]
      intro other some value promised
      change ((enter event w).accounts w.kernel.procCurrent).owed = _ at promised
      rw [account] at promised
      cases event with
      | syscall => exact absurd rfl other
      | timer | irq | pagefault => cases promised
    · rw [whose]
      intro real value promised
      cases event with
      | syscall registers ops result =>
        change ((enter _ w).accounts w.kernel.procCurrent).owed = _ at promised
        rw [account] at promised
        exact (Option.some.inj promised).symm
      | timer | irq | pagefault => exact absurd rfl real
  · have idle : w.kernel.procCurrent = 0 := held.idle (by simpa using user)
    have nobody : callerOf w event = 0 := by cases event <;> first | exact idle | rfl
    exact ⟨whose, saved, fun _ some => absurd idle some, rfl,
      fun real => absurd (whose.trans nobody) real⟩

theorem restore_eax (event : Event) (r : Registers) : (event.restore r).eax = r.eax := by
  cases event <;> rfl

theorem step_delivered (w : World) (event : Event) (t : World) (held : Delivered w)
    (answering : AnsweringEvent w event) (ran : step w event = some t) : Delivered t := by
  have handled := handle_ends op_delivering (finish_returned w event) (enter_delivering event held) answering
  apply step_ends handled _ ran
  intro m returned
  refine ⟨returned.saved, fun idle => (nomatch idle), fun r resumed some value promised => ?_⟩
  have frame : m.frame.getD m.kernel.curregs = m.kernel.curregs := by rw [returned.own]; rfl
  have popped : event.restore (m.frame.getD m.kernel.curregs) = r := Option.some.inj resumed
  rw [← popped, frame, restore_eax]
  exact returned.framed some value promised

theorem start_delivered (kernelpd : Ptr) (k : Kernel) : Delivered (start kernelpd k) where
  saved _ _ _ _ _ promised := nomatch promised
  idle _ := rfl
  resumed _ resumed := nomatch resumed

/-- The `eax` that a process goes on with: in the frame of the handler for the current one,
in its record for the others. -/
def eaxOf (w : World) (proc : Ptr) : BitVec 32 :=
  if proc = w.kernel.procCurrent then (w.frame.getD w.kernel.curregs).eax
  else (w.kernel.procs proc).registers.eax

/-- In every run in which a handler puts its caller to sleep only with its result in the
frame, writes `eax` only while its caller is current and has no page fault, a process that
goes on after a system call has the result in `eax`, unless other code has written its saved
`eax`. The return of a handler changes `eax` of no process but its caller in any state. -/
theorem results_are_delivered (kernelpd : Ptr) (k : Kernel) (events : List Event)
    (answering : Along step AnsweringEvent (start kernelpd k) events) :
    Throughout step
        (fun w => ∀ r value, w.user = some r → w.kernel.procCurrent ≠ 0 →
          (w.accounts w.kernel.procCurrent).owed = some value → r.eax = value)
        (start kernelpd k) events ∧
      ∀ w result proc, proc ≠ w.caller → eaxOf (syscallReturn result w) proc = eaxOf w proc := by
  constructor
  · have resumed : ∀ w, Delivered w → ∀ r value, w.user = some r → w.kernel.procCurrent ≠ 0 →
        (w.accounts w.kernel.procCurrent).owed = some value → r.eax = value :=
      fun w held r value user some promised => held.resumed r user some value promised
    exact guarded_throughout resumed step_delivered (start_delivered kernelpd k) answering
  · intro w result proc other
    unfold syscallReturn
    split
    · rename_i own
      have apart : proc ≠ w.kernel.procCurrent := fun same => other (same.trans own)
      have kept : proc ≠ (setFrameEax result w).kernel.procCurrent := apart
      rw [eaxOf, eaxOf, if_neg apart, if_neg kept]
      rfl
    · rfl

/-! Handlers that put their caller to sleep. -/

/-- `interrupt_time_sleep`. -/
def interruptTimeSleep (pages : Nat) : List Op := [.malloc pages, .sleep]

/-- `rpc_function_call`. -/
def rpcFunctionCall (pages : Nat) (owner : Ptr) : List Op :=
  [.malloc pages, .wake owner, .setEax 0, .sleep]

/-- A process with 5 in `eax` calls `interrupt_time_sleep`, which returns 0. When its time is
over it goes on with 5. -/
theorem sleeper_misses_result :
    ∃ w r, run step (start 1 twoProcesses)
        [.timer initialRegisters [],
          .syscall { initialRegisters with eax := 5 } (interruptTimeSleep 0) 0,
          .timer initialRegisters [1]] = some w ∧
      w.user = some r ∧ w.kernel.procCurrent = 1 ∧ (w.accounts 1).owed = some 0 ∧ r.eax = 5 := by
  simp only [exists_and_left]
  decide +kernel

/-- The same process calls a function of the other one instead, which answers it. -/
theorem rpc_caller_gets_result :
    let events : List Event :=
      [.timer initialRegisters [],
        .syscall { initialRegisters with eax := 5 } (rpcFunctionCall 0 2) 0,
        .syscall initialRegisters [.rpcReturn 1 []] 0,
        .timer initialRegisters []]
    Throughout step
        (fun w => ∀ r value, w.user = some r → w.kernel.procCurrent ≠ 0 →
          (w.accounts w.kernel.procCurrent).owed = some value → r.eax = value)
        (start 1 twoProcesses) events ∧
      ∀ w result proc, proc ≠ w.caller → eaxOf (syscallReturn result w) proc = eaxOf w proc :=
  results_are_delivered 1 twoProcesses _ (by decide +kernel)

end MeinOS.SyscallResult
