import MeinOS.SemLibrary
import MeinOS.IpcAccess

/-! Calls that are not to block. Programs are given 0x800 for `IPC_NOWAIT`, while the kernel
has 0x203 for it and takes the flags as they come: it does not see that a program asks not to
wait. `ipc_msg_send` takes any flag outside 0x203 for a wish to wait. `ipc_sem_op` does not
look at the flags of an operation 0, and returns 0 for one it gives up. -/
namespace MeinOS.IpcNowait
open Lib Llist Procm Ipc Msg Sem SemLibrary IpcAccess
open SemLedger (executes)

/-- The call of `ipc_sem_op` puts its caller to sleep. -/
def OpSleeps (c : OpCall) (s : Sems) : Prop :=
  ∃ a ∈ applied c s, a.proc = s.kernel.procCurrent ∧ a.sleeps = true

/-- The states in which `semop` makes its system calls. -/
def semopRounds (c : OpCall) (s : Sems) (o : SemOthers s) (fuel : Nat) : List Sems :=
  rounds (fun round t => 0 ≤ opAnswer c (o.eax round) t && opAnswer c (o.eax round) t < c.nops)
    (fun round t => o.between round (ipcSemOp c t).state) fuel 0 s

/-- `semop` does not put its caller to sleep, and reports operations that cannot all be done. -/
structure SemopNonblocking (c : OpCall) (s : Sems) : Prop where
  awake : ∀ o fuel, ∀ t ∈ semopRounds c s o fuel, ¬ OpSleeps c t
  reported : ¬ AllProceed c c.nops 0 s →
    ∀ o, ∃ fuel out, semop c s o fuel = some out ∧ out.ret = -1

/-- The call puts its caller to sleep. -/
def Sleeps (caller : Ptr) (done : Exec Queues α) : Prop :=
  (done.state.kernel.procs caller).isSleeping = true

/-- The other processes while a call of `msgrcv` that began in this state goes on. -/
abbrev MsgOthers (s : Queues) := Others (fun t : Queues => t.kernel) s.kernel

/-- The result of `ipc_msg_recv` as `msgrcv` sees it. -/
def recvAnswer (c : Recv) (eax : BitVec 32) (s : Queues) : Int :=
  answer (fun t : Queues => t.kernel) eax s.kernel.procCurrent
    ((ipcMsgRecv c s).andThen fun received t => .ret received.ret t)

/-- The states in which `msgrcv` makes its system calls: it calls again when it gets 0. -/
def msgrcvRounds (c : Recv) (s : Queues) (o : MsgOthers s) (fuel : Nat) : List Queues :=
  rounds (fun round t => recvAnswer c (o.eax round) t = 0)
    (fun round t => o.between round (ipcMsgRecv c t).state) fuel 0 s

/-- The library calls that can be asked not to wait. `msgsnd` makes one system call. -/
inductive Request where
  | semop (c : OpCall)
  | msgsnd (c : Send)
  | msgrcv (c : Recv)

/-- The request carries the flag that programs know as `IPC_NOWAIT`, with every operation. -/
def CarriesNowait (w : World) : Request → Prop
  | .semop c => ∀ i < c.nops, (c.ops w.kernel.curpd i).flags &&& 0x800 ≠ 0
  | .msgsnd c => c.flags &&& 0x800 ≠ 0
  | .msgrcv c => c.flags &&& 0x800 ≠ 0

/-- The caller is not put to sleep, and operations that cannot be done are reported. -/
def Nonblocking (w : World) : Request → Prop
  | .semop c => SemopNonblocking c w.sems
  | .msgsnd c => ¬ Sleeps w.kernel.procCurrent (ipcMsgSend c w.queues)
  | .msgrcv c => ∀ o fuel, ∀ t ∈ msgrcvRounds c w.queues o fuel,
    ¬ Sleeps t.kernel.procCurrent (ipcMsgRecv c t)

/-- The walk ends at an operation that puts the caller to sleep. -/
def blocks : Stop → Bool
  | .waits _ | .zero _ => true
  | _ => false

/-- There are no values for which the array blocks. -/
def NeverBlocks (c : OpCall) (pagedir : Ptr) : Prop :=
  ∀ t : Sems, t.kernel.curpd = pagedir → blocks (walk c c.nops 0 t).1 = false

/-- The queue has a message that the call takes, with at least a byte for it to copy. -/
def Copies (c : Recv) (msq : Ptr) (s : Queues) : Prop :=
  ∃ msg, (recvIndex c msq s).bind (llistGet (s.msqs msq).msgs) = some msg ∧
    0 < c.msgsz ∧ 0 < (s.message c.stale msg).size

/-- What is needed for a request not to block. -/
def Spared (w : World) : Request → Prop
  | .semop c => (∃ i e, (walk c c.nops 0 w.sems).1 = .refused i e) ∨
    (walk c c.nops 0 w.sems).1 = .done ∧ NeverBlocks c w.kernel.curpd
  | .msgsnd c => Msg.target c.id .w w.queues = none
  | .msgrcv c => c.flags &&& ipcNowait ≠ 0 ∨
    ∀ msq, Msg.target c.id .r w.queues = some msq → Copies c msq w.queues

section Semop
variable {s : Sems} {c : OpCall} {left i : Nat}

/-- The call puts its caller to sleep exactly if its walk ends at such an operation. -/
theorem applied_sleeps_iff (runs : CallerRuns s.kernel) :
    (∃ a ∈ appliedFrom c left i s, a.proc = s.kernel.procCurrent ∧ a.sleeps = true) ↔
      blocks (walk c left i s).1 = true := by
  induction left generalizing i s with
  | zero => simp [appliedFrom, walk, blocks]
  | succ left ih =>
    rw [appliedFrom, walk]
    cases found : semOf c.id (c.ops s.kernel.curpd i) s with
    | error e => simp [blocks]
    | ok sem =>
      simp only [runs.awake, Bool.not_false, Bool.and_true, List.mem_cons, exists_eq_or_imp, true_and]
      by_cases goes : executes sem (c.ops s.kernel.curpd i) s = true
      · obtain ⟨t, returned, wakes, same⟩ := executed_goes_on c.time i found goes
        have stays : waits sem (c.ops s.kernel.curpd i) s = false := by
          rw [SemLedger.executes_iff] at goes
          simp only [waits, Bool.or_eq_false_iff, Bool.and_eq_false_iff, decide_eq_false_iff_not,
            Bool.not_eq_false', decide_eq_true_eq]
          omega
        rw [returned, if_pos goes, stays, ← (walk_congr same).1, ← ih (runs.of_wakes wakes),
          wakes.current]
        simp
      · rw [if_neg goes]
        by_cases zero : (c.ops s.kernel.curpd i).op.toInt = 0
        · rw [if_pos zero]
          simp [waits, zero, blocks]
        · obtain ⟨negative, short⟩ := not_executed goes zero
          have waiting : waits sem (c.ops s.kernel.curpd i) s =
              decide ((c.ops s.kernel.curpd i).flags &&& 0x203 = 0) := by
            rw [waits, decide_eq_false zero, decide_eq_true negative, decide_eq_false short]
            rfl
          rw [if_neg zero, waiting]
          by_cases flags : (c.ops s.kernel.curpd i).flags &&& 0x203 ≠ 0
          · have given_up : semOpOne c.id c.time i (c.ops s.kernel.curpd i) s =
                .ret (some 0) (noteOp sem c.time s) := by
              rw [← SemLedger.note_op_val sem c.time s sem] at short
              rw [semOpOne, found]
              change operate sem i _ (noteOp sem c.time s) = _
              rw [operate, if_pos negative, if_neg short, if_pos flags]
            rw [if_pos flags, given_up, decide_eq_false flags]
            simp [blocks]
          · rw [if_neg flags, decide_eq_true (not_not.mp flags)]
            simp [blocks]

theorem op_sleeps_iff (runs : CallerRuns s.kernel) :
    OpSleeps c s ↔ blocks (walk c c.nops 0 s).1 = true :=
  applied_sleeps_iff runs

/-- Operations that can all be done without waiting are executed up to an operation 0. -/
theorem all_proceed_walk (proceed : AllProceed c left i s) :
    (walk c left i s).1 = .done ∨ ∃ k, (walk c left i s).1 = .zero k := by
  induction left generalizing i s with
  | zero => exact Or.inl rfl
  | succ left ih =>
    obtain ⟨sem, found, able, rest⟩ := proceed
    rw [walk, found]
    by_cases goes : executes sem (c.ops s.kernel.curpd i) s = true
    · simp only [if_pos goes]
      exact ih rest
    · have zero : (c.ops s.kernel.curpd i).op.toInt = 0 := by
        simp only [proceeds, Bool.or_eq_true, Bool.and_eq_true, decide_eq_true_eq] at able
        exact (able.resolve_left goes).1
      simp only [if_neg goes, if_pos zero]
      exact Or.inr ⟨i, rfl⟩

theorem one_call_of_stop (stopped : (walk c c.nops 0 s).1 ≠ .done) : 1 ≤ c.nops := by
  cases count : c.nops with
  | zero =>
    rw [count] at stopped
    exact absurd rfl stopped
  | succ n => omega

/-- The others put everything back as it was when the call began. -/
def restored (runs : CallerRuns s.kernel) (t : Sems) : SemOthers s where
  eax _ := 0
  between _ _ := { t with kernel := s.kernel }
  runs _ _ := runs
  current _ _ := rfl
  curpd _ _ := rfl

section
variable (runs : CallerRuns s.kernel)
include runs

/-- A call that is given up is made again for as long as nothing changes. -/
theorem given_up_repeats (stopped : (walk c c.nops 0 s).1 = .nowait k) (fuel round : Nat)
    (performed : List (Nat × SemOp)) :
    semopFrom c (restored runs s) fuel round performed s = none := by
  have asked : 1 ≤ c.nops := one_call_of_stop (by rw [stopped]; exact Stop.noConfusion)
  induction fuel generalizing round performed with
  | zero => rfl
  | succ fuel ih =>
    have returns : Returns _ _ _ _ := first_call_ends runs stopped
    have zero := answer_returned ((restored runs s).eax round) returns
    rw [semop_repeats fuel round performed (by omega) (by omega)]
    exact ih (round + 1) _

theorem refused_nonblocking (stopped : (walk c c.nops 0 s).1 = .refused k e) :
    SemopNonblocking c s where
  awake o fuel t on := by
    have returns : Returns _ _ _ _ := first_call_ends runs stopped
    have failed : opAnswer c (o.eax 0) s < 0 := by
      rw [answer_returned (o.eax 0) returns]
      exact walk_refused_negative stopped
    have only : t = s := by
      cases fuel with
      | zero => cases on
      | succ fuel =>
        rw [semopRounds, rounds, if_neg (by simp [not_le.mpr failed])] at on
        exact List.mem_singleton.mp on
    rw [only, op_sleeps_iff runs, stopped]
    exact Bool.false_ne_true
  reported _ o := by
    obtain ⟨out, returned, ret, -⟩ := refused_semop runs stopped o 0
    exact ⟨1, out, returned, ret⟩

theorem never_blocking (done : (walk c c.nops 0 s).1 = .done)
    (never : NeverBlocks c s.kernel.curpd) : SemopNonblocking c s where
  awake o fuel t on := by
    have kept : CallerRuns t.kernel ∧ t.kernel.curpd = s.kernel.curpd := by
      refine rounds_keep (fun t : Sems => CallerRuns t.kernel ∧ t.kernel.curpd = s.kernel.curpd)
        ?_ ⟨runs, rfl⟩ fuel 0 t on
      intro round t
      exact ⟨o.runs round _, o.curpd round _⟩
    rw [op_sleeps_iff kept.1, never t kept.2]
    exact Bool.false_ne_true
  reported cannot := absurd (walk_done_all_proceed done) cannot

/-- An array that may block blocks when the call is made again. -/
theorem nonblocking_never_blocks (done : (walk c c.nops 0 s).1 = .done)
    (held : SemopNonblocking c s) : NeverBlocks c s.kernel.curpd := by
  intro t pagedir
  cases blocked : blocks (walk c c.nops 0 t).1 with
  | false => rfl
  | true =>
    have asked : 1 ≤ c.nops := one_call_of_stop fun same => by rw [same] at blocked; cases blocked
    have same : SemLibrary.SameValues t { t with kernel := s.kernel } :=
      ⟨⟨rfl, rfl, fun _ => rfl⟩, fun _ => rfl, pagedir.symm⟩
    have returns : Returns _ _ _ _ := first_call_ends runs done
    have zero := answer_returned ((restored runs t).eax 0) returns
    have second : { t with kernel := s.kernel } ∈ semopRounds c s (restored runs t) 2 := by
      rw [semopRounds, rounds, if_pos (by simp only [zero, Bool.and_eq_true, decide_eq_true_eq]; omega)]
      exact List.mem_cons_of_mem _ List.mem_cons_self
    refine absurd ?_ (held.awake (restored runs t) 2 _ second)
    apply (op_sleeps_iff (s := { t with kernel := s.kernel }) runs).mpr
    rw [(walk_congr same).1]
    exact blocked

theorem semop_nonblocking_iff : SemopNonblocking c s ↔
    (∃ i e, (walk c c.nops 0 s).1 = .refused i e) ∨
      (walk c c.nops 0 s).1 = .done ∧ NeverBlocks c s.kernel.curpd := by
  constructor
  · intro held
    have first : ¬ OpSleeps c s := held.awake (restored runs s) 1 s List.mem_cons_self
    rw [op_sleeps_iff runs] at first
    cases stopped : (walk c c.nops 0 s).1 with
    | done => exact Or.inr ⟨rfl, nonblocking_never_blocks runs stopped held⟩
    | refused i e => exact Or.inl ⟨i, e, rfl⟩
    | nowait i =>
      have cannot : ¬ AllProceed c c.nops 0 s := by
        intro proceed
        rcases all_proceed_walk proceed with done | ⟨k, zero⟩
        · rw [done] at stopped
          cases stopped
        · rw [zero] at stopped
          cases stopped
      obtain ⟨fuel, out, returned, -⟩ := held.reported cannot (restored runs s)
      rw [semop, given_up_repeats runs stopped] at returned
      cases returned
    | waits | zero =>
      rw [stopped] at first
      exact absurd rfl first
  · rintro (⟨i, e, stopped⟩ | ⟨done, never⟩)
    · exact refused_nonblocking runs stopped
    · exact never_blocking runs done never

end

end Semop

section Messages
variable {s : Queues}

theorem sleep_caller_sleeps (s : Queues) (value : α) :
    Sleeps s.kernel.procCurrent ((sleepCaller s).andThen fun _ t => .ret value t) := by
  rw [Sleeps, Exec.state_andThen_ret, sleepCaller, Exec.state_within]
  exact ProcmLists.sleep_sleeps s.kernel.procCurrent s.kernel

theorem wake_all_only_wakes (waiting : List Ptr) (k : Kernel) : OnlyWakes k (wakeAll waiting k) := by
  induction waiting generalizing k with
  | nil => exact .refl k
  | cons waiter waiting ih => exact (wake_only_wakes waiter k).trans (ih (procWake waiter k))

/-- A flag that the kernel does not know makes `ipc_msg_send` wait. -/
theorem unknown_flag {flags : BitVec 32} (carried : flags &&& 0x800 ≠ 0) : flags &&& ipcNowait ≠ flags := by
  intro known
  apply carried
  rw [← known, BitVec.and_assoc]
  exact BitVec.and_zero

theorem send_sleeps_iff {c : Send} (runs : CallerRuns s.kernel) (carried : c.flags &&& 0x800 ≠ 0) :
    Sleeps s.kernel.procCurrent (ipcMsgSend c s) ↔ Msg.target c.id .w s ≠ none := by
  constructor
  · intro asleep refused
    rw [Sleeps, send_refused refused, runs.awake] at asleep
    cases asleep
  · intro accepted
    obtain ⟨msq, accepted⟩ := Option.ne_none_iff_exists'.mp accepted
    obtain ⟨found, allowed⟩ := target_eq_some.mp accepted
    have current := (wake_all_only_wakes (s.msqs msq).waiting s.kernel).current
    rw [ipcMsgSend, found]
    simp only [allowed, if_true, if_pos (unknown_flag carried)]
    have slept := sleep_caller_sleeps (enqueue c msq s) (0 : Int)
    rw [show (enqueue c msq s).kernel.procCurrent = s.kernel.procCurrent from current] at slept
    exact slept

variable {c : Recv}

/-- `ipc_msg_recv` puts its caller to sleep if there is no message for it, unless it sees a
flag of its own `IPC_NOWAIT`. -/
theorem recv_sleeps_iff (runs : CallerRuns s.kernel) :
    Sleeps s.kernel.procCurrent (ipcMsgRecv c s) ↔ c.flags &&& ipcNowait = 0 ∧
      ∃ msq, Msg.target c.id .r s = some msq ∧
        (recvIndex c msq s).bind (llistGet (s.msqs msq).msgs) = none := by
  have awake : ∀ value : Received, ¬ Sleeps s.kernel.procCurrent (.ret value s) := by
    intro value asleep
    rw [Sleeps, Exec.state_ret, runs.awake] at asleep
    cases asleep
  rw [ipcMsgRecv]
  cases found : ipcFind (-1) c.id .msg s.toObjects with
  | none =>
    have refused : Msg.target c.id .r s = none := by rw [Msg.target, found]; rfl
    simp [awake, refused]
  | some msq =>
    cases allowed : Msg.permitted msq .r s with
    | false =>
      have refused : Msg.target c.id .r s = none := by simp [Msg.target, found, allowed]
      simp [awake, refused, allowed]
    | true =>
      have accepted : Msg.target c.id .r s = some msq := target_eq_some.mpr ⟨found, allowed⟩
      simp only [accepted, allowed, Option.some.injEq, exists_eq_left', if_true]
      cases matched : (recvIndex c msq s).bind (llistGet (s.msqs msq).msgs) with
      | some msg =>
        have woken : ∀ message : Message, ((if message.flags &&& ipcNowait = c.flags then
            procWake message.sender s.kernel else s.kernel).procs s.kernel.procCurrent).isSleeping = false := by
          intro message
          split
          · exact (wake_only_wakes message.sender s.kernel).awake _ runs.awake
          · exact runs.awake
        simp [Sleeps, deliver, woken]
      | none =>
        by_cases flags : c.flags &&& ipcNowait = 0
        · have slept := sleep_caller_sleeps (s.setMsq msq { s.msqs msq with
            waiting := llistPush (s.msqs msq).waiting s.kernel.procCurrent }) (⟨0, []⟩ : Received)
          simp only [flags, if_true, and_self, iff_true]
          exact slept
        · rw [if_neg flags]
          constructor
          · intro asleep
            exact absurd asleep (awake _)
          · rintro ⟨unset, -⟩
            exact absurd unset flags

/-- What `msgrcv` sees when there is a message for it: how much was copied. -/
theorem recv_answer_matched (eax : BitVec 32) (accepted : Msg.target c.id .r s = some msq)
    (matched : (recvIndex c msq s).bind (llistGet (s.msqs msq).msgs) = some msg) :
    recvAnswer c eax s = min c.msgsz (s.message c.stale msg).size := by
  obtain ⟨found, allowed⟩ := target_eq_some.mp accepted
  have current : ∀ message : Message, (if message.flags &&& ipcNowait = c.flags then
      procWake message.sender s.kernel else s.kernel).procCurrent = s.kernel.procCurrent := by
    intro message
    split
    · exact (wake_only_wakes message.sender s.kernel).current
    · rfl
  rw [recvAnswer, ipcMsgRecv, found]
  simp only [allowed, if_true, matched, deliver, Exec.andThen, answer, current]
  split <;> omega

theorem recv_answer_refused (eax : BitVec 32) (refused : Msg.target c.id .r s = none) :
    recvAnswer c eax s < 0 := by
  rw [recvAnswer, ipcMsgRecv]
  cases found : ipcFind (-1) c.id .msg s.toObjects with
  | none =>
    simp only [Exec.andThen, answer, if_true]
    decide
  | some msq =>
    have denied : Msg.permitted msq .r s = false := by
      cases allowed : Msg.permitted msq .r s with
      | false => rfl
      | true => simp [target_eq_some.mpr ⟨found, allowed⟩] at refused
    simp only [denied, Bool.false_eq_true, if_false, Exec.andThen, answer, if_true]
    decide

/-- The others take all messages from the queue. -/
def emptied (msq : Ptr) (s : Queues) : Queues := s.setMsq msq { s.msqs msq with msgs := [] }

def emptying (runs : CallerRuns s.kernel) (msq : Ptr) : MsgOthers s where
  eax _ := 0
  between _ _ := emptied msq s
  runs _ _ := runs
  current _ _ := rfl
  curpd _ _ := rfl

theorem emptied_target (msq : Ptr) (id : Int) (op : PermOp) :
    Msg.target id op (emptied msq s) = Msg.target id op s := by
  have same : ∀ queue, Msg.permitted queue op (emptied msq s) = Msg.permitted queue op s := by
    intro queue
    by_cases here : queue = msq
    · simp [Msg.permitted, emptied, Queues.setMsq, Objects.caller, here]
    · simp [Msg.permitted, emptied, Queues.setMsq, Objects.caller, here]
  rw [Msg.target, Msg.target]
  simp only [same]
  rfl

theorem emptied_sleeps (runs : CallerRuns s.kernel) (flags : c.flags &&& ipcNowait = 0)
    (accepted : Msg.target c.id .r s = some msq) :
    Sleeps (emptied msq s).kernel.procCurrent (ipcMsgRecv c (emptied msq s)) := by
  apply (recv_sleeps_iff (s := emptied msq s) runs).mpr
  refine ⟨flags, msq, (emptied_target msq c.id .r).trans accepted, ?_⟩
  simp [recvIndex, emptied, Queues.setMsq]

theorem msgrcv_nonblocking_iff (runs : CallerRuns s.kernel) :
    (∀ o fuel, ∀ t ∈ msgrcvRounds c s o fuel, ¬ Sleeps t.kernel.procCurrent (ipcMsgRecv c t)) ↔
      c.flags &&& ipcNowait ≠ 0 ∨ ∀ msq, Msg.target c.id .r s = some msq → Copies c msq s := by
  constructor
  · intro held
    by_cases flags : c.flags &&& ipcNowait = 0
    · refine Or.inr fun msq accepted => ?_
      have first := held (emptying runs msq) 1 s List.mem_cons_self
      cases matched : (recvIndex c msq s).bind (llistGet (s.msqs msq).msgs) with
      | none => exact absurd ((recv_sleeps_iff runs).mpr ⟨flags, msq, accepted, matched⟩) first
      | some msg =>
        have answered := recv_answer_matched ((emptying runs msq).eax 0) accepted matched
        by_cases copied : 0 < c.msgsz ∧ 0 < (s.message c.stale msg).size
        · exact ⟨msg, matched, copied⟩
        · have again : recvAnswer c ((emptying runs msq).eax 0) s = 0 := by
            rw [answered]
            omega
          have second : emptied msq s ∈ msgrcvRounds c s (emptying runs msq) 2 := by
            rw [msgrcvRounds, rounds, if_pos (decide_eq_true again)]
            exact List.mem_cons_of_mem _ List.mem_cons_self
          exact absurd (emptied_sleeps runs flags accepted) (held _ 2 _ second)
    · exact Or.inl flags
  · rintro (flags | copies) o fuel t on
    · have kept : CallerRuns t.kernel := by
        refine rounds_keep (fun t : Queues => CallerRuns t.kernel) ?_ runs fuel 0 t on
        intro round t
        exact o.runs round _
      rw [recv_sleeps_iff kept]
      exact fun asleep => flags asleep.1
    · have ended : recvAnswer c (o.eax 0) s ≠ 0 := by
        cases accepted : Msg.target c.id .r s with
        | none => exact ne_of_lt (recv_answer_refused (o.eax 0) accepted)
        | some msq =>
          obtain ⟨msg, matched, room, bytes⟩ := copies msq accepted
          rw [recv_answer_matched (o.eax 0) accepted matched]
          omega
      have only : t = s := by
        cases fuel with
        | zero => cases on
        | succ fuel =>
          rw [msgrcvRounds, rounds, if_neg (by simpa using ended)] at on
          exact List.mem_singleton.mp on
      rw [only, recv_sleeps_iff runs]
      rintro ⟨-, msq, accepted, unmatched⟩
      obtain ⟨msg, matched, -⟩ := copies msq accepted
      rw [unmatched] at matched
      cases matched

end Messages

/-- A request with the flag that programs know does not block in these cases only: a `semop`
with an operation that is refused with an error before one that would have to wait, or whose
operations are all executed and would be for any values; a `msgsnd` that is refused; a
`msgrcv` that is refused, gets some bytes at once, or has a flag of the kernel's `IPC_NOWAIT`. -/
theorem nowait_request_nonblocking_iff (w : World) (request : Request) (runs : CallerRuns w.kernel)
    (carried : CarriesNowait w request) : Nonblocking w request ↔ Spared w request := by
  cases request with
  | semop c => exact semop_nonblocking_iff (s := w.sems) runs
  | msgsnd c =>
    have sleeps := send_sleeps_iff (s := w.queues) runs carried
    exact (not_congr sleeps).trans not_not
  | msgrcv c => exact msgrcv_nonblocking_iff (s := w.queues) runs

/-- One operation on the semaphore of the user's set, with the programs' `IPC_NOWAIT`. -/
def nowaitOp (op : BitVec 16) : OpCall := ⟨1, fun _ _ => ⟨0, op, 0x800⟩, 1, 0⟩

theorem nowait_op_carries (op : BitVec 16) : CarriesNowait queueAndSemset (.semop (nowaitOp op)) := by
  intro i _
  exact (by decide : (0x800 : BitVec 16) &&& 0x800 ≠ 0)

theorem user_runs : CallerRuns queueAndSemset.kernel := ⟨by decide, by decide⟩

/-- An operation that only adds does not block. -/
theorem adding_is_nonblocking :
    CallerRuns queueAndSemset.kernel ∧ CarriesNowait queueAndSemset (.semop (nowaitOp 5)) ∧
      Nonblocking queueAndSemset (.semop (nowaitOp 5)) := by
  have carried := nowait_op_carries 5
  have never : NeverBlocks (nowaitOp 5) queueAndSemset.kernel.curpd := by
    intro t _
    have adds : ∀ sem, executes sem ⟨0, 5, 0x800⟩ t = true := fun sem => rfl
    simp only [nowaitOp, walk, adds, if_true]
    split <;> rfl
  refine ⟨user_runs, carried, ?_⟩
  apply (nowait_request_nonblocking_iff queueAndSemset _ user_runs carried).mpr
  exact Or.inr ⟨by decide, never⟩

/-- A `semop` that the value does not cover, and a `msgsnd` and a `msgrcv` on an empty queue:
each has the flag, and each puts its caller to sleep. -/
theorem nowait_requests_sleep :
    (CarriesNowait queueAndSemset (.semop (nowaitOp (-1))) ∧ OpSleeps (nowaitOp (-1)) queueAndSemset.sems ∧
      ¬ Nonblocking queueAndSemset (.semop (nowaitOp (-1)))) ∧
    (CarriesNowait queueAndSemset (.msgsnd ⟨0, 200, [1], 5, 0x800, 0⟩) ∧
      ¬ Nonblocking queueAndSemset (.msgsnd ⟨0, 200, [1], 5, 0x800, 0⟩)) ∧
    (CarriesNowait queueAndSemset (.msgrcv ⟨0, 10, 5, 0x800, 0, fun _ => ⟨[], 0, 0, 0, 0⟩⟩) ∧
      ¬ Nonblocking queueAndSemset (.msgrcv ⟨0, 10, 5, 0x800, 0, fun _ => ⟨[], 0, 0, 0, 0⟩⟩)) := by
  have waits : OpSleeps (nowaitOp (-1)) queueAndSemset.sems :=
    (op_sleeps_iff (s := queueAndSemset.sems) user_runs).mpr (by decide)
  have carried : (0x800 : BitVec 32) &&& 0x800 ≠ 0 := by decide
  refine ⟨⟨nowait_op_carries (-1), waits, fun held => ?_⟩, ⟨carried, fun held => ?_⟩,
    ⟨carried, fun held => ?_⟩⟩
  · exact held.awake (restored (s := queueAndSemset.sems) user_runs queueAndSemset.sems) 1 _
      List.mem_cons_self waits
  · exact held rfl
  · exact held (emptying (s := queueAndSemset.queues) user_runs 100) 1 _ List.mem_cons_self rfl

end MeinOS.IpcNowait
