import MeinOS.RpcPairing

/-! The client side of a remote procedure call, `rpc_vcall` in `apps/lib/libmeinos/rpc.c`, over the
kernel and the servers.

`rpc_vcall` repeats `rpc_function_call` as long as its variable `error` is set, up to a hundred
times. The kernel clears the variable when the server returns, but the caller goes on as soon as
anything wakes it: then the call is queued once more, while the first one still waits or is being
handled. With `RPC_FLAG_NORET` the kernel is not told where the variable is, so that it is never
cleared. -/
namespace MeinOS.RpcVcall
open Lib Lib.Runs Llist Procm ProcmLists Ipc Rpc
open RpcPairing (Tracked Handed Returned PollFits callStep rpcSynopsisMaxlen)

/-- `RPC_TRIES_MAXNUM`. -/
def rpcTriesMaxnum : Nat := 100

/-- What a client asks for: the arguments of `rpc_vcall`, the packed parameters, and where its
variables `ret` and `error` and the pack are. -/
structure Request where
  name : List Byte
  sendto : Int
  noret : Bool
  retParams : Bool
  params : Nat → Byte
  retAt : Ptr
  paramsAt : Ptr
  errorAt : Ptr

/-- A call of `rpc_vcall` in its loop. The pointers are those that it passes on; `calls` has the
numbers of the calls that the kernel accepted. -/
structure Vcall where
  caller : Ptr
  id : Int
  params : Nat → Byte
  ret : Ptr
  retParams : Ptr
  errorAt : Ptr
  tries : Nat
  error : Int
  calls : List Nat
  ended : Bool

/-- `rpc_vcall` after `rpc_function_getinfo` has returned. Without a function it ends there. -/
def Request.vcall (r : Request) (caller : Ptr) (id : Int) : Vcall where
  caller := caller
  id := id
  params := r.params
  ret := if r.noret then 0 else r.retAt
  retParams := if r.retParams && !r.noret then r.paramsAt else 0
  errorAt := if r.noret then 0 else r.errorAt
  tries := 0
  error := 1
  calls := []
  ended := decide (id < 0)

/-- The condition of the loop. -/
def Vcall.Again (v : Vcall) : Prop := v.tries < rpcTriesMaxnum ∧ v.error ≠ 0

instance (v : Vcall) : Decidable v.Again := inferInstanceAs (Decidable (_ ∧ _))

/-- The arguments of the system call in the loop. -/
def Vcall.args (v : Vcall) (new : Ptr) : CallArgs := ⟨v.id, new, v.params, v.ret, v.retParams, v.errorAt⟩

/-- The kernel and the servers with all calls of `rpc_vcall` so far. `late` has what the kernel wrote
through the pointers of one that had returned. -/
structure World extends RpcPairing.World where
  vcalls : List Vcall
  late : List Store

/-- The start of `rpc_vcall` by the current process. -/
def began (r : Request) (w : World) : World :=
  let info := rpcFunctionGetinfo (-1) (some r.name) r.sendto false rpcSynopsisMaxlen false w.toRpcs
  let id := match info with
    | .ret value _ => value.ret
    | _ => -1
  { w with
    toWorld := { w.toWorld with toRpcs := info.state }
    vcalls := w.vcalls ++ [r.vcall w.kernel.procCurrent id] }

/-- One turn of the loop. The kernel sets the variable if it accepts the call. -/
def Vcall.tried (v : Vcall) (w : RpcPairing.World) : Vcall :=
  match rpcFind v.id none 0 0 false w.toRpcs with
  | none => { v with tries := v.tries + 1 }
  | some _ => { v with
      tries := v.tries + 1
      error := if v.errorAt ≠ 0 then 1 else v.error
      calls := v.calls ++ [w.made.length] }

/-- The call that `rpc_call_return` answers. -/
def answers (w : RpcPairing.World) : RpcPairing.Event → Option Nat
  | .ret .. => match w.phase w.kernel.procCurrent with
    | .handling id _ => (rpcFind id none w.kernel.procCurrent 0 false w.toRpcs).bind fun func =>
      if (w.functions func).current ≠ 0 then some (w.serial (w.functions func).current) else none
    | _ => none
  | _ => none

/-- What `rpc_call_return` writes. -/
def replyWrites (w : RpcPairing.World) : RpcPairing.Event → List Store
  | .ret value buffer => match w.phase w.kernel.procCurrent with
    | .handling id _ => (rpcCallReturn id value buffer w.toRpcs).2.1
    | _ => []
  | _ => []

/-- The variable is cleared through the pointer of one of its calls. -/
def Vcall.answered (n : Nat) (v : Vcall) : Vcall :=
  if n ∈ v.calls ∧ v.errorAt ≠ 0 then { v with error := 0 } else v

/-- The event, of the kernel, the servers or any other process, as the clients see it. -/
def noticed (w : World) (event : RpcPairing.Event) (next : RpcPairing.World) : World :=
  match answers w.toWorld event with
  | none => { w with toWorld := next }
  | some n =>
    { toWorld := next
      vcalls := w.vcalls.map (Vcall.answered n)
      late := if w.vcalls.any fun v => v.ended && decide (n ∈ v.calls)
        then w.late ++ replyWrites w.toWorld event else w.late }

/-- The events: a process begins a `rpc_vcall`, takes a turn of the loop or returns from it, or
something else happens. -/
inductive Event where
  | vcall (r : Request)
  | attempt (i : Nat) (new : Ptr)
  | leave (i : Nat)
  | rpc (event : RpcPairing.Event)

/-- One event. -/
def step (w : World) : Event → Option World
  | .vcall r => onlyIf (w.kernel.procCurrent ≠ 0 ∧ r.retAt ≠ 0 ∧ r.errorAt ≠ 0) (began r w)
  | .attempt i new => w.vcalls[i]?.bind fun v =>
    if v.caller = w.kernel.procCurrent ∧ v.ended = false ∧ v.Again then
      (RpcPairing.step w.toWorld (.call (v.args new))).map fun next =>
        { w with toWorld := next, vcalls := w.vcalls.set i (v.tried w.toWorld) }
    else none
  | .leave i => w.vcalls[i]?.bind fun v =>
    onlyIf (v.caller = w.kernel.procCurrent ∧ w.kernel.procCurrent ≠ 0 ∧ v.ended = false ∧ ¬ v.Again)
      { w with vcalls := w.vcalls.set i { v with ended := true } }
  | .rpc event => (RpcPairing.step w.toWorld event).map (noticed w event)

/-- `rpc_init`. -/
def start (k : Kernel) : World := { RpcPairing.start k with vcalls := [], late := [] }

/-- For every `rpc_vcall` at most one call was handed to a server, and nothing was written for it
after its return. -/
def AtMostOnce (w : World) : Prop :=
  (∀ v ∈ w.vcalls, (w.handed.filter fun h => decide (h.serial ∈ v.calls)).length ≤ 1) ∧ w.late = []

instance (w : World) : Decidable (AtMostOnce w) := inferInstanceAs (Decidable (_ ∧ _))

/-- The process for which the event calls `proc_wake`. -/
def wakes (w : RpcPairing.World) : RpcPairing.Event → Option Ptr
  | .call c => (rpcFind c.id none 0 0 false w.toRpcs).map fun func => (w.functions func).owner
  | .ret .. => match w.phase w.kernel.procCurrent with
    | .handling id _ => (rpcFind id none w.kernel.procCurrent 0 false w.toRpcs).map fun func =>
      (w.calls (w.functions func).current).caller
    | _ => none
  | .proc (.wake proc) => some proc
  | _ => none

/-- Who is woken does not sleep in a call of a `rpc_vcall`, unless this call is being answered. -/
def Leaves (w : World) (event : RpcPairing.Event) : Prop :=
  ∀ p ∈ wakes w.toWorld event, ∀ n ∈ w.asleepIn p, (∃ v ∈ w.vcalls, n ∈ v.calls) →
    answers w.toWorld event = some n

/-- Every `rpc_vcall` asks for a return, nobody is woken in one except by the answer, and the polls of
the servers fit what was announced. -/
def Undisturbed (w : World) : Event → Prop
  | .vcall r => r.noret = false
  | .attempt i new => ∀ v ∈ w.vcalls[i]?, Leaves w (.call (v.args new))
  | .leave _ => True
  | .rpc event => PollFits w.toWorld event ∧ Leaves w event

/-- Who sleeps in a call is asleep. -/
def Asleep (w : RpcPairing.World) : Prop :=
  ∀ p n, w.asleepIn p = some n → (w.kernel.procs p).isSleeping = true

theorem sleep_keeps_sleeping (proc : Ptr) (asleep : (k.procs p).isSleeping = true) :
    ((procSleep proc k).state.procs p).isSleeping = true := by
  by_cases same : p = proc
  · subst same
    exact sleep_sleeps p k
  · have kept : ((sleepMove proc k).procs p).isSleeping = true := by
      simp only [sleepMove, setProc_other k proc _ same]
      exact asleep
    unfold procSleep
    split
    · exact asleep
    · split
      · rw [(shedule_same_book _).isSleeping]
        exact kept
      · exact kept

theorem wake_keeps_sleeping (other : p ≠ proc) : ((procWake proc k).procs p).isSleeping = (k.procs p).isSleeping := by
  rw [wake_record, if_neg other]

/-- The process manager wakes only the process that it is told to. -/
theorem rounds_keep_sleeping (ran : ProcmRounds.step k event = some k') (member : p ∈ k.procAll)
    (other : event ≠ .wake p) (asleep : (k.procs p).isSleeping = true) :
    (k'.procs p).isSleeping = true := by
  cases event with
  | shedule =>
    cases ran
    rw [(shedule_same_book k).isSleeping]
    exact asleep
  | sleep proc =>
    obtain ⟨-, rfl⟩ := onlyIf_eq_some ran
    exact sleep_keeps_sleeping proc asleep
  | wake proc =>
    obtain ⟨-, rfl⟩ := onlyIf_eq_some ran
    rw [wake_keeps_sleeping fun same => other (by rw [same])]
    exact asleep
  | create c =>
    obtain ⟨⟨-, fresh, -⟩, rfl⟩ := onlyIf_eq_some ran
    rw [create_keeps Proc.isSleeping (fun _ _ => rfl) c k fun same => fresh (same ▸ member)]
    exact asleep

/-- What one event of the kernel or the servers does to those who sleep in calls, and to the
answers. -/
structure Rests (w w' : RpcPairing.World) (event : RpcPairing.Event) : Prop where
  asleep : Asleep w'
  kept : ∀ p n, w.asleepIn p = some n → wakes w event ≠ some p → w'.asleepIn p = some n
  answered : w'.returned.map Returned.serial = w.returned.map Returned.serial ++ (answers w event).toList

theorem awake_current (held : Tracked w) (current : w.kernel.procCurrent ≠ 0) :
    (w.kernel.procs w.kernel.procCurrent).isSleeping = false :=
  ((held.consistent.mem_running _).mp (held.consistent.current_running current)).2.2

section
variable (held : Tracked w) (asleep : Asleep w)
include held asleep

/-- A process that sleeps in a call makes no system call. -/
theorem not_current (here : w.asleepIn p = some n)
    (current : w.kernel.procCurrent ≠ 0) : p ≠ w.kernel.procCurrent := by
  rintro rfl
  have flag := asleep _ n here
  rw [awake_current held current] at flag
  cases flag

theorem call_rests (current : w.kernel.procCurrent ≠ 0) (c : CallArgs) :
    Rests w (callStep c w) (.call c) := by
  unfold callStep
  cases found : rpcFind c.id none 0 0 false w.toRpcs with
  | none =>
    have refused : (rpcFunctionCall c w.toRpcs).state = w.toRpcs := by
      simp [rpcFunctionCall, found]
    simp only [refused]
    exact ⟨asleep, fun _ _ here _ => here, (List.append_nil _).symm⟩
  | some func =>
    have caller : (enqueueCall c func w.toRpcs).kernel.procCurrent = w.kernel.procCurrent :=
      wake_current (w.functions func).owner w.kernel
    simp only [rpcFunctionCall, found, Exec.state_andThen_ret, Exec.state_within]
    refine ⟨?_, ?_, (List.append_nil _).symm⟩
    · intro p n here
      by_cases self : p = w.kernel.procCurrent
      · subst self
        simp only [caller]
        exact sleep_sleeps _ _
      · simp only [Function.update_of_ne self] at here
        by_cases owner : p = (w.functions func).owner
        · simp [owner] at here
        · rw [Function.update_of_ne owner] at here
          apply sleep_keeps_sleeping
          exact (wake_keeps_sleeping owner).trans (asleep p n here)
    · intro p n here unwoken
      have self : p ≠ w.kernel.procCurrent := not_current held asleep here current
      have owner : p ≠ (w.functions func).owner := by
        rintro rfl
        exact unwoken (by simp [wakes, found])
      simp only [Function.update_of_ne self, Function.update_of_ne owner]
      exact here

theorem getinfo_rests {id : Int} :
    Rests w (RpcPairing.getinfoStep id w) (.getinfo id) := by
  cases found : rpcFind id none 0 (w.kernel.procs w.kernel.procCurrent).pid true w.toRpcs with
  | some func =>
    obtain ⟨listed, -⟩ := RpcPairing.rpc_find_spec found
    rw [RpcPairing.getinfo_step_found found (held.range func listed).1]
    exact ⟨asleep, fun _ _ here _ => here, (List.append_nil _).symm⟩
  | none =>
    rw [RpcPairing.getinfo_step_missed found]
    exact ⟨fun p n here => sleep_keeps_sleeping _ (asleep p n here), fun _ _ here _ => here,
      (List.append_nil _).symm⟩

end

theorem poll_rests (asleep : Asleep w) {id : Int} :
    Rests w (RpcPairing.pollStep id synopsis paramsSize w) .poll := by
  cases found : rpcFind (-1) none w.kernel.procCurrent 0 true w.toRpcs with
  | none =>
    rw [RpcPairing.poll_step_missed found]
    exact ⟨asleep, fun _ _ here _ => here, (List.append_nil _).symm⟩
  | some func =>
    obtain ⟨-, -, -, pending⟩ := RpcPairing.rpc_find_spec found
    cases first : (w.functions func).calls with
    | nil => exact absurd first (pending rfl)
    | cons call rest =>
      rw [RpcPairing.poll_step_taken found first]
      exact ⟨asleep, fun _ _ here _ => here, (List.append_nil _).symm⟩

/-- The call that a server in its handler will answer. -/
theorem handled_found (held : Tracked w) {id : Int}
    (at_server : w.phase w.kernel.procCurrent = .handling id n) :
    ∃ func, rpcFind id none w.kernel.procCurrent 0 false w.toRpcs = some func ∧
      (w.functions func).current ≠ 0 ∧ w.serial (w.functions func).current = n := by
  obtain ⟨func, listed, rfl, owner, block, numbered, -⟩ := held.handling _ id n at_server
  refine ⟨func, ?_, fun null => held.nonnull (null ▸ block.1), numbered⟩
  rw [← owner]
  exact RpcPairing.rpc_find_own held listed

section
variable (held : Tracked w) (asleep : Asleep w)
include held asleep

theorem return_rests {id : Int}
    (at_server : w.phase w.kernel.procCurrent = .handling id n) :
    Rests w (RpcPairing.returnStep id n value buffer w) (.ret value buffer) := by
  obtain ⟨func, found, handles, numbered⟩ := handled_found held at_server
  rw [RpcPairing.return_step_settled found handles numbered]
  refine ⟨?_, ?_, by simp [RpcPairing.settled, answers, at_server, found, handles]⟩
  · intro p n here
    simp only [RpcPairing.settled] at here
    split at here
    · cases here
    · rename_i other
      exact (wake_keeps_sleeping (Ne.symm other)).trans (asleep p n here)
  · intro p n here unwoken
    have other : (w.calls (w.functions func).current).caller ≠ p := by
      rintro rfl
      exact unwoken (by simp [wakes, at_server, found])
    simp only [RpcPairing.settled, if_neg other]
    exact here

theorem rounds_rest (moved : ProcmRounds.step w.kernel event = some k) :
    Rests w { w with
      kernel := k, asleepIn := fun p => if (k.procs p).isSleeping then w.asleepIn p else none } (.proc event) := by
  refine ⟨?_, ?_, (List.append_nil _).symm⟩
  · intro p n here
    by_contra awake
    simp [awake] at here
  · intro p n here unwoken
    obtain ⟨m, made, caller⟩ := held.sleepers p n here
    have member : p ∈ w.kernel.procAll := caller ▸ (held.callers m (List.mem_of_getElem? made)).1
    have other : event ≠ .wake p := by
      rintro rfl
      exact unwoken rfl
    simp only [rounds_keep_sleeping moved member other (asleep p n here), ↓reduceIte]
    exact here

theorem step_rests (ran : RpcPairing.step w event = some w') :
    Rests w w' event := by
  cases event with
  | create c =>
    obtain ⟨-, rfl⟩ := onlyIf_eq_some ran
    exact ⟨asleep, fun _ _ here _ => here, (List.append_nil _).symm⟩
  | call c =>
    obtain ⟨⟨current, -⟩, rfl⟩ := onlyIf_eq_some ran
    exact call_rests held asleep current c
  | getinfo id =>
    obtain ⟨-, rfl⟩ := onlyIf_eq_some ran
    exact getinfo_rests held asleep
  | poll =>
    cases at_server : w.phase w.kernel.procCurrent with
    | got id synopsis paramsSize =>
      simp only [RpcPairing.step, at_server] at ran
      obtain ⟨-, rfl⟩ := onlyIf_eq_some ran
      exact poll_rests asleep
    | start | handling => simp [RpcPairing.step, at_server] at ran
  | ret value buffer =>
    cases at_server : w.phase w.kernel.procCurrent with
    | handling id n =>
      simp only [RpcPairing.step, at_server] at ran
      obtain ⟨-, rfl⟩ := onlyIf_eq_some ran
      exact return_rests held asleep at_server
    | start | got => simp [RpcPairing.step, at_server] at ran
  | proc event =>
    obtain ⟨k, moved, rfl⟩ := Option.map_eq_some_iff.mp ran
    exact rounds_rest held asleep moved

end

/-- A `rpc_vcall` has made no call so far, or one: that one was answered and the variable is clear,
or the caller sleeps in it. -/
def Fine (w : RpcPairing.World) (v : Vcall) : Prop :=
  v.errorAt ≠ 0 ∧ (v.calls = [] ∨ ∃ n, v.calls = [n] ∧
    (n ∈ w.returned.map Returned.serial ∧ v.error = 0 ∨
      n ∉ w.returned.map Returned.serial ∧ v.ended = false ∧ w.asleepIn v.caller = some n))

/-- What the event leaves of a `rpc_vcall`. -/
def Vcall.after (w : RpcPairing.World) (event : RpcPairing.Event) (v : Vcall) : Vcall :=
  match answers w event with
  | none => v
  | some n => v.answered n

theorem Vcall.after_other {v : Vcall} (other : ∀ n ∈ v.calls, answers w event ≠ some n) :
    v.after w event = v := by
  unfold Vcall.after
  cases answer : answers w event with
  | none => rfl
  | some m =>
    have outside : m ∉ v.calls := fun on => other m on answer
    simp [Vcall.answered, outside]

theorem Vcall.after_own {v : Vcall} (own : n ∈ v.calls) (told : v.errorAt ≠ 0)
    (answer : answers w event = some n) : v.after w event = { v with error := 0 } := by
  simp [Vcall.after, answer, Vcall.answered, own, told]

theorem Fine.step (fine : Fine w v) (rests : Rests w w' event)
    (leaves : ∀ n ∈ v.calls, w.asleepIn v.caller = some n → wakes w event = some v.caller →
      answers w event = some n) : Fine w' (v.after w event) := by
  obtain ⟨told, unused | ⟨n, one, state⟩⟩ := fine
  · rw [Vcall.after_other (by simp [unused])]
    exact ⟨told, .inl unused⟩
  · have own : n ∈ v.calls := by simp [one]
    by_cases answer : answers w event = some n
    · rw [Vcall.after_own own told answer]
      refine ⟨told, .inr ⟨n, one, .inl ⟨?_, rfl⟩⟩⟩
      simp [rests.answered, answer]
    · have other : ∀ m ∈ v.calls, answers w event ≠ some m := by
        intro m on
        rw [one, List.mem_singleton] at on
        exact on ▸ answer
      rw [Vcall.after_other other]
      refine ⟨told, .inr ⟨n, one, ?_⟩⟩
      obtain ⟨done_, clear⟩ | ⟨pending, open_, asleep⟩ := state
      · left
        refine ⟨?_, clear⟩
        rw [rests.answered]
        exact List.mem_append_left _ done_
      · right
        refine ⟨?_, open_, rests.kept _ n asleep fun woken => answer (leaves n own asleep woken)⟩
        rw [rests.answered, List.mem_append, not_or]
        refine ⟨pending, fun on => answer ?_⟩
        simpa using on

/-- The invariant: the calls are tracked, who sleeps in a call is asleep, and every `rpc_vcall` is
fine. -/
structure Once (w : World) : Prop where
  tracked : Tracked w.toWorld
  asleep : Asleep w.toWorld
  fine : ∀ v ∈ w.vcalls, Fine w.toWorld v
  onTime : w.late = []

theorem Leaves.vcall (leaves : Leaves w event) (on : v ∈ w.vcalls) :
    ∀ n ∈ v.calls, w.asleepIn v.caller = some n → wakes w.toWorld event = some v.caller →
      answers w.toWorld event = some n :=
  fun n own asleep woken => leaves v.caller woken n asleep ⟨v, on, own⟩

/-- A call that is being answered was not answered before. -/
theorem answers_pending (held : Tracked w) (answer : answers w event = some n) :
    n ∉ w.returned.map Returned.serial := by
  cases event with
  | ret value buffer =>
    cases at_server : w.phase w.kernel.procCurrent with
    | handling id m =>
      obtain ⟨func, found, handles, numbered⟩ := handled_found held at_server
      simp only [answers, at_server, found, Option.bind_some, if_pos handles, numbered,
        Option.some.injEq] at answer
      subst answer
      obtain ⟨-, -, -, -, -, -, -, pending⟩ := held.handling _ id m at_server
      exact pending
    | start | got => simp [answers, at_server] at answer
  | _ => simp [answers] at answer

section
variable (once : Once w)
include once

theorem rpc_once (fits : PollFits w.toWorld event) (leaves : Leaves w event)
    (ran : RpcPairing.step w.toWorld event = some next) : Once (noticed w event next) := by
  have rests := step_rests once.tracked once.asleep ran
  have tracked := RpcPairing.step_tracked once.tracked fits ran
  have fine : ∀ v ∈ w.vcalls, Fine next (v.after w.toWorld event) := fun v on =>
    (once.fine v on).step rests (leaves.vcall on)
  unfold noticed
  cases answer : answers w.toWorld event with
  | none =>
    refine ⟨tracked, rests.asleep, fun v on => ?_, once.onTime⟩
    have same := fine v on
    rwa [Vcall.after, answer] at same
  | some n =>
    refine ⟨tracked, rests.asleep, ?_, ?_⟩
    · intro v on
      obtain ⟨u, before, rfl⟩ := List.mem_map.mp on
      have same := fine u before
      rwa [Vcall.after, answer] at same
    · have pending := answers_pending once.tracked answer
      have inTime : (w.vcalls.any fun v => v.ended && decide (n ∈ v.calls)) = false := by
        rw [List.any_eq_false]
        intro v on late
        simp only [Bool.and_eq_true, decide_eq_true_eq] at late
        obtain ⟨ended, own⟩ := late
        obtain ⟨-, unused | ⟨m, one, ⟨was, -⟩ | ⟨-, open_, -⟩⟩⟩ := once.fine v on
        · simp [unused] at own
        · rw [one, List.mem_singleton] at own
          exact pending (own ▸ was)
        · rw [open_] at ended
          cases ended
      simp only [inTime, Bool.false_eq_true, ↓reduceIte]
      exact once.onTime

/-- A process that is running sleeps in no call, so that a `rpc_vcall` of it has made none or its
call was answered. -/
theorem Once.running (on : v ∈ w.vcalls) (running : v.caller = w.kernel.procCurrent)
    (current : w.kernel.procCurrent ≠ 0) :
    v.calls = [] ∨ ∃ n, v.calls = [n] ∧ n ∈ w.returned.map Returned.serial ∧ v.error = 0 := by
  obtain ⟨-, unused | ⟨n, one, ⟨was, clear⟩ | ⟨-, -, asleep⟩⟩⟩ := once.fine v on
  · exact .inl unused
  · exact .inr ⟨n, one, was, clear⟩
  · exact absurd running (not_current once.tracked once.asleep asleep current)

theorem began_once (r : Request) (returns : r.noret = false) (told : r.errorAt ≠ 0) :
    Once (began r w) := by
  have unchanged : (rpcFunctionGetinfo (-1) (some r.name) r.sendto false rpcSynopsisMaxlen false
      w.toRpcs).state = w.toRpcs := by
    unfold rpcFunctionGetinfo
    split <;> simp
  unfold began
  simp only [unchanged]
  refine ⟨once.tracked, once.asleep, fun v on => ?_, once.onTime⟩
  obtain old | new := List.mem_append.mp on
  · exact once.fine v old
  · rw [List.mem_singleton.mp new]
    exact ⟨by simpa [Request.vcall, returns] using told, .inl rfl⟩

theorem ended_once (found : w.vcalls[i]? = some v) (running : v.caller = w.kernel.procCurrent)
    (current : w.kernel.procCurrent ≠ 0) :
    Once { w with vcalls := w.vcalls.set i { v with ended := true } } := by
  have on := List.mem_of_getElem? found
  refine ⟨once.tracked, once.asleep, fun u member => ?_, once.onTime⟩
  obtain old | rfl := List.mem_or_eq_of_mem_set member
  · exact once.fine u old
  · refine ⟨(once.fine v on).1, ?_⟩
    obtain unused | ⟨n, one, answered⟩ := once.running on running current
    · exact .inl unused
    · exact .inr ⟨n, one, .inl answered⟩

/-- After a turn of the loop the caller sleeps in its first call, if the kernel accepted it. -/
theorem tried_fine (on : v ∈ w.vcalls) (running : v.caller = w.kernel.procCurrent)
    (current : w.kernel.procCurrent ≠ 0) (open_ : v.ended = false) (again : v.Again)
    (rests : Rests w.toWorld (callStep (v.args new) w.toWorld) (.call (v.args new))) :
    Fine (callStep (v.args new) w.toWorld) (v.tried w.toWorld) := by
  have first : v.calls = [] := by
    obtain unused | ⟨n, -, -, clear⟩ := once.running on running current
    · exact unused
    · exact absurd clear again.2
  have told := (once.fine v on).1
  unfold Vcall.tried
  cases found : rpcFind v.id none 0 0 false w.toRpcs with
  | none => exact ⟨told, .inl first⟩
  | some func =>
    refine ⟨told, .inr ⟨w.made.length, by simp [first], .inr ⟨?_, open_, ?_⟩⟩⟩
    · rw [rests.answered]
      simp only [answers, Option.toList_none, List.append_nil]
      intro was
      obtain ⟨r, member, same⟩ := List.mem_map.mp was
      have handed := once.tracked.answered_handed r member
      rw [same] at handed
      exact Nat.lt_irrefl _ (RpcPairing.handed_in_range once.tracked handed)
    · have accepted : rpcFind (v.args new).id none 0 0 false w.toRpcs = some func := found
      simp only [callStep, accepted, running, Function.update_self]

theorem step_once (calm : Undisturbed w event) (ran : step w event = some w') : Once w' := by
  cases event with
  | vcall r =>
    obtain ⟨⟨-, -, told⟩, rfl⟩ := onlyIf_eq_some ran
    exact began_once once r calm told
  | leave i =>
    obtain ⟨v, found, left⟩ := Option.bind_eq_some_iff.mp ran
    obtain ⟨⟨running, current, -⟩, rfl⟩ := onlyIf_eq_some left
    exact ended_once once found running current
  | rpc event =>
    obtain ⟨next, went, rfl⟩ := Option.map_eq_some_iff.mp ran
    exact rpc_once once calm.1 calm.2 went
  | attempt i new =>
    obtain ⟨v, found, tried⟩ := Option.bind_eq_some_iff.mp ran
    obtain ⟨⟨running, open_, again⟩, went⟩ := Option.ite_none_right_eq_some.mp tried
    obtain ⟨next, called, rfl⟩ := Option.map_eq_some_iff.mp went
    have rests := step_rests once.tracked once.asleep called
    have fits : PollFits w.toWorld (.call (v.args new)) := trivial
    have tracked := RpcPairing.step_tracked once.tracked fits called
    obtain ⟨⟨current, -⟩, rfl⟩ := onlyIf_eq_some called
    have leaves : Leaves w (.call (v.args new)) := calm v found
    refine ⟨tracked, rests.asleep, fun u member => ?_, once.onTime⟩
    obtain old | rfl := List.mem_or_eq_of_mem_set member
    · exact (once.fine u old).step rests (leaves.vcall old)
    · exact tried_fine once (List.mem_of_getElem? found) running current open_ again rests

theorem Once.at_most_once : AtMostOnce w := by
  refine ⟨fun v on => ?_, once.onTime⟩
  obtain ⟨-, unused | ⟨n, one, -⟩⟩ := once.fine v on
  · simp [unused]
  · have single : (w.handed.map Handed.serial).count n ≤ 1 := List.nodup_iff_count_le_one.mp once.tracked.once n
    rw [List.count_eq_countP, List.countP_map, List.countP_eq_length_filter] at single
    simpa [one, Function.comp_def, beq_eq_decide] using single

end

theorem start_once (k : Kernel) : Once (start k) := by
  refine ⟨RpcPairing.start_tracked k, ?_, ?_, rfl⟩
  · intro p n here
    cases here
  · intro v on
    cases on

/-- In every run in which nobody is woken in a `rpc_vcall` except by the answer, every `rpc_vcall` is
executed at most once, and nothing is written for it after its return. -/
theorem vcalls_at_most_once (k : Kernel) (events : List Event)
    (calm : Along step Undisturbed (start k) events) : Throughout step AtMostOnce (start k) events :=
  guarded_throughout (fun _ => Once.at_most_once) (fun _ _ _ once => step_once once) (start_once k) calm

instance (w : World) (event : RpcPairing.Event) : Decidable (Leaves w event) :=
  inferInstanceAs (Decidable (∀ p ∈ wakes w.toWorld event, ∀ n ∈ w.asleepIn p,
    (∃ v ∈ w.vcalls, n ∈ v.calls) → answers w.toWorld event = some n))

instance (w : World) : (event : Event) → Decidable (Undisturbed w event)
  | .vcall r => inferInstanceAs (Decidable (r.noret = false))
  | .attempt i new => inferInstanceAs (Decidable (∀ v ∈ w.vcalls[i]?, Leaves w (.call (v.args new))))
  | .leave _ => isTrue trivial
  | .rpc _ => inferInstanceAs (Decidable (_ ∧ _))

/-- Process 2 calls the first function of the server, process 1. -/
def firstTry : List Event :=
  (RpcPairing.threeProcesses ++ RpcPairing.twoFunctions).map .rpc ++
    [.rpc (.proc .shedule), .vcall ⟨[97], 0, false, false, fun _ => 1, 64, 0, 68⟩, .attempt 0 700]

/-- A signal wakes the caller, which tries again. The server takes both calls, and answers the other
one only after the caller was told and has left. -/
def signalled : List Event :=
  [.rpc (.proc (.wake 2)), .rpc (.proc .shedule), .attempt 0 701, .rpc (.getinfo (-1)), .rpc .poll,
    .rpc (.ret 7 fun _ => 0), .rpc (.getinfo (-1)), .rpc .poll, .rpc (.proc .shedule), .rpc (.proc .shedule),
    .leave 0, .rpc (.proc .shedule), .rpc (.ret 9 fun _ => 0)]

/-- The function is executed twice for one `rpc_vcall`, and the second answer is written to where
its variables were. -/
theorem signal_repeats_call :
    ∃ w, run step (start bootKernel) (firstTry ++ signalled) = some w ∧
      w.handed.map Handed.serial = [1, 0] ∧ w.vcalls.map Vcall.calls = [[0, 1]] ∧
      w.late = [⟨12, 64, .int 9⟩, ⟨12, 68, .int 0⟩] ∧ ¬ AtMostOnce w := by
  refine reached_of (P := fun w => w.handed.map Handed.serial = [1, 0] ∧
    w.vcalls.map Vcall.calls = [[0, 1]] ∧ w.late = [⟨12, 64, .int 9⟩, ⟨12, 68, .int 0⟩])
    (by decide +kernel) ?_
  rintro w ran ⟨handed, calls, late⟩
  refine ⟨handed, calls, late, fun once => ?_⟩
  have none_ := once.2
  rw [late] at none_
  cases none_

/-- Without the signal the server answers and the caller leaves. -/
def answeredOnce : List Event :=
  [.rpc (.proc .shedule), .rpc (.proc .shedule), .rpc (.getinfo (-1)), .rpc .poll,
    .rpc (.ret 7 fun _ => 0), .rpc (.proc .shedule), .leave 0]

theorem undisturbed_call_is_executed_once :
    ∃ w, run step (start bootKernel) (firstTry ++ answeredOnce) = some w ∧
      w.handed.map Handed.serial = [0] ∧ w.vcalls.map Vcall.ended = [true] ∧ AtMostOnce w := by
  refine reached_of (P := fun w => w.handed.map Handed.serial = [0] ∧
    w.vcalls.map Vcall.ended = [true]) (by decide +kernel) ?_
  rintro w ran ⟨handed, ended⟩
  refine ⟨handed, ended, ?_⟩
  exact vcalls_at_most_once bootKernel _ (by decide +kernel) _ w (List.prefix_refl _) ran

end MeinOS.RpcVcall
