import MeinOS.Rpc

/-! The calls of `rpc.c` with a number for every accepted one: which of them wait, which one a server
has in hand and which were answered, and what the kernel's lists have to do with it. Registering a
function and calling one keep this; taking a call and answering it follow in the module on
pairing. -/
namespace MeinOS.RpcPairing
open Lib Lib.Runs Llist Procm ProcmLists Ipc Rpc

/-- Where a process is in the `rpc_poll` loop. -/
inductive Phase where
  | start
  | got (id : Int) (synopsis : List Byte) (paramsSize : Nat)
  | handling (id : Int) (serial : Nat)
  deriving DecidableEq

/-- An accepted call: the function it is for and the address space of its caller. -/
structure Made where
  function : Ptr
  pagedir : Ptr
  call : Call
  deriving DecidableEq

/-- A call as the server got it. -/
structure Handed where
  serial : Nat
  synopsis : List Byte
  bufferSize : Nat
  params : List Byte
  deriving DecidableEq

/-- An answer of the server, and what the kernel wrote for it. -/
structure Returned where
  serial : Nat
  value : Int
  buffer : Nat → Byte
  stores : List Store

/-- The kernel, the servers and the history. `serial` numbers the call blocks in use,
and `asleepIn` records in which call a process was put to sleep, until it is woken. -/
structure World extends Rpcs where
  serial : Ptr → Nat
  phase : Ptr → Phase
  made : List Made
  handed : List Handed
  returned : List Returned
  asleepIn : Ptr → Option Nat

/-- `RPC_SYNOPSIS_MAXLEN`. -/
def rpcSynopsisMaxlen : Nat := 256

/-- A call of `rpc_function_create` by the current process. -/
def registered (c : Registration) (w : World) : World :=
  { w with toRpcs := (rpcFunctionCreate c w.toRpcs).2 }

/-- A call of `rpc_function_call` by the current process. -/
def callStep (c : CallArgs) (w : World) : World :=
  match rpcFind c.id none 0 0 false w.toRpcs with
  | none => { w with toRpcs := (rpcFunctionCall c w.toRpcs).state }
  | some func =>
    let caller := w.kernel.procCurrent
    let call := (enqueueCall c func w.toRpcs).calls c.new
    { w with
      toRpcs := (rpcFunctionCall c w.toRpcs).state
      serial := Function.update w.serial c.new w.made.length
      made := w.made ++ [⟨func, (w.kernel.procs caller).pagedir, call⟩]
      asleepIn := Function.update (Function.update w.asleepIn (w.functions func).owner none)
        caller (some w.made.length) }

/-- The first system call of `rpc_poll`. -/
def getinfoStep (id : Int) (w : World) : World :=
  let server := w.kernel.procCurrent
  let info := rpcFunctionGetinfo id none (w.kernel.procs server).pid true rpcSynopsisMaxlen true w.toRpcs
  let phase := match info with
    | .ret value _ =>
      if value.ret ≥ 0 then Phase.got value.ret value.synopsis value.paramsSize else .start
    | _ => .start
  { w with toRpcs := info.state, phase := Function.update w.phase server phase }

/-- The second system call of `rpc_poll`. -/
def pollStep (id : Int) (synopsis : List Byte) (paramsSize : Nat) (w : World) : World :=
  let server := w.kernel.procCurrent
  match rpcCallPoll id w.toRpcs with
  | (none, s) => { w with toRpcs := s, phase := Function.update w.phase server .start }
  | (some polled, s) =>
    { w with
      toRpcs := s
      phase := Function.update w.phase server (.handling id (w.serial polled.call))
      handed := w.handed ++ [⟨w.serial polled.call, synopsis, paramsSize, polled.params⟩] }

/-- The third system call of `rpc_poll`. -/
def returnStep (id : Int) (serial : Nat) (value : Int) (buffer : Nat → Byte) (w : World) : World :=
  let server := w.kernel.procCurrent
  let result := rpcCallReturn id value buffer w.toRpcs
  let woken := (rpcFind id none server 0 false w.toRpcs).map fun func =>
    (w.calls (w.functions func).current).caller
  { w with
    toRpcs := result.2.2
    phase := Function.update w.phase server .start
    returned := w.returned ++ [⟨serial, value, buffer, result.2.1⟩]
    asleepIn := fun p => if result.1 = 0 ∧ woken = some p then none else w.asleepIn p }

/-- The events: system calls by the current process, each server following its loop,
and what the process manager does in between. -/
inductive Event where
  | create (c : Registration)
  | call (c : CallArgs)
  | getinfo (id : Int)
  | poll
  | ret (value : Int) (buffer : Nat → Byte)
  | proc (event : ProcmRounds.Event)

/-- One event. -/
def step (w : World) : Event → Option World
  | .create c => onlyIf (w.kernel.procCurrent ≠ 0 ∧ c.new ∉ w.rpcFunctions) (registered c w)
  | .call c => onlyIf (w.kernel.procCurrent ≠ 0 ∧ c.new ≠ 0 ∧ c.new ∉ w.allocated) (callStep c w)
  | .getinfo id => onlyIf (w.kernel.procCurrent ≠ 0 ∧ w.phase w.kernel.procCurrent = .start)
    (getinfoStep id w)
  | .poll => match w.phase w.kernel.procCurrent with
    | .got id synopsis paramsSize =>
      onlyIf (w.kernel.procCurrent ≠ 0) (pollStep id synopsis paramsSize w)
    | _ => none
  | .ret value buffer => match w.phase w.kernel.procCurrent with
    | .handling id serial => onlyIf (w.kernel.procCurrent ≠ 0) (returnStep id serial value buffer w)
    | _ => none
  | .proc event => (ProcmRounds.step w.kernel event).map fun k =>
    { w with kernel := k, asleepIn := fun p => if (k.procs p).isSleeping then w.asleepIn p else none }

/-- `rpc_init`. -/
def start (k : Kernel) : World where
  kernel := procInit k
  rpcFunctions := []
  functions := fun _ => ⟨0, [], 0, [], 0, 0, [], 0⟩
  calls := fun _ => ⟨0, [], 0, 0, 0⟩
  allocated := []
  rpcLastid := 0
  serial := fun _ => 0
  phase := fun _ => .start
  made := []
  handed := []
  returned := []
  asleepIn := fun _ => none

/-- The call waits on the list of a function. -/
def World.Queued (w : World) (n : Nat) : Prop :=
  ∃ func ∈ w.rpcFunctions, ∃ call ∈ (w.functions func).calls, w.serial call = n

/-- Requests and replies belong together. Every accepted call is either still queued
or was handed over, once, with its parameters and under the synopsis of its function;
every answer was written to the caller of the call that the server handled, once; and
nobody sleeps in a call that was answered. -/
structure Paired (w : World) : Prop where
  exactly : ∀ n < w.made.length, n ∈ w.handed.map Handed.serial ↔ ¬ w.Queued n
  once : (w.handed.map Handed.serial).Nodup
  delivered : ∀ h ∈ w.handed, ∃ m, w.made[h.serial]? = some m ∧ h.params = m.call.params ∧
    h.synopsis = (w.functions m.function).synopsis ∧ h.bufferSize = m.call.params.length
  answered : ∀ r ∈ w.returned, ∃ m, w.made[r.serial]? = some m ∧ r.stores =
    replyStores m.call m.pagedir r.value (copyBytes r.buffer (w.functions m.function).paramsSize)
  answered_once : (w.returned.map Returned.serial).Nodup
  answered_handed : ∀ r ∈ w.returned, r.serial ∈ w.handed.map Handed.serial
  awake : ∀ p n, w.asleepIn p = some n → n ∉ w.returned.map Returned.serial

/-- The id that `rpc_function_getinfo` announced to a server about to poll. -/
def Phase.announced : Phase → Option Int
  | .got id _ _ => some id
  | _ => none

/-- The first function of the server with a pending call is the one that was
announced, and its synopsis fits in the buffer of the server. -/
def PollFits (w : World) : Event → Prop
  | .poll => ∀ id ∈ (w.phase w.kernel.procCurrent).announced,
    ∀ func ∈ rpcFind (-1) none w.kernel.procCurrent 0 true w.toRpcs,
      (w.functions func).id = id ∧ (w.functions func).synopsis.length < rpcSynopsisMaxlen
  | _ => True

/-- The block of a call that is queued or handled, and the record of the call. -/
def Tracks (w : World) (func call : Ptr) : Prop :=
  call ∈ w.allocated ∧ ∃ m, w.made[w.serial call]? = some m ∧ m.function = func ∧
    w.calls call = m.call ∧ m.call.params.length = (w.functions func).paramsSize

/-- The server handles this call: it is the `current` one of a function it owns. -/
def Handles (w : World) (server : Ptr) (id : Int) (n : Nat) : Prop :=
  ∃ func ∈ w.rpcFunctions, (w.functions func).id = id ∧ (w.functions func).owner = server ∧
    Tracks w func (w.functions func).current ∧ w.serial (w.functions func).current = n ∧
    n ∈ w.handed.map Handed.serial ∧ n ∉ w.returned.map Returned.serial

/-- The registered functions: distinct ids, owners that exist, calls only to them. -/
structure Registry (w : World) : Prop where
  ids : ∀ f ∈ w.rpcFunctions, ∀ g ∈ w.rpcFunctions, (w.functions f).id = (w.functions g).id → f = g
  range : ∀ f ∈ w.rpcFunctions, 0 ≤ (w.functions f).id ∧ (w.functions f).id < w.rpcLastid
  lastid : 0 ≤ w.rpcLastid
  owners : ∀ f ∈ w.rpcFunctions, (w.functions f).owner ∈ w.kernel.procAll
  functions_made : ∀ m ∈ w.made, m.function ∈ w.rpcFunctions

/-- The blocks of the calls: each queued one is in use and holds its call, and the
numbers tell the blocks in use apart. -/
structure Blocks (w : World) : Prop where
  numbered : ∀ b ∈ w.allocated, w.serial b < w.made.length
  nodup : ∀ f ∈ w.rpcFunctions, (w.functions f).calls.Nodup
  queued : ∀ f ∈ w.rpcFunctions, ∀ call ∈ (w.functions f).calls, Tracks w f call
  serials : ∀ b ∈ w.allocated, ∀ c ∈ w.allocated, w.serial b = w.serial c → b = c
  nonnull : 0 ∉ w.allocated

/-- What the servers know: the function that was announced, the call they handle. -/
structure Servers (w : World) : Prop where
  got : ∀ p id synopsis paramsSize, w.phase p = .got id synopsis paramsSize →
    ∃ f ∈ w.rpcFunctions, (w.functions f).id = id ∧
      synopsis = strncpy (w.functions f).synopsis rpcSynopsisMaxlen ∧
      paramsSize = (w.functions f).paramsSize
  handling : ∀ p id n, w.phase p = .handling id n → Handles w p id n

/-- The callers exist and keep their address space, and sleepers sleep in their own
calls. -/
structure Callers (w : World) : Prop where
  consistent : Consistent w.kernel
  callers : ∀ m ∈ w.made, m.call.caller ∈ w.kernel.procAll ∧
    (w.kernel.procs m.call.caller).pagedir = m.pagedir
  sleepers : ∀ p n, w.asleepIn p = some n → ∃ m, w.made[n]? = some m ∧ m.call.caller = p

/-- The invariant behind the pairing. -/
structure Tracked (w : World) : Prop extends Paired w, Registry w, Blocks w, Servers w, Callers w

/-- The parts of a function record that are written at its registration only. -/
structure SameEntry (f g : Function) : Prop where
  id : g.id = f.id
  owner : g.owner = f.owner
  synopsis : g.synopsis = f.synopsis
  paramsSize : g.paramsSize = f.paramsSize

/-- What a server was told of a function stays true of its entry. -/
theorem Servers.got_kept {w' : World} {id : Int} (held : Servers w)
    (entries : ∀ f, SameEntry (w.functions f) (w'.functions f)) (before : w.phase p = .got id synopsis paramsSize) :
    ∃ f ∈ w.rpcFunctions, (w'.functions f).id = id ∧
      synopsis = strncpy (w'.functions f).synopsis rpcSynopsisMaxlen ∧
      paramsSize = (w'.functions f).paramsSize := by
  obtain ⟨f, member, known⟩ := held.got p id synopsis paramsSize before
  rw [← (entries f).id, ← (entries f).synopsis, ← (entries f).paramsSize] at known
  exact ⟨f, member, known⟩

/-- The registry does not depend on the lists of calls. -/
theorem Registry.of_same_entries (held : Registry w)
    (same : ∀ f, SameEntry (w.functions f) (w'.functions f))
    (listed : w'.rpcFunctions = w.rpcFunctions) (lastid : w'.rpcLastid = w.rpcLastid)
    (all : w'.kernel.procAll = w.kernel.procAll)
    (made : ∀ m ∈ w'.made, m ∈ w.made ∨ m.function ∈ w.rpcFunctions) : Registry w' := by
  refine ⟨?_, ?_, ?_, ?_, ?_⟩
  · intro f memberF g memberG named
    rw [listed] at memberF memberG
    rw [(same f).id, (same g).id] at named
    exact held.ids f memberF g memberG named
  · intro f member
    rw [listed] at member
    rw [(same f).id, lastid]
    exact held.range f member
  · rw [lastid]
    exact held.lastid
  · intro f member
    rw [listed] at member
    rw [(same f).owner, all]
    exact held.owners f member
  · intro m member
    rw [listed]
    rcases made m member with old | new
    · exact held.functions_made m old
    · exact new

/-- What the process manager keeps for the callers. -/
structure KeepsCallers (k k' : Kernel) : Prop where
  consistent : Consistent k'
  all : k.procAll ⊆ k'.procAll
  pagedir : ∀ p ∈ k.procAll, (k'.procs p).pagedir = (k.procs p).pagedir

theorem KeepsCallers.trans (first : KeepsCallers a b) (second : KeepsCallers b c) :
    KeepsCallers a c where
  consistent := second.consistent
  all := fun _ member => second.all (first.all member)
  pagedir := fun p member =>
    (second.pagedir p (first.all member)).trans (first.pagedir p member)

section
variable (held : Consistent k)
include held

theorem set_eax_keeps_callers (value : Int) :
    KeepsCallers k (setEax value k) where
  consistent := held.of_same_book ⟨rfl, rfl, rfl, fun _ => rfl, fun _ => rfl⟩ rfl
  all := fun _ member => member
  pagedir := fun _ _ => rfl

theorem load_addrspace_keeps_callers (proc : Ptr) :
    KeepsCallers k (memuserLoadAddrspace proc k) where
  consistent := held.of_same_book ⟨rfl, rfl, rfl, fun _ => rfl, fun _ => rfl⟩ rfl
  all := fun _ member => member
  pagedir := fun _ _ => rfl

theorem wake_keeps_callers (member : proc ∈ k.procAll) :
    KeepsCallers k (procWake proc k) where
  consistent := wake_consistent held member
  all := by rw [wake_all]; exact fun _ old => old
  pagedir := fun p _ => wake_keeps Proc.pagedir (fun _ _ => rfl) proc k p

theorem sleep_keeps_callers (current : k.procCurrent ≠ 0) :
    KeepsCallers k (procSleep k.procCurrent k).state := by
  obtain ⟨member, alive⟩ := current_listed held current
  refine ⟨sleep_consistent held member alive, ?_, ?_⟩
  · rw [sleep_all]
    exact fun _ old => old
  · exact fun p _ => sleep_untouched pagedir_untouched _ k p

theorem rounds_keep_callers (ran : ProcmRounds.step k event = some k') :
    KeepsCallers k k' := by
  have consistent := ProcmRounds.step_consistent held ran
  cases event with
  | shedule =>
    cases ran
    refine ⟨consistent, ?_, fun p _ => shedule_untouched pagedir_untouched k p⟩
    rw [(shedule_same_book k).all]
    exact fun _ old => old
  | sleep proc =>
    obtain ⟨-, rfl⟩ := onlyIf_eq_some ran
    refine ⟨consistent, ?_, fun p _ => sleep_untouched pagedir_untouched proc k p⟩
    rw [sleep_all]
    exact fun _ old => old
  | wake proc =>
    obtain ⟨member, rfl⟩ := onlyIf_eq_some ran
    exact wake_keeps_callers held member
  | create c =>
    obtain ⟨⟨-, fresh, -⟩, rfl⟩ := onlyIf_eq_some ran
    refine ⟨consistent, List.subset_cons_self .., fun p member => ?_⟩
    exact create_keeps Proc.pagedir (fun _ _ => rfl) c k fun same => fresh (same ▸ member)

end

/-- A change of the process manager that wakes sleepers keeps the invariant. -/
theorem Tracked.with_kernel (held : Tracked w) (keeps : KeepsCallers w.kernel k)
    (asleepIn : Ptr → Option Nat) (woken : ∀ p n, asleepIn p = some n → w.asleepIn p = some n) :
    Tracked { w with kernel := k, asleepIn := asleepIn } :=
  { held with
    awake := fun p n asleep => held.awake p n (woken p n asleep)
    consistent := keeps.consistent
    owners := fun f member => keeps.all (held.owners f member)
    callers := fun m member => by
      obtain ⟨exist, space⟩ := held.callers m member
      exact ⟨keeps.all exist, (keeps.pagedir _ exist).trans space⟩
    sleepers := fun p n asleep => held.sleepers p n (woken p n asleep) }

/-- A server moves on in its loop. -/
theorem Tracked.with_phase (held : Tracked w) (p : Ptr) (next : Phase)
    (got : ∀ id synopsis paramsSize, next = .got id synopsis paramsSize →
      ∃ f ∈ w.rpcFunctions, (w.functions f).id = id ∧
        synopsis = strncpy (w.functions f).synopsis rpcSynopsisMaxlen ∧
        paramsSize = (w.functions f).paramsSize)
    (handling : ∀ id n, next = .handling id n → Handles w p id n) :
    Tracked { w with phase := Function.update w.phase p next } := by
  refine { held with got := fun q id synopsis paramsSize at_q => ?_, handling := fun q id n at_q => ?_ }
  · by_cases same : q = p
    · subst same
      exact got id synopsis paramsSize (by simpa using at_q)
    · exact held.got q id synopsis paramsSize (by simpa [same] using at_q)
  · by_cases same : q = p
    · subst same
      exact handling id n (by simpa using at_q)
    · exact held.handling q id n (by simpa [same] using at_q)

theorem rpc_find_spec {id : Int} (found : rpcFind id name owner pid hasCalls s = some func) :
    func ∈ s.rpcFunctions ∧ (id = -1 ∨ id = (s.functions func).id) ∧
      (owner = 0 ∨ owner = (s.functions func).owner) ∧
      (hasCalls = true → (s.functions func).calls ≠ []) := by
  have matched := List.find?_some found
  simp only [Bool.and_eq_true, Bool.or_eq_true, decide_eq_true_eq, Bool.not_eq_eq_eq_not,
    Bool.not_true, List.isEmpty_eq_false_iff] at matched
  obtain ⟨⟨⟨⟨named, -⟩, owned⟩, -⟩, pending⟩ := matched
  refine ⟨List.mem_of_find?_eq_some found, named, owned, fun wanted => ?_⟩
  exact pending.resolve_left (by simp [wanted])

/-- A server finds its own function by id. -/
theorem rpc_find_own (held : Tracked w) (member : func ∈ w.rpcFunctions) :
    rpcFind (w.functions func).id none (w.functions func).owner 0 false w.toRpcs = some func := by
  cases found : rpcFind (w.functions func).id none (w.functions func).owner 0 false w.toRpcs with
  | none =>
    have missed := List.find?_eq_none.mp found func member
    simp at missed
  | some other =>
    obtain ⟨listed, named, -, -⟩ := rpc_find_spec found
    have real : (w.functions func).id ≠ -1 := by
      have range := held.range func member
      omega
    rw [held.ids func member other listed (named.resolve_left real)]

section Registered
variable {w : World} {c : Registration}

theorem registered_new : (registered c w).functions c.new =
    ⟨w.rpcLastid, c.name, c.func, c.synopsis, c.paramsSize, w.kernel.procCurrent, [], c.memory⟩ := by
  simp [registered, rpcFunctionCreate]

theorem registered_old (fresh : c.new ∉ w.rpcFunctions) (member : f ∈ w.rpcFunctions) :
    (registered c w).functions f = w.functions f := by
  have different : f ≠ c.new := fun same => fresh (same ▸ member)
  simp [registered, rpcFunctionCreate, different]

theorem registered_mem : f ∈ (registered c w).rpcFunctions ↔ f = c.new ∨ f ∈ w.rpcFunctions :=
  List.mem_cons

theorem registered_tracks (fresh : c.new ∉ w.rpcFunctions) (member : f ∈ w.rpcFunctions)
    (tracks : Tracks w f call) : Tracks (registered c w) f call := by
  obtain ⟨inUse, m, found, named, record, size⟩ := tracks
  refine ⟨inUse, m, found, named, record, ?_⟩
  rw [registered_old fresh member]
  exact size

theorem registered_queued (fresh : c.new ∉ w.rpcFunctions) (n : Nat) :
    (registered c w).Queued n ↔ w.Queued n := by
  constructor
  · rintro ⟨f, member, call, waits, numbered⟩
    rcases registered_mem.mp member with rfl | member
    · simp [registered_new] at waits
    · rw [registered_old fresh member] at waits
      exact ⟨f, member, call, waits, numbered⟩
  · rintro ⟨f, member, call, waits, numbered⟩
    refine ⟨f, registered_mem.mpr (.inr member), call, ?_, numbered⟩
    rw [registered_old fresh member]
    exact waits

theorem registered_paired (held : Tracked w) (fresh : c.new ∉ w.rpcFunctions) :
    Paired (registered c w) := by
  refine ⟨?_, held.once, ?_, ?_, held.answered_once, held.answered_handed, held.awake⟩
  · intro n inRange
    rw [registered_queued fresh]
    exact held.exactly n inRange
  · intro h member
    obtain ⟨m, found, params, synopsis, size⟩ := held.delivered h member
    refine ⟨m, found, params, ?_, size⟩
    rw [registered_old fresh (held.functions_made m (List.mem_of_getElem? found))]
    exact synopsis
  · intro r member
    obtain ⟨m, found, stores⟩ := held.answered r member
    refine ⟨m, found, ?_⟩
    rw [registered_old fresh (held.functions_made m (List.mem_of_getElem? found))]
    exact stores

theorem registered_registry (held : Tracked w) (current : w.kernel.procCurrent ≠ 0)
    (fresh : c.new ∉ w.rpcFunctions) : Registry (registered c w) := by
  have base := held.lastid
  have lastid : (registered c w).rpcLastid = w.rpcLastid + 1 := rfl
  refine ⟨?_, ?_, ?_, ?_, ?_⟩
  · intro f memberF g memberG named
    rcases registered_mem.mp memberF with rfl | memberF <;>
      rcases registered_mem.mp memberG with rfl | memberG
    · rfl
    · have range := held.range g memberG
      simp only [registered_new, registered_old fresh memberG] at named
      omega
    · have range := held.range f memberF
      simp only [registered_new, registered_old fresh memberF] at named
      omega
    · rw [registered_old fresh memberF, registered_old fresh memberG] at named
      exact held.ids f memberF g memberG named
  · intro f member
    rw [lastid]
    rcases registered_mem.mp member with rfl | member
    · simp only [registered_new]
      omega
    · have range := held.range f member
      rw [registered_old fresh member]
      omega
  · omega
  · intro f member
    rcases registered_mem.mp member with rfl | member
    · simp only [registered_new]
      exact (current_listed held.consistent current).1
    · rw [registered_old fresh member]
      exact held.owners f member
  · intro m member
    exact registered_mem.mpr (.inr (held.functions_made m member))

theorem registered_tracked (held : Tracked w) (current : w.kernel.procCurrent ≠ 0)
    (fresh : c.new ∉ w.rpcFunctions) : Tracked (registered c w) := by
  refine ⟨registered_paired held fresh, registered_registry held current fresh, ?_, ?_,
    held.toCallers.consistent, held.callers, held.sleepers⟩
  · refine ⟨held.numbered, ?_, ?_, held.serials, held.nonnull⟩
    · intro f member
      rcases registered_mem.mp member with rfl | member
      · simp [registered_new]
      · rw [registered_old fresh member]
        exact held.nodup f member
    · intro f member call waits
      rcases registered_mem.mp member with rfl | member
      · simp [registered_new] at waits
      · rw [registered_old fresh member] at waits
        exact registered_tracks fresh member (held.queued f member call waits)
  · refine ⟨?_, ?_⟩
    · intro p id synopsis paramsSize announced
      obtain ⟨f, member, known⟩ := held.got p id synopsis paramsSize announced
      refine ⟨f, registered_mem.mpr (.inr member), ?_⟩
      rw [registered_old fresh member]
      exact known
    · intro p id n at_p
      obtain ⟨f, member, named, owner, block, history⟩ := held.handling p id n at_p
      refine ⟨f, registered_mem.mpr (.inr member), ?_⟩
      rw [registered_old fresh member]
      exact ⟨named, owner, registered_tracks fresh member block, history⟩

end Registered

/-- The history and the lists after a call was accepted, before anyone is woken or
put to sleep. -/
def queueCall (c : CallArgs) (func : Ptr) (w : World) : World :=
  { w with
    functions := (enqueueCall c func w.toRpcs).functions
    calls := (enqueueCall c func w.toRpcs).calls
    allocated := c.new :: w.allocated
    serial := Function.update w.serial c.new w.made.length
    made := w.made ++ [⟨func, (w.kernel.procs w.kernel.procCurrent).pagedir,
      (enqueueCall c func w.toRpcs).calls c.new⟩]
    asleepIn := Function.update w.asleepIn w.kernel.procCurrent (some w.made.length) }

section QueueCall
variable {w : World} {c : CallArgs} {func : Ptr}

theorem queue_call_function (f : Ptr) : (queueCall c func w).functions f =
    if f = func then { w.functions func with calls := c.new :: (w.functions func).calls }
    else w.functions f := by
  by_cases same : f = func
  · subst same
    simp [queueCall, enqueueCall, Rpcs.setFunction, llistPush]
  · simp [queueCall, enqueueCall, Rpcs.setFunction, same]

theorem queue_call_entry (c : CallArgs) (func : Ptr) (w : World) (f : Ptr) :
    SameEntry (w.functions f) ((queueCall c func w).functions f) ∧
      ((queueCall c func w).functions f).current = (w.functions f).current := by
  rw [queue_call_function]
  split
  · rename_i same
    subst same
    exact ⟨⟨rfl, rfl, rfl, rfl⟩, rfl⟩
  · exact ⟨⟨rfl, rfl, rfl, rfl⟩, rfl⟩

theorem queue_call_record (c : CallArgs) (func : Ptr) (w : World) : (queueCall c func w).calls c.new =
    ⟨w.kernel.procCurrent, copyBytes c.params (w.functions func).paramsSize, c.ret, c.retParams,
      c.error⟩ := by
  simp [queueCall, enqueueCall]

theorem queue_call_made_old {n : Nat} (found : w.made[n]? = some m) :
    (queueCall c func w).made[n]? = some m := by
  have inside : n < w.made.length := List.getElem?_eq_some_iff.mp found |>.1
  rw [queueCall, List.getElem?_append_left inside]
  exact found

theorem queue_call_tracks_old (func : Ptr) (fresh : c.new ∉ w.allocated) (tracks : Tracks w f call) :
    Tracks (queueCall c func w) f call ∧ (queueCall c func w).serial call = w.serial call := by
  obtain ⟨inUse, m, found, named, record, size⟩ := tracks
  have different : call ≠ c.new := fun same => fresh (same ▸ inUse)
  have numbered : (queueCall c func w).serial call = w.serial call := by
    simp [queueCall, different]
  refine ⟨⟨List.mem_cons_of_mem _ inUse, m, ?_, named, ?_, ?_⟩, numbered⟩
  · rw [numbered]
    exact queue_call_made_old found
  · simpa [queueCall, enqueueCall, Rpcs.setFunction, different] using record
  · rw [(queue_call_entry _ _ _ _).1.paramsSize]
    exact size

theorem queue_call_tracks_new : Tracks (queueCall c func w) func c.new := by
  refine ⟨List.mem_cons_self, ?_⟩
  have numbered : (queueCall c func w).serial c.new = w.made.length := by simp [queueCall]
  rw [numbered]
  refine ⟨_, List.getElem?_concat_length .., rfl, rfl, ?_⟩
  rw [(queue_call_entry _ _ _ _).1.paramsSize]
  change ((queueCall c func w).calls c.new).params.length = _
  rw [queue_call_record]
  simp [copyBytes]

section
variable (held : Tracked w)
include held

theorem handed_in_range (member : n ∈ w.handed.map Handed.serial) : n < w.made.length := by
  obtain ⟨h, listed, rfl⟩ := List.mem_map.mp member
  obtain ⟨m, found, -⟩ := held.delivered h listed
  exact (List.getElem?_eq_some_iff.mp found).1

/-- A queued call stays queued, and the new one is queued under its number. -/
theorem queue_call_queued (listed : func ∈ w.rpcFunctions) (fresh : c.new ∉ w.allocated) (n : Nat) :
    (queueCall c func w).Queued n ↔ n = w.made.length ∨ w.Queued n := by
  have numbered : ∀ f ∈ w.rpcFunctions, ∀ call ∈ (w.functions f).calls,
      (queueCall c func w).serial call = w.serial call := fun f member call waits =>
    (queue_call_tracks_old func fresh (held.queued f member call waits)).2
  constructor
  · rintro ⟨f, member, call, waits, rfl⟩
    rw [queue_call_function] at waits
    split at waits
    · rename_i same
      subst same
      rcases List.mem_cons.mp waits with rfl | waits
      · exact .inl (by simp [queueCall])
      · exact .inr ⟨f, member, call, waits, (numbered f member call waits).symm⟩
    · exact .inr ⟨f, member, call, waits, (numbered f member call waits).symm⟩
  · rintro (rfl | ⟨f, member, call, waits, rfl⟩)
    · refine ⟨func, listed, c.new, ?_, by simp [queueCall]⟩
      rw [queue_call_function, if_pos rfl]
      exact List.mem_cons_self
    · refine ⟨f, member, call, ?_, numbered f member call waits⟩
      rw [queue_call_function]
      split
      · rename_i same
        exact List.mem_cons_of_mem _ (same ▸ waits)
      · exact waits

theorem queue_call_paired (listed : func ∈ w.rpcFunctions) (fresh : c.new ∉ w.allocated) :
    Paired (queueCall c func w) := by
  have unhanded : w.made.length ∉ w.handed.map Handed.serial := fun member =>
    Nat.lt_irrefl _ (handed_in_range held member)
  refine ⟨?_, held.once, ?_, ?_, held.answered_once, held.answered_handed, ?_⟩
  · intro n inRange
    rw [queue_call_queued held listed fresh]
    by_cases new : n = w.made.length
    · subst new
      simpa [queueCall] using unhanded
    · have old : n < w.made.length := by
        simp only [queueCall, List.length_append, List.length_singleton] at inRange
        omega
      simp only [new, false_or]
      exact held.exactly n old
  · intro h member
    obtain ⟨m, found, params, synopsis, size⟩ := held.delivered h member
    refine ⟨m, queue_call_made_old found, params, ?_, size⟩
    rw [(queue_call_entry _ _ _ _).1.synopsis]
    exact synopsis
  · intro r member
    obtain ⟨m, found, stores⟩ := held.answered r member
    refine ⟨m, queue_call_made_old found, ?_⟩
    rw [(queue_call_entry _ _ _ _).1.paramsSize]
    exact stores
  · intro p n asleep
    by_cases caller : p = w.kernel.procCurrent
    · subst caller
      simp only [queueCall, Function.update_self, Option.some.injEq] at asleep
      subst asleep
      intro answered
      obtain ⟨r, member, same⟩ := List.mem_map.mp answered
      exact unhanded (same ▸ held.answered_handed r member)
    · simp only [queueCall, Function.update_of_ne caller] at asleep
      exact held.awake p n asleep

theorem queue_call_blocks (nonnull : c.new ≠ 0) (fresh : c.new ∉ w.allocated) :
    Blocks (queueCall c func w) := by
  have new : (queueCall c func w).serial c.new = w.made.length := by simp [queueCall]
  have old : ∀ b ∈ w.allocated, (queueCall c func w).serial b = w.serial b := by
    intro b member
    have different : b ≠ c.new := fun same => fresh (same ▸ member)
    simp [queueCall, different]
  have inUse : ∀ f ∈ w.rpcFunctions, c.new ∉ (w.functions f).calls := fun f member waits =>
    fresh (held.queued f member c.new waits).1
  refine ⟨?_, ?_, ?_, ?_, ?_⟩
  · intro b member
    have longer : (queueCall c func w).made.length = w.made.length + 1 := by simp [queueCall]
    rcases List.mem_cons.mp member with rfl | member
    · omega
    · have below := held.numbered b member
      rw [old b member]
      omega
  · intro f member
    rw [queue_call_function]
    split
    · rename_i same
      subst same
      exact List.nodup_cons.mpr ⟨inUse f member, held.nodup f member⟩
    · exact held.nodup f member
  · intro f member call waits
    rw [queue_call_function] at waits
    split at waits
    · rename_i same
      subst same
      rcases List.mem_cons.mp waits with rfl | old
      · exact queue_call_tracks_new
      · exact (queue_call_tracks_old f fresh (held.queued f member call old)).1
    · exact (queue_call_tracks_old func fresh (held.queued f member call waits)).1
  · intro a memberA b memberB same
    rcases List.mem_cons.mp memberA with rfl | memberA <;>
      rcases List.mem_cons.mp memberB with rfl | memberB
    · rfl
    · have below := held.numbered b memberB
      rw [new, old b memberB] at same
      omega
    · have below := held.numbered a memberA
      rw [new, old a memberA] at same
      omega
    · rw [old a memberA, old b memberB] at same
      exact held.serials a memberA b memberB same
  · intro null
    rcases List.mem_cons.mp null with same | old
    · exact nonnull same.symm
    · exact held.nonnull old

theorem queue_call_servers (fresh : c.new ∉ w.allocated) : Servers (queueCall c func w) := by
  refine ⟨?_, ?_⟩
  · intro p id synopsis paramsSize announced
    exact held.got_kept (fun f => (queue_call_entry c func w f).1) announced
  · intro p id n at_p
    obtain ⟨f, member, named, owner, block, numbered, history⟩ := held.handling p id n at_p
    obtain ⟨same, kept⟩ := queue_call_entry c func w f
    obtain ⟨tracked, old⟩ := queue_call_tracks_old func fresh block
    refine ⟨f, member, ?_, ?_, ?_, ?_, history⟩
    · rw [same.id, named]
    · rw [same.owner, owner]
    · rw [kept]
      exact tracked
    · rw [kept, old, numbered]

theorem queue_call_tracked (current : w.kernel.procCurrent ≠ 0) (listed : func ∈ w.rpcFunctions)
    (nonnull : c.new ≠ 0) (fresh : c.new ∉ w.allocated) : Tracked (queueCall c func w) := by
  have caller := (current_listed held.consistent current).1
  have record := queue_call_record c func w
  refine ⟨queue_call_paired held listed fresh, ?_, queue_call_blocks held nonnull fresh,
    queue_call_servers held fresh, held.consistent, ?_, ?_⟩
  · refine held.toRegistry.of_same_entries (fun f => (queue_call_entry c func w f).1) rfl rfl rfl ?_
    intro m member
    rcases List.mem_append.mp member with old | new
    · exact .inl old
    · rw [List.mem_singleton.mp new]
      exact .inr listed
  · intro m member
    rcases List.mem_append.mp member with old | new
    · exact held.callers m old
    · rw [List.mem_singleton.mp new]
      change ((queueCall c func w).calls c.new).caller ∈ _ ∧
        (w.kernel.procs ((queueCall c func w).calls c.new).caller).pagedir = _
      rw [record]
      exact ⟨caller, rfl⟩
  · intro p n asleep
    by_cases same : p = w.kernel.procCurrent
    · subst same
      simp only [queueCall, Function.update_self, Option.some.injEq] at asleep
      subst asleep
      refine ⟨_, List.getElem?_concat_length .., ?_⟩
      change ((queueCall c func w).calls c.new).caller = _
      rw [record]
    · simp only [queueCall, Function.update_of_ne same] at asleep
      obtain ⟨m, found, named⟩ := held.sleepers p n asleep
      exact ⟨m, queue_call_made_old found, named⟩

end

end QueueCall

theorem call_tracked (held : Tracked w) (current : w.kernel.procCurrent ≠ 0) (nonnull : c.new ≠ 0)
    (fresh : c.new ∉ w.allocated) : Tracked (callStep c w) := by
  unfold callStep
  cases found : rpcFind c.id none 0 0 false w.toRpcs with
  | none =>
    have refused : (rpcFunctionCall c w.toRpcs).state = w.toRpcs := by
      simp [rpcFunctionCall, found]
    simp only [refused]
    exact held
  | some func =>
    obtain ⟨listed, -⟩ := rpc_find_spec found
    have queued := queue_call_tracked held current listed nonnull fresh
    have woken := wake_keeps_callers held.consistent (held.owners func listed)
    have marked := set_eax_keeps_callers woken.consistent 0
    have same : (setEax 0 (procWake (w.functions func).owner w.kernel)).procCurrent =
        w.kernel.procCurrent := wake_current ..
    have slept := sleep_keeps_callers marked.consistent (same ▸ current)
    have final := queued.with_kernel ((woken.trans marked).trans slept)
      (Function.update (Function.update w.asleepIn (w.functions func).owner none)
        w.kernel.procCurrent (some w.made.length)) ?_
    · simp only [rpcFunctionCall, found, Exec.state_andThen_ret, Exec.state_within]
      exact final
    · intro p n asleep
      by_cases caller : p = w.kernel.procCurrent
      · subst caller
        simpa [queueCall] using asleep
      · by_cases owner : p = (w.functions func).owner
        · subst owner
          simp [caller] at asleep
        · simpa [queueCall, caller, owner] using asleep

end MeinOS.RpcPairing
