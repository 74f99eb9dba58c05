import MeinOS.RpcTracking

/-! Requests and replies belong together. Every accepted call gets a number; the
history of a run says which calls were handed to a server, under which synopsis, and
what each return wrote. The pairing holds as long as `rpc_call_poll` finds the
function that `rpc_function_getinfo` announced before. -/
namespace MeinOS.RpcPairing
open Lib Lib.Runs Llist Procm ProcmLists Ipc Rpc

theorem getinfo_step_found {id : Int} (found : rpcFind id none 0
    (w.kernel.procs w.kernel.procCurrent).pid true w.toRpcs = some func)
    (announced : (w.functions func).id ≥ 0) :
    getinfoStep id w = { w with
      phase := Function.update w.phase w.kernel.procCurrent
        (.got (w.functions func).id (strncpy (w.functions func).synopsis rpcSynopsisMaxlen)
          (w.functions func).paramsSize) } := by
  simp only [getinfoStep, rpcFunctionGetinfo, found, Exec.state_ret, announced, ↓reduceIte]

theorem getinfo_step_missed {id : Int} (missed : rpcFind id none 0
    (w.kernel.procs w.kernel.procCurrent).pid true w.toRpcs = none) :
    getinfoStep id w = { w with
      kernel := (procSleep w.kernel.procCurrent (setEax (-1) w.kernel)).state
      phase := Function.update w.phase w.kernel.procCurrent .start } := by
  simp only [getinfoStep, rpcFunctionGetinfo, missed, Bool.and_self, decide_true, ↓reduceIte]
  cases procSleep w.kernel.procCurrent (setEax (-1) w.kernel) <;> rfl

theorem getinfo_tracked (held : Tracked w) (current : w.kernel.procCurrent ≠ 0) (id : Int) :
    Tracked (getinfoStep id w) := by
  cases found : rpcFind id none 0 (w.kernel.procs w.kernel.procCurrent).pid true w.toRpcs with
  | some func =>
    obtain ⟨listed, -⟩ := rpc_find_spec found
    rw [getinfo_step_found found (held.range func listed).1]
    refine held.with_phase _ _ ?_ ?_
    · intro id synopsis paramsSize same
      cases same
      exact ⟨func, listed, rfl, rfl, rfl⟩
    · intro id n same
      cases same
  | none =>
    have marked := set_eax_keeps_callers held.consistent (-1)
    have slept := sleep_keeps_callers marked.consistent current
    have kept := held.with_kernel (marked.trans slept) w.asleepIn (fun _ _ asleep => asleep)
    rw [getinfo_step_missed found]
    exact kept.with_phase w.kernel.procCurrent .start (by simp) (by simp)

/-- The world after the server took `call`, the first one on the list of `func`. -/
def taken (id : Int) (synopsis : List Byte) (paramsSize : Nat) (func call : Ptr) (rest : List Ptr)
    (w : World) : World :=
  { w with
    toRpcs := w.toRpcs.setFunction func fun f => { f with calls := rest, current := call }
    phase := Function.update w.phase w.kernel.procCurrent (.handling id (w.serial call))
    handed := w.handed ++ [⟨w.serial call, synopsis, paramsSize,
      (w.calls call).params.take (w.functions func).paramsSize⟩] }

theorem poll_step_taken {id : Int}
    (found : rpcFind (-1) none w.kernel.procCurrent 0 true w.toRpcs = some func)
    (first : (w.functions func).calls = call :: rest) :
    pollStep id synopsis paramsSize w = taken id synopsis paramsSize func call rest w := by
  simp only [pollStep, rpcCallPoll, found, first, llistPop, Option.getD_some]
  rfl

theorem poll_step_missed {id : Int}
    (missed : rpcFind (-1) none w.kernel.procCurrent 0 true w.toRpcs = none) :
    pollStep id synopsis paramsSize w =
      { w with phase := Function.update w.phase w.kernel.procCurrent .start } := by
  simp only [pollStep, rpcCallPoll, missed]

section Taken
variable {w : World} {func call : Ptr} {rest : List Ptr}

section
variable (id : Int) (synopsis : List Byte) (paramsSize : Nat) (func call) (rest)
include id synopsis paramsSize func call rest

theorem taken_function (w : World) (f : Ptr) :
    (taken id synopsis paramsSize func call rest w).functions f =
      if f = func then { w.functions func with calls := rest, current := call }
      else w.functions f := by
  by_cases same : f = func
  · subst same
    simp [taken, Rpcs.setFunction]
  · simp [taken, Rpcs.setFunction, same]

theorem taken_entry (w : World) (f : Ptr) :
    SameEntry (w.functions f) ((taken id synopsis paramsSize func call rest w).functions f) := by
  rw [taken_function]
  split
  · rename_i same
    subst same
    exact ⟨rfl, rfl, rfl, rfl⟩
  · exact ⟨rfl, rfl, rfl, rfl⟩

theorem taken_tracks (tracks : Tracks w f b) :
    Tracks (taken id synopsis paramsSize func call rest w) f b := by
  obtain ⟨inUse, m, found, named, record, size⟩ := tracks
  refine ⟨inUse, m, found, named, record, ?_⟩
  rw [(taken_entry ..).paramsSize]
  exact size

end

/-- Two queued blocks with one number are one block of one function. -/
theorem queued_unique (held : Tracked w) (tracksF : Tracks w f b) (tracksG : Tracks w g c)
    (same : w.serial b = w.serial c) : f = g ∧ b = c := by
  obtain ⟨inUse, m, found, rfl, -⟩ := tracksF
  obtain ⟨inUse', m', found', rfl, -⟩ := tracksG
  rw [same] at found
  cases found.symm.trans found'
  exact ⟨rfl, held.serials b inUse c inUse' same⟩

theorem strncpy_short (short : text.length < n) : strncpy text n = text := by
  unfold strncpy
  apply List.take_of_length_le
  split <;> omega

section
variable (held : Tracked w) (listed : func ∈ w.rpcFunctions)
  (first : (w.functions func).calls = call :: rest)
include held listed first

theorem front_tracks : call ∈ (w.functions func).calls ∧ Tracks w func call := by
  have atFront : call ∈ (w.functions func).calls := first ▸ List.mem_cons_self
  exact ⟨atFront, held.queued func listed call atFront⟩

/-- Exactly the call that was taken is no longer queued. -/
theorem taken_queued (id : Int) (synopsis : List Byte) (paramsSize n : Nat) :
    (taken id synopsis paramsSize func call rest w).Queued n ↔ n ≠ w.serial call ∧ w.Queued n := by
  have front := (front_tracks held listed first).2
  have nodup := held.nodup func listed
  rw [first, List.nodup_cons] at nodup
  constructor
  · rintro ⟨f, member, b, waits, rfl⟩
    rw [taken_function] at waits
    have old : b ∈ (w.functions f).calls := by
      split at waits
      · rename_i same
        rw [same, first]
        exact List.mem_cons_of_mem _ waits
      · exact waits
    refine ⟨fun same => ?_, f, member, b, old, rfl⟩
    obtain ⟨rfl, rfl⟩ := queued_unique held (held.queued f member b old) front same
    rw [if_pos rfl] at waits
    exact nodup.1 waits
  · rintro ⟨different, f, member, b, waits, rfl⟩
    refine ⟨f, member, b, ?_, rfl⟩
    rw [taken_function]
    split
    · rename_i same
      rw [same, first] at waits
      rcases List.mem_cons.mp waits with rfl | later
      · exact absurd rfl different
      · exact later
    · exact waits

theorem front_unhanded :
    w.serial call < w.made.length ∧ w.serial call ∉ w.handed.map Handed.serial := by
  obtain ⟨atFront, front⟩ := front_tracks held listed first
  have inRange := held.numbered call front.1
  exact ⟨inRange, fun member =>
    (held.exactly _ inRange).mp member ⟨func, listed, call, atFront, rfl⟩⟩

variable (announced : w.phase p = .got (w.functions func).id synopsis paramsSize)
  (short : (w.functions func).synopsis.length < rpcSynopsisMaxlen)
include announced short

/-- What the server gets is the call with its parameters, under the synopsis of its
function. -/
theorem taken_delivered :
    ∃ m, w.made[w.serial call]? = some m ∧
      (w.calls call).params.take (w.functions func).paramsSize = m.call.params ∧
      synopsis = (w.functions m.function).synopsis ∧ paramsSize = m.call.params.length := by
  obtain ⟨-, -, m, found, rfl, record, size⟩ := front_tracks held listed first
  obtain ⟨f, member, named, text, room⟩ := held.got p _ synopsis paramsSize announced
  obtain rfl := held.ids f member _ listed named
  refine ⟨m, found, ?_, ?_, ?_⟩
  · rw [record, ← size, List.take_length]
  · rw [text, strncpy_short short]
  · rw [room, size]

theorem taken_paired :
    Paired (taken (w.functions func).id synopsis paramsSize func call rest w) := by
  have handed : (taken (w.functions func).id synopsis paramsSize func call rest w).handed.map
      Handed.serial = w.handed.map Handed.serial ++ [w.serial call] := by
    simp [taken]
  have entries := taken_entry func call rest (w.functions func).id synopsis paramsSize w
  obtain ⟨-, unhanded⟩ := front_unhanded held listed first
  refine ⟨?_, ?_, ?_, ?_, held.answered_once, ?_, held.awake⟩
  · intro n inRange
    have before := held.exactly n inRange
    rw [handed, List.mem_append, List.mem_singleton, before,
      taken_queued held listed first]
    constructor
    · rintro (unqueued | same) ⟨different, queued⟩
      · exact unqueued queued
      · exact different same
    · intro gone
      by_cases same : n = w.serial call
      · exact .inr same
      · exact .inl fun queued => gone ⟨same, queued⟩
  · rw [handed]
    refine List.nodup_append.mpr ⟨held.once, List.nodup_singleton _, ?_⟩
    intro n old m new same
    rw [List.mem_singleton.mp new] at same
    exact unhanded (same ▸ old)
  · intro h member
    rcases List.mem_append.mp member with old | new
    · obtain ⟨m, found, params, synopsis, size⟩ := held.delivered h old
      refine ⟨m, found, params, ?_, size⟩
      rw [(entries _).synopsis]
      exact synopsis
    · obtain ⟨m, found, params, text, size⟩ :=
        taken_delivered held listed first announced short
      rw [List.mem_singleton.mp new]
      refine ⟨m, found, params, ?_, size⟩
      rw [(entries _).synopsis]
      exact text
  · intro r member
    obtain ⟨m, found, stores⟩ := held.answered r member
    refine ⟨m, found, ?_⟩
    rw [(entries _).paramsSize]
    exact stores
  · intro r member
    rw [handed]
    exact List.mem_append_left _ (held.answered_handed r member)

end

section
variable (held : Tracked w) (listed : func ∈ w.rpcFunctions)
  (owner : (w.functions func).owner = w.kernel.procCurrent)
  (first : (w.functions func).calls = call :: rest)
include held listed owner first

theorem taken_servers :
    Servers (taken (w.functions func).id synopsis paramsSize func call rest w) := by
  have entries := taken_entry func call rest (w.functions func).id synopsis paramsSize w
  obtain ⟨-, unhanded⟩ := front_unhanded held listed first
  refine ⟨?_, ?_⟩
  · intro q id text size at_q
    by_cases server : q = w.kernel.procCurrent
    · subst server
      simp [taken] at at_q
    · exact held.got_kept entries (by simpa [taken, server] using at_q)
  · intro q id n at_q
    by_cases server : q = w.kernel.procCurrent
    · subst server
      simp only [taken, Function.update_self, Phase.handling.injEq] at at_q
      obtain ⟨rfl, rfl⟩ := at_q
      have current : ((taken (w.functions func).id synopsis paramsSize func call rest w).functions
          func).current = call := by rw [taken_function, if_pos rfl]
      refine ⟨func, listed, (entries func).id, (entries func).owner.trans owner, ?_, ?_, ?_, ?_⟩
      · rw [current]
        exact taken_tracks _ _ _ _ _ _ (front_tracks held listed first).2
      · rw [current]
        rfl
      · simp [taken]
      · intro answered
        obtain ⟨r, member, same⟩ := List.mem_map.mp answered
        exact unhanded (same ▸ held.answered_handed r member)
    · have before : w.phase q = .handling id n := by simpa [taken, server] using at_q
      obtain ⟨f, member, named, owned, block, numbered, was, unanswered⟩ :=
        held.handling q id n before
      have other : f ≠ func := fun same => server (owned.symm.trans (same ▸ owner))
      refine ⟨f, member, ?_⟩
      rw [taken_function, if_neg other]
      refine ⟨named, owned, taken_tracks _ _ _ _ _ _ block, numbered, ?_, unanswered⟩
      simp only [taken, List.map_append, List.mem_append]
      exact .inl was

theorem taken_tracked (announced : w.phase p = .got (w.functions func).id synopsis paramsSize)
    (short : (w.functions func).synopsis.length < rpcSynopsisMaxlen) :
    Tracked (taken (w.functions func).id synopsis paramsSize func call rest w) := by
  have entries := taken_entry func call rest (w.functions func).id synopsis paramsSize w
  refine ⟨taken_paired held listed first announced short,
    held.toRegistry.of_same_entries entries rfl rfl rfl (fun _ => .inl), ?_,
    taken_servers held listed owner first, held.consistent, held.callers, held.sleepers⟩
  have nodup := held.nodup func listed
  rw [first, List.nodup_cons] at nodup
  refine ⟨held.numbered, ?_, ?_, held.serials, held.nonnull⟩
  · intro f member
    rw [taken_function]
    split
    · exact nodup.2
    · exact held.nodup f member
  · intro f member b waits
    refine taken_tracks _ _ _ _ _ _ (held.queued f member b ?_)
    rw [taken_function] at waits
    split at waits
    · rename_i same
      rw [same, first]
      exact List.mem_cons_of_mem _ waits
    · exact waits

end

end Taken

theorem poll_tracked (held : Tracked w) (current : w.kernel.procCurrent ≠ 0) {id : Int}
    (announced : w.phase w.kernel.procCurrent = .got id synopsis paramsSize)
    (fits : PollFits w .poll) : Tracked (pollStep id synopsis paramsSize w) := by
  have fits := fits id (by simp [announced, Phase.announced])
  cases found : rpcFind (-1) none w.kernel.procCurrent 0 true w.toRpcs with
  | none =>
    rw [poll_step_missed found]
    exact held.with_phase w.kernel.procCurrent .start (by simp) (by simp)
  | some func =>
    obtain ⟨rfl, short⟩ := fits func found
    obtain ⟨listed, -, owned, pending⟩ := rpc_find_spec found
    cases first : (w.functions func).calls with
    | nil => exact absurd first (pending rfl)
    | cons call rest =>
      rw [poll_step_taken found first]
      exact taken_tracked held listed (owned.resolve_left current).symm first announced short

/-- The world after the call that `func` handles was answered, before its caller is
woken. -/
def settled (func : Ptr) (value : Int) (buffer : Nat → Byte) (w : World) : World :=
  let call := w.calls (w.functions func).current
  let stores := replyStores call (w.kernel.procs call.caller).pagedir value
    (copyBytes buffer (w.functions func).paramsSize)
  { w with
    functions := (w.toRpcs.setFunction func fun f => { f with current := 0 }).functions
    allocated := w.allocated.erase (w.functions func).current
    phase := Function.update w.phase w.kernel.procCurrent .start
    returned := w.returned ++ [⟨w.serial (w.functions func).current, value, buffer, stores⟩]
    asleepIn := fun p => if call.caller = p then none else w.asleepIn p }

theorem return_step_settled {id : Int}
    (found : rpcFind id none w.kernel.procCurrent 0 false w.toRpcs = some func)
    (handles : (w.functions func).current ≠ 0)
    (numbered : w.serial (w.functions func).current = n) :
    returnStep id n value buffer w = { settled func value buffer w with
      kernel := procWake (w.calls (w.functions func).current).caller
        (memuserLoadAddrspace w.kernel.procCurrent
          (memuserLoadAddrspace (w.calls (w.functions func).current).caller w.kernel)) } := by
  subst numbered
  simp only [returnStep, rpcCallReturn, found, handles, ne_eq, not_false_eq_true, ↓reduceIte,
    Option.map_some, Option.some.injEq, true_and]
  rfl

section Settled
variable {w : World} {func : Ptr}

section
variable (func) (value : Int) (buffer : Nat → Byte)
include func value buffer

theorem settled_function (w : World) (f : Ptr) :
    (settled func value buffer w).functions f =
      if f = func then { w.functions func with current := 0 } else w.functions f := by
  by_cases same : f = func
  · subst same
    simp [settled, Rpcs.setFunction]
  · simp [settled, Rpcs.setFunction, same]

theorem settled_entry (w : World) (f : Ptr) :
    SameEntry (w.functions f) ((settled func value buffer w).functions f) ∧
      ((settled func value buffer w).functions f).calls = (w.functions f).calls := by
  rw [settled_function]
  split
  · rename_i same
    subst same
    exact ⟨⟨rfl, rfl, rfl, rfl⟩, rfl⟩
  · exact ⟨⟨rfl, rfl, rfl, rfl⟩, rfl⟩

theorem settled_tracks (tracks : Tracks w f b) (other : b ≠ (w.functions func).current) :
    Tracks (settled func value buffer w) f b := by
  obtain ⟨inUse, m, found, named, record, size⟩ := tracks
  refine ⟨(List.mem_erase_of_ne other).mpr inUse, m, found, named, record, ?_⟩
  rw [(settled_entry ..).1.paramsSize]
  exact size

theorem settled_queued (w : World) (n : Nat) :
    (settled func value buffer w).Queued n ↔ w.Queued n := by
  constructor
  · rintro ⟨f, member, b, waits, numbered⟩
    rw [(settled_entry ..).2] at waits
    exact ⟨f, member, b, waits, numbered⟩
  · rintro ⟨f, member, b, waits, numbered⟩
    refine ⟨f, member, b, ?_, numbered⟩
    rw [(settled_entry ..).2]
    exact waits

end

theorem settled_paired (held : Tracked w) (block : Tracks w func (w.functions func).current)
    (was : w.serial (w.functions func).current ∈ w.handed.map Handed.serial)
    (unanswered : w.serial (w.functions func).current ∉ w.returned.map Returned.serial) :
    Paired (settled func value buffer w) := by
  have entries := fun f => (settled_entry func value buffer w f).1
  have returned : (settled func value buffer w).returned.map Returned.serial =
      w.returned.map Returned.serial ++ [w.serial (w.functions func).current] := by
    simp [settled]
  obtain ⟨-, m, found, named, record, -⟩ := block
  refine ⟨?_, held.once, ?_, ?_, ?_, ?_, ?_⟩
  · intro n inRange
    rw [settled_queued]
    exact held.exactly n inRange
  · intro h member
    obtain ⟨m, found, params, synopsis, size⟩ := held.delivered h member
    refine ⟨m, found, params, ?_, size⟩
    rw [(entries _).synopsis]
    exact synopsis
  · intro r member
    rcases List.mem_append.mp member with old | new
    · obtain ⟨m, found, stores⟩ := held.answered r old
      refine ⟨m, found, ?_⟩
      rw [(entries _).paramsSize]
      exact stores
    · rw [List.mem_singleton.mp new]
      refine ⟨m, found, ?_⟩
      rw [(entries _).paramsSize, named, record,
        (held.callers m (List.mem_of_getElem? found)).2]
  · rw [returned]
    refine List.nodup_append.mpr ⟨held.answered_once, List.nodup_singleton _, ?_⟩
    intro a old b new same
    rw [List.mem_singleton.mp new] at same
    exact unanswered (same ▸ old)
  · intro r member
    rcases List.mem_append.mp member with old | new
    · exact held.answered_handed r old
    · rw [List.mem_singleton.mp new]
      exact was
  · intro p n asleep
    simp only [settled] at asleep
    split at asleep
    · cases asleep
    · rename_i other
      rw [returned, List.mem_append, List.mem_singleton]
      rintro (old | same)
      · exact held.awake p n asleep old
      · obtain ⟨m', found', caller⟩ := held.sleepers p n asleep
        rw [same] at found'
        cases found.symm.trans found'
        exact other (record ▸ caller)

section
variable (value : Int) (buffer : Nat → Byte) (held : Tracked w)
  (owner : (w.functions func).owner = w.kernel.procCurrent)
  (block : Tracks w func (w.functions func).current)
include value buffer held owner block

theorem settled_servers : Servers (settled func value buffer w) := by
  have entries := fun f => (settled_entry func value buffer w f).1
  refine ⟨?_, ?_⟩
  · intro q id text size at_q
    by_cases server : q = w.kernel.procCurrent
    · subst server
      simp [settled] at at_q
    · exact held.got_kept entries (by simpa [settled, server] using at_q)
  · intro q id n at_q
    by_cases server : q = w.kernel.procCurrent
    · subst server
      simp [settled] at at_q
    · have before : w.phase q = .handling id n := by simpa [settled, server] using at_q
      obtain ⟨f, member, named, owned, blockF, rfl, was, unanswered⟩ := held.handling q id n before
      have other : f ≠ func := fun same => server (owned.symm.trans (same ▸ owner))
      have numbers : w.serial (w.functions f).current ≠ w.serial (w.functions func).current :=
        fun same => other (queued_unique held blockF block same).1
      refine ⟨f, member, ?_⟩
      rw [settled_function, if_neg other]
      refine ⟨named, owned, settled_tracks func value buffer blockF ?_, rfl, was, ?_⟩
      · exact fun same => numbers (congrArg w.serial same)
      · simp only [settled, List.map_append, List.mem_append, List.map_cons, List.map_nil,
          List.mem_singleton, not_or]
        exact ⟨unanswered, numbers⟩

theorem settled_tracked (was : w.serial (w.functions func).current ∈ w.handed.map Handed.serial)
    (unanswered : w.serial (w.functions func).current ∉ w.returned.map Returned.serial) :
    Tracked (settled func value buffer w) := by
  refine ⟨settled_paired held block was unanswered,
    held.toRegistry.of_same_entries (fun f => (settled_entry func value buffer w f).1) rfl rfl rfl
      (fun _ => .inl), ?_, settled_servers value buffer held owner block, held.consistent, held.callers, ?_⟩
  · have inRange := held.numbered _ block.1
    refine ⟨fun b inUse => held.numbered b (List.mem_of_mem_erase inUse), ?_, ?_, ?_, ?_⟩
    · intro f member
      rw [(settled_entry ..).2]
      exact held.nodup f member
    · intro f member b waits
      rw [(settled_entry ..).2] at waits
      refine settled_tracks func value buffer (held.queued f member b waits) fun same => ?_
      exact (held.exactly _ inRange).mp was ⟨f, member, b, waits, congrArg w.serial same⟩
    · intro b inUse c inUse' same
      exact held.serials b (List.mem_of_mem_erase inUse) c (List.mem_of_mem_erase inUse') same
    · exact fun null => held.nonnull (List.mem_of_mem_erase null)
  · intro p n asleep
    simp only [settled] at asleep
    split at asleep
    · cases asleep
    · exact held.sleepers p n asleep

end

end Settled

theorem return_tracked (held : Tracked w) {id : Int}
    (at_server : w.phase w.kernel.procCurrent = .handling id n) :
    Tracked (returnStep id n value buffer w) := by
  obtain ⟨func, listed, rfl, owner, block, numbered, was, unanswered⟩ :=
    held.handling _ id n at_server
  have found := rpc_find_own held listed
  rw [owner] at found
  have handles : (w.functions func).current ≠ 0 := fun null => held.nonnull (null ▸ block.1)
  obtain ⟨m, made, -, record, -⟩ := block.2
  have caller : (w.calls (w.functions func).current).caller ∈ w.kernel.procAll := by
    rw [record]
    exact (held.callers m (List.mem_of_getElem? made)).1
  have done := settled_tracked value buffer held owner block (numbered ▸ was) (numbered ▸ unanswered)
  have away := load_addrspace_keeps_callers held.consistent
    (w.calls (w.functions func).current).caller
  have back := load_addrspace_keeps_callers away.consistent w.kernel.procCurrent
  have woken := wake_keeps_callers back.consistent (back.all (away.all caller))
  rw [return_step_settled found handles numbered]
  exact done.with_kernel ((away.trans back).trans woken) _ (fun _ _ asleep => asleep)

/-- One step keeps the invariant. -/
theorem step_tracked (held : Tracked w) (fits : PollFits w event)
    (ran : step w event = some w') : Tracked w' := by
  cases event with
  | create c =>
    obtain ⟨⟨current, fresh⟩, rfl⟩ := onlyIf_eq_some ran
    exact registered_tracked held current fresh
  | call c =>
    obtain ⟨⟨current, nonnull, fresh⟩, rfl⟩ := onlyIf_eq_some ran
    exact call_tracked held current nonnull fresh
  | getinfo id =>
    obtain ⟨⟨current, -⟩, rfl⟩ := onlyIf_eq_some ran
    exact getinfo_tracked held current id
  | poll =>
    cases at_server : w.phase w.kernel.procCurrent with
    | got id synopsis paramsSize =>
      simp only [step, at_server] at ran
      obtain ⟨current, rfl⟩ := onlyIf_eq_some ran
      exact poll_tracked held current at_server fits
    | start | handling => simp [step, at_server] at ran
  | ret value buffer =>
    cases at_server : w.phase w.kernel.procCurrent with
    | handling id n =>
      simp only [step, at_server] at ran
      obtain ⟨-, rfl⟩ := onlyIf_eq_some ran
      exact return_tracked held at_server
    | start | got => simp [step, at_server] at ran
  | proc event =>
    obtain ⟨k, moved, rfl⟩ := Option.map_eq_some_iff.mp ran
    refine held.with_kernel (rounds_keep_callers held.consistent moved) _ fun p n asleep => ?_
    split at asleep
    · exact asleep
    · cases asleep

theorem start_tracked (k : Kernel) : Tracked (start k) := by
  refine ⟨⟨?_, ?_, ?_, ?_, ?_, ?_, ?_⟩, ⟨?_, ?_, ?_, ?_, ?_⟩, ⟨?_, ?_, ?_, ?_, ?_⟩, ⟨?_, ?_⟩,
    init_consistent k, ?_, ?_⟩ <;> simp [start]

/-- In every run in which each poll finds the function that was announced to the
server, requests and replies belong together in every state. -/
theorem requests_and_replies_paired (k : Kernel) (events : List Event)
    (fits : Along step PollFits (start k) events)
    (ran : run step (start k) events = some w) : Paired w :=
  (run_guarded (fun _ _ _ => step_tracked) (start_tracked k) fits ran).toPaired

instance (w : World) : (event : Event) → Decidable (PollFits w event)
  | .poll => inferInstanceAs (Decidable (∀ id ∈ (w.phase w.kernel.procCurrent).announced,
    ∀ func ∈ rpcFind (-1) none w.kernel.procCurrent 0 true w.toRpcs,
      (w.functions func).id = id ∧ (w.functions func).synopsis.length < rpcSynopsisMaxlen))
  | .create _ | .call _ | .getinfo _ | .ret .. | .proc _ => isTrue trivial

/-- A server, process 1, and two callers. -/
def threeProcesses : List Event :=
  [.proc (.create ⟨1, staleBlock, 11, 1, 1, 0, true⟩), .proc (.create ⟨2, staleBlock, 12, 1, 1, 0, true⟩),
    .proc (.create ⟨3, staleBlock, 13, 1, 1, 0, true⟩), .proc .shedule]

/-- The server registers a function with synopsis `i` and one with synopsis `$`. -/
def twoFunctions : List Event :=
  [.create ⟨500, 0, [97], 0, [105], 4⟩, .create ⟨501, 0, [98], 0, [36], 8⟩]

/-- Process 2 calls the first function, which is announced to the server; then process
3 calls the second function, the server polls and returns 7. -/
def lateCall : List Event :=
  [.proc .shedule, .call ⟨0, 700, fun _ => 1, 64, 0, 68⟩, .proc .shedule, .proc .shedule,
    .getinfo (-1), .proc .shedule, .call ⟨1, 701, fun _ => 2, 64, 0, 68⟩, .poll, .ret 7 fun _ => 0]

/-- The server gets the parameters of the second call under the synopsis of the first
function and in a buffer of its size, and its return reaches nobody. -/
theorem late_call_is_taken_under_wrong_synopsis :
    ∃ w, run step (start bootKernel) (threeProcesses ++ twoFunctions ++ lateCall) = some w ∧
      w.made.map (fun m => (w.functions m.function).synopsis) = [[105], [36]] ∧
      w.handed = [⟨1, [105], 4, List.replicate 8 2⟩] ∧
      w.returned.map Returned.stores = [[]] ∧ w.kernel.procSleeping = [3, 2] ∧ ¬ Paired w := by
  refine reached_of (P := fun w =>
    w.made.map (fun m => (w.functions m.function).synopsis) = [[105], [36]] ∧
    w.handed = [⟨1, [105], 4, List.replicate 8 2⟩] ∧ w.returned.map Returned.stores = [[]] ∧
    w.kernel.procSleeping = [3, 2]) (by decide +kernel) ?_
  rintro w ran ⟨texts, handed, stores, asleep⟩
  refine ⟨texts, handed, stores, asleep, fun paired => ?_⟩
  obtain ⟨m, found, -, synopsis, -⟩ :=
    paired.delivered ⟨1, [105], 4, List.replicate 8 2⟩ (by simp [handed])
  have second : (w.made.map (fun m => (w.functions m.function).synopsis))[1]? =
      some (w.functions m.function).synopsis := by
    rw [List.getElem?_map, found]
    rfl
  rw [texts, ← synopsis] at second
  exact absurd second (by decide)

/-- Without the second call the server takes and answers the first one. -/
def singleCall : List Event :=
  [.proc .shedule, .call ⟨0, 700, fun _ => 1, 64, 0, 68⟩, .proc .shedule, .proc .shedule,
    .getinfo (-1), .poll, .ret 7 fun _ => 0]

theorem single_call_is_answered :
    ∃ w, run step (start bootKernel) (threeProcesses ++ twoFunctions ++ singleCall) = some w ∧
      w.returned.map Returned.stores = [[⟨12, 64, .int 7⟩, ⟨12, 68, .int 0⟩]] ∧ Paired w := by
  refine reached_of (P := fun w => w.returned.map Returned.stores =
    [[⟨12, 64, .int 7⟩, ⟨12, 68, .int 0⟩]]) (by decide +kernel) fun w ran stores => ⟨stores, ?_⟩
  exact requests_and_replies_paired bootKernel _ (by decide +kernel) ran

end MeinOS.RpcPairing
