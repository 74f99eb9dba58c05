import MeinOS.Rpc

/-! Removing a function, `rpc_function_destroy` in `kernel2/rpc.c`. It frees the strings of
the function and its pending calls, but it neither takes the function off `rpc_functions` nor
wakes the processes that wait for an answer. -/
namespace MeinOS.RpcRemoval
open Lib Llist Procm Rpc

/-- The function is gone: no lookup finds it, and whoever was asleep in a pending call of it
has been woken, with the error word of the call as `rpc_function_call` had set it. `stores`
is what was written to user memory. -/
structure Removed (func : Ptr) (before after : Rpcs) (stores : List Store) : Prop where
  unfindable : ∀ id name owner pid hasCalls, rpcFind id name owner pid hasCalls after ≠ some func
  woken : ∀ call ∈ (before.functions func).calls,
    (before.kernel.procs (before.calls call).caller).isSleeping = true →
      (after.kernel.procs (before.calls call).caller).isSleeping = false
  error : ∀ call ∈ (before.functions func).calls, ∀ store ∈ stores,
    store.pagedir = (before.kernel.procs (before.calls call).caller).pagedir →
      store.address = (before.calls call).error → store.content ≠ .int 0

/-- What a successful call leaves of the function. -/
def dropped (func : Ptr) (freed : Freed) (s : Rpcs) : Rpcs :=
  { s.setFunction func fun f => { f with name := freed.name, synopsis := freed.synopsis, calls := [] } with
    allocated := (s.functions func).calls.foldl List.erase s.allocated }

section Destroy
variable {s : Rpcs} {func : Ptr} {freed : Freed} {id : Int}

theorem destroy_own (found : rpcFind id none 0 0 false s = some func)
    (own : (s.functions func).owner = s.kernel.procCurrent) :
    rpcFunctionDestroy id freed s = (0, dropped func freed s) := by
  simp only [rpcFunctionDestroy, found, own, if_true]
  rfl

theorem destroy_succeeds_iff : (rpcFunctionDestroy id freed s).1 = 0 ↔
    ∃ func, rpcFind id none 0 0 false s = some func ∧
      (s.functions func).owner = s.kernel.procCurrent := by
  constructor
  · intro succeeded
    rw [rpcFunctionDestroy] at succeeded
    split at succeeded
    · cases succeeded
    · rename_i func found
      split at succeeded
      · rename_i own
        exact ⟨func, found, own⟩
      · cases succeeded
  · rintro ⟨func, found, own⟩
    rw [destroy_own found own]

/-- The record keeps all that a lookup without a name and regardless of calls reads. -/
theorem dropped_function (func : Ptr) (freed : Freed) (s : Rpcs) (f : Ptr) :
    ((dropped func freed s).functions f).id = (s.functions f).id ∧
      ((dropped func freed s).functions f).owner = (s.functions f).owner := by
  by_cases same : f = func
  · subst same
    simp [dropped, Rpcs.setFunction]
  · simp [dropped, Rpcs.setFunction, Function.update_of_ne same]

/-- Lookups by id, owner and pid find what they found before. -/
theorem dropped_find (func : Ptr) (freed : Freed) (s : Rpcs) (id : Int) (owner : Ptr) (pid : Int) :
    rpcFind id none owner pid false (dropped func freed s) = rpcFind id none owner pid false s := by
  simp only [rpcFind, dropped_function, Option.isNone_none, Bool.true_or, Bool.and_true, Bool.not_false]
  rfl

theorem dropped_not_removed (found : rpcFind id none 0 0 false s = some func) (stores : List Store) :
    ¬ Removed func s (dropped func freed s) stores := by
  intro removed
  apply removed.unfindable id none 0 0 false
  rw [dropped_find, found]

/-- No successful call of `rpc_function_destroy` removes the function: it is found by its id
as before, and every process is as it was, so that the callers sleep on. -/
theorem destroyed_function_never_removed (id : Int) (freed : Freed) (s : Rpcs)
    (succeeded : (rpcFunctionDestroy id freed s).1 = 0) :
    ∃ func, rpcFind id none 0 0 false s = some func ∧
      rpcFind id none 0 0 false (rpcFunctionDestroy id freed s).2 = some func ∧
      (rpcFunctionDestroy id freed s).2.kernel = s.kernel ∧
      ((rpcFunctionDestroy id freed s).2.functions func).calls = [] ∧
      ∀ stores, ¬ Removed func s (rpcFunctionDestroy id freed s).2 stores := by
  obtain ⟨func, found, own⟩ := destroy_succeeds_iff.mp succeeded
  rw [destroy_own found own]
  refine ⟨func, found, ?_, rfl, ?_, dropped_not_removed found⟩
  · rw [dropped_find, found]
  · simp [dropped, Rpcs.setFunction]

end Destroy

/-- Process 1 owns the function 500 with id 0, and process 2 is asleep in a call of it. -/
def oneCaller : Rpcs where
  kernel := { ProcmLists.bootKernel with
    procs := fun proc => { ProcmLists.staleBlock with pid := proc + 1, isSleeping := proc = 2 }
    procAll := [2, 1]
    procRunning := [1]
    procSleeping := [2]
    procCurrent := 1 }
  rpcFunctions := [500]
  functions _ := ⟨0, [97], 0, [105], 4, 1, [700], 0⟩
  calls _ := ⟨2, [0, 0, 0, 0], 64, 0, 68⟩
  allocated := [700]
  rpcLastid := 1

theorem one_caller_destroy_succeeds :
    (rpcFunctionDestroy 0 ⟨[], []⟩ oneCaller).1 = 0 ∧
      ∃ func, rpcFind 0 none 0 0 false (rpcFunctionDestroy 0 ⟨[], []⟩ oneCaller).2 = some func := by
  have succeeded : (rpcFunctionDestroy 0 ⟨[], []⟩ oneCaller).1 = 0 := by decide
  obtain ⟨func, -, still, -⟩ := destroyed_function_never_removed 0 ⟨[], []⟩ oneCaller succeeded
  exact ⟨succeeded, func, still⟩

/-- After the call the function is still found by its id and its owner, and its caller is
still asleep. -/
theorem destroyed_function_found_caller_asleep :
    (rpcFunctionDestroy 0 ⟨[], []⟩ oneCaller).1 = 0 ∧
      rpcFind 0 none 0 0 false (rpcFunctionDestroy 0 ⟨[], []⟩ oneCaller).2 = some 500 ∧
      rpcFind (-1) none 1 0 false (rpcFunctionDestroy 0 ⟨[], []⟩ oneCaller).2 = some 500 ∧
      ((rpcFunctionDestroy 0 ⟨[], []⟩ oneCaller).2.kernel.procs 2).isSleeping = true ∧
      ¬ Removed 500 oneCaller (rpcFunctionDestroy 0 ⟨[], []⟩ oneCaller).2 [] := by
  refine ⟨by decide, by decide, by decide, by decide, fun removed => ?_⟩
  exact removed.unfindable 0 none 0 0 false (by decide)

end MeinOS.RpcRemoval
