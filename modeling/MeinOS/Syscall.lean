import Mathlib.Algebra.Order.Ring.Int

/-! The table of system calls, `kernel2/syscall.c`. A number is a signed value that the caller
chooses, and it is compared with the size of the table from one side only. -/
namespace MeinOS.Syscall

/-- `SYSCALL_MAXNUM`, the number of entries. -/
def maxnum : Int := 83

/-- `struct syscall`; a function is known by its address. -/
structure Entry where
  func : Nat
  numparams : Int
  deriving DecidableEq

/-- The entries by the index that the code uses. Those outside 0..82 are not part of the array,
but whatever the memory around it holds. -/
abbrev Table := Int → Entry

/-- `syscall_init`. -/
def syscallInit (syscalls : Table) : Table := fun i =>
  if 0 ≤ i ∧ i < maxnum then ⟨0, 0⟩ else syscalls i

/-- `syscall_create`. -/
def syscallCreate (syscalls : Table) (cmd : Int) (func : Nat) (numparams : Int) : Int × Table :=
  if cmd > maxnum ∨ (syscalls cmd).func ≠ 0 then (-1, syscalls)
  else (0, Function.update syscalls cmd ⟨func, numparams⟩)

inductive Outcome where
  | call (func : Nat) (numparams : Int)
  | kill
  | ignored
  deriving DecidableEq

/-- The entries that `syscall_handler` reads and what it does then; storing the result is left to
`Interrupt.syscallReturn`. -/
def syscallHandler (syscalls : Table) (cmd : BitVec 32) : List Int × Outcome :=
  if cmd.toInt ≤ maxnum then
    ([cmd.toInt], if (syscalls cmd.toInt).func ≠ 0 then
      .call (syscalls cmd.toInt).func (syscalls cmd.toInt).numparams else .kill)
  else ([], .ignored)

/-- The arguments of a `syscall_create`. -/
structure Create where
  cmd : Int
  func : Nat
  numparams : Int
  deriving DecidableEq

def Create.Valid (c : Create) : Prop := 0 ≤ c.cmd ∧ c.cmd < maxnum

def fill (syscalls : Table) : List Create → Table
  | [] => syscalls
  | c :: creates => fill (syscallCreate syscalls c.cmd c.func c.numparams).2 creates

/-- The registration for a number: the first one that brings a function. -/
def registered (creates : List Create) (cmd : Int) : Option Create :=
  creates.find? fun c => c.cmd = cmd ∧ c.func ≠ 0

def Outcome.called : Outcome → Option (Nat × Int)
  | .call func numparams => some (func, numparams)
  | .kill | .ignored => none

/-- Only entries of the table are read, and what is called is what is registered for the number,
with its parameter count. -/
def Dispatched (memory : Table) (creates : List Create) (cmd : BitVec 32) : Prop :=
  (∀ i ∈ (syscallHandler (fill (syscallInit memory) creates) cmd).1, 0 ≤ i ∧ i < maxnum) ∧
  (syscallHandler (fill (syscallInit memory) creates) cmd).2.called =
    (registered creates cmd.toInt).map fun c => (c.func, c.numparams)

variable {t : Table} {i : Int}

theorem create_entry {c : Create} (valid : c.Valid) (t : Table) (i : Int) :
    (syscallCreate t c.cmd c.func c.numparams).2 i =
      if i = c.cmd ∧ (t i).func = 0 then ⟨c.func, c.numparams⟩ else t i := by
  have inside : ¬ c.cmd > maxnum := not_lt.mpr valid.2.le
  by_cases same : i = c.cmd
  · subst same
    by_cases free : (t c.cmd).func = 0
    · simp [syscallCreate, inside, free]
    · simp [syscallCreate, free]
  · rw [if_neg fun both => same both.1, syscallCreate]
    split
    · rfl
    · exact Function.update_of_ne same ..

theorem fill_taken {creates : List Create} (valid : ∀ c ∈ creates, c.Valid) (taken : (t i).func ≠ 0) :
    fill t creates i = t i := by
  induction creates generalizing t with
  | nil => rfl
  | cons c creates ih =>
    obtain ⟨first, others⟩ := List.forall_mem_cons.mp valid
    have kept : (syscallCreate t c.cmd c.func c.numparams).2 i = t i := by
      rw [create_entry first, if_neg fun both => taken both.2]
    rw [fill, ih others, kept]
    rwa [kept]

/-- An entry that is free holds what is registered for it afterwards. -/
theorem fill_free {creates : List Create} (valid : ∀ c ∈ creates, c.Valid) (free : (t i).func = 0) :
    match registered creates i with
    | some c => c.func ≠ 0 ∧ fill t creates i = ⟨c.func, c.numparams⟩
    | none => (fill t creates i).func = 0 := by
  induction creates generalizing t with
  | nil => exact free
  | cons c creates ih =>
    obtain ⟨first, others⟩ := List.forall_mem_cons.mp valid
    have entry := create_entry first t i
    by_cases brings : c.cmd = i ∧ c.func ≠ 0
    · have found : registered (c :: creates) i = some c := List.find?_cons_of_pos (by simpa using brings)
      rw [if_pos ⟨brings.1.symm, free⟩] at entry
      rw [found]
      refine ⟨brings.2, ?_⟩
      rw [fill, fill_taken others, entry]
      rw [entry]
      exact brings.2
    · have passed : registered (c :: creates) i = registered creates i :=
        List.find?_cons_of_neg (by simpa using brings)
      rw [passed, fill]
      apply ih others
      rw [entry]
      split
      · rename_i both
        exact not_not.mp fun some => brings ⟨both.1.symm, some⟩
      · exact free

/-- A call is dispatched as it should be exactly if its number is one of the table's or lies
above the end of the table by more than one. -/
theorem dispatched_iff (memory : Table) (creates : List Create) (valid : ∀ c ∈ creates, c.Valid)
    (cmd : BitVec 32) : Dispatched memory creates cmd ↔
      (0 ≤ cmd.toInt ∧ cmd.toInt < maxnum) ∨ maxnum < cmd.toInt := by
  by_cases low : cmd.toInt ≤ maxnum
  · rw [Dispatched, syscallHandler, if_pos low, List.forall_mem_singleton]
    refine ⟨fun good => .inl good.1, ?_⟩
    rintro (inside | above)
    · have entry : (syscallInit memory cmd.toInt).func = 0 := by rw [syscallInit, if_pos inside]
      have filled := fill_free valid entry
      refine ⟨inside, ?_⟩
      cases found : registered creates cmd.toInt with
      | none =>
        rw [found] at filled
        rw [if_neg (not_not.mpr filled)]
        rfl
      | some c =>
        rw [found] at filled
        rw [filled.2, if_pos filled.1]
        rfl
    · exact absurd low (not_le.mpr above)
  · have missing : registered creates cmd.toInt = none := by
      rw [registered, List.find?_eq_none]
      intro c member hit
      have same : c.cmd = cmd.toInt := (of_decide_eq_true hit).1
      exact low (same ▸ (valid c member).2.le)
    simp [Dispatched, syscallHandler, low, missing, Outcome.called, not_le.mp low]

/-- The entry behind the table is read, and a negative number calls what lies in front of it. -/
theorem numbers_beside_table :
    ¬ (∀ memory creates, (∀ c ∈ creates, Create.Valid c) → ∀ cmd, Dispatched memory creates cmd) ∧
    syscallHandler (syscallInit fun _ => ⟨4096, 2⟩) 83 = ([83], .call 4096 2) ∧
    syscallHandler (syscallInit fun _ => ⟨4096, 2⟩) (-1) = ([-1], .call 4096 2) := by
  refine ⟨fun all => ?_, by decide, by decide⟩
  have inside := (all (fun _ => ⟨0, 0⟩) [] (fun _ member => absurd member List.not_mem_nil) 83).1 83 (by decide)
  exact absurd inside.2 (by decide)

/-- `SYSCALL_FOURTYTWO` after a second registration, which is refused. -/
theorem fourtytwo_dispatched :
    Dispatched (fun _ => ⟨7, 7⟩) [⟨82, 4096, 0⟩, ⟨82, 8192, 1⟩] 82 ∧
    (syscallHandler (fill (syscallInit fun _ => ⟨7, 7⟩) [⟨82, 4096, 0⟩, ⟨82, 8192, 1⟩]) 82).2 =
      .call 4096 0 := by
  have valid : ∀ c ∈ [Create.mk 82 4096 0, ⟨82, 8192, 1⟩], c.Valid := by simp [Create.Valid, maxnum]
  exact ⟨(dispatched_iff _ _ valid 82).mpr (.inl (by decide)), by decide⟩

end MeinOS.Syscall
