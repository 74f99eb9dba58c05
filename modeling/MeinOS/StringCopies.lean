import MeinOS.ProcmWait
import MeinOS.Rpc
import Mathlib.Tactic.Linarith

/-! Copies of `lib/stdlibc/string.c`.

`memmove` goes from the low end if the source is above the destination and else from the high end.
The strings that system calls copy to a buffer of the caller all go through `strncpy`, which copies
one byte less than there is room for; without any room that is the largest number there is. -/
namespace MeinOS.StringCopies
open Llist Procm ProcmLists ProcmWait
open Rpc (rpcFind)

section Move

variable {α : Type} {mem : Nat → α} {dest src : Nat}

/-- One assignment: `n` bytes are read and then written. -/
def copyUnit (mem : Nat → α) (dest src n : Nat) : Nat → α :=
  fun a => if dest ≤ a ∧ a < dest + n then mem (a - dest + src) else mem a

/-- The units from the first to the last. -/
def copyUp (mem : Nat → α) (dest src unit : Nat) : Nat → Nat → α
  | 0 => mem
  | i + 1 => copyUnit (copyUp mem dest src unit i) (dest + i * unit) (src + i * unit) unit

/-- The units from the last to the first. -/
def copyDown (mem : Nat → α) (dest src unit : Nat) : Nat → Nat → α
  | 0 => mem
  | i + 1 => copyDown (copyUnit mem (dest + i * unit) (src + i * unit) unit) dest src unit i

/-- `memmove`, which copies four bytes at a time and the rest one by one. -/
def memmove (mem : Nat → α) (dest src n : Nat) : Nat → α :=
  if dest = src then mem
  else if src > dest then
    copyUp (copyUp mem dest src 4 (n / 4)) (dest + n / 4 * 4) (src + n / 4 * 4) 1 (n % 4)
  else copyDown (copyDown mem (dest + n / 4 * 4) (src + n / 4 * 4) 1 (n % 4)) dest src 4 (n / 4)

theorem copy_nothing : copyUnit mem dest src 0 = mem := by
  funext a
  exact if_neg (by omega)

/-- Going up, what the second copy reads the first one has not written. -/
theorem copy_then_above (above : dest < src) (m n : Nat) :
    copyUnit (copyUnit mem dest src m) (dest + m) (src + m) n = copyUnit mem dest src (m + n) := by
  funext a
  unfold copyUnit
  split_ifs <;> first | omega | rfl | (congr 1; omega)

/-- Going down, likewise. -/
theorem copy_then_below (below : src < dest) (m n : Nat) :
    copyUnit (copyUnit mem (dest + m) (src + m) n) dest src m = copyUnit mem dest src (m + n) := by
  funext a
  unfold copyUnit
  split_ifs <;> first | omega | rfl | (congr 1; omega)

theorem copy_up_eq (above : dest < src) (unit count : Nat) :
    copyUp mem dest src unit count = copyUnit mem dest src (count * unit) := by
  induction count with
  | zero => simp [copyUp, copy_nothing]
  | succ i ih => rw [copyUp, ih, copy_then_above above, Nat.succ_mul]

theorem copy_down_eq (below : src < dest) (unit count : Nat) :
    copyDown mem dest src unit count = copyUnit mem dest src (count * unit) := by
  induction count generalizing mem with
  | zero => simp [copyDown, copy_nothing]
  | succ i ih => rw [copyDown, ih, copy_then_below below, Nat.succ_mul]

/-- The bytes of the source before the call are at the destination, and nothing else has changed. -/
theorem memmove_eq (mem : Nat → α) (dest src n : Nat) :
    memmove mem dest src n = copyUnit mem dest src n := by
  have whole : n / 4 * 4 + n % 4 * 1 = n := by omega
  rcases Nat.lt_trichotomy dest src with above | rfl | below
  · rw [memmove, if_neg above.ne, if_pos above, copy_up_eq (by omega), copy_up_eq above,
      copy_then_above above, whole]
  · rw [memmove, if_pos rfl]
    funext a
    unfold copyUnit
    split_ifs
    · congr 1
      omega
    · rfl
  · rw [memmove, if_neg below.ne', if_neg (by omega), copy_down_eq below, copy_down_eq (by omega),
      copy_then_below below, whole]

end Move

/-- Whether and how far the ranges overlap does not matter. -/
theorem memmove_moves {α : Type} (mem : Nat → α) (dest src n : Nat) :
    (∀ i, i < n → memmove mem dest src n (dest + i) = mem (src + i)) ∧
      ∀ a, a < dest ∨ dest + n ≤ a → memmove mem dest src n a = mem a := by
  rw [memmove_eq]
  constructor
  · intro i inside
    rw [copyUnit, if_pos (by omega), Nat.add_sub_cancel_left, Nat.add_comm]
  · intro a outside
    exact if_neg (by omega)

/-- The kernel's memory from a string on: its bytes, the NUL, and whatever is behind. -/
def bytesAt (text : List Byte) (behind : Nat → Byte) (i : Nat) : Byte := (text ++ [0])[i]?.getD (behind i)

/-- What `strncpy` writes, from `dest` on. The NUL goes right behind the bytes of `memcpy`. -/
def strncpy (text : List Byte) (behind : Nat → Byte) (n : Nat) : List Byte :=
  let len := if n < text.length + 1 then n else text.length + 1
  (List.range ((len + (2 ^ 32 - 1)) % 2 ^ 32)).map (bytesAt text behind) ++ [0]

/-- `proc_getname`: its result and what it writes to the buffer. -/
def procGetname (name : Ptr → List Byte) (behind : Nat → Byte) (k : Kernel) (pid : Int)
    (buf maxlen : Nat) : Int × List Byte :=
  match procFind pid k with
  | some proc => if buf ≠ 0 then (0, strncpy (name proc) behind maxlen) else ((name proc).length + 1, [])
  | none => (-1, [])

/-- What `rpc_function_getinfo` writes to the buffer for the synopsis. -/
def rpcFunctionGetinfo (behind : Nat → Byte) (s : Rpc.Rpcs) (id : Int) (name : Option (List Byte))
    (pid : Int) (hasCalls : Bool) (maxlen : Nat) : List Byte :=
  match rpcFind id name 0 pid hasCalls s with
  | some func => strncpy (s.functions func).synopsis behind maxlen
  | none => []

/-- `rpc_list`. -/
def rpcList (behind : Nat → Byte) (s : Rpc.Rpcs) (i buf bufsize : Nat) : Nat × List Byte :=
  match llistGet s.rpcFunctions i with
  | some func =>
    if buf = 0 ∨ bufsize = 0 then ((s.functions func).name.length + 1, [])
    else
      let written := strncpy (s.functions func).name behind bufsize
      (written.findIdx (· = 0) + 1, written)
  | none => (0, [])

/-- At most `bound` bytes are written, and the last one is a NUL if there is room for it. -/
def Bounded (bound : Nat) (written : List Byte) : Prop :=
  written.length ≤ bound ∧ (1 ≤ bound → written ≠ [] → written.getLast? = some 0)

theorem nothing_bounded (bound : Nat) : Bounded bound [] :=
  ⟨Nat.zero_le _, fun _ some => absurd rfl some⟩

/-- With room for a byte, the copy is the one of `Rpc.strncpy` and a NUL. -/
theorem strncpy_eq (text : List Byte) (behind : Nat → Byte) {n : Nat} (room : 0 < n) (small : n < 2 ^ 32) :
    strncpy text behind n = Rpc.strncpy text n ++ [0] := by
  have copied : ∀ count ≤ text.length, (List.range count).map (bytesAt text behind) = text.take count := by
    intro count short
    apply List.ext_getElem
    · simp [short]
    · intro i inside _
      have within : i < text.length := by simp at inside; omega
      simp [bytesAt, List.getElem?_append_left within, within]
  unfold strncpy Rpc.strncpy
  dsimp only
  split
  · have count : (n + (2 ^ 32 - 1)) % 2 ^ 32 = n - 1 := by omega
    rw [count, copied (n - 1) (by omega)]
  · have count : (text.length + 1 + (2 ^ 32 - 1)) % 2 ^ 32 = text.length + 1 - 1 := by omega
    rw [count, copied _ (by omega)]

theorem strncpy_bounded_iff (text : List Byte) (behind : Nat → Byte) (n : BitVec 32) :
    Bounded n.toNat (strncpy text behind n.toNat) ↔ n ≠ 0 := by
  by_cases room : n = 0
  · subst room
    have all : (strncpy text behind 0).length = 2 ^ 32 := by simp [strncpy]
    simp [Bounded, all]
  · have positive : 0 < n.toNat := Nat.pos_of_ne_zero fun zero => room (BitVec.eq_of_toNat_eq zero)
    rw [strncpy_eq text behind positive n.isLt]
    refine ⟨fun _ => room, fun _ => ⟨?_, fun _ _ => List.getLast?_concat⟩⟩
    simp only [Rpc.strncpy, List.length_append, List.length_take, List.length_singleton]
    split <;> omega

/-- Each of the three calls keeps to its buffer, unless it copies a string that it has found into
a buffer of no bytes; `rpc_list` tests for that. -/
theorem strings_bounded_iff (name : Ptr → List Byte) (behind : Nat → Byte) (s : Rpc.Rpcs) (maxlen : BitVec 32) :
    (∀ pid buf, Bounded maxlen.toNat (procGetname name behind s.kernel pid buf maxlen.toNat).2 ↔
      (procFind pid s.kernel ≠ none → buf ≠ 0 → maxlen ≠ 0)) ∧
    (∀ id func pid hasCalls, Bounded maxlen.toNat
        (rpcFunctionGetinfo behind s id func pid hasCalls maxlen.toNat) ↔
      (rpcFind id func 0 pid hasCalls s ≠ none → maxlen ≠ 0)) ∧
    ∀ i buf, Bounded maxlen.toNat (rpcList behind s i buf maxlen.toNat).2 := by
  refine ⟨fun pid buf => ?_, fun id func pid hasCalls => ?_, fun i buf => ?_⟩
  · cases found : procFind pid s.kernel with
    | none => simp [procGetname, found, nothing_bounded]
    | some proc =>
      by_cases given : buf = 0
      · simp [procGetname, found, given, nothing_bounded]
      · simp [procGetname, found, given, strncpy_bounded_iff]
  · cases found : rpcFind id func 0 pid hasCalls s with
    | none => simp [rpcFunctionGetinfo, found, nothing_bounded]
    | some func => simp [rpcFunctionGetinfo, found, strncpy_bounded_iff]
  · rw [rpcList]
    split
    · split
      · exact nothing_bounded _
      · rename_i room
        refine (strncpy_bounded_iff _ behind maxlen).mpr fun none => room (.inr ?_)
        rw [none]
        rfl
    · exact nothing_bounded _

/-- A process of its own pid is running, and it has registered a function. -/
def oneFunction : Rpc.Rpcs where
  kernel := { bootKernel with procCurrent := 1 }
  rpcFunctions := [8]
  functions := fun _ => ⟨1, [102], 0, [105], 4, 1, [], 0⟩
  calls := fun _ => ⟨0, [], 0, 0, 0⟩
  allocated := [8]
  rpcLastid := 2

/-- With a bound of 0 the name of a process goes over all of the memory, and so does a synopsis. -/
theorem no_room_overruns :
    ¬ Bounded 0 (procGetname (fun _ => [105]) (fun _ => 0) oneFunction.kernel staleBlock.pid 4096 0).2 ∧
    ¬ Bounded 0 (rpcFunctionGetinfo (fun _ => 0) oneFunction (-1) none 0 false 0) := by
  have overrun : ¬ Bounded 0 (strncpy [105] (fun _ => 0) 0) := fun good =>
    absurd rfl ((strncpy_bounded_iff [105] (fun _ => 0) 0).mp good)
  have caller : procFind staleBlock.pid oneFunction.kernel = some 1 := by decide
  have found : rpcFind (-1) none 0 0 false oneFunction = some 8 := by decide
  simp only [procGetname, caller, rpcFunctionGetinfo, found]
  exact ⟨overrun, overrun⟩

end MeinOS.StringCopies
