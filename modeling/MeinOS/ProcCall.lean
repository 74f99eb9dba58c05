import MeinOS.Interrupt

/-! Calls into a process from outside, `proc_call` and `proc_push` in `kernel2/procm.c`: a
signal or an interrupt makes a process continue in a handler, which returns to where the
process was. The words are stored through the address space of the process, whether it is the
current one or not; its registers are those in the interrupt frame or those in its record.

A process that sleeps is entered in the list of those that run, with a node from the kernel's heap.
A heap that has to grow for it maps a page of the kernel, which is left out. -/
namespace MeinOS.ProcCall
open Lib Llist Procm
open Interrupt (setRegisters registersOf loadCurrent)

/-- The processes, the bytes of physical memory, and where each page directory maps an
address to. -/
structure World where
  kernel : Kernel
  memory : Nat → BitVec 8
  map : Ptr → BitVec 32 → Option Nat

/-- The bytes of a word, the lowest first. -/
def wordByte (value : BitVec 32) (b : Nat) : BitVec 8 := value.extractLsb' (8 * b) 8

/-- Stores bytes from an address upwards, through the loaded page directory. There is no
result if an address is not mapped. -/
def storeBytes : List (BitVec 8) → BitVec 32 → World → Option World
  | [], _, w => some w
  | byte :: rest, addr, w => (w.map w.kernel.curpd addr).bind fun place =>
    storeBytes rest (addr + 1) { w with memory := Function.update w.memory place byte }

/-- Moves the stack pointer of the process down. -/
def lower (proc : Ptr) (size : Nat) (k : Kernel) : Kernel :=
  setRegisters proc (fun r => { r with esp := r.esp - BitVec.ofNat 32 size }) k

/-- `proc_push`. -/
def procPush (proc : Ptr) (value : BitVec 32) (w : World) : Option World :=
  storeBytes [wordByte value 0, wordByte value 1, wordByte value 2, wordByte value 3]
    (registersOf proc (lower proc 4 w.kernel)).esp { w with kernel := lower proc 4 w.kernel }

/-- The loop over the parameters. -/
def pushAll (proc : Ptr) : List (BitVec 32) → World → Option World
  | [], w => some w
  | value :: rest, w => (procPush proc value w).bind (pushAll proc rest)

/-- The end of `proc_call`: the old address space is loaded, the process is to go on in the
function, and it is woken. -/
def redirect (proc : Ptr) (func : BitVec 32) (w : World) : World :=
  { w with kernel :=
      procWake proc (setRegisters proc (fun r => { r with eip := func }) (loadCurrent w.kernel)) }

/-- `proc_call`. The parameters are pushed from the last to the first, then `eip`. -/
def procCall (proc : Ptr) (func : BitVec 32) (args : List (BitVec 32)) (w : World) : Option World :=
  if (w.kernel.procs proc).defunc then some w
  else
    (pushAll proc args.reverse { w with kernel := memuserLoadAddrspace proc w.kernel }).bind fun w =>
      (procPush proc (registersOf proc w.kernel).eip w).map (redirect proc func)

/-- The bytes right below the stack pointer of the process are mapped, each to a place of its
own. -/
structure Stack (w : World) (proc : Ptr) (size : Nat) (place : Nat → Nat) : Prop where
  mapped : ∀ j < size, w.map (w.kernel.procs proc).pagedir
    ((registersOf proc w.kernel).esp - BitVec.ofNat 32 (j + 1)) = some (place j)
  apart : ∀ i < size, ∀ j < size, place i = place j → i = j

/-- There is this word at an address of an address space. -/
def WordAt (w : World) (pagedir : Ptr) (addr value : BitVec 32) : Prop :=
  ∀ b < 4, ∃ place, w.map pagedir (addr + BitVec.ofNat 32 b) = some place ∧
    w.memory place = wordByte value b

/-- The process is to go on at `eip`, with these words added to its stack. -/
structure Built (proc : Ptr) (eip : BitVec 32) (words : List (BitVec 32)) (w w' : World) : Prop where
  eip : (registersOf proc w'.kernel).eip = eip
  esp : (registersOf proc w'.kernel).esp =
    (registersOf proc w.kernel).esp - BitVec.ofNat 32 (4 * words.length)
  words : ∀ i value, words[i]? = some value → WordAt w' (w.kernel.procs proc).pagedir
    ((registersOf proc w'.kernel).esp + BitVec.ofNat 32 (4 * i)) value

/-- One call: its frame is built, no byte outside the frame changes, no mapping of user memory does,
no other process is redirected, and the process is awake. -/
structure Upcall (proc : Ptr) (func : BitVec 32) (args : List (BitVec 32)) (w w' : World) : Prop
    extends Built proc func ((registersOf proc w.kernel).eip :: args) w w' where
  memory : ∀ place, w'.memory place ≠ w.memory place → ∃ j < 4 * (args.length + 1),
    w.map (w.kernel.procs proc).pagedir
      ((registersOf proc w'.kernel).esp + BitVec.ofNat 32 j) = some place
  map : ∀ pagedir addr, 2 ^ 30 ≤ addr.toNat → w'.map pagedir addr = w.map pagedir addr
  others : ∀ other, other ≠ proc → registersOf other w'.kernel = registersOf other w.kernel
  awake : (w'.kernel.procs proc).isSleeping = false
  running : (w.kernel.procs proc).isSleeping = true → proc ∈ w'.kernel.procRunning

/-- Whatever happens in between does not concern the process: it does not run, and its
memory and its mappings stay. -/
structure Elsewhere (proc : Ptr) (w w' : World) : Prop where
  registers : registersOf proc w'.kernel = registersOf proc w.kernel
  defunc : (w'.kernel.procs proc).defunc = (w.kernel.procs proc).defunc
  pagedir : (w'.kernel.procs proc).pagedir = (w.kernel.procs proc).pagedir
  map : w'.map (w.kernel.procs proc).pagedir = w.map (w.kernel.procs proc).pagedir
  memory : ∀ addr place, w.map (w.kernel.procs proc).pagedir addr = some place →
    w'.memory place = w.memory place

/-- Calls into one process before it runs, each with its function and its arguments. -/
inductive Upcalls (proc : Ptr) : World → List (BitVec 32 × List (BitVec 32)) → World → Prop
  | none (meanwhile : Elsewhere proc w w') : Upcalls proc w [] w'
  | call (meanwhile : Elsewhere proc w v) (called : procCall proc func args v = some u)
    (later : Upcalls proc u calls w') : Upcalls proc w ((func, args) :: calls) w'

/-- Where the process goes on after the calls. -/
def continuesAt (eip : BitVec 32) : List (BitVec 32 × List (BitVec 32)) → BitVec 32
  | [] => eip
  | (func, _) :: calls => continuesAt func calls

/-- The words on the stack after the calls, from the last frame to the first: each frame
starts with where the process would have gone on before it. -/
def frames (eip : BitVec 32) : List (BitVec 32 × List (BitVec 32)) → List (BitVec 32)
  | [] => []
  | (func, args) :: calls => frames func calls ++ eip :: args

section Registers
variable {k : Kernel} {proc other : Ptr}

theorem registers_set (proc : Ptr) (f : Registers → Registers) (k : Kernel) :
    registersOf proc (setRegisters proc f k) = f (registersOf proc k) := by
  by_cases current : k.procCurrent = proc
  · simp [registersOf, setRegisters, current]
  · simp [registersOf, setRegisters, current]

theorem registers_set_other (different : other ≠ proc) (f : Registers → Registers) (k : Kernel) :
    registersOf other (setRegisters proc f k) = registersOf other k := by
  by_cases current : k.procCurrent = proc
  · simp [registersOf, setRegisters, current, Ne.symm different]
  · simp [registersOf, setRegisters, current, setProc_other k proc _ different]

theorem set_registers_twice (f g : Registers → Registers) (k : Kernel) :
    setRegisters proc g (setRegisters proc f k) = setRegisters proc (fun r => g (f r)) k := by
  by_cases current : k.procCurrent = proc
  · simp [setRegisters, current]
  · simp [setRegisters, current, Kernel.setProc]

/-- What `setRegisters` leaves as it is. -/
theorem set_registers_keeps (proc : Ptr) (f : Registers → Registers) (k : Kernel) :
    (setRegisters proc f k).procCurrent = k.procCurrent ∧ (setRegisters proc f k).curpd = k.curpd ∧
      (setRegisters proc f k).procRunning = k.procRunning ∧
      ∀ p, ((setRegisters proc f k).procs p).pagedir = (k.procs p).pagedir ∧
        ((setRegisters proc f k).procs p).isSleeping = (k.procs p).isSleeping ∧
        ((setRegisters proc f k).procs p).defunc = (k.procs p).defunc := by
  by_cases current : k.procCurrent = proc
  · simp [setRegisters, current]
  · simp only [setRegisters, current, if_false]
    refine ⟨rfl, rfl, rfl, fun p => ⟨?_, ?_, ?_⟩⟩
    · exact setProc_keeps k proc _ Proc.pagedir (fun _ => by rfl) p
    · exact setProc_keeps k proc _ Proc.isSleeping (fun _ => by rfl) p
    · exact setProc_keeps k proc _ Proc.defunc (fun _ => by rfl) p

end Registers

section Push
variable {w w' : World} {proc : Ptr} {place : Nat → Nat}

theorem below_add (x : BitVec 32) {m n : Nat} (within : n ≤ m) :
    x - BitVec.ofNat 32 m + BitVec.ofNat 32 n = x - BitVec.ofNat 32 (m - n) := by
  have split : BitVec.ofNat 32 m = BitVec.ofNat 32 (m - n) + BitVec.ofNat 32 n := by
    rw [← BitVec.ofNat_add, Nat.sub_add_cancel within]
  rw [split]
  ring

theorem below_below (x : BitVec 32) (m n : Nat) :
    x - BitVec.ofNat 32 m - BitVec.ofNat 32 n = x - BitVec.ofNat 32 (m + n) := by
  rw [BitVec.ofNat_add]
  ring

/-- The byte that lies `j` below the old stack pointer once the words are pushed. -/
def pushedByte (words : List (BitVec 32)) (j : Nat) : BitVec 8 :=
  wordByte (words.getD (j / 4) 0) (3 - j % 4)

/-- The bytes of the words are at their places, and elsewhere in a part of memory nothing has
changed. -/
structure Written (Part : Nat → Prop) (words : List (BitVec 32)) (place : Nat → Nat)
    (memory memory' : Nat → BitVec 8) : Prop where
  written : ∀ j < 4 * words.length, memory' (place j) = pushedByte words j
  kept : ∀ p, Part p → (∀ j < 4 * words.length, place j ≠ p) → memory' p = memory p

/-- Words pushed one list after the other. -/
theorem Written.append {Part : Nat → Prop} (first : Written Part words place m m')
    (second : Written Part more (fun j => place (j + 4 * words.length)) m' m'')
    (apart : ∀ i < size, ∀ j < size, place i = place j → i = j) (part : ∀ j < size, Part (place j))
    (room : 4 * (words ++ more).length ≤ size) : Written Part (words ++ more) place m m'' := by
  rw [List.length_append] at room
  constructor
  · intro j inside
    rw [List.length_append] at inside
    by_cases early : j < 4 * words.length
    · have untouched : m'' (place j) = m' (place j) := by
        refine second.kept (place j) (part j (by omega)) fun i within same => ?_
        have equal := apart (i + 4 * words.length) (by omega) j (by omega) same
        omega
      rw [untouched, first.written j early, pushedByte, pushedByte, List.getD_append _ _ _ _ (by omega)]
    · have later := second.written (j - 4 * words.length) (by omega)
      rw [Nat.sub_add_cancel (by omega)] at later
      rw [later, pushedByte, pushedByte, List.getD_append_right _ _ _ _ (by omega),
        show (j - 4 * words.length) / 4 = j / 4 - words.length by omega,
        show (j - 4 * words.length) % 4 = j % 4 by omega]
  · intro p inside outside
    rw [List.length_append] at outside
    rw [second.kept p inside fun j within => outside (j + 4 * words.length) (by omega),
      first.kept p inside fun j within => outside j (by omega)]

/-- The words are on the stack of the process, and nothing else has changed. -/
structure Pushed (proc : Ptr) (words : List (BitVec 32)) (place : Nat → Nat) (w w' : World) : Prop where
  kernel : w'.kernel = lower proc (4 * words.length) w.kernel
  map : w'.map = w.map
  memory : Written (fun _ => True) words place w.memory w'.memory

/-- Stores to addresses that are mapped to different places. -/
theorem store_bytes_spec (place : Nat → Nat) (bytes : List (BitVec 8)) (addr : BitVec 32) (w : World)
    (mapped : ∀ i < bytes.length, w.map w.kernel.curpd (addr + BitVec.ofNat 32 i) = some (place i))
    (apart : ∀ i < bytes.length, ∀ j < bytes.length, place i = place j → i = j) :
    ∃ memory, storeBytes bytes addr w = some { w with memory := memory } ∧
      (∀ i byte, bytes[i]? = some byte → memory (place i) = byte) ∧
      ∀ p, (∀ i < bytes.length, place i ≠ p) → memory p = w.memory p := by
  induction bytes generalizing addr w place with
  | nil => exact ⟨w.memory, rfl, fun i byte found => (by simp at found), fun _ _ => rfl⟩
  | cons byte rest ih =>
    have first := mapped 0 (by simp)
    rw [BitVec.add_zero] at first
    obtain ⟨memory, stored, written, kept⟩ := ih (fun i => place (i + 1)) (addr + 1)
      { w with memory := Function.update w.memory (place 0) byte }
      (fun i inside => by
        have next := mapped (i + 1) (by simpa using inside)
        rw [BitVec.ofNat_add, add_comm (BitVec.ofNat 32 i), ← add_assoc] at next
        exact next)
      (fun i left j right same => by
        have equal := apart (i + 1) (by simpa using left) (j + 1) (by simpa using right) same
        omega)
    refine ⟨memory, ?_, fun i value found => ?_, fun p outside => ?_⟩
    · rw [storeBytes, first]
      exact stored
    · cases i with
      | zero =>
        cases found
        have untouched : memory (place 0) = Function.update w.memory (place 0) byte (place 0) := by
          apply kept
          intro i inside same
          have equal := apart (i + 1) (by simpa using inside) 0 (by simp) same
          omega
        rw [untouched, Function.update_self]
      | succ i => exact written i value (by simpa using found)
    · rw [kept p fun i inside => outside (i + 1) (by simpa using inside)]
      exact Function.update_of_ne (outside 0 (by simp)).symm ..

theorem lower_esp (proc : Ptr) (size : Nat) (k : Kernel) :
    (registersOf proc (lower proc size k)).esp =
      (registersOf proc k).esp - BitVec.ofNat 32 size := by
  rw [lower, registers_set]

theorem lower_lower (proc : Ptr) (a b : Nat) (k : Kernel) :
    lower proc b (lower proc a k) = lower proc (a + b) k := by
  simp only [lower, set_registers_twice, below_below]

theorem lower_zero (proc : Ptr) (k : Kernel) : lower proc 0 k = k := by
  have same : (fun r : Registers => { r with esp := r.esp - BitVec.ofNat 32 0 }) = id := by
    funext r
    rw [BitVec.sub_zero]
    rfl
  rw [lower, same, setRegisters]
  split
  · rfl
  · simp [Kernel.setProc]

/-- One word goes to the four places right below the stack pointer. -/
theorem push_spec (stack : Stack w proc size place) (room : 4 ≤ size)
    (loaded : w.kernel.curpd = (w.kernel.procs proc).pagedir) (value : BitVec 32) :
    ∃ w', procPush proc value w = some w' ∧ Pushed proc [value] place w w' := by
  have curpd : (lower proc 4 w.kernel).curpd = (w.kernel.procs proc).pagedir :=
    (set_registers_keeps proc _ w.kernel).2.1.trans loaded
  have spec := store_bytes_spec (fun i => place (3 - i))
    [wordByte value 0, wordByte value 1, wordByte value 2, wordByte value 3]
    (registersOf proc (lower proc 4 w.kernel)).esp { w with kernel := lower proc 4 w.kernel }
    (fun i inside => by
      simp only [List.length_cons, List.length_nil] at inside
      have at_place := stack.mapped (3 - i) (by omega)
      rw [lower_esp, below_add _ (by omega), curpd, show 4 - i = 3 - i + 1 by omega]
      exact at_place)
    (fun i left j right same => by
      simp only [List.length_cons, List.length_nil] at left right
      have equal := stack.apart (3 - i) (by omega) (3 - j) (by omega) same
      omega)
  obtain ⟨memory, stored, written, kept⟩ := spec
  refine ⟨_, stored, rfl, rfl, fun j inside => ?_, fun p _ outside => ?_⟩
  · simp only [List.length_cons, List.length_nil] at inside
    have four : j = 0 ∨ j = 1 ∨ j = 2 ∨ j = 3 := by omega
    rcases four with rfl | rfl | rfl | rfl
    · exact written 3 _ rfl
    · exact written 2 _ rfl
    · exact written 1 _ rfl
    · exact written 0 _ rfl
  · apply kept
    intro i inside
    simp only [List.length_cons, List.length_nil] at inside outside
    exact outside (3 - i) (by omega)

/-- The places that an address space reaches. -/
def Reached (w : World) (pagedir : Ptr) (p : Nat) : Prop := ∃ addr, w.map pagedir addr = some p

/-- The stack of the process has grown by these words, and what else its address space
reaches has not changed. -/
structure Grown (proc : Ptr) (eip : BitVec 32) (words : List (BitVec 32)) (place : Nat → Nat)
    (w w' : World) : Prop where
  eip : (registersOf proc w'.kernel).eip = eip
  esp : (registersOf proc w'.kernel).esp =
    (registersOf proc w.kernel).esp - BitVec.ofNat 32 (4 * words.length)
  defunc : (w'.kernel.procs proc).defunc = (w.kernel.procs proc).defunc
  pagedir : (w'.kernel.procs proc).pagedir = (w.kernel.procs proc).pagedir
  map : w'.map (w.kernel.procs proc).pagedir = w.map (w.kernel.procs proc).pagedir
  memory : Written (Reached w (w.kernel.procs proc).pagedir) words place w.memory w'.memory

/-- What is left of the stack below the new words. -/
theorem Grown.stack {dest : BitVec 32} {words : List (BitVec 32)}
    (grown : Grown proc dest words place w w') (stack : Stack w proc size place) :
    Stack w' proc (size - 4 * words.length) (fun j => place (j + 4 * words.length)) := by
  constructor
  · intro j inside
    have at_place := stack.mapped (j + 4 * words.length) (by omega)
    rw [grown.pagedir, grown.map, grown.esp, below_below,
      show 4 * words.length + (j + 1) = j + 4 * words.length + 1 by omega]
    exact at_place
  · intro i left j right same
    have equal := stack.apart (i + 4 * words.length) (by omega) (j + 4 * words.length) (by omega) same
    omega

theorem Stack.reached (stack : Stack w proc size place) (inside : j < size) :
    Reached w (w.kernel.procs proc).pagedir (place j) := ⟨_, stack.mapped j inside⟩

theorem Grown.append {words more : List (BitVec 32)} (first : Grown proc dest words place w v)
    (second : Grown proc dest' more (fun j => place (j + 4 * words.length)) v w')
    (stack : Stack w proc size place) (room : 4 * (words ++ more).length ≤ size) :
    Grown proc dest' (words ++ more) place w w' := by
  have map := second.map
  have memory := second.memory
  rw [first.pagedir] at map memory
  have reached : Reached v (w.kernel.procs proc).pagedir = Reached w (w.kernel.procs proc).pagedir := by
    unfold Reached
    rw [first.map]
  rw [reached] at memory
  constructor
  · exact second.eip
  · rw [second.esp, first.esp, below_below, List.length_append, Nat.mul_add]
  · exact second.defunc.trans first.defunc
  · exact second.pagedir.trans first.pagedir
  · exact map.trans first.map
  · exact first.memory.append memory stack.apart (fun j inside => stack.reached inside) room

theorem Pushed.grown (pushed : Pushed proc words place w w') :
    Grown proc (registersOf proc w.kernel).eip words place w w' := by
  have keeps := (set_registers_keeps proc
    (fun r => { r with esp := r.esp - BitVec.ofNat 32 (4 * words.length) }) w.kernel).2.2.2 proc
  constructor
  · rw [pushed.kernel, lower, registers_set]
  · rw [pushed.kernel, lower_esp]
  · rw [pushed.kernel]
    exact keeps.2.2
  · rw [pushed.kernel]
    exact keeps.1
  · rw [pushed.map]
  · exact ⟨pushed.memory.written, fun p _ outside => pushed.memory.kept p trivial outside⟩

theorem Pushed.append (first : Pushed proc words place w v)
    (second : Pushed proc more (fun j => place (j + 4 * words.length)) v w')
    (stack : Stack w proc size place) (room : 4 * (words ++ more).length ≤ size) :
    Pushed proc (words ++ more) place w w' := by
  constructor
  · rw [second.kernel, first.kernel, lower_lower, List.length_append, Nat.mul_add]
  · exact second.map.trans first.map
  · exact first.memory.append second.memory stack.apart (fun _ _ => trivial) room

theorem push_all_spec (words : List (BitVec 32)) (stack : Stack w proc size place)
    (room : 4 * words.length ≤ size) (loaded : w.kernel.curpd = (w.kernel.procs proc).pagedir) :
    ∃ w', pushAll proc words w = some w' ∧ Pushed proc words place w w' := by
  induction words generalizing w size place with
  | nil =>
    exact ⟨w, rfl, (lower_zero proc w.kernel).symm, rfl, fun j inside => by simp at inside, fun _ _ _ => rfl⟩
  | cons value rest ih =>
    rw [List.length_cons] at room
    obtain ⟨v, stored, first⟩ := push_spec stack (by omega) loaded value
    have keeps := set_registers_keeps proc
      (fun r => { r with esp := r.esp - BitVec.ofNat 32 (4 * [value].length) }) w.kernel
    have still : v.kernel.curpd = (v.kernel.procs proc).pagedir := by
      rw [first.kernel, lower, keeps.2.1, (keeps.2.2.2 proc).1, loaded]
    obtain ⟨w', pushed, later⟩ := ih (first.grown.stack stack) (by simp only [List.length_singleton]; omega) still
    refine ⟨w', ?_, first.append later stack (by simp only [List.length_append, List.length_singleton]; omega)⟩
    rw [pushAll, stored]
    exact pushed

end Push

section Call
variable {w w' : World} {proc : Ptr} {place : Nat → Nat} {func : BitVec 32} {args : List (BitVec 32)}

theorem wake_registers (other proc : Ptr) (k : Kernel) :
    registersOf other (procWake proc k) = registersOf other k := by
  have kept := wake_keeps Proc.registers (fun _ _ => rfl) proc k other
  rw [registersOf, kept, procWake]
  split <;> rfl

theorem load_current_eq (k : Kernel) : loadCurrent k = { k with curpd := (loadCurrent k).curpd } := by
  rw [loadCurrent]
  split <;> rfl

/-- What the end of `proc_call` does to the processes. -/
structure Redirected (proc : Ptr) (func : BitVec 32) (k k' : Kernel) : Prop where
  registers : registersOf proc k' = { registersOf proc k with eip := func }
  others : ∀ other, other ≠ proc → registersOf other k' = registersOf other k
  awake : (k'.procs proc).isSleeping = false
  running : (k.procs proc).isSleeping = true → proc ∈ k'.procRunning
  defunc : (k'.procs proc).defunc = (k.procs proc).defunc
  pagedir : (k'.procs proc).pagedir = (k.procs proc).pagedir

theorem redirect_spec (proc : Ptr) (func : BitVec 32) (w : World) :
    Redirected proc func w.kernel (redirect proc func w).kernel := by
  have keeps := (set_registers_keeps proc (fun r => { r with eip := func })
    { w.kernel with curpd := (loadCurrent w.kernel).curpd }).2.2.2 proc
  rw [redirect, load_current_eq]
  constructor
  · rw [wake_registers, registers_set]
    rfl
  · intro other different
    rw [wake_registers, registers_set_other different]
    rfl
  · rw [wake_record, if_pos rfl]
  · intro asleep
    rw [procWake, if_pos (keeps.2.1.trans asleep)]
    exact List.mem_cons_self
  · rw [wake_keeps Proc.defunc fun _ _ => rfl]
    exact keeps.2.2
  · rw [wake_keeps Proc.pagedir fun _ _ => rfl]
    exact keeps.1

/-- What one call does: the words are pushed from the last parameter to the old `eip`. -/
theorem call_spec (alive : (w.kernel.procs proc).defunc = false) (func : BitVec 32)
    (args : List (BitVec 32)) (stack : Stack w proc size place) (room : 4 * (args.length + 1) ≤ size) :
    ∃ u, procCall proc func args w = some (redirect proc func u) ∧
      Pushed proc (args.reverse ++ [(registersOf proc w.kernel).eip]) place
        { w with kernel := memuserLoadAddrspace proc w.kernel } u := by
  have loadedStack : Stack { w with kernel := memuserLoadAddrspace proc w.kernel } proc size place :=
    ⟨stack.mapped, stack.apart⟩
  obtain ⟨v, pushed, first⟩ := push_all_spec args.reverse loadedStack
    (by rw [List.length_reverse]; omega) rfl
  have keeps := set_registers_keeps proc
    (fun r => { r with esp := r.esp - BitVec.ofNat 32 (4 * args.reverse.length) })
    (memuserLoadAddrspace proc w.kernel)
  have still : v.kernel.curpd = (v.kernel.procs proc).pagedir := by
    rw [first.kernel, lower, keeps.2.1, (keeps.2.2.2 proc).1]
    rfl
  have eip : (registersOf proc v.kernel).eip = (registersOf proc w.kernel).eip := by
    rw [first.kernel, lower, registers_set]
    rfl
  obtain ⟨u, last, second⟩ := push_spec (first.grown.stack loadedStack)
    (by rw [List.length_reverse]; omega) still (registersOf proc v.kernel).eip
  refine ⟨u, ?_, ?_⟩
  · rw [procCall, if_neg (by rw [alive]; exact Bool.false_ne_true), pushed, Option.bind_some, last]
    rfl
  · rw [eip] at second
    apply first.append second loadedStack
    rw [List.length_append, List.length_reverse]
    exact room

theorem call_grown (pushed : Pushed proc words place
      { w with kernel := memuserLoadAddrspace proc w.kernel } u) (func : BitVec 32) :
    Grown proc func words place w (redirect proc func u) := by
  have grown := pushed.grown
  have redirected := redirect_spec proc func u
  constructor
  · rw [redirected.registers]
  · rw [redirected.registers]
    exact grown.esp
  · exact redirected.defunc.trans grown.defunc
  · exact redirected.pagedir.trans grown.pagedir
  · exact grown.map
  · exact grown.memory

/-- The words of a grown stack, from its new end upwards. -/
theorem Grown.built {words : List (BitVec 32)} (grown : Grown proc dest words.reverse place w w')
    (stack : Stack w proc (4 * words.length) place) : Built proc dest words w w' := by
  have esp := grown.esp
  have written := grown.memory.written
  rw [List.length_reverse] at esp written
  refine ⟨grown.eip, esp, fun i value found b byte => ?_⟩
  obtain ⟨inside, -⟩ := List.getElem?_eq_some_iff.mp found
  have here : 4 * (words.length - 1 - i) + (3 - b) < 4 * words.length := by omega
  refine ⟨place (4 * (words.length - 1 - i) + (3 - b)), ?_, ?_⟩
  · have at_place := stack.mapped _ here
    rw [show 4 * (words.length - 1 - i) + (3 - b) + 1 = 4 * words.length - 4 * i - b by omega] at at_place
    rw [grown.map, esp, below_add _ (by omega), below_add _ (by omega)]
    exact at_place
  · rw [written _ here, pushedByte,
      show (4 * (words.length - 1 - i) + (3 - b)) / 4 = words.length - 1 - i by omega,
      show 3 - (4 * (words.length - 1 - i) + (3 - b)) % 4 = b by omega,
      List.getD_eq_getElem?_getD, List.getElem?_reverse (by omega),
      show words.length - 1 - (words.length - 1 - i) = i by omega, found]
    rfl

/-- One call of `proc_call`. -/
theorem call_upcall (alive : (w.kernel.procs proc).defunc = false) (func : BitVec 32)
    (args : List (BitVec 32)) (stack : Stack w proc (4 * (args.length + 1)) place) :
    ∃ w', procCall proc func args w = some w' ∧ Upcall proc func args w w' := by
  obtain ⟨u, called, pushed⟩ := call_spec alive func args stack (Nat.le_refl _)
  have redirected := redirect_spec proc func u
  have grown := call_grown pushed func
  rw [← List.reverse_cons] at grown pushed
  have built : Built proc func ((registersOf proc w.kernel).eip :: args) w (redirect proc func u) :=
    grown.built stack
  refine ⟨_, called, built, fun p changed => ?_, fun pagedir addr _ => by rw [← pushed.map]; rfl,
    fun other different => ?_, redirected.awake, fun asleep => ?_⟩
  · -- a byte that has changed is one of those the words were stored to
    by_contra outside
    apply changed
    refine pushed.memory.kept p trivial fun j inside same => outside ?_
    rw [List.length_reverse, List.length_cons] at inside
    refine ⟨4 * (args.length + 1) - 1 - j, by omega, ?_⟩
    have at_place := stack.mapped j inside
    rw [built.esp, List.length_cons, below_add _ (by omega),
      show 4 * (args.length + 1) - (4 * (args.length + 1) - 1 - j) = j + 1 by omega, at_place, same]
  · rw [redirected.others other different, pushed.kernel, lower, registers_set_other different]
    rfl
  · apply redirected.running
    rw [pushed.kernel]
    exact ((set_registers_keeps proc _ (memuserLoadAddrspace proc w.kernel)).2.2.2 proc).2.1.trans asleep

theorem Elsewhere.grown (meanwhile : Elsewhere proc w w') (place : Nat → Nat) :
    Grown proc (registersOf proc w.kernel).eip [] place w w' where
  eip := by rw [meanwhile.registers]
  esp := by
    rw [meanwhile.registers]
    exact (BitVec.sub_zero _).symm
  defunc := meanwhile.defunc
  pagedir := meanwhile.pagedir
  map := meanwhile.map
  memory := ⟨fun j inside => by simp at inside, fun p reached _ => by
    obtain ⟨addr, mapped⟩ := reached
    exact meanwhile.memory addr p mapped⟩

/-- Calls before the process runs leave their frames one below the other. -/
theorem upcalls_grown (made : Upcalls proc w calls w') (alive : (w.kernel.procs proc).defunc = false)
    (stack : Stack w proc (4 * (frames (registersOf proc w.kernel).eip calls).length) place) :
    Grown proc (continuesAt (registersOf proc w.kernel).eip calls)
      (frames (registersOf proc w.kernel).eip calls).reverse place w w' := by
  induction made generalizing place with
  | none meanwhile => exact meanwhile.grown place
  | @call w v func args u calls w' meanwhile called later ih =>
    have before := meanwhile.grown place
    have stackV : Stack v proc (4 * (frames (registersOf proc w.kernel).eip ((func, args) :: calls)).length)
        place := before.stack stack
    rw [frames, List.length_append, List.length_cons] at stack stackV
    obtain ⟨r, again, pushed⟩ := call_spec (meanwhile.defunc.trans alive) func args stackV (by omega)
    obtain rfl : redirect proc func r = u := Option.some.inj (again.symm.trans called)
    have first := call_grown pushed func
    rw [meanwhile.registers, ← List.reverse_cons] at first
    have eip : (registersOf proc (redirect proc func r).kernel).eip = func := first.eip
    rw [eip] at ih
    have rest := ih (first.defunc.trans (meanwhile.defunc.trans alive)) (by
      have left := first.stack stackV
      rw [List.length_reverse, List.length_cons, ← Nat.mul_sub, Nat.add_sub_cancel] at left
      exact left)
    rw [frames, List.reverse_append]
    have both := first.append (by rw [List.length_reverse]; exact rest) stackV (by simp; omega)
    exact before.append both stack (by simp; omega)

/-- `proc_call` on a process that has not ended and has its stack mapped builds the frame of
the call and changes no other byte; and calls that follow each other before the process runs
stack up, each frame starting with where the process would have gone on before. -/
theorem upcalls_build_call_frames (proc : Ptr) (w : World) (alive : (w.kernel.procs proc).defunc = false) :
    (∀ func args place, Stack w proc (4 * (args.length + 1)) place →
      ∃ w', procCall proc func args w = some w' ∧ Upcall proc func args w w') ∧
    ∀ calls place w', Stack w proc (4 * (frames (registersOf proc w.kernel).eip calls).length) place →
      Upcalls proc w calls w' →
        Built proc (continuesAt (registersOf proc w.kernel).eip calls)
          (frames (registersOf proc w.kernel).eip calls) w w' := by
  constructor
  · intro func args place stack
    exact call_upcall alive func args stack
  · intro calls place w' stack made
    exact (upcalls_grown made alive stack).built stack

end Call

section Interrupt

/-- What a call does to the processes. -/
def callKernel (proc : Ptr) (func : BitVec 32) (size : Nat) (k : Kernel) : Kernel :=
  procWake proc (setRegisters proc (fun r => { r with eip := func })
    (loadCurrent (lower proc size (memuserLoadAddrspace proc k))))

theorem lower_user (proc : Ptr) (size : Nat) (k : Kernel) (user : Ptr → Nat → Int) :
    lower proc size { k with user := user } = { lower proc size k with user := user } := by
  by_cases current : k.procCurrent = proc
  · simp [lower, setRegisters, current]
  · simp [lower, setRegisters, current, Kernel.setProc]

theorem interrupt_push (proc : Ptr) (value : BitVec 32) (i : Interrupt.World) :
    ∃ i', Interrupt.procPush proc value [] i = .ret () i' ∧ i'.frame = i.frame ∧
      i'.kernel = lower proc 4 { i.kernel with user := i'.kernel.user } := by
  refine ⟨_, rfl, rfl, ?_⟩
  rw [lower_user]
  rfl

theorem interrupt_pushes (proc : Ptr) (words : List (BitVec 32)) (i : Interrupt.World) :
    ∃ i', Interrupt.pushParams proc (words.map fun value => (value, [])) i = .ret () i' ∧
      i'.frame = i.frame ∧
      i'.kernel = lower proc (4 * words.length) { i.kernel with user := i'.kernel.user } := by
  induction words generalizing i with
  | nil => exact ⟨i, rfl, rfl, (lower_zero proc i.kernel).symm⟩
  | cons value rest ih =>
    obtain ⟨j, pushed, frame, kernel⟩ := interrupt_push proc value i
    obtain ⟨i', later, rest_frame, rest_kernel⟩ := ih j
    refine ⟨i', ?_, rest_frame.trans frame, ?_⟩
    · rw [Interrupt.pushParams, List.map_cons, Exec.each, pushed]
      exact later
    · rw [kernel, ← lower_user, lower_lower, Nat.add_comm] at rest_kernel
      rw [List.length_cons, Nat.mul_add]
      exact rest_kernel

/-- A call without page faults does the same to the processes here and in the model of the
interrupts, where user memory holds numbers. -/
theorem interrupt_call_agrees (func : BitVec 32) (args : List (BitVec 32)) {w : World}
    (i : Interrupt.World) (same : i.kernel = w.kernel) (alive : (w.kernel.procs proc).defunc = false)
    (stack : Stack w proc (4 * (args.length + 1)) place) :
    ∃ w' i', procCall proc func args w = some w' ∧
      Interrupt.procCall ⟨proc, func, args.reverse.map fun value => (value, []), []⟩ i = .ret () i' ∧
      w'.kernel = callKernel proc func (4 * (args.length + 1)) w.kernel ∧
      ∃ user, i'.kernel = callKernel proc func (4 * (args.length + 1)) { w.kernel with user := user } := by
  obtain ⟨u, called, pushed⟩ := call_spec alive func args stack (Nat.le_refl _)
  obtain ⟨j, first, frame, kernel⟩ := interrupt_pushes proc args.reverse
    (i.update (memuserLoadAddrspace proc))
  obtain ⟨l, last, still, lowered⟩ := interrupt_push proc (registersOf proc i.kernel).eip j
  have all : l.kernel = lower proc (4 * (args.length + 1))
      (memuserLoadAddrspace proc { w.kernel with user := l.kernel.user }) := by
    rw [kernel, ← lower_user, lower_lower, List.length_reverse] at lowered
    rw [← same]
    exact lowered
  have set_eip : Interrupt.setEip proc func i.frame (l.update loadCurrent) =
      (l.update loadCurrent).update (setRegisters proc fun r => { r with eip := func }) := by
    have unmoved : (l.update loadCurrent).frame = i.frame := still.trans frame
    unfold Interrupt.setEip
    rw [unmoved]
    cases i.frame <;> rfl
  refine ⟨_, (Interrupt.noteCall proc (Interrupt.setEip proc func i.frame (l.update loadCurrent))).update
    (procWake proc), called, ?_, ?_, l.kernel.user, ?_⟩
  · rw [← same] at alive
    simp only [Interrupt.procCall, alive, Bool.false_eq_true, if_false, first, Exec.andThen, last]
  · rw [redirect, pushed.kernel, List.length_append, List.length_reverse]
    rfl
  · rw [set_eip, callKernel, ← all]
    rfl

end Interrupt

/-- Process 1 runs and process 2 sleeps, each with a memory of its own. -/
def twoMemories : World where
  kernel := { ProcmLists.bootKernel with
    procs := fun proc => { ProcmLists.staleBlock with
      registers := { initialRegisters with eip := 0x500, esp := 0x2000 }
      pagedir := proc
      isSleeping := proc = 2
      defunc := false }
    procRunning := [1]
    procSleeping := [2]
    procCurrent := 1 }
  memory _ := 0
  map pagedir addr := some (pagedir * 2 ^ 32 + addr.toNat)

/-- A signal for the sleeping process. -/
theorem sleeping_process_called :
    (twoMemories.kernel.procs 2).defunc = false ∧
      Stack twoMemories 2 8 (fun j => 2 * 2 ^ 32 + 0x1FFF - j) ∧
      ∃ w', procCall 2 0x1000 [7] twoMemories = some w' ∧ Upcall 2 0x1000 [7] twoMemories w' := by
  have stack : Stack twoMemories 2 8 (fun j => 2 * 2 ^ 32 + 0x1FFF - j) :=
    ⟨by decide +kernel, fun i left j right same => by omega⟩
  exact ⟨rfl, stack, (upcalls_build_call_frames 2 twoMemories rfl).1 0x1000 [7] _ stack⟩

end MeinOS.ProcCall
