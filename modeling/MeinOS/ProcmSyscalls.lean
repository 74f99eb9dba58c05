import MeinOS.Lib.LongestPrefix
import MeinOS.Lib.Runs
import MeinOS.ProcmCalls

/-! The system calls of `kernel2/procm.c` that use a pointer of their caller, and all of
them together as one step of the system.

The kernel reads and writes user memory through the loaded page tables. It does not ask
whether the address is one of user memory; where there is no page, `memuser_pagefault` looks
for one as it does for the process itself, and if it finds none, the exception handler stops
the machine. The kernel writes to read-only pages as well. -/
namespace MeinOS.ProcmSyscalls
open Lib Lib.Runs Llist Memphys Paging Memuser Procm ProcmLists ProcmWait ProcmMemory ProcmSpaces ProcmCalls

/-- Code that goes on where the code before it returned. -/
def follow (first : Option (Exec Os α)) (rest : α → Os → Option (Exec Os β)) :
    Option (Exec Os β) :=
  match first with
  | none => none
  | some (.ret value w) => rest value w
  | some (.idle w) => some (.idle w)
  | some (.halt w) => some (.halt w)

/-- One of the four bytes of a word that is read as an entry. -/
def setByte (e : Entry) (k : Nat) (b : Byte) : Entry :=
  match k with
  | 0 =>
    { e with
      present := b.getLsbD 0
      writable := b.getLsbD 1
      user := b.getLsbD 2
      cow := b.getLsbD 7 }
  | 1 =>
    { e with
      existing := b.getLsbD 1
      swappable := b.getLsbD 2
      swapped := b.getLsbD 3
      page := e.page / 16 * 16 + b.toNat / 16 }
  | 2 => { e with page := e.page / 4096 * 4096 + b.toNat * 16 + e.page % 16 }
  | _ => { e with page := b.toNat * 4096 + e.page % 4096 }

/-- A byte of physical memory. -/
def Machine.writeByte (s : Machine) (frame offset : Nat) (b : Byte) : Machine :=
  s.write frame (offset / 4) (setByte (s.frames frame (offset / 4)) (offset % 4) b)

/-- An access of the kernel to an address, with the page faults that come before it. One of
them moves the stack by one page only, and then the access is tried again. -/
def access (addr : Nat) : Nat → Os → Option (Exec Os Unit)
  | 0, _ => none
  | tries + 1, w =>
    if (w.machine.translate addr).isSome then some (.ret () w)
    else
      (memuserPagefault w.machine (w.space w.kernel.procCurrent) addr).bind fun (served, s, space) =>
        if served then
          access addr tries (({ w with machine := s } : Os).setSpace w.kernel.procCurrent fun _ => space)
        else some (.halt w)

/-- Enough tries for all of the user's stack. -/
def maxTries : Nat := 4096

/-- The bytes of an operand go where the page tables `walk` put them. -/
def putBytes (walk : Machine) : Nat → List Byte → Machine → Option Machine
  | _, [], s => some s
  | addr, b :: bytes, s =>
    (walk.translate (addr % 2 ^ 32)).bind fun frame =>
      putBytes walk (addr + 1) bytes (Machine.writeByte s frame (addr % 4096) b)

/-- One instruction of the kernel that writes these bytes. The processor translates all of
its operand before it writes; an address has 32 bits. -/
def storeBytes (addr : Nat) (bytes : List Byte) (w : Os) : Option (Exec Os Unit) :=
  follow (access (addr % 2 ^ 32) maxTries w) fun _ w =>
    follow (access ((addr + (bytes.length - 1)) % 2 ^ 32) maxTries w) fun _ w =>
      (putBytes w.machine addr bytes w.machine).map fun s => .ret () { w with machine := s }

/-- The bytes of an `int` in memory. -/
def intBytes (value : Int) : List Byte :=
  [(BitVec.ofInt 32 value).extractLsb' 0 8, (BitVec.ofInt 32 value).extractLsb' 8 8,
    (BitVec.ofInt 32 value).extractLsb' 16 8, (BitVec.ofInt 32 value).extractLsb' 24 8]

/-- The loop of `memcpy` over words, from the bytes of the source. Where these end the
source is not mapped. -/
def copyWords : List Byte → Nat → Nat → Os → Option (Exec Os (List Byte))
  | a :: b :: c :: d :: src, dest, count, w =>
    if count = 0 then some (.ret (a :: b :: c :: d :: src) w)
    else
      follow (storeBytes dest [a, b, c, d] w) fun _ w =>
        copyWords src (dest + 4) (count - 1) w
  | src, _, count, w => if count = 0 then some (.ret src w) else some (.halt w)

/-- The loop of `memcpy` over bytes. -/
def copyBytes : List Byte → Nat → Nat → Os → Option (Exec Os Unit)
  | a :: src, dest, count, w =>
    if count = 0 then some (.ret () w)
    else
      follow (storeBytes dest [a] w) fun _ w => copyBytes src (dest + 1) (count - 1) w
  | [], _, count, w => if count = 0 then some (.ret () w) else some (.halt w)

/-- `memcpy` to user memory. -/
def memcpy (dest : Nat) (src : List Byte) (n : Nat) (w : Os) : Option (Exec Os Unit) :=
  follow (copyWords src dest (n / 4) w) fun src w =>
    copyBytes src (dest + n / 4 * 4) (n % 4) w

/-- `strncpy` to user memory, of a string that is followed by the bytes `tail`. With no room
at all, `len-1` is the largest number there is. -/
def strncpy (dest : Nat) (src tail : List Byte) (n : Nat) (w : Os) : Option (Exec Os Unit) :=
  follow (memcpy dest (src ++ 0 :: tail) ((min n (src.length + 1) + (2 ^ 32 - 1)) % 2 ^ 32) w)
    fun _ w => storeBytes (dest + min n (src.length + 1) + (2 ^ 32 - 1)) [0] w

/-- Words one after the other, as an array in user memory. -/
def storeWords : Nat → List Int → Os → Option (Exec Os Unit)
  | _, [], w => some (.ret () w)
  | addr, value :: values, w =>
    follow (storeBytes addr (intBytes value) w) fun _ w =>
      storeWords (addr + 4) values w

/-- The kernel reads bytes of user memory one by one. -/
def readBytes : Nat → Nat → Os → Option (Exec Os Unit)
  | _, 0, w => some (.ret () w)
  | addr, count + 1, w =>
    follow (access (addr % 2 ^ 32) maxTries w) fun _ w => readBytes (addr + 1) count w

/-- `proc_getname`. The kernel's memory holds the name and behind it the bytes `tail`, up to
the first page that is not mapped. -/
def procGetname (w : Os) (pid : Int) (buf maxlen : Nat) (tail : List Byte) : Option (Exec Os Int) :=
  match procFind pid w.kernel with
  | some proc =>
    if buf ≠ 0 then
      follow (strncpy buf (w.details proc).name tail maxlen w) fun _ w => some (.ret 0 w)
    else some (.ret ((w.details proc).name.length + 1) w)
  | none => some (.ret (-1) w)

/-- The loop of `proc_getpidbyname` over the processes, with the name at an address of the
caller. `strcmp` reads up to the first byte that differs. -/
def findName (addr : Nat) (name : List Byte) : List Ptr → Os → Option (Exec Os Int)
  | [], w => some (.ret (-1) w)
  | proc :: procs, w =>
    follow (readBytes addr (LongestPrefix.shared (w.details proc).name name + 1) w) fun _ w =>
      if (w.details proc).name = name then some (.ret (w.kernel.procs proc).pid w)
      else findName addr name procs w

/-- The scheduler has selected a process and loaded its address space. -/
def switched (w : Os) (k : Kernel) : Os :=
  { w with
    kernel := k
    machine := { w.machine with
      curpd := if k.procCurrent = 0 ∨ k.procCurrent = w.kernel.procCurrent then w.machine.curpd
        else (w.space k.procCurrent).pagedir } }

/-- `proc_waitpid`. -/
def procWaitpid (w : Os) (pid : Int) (stat : Ptr) : Option (Exec Os Int) :=
  if 0 < pid then
    match procFind pid w.kernel with
    | none => some (.ret (-1) w)
    | some proc =>
      if (w.kernel.procs proc).defunc then
        follow (storeBytes stat (intBytes (w.kernel.procs proc).ret) w) fun _ w => some (.ret pid w)
      else some ((sleepForChild pid stat w.kernel).within (switched w))
  else some ((sleepForChild pid stat w.kernel).within (switched w))

/-- The pid of the process that exits, in the saved registers of its parent. -/
def answerParent (w : Os) (parent : Ptr) : Os :=
  Os.setProc w parent fun p =>
    { p with
      registers := { p.registers with
        eax := BitVec.ofInt 32 (w.kernel.procs w.kernel.procCurrent).pid } }

/-- What `proc_exit` writes for a waiting parent before it wakes it. A page fault on the status
word is taken for one of the process that exits. -/
def tellParent (w : Os) (parent : Ptr) (ret : Int) : Option (Exec Os Unit) :=
  if (w.kernel.procs parent).waitStat ≠ 0 then
    follow (storeBytes (w.kernel.procs parent).waitStat (intBytes ret)
      ((answerParent w parent).load parent)) fun _ w =>
      some (.ret () (w.load w.kernel.procCurrent))
  else some (.ret () (answerParent w parent))

/-- `proc_exit`. -/
def procExit (w : Os) (ret : Int) : Option (Exec Os Unit) :=
  follow (if tellsParent w.kernel then
      tellParent w (w.kernel.procs w.kernel.procCurrent).parent ret else some (.ret () w))
    fun _ w => some ((Procm.procExit ret w.kernel).within (switched w))

/-- `proc_stop`. -/
def procStop (w : Os) : Exec Os Unit :=
  (procSleep w.kernel.procCurrent w.kernel).within (switched w)

/-- A pointer of `proc_memget` is filled in, if there is one. -/
def storeFlag (addr : Nat) (flag : Bool) (w : Os) : Option (Exec Os Unit) :=
  if addr ≠ 0 then storeBytes addr (intBytes flag.toNat) w else some (.ret () w)

/-- `proc_memget` with the pointers it writes to. When it fails, it does not ask whether there
is a first one. -/
def procMemgetTo (w : Os) (pid : Int) (virt existing writable swappable cow : Nat) :
    Option (Exec Os Nat) :=
  if (w.details w.kernel.procCurrent).system ≠ 0 ∧ (procFind pid w.kernel).isSome then
    (procMemget w pid virt).bind fun ((phys, pte), w) =>
      follow (storeFlag existing pte.existing w) fun _ w =>
        follow (storeFlag writable pte.writable w) fun _ w =>
          follow (storeFlag swappable pte.swappable w) fun _ w =>
            follow (storeFlag cow pte.cow w) fun _ w => some (.ret phys w)
  else follow (storeBytes existing (intBytes 0) w) fun _ w => some (.ret 0 w)

/-- `proc_mempagelist` with the list it writes to. -/
def procMempagelistTo (w : Os) (pid : Int) (list n : Nat) : Option (Exec Os Int) :=
  (procMempagelist w pid (if list = 0 then 0 else n)).bind fun ((result, pages), w) =>
    follow (storeWords list (pages.map fun page => (page : Int)) w) fun _ w => some (.ret result w)

/-- The system calls, with their arguments. Names come with their bytes, and where the call
takes memory from the kernel's heap, with what it finds there. -/
inductive Call where
  | getpid
  | getparent (pid : Int)
  | getchild (pid : Int) (i : Nat)
  | getuid (id : Int)
  | setuid (id uid : Int)
  | getgid (id : Int)
  | setgid (id gid : Int)
  | getname (pid : Int) (buf maxlen : BitVec 32) (tail : List Byte)
  | setname (pid : Int) (name : List Byte)
  | getpidbyname (addr : BitVec 32) (name : List Byte)
  | getvar (pid : Int)
  | setvar (pid var : Int)
  | waitpid (pid : Int) (stat : BitVec 32)
  | exit (ret : Int)
  | abort
  | stop
  | create (new : Ptr) (memory : Proc) (name : List Byte) (uid gid parentPid : Int)
  | destroy (pid : Int)
  | memmap (pid : Int) (virt phys : Nat) (writable swappable cow : Bool)
  | memalloc (pid : Int) (virt : Nat) (writable swappable : Bool)
  | memunmap (pid : Int) (virt : Nat)
  | memfree (pid : Int) (virt : Nat)
  | memget (pid : Int) (virt : Nat) (existing writable swappable cow : BitVec 32)
  | mempagelist (pid : Int) (list n : BitVec 32)
  | system (pid flag : Int)
  | jump (pid : Int) (dest : BitVec 32)
  | createstack (pid : Int)
  | getstack (pid : Int)
  | setstack (pid : Int) (stack : Nat)
  deriving DecidableEq

/-- The state that the call of the current process leaves behind, however it ends. What
`syscall_handler` writes to the frame of the caller is left out. -/
def Call.run (w : Os) : Call → Option Os
  | .getpid | .getparent _ | .getchild _ _ | .getuid _ | .getgid _ | .getvar _ => some w
  | .setuid id uid => some (procSetuid w id uid)
  | .setgid id gid => some (procSetgid w id gid)
  | .getname pid buf maxlen tail => (procGetname w pid buf.toNat maxlen.toNat tail).map (·.state)
  | .setname pid name => some (procSetname w pid name)
  | .getpidbyname addr name => (findName addr.toNat name w.kernel.procAll w).map (·.state)
  | .setvar pid var => some (procSetvar w pid var)
  | .waitpid pid stat => (procWaitpid w pid stat.toNat).map (·.state)
  | .exit ret => (procExit w ret).map (·.state)
  | .abort => (procExit w 1).map (·.state)
  | .stop => some (procStop w).state
  | .create new memory name uid gid parentPid =>
    (procCreateSyscall w new memory name uid gid parentPid).map (·.2)
  | .destroy pid => (procDestroySyscall w pid).map (·.2)
  | .memmap pid virt phys writable swappable cow =>
    (procMemmap w pid virt phys writable swappable cow).map (·.2)
  | .memalloc pid virt writable swappable => (procMemalloc w pid virt writable swappable).map (·.2)
  | .memunmap pid virt => (procMemunmap w pid virt).map (·.2)
  | .memfree pid virt => (procMemfree w pid virt).map (·.2)
  | .memget pid virt existing writable swappable cow =>
    (procMemgetTo w pid virt existing.toNat writable.toNat swappable.toNat cow.toNat).map (·.state)
  | .mempagelist pid list n => (procMempagelistTo w pid list.toNat n.toNat).map (·.state)
  | .system pid flag => (procSystem w pid flag).map (·.2)
  | .jump pid dest => (procJump w pid dest).map (·.2)
  | .createstack pid => (procCreatestack w pid).map (·.2)
  | .getstack pid => (procGetstack w pid).map (·.2)
  | .setstack pid stack => (procSetstack w pid stack).map (·.2)

/-- What happens between the calls: the timer, and a process that is woken. -/
inductive Event where
  | call (c : Call)
  | shedule
  | wake (proc : Ptr)
  deriving DecidableEq

/-- One event. A system call needs a process that makes it. -/
def step (w : Os) : Event → Option Os
  | .call c => if w.kernel.procCurrent ≠ 0 then c.run w else none
  | .shedule => some ((procShedule w.kernel).within (switched w)).state
  | .wake proc => onlyIf (proc ∈ w.kernel.procAll) { w with kernel := procWake proc w.kernel }

/-- The calls that look at the `system` flag of the caller and do nothing without it. -/
def Call.privileged : Call → Bool
  | .setname .. | .create .. | .destroy .. | .memmap .. | .memalloc .. | .memunmap .. | .memfree ..
  | .mempagelist .. | .system .. | .jump .. | .createstack .. | .getstack .. | .setstack .. => true
  | _ => false

theorem for_system_refused {w : Os} {act : Ptr → Option (α × Os)} (pid : Int) (failed : α)
    (plain : (w.details w.kernel.procCurrent).system = 0) :
    forSystem w pid failed act = some (failed, w) := by
  rw [forSystem, if_neg (not_not.mpr plain)]

theorem privileged_refused {w : Os} {c : Call} (plain : (w.details w.kernel.procCurrent).system = 0)
    (privileged : c.privileged = true) : c.run w = some w := by
  cases c with
  | setname pid name => rw [Call.run, procSetname, if_neg (not_not.mpr plain)]
  | create new memory name uid gid parentPid =>
    rw [Call.run, procCreateSyscall, for_system_refused _ _ plain]
    rfl
  | destroy pid =>
    rw [Call.run, procDestroySyscall, for_system_refused _ _ plain]
    rfl
  | memmap pid virt phys writable swappable cow =>
    rw [Call.run, procMemmap, for_system_refused _ _ plain]
    rfl
  | memalloc pid virt writable swappable =>
    rw [Call.run, procMemalloc, procMemmap, for_system_refused _ _ plain]
    rfl
  | memunmap pid virt =>
    rw [Call.run, procMemunmap, for_system_refused _ _ plain]
    rfl
  | memfree pid virt =>
    rw [Call.run, procMemfree, for_system_refused _ _ plain]
    rfl
  | mempagelist pid list n =>
    rw [Call.run, procMempagelistTo, procMempagelist, for_system_refused _ _ plain]
    rfl
  | system pid flag =>
    rw [Call.run, procSystem, for_system_refused _ _ plain]
    rfl
  | jump pid dest =>
    rw [Call.run, procJump, for_system_refused _ _ plain]
    rfl
  | createstack pid =>
    rw [Call.run, procCreatestack, for_system_refused _ _ plain]
    rfl
  | getstack pid =>
    rw [Call.run, procGetstack, for_system_refused _ _ plain]
    rfl
  | setstack pid stack =>
    rw [Call.run, procSetstack, for_system_refused _ _ plain]
    rfl
  | _ => cases privileged

section Follow
variable {Inv : Os → Prop} {first : Option (Exec Os α)} {rest : α → Os → Option (Exec Os β)}

/-- What both parts keep is kept by the whole. -/
theorem follow_keeps (ran : follow first rest = some code)
    (kept : ∀ code, first = some code → Inv code.state)
    (keeps : ∀ value w code, Inv w → rest value w = some code → Inv code.state) :
    Inv code.state := by
  cases started : first with
  | none =>
    rw [started] at ran
    cases ran
  | some before =>
    rw [started] at ran
    have held := kept before started
    cases before with
    | ret value w => exact keeps value w code held ran
    | idle | halt =>
      cases ran
      exact held

theorem follow_ret_keeps {f : α → Os → β} (ran : follow first (fun value w => some (.ret (f value w) w)) = some code)
    (kept : ∀ code, first = some code → Inv code.state) : Inv code.state := by
  refine follow_keeps ran kept fun value w code held ran => ?_
  cases ran
  exact held

end Follow

/-- The addresses of `n` bytes from `addr` on. -/
def Region (Ok : Nat → Prop) (addr n : Nat) : Prop := ∀ i < n, Ok ((addr + i) % 2 ^ 32)

instance (Ok : Nat → Prop) [∀ addr, Decidable (Ok addr)] (addr n : Nat) :
    Decidable (Region Ok addr n) :=
  inferInstanceAs (Decidable (∀ i < n, Ok ((addr + i) % 2 ^ 32)))

/-- An invariant that the kernel keeps when it reads or writes at addresses of this kind. -/
structure Safe (Ok : Nat → Prop) (Inv : Os → Prop) : Prop where
  reads : ∀ w addr code, Inv w → addr < 2 ^ 32 → Ok addr → access addr maxTries w = some code →
    Inv code.state
  writes : ∀ w s addr bytes, Inv w → Region Ok addr bytes.length →
    putBytes w.machine addr bytes w.machine = some s → Inv { w with machine := s }

section Safe
variable {Ok : Nat → Prop} {Inv : Os → Prop} {w : Os} {code : Exec Os Unit}

theorem Region.shorter (region : Region Ok addr n) (fewer : m ≤ n) : Region Ok addr m :=
  fun i inside => region i (by omega)

theorem Region.drop (region : Region Ok addr n) (k : Nat) : Region Ok (addr + k) (n - k) := by
  intro i inside
  rw [Nat.add_assoc]
  exact region (k + i) (by omega)

section
variable (safe : Safe Ok Inv)
include safe

theorem Safe.read (held : Inv w) (region : Region Ok addr n) (k : Nat) (inside : k < n)
    (ran : access ((addr + k) % 2 ^ 32) maxTries w = some code) : Inv code.state :=
  safe.reads w _ code held (Nat.mod_lt _ (by omega)) (region k inside) ran

theorem Safe.store (b : Byte) (bytes : List Byte) (held : Inv w)
    (region : Region Ok addr (bytes.length + 1))
    (ran : storeBytes addr (b :: bytes) w = some code) : Inv code.state := by
  refine follow_keeps ran (fun code ran => safe.read held region 0 (by omega) ran)
    fun _ w code held ran => follow_keeps ran (fun code ran => ?_) fun _ w code held ran => ?_
  · exact safe.read held region bytes.length (by omega) ran
  · obtain ⟨s, put, rfl⟩ := Option.map_eq_some_iff.mp ran
    exact safe.writes w s addr (b :: bytes) held region put

theorem Safe.store_int (value : Int) (held : Inv w) (region : Region Ok addr 4)
    (ran : storeBytes addr (intBytes value) w = some code) : Inv code.state :=
  safe.store _ _ held region ran

theorem Safe.copy_words (src : List Byte) (dest count : Nat) (w : Os) (held : Inv w)
    (region : Region Ok dest (count * 4)) {code : Exec Os (List Byte)}
    (ran : copyWords src dest count w = some code) : Inv code.state := by
  induction src, dest, count, w using copyWords.induct generalizing code with
  | case1 a b c d src dest w =>
    rw [copyWords, if_pos rfl] at ran
    cases ran
    exact held
  | case2 a b c d src dest count w more ih =>
    rw [copyWords, if_neg more] at ran
    refine follow_keeps ran (fun code ran => ?_) fun _ w' code held ran => ?_
    · exact safe.store a [b, c, d] held (region.shorter (by simp only [List.length]; omega)) ran
    · exact ih w' held ((region.drop 4).shorter (by omega)) ran
  | case3 src dest w short =>
    rw [copyWords, if_pos rfl] at ran
    · cases ran
      exact held
    · exact short
  | case4 src dest count w short more =>
    rw [copyWords, if_neg more] at ran
    · cases ran
      exact held
    · exact short

theorem Safe.copy_bytes (src : List Byte) (dest count : Nat) (held : Inv w)
    (region : Region Ok dest count) (ran : copyBytes src dest count w = some code) :
    Inv code.state := by
  induction src generalizing dest count w code with
  | nil =>
    rw [copyBytes] at ran
    split at ran <;> · cases ran; exact held
  | cons a src ih =>
    rw [copyBytes] at ran
    split at ran
    · cases ran
      exact held
    · refine follow_keeps ran (fun code ran => ?_) fun _ w code held ran => ?_
      · exact safe.store a [] held (region.shorter (by simp only [List.length]; omega)) ran
      · exact ih _ _ held (region.drop 1) ran

theorem Safe.memcpy (held : Inv w) (region : Region Ok dest n)
    (ran : memcpy dest src n w = some code) : Inv code.state := by
  refine follow_keeps ran (fun code ran => ?_) fun src w code held ran => ?_
  · exact safe.copy_words src dest (n / 4) w held (region.shorter (by omega)) ran
  · refine safe.copy_bytes src _ _ held ?_ ran
    exact (region.drop (n / 4 * 4)).shorter (by omega)

end

/-- The bytes that `strncpy` writes for a string of `length` bytes. -/
def copied (n length : Nat) : Nat := if n = 0 then 2 ^ 32 else min n (length + 1)

theorem Safe.strncpy (safe : Safe Ok Inv) (held : Inv w)
    (region : Region Ok dest (copied n src.length)) (ran : strncpy dest src tail n w = some code) :
    Inv code.state := by
  have enough : (min n (src.length + 1) + (2 ^ 32 - 1)) % 2 ^ 32 ≤ copied n src.length ∧
      (min n (src.length + 1) + (2 ^ 32 - 1)) % 2 ^ 32 < copied n src.length := by
    rw [copied]
    split <;> omega
  refine follow_keeps ran (fun code ran => safe.memcpy held (region.shorter enough.1) ran)
    fun _ w code held ran => safe.store 0 [] held ?_ ran
  intro i inside
  obtain rfl : i = 0 := by
    simp only [List.length] at inside
    omega
  have last := region _ enough.2
  rwa [Nat.add_mod_mod, ← Nat.add_assoc] at last

theorem Safe.read_bytes (safe : Safe Ok Inv) (addr count : Nat) (held : Inv w)
    (region : Region Ok addr count) (ran : readBytes addr count w = some code) : Inv code.state := by
  induction count generalizing addr w code with
  | zero =>
    cases ran
    exact held
  | succ count ih =>
    refine follow_keeps ran (fun code ran => ?_) fun _ w code held ran => ?_
    · exact safe.read held region 0 (by omega) ran
    · exact ih _ held (region.drop 1) ran

theorem Safe.find_name (safe : Safe Ok Inv) (procs : List Ptr) (held : Inv w)
    (region : Region Ok addr (name.length + 1)) {code : Exec Os Int}
    (ran : findName addr name procs w = some code) : Inv code.state := by
  induction procs generalizing w code with
  | nil =>
    cases ran
    exact held
  | cons proc procs ih =>
    refine follow_keeps ran (fun code ran => ?_) fun _ w code held ran => ?_
    · have short := LongestPrefix.shared_le_length (w.details proc).name name
      exact safe.read_bytes addr _ held (region.shorter (by omega)) ran
    · split at ran
      · cases ran
        exact held
      · exact ih held ran

theorem Safe.getname (safe : Safe Ok Inv) (held : Inv w)
    (region : ∀ proc, procFind pid w.kernel = some proc → buf ≠ 0 →
      Region Ok buf (copied maxlen (w.details proc).name.length)) {code : Exec Os Int}
    (ran : procGetname w pid buf maxlen tail = some code) : Inv code.state := by
  rw [procGetname] at ran
  split at ran
  · rename_i proc found
    split at ran
    · rename_i given
      exact follow_ret_keeps ran fun code ran => safe.strncpy held (region proc found given) ran
    · cases ran
      exact held
  · cases ran
    exact held

end Safe

end MeinOS.ProcmSyscalls
