import MeinOS.ProcmSpaces

/-! The system calls of `kernel2/procm.c` on the data of a process: its ids, its private
variable, the `system` flag, the entry point and the stack, and `proc_create`. -/
namespace MeinOS.ProcmCalls
open Llist Memphys Paging Memuser Procm ProcmLists ProcmWait ProcmMemory ProcmSpaces

/-- Writes the record that the process manager reads. -/
def Os.setProc (w : Os) (proc : Ptr) (f : Proc → Proc) : Os :=
  { w with kernel := w.kernel.setProc proc f }

/-- `proc_setuid`. -/
def procSetuid (w : Os) (id uid : Int) : Os :=
  match id with
  | 1 => Os.setProc w w.kernel.procCurrent fun p => { p with uid := uid }
  | 2 => w.setDetails w.kernel.procCurrent fun details => { details with euid := uid }
  | 3 => w.setDetails w.kernel.procCurrent fun details => { details with suid := uid }
  | _ => w

/-- `proc_setgid`. -/
def procSetgid (w : Os) (id gid : Int) : Os :=
  match id with
  | 1 => Os.setProc w w.kernel.procCurrent fun p => { p with gid := gid }
  | 2 => w.setDetails w.kernel.procCurrent fun details => { details with egid := gid }
  | 3 => w.setDetails w.kernel.procCurrent fun details => { details with sgid := gid }
  | _ => w

/-- `proc_setname`, which returns -1 in any case. -/
def procSetname (w : Os) (pid : Int) (name : List Byte) : Os :=
  if (w.details w.kernel.procCurrent).system ≠ 0 then
    match procFind pid w.kernel with
    | some proc =>
      if proc ≠ w.kernel.procCurrent then
        w.setDetails proc fun details => { details with name := name }
      else w
    | none => w
  else w

/-- `proc_setvar`, for any process. -/
def procSetvar (w : Os) (pid var : Int) : Os :=
  match procFind pid w.kernel with
  | some proc => w.setDetails proc fun details => { details with var := var }
  | none => w

/-- `proc_create_syscall`. The block that `malloc` returns is at `new` and holds `memory`. -/
def procCreateSyscall (w : Os) (new : Ptr) (memory : Proc) (name : List Byte)
    (uid gid parentPid : Int) : Option (Int × Os) :=
  forSystem w parentPid (-1) fun parent =>
    (ProcmSpaces.procCreate
      { new := new
        memory := memory
        pagedir := 0
        uid := uid
        gid := gid
        parent := parent
        running := false } name 0 w).map (w.kernel.procNextpid, ·)

/-- `proc_system`. -/
def procSystem (w : Os) (pid system : Int) : Option (Int × Os) :=
  forSystem w pid (-1) fun proc =>
    if system = 1 ∨ w.kernel.procCurrent = (w.kernel.procs proc).parent ∨
        w.kernel.procCurrent = proc then
      some (0, w.setDetails proc fun details => { details with system := system })
    else some (-1, w)

/-- `proc_jump`. -/
def procJump (w : Os) (pid : Int) (dest : BitVec 32) : Option (Int × Os) :=
  forSystem w pid (-1) fun proc =>
    some (0, Os.setProc w proc fun p => { p with registers := { p.registers with eip := dest } })

/-- `proc_createstack`. The stack is made in the address space of the process while another
is loaded. -/
def procCreatestack (w : Os) (pid : Int) : Option (Nat × Os) :=
  forSystem w pid 0 fun proc =>
    (memuserCreateStack w.machine (w.space proc)).map fun (s, space) =>
      let stack := (space.stack + (4096 - 4)) % 2 ^ 32
      (stack, Os.setProc (({ w with machine := s } : Os).setSpace proc fun _ => space) proc fun p =>
        { p with registers := { p.registers with esp := BitVec.ofNat 32 stack } })

/-- `proc_getstack`. -/
def procGetstack (w : Os) (pid : Int) : Option (Nat × Os) :=
  forSystem w pid 0 fun proc => some ((w.space proc).stack, w)

/-- `proc_setstack`. -/
def procSetstack (w : Os) (pid : Int) (stack : Nat) : Option (Int × Os) :=
  forSystem w pid (-1) fun proc =>
    some (0, w.setSpace proc fun space => { space with stack := stack })

/-- A field that the update keeps is the same in every process. -/
theorem set_details_keeps {w : Os} (field : Details → β) (f : Details → Details)
    (kept : ∀ d, field (f d) = field d) (proc p : Ptr) :
    field ((w.setDetails proc f).details p) = field (w.details p) := by
  by_cases here : p = proc
  · subst here
    simp [Os.setDetails, kept]
  · simp [Os.setDetails, here]

end MeinOS.ProcmCalls
