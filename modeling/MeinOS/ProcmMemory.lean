import MeinOS.PagingEntries
import MeinOS.ProcmWait

/-! The system calls of `kernel2/procm.c` that work on the memory of any process:
`proc_memmap`, `proc_memalloc`, `proc_memunmap`, `proc_memfree`, `proc_memget` and
`proc_mempagelist`.

The process manager, the page tables and the address spaces come together here. Both the
process manager and the machine hold `paging_curpd`; whatever loads a directory sets both. -/
namespace MeinOS.ProcmMemory
open Llist Memphys Paging Memuser Procm ProcmWait

/-- The fields of `struct proc_S` that the process lists and the scheduler do not read. -/
structure Details where
  euid : Int
  suid : Int
  egid : Int
  sgid : Int
  system : Int
  name : List Byte
  var : Int
  addrspace : Addrspace
  deriving DecidableEq

structure Os where
  kernel : Kernel
  details : Ptr → Details
  machine : Machine

/-- `proc->addrspace`. -/
def Os.space (w : Os) (proc : Ptr) : Addrspace := (w.details proc).addrspace

def Os.setDetails (w : Os) (proc : Ptr) (f : Details → Details) : Os :=
  { w with details := Function.update w.details proc (f (w.details proc)) }

def Os.setSpace (w : Os) (proc : Ptr) (f : Addrspace → Addrspace) : Os :=
  w.setDetails proc fun details => { details with addrspace := f details.addrspace }

/-- `memuser_load_addrspace`. -/
def Os.load (w : Os) (proc : Ptr) : Os :=
  { w with
    kernel := memuserLoadAddrspace proc w.kernel
    machine := { w.machine with curpd := (w.space proc).pagedir } }

/-- Something that is done in the address space of a process; then that of the current
process is loaded again. -/
def Os.inSpace (w : Os) (proc : Ptr) (act : Machine → Option (α × Machine)) :
    Option (α × Os) :=
  (act (w.load proc).machine).map fun (result, s) =>
    (result, ({ w.load proc with machine := s } : Os).load w.kernel.procCurrent)

/-- What most calls have in common: without the `system` flag, or if no process has the
pid, they do nothing. -/
def forSystem (w : Os) (pid : Int) (failed : α) (act : Ptr → Option (α × Os)) :
    Option (α × Os) :=
  if (w.details w.kernel.procCurrent).system ≠ 0 then
    match procFind pid w.kernel with
    | some proc => act proc
    | none => some (failed, w)
  else some (failed, w)

/-- `proc_memmap` for the process it has found. The page it may allocate is lost if the
address is in use. -/
def memmapTo (w : Os) (proc : Ptr) (virt phys : Nat) (writable swappable cow : Bool) :
    Option (Nat × Os) :=
  (if virt = 0 then memuserFindvirt w.machine (w.space proc) 1
    else some (virt, w.machine)).bind fun (virt, s) =>
    (if phys = 0 then memphysAlloc s else some (phys, s)).bind fun (phys, s) =>
      (pagingGetptePd s virt (w.space proc).pagedir).bind fun (pte, s) =>
        if pte.existing then some (0, { w with machine := s })
        else
          (({ w with machine := s } : Os).inSpace proc fun s =>
            (pagingMapPd s virt phys true (writable && !cow) swappable (cow && writable)
              (w.space proc).pagedir).map ((), ·)).map fun (_, w) =>
            (virt, w.setSpace proc fun space =>
              { space with pagesLoaded := llistPush space.pagesLoaded virt })

/-- `proc_memmap`. -/
def procMemmap (w : Os) (pid : Int) (virt phys : Nat) (writable swappable cow : Bool) :
    Option (Nat × Os) :=
  forSystem w pid 0 fun proc => memmapTo w proc virt phys writable swappable cow

/-- `proc_memalloc`. -/
def procMemalloc (w : Os) (pid : Int) (virt : Nat) (writable swappable : Bool) :
    Option (Int × Os) :=
  (procMemmap w pid virt 0 writable swappable false).map fun (addr, w) =>
    (if addr ≠ 0 then 0 else -1, w)

/-- The list without the first node of this value. -/
def llistDrop (list : List Nat) (value : Nat) : List Nat :=
  (llistRemove list (llistFind list value)).2

/-- `proc_memunmap`. -/
def procMemunmap (w : Os) (pid : Int) (virt : Nat) : Option (Int × Os) :=
  forSystem w pid (-1) fun proc =>
    (w.inSpace proc fun s => pagingUnmap s virt).map fun (_, w) =>
      (0, w.setSpace proc fun space =>
        { space with
          pagesLoaded := llistDrop space.pagesLoaded virt
          pagesImaginary := llistDrop space.pagesImaginary virt
          pagesSwapped := llistDrop space.pagesSwapped virt })

/-- `proc_memfree`, which takes the page off one list only. -/
def procMemfree (w : Os) (pid : Int) (virt : Nat) : Option (Int × Os) :=
  forSystem w pid (-1) fun proc =>
    (w.inSpace proc fun s =>
      (pagingUnmap s virt).bind fun (phys, s) => (memphysFree s phys).map ((), ·)).map
      fun (_, w) =>
        (0, w.setSpace proc fun space =>
          { space with pagesImaginary := llistDrop space.pagesImaginary virt })

/-- `proc_memget`: the physical address and the entry that the four pointers are filled from. -/
def procMemget (w : Os) (pid : Int) (virt : Nat) : Option ((Nat × Entry) × Os) :=
  forSystem w pid (0, blank) fun proc =>
    (pagingGetptePd w.machine virt (w.space proc).pagedir).map fun (pte, s) =>
      ((if pte.present then pte.page * 4096 else 0, pte), { w with machine := s })

/-- All pages on the lists of an address space, in the order of `proc_mempagelist`. -/
def listedPages (space : Addrspace) : List Nat :=
  space.pagesLoaded ++ space.pagesImaginary ++ space.pagesSwapped

/-- What the loops of `proc_mempagelist` find. Each ends at a NULL on its list. -/
def foundPages (space : Addrspace) : List Nat :=
  space.pagesLoaded.takeWhile (· ≠ 0) ++ space.pagesImaginary.takeWhile (· ≠ 0) ++
    space.pagesSwapped.takeWhile (· ≠ 0)

/-- `proc_mempagelist`: the result, and what it writes to a list with room for `room`
addresses; without a list there is none. -/
def procMempagelist (w : Os) (pid : Int) (room : Nat) : Option ((Int × List Nat) × Os) :=
  forSystem w pid (-1, []) fun proc =>
    some (if room = 0 then ((listedPages (w.space proc)).length, [])
      else (((foundPages (w.space proc)).take room).length,
        (foundPages (w.space proc)).take room), w)

section Spaces
variable {w w' : Os} {proc other : Ptr}

@[simp] theorem set_space_self (w : Os) (proc : Ptr) (f : Addrspace → Addrspace) :
    (w.setSpace proc f).space proc = f (w.space proc) := by
  simp [Os.space, Os.setSpace, Os.setDetails]

theorem set_space_other (w : Os) (f : Addrspace → Addrspace) (different : other ≠ proc) :
    (w.setSpace proc f).space other = w.space other := by
  simp [Os.space, Os.setSpace, Os.setDetails, different]

/-- What is done in the address space of a process shows in the machine only. -/
theorem in_space_spec {act : Machine → Option (α × Machine)}
    (ran : w.inSpace proc act = some (result, w')) :
    ∃ s, act { w.machine with curpd := (w.space proc).pagedir } = some (result, s) ∧
      w'.kernel = memuserLoadAddrspace w.kernel.procCurrent w.kernel ∧ w'.details = w.details ∧
      w'.machine = { s with curpd := (w.space w.kernel.procCurrent).pagedir } := by
  obtain ⟨⟨value, s⟩, acted, same⟩ := Option.map_eq_some_iff.mp ran
  cases same
  exact ⟨s, acted, rfl, rfl, rfl⟩

theorem for_system_cases {act : Ptr → Option (α × Os)}
    (ran : forSystem w pid failed act = some (result, w')) :
    (result = failed ∧ w' = w) ∨ ∃ proc, (w.details w.kernel.procCurrent).system ≠ 0 ∧
      procFind pid w.kernel = some proc ∧ act proc = some (result, w') := by
  rw [forSystem] at ran
  split at ran
  · rename_i privileged
    cases found : procFind pid w.kernel with
    | none =>
      rw [found] at ran
      cases ran
      exact Or.inl ⟨rfl, rfl⟩
    | some proc =>
      rw [found] at ran
      exact Or.inr ⟨proc, privileged, rfl, ran⟩
  · cases ran
    exact Or.inl ⟨rfl, rfl⟩

/-- What `proc_find` finds is the current process or on `proc_all`. -/
theorem find_mem {k : Kernel} (current : k.procCurrent ∈ k.procAll)
    (found : procFind pid k = some proc) : proc ∈ k.procAll := by
  rw [procFind] at found
  split at found
  · cases found
    exact current
  · exact List.mem_of_find?_eq_some found

end Spaces

/-- The only process, a privileged one, is that of `oneSpace`. -/
def oneOs (current : Ptr) : Os where
  kernel := { ProcmLists.bootKernel with
    procs := fun _ => { ProcmLists.staleBlock with pid := 1, pagedir := 0x310 }
    procAll := [1]
    procRunning := [1]
    procNextpid := 2
    procCurrent := current
    curpd := 0x310 }
  details := fun _ =>
    { euid := 1
      suid := 1
      egid := 1
      sgid := 1
      system := 1
      name := []
      var := -1
      addrspace := ⟨[0xFFBFE000], [], [], 0x310, 0xFFBFE000⟩ }
  machine := oneSpace.machine

end MeinOS.ProcmMemory
