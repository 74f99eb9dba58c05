import MeinOS.AddrspaceLists

/-! `proc_create` and `proc_destroy` together with the address space of the process
(`memuser_create_addrspace` and `memuser_destroy_addrspace`), and what a destroyed process
gives back.

`memuser_destroy_addrspace` returns at once unless the directory it is to destroy is loaded.
That of a process other than the current one never is, except while the kernel loads the
first programs; and even then the page tables are not given back. -/
namespace MeinOS.ProcmSpaces
open Llist Memphys Paging Memuser Procm ProcmLists ProcmWait ProcmMemory AddrspaceLists

variable {s s' m : Machine} {space : Addrspace} {w w' : Os} {proc : Ptr} {addr : Nat}

/-- `memuser_create_addrspace`. -/
def memuserCreateAddrspace (s : Machine) : Option (Addrspace × Machine) :=
  (memuserCreatePagedir s).map fun (pagedir, s) =>
    ({ pagesLoaded := [], pagesImaginary := [], pagesSwapped := [], pagedir := pagedir, stack := 0 }, s)

/-- `proc_create`. The directory of the new process is the one that is created for it. -/
def procCreate (c : Creation) (name : List Byte) (system : Int) (w : Os) : Option Os :=
  (memuserCreateAddrspace w.machine).map fun (space, s) =>
    { kernel := Procm.procCreate { c with pagedir := space.pagedir } w.kernel
      details := Function.update w.details c.new
        { euid := c.uid
          suid := c.uid
          egid := c.gid
          sgid := c.gid
          system := system
          name := name
          var := -1
          addrspace := space }
      machine := s }

/-- `memuser_create_stack`. -/
def memuserCreateStack (s : Machine) (space : Addrspace) : Option (Machine × Addrspace) :=
  memuserExpandStack s { space with stack := userstackEnd }

/-- The loop over `pages_loaded` in `memuser_destroy_addrspace`. -/
def freeLoaded : List Nat → Machine → Option Machine
  | [], s => some s
  | page :: pages, s =>
    (pagingUnmap s page).bind fun (phys, s) => (memphysFree s phys).bind (freeLoaded pages)

/-- The loop over `pages_imaginary`. -/
def unmapImaginary : List Nat → Machine → Option Machine
  | [], s => some s
  | page :: pages, s => (pagingUnmap s page).bind fun (_, s) => unmapImaginary pages s

/-- `memuser_destroy_addrspace`. It hands the address of the user's stack to
`memuser_destroy_stack` as that of an `addrspace_t`; what happens then is not followed. -/
def memuserDestroyAddrspace (s : Machine) (space : Addrspace) : Option (Int × Machine) :=
  if s.curpd ≠ space.pagedir then some (-1, s)
  else if space.stack ≠ 0 then none
  else
    (freeLoaded space.pagesLoaded s).bind fun s =>
      (unmapImaginary space.pagesImaginary s).bind fun s =>
        (memuserDestroyPagedir s space.pagedir).map (0, ·)

/-- `proc_destroy`. -/
def procDestroy (w : Os) (proc : Ptr) : Option Os :=
  (memuserDestroyAddrspace w.machine (w.space proc)).map fun (_, s) =>
    { w with
      kernel := { Procm.procDestroy proc w.kernel with curpd := s.curpd }
      machine := s }

/-- `proc_destroy_syscall`. -/
def procDestroySyscall (w : Os) (pid : Int) : Option (Int × Os) :=
  forSystem w pid (-1) fun proc =>
    if proc ≠ w.kernel.procCurrent then (procDestroy w proc).map (0, ·) else some (-1, w)

/-- The page tables of user memory in a directory. -/
def userTables (s : Machine) (d : Nat) : List Nat :=
  ((List.range 1023).filter fun i => 256 ≤ i ∧ (s.frames d i).present).map fun i =>
    (s.frames d i).page * 4096

/-- The pages in memory that are on the list of the process. -/
def loadedPhys (s : Machine) (space : Addrspace) : List Nat :=
  space.pagesLoaded.map fun addr => (pageEntry s space.pagedir (addr2page addr)).page * 4096

/-- The stack of free pages has grown by the loaded pages, the directory and the user page
tables of the address space, each of them once, and by nothing else. -/
def GaveBack (s s' : Machine) (space : Addrspace) : Prop :=
  (freePages s'.mem).Perm
    (freePages s.mem ++ loadedPhys s space ++ [space.pagedir * 4096] ++ userTables s space.pagedir)

/-- A process that `proc_destroy` is called for: not the current one, with lists that agree
with its page tables. Where its directory is loaded, it has no stack yet: the kernel calls
`proc_destroy` for a program it could not load, and `proc_destroy_syscall` with the directory
of the current process. -/
structure Destroyable (w : Os) (proc : Ptr) : Prop where
  existing : proc ∈ w.kernel.procAll
  other : proc ≠ w.kernel.procCurrent
  real : (w.space proc).pagedir ≠ 0
  booked : Booked w.machine (w.space proc)
  users : ∀ addr ∈ (w.space proc).pagesLoaded ++ (w.space proc).pagesImaginary, UserAddr addr
  stackless : w.machine.curpd = (w.space proc).pagedir → (w.space proc).stack = 0

/-- The directory of the process is loaded, it has no page tables, and the stack of free
pages has room. -/
def Bare (w : Os) (proc : Ptr) : Prop :=
  w.machine.curpd = (w.space proc).pagedir ∧ userTables w.machine (w.space proc).pagedir = [] ∧
    w.machine.mem.stackptr ≠ w.machine.mem.stackend

section Lengths

theorem free_pages_length (mem : PhysMem) : (freePages mem).length = mem.stackptr := by
  simp [freePages]

theorem unmap_keeps_mem (ran : pagingUnmap s virt = some (addr, s')) : s'.mem = s.mem := by
  obtain ⟨pte, -, ran⟩ := Option.bind_eq_some_iff.mp ran
  obtain ⟨⟨ok, t⟩, cleared, same⟩ := Option.map_eq_some_iff.mp ran
  cases same
  rw [setpte_frames cleared]

theorem pop_shrinks {mem mem' : PhysMem} (ran : memphysPop mem = some (addr, mem')) :
    mem'.stackptr ≤ mem.stackptr := by
  rw [memphysPop] at ran
  split at ran
  · split at ran
    · obtain ⟨-, rfl⟩ := Prod.mk.inj (Option.some.inj ran)
      exact Nat.le_refl _
    · obtain ⟨-, rfl⟩ := Prod.mk.inj (Option.some.inj ran)
      exact Nat.sub_le _ _
  · cases ran

/-- `paging_map` may take a page for a table. -/
theorem map_shrinks (ran : pagingMap s virt phys user writable = some (ok, s')) :
    s'.mem.stackptr ≤ s.mem.stackptr := by
  rcases map_frames ran with same | ⟨page, mem, popped, same⟩
  · rw [same]
  · rw [same]
    exact pop_shrinks popped

/-- A page that finds the stack full does not get on it. -/
theorem free_full_shrinks (real : addr ≠ 0) (full : s.mem.stackptr = s.mem.stackend)
    (ran : memphysFree s addr = some s') : s'.mem.stackptr ≤ s.mem.stackptr := by
  rw [memphysFree, if_pos ⟨real, full⟩] at ran
  obtain ⟨⟨mapped, t⟩, map, ran⟩ := Option.bind_eq_some_iff.mp ran
  obtain ⟨-, same⟩ := Option.ite_none_right_eq_some.mp ran
  cases same
  have shorter := map_shrinks map
  exact shorter

/-- No call of `memphys_free` puts more than one page on the stack. -/
theorem free_grows (ran : memphysFree s addr = some s') :
    s'.mem.stackptr ≤ s.mem.stackptr + 1 := by
  by_cases full : addr ≠ 0 ∧ s.mem.stackptr = s.mem.stackend
  · exact Nat.le_succ_of_le (free_full_shrinks full.1 full.2 ran)
  · rw [memphysFree, if_neg full] at ran
    cases ran
    change (memphysPush s.mem addr).stackptr ≤ _
    rw [memphysPush]
    split
    · exact Nat.le_succ _
    · split
      · exact Nat.le_succ _
      · exact Nat.le_refl _

theorem free_loaded_grows (pages : List Nat) (ran : freeLoaded pages s = some s') :
    s'.mem.stackptr ≤ s.mem.stackptr + pages.length := by
  induction pages generalizing s with
  | nil =>
    cases ran
    exact Nat.le_refl _
  | cons page pages ih =>
    obtain ⟨⟨phys, t⟩, unmapped, ran⟩ := Option.bind_eq_some_iff.mp ran
    obtain ⟨u, freed, ran⟩ := Option.bind_eq_some_iff.mp ran
    have first := free_grows freed
    have rest := ih ran
    rw [unmap_keeps_mem unmapped] at first
    rw [List.length_cons]
    omega

theorem unmap_imaginary_keeps_mem (pages : List Nat) (ran : unmapImaginary pages s = some s') :
    s'.mem = s.mem := by
  induction pages generalizing s with
  | nil =>
    cases ran
    rfl
  | cons page pages ih =>
    obtain ⟨⟨phys, t⟩, unmapped, ran⟩ := Option.bind_eq_some_iff.mp ran
    exact (ih ran).trans (unmap_keeps_mem unmapped)

theorem destroy_pagedir_grows (ran : memuserDestroyPagedir s pagedir = some s') :
    s'.mem.stackptr ≤ s.mem.stackptr + 1 := by
  rw [memuserDestroyPagedir] at ran
  have grown := free_grows ran
  split at grown <;> exact grown

end Lengths

/-- A user page that exists has its table. -/
theorem existing_has_table (user : UserPage p) (existing : (pageEntry s d p).existing = true) :
    userTables s d ≠ [] := by
  have present := slot_of_existing existing
  obtain ⟨low, high⟩ := user
  refine List.ne_nil_of_mem (List.mem_map_of_mem (a := p / 1024) (List.mem_filter.mpr ⟨?_, ?_⟩))
  · rw [List.mem_range]
    exact (page_not_window high).1
  · simp only [present, decide_eq_true_eq, and_true]
    exact user_slot low

/-- What is given back is at most the loaded pages and the directory, and nothing if the
directory is not loaded. -/
theorem destroy_grows (ran : memuserDestroyAddrspace s space = some (ok, s')) :
    if s.curpd = space.pagedir then
      s'.mem.stackptr ≤ s.mem.stackptr + space.pagesLoaded.length + 1 else s' = s := by
  rw [memuserDestroyAddrspace] at ran
  by_cases loaded : s.curpd = space.pagedir
  · rw [if_neg (not_not.mpr loaded)] at ran
    rw [if_pos loaded]
    split at ran
    · cases ran
    · obtain ⟨a, freed, ran⟩ := Option.bind_eq_some_iff.mp ran
      obtain ⟨b, unmapped, ran⟩ := Option.bind_eq_some_iff.mp ran
      obtain ⟨t, destroyed, same⟩ := Option.map_eq_some_iff.mp ran
      cases same
      have first := free_loaded_grows _ freed
      have last := destroy_pagedir_grows destroyed
      rw [unmap_imaginary_keeps_mem _ unmapped] at last
      omega
  · rw [if_pos loaded] at ran
    rw [if_neg loaded]
    cases ran
    rfl

/-- Without page tables there is nothing on the lists. -/
theorem Destroyable.empty (held : Destroyable w proc)
    (none : userTables w.machine (w.space proc).pagedir = []) :
    (w.space proc).pagesLoaded = [] ∧ (w.space proc).pagesImaginary = [] := by
  rw [← List.append_eq_nil_iff, List.eq_nil_iff_forall_not_mem]
  intro addr listed
  exact existing_has_table (held.users addr listed).1 (held.booked.listed addr listed) none

/-- The process without page tables: only its directory is freed. -/
theorem Destroyable.destroys (held : Destroyable w proc)
    (loaded : w.machine.curpd = (w.space proc).pagedir)
    (none : userTables w.machine (w.space proc).pagedir = []) :
    memuserDestroyAddrspace w.machine (w.space proc) =
      (memphysFree { w.machine with curpd := pagingKernelpd } ((w.space proc).pagedir * 4096)).map
        (0, ·) := by
  obtain ⟨noLoaded, noImaginary⟩ := held.empty none
  rw [memuserDestroyAddrspace, if_neg (not_not.mpr loaded), held.stackless loaded,
    if_neg (not_not.mpr rfl), noLoaded, noImaginary]
  simp only [freeLoaded, unmapImaginary, Option.bind_some, memuserDestroyPagedir, if_pos loaded]

/-- `proc_destroy` of a process other than the current one gives back what it should exactly
if the directory of the process is loaded, it has no user page tables, and the stack of free
pages is not at its end. -/
theorem destroyed_gives_back_iff_bare (w : Os) (proc : Ptr) (held : Destroyable w proc) :
    (∃ w', procDestroy w proc = some w' ∧ GaveBack w.machine w'.machine (w.space proc)) ↔
      Bare w proc := by
  have address : (w.space proc).pagedir * 4096 ≠ 0 := by
    have real := held.real
    omega
  constructor
  · rintro ⟨w', ran, gave⟩
    obtain ⟨⟨ok, s⟩, destroyed, rfl⟩ := Option.map_eq_some_iff.mp ran
    have length := gave.length_eq
    change (freePages s.mem).length = _ at length
    simp only [List.length_append, free_pages_length, loadedPhys, List.length_map,
      List.length_singleton] at length
    have grown := destroy_grows destroyed
    by_cases loaded : w.machine.curpd = (w.space proc).pagedir
    · rw [if_pos loaded] at grown
      have none : userTables w.machine (w.space proc).pagedir = [] := by
        rw [← List.length_eq_zero_iff]
        omega
      refine ⟨loaded, none, fun full => ?_⟩
      obtain ⟨noLoaded, -⟩ := held.empty none
      rw [held.destroys loaded none] at destroyed
      obtain ⟨t, freed, same⟩ := Option.map_eq_some_iff.mp destroyed
      cases same
      have short := free_full_shrinks (s := { w.machine with curpd := pagingKernelpd }) address full freed
      change s.mem.stackptr ≤ w.machine.mem.stackptr at short
      rw [noLoaded, none] at length
      simp only [List.length_nil] at length
      omega
    · rw [if_neg loaded] at grown
      rw [grown] at length
      omega
  · rintro ⟨loaded, none, room⟩
    obtain ⟨noLoaded, -⟩ := held.empty none
    have destroyed := held.destroys loaded none
    rw [memphysFree, if_neg fun both => room both.2] at destroyed
    refine ⟨_, by rw [procDestroy, destroyed]; rfl, ?_⟩
    rw [GaveBack, loadedPhys, noLoaded, none]
    change (freePages (memphysPush w.machine.mem ((w.space proc).pagedir * 4096))).Perm _
    rw [push_free_pages address room]
    simp

section Sample

/-- A process creates another one and gives it a stack. -/
def withStack : Option Os :=
  (procCreate ⟨2, staleBlock, 0, 1, 1, 1, false⟩ [] 0 (oneOs 1)).bind fun w =>
    (memuserCreateStack w.machine (w.space 2)).map fun (s, space) =>
      ({ w with machine := s } : Os).setSpace 2 fun _ => space

/-- The new process has a stack page, a page table and a directory; when it is destroyed,
the stack of free pages stays as it is. -/
theorem destroyed_process_gives_nothing_back :
    ∃ w w', withStack = some w ∧ w.kernel.procCurrent = 1 ∧
      (w.space 2).pagesLoaded = [0xFFBFE000] ∧ procDestroySyscall w 2 = some (0, w') ∧
      w'.kernel.procAll = [1] ∧ freePages w'.machine.mem = freePages w.machine.mem ∧
      ¬ GaveBack w.machine w'.machine (w.space 2) := by
  obtain ⟨w, made, current, pages, ⟨result, w'⟩, destroyed, (rfl : result = 0), all, unchanged⟩ : ∃ w,
      withStack = some w ∧ w.kernel.procCurrent = 1 ∧ (w.space 2).pagesLoaded = [0xFFBFE000] ∧
      ∃ r, procDestroySyscall w 2 = some r ∧ r.1 = 0 ∧ r.2.kernel.procAll = [1] ∧
        freePages r.2.machine.mem = freePages w.machine.mem := by
    decide +kernel
  refine ⟨w, w', made, current, pages, destroyed, all, unchanged, fun gave => ?_⟩
  have length := gave.length_eq
  rw [unchanged] at length
  simp only [List.length_append, List.length_singleton] at length
  omega

/-- While no process runs yet, the kernel creates one, loads its directory and cannot load
its program. -/
def unloadable : Option Os :=
  (procCreate ⟨2, staleBlock, 0, 1, 1, 1, false⟩ [] 0 (oneOs 0)).map fun w => w.load 2

theorem unloadable_gives_back :
    ∃ w, unloadable = some w ∧ Destroyable w 2 ∧
      ∃ w', procDestroy w 2 = some w' ∧ GaveBack w.machine w'.machine (w.space 2) := by
  obtain ⟨w, made, existing, other, space, loaded, none, room⟩ : ∃ w, unloadable = some w ∧
      2 ∈ w.kernel.procAll ∧ 2 ≠ w.kernel.procCurrent ∧ w.space 2 = ⟨[], [], [], 0x327, 0⟩ ∧
      w.machine.curpd = (w.space 2).pagedir ∧ userTables w.machine (w.space 2).pagedir = [] ∧
      w.machine.mem.stackptr ≠ w.machine.mem.stackend := by
    decide +kernel
  have held : Destroyable w 2 := by
    refine ⟨existing, other, ?_, ⟨fun p user existing => ?_, ?_⟩, ?_, fun _ => ?_⟩
    · rw [space]
      decide
    · exact absurd none (existing_has_table user existing)
    · rw [space]
      exact List.forall_mem_nil _
    · rw [space]
      exact List.forall_mem_nil _
    · rw [space]
  exact ⟨w, made, held, (destroyed_gives_back_iff_bare w 2 held).mpr ⟨loaded, none, room⟩⟩

end Sample

end MeinOS.ProcmSpaces
