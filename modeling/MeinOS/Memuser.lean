import MeinOS.Llist
import MeinOS.PagingOps

/-! User memory, `kernel2/memuser.c`: allocation of pages that exist before they have
memory, the page fault that gives them memory, and their release.

The swapper never runs: `swap_enable` is not registered as a system call, so
`swap_proc` stays NULL, `swap_remove` does nothing and `swap_in` fails.

Two things are left out here. The nodes that `llist_push` takes come from a heap with room for them,
which does not grow. And the window is always seen through the page tables, although the processor
may have kept an older translation of it. `MeinOS.MemuserHeap` has the same functions with both. -/
namespace MeinOS.Memuser
open Llist Memphys Paging

def userdataAddress : Nat := 2 ^ 30

def userdataSize : Nat := 3068 * 2 ^ 20 - 4 * 2 ^ 10

def userstackEnd : Nat := bufpageAddress

def userstackMaxsize : Nat := 1024 * 4096

/-- `addrspace_t`, without the pointer to its process. -/
structure Addrspace where
  pagesLoaded : List Nat
  pagesImaginary : List Nat
  pagesSwapped : List Nat
  /-- The page number of its page directory. -/
  pagedir : Nat
  stack : Nat
  deriving DecidableEq

/-- The loop of `memuser_findvirt` for at most `rounds` more rounds: `found` free pages
end before `virt`. -/
def findvirtFrom (pagedir pages : Nat) : Nat → Nat → Nat → Machine → Option (Nat × Machine)
  | 0, _, _, s => some (0, s)
  | rounds + 1, virt, found, s =>
    if virt < userdataAddress + userdataSize then
      if pages ≤ found then some (virt - found * 4096, s)
      else
        (if addr2pte virt = 0 then
          (pagingGetpdePd s virt pagedir).map fun (pde, s) => (!pde.present, s)
        else some (false, s)).bind fun (skip, s) =>
          if skip then
            findvirtFrom pagedir pages rounds (virt + 1023 * 4096 + 4096) (found + 1024) s
          else
            (pagingGetptePd s virt pagedir).bind fun (pte, s) =>
              findvirtFrom pagedir pages rounds (virt + 4096)
                (if pte.existing then 0 else found + 1) s
    else some (0, s)

/-- `memuser_findvirt`. The address space has fewer than 2^20 pages, so the loop ends. -/
def memuserFindvirt (s : Machine) (space : Addrspace) (pages : Nat) : Option (Nat × Machine) :=
  findvirtFrom space.pagedir pages (2 ^ 20) userdataAddress 0 s

/-- `paging_kernelpd`. -/
def pagingKernelpd : Nat := addr2page kernelpdAddress

/-- The last entry of a page directory, which maps the directory itself. -/
def selfEntry (pagedir : Nat) : Entry :=
  { blank with present := true, writable := true, page := pagedir }

/-- The `paging_physwrite` of `memuser_create_pagedir`. It copies as many bytes as the
kernel has entries, 256, and these are the first 64 entries of the loaded directory. -/
def copyKernelEntries (s : Machine) (pagedir : Nat) : Option Machine :=
  (mapWindow s (pagedir * 4096)).bind fun s =>
    (s.translate pagedirAddress).bind fun source =>
      (s.translate bufpageAddress).map fun frame =>
        s.fill frame fun i => if i < 64 then s.frames source i else s.frames frame i

/-- `memuser_create_pagedir`. -/
def memuserCreatePagedir (s : Machine) : Option (Nat × Machine) :=
  (memphysAlloc s).bind fun (page, s) =>
    (pagingCleanpage s page).bind fun (page, s) =>
      let pagedir := addr2page page
      (copyKernelEntries s pagedir).bind fun s =>
        (pagingSetpdePd s 0xFFC00000 (selfEntry pagedir) pagedir).map (pagedir, ·)

/-- `memuser_destroy_pagedir`. -/
def memuserDestroyPagedir (s : Machine) (pagedir : Nat) : Option Machine :=
  memphysFree (if s.curpd = pagedir then { s with curpd := pagingKernelpd } else s) (pagedir * 4096)

/-- `memuser_create_pagetable`. -/
def memuserCreatePagetable (s : Machine) (pagedir virt : Nat) : Option Machine :=
  (memphysAlloc s).bind fun (page, s) =>
    (pagingCleanpage s page).bind fun (page, s) =>
      pagingSetpdePd s virt (tableEntry page) pagedir

/-- The test for a page table at the head of `memuser_alloc_at` and of the loop of
`memuser_alloc`. -/
def needPagetable (s : Machine) (pagedir virt : Nat) : Option Machine :=
  (pagingGetpdePd s virt pagedir).bind fun (pde, s) =>
    if pde.present then some s else memuserCreatePagetable s pagedir virt

/-- The entry of a page that has no memory yet. -/
def imaginaryEntry (swappable : Bool) : Entry :=
  { blank with existing := true, swappable := swappable, writable := true, user := true }

/-- The loop of `memuser_alloc` over the pages from `virt` on. -/
def allocPages (swappable : Bool) :
    Nat → Nat → Machine → Addrspace → Option (Machine × Addrspace)
  | 0, _, s, space => some (s, space)
  | left + 1, virt, s, space =>
    (needPagetable s space.pagedir virt).bind fun s =>
      (pagingSetptePd s virt (imaginaryEntry swappable) space.pagedir).bind fun s =>
        allocPages swappable left (virt + 4096) s
          { space with pagesImaginary := llistPush space.pagesImaginary virt }

/-- `memuser_alloc`. -/
def memuserAlloc (s : Machine) (space : Addrspace) (count : Nat) (swappable : Bool) :
    Option (Nat × Machine × Addrspace) :=
  (memuserFindvirt s space (count / 4096)).bind fun (addr, s) =>
    if addr ≠ 0 then (allocPages swappable (count / 4096) addr s space).map (addr, ·)
    else some (addr, s, space)

/-- `memuser_alloc_at`. -/
def memuserAllocAt (s : Machine) (space : Addrspace) (addr phys : Nat) (writable : Bool) :
    Option (Machine × Addrspace) :=
  (needPagetable s space.pagedir addr).bind fun s =>
    (pagingGetptePd s addr space.pagedir).bind fun (_, s) =>
      (if phys = 0 then memphysAlloc s else some (phys, s)).bind fun (phys, s) =>
        (pagingSetptePd s addr
          { blank with
            existing := true
            present := true
            swappable := true
            writable := writable
            user := true
            page := addr2page phys } space.pagedir).map fun s =>
          (s, { space with pagesLoaded := llistPush space.pagesLoaded addr })

/-- `memuser_expand_stack`. -/
def memuserExpandStack (s : Machine) (space : Addrspace) : Option (Machine × Addrspace) :=
  let space := { space with stack := (space.stack + (2 ^ 32 - 4096)) % 2 ^ 32 }
  memuserAllocAt s space space.stack 0 true

/-- `memuser_free`. The entry it looks at is that of `addrspace->stack`. -/
def memuserFree (s : Machine) (space : Addrspace) (page : Nat) : Option (Machine × Addrspace) :=
  if page = 0 then some (s, space)
  else
    (pagingGetptePd s space.stack space.pagedir).bind fun (pte, s) =>
      (if pte.present then
        (memphysFree s (pte.page * 4096)).map fun s =>
          (s, { space with
            pagesLoaded := (llistRemove space.pagesLoaded (llistFind space.pagesLoaded page)).2 })
      else if pte.swapped then
        some (s, { space with
          pagesSwapped := (llistRemove space.pagesSwapped (llistFind space.pagesSwapped page)).2 })
      else if pte.cow then (pagingUnmap s page).map fun (_, s) => (s, space)
      else
        (pagingUnmap s page).map fun (_, s) =>
          (s, { space with
            pagesImaginary :=
              (llistRemove space.pagesImaginary (llistFind space.pagesImaginary page)).2 })).bind
        fun (s, space) => (pagingSetptePd s page blank space.pagedir).map (·, space)

/-- `memuser_pagefault` for a page whose entry exists. -/
def pagefaultExisting (s : Machine) (space : Addrspace) (page : Nat) (pte : Entry) :
    Option (Bool × Machine × Addrspace) :=
  if pte.swapped ∧ ¬ pte.present then some (false, s, space)
  else if pte.cow ∧ pte.present then
    (memphysAlloc s).bind fun (new, s) =>
      (pagingSetpte s page
        { pte with page := addr2page new, cow := false, writable := true }).bind fun (_, s) =>
        (pagingPhysreadPage s page (pte.page * 4096)).map fun s => (true, s, space)
  else if ¬ pte.present then
    (memphysAlloc s).bind fun (new, s) =>
      (pagingSetpte s page { pte with page := addr2page new, present := true }).map fun (_, s) =>
        (true, s,
          { space with
            pagesImaginary :=
              (llistRemove space.pagesImaginary (llistFind space.pagesImaginary page)).2
            pagesLoaded := llistPush space.pagesLoaded page })
  else some (false, s, space)

/-- `memuser_pagefault` in the address space of the current process; the flag is whether
it returns 0. -/
def memuserPagefault (s : Machine) (space : Addrspace) (addr : Nat) :
    Option (Bool × Machine × Addrspace) :=
  (pagingGetpte s (addr2page addr * 4096)).bind fun pte =>
    if ¬ pte.existing then
      if addr < space.stack ∧ userstackEnd - userstackMaxsize < addr then
        (memuserExpandStack s space).map (true, ·)
      else some (false, s, space)
    else pagefaultExisting s space (addr2page addr * 4096) pte

end MeinOS.Memuser
