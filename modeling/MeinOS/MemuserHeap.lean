import MeinOS.AddrspaceLists
import MeinOS.KernelHeap
import MeinOS.Tlb

/-! The functions of `kernel2/memuser.c` with the two things that `MeinOS.Memuser` leaves out: the
translation that the processor keeps of the window page, and the heap that the lists of an address
space are made of.

A directory that is not loaded is read and written through the window. Its directory page and its
page table are looked at one after the other, so without a reload of the page directory in between
the second look finds the first page again. A new page table is cleaned through the window as well.
In the loaded directory, where no table is missing, the window is not used. -/
namespace MeinOS.MemuserHeap
open Llist Memphys Paging Memuser PagingWindow Tlb AddrspaceLists Malloc KernelHeap

/-- The processor with the heap, and the page directories of `proc_all` and of `proc_current`. -/
structure Kmem extends Cpu where
  heap : Heap
  procAll : List Nat
  current : Option Nat

/-- `llist_push`, as far as the heap is concerned. A heap that grows has loaded the directories of
the processes one after the other. -/
def Kmem.push (k : Kmem) : Option Kmem :=
  (kernelMalloc k.procAll k.current nodeSize k.machine k.heap).map fun (pages, s, h) =>
    { k with
      machine := s
      kept := if pages = [] ∨ k.procAll.all (· = k.machine.curpd) then k.kept else none
      heap := h }

/-- `paging_getpde_pd`. -/
def pagingGetpdePd (c : Cpu) (virt pagedir : Nat) : Option (Entry × Cpu) :=
  if pagedir = c.machine.curpd then (pagingGetpde c.machine virt).map (·, c)
  else
    (Tlb.pagingPhysread c (pagedir * 4096 + 4 * addr2pde virt)).map fun (words, c) =>
      (words (addr2pde virt), c)

/-- `paging_getpte_pd`. -/
def pagingGetptePd (c : Cpu) (virt pagedir : Nat) : Option (Entry × Cpu) :=
  if pagedir = c.machine.curpd then (pagingGetpte c.machine virt).map (·, c)
  else
    (pagingGetpdePd c virt pagedir).bind fun (pde, c) =>
      if pde.page = 0 then some (blank, c)
      else
        (Tlb.pagingPhysread c (pde.page * 4096 + 4 * addr2pte virt)).map fun (words, c) =>
          (words (addr2pte virt), c)

/-- `paging_setpte_pd`. -/
def pagingSetptePd (c : Cpu) (virt : Nat) (pte : Entry) (pagedir : Nat) : Option Cpu :=
  if pagedir = c.machine.curpd then
    (pagingSetpte c.machine virt pte).map fun (_, s) => pagingFlushtlb { c with machine := s } virt
  else
    (pagingGetpdePd c virt pagedir).bind fun (pde, c) =>
      (Tlb.pagingPhyswrite c (pde.page * 4096 + 4 * addr2pte virt) fun words =>
        Function.update words (addr2pte virt) pte).map fun (_, c) => pagingFlushtlb c virt

/-- `memuser_create_pagetable`. -/
def memuserCreatePagetable (c : Cpu) (pagedir virt : Nat) : Option Cpu :=
  (memphysAlloc c.machine).bind fun (page, s) =>
    (Tlb.pagingCleanpage { c with machine := s } page).bind fun (_, c) =>
      Tlb.pagingSetpdePd c virt (tableEntry page) pagedir

/-- The test for a page table. -/
def needPagetable (c : Cpu) (pagedir virt : Nat) : Option Cpu :=
  (pagingGetpdePd c virt pagedir).bind fun (pde, c) =>
    if pde.present then some c else memuserCreatePagetable c pagedir virt

/-- The loop of `memuser_findvirt` for at most `rounds` more rounds. -/
def findvirtFrom (pagedir pages : Nat) : Nat → Nat → Nat → Cpu → Option (Nat × Cpu)
  | 0, _, _, c => some (0, c)
  | rounds + 1, virt, found, c =>
    if virt < userdataAddress + userdataSize then
      if pages ≤ found then some (virt - found * 4096, c)
      else
        (if addr2pte virt = 0 then
          (pagingGetpdePd c virt pagedir).map fun (pde, c) => (!pde.present, c)
        else some (false, c)).bind fun (skip, c) =>
          if skip then
            findvirtFrom pagedir pages rounds (virt + 1023 * 4096 + 4096) (found + 1024) c
          else
            (pagingGetptePd c virt pagedir).bind fun (pte, c) =>
              findvirtFrom pagedir pages rounds (virt + 4096)
                (if pte.existing then 0 else found + 1) c
    else some (0, c)

/-- The loop of `memuser_alloc`. -/
def allocPages (swappable : Bool) : Nat → Nat → Kmem → Addrspace → Option (Kmem × Addrspace)
  | 0, _, k, space => some (k, space)
  | left + 1, virt, k, space =>
    (needPagetable k.toCpu space.pagedir virt).bind fun c =>
      (pagingSetptePd c virt (imaginaryEntry swappable) space.pagedir).bind fun c =>
        (Kmem.push { k with toCpu := c }).bind fun k =>
          allocPages swappable left (virt + 4096) k
            { space with pagesImaginary := llistPush space.pagesImaginary virt }

/-- `memuser_alloc`. -/
def memuserAlloc (k : Kmem) (space : Addrspace) (count : Nat) (swappable : Bool) :
    Option (Nat × Kmem × Addrspace) :=
  (findvirtFrom space.pagedir (count / 4096) (2 ^ 20) userdataAddress 0 k.toCpu).bind
    fun (addr, c) =>
      if addr ≠ 0 then
        (allocPages swappable (count / 4096) addr { k with toCpu := c } space).map (addr, ·)
      else some (addr, { k with toCpu := c }, space)

/-- `memuser_alloc_at`. -/
def memuserAllocAt (k : Kmem) (space : Addrspace) (addr phys : Nat) (writable : Bool) :
    Option (Kmem × Addrspace) :=
  (needPagetable k.toCpu space.pagedir addr).bind fun c =>
    (pagingGetptePd c addr space.pagedir).bind fun (_, c) =>
      (if phys = 0 then memphysAlloc c.machine else some (phys, c.machine)).bind fun (phys, s) =>
        (pagingSetptePd { c with machine := s } addr
          { blank with
            existing := true
            present := true
            swappable := true
            writable := writable
            user := true
            page := addr2page phys } space.pagedir).bind fun c =>
          (Kmem.push { k with toCpu := c }).map fun k =>
            (k, { space with pagesLoaded := llistPush space.pagesLoaded addr })

/-- `memuser_expand_stack`. -/
def memuserExpandStack (k : Kmem) (space : Addrspace) : Option (Kmem × Addrspace) :=
  let space := { space with stack := (space.stack + (2 ^ 32 - 4096)) % 2 ^ 32 }
  memuserAllocAt k space space.stack 0 true

/-- The copy of a copy-on-write fault: `paging_physread` of a whole page to the page `dest`. -/
def copyPage (c : Cpu) (dest addr : Nat) : Option Cpu :=
  (Tlb.pagingPhysread c addr).bind fun (words, c) =>
    (c.machine.storePage dest words).map fun s => { c with machine := s }

/-- `memuser_pagefault` for a page whose entry exists. The node of a page that gets its memory is
freed just before the heap is asked for one, so the heap does not grow here. -/
def pagefaultExisting (c : Cpu) (space : Addrspace) (page : Nat) (pte : Entry) :
    Option (Bool × Cpu × Addrspace) :=
  if pte.cow ∧ pte.present then
    (memphysAlloc c.machine).bind fun (new, s) =>
      (pagingSetpte s page
        { pte with page := addr2page new, cow := false, writable := true }).bind fun (_, s) =>
        (copyPage { c with machine := s } page (pte.page * 4096)).map fun c => (true, c, space)
  else
    (Memuser.pagefaultExisting c.machine space page pte).map fun (ok, s, space) =>
      (ok, { c with machine := s }, space)

/-- `memuser_pagefault`. -/
def memuserPagefault (k : Kmem) (space : Addrspace) (addr : Nat) :
    Option (Bool × Kmem × Addrspace) :=
  (pagingGetpte k.machine (addr2page addr * 4096)).bind fun pte =>
    if ¬ pte.existing then
      if addr < space.stack ∧ userstackEnd - userstackMaxsize < addr then
        (memuserExpandStack k space).map (true, ·)
      else some (false, k, space)
    else
      (pagefaultExisting k.toCpu space (addr2page addr * 4096) pte).map fun (ok, c, space) =>
        (ok, { k with toCpu := c }, space)

variable {dirs : List Nat} {c : Cpu} {k : Kmem} {space : Addrspace} {virt : Nat}

section Loaded

/-- In the loaded directory `memuser_findvirt` does not use the window. -/
theorem findvirt_loaded (c : Cpu) (pages rounds virt found : Nat) :
    findvirtFrom c.machine.curpd pages rounds virt found c =
      (Memuser.findvirtFrom c.machine.curpd pages rounds virt found c.machine).map fun (addr, s) =>
        (addr, { c with machine := s }) := by
  induction rounds generalizing virt found with
  | zero => rfl
  | succ rounds ih =>
    have entry : ((pagingGetptePd c virt c.machine.curpd).bind fun read =>
        findvirtFrom c.machine.curpd pages rounds (virt + 4096)
          (if read.1.existing then 0 else found + 1) read.2) =
        ((Paging.pagingGetptePd c.machine virt c.machine.curpd).bind fun read =>
          Memuser.findvirtFrom c.machine.curpd pages rounds (virt + 4096)
            (if read.1.existing then 0 else found + 1) read.2).map fun result =>
              (result.1, { c with machine := result.2 }) := by
      rw [pagingGetptePd, if_pos rfl, Paging.pagingGetptePd, if_pos rfl]
      cases pagingGetpte c.machine virt with
      | none => rfl
      | some e => exact ih _ _
    have slot : pagingGetpdePd c virt c.machine.curpd = (pagingGetpde c.machine virt).map (·, c) ∧
        Paging.pagingGetpdePd c.machine virt c.machine.curpd =
          (pagingGetpde c.machine virt).map (·, c.machine) := ⟨if_pos rfl, if_pos rfl⟩
    rw [findvirtFrom, Memuser.findvirtFrom, slot.1, slot.2]
    by_cases below : virt < userdataAddress + userdataSize
    swap
    · rw [if_neg below, if_neg below]
      rfl
    by_cases enough : pages ≤ found
    · rw [if_pos below, if_pos below, if_pos enough, if_pos enough]
      rfl
    rw [if_pos below, if_pos below, if_neg enough, if_neg enough]
    by_cases first : addr2pte virt = 0
    swap
    · rw [if_neg first, if_neg first]
      exact entry
    rw [if_pos first, if_pos first]
    cases pagingGetpde c.machine virt with
    | none => rfl
    | some pde =>
      cases there : pde.present with
      | true =>
        simp only [Option.map_some, Option.bind_some, there]
        exact entry
      | false =>
        simp only [Option.map_some, Option.bind_some, there]
        exact ih _ _

end Loaded

/-- The copy goes where the page tables say if nothing else is kept of the window page. -/
theorem copy_page_agrees {t : Machine} {page : Nat} (dest : Nat)
    (source : ∀ u, showWindow t (page * 4096) = some u → u.translate bufpageAddress = some page)
    (current : c.Current page) :
    copyPage { c with machine := t } dest (page * 4096) =
      (pagingPhysreadPage t dest (page * 4096)).map fun s =>
        { c with machine := s, kept := some page } := by
  rw [copyPage, Tlb.pagingPhysread, show_window_cpu, pagingPhysreadPage]
  cases shown : showWindow t (page * 4096) with
  | none => rfl
  | some u =>
    have frame := source u shown
    have same : u.fill page (u.frames page) = u := by
      rw [Machine.fill, Function.update_eq_self]
    simp only [Option.map_some, Option.bind_some, frame]
    rw [through_current (c := { c with machine := u }) frame current]
    simp only [id, Option.bind_some, same]

theorem kernel_stack_slot : 0x110000 < userdataAddress := by
  decide

/-- A kernel whose only process has its directory at 0x310. -/
def kmemOf (m : Machine) (h : Heap) : Kmem where
  machine := m
  kept := none
  slot := 0x110000
  inKernel := kernel_stack_slot
  heap := h
  procAll := [0x310]
  current := some 0x310

end MeinOS.MemuserHeap
