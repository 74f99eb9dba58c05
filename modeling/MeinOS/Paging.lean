import MeinOS.Memphys

/-! Paging, `kernel2/paging.c`, over physical memory and the translation that the
processor makes through the loaded page directory.

The words of physical memory are read as table entries. Bit 0 of an entry is
`in_memory` of a `pte_t` and `exists` of a `pde_t`; it is the bit the processor
looks at. The last entry of a page directory points to the directory itself, which
maps its page tables at `PAGETABLES_ADDRESS` and the directory at
`PAGEDIR_ADDRESS`. Page directories are named by their page number.

This machine has no TLB: every access goes through the page tables as they are, and
`paging_flushtlb` is left out. On a processor that keeps translations it does not do what
it is for; `MeinOS.Tlb` says what the window functions then reach. -/
namespace MeinOS.Paging
open Memphys

/-- `pte_t` and `pde_t`, without the bits that only the processor uses. -/
structure Entry where
  present : Bool
  writable : Bool
  user : Bool
  cow : Bool
  /-- `exists` of a `pte_t`, bit 9. -/
  existing : Bool
  swappable : Bool
  swapped : Bool
  page : Nat
  deriving DecidableEq

/-- The entry after `memset(&pte,0,sizeof(pte))`. -/
def blank : Entry where
  present := false
  writable := false
  user := false
  cow := false
  existing := false
  swappable := false
  swapped := false
  page := 0

def bufpageAddress : Nat := 0xFFBFF000

def pagetablesAddress : Nat := 0xFFC00000

def pagedirAddress : Nat := 0xFFFFF000

def addr2page (addr : Nat) : Nat := addr / 4096

def addr2pde (addr : Nat) : Nat := addr2page addr / 1024

def addr2pte (addr : Nat) : Nat := addr2page addr % 1024

/-- Physical memory, the page allocator, and the global variables of `paging.c`. -/
structure Machine where
  /-- The words of every physical page. -/
  frames : Nat → Nat → Entry
  mem : PhysMem
  curpd : Nat
  lastpage : Nat
  lastpd : Nat

def Machine.write (s : Machine) (frame index : Nat) (e : Entry) : Machine :=
  { s with frames := Function.update s.frames frame (Function.update (s.frames frame) index e) }

/-- Overwrites a whole page. -/
def Machine.fill (s : Machine) (frame : Nat) (words : Nat → Entry) : Machine :=
  { s with frames := Function.update s.frames frame words }

/-- The physical page behind a virtual address; `none` is a page fault. -/
def Machine.translate (s : Machine) (virt : Nat) : Option Nat :=
  let pde := s.frames s.curpd (addr2pde virt)
  let pte := s.frames pde.page (addr2pte virt)
  if pde.present ∧ pte.present then some pte.page else none

def Machine.load (s : Machine) (virt : Nat) : Option Entry :=
  (s.translate virt).map fun frame => s.frames frame (virt % 4096 / 4)

def Machine.store (s : Machine) (virt : Nat) (e : Entry) : Option Machine :=
  (s.translate virt).map fun frame => s.write frame (virt % 4096 / 4) e

/-- `memset` or `memcpy` over the whole page at a virtual address. -/
def Machine.storePage (s : Machine) (virt : Nat) (words : Nat → Entry) : Option Machine :=
  (s.translate virt).map fun frame => s.fill frame words

/-- `memphys_alloc`. -/
def memphysAlloc (s : Machine) : Option (Nat × Machine) :=
  (memphysPop s.mem).map fun (page, mem) => (page, { s with mem := mem })

/-- `paging_getpde`. -/
def pagingGetpde (s : Machine) (virt : Nat) : Option Entry :=
  s.load (pagedirAddress + 4 * addr2pde virt)

/-- `paging_setpde`. -/
def pagingSetpde (s : Machine) (virt : Nat) (pde : Entry) : Option Machine :=
  s.store (pagedirAddress + 4 * addr2pde virt) pde

/-- `paging_getpte`. -/
def pagingGetpte (s : Machine) (virt : Nat) : Option Entry :=
  (pagingGetpde s virt).bind fun pde =>
    if pde.present then s.load (pagetablesAddress + addr2pde virt * 4096 + 4 * addr2pte virt)
    else some blank

/-- `paging_setpte`; the flag is whether it returns 0. -/
def pagingSetpte (s : Machine) (virt : Nat) (pte : Entry) : Option (Bool × Machine) :=
  (pagingGetpde s virt).bind fun pde =>
    if pde.present then
      (s.store (pagetablesAddress + addr2pde virt * 4096 + 4 * addr2pte virt) pte).map (true, ·)
    else some (false, s)

/-- The entry for a new page table. -/
def tableEntry (page : Nat) : Entry :=
  { blank with present := true, user := true, writable := true, page := addr2page page }

/-- The part of `paging_map` that adds a missing page table. -/
def pagingAddTable (s : Machine) (virt : Nat) : Option Machine :=
  (memphysAlloc s).bind fun (page, s) =>
    (pagingSetpde s virt (tableEntry page)).bind fun s =>
      s.storePage (pagetablesAddress + addr2pde virt * 4096) fun _ => blank

/-- `paging_map`, which is `paging_map_pd` for the loaded directory. -/
def pagingMap (s : Machine) (virt : Nat) (phys : Nat) (user writable : Bool) :
    Option (Bool × Machine) :=
  (pagingGetpde s virt).bind fun pde =>
    (if pde.present then some s else pagingAddTable s virt).bind fun s =>
      pagingSetpte s virt
        { blank with
          page := addr2page phys
          existing := true
          user := user
          writable := writable
          present := true }

/-- Maps the window page at `BUFPAGE_ADDRESS` and remembers what it shows. The callers
return at once if the mapping fails, with nothing read or written. -/
def mapWindow (s : Machine) (addr : Nat) : Option Machine :=
  (pagingMap s bufpageAddress (addr2page addr * 4096) false true).bind fun (mapped, s) =>
    if mapped then some { s with lastpage := addr2page addr, lastpd := s.curpd } else none

/-- The window for reading, which is trusted if it shows the page already. -/
def showWindow (s : Machine) (addr : Nat) : Option Machine :=
  if addr2page addr ≠ s.lastpage ∨ s.curpd ≠ s.lastpd then mapWindow s addr else some s

/-- `paging_physread` of one word. -/
def pagingPhysread (s : Machine) (addr : Nat) : Option (Entry × Machine) :=
  (showWindow s addr).bind fun s =>
    (s.load (bufpageAddress + addr % 4096)).map (·, s)

/-- `paging_physread` of the whole page at `addr`, to the virtual page `dest`. -/
def pagingPhysreadPage (s : Machine) (dest : Nat) (addr : Nat) : Option Machine :=
  (showWindow s addr).bind fun s =>
    (s.translate bufpageAddress).bind fun frame => s.storePage dest (s.frames frame)

/-- `paging_physwrite` of one word; the test for the page shown ends in `|| 1`. -/
def pagingPhyswrite (s : Machine) (addr : Nat) (e : Entry) : Option Machine :=
  (mapWindow s addr).bind fun s => s.store (bufpageAddress + addr % 4096) e

/-- `paging_cleanpage`. -/
def pagingCleanpage (s : Machine) (page : Nat) : Option (Nat × Machine) :=
  (showWindow s page).bind fun s =>
    (s.storePage bufpageAddress fun _ => blank).map (page, ·)

/-- `paging_getpde_pd`. -/
def pagingGetpdePd (s : Machine) (virt pagedir : Nat) : Option (Entry × Machine) :=
  if pagedir = s.curpd then (pagingGetpde s virt).map (·, s)
  else pagingPhysread s (pagedir * 4096 + 4 * addr2pde virt)

/-- `paging_setpde_pd`. -/
def pagingSetpdePd (s : Machine) (virt : Nat) (pde : Entry) (pagedir : Nat) : Option Machine :=
  if pagedir = s.curpd then pagingSetpde s virt pde
  else pagingPhyswrite s (pagedir * 4096 + 4 * addr2pde virt) pde

/-- `paging_getpte_pd`. -/
def pagingGetptePd (s : Machine) (virt pagedir : Nat) : Option (Entry × Machine) :=
  if pagedir = s.curpd then (pagingGetpte s virt).map (·, s)
  else
    (pagingGetpdePd s virt pagedir).bind fun (pde, s) =>
      if pde.page = 0 then some (blank, s)
      else pagingPhysread s (pde.page * 4096 + 4 * addr2pte virt)

/-- `paging_setpte_pd`. -/
def pagingSetptePd (s : Machine) (virt : Nat) (pte : Entry) (pagedir : Nat) : Option Machine :=
  if pagedir = s.curpd then (pagingSetpte s virt pte).map (·.2)
  else
    (pagingGetpdePd s virt pagedir).bind fun (pde, s) =>
      pagingPhyswrite s (pde.page * 4096 + 4 * addr2pte virt) pte

/-- `paging_unmap`. -/
def pagingUnmap (s : Machine) (virt : Nat) : Option (Nat × Machine) :=
  (pagingGetpte s virt).bind fun pte =>
    (pagingSetpte s virt blank).map fun (_, s) =>
      (if pte.present then pte.page * 4096 else 0, s)

/-- The entry that `paging_map_pd` writes. -/
def mapPdEntry (phys : Nat) (user writable swappable cow : Bool) : Entry :=
  { blank with
    page := addr2page phys
    existing := true
    user := user
    writable := writable
    present := true
    swappable := swappable
    cow := cow }

/-- `paging_map_pd`, without its return value. A new table is cleared where the loaded
directory maps it, whichever directory it was entered in. -/
def pagingMapPd (s : Machine) (virt phys : Nat) (user writable swappable cow : Bool)
    (pagedir : Nat) : Option Machine :=
  (pagingGetpdePd s virt pagedir).bind fun (pde, s) =>
    (if pde.present then some s
    else
      (memphysAlloc s).bind fun (page, s) =>
        (pagingSetpdePd s virt (tableEntry page) pagedir).bind fun s =>
          s.storePage (pagetablesAddress + addr2pde virt * 4096) fun _ => blank).bind fun s =>
      pagingSetptePd s virt (mapPdEntry phys user writable swappable cow) pagedir

/-- In the loaded directory a table is added as `paging_map` does. -/
theorem map_pd_adds_table (s : Machine) (virt : Nat) : ((memphysAlloc s).bind fun (page, m) =>
    (pagingSetpdePd m virt (tableEntry page) s.curpd).bind fun m =>
      m.storePage (pagetablesAddress + addr2pde virt * 4096) fun _ => blank) = pagingAddTable s virt := by
  rw [pagingAddTable, memphysAlloc]
  cases memphysPop s.mem with
  | none => rfl
  | some taken => simp only [Option.map_some, Option.bind_some, pagingSetpdePd, if_true]

/-- `memphys_free`: a page that finds the page stack full is mapped as its next page. -/
def memphysFree (s : Machine) (addr : Nat) : Option Machine :=
  if addr ≠ 0 ∧ s.mem.stackptr = s.mem.stackend then
    (pagingMap s (stackdataAddress + 4 * s.mem.stackend) addr false true).bind fun (mapped, s) =>
      if mapped then some { s with mem := memphysGrow s.mem addr } else none
  else some { s with mem := memphysPush s.mem addr }

theorem store_frames {s s' : Machine} (ran : s.store virt e = some s') :
    s' = { s with frames := s'.frames } := by
  obtain ⟨frame, -, rfl⟩ := Option.map_eq_some_iff.mp ran
  rfl

theorem setpte_frames (ran : pagingSetpte s virt e = some (ok, s')) :
    s' = { s with frames := s'.frames } := by
  obtain ⟨pde, -, ran⟩ := Option.bind_eq_some_iff.mp ran
  split at ran
  · obtain ⟨t, stored, same⟩ := Option.map_eq_some_iff.mp ran
    cases same
    exact store_frames stored
  · cases ran
    rfl

/-- Besides page tables `paging_map` can only take a page from the stack, for a table. -/
theorem map_frames (ran : pagingMap s virt phys user writable = some (ok, s')) :
    s' = { s with frames := s'.frames } ∨ ∃ page mem, memphysPop s.mem = some (page, mem) ∧
      s' = { s with frames := s'.frames, mem := mem } := by
  obtain ⟨pde, -, ran⟩ := Option.bind_eq_some_iff.mp ran
  obtain ⟨m, readied, set⟩ := Option.bind_eq_some_iff.mp ran
  rw [setpte_frames set]
  split at readied
  · cases readied
    exact Or.inl rfl
  · obtain ⟨⟨page, t⟩, taken, readied⟩ := Option.bind_eq_some_iff.mp readied
    obtain ⟨⟨first, mem⟩, popped, same⟩ := Option.map_eq_some_iff.mp taken
    cases same
    obtain ⟨u, stored, readied⟩ := Option.bind_eq_some_iff.mp readied
    obtain ⟨frame, -, rfl⟩ := Option.map_eq_some_iff.mp readied
    rw [store_frames stored]
    exact Or.inr ⟨page, mem, popped, rfl⟩

end MeinOS.Paging
