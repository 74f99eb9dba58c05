import MeinOS.Lib.Runs

/-! Physical memory, `kernel2/memphys.c`: the stack of free pages that
`memphys_init` fills from the boot loader's memory map, and the bitmap of the pages
below 16 MB that `memphys_dma_alloc` searches.

Addresses are numbers and NULL is `0`. The words of the page stack are a map from the
entry number, and its pointers are counted in entries from `memphys_stackbase`. -/
namespace MeinOS.Memphys
open Lib Lib.Runs

def pageSize : Nat := 4096

/-- `KERNELPD_ADDRESS`, the first byte after the kernel code. -/
def kernelpdAddress : Nat := 0x300000

/-- The kernel page directory and its two page tables end here. -/
def freephysAddress : Nat := kernelpdAddress + 3 * pageSize

def stackdataAddress : Nat := 0x300000

def memphysDmalimit : Nat := 16 * 2 ^ 20

theorem page_size_eq : pageSize = 4096 := rfl

/-- The global variables of `memphys.c`. -/
structure PhysMem where
  /-- The words from `memphys_stackbase` on. -/
  stack : Nat → Nat
  stackptr : Nat
  stackend : Nat
  /-- The physical page mapped at each page of the stack. -/
  stackPages : Nat → Option Nat
  dmaBitmap : Nat → BitVec 32

/-- The page becomes the next page of the stack. -/
def memphysGrow (m : PhysMem) (addr : Nat) : PhysMem :=
  { m with
    stackPages := Function.update m.stackPages (m.stackend / (pageSize / 4)) (some addr)
    stackend := m.stackend + pageSize / 4 }

/-- `memphys_push`. A page that finds the stack full is used for the stack itself. -/
def memphysPush (m : PhysMem) (addr : Nat) : PhysMem :=
  if addr = 0 then m
  else if m.stackptr = m.stackend then memphysGrow m addr
  else
    { m with
      stack := Function.update m.stack m.stackptr addr
      stackptr := m.stackptr + 1 }

/-- `memphys_pop`; `none` is the panic of an empty stack. The first branch compares
entries with bytes and hands out a virtual address. -/
def memphysPop (m : PhysMem) : Option (Nat × PhysMem) :=
  if 0 < m.stackptr then
    if (m.stackptr : Int) - m.stackend > pageSize then
      let stackend := (m.stackend + 2 ^ 30 - pageSize) % 2 ^ 30
      some (stackdataAddress + 4 * stackend,
        { m with
          stackend := stackend
          stackPages := Function.update m.stackPages (stackend / (pageSize / 4)) none })
    else
      some (m.stack (m.stackptr - 1), { m with stackptr := m.stackptr - 1 })
  else none

/-- `multiboot_mmape_t`. -/
structure MmapEntry where
  base : BitVec 64
  length : BitVec 64
  type : BitVec 32

def multibootFree : BitVec 32 := 1

/-- The pages of one region that `memphys_init` pushes. Base and length are cut to
32 bits by `multiboot_get_mmap`. -/
def regionPages (region : MmapEntry) : List Nat :=
  let addr := (region.base.setWidth 32).toNat
  let size := (region.length.setWidth 32).toNat
  ((List.range (size / pageSize)).map fun j => (addr + j * pageSize) % 2 ^ 32).filter
    (freephysAddress ≤ ·)

/-- `memphys_init`. -/
def memphysInit (mmap : List MmapEntry) : PhysMem :=
  let pages := (mmap.filter (·.type = multibootFree)).flatMap regionPages
  pages.foldl memphysPush
    { stack := fun _ => 0
      stackptr := 0
      stackend := 0
      stackPages := fun _ => none
      dmaBitmap := fun _ => 0 }

/-- A byte of the bitmap after the two `memset`s of `memphys_dma_init`. -/
def dmaInitByte (i : Nat) : BitVec 8 :=
  if i < freephysAddress / (pageSize * 8) then 0xFF else 0

/-- `memphys_dma_init`; the words of the bitmap are little endian. -/
def memphysDmaInit (m : PhysMem) : PhysMem :=
  { m with
    dmaBitmap := fun w =>
      dmaInitByte (4 * w + 3) ++ dmaInitByte (4 * w + 2) ++ dmaInitByte (4 * w + 1) ++
        dmaInitByte (4 * w) }

def dmaUsed (bitmap : Nat → BitVec 32) (i : Nat) : Bool :=
  bitmap (i / 32) &&& (1#32 <<< (i % 32)) != 0

def dmaMark (bitmap : Nat → BitVec 32) (i : Nat) : Nat → BitVec 32 :=
  Function.update bitmap (i / 32) (bitmap (i / 32) ||| (1#32 <<< (i % 32)))

/-- The search loop of `memphys_dma_alloc` over `left` more pages: `found` clear bits
end before page `i`. The result is the page `i - (found - 1)`. -/
def dmaSearch (bitmap : Nat → BitVec 32) (pages : Nat) : Nat → Nat → Nat → Option Nat
  | 0, _, _ => none
  | left + 1, i, found =>
    let found := if dmaUsed bitmap i then 0 else found + 1
    if found = pages then some (i + 1 - found)
    else dmaSearch bitmap pages left (i + 1) found

/-- `memphys_dma_alloc`. -/
def memphysDmaAlloc (m : PhysMem) (pages : Nat) : Nat × PhysMem :=
  match dmaSearch m.dmaBitmap pages (memphysDmalimit / pageSize) 0 0 with
  | none => (0, m)
  | some first =>
    (first * pageSize,
      { m with dmaBitmap := (List.range' first pages).foldl dmaMark m.dmaBitmap })

/-- `memphys_dma_free`. -/
def memphysDmaFree (m : PhysMem) (addr : Nat) : PhysMem :=
  let i := addr / pageSize
  { m with
    dmaBitmap :=
      Function.update m.dmaBitmap (i / 32) (m.dmaBitmap (i / 32) &&& ~~~(1#32 <<< (i % 32))) }

theorem push_dma_bitmap (m : PhysMem) (addr : Nat) :
    (memphysPush m addr).dmaBitmap = m.dmaBitmap := by
  unfold memphysPush
  split
  · rfl
  · split <;> rfl

theorem pop_dma_bitmap {m rest : PhysMem} {page : Nat}
    (popped : memphysPop m = some (page, rest)) : rest.dmaBitmap = m.dmaBitmap := by
  unfold memphysPop at popped
  split at popped
  · split at popped
    all_goals
      simp only [Option.some.injEq, Prod.mk.injEq] at popped
      rw [← popped.2]
  · cases popped

/-- The pages on the stack. -/
def freePages (m : PhysMem) : List Nat := (List.range m.stackptr).map m.stack

theorem push_free_pages {m : PhysMem} {addr : Nat} (real : addr ≠ 0)
    (room : m.stackptr ≠ m.stackend) :
    freePages (memphysPush m addr) = freePages m ++ [addr] := by
  rw [memphysPush, if_neg real, if_neg room, freePages, List.range_succ, List.map_append]
  refine congrArg₂ _ (List.map_congr_left fun i member => ?_) (by simp)
  have below := List.mem_range.mp member
  exact Function.update_of_ne (by omega) _ _

section
variable {m rest : PhysMem} {page : Nat} (bounded : m.stackptr ≤ m.stackend)
  (popped : memphysPop m = some (page, rest))
include bounded popped

/-- As long as the stack stays inside its pages, `memphys_pop` only moves the pointer. -/
theorem pop_eq :
    0 < m.stackptr ∧ page = m.stack (m.stackptr - 1) ∧
      rest = { m with stackptr := m.stackptr - 1 } := by
  have positive : 0 < m.stackptr := by
    by_contra none
    rw [memphysPop, if_neg none] at popped
    cases popped
  have stored : ¬ (m.stackptr : Int) - m.stackend > pageSize := by
    rw [page_size_eq]
    omega
  rw [memphysPop, if_pos positive, if_neg stored] at popped
  obtain ⟨rfl, rfl⟩ := Prod.mk.inj (Option.some.inj popped)
  exact ⟨positive, rfl, rfl⟩

/-- It takes the last entry. -/
theorem pop_spec : freePages m = freePages rest ++ [page] ∧ rest.stackptr ≤ rest.stackend := by
  obtain ⟨positive, rfl, rfl⟩ := pop_eq bounded popped
  obtain ⟨count, last⟩ := Nat.exists_eq_succ_of_ne_zero (Nat.ne_of_gt positive)
  constructor
  · rw [freePages, freePages, last, List.range_succ, List.map_append]
    rfl
  · exact Nat.le_trans (Nat.sub_le _ _) bounded

end

section
variable {m rest : PhysMem} {page : Nat}

theorem rest_free {taken : List Nat} (pages : freePages m = freePages rest ++ taken) :
    ∀ a ∈ freePages rest, a ∈ freePages m := by
  intro a member
  rw [pages]
  exact List.mem_append_left _ member

variable (pages : freePages m = freePages rest ++ [page])
include pages

theorem taken_free : page ∈ freePages m := by
  rw [pages]
  exact List.mem_append_right _ List.mem_cons_self

theorem taken_count : m.stackptr = rest.stackptr + 1 := by
  simpa [freePages] using congrArg List.length pages

end

/-- There are fewer than 2^20 different pages besides page 0. -/
theorem pages_short {pages : List Nat} (nodup : pages.Nodup)
    (aligned : ∀ a ∈ pages, a % 4096 = 0 ∧ a ≠ 0 ∧ a < 2 ^ 32) : pages.length < 2 ^ 20 := by
  have numbers : (pages.map (· / 4096)).Nodup := by
    refine nodup.map_on fun a inA b inB same => ?_
    have wholeA := (aligned a inA).1
    have wholeB := (aligned b inB).1
    omega
  have inside : (pages.map (· / 4096)).toFinset ⊆ Finset.Ico 1 (2 ^ 20) := by
    intro page member
    obtain ⟨a, inA, rfl⟩ := List.mem_map.mp (List.mem_toFinset.mp member)
    obtain ⟨whole, real, bound⟩ := aligned a inA
    rw [Finset.mem_Ico]
    omega
  have count := Finset.card_le_card inside
  rw [List.toFinset_card_of_nodup numbers, Nat.card_Ico, List.length_map] at count
  omega

/-- A run of `pages` clear bits from `first` on. -/
def ClearRun (bitmap : Nat → BitVec 32) (first pages : Nat) : Prop :=
  ∀ i, first ≤ i → i < first + pages → dmaUsed bitmap i = false

/-- The search finds the first clear run of that length, if there is one. -/
theorem dma_search_spec (bitmap : Nat → BitVec 32) (pages left i found : Nat)
    (before : found ≤ i) (short : found < pages) (clear : ClearRun bitmap (i - found) found) :
    match dmaSearch bitmap pages left i found with
    | none => ∀ first, i - found ≤ first → first + pages ≤ i + left → ¬ ClearRun bitmap first pages
    | some start => ClearRun bitmap start pages ∧ start + pages ≤ i + left ∧
        ∀ first, i - found ≤ first → first < start → ¬ ClearRun bitmap first pages := by
  induction left generalizing i found with
  | zero =>
    intro first after fits
    omega
  | succ left ih =>
    rw [dmaSearch]
    cases bit : dmaUsed bitmap i with
    | true =>
      have skipped : ∀ first, i - found ≤ first → first ≤ i → ¬ ClearRun bitmap first pages := by
        intro first after upto clearFirst
        have wrong := clearFirst i upto (by omega)
        rw [bit] at wrong
        cases wrong
      have rest := ih (i + 1) 0 (by omega) (by omega) (by intro j lower upper; omega)
      rw [if_pos rfl, if_neg (by omega)]
      cases result : dmaSearch bitmap pages left (i + 1) 0 with
      | none =>
        rw [result] at rest
        intro first after fits
        by_cases upto : first ≤ i
        · exact skipped first after upto
        · exact rest first (by omega) (by omega)
      | some start =>
        rw [result] at rest
        obtain ⟨clearStart, fits, least⟩ := rest
        refine ⟨clearStart, by omega, fun first after earlier => ?_⟩
        by_cases upto : first ≤ i
        · exact skipped first after upto
        · exact least first (by omega) earlier
    | false =>
      have longer : ClearRun bitmap (i + 1 - (found + 1)) (found + 1) := by
        intro j lower upper
        by_cases last : j = i
        · rw [last]
          exact bit
        · exact clear j (by omega) (by omega)
      rw [if_neg Bool.false_ne_true]
      by_cases complete : found + 1 = pages
      · rw [if_pos complete]
        refine ⟨complete ▸ longer, by omega, fun first after earlier => ?_⟩
        omega
      · rw [if_neg complete]
        have rest := ih (i + 1) (found + 1) (by omega) (by omega) longer
        have same : i + 1 - (found + 1) = i - found := by omega
        have total : i + 1 + left = i + (left + 1) := by omega
        rwa [same, total] at rest

theorem dma_init_word (m : PhysMem) (w : Nat) :
    (memphysDmaInit m).dmaBitmap w = if w < 24 then 0xFFFFFFFF#32 else 0#32 := by
  have marked : freephysAddress / (pageSize * 8) = 96 := by decide
  simp only [memphysDmaInit, dmaInitByte, marked]
  by_cases low : w < 24
  · rw [if_pos low, if_pos (by omega), if_pos (by omega), if_pos (by omega), if_pos (by omega)]
    decide
  · rw [if_neg low, if_neg (by omega), if_neg (by omega), if_neg (by omega), if_neg (by omega)]
    decide

/-- The first `memset` of `memphys_dma_init` ends at a byte of the bitmap, three pages
before `FREEPHYS_ADDRESS`. -/
theorem dma_init_used (m : PhysMem) (i : Nat) :
    dmaUsed (memphysDmaInit m).dmaBitmap i = decide (i < 768) := by
  have bit : ∀ k < 32, (0xFFFFFFFF#32 &&& (1#32 <<< k) != 0) = true := by decide
  rw [dmaUsed, dma_init_word]
  by_cases low : i < 768
  · rw [if_pos (by omega), bit (i % 32) (Nat.mod_lt i (by decide)), decide_eq_true low]
  · rw [if_neg (by omega), BitVec.zero_and, decide_eq_false low]
    rfl

section
variable {bitmap : Nat → BitVec 32} {pages : Nat} (fresh : ∀ i, dmaUsed bitmap i = decide (i < 768))
include fresh

/-- More pages than `memphys_dma_init` leaves clear are refused. -/
theorem dma_search_refuses (large : 3328 < pages) :
    dmaSearch bitmap pages (memphysDmalimit / pageSize) 0 0 = none := by
  have limit : memphysDmalimit / pageSize = 4096 := by decide
  rw [limit]
  have spec := dma_search_spec bitmap pages 4096 0 0
    (Nat.le_refl 0) (by omega) (by intro i lower upper; omega)
  cases result : dmaSearch bitmap pages 4096 0 0 with
  | none => rfl
  | some first =>
    rw [result] at spec
    obtain ⟨clear, fits, -⟩ := spec
    have above := clear first (Nat.le_refl first) (by omega)
    rw [fresh, decide_eq_false_iff_not] at above
    omega

/-- Any other request succeeds, and with the kernel page directory or a lower page. -/
theorem dma_search_grants (small : pages ≤ 3328) :
    ∃ first, dmaSearch bitmap pages (memphysDmalimit / pageSize) 0 0 = some first ∧
      0 < first ∧ first ≤ 768 := by
  have limit : memphysDmalimit / pageSize = 4095 + 1 := by decide
  rw [limit]
  by_cases asked : pages = 0
  · refine ⟨1, ?_, by omega, by omega⟩
    rw [dmaSearch, fresh 0, asked]
    rfl
  · have spec := dma_search_spec bitmap pages 4096 0 0
      (Nat.le_refl 0) (by omega) (by intro i lower upper; omega)
    have clear : ClearRun bitmap 768 pages := by
      intro i lower upper
      rw [fresh, decide_eq_false_iff_not]
      omega
    cases result : dmaSearch bitmap pages 4096 0 0 with
    | none =>
      rw [result] at spec
      exact absurd clear (spec 768 (by omega) (by omega))
    | some first =>
      rw [result] at spec
      obtain ⟨clearFirst, -, least⟩ := spec
      have above := clearFirst first (Nat.le_refl first) (by omega)
      rw [fresh, decide_eq_false_iff_not] at above
      refine ⟨first, rfl, by omega, ?_⟩
      by_contra later
      exact least 768 (by omega) (by omega) clear

end

/-- The allocators with the pages each of them has handed out and not taken back,
and every address that `memphys_dma_alloc` has returned. -/
structure Owners where
  mem : PhysMem
  owned : List Nat
  dmaOwned : List Nat
  dmaReturned : List Nat

inductive Event where
  | alloc
  | free (page : Nat)
  | dmaAlloc (pages : Nat)
  | dmaFree (page : Nat)
  deriving DecidableEq

/-- One call of an allocator; a page is freed by the one that owns it. A page that becomes one of
the stack is mapped in the 4 MB from `STACKDATA_ADDRESS` on. These are in the first two page tables,
which are there since boot, so that `paging_map` takes no page for a table. -/
def step (w : Owners) : Event → Option Owners
  | .alloc => (memphysPop w.mem).map fun (page, mem) =>
      { w with mem := mem, owned := page :: w.owned }
  | .free page => onlyIf (page ∈ w.owned)
      { w with mem := memphysPush w.mem page, owned := w.owned.erase page }
  | .dmaAlloc pages =>
    let (addr, mem) := memphysDmaAlloc w.mem pages
    some (if addr = 0 then { w with mem := mem }
      else
        { w with
          mem := mem
          dmaOwned := (List.range pages).map (addr + · * pageSize) ++ w.dmaOwned
          dmaReturned := addr :: w.dmaReturned })
  | .dmaFree page => onlyIf (page ∈ w.dmaOwned)
      { w with mem := memphysDmaFree w.mem page, dmaOwned := w.dmaOwned.erase page }

/-- The machine after `memphys_init` and `memphys_dma_init`. -/
def boot (mmap : List MmapEntry) : Owners where
  mem := memphysDmaInit (memphysInit mmap)
  owned := []
  dmaOwned := []
  dmaReturned := []

/-- No page has two owners, and no DMA page lies below the free memory. -/
def Separate (w : Owners) : Prop :=
  (∀ page ∈ w.owned, page ∉ w.dmaOwned) ∧ ∀ addr ∈ w.dmaReturned, freephysAddress ≤ addr

/-- A DMA request asks for more pages than the bitmap has clear after its
initialisation: 4096 pages lie below the limit and 768 of them are marked. -/
def Oversized (_ : Owners) : Event → Prop
  | .dmaAlloc pages => 4096 - 768 < pages
  | _ => True

instance (w : Owners) (e : Event) : Decidable (Oversized w e) := by
  cases e <;> unfold Oversized <;> infer_instance

/-- No DMA page has been handed out. -/
structure NoDmaPage (w : Owners) : Prop where
  fresh : ∀ i, dmaUsed w.mem.dmaBitmap i = decide (i < 768)
  noneOwned : w.dmaOwned = []
  noneReturned : w.dmaReturned = []

theorem NoDmaPage.separate {w : Owners} (held : NoDmaPage w) : Separate w := by
  rw [Separate, held.noneOwned, held.noneReturned]
  simp

theorem dma_alloc_returns (w : Owners) (pages : Nat) :
    ∃ next, step w (.dmaAlloc pages) = some next :=
  ⟨_, rfl⟩

theorem step_no_dma_page (w : Owners) (e : Event) (next : Owners) (held : NoDmaPage w)
    (met : Oversized w e) (ran : step w e = some next) : NoDmaPage next := by
  cases e with
  | alloc =>
    obtain ⟨⟨page, mem⟩, popped, rfl⟩ := Option.map_eq_some_iff.mp ran
    refine ⟨?_, held.noneOwned, held.noneReturned⟩
    rw [pop_dma_bitmap popped]
    exact held.fresh
  | free page =>
    obtain ⟨-, rfl⟩ := onlyIf_eq_some ran
    refine ⟨?_, held.noneOwned, held.noneReturned⟩
    rw [push_dma_bitmap]
    exact held.fresh
  | dmaAlloc pages =>
    simp only [step, memphysDmaAlloc, dma_search_refuses held.fresh met] at ran
    cases ran
    exact ⟨held.fresh, held.noneOwned, held.noneReturned⟩
  | dmaFree page =>
    obtain ⟨member, -⟩ := onlyIf_eq_some ran
    rw [held.noneOwned] at member
    cases member

theorem first_dma_page_is_low (w : Owners) (e : Event) (next : Owners) (held : NoDmaPage w)
    (unmet : ¬ Oversized w e) (ran : step w e = some next) : ¬ Separate next := by
  cases e with
  | dmaAlloc pages =>
    obtain ⟨first, found, positive, low⟩ := dma_search_grants held.fresh (Nat.le_of_not_lt unmet)
    have address : first * pageSize ≠ 0 := by
      rw [page_size_eq]
      omega
    simp only [step, memphysDmaAlloc, found, if_neg address] at ran
    cases ran
    rintro ⟨-, above⟩
    have bound : 3158016 ≤ first * 4096 := above (first * pageSize) List.mem_cons_self
    omega
  | alloc | free | dmaFree => exact absurd trivial unmet

theorem boot_no_dma_page (mmap : List MmapEntry) : NoDmaPage (boot mmap) :=
  ⟨dma_init_used (memphysInit mmap), rfl, rfl⟩

/-- The two allocators stay apart in exactly the runs in which every DMA request is
too large to be granted: the first page that `memphys_dma_alloc` returns is the
kernel's page directory or a page below it. -/
theorem allocators_separate_iff_oversized (mmap : List MmapEntry) (events : List Event)
    (ran : run step (boot mmap) events = some w) :
    Throughout step Separate (boot mmap) events ↔ Along step Oversized (boot mmap) events :=
  throughout_iff_along (fun _ => NoDmaPage.separate) step_no_dma_page first_dma_page_is_low
    (boot_no_dma_page mmap) ran

/-- Eight free pages from the kernel page directory on. -/
def eightPages : List MmapEntry := [⟨0x300000, 0x8000, multibootFree⟩]

/-- After one page from each allocator, the page 0x307000 has two owners and the DMA
memory starts with the kernel page directory. -/
theorem dma_page_is_owned_twice : ∃ w,
    run step (boot eightPages) [.alloc, .dmaAlloc 8] = some w ∧
      0x307000 ∈ w.owned ∧ 0x307000 ∈ w.dmaOwned ∧ w.dmaReturned = [kernelpdAddress] ∧
      kernelpdAddress < freephysAddress ∧ ¬ Separate w := by
  refine reached_of (P := fun w => 0x307000 ∈ w.owned ∧ 0x307000 ∈ w.dmaOwned ∧
    w.dmaReturned = [kernelpdAddress]) (by decide +kernel) ?_
  rintro w ran ⟨owned, dmaOwned, returned⟩
  refine ⟨owned, dmaOwned, returned, by decide, ?_⟩
  rintro ⟨-, above⟩
  have bound := above kernelpdAddress (by rw [returned]; decide)
  exact absurd bound (by decide)

/-- A run with a DMA request for 4000 pages, which is refused. -/
theorem refused_dma_run_is_separate :
    Along step Oversized (boot eightPages) [.alloc, .free 0x307000, .alloc, .dmaAlloc 4000] ∧
      Throughout step Separate (boot eightPages)
        [.alloc, .free 0x307000, .alloc, .dmaAlloc 4000] := by
  have met : Along step Oversized (boot eightPages)
      [.alloc, .free 0x307000, .alloc, .dmaAlloc 4000] :=
    along_of_forall (by simp [Oversized])
  have reached : (run step (boot eightPages) [.alloc, .free 0x307000, .alloc]).isSome := by
    decide +kernel
  obtain ⟨m, ran⟩ := Option.isSome_iff_exists.mp reached
  obtain ⟨w, last⟩ := dma_alloc_returns m 4000
  have whole : run step (boot eightPages) [.alloc, .free 0x307000, .alloc, .dmaAlloc 4000] =
      some w := by
    rw [show [Event.alloc, .free 0x307000, .alloc, .dmaAlloc 4000] =
      [.alloc, .free 0x307000, .alloc] ++ [.dmaAlloc 4000] from rfl, run_append, ran,
      Option.bind_some, run_cons, last, Option.bind_some, run_nil]
  exact ⟨met, (allocators_separate_iff_oversized eightPages _ whole).mpr met⟩

end MeinOS.Memphys
