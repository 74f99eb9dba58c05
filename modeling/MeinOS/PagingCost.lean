import MeinOS.PagingEntries
import MeinOS.PagingWindow

/-! What the functions of `paging.c` take from the stack of free pages, exactly.

`memphys_pop` panics when no page is left, so a call goes through exactly if the pages it takes
are there. Mapping a page takes one for a page table that is missing. So does moving the window,
which writes one word of the pages in use: the entry of the window, or the directory entry of
its table. -/
namespace MeinOS.Paging
open Memphys Memuser PagingWindow

variable {dirs : List Nat} {s s' m u : Machine} {virt page : Nat}

theorem alloc_takes_one (held : Guarded dirs s) (taken : memphysAlloc s = some (addr, m)) :
    s.mem.stackptr = m.mem.stackptr + 1 := by
  obtain ⟨-, -, -, -, pages, -⟩ := alloc_guarded held taken
  exact taken_count pages

section Tables

/-- The slots for pages from `virt` on that have no page table. -/
def missingSlots (s : Machine) (virt pages : Nat) : Finset Nat :=
  (Finset.range 1023).filter fun i => (s.frames s.curpd i).present = false ∧
    ∃ k < pages, addr2pde (virt + k * 4096) = i

theorem mem_missing_slots : i ∈ missingSlots s virt pages ↔ i < 1023 ∧
    (s.frames s.curpd i).present = false ∧ ∃ k < pages, addr2pde (virt + k * 4096) = i := by
  rw [missingSlots, Finset.mem_filter, Finset.mem_range]

/-- How many page tables have to be added for pages from `virt` on. -/
def missingTables (s : Machine) (virt pages : Nat) : Nat := (missingSlots s virt pages).card

theorem first_slot_missing (slot : addr2pde virt < 1023) (left : Nat) :
    addr2pde virt ∈ missingSlots s virt (left + 1) ↔
      (s.frames s.curpd (addr2pde virt)).present = false := by
  rw [mem_missing_slots]
  constructor
  · rintro ⟨-, absent, -⟩
    exact absent
  · intro absent
    refine ⟨slot, absent, 0, by omega, ?_⟩
    rw [Nat.zero_mul, Nat.add_zero]

/-- What `paging_map` takes from the stack: a page for the table of the slot, if it has none. -/
def tableCost (s : Machine) (virt : Nat) : Nat :=
  if (s.frames s.curpd (addr2pde virt)).present then 0 else 1

theorem alloc_empty (empty : ¬ 1 ≤ s.mem.stackptr) : memphysAlloc s = none := by
  rw [memphysAlloc, memphysPop, if_neg (by omega)]
  rfl

section
variable (held : Guarded dirs s) (inside : virt < 2 ^ 32) (slot : addr2pde virt < 1023)
include held inside slot

theorem ensure_table_cost (ran : ensureTable s virt = some m) :
    s.mem.stackptr = m.mem.stackptr + tableCost s virt := by
  rw [tableCost]
  rw [ensureTable] at ran
  by_cases present : (s.frames s.curpd (addr2pde virt)).present = true
  · rw [if_pos present] at ran ⊢
    cases ran
    rfl
  · rw [if_neg present] at ran ⊢
    obtain ⟨addr, t, taken, rfl⟩ := add_table_spec held.linked inside slot ran
    have cost := alloc_takes_one held taken
    exact cost

/-- The page is mapped if the stack has the page that this takes. -/
theorem map_loaded_goes (phys : Nat) (user writable : Bool)
    (stock : tableCost s virt ≤ s.mem.stackptr) :
    ∃ m, pagingMap s virt phys user writable = some (true, m) := by
  rw [map_eq held inside slot, ensureTable]
  by_cases present : (s.frames s.curpd (addr2pde virt)).present = true
  · rw [if_pos present]
    exact ⟨_, rfl⟩
  · rw [tableCost, if_neg present] at stock
    obtain ⟨addr, t, taken⟩ := PagingWindow.alloc_stock stock
    rw [if_neg present, add_table_eq held.linked inside slot, taken]
    exact ⟨_, rfl⟩

/-- The slot has a table afterwards, and the stack has exactly that page less. -/
theorem map_loaded_cost (ran : pagingMap s virt phys user writable = some (ok, m)) :
    m.curpd = s.curpd ∧ (m.frames s.curpd (addr2pde virt)).present = true ∧
      s.mem.stackptr = m.mem.stackptr + tableCost s virt := by
  rw [map_eq held inside slot] at ran
  obtain ⟨t, readied, same⟩ := Option.map_eq_some_iff.mp ran
  cases same
  have ready := ensure_table held inside slot readied
  have evolves := ready.evolves fun _ => True
  have notDir := evolves.guarded.table_not_dir held.loaded slot ready.present
  have cost := ensure_table_cost held inside slot readied
  refine ⟨evolves.curpd, ?_, cost⟩
  rw [write_other_frame _ _ fun eq : s.curpd = (t.frames s.curpd (addr2pde virt)).page =>
    notDir (eq ▸ held.loaded)]
  exact ready.present

end

/-- With the table of the first page there, those of the other pages are still missing. -/
theorem missing_tables_step (curpd : m.curpd = s.curpd) (slot : addr2pde virt < 1023)
    (present : (m.frames s.curpd (addr2pde virt)).present = true)
    (slots : ∀ i, i ≠ addr2pde virt → m.frames s.curpd i = s.frames s.curpd i) (left : Nat) :
    missingTables s virt (left + 1) = missingTables m (virt + 4096) left + tableCost s virt := by
  have shift : ∀ k, virt + 4096 + k * 4096 = virt + (k + 1) * 4096 := fun k => by ring
  have others : missingSlots m (virt + 4096) left =
      (missingSlots s virt (left + 1)).erase (addr2pde virt) := by
    ext i
    simp only [Finset.mem_erase, mem_missing_slots, curpd, shift]
    constructor
    · rintro ⟨small, absent, k, inside, place⟩
      have other : i ≠ addr2pde virt := by
        rintro rfl
        rw [present] at absent
        cases absent
      rw [slots i other] at absent
      exact ⟨other, small, absent, k + 1, by omega, place⟩
    · rintro ⟨other, small, absent, k, inside, place⟩
      rw [slots i other]
      cases k with
      | zero =>
        rw [Nat.zero_mul, Nat.add_zero] at place
        exact absurd place.symm other
      | succ k => exact ⟨small, absent, k, by omega, place⟩
  rw [missingTables, missingTables, others, tableCost]
  have missing := first_slot_missing (s := s) slot left
  by_cases there : (s.frames s.curpd (addr2pde virt)).present = true
  · rw [there] at missing
    rw [if_pos there, Finset.erase_eq_of_notMem fun member => Bool.noConfusion (missing.mp member)]
    exact (Nat.add_zero _).symm
  · rw [if_neg there,
      Finset.card_erase_add_one (missing.mpr (Bool.eq_false_of_not_eq_true there))]

end Tables

section Window

/-- The window shows the page it is trusted to show. -/
def Shows (dirs : List Nat) (s : Machine) : Prop :=
  s.lastpd ∈ dirs → Maps s s.lastpd 1022 1023 s.lastpage

/-- `paging_physread` has to map the window anew. -/
def WindowMoves (s : Machine) (page : Nat) : Prop := page ≠ s.lastpage ∨ s.curpd ≠ s.lastpd

instance (s : Machine) (page : Nat) : Decidable (WindowMoves s page) :=
  inferInstanceAs (Decidable (_ ∨ _))

/-- The word of a page in use that this writes: the entry of the window, or the directory entry
of the table that it needs. -/
def windowWord (s : Machine) : Nat × Nat :=
  if (s.frames s.curpd 1022).present then ((s.frames s.curpd 1022).page, 1023) else (s.curpd, 1022)

/-- The pages from the stack that this takes. -/
def windowCost (s : Machine) (page : Nat) : Nat :=
  if WindowMoves s page ∧ (s.frames s.curpd 1022).present = false then 1 else 0

/-- The window shows a page. Of the pages in use one word at most is written. -/
structure Turned (s : Machine) (page : Nat) (u : Machine) : Prop where
  curpd : u.curpd = s.curpd
  maps : Maps u s.curpd 1022 1023 page
  fewer : ∀ a ∈ freePages u.mem, a ∈ freePages s.mem
  words : ∀ f w, f * 4096 ∉ freePages s.mem → ¬ (WindowMoves s page ∧ (f, w) = windowWord s) →
    u.frames f w = s.frames f w
  written : WindowMoves s page → u.frames (windowWord s).1 (windowWord s).2 =
    if (s.frames s.curpd 1022).present then mapEntry (page * 4096) false true
    else u.frames s.curpd 1022
  table : (u.frames s.curpd 1022).present = true

/-- What the kernel reads at the window page. -/
theorem Turned.source (turned : Turned s page u) : u.translate bufpageAddress = some page :=
  (translate_bufpage 0 (turned.curpd ▸ turned.maps) (by omega)).1

/-- The window is moved in a table that is there. -/
theorem point_turned (table : (s.frames s.curpd 1022).page ≠ s.curpd)
    (moves : WindowMoves s page) (present : (s.frames s.curpd 1022).present = true) :
    Turned s page (pointWindow s page) := by
  have slots : (pointWindow s page).frames s.curpd = s.frames s.curpd :=
    write_other_frame s _ table.symm
  have word : windowWord s = ((s.frames s.curpd 1022).page, 1023) := if_pos present
  have shows : (pointWindow s page).frames (s.frames s.curpd 1022).page 1023 =
      mapEntry (page * 4096) false true := write_same s _ _ _
  refine ⟨rfl, ?_, fun _ member => member, fun f w _ away => ?_, fun _ => ?_, ?_⟩
  · rw [Maps, slots, shows]
    exact ⟨present, rfl, addr2page_mul page⟩
  · rw [word] at away
    exact write_other s _ fun same => away ⟨moves, same⟩
  · rw [if_pos present, word]
    exact shows
  · rw [slots]
    exact present

/-- The window is mapped in a table that a free page is taken for. -/
theorem link_turned (away : s.curpd ≠ addr2page new)
    (wasFree : addr2page new * 4096 ∈ freePages s.mem)
    (fewer : ∀ a ∈ freePages mem, a ∈ freePages s.mem) (moves : WindowMoves s page)
    (absent : (s.frames s.curpd 1022).present = false) :
    Turned s page (pointWindow (({ s with mem := mem } : Machine).link s.curpd 1022 new) page) := by
  generalize linked : ({ s with mem := mem } : Machine).link s.curpd 1022 new = t
  have curpd : t.curpd = s.curpd := by rw [← linked]; rfl
  have table : t.frames t.curpd 1022 = tableEntry new := by
    rw [curpd, ← linked]
    exact link_new _ away
  have target : (t.frames t.curpd 1022).page = addr2page new := by rw [table]; rfl
  have word : windowWord s = (s.curpd, 1022) := if_neg (by rw [absent]; simp)
  have kept : ∀ f, f ≠ addr2page new → (pointWindow t page).frames f = t.frames f := fun f other =>
    write_other_frame t _ (by rw [target]; exact other)
  have slots : (pointWindow t page).frames s.curpd 1022 = tableEntry new := by
    rw [kept _ away, ← curpd, table]
  have shows : (pointWindow t page).frames (addr2page new) 1023 = mapEntry (page * 4096) false true := by
    rw [← target]
    exact write_same t _ _ _
  refine ⟨curpd, ?_, fun a member => ?_, fun f w used away' => ?_, fun _ => ?_, ?_⟩
  · rw [Maps, slots, show (tableEntry new).page = addr2page new from rfl, shows]
    exact ⟨rfl, rfl, addr2page_mul page⟩
  · rw [← linked] at member
    exact fewer a member
  · have notNew : f ≠ addr2page new := fun same => used (same ▸ wasFree)
    rw [kept f notNew, ← linked]
    exact link_old_slot _ notNew fun same => away' ⟨moves, by rw [word, same]⟩
  · rw [absent, word]
    rfl
  · rw [slots]
    rfl

/-- The page can be shown exactly if the stack has the page that this takes. -/
theorem show_window_turned (page : Nat) (linked : SelfLinked s) (stocked : Stocked s.mem)
    (used : Outside s.mem s.curpd) (table : (s.frames s.curpd 1022).present = true →
      (s.frames s.curpd 1022).page ≠ s.curpd)
    (still : ¬ WindowMoves s page → Maps s s.curpd 1022 1023 page) :
    if windowCost s page ≤ s.mem.stackptr then
      ∃ u, showWindow s (page * 4096) = some u ∧ Turned s page u
    else showWindow s (page * 4096) = none := by
  have number := addr2page_mul page
  have shown : showWindow s (page * 4096) =
      if WindowMoves s page then mapWindow s (page * 4096) else some s := by
    rw [showWindow, number]
    rfl
  rw [shown]
  by_cases moves : WindowMoves s page
  · rw [if_pos moves, map_window_linked linked stocked used, number, withTable]
    by_cases present : (s.frames s.curpd 1022).present = true
    · have free : windowCost s page = 0 := if_neg fun both => by rw [present] at both; cases both.2
      rw [free, if_pos (Nat.zero_le _), if_pos present]
      exact ⟨_, rfl, point_turned (table present) moves present⟩
    · have absent := Bool.eq_false_of_not_eq_true present
      have one : windowCost s page = 1 := if_pos ⟨moves, absent⟩
      rw [one, if_neg present]
      by_cases stock : 1 ≤ s.mem.stackptr
      · obtain ⟨new, a, taken⟩ := alloc_stock stock
        obtain ⟨⟨mem, rfl⟩, -, free, whole, -, -⟩ := alloc_stocked stocked taken
        have wasFree : addr2page new * 4096 ∈ freePages s.mem := by
          rw [whole]
          exact taken_free free
        rw [if_pos stock, taken]
        exact ⟨_, rfl, link_turned (fun same => used.2 (same ▸ wasFree)) wasFree (rest_free free)
          moves absent⟩
      · rw [if_neg stock, alloc_empty stock]
        rfl
  · have free : windowCost s page = 0 := if_neg fun both => moves both.1
    rw [free, if_pos (Nat.zero_le _), if_neg moves]
    have maps := still moves
    exact ⟨s, rfl, rfl, maps, fun _ member => member, fun _ _ _ _ => rfl,
      fun moves' => absurd moves' moves, maps.1⟩

/-- Moving the window writes no directory slot that is in use, and none but its own. -/
theorem slot_not_window (held : Guarded dirs s) (inDirs : d ∈ dirs)
    (other : (d, i) ≠ (s.curpd, 1022) ∨ (s.frames d i).present = true) : (d, i) ≠ windowWord s := by
  rw [windowWord]
  split
  · rename_i window
    intro eq
    exact held.table_not_dir held.loaded (by omega) window ((Prod.mk.inj eq).1 ▸ inDirs)
  · rename_i absent
    intro eq
    rcases other with different | present
    · exact different eq
    · obtain ⟨rfl, rfl⟩ := Prod.mk.inj eq
      exact absent present

end Window

end MeinOS.Paging
