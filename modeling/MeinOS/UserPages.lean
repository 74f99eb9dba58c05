import MeinOS.MemuserFindvirt
import MeinOS.PagingUser

/-! Single pages of the loaded address space at any 32 bit address: what `paging_map` and
`paging_unmap` write, also where the address is none of user memory.

Nothing is assumed of the tables but that the loaded directory maps itself, so that an
unmapping may clear a word of a page directory, even the one through which the directory
is reached. -/
namespace MeinOS.Paging
open Memphys Memuser

variable {s s' m : Machine} {virt p q i j : Nat} {e : Entry}

/-- The page of a mapped entry, as `paging_unmap` returns it. -/
def frameOf (e : Entry) : Nat := if e.present then e.page else 0

/-- What `paging_unmap` leaves: the entry of the page is blank where it has a table. -/
def clearPage (s : Machine) (p : Nat) : Machine :=
  if (s.frames s.curpd (p / 1024)).present then
    s.write (s.frames s.curpd (p / 1024)).page (p % 1024) blank
  else s

/-- The pages at `n` addresses from `virt` on, each of 32 bits. -/
def visited : Nat → Nat → List Nat
  | _, 0 => []
  | virt, n + 1 => addr2page (virt % 2 ^ 32) :: visited (virt + 4096) n

theorem visited_mem : p ∈ visited virt n ↔ ∃ k < n, p = (addr2page virt + k) % 2 ^ 20 := by
  induction n generalizing virt with
  | zero => simp [visited]
  | succ n ih =>
    have head : addr2page (virt % 2 ^ 32) = addr2page virt % 2 ^ 20 := by
      rw [addr2page, addr2page]
      omega
    rw [visited, List.mem_cons, ih, head, addr2page_next]
    constructor
    · rintro (rfl | ⟨k, small, rfl⟩)
      · exact ⟨0, by omega, rfl⟩
      · exact ⟨k + 1, by omega, by rw [Nat.add_assoc, Nat.add_comm 1]⟩
    · rintro ⟨k, small, rfl⟩
      cases k with
      | zero => exact Or.inl rfl
      | succ k => exact Or.inr ⟨k, by omega, by rw [Nat.add_assoc, Nat.add_comm 1]⟩

theorem visited_nodup (small : n ≤ 2 ^ 20) : (visited virt n).Nodup := by
  induction n generalizing virt with
  | zero => exact List.nodup_nil
  | succ n ih =>
    rw [visited, List.nodup_cons]
    refine ⟨fun again => ?_, ih (by omega)⟩
    obtain ⟨k, less, eq⟩ := visited_mem.mp again
    rw [addr2page, addr2page] at eq
    omega

section Clear

@[simp] theorem clear_curpd (s : Machine) (p : Nat) : (clearPage s p).curpd = s.curpd := by
  rw [clearPage]
  split <;> rfl

@[simp] theorem clear_mem (s : Machine) (p : Nat) : (clearPage s p).mem = s.mem := by
  rw [clearPage]
  split <;> rfl

theorem clear_with_mem (s : Machine) (mem : PhysMem) (p : Nat) :
    clearPage { s with mem := mem } p = { clearPage s p with mem := mem } := by
  rw [clearPage, clearPage]
  split <;> rfl

/-- Every word is as before or blank. -/
theorem clear_word (s : Machine) (p f k : Nat) :
    (clearPage s p).frames f k = s.frames f k ∨ (clearPage s p).frames f k = blank := by
  rw [clearPage]
  split
  · by_cases here : (f, k) = ((s.frames s.curpd (p / 1024)).page, p % 1024)
    · obtain ⟨rfl, rfl⟩ := Prod.mk.inj here
      exact Or.inr (write_same _ _ _ _)
    · exact Or.inl (write_other s blank here)
  · exact Or.inl rfl

theorem entry_blank (absent : (s.frames d i).present = false) : entry s d i j = blank := by
  rw [entry, absent]
  rfl

/-- A blank entry stays blank, whatever is cleared. -/
theorem blank_clear (d : Nat) (was : pageEntry s d q = blank) :
    pageEntry (clearPage s p) d q = blank := by
  rw [pageEntry] at was ⊢
  rcases clear_word s p d (q / 1024) with same | new
  · rw [entry] at was ⊢
    rw [same]
    split
    · rename_i present
      rw [if_pos present] at was
      rcases clear_word s p (s.frames d (q / 1024)).page (q % 1024) with word | word
      · rw [word, was]
      · exact word
    · rfl
  · apply entry_blank
    rw [new]
    rfl

/-- The entry that is cleared is blank. -/
theorem clear_blank (s : Machine) (p : Nat) : pageEntry (clearPage s p) s.curpd p = blank := by
  rw [pageEntry]
  cases present : (s.frames s.curpd (p / 1024)).present with
  | false =>
    rw [clearPage, present]
    exact entry_blank present
  | true =>
    rcases clear_word s p s.curpd (p / 1024) with same | new
    · rw [entry, same, present, clearPage, present]
      exact write_same _ _ _ _
    · apply entry_blank
      rw [new]
      rfl

theorem clear_linked (linked : SelfLinked s) (p : Nat) :
    SelfLinked (clearPage s p) ∨ ((clearPage s p).frames s.curpd 1023).present = false := by
  rcases clear_word s p s.curpd 1023 with same | new
  · left
    rw [SelfLinked, clear_curpd, same]
    exact linked
  · right
    rw [new]
    rfl

/-- All pages of a list are cleared, one after the other. -/
def clearPages (s : Machine) (pages : List Nat) : Machine := pages.foldl clearPage s

@[simp] theorem clear_pages_mem (s : Machine) (pages : List Nat) :
    (clearPages s pages).mem = s.mem := by
  induction pages generalizing s with
  | nil => rfl
  | cons p pages ih => exact (ih (clearPage s p)).trans (clear_mem s p)

theorem blank_clear_pages (d : Nat) (pages : List Nat) (was : pageEntry s d q = blank) :
    pageEntry (clearPages s pages) d q = blank := by
  induction pages generalizing s with
  | nil => exact was
  | cons p pages ih => exact ih (blank_clear d was)

theorem clear_pages_blank (pages : List Nat) (member : q ∈ pages) :
    pageEntry (clearPages s pages) s.curpd q = blank := by
  induction pages generalizing s with
  | nil => cases member
  | cons p pages ih =>
    rcases List.mem_cons.mp member with rfl | later
    · exact blank_clear_pages s.curpd pages (clear_blank s q)
    · have rest := ih (s := clearPage s p) later
      rw [clear_curpd] at rest
      exact rest

end Clear

section Unmap

theorem unmap_eq (linked : SelfLinked s) (inside : virt < 2 ^ 32) :
    pagingUnmap s virt =
      some (frameOf (pageEntry s s.curpd (addr2page virt)) * 4096, clearPage s (addr2page virt)) := by
  rw [unmap_result linked inside, frameOf, ite_mul, Nat.zero_mul]
  rfl

/-- Once the directory cannot be reached, the next look into it is a page fault. -/
theorem getpde_faults (absent : (s.frames s.curpd 1023).present = false) (inside : virt < 2 ^ 32) :
    pagingGetpde s virt = none := by
  have slot : addr2pde (pagedirAddress + 4 * addr2pde virt) = 1023 := by
    have small := addr2pde_lt inside
    generalize addr2pde virt = k at small
    rw [addr2pde, addr2page, pagedirAddress]
    omega
  have none : s.translate (pagedirAddress + 4 * addr2pde virt) = none := by
    simp [Machine.translate, slot, absent]
  rw [pagingGetpde, Machine.load, none]
  rfl

theorem unmap_faults (absent : (s.frames s.curpd 1023).present = false) (inside : virt < 2 ^ 32) :
    pagingUnmap s virt = none := by
  rw [pagingUnmap, pagingGetpte, getpde_faults absent inside]
  rfl

end Unmap

/-- What a walk through the loaded directory rests on: it maps itself, and neither it nor
a table of it is free. -/
structure Walkable (s : Machine) : Prop extends Stocked s.mem where
  linked : SelfLinked s
  loaded : s.curpd * 4096 ∉ freePages s.mem
  tables : ∀ i < 1023, (s.frames s.curpd i).present = true →
    (s.frames s.curpd i).page ≠ s.curpd ∧ (s.frames s.curpd i).page * 4096 ∉ freePages s.mem

theorem Guarded.walkable (held : Guarded dirs s) : Walkable s where
  toStocked := held.toStocked
  linked := held.linked
  loaded := (held.dir_outside held.loaded).2
  tables i slot present :=
    ⟨fun eq => held.table_not_dir held.loaded slot present (eq.symm ▸ held.loaded),
      (held.table_outside ⟨s.curpd, held.loaded, i, by omega, present, rfl⟩).2⟩

/-- A slot of a directory has got a table that was free. -/
def NewTable (s s' : Machine) (d k : Nat) : Prop :=
  (s.frames d k).present = false ∧
    ∃ addr ∈ freePages s.mem, addr ∉ freePages s'.mem ∧ s'.frames d k = tableEntry addr

/-- Entry `j` of slot `i` of the loaded directory is `e`. All other words are as before, but
for those of pages that were free and for the slot itself if it had no table. -/
structure Mapped (s s' : Machine) (i j : Nat) (e : Entry) : Prop where
  walkable : Walkable s'
  curpd : s'.curpd = s.curpd
  dma : s'.mem.dmaBitmap = s.mem.dmaBitmap
  fewer : ∀ a ∈ freePages s'.mem, a ∈ freePages s.mem
  present : (s'.frames s.curpd i).present = true
  words : ∀ k, s'.frames s.curpd k = s.frames s.curpd k ∨ k = i ∧ NewTable s s' s.curpd k
  others : ∀ f k, f ≠ s.curpd → f * 4096 ∉ freePages s.mem →
    (f, k) ≠ ((s'.frames s.curpd i).page, j) → s'.frames f k = s.frames f k
  written : s'.frames (s'.frames s.curpd i).page j = e

section Map

theorem Walkable.of_words (held : Walkable s) (mem : s'.mem = s.mem) (curpd : s'.curpd = s.curpd)
    (words : ∀ k, s'.frames s.curpd k = s.frames s.curpd k) : Walkable s' where
  toStocked := by
    rw [mem]
    exact held.toStocked
  linked := by
    rw [SelfLinked, curpd, words]
    exact held.linked
  loaded := by
    rw [curpd, mem]
    exact held.loaded
  tables i slot present := by
    rw [curpd, words] at present ⊢
    rw [mem]
    exact held.tables i slot present

theorem write_mapped (held : Walkable s) (slot : i < 1023)
    (present : (s.frames s.curpd i).present = true) :
    Mapped s (s.write (s.frames s.curpd i).page j e) i j e := by
  have own : s.curpd ≠ (s.frames s.curpd i).page := (held.tables i slot present).1.symm
  have same : (s.write (s.frames s.curpd i).page j e).frames s.curpd = s.frames s.curpd :=
    write_other_frame s e own
  refine ⟨held.of_words rfl rfl fun k => congrFun same k, rfl, rfl, fun _ member => member, ?_,
    fun k => Or.inl (congrFun same k), fun f k _ _ other => ?_, ?_⟩
  · rw [same]
    exact present
  · rw [same] at other
    exact write_other s e other
  · rw [same, write_same]

/-- A new table in a slot of the loaded directory. -/
theorem link_walkable (held : Walkable s) (slot : i < 1023)
    (absent : (s.frames s.curpd i).present = false) (taken : memphysAlloc s = some (addr, m)) :
    Walkable (m.link s.curpd i addr) ∧ NewTable s (m.link s.curpd i addr) s.curpd i ∧
      m.mem.dmaBitmap = s.mem.dmaBitmap ∧
      (∀ a ∈ freePages m.mem, a ∈ freePages s.mem) ∧
      (∀ k ≠ i, (m.link s.curpd i addr).frames s.curpd k = s.frames s.curpd k) ∧
      ∀ f ≠ s.curpd, f * 4096 ∉ freePages s.mem →
        (m.link s.curpd i addr).frames f = s.frames f := by
  obtain ⟨⟨page, rest⟩, popped, same⟩ := Option.map_eq_some_iff.mp taken
  obtain ⟨⟨mem, rfl⟩, stocked, pages, whole, -, outside⟩ := alloc_stocked held.toStocked taken
  have mems : rest = mem := congrArg Machine.mem (Prod.mk.inj same).2
  have fewer := rest_free pages
  have wasFree := taken_free pages
  have own : s.curpd ≠ addr2page addr := by
    intro eq
    apply held.loaded
    rw [eq, whole]
    exact wasFree
  have words : ∀ k ≠ i, ({ s with mem := mem }.link s.curpd i addr).frames s.curpd k =
      s.frames s.curpd k := by
    intro k other
    exact link_old_slot _ own fun eq => other (Prod.mk.inj eq).2
  have new := link_new (i := i) { s with mem := mem } own
  have gone : addr ∉ freePages mem := by
    rw [← whole]
    exact outside.2
  refine ⟨⟨stocked, ?_, fun free => held.loaded (fewer _ free), ?_⟩,
    ⟨absent, addr, wasFree, gone, new⟩, ?_, fewer, words, ?_⟩
  · have last := words 1023 (by omega)
    change (({ s with mem := mem }.link s.curpd i addr).frames s.curpd 1023).present = true ∧
      (({ s with mem := mem }.link s.curpd i addr).frames s.curpd 1023).page = s.curpd
    rw [last]
    exact held.linked
  · intro k slot' present
    by_cases here : k = i
    · subst here
      change (({ s with mem := mem }.link s.curpd k addr).frames s.curpd k).page ≠ s.curpd ∧
        (({ s with mem := mem }.link s.curpd k addr).frames s.curpd k).page * 4096 ∉ freePages mem
      rw [new]
      exact ⟨own.symm, outside.2⟩
    · have old := words k here
      change (({ s with mem := mem }.link s.curpd i addr).frames s.curpd k).present = true at present
      change (({ s with mem := mem }.link s.curpd i addr).frames s.curpd k).page ≠ s.curpd ∧
        (({ s with mem := mem }.link s.curpd i addr).frames s.curpd k).page * 4096 ∉ freePages mem
      rw [old] at present ⊢
      obtain ⟨notDir, used⟩ := held.tables k slot' present
      exact ⟨notDir, fun free => used (fewer _ free)⟩
  · rw [← mems]
    exact pop_dma_bitmap popped
  · intro f notDir used
    refine link_old_frame _ (fun eq => used ?_) notDir
    rw [eq, whole]
    exact wasFree

/-- Writing into a table that was added just before. -/
theorem Mapped.of_link (mapped : Mapped t s' i j e) (same : t.curpd = s.curpd)
    (new : NewTable s t s.curpd i) (dma : t.mem.dmaBitmap = s.mem.dmaBitmap)
    (fewer : ∀ a ∈ freePages t.mem, a ∈ freePages s.mem)
    (words : ∀ k ≠ i, t.frames s.curpd k = s.frames s.curpd k)
    (others : ∀ f ≠ s.curpd, f * 4096 ∉ freePages s.mem → t.frames f = s.frames f) :
    Mapped s s' i j e := by
  obtain ⟨walkable', curpd', dma', fewer', present', words', others', written'⟩ := mapped
  rw [same] at curpd' present' words' others' written'
  obtain ⟨absent, page, wasFree, gone, entry⟩ := new
  refine ⟨walkable', curpd', dma'.trans dma, fun a member => fewer a (fewer' a member), present',
    fun k => ?_, fun f k notDir used other => ?_, written'⟩
  · rcases words' k with old | ⟨rfl, missing, -⟩
    · by_cases here : k = i
      · subst here
        exact Or.inr ⟨rfl, absent, page, wasFree, fun free => gone (fewer' _ free), old.trans entry⟩
      · exact Or.inl (old.trans (words k here))
    · rw [entry] at missing
      cases missing
  · rw [others' f k notDir (fun free => used (fewer _ free)) other, others f notDir used]

/-- `paging_map` below the page tables. -/
theorem map_mapped (held : Walkable s) (inside : virt < 2 ^ 32) (slot : addr2pde virt < 1023)
    (ran : pagingMap s virt phys u w = some (ok, s')) :
    Mapped s s' (addr2pde virt) (addr2pte virt) (mapEntry phys u w) := by
  cases present : (s.frames s.curpd (addr2pde virt)).present with
  | true =>
    rw [map_present held.linked phys u w inside present] at ran
    cases ran
    exact write_mapped held slot present
  | false =>
    rw [pagingMap, getpde_eq held.linked inside, Option.bind_some, present, if_neg Bool.false_ne_true]
      at ran
    obtain ⟨t, readied, ran⟩ := Option.bind_eq_some_iff.mp ran
    obtain ⟨addr, m, taken, rfl⟩ := add_table_spec held.linked inside slot readied
    obtain ⟨walkable, new, dma, fewer, words, others⟩ := link_walkable held slot present taken
    have same : (m.link s.curpd (addr2pde virt) addr).curpd = s.curpd := by
      obtain ⟨⟨mem, rfl⟩, -⟩ := alloc_stocked held.toStocked taken
      rfl
    have there : ((m.link s.curpd (addr2pde virt) addr).frames
        (m.link s.curpd (addr2pde virt) addr).curpd (addr2pde virt)).present = true := by
      obtain ⟨-, _, -, -, entry⟩ := new
      rw [same, entry]
      rfl
    rw [setpte_eq walkable.linked inside, if_pos there] at ran
    cases ran
    exact (write_mapped walkable slot there).of_link same new dma fewer words others

/-- `paging_map` of a page at which the page tables show: it writes a word of the directory. -/
theorem map_directory (linked : SelfLinked s) (inside : virt < 2 ^ 32) (slot : addr2pde virt = 1023)
    (phys : Nat) (u w : Bool) :
    pagingMap s virt phys u w =
      some (true, s.write s.curpd (addr2pte virt) (mapEntry phys u w)) := by
  rw [map_present linked phys u w inside (slot ▸ linked.1), slot, linked.2]

end Map

/-- A table of user memory in the loaded directory. -/
def UserTable (s : Machine) (f : Nat) : Prop :=
  ∃ i, 256 ≤ i ∧ i < 1023 ∧ (s.frames s.curpd i).present = true ∧ (s.frames s.curpd i).page = f

/-- Of the pages in use only the tables of user memory have changed, and of the loaded
directory only slots that had no table. -/
structure UserChanged (s s' : Machine) : Prop where
  walkable : Walkable s'
  curpd : s'.curpd = s.curpd
  fewer : ∀ a ∈ freePages s'.mem, a ∈ freePages s.mem
  words : ∀ k, s'.frames s.curpd k = s.frames s.curpd k ∨
    256 ≤ k ∧ k < 1023 ∧ NewTable s s' s.curpd k
  others : ∀ f ≠ s.curpd, f * 4096 ∉ freePages s.mem → ¬ UserTable s f → s'.frames f = s.frames f

section UserChanged

theorem UserChanged.refl (held : Walkable s) : UserChanged s s :=
  ⟨held, rfl, fun _ member => member, fun _ => Or.inl rfl, fun _ _ _ _ => rfl⟩

theorem Stocked.whole (held : Stocked mem) (member : addr ∈ freePages mem) :
    addr2page addr * 4096 = addr := by
  have aligned := (held.aligned addr member).1
  rw [addr2page]
  omega

/-- A table of user memory that was none before was free. -/
theorem user_table_new (held : Stocked s.mem) (curpd : m.curpd = s.curpd)
    (words : ∀ k, m.frames s.curpd k = s.frames s.curpd k ∨
      256 ≤ k ∧ k < 1023 ∧ NewTable s m s.curpd k)
    (table : UserTable m f) : UserTable s f ∨ f * 4096 ∈ freePages s.mem := by
  obtain ⟨i, user, slot, present, rfl⟩ := table
  rw [curpd] at present ⊢
  rcases words i with same | ⟨-, -, -, addr, free, -, new⟩
  · rw [same] at present ⊢
    exact Or.inl ⟨i, user, slot, present, rfl⟩
  · right
    rw [new]
    change addr2page addr * 4096 ∈ _
    rw [held.whole free]
    exact free

theorem UserChanged.trans (held : Stocked s.mem) (first : UserChanged s m)
    (second : UserChanged m s') : UserChanged s s' := by
  refine ⟨second.walkable, second.curpd.trans first.curpd,
    fun a member => first.fewer a (second.fewer a member), fun k => ?_, fun f notDir used notTable => ?_⟩
  · have after := second.words k
    rw [first.curpd] at after
    rcases first.words k with same | ⟨user, slot, absent, addr, free, gone, new⟩
    · rcases after with same' | ⟨user, slot, absent, addr, free, gone, new⟩
      · exact Or.inl (same'.trans same)
      · rw [same] at absent
        exact Or.inr ⟨user, slot, absent, addr, first.fewer _ free, gone, new⟩
    · rcases after with same' | ⟨-, -, absent', -⟩
      · exact Or.inr ⟨user, slot, absent, addr, free, fun again => gone (second.fewer _ again),
          same'.trans new⟩
      · rw [new] at absent'
        cases absent'
  · have rest := second.others f (first.curpd ▸ notDir) (fun free => used (first.fewer _ free))
      fun table => ?_
    · rw [rest, first.others f notDir used notTable]
    · rcases user_table_new held first.curpd first.words table with old | free
      · exact notTable old
      · exact used free

theorem Mapped.user_changed (held : Stocked s.mem) (mapped : Mapped s s' i j e) (user : 256 ≤ i)
    (slot : i < 1023) : UserChanged s s' := by
  have words : ∀ k, s'.frames s.curpd k = s.frames s.curpd k ∨
      256 ≤ k ∧ k < 1023 ∧ NewTable s s' s.curpd k := by
    intro k
    rcases mapped.words k with same | ⟨rfl, new⟩
    · exact Or.inl same
    · exact Or.inr ⟨user, slot, new⟩
  refine ⟨mapped.walkable, mapped.curpd, mapped.fewer, words, fun f notDir used notTable => ?_⟩
  funext k
  refine mapped.others f k notDir used fun eq => ?_
  obtain ⟨rfl, -⟩ := Prod.mk.inj eq
  have table : UserTable s' (s'.frames s.curpd i).page := by
    refine ⟨i, user, slot, ?_, ?_⟩
    · rw [mapped.curpd]
      exact mapped.present
    · rw [mapped.curpd]
  rcases user_table_new held mapped.curpd words table with old | free
  · exact notTable old
  · exact used free

/-- Clearing a page of user memory. -/
theorem clear_user_changed (held : Walkable s) (user : 256 ≤ p / 1024) (slot : p / 1024 < 1023) :
    UserChanged s (clearPage s p) := by
  rw [clearPage]
  split
  · rename_i present
    exact (write_mapped held slot present).user_changed held.toStocked user slot
  · exact .refl held

/-- A page outside of user memory, other than the window page. -/
def OutsideUser (p : Nat) : Prop := p < 2 ^ 18 ∨ 1023 * 1024 ≤ p

instance (p : Nat) : Decidable (OutsideUser p) := inferInstanceAs (Decidable (_ ∨ _))

/-- Those of the pages that lie outside of user memory have blank entries. -/
def Blanked (s : Machine) (pages : List Nat) : Prop :=
  ∀ p ∈ pages, OutsideUser p → pageEntry s s.curpd p = blank

theorem clear_of_blank (was : pageEntry s s.curpd p = blank) : clearPage s p = s := by
  rw [clearPage]
  split
  · rename_i present
    rw [pageEntry, entry_present s _ present] at was
    rw [Machine.write, ← was, Function.update_eq_self, Function.update_eq_self]
  · rfl

theorem clear_pages_user_changed (pages : List Nat) (held : Walkable s) (blanked : Blanked s pages) :
    UserChanged s (clearPages s pages) := by
  induction pages generalizing s with
  | nil => exact .refl held
  | cons p pages ih =>
    have rest : Blanked (clearPage s p) pages := by
      intro q member outside
      rw [clear_curpd]
      exact blank_clear _ (blanked q (List.mem_cons_of_mem p member) outside)
    by_cases outside : OutsideUser p
    · have same := clear_of_blank (blanked p List.mem_cons_self outside)
      rw [same] at rest
      change UserChanged s (clearPages (clearPage s p) pages)
      rw [same]
      exact ih held rest
    · rw [OutsideUser] at outside
      have first : UserChanged s (clearPage s p) :=
        clear_user_changed held (by omega) (by omega)
      exact first.trans held.toStocked (ih first.walkable rest)

end UserChanged

/-- Whatever the tables look like, a word is old or one of the entries that are written. -/
structure Entered (New : Entry → Prop) (s s' : Machine) : Prop where
  stocked : Stocked s'.mem
  dma : s'.mem.dmaBitmap = s.mem.dmaBitmap
  fewer : ∀ a ∈ freePages s'.mem, a ∈ freePages s.mem
  words : ∀ f k, s'.frames f k = s.frames f k ∨ New (s'.frames f k)

section Entered
variable {New : Entry → Prop}

theorem Entered.refl (stocked : Stocked s.mem) : Entered New s s :=
  ⟨stocked, rfl, fun _ member => member, fun _ _ => Or.inl rfl⟩

theorem Entered.trans (first : Entered New s m) (second : Entered New m s') : Entered New s s' where
  stocked := second.stocked
  dma := second.dma.trans first.dma
  fewer a member := first.fewer a (second.fewer a member)
  words f k := by
    rcases second.words f k with same | new
    · rw [same]
      exact first.words f k
    · exact Or.inr new

theorem store_entered (stocked : Stocked s.mem) (new : New e) (ran : s.store virt e = some s') :
    Entered New s s' := by
  obtain ⟨frame, -, rfl⟩ := Option.map_eq_some_iff.mp ran
  refine ⟨stocked, rfl, fun _ member => member, fun f k => ?_⟩
  by_cases here : (f, k) = (frame, virt % 4096 / 4)
  · obtain ⟨rfl, rfl⟩ := Prod.mk.inj here
    rw [write_same]
    exact Or.inr new
  · exact Or.inl (write_other s e here)

section
variable (stocked : Stocked s.mem) (clean : New blank) (table : ∀ addr ∈ freePages s.mem, New (tableEntry addr))
include stocked clean table

theorem add_table_entered
    (ran : pagingAddTable s virt = some s') : Entered New s s' := by
  obtain ⟨⟨addr, m⟩, taken, ran⟩ := Option.bind_eq_some_iff.mp ran
  obtain ⟨t, linked, ran⟩ := Option.bind_eq_some_iff.mp ran
  obtain ⟨frame, -, rfl⟩ := Option.map_eq_some_iff.mp ran
  obtain ⟨⟨page, rest⟩, popped, same⟩ := Option.map_eq_some_iff.mp taken
  obtain ⟨⟨mem, rfl⟩, stocked', pages, -⟩ := alloc_stocked stocked taken
  have mems : rest = mem := congrArg Machine.mem (Prod.mk.inj same).2
  have alloc : Entered New s { s with mem := mem } := by
    refine ⟨stocked', ?_, rest_free pages, fun _ _ => Or.inl rfl⟩
    rw [← mems]
    exact pop_dma_bitmap popped
  have entry : New (tableEntry addr) := table addr (taken_free pages)
  have set : Entered New { s with mem := mem } t := store_entered stocked' entry linked
  refine (alloc.trans set).trans ⟨set.stocked, rfl, fun _ member => member, fun f k => ?_⟩
  by_cases here : f = frame
  · rw [here, fill_same]
    exact Or.inr clean
  · rw [fill_other t _ here]
    exact Or.inl rfl

theorem map_entered (new : New (mapEntry phys u w))
    (ran : pagingMap s virt phys u w = some (ok, s')) : Entered New s s' := by
  obtain ⟨pde, -, ran⟩ := Option.bind_eq_some_iff.mp ran
  obtain ⟨m, readied, ran⟩ := Option.bind_eq_some_iff.mp ran
  have first : Entered New s m := by
    split at readied
    · cases readied
      exact .refl stocked
    · exact add_table_entered stocked clean table readied
  refine first.trans ?_
  obtain ⟨pde', -, ran⟩ := Option.bind_eq_some_iff.mp ran
  split at ran
  · obtain ⟨t, stored, same⟩ := Option.map_eq_some_iff.mp ran
    cases same
    exact store_entered first.stocked new stored
  · cases ran
    exact .refl first.stocked

end

end Entered

end MeinOS.Paging
