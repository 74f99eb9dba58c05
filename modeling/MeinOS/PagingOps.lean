import MeinOS.PagingInvariant

/-! The functions of `kernel2/paging.c` on page tables that satisfy the invariant: each
reads or writes the entry it means, and what it adds on the way, the window page and
missing page tables, keeps the invariant. -/
namespace MeinOS.Paging
open Memphys

variable {dirs : List Nat} {s s' : Machine} {virt : Nat} {e : Entry}

theorem addr2page_mul (page : Nat) : addr2page (page * 4096) = page := by
  rw [addr2page]
  omega

theorem addr2pde_lt (inside : virt < 2 ^ 32) : addr2pde virt < 1024 := by
  rw [addr2pde, addr2page]
  omega

theorem addr2pte_lt (virt : Nat) : addr2pte virt < 1024 := Nat.mod_lt _ (by omega)

theorem page_slot (p : Nat) : addr2pde (p * 4096) = p / 1024 := by rw [addr2pde, addr2page_mul]

theorem page_word (p : Nat) : addr2pte (p * 4096) = p % 1024 := by rw [addr2pte, addr2page_mul]

theorem addr2page_lt (inside : virt < 2 ^ 32) : addr2page virt < 2 ^ 20 := by
  rw [addr2page]
  omega

theorem addr2page_next (virt : Nat) : addr2page (virt + 4096) = addr2page virt + 1 := by
  rw [addr2page, addr2page]
  omega

/-- The page table of slot `k` at `PAGETABLES_ADDRESS`. -/
theorem translate_pagetable (linked : SelfLinked s) (inside : k < 1024) (word : l < 1024)
    (present : (s.frames s.curpd k).present = true) :
    s.translate (pagetablesAddress + k * 4096 + 4 * l) = some (s.frames s.curpd k).page ∧
      (pagetablesAddress + k * 4096 + 4 * l) % 4096 / 4 = l := by
  obtain ⟨last, self⟩ := linked
  have slot : addr2pde (pagetablesAddress + k * 4096 + 4 * l) = 1023 := by
    rw [addr2pde, addr2page, pagetablesAddress]
    omega
  have entry : addr2pte (pagetablesAddress + k * 4096 + 4 * l) = k := by
    rw [addr2pte, addr2page, pagetablesAddress]
    omega
  constructor
  · simp only [Machine.translate, slot, entry, self, last, present, and_self, if_true]
  · rw [pagetablesAddress]
    omega

/-- The word `k` of the page directory at `PAGEDIR_ADDRESS`, which is the last page table. -/
theorem translate_pagedir (linked : SelfLinked s) (inside : k < 1024) :
    s.translate (pagedirAddress + 4 * k) = some s.curpd ∧
      (pagedirAddress + 4 * k) % 4096 / 4 = k := by
  have seen := translate_pagetable linked (k := 1023) (by omega) inside linked.1
  rw [linked.2] at seen
  exact seen

section
variable (linked : SelfLinked s) (inside : virt < 2 ^ 32)
include linked inside

theorem getpde_eq : pagingGetpde s virt = some (s.frames s.curpd (addr2pde virt)) := by
  obtain ⟨frame, word⟩ := translate_pagedir linked (addr2pde_lt inside)
  rw [pagingGetpde, Machine.load, frame, Option.map_some, word]

theorem setpde_eq : pagingSetpde s virt e = some (s.write s.curpd (addr2pde virt) e) := by
  obtain ⟨frame, word⟩ := translate_pagedir linked (addr2pde_lt inside)
  rw [pagingSetpde, Machine.store, frame, Option.map_some, word]

theorem getpte_eq :
    pagingGetpte s virt = some
      (if (s.frames s.curpd (addr2pde virt)).present then
        s.frames (s.frames s.curpd (addr2pde virt)).page (addr2pte virt)
      else blank) := by
  rw [pagingGetpte, getpde_eq linked inside, Option.bind_some]
  by_cases present : (s.frames s.curpd (addr2pde virt)).present = true
  · obtain ⟨frame, word⟩ :=
      translate_pagetable linked (addr2pde_lt inside) (addr2pte_lt virt) present
    rw [if_pos present, if_pos present, Machine.load, frame, Option.map_some, word]
  · rw [if_neg present, if_neg present]

theorem setpte_eq :
    pagingSetpte s virt e = some
      (if (s.frames s.curpd (addr2pde virt)).present then
        (true, s.write (s.frames s.curpd (addr2pde virt)).page (addr2pte virt) e)
      else (false, s)) := by
  rw [pagingSetpte, getpde_eq linked inside, Option.bind_some]
  by_cases present : (s.frames s.curpd (addr2pde virt)).present = true
  · obtain ⟨frame, word⟩ :=
      translate_pagetable linked (addr2pde_lt inside) (addr2pte_lt virt) present
    rw [if_pos present, if_pos present, Machine.store, frame, Option.map_some, Option.map_some, word]
  · rw [if_neg present, if_neg present]

end

/-- The kernel has gone on without giving a page back: a page that is mapped newly was on
the stack before or satisfies `Known`. -/
structure Evolves (dirs : List Nat) (Known : Nat → Prop) (s s' : Machine) : Prop where
  guarded : Guarded dirs s'
  curpd : s'.curpd = s.curpd
  fewer : ∀ a ∈ freePages s'.mem, a ∈ freePages s.mem
  tables : ∀ page, Table dirs s' page → page * 4096 ∈ freePages s.mem ∨ Table dirs s page
  maps : ∀ d ∈ dirs, ∀ i < 1024, ∀ j < 1024, ∀ page, Maps s' d i j page →
    Maps s d i j page ∨ page * 4096 ∈ freePages s.mem ∨ Known page

variable {Known Known' : Nat → Prop}

theorem Evolves.refl (held : Guarded dirs s) : Evolves dirs Known s s :=
  ⟨held, rfl, fun _ member => member, fun _ table => Or.inr table,
    fun _ _ _ _ _ _ _ maps => Or.inl maps⟩

theorem Evolves.trans (first : Evolves dirs Known s m) (second : Evolves dirs Known' m s')
    (known : ∀ page, Known' page → page * 4096 ∈ freePages s.mem ∨ Known page) :
    Evolves dirs Known s s' where
  guarded := second.guarded
  curpd := second.curpd.trans first.curpd
  fewer a member := first.fewer a (second.fewer a member)
  tables page table := by
    rcases second.tables page table with free | old
    · exact Or.inl (first.fewer _ free)
    · exact first.tables page old
  maps d inDirs i slot j entry page maps := by
    rcases second.maps d inDirs i slot j entry page maps with old | free | shown
    · exact first.maps d inDirs i slot j entry page old
    · exact Or.inr (Or.inl (first.fewer _ free))
    · exact Or.inr (known page shown)

theorem alloc_evolves (held : Guarded dirs s) {addr : Nat}
    (ran : memphysAlloc s = some (addr, s')) : Evolves dirs Known s s' := by
  obtain ⟨guarded, -, -, ⟨mem, rfl⟩, free, -⟩ := alloc_guarded held ran
  exact ⟨guarded, rfl, rest_free free, fun _ table => Or.inr table, fun _ _ _ _ _ _ _ maps => Or.inl maps⟩

/-- The table that `paging_map` and `memuser_create_pagetable` add. -/
theorem link_evolves (held : Guarded dirs s) {addr : Nat} (ran : memphysAlloc s = some (addr, m))
    (inDirs : d ∈ dirs) (slot : i < 1023) : Evolves dirs Known s (m.link d i addr) := by
  have wasFree := alloc_was_free held ran
  obtain ⟨guarded, fresh, -, ⟨mem, rfl⟩, -, -⟩ := alloc_guarded held ran
  have first : Evolves dirs Known s { s with mem := mem } := alloc_evolves held ran
  refine ⟨link_guarded guarded fresh inDirs slot, first.curpd, first.fewer, ?_, ?_⟩
  · intro page table
    rcases link_tables guarded fresh table with rfl | old
    · exact Or.inl wasFree
    · exact Or.inr old
  · intro d' inDirs' i' slot' j inTable page maps
    rcases maps_link guarded fresh inDirs inDirs' slot' maps with old | rfl
    · exact first.maps d' inDirs' i' slot' j inTable page old
    · exact Or.inr (Or.inl wasFree)

/-- The tables are where the directories say. -/
theorem table_of_dirs (same : ∀ d ∈ dirs, s'.frames d = s.frames d) (table : Table dirs s' page) :
    Table dirs s page := by
  obtain ⟨d, inDirs, i, slot, present, rfl⟩ := table
  rw [same d inDirs] at present ⊢
  exact ⟨d, inDirs, i, slot, present, rfl⟩

theorem write_tables (notDir : t ∉ dirs) (table : Table dirs (s.write t k e) page) :
    Table dirs s page := table_of_dirs (fun _ => write_dir notDir) table

theorem fill_tables (notDir : t ∉ dirs) (table : Table dirs (s.fill t words) page) :
    Table dirs s page := table_of_dirs (fun _ => fill_dir notDir) table

/-- An entry of a table in use is pointed to a page or cleared. -/
theorem point_evolves (held : Guarded dirs s) (inDirs : d ∈ dirs) (slot : i < 1023)
    (present : (s.frames d i).present = true) (notWindow : (i, k) ≠ (1022, 1023))
    (away : e.present = true → Outside s.mem e.page ∧ Known e.page) :
    Evolves dirs Known s (s.write (s.frames d i).page k e) := by
  have notDir := held.table_not_dir inDirs slot present
  refine ⟨point_guarded held inDirs slot present notWindow fun there => (away there).1, rfl,
    fun _ member => member, fun _ table => Or.inr (write_tables notDir table), ?_⟩
  intro d' inDirs' i' slot' j inTable page maps
  rcases maps_write notDir inDirs' maps with old | ⟨there, rfl, -⟩
  · exact Or.inl old
  · exact Or.inr (Or.inr (away there).2)

theorem Fresh.of_evolves (fresh : Fresh dirs s page) (evolves : Evolves dirs Known s s') :
    Fresh dirs s' page where
  real := fresh.real
  outside := fresh.outside.of_fewer evolves.fewer
  notTable table := by
    rcases evolves.tables page table with free | old
    · exact fresh.outside.2 free
    · exact fresh.notTable old

/-- The entry of a directory for one page; a missing table has blank entries. -/
def entry (s : Machine) (d i j : Nat) : Entry :=
  if (s.frames d i).present then s.frames (s.frames d i).page j else blank

theorem entry_present (s : Machine) (j : Nat) (present : (s.frames d i).present = true) :
    entry s d i j = s.frames (s.frames d i).page j := if_pos present

theorem maps_iff_entry (s : Machine) (d i j page : Nat) : Maps s d i j page ↔
    (entry s d i j).present = true ∧ (entry s d i j).page = page := by
  rw [Maps, entry]
  by_cases present : (s.frames d i).present = true
  · simp [present]
  · simp [present, blank]

theorem link_entries (held : Guarded dirs s) {addr : Nat} (fresh : Fresh dirs s (addr2page addr))
    (inDirs : d ∈ dirs) (absent : (s.frames d i).present = false) (inDirs' : d' ∈ dirs)
    (slot' : i' < 1023) (j : Nat) : entry (s.link d i addr) d' i' j = entry s d' i' j := by
  rw [entry, entry]
  rcases link_slot (d := d) (i := i) held fresh inDirs' i' with ⟨new, place⟩ | ⟨same, -⟩
  · obtain ⟨rfl, rfl⟩ := Prod.mk.inj place
    rw [new, absent]
    simp [tableEntry, link_table]
  · rw [same]
    by_cases present : (s.frames d' i').present = true
    · rw [link_other_table held fresh inDirs inDirs' slot' present]
    · rw [if_neg present, if_neg present]

/-- The table that holds the window page of the loaded directory. -/
theorem addr2pde_bufpage : addr2pde bufpageAddress = 1022 := by decide

theorem addr2pte_bufpage : addr2pte bufpageAddress = 1023 := by decide

theorem add_table_eq (linked : SelfLinked s) (inside : virt < 2 ^ 32) (slot : addr2pde virt < 1023) :
    pagingAddTable s virt =
      (memphysAlloc s).map fun (addr, m) => m.link s.curpd (addr2pde virt) addr := by
  rw [pagingAddTable]
  cases taken : memphysAlloc s with
  | none => rfl
  | some result =>
    obtain ⟨⟨addr, mem⟩, -, rfl⟩ := Option.map_eq_some_iff.mp taken
    obtain ⟨last, self⟩ := linked
    have linked' : SelfLinked { s with mem := mem } := ⟨last, self⟩
    have address : addr2pde (pagetablesAddress + addr2pde virt * 4096) = 1023 ∧
        addr2pte (pagetablesAddress + addr2pde virt * 4096) = addr2pde virt := by
      generalize addr2pde virt = k at slot
      rw [addr2pde, addr2pte, addr2page, pagetablesAddress]
      omega
    have own : ({ s with mem := mem }.write s.curpd (addr2pde virt) (tableEntry addr)).frames
        s.curpd 1023 = s.frames s.curpd 1023 := write_other_word _ _ (by omega)
    have frame : ({ s with mem := mem }.write s.curpd (addr2pde virt) (tableEntry addr)).translate
        (pagetablesAddress + addr2pde virt * 4096) = some (addr2page addr) := by
      simp only [Machine.translate, address, write_curpd, own, self, last, write_same]
      simp [tableEntry]
    simp only [Option.bind_some, Option.map_some, setpde_eq linked' inside, Machine.storePage, frame]
    rfl

theorem add_table_spec (linked : SelfLinked s) (inside : virt < 2 ^ 32)
    (slot : addr2pde virt < 1023) (ran : pagingAddTable s virt = some s') :
    ∃ addr m, memphysAlloc s = some (addr, m) ∧ s' = m.link s.curpd (addr2pde virt) addr := by
  rw [add_table_eq linked inside slot] at ran
  obtain ⟨⟨addr, m⟩, taken, same⟩ := Option.map_eq_some_iff.mp ran
  exact ⟨addr, m, taken, same.symm⟩

/-- The state in which the slot of `virt` in the loaded directory has a table. -/
structure Ready (dirs : List Nat) (s m : Machine) (virt : Nat) : Prop where
  evolves : ∀ Known, Evolves dirs Known s m
  present : (m.frames s.curpd (addr2pde virt)).present = true
  slots : ∀ d ∈ dirs, ∀ i, (d, i) ≠ (s.curpd, addr2pde virt) → m.frames d i = s.frames d i
  entries : ∀ d ∈ dirs, ∀ i < 1023, ∀ j, entry m d i j = entry s d i j
  data : ∀ page, ¬ Table dirs s page → page * 4096 ∉ freePages s.mem → m.frames page = s.frames page

/-- The entry that `paging_map` writes. -/
def mapEntry (phys : Nat) (user writable : Bool) : Entry :=
  { blank with
    page := addr2page phys
    existing := true
    user := user
    writable := writable
    present := true }

/-- The table that mapping a page needs in the loaded directory is there, or is added. -/
def ensureTable (s : Machine) (virt : Nat) : Option Machine :=
  if (s.frames s.curpd (addr2pde virt)).present then some s else pagingAddTable s virt

section
variable (held : Guarded dirs s) (inside : virt < 2 ^ 32) (slot : addr2pde virt < 1023)
include held inside slot

theorem ensure_table (ran : ensureTable s virt = some m) : Ready dirs s m virt := by
  rw [ensureTable] at ran
  by_cases present : (s.frames s.curpd (addr2pde virt)).present = true
  · rw [if_pos present] at ran
    cases ran
    exact ⟨fun _ => .refl held, present, fun _ _ _ _ => rfl, fun _ _ _ _ _ => rfl,
      fun _ _ _ => rfl⟩
  · rw [if_neg present] at ran
    have absent := Bool.eq_false_of_not_eq_true present
    obtain ⟨addr, t, taken, rfl⟩ := add_table_spec held.linked inside slot ran
    have wasFree := alloc_was_free held taken
    obtain ⟨guarded, fresh, -, ⟨mem, rfl⟩, -, -⟩ := alloc_guarded held taken
    have notPage : ∀ d ∈ dirs, d ≠ addr2page addr := fun d inDirs eq =>
      fresh.not_dir guarded (eq ▸ inDirs)
    refine ⟨fun _ => link_evolves held taken held.loaded slot, ?_, ?_, ?_, ?_⟩
    · rw [link_new _ (notPage _ held.loaded)]
      rfl
    · exact fun d inDirs i other => link_old_slot _ (notPage d inDirs) other
    · exact fun d inDirs i small j =>
        link_entries guarded fresh held.loaded absent inDirs small j
    · intro page notTable notFree
      refine link_old_frame _ (fun eq => notFree (eq ▸ wasFree)) fun eq => notTable ?_
      exact eq ▸ held.dir_is_table held.loaded

/-- `paging_map` writes one entry of the loaded directory. -/
theorem map_eq (phys : Nat) (user writable : Bool) :
    pagingMap s virt phys user writable =
      (ensureTable s virt).map fun m => (true, m.write (m.frames s.curpd (addr2pde virt)).page (addr2pte virt)
          (mapEntry phys user writable)) := by
  rw [pagingMap, getpde_eq held.linked inside, Option.bind_some, ← ensureTable]
  cases readied : ensureTable s virt with
  | none => rfl
  | some m =>
    have ready := ensure_table held inside slot readied
    have evolves := ready.evolves fun _ => True
    rw [Option.bind_some, setpte_eq evolves.guarded.linked inside, evolves.curpd,
      if_pos ready.present]
    rfl

theorem map_spec (ran : pagingMap s virt phys user writable = some (ok, s')) :
    ok = true ∧ ∃ m e, Ready dirs s m virt ∧ e.present = true ∧ e.page = addr2page phys ∧
      ¬ e.Lazy ∧
      s' = m.write (m.frames s.curpd (addr2pde virt)).page (addr2pte virt) e := by
  rw [map_eq held inside slot] at ran
  obtain ⟨m, readied, same⟩ := Option.map_eq_some_iff.mp ran
  cases same
  exact ⟨rfl, m, _, ensure_table held inside slot readied, rfl, rfl,
    by simp [Entry.Lazy, mapEntry, blank], rfl⟩

end

/-- With the table in place, `paging_map` only writes the entry. -/
theorem map_present (linked : SelfLinked s) (phys : Nat) (user writable : Bool)
    (inside : virt < 2 ^ 32) (present : (s.frames s.curpd (addr2pde virt)).present = true) :
    pagingMap s virt phys user writable = some (true, s.write
      (s.frames s.curpd (addr2pde virt)).page (addr2pte virt) (mapEntry phys user writable)) := by
  rw [pagingMap, getpde_eq linked inside, Option.bind_some, if_pos present, Option.bind_some,
    setpte_eq linked inside, if_pos present]
  rfl

/-- What a look through the window does: only the loaded directory's window entry, and
the table it is in, are new. -/
structure Peeks (dirs : List Nat) (Known : Nat → Prop) (s s' : Machine) : Prop where
  evolves : Evolves dirs Known s s'
  slots : ∀ d ∈ dirs, ∀ i, (d, i) ≠ (s.curpd, 1022) → s'.frames d i = s.frames d i
  entries : ∀ d ∈ dirs, ∀ i < 1023, ∀ j, (d, i, j) ≠ (s.curpd, 1022, 1023) →
    entry s' d i j = entry s d i j
  data : ∀ page, ¬ Table dirs s page → page * 4096 ∉ freePages s.mem → s'.frames page = s.frames page

theorem Peeks.refl (held : Guarded dirs s) : Peeks dirs Known s s :=
  ⟨.refl held, fun _ _ _ _ => rfl, fun _ _ _ _ _ _ => rfl, fun _ _ _ => rfl⟩

theorem Peeks.trans (first : Peeks dirs (Table dirs s) s m)
    (second : Peeks dirs (Table dirs m) m s') : Peeks dirs (Table dirs s) s s' := by
  have curpd := first.evolves.curpd
  refine ⟨first.evolves.trans second.evolves fun page => first.evolves.tables page, ?_, ?_, ?_⟩
  · intro d inDirs i other
    rw [second.slots d inDirs i (by rwa [curpd]), first.slots d inDirs i other]
  · intro d inDirs i slot j other
    rw [second.entries d inDirs i slot j (by rwa [curpd]), first.entries d inDirs i slot j other]
  · intro page notTable notFree
    rw [second.data page (fun table => ?_) fun free => notFree (first.evolves.fewer _ free),
      first.data page notTable notFree]
    rcases first.evolves.tables page table with free | old
    · exact notFree free
    · exact notTable old

/-- The write of the window entry keeps every other entry. -/
theorem window_entries (held : Guarded dirs s) (inDirs : c ∈ dirs)
    (present : (s.frames c 1022).present = true) (inDirs' : d ∈ dirs) (slot : i < 1024)
    (other : (d, i, j) ≠ (c, 1022, 1023)) :
    entry (s.write (s.frames c 1022).page 1023 e) d i j = entry s d i j := by
  have notDir := held.table_not_dir inDirs (by omega) present
  rw [entry, entry, write_dir notDir inDirs']
  by_cases there : (s.frames d i).present = true
  · rw [if_pos there, if_pos there]
    by_cases own : (d, i) = (c, 1022)
    · obtain ⟨rfl, rfl⟩ := Prod.mk.inj own
      exact write_other_word s e fun eq => other (by rw [eq])
    · rw [write_other_frame s e (held.window c inDirs d inDirs' i slot own present there)]
  · rw [if_neg there, if_neg there]

theorem addr2pde_window (inside : off < 4096) : addr2pde (bufpageAddress + off) = 1022 := by
  rw [addr2pde, addr2page, bufpageAddress]
  omega

theorem addr2pte_window (inside : off < 4096) : addr2pte (bufpageAddress + off) = 1023 := by
  rw [addr2pte, addr2page, bufpageAddress]
  omega

theorem translate_some (seen : s.translate virt = some frame) :
    Maps s s.curpd (addr2pde virt) (addr2pte virt) frame := by
  obtain ⟨⟨table, inTable⟩, target⟩ := Option.ite_none_right_eq_some.mp seen
  exact ⟨table, inTable, Option.some.inj target⟩

theorem translate_bufpage (off : Nat) (maps : Maps s s.curpd 1022 1023 page)
    (inside : off < 4096) :
    s.translate (bufpageAddress + off) = some page ∧ (bufpageAddress + off) % 4096 / 4 = off / 4 := by
  obtain ⟨table, entry, target⟩ := maps
  constructor
  · simp only [Machine.translate, addr2pde_window inside, addr2pte_window inside, table, entry,
      target, and_self, if_true]
  · rw [bufpageAddress]
    omega

section
variable (Known) (addr : Nat) (held : Guarded dirs s)
  (away : Outside s.mem (addr2page addr)) (known : Known (addr2page addr))
include Known addr held away known

/-- The window shows the page. -/
theorem map_window_spec (ran : mapWindow s addr = some s') :
    Peeks dirs Known s s' ∧ Maps s' s.curpd 1022 1023 (addr2page addr) := by
  obtain ⟨⟨ok, t⟩, mapped, ran⟩ := Option.bind_eq_some_iff.mp ran
  obtain ⟨rfl, m, e, ready, there, target, settled, rfl⟩ := map_spec held (by decide) (by decide) mapped
  simp only [if_true] at ran
  cases ran
  have evolves := ready.evolves Known
  have guarded := evolves.guarded
  have loaded : s.curpd ∈ dirs := held.loaded
  have present := ready.present
  have slots := ready.slots
  rw [addr2pde_bufpage] at present slots
  have notDir := guarded.table_not_dir loaded (by omega) present
  have page : e.page = addr2page addr := by
    rw [target, addr2page, addr2page]
    omega
  have shows : Maps (m.write (m.frames s.curpd 1022).page 1023 e) s.curpd 1022 1023
      (addr2page addr) := by
    rw [Maps, write_dir notDir loaded, write_same]
    exact ⟨present, there, page⟩
  rw [addr2pde_bufpage, addr2pte_bufpage]
  refine ⟨⟨⟨?_, evolves.curpd, evolves.fewer, ?_, ?_⟩, ?_, ?_, ?_⟩, shows⟩
  · refine write_guarded guarded notDir (fun _ => ?_) (fun _ p maps => ?_) fun d inDirs table => ?_
    · rw [page]
      exact away.of_fewer evolves.fewer
    · rw [write_curpd, evolves.curpd] at maps
      exact maps.2.2.symm.trans shows.2.2
    · by_cases own : d = s.curpd
      · rw [own, write_same]
        exact settled
      · have other := guarded.window s.curpd loaded d inDirs 1022 (by omega)
          (fun eq => own (Prod.mk.inj eq).1) present table
        rw [write_other_frame m e other]
        exact guarded.settled d inDirs table
  · intro p table
    exact evolves.tables p (write_tables notDir table)
  · intro d inDirs i slot j inTable p maps
    rcases maps_write notDir inDirs maps with old | ⟨-, rfl, -, -⟩
    · exact evolves.maps d inDirs i slot j inTable p old
    · rw [page]
      exact Or.inr (Or.inr known)
  · intro d inDirs i other
    exact (congrFun (write_dir notDir inDirs) i).trans (slots d inDirs i other)
  · intro d inDirs i slot j other
    rw [← ready.entries d inDirs i slot j]
    exact window_entries guarded loaded present inDirs (by omega) other
  · intro p notTable notFree
    rw [← ready.data p notTable notFree]
    refine write_other_frame m e fun eq => ?_
    have table : Table dirs m p := ⟨s.curpd, loaded, 1022, by omega, present, eq.symm⟩
    rcases (ready.evolves (Table dirs s)).tables p table with free | old
    · exact notFree free
    · exact notTable old

/-- A window that is read through shows the page: where it does not, the processor
faults. -/
theorem show_window_spec (ran : showWindow s addr = some m)
    (seen : m.translate (bufpageAddress + off) = some frame) (inside : off < 4096) :
    Peeks dirs Known s m ∧ Maps m s.curpd 1022 1023 (addr2page addr) := by
  by_cases moved : addr2page addr ≠ s.lastpage ∨ s.curpd ≠ s.lastpd
  · rw [showWindow, if_pos moved] at ran
    exact map_window_spec Known addr held away known ran
  · rw [showWindow, if_neg moved] at ran
    cases ran
    rw [not_or, not_not, not_not] at moved
    have maps := translate_some seen
    rw [addr2pde_window inside, addr2pte_window inside] at maps
    have same := held.shown (moved.2 ▸ held.loaded) frame (moved.2 ▸ maps)
    rw [moved.1, ← same]
    exact ⟨.refl held, maps⟩

end

theorem addr2page_word (frame : Nat) (inside : k < 1024) :
    addr2page (frame * 4096 + 4 * k) = frame ∧ (frame * 4096 + 4 * k) % 4096 / 4 = k := by
  rw [addr2page]
  omega

theorem physread_spec (held : Guarded dirs s) (inside : k < 1024) (known : Table dirs s frame)
    (ran : pagingPhysread s (frame * 4096 + 4 * k) = some (v, s')) :
    Peeks dirs (Table dirs s) s s' ∧ (s'.frames s.curpd 1022).present = true ∧
      v = s'.frames frame k := by
  obtain ⟨page, word⟩ := addr2page_word frame inside
  obtain ⟨m, window, ran⟩ := Option.bind_eq_some_iff.mp ran
  obtain ⟨read, loaded, same⟩ := Option.map_eq_some_iff.mp ran
  cases same
  obtain ⟨f, seen, rfl⟩ := Option.map_eq_some_iff.mp loaded
  have short := Nat.mod_lt (frame * 4096 + 4 * k) (show 0 < 4096 by omega)
  obtain ⟨peeks, shows⟩ := show_window_spec (Table dirs s) (frame * 4096 + 4 * k) held
    (by rw [page]; exact held.table_outside known) (by rw [page]; exact known) window seen short
  obtain ⟨frame', index⟩ := translate_bufpage ((frame * 4096 + 4 * k) % 4096)
    (peeks.evolves.curpd ▸ shows) short
  rw [seen, page] at frame'
  cases frame'
  rw [index, word]
  exact ⟨peeks, shows.1, rfl⟩

theorem physwrite_spec (held : Guarded dirs s) (inside : k < 1024) (known : Table dirs s frame)
    (ran : pagingPhyswrite s (frame * 4096 + 4 * k) e = some s') :
    ∃ m, Peeks dirs (Table dirs s) s m ∧ s' = m.write frame k e := by
  obtain ⟨page, word⟩ := addr2page_word frame inside
  obtain ⟨m, mapped, ran⟩ := Option.bind_eq_some_iff.mp ran
  obtain ⟨peeks, shows⟩ := map_window_spec (Table dirs s) (frame * 4096 + 4 * k) held
    (by rw [page]; exact held.table_outside known) (by rw [page]; exact known) mapped
  obtain ⟨frame', index⟩ := translate_bufpage ((frame * 4096 + 4 * k) % 4096)
    (peeks.evolves.curpd ▸ shows) (Nat.mod_lt _ (by omega))
  rw [Machine.store, frame', Option.map_some, index, page, word] at ran
  cases ran
  exact ⟨m, peeks, rfl⟩

/-- Reading an entry of a directory keeps all the slots of that directory. -/
theorem Peeks.own_slots (peeks : Peeks dirs Known s s') (inDirs : d ∈ dirs)
    (same : if d = s.curpd then s' = s else (s'.frames s.curpd 1022).present = true) (i : Nat) :
    s'.frames d i = s.frames d i := by
  by_cases loaded : d = s.curpd
  · rw [if_pos loaded] at same
    rw [same]
  · exact peeks.slots d inDirs i fun eq => loaded (Prod.mk.inj eq).1

section
variable (held : Guarded dirs s) (inDirs : d ∈ dirs) (inside : virt < 2 ^ 32)
include held inDirs inside

theorem getpde_pd_spec (ran : pagingGetpdePd s virt d = some (pde, s')) :
    pde = s.frames d (addr2pde virt) ∧ Peeks dirs (Table dirs s) s s' ∧
      if d = s.curpd then s' = s else (s'.frames s.curpd 1022).present = true := by
  by_cases loaded : d = s.curpd
  · rw [pagingGetpdePd, if_pos loaded, getpde_eq held.linked inside] at ran
    cases ran
    rw [if_pos loaded]
    exact ⟨by rw [loaded], .refl held, rfl⟩
  · rw [pagingGetpdePd, if_neg loaded] at ran
    obtain ⟨peeks, window, rfl⟩ :=
      physread_spec held (addr2pde_lt inside) (held.dir_is_table inDirs) ran
    rw [if_neg loaded]
    exact ⟨peeks.slots d inDirs _ fun eq => loaded (Prod.mk.inj eq).1, peeks, window⟩

theorem getpte_pd_spec (slot : addr2pde virt < 1023)
    (ran : pagingGetptePd s virt d = some (pte, s')) :
    pte = entry s d (addr2pde virt) (addr2pte virt) ∧ Peeks dirs (Table dirs s) s s' ∧
      if d = s.curpd then s' = s else (s'.frames s.curpd 1022).present = true := by
  by_cases loaded : d = s.curpd
  · rw [pagingGetptePd, if_pos loaded, getpte_eq held.linked inside] at ran
    cases ran
    rw [if_pos loaded, loaded]
    exact ⟨rfl, .refl held, rfl⟩
  · rw [pagingGetptePd, if_neg loaded] at ran
    rw [if_neg loaded]
    obtain ⟨⟨pde, m⟩, got, ran⟩ := Option.bind_eq_some_iff.mp ran
    obtain ⟨rfl, first, window⟩ := getpde_pd_spec held inDirs inside got
    rw [if_neg loaded] at window
    have notLoaded : ∀ i, (d, i) ≠ (s.curpd, 1022) := fun i eq => loaded (Prod.mk.inj eq).1
    have kept := first.slots d inDirs (addr2pde virt) (notLoaded _)
    by_cases present : (s.frames d (addr2pde virt)).present = true
    · have real := (held.tables d inDirs _ slot present).2
      simp only [if_neg real] at ran
      have table : Table dirs m (s.frames d (addr2pde virt)).page :=
        ⟨d, inDirs, addr2pde virt, by omega, by rw [kept]; exact present, by rw [kept]⟩
      obtain ⟨second, window', rfl⟩ :=
        physread_spec first.evolves.guarded (addr2pte_lt virt) table ran
      have peeks := first.trans second
      rw [first.evolves.curpd] at window'
      refine ⟨?_, peeks, window'⟩
      have same := peeks.slots d inDirs (addr2pde virt) (notLoaded _)
      rw [← peeks.entries d inDirs _ slot _ fun eq => loaded (Prod.mk.inj eq).1,
        entry_present s' _ (by rw [same]; exact present), same]
    · have absent := Bool.eq_false_of_not_eq_true present
      have zero := held.empty d inDirs _ (by omega) absent
      simp only [if_pos zero] at ran
      cases ran
      exact ⟨by rw [entry, if_neg present], first, window⟩

/-- `paging_setpte_pd` looks up the table and writes the entry. -/
theorem setpte_pd_spec (slot : addr2pde virt < 1023)
    (present : (s.frames d (addr2pde virt)).present = true)
    (ran : pagingSetptePd s virt e d = some s') :
    ∃ m, Peeks dirs (Table dirs s) s m ∧ m.frames d (addr2pde virt) = s.frames d (addr2pde virt) ∧
      s' = m.write (s.frames d (addr2pde virt)).page (addr2pte virt) e := by
  by_cases loaded : d = s.curpd
  · rw [pagingSetptePd, if_pos loaded, setpte_eq held.linked inside] at ran
    subst loaded
    rw [if_pos present] at ran
    cases ran
    exact ⟨s, .refl held, rfl, rfl⟩
  · rw [pagingSetptePd, if_neg loaded] at ran
    obtain ⟨⟨pde, m⟩, got, ran⟩ := Option.bind_eq_some_iff.mp ran
    obtain ⟨rfl, first, -⟩ := getpde_pd_spec held inDirs inside got
    have notLoaded : ∀ i, (d, i) ≠ (s.curpd, 1022) := fun i eq => loaded (Prod.mk.inj eq).1
    have kept := first.slots d inDirs (addr2pde virt) (notLoaded _)
    have table : Table dirs m (s.frames d (addr2pde virt)).page :=
      ⟨d, inDirs, addr2pde virt, by omega, by rw [kept]; exact present, by rw [kept]⟩
    obtain ⟨m', second, rfl⟩ := physwrite_spec first.evolves.guarded (addr2pte_lt virt) table ran
    have peeks := first.trans second
    exact ⟨m', peeks, peeks.slots d inDirs _ (notLoaded _), rfl⟩

theorem setpde_pd_spec (ran : pagingSetpdePd s virt e d = some s') :
    ∃ m, Peeks dirs (Table dirs s) s m ∧ (d = s.curpd → m = s) ∧
      s' = m.write d (addr2pde virt) e := by
  by_cases loaded : d = s.curpd
  · rw [pagingSetpdePd, if_pos loaded, setpde_eq held.linked inside] at ran
    cases ran
    exact ⟨s, .refl held, fun _ => rfl, by rw [loaded]⟩
  · rw [pagingSetpdePd, if_neg loaded] at ran
    obtain ⟨m, peeks, rfl⟩ :=
      physwrite_spec held (addr2pde_lt inside) (held.dir_is_table inDirs) ran
    exact ⟨m, peeks, fun eq => absurd eq loaded, rfl⟩

end

/-- `paging_cleanpage` of a page that is no table. -/
theorem cleanpage_spec (held : Guarded dirs s) (fresh : Fresh dirs s (addr2page addr))
    (ran : pagingCleanpage s addr = some (result, s')) :
    result = addr ∧ ∃ m, Peeks dirs (· = addr2page addr) s m ∧
      s' = m.fill (addr2page addr) fun _ => blank := by
  obtain ⟨m, window, ran⟩ := Option.bind_eq_some_iff.mp ran
  obtain ⟨cleaned, stored, same⟩ := Option.map_eq_some_iff.mp ran
  cases same
  obtain ⟨f, seen, rfl⟩ := Option.map_eq_some_iff.mp stored
  obtain ⟨peeks, shows⟩ := show_window_spec (· = addr2page addr) addr held fresh.outside rfl
    window (Nat.add_zero bufpageAddress ▸ seen) (by omega)
  obtain ⟨frame, -⟩ := translate_bufpage 0 (peeks.evolves.curpd ▸ shows) (by omega)
  rw [Nat.add_zero, seen] at frame
  cases frame
  exact ⟨rfl, m, peeks, rfl⟩

/-- `paging_unmap` clears the entry, if there is one. -/
theorem unmap_result (linked : SelfLinked s) (inside : virt < 2 ^ 32) :
    pagingUnmap s virt = some
      (if (entry s s.curpd (addr2pde virt) (addr2pte virt)).present then
        (entry s s.curpd (addr2pde virt) (addr2pte virt)).page * 4096 else 0,
      if (s.frames s.curpd (addr2pde virt)).present then
        s.write (s.frames s.curpd (addr2pde virt)).page (addr2pte virt) blank else s) := by
  rw [pagingUnmap, getpte_eq linked inside, Option.bind_some, setpte_eq linked inside,
    Option.map_some, entry]
  cases (s.frames s.curpd (addr2pde virt)).present <;> rfl

theorem unmap_spec (held : Guarded dirs s) (inside : virt < 2 ^ 32) (slot : addr2pde virt < 1023)
    (notWindow : (addr2pde virt, addr2pte virt) ≠ (1022, 1023))
    (ran : pagingUnmap s virt = some (addr, s')) :
    Guarded dirs s' ∧ s'.curpd = s.curpd ∧ ∀ d ∈ dirs, s'.frames d = s.frames d := by
  rw [unmap_result held.linked inside] at ran
  cases ran
  split
  · rename_i present
    have notDir := held.table_not_dir held.loaded slot present
    refine ⟨?_, rfl, fun _ => write_dir notDir⟩
    exact point_guarded held held.loaded slot present notWindow fun there =>
      absurd there (by simp [blank])
  · exact ⟨held, rfl, fun _ _ => rfl⟩

/-- The stack of free pages never fills its place, `STACKDATA_SIZE`. -/
theorem Stocked.short {mem : PhysMem} (held : Stocked mem) : mem.stackptr < 2 ^ 20 := by
  have count := pages_short held.nodup held.aligned
  rwa [freePages, List.length_map, List.length_range] at count

/-- Another stack of free pages, none of which is mapped. -/
theorem restock_guarded (held : Guarded dirs s) {mem : PhysMem} (stocked : Stocked mem)
    (unmapped : ∀ d ∈ dirs, ∀ i < 1024, ∀ j < 1024, ∀ page, Maps s d i j page → Outside mem page) :
    Guarded dirs { s with mem := mem } :=
  { held with
    toDirectories := held.toDirectories.of_same fun _ _ => rfl
    toStocked := stocked
    unmapped := unmapped }

/-- The machine after a page has become the next page of the stack. -/
def Machine.grow (s : Machine) (addr : Nat) : Machine :=
  { s.write (s.frames s.curpd (addr2pde (stackdataAddress + 4 * s.mem.stackend))).page
      (addr2pte (stackdataAddress + 4 * s.mem.stackend)) (mapEntry addr false true) with
    mem := memphysGrow s.mem addr }

section
variable (held : Guarded dirs s) (full : s.mem.stackptr = s.mem.stackend)
include held full

/-- The next page of the stack has its place in the first two tables, which are there. -/
theorem Guarded.stack_place :
    addr2pde (stackdataAddress + 4 * s.mem.stackend) < 2 ∧
      (s.frames s.curpd (addr2pde (stackdataAddress + 4 * s.mem.stackend))).present = true := by
  have short := held.toStocked.short
  have low : addr2pde (stackdataAddress + 4 * s.mem.stackend) < 2 := by
    rw [addr2pde, addr2page, stackdataAddress]
    omega
  refine ⟨low, ?_⟩
  obtain ⟨zero, one⟩ := held.kernel s.curpd held.loaded
  rcases Nat.lt_succ_iff_lt_or_eq.mp low with first | second
  · rw [Nat.lt_one_iff.mp first]
    exact zero
  · rw [second]
    exact one

theorem free_full (real : addr ≠ 0) : memphysFree s addr = some (s.grow addr) := by
  obtain ⟨low, present⟩ := held.stack_place full
  have short := held.toStocked.short
  have inside : stackdataAddress + 4 * s.mem.stackend < 2 ^ 32 := by
    rw [stackdataAddress]
    omega
  rw [memphysFree, if_pos ⟨real, full⟩, map_present held.linked addr false true inside present]
  rfl

theorem grow_guarded (outside : Outside s.mem (addr2page addr)) : Guarded dirs (s.grow addr) := by
  obtain ⟨low, present⟩ := held.stack_place full
  have guarded := point_guarded held held.loaded (by omega) present
    (k := addr2pte (stackdataAddress + 4 * s.mem.stackend)) (e := mapEntry addr false true)
    (fun eq => by rw [(Prod.mk.inj eq).1] at low; omega) fun _ => outside
  refine restock_guarded guarded ⟨held.nodup, held.aligned, ?_⟩ guarded.unmapped
  exact Nat.le_trans held.bounded (Nat.le_add_right _ _)

theorem grow_frames (inDirs : d ∈ dirs) : (s.grow addr).frames d = s.frames d := by
  obtain ⟨low, present⟩ := held.stack_place full
  have notDir := held.table_not_dir held.loaded (by omega) present
  exact write_dir notDir inDirs

end

/-- A page that finds room on the stack. -/
theorem push_stocked (held : Stocked mem) (real : frame ≠ 0) (outside : Outside mem frame)
    (room : mem.stackptr ≠ mem.stackend) : Stocked (memphysPush mem (frame * 4096)) := by
  have address : frame * 4096 ≠ 0 := by omega
  have pages := push_free_pages address room
  refine ⟨?_, fun a member => ?_, ?_⟩
  · rw [pages, List.nodup_append]
    refine ⟨held.nodup, List.nodup_singleton _, fun a inA b inB same => outside.2 ?_⟩
    rw [← List.mem_singleton.mp inB, ← same]
    exact inA
  · rw [pages] at member
    rcases List.mem_append.mp member with old | new
    · exact held.aligned a old
    · have small := outside.1
      rw [List.mem_singleton.mp new]
      omega
  · have bounded := held.bounded
    rw [memphysPush, if_neg address, if_neg room]
    change mem.stackptr + 1 ≤ mem.stackend
    omega

/-- `memphys_free` puts a page on the stack, or makes it the stack's next page. -/
theorem free_spec (held : Guarded dirs s) (real : frame ≠ 0) (outside : Outside s.mem frame)
    (ran : memphysFree s (frame * 4096) = some s') :
    (s' = { s with mem := s'.mem } ∧ Stocked s'.mem ∧
        freePages s'.mem = freePages s.mem ++ [frame * 4096]) ∨
      (Guarded dirs s' ∧ s'.curpd = s.curpd ∧ ∀ d ∈ dirs, s'.frames d = s.frames d) := by
  have address : frame * 4096 ≠ 0 := by omega
  by_cases full : s.mem.stackptr = s.mem.stackend
  · rw [free_full held full address] at ran
    cases ran
    exact Or.inr ⟨grow_guarded held full (by rwa [addr2page_mul]), rfl, fun d inDirs =>
      grow_frames held full inDirs⟩
  · rw [memphysFree, if_neg (fun both => full both.2)] at ran
    cases ran
    exact Or.inl ⟨rfl, push_stocked held.toStocked real outside full,
      push_free_pages address full⟩

section AnyStack
variable (mem : PhysMem)

theorem setpte_mem (s : Machine) (virt : Nat) (e : Entry) :
    pagingSetpte { s with mem := mem } virt e =
      (pagingSetpte s virt e).map fun (ok, t) => (ok, { t with mem := mem }) := by
  have same : pagingGetpde { s with mem := mem } virt = pagingGetpde s virt := rfl
  rw [pagingSetpte, pagingSetpte, same]
  cases pagingGetpde s virt with
  | none => rfl
  | some pde =>
    simp only [Option.bind_some]
    split
    · simp only [Machine.store, Option.map_map]
      rfl
    · rfl

section
variable (held : Guarded dirs s) (addr : Nat) (window : (s.frames s.curpd 1022).present = true)
include held addr window

/-- While the table of the window page is there, mapping the window takes no page from
the stack. -/
theorem map_window_mem :
    mapWindow { s with mem := mem } addr =
      (mapWindow s addr).map fun t => { t with mem := mem } := by
  have pde : pagingGetpde s bufpageAddress = some (s.frames s.curpd 1022) := by
    rw [getpde_eq held.linked (by decide), addr2pde_bufpage]
  have pde' : pagingGetpde { s with mem := mem } bufpageAddress = some (s.frames s.curpd 1022) := pde
  rw [mapWindow, mapWindow, pagingMap, pagingMap, pde, pde', Option.bind_some, Option.bind_some,
    if_pos window, if_pos window, Option.bind_some, Option.bind_some, setpte_mem]
  cases pagingSetpte s bufpageAddress _ with
  | none => rfl
  | some done =>
    obtain ⟨ok, t⟩ := done
    cases ok <;> rfl

theorem show_window_mem :
    showWindow { s with mem := mem } addr =
      (showWindow s addr).map fun t => { t with mem := mem } := by
  by_cases moved : addr2page addr ≠ s.lastpage ∨ s.curpd ≠ s.lastpd
  · rw [showWindow, showWindow, if_pos moved, if_pos moved, map_window_mem mem held addr window]
  · rw [showWindow, showWindow, if_neg moved, if_neg moved, Option.map_some]

theorem physread_mem :
    pagingPhysread { s with mem := mem } addr =
      (pagingPhysread s addr).map fun (word, t) => (word, { t with mem := mem }) := by
  rw [pagingPhysread, pagingPhysread, show_window_mem mem held addr window]
  cases showWindow s addr with
  | none => rfl
  | some t =>
    simp only [Option.map_some, Option.bind_some, Option.map_map]
    rfl

end

theorem physwrite_mem (held : Guarded dirs s) (addr : Nat) (e : Entry)
    (window : (s.frames s.curpd 1022).present = true) :
    pagingPhyswrite { s with mem := mem } addr e =
      (pagingPhyswrite s addr e).map fun t => { t with mem := mem } := by
  rw [pagingPhyswrite, pagingPhyswrite, map_window_mem mem held addr window]
  cases mapWindow s addr with
  | none => rfl
  | some t =>
    simp only [Option.map_some, Option.bind_some, Machine.store, Option.map_map]
    rfl

/-- `paging_setpte_pd` does not look at the stack of free pages. -/
theorem setpte_pd_mem (held : Guarded dirs s) (inDirs : d ∈ dirs) (inside : virt < 2 ^ 32)
    (window : d ≠ s.curpd → (s.frames s.curpd 1022).present = true) (e : Entry) :
    pagingSetptePd { s with mem := mem } virt e d =
      (pagingSetptePd s virt e d).map fun t => { t with mem := mem } := by
  by_cases loaded : d = s.curpd
  · rw [pagingSetptePd, pagingSetptePd, if_pos loaded, if_pos loaded, setpte_mem, Option.map_map,
      Option.map_map]
    rfl
  · have other : d ≠ ({ s with mem := mem } : Machine).curpd := loaded
    rw [pagingSetptePd, pagingSetptePd, if_neg loaded, if_neg other, pagingGetpdePd,
      pagingGetpdePd, if_neg loaded, if_neg other, physread_mem mem held _ (window loaded)]
    cases got : pagingPhysread s (d * 4096 + 4 * addr2pde virt) with
    | none => rfl
    | some done =>
      obtain ⟨pde, t⟩ := done
      obtain ⟨peeks, shown, -⟩ :=
        physread_spec held (addr2pde_lt inside) (held.dir_is_table inDirs) got
      rw [← peeks.evolves.curpd] at shown
      exact physwrite_mem mem peeks.evolves.guarded _ e shown

end AnyStack

end MeinOS.Paging
