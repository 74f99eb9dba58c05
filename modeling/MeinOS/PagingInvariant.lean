import MeinOS.Paging

/-! What holds of the page tables of all address spaces together with the stack of
free pages, and how the ways in which the kernel changes a table keep it.

The page directories in use are the list `dirs`. Through its last entry a directory
maps itself and its tables, so that no page of the stack is mapped says as well that
no directory and no table is on the stack. -/
namespace MeinOS.Paging
open Memphys

/-- The page that a directory maps at entry `j` of the table in its slot `i`. -/
def Maps (s : Machine) (d i j page : Nat) : Prop :=
  (s.frames d i).present = true ∧ (s.frames (s.frames d i).page j).present = true ∧
    (s.frames (s.frames d i).page j).page = page

/-- A slot of some directory holds this page as its table. -/
def Table (dirs : List Nat) (s : Machine) (page : Nat) : Prop :=
  ∃ d ∈ dirs, ∃ i < 1024, (s.frames d i).present = true ∧ (s.frames d i).page = page

/-- What the directories themselves look like. -/
structure Directories (dirs : List Nat) (s : Machine) : Prop where
  recursive : ∀ d ∈ dirs, (s.frames d 1023).present = true ∧ (s.frames d 1023).page = d
  plain : ∀ d ∈ dirs, ∀ i < 1024, (s.frames d i).existing = false
  empty : ∀ d ∈ dirs, ∀ i < 1024, (s.frames d i).present = false → (s.frames d i).page = 0
  tables : ∀ d ∈ dirs, ∀ i < 1023, (s.frames d i).present = true →
    (s.frames d i).page ∉ dirs ∧ (s.frames d i).page ≠ 0
  kernel : ∀ d ∈ dirs, (s.frames d 0).present = true ∧ (s.frames d 1).present = true
  /-- The table that holds a directory's window page is in no other slot. -/
  window : ∀ d ∈ dirs, ∀ d' ∈ dirs, ∀ i < 1024, (d', i) ≠ (d, 1022) →
    (s.frames d 1022).present = true → (s.frames d' i).present = true →
      (s.frames d' i).page ≠ (s.frames d 1022).page

/-- The stack of free pages holds whole pages, none of them twice. -/
structure Stocked (mem : PhysMem) : Prop where
  nodup : (freePages mem).Nodup
  aligned : ∀ a ∈ freePages mem, a % 4096 = 0 ∧ a ≠ 0 ∧ a < 2 ^ 32
  bounded : mem.stackptr ≤ mem.stackend

/-- A page of physical memory that is not on the stack. -/
def Outside (mem : PhysMem) (page : Nat) : Prop := page < 2 ^ 20 ∧ page * 4096 ∉ freePages mem

/-- An entry that a page fault fills with a page of its own. -/
def Entry.Lazy (e : Entry) : Prop := e.existing = true ∧ (e.cow = true ∨ e.present = false)

structure Guarded (dirs : List Nat) (s : Machine) : Prop extends
    Directories dirs s, Stocked s.mem where
  loaded : s.curpd ∈ dirs
  /-- The window shows the page it was last used for, if it shows one. -/
  shown : s.lastpd ∈ dirs → ∀ page, Maps s s.lastpd 1022 1023 page → page = s.lastpage
  settled : ∀ d ∈ dirs, (s.frames d 1022).present = true →
    ¬ (s.frames (s.frames d 1022).page 1023).Lazy
  unmapped : ∀ d ∈ dirs, ∀ i < 1024, ∀ j < 1024, ∀ page, Maps s d i j page → Outside s.mem page

/-- The loaded directory maps itself through its last entry. -/
def SelfLinked (s : Machine) : Prop :=
  (s.frames s.curpd 1023).present = true ∧ (s.frames s.curpd 1023).page = s.curpd

variable {dirs : List Nat} {s s' : Machine} {d i j t page : Nat} {e : Entry}

theorem Guarded.linked (held : Guarded dirs s) : SelfLinked s := held.recursive s.curpd held.loaded

section Write

section
variable (s)

@[simp] theorem write_curpd (f k : Nat) (e : Entry) :
    (s.write f k e).curpd = s.curpd := rfl

theorem write_same (f k : Nat) (e : Entry) : (s.write f k e).frames f k = e := by
  simp [Machine.write]

theorem write_other_word (e : Entry) (other : k' ≠ k) :
    (s.write f k e).frames f k' = s.frames f k' := by
  simp [Machine.write, other]

theorem write_other_frame (e : Entry) (other : f' ≠ f) :
    (s.write f k e).frames f' = s.frames f' := by
  simp [Machine.write, other]

/-- A write changes one word. -/
theorem write_other (e : Entry) (other : (f', k') ≠ (f, k)) :
    (s.write f k e).frames f' k' = s.frames f' k' := by
  by_cases frame : f' = f
  · subst frame
    exact write_other_word s e fun eq => other (by rw [eq])
  · exact congrFun (write_other_frame s e frame) k'

theorem fill_same (f : Nat) (words : Nat → Entry) : (s.fill f words).frames f = words := by
  simp [Machine.fill]

theorem fill_other (words : Nat → Entry) (other : f' ≠ f) :
    (s.fill f words).frames f' = s.frames f' := by
  simp [Machine.fill, other]

end

theorem write_dir (notDir : t ∉ dirs) (inDirs : d ∈ dirs) : (s.write t k e).frames d = s.frames d :=
  write_other_frame s e fun eq => notDir (eq ▸ inDirs)

theorem fill_dir (notDir : t ∉ dirs) (inDirs : d ∈ dirs) : (s.fill t words).frames d = s.frames d :=
  fill_other s words fun eq => notDir (eq ▸ inDirs)

end Write

theorem Directories.of_same (held : Directories dirs s)
    (same : ∀ d ∈ dirs, s'.frames d = s.frames d) : Directories dirs s' where
  recursive d inDirs := by
    rw [same d inDirs]
    exact held.recursive d inDirs
  plain d inDirs := by
    rw [same d inDirs]
    exact held.plain d inDirs
  empty d inDirs := by
    rw [same d inDirs]
    exact held.empty d inDirs
  tables d inDirs := by
    rw [same d inDirs]
    exact held.tables d inDirs
  kernel d inDirs := by
    rw [same d inDirs]
    exact held.kernel d inDirs
  window d inDirs d' inDirs' := by
    rw [same d inDirs, same d' inDirs']
    exact held.window d inDirs d' inDirs'

section
variable (held : Guarded dirs s)
include held

theorem Guarded.table_not_dir (inDirs : d ∈ dirs) (slot : i < 1023)
    (present : (s.frames d i).present = true) : (s.frames d i).page ∉ dirs :=
  (held.tables d inDirs i slot present).1

/-- A table is mapped through the last entry of its directory. -/
theorem Guarded.maps_table (inDirs : d ∈ dirs)
    (present : (s.frames d i).present = true) : Maps s d 1023 i (s.frames d i).page := by
  obtain ⟨last, self⟩ := held.recursive d inDirs
  refine ⟨last, ?_, ?_⟩
  · rw [self]
    exact present
  · rw [self]

theorem Guarded.table_outside (table : Table dirs s page) :
    Outside s.mem page := by
  obtain ⟨d, inDirs, i, slot, present, rfl⟩ := table
  exact held.unmapped d inDirs 1023 (by omega) i slot _ (held.maps_table inDirs present)

theorem Guarded.dir_is_table (inDirs : d ∈ dirs) : Table dirs s d :=
  ⟨d, inDirs, 1023, by omega, (held.recursive d inDirs).1, (held.recursive d inDirs).2⟩

theorem Guarded.dir_outside (inDirs : d ∈ dirs) : Outside s.mem d :=
  held.table_outside (held.dir_is_table inDirs)

end

theorem Outside.of_fewer (outside : Outside mem page)
    (fewer : ∀ a ∈ freePages mem', a ∈ freePages mem) : Outside mem' page :=
  ⟨outside.1, fun free => outside.2 (fewer _ free)⟩

/-- A page that is neither a directory or a table nor on the stack. -/
structure Fresh (dirs : List Nat) (s : Machine) (page : Nat) : Prop where
  real : page ≠ 0
  outside : Outside s.mem page
  notTable : ¬ Table dirs s page

theorem Fresh.not_dir (held : Guarded dirs s) (fresh : Fresh dirs s page) : page ∉ dirs :=
  fun inDirs => fresh.notTable (held.dir_is_table inDirs)

/-- Taking a page from the stack leaves a proper stack without it. -/
theorem alloc_stocked (held : Stocked s.mem) {addr : Nat} (ran : memphysAlloc s = some (addr, s')) :
    (∃ mem, s' = { s with mem := mem }) ∧ Stocked s'.mem ∧
      freePages s.mem = freePages s'.mem ++ [addr] ∧ addr2page addr * 4096 = addr ∧
      addr2page addr ≠ 0 ∧ Outside s'.mem (addr2page addr) := by
  obtain ⟨⟨page, mem⟩, popped, same⟩ := Option.map_eq_some_iff.mp ran
  obtain ⟨rfl, rfl⟩ := Prod.mk.inj same
  obtain ⟨pages, bounded⟩ := pop_spec held.bounded popped
  obtain ⟨aligned, real, inside⟩ := held.aligned page (taken_free pages)
  have whole : addr2page page * 4096 = page := by
    rw [addr2page]
    omega
  have nodup := held.nodup
  rw [pages] at nodup
  obtain ⟨rest, -, apart⟩ := List.nodup_append.mp nodup
  refine ⟨⟨mem, rfl⟩, ⟨rest, fun a member => held.aligned a (rest_free pages a member), bounded⟩, pages,
    whole, by omega, by omega, ?_⟩
  rw [whole]
  exact fun again => apart page again page List.mem_cons_self rfl

/-- A page from the stack is fresh, and the tables are as before. -/
theorem alloc_guarded (held : Guarded dirs s) {addr : Nat}
    (ran : memphysAlloc s = some (addr, s')) :
    Guarded dirs s' ∧ Fresh dirs s' (addr2page addr) ∧ addr2page addr * 4096 = addr ∧
      (∃ mem, s' = { s with mem := mem }) ∧ freePages s.mem = freePages s'.mem ++ [addr] ∧
      ∀ d ∈ dirs, ∀ i < 1024, ∀ j < 1024, ¬ Maps s' d i j (addr2page addr) := by
  obtain ⟨⟨mem, rfl⟩, stocked, pages, whole, real, outside⟩ := alloc_stocked held.toStocked ran
  have onStack : addr2page addr * 4096 ∈ freePages s.mem := by
    rw [whole]
    exact taken_free pages
  refine ⟨?_, ⟨real, outside, ?_⟩, whole, ⟨mem, rfl⟩, pages, ?_⟩
  · exact { held with
      toDirectories := held.toDirectories.of_same fun _ _ => rfl
      toStocked := stocked
      unmapped := fun d inDirs i slot j entry page maps =>
        (held.unmapped d inDirs i slot j entry page maps).of_fewer (rest_free pages) }
  · exact fun table => (held.table_outside table).2 onStack
  · exact fun d inDirs i slot j entry maps =>
      (held.unmapped d inDirs i slot j entry _ maps).2 onStack

/-- The page that is handed out was on the stack. -/
theorem alloc_was_free (held : Guarded dirs s) {addr : Nat}
    (ran : memphysAlloc s = some (addr, s')) : addr2page addr * 4096 ∈ freePages s.mem := by
  obtain ⟨-, -, whole, -, pages, -⟩ := alloc_guarded held ran
  rw [whole]
  exact taken_free pages

/-- A write to a page that is no directory adds at most the mapping it writes. -/
theorem maps_write (notDir : t ∉ dirs) (inDirs : d ∈ dirs)
    (maps : Maps (s.write t k e) d i j page) :
    Maps s d i j page ∨ (e.present = true ∧ e.page = page ∧ (s.frames d i).page = t ∧ j = k) := by
  obtain ⟨table, entry, target⟩ := maps
  rw [write_dir notDir inDirs] at table entry target
  by_cases here : ((s.frames d i).page, j) = (t, k)
  · obtain ⟨rfl, rfl⟩ := Prod.mk.inj here
    rw [write_same] at entry target
    exact Or.inr ⟨entry, target, rfl, rfl⟩
  · rw [write_other s e here] at entry target
    exact Or.inl ⟨table, entry, target⟩

/-- Pointing an entry of a table to a page that is not on the stack. -/
theorem write_guarded (held : Guarded dirs s) (notDir : t ∉ dirs)
    (away : e.present = true → Outside s.mem e.page)
    (shown : lastpd ∈ dirs → ∀ page, Maps (s.write t k e) lastpd 1022 1023 page → page = lastpage)
    (settled : ∀ d ∈ dirs, (s.frames d 1022).present = true →
      ¬ ((s.write t k e).frames (s.frames d 1022).page 1023).Lazy) :
    Guarded dirs { s.write t k e with lastpage := lastpage, lastpd := lastpd } := by
  refine { held with
    toDirectories := held.toDirectories.of_same fun _ => write_dir notDir
    shown := shown
    settled := fun d inDirs present => ?_
    unmapped := fun d inDirs i slot j entry page maps => ?_ }
  · change ¬ ((s.write t k e).frames ((s.write t k e).frames d 1022).page 1023).Lazy
    change ((s.write t k e).frames d 1022).present = true at present
    rw [write_dir notDir inDirs] at present ⊢
    exact settled d inDirs present
  · rcases maps_write notDir inDirs maps with old | ⟨present, rfl, -, -⟩
    · exact held.unmapped d inDirs i slot j entry page old
    · exact away present

/-- The same, for an entry other than that of a window page. -/
theorem point_guarded (held : Guarded dirs s) (inDirs : d ∈ dirs) (slot : i < 1023)
    (present : (s.frames d i).present = true) (notWindow : (i, k) ≠ (1022, 1023))
    (away : e.present = true → Outside s.mem e.page) :
    Guarded dirs (s.write (s.frames d i).page k e) := by
  have notDir := held.table_not_dir inDirs slot present
  have kept : ∀ d' ∈ dirs, (s.frames d' 1022).present = true →
      (s.write (s.frames d i).page k e).frames (s.frames d' 1022).page 1023 =
        s.frames (s.frames d' 1022).page 1023 := by
    intro d' inDirs' table
    by_cases own : (d, i) = (d', 1022)
    · cases own
      exact write_other_word s e fun eq => notWindow (by rw [← eq])
    · have other := held.window d' inDirs' d inDirs i (by omega) own table present
      rw [write_other_frame s e other.symm]
  refine write_guarded held notDir away (fun last page maps => ?_) fun d' inDirs' table => ?_
  · obtain ⟨table, entry, target⟩ := maps
    rw [write_dir notDir last] at table entry target
    rw [kept s.lastpd last table] at entry target
    exact held.shown last page ⟨table, entry, target⟩
  · rw [kept d' inDirs' table]
    exact held.settled d' inDirs' table

/-- Overwriting a page that is neither a directory nor a table. -/
theorem fill_guarded (held : Guarded dirs s) (other : ¬ Table dirs s page)
    (words : Nat → Entry) : Guarded dirs (s.fill page words) := by
  have notDir : page ∉ dirs := fun inDirs => other (held.dir_is_table inDirs)
  have same : ∀ d ∈ dirs, (s.fill page words).frames d = s.frames d := fun _ => fill_dir notDir
  have kept : ∀ d ∈ dirs, ∀ i < 1024, (s.frames d i).present = true →
      (s.fill page words).frames (s.frames d i).page = s.frames (s.frames d i).page := by
    intro d inDirs i slot present
    exact fill_other s words fun eq => other ⟨d, inDirs, i, slot, present, eq⟩
  have maps : ∀ d ∈ dirs, ∀ i < 1024, ∀ j p, Maps (s.fill page words) d i j p ↔ Maps s d i j p := by
    intro d inDirs i slot j p
    rw [Maps, Maps, same d inDirs]
    refine and_congr_right fun present => ?_
    rw [kept d inDirs i slot present]
  refine { held with
    toDirectories := held.toDirectories.of_same same
    shown := fun last p mapped => held.shown last p ((maps _ last 1022 (by omega) _ p).mp mapped)
    settled := fun d inDirs present => ?_
    unmapped := fun d inDirs i slot j entry p mapped =>
      held.unmapped d inDirs i slot j entry p ((maps d inDirs i slot j p).mp mapped) }
  rw [same d inDirs] at present ⊢
  rw [kept d inDirs 1022 (by omega) present]
  exact held.settled d inDirs present

/-- A new, empty table in a slot of a directory. -/
def Machine.link (s : Machine) (d i addr : Nat) : Machine :=
  (s.write d i (tableEntry addr)).fill (addr2page addr) fun _ => blank

section Link
variable {addr : Nat}

theorem link_new (s : Machine) (other : d ≠ addr2page addr) :
    (s.link d i addr).frames d i = tableEntry addr := by
  rw [Machine.link, fill_other _ _ other, write_same]

theorem link_old_slot (s : Machine) (other : d' ≠ addr2page addr) (slot : (d', i') ≠ (d, i)) :
    (s.link d i addr).frames d' i' = s.frames d' i' := by
  rw [Machine.link, fill_other _ _ other]
  exact write_other s _ slot

theorem link_old_frame (s : Machine) (other : f ≠ addr2page addr) (notDir : f ≠ d) :
    (s.link d i addr).frames f = s.frames f := by
  rw [Machine.link, fill_other _ _ other, write_other_frame s _ notDir]

/-- Entering a page that is clean already. -/
theorem write_eq_link (other : d ≠ addr2page addr) (clean : s.frames (addr2page addr) = fun _ => blank) :
    s.write d i (tableEntry addr) = s.link d i addr := by
  have kept : (s.write d i (tableEntry addr)).frames (addr2page addr) = fun _ => blank := by
    rw [write_other_frame s _ other.symm, clean]
  rw [Machine.link, Machine.fill, ← kept, Function.update_eq_self]

theorem link_table (s : Machine) (d i addr k : Nat) :
    (s.link d i addr).frames (addr2page addr) k = blank := by
  rw [Machine.link, fill_same]

section
variable (held : Guarded dirs s) (fresh : Fresh dirs s (addr2page addr))
include held fresh

/-- A slot of a directory is the new one or as before. -/
theorem link_slot (inDirs' : d' ∈ dirs) (i' : Nat) :
    (s.link d i addr).frames d' i' = tableEntry addr ∧ (d', i') = (d, i) ∨
      (s.link d i addr).frames d' i' = s.frames d' i' ∧ (d', i') ≠ (d, i) := by
  have away : d' ≠ addr2page addr := fun eq => fresh.not_dir held (eq ▸ inDirs')
  by_cases same : (d', i') = (d, i)
  · obtain ⟨rfl, rfl⟩ := Prod.mk.inj same
    exact Or.inl ⟨link_new s away, rfl⟩
  · exact Or.inr ⟨link_old_slot s away same, same⟩

theorem link_slot_of {P : Entry → Prop} (inDirs' : d' ∈ dirs) (new : P (tableEntry addr))
    (old : P (s.frames d' i')) : P ((s.link d i addr).frames d' i') := by
  rcases link_slot (d := d) (i := i) held fresh inDirs' i' with ⟨same, -⟩ | ⟨same, -⟩
  · rw [same]
    exact new
  · rw [same]
    exact old

/-- Slots with different tables have different tables afterwards. -/
theorem link_apart (inDirs₁ : d₁ ∈ dirs) (inDirs₂ : d₂ ∈ dirs) (slot₁ : i₁ < 1024)
    (slot₂ : i₂ < 1024) (other : (d₂, i₂) ≠ (d₁, i₁))
    (apart : (s.frames d₁ i₁).present = true → (s.frames d₂ i₂).present = true →
      (s.frames d₂ i₂).page ≠ (s.frames d₁ i₁).page)
    (present₁ : ((s.link d i addr).frames d₁ i₁).present = true)
    (present₂ : ((s.link d i addr).frames d₂ i₂).present = true) :
    ((s.link d i addr).frames d₂ i₂).page ≠ ((s.link d i addr).frames d₁ i₁).page := by
  rcases link_slot (d := d) (i := i) held fresh inDirs₁ i₁ with ⟨new₁, at₁⟩ | ⟨old₁, -⟩
  · rcases link_slot (d := d) (i := i) held fresh inDirs₂ i₂ with ⟨-, at₂⟩ | ⟨old₂, -⟩
    · exact absurd (at₂.trans at₁.symm) other
    · rw [old₂] at present₂ ⊢
      rw [new₁]
      exact fun eq => fresh.notTable ⟨d₂, inDirs₂, i₂, slot₂, present₂, eq⟩
  · rw [old₁] at present₁ ⊢
    rcases link_slot (d := d) (i := i) held fresh inDirs₂ i₂ with ⟨new₂, -⟩ | ⟨old₂, -⟩
    · rw [new₂]
      exact fun eq => fresh.notTable ⟨d₁, inDirs₁, i₁, slot₁, present₁, eq.symm⟩
    · rw [old₂] at present₂ ⊢
      exact apart present₁ present₂

theorem link_tables (table : Table dirs (s.link d i addr) page) :
    page = addr2page addr ∨ Table dirs s page := by
  obtain ⟨d', inDirs', i', slot', present, rfl⟩ := table
  rcases link_slot held fresh inDirs' i' with ⟨new, -⟩ | ⟨old, -⟩
  · rw [new]
    exact Or.inl rfl
  · rw [old] at present ⊢
    exact Or.inr ⟨d', inDirs', i', slot', present, rfl⟩

theorem link_directories (slot : i < 1023) : Directories dirs (s.link d i addr) := by
  constructor
  · intro d' inDirs'
    rcases link_slot (d := d) (i := i) held fresh inDirs' 1023 with ⟨-, place⟩ | ⟨old, -⟩
    · cases place
      omega
    · rw [old]
      exact held.recursive d' inDirs'
  · intro d' inDirs' i' slot'
    exact link_slot_of (P := fun e => e.existing = false) held fresh inDirs' rfl
      (held.plain d' inDirs' i' slot')
  · intro d' inDirs' i' slot'
    exact link_slot_of (P := fun e => e.present = false → e.page = 0) held fresh inDirs'
      (fun absent => absurd absent (by simp [tableEntry])) (held.empty d' inDirs' i' slot')
  · intro d' inDirs' i' slot'
    exact link_slot_of (P := fun e => e.present = true → e.page ∉ dirs ∧ e.page ≠ 0) held fresh
      inDirs' (fun _ => ⟨fresh.not_dir held, fresh.real⟩) (held.tables d' inDirs' i' slot')
  · intro d' inDirs'
    obtain ⟨zero, one⟩ := held.kernel d' inDirs'
    exact ⟨link_slot_of (P := (·.present = true)) held fresh inDirs' rfl zero,
      link_slot_of (P := (·.present = true)) held fresh inDirs' rfl one⟩
  · intro d₁ inDirs₁ d₂ inDirs₂ i' slot' other
    exact link_apart held fresh inDirs₁ inDirs₂ (by omega) slot' other
      (held.window d₁ inDirs₁ d₂ inDirs₂ i' slot' other)

/-- The new table maps nothing, and is itself mapped only by the directory. -/
theorem maps_link (inDirs : d ∈ dirs) (inDirs' : d' ∈ dirs) (slot' : i' < 1024)
    (maps : Maps (s.link d i addr) d' i' j page) : Maps s d' i' j page ∨ page = addr2page addr := by
  obtain ⟨table, entry, target⟩ := maps
  rcases link_slot held fresh inDirs' i' with ⟨new, -⟩ | ⟨old, -⟩
  · rw [new] at entry
    simp only [tableEntry, link_table] at entry
    cases entry
  · rw [old] at table entry target
    have other : (s.frames d' i').page ≠ addr2page addr := fun eq =>
      fresh.notTable ⟨d', inDirs', i', slot', table, eq⟩
    by_cases self : (s.frames d' i').page = d
    · rcases link_slot held fresh inDirs j with ⟨new, -⟩ | ⟨kept, -⟩
      · rw [self, new] at target
        exact Or.inr target.symm
      · rw [self, kept, ← self] at entry target
        exact Or.inl ⟨table, entry, target⟩
    · rw [link_old_frame s other self] at entry target
      exact Or.inl ⟨table, entry, target⟩

/-- A table other than the new one is as before. -/
theorem link_other_table (inDirs : d ∈ dirs) (inDirs' : d' ∈ dirs) (slot' : i' < 1023)
    (present : (s.frames d' i').present = true) :
    (s.link d i addr).frames (s.frames d' i').page = s.frames (s.frames d' i').page := by
  refine link_old_frame s (fun eq => ?_) fun eq => ?_
  · exact fresh.notTable ⟨d', inDirs', i', by omega, present, eq⟩
  · exact held.table_not_dir inDirs' slot' present (eq ▸ inDirs)

theorem link_guarded (inDirs : d ∈ dirs) (slot : i < 1023) : Guarded dirs (s.link d i addr) := by
  refine { held with
    toDirectories := link_directories held fresh slot
    shown := fun last page maps => ?_
    settled := fun d' inDirs' present => ?_
    unmapped := fun d' inDirs' i' slot' j entry page maps => ?_ }
  · change s.lastpd ∈ dirs at last
    change Maps (s.link d i addr) s.lastpd 1022 1023 page at maps
    obtain ⟨table, entry, target⟩ := maps
    rcases link_slot held fresh last 1022 with ⟨new, -⟩ | ⟨old, -⟩
    · rw [new] at entry
      simp only [tableEntry, link_table] at entry
      cases entry
    · rw [old] at table entry target
      rw [link_other_table held fresh inDirs last (by omega) table] at entry target
      exact held.shown last page ⟨table, entry, target⟩
  · rcases link_slot held fresh inDirs' 1022 with ⟨new, -⟩ | ⟨old, -⟩
    · rw [new, tableEntry, link_table]
      exact fun filled => absurd filled.1 (by simp [blank])
    · rw [old] at present ⊢
      rw [link_other_table held fresh inDirs inDirs' (by omega) present]
      exact held.settled d' inDirs' present
  · rcases maps_link held fresh inDirs inDirs' slot' maps with old | rfl
    · exact held.unmapped d' inDirs' i' slot' j entry page old
    · exact fresh.outside

end

end Link

end MeinOS.Paging
