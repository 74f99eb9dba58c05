import MeinOS.MemuserPages
import MeinOS.PagingUser

/-! What the functions that work on any page directory do to the entries of all of them.

Looking into a directory that is not loaded moves the window page of the loaded one, and a
missing table is taken from the stack of free pages. Everything else stays as it was: this is
said once for each function, over all directories and over the contents of all other pages. -/
namespace MeinOS.Paging
open Memphys Memuser

variable {dirs : List Nat} {s s' m : Machine} {At At' : Nat → Nat → Prop} {d p virt page : Nat}
  {e : Entry}

/-- The page number of the window. -/
def windowPage : Nat := 0xFFBFF

/-- Of the entries below the window only those at `At` may have changed; of the pages in use
only tables were written. -/
structure Touches (dirs : List Nat) (At : Nat → Nat → Prop) (s s' : Machine) : Prop where
  guarded : Guarded dirs s'
  unshared : Unshared dirs s'
  curpd : s'.curpd = s.curpd
  fewer : ∀ a ∈ freePages s'.mem, a ∈ freePages s.mem
  tables : ∀ page, Table dirs s' page → page * 4096 ∈ freePages s.mem ∨ Table dirs s page
  pages : ∀ d ∈ dirs, ∀ p < windowPage, ¬ At d p → pageEntry s' d p = pageEntry s d p
  data : ∀ page, ¬ Table dirs s page → page * 4096 ∉ freePages s.mem →
    s'.frames page = s.frames page

/-- Just the entry of the page `p` in the directory `d`. -/
def Just (d p d' p' : Nat) : Prop := (d', p') = (d, p)

/-- Another directory in use is loaded. -/
theorem Guarded.load (held : Guarded dirs s) (inDirs : d ∈ dirs) :
    Guarded dirs { s with curpd := d } :=
  { held with
    toDirectories := held.toDirectories.of_same fun _ _ => rfl
    loaded := inDirs }

theorem Touches.refl (held : Guarded dirs s) (unshared : Unshared dirs s) : Touches dirs At s s :=
  ⟨held, unshared, rfl, fun _ member => member, fun _ table => Or.inr table,
    fun _ _ _ _ _ => rfl, fun _ _ _ => rfl⟩

theorem Touches.mono (touches : Touches dirs At s s') (wider : ∀ d p, At d p → At' d p) :
    Touches dirs At' s s' :=
  { touches with
    pages := fun d inDirs p below notAt =>
      touches.pages d inDirs p below fun there => notAt (wider d p there) }

/-- A page that was neither a table nor free is neither afterwards. -/
theorem Touches.stays_data (touches : Touches dirs At s s') (notTable : ¬ Table dirs s page)
    (notFree : page * 4096 ∉ freePages s.mem) :
    ¬ Table dirs s' page ∧ page * 4096 ∉ freePages s'.mem := by
  refine ⟨fun table => ?_, fun free => notFree (touches.fewer _ free)⟩
  rcases touches.tables page table with free | old
  · exact notFree free
  · exact notTable old

theorem Fresh.of_touches (fresh : Fresh dirs s page) (touches : Touches dirs At s s') :
    Fresh dirs s' page :=
  ⟨fresh.real, fresh.outside.of_fewer touches.fewer,
    (touches.stays_data fresh.notTable fresh.outside.2).1⟩

theorem Touches.trans (first : Touches dirs At s m) (second : Touches dirs At' m s') :
    Touches dirs (fun d p => At d p ∨ At' d p) s s' where
  guarded := second.guarded
  unshared := second.unshared
  curpd := second.curpd.trans first.curpd
  fewer a member := first.fewer a (second.fewer a member)
  tables page table := by
    rcases second.tables page table with free | old
    · exact Or.inl (first.fewer _ free)
    · exact first.tables page old
  pages d inDirs p below notAt := by
    rw [second.pages d inDirs p below fun there => notAt (Or.inr there),
      first.pages d inDirs p below fun there => notAt (Or.inl there)]
  data page notTable notFree := by
    obtain ⟨notTable', notFree'⟩ := first.stays_data notTable notFree
    rw [second.data page notTable' notFree', first.data page notTable notFree]

/-- Two steps at the same entries. -/
theorem Touches.append (first : Touches dirs At s m) (second : Touches dirs At m s') :
    Touches dirs At s s' :=
  (first.trans second).mono fun _ _ either => either.elim id id

/-- What is done while another directory is loaded. -/
theorem Touches.in_space (held : Guarded dirs s)
    (touches : Touches dirs At { s with curpd := d } s') :
    Touches dirs At s { s' with curpd := s.curpd } :=
  { touches with
    guarded := touches.guarded.load held.loaded
    unshared := touches.unshared
    curpd := rfl }

section Places

/-- A page below the window is none of the entries the kernel keeps for itself. -/
theorem page_not_window (below : p < windowPage) :
    p / 1024 < 1023 ∧ (p / 1024, p % 1024) ≠ (1022, 1023) := by
  rw [windowPage] at below
  rw [Ne, Prod.mk.injEq]
  omega

theorem user_slot (user : 2 ^ 18 ≤ p) : 256 ≤ p / 1024 := by omega

theorem addr_below_top (below : addr2page virt < windowPage) : virt < 2 ^ 32 := by
  rw [windowPage, addr2page] at below
  omega

/-- The entry that is meant by an address. -/
theorem entry_of_addr (s : Machine) (d virt : Nat) :
    entry s d (addr2pde virt) (addr2pte virt) = pageEntry s d (addr2page virt) := rfl

end Places

/-- A page that is mapped is in use. -/
theorem Guarded.entry_outside (held : Guarded dirs s) (inDirs : d ∈ dirs) (below : p < windowPage)
    (present : (pageEntry s d p).present = true) : Outside s.mem (pageEntry s d p).page := by
  have slot := (page_not_window below).1
  exact held.unmapped d inDirs (p / 1024) (by omega) (p % 1024) (by omega) _
    ((maps_iff_entry _ _ _ _ _).mpr ⟨present, rfl⟩)

/-- A look through the window touches nothing. -/
theorem Peeks.touches {Known : Nat → Prop} (peeks : Peeks dirs Known s s')
    (unshared : Unshared dirs s) : Touches dirs At s s' where
  guarded := peeks.evolves.guarded
  unshared := by
    intro d inDirs d' inDirs' i user slot i' slot' other present present'
    have guarded := peeks.evolves.guarded
    -- the table of the window may be new: then it is in this slot only
    by_cases first : (d, i) = (s.curpd, 1022)
    · obtain ⟨rfl, rfl⟩ := Prod.mk.inj first
      exact guarded.window _ inDirs d' inDirs' i' slot' other present present'
    by_cases second : (d', i') = (s.curpd, 1022)
    · obtain ⟨rfl, rfl⟩ := Prod.mk.inj second
      exact (guarded.window _ inDirs' d inDirs i (by omega) other.symm present' present).symm
    rw [peeks.slots d inDirs i first] at present ⊢
    rw [peeks.slots d' inDirs' i' second] at present' ⊢
    exact unshared d inDirs d' inDirs' i user slot i' slot' other present present'
  curpd := peeks.evolves.curpd
  fewer := peeks.evolves.fewer
  tables := peeks.evolves.tables
  pages d inDirs p below _ := page_peeked peeks inDirs below
  data := peeks.data

theorem alloc_touches (held : Guarded dirs s) (unshared : Unshared dirs s)
    (ran : memphysAlloc s = some (addr, s')) : Touches dirs At s s' := by
  have evolves : Evolves dirs (fun _ => True) s s' := alloc_evolves held ran
  obtain ⟨guarded, -, -, ⟨mem, rfl⟩, -, -⟩ := alloc_guarded held ran
  exact ⟨guarded, unshared.of_same fun _ _ => rfl, rfl, evolves.fewer, evolves.tables,
    fun _ _ _ _ _ => rfl, fun _ _ _ => rfl⟩

/-- Overwriting a page that is no table changes no entry. -/
theorem fill_entries (held : Guarded dirs s) (other : ¬ Table dirs s page) (inDirs : d ∈ dirs)
    (slot : i < 1024) (words : Nat → Entry) (j : Nat) :
    entry (s.fill page words) d i j = entry s d i j := by
  have notDir : d ≠ page := fun eq => other (eq ▸ held.dir_is_table inDirs)
  rw [entry, entry, fill_other s words notDir]
  by_cases present : (s.frames d i).present = true
  · have notPage : (s.frames d i).page ≠ page := fun eq => other ⟨d, inDirs, i, slot, present, eq⟩
    rw [if_pos present, if_pos present, fill_other s words notPage]
  · rw [if_neg present, if_neg present]

/-- A page that was free at first is overwritten. -/
theorem Touches.fill (before : Touches dirs At s m) (wasFree : page * 4096 ∈ freePages s.mem)
    (notTable : ¬ Table dirs m page) (words : Nat → Entry) :
    Touches dirs At s (m.fill page words) := by
  have notDir : page ∉ dirs := fun inDirs => notTable (before.guarded.dir_is_table inDirs)
  refine ⟨fill_guarded before.guarded notTable _,
    before.unshared.of_same fun _ => fill_dir notDir, before.curpd, before.fewer,
    fun p table => before.tables p (fill_tables notDir table), ?_, ?_⟩
  · intro d inDirs p below notAt
    have slot := (page_not_window below).1
    rw [← before.pages d inDirs p below notAt]
    exact fill_entries before.guarded notTable inDirs (by omega) _ _
  · intro p notTable' notFree
    rw [← before.data p notTable' notFree]
    exact fill_other m _ fun eq => notFree (eq ▸ wasFree)

/-- A new table for a slot that was empty at first. What the slot held meanwhile is lost. -/
theorem link_touches (held : Guarded dirs s) (absent : (s.frames d i).present = false)
    (inDirs : d ∈ dirs) (slot : i < 1023) (before : Touches dirs At s m)
    (fresh : Fresh dirs m (addr2page addr)) (wasFree : addr2page addr * 4096 ∈ freePages s.mem) :
    Touches dirs At s (m.link d i addr) := by
  have guarded := before.guarded
  refine ⟨link_guarded guarded fresh inDirs slot, link_unshared guarded before.unshared fresh,
    before.curpd, before.fewer, ?_, ?_, ?_⟩
  · intro page table
    rcases link_tables guarded fresh table with rfl | old
    · exact Or.inl wasFree
    · exact before.tables page old
  · intro d' inDirs' p below notAt
    rw [← before.pages d' inDirs' p below notAt, pageEntry, pageEntry]
    rcases link_slot (d := d) (i := i) guarded fresh inDirs' (p / 1024) with ⟨new, place⟩ | ⟨kept, -⟩
    · obtain ⟨rfl, rfl⟩ := Prod.mk.inj place
      have empty : pageEntry s d' p = blank := by
        rw [pageEntry, entry, absent]
        rfl
      have same := before.pages d' inDirs' p below notAt
      rw [empty, pageEntry] at same
      rw [same, entry, new]
      simp [tableEntry, link_table]
    · rw [entry, entry, kept]
      by_cases present : (m.frames d' (p / 1024)).present = true
      · rw [if_pos present, if_pos present,
          link_other_table guarded fresh inDirs inDirs' (page_not_window below).1 present]
      · rw [if_neg present, if_neg present]
  · intro page notTable notFree
    rw [← before.data page notTable notFree]
    refine link_old_frame m (fun eq => notFree (eq ▸ wasFree)) fun eq => notTable ?_
    exact eq ▸ held.dir_is_table inDirs

section
variable (held : Guarded dirs s) (unshared : Unshared dirs s) (inDirs : d ∈ dirs)
include held unshared inDirs

theorem create_pagetable_touches (inside : virt < 2 ^ 32) (slot : addr2pde virt < 1023)
    (absent : (s.frames d (addr2pde virt)).present = false)
    (ran : memuserCreatePagetable s d virt = some s') : Touches dirs At s s' := by
  obtain ⟨addr, a, m, t, taken, peeks, notTable, look, fresh, rfl⟩ :=
    create_pagetable_eq held inDirs inside ran
  have wasFree := alloc_was_free held taken
  have first : Touches dirs At s a := alloc_touches held unshared taken
  have second := first.append (peeks.touches first.unshared)
  have third := second.fill wasFree notTable fun _ => blank
  have fourth := third.append (look.touches third.unshared)
  exact link_touches held absent inDirs slot fourth fresh wasFree

theorem need_pagetable_touches (inside : virt < 2 ^ 32) (slot : addr2pde virt < 1023)
    (ran : needPagetable s d virt = some s') : Touches dirs At s s' := by
  obtain ⟨⟨pde, m⟩, got, ran⟩ := Option.bind_eq_some_iff.mp ran
  obtain ⟨rfl, peeks, same⟩ := getpde_pd_spec held inDirs inside got
  have first : Touches dirs At s m := peeks.touches unshared
  by_cases present : (s.frames d (addr2pde virt)).present = true
  · simp only [present, if_true] at ran
    cases ran
    exact first
  · simp only [present] at ran
    have absent : (m.frames d (addr2pde virt)).present = false := by
      rw [peeks.own_slots inDirs same]
      exact Bool.eq_false_of_not_eq_true present
    exact first.append
      (create_pagetable_touches first.guarded first.unshared inDirs inside slot absent ran)

/-- A write to one entry of a table of user memory. -/
theorem write_touches (user : 2 ^ 18 ≤ p) (below : p < windowPage)
    (present : (s.frames d (p / 1024)).present = true)
    (away : e.present = true → Outside s.mem e.page) :
    Touches dirs (Just d p) s (s.write (s.frames d (p / 1024)).page (p % 1024) e) ∧
      pageEntry (s.write (s.frames d (p / 1024)).page (p % 1024) e) d p = e := by
  obtain ⟨slot, notWindow⟩ := page_not_window below
  have notDir := held.table_not_dir inDirs slot present
  refine ⟨⟨point_guarded held inDirs slot present notWindow away,
    unshared.of_same fun _ => write_dir notDir, rfl, fun _ member => member,
    fun _ table => Or.inr (write_tables notDir table), ?_, ?_⟩, ?_⟩
  · intro d' inDirs' p' below' other
    have slot' := (page_not_window below').1
    rw [pageEntry, pageEntry, entry_write notDir inDirs']
    apply if_neg
    rintro ⟨there, shared, word⟩
    apply other
    by_cases here : (d', p' / 1024) = (d, p / 1024)
    · simp only [Just, Prod.mk.injEq] at here ⊢
      omega
    · exact absurd shared (unshared d inDirs d' inDirs' _ (user_slot user) slot _
        (by omega) here present there)
  · intro page notTable _
    refine write_other_frame s e fun eq => notTable ?_
    exact ⟨d, inDirs, p / 1024, by omega, present, eq.symm⟩
  · rw [pageEntry, entry_write notDir inDirs, if_pos ⟨present, rfl, rfl⟩]

theorem setpte_pd_touches (user : 2 ^ 18 ≤ addr2page virt) (below : addr2page virt < windowPage)
    (present : (s.frames d (addr2pde virt)).present = true)
    (away : e.present = true → Outside s.mem e.page) (ran : pagingSetptePd s virt e d = some s') :
    Touches dirs (Just d (addr2page virt)) s s' ∧ pageEntry s' d (addr2page virt) = e := by
  obtain ⟨slot, -⟩ := page_not_window below
  obtain ⟨m, peeks, same, rfl⟩ :=
    setpte_pd_spec held inDirs (addr_below_top below) slot present ran
  have first : Touches dirs (Just d (addr2page virt)) s m := peeks.touches unshared
  rw [← same] at present ⊢
  obtain ⟨second, written⟩ := write_touches first.guarded first.unshared inDirs user below present
    fun there => (away there).of_fewer first.fewer
  exact ⟨first.append second, written⟩

end

/-- The table that `paging_map_pd` needs in the loaded directory. -/
theorem ensure_touches (held : Guarded dirs s) (unshared : Unshared dirs s)
    (inside : virt < 2 ^ 32) (slot : addr2pde virt < 1023) (ran : ensureTable s virt = some m) :
    Touches dirs At s m ∧ (m.frames s.curpd (addr2pde virt)).present = true := by
  have ready := ensure_table held inside slot ran
  have evolves := ready.evolves fun _ => True
  refine ⟨⟨evolves.guarded, (ensure_unshared held unshared inside slot ran).1, evolves.curpd,
    evolves.fewer, evolves.tables, fun d inDirs p below _ => ?_, ready.data⟩, ready.present⟩
  exact ready.entries d inDirs _ (page_not_window below).1 _

/-- `paging_map_pd` writes one entry of the loaded directory. -/
theorem map_pd_eq (held : Guarded dirs s) (inside : virt < 2 ^ 32) (slot : addr2pde virt < 1023)
    (phys : Nat) (user writable swappable cow : Bool) :
    pagingMapPd s virt phys user writable swappable cow s.curpd =
      (ensureTable s virt).map fun m => m.write (m.frames s.curpd (addr2pde virt)).page (addr2pte virt)
          (mapPdEntry phys user writable swappable cow) := by
  rw [pagingMapPd, pagingGetpdePd, if_pos rfl, getpde_eq held.linked inside, Option.map_some,
    Option.bind_some]
  simp only [map_pd_adds_table]
  rw [← ensureTable]
  cases readied : ensureTable s virt with
  | none => rfl
  | some m =>
    have ready := ensure_table held inside slot readied
    have evolves := ready.evolves fun _ => True
    rw [Option.bind_some, pagingSetptePd, if_pos evolves.curpd.symm,
      setpte_eq evolves.guarded.linked inside, evolves.curpd, if_pos ready.present]
    rfl

section
variable (held : Guarded dirs s) (unshared : Unshared dirs s) (user : 2 ^ 18 ≤ addr2page virt)
  (below : addr2page virt < windowPage)
include held unshared user below

theorem map_pd_touches {writable swappable cow : Bool} (away : Outside s.mem (addr2page phys))
    (ran : pagingMapPd s virt phys true writable swappable cow s.curpd = some s') :
    Touches dirs (Just s.curpd (addr2page virt)) s s' ∧
      pageEntry s' s.curpd (addr2page virt) = mapPdEntry phys true writable swappable cow := by
  obtain ⟨slot, -⟩ := page_not_window below
  have inside := addr_below_top below
  rw [map_pd_eq held inside slot] at ran
  obtain ⟨m, readied, rfl⟩ := Option.map_eq_some_iff.mp ran
  obtain ⟨touches, present⟩ : Touches dirs (Just s.curpd (addr2page virt)) s m ∧ _ :=
    ensure_touches held unshared inside slot readied
  obtain ⟨second, written⟩ := write_touches (e := mapPdEntry phys true writable swappable cow)
    touches.guarded touches.unshared held.loaded user below present fun _ => away.of_fewer touches.fewer
  exact ⟨touches.append second, written⟩

/-- `paging_unmap` of a user page of the loaded directory. -/
theorem unmap_touches (ran : pagingUnmap s virt = some (addr, s')) :
    Touches dirs (Just s.curpd (addr2page virt)) s s' ∧
      pageEntry s' s.curpd (addr2page virt) = blank ∧ s'.mem = s.mem ∧
      addr = if (pageEntry s s.curpd (addr2page virt)).present then
        (pageEntry s s.curpd (addr2page virt)).page * 4096 else 0 := by
  have inside := addr_below_top below
  rw [unmap_result held.linked inside] at ran
  cases ran
  by_cases present : (s.frames s.curpd (addr2pde virt)).present = true
  · rw [if_pos present]
    obtain ⟨touches, written⟩ := write_touches (e := blank) held unshared held.loaded user below
      present fun there => absurd there (by simp [blank])
    exact ⟨touches, written, rfl, rfl⟩
  · rw [if_neg present]
    refine ⟨.refl held unshared, ?_, rfl, rfl⟩
    exact if_neg present

end

/-- The table of an entry that exists. -/
theorem slot_of_existing (existing : (pageEntry s d p).existing = true) :
    (s.frames d (p / 1024)).present = true := by
  by_contra absent
  rw [pageEntry, entry, if_neg absent] at existing
  cases existing

/-- In the address space of `oneSpace` only the kernel's tables are shared. -/
theorem one_space_unshared : Unshared oneSpace.pagedirs oneSpace.machine := by
  intro d inDirs d' inDirs' i user slot i' slot' other present present'
  have table := one_space_tables inDirs present
  have table' := one_space_tables inDirs' present'
  have either := one_space_dirs inDirs'
  simp only [ne_eq, Prod.mk.injEq] at other
  omega

/-- A user page of `oneSpace` is the page of the stack, or nothing exists there. -/
theorem one_space_user (inDirs : d ∈ oneSpace.pagedirs) (user : 2 ^ 18 ≤ p) (below : p ≤ windowPage) :
    (d = 0x310 ∧ p = 0xFFBFE ∧ pageEntry oneSpace.machine d p = loadedEntry 0x312) ∨
      (¬ (d = 0x310 ∧ p = 0xFFBFE) ∧ pageEntry oneSpace.machine d p = blank) := by
  rw [windowPage] at below
  rw [pageEntry, one_space_entry inDirs (by omega), if_neg (by omega), if_neg (by omega)]
  split_ifs with stack
  · exact Or.inl ⟨stack.1, by omega, rfl⟩
  · exact Or.inr ⟨by omega, rfl⟩

end MeinOS.Paging
