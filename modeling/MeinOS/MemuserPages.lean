import MeinOS.Lib.Runs
import MeinOS.MemuserFindvirt

/-! Who owns the physical pages of user memory.

Every call of `memuser.c` keeps the invariant of the page tables, with one exception.
`memuser_free` looks at the entry of `addrspace->stack` instead of the page it frees, so
it puts the page of the stack on the stack of free pages, and this page stays mapped
unless the freed page is the stack page itself. -/
namespace MeinOS.Memuser
open Lib Lib.Runs Llist Memphys Paging

variable {dirs : List Nat} {s s' : Machine} {space space' : Addrspace} {virt d : Nat}

section
variable (held : Guarded dirs s) (inDirs : d ∈ dirs)
include held inDirs

/-- A page is taken and cleared before it is entered in the directory as a table. -/
theorem create_pagetable_eq (inside : virt < 2 ^ 32)
    (ran : memuserCreatePagetable s d virt = some s') :
    ∃ addr a m t, memphysAlloc s = some (addr, a) ∧ Peeks dirs (· = addr2page addr) a m ∧
      ¬ Table dirs m (addr2page addr) ∧
      Peeks dirs (Table dirs (m.fill (addr2page addr) fun _ => blank))
        (m.fill (addr2page addr) fun _ => blank) t ∧
      Fresh dirs t (addr2page addr) ∧ s' = t.link d (addr2pde virt) addr := by
  obtain ⟨⟨addr, a⟩, taken, ran⟩ := Option.bind_eq_some_iff.mp ran
  obtain ⟨⟨page, b⟩, cleaned, ran⟩ := Option.bind_eq_some_iff.mp ran
  obtain ⟨guarded, fresh, -⟩ := alloc_guarded held taken
  obtain ⟨rfl, m, peeks, rfl⟩ := cleanpage_spec guarded fresh cleaned
  have guarded := peeks.evolves.guarded
  have fresh := fresh.of_evolves peeks.evolves
  have notTable := fresh.notTable
  have notDir := fresh.not_dir guarded
  -- the cleaned page is in no table yet
  have fresh : Fresh dirs (m.fill (addr2page page) fun _ => blank) (addr2page page) :=
    ⟨fresh.real, fresh.outside, fun table => notTable (fill_tables notDir table)⟩
  obtain ⟨t, look, -, rfl⟩ := setpde_pd_spec (fill_guarded guarded notTable _) inDirs inside ran
  have clean : t.frames (addr2page page) = fun _ => blank := by
    rw [look.data _ fresh.notTable fresh.outside.2, fill_same]
  exact ⟨page, a, m, t, taken, peeks, notTable, look, fresh.of_evolves look.evolves,
    write_eq_link (fun eq => notDir (eq ▸ inDirs)) clean⟩

theorem create_pagetable_spec (inside : virt < 2 ^ 32)
    (slot : addr2pde virt < 1023) (ran : memuserCreatePagetable s d virt = some s') :
    Guarded dirs s' ∧ s'.curpd = s.curpd ∧ (s'.frames d (addr2pde virt)).present = true := by
  obtain ⟨addr, a, m, t, taken, peeks, -, look, fresh, rfl⟩ :=
    create_pagetable_eq held inDirs inside ran
  have guarded := look.evolves.guarded
  refine ⟨link_guarded guarded fresh inDirs slot, ?_, ?_⟩
  · obtain ⟨-, -, -, ⟨mem, rfl⟩, -, -⟩ := alloc_guarded held taken
    exact look.evolves.curpd.trans peeks.evolves.curpd
  · rw [link_new t fun eq => fresh.not_dir guarded (eq ▸ inDirs)]
    rfl

theorem need_pagetable_spec (inside : virt < 2 ^ 32)
    (slot : addr2pde virt < 1023) (ran : needPagetable s d virt = some s') :
    Guarded dirs s' ∧ s'.curpd = s.curpd ∧ (s'.frames d (addr2pde virt)).present = true := by
  obtain ⟨⟨pde, m⟩, got, ran⟩ := Option.bind_eq_some_iff.mp ran
  obtain ⟨rfl, peeks, same⟩ := getpde_pd_spec held inDirs inside got
  by_cases present : (s.frames d (addr2pde virt)).present = true
  · simp only [present, if_true] at ran
    cases ran
    refine ⟨peeks.evolves.guarded, peeks.evolves.curpd, ?_⟩
    rw [peeks.own_slots inDirs same]
    exact present
  · simp only [present] at ran
    obtain ⟨guarded, curpd, there⟩ :=
      create_pagetable_spec peeks.evolves.guarded inDirs inside slot ran
    exact ⟨guarded, curpd.trans peeks.evolves.curpd, there⟩

/-- Setting an entry below the window page. -/
theorem setpte_pd_guarded
    (below : virt < bufpageAddress) (present : (s.frames d (addr2pde virt)).present = true)
    (away : e.present = true → Outside s.mem e.page)
    (ran : pagingSetptePd s virt e d = some s') : Guarded dirs s' := by
  obtain ⟨slot, notWindow⟩ := below_window below
  obtain ⟨m, peeks, same, rfl⟩ := setpte_pd_spec held inDirs (below_top below) slot present ran
  rw [← same] at present ⊢
  exact point_guarded peeks.evolves.guarded inDirs slot present notWindow fun there =>
    (away there).of_fewer peeks.evolves.fewer

end

theorem alloc_pages_guarded (swappable : Bool) (left virt : Nat) (held : Guarded dirs s)
    (inDirs : space.pagedir ∈ dirs) (below : virt + left * 4096 ≤ bufpageAddress)
    (ran : allocPages swappable left virt s space = some (s', space')) :
    Guarded dirs s' ∧ space'.pagedir = space.pagedir ∧ space'.stack = space.stack := by
  induction left generalizing virt s space with
  | zero =>
    cases ran
    exact ⟨held, rfl, rfl⟩
  | succ left ih =>
    have here := first_below below
    obtain ⟨m, needed, ran⟩ := Option.bind_eq_some_iff.mp ran
    obtain ⟨guarded, -, present⟩ :=
      need_pagetable_spec held inDirs (below_top here) (below_window here).1 needed
    obtain ⟨t, set, ran⟩ := Option.bind_eq_some_iff.mp ran
    have kept := setpte_pd_guarded guarded inDirs here present
      (fun there => absurd there (by simp [imaginaryEntry, blank])) set
    obtain ⟨done, pagedir, stack⟩ := ih (virt + 4096) kept (by exact inDirs) (by linarith) ran
    exact ⟨done, pagedir, stack⟩

theorem alloc_at_guarded (held : Guarded dirs s) (inDirs : space.pagedir ∈ dirs)
    (below : virt < bufpageAddress)
    (ran : memuserAllocAt s space virt 0 writable = some (s', space')) :
    Guarded dirs s' ∧ space' = { space with pagesLoaded := space'.pagesLoaded } := by
  obtain ⟨m, needed, ran⟩ := Option.bind_eq_some_iff.mp ran
  obtain ⟨slot, -⟩ := below_window below
  obtain ⟨guarded, -, present⟩ := need_pagetable_spec held inDirs (below_top below) slot needed
  obtain ⟨⟨old, t⟩, got, ran⟩ := Option.bind_eq_some_iff.mp ran
  obtain ⟨-, peeks, same⟩ := getpte_pd_spec guarded inDirs (below_top below) slot got
  rw [← peeks.own_slots inDirs same] at present
  obtain ⟨⟨phys, u⟩, taken, ran⟩ := Option.bind_eq_some_iff.mp ran
  rw [if_pos rfl] at taken
  obtain ⟨guarded, fresh, -, ⟨mem, rfl⟩, -, -⟩ := alloc_guarded peeks.evolves.guarded taken
  obtain ⟨v, set, same⟩ := Option.map_eq_some_iff.mp ran
  cases same
  exact ⟨setpte_pd_guarded guarded inDirs below present (fun _ => fresh.outside) set, rfl⟩

theorem expand_stack_guarded (held : Guarded dirs s) (inDirs : space.pagedir ∈ dirs)
    (real : 4096 ≤ space.stack) (low : space.stack ≤ userstackEnd)
    (ran : memuserExpandStack s space = some (s', space')) :
    Guarded dirs s' ∧ space'.pagedir = space.pagedir ∧ space'.stack ≤ userstackEnd := by
  have next : (space.stack + (2 ^ 32 - 4096)) % 2 ^ 32 = space.stack - 4096 := by
    rw [userstackEnd, bufpageAddress] at low
    omega
  simp only [memuserExpandStack, next] at ran
  have below : space.stack - 4096 < bufpageAddress := by
    rw [userstackEnd] at low
    omega
  obtain ⟨guarded, same⟩ := alloc_at_guarded held (by exact inDirs) below ran
  rw [same]
  refine ⟨guarded, rfl, ?_⟩
  simp only
  omega

/-- The only mapping of a page. -/
def OnlyAt (dirs : List Nat) (s : Machine) (d i j page : Nat) : Prop :=
  ∀ d' ∈ dirs, ∀ i' < 1024, ∀ j' < 1024, Maps s d' i' j' page → (d', i', j') = (d, i, j)

/-- What is in memory at `addrspace->stack`. -/
def stackEntry (s : Machine) (space : Addrspace) : Entry :=
  entry s space.pagedir (addr2pde space.stack) (addr2pte space.stack)

/-- The page that `memuser_free` gives back is no real one, or is the page it unmaps and
mapped nowhere else. -/
def GivesOwn (dirs : List Nat) (s : Machine) (space : Addrspace) (page : Nat) : Prop :=
  (stackEntry s space).present = false ∨ (stackEntry s space).page = 0 ∨
    (addr2page page = addr2page space.stack ∧
      OnlyAt dirs s space.pagedir (addr2pde page) (addr2pte page) (stackEntry s space).page)

/-- Nothing else maps a page after its only mapping is cleared. -/
theorem cleared_unmapped (held : Guarded dirs s) (inDirs : d ∈ dirs) (slot : i < 1023)
    (maps : Maps s d i j frame) (only : OnlyAt dirs s d i j frame)
    (peeks : Peeks dirs (Table dirs s) s m) (same : m.frames d i = s.frames d i)
    (inside : j < 1024) (inDirs' : d' ∈ dirs) (slot' : i' < 1024) (inside' : j' < 1024) :
    ¬ Maps (m.write (s.frames d i).page j blank) d' i' j' frame := by
  intro again
  have notDir := held.table_not_dir inDirs slot maps.1
  have outside := held.unmapped d inDirs i (by omega) j inside frame maps
  rcases maps_write notDir inDirs' again with old | ⟨there, -⟩
  · have before : Maps s d' i' j' frame := by
      rcases peeks.evolves.maps d' inDirs' i' slot' j' inside' frame old with first | free | table
      · exact first
      · exact absurd free outside.2
      · obtain ⟨d'', inDirs'', k, slot'', present, rfl⟩ := table
        have here := only d'' inDirs'' 1023 (by omega) k slot'' (held.maps_table inDirs'' present)
        simp only [Prod.mk.injEq] at here
        omega
    have here := only d' inDirs' i' slot' j' inside' before
    simp only [Prod.mk.injEq] at here
    obtain ⟨rfl, rfl, rfl⟩ := here
    have there := again.2.1
    rw [write_dir notDir inDirs, same, write_same] at there
    cases there
  · cases there

section
variable (held : Guarded dirs s) (inDirs : d ∈ dirs) (below : page < bufpageAddress)
  (present : (s.frames d (addr2pde page)).present = true)
include held inDirs below present

theorem clear_guarded (ran : pagingSetptePd s page blank d = some s') : Guarded dirs s' :=
  setpte_pd_guarded held inDirs below present (fun there => absurd there (by simp [blank])) ran

/-- A page goes to the stack while it is still mapped, and then loses its only mapping. -/
theorem give_back_guarded (peeks : Peeks dirs (Table dirs s) s m)
    (state : if d = s.curpd then m = s else (m.frames s.curpd 1022).present = true)
    (own : frame = 0 ∨ Maps s d (addr2pde page) (addr2pte page) frame ∧
      OnlyAt dirs s d (addr2pde page) (addr2pte page) frame)
    (freed : memphysFree m (frame * 4096) = some t) (set : pagingSetptePd t page blank d = some u) :
    Guarded dirs u := by
  have guarded := peeks.evolves.guarded
  have kept := peeks.own_slots inDirs state (addr2pde page)
  rw [← kept] at present
  rcases own with rfl | ⟨maps, only⟩
  · cases freed
    exact clear_guarded guarded inDirs below present set
  · obtain ⟨slot, -⟩ := below_window below
    have outside := held.unmapped d inDirs _ (by omega) _ (addr2pte_lt page) frame maps
    by_cases real : frame = 0
    · rw [real] at freed
      cases freed
      exact clear_guarded guarded inDirs below present set
    rcases free_spec guarded real (outside.of_fewer peeks.evolves.fewer) freed with
      ⟨same, stocked, pages⟩ | ⟨grown, -, frames⟩
    · have window : d ≠ m.curpd → (m.frames m.curpd 1022).present = true := by
        intro other
        rw [peeks.evolves.curpd] at other ⊢
        rwa [if_neg other] at state
      have unstacked := setpte_pd_mem t.mem guarded inDirs (below_top below) window blank
      rw [← same, set] at unstacked
      obtain ⟨v, cleared, rfl⟩ := Option.map_eq_some_iff.mp unstacked.symm
      have kept' : v.mem = m.mem := by
        have again := setpte_pd_mem m.mem guarded inDirs (below_top below) window blank
        change pagingSetptePd m page blank d = _ at again
        rw [cleared, Option.map_some, Option.some.injEq] at again
        rw [again]
      have guarded' := clear_guarded guarded inDirs below present cleared
      refine restock_guarded guarded' stocked fun d' inDirs' i' slot' j' inside' p mapped => ?_
      have old := guarded'.unmapped d' inDirs' i' slot' j' inside' p mapped
      refine ⟨old.1, fun free => ?_⟩
      rw [pages, List.mem_append, List.mem_singleton] at free
      rcases free with before | new
      · rw [kept'] at old
        exact old.2 before
      · obtain rfl : p = frame := by omega
        obtain ⟨m', second, same', rfl⟩ :=
          setpte_pd_spec guarded inDirs (below_top below) slot present cleared
        rw [kept] at mapped
        exact cleared_unmapped held inDirs slot maps only (peeks.trans second)
          (same'.trans kept) (addr2pte_lt page) inDirs' slot' inside' mapped
    · refine clear_guarded grown inDirs below ?_ set
      rw [frames d inDirs]
      exact present

end

section
variable (held : Guarded dirs s)
include held

theorem free_guarded (inDirs : space.pagedir ∈ dirs) (low : space.stack ≤ userstackEnd)
    (below : page < bufpageAddress)
    (present : (s.frames space.pagedir (addr2pde page)).present = true)
    (own : GivesOwn dirs s space page) (ran : memuserFree s space page = some (s', space')) :
    Guarded dirs s' ∧ space'.pagedir = space.pagedir ∧ space'.stack = space.stack := by
  by_cases null : page = 0
  · rw [memuserFree, if_pos null] at ran
    cases ran
    exact ⟨held, rfl, rfl⟩
  rw [memuserFree, if_neg null] at ran
  obtain ⟨⟨pte, m⟩, got, ran⟩ := Option.bind_eq_some_iff.mp ran
  have stackLow : addr2pde space.stack < 1023 ∧ space.stack < 2 ^ 32 := by
    rw [userstackEnd, bufpageAddress] at low
    rw [addr2pde, addr2page]
    omega
  obtain ⟨slot, notWindow⟩ := below_window below
  obtain ⟨same, peeks, state⟩ := getpte_pd_spec held inDirs stackLow.2 stackLow.1 got
  have guarded := peeks.evolves.guarded
  obtain ⟨⟨t, left⟩, done, ran⟩ := Option.bind_eq_some_iff.mp ran
  obtain ⟨u, set, same'⟩ := Option.map_eq_some_iff.mp ran
  cases same'
  by_cases loaded : pte.present = true
  · simp only [loaded, if_true] at done
    obtain ⟨v, freed, same'⟩ := Option.map_eq_some_iff.mp done
    cases same'
    refine ⟨give_back_guarded held inDirs below present peeks state ?_ freed set, rfl, rfl⟩
    rw [same] at loaded ⊢
    rcases own with absent | zero | ⟨here, only⟩
    · rw [stackEntry, loaded] at absent
      cases absent
    · exact Or.inl zero
    · refine Or.inr ⟨?_, only⟩
      rw [maps_iff_entry, addr2pde, addr2pte, here]
      exact ⟨loaded, rfl⟩
  · rw [← peeks.own_slots inDirs state] at present
    simp only [loaded, Bool.false_eq_true, if_false] at done
    split at done
    · cases done
      exact ⟨clear_guarded guarded inDirs below present set, rfl, rfl⟩
    · split at done
      all_goals
        obtain ⟨⟨addr, v⟩, unmapped, same'⟩ := Option.map_eq_some_iff.mp done
        cases same'
        obtain ⟨kept, -, frames⟩ := unmap_spec guarded (below_top below) slot notWindow unmapped
        rw [← frames _ inDirs] at present
        exact ⟨clear_guarded kept inDirs below present set, rfl, rfl⟩

/-- A page fault fills no entry of a directory and no window page. -/
theorem lazy_place (slot : i < 1024) (inTable : j < 1024) (lazy : (entry s s.curpd i j).Lazy) :
    (s.frames s.curpd i).present = true ∧ i < 1023 ∧ (i, j) ≠ (1022, 1023) := by
  have present : (s.frames s.curpd i).present = true := by
    by_contra absent
    rw [entry, if_neg absent] at lazy
    exact absurd lazy.1 (by simp [blank])
  rw [entry_present s j present] at lazy
  refine ⟨present, ?_, fun window => ?_⟩
  · by_contra last
    obtain rfl : i = 1023 := by omega
    rw [(held.recursive s.curpd held.loaded).2] at lazy
    have plain := held.plain s.curpd held.loaded j inTable
    rw [lazy.1] at plain
    cases plain
  · obtain ⟨rfl, rfl⟩ := Prod.mk.inj window
    exact held.settled s.curpd held.loaded present lazy

/-- A fresh page for an entry of the loaded directory. -/
theorem fill_entry_guarded (inside : virt < 2 ^ 32)
    (lazy : (entry s s.curpd (addr2pde virt) (addr2pte virt)).Lazy)
    (taken : memphysAlloc s = some (new, m)) (target : e.page = addr2page new)
    (set : pagingSetpte m virt e = some (ok, t)) :
    Guarded dirs t ∧ Fresh dirs t (addr2page new) ∧ t.curpd = s.curpd ∧
      (∀ a ∈ freePages t.mem, a ∈ freePages s.mem) ∧
      entry t s.curpd (addr2pde virt) (addr2pte virt) = e := by
  obtain ⟨present, slot, notWindow⟩ :=
    lazy_place held (addr2pde_lt inside) (addr2pte_lt virt) lazy
  have first : Evolves dirs (fun _ => True) s m := alloc_evolves held taken
  obtain ⟨guarded, fresh, -, ⟨mem, rfl⟩, -, -⟩ := alloc_guarded held taken
  rw [setpte_eq guarded.linked inside] at set
  simp only [present, if_true] at set
  cases set
  have second : Evolves dirs (fun _ => True) { s with mem := mem }
      (({ s with mem := mem } : Machine).write (s.frames s.curpd (addr2pde virt)).page
        (addr2pte virt) e) :=
    point_evolves guarded held.loaded slot present notWindow fun _ =>
      ⟨by rw [target]; exact fresh.outside, trivial⟩
  refine ⟨second.guarded, fresh.of_evolves second, rfl, first.fewer, ?_⟩
  have notDir := held.table_not_dir held.loaded slot present
  have kept : (({ s with mem := mem } : Machine).write (s.frames s.curpd (addr2pde virt)).page
      (addr2pte virt) e).frames s.curpd = s.frames s.curpd :=
    write_dir notDir held.loaded
  rw [entry, kept, if_pos present, write_same]

/-- The fresh page is filled from the page that was shared. -/
theorem copy_page_guarded (slot : addr2pde virt < 1023)
    (notWindow : (addr2pde virt, addr2pte virt) ≠ (1022, 1023))
    (fresh : Fresh dirs s (entry s s.curpd (addr2pde virt) (addr2pte virt)).page)
    (away : Outside s.mem old) (ran : pagingPhysreadPage s virt (old * 4096) = some s') :
    Guarded dirs s' := by
  have page := addr2page_mul old
  obtain ⟨w, shown, ran⟩ := Option.bind_eq_some_iff.mp ran
  obtain ⟨f, seen, ran⟩ := Option.bind_eq_some_iff.mp ran
  obtain ⟨g, target, rfl⟩ := Option.map_eq_some_iff.mp ran
  obtain ⟨peeks, -⟩ := show_window_spec (fun _ => True) (old * 4096) held (by rwa [page]) trivial
    shown (Nat.add_zero bufpageAddress ▸ seen) (by omega)
  have same := peeks.entries s.curpd held.loaded _ slot (addr2pte virt) fun eq => notWindow (by
    simp only [Prod.mk.injEq, true_and] at eq
    exact Prod.ext eq.1 eq.2)
  have there := (maps_iff_entry _ _ _ _ _).mp (translate_some target)
  rw [peeks.evolves.curpd, same] at there
  rw [there.2] at fresh
  exact fill_guarded peeks.evolves.guarded (fresh.of_evolves peeks.evolves).notTable _

theorem pagefault_existing_guarded (inside : page < 2 ^ 32)
    (got : entry s s.curpd (addr2pde page) (addr2pte page) = pte) (existing : pte.existing = true)
    (ran : pagefaultExisting s space page pte = some (ok, s', space')) :
    Guarded dirs s' ∧ space'.pagedir = space.pagedir ∧ space'.stack = space.stack := by
  rw [pagefaultExisting] at ran
  split at ran
  · cases ran
    exact ⟨held, rfl, rfl⟩
  split at ran
  · rename_i cow
    have lazy : (entry s s.curpd (addr2pde page) (addr2pte page)).Lazy := by
      rw [got]
      exact ⟨existing, Or.inl cow.1⟩
    obtain ⟨present, slot, notWindow⟩ :=
      lazy_place held (addr2pde_lt inside) (addr2pte_lt page) lazy
    obtain ⟨⟨new, m⟩, taken, ran⟩ := Option.bind_eq_some_iff.mp ran
    obtain ⟨⟨ok', t⟩, set, ran⟩ := Option.bind_eq_some_iff.mp ran
    obtain ⟨u, copied, same⟩ := Option.map_eq_some_iff.mp ran
    cases same
    obtain ⟨guarded, fresh, curpd, fewer, written⟩ :=
      fill_entry_guarded held inside lazy taken rfl set
    have maps : Maps s s.curpd (addr2pde page) (addr2pte page) pte.page := by
      rw [maps_iff_entry, got]
      exact ⟨cow.2, rfl⟩
    have outside := held.unmapped _ held.loaded _ (addr2pde_lt inside) _ (addr2pte_lt page) _ maps
    refine ⟨copy_page_guarded guarded slot notWindow ?_ (outside.of_fewer fewer) copied, rfl, rfl⟩
    rw [curpd, written]
    exact fresh
  split at ran
  · rename_i absent
    have lazy : (entry s s.curpd (addr2pde page) (addr2pte page)).Lazy := by
      rw [got]
      exact ⟨existing, Or.inr (Bool.eq_false_of_not_eq_true absent)⟩
    obtain ⟨⟨new, m⟩, taken, ran⟩ := Option.bind_eq_some_iff.mp ran
    obtain ⟨⟨ok', t⟩, set, same⟩ := Option.map_eq_some_iff.mp ran
    cases same
    exact ⟨(fill_entry_guarded held inside lazy taken rfl set).1, rfl, rfl⟩
  · cases ran
    exact ⟨held, rfl, rfl⟩

theorem pagefault_guarded (inDirs : space.pagedir ∈ dirs) (low : space.stack ≤ userstackEnd)
    (inside : addr < 2 ^ 32) (ran : memuserPagefault s space addr = some (ok, s', space')) :
    Guarded dirs s' ∧ space'.pagedir = space.pagedir ∧ space'.stack ≤ userstackEnd := by
  have inside' : addr2page addr * 4096 < 2 ^ 32 := by
    have small := addr2page_lt inside
    omega
  have got : pagingGetpte s (addr2page addr * 4096) = some (entry s s.curpd
      (addr2pde (addr2page addr * 4096)) (addr2pte (addr2page addr * 4096))) :=
    getpte_eq held.linked inside'
  rw [memuserPagefault, got, Option.bind_some] at ran
  by_cases existing : (entry s s.curpd (addr2pde (addr2page addr * 4096))
      (addr2pte (addr2page addr * 4096))).existing = true
  · rw [if_neg (not_not.mpr existing)] at ran
    obtain ⟨guarded, pagedir, stack⟩ := pagefault_existing_guarded held inside' rfl existing ran
    rw [stack]
    exact ⟨guarded, pagedir, low⟩
  · rw [if_pos existing] at ran
    split at ran
    · rename_i grows
      obtain ⟨⟨t, grown⟩, expanded, same⟩ := Option.map_eq_some_iff.mp ran
      cases same
      refine expand_stack_guarded held inDirs ?_ low expanded
      obtain ⟨below, above⟩ := grows
      rw [userstackEnd, userstackMaxsize, bufpageAddress] at above
      omega
    · cases ran
      exact ⟨held, rfl, low⟩

theorem memuser_alloc_guarded (inDirs : space.pagedir ∈ dirs)
    (ran : memuserAlloc s space count swappable = some (addr, s', space')) :
    Guarded dirs s' ∧ space'.pagedir = space.pagedir ∧ space'.stack = space.stack := by
  obtain ⟨⟨first, m⟩, found, ran⟩ := Option.bind_eq_some_iff.mp ran
  obtain ⟨peeks, -, result⟩ := findvirt_free held inDirs found
  have guarded := peeks.evolves.guarded
  by_cases real : first ≠ 0
  · simp only [if_pos real] at ran
    obtain ⟨⟨t, grown⟩, filled, same⟩ := Option.map_eq_some_iff.mp ran
    cases same
    obtain ⟨start, rfl, -, high, -⟩ := result.resolve_left real
    exact alloc_pages_guarded swappable _ _ guarded inDirs (by rw [bufpageAddress]; omega) filled
  · simp only [if_neg real] at ran
    cases ran
    exact ⟨guarded, rfl, rfl⟩

end

/-- The machine and the address spaces of all processes. -/
structure World where
  machine : Machine
  spaces : List Addrspace

/-- The page directories of the address spaces, and that of the kernel. -/
def World.pagedirs (w : World) : List Nat :=
  addr2page kernelpdAddress :: w.spaces.map (·.pagedir)

inductive Event where
  /-- `memuser_load_addrspace`. -/
  | load (space : Nat)
  | alloc (space count : Nat) (swappable : Bool)
  | free (space page : Nat)
  | pagefault (space : Nat) (addr : BitVec 32)
  | expandStack (space : Nat)

/-- A page that exists in the address space. -/
def Allocated (s : Machine) (space : Addrspace) (page : Nat) : Prop :=
  page < bufpageAddress ∧
    (entry s space.pagedir (addr2pde page) (addr2pte page)).existing = true

instance (s : Machine) (space : Addrspace) (page : Nat) : Decidable (Allocated s space page) :=
  inferInstanceAs (Decidable (_ ∧ _))

/-- One call, for the address space with this number. -/
def step (w : World) : Event → Option World
  | .load k => w.spaces[k]?.map fun space =>
    { w with machine := { w.machine with curpd := space.pagedir } }
  | .alloc k count swappable => w.spaces[k]?.bind fun space =>
    (memuserAlloc w.machine space count swappable).map fun (_, s, space) =>
      { machine := s, spaces := w.spaces.set k space }
  | .free k page => w.spaces[k]?.bind fun space =>
    if Allocated w.machine space page then
      (memuserFree w.machine space page).map fun (s, space) =>
        { machine := s, spaces := w.spaces.set k space }
    else none
  | .pagefault k addr => w.spaces[k]?.bind fun space =>
    (memuserPagefault w.machine space addr.toNat).map fun (_, s, space) =>
      { machine := s, spaces := w.spaces.set k space }
  | .expandStack k => w.spaces[k]?.bind fun space =>
    (memuserExpandStack w.machine space).map fun (s, space) =>
      { machine := s, spaces := w.spaces.set k space }

/-- The page tables are in order and every user stack lies below the window page. -/
structure InOrder (w : World) : Prop where
  guarded : Guarded w.pagedirs w.machine
  low : ∀ space ∈ w.spaces, space.stack ≤ userstackEnd

/-- `memuser_free` gives back only the page it unmaps, and a stack that is expanded is
not at the bottom of the address space. -/
def Meets (w : World) : Event → Prop
  | .free k page => ∀ space, w.spaces[k]? = some space → GivesOwn w.pagedirs w.machine space page
  | .expandStack k => ∀ space, w.spaces[k]? = some space → 4096 ≤ space.stack
  | _ => True

/-- A call changes the machine and its address space, which keeps its directory. -/
theorem InOrder.update {w : World} (held : InOrder w) (found : w.spaces[k]? = some space)
    (guarded : Guarded w.pagedirs s) (pagedir : space'.pagedir = space.pagedir)
    (low : space'.stack ≤ userstackEnd) :
    InOrder { machine := s, spaces := w.spaces.set k space' } := by
  have same : World.pagedirs { machine := s, spaces := w.spaces.set k space' } = w.pagedirs := by
    simp only [World.pagedirs, List.cons.injEq, true_and]
    refine List.ext_getElem? fun n => ?_
    rw [List.getElem?_map, List.getElem?_map, List.getElem?_set]
    by_cases here : k = n
    · rw [if_pos here, ← here, found]
      have inside := (List.getElem?_eq_some_iff.mp found).1
      simp [inside, pagedir]
    · rw [if_neg here]
  refine ⟨?_, fun other member => ?_⟩
  · rw [same]
    exact guarded
  · rcases List.mem_or_eq_of_mem_set member with old | rfl
    · exact held.low other old
    · exact low

theorem pagedir_mem {w : World} {k : Nat} (found : w.spaces[k]? = some space) :
    space ∈ w.spaces ∧ space.pagedir ∈ w.pagedirs := by
  have member := List.mem_of_getElem? found
  exact ⟨member, List.mem_cons_of_mem _ (List.mem_map_of_mem member)⟩

theorem step_in_order (w : World) (e : Event) (next : World) (held : InOrder w)
    (meets : Meets w e) (ran : step w e = some next) : InOrder next := by
  cases e with
  | load k =>
    obtain ⟨space, found, rfl⟩ := Option.map_eq_some_iff.mp ran
    have guarded := held.guarded
    exact ⟨{ guarded with
      toDirectories := guarded.toDirectories.of_same fun _ _ => rfl
      loaded := (pagedir_mem found).2 }, held.low⟩
  | alloc k count swappable =>
    obtain ⟨space, found, ran⟩ := Option.bind_eq_some_iff.mp ran
    obtain ⟨⟨addr, s, space'⟩, done, rfl⟩ := Option.map_eq_some_iff.mp ran
    obtain ⟨member, inDirs⟩ := pagedir_mem found
    obtain ⟨guarded, pagedir, stack⟩ := memuser_alloc_guarded held.guarded inDirs done
    exact held.update found guarded pagedir (stack ▸ held.low space member)
  | free k page =>
    obtain ⟨space, found, ran⟩ := Option.bind_eq_some_iff.mp ran
    obtain ⟨⟨below, existing⟩, ran⟩ := Option.ite_none_right_eq_some.mp ran
    obtain ⟨⟨s, space'⟩, done, rfl⟩ := Option.map_eq_some_iff.mp ran
    obtain ⟨member, inDirs⟩ := pagedir_mem found
    have present : (w.machine.frames space.pagedir (addr2pde page)).present = true := by
      by_contra absent
      rw [entry, if_neg absent] at existing
      cases existing
    obtain ⟨guarded, pagedir, stack⟩ := free_guarded held.guarded inDirs (held.low space member)
      below present (meets space found) done
    exact held.update found guarded pagedir (stack ▸ held.low space member)
  | pagefault k addr =>
    obtain ⟨space, found, ran⟩ := Option.bind_eq_some_iff.mp ran
    obtain ⟨⟨ok, s, space'⟩, done, rfl⟩ := Option.map_eq_some_iff.mp ran
    obtain ⟨member, inDirs⟩ := pagedir_mem found
    obtain ⟨guarded, pagedir, stack⟩ :=
      pagefault_guarded held.guarded inDirs (held.low space member) addr.isLt done
    exact held.update found guarded pagedir stack
  | expandStack k =>
    obtain ⟨space, found, ran⟩ := Option.bind_eq_some_iff.mp ran
    obtain ⟨⟨s, space'⟩, done, rfl⟩ := Option.map_eq_some_iff.mp ran
    obtain ⟨member, inDirs⟩ := pagedir_mem found
    obtain ⟨guarded, pagedir, stack⟩ := expand_stack_guarded held.guarded inDirs
      (meets space found) (held.low space member) done
    exact held.update found guarded pagedir stack

section OneSpace

/-- The entry that `paging_map` writes for a page of the kernel. -/
def kernelEntry (page : Nat) : Entry :=
  { blank with present := true, existing := true, writable := true, page := page }

/-- The entry that `memuser_alloc_at` writes. -/
def loadedEntry (page : Nat) : Entry :=
  { blank with
    present := true
    existing := true
    swappable := true
    writable := true
    user := true
    page := page }

/-- A kernel directory at 0x300 with its tables 0x301 and 0x302, and one user directory
at 0x310 whose table 0x311 maps the stack page 0x312. -/
def oneSpaceFrames (frame word : Nat) : Entry :=
  if frame = 0x300 ∨ frame = 0x310 then
    if word = 0 then tableEntry 0x301000
    else if word = 1 then tableEntry 0x302000
    else if word = 1022 ∧ frame = 0x310 then tableEntry 0x311000
    else if word = 1023 then { tableEntry (frame * 4096) with user := false }
    else blank
  else if frame = 0x301 then
    if word < 768 then kernelEntry word
    else if word = 768 then kernelEntry 0x303
    else blank
  else if frame = 0x311 ∧ word = 1022 then loadedEntry 0x312
  else blank

/-- Eight free pages, and one process that has its first stack page. -/
def oneSpace : World where
  machine :=
    { frames := oneSpaceFrames
      mem :=
        { stack := fun i => 0x320000 + i * 4096
          stackptr := 8
          stackend := 1024
          stackPages := fun i => if i = 0 then some 0x303000 else none
          dmaBitmap := fun _ => 0 }
      curpd := 0x310
      lastpage := 0
      lastpd := 0 }
  spaces := [⟨[0xFFBFE000], [], [], 0x310, 0xFFBFE000⟩]

section
variable (inDirs : d ∈ oneSpace.pagedirs)
include inDirs

theorem one_space_dirs : d = 0x300 ∨ d = 0x310 := by
  simpa [World.pagedirs, oneSpace, kernelpdAddress, addr2page] using inDirs

/-- Where the tables of a directory are. -/
theorem one_space_tables (present : (oneSpace.machine.frames d i).present = true) :
    (i < 2 ∧ (oneSpace.machine.frames d i).page = 0x301 + i) ∨
      (i = 1022 ∧ d = 0x310 ∧ (oneSpace.machine.frames d i).page = 0x311) ∨
      (i = 1023 ∧ (oneSpace.machine.frames d i).page = d) := by
  have word : oneSpace.machine.frames d i = _ := if_pos (one_space_dirs inDirs)
  rw [word] at present ⊢
  split_ifs at present ⊢ with first second window last
  · exact Or.inl ⟨by omega, by rw [first]; rfl⟩
  · exact Or.inl ⟨by omega, by rw [second]; rfl⟩
  · exact Or.inr (Or.inl ⟨window.1, window.2, rfl⟩)
  · exact Or.inr (Or.inr ⟨last, addr2page_mul d⟩)
  · cases present

/-- What the tables hold. -/
theorem one_space_entry (slot : i < 1023) (j : Nat) :
    entry oneSpace.machine d i j =
      if i = 0 ∧ j < 768 then kernelEntry j
      else if i = 0 ∧ j = 768 then kernelEntry 0x303
      else if d = 0x310 ∧ i = 1022 ∧ j = 1022 then loadedEntry 0x312
      else blank := by
  have word : oneSpace.machine.frames d i = _ := if_pos (one_space_dirs inDirs)
  rw [entry, word]
  by_cases first : i = 0
  · subst first
    change oneSpaceFrames 0x301 j = _
    simp [oneSpaceFrames]
  · by_cases second : i = 1
    · subst second
      change oneSpaceFrames 0x302 j = _
      simp [oneSpaceFrames]
    · by_cases window : i = 1022 ∧ d = 0x310
      · obtain ⟨rfl, rfl⟩ := window
        change oneSpaceFrames 0x311 j = _
        simp [oneSpaceFrames]
      · have own : ¬ (d = 0x310 ∧ i = 1022 ∧ j = 1022) := by omega
        simp [first, second, window, slot.ne, own, blank]

theorem one_space_slot (i : Nat) :
    (oneSpace.machine.frames d i).existing = false ∧
      ((oneSpace.machine.frames d i).present = false → (oneSpace.machine.frames d i).page = 0) := by
  have word : oneSpace.machine.frames d i = _ := if_pos (one_space_dirs inDirs)
  rw [word]
  split_ifs <;> simp [tableEntry, blank]

end

theorem one_space_free (member : a ∈ freePages oneSpace.machine.mem) :
    ∃ i < 8, a = (0x320 + i) * 4096 := by
  obtain ⟨i, small, rfl⟩ := List.mem_map.mp member
  refine ⟨i, List.mem_range.mp small, ?_⟩
  change 0x320000 + i * 4096 = _
  omega

theorem one_space_directories : Directories oneSpace.pagedirs oneSpace.machine where
  recursive := by decide
  kernel := by decide
  plain d inDirs i _ := (one_space_slot inDirs i).1
  empty d inDirs i _ := (one_space_slot inDirs i).2
  tables d inDirs i slot present := by
    have table := one_space_tables inDirs present
    refine ⟨fun dir => ?_, by omega⟩
    have either := one_space_dirs dir
    omega
  window d inDirs d' inDirs' i _ other present present' := by
    have table := one_space_tables inDirs present
    have table' := one_space_tables inDirs' present'
    have either := one_space_dirs inDirs'
    simp only [ne_eq, Prod.mk.injEq] at other
    omega

theorem one_space_maps (inDirs : d ∈ oneSpace.pagedirs) (slot : i < 1024)
    (maps : Maps oneSpace.machine d i j page) :
    page < 0x304 ∨ page = 0x310 ∨ page = 0x311 ∨
      (page = 0x312 ∧ d = 0x310 ∧ i = 1022 ∧ j = 1022) := by
  by_cases last : i = 1023
  · subst last
    obtain ⟨-, there, target⟩ := maps
    rw [(one_space_directories.recursive d inDirs).2] at there target
    have table := one_space_tables inDirs there
    have either := one_space_dirs inDirs
    omega
  · rw [maps_iff_entry, one_space_entry inDirs (by omega)] at maps
    obtain ⟨there, rfl⟩ := maps
    split_ifs at there ⊢ with low stack own
    · exact Or.inl (Nat.lt_trans low.2 (by decide))
    · exact Or.inl (by decide)
    · exact Or.inr (Or.inr (Or.inr ⟨rfl, own⟩))
    · cases there

theorem one_space_in_order : InOrder oneSpace := by
  refine ⟨?_, by decide⟩
  refine {
    toDirectories := one_space_directories
    nodup := by decide
    aligned := fun a member => ?_
    bounded := by decide
    loaded := by decide
    shown := fun last => absurd last (by decide)
    settled := ?_
    unmapped := fun d inDirs i slot j inTable page maps => ?_ }
  · obtain ⟨i, small, rfl⟩ := one_space_free member
    omega
  · intro d inDirs present
    rcases one_space_dirs inDirs with rfl | rfl
    · cases present
    · exact fun filled => absurd filled.1 (by decide)
  · have listed := one_space_maps inDirs slot maps
    refine ⟨by omega, fun free => ?_⟩
    obtain ⟨i, small, same⟩ := one_space_free free
    omega

end OneSpace

end MeinOS.Memuser
