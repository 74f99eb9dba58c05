import MeinOS.AddrspaceLists
import MeinOS.Lib.Runs

/-! The lists of all address spaces along runs of the calls that change them.

Each call changes the entries and lists of one process, as long as a page is mapped where
none is, addresses are those of user pages, and `proc_memfree` is not used for a page that
has memory: it clears the entry and leaves the page on `pages_loaded`. -/
namespace MeinOS.AddrspaceBooks
open Lib Lib.Runs Llist Memphys Paging Memuser Procm ProcmLists ProcmWait ProcmMemory AddrspaceLists

variable {dirs : List Nat} {m : Machine} {p : Nat} {w w' : Os} {proc : Ptr}

/-- The directories of all processes and that of the kernel. -/
def pagedirs (w : Os) : List Nat :=
  pagingKernelpd :: w.kernel.procAll.map fun proc => (w.space proc).pagedir

/-- What the calls rely on: page tables in order, a directory for each process, the
directory of the current process loaded, page 0 mapped and no entry of the kernel waiting
for a page fault, every stack at a page address below the window; and lists that hold the
addresses of user pages and agree with the page tables. -/
structure Sound (w : Os) : Prop where
  guarded : Guarded (pagedirs w) w.machine
  unshared : Unshared (pagedirs w) w.machine
  current : w.kernel.procCurrent ∈ w.kernel.procAll
  loaded : w.machine.curpd = (w.space w.kernel.procCurrent).pagedir
  distinct : ∀ p ∈ w.kernel.procAll, ∀ q ∈ w.kernel.procAll, p ≠ q →
    (w.space p).pagedir ≠ (w.space q).pagedir
  zero : ∀ p ∈ w.kernel.procAll, (pageEntry w.machine (w.space p).pagedir 0).existing = true
  settled : ∀ p ∈ w.kernel.procAll, ∀ q < 2 ^ 18,
    ¬ (pageEntry w.machine (w.space p).pagedir q).Lazy
  stackAddrs : ∀ p ∈ w.kernel.procAll, (w.space p).stack % 4096 = 0 ∧ (w.space p).stack ≤ userstackEnd
  users : ∀ p ∈ w.kernel.procAll,
    ∀ addr ∈ (w.space p).pagesLoaded ++ (w.space p).pagesImaginary, UserAddr addr
  booked : ∀ p ∈ w.kernel.procAll, Booked w.machine (w.space p)

theorem Sound.kept (held : Sound w) (p : Ptr) (inAll : p ∈ w.kernel.procAll) :
    Kept w.machine (w.space p) :=
  (held.booked p inAll).kept (held.users p inAll)

theorem pagedir_in (inAll : proc ∈ w.kernel.procAll) : (w.space proc).pagedir ∈ pagedirs w :=
  List.mem_cons_of_mem _ (List.mem_map_of_mem inAll)

theorem Sound.ours (held : Sound w) (inAll : proc ∈ w.kernel.procAll) :
    Ours (pagedirs w) w.machine (w.space proc) :=
  ⟨held.guarded, held.unshared, pagedir_in inAll, held.stackAddrs proc inAll, held.kept proc inAll⟩

/-- A call has changed the machine and one address space. -/
structure Changed (w w' : Os) (proc : Ptr) : Prop where
  all : w'.kernel.procAll = w.kernel.procAll
  current : w'.kernel.procCurrent = w.kernel.procCurrent
  others : ∀ q ≠ proc, w'.space q = w.space q
  moves : Moves (pagedirs w) w.machine w'.machine (w.space proc) (w'.space proc)

theorem Changed.keeps (changed : Changed w w' proc) (held : Sound w)
    (inAll : proc ∈ w.kernel.procAll) : Sound w' := by
  have moves := changed.moves
  have pagedir : ∀ q, (w'.space q).pagedir = (w.space q).pagedir := by
    intro q
    by_cases same : q = proc
    · rw [same, moves.pagedir]
    · rw [changed.others q same]
  have dirs : pagedirs w' = pagedirs w := by
    simp only [pagedirs, changed.all, pagedir]
  -- the kernel's entries are those of before
  have kernel : ∀ p ∈ w.kernel.procAll, ∀ q < 2 ^ 18, pageEntry w'.machine (w.space p).pagedir q =
      pageEntry w.machine (w.space p).pagedir q := by
    intro p inAll' q low
    refine moves.touches.pages _ (pagedir_in inAll') q (by rw [windowPage]; omega) fun there => ?_
    exact absurd there.2.1 (by omega)
  have others : ∀ p ∈ w.kernel.procAll, p ≠ proc → Kept w'.machine (w.space p) := by
    intro p inAll' other
    refine (held.kept p inAll').of_same fun q user => ?_
    exact moves.touches.pages _ (pagedir_in inAll') q user.2 fun there =>
      held.distinct p inAll' proc inAll other there.1
  have kept : ∀ p ∈ w.kernel.procAll, Kept w'.machine (w'.space p) := by
    intro p inAll'
    by_cases same : p = proc
    · rw [same]
      exact moves.kept
    · rw [changed.others p same]
      exact others p inAll' same
  refine ⟨dirs ▸ moves.touches.guarded, dirs ▸ moves.touches.unshared, ?_, ?_, ?_, ?_, ?_, ?_, ?_, ?_⟩
  · rw [changed.current, changed.all]
    exact held.current
  · rw [changed.current, pagedir, moves.touches.curpd]
    exact held.loaded
  · rw [changed.all]
    intro p inAll' q inAll'' other
    rw [pagedir, pagedir]
    exact held.distinct p inAll' q inAll'' other
  · rw [changed.all]
    intro p inAll'
    rw [pagedir, kernel p inAll' 0 (by omega)]
    exact held.zero p inAll'
  · rw [changed.all]
    intro p inAll' q low
    rw [pagedir, kernel p inAll' q low]
    exact held.settled p inAll' q low
  · rw [changed.all]
    intro p inAll'
    by_cases same : p = proc
    · rw [same]
      exact moves.stack
    · rw [changed.others p same]
      exact held.stackAddrs p inAll'
  · rw [changed.all]
    exact fun p inAll' => (kept p inAll').users
  · rw [changed.all]
    exact fun p inAll' => (kept p inAll').booked

/-- A call of `memuser.c` for one address space. -/
theorem changed_space (s : Machine) (space' : Addrspace)
    (moves : Moves (pagedirs w) w.machine s (w.space proc) space') :
    Changed w (({ w with machine := s } : Os).setSpace proc fun _ => space') proc := by
  refine ⟨rfl, rfl, fun q other => set_space_other _ _ other, ?_⟩
  rw [set_space_self]
  exact moves

/-- A change that is made while the address space of the process is loaded. -/
theorem changed_in_space {w'' : Os} {act : Machine → Option (α × Machine)}
    (f : Addrspace → Addrspace) (held : Sound w) (first : Touches (pagedirs w) (fun _ _ => False) w.machine m)
    (ran : ({ w with machine := m } : Os).inSpace proc act = some (result, w''))
    (moves : ∀ s, act { m with curpd := (w.space proc).pagedir } = some (result, s) →
      Moves (pagedirs w) { m with curpd := (w.space proc).pagedir } s (w.space proc)
        (f (w.space proc))) : Changed w (w''.setSpace proc f) proc := by
  obtain ⟨s, acted, kernel, details, machine⟩ := in_space_spec ran
  have back := Moves.in_space first.guarded (moves s acted)
  rw [first.curpd, held.loaded] at back
  have spaces : ∀ q, w''.space q = w.space q := fun q => by
    rw [Os.space, details]
    rfl
  refine ⟨?_, ?_, fun q other => ?_, ?_⟩
  · change w''.kernel.procAll = _
    rw [kernel]
    rfl
  · change w''.kernel.procCurrent = _
    rw [kernel]
    rfl
  · rw [set_space_other _ _ other, spaces]
  · rw [set_space_self, spaces]
    change Moves _ _ w''.machine _ _
    rw [machine]
    exact Moves.after first back

/-- An address that `proc_memmap` can be given: NULL or that of a user page. -/
def MapAddr (virt : Nat) : Prop := virt = 0 ∨ UserAddr virt

instance (virt : Nat) : Decidable (MapAddr virt) := inferInstanceAs (Decidable (_ ∨ _))

/-- A page that may be mapped: NULL, or one that is not free. -/
def MapPhys (s : Machine) (phys : Nat) : Prop := phys = 0 ∨ Outside s.mem (addr2page phys)

instance (s : Machine) (phys : Nat) : Decidable (MapPhys s phys) :=
  inferInstanceAs (Decidable (_ ∨ _ ∧ _))

section
variable (held : Sound w) (inAll : proc ∈ w.kernel.procAll)
include held inAll

theorem memmap_changed (addr : MapAddr virt) (page : MapPhys w.machine phys)
    (ran : memmapTo w proc virt phys writable swappable cow = some (result, w')) :
    Changed w w' proc := by
  have ours := held.ours inAll
  obtain ⟨⟨virt', m⟩, looked, ran⟩ := Option.bind_eq_some_iff.mp ran
  -- where to map: NULL if nothing was found, else a user page
  have first : Touches (pagedirs w) (fun _ _ => False) w.machine m ∧
      (virt' = 0 ∨ ∃ p, virt' = p * 4096 ∧ UserPage p) := by
    by_cases null : virt = 0
    · rw [if_pos null] at looked
      obtain ⟨touches, result⟩ := findvirt_looks ours.guarded ours.unshared ours.inDirs looked
      refine ⟨touches, result.imp_right fun ⟨start, same, low, high, _⟩ => ⟨start, same, low, ?_⟩⟩
      rw [windowPage]
      omega
    · rw [if_neg null] at looked
      cases looked
      have user := addr.resolve_left null
      exact ⟨.refl ours.guarded ours.unshared, Or.inr ⟨_, user.whole, user.1⟩⟩
  obtain ⟨first, place⟩ := first
  obtain ⟨⟨phys', t⟩, took, ran⟩ := Option.bind_eq_some_iff.mp ran
  obtain ⟨second, away, -⟩ := take_page first.guarded first.unshared
    (fun real => (page.resolve_left real).of_fewer first.fewer) took
  have both := first.append second
  obtain ⟨⟨pte, u⟩, got, ran⟩ := Option.bind_eq_some_iff.mp ran
  have inside : virt' < 2 ^ 32 ∧ addr2pde virt' < 1023 := by
    rcases place with rfl | ⟨p, rfl, user⟩
    · decide
    · exact ⟨user.place.1, user.place.2.1⟩
  obtain ⟨read, peeks, -⟩ := getpte_pd_spec both.guarded ours.inDirs inside.1 inside.2 got
  have third := both.append (peeks.touches both.unshared)
  have after := ours.after third
  by_cases existing : pte.existing = true
  · simp only [existing, if_true] at ran
    cases ran
    exact ⟨rfl, rfl, fun _ _ => rfl, ours.moves third⟩
  · simp only [existing] at ran
    obtain ⟨⟨nothing, w''⟩, mapped, same⟩ := Option.map_eq_some_iff.mp ran
    obtain ⟨rfl, rfl⟩ := Prod.mk.inj same
    -- page 0 exists, so an address was found
    have found : ∃ p, virt' = p * 4096 ∧ UserPage p := by
      refine place.resolve_left fun null => existing ?_
      have zero := held.zero proc inAll
      rw [← both.pages _ ours.inDirs 0 (by decide) not_false] at zero
      rw [read, null]
      exact zero
    obtain ⟨p, rfl, user⟩ := found
    have absent : (pageEntry u (w.space proc).pagedir p).existing = false := by
      rw [entry_of_addr, addr2page_mul] at read
      rw [read, ← page_peeked peeks ours.inDirs user.2] at existing
      exact Bool.eq_false_of_not_eq_true existing
    refine changed_in_space _ held third mapped fun s acted => ?_
    obtain ⟨s', mapped, same⟩ := Option.map_eq_some_iff.mp acted
    cases same
    exact map_pd_moves after.load rfl user absent (away.of_fewer peeks.evolves.fewer) mapped

theorem memunmap_changed (addr : UserAddr virt)
    (ran : (w.inSpace proc fun s => pagingUnmap s virt) = some (result, w'')) :
    Changed w (w''.setSpace proc fun space =>
      { space with
        pagesLoaded := llistDrop space.pagesLoaded virt
        pagesImaginary := llistDrop space.pagesImaginary virt
        pagesSwapped := llistDrop space.pagesSwapped virt }) proc := by
  have ours := (held.ours inAll).load
  refine changed_in_space _ held (.refl held.guarded held.unshared) ran fun s unmapped => ?_
  obtain ⟨touches, cleared, -⟩ :=
    unmap_touches ours.guarded ours.unshared addr.1.1 addr.1.2 unmapped
  refine Moves.of_page addr.1 rfl ours.stack touches
    (ours.kept.clear addr.1 ours.inDirs touches cleared rfl ?_ ?_)
  · rw [← addr.whole]
  · rw [← addr.whole]

/-- `proc_memfree` of a page that is not in memory frees no page. -/
theorem memfree_changed (addr : UserAddr virt)
    (missing : (pageEntry w.machine (w.space proc).pagedir (addr2page virt)).present = false)
    (ran : (w.inSpace proc fun s => (pagingUnmap s virt).bind fun (phys, s) =>
      (memphysFree s phys).map ((), ·)) = some (result, w'')) :
    Changed w (w''.setSpace proc fun space =>
      { space with pagesImaginary := llistDrop space.pagesImaginary virt }) proc := by
  have ours := (held.ours inAll).load
  -- nothing to take off `pages_loaded`
  have unloaded : llistDrop (w.space proc).pagesLoaded (addr2page virt * 4096) =
      (w.space proc).pagesLoaded := by
    have none := (held.kept proc inAll).loaded _ addr.1
    rw [loadedCount, if_neg fun both => by rw [missing] at both; cases both.2] at none
    rw [llistDrop, llist_remove_find]
    exact List.erase_of_not_mem (List.count_eq_zero.mp none)
  refine changed_in_space _ held (.refl held.guarded held.unshared) ran fun s acted => ?_
  obtain ⟨⟨phys, t⟩, unmapped, acted⟩ := Option.bind_eq_some_iff.mp acted
  obtain ⟨touches, cleared, -, freed⟩ :=
    unmap_touches ours.guarded ours.unshared addr.1.1 addr.1.2 unmapped
  change phys = if (pageEntry w.machine (w.space proc).pagedir (addr2page virt)).present then _
    else 0 at freed
  rw [missing, if_neg Bool.false_ne_true] at freed
  rw [freed] at acted
  cases acted
  refine Moves.of_page addr.1 rfl ours.stack touches
    (ours.kept.clear addr.1 ours.inDirs touches cleared rfl unloaded.symm ?_)
  rw [← addr.whole]

end

inductive Event where
  /-- Another process becomes the current one and its address space is loaded. -/
  | switch (proc : Ptr)
  | alloc (proc : Ptr) (count : Nat) (swappable : Bool)
  | allocAt (proc : Ptr) (addr phys : BitVec 32) (writable : Bool)
  | pagefault (addr : BitVec 32)
  | memmap (pid : Int) (virt phys : BitVec 32) (writable swappable cow : Bool)
  | memunmap (pid : Int) (virt : BitVec 32)
  | memfree (pid : Int) (virt : BitVec 32)

/-- One call: of `memuser.c` for an existing process, or a system call or page fault of the
current process. -/
def step (w : Os) : Event → Option Os
  | .switch proc => onlyIf (proc ∈ w.kernel.procAll)
      { w.load proc with kernel := { (w.load proc).kernel with procCurrent := proc } }
  | .alloc proc count swappable =>
    if proc ∈ w.kernel.procAll then
      (memuserAlloc w.machine (w.space proc) count swappable).map fun (_, s, space) =>
        ({ w with machine := s } : Os).setSpace proc fun _ => space
    else none
  | .allocAt proc addr phys writable =>
    if proc ∈ w.kernel.procAll then
      (memuserAllocAt w.machine (w.space proc) addr.toNat phys.toNat writable).map
        fun (s, space) => ({ w with machine := s } : Os).setSpace proc fun _ => space
    else none
  | .pagefault addr =>
    (memuserPagefault w.machine (w.space w.kernel.procCurrent) addr.toNat).map
      fun (_, s, space) => ({ w with machine := s } : Os).setSpace w.kernel.procCurrent fun _ => space
  | .memmap pid virt phys writable swappable cow =>
    (procMemmap w pid virt.toNat phys.toNat writable swappable cow).map (·.2)
  | .memunmap pid virt => (procMemunmap w pid virt.toNat).map (·.2)
  | .memfree pid virt => (procMemfree w pid virt.toNat).map (·.2)

/-- The process that a privileged call is about. -/
def Reaches (w : Os) (pid : Int) (proc : Ptr) : Prop :=
  (w.details w.kernel.procCurrent).system ≠ 0 ∧ procFind pid w.kernel = some proc

/-- A page is put where none exists, and no page that is free; a privileged call is given
the address of a user page, or NULL to let `proc_memmap` choose; and `proc_memfree` is used
for pages that are not in memory. -/
def Orderly (w : Os) : Event → Prop
  | .allocAt proc addr phys _ => UserAddr addr.toNat ∧ MapPhys w.machine phys.toNat ∧
    (pageEntry w.machine (w.space proc).pagedir (addr2page addr.toNat)).existing = false
  | .pagefault addr => GrowsStack w.machine (w.space w.kernel.procCurrent) addr.toNat →
    (pageEntry w.machine (w.space w.kernel.procCurrent).pagedir
      (addr2page (w.space w.kernel.procCurrent).stack - 1)).existing = false
  | .memmap pid virt phys _ _ _ => ∀ proc, Reaches w pid proc →
    MapAddr virt.toNat ∧ MapPhys w.machine phys.toNat
  | .memunmap pid virt => ∀ proc, Reaches w pid proc → UserAddr virt.toNat
  | .memfree pid virt => ∀ proc, Reaches w pid proc → UserAddr virt.toNat ∧
    (pageEntry w.machine (w.space proc).pagedir (addr2page virt.toNat)).present = false
  | _ => True

instance (w : Os) (pid : Int) (P : Ptr → Prop) [∀ proc, Decidable (P proc)] :
    Decidable (∀ proc, Reaches w pid proc → P proc) :=
  match found : procFind pid w.kernel with
  | none => isTrue fun _ reaches => by rw [reaches.2] at found; cases found
  | some proc =>
    decidable_of_iff ((w.details w.kernel.procCurrent).system ≠ 0 → P proc)
      ⟨fun holds other reaches => by
          rw [reaches.2] at found
          cases found
          exact holds reaches.1,
        fun holds privileged => holds proc ⟨privileged, found⟩⟩

instance (w : Os) : (event : Event) → Decidable (Orderly w event)
  | .switch _ | .alloc _ _ _ => isTrue trivial
  | .allocAt _ _ _ _ => inferInstanceAs (Decidable (_ ∧ _ ∧ _))
  | .pagefault _ => inferInstanceAs (Decidable (_ → _))
  | .memmap _ _ _ _ _ _ => inferInstanceAs (Decidable (∀ proc, Reaches _ _ proc → _ ∧ _))
  | .memunmap _ _ => inferInstanceAs (Decidable (∀ proc, Reaches _ _ proc → _))
  | .memfree _ _ => inferInstanceAs (Decidable (∀ proc, Reaches _ _ proc → _ ∧ _))

/-- A call for another process changes nothing, or acts on one that the caller reaches. -/
theorem for_system_sound {act : Ptr → Option (α × Os)} (held : Sound w)
    (acts : ∀ proc result, Reaches w pid proc → proc ∈ w.kernel.procAll → act proc = some (result, w') → Sound w')
    (ran : (forSystem w pid failed act).map Prod.snd = some w') : Sound w' := by
  obtain ⟨⟨result, w''⟩, done, rfl⟩ := Option.map_eq_some_iff.mp ran
  obtain ⟨-, rfl⟩ | ⟨proc, privileged, found, done⟩ := for_system_cases done
  · exact held
  · exact acts proc result ⟨privileged, found⟩ (find_mem held.current found) done

theorem step_sound (w : Os) (event : Event) (w' : Os) (held : Sound w) (orderly : Orderly w event)
    (ran : step w event = some w') : Sound w' := by
  cases event with
  | switch proc =>
    obtain ⟨inAll, rfl⟩ := onlyIf_eq_some ran
    exact { held with
      guarded := held.guarded.load (pagedir_in inAll)
      current := inAll
      loaded := rfl
      booked := fun p inAll' => ⟨(held.booked p inAll').once, (held.booked p inAll').listed⟩ }
  | alloc proc count swappable =>
    obtain ⟨inAll, ran⟩ := Option.ite_none_right_eq_some.mp ran
    obtain ⟨⟨addr, s, space⟩, done, rfl⟩ := Option.map_eq_some_iff.mp ran
    exact (changed_space s space (memuser_alloc_moves (held.ours inAll) done)).keeps held inAll
  | allocAt proc addr phys writable =>
    obtain ⟨inAll, ran⟩ := Option.ite_none_right_eq_some.mp ran
    obtain ⟨⟨s, space⟩, done, rfl⟩ := Option.map_eq_some_iff.mp ran
    obtain ⟨user, page, absent⟩ := orderly
    rw [user.whole] at done
    exact (changed_space s space (alloc_at_moves (held.ours inAll) user.1 absent
      page.resolve_left done)).keeps held inAll
  | pagefault addr =>
    obtain ⟨⟨ok, s, space⟩, done, rfl⟩ := Option.map_eq_some_iff.mp ran
    exact (changed_space s space (pagefault_moves (held.ours held.current) held.loaded addr.isLt
      (held.settled _ held.current) orderly done)).keeps held held.current
  | memmap pid virt phys writable swappable cow =>
    refine for_system_sound held (fun proc _ reaches inAll done => ?_) ran
    obtain ⟨address, page⟩ := orderly proc reaches
    exact (memmap_changed held inAll address page done).keeps held inAll
  | memunmap pid virt =>
    refine for_system_sound held (fun proc _ reaches inAll done => ?_) ran
    obtain ⟨⟨phys, w₁⟩, unmapped, same⟩ := Option.map_eq_some_iff.mp done
    cases same
    exact (memunmap_changed held inAll (orderly proc reaches) unmapped).keeps held inAll
  | memfree pid virt =>
    refine for_system_sound held (fun proc _ reaches inAll done => ?_) ran
    obtain ⟨⟨nothing, w₁⟩, freed, same⟩ := Option.map_eq_some_iff.mp done
    cases same
    obtain ⟨address, missing⟩ := orderly proc reaches
    exact (memfree_changed held inAll address missing freed).keeps held inAll

section OneProcess

theorem one_space_settled (low : p < 2 ^ 18) : ¬ (pageEntry oneSpace.machine 0x310 p).Lazy := by
  rw [pageEntry, one_space_entry (by decide) (by omega)]
  split_ifs <;> simp [Entry.Lazy, kernelEntry, loadedEntry, blank]

theorem one_os_booked : Booked oneSpace.machine ⟨[0xFFBFE000], [], [], 0x310, 0xFFBFE000⟩ := by
  refine ⟨fun p user existing => ?_, by decide⟩
  change (pageEntry oneSpace.machine 0x310 p).existing = true at existing
  change _ ∧ (_ ↔ (pageEntry oneSpace.machine 0x310 p).present = true)
  obtain ⟨-, rfl, -⟩ | ⟨-, missing⟩ := one_space_user (d := 0x310) (by decide) user.1 user.2.le
  · decide
  · rw [missing] at existing
    cases existing

theorem one_os_space (proc : Ptr) :
    (oneOs 1).space proc = ⟨[0xFFBFE000], [], [], 0x310, 0xFFBFE000⟩ := rfl

theorem one_os_sound : Sound (oneOs 1) := by
  refine {
    guarded := one_space_in_order.guarded
    unshared := one_space_unshared
    current := by decide
    loaded := rfl
    distinct := ?_
    zero := fun p _ => by rw [one_os_space p]; decide
    settled := fun _ _ _ low => one_space_settled low
    stackAddrs := fun p _ => by rw [one_os_space p]; decide
    users := fun p _ => by rw [one_os_space p]; decide
    booked := fun _ _ => one_os_booked }
  intro p inAll q inAll' other
  exact absurd ((List.mem_singleton.mp inAll).trans (List.mem_singleton.mp inAll').symm) other

end OneProcess

end MeinOS.AddrspaceBooks
