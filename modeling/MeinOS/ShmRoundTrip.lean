import MeinOS.PagingCost
import MeinOS.ShmDestroy

/-! `ipc_shm_attach` at an address of its own choice, and `ipc_shm_detach` of that address.
The attachment is found again by its address alone, in the first object of `ipc_objects` that
has one of the caller there. An object of size 0 has no pages, and its attachments lie at
addresses where other things may be mapped. -/
namespace MeinOS.Shm
open Lib Lib.Runs Llist Procm Ipc Memphys Paging Memuser

section Pages
variable {dirs : List Nat} {s s' m : Machine} {virt : Nat}

/-- What a directory has mapped at a page. -/
def mapping (s : Machine) (d p : Nat) : Option Entry :=
  if (pageEntry s d p).existing then some (pageEntry s d p) else none

/-- The loop that maps the pages goes through exactly if the stack has a page for every table
that is missing; else the kernel panics. -/
theorem map_pages_goes_iff (writable : Bool) (pages : List Nat) (virt : Nat) (held : Guarded dirs s)
    (unshared : Unshared dirs s) (user : userdataAddress ≤ virt)
    (below : virt + pages.length * 4096 ≤ bufpageAddress)
    (away : ∀ page ∈ pages, Outside s.mem (addr2page page)) :
    (∃ s', mapPages writable pages virt s = some s') ↔
      missingTables s virt pages.length ≤ s.mem.stackptr := by
  induction pages generalizing virt s with
  | nil =>
    have nothing : missingTables s virt 0 = 0 := by simp [missingTables, missingSlots]
    rw [List.length_nil, nothing]
    exact ⟨fun _ => Nat.zero_le _, fun _ => ⟨s, rfl⟩⟩
  | cons page pages ih =>
    rw [List.length_cons] at below ⊢
    have here := first_below below
    obtain ⟨inside, high, slot, notWindow⟩ := user_place user here
    have split : ∀ ok m, pagingMap s virt page true writable = some (ok, m) →
        s.mem.stackptr = m.mem.stackptr + tableCost s virt ∧
          missingTables s virt (pages.length + 1) =
            missingTables m (virt + 4096) pages.length + tableCost s virt ∧
          ((∃ s', mapPages writable pages (virt + 4096) m = some s') ↔
            missingTables m (virt + 4096) pages.length ≤ m.mem.stackptr) := by
      intro ok m mapped
      obtain ⟨curpd, present, cost⟩ := map_loaded_cost held inside slot mapped
      obtain ⟨rfl, -⟩ := map_spec held inside slot mapped
      have first := map_pointed held unshared inside high slot notWindow
        (away page List.mem_cons_self) mapped
      have slots : ∀ i, i ≠ addr2pde virt → m.frames s.curpd i = s.frames s.curpd i := fun i other =>
        first.slots _ held.loaded i (Or.inl fun eq => other (Prod.mk.inj eq).2)
      exact ⟨cost, missing_tables_step curpd slot present slots pages.length,
        ih (virt + 4096) first.guarded first.unshared (by linarith) (by linarith)
          fun other member => (away other (List.mem_cons_of_mem page member)).of_fewer first.fewer⟩
    rw [mapPages, Nat.mod_eq_of_lt inside]
    constructor
    · rintro ⟨s', ran⟩
      obtain ⟨⟨ok, m⟩, mapped, rest⟩ := Option.bind_eq_some_iff.mp ran
      obtain ⟨cost, missing, goes⟩ := split ok m mapped
      have enough := goes.mp ⟨s', rest⟩
      omega
    · intro stock
      have enough : tableCost s virt ≤ s.mem.stackptr := by
        by_cases present : (s.frames s.curpd (addr2pde virt)).present = true
        · rw [tableCost, if_pos present]
          exact Nat.zero_le _
        · rw [tableCost, if_neg present]
          have missing := (first_slot_missing slot pages.length).mpr
            (Bool.eq_false_of_not_eq_true present)
          exact Nat.lt_of_lt_of_le (Finset.card_pos.mpr ⟨addr2pde virt, missing⟩) stock
      obtain ⟨m, mapped⟩ := map_loaded_goes held inside slot page true writable enough
      obtain ⟨cost, missing, goes⟩ := split true m mapped
      rw [mapped]
      exact goes.mpr (by omega)

/-- The loop that unmaps pages of user memory always goes through. -/
theorem unmap_pages_goes (left virt : Nat) (held : Guarded dirs s) (unshared : Unshared dirs s)
    (user : userdataAddress ≤ virt) (below : virt + left * 4096 ≤ bufpageAddress) :
    ∃ s', unmapPages left virt s = some s' := by
  induction left generalizing virt s with
  | zero => exact ⟨s, rfl⟩
  | succ left ih =>
    have here := first_below below
    have inside := below_top here
    have unmapped := unmap_result held.linked inside
    have first := unmap_cleared held unshared user here unmapped
    obtain ⟨s', rest⟩ := ih (virt + 4096) first.guarded first.unshared (by linarith) (by linarith)
    refine ⟨s', ?_⟩
    rw [unmapPages, Nat.mod_eq_of_lt inside, unmapped]
    exact rest

theorem mapping_eq_none (absent : (pageEntry s d p).existing = false) :
    mapping s d p = none := by
  rw [mapping, absent]
  rfl

/-- Mapping pages in a free run and unmapping them again leaves the mappings as they were. -/
theorem unmapped_again (free : FreeRange s s.curpd pages.length start)
    (attached : Attached dirs s m (start * 4096) pages writable)
    (cleared : Cleared dirs m s' (Covers (start * 4096) pages.length))
    (inDirs : d ∈ dirs) (inside : p < 1023 * 1024) : mapping s' d p = mapping s d p := by
  have slot : p / 1024 < 1023 := by omega
  by_cases gone : d = m.curpd ∧ Covers (start * 4096) pages.length (p / 1024) (p % 1024)
  · obtain ⟨rfl, k, small, pde, pte⟩ := gone
    have page : p = start + k := by
      rw [← Nat.add_mul, addr2pde, addr2page_mul] at pde
      rw [← Nat.add_mul, addr2pte, addr2page_mul] at pte
      omega
    have before : (pageEntry s m.curpd p).existing = false := by
      rw [attached.curpd]
      exact free.2.2 p (by omega) (by omega)
    have after : (pageEntry s' m.curpd p).existing = false := by
      rw [pageEntry, cleared.gone _ slot _ ⟨k, small, pde, pte⟩]
      rfl
    rw [mapping_eq_none before, mapping_eq_none after]
  · have kept := cleared.kept d inDirs _ slot (p % 1024) fun own covers => gone ⟨own, covers⟩
    have same : entry m d (p / 1024) (p % 1024) = entry s d (p / 1024) (p % 1024) := by
      rcases attached.entries d inDirs _ slot (p % 1024) with same | ⟨own, k, page, found, place⟩
      · exact same
      · obtain ⟨small, -⟩ := List.getElem?_eq_some_iff.mp found
        exact absurd ⟨own.trans attached.curpd.symm, k, small, place.1, place.2.1⟩ gone
    rw [mapping, mapping, pageEntry, pageEntry, kept, same]

end Pages

/-- Page tables in order with the address space of the caller loaded, and an object whose
pages are not on the stack of free pages. -/
structure Attachable (s : Shms) (shm : Ptr) : Prop where
  guarded : Guarded s.pagedirs s.machine
  unshared : Unshared s.pagedirs s.machine
  loaded : s.space.pagedir = s.machine.curpd
  count : (s.shms shm).phys.length = (s.shms shm).numPages
  outside : ∀ page ∈ (s.shms shm).phys, Outside s.machine.mem (addr2page page)

theorem InOrder.attachable {s : Shms} (held : InOrder s) (live : s.Live shm) : Attachable s shm where
  guarded := held.guarded
  unshared := held.unshared
  loaded := held.loaded.symm
  count := (held.kept shm live).count
  outside := (held.kept shm live).owned.outside

/-- Every page of every recorded attachment of the caller is mapped. -/
def OwnMapped (s : Shms) : Prop :=
  ∀ shm, s.Live shm → ∀ att ∈ (s.shms shm).atts, att.proc = s.kernel.procCurrent →
    ∀ k < (s.shms shm).numPages,
      (pageEntry s.machine s.machine.curpd (addr2page (att.virt + k * 4096))).existing = true

/-- An object without pages that is found before this one has an attachment of the caller at
the address. -/
def Hidden (virt : Nat) (shm : Ptr) (s : Shms) : Prop :=
  ∃ other ∈ s.ipcObjects.takeWhile (· ≠ shm), (s.ipc other).type = .shm ∧
    (s.shms other).numPages = 0 ∧
      ∃ att ∈ (s.shms other).atts, att.proc = s.kernel.procCurrent ∧ att.virt = virt

/-- Attaching where there is room and detaching again both return 0, and leave the user mappings of
all address spaces and the attachments of all objects as they were. -/
def RoundTrip (id : Int) (flags : BitVec 32) (time time' : Int) (w : HeapShms) : Prop :=
  ∃ addr t u, w.attach id 0 flags time = some (0, addr, t) ∧
    ipcShmDetach addr time' t = some (0, u) ∧
    (∀ d ∈ w.pagedirs, ∀ p, 2 ^ 18 ≤ p → p < 1023 * 1024 →
      mapping u.machine d p = mapping w.machine d p) ∧
    ∀ object, (u.shms object).atts = (w.shms object).atts

section RoundTrip
variable {s : Shms} {shm : Ptr} {virt : Nat} {m : Machine} {flags : BitVec 32} {time : Int}

/-- The state after the attachment. -/
def attachedState (shm : Ptr) (virt : Nat) (flags : BitVec 32) (time : Int) (machine : Machine)
    (s : Shms) : Shms :=
  { s with machine := machine }.setShm shm
    { s.shms shm with
      atts := llistPush (s.shms shm).atts ⟨s.kernel.procCurrent, virt, flags &&& shmRdonly != 0⟩
      atime := time
      lopid := s.caller.pid }

/-- The address that the search finds, and finds again, starts a run of free pages. -/
theorem placed_free (held : Attachable s shm)
    (placed : memuserFindvirt s.machine s.space pages = some (virt, m)) (real : virt ≠ 0) :
    m = s.machine ∧ ∃ start, virt = start * 4096 ∧
      FreeRange s.machine s.machine.curpd pages start := by
  obtain ⟨-, stays, found⟩ := findvirt_free held.guarded (held.loaded ▸ held.guarded.loaded) placed
  rw [held.loaded] at found
  exact ⟨stays held.loaded, found.resolve_left real⟩

theorem attach_eq {id : Int} (flags : BitVec 32) (time : Int) (held : Attachable s shm)
    (found : ipcFind (-1) id .shm s.toObjects = some shm)
    (placed : memuserFindvirt s.machine s.space (s.shms shm).numPages = some (virt, m))
    (real : virt ≠ 0) :
    ipcShmAttach id 0 flags time s =
      (mapPages (!(flags &&& shmRdonly != 0)) (s.shms shm).phys virt s.machine).map fun machine =>
        (0, virt, attachedState shm virt flags time machine s) := by
  obtain ⟨rfl, -⟩ := placed_free held placed real
  have address : attachAddress 0 (s.shms shm).numPages s.space s.machine = some (virt, s.machine) := by
    rw [attachAddress, if_pos rfl, placed]
  rw [ipcShmAttach, if_pos (Or.inr rfl), found]
  simp only [address, Option.bind_some]
  rfl

/-- The run of free pages lies in user memory. -/
theorem placed_user (held : Attachable s shm)
    (free : FreeRange s.machine s.machine.curpd (s.shms shm).numPages start) :
    userdataAddress ≤ start * 4096 ∧
      start * 4096 + (s.shms shm).phys.length * 4096 ≤ bufpageAddress := by
  obtain ⟨low, high, -⟩ := free
  constructor
  · rw [userdataAddress]
    omega
  · rw [held.count, bufpageAddress]
    omega

/-- What the search for an attachment looks at in one object. -/
def attOf (virt : Nat) (s : Shms) (object : Ptr) : Option (Ptr × Nat) :=
  if (s.ipc object).type = .shm then
    ((s.shms object).atts.findIdx? fun att =>
      att.proc = s.kernel.procCurrent && att.virt = virt).map (object, ·)
  else none

theorem att_of_eq_none : attOf virt s object = none ↔ ((s.ipc object).type = .shm →
    ∀ att ∈ (s.shms object).atts, ¬ (att.proc = s.kernel.procCurrent ∧ att.virt = virt)) := by
  rw [attOf]
  split
  · rename_i type
    simp [type]
  · rename_i type
    simp [type]

/-- A search that ends at `shm` at the latest finds there what it has not found before. -/
theorem find_some_until {f g : Ptr → Option β} (own : f shm = some r)
    (others : ∀ other, other ≠ shm → f other = g other) (objects : List Ptr)
    (listed : shm ∈ objects) :
    objects.findSome? f = some (((objects.takeWhile (· ≠ shm)).findSome? g).getD r) := by
  induction objects with
  | nil => cases listed
  | cons object objects ih =>
    by_cases same : object = shm
    · subst same
      simp [own]
    · have rest := ih ((List.mem_cons.mp listed).resolve_left (Ne.symm same))
      rw [List.findSome?_cons, others object same, List.takeWhile_cons_of_pos (by simpa using same),
        List.findSome?_cons]
      cases g object with
      | none => exact rest
      | some found => rfl

/-- The search finds the new attachment, unless an object listed before has one at the
address. -/
theorem find_att_attached (live : s.Live shm) (machine : Machine) :
    findAtt virt (attachedState shm virt flags time machine s) =
      some (((s.ipcObjects.takeWhile (· ≠ shm)).findSome? (attOf virt s)).getD (shm, 0)) := by
  obtain ⟨listed, type⟩ := live
  have own : attOf virt (attachedState shm virt flags time machine s) shm = some (shm, 0) := by
    have type' : ((attachedState shm virt flags time machine s).ipc shm).type = .shm := type
    rw [attOf, if_pos type']
    simp [attachedState, Shms.setShm, llistPush, List.findIdx?_cons]
  have others : ∀ other, other ≠ shm →
      attOf virt (attachedState shm virt flags time machine s) other = attOf virt s other := by
    intro other different
    have same : (attachedState shm virt flags time machine s).shms other = s.shms other :=
      Function.update_of_ne different ..
    rw [attOf, attOf, same]
    rfl
  exact find_some_until own others s.ipcObjects listed

/-- An attachment of the caller at the start of a free run has no pages. -/
theorem hidden_iff (mapped : OwnMapped s)
    (free : FreeRange s.machine s.machine.curpd pages start) (some' : 1 ≤ pages) :
    Hidden (start * 4096) shm s ↔
      (s.ipcObjects.takeWhile (· ≠ shm)).findSome? (attOf (start * 4096) s) ≠ none := by
  rw [ne_eq, List.findSome?_eq_none_iff]
  simp only [att_of_eq_none]
  constructor
  · rintro ⟨other, before, type, -, att, inAtts, own, place⟩ none'
    exact none' other before type att inAtts ⟨own, place⟩
  · intro some''
    push Not at some''
    obtain ⟨other, before, type, att, inAtts, own, place⟩ := some''
    refine ⟨other, before, type, ?_, att, inAtts, own, place⟩
    by_contra nonzero
    have listed := (List.takeWhile_sublist _).subset before
    have exists' := mapped other ⟨listed, type⟩ att inAtts own 0 (by omega)
    rw [place, Nat.zero_mul, Nat.add_zero, addr2page_mul,
      free.2.2 start (Nat.le_refl start) (by omega)] at exists'
    cases exists'

/-- The new attachment is found again and its pages are unmapped. -/
theorem detach_restores (flags : BitVec 32) (time time' : Int) {machine : Machine} (held : Attachable s shm)
    (live : s.Live shm) (free : FreeRange s.machine s.machine.curpd (s.shms shm).numPages start)
    (attached : Attached s.pagedirs s.machine machine (start * 4096) (s.shms shm).phys writable)
    (alone : (s.ipcObjects.takeWhile (· ≠ shm)).findSome? (attOf (start * 4096) s) = none) :
    ∃ u, ipcShmDetach (start * 4096) time'
        (attachedState shm (start * 4096) flags time machine s) = some (0, u) ∧
      (∀ d ∈ s.pagedirs, ∀ p < 1023 * 1024, mapping u.machine d p = mapping s.machine d p) ∧
      ∀ object, (u.shms object).atts = (s.shms object).atts := by
  obtain ⟨user, below⟩ := placed_user held free
  obtain ⟨m, unmapped⟩ := unmap_pages_goes _ _ attached.guarded attached.unshared user below
  have cleared := unmap_pages_cleared _ _ attached.guarded attached.unshared user below unmapped
  rw [held.count] at unmapped
  have found : findAtt (start * 4096) (attachedState shm (start * 4096) flags time machine s) =
      some (shm, 0) := by
    rw [find_att_attached live, alone]
    rfl
  have own : (attachedState shm (start * 4096) flags time machine s).shms shm =
      { s.shms shm with
        atts := llistPush (s.shms shm).atts
          ⟨s.kernel.procCurrent, start * 4096, flags &&& shmRdonly != 0⟩
        atime := time
        lopid := s.caller.pid } := Function.update_self ..
  refine ⟨{ attachedState shm (start * 4096) flags time machine s with machine := m }.setShm shm
    { s.shms shm with
      atts := (s.shms shm).atts
      atime := time'
      lopid := s.caller.pid }, ?_, ?_, ?_⟩
  · rw [ipcShmDetach, if_neg (Nat.not_lt.mpr user), found]
    simp only [own]
    rw [show (attachedState shm (start * 4096) flags time machine s).machine = machine from rfl,
      unmapped]
    rfl
  · intro d inDirs p inside
    have range : FreeRange s.machine s.machine.curpd (s.shms shm).phys.length start := by
      rw [held.count]
      exact free
    exact unmapped_again range attached cleared inDirs inside
  · intro object
    by_cases same : object = shm
    · subst same
      simp [Shms.setShm]
    · simp [Shms.setShm, attachedState, Function.update_of_ne same]

/-- An attachment that another object has at the address is taken for the new one. -/
theorem detach_takes_other {time' : Int} {machine : Machine} (live : s.Live shm)
    (other : (s.ipcObjects.takeWhile (· ≠ shm)).findSome? (attOf virt s) ≠ none)
    (ran : ipcShmDetach virt time' (attachedState shm virt flags time machine s) = some (0, u)) :
    (u.shms shm).atts ≠ (s.shms shm).atts := by
  obtain ⟨⟨first, j⟩, found⟩ := Option.ne_none_iff_exists'.mp other
  have different : shm ≠ first := by
    obtain ⟨object, before, here⟩ := List.exists_of_findSome?_eq_some found
    obtain ⟨-, here⟩ := Option.ite_none_right_eq_some.mp here
    obtain ⟨_, -, same⟩ := Option.map_eq_some_iff.mp here
    obtain ⟨rfl, -⟩ := Prod.mk.inj same
    have notShm : object ≠ shm := by simpa using List.mem_takeWhile_imp before
    exact notShm.symm
  have search : findAtt virt (attachedState shm virt flags time machine s) = some (first, j) := by
    rw [find_att_attached live, found]
    rfl
  rw [ipcShmDetach, search] at ran
  split at ran
  · cases ran
  · obtain ⟨m, -, same⟩ := Option.map_eq_some_iff.mp ran
    cases same
    intro restored
    simp only [Shms.setShm, Function.update_of_ne different] at restored
    have longer := congrArg List.length restored
    simp [attachedState, Shms.setShm, llistPush] at longer

end RoundTrip

/-- With room in the heap, attaching where `memuser_findvirt` finds room and detaching again is undone
by each other exactly if the page tables that are missing can be had, and no object without pages
listed before has an attachment of the caller at the address. -/
theorem attach_detach_inverse_iff (w : HeapShms) (shm : Ptr) (id : Int) (virt : Nat) (m : Machine)
    (flags : BitVec 32) (time time' : Int) (room : w.Roomy)
    (found : ipcFind (-1) id .shm w.toObjects = some shm) (held : Attachable w.toShms shm)
    (mapped : OwnMapped w.toShms) (pages : 1 ≤ (w.shms shm).numPages)
    (placed : memuserFindvirt w.machine w.space (w.shms shm).numPages = some (virt, m))
    (real : virt ≠ 0) :
    RoundTrip id flags time time' w ↔
      missingTables w.machine virt (w.shms shm).numPages ≤ w.machine.mem.stackptr ∧
        ¬ Hidden virt shm w.toShms := by
  have live := find_live found
  have attach := attach_eq flags time held found placed real
  rw [← attach_served room] at attach
  obtain ⟨-, start, rfl, free⟩ := placed_free held placed real
  obtain ⟨user, below⟩ := placed_user held free
  have goes := map_pages_goes_iff (!(flags &&& shmRdonly != 0)) _ _ held.guarded held.unshared user
    below held.outside
  rw [held.count] at goes
  rw [hidden_iff mapped free pages, not_not, ← goes]
  constructor
  · rintro ⟨addr, t, u, ran, detached, -, restored⟩
    rw [attach] at ran
    obtain ⟨machine, run, same⟩ := Option.map_eq_some_iff.mp ran
    cases same
    refine ⟨⟨machine, run⟩, ?_⟩
    by_contra other
    exact detach_takes_other live other detached (restored shm)
  · rintro ⟨⟨machine, run⟩, alone⟩
    have attached := map_pages_attached _ _ _ held.guarded held.unshared user below held.outside run
    obtain ⟨u, detached, mappings, atts⟩ := detach_restores flags time time' held live
      free attached alone
    refine ⟨start * 4096, _, u, ?_, detached, fun d inDirs p _ => mappings d inDirs p, atts⟩
    rw [attach, run]
    rfl

/-- An object of one page, and after it one of size 0. -/
def onePageAndEmpty : List Event := [.create 9 7 4096 0o666, .create 10 8 0 0o666, .attach 1 0 0 0]

/-- The object of size 0 is attached at the first address of user memory, where the other one
is attached next. `ipc_shm_detach` of that address removes the record of the empty object:
the page stays mapped and the attachment stays recorded. -/
theorem empty_object_detached_instead : ∃ s t u, run step oneProcess onePageAndEmpty = some s ∧
    InOrder s ∧ OwnMapped s ∧ ipcFind (-1) 0 .shm s.toObjects = some 9 ∧ (s.shms 9).numPages = 1 ∧
    s.withPage.attach 0 0 0 0 = some (0, 0x40000000, t) ∧ ipcShmDetach 0x40000000 0 t = some (0, u) ∧
    (s.shms 9).atts = [] ∧ (u.shms 9).atts = [⟨1, 0x40000000, false⟩] ∧
    mapping s.machine 0x310 0x40000 = none ∧
    mapping u.machine 0x310 0x40000 = some (mapEntry 0x327000 true true) ∧
    ¬ RoundTrip 0 0 0 0 s.withPage := by
  obtain ⟨s, ran, found, objects, empty, pages, before, unmapped, ⟨r, addr, t⟩, attached, (rfl : r = 0),
      (rfl : addr = 0x40000000), ⟨r', u⟩, detached, (rfl : r' = 0), after, mapped⟩ : ∃ s,
      run step oneProcess onePageAndEmpty = some s ∧ ipcFind (-1) 0 .shm s.toObjects = some 9 ∧
      s.ipcObjects = [10, 9] ∧ (s.shms 10).numPages = 0 ∧ (s.shms 9).numPages = 1 ∧
      (s.shms 9).atts = [] ∧ mapping s.machine 0x310 0x40000 = none ∧
      ∃ a, s.withPage.attach 0 0 0 0 = some a ∧ a.1 = 0 ∧ a.2.1 = 0x40000000 ∧
      ∃ d, ipcShmDetach 0x40000000 0 a.2.2 = some d ∧ d.1 = 0 ∧
        (d.2.shms 9).atts = [⟨1, 0x40000000, false⟩] ∧
        mapping d.2.machine 0x310 0x40000 = some (mapEntry 0x327000 true true) := by
    decide +kernel
  have order : InOrder s := by
    refine run_guarded step_in_order (one_process_sound.in_order fun shm live =>
      absurd live.1 List.not_mem_nil) ?_ ran
    refine along_cons.mpr ⟨trivial, fun s₁ first => along_cons.mpr ⟨trivial, fun s₂ second =>
      along_cons.mpr ⟨fun shm here => ?_, fun _ _ => trivial⟩⟩⟩
    obtain ⟨t₁, first', t₂, second', there, none⟩ : ∃ s, step oneProcess (.create 9 7 4096 0o666) = some s ∧
        ∃ t, step s (.create 10 8 0 0o666) = some t ∧ ipcFind (-1) 1 .shm t.toObjects = some 10 ∧
          (t.shms 10).numPages = 0 := by
      decide +kernel
    cases first.symm.trans first'
    cases second.symm.trans second'
    cases there.symm.trans here
    rw [if_pos rfl, none]
    exact ⟨2 ^ 18, Nat.le_refl _, by decide, fun page low high => by omega⟩
  have ownMapped : OwnMapped s := by
    rintro shm ⟨listed, -⟩ att inAtts - k small
    rw [objects, List.mem_cons, List.mem_singleton] at listed
    rcases listed with rfl | rfl
    · rw [empty] at small
      cases small
    · rw [before] at inAtts
      cases inAtts
  refine ⟨s, t, u, ran, order, ownMapped, found, pages, attached, detached, before, after, unmapped,
    mapped, ?_⟩
  rintro ⟨addr, t', u', attached', detached', -, restored⟩
  cases attached.symm.trans attached'
  cases detached.symm.trans detached'
  have wrong : (u.shms 9).atts = (s.shms 9).atts := restored 9
  rw [before, after] at wrong
  cases wrong

/-- One object of one page is attached and detached. -/
theorem one_page_round_trip : ∃ s, step oneProcess (.create 9 7 4096 0o666) = some s ∧
    ipcFind (-1) 0 .shm s.toObjects = some 9 ∧ Attachable s 9 ∧ OwnMapped s ∧
    memuserFindvirt s.machine s.space (s.shms 9).numPages = some (0x40000000, s.machine) ∧
    RoundTrip 0 0 0 0 s.withPage := by
  obtain ⟨s, ran, found, objects, pages, atts, stock, ⟨virt, m⟩, placed, (rfl : virt = 0x40000000)⟩ : ∃ s,
      step oneProcess (.create 9 7 4096 0o666) = some s ∧ ipcFind (-1) 0 .shm s.toObjects = some 9 ∧
      s.ipcObjects = [9] ∧ (s.shms 9).numPages = 1 ∧ (s.shms 9).atts = [] ∧
      s.machine.mem.stackptr = 7 ∧ ∃ r, memuserFindvirt s.machine s.space 1 = some r ∧
        r.1 = 0x40000000 := by
    decide +kernel
  have order : InOrder s := step_in_order oneProcess (.create 9 7 4096 0o666) s
    (one_process_sound.in_order fun shm live => absurd live.1 List.not_mem_nil) trivial ran
  have held := order.attachable (find_live found)
  have ownMapped : OwnMapped s := by
    rintro shm ⟨listed, -⟩ att inAtts
    rw [objects, List.mem_singleton] at listed
    rw [listed, atts] at inAtts
    cases inAtts
  have room : s.withPage.Roomy := by
    have served : (KernelHeap.served KernelHeap.pageHeap [attSize, KernelHeap.nodeSize]).isSome := by
      decide +kernel
    exact served
  rw [← pages] at placed
  obtain ⟨rfl, -⟩ := placed_free held placed (by decide)
  refine ⟨s, ran, found, held, ownMapped, placed, ?_⟩
  refine (attach_detach_inverse_iff s.withPage 9 0 _ _ 0 0 0 room found held ownMapped
    (Nat.le_of_eq pages.symm) placed (by decide)).mpr ⟨?_, ?_⟩
  · have one : missingSlots s.machine 0x40000000 1 ⊆ {256} := by
      intro i member
      obtain ⟨-, -, k, small, place⟩ := mem_missing_slots.mp member
      rw [Nat.lt_one_iff.mp small] at place
      rw [Finset.mem_singleton, ← place]
      decide
    change missingTables s.machine _ (s.shms 9).numPages ≤ s.machine.mem.stackptr
    rw [pages, stock]
    exact (Finset.card_le_card one).trans (by decide)
  · rintro ⟨other, before, -⟩
    change other ∈ s.ipcObjects.takeWhile _ at before
    rw [objects] at before
    simp at before

end MeinOS.Shm
