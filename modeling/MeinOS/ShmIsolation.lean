import MeinOS.ShmDestroy
import MeinOS.UserIsolation

/-! Isolation of the kernel's mappings from `ipc_shm_attach`, and the condition under
which the four system calls leave them alone.

The pages of an object go to consecutive addresses. Past the end of user memory these are
the addresses at which the page tables show, so that the directory itself is written; if
`memuser_findvirt` finds no room it is the first page of the kernel. What the call then
leaves in `*addr` never undoes that. -/
namespace MeinOS.UserIsolation
open Llist Procm Ipc Memphys Paging Memuser Shm

variable {dirs : List Nat} {s s' m : Machine} {virt : Nat}

/-- The entries that attaching pages may write. -/
def Written (mem : PhysMem) (pages : List Nat) (writable : Bool) (e : Entry) : Prop :=
  e = blank ∨ (∃ addr ∈ freePages mem, e = tableEntry addr) ∨
    ∃ page ∈ pages, e = mapEntry page true writable

section MapPages

theorem map_pages_entered {New : Entry → Prop} (pages : List Nat) (virt : Nat)
    (stocked : Stocked s.mem) (clean : New blank)
    (table : ∀ addr ∈ freePages s.mem, New (tableEntry addr))
    (new : ∀ page ∈ pages, New (mapEntry page true w))
    (ran : mapPages w pages virt s = some s') : Entered New s s' := by
  induction pages generalizing virt s with
  | nil =>
    cases ran
    exact .refl stocked
  | cons page pages ih =>
    obtain ⟨⟨ok, m⟩, mapped, ran⟩ := Option.bind_eq_some_iff.mp ran
    have first : Entered New s m :=
      map_entered stocked clean table (new page List.mem_cons_self) mapped
    refine first.trans (ih (virt + 4096) first.stocked ?_ ?_ ran)
    · exact fun addr member => table addr (first.fewer addr member)
    · exact fun page' member => new page' (List.mem_cons_of_mem page member)

theorem map_pages_append (first rest : List Nat) (virt : Nat) (s : Machine) :
    mapPages w (first ++ rest) virt s =
      (mapPages w first virt s).bind (mapPages w rest (virt + first.length * 4096)) := by
  induction first generalizing virt s with
  | nil => simp [mapPages]
  | cons page first ih =>
    rw [List.cons_append, mapPages, mapPages]
    cases pagingMap s (virt % 2 ^ 32) page true w with
    | none => rfl
    | some result =>
      have shift : virt + 4096 + first.length * 4096 = virt + (first.length + 1) * 4096 := by ring
      simp only [Option.bind_some, ih, List.length_cons, shift]

theorem addr2page_inside (below : addr2page virt < 2 ^ 20) : virt < 2 ^ 32 := by
  rw [addr2page] at below
  omega

/-- Below the page tables only user memory changes. -/
theorem map_pages_user_changed (pages : List Nat) (virt : Nat) (held : Walkable s)
    (user : 2 ^ 18 ≤ addr2page virt) (top : addr2page virt + pages.length ≤ 1023 * 1024)
    (ran : mapPages w pages virt s = some s') : UserChanged s s' := by
  induction pages generalizing virt s with
  | nil =>
    cases ran
    exact .refl held
  | cons page pages ih =>
    rw [List.length_cons] at top
    have inside : virt < 2 ^ 32 := addr2page_inside (by omega)
    rw [mapPages, Nat.mod_eq_of_lt inside] at ran
    obtain ⟨⟨ok, m⟩, mapped, ran⟩ := Option.bind_eq_some_iff.mp ran
    have low : 256 ≤ addr2pde virt := by
      rw [addr2pde]
      omega
    have slot : addr2pde virt < 1023 := by
      rw [addr2pde]
      omega
    have first := (map_mapped held inside slot mapped).user_changed held.toStocked low slot
    have next := addr2page_next virt
    exact first.trans held.toStocked (ih (virt + 4096) first.walkable (by omega) (by omega) ran)

/-- From the page tables on, every page is a word of the directory. -/
theorem map_page_directory (linked : SelfLinked s) (low : 1023 * 1024 ≤ addr2page virt)
    (inside : addr2page virt < 2 ^ 20) (ran : mapPages w (page :: pages) virt s = some s') :
    mapPages w pages (virt + 4096)
      (s.write s.curpd (addr2page virt - 1023 * 1024) (mapEntry page true w)) = some s' := by
  have slot : addr2pde virt = 1023 := by
    rw [addr2pde]
    omega
  have word : addr2pte virt = addr2page virt - 1023 * 1024 := by
    rw [addr2pte]
    omega
  rw [mapPages, Nat.mod_eq_of_lt (addr2page_inside inside),
    map_directory linked (addr2page_inside inside) slot, word] at ran
  exact ran

theorem map_pages_linked (pages : List Nat) (virt : Nat) (linked : SelfLinked s)
    (low : 1023 * 1024 ≤ addr2page virt) (top : addr2page virt + pages.length < 2 ^ 20)
    (ran : mapPages w pages virt s = some s') :
    SelfLinked s' ∧ s'.curpd = s.curpd ∧ s'.mem = s.mem := by
  induction pages generalizing virt s with
  | nil =>
    cases ran
    exact ⟨linked, rfl, rfl⟩
  | cons page pages ih =>
    rw [List.length_cons] at top
    have next := addr2page_next virt
    have ran := map_page_directory linked low (by omega) ran
    have still : SelfLinked
        (s.write s.curpd (addr2page virt - 1023 * 1024) (mapEntry page true w)) := by
      rw [SelfLinked, write_curpd, write_other_word s _ (by omega)]
      exact linked
    have rest := ih (virt + 4096) still (by omega) (by omega) ran
    exact rest

theorem split_at (pages : List Nat) (small : a < pages.length) :
    ∃ first page rest, pages = first ++ page :: rest ∧ first.length = a := by
  refine ⟨pages.take a, pages[a], pages.drop (a + 1), ?_, List.length_take_of_le (by omega)⟩
  rw [← List.drop_eq_getElem_cons small, List.take_append_drop]

/-- A word that a page was entered into stays among the entries that are written. -/
theorem written_after (page : Nat) (stocked : Stocked m.mem)
    (fewer : ∀ a ∈ freePages m.mem, a ∈ freePages s.mem) (here : page ∈ pages)
    (rest : ∀ page ∈ later, page ∈ pages)
    (ran : mapPages w later virt (m.write f k (mapEntry page true w)) = some s') :
    Written s.mem pages w (s'.frames f k) := by
  have entered : Entered (Written s.mem pages w) (m.write f k (mapEntry page true w)) s' :=
    map_pages_entered later virt stocked (Or.inl rfl)
      (fun addr member => Or.inr (Or.inl ⟨addr, fewer addr member, rfl⟩))
      (fun page' member => Or.inr (Or.inr ⟨page', rest page' member, rfl⟩)) ran
  rcases entered.words f k with same | written
  · rw [same, write_same]
    exact Or.inr (Or.inr ⟨page, here, rfl⟩)
  · exact written

theorem addr2page_add (virt count : Nat) :
    addr2page (virt + count * 4096) = addr2page virt + count := by
  rw [addr2page, addr2page]
  omega

/-- A page that lies past user memory leaves its trace in the directory. -/
theorem map_pages_high (pages : List Nat) (held : Walkable s) (user : 2 ^ 18 ≤ addr2page virt)
    (inside : addr2page virt < 2 ^ 20) (real : 0 < pages.length)
    (top : 1023 * 1024 < addr2page virt + pages.length)
    (ran : mapPages w pages virt s = some s') :
    ∃ k < 1024, Written s.mem pages w (s'.frames s.curpd k) ∧
      (k = 0 ∧ addr2page virt ≤ 1023 * 1024 ∨ 1023 * 1024 < addr2page virt ∧
        (k = 1023 ∨ ∃ page ∈ pages, s'.frames s.curpd k = mapEntry page true w)) := by
  by_cases low : addr2page virt ≤ 1023 * 1024
  · obtain ⟨first, page, rest, rfl, count⟩ :=
      split_at (a := 1023 * 1024 - addr2page virt) pages (by omega)
    rw [map_pages_append] at ran
    obtain ⟨m, before, ran⟩ := Option.bind_eq_some_iff.mp ran
    have changed := map_pages_user_changed first virt held user (by omega) before
    have start := addr2page_add virt first.length
    have ran := map_page_directory changed.walkable.linked (by omega) (by omega) ran
    have word : addr2page (virt + first.length * 4096) - 1023 * 1024 = 0 := by omega
    rw [word, changed.curpd] at ran
    refine ⟨0, by omega, ?_, Or.inl ⟨rfl, low⟩⟩
    exact written_after page changed.walkable.toStocked changed.fewer (by simp)
      (fun page' member => by simp [member]) ran
  · obtain ⟨first, page, rest, rfl, count⟩ :=
      split_at (a := min (pages.length - 1) (2 ^ 20 - 1 - addr2page virt)) pages (by omega)
    rw [List.length_append, List.length_cons] at count
    rw [map_pages_append] at ran
    obtain ⟨m, before, ran⟩ := Option.bind_eq_some_iff.mp ran
    obtain ⟨linked, curpd, mem⟩ := map_pages_linked first virt held.linked (by omega) (by omega) before
    have start := addr2page_add virt first.length
    have ran := map_page_directory linked (by omega) (by omega) ran
    rw [start, curpd] at ran
    refine ⟨addr2page virt + first.length - 1023 * 1024, by omega, ?_, Or.inr ⟨by omega, ?_⟩⟩
    · refine written_after page (mem ▸ held.toStocked) (fun a member => mem ▸ member) (by simp)
        (fun page' member => by simp [member]) ran
    · cases rest with
      | nil =>
        cases ran
        exact Or.inr ⟨page, by simp, write_same _ _ _ _⟩
      | cons other rest =>
        rw [List.length_cons] at count
        exact Or.inl (by omega)

theorem map_pages_written (pages : List Nat) (virt : Nat) (stocked : Stocked s.mem)
    (ran : mapPages w pages virt s = some s') : Entered (Written s.mem pages w) s s' :=
  map_pages_entered pages virt stocked (Or.inl rfl)
    (fun addr member => Or.inr (Or.inl ⟨addr, member, rfl⟩))
    (fun page member => Or.inr (Or.inr ⟨page, member, rfl⟩)) ran

end MapPages

/-- A slot of the loaded directory that has a table has none of the entries that are
written. -/
theorem slot_not_written (held : Guarded dirs s) (slot : k < 1024)
    (present : (s.frames s.curpd k).present = true) :
    ¬ Written s.mem pages w (s.frames s.curpd k) := by
  rintro (clean | ⟨addr, free, table⟩ | ⟨page, -, mapped⟩)
  · rw [clean] at present
    cases present
  · have used := (held.table_outside ⟨s.curpd, held.loaded, k, slot, present, rfl⟩).2
    apply used
    rw [table]
    change addr2page addr * 4096 ∈ _
    rw [held.toStocked.whole free]
    exact free
  · have plain := held.plain s.curpd held.loaded k slot
    rw [mapped] at plain
    cases plain

theorem KernelTable.table (held : Guarded dirs s) (kernel : KernelTable dirs s f) :
    Table dirs s f := by
  rcases kernel with inDirs | ⟨d, inDirs, i, low, present, page⟩
  · exact held.dir_is_table inDirs
  · exact ⟨d, inDirs, i, by omega, present, page⟩

section Attach
variable {s : Shms} {after : Machine} {addr : Nat}

/-- Pages past the end of user memory. -/
theorem far_attach_breaks (held : Proper dirs s) (user : userdataAddress ≤ virt)
    (inside : virt < 2 ^ 32) (real : 0 < pages.length)
    (top : 1023 * 1024 < addr2page virt + pages.length)
    (ran : mapPages w pages virt s.machine = some m)
    (stored : m.store addr (wordEntry virt) = some after) : ¬ Sealed dirs s.machine after := by
  intro sealedAfter
  have low : 2 ^ 18 ≤ addr2page virt := by
    rw [userdataAddress] at user
    rw [addr2page]
    omega
  have loaded := held.guarded.loaded
  have stocked := (map_pages_written pages virt held.guarded.toStocked ran).stocked
  obtain ⟨k, small, written, place⟩ := map_pages_high pages held.guarded.walkable low
    (by rw [addr2page]; omega) real top ran
  have final : Entered (· = wordEntry virt) m after := store_entered stocked rfl stored
  have word := final.words s.machine.curpd k
  have ram := held.tablesInRam s.machine.curpd loaded k small
  -- The slot has its old table, so neither the loop nor the last store has written it.
  have kept : (s.machine.frames s.machine.curpd k).present = true →
      (s.machine.frames s.machine.curpd k).page ≠ addr2page virt →
      after.frames s.machine.curpd k ≠ s.machine.frames s.machine.curpd k := by
    intro present other same
    rw [same] at word
    rcases word with old | back
    · exact slot_not_written held.guarded small present (old ▸ written)
    · exact other (congrArg Entry.page back)
  rcases place with ⟨rfl, -⟩ | ⟨high, rfl | ⟨page, -, mapped⟩⟩
  · have first := held.firstTable
    exact kept (held.guarded.kernel _ loaded).1 (by omega)
      (sealedAfter.kernel_slot loaded (by omega))
  · rcases sealedAfter.directory s.machine.curpd loaded 1023 (by omega) with same | ⟨-, below, -⟩
    · exact kept held.guarded.linked.1 (by omega) same
    · omega
  · rw [mapped] at word
    rcases sealedAfter.directory s.machine.curpd loaded k small with same | ⟨-, -, -, new, free, entry⟩
    · rw [same] at word
      rcases word with old | back
      · have plain := held.guarded.plain s.machine.curpd loaded k small
        rw [old] at plain
        cases plain
      · rw [back] at ram
        change addr2page virt < _ at ram
        omega
    · rw [entry] at word
      rcases word with old | back
      · cases old
      · have table := held.freeInRam new free
        have same : addr2page new = addr2page virt := congrArg Entry.page back
        omega

/-- Pages from address 0 on. -/
theorem null_attach_breaks (held : Proper dirs s)
    (fresh : ∀ page ∈ pages, Fresh dirs s.machine (addr2page page)) (real : 0 < pages.length)
    (ran : mapPages w pages 0 s.machine = some m) (stored : m.store addr (wordEntry 0) = some after) :
    ¬ Sealed dirs s.machine after := by
  intro sealedAfter
  have loaded := held.guarded.loaded
  have present := (held.guarded.kernel s.machine.curpd loaded).1
  obtain ⟨there, zero⟩ := held.first
  rw [pageEntry, Nat.zero_div, Nat.zero_mod, entry_present _ _ present] at there zero
  have stocked := (map_pages_written _ _ held.guarded.toStocked ran).stocked
  have kept := sealedAfter.kernel_word loaded (i := 0) (j := 0) (by omega) (by omega) present
  cases pages with
  | nil => cases real
  | cons page pages =>
    have entered : pagingMap s.machine 0 page true w = some (true,
        s.machine.write (s.machine.frames s.machine.curpd 0).page 0 (mapEntry page true w)) :=
      map_present held.guarded.linked page true w (by omega) present
    rw [mapPages, Nat.zero_mod, entered, Option.bind_some] at ran
    have written := written_after page held.guarded.toStocked (fun _ member => member)
      List.mem_cons_self (fun page' member => List.mem_cons_of_mem page member) ran
    have final : Entered (· = wordEntry 0) m after := store_entered stocked rfl stored
    rcases final.words (s.machine.frames s.machine.curpd 0).page 0 with old | back
    · rw [← kept, old] at there zero
      rcases written with clean | ⟨new, free, table⟩ | ⟨page', member, mapped⟩
      · rw [clean] at there
        cases there
      · rw [table] at zero
        have whole := held.guarded.toStocked.whole free
        have real := (held.guarded.aligned new free).2.1
        change addr2page new = 0 at zero
        omega
      · rw [mapped] at zero
        exact (fresh page' member).real zero
    · rw [← kept, back] at there
      cases there

/-- How a change of user memory alone changes what an address leads to. -/
theorem user_changed_translate {s : Machine} (held : Guarded dirs s) (unshared : Unshared dirs s)
    (changed : UserChanged s m) (inside : addr < 2 ^ 32) (seen : s.translate addr = some frame) :
    m.frames s.curpd (addr2pde addr) = s.frames s.curpd (addr2pde addr) ∧
      (m.frames (s.frames s.curpd (addr2pde addr)).page (addr2pte addr) =
          s.frames (s.frames s.curpd (addr2pde addr)).page (addr2pte addr) ∨
        256 ≤ addr2pde addr ∧ addr2pde addr < 1023) := by
  obtain ⟨present, there, -⟩ := translate_some seen
  have kept : ∀ k, (s.frames s.curpd k).present = true →
      m.frames s.curpd k = s.frames s.curpd k := by
    intro k table
    rcases changed.words k with same | ⟨-, -, absent, -⟩
    · exact same
    · rw [absent] at table
      cases table
  refine ⟨kept _ present, ?_⟩
  by_cases low : addr2pde addr < 256
  · left
    exact (user_changed_sealed held unshared changed).kernel_word held.loaded low (addr2pte_lt addr)
      present
  · by_cases user : addr2pde addr < 1023
    · exact Or.inr ⟨by omega, user⟩
    · have slot : addr2pde addr = 1023 := by
        have := addr2pde_lt inside
        omega
      left
      rw [slot, held.linked.2] at there ⊢
      exact kept _ there

theorem translate_congr {s : Machine} (curpd : m.curpd = s.curpd)
    (slot : m.frames s.curpd (addr2pde addr) = s.frames s.curpd (addr2pde addr))
    (word : m.frames (s.frames s.curpd (addr2pde addr)).page (addr2pte addr) =
      s.frames (s.frames s.curpd (addr2pde addr)).page (addr2pte addr)) :
    m.translate addr = s.translate addr := by
  simp only [Machine.translate, curpd, slot, word]

section
variable {pages : List Nat} (held : Proper dirs s) (fresh : ∀ page ∈ pages, Fresh dirs s.machine (addr2page page))
  (inside : addr < 2 ^ 32)
include held fresh inside

/-- Pages inside user memory: the word at `addr` gets its value back, or lies in a page that
no directory has as a table. -/
theorem near_attach_sealed (changed : UserChanged s.machine m)
    (ran : mapPages w pages virt s.machine = some m) (loaded : s.machine.load addr = some e)
    (stored : m.store addr e = some after) : Sealed dirs s.machine after := by
  obtain ⟨frame, seen, rfl⟩ := Option.map_eq_some_iff.mp loaded
  obtain ⟨frame', seen', rfl⟩ := Option.map_eq_some_iff.mp stored
  have base := user_changed_sealed held.guarded held.unshared changed
  obtain ⟨slot, same | user⟩ := user_changed_translate held.guarded held.unshared changed inside seen
  · rw [translate_congr changed.curpd slot same, seen] at seen'
    cases seen'
    exact base.restore frame _
  · have entered := map_pages_written pages virt held.guarded.toStocked ran
    rcases entered.words (s.machine.frames s.machine.curpd (addr2pde addr)).page (addr2pte addr) with
      same | written
    · rw [translate_congr changed.curpd slot same, seen] at seen'
      cases seen'
      exact base.restore frame _
    · obtain ⟨-, there, page⟩ := translate_some seen'
      rw [changed.curpd, slot] at there page
      apply base.write
      intro kernel
      have table := kernel.table held.guarded
      rcases written with clean | ⟨new, free, entry⟩ | ⟨page', member, entry⟩
      · rw [clean] at there
        cases there
      · apply (held.guarded.table_outside table).2
        rw [← page, entry]
        change addr2page new * 4096 ∈ _
        rw [held.guarded.toStocked.whole free]
        exact free
      · rw [entry] at page
        change addr2page page' = frame' at page
        rw [← page] at table
        exact (fresh page' member).notTable table

/-- Pages where room was found. The word at `addr` is new, so it must not be one of the
kernel's entries. -/
theorem found_attach_sealed_iff (range : FreeRange s.machine s.machine.curpd pages.length start)
    (ran : mapPages w pages (start * 4096) s.machine = some m)
    (loaded : s.machine.load addr = some (wordEntry 0))
    (stored : m.store addr (wordEntry (start * 4096)) = some after) :
    Sealed dirs s.machine after ↔
      ∀ frame, s.machine.translate addr = some frame → ¬ KernelTable dirs s.machine frame := by
  obtain ⟨low, high, free⟩ := range
  have page := addr2page_mul start
  have user : userdataAddress ≤ start * 4096 := by
    rw [userdataAddress]
    omega
  have below : start * 4096 + pages.length * 4096 ≤ bufpageAddress := by
    rw [bufpageAddress]
    omega
  have changed := map_pages_user_changed pages (start * 4096) held.guarded.walkable (by omega)
    (by omega) ran
  have attached := map_pages_attached w pages (start * 4096) held.guarded held.unshared user below
    (fun page member => (fresh page member).outside) ran
  obtain ⟨frame, seen, old⟩ := Option.map_eq_some_iff.mp loaded
  obtain ⟨frame', seen', rfl⟩ := Option.map_eq_some_iff.mp stored
  have same : m.translate addr = s.machine.translate addr := by
    obtain ⟨slot, word⟩ := user_changed_translate held.guarded held.unshared changed inside seen
    refine translate_congr changed.curpd slot (word.elim id ?_)
    rintro ⟨above, under⟩
    obtain ⟨present, there, -⟩ := translate_some seen
    have entries := attached.entries s.machine.curpd held.guarded.loaded (addr2pde addr) under
      (addr2pte addr)
    rw [entry, slot, if_pos present, entry, if_pos present] at entries
    rcases entries with kept | ⟨-, k, page', found, pde, pte, -⟩
    · exact kept
    -- A page that is there exists, and the loop has passed over it.
    · obtain ⟨small, -⟩ := List.getElem?_eq_some_iff.mp found
      have here : addr2page addr = start + k := by
        simp only [addr2pde, addr2pte, addr2page_add, page] at pde pte
        omega
      have missing := free (addr2page addr) (by omega) (by omega)
      have real := held.existing (addr2page addr) (by omega) (by omega)
        ((congrArg Entry.present (entry_present _ _ present)).trans there)
      rw [real] at missing
      cases missing
  rw [same, seen] at seen'
  cases seen'
  have base := user_changed_sealed held.guarded held.unshared changed
  constructor
  · intro sealedAfter frame' seen' kernel
    rw [seen] at seen'
    cases seen'
    have new := write_same m frame (addr % 4096 / 4) (wordEntry (start * 4096))
    have small : addr % 4096 / 4 < 1024 := by omega
    have changedWord : (wordEntry (start * 4096)) ≠ wordEntry 0 := by
      intro eq
      have zero : addr2page (start * 4096) = 0 := congrArg Entry.page eq
      omega
    rcases kernel with inDirs | ⟨d, inDirs, i, slot, present, rfl⟩
    · rcases sealedAfter.directory frame inDirs _ small with kept | ⟨-, -, -, table, -, entry⟩
      · rw [new, old] at kept
        exact changedWord kept
      · rw [new] at entry
        have bit : (start * 4096).testBit 0 = true := congrArg Entry.present entry
        rw [Nat.testBit_zero, decide_eq_true_eq] at bit
        omega
    · have kept := sealedAfter.kernel_word inDirs slot small present
      rw [new, old] at kept
      exact changedWord kept
  · intro away
    exact base.write (away frame seen)

end

theorem free_range_none (s : Machine) (d : Nat) : FreeRange s d 0 (2 ^ 18) :=
  ⟨Nat.le_refl _, by omega, fun _ _ _ => by omega⟩

variable {Obtained : Nat → Prop} {id : Int} {flags : BitVec 32} {time : Int}

/-- Looking for room changes nothing in the loaded address space. -/
theorem attach_address_loaded (held : Proper dirs s)
    (ran : attachAddress virt pages s.space s.machine = some (place, m)) : m = s.machine := by
  rw [attachAddress] at ran
  split at ran
  · exact (findvirt_loaded held.guarded held.loaded held.lastTable ran).1
  · cases ran
    rfl

/-- A call that finds its object maps the pages and stores the address. -/
theorem attach_steps {addr virt : BitVec 32} {shm : Ptr}
    (user : userdataAddress ≤ virt.toNat ∨ virt.toNat = 0)
    (found : ipcFind (-1) id .shm s.toObjects = some shm) (held : Proper dirs s)
    (ran : Call.plainRun s (.attach id addr virt flags time) = some after) :
    ∃ w place m,
      attachAddress virt.toNat (s.shms shm).numPages s.space s.machine = some (place, s.machine) ∧
      mapPages w (s.shms shm).phys place s.machine = some m ∧
      m.store addr.toNat (wordEntry place) = some after := by
  obtain ⟨⟨r, out, t⟩, attached, finish⟩ := Option.bind_eq_some_iff.mp ran
  rw [ipcShmAttach, if_pos user, found] at attached
  obtain ⟨⟨place, m⟩, first, attached⟩ := Option.bind_eq_some_iff.mp attached
  obtain rfl := attach_address_loaded held first
  obtain ⟨⟨result, m⟩, second, attached⟩ := Option.bind_eq_some_iff.mp attached
  rw [first] at second
  cases second
  obtain ⟨m, mapped, same⟩ := Option.map_eq_some_iff.mp attached
  cases same
  exact ⟨_, _, m, first, mapped, finish⟩

/-- A call that is refused changes nothing. -/
theorem attach_refused {addr virt : BitVec 32}
    (refused : ¬ (userdataAddress ≤ virt.toNat ∨ virt.toNat = 0) ∨
      ipcFind (-1) id .shm s.toObjects = none)
    (ran : Call.plainRun s (.attach id addr virt flags time) = some after) : after = s.machine := by
  have answer : ipcShmAttach id virt.toNat flags time s = some (-einval, virt.toNat, s) := by
    rw [ipcShmAttach]
    rcases refused with low | missing
    · rw [if_neg low]
    · rw [missing]
      split <;> rfl
  rw [Call.plainRun, answer] at ran
  cases ran
  rfl

theorem attach_isolated_iff (id : Int) (addr virt flags : BitVec 32) (time : Int)
    (held : Proper dirs s) (loaded : s.machine.load addr.toNat = some (wordEntry virt.toNat))
    (ran : Call.plainRun s (.attach id addr virt flags time) = some after) :
    Isolated dirs Obtained s.machine after ↔
      Call.Harmless dirs Obtained s (.attach id addr virt flags time) := by
  have null : virt.toNat = 0 ↔ virt = 0 :=
    ⟨fun eq => BitVec.eq_of_toNat_eq eq, fun eq => congrArg BitVec.toNat eq⟩
  by_cases user : userdataAddress ≤ virt.toNat ∨ virt = 0
  · cases found : ipcFind (-1) id .shm s.toObjects with
    | none =>
      rw [attach_refused (Or.inr found) ran, isolated_iff_sealed rfl]
      refine iff_of_true (.refl dirs _) fun _ shm found' => ?_
      rw [found] at found'
      cases found'
    | some shm =>
      obtain ⟨w, place, m, address, mapped, stored⟩ :=
        attach_steps (user.imp_right null.mpr) found held ran
      obtain ⟨count, small, fresh⟩ := held.objects shm (find_live found).1 (find_live found).2
      have only : AttachHarmless dirs s.machine (s.shms shm).numPages addr virt ↔
          Call.Harmless dirs Obtained s (.attach id addr virt flags time) := by
        refine ⟨fun harmless _ shm' found' => ?_, fun harmless => harmless user shm found⟩
        rw [found] at found'
        cases found'
        exact harmless
      have entered := map_pages_written _ _ held.guarded.toStocked mapped
      have final : Entered (· = wordEntry place) m after := store_entered entered.stocked rfl stored
      have dma := final.dma.trans entered.dma
      rw [isolated_iff_sealed dma, ← only, AttachHarmless, count]
      by_cases zero : virt = 0
      · rw [if_pos zero]
        rw [attachAddress, if_pos (null.mpr zero)] at address
        rw [null.mpr zero] at loaded
        obtain ⟨-, ⟨rfl, none⟩ | ⟨start, rfl, range⟩⟩ :=
          findvirt_loaded held.guarded held.loaded held.lastTable address
        · rw [count] at none
          refine iff_of_false (null_attach_breaks held fresh ?_ mapped stored) fun harmless => ?_
          · by_contra empty
            rw [Nat.eq_zero_of_not_pos empty] at none
            exact none _ (free_range_none _ _)
          · obtain ⟨⟨start, range⟩, -⟩ := harmless
            exact none start range
        · rw [count] at range
          exact (found_attach_sealed_iff held fresh addr.isLt range mapped loaded stored).trans
            ⟨fun away => ⟨⟨start, range⟩, away⟩, And.right⟩
      · rw [if_neg zero]
        rw [attachAddress, if_neg fun eq => zero (null.mp eq)] at address
        cases address
        have inside := virt.isLt
        have above := user.resolve_right zero
        by_cases fits : (s.shms shm).phys.length = 0 ∨
            addr2page virt.toNat + (s.shms shm).phys.length ≤ 1023 * 1024
        · refine iff_of_true ?_ fits
          have changed : UserChanged s.machine m := by
            rcases fits with none | below
            · rw [List.length_eq_zero_iff.mp none] at mapped
              cases mapped
              exact .refl held.guarded.walkable
            · exact map_pages_user_changed _ _ held.guarded.walkable (by
                rw [userdataAddress] at above
                rw [addr2page]
                omega) below mapped
          exact near_attach_sealed held fresh addr.isLt changed mapped loaded stored
        · refine iff_of_false ?_ fits
          exact far_attach_breaks held above inside (by omega) (by omega) mapped stored
  · have refused : ¬ (userdataAddress ≤ virt.toNat ∨ virt.toNat = 0) :=
      fun yes => user (yes.imp_right null.mp)
    rw [attach_refused (Or.inl refused) ran, isolated_iff_sealed rfl]
    exact iff_of_true (.refl dirs _) fun yes => absurd yes user

end Attach

theorem run_served {w : HeapShms} {call : Call} (room : call.HasRoom w) :
    call.run w = call.plainRun w.toShms := by
  cases call with
  | attach id addr virt flags time =>
    rw [Call.run, attach_served room]
    rfl
  | free | dmaFree | detach => rfl

/-- A system call that is given a pointer to memory, and for which the heap has room, leaves the
entries outside of user memory and the DMA pages of others alone exactly if it is harmless. -/
theorem call_isolated_iff_harmless (dirs : List Nat) (Obtained : Nat → Prop) (w : HeapShms)
    (call : Call) (after : Machine) (held : Proper dirs w.toShms) (room : call.HasRoom w)
    (pointed : call.Pointed w.machine) (ran : call.run w = some after) :
    Isolated dirs Obtained w.machine after ↔ call.Harmless dirs Obtained w.toShms := by
  rw [run_served room] at ran
  cases call with
  | free page => exact free_isolated_iff page held ran
  | dmaFree addr size => exact dma_free_isolated_iff addr size held ran
  | attach id addr virt flags time =>
    exact attach_isolated_iff id addr virt flags time held pointed.2 ran
  | detach virt time => exact detach_isolated_iff virt time held ran

section OneProcess

theorem one_process_existing (p : Nat) (user : 2 ^ 18 ≤ p) (below : p < 1023 * 1024)
    (present : (pageEntry oneProcess.machine 0x310 p).present = true) :
    (pageEntry oneProcess.machine 0x310 p).existing = true := by
  change (pageEntry oneSpace.machine 0x310 p).present = true at present
  obtain ⟨-, rfl, -⟩ | ⟨-, missing⟩ := one_space_user (d := 0x310) (by decide) user
    (Nat.le_of_lt_succ below)
  · rfl
  · rw [missing] at present
    cases present

theorem one_process_proper : Proper [0x300, 0x310] oneProcess where
  guarded := one_space_in_order.guarded
  unshared := one_space_unshared
  stackTables := one_space_own_tables
  loaded := rfl
  stack := by decide
  lastTable := rfl
  existing := one_process_existing
  first := ⟨rfl, rfl⟩
  firstTable := by decide
  tablesInRam d inDirs k small := by
    change (oneSpace.machine.frames d k).page < _
    have either := one_space_dirs inDirs
    by_cases present : (oneSpace.machine.frames d k).present = true
    · have table := one_space_tables inDirs present
      omega
    · rw [(one_space_slot inDirs k).2 (Bool.eq_false_of_not_eq_true present)]
      decide
  freeInRam a member := by
    obtain ⟨i, small, rfl⟩ := one_space_free member
    rw [addr2page_mul]
    omega
  objects _ member := nomatch member

/-- A process frees a page of the kernel, and the kernel loses its mapping. -/
theorem freed_kernel_page_is_lost : Proper [0x300, 0x310] oneProcess ∧ ∃ after,
    Call.run oneProcess.withPage (.free 0x100000) = some after ∧
      pageEntry oneProcess.machine 0x310 0x100 = kernelEntry 0x100 ∧
      pageEntry after 0x310 0x100 = blank ∧
      ¬ Isolated [0x300, 0x310] (fun _ => False) oneProcess.machine after := by
  obtain ⟨after, ran, lost⟩ : ∃ t, Call.run oneProcess.withPage (.free 0x100000) = some t ∧
      pageEntry t 0x310 0x100 = blank := by
    decide +kernel
  have had : pageEntry oneProcess.machine 0x310 0x100 = kernelEntry 0x100 := rfl
  refine ⟨one_process_proper, after, ran, had, lost, fun isolated => ?_⟩
  have kept := isolated.kernel 0x310 (by decide) 0x100 (by decide)
  rw [had, lost] at kept
  cases kept

/-- The process gives its stack page back. -/
theorem freed_stack_page_is_isolated : ∃ after,
    Proper [0x300, 0x310] oneProcess ∧ Call.run oneProcess.withPage (.free 0xFFBFE000) = some after ∧
      Isolated [0x300, 0x310] (fun _ => False) oneProcess.machine after := by
  have reached : (Call.run oneProcess.withPage (.free 0xFFBFE000)).isSome := by
    decide +kernel
  obtain ⟨after, ran⟩ := Option.isSome_iff_exists.mp reached
  refine ⟨after, one_process_proper, ran, ?_⟩
  refine (call_isolated_iff_harmless _ _ oneProcess.withPage (.free 0xFFBFE000) after one_process_proper
    trivial trivial ran).mpr (Or.inr ⟨?_, ?_⟩)
  · intro p member outside
    rw [List.mem_singleton.mp member] at outside
    exact absurd outside (by decide)
  · rintro ⟨-, -, full⟩
    exact absurd full (by decide)

end OneProcess

end MeinOS.UserIsolation
