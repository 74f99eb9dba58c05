import MeinOS.AddrspaceBooks
import MeinOS.MemuserHeap
import MeinOS.PagingCost

/-! Copy-on-write faults.

`memuser_pagefault` enters the new page first and then copies through it, with the old page
shown in the window. Any page can be mapped copy-on-write by `proc_memmap`: also the page table
that holds the entry itself, or one that other directories use as well, and these are written
by the fault.

The processor drops what it has kept of the faulting page with the fault, but not what it has kept
of the window page. If that leads elsewhere, another page is copied than the old one. -/
namespace MeinOS.CowFault
open Lib.Runs Memphys Paging Memuser PagingWindow ProcmMemory
open KernelHeap (bareHeap)
open MemuserHeap (Kmem kmemOf)

variable {dirs : List Nat} {s s' m u : Machine} {page p addr : Nat} {space : Addrspace}

section Fault

/-- The page table of the loaded directory that holds the entry of a page. -/
def tableOf (s : Machine) (p : Nat) : Nat := (s.frames s.curpd (p / 1024)).page

/-- The entry that a copy-on-write fault leaves. -/
def copiedEntry (s : Machine) (p new : Nat) : Entry :=
  { pageEntry s s.curpd p with page := new, cow := false, writable := true }

/-- A page that exists, is in memory and is copy-on-write in the loaded directory. -/
structure CopyOnWrite (s : Machine) (p : Nat) : Prop where
  existing : (pageEntry s s.curpd p).existing = true
  present : (pageEntry s s.curpd p).present = true
  cow : (pageEntry s s.curpd p).cow = true

/-- What a copy-on-write fault is for: the page has a page of its own with the bytes of the
old one, which stays as it was, for every other directory too. -/
structure Copied (dirs : List Nat) (s : Machine) (p new : Nat) (m : Machine) : Prop where
  wasFree : new * 4096 ∈ freePages s.mem
  taken : new * 4096 ∉ freePages m.mem
  curpd : m.curpd = s.curpd
  entry : pageEntry m s.curpd p = copiedEntry s p new
  copy : m.frames new = s.frames (pageEntry s s.curpd p).page
  kept : m.frames (pageEntry s s.curpd p).page = s.frames (pageEntry s s.curpd p).page
  others : ∀ d ∈ dirs, d ≠ s.curpd → ∀ q < 2 ^ 20, q ≠ windowPage → pageEntry m d q = pageEntry s d q

/-- The fault is handled and copies the page. -/
def CopiesOnWrite (dirs : List Nat) (k : Kmem) (space : Addrspace) (addr : Nat) : Prop :=
  ∃ k' new, MemuserHeap.memuserPagefault k space addr = some (true, k', space) ∧
    Copied dirs k.machine (addr2page addr) new k'.machine

/-- There are pages for the copy and the window, and what the fault writes besides is in no
other directory and not in the old page. -/
structure CowSafe (dirs : List Nat) (s : Machine) (p : Nat) : Prop where
  stock : 1 + windowCost s (pageEntry s s.curpd p).page ≤ s.mem.stackptr
  alone : ∀ d ∈ dirs, d ≠ s.curpd → ∀ i < 1024, (s.frames d i).present = true →
    (s.frames d i).page ≠ tableOf s p
  source : (pageEntry s s.curpd p).page ≠ tableOf s p
  window : WindowMoves s (pageEntry s s.curpd p).page →
    (windowWord s).1 = (pageEntry s s.curpd p).page →
      (s.frames s.curpd 1022).present = true ∧ s.frames (pageEntry s s.curpd p).page 1023 =
        mapEntry ((pageEntry s s.curpd p).page * 4096) false true

/-- The new entry is written. -/
def entered (s : Machine) (mem : PhysMem) (p new : Nat) : Machine :=
  ({ s with mem := mem } : Machine).write (tableOf s p) (p % 1024) (copiedEntry s p new)

theorem entered_curpd (s : Machine) (mem : PhysMem) (p new : Nat) :
    (entered s mem p new).curpd = s.curpd := rfl

/-- Everything the fault does, in whatever page the words are. -/
structure Faulted (s : Machine) (p new : Nat) (m : Machine) : Prop where
  wasFree : new * 4096 ∈ freePages s.mem
  taken : new * 4096 ∉ freePages m.mem
  curpd : m.curpd = s.curpd
  words : ∀ f w, f * 4096 ∉ freePages s.mem → (f, w) ≠ (tableOf s p, p % 1024) →
    ¬ (WindowMoves s (pageEntry s s.curpd p).page ∧ (f, w) = windowWord s) →
      m.frames f w = s.frames f w
  entry : m.frames (tableOf s p) (p % 1024) = copiedEntry s p new
  written : WindowMoves s (pageEntry s s.curpd p).page →
    m.frames (windowWord s).1 (windowWord s).2 = if (s.frames s.curpd 1022).present then
      mapEntry ((pageEntry s s.curpd p).page * 4096) false true else m.frames s.curpd 1022
  table : (m.frames s.curpd 1022).present = true
  copy : m.frames new = m.frames (pageEntry s s.curpd p).page

section
variable (held : Guarded dirs s) (lazy : CopyOnWrite s p) (inside : p < 2 ^ 20)
include held lazy inside

/-- Where a copy-on-write entry can be. -/
theorem CopyOnWrite.place : (s.frames s.curpd (p / 1024)).present = true ∧ p / 1024 < 1023 ∧
    (p / 1024, p % 1024) ≠ (1022, 1023) :=
  lazy_place held (by omega) (by omega) ⟨lazy.existing, Or.inl lazy.cow⟩

/-- The pages that hold the tables and the old page are not free. -/
theorem CopyOnWrite.used :
    s.curpd * 4096 ∉ freePages s.mem ∧ tableOf s p * 4096 ∉ freePages s.mem ∧
      (pageEntry s s.curpd p).page * 4096 ∉ freePages s.mem ∧ tableOf s p ∉ dirs := by
  obtain ⟨present, slot, -⟩ := lazy.place held inside
  refine ⟨(held.dir_outside held.loaded).2,
    (held.table_outside ⟨s.curpd, held.loaded, _, by omega, present, rfl⟩).2, ?_,
    held.table_not_dir held.loaded slot present⟩
  exact (held.unmapped _ held.loaded _ (by omega) (p % 1024) (by omega) _
    ((maps_iff_entry _ _ _ _ _).mpr ⟨lazy.present, rfl⟩)).2

/-- The entry is not a word that moving the window writes. -/
theorem CopyOnWrite.not_window : (tableOf s p, p % 1024) ≠ windowWord s := by
  obtain ⟨present, -, notWindow⟩ := lazy.place held inside
  rw [windowWord]
  split
  · rename_i window
    rintro same
    obtain ⟨table, word⟩ := Prod.mk.inj same
    by_cases here : (s.curpd, p / 1024) = (s.curpd, 1022)
    · exact notWindow (by rw [(Prod.mk.inj here).2, word])
    · exact held.window _ held.loaded _ held.loaded _ (by omega) here window present table
  · intro same
    exact (lazy.used held inside).2.2.2 ((Prod.mk.inj same).1 ▸ held.loaded)

theorem entered_dir (mem : PhysMem) (new : Nat) :
    (entered s mem p new).frames s.curpd = s.frames s.curpd :=
  write_dir (lazy.used held inside).2.2.2 held.loaded

/-- The window still shows what it showed when the entry is written. -/
theorem still_shows (shows : Shows dirs s) (mem : PhysMem) (new : Nat)
    (still : ¬ WindowMoves s page) : Maps (entered s mem p new) s.curpd 1022 1023 page := by
  rw [WindowMoves, not_or, not_not, not_not] at still
  obtain ⟨rfl, same⟩ := still
  have maps := shows (same ▸ held.loaded)
  rw [← same] at maps
  have notWord := lazy.not_window held inside
  rw [windowWord, if_pos maps.1] at notWord
  have word : (entered s mem p new).frames (s.frames s.curpd 1022).page 1023 =
      s.frames (s.frames s.curpd 1022).page 1023 := write_other _ _ notWord.symm
  rw [Maps, entered_dir held lazy inside, word]
  exact maps

/-- What is known once the old page is shown in the window and copied. -/
theorem copied_faulted (fresh : Fresh dirs ({ s with mem := mem } : Machine) new)
    (wasFree : new * 4096 ∈ freePages s.mem) (fewer : ∀ a ∈ freePages mem, a ∈ freePages s.mem)
    (turned : Turned (entered s mem p new) (pageEntry s s.curpd p).page u) :
    u.translate (p * 4096) = some new ∧
      Faulted s p new (u.fill new (u.frames (pageEntry s s.curpd p).page)) := by
  obtain ⟨present, -, -⟩ := lazy.place held inside
  obtain ⟨dirUsed, tableUsed, oldUsed, notDir⟩ := lazy.used held inside
  have notWord := lazy.not_window held inside
  have dirSame := entered_dir held lazy inside mem new
  have sameWord : windowWord (entered s mem p new) = windowWord s := by
    rw [windowWord, windowWord, entered_curpd, dirSame]
  obtain ⟨curpd, -, fewer', words, written, table⟩ := turned
  rw [sameWord] at words written
  have notNew : ∀ f, f * 4096 ∉ freePages s.mem → f ≠ new := fun f used same => used (same ▸ wasFree)
  have still : ∀ f, f * 4096 ∉ freePages s.mem → f * 4096 ∉ freePages mem := fun f used member =>
    used (fewer _ member)
  have kept : ∀ f w, f * 4096 ∉ freePages s.mem → (f, w) ≠ (tableOf s p, p % 1024) →
      ¬ (WindowMoves s (pageEntry s s.curpd p).page ∧ (f, w) = windowWord s) →
        u.frames f w = s.frames f w := by
    intro f w used other away
    rw [words f w (still f used) away]
    exact write_other _ _ other
  have entry : u.frames (tableOf s p) (p % 1024) = copiedEntry s p new := by
    rw [words _ _ (still _ tableUsed) fun both => notWord both.2]
    exact write_same _ _ _ _
  have slotKept : u.frames s.curpd (p / 1024) = s.frames s.curpd (p / 1024) := by
    exact kept _ _ dirUsed (fun eq => notDir ((Prod.mk.inj eq).1 ▸ held.loaded))
      fun both => slot_not_window held held.loaded (Or.inr present) both.2
  refine ⟨?_, wasFree, fun free => fresh.outside.2 (fewer' _ free), curpd, fun f w used other away => ?_,
    ?_, fun moves => ?_, ?_, ?_⟩
  · have target : u.frames (s.frames s.curpd (p / 1024)).page (p % 1024) = copiedEntry s p new := entry
    simp only [Machine.translate, curpd, entered_curpd, page_slot, page_word, slotKept, target]
    exact if_pos ⟨present, lazy.present⟩
  · rw [fill_other _ _ (notNew f used)]
    exact kept f w used other away
  · rw [fill_other _ _ (notNew _ tableUsed)]
    exact entry
  · have wordUsed : (windowWord s).1 * 4096 ∉ freePages s.mem := by
      rw [windowWord]
      split
      · rename_i window
        exact (held.table_outside ⟨s.curpd, held.loaded, 1022, by omega, window, rfl⟩).2
      · exact dirUsed
    rw [fill_other _ _ (notNew _ wordUsed), fill_other _ _ (notNew _ dirUsed)]
    have wrote := written moves
    rw [entered_curpd, dirSame] at wrote
    exact wrote
  · rw [fill_other _ _ (notNew _ dirUsed)]
    exact table
  · rw [fill_same, fill_other _ _ (notNew _ oldUsed)]

end

theorem pagefault_eq (held : Guarded dirs s) (lazy : CopyOnWrite s (addr2page addr))
    (inside : addr < 2 ^ 32) (space : Addrspace) :
    memuserPagefault s space addr = (memphysAlloc s).bind fun (new, a) =>
      (pagingPhysreadPage (entered s a.mem (addr2page addr) (addr2page new)) (addr2page addr * 4096)
        ((pageEntry s s.curpd (addr2page addr)).page * 4096)).map fun m => (true, m, space) := by
  have below := addr2page_lt inside
  obtain ⟨slot, -, -⟩ := lazy.place held below
  rw [memuserPagefault, getpte_page held.linked below, Option.bind_some,
    if_neg (not_not.mpr lazy.existing), pagefaultExisting, if_neg fun both => both.2 lazy.present,
    if_pos ⟨lazy.cow, lazy.present⟩]
  cases taken : memphysAlloc s with
  | none => rfl
  | some result =>
    obtain ⟨new, a⟩ := result
    obtain ⟨guarded, -, -, ⟨mem, rfl⟩, -, -⟩ := alloc_guarded held taken
    have slot' : (({ s with mem := mem } : Machine).frames s.curpd (addr2page addr / 1024)).present =
        true := slot
    simp only [Option.bind_some]
    rw [setpte_eq guarded.linked (by omega), page_slot, page_word, if_pos slot', Option.bind_some]
    rfl

/-- The copy, with the old page shown in the window. -/
theorem physread_page_eq {t : Machine} (shown : showWindow t (page * 4096) = some u)
    (turned : Turned t page u) (dest : u.translate (p * 4096) = some new) :
    pagingPhysreadPage t (p * 4096) (page * 4096) = some (u.fill new (u.frames page)) := by
  rw [pagingPhysreadPage, shown, Option.bind_some, turned.source, Option.bind_some, Machine.storePage,
    dest, Option.map_some]

/-- The old page can be shown exactly if the stack has the page that the window may take. -/
theorem show_old (held : Guarded dirs s) (shows : Shows dirs s) (lazy : CopyOnWrite s p)
    (below : p < 2 ^ 20) (taken : memphysAlloc s = some (new, { s with mem := mem })) :
    if windowCost s (pageEntry s s.curpd p).page ≤ mem.stackptr then
      ∃ u, showWindow (entered s mem p (addr2page new)) ((pageEntry s s.curpd p).page * 4096) = some u ∧
        Turned (entered s mem p (addr2page new)) (pageEntry s s.curpd p).page u
    else showWindow (entered s mem p (addr2page new)) ((pageEntry s s.curpd p).page * 4096) = none := by
  obtain ⟨guarded, -, -, -, free, -⟩ := alloc_guarded held taken
  have dirSame := entered_dir held lazy below mem (addr2page new)
  have sameCost : windowCost (entered s mem p (addr2page new)) (pageEntry s s.curpd p).page =
      windowCost s (pageEntry s s.curpd p).page := by
    rw [windowCost, windowCost, entered_curpd, dirSame]
    rfl
  have turn := show_window_turned (s := entered s mem p (addr2page new)) (pageEntry s s.curpd p).page
    (by rw [SelfLinked, entered_curpd, dirSame]; exact held.linked) guarded.toStocked
    ((held.dir_outside held.loaded).of_fewer (rest_free free))
    (by
      rw [entered_curpd, dirSame]
      exact fun window same =>
        held.table_not_dir held.loaded (by omega) window (same.symm ▸ held.loaded))
    (still_shows held lazy below shows mem _)
  rw [sameCost] at turn
  exact turn

/-- The fault is served exactly if the stack has the pages it takes; else the kernel panics. -/
theorem pagefault_faulted (held : Guarded dirs s) (shows : Shows dirs s)
    (lazy : CopyOnWrite s (addr2page addr)) (inside : addr < 2 ^ 32) (space : Addrspace) :
    if 1 + windowCost s (pageEntry s s.curpd (addr2page addr)).page ≤ s.mem.stackptr then
      ∃ m new, memuserPagefault s space addr = some (true, m, space) ∧
        Faulted s (addr2page addr) new m
    else memuserPagefault s space addr = none := by
  have below := addr2page_lt inside
  rw [pagefault_eq held lazy inside space]
  generalize addr2page addr = p at lazy below ⊢
  by_cases stock : 1 ≤ s.mem.stackptr
  swap
  · rw [if_neg (by omega), alloc_empty stock]
    rfl
  obtain ⟨new, a, taken⟩ := alloc_stock stock
  have wasFree := alloc_was_free held taken
  obtain ⟨-, fresh, -, ⟨mem, rfl⟩, free, -⟩ := alloc_guarded held taken
  have lengths : s.mem.stackptr = mem.stackptr + 1 := taken_count free
  have turn := show_old held shows lazy below taken
  simp only [taken, Option.bind_some]
  by_cases more : 1 + windowCost s (pageEntry s s.curpd p).page ≤ s.mem.stackptr
  · rw [if_pos more]
    have enough : windowCost s (pageEntry s s.curpd p).page ≤ mem.stackptr := by omega
    rw [if_pos enough] at turn
    obtain ⟨u, shown, turned⟩ := turn
    obtain ⟨dest, faulted⟩ := copied_faulted held lazy below fresh wasFree (rest_free free) turned
    refine ⟨_, _, ?_, faulted⟩
    rw [physread_page_eq shown turned dest]
    rfl
  · rw [if_neg more]
    have less : ¬ windowCost s (pageEntry s s.curpd p).page ≤ mem.stackptr := by omega
    rw [if_neg less] at turn
    rw [pagingPhysreadPage, turn]
    rfl

/-- With no translation of the window page but the one of the old page, the fault does what the
page tables say. -/
theorem pagefault_agrees {k : Kmem} (held : Guarded dirs k.machine) (shows : Shows dirs k.machine)
    (lazy : CopyOnWrite k.machine (addr2page addr)) (inside : addr < 2 ^ 32)
    (current : k.Current (pageEntry k.machine k.machine.curpd (addr2page addr)).page)
    (space : Addrspace) :
    MemuserHeap.memuserPagefault k space addr =
      (memuserPagefault k.machine space addr).map fun result =>
        (result.1, { k with
          machine := result.2.1
          kept := some (pageEntry k.machine k.machine.curpd (addr2page addr)).page }, result.2.2) := by
  have below := addr2page_lt inside
  obtain ⟨slot, -, -⟩ := lazy.place held below
  rw [pagefault_eq held lazy inside space, MemuserHeap.memuserPagefault,
    getpte_page held.linked below, Option.bind_some, if_neg (not_not.mpr lazy.existing),
    MemuserHeap.pagefaultExisting, if_pos ⟨lazy.cow, lazy.present⟩]
  cases taken : memphysAlloc k.machine with
  | none => rfl
  | some result =>
    obtain ⟨new, a⟩ := result
    obtain ⟨guarded, -, -, ⟨mem, rfl⟩, -, -⟩ := alloc_guarded held taken
    have there : (({ k.machine with mem := mem } : Machine).frames k.machine.curpd
        (addr2page addr / 1024)).present = true := slot
    have source : ∀ u, showWindow (entered k.machine mem (addr2page addr) (addr2page new))
        ((pageEntry k.machine k.machine.curpd (addr2page addr)).page * 4096) = some u →
        u.translate bufpageAddress =
          some (pageEntry k.machine k.machine.curpd (addr2page addr)).page := by
      intro u shown
      have turn := show_old held shows lazy below taken
      split at turn
      · obtain ⟨other, shown', turned⟩ := turn
        cases shown.symm.trans shown'
        exact turned.source
      · cases shown.symm.trans turn
    have copies := MemuserHeap.copy_page_agrees (c := k.toCpu) (addr2page addr * 4096) source current
    simp only [Option.bind_some]
    rw [setpte_eq guarded.linked (by omega), page_slot, page_word, if_pos there, Option.bind_some]
    rw [entered, tableOf, copiedEntry] at copies
    simp only [copies, Option.map_map]
    rfl

variable {new : Nat}

section
variable (faulted : Faulted s p new m) (held : Guarded dirs s) (lazy : CopyOnWrite s p)
  (inside : p < 2 ^ 20)
include faulted held lazy inside

/-- The fault leaves a slot that is in use, or of another directory, as it is. -/
theorem Faulted.slot (inDirs : d ∈ dirs) (other : d ≠ s.curpd ∨ (s.frames d i).present = true) :
    m.frames d i = s.frames d i := by
  have away : (d, i) ≠ (s.curpd, 1022) ∨ (s.frames d i).present = true :=
    other.imp_left fun different eq => different (Prod.mk.inj eq).1
  obtain ⟨-, -, -, notDir⟩ := lazy.used held inside
  exact faulted.words d i (held.dir_outside inDirs).2
    (fun eq => notDir ((Prod.mk.inj eq).1 ▸ inDirs))
    fun both => slot_not_window held inDirs away both.2

/-- The new entry is no longer copy-on-write. -/
theorem Faulted.changed :
    m.frames (tableOf s p) (p % 1024) ≠ s.frames (tableOf s p) (p % 1024) := by
  obtain ⟨present, -, -⟩ := lazy.place held inside
  have before : s.frames (tableOf s p) (p % 1024) = pageEntry s s.curpd p :=
    (entry_present s _ present).symm
  rw [faulted.entry, before]
  intro same
  have flags := congrArg Entry.cow same
  rw [lazy.cow] at flags
  cases flags

theorem Faulted.safe (stock : 1 + windowCost s (pageEntry s s.curpd p).page ≤ s.mem.stackptr)
    (kept : m.frames (pageEntry s s.curpd p).page = s.frames (pageEntry s s.curpd p).page)
    (others : ∀ d ∈ dirs, d ≠ s.curpd → ∀ q < 2 ^ 20, q ≠ windowPage → pageEntry m d q = pageEntry s d q) :
    CowSafe dirs s p := by
  obtain ⟨present, slot, -⟩ := lazy.place held inside
  refine ⟨stock, fun d inDirs different i small there shared => ?_, fun same => ?_,
    fun moves here => ?_⟩
  · -- the other directory sees the new entry in the shared table
    have page : (i * 1024 + p % 1024) / 1024 = i ∧ (i * 1024 + p % 1024) % 1024 = p % 1024 := by omega
    have notOther : i * 1024 + p % 1024 ≠ windowPage := by
      rw [windowPage]
      intro eq
      have last : i = 1022 := by omega
      subst last
      exact held.window d inDirs s.curpd held.loaded _ (by omega)
        (fun eq => different (Prod.mk.inj eq).1.symm) there present shared.symm
    have same := others d inDirs different _ (by omega) notOther
    have slots := faulted.slot held lazy inside inDirs (Or.inl different) (i := i)
    rw [pageEntry, pageEntry, page.1, page.2, entry_present _ _ there,
      entry_present _ _ (by rw [slots]; exact there), slots, shared] at same
    exact faulted.changed held lazy inside same
  · rw [same] at kept
    exact faulted.changed held lazy inside (congrFun kept _)
  · have wrote := faulted.written moves
    rw [here] at wrote
    by_cases window : (s.frames s.curpd 1022).present = true
    · have word : (windowWord s).2 = 1023 := by rw [windowWord, if_pos window]
      rw [word, if_pos window, kept] at wrote
      exact ⟨window, wrote⟩
    · have dir : (windowWord s).1 = s.curpd := by rw [windowWord, if_neg window]
      have table := faulted.table
      rw [← dir, here, kept, ← here, dir] at table
      exact absurd table window

theorem Faulted.copied (safe : CowSafe dirs s p) : Copied dirs s p new m := by
  obtain ⟨present, slot, -⟩ := lazy.place held inside
  obtain ⟨-, -, oldUsed, -⟩ := lazy.used held inside
  have kept : m.frames (pageEntry s s.curpd p).page = s.frames (pageEntry s s.curpd p).page := by
    funext w
    by_cases word : WindowMoves s (pageEntry s s.curpd p).page ∧
        ((pageEntry s s.curpd p).page, w) = windowWord s
    · -- the window's table is the old page itself, and shows it already
      obtain ⟨moves, word⟩ := word
      obtain ⟨window, already⟩ := safe.window moves (by rw [← word])
      have index : w = 1023 := by
        rw [windowWord, if_pos window] at word
        exact (Prod.mk.inj word).2
      have wrote := faulted.written moves
      rw [← word, if_pos window] at wrote
      rw [wrote, index, already]
    · exact faulted.words _ w oldUsed (fun eq => safe.source (Prod.mk.inj eq).1) word
  refine ⟨faulted.wasFree, faulted.taken, faulted.curpd, ?_, faulted.copy.trans kept, kept, ?_⟩
  · have slots := faulted.slot held lazy inside held.loaded (Or.inr present)
    rw [pageEntry, Paging.entry, slots, if_pos present]
    exact faulted.entry
  · intro d inDirs different q small _
    have slots := faulted.slot held lazy inside inDirs (Or.inl different) (i := q / 1024)
    rw [pageEntry, pageEntry, Paging.entry, Paging.entry, slots]
    by_cases there : (s.frames d (q / 1024)).present = true
    · rw [if_pos there, if_pos there]
      refine faulted.words _ _ (held.table_outside ⟨d, inDirs, _, by omega, there, rfl⟩).2
        (fun eq => safe.alone d inDirs different _ (by omega) there (Prod.mk.inj eq).1) ?_
      rintro ⟨-, eq⟩
      rw [windowWord] at eq
      split at eq
      · rename_i window
        exact held.window _ held.loaded d inDirs _ (by omega)
          (fun eq => different (Prod.mk.inj eq).1) window there (Prod.mk.inj eq).1
      · by_cases last : q / 1024 = 1023
        · rw [last, (held.recursive d inDirs).2] at eq
          exact different (Prod.mk.inj eq).1
        · exact held.table_not_dir inDirs (by omega) there ((Prod.mk.inj eq).1 ▸ held.loaded)
    · rw [if_neg there, if_neg there]

end

end Fault

/-- Where the processor has kept no translation of the window page but that of the old page, a
copy-on-write fault does what it is for exactly if there are pages for it, the page table of the
entry is neither the old page nor used by another directory, and moving the window does not change
the old page. -/
theorem cow_fault_copies_iff (dirs : List Nat) (k : Kmem) (space : Addrspace) (addr : Nat)
    (held : Guarded dirs k.machine) (shows : Shows dirs k.machine) (inside : addr < 2 ^ 32)
    (lazy : CopyOnWrite k.machine (addr2page addr))
    (current : k.Current (pageEntry k.machine k.machine.curpd (addr2page addr)).page) :
    CopiesOnWrite dirs k space addr ↔ CowSafe dirs k.machine (addr2page addr) := by
  have below := addr2page_lt inside
  have serves := pagefault_faulted held shows lazy inside space
  rw [CopiesOnWrite, pagefault_agrees held shows lazy inside current space]
  constructor
  · rintro ⟨k', new, ran, copied⟩
    obtain ⟨⟨ok, m, space'⟩, plain, same⟩ := Option.map_eq_some_iff.mp ran
    cases same
    split at serves
    · rename_i stock
      obtain ⟨m', new', ran', faulted⟩ := serves
      cases plain.symm.trans ran'
      exact faulted.safe held lazy below stock copied.kept copied.others
    · cases plain.symm.trans serves
  · intro safe
    rw [if_pos safe.stock] at serves
    obtain ⟨m, new, ran, faulted⟩ := serves
    rw [ran]
    exact ⟨_, new, rfl, faulted.copied held lazy below safe⟩

section OneProcess
open AddrspaceBooks (pagedirs)

/-- A run of `oneOs` that has not used the window keeps the page tables in order. -/
theorem one_os_ordered {w : Os} {events : List AddrspaceBooks.Event}
    (orderly : Along AddrspaceBooks.step AddrspaceBooks.Orderly (oneOs 1) events)
    (ran : run AddrspaceBooks.step (oneOs 1) events = some w)
    (unused : w.machine.lastpd ∉ pagedirs w) :
    Guarded (pagedirs w) w.machine ∧ Shows (pagedirs w) w.machine :=
  ⟨(run_guarded AddrspaceBooks.step_sound AddrspaceBooks.one_os_sound orderly ran).guarded,
    fun inDirs => absurd inDirs unused⟩

theorem CopyOnWrite.of_mapped
    (mapped : pageEntry s s.curpd p = mapPdEntry phys user writable swappable true) :
    CopyOnWrite s p := by
  constructor
  all_goals
    rw [mapped]
    rfl

/-- The first page is mapped to the page table 0x311, the second to a new page. -/
def twoCowPages : List AddrspaceBooks.Event :=
  [.memmap 1 0x40000000 0x311000 true false true, .memmap 1 0x40001000 0 true false true]

/-- The second of two faults copies the page of the first one again, since the processor has kept
its translation of the window page. -/
theorem second_fault_copies_first_page : ∃ w k,
    run AddrspaceBooks.step (oneOs 1) twoCowPages = some w ∧
    MemuserHeap.memuserPagefault (kmemOf w.machine bareHeap) (w.space 1) 0x40000000 =
      some (true, k, w.space 1) ∧
    Guarded (pagedirs w) k.machine ∧ Shows (pagedirs w) k.machine ∧
    CopyOnWrite k.machine (addr2page 0x40001000) ∧
    ¬ CopiesOnWrite (pagedirs w) k (w.space 1) 0x40001000 := by
  obtain ⟨w, ran, unused, first, member, low, ⟨ok, k, space⟩, served, (rfl : ok = true),
      (rfl : space = w.space 1), window, second, curpd, ⟨ok, k', space⟩, again, differs⟩ : ∃ w,
      run AddrspaceBooks.step (oneOs 1) twoCowPages = some w ∧
      w.machine.lastpd ∉ pagedirs w ∧ pageEntry w.machine w.machine.curpd (addr2page 0x40000000) =
        mapPdEntry 0x311000 true false false true ∧
      (w.space 1).pagedir ∈ pagedirs w ∧ (w.space 1).stack ≤ userstackEnd ∧
      ∃ r, MemuserHeap.memuserPagefault (kmemOf w.machine bareHeap) (w.space 1) 0x40000000 = some r ∧
        r.1 = true ∧ r.2.2 = w.space 1 ∧
        (entry r.2.1.machine r.2.1.machine.lastpd 1022 1023 =
          mapEntry (r.2.1.machine.lastpage * 4096) false true) ∧
        pageEntry r.2.1.machine r.2.1.machine.curpd (addr2page 0x40001000) =
          mapPdEntry 0x326000 true false false true ∧ r.2.1.machine.curpd = 0x310 ∧
        ∃ r', MemuserHeap.memuserPagefault r.2.1 (w.space 1) 0x40001000 = some r' ∧
          r'.2.1.machine.frames (pageEntry r'.2.1.machine 0x310 (addr2page 0x40001000)).page 1022 ≠
            r.2.1.machine.frames 0x326 1022 := by
    decide +kernel
  obtain ⟨held, shows⟩ := one_os_ordered (by decide +kernel) ran unused
  have agrees := pagefault_agrees (k := kmemOf w.machine bareHeap) held shows (.of_mapped first)
    (by decide) (fun frame kept => by cases kept) (w.space 1)
  rw [served] at agrees
  obtain ⟨⟨ok, m, space⟩, plain, same⟩ := Option.map_eq_some_iff.mp agrees.symm
  cases same
  obtain ⟨guarded, -⟩ := pagefault_guarded held member low (by decide) plain
  refine ⟨w, _, ran, served, guarded, fun _ => ?_, .of_mapped second, ?_⟩
  · refine (maps_iff_entry _ _ _ _ _).mpr ?_
    rw [window]
    exact ⟨rfl, addr2page_mul _⟩
  · rintro ⟨m', new, again', copied⟩
    cases again.symm.trans again'
    have copy := copied.copy
    have entry := copied.entry
    rw [curpd] at entry
    rw [second] at copy
    rw [entry] at differs
    exact differs (congrFun copy 1022)

/-- A page that is mapped copy-on-write in a table of its own is copied. -/
theorem private_page_copied : ∃ w,
    run AddrspaceBooks.step (oneOs 1) [.memmap 1 0x40000000 0 true false true] = some w ∧
    Guarded (pagedirs w) w.machine ∧ Shows (pagedirs w) w.machine ∧
    CopyOnWrite w.machine (addr2page 0x40000ABC) ∧
    CopiesOnWrite (pagedirs w) (kmemOf w.machine bareHeap) (w.space 1) 0x40000ABC := by
  refine reached_of (P := fun w => w.machine.lastpd ∉ pagedirs w ∧ pagedirs w = [0x300, 0x310] ∧
    pageEntry w.machine w.machine.curpd (addr2page 0x40000ABC) =
      mapPdEntry 0x327000 true false false true ∧
    w.machine.curpd = 0x310 ∧ tableOf w.machine (addr2page 0x40000ABC) = 0x326 ∧
    (windowWord w.machine).1 = 0x311 ∧ windowCost w.machine 0x327 = 0 ∧ w.machine.mem.stackptr = 6 ∧
    ∀ i < 1024, (w.machine.frames 0x300 i).page ≠ 0x326) (by decide +kernel) ?_
  rintro w ran ⟨unused, dirs, lazy, curpd, table, word, cost, stock, alone⟩
  obtain ⟨held, shows⟩ := one_os_ordered (by decide +kernel) ran unused
  have page : (pageEntry w.machine w.machine.curpd (addr2page 0x40000ABC)).page = 0x327 := by
    rw [lazy]
    rfl
  have copyOnWrite := CopyOnWrite.of_mapped lazy
  refine ⟨held, shows, copyOnWrite, ?_⟩
  refine (cow_fault_copies_iff _ (kmemOf w.machine bareHeap) _ _ held shows (by decide) copyOnWrite
    (fun frame kept => by cases kept)).mpr ⟨?_, ?_, ?_, ?_⟩
  · change 1 + windowCost w.machine (pageEntry w.machine w.machine.curpd _).page ≤ w.machine.mem.stackptr
    rw [page, cost, stock]
    decide
  · intro d inDirs different i small _
    rw [dirs, List.mem_cons, List.mem_singleton] at inDirs
    change (w.machine.frames d i).page ≠ tableOf w.machine _
    rw [table]
    rcases inDirs with rfl | rfl
    · exact alone i small
    · exact absurd curpd.symm different
  · change (pageEntry w.machine w.machine.curpd _).page ≠ tableOf w.machine _
    rw [page, table]
    decide
  · intro _ here
    change (windowWord w.machine).1 = (pageEntry w.machine w.machine.curpd _).page at here
    rw [page, word] at here
    cases here

end OneProcess

end MeinOS.CowFault
