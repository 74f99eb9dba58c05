import MeinOS.MemphysDma
import MeinOS.ShmPages
import MeinOS.UserPages

/-! Isolation of the kernel's mappings from four system calls of a process:
`memuser_free_syscall`, `memuser_dma_free`, `ipc_shm_attach` and `ipc_shm_detach`.

None of them compares an address with the end of user memory, and the first two do not
compare it with its start either. `memuser_dma_free` gives back whatever page it finds,
and page 0 where it finds none. `ipc_shm_attach` writes through the pointer it is given.

The pointer is to a word that is in memory and does not straddle another one. A fault of the kernel
at it, which `memuser_pagefault` may serve or not, is left out. The attachment and the node of its
list come from the kernel's heap; a heap that has to grow for them gets a new page of the kernel. -/
namespace MeinOS.UserIsolation
open Llist Procm Ipc Memphys Paging Memuser Shm

variable {dirs : List Nat} {s s' m : Machine} {virt : Nat}

/-- The loop of `memuser_dma_free` over `left` more pages. -/
def dmaFreeFrom : Nat → Nat → Machine → Option Machine
  | 0, _, s => some s
  | left + 1, virt, s =>
    (pagingUnmap s (virt % 2 ^ 32)).bind fun (phys, s) =>
      dmaFreeFrom left (virt + 4096) { s with mem := memphysDmaFree s.mem phys }

/-- `memuser_dma_free`. Beyond the last whole page the index wraps before it reaches the
size, and the loop does not end. -/
def memuserDmaFree (s : Machine) (addr size : Nat) : Option Machine :=
  if size ≤ 2 ^ 32 - 4096 then dmaFreeFrom ((size + 4095) / 4096) addr s else none

/-- A word of memory read as an entry. -/
def wordEntry (word : Nat) : Entry where
  present := word.testBit 0
  writable := word.testBit 1
  user := word.testBit 2
  cow := word.testBit 7
  existing := word.testBit 9
  swappable := word.testBit 10
  swapped := word.testBit 11
  page := word / 4096

/-- A system call with its arguments. For `ipc_shm_attach` these are a pointer to a word
and the word `virt` that lies there. -/
inductive Call where
  | free (page : BitVec 32)
  | dmaFree (addr size : BitVec 32)
  | attach (id : Int) (addr virt flags : BitVec 32) (time : Int)
  | detach (virt : BitVec 32) (time : Int)
  deriving DecidableEq

/-- The machine after a call for which the heap has room. -/
def Call.plainRun (s : Shms) : Call → Option Machine
  | .free page => (memuserFree s.machine s.space page.toNat).map (·.1)
  | .dmaFree addr size => memuserDmaFree s.machine addr.toNat size.toNat
  | .attach id addr virt flags time =>
    (ipcShmAttach id virt.toNat flags time s).bind fun (result, place, t) =>
      if result = 0 then t.machine.store addr.toNat (wordEntry place) else some t.machine
  | .detach virt time => (ipcShmDetach virt.toNat time s).map (·.2.machine)

/-- The machine after the call. Only `ipc_shm_attach` asks the heap for anything. -/
def Call.run (w : HeapShms) : Call → Option Machine
  | .attach id addr virt flags time =>
    (w.attach id virt.toNat flags time).bind fun (result, place, t) =>
      if result = 0 then t.machine.store addr.toNat (wordEntry place) else some t.machine
  | call => call.plainRun w.toShms

/-- The heap has room for what the call takes from it. -/
def Call.HasRoom (w : HeapShms) : Call → Prop
  | .attach _ _ _ _ _ => w.Roomy
  | _ => True

/-- The pointer that a call is given is to a word in memory, which is the one named. -/
def Call.Pointed (s : Machine) : Call → Prop
  | .attach _ addr virt _ _ =>
    addr.toNat % 4 = 0 ∧ s.load addr.toNat = some (wordEntry virt.toNat)
  | _ => True

/-- A table that user memory was missing. -/
def NewUserTable (s s' : Machine) (d k : Nat) : Prop :=
  256 ≤ k ∧ k < 1023 ∧ (s.frames d k).present = false ∧
    ∃ addr ∈ freePages s.mem, s'.frames d k = tableEntry addr

/-- Outside of user memory every directory has the entries it had, but for the window page.
Word `k` of a directory is its entry for the page at which table `k` shows; it may
become a new table of user memory. -/
structure Sealed (dirs : List Nat) (s s' : Machine) : Prop where
  kernel : ∀ d ∈ dirs, ∀ p < 2 ^ 18, pageEntry s' d p = pageEntry s d p
  directory : ∀ d ∈ dirs, ∀ k < 1024, s'.frames d k = s.frames d k ∨ NewUserTable s s' d k

/-- And no page of DMA memory is given back but those that the process had obtained. -/
structure Isolated (dirs : List Nat) (Obtained : Nat → Prop) (s s' : Machine) : Prop extends
    Sealed dirs s s' where
  dma : ∀ page < memphysDmalimit / pageSize, ¬ Obtained page →
    dmaUsed s.mem.dmaBitmap page = true → dmaUsed s'.mem.dmaBitmap page = true

/-- A page of which the kernel reads entries outside of user memory. -/
def KernelTable (dirs : List Nat) (s : Machine) (f : Nat) : Prop :=
  f ∈ dirs ∨ ∃ d ∈ dirs, ∃ i < 256, (s.frames d i).present = true ∧ (s.frames d i).page = f

section Sealed

theorem Sealed.refl (dirs : List Nat) (s : Machine) : Sealed dirs s s :=
  ⟨fun _ _ _ _ => rfl, fun _ _ _ _ => Or.inl rfl⟩

theorem Sealed.of_frames (held : Sealed dirs s m) (same : s'.frames = m.frames) :
    Sealed dirs s s' := by
  refine ⟨fun d inDirs p low => ?_, fun d inDirs k small => ?_⟩
  · rw [pageEntry, entry, same]
    exact held.kernel d inDirs p low
  · rw [NewUserTable, same]
    exact held.directory d inDirs k small

theorem Sealed.kernel_slot (held : Sealed dirs s s') (inDirs : d ∈ dirs) (low : i < 256) :
    s'.frames d i = s.frames d i := by
  rcases held.directory d inDirs i (by omega) with same | ⟨user, -⟩
  · exact same
  · omega

theorem Sealed.kernel_word (held : Sealed dirs s s') (inDirs : d ∈ dirs) (low : i < 256)
    (word : j < 1024) (present : (s.frames d i).present = true) :
    s'.frames (s.frames d i).page j = s.frames (s.frames d i).page j := by
  have same := held.kernel d inDirs (i * 1024 + j) (by omega)
  have slot : (i * 1024 + j) / 1024 = i := by omega
  have rest : (i * 1024 + j) % 1024 = j := by omega
  rw [pageEntry, pageEntry, slot, rest, entry, entry, held.kernel_slot inDirs low, if_pos present,
    if_pos present] at same
  exact same

/-- It is enough to look at the words of the directories and of the kernel's tables. -/
theorem sealed_of_words (directory : ∀ d ∈ dirs, ∀ k < 1024,
      s'.frames d k = s.frames d k ∨ NewUserTable s s' d k)
    (tables : ∀ d ∈ dirs, ∀ i < 256, (s.frames d i).present = true → ∀ j < 1024,
      s'.frames (s.frames d i).page j = s.frames (s.frames d i).page j) : Sealed dirs s s' := by
  refine ⟨fun d inDirs p low => ?_, directory⟩
  have slot : s'.frames d (p / 1024) = s.frames d (p / 1024) := by
    rcases directory d inDirs (p / 1024) (by omega) with same | ⟨user, -⟩
    · exact same
    · omega
  rw [pageEntry, pageEntry, entry, entry, slot]
  split
  · rename_i present
    exact tables d inDirs _ (by omega) present _ (Nat.mod_lt _ (by omega))
  · rfl

theorem user_changed_sealed (held : Guarded dirs s) (unshared : Unshared dirs s)
    (changed : UserChanged s s') : Sealed dirs s s' := by
  have used : ∀ d ∈ dirs, d * 4096 ∉ freePages s.mem := fun d inDirs => (held.dir_outside inDirs).2
  have notUser : ∀ d ∈ dirs, ¬ UserTable s d := by
    rintro d inDirs ⟨i, -, slot, present, rfl⟩
    exact held.table_not_dir held.loaded slot present inDirs
  apply sealed_of_words
  · intro d inDirs k small
    by_cases own : d = s.curpd
    · subst own
      rcases changed.words k with same | ⟨user, slot, absent, addr, free, -, new⟩
      · exact Or.inl same
      · exact Or.inr ⟨user, slot, absent, addr, free, new⟩
    · left
      rw [changed.others d own (used d inDirs) (notUser d inDirs)]
  · intro d inDirs i low present j word
    have table : Table dirs s (s.frames d i).page := ⟨d, inDirs, i, by omega, present, rfl⟩
    rw [changed.others _ _ (held.table_outside table).2]
    · rintro ⟨k, user, slot, there, same⟩
      exact unshared s.curpd held.loaded d inDirs k user slot i (by omega)
        (fun eq => by have := (Prod.mk.inj eq).2; omega) there present same.symm
    · exact fun eq => held.table_not_dir inDirs (by omega) present (eq.symm ▸ held.loaded)

/-- A write elsewhere. -/
theorem Sealed.write (held : Sealed dirs s m) (away : ¬ KernelTable dirs s f) :
    Sealed dirs s (m.write f k e) := by
  apply sealed_of_words
  · intro d inDirs k' small
    have other : d ≠ f := fun eq => away (Or.inl (eq ▸ inDirs))
    rw [NewUserTable, write_other_frame m e other]
    exact held.directory d inDirs k' small
  · intro d inDirs i low present j word
    have other : (s.frames d i).page ≠ f := fun eq => away (Or.inr ⟨d, inDirs, i, low, present, eq⟩)
    rw [write_other_frame m e other]
    exact held.kernel_word inDirs low word present

/-- A word gets the value back that it had. -/
theorem Sealed.restore (held : Sealed dirs s m) (f k : Nat) :
    Sealed dirs s (m.write f k (s.frames f k)) := by
  have words : ∀ f' k', (m.write f k (s.frames f k)).frames f' k' = m.frames f' k' ∨
      (m.write f k (s.frames f k)).frames f' k' = s.frames f' k' := by
    intro f' k'
    by_cases here : (f', k') = (f, k)
    · obtain ⟨rfl, rfl⟩ := Prod.mk.inj here
      exact Or.inr (write_same _ _ _ _)
    · exact Or.inl (write_other m _ here)
  apply sealed_of_words
  · intro d inDirs k' small
    rcases words d k' with same | old
    · rw [NewUserTable, same]
      exact held.directory d inDirs k' small
    · exact Or.inl old
  · intro d inDirs i low present j word
    rcases words (s.frames d i).page j with same | old
    · rw [same]
      exact held.kernel_word inDirs low word present
    · exact old

end Sealed

section Clear

theorem unmap_pages_eq (left virt : Nat) (linked : SelfLinked s)
    (ran : unmapPages left virt s = some s') : s' = clearPages s (visited virt left) := by
  induction left generalizing virt s with
  | zero =>
    cases ran
    rfl
  | succ left ih =>
    have inside : virt % 2 ^ 32 < 2 ^ 32 := Nat.mod_lt _ (by omega)
    rw [unmapPages, unmap_eq linked inside, Option.bind_some] at ran
    rcases clear_linked linked (addr2page (virt % 2 ^ 32)) with still | broken
    · exact ih (virt + 4096) still ran
    · cases left with
      | zero =>
        cases ran
        rfl
      | succ left =>
        obtain ⟨result, unmapped, -⟩ := Option.bind_eq_some_iff.mp ran
        rw [unmap_faults] at unmapped
        · cases unmapped
        · rw [clear_curpd]
          exact broken
        · exact Nat.mod_lt _ (by omega)

/-- The pages that are unmapped one after the other. -/
def framesRead : Machine → List Nat → List Nat
  | _, [] => []
  | s, p :: pages => frameOf (pageEntry s s.curpd p) :: framesRead (clearPage s p) pages

theorem clear_pages_with_mem (s : Machine) (mem : PhysMem) (pages : List Nat) :
    clearPages { s with mem := mem } pages = { clearPages s pages with mem := mem } := by
  induction pages generalizing s with
  | nil => rfl
  | cons p pages ih =>
    change clearPages (clearPage _ p) pages = { clearPages (clearPage s p) pages with mem := mem }
    rw [clear_with_mem, ih]

theorem frames_read_with_mem (s : Machine) (mem : PhysMem) (pages : List Nat) :
    framesRead { s with mem := mem } pages = framesRead s pages := by
  induction pages generalizing s with
  | nil => rfl
  | cons p pages ih =>
    rw [framesRead, framesRead, clear_with_mem, ih]
    rfl

theorem dma_free_from_eq (left virt : Nat) (linked : SelfLinked s)
    (ran : dmaFreeFrom left virt s = some s') :
    s' = { clearPages s (visited virt left) with
      mem := dmaFrees s.mem (framesRead s (visited virt left)) } := by
  induction left generalizing virt s with
  | zero =>
    cases ran
    rfl
  | succ left ih =>
    have inside : virt % 2 ^ 32 < 2 ^ 32 := Nat.mod_lt _ (by omega)
    rw [dmaFreeFrom, unmap_eq linked inside, Option.bind_some] at ran
    simp only [clear_mem] at ran
    rcases clear_linked linked (addr2page (virt % 2 ^ 32)) with still | broken
    · have rest := ih (virt + 4096) (s := { clearPage s (addr2page (virt % 2 ^ 32)) with
        mem := memphysDmaFree s.mem (frameOf (pageEntry s s.curpd (addr2page (virt % 2 ^ 32))) * 4096) })
        still ran
      rw [clear_pages_with_mem, frames_read_with_mem] at rest
      exact rest
    · cases left with
      | zero =>
        cases ran
        rfl
      | succ left =>
        obtain ⟨result, unmapped, -⟩ := Option.bind_eq_some_iff.mp ran
        rw [unmap_faults] at unmapped
        · cases unmapped
        · simp only [clear_curpd]
          exact broken
        · exact Nat.mod_lt _ (by omega)

/-- What is cleared outside of user memory was blank, if nothing changes there. -/
theorem Sealed.blanked (sealedAfter : Sealed dirs s s') (held : Guarded dirs s)
    (pages : List Nat) (bounded : ∀ p ∈ pages, p < 2 ^ 20)
    (cleared : ∀ p ∈ pages, pageEntry s' s.curpd p = blank) : Blanked s pages := by
  intro p member outside
  have blank' := cleared p member
  rcases outside with low | high
  · rw [← sealedAfter.kernel s.curpd held.loaded p low]
    exact blank'
  · have slot : p / 1024 = 1023 := by
      have := bounded p member
      omega
    have last : s'.frames s.curpd 1023 = s.frames s.curpd 1023 := by
      rcases sealedAfter.directory s.curpd held.loaded 1023 (by omega) with same | ⟨-, below, -⟩
      · exact same
      · omega
    rw [pageEntry, slot, entry, last, held.linked.1, if_pos rfl, held.linked.2] at blank'
    rw [pageEntry, slot, entry, held.linked.1, if_pos rfl, held.linked.2]
    rcases sealedAfter.directory s.curpd held.loaded (p % 1024) (Nat.mod_lt _ (by omega)) with
      same | ⟨-, -, -, addr, -, new⟩
    · rw [← same]
      exact blank'
    · rw [new] at blank'
      cases blank'

theorem visited_bounded : ∀ p ∈ visited virt n, p < 2 ^ 20 := by
  intro p member
  obtain ⟨k, -, rfl⟩ := visited_mem.mp member
  exact Nat.mod_lt _ (by omega)

/-- Clearing pages leaves the rest alone exactly if there was nothing to clear there. -/
theorem clear_sealed_iff (held : Guarded dirs s) (unshared : Unshared dirs s) (pages : List Nat)
    (bounded : ∀ p ∈ pages, p < 2 ^ 20) (same : s'.frames = (clearPages s pages).frames) :
    Sealed dirs s s' ↔ Blanked s pages := by
  constructor
  · intro sealedAfter
    refine sealedAfter.blanked held pages bounded fun p member => ?_
    rw [pageEntry, entry, same]
    exact clear_pages_blank pages member
  · intro blanked
    have changed := clear_pages_user_changed pages held.walkable blanked
    exact (user_changed_sealed held unshared changed).of_frames same

end Clear

section Dma

/-- The tables of user memory are in one slot of the loaded directory each. -/
def OwnUserTables (s : Machine) : Prop :=
  ∀ i, 256 ≤ i → i < 1023 → ∀ i' < 1024, i' ≠ i → (s.frames s.curpd i).present = true →
    (s.frames s.curpd i').present = true → (s.frames s.curpd i').page ≠ (s.frames s.curpd i).page

theorem own_user_tables (held : Guarded dirs s) (unshared : Unshared dirs s) : OwnUserTables s := by
  intro i user slot i' slot' other present present'
  exact unshared s.curpd held.loaded s.curpd held.loaded i user slot i' slot'
    (fun eq => other (Prod.mk.inj eq).2) present present'

/-- Clearing a page of user memory changes no other entry of the address space. -/
theorem clear_other (held : Walkable s) (own : OwnUserTables s) (user : 256 ≤ p / 1024)
    (slot : p / 1024 < 1023) (other : q ≠ p) (small : q < 2 ^ 20) :
    pageEntry (clearPage s p) s.curpd q = pageEntry s s.curpd q := by
  cases present : (s.frames s.curpd (p / 1024)).present with
  | false => rw [clearPage, present, if_neg Bool.false_ne_true]
  | true =>
    have notDir := (held.tables (p / 1024) slot present).1
    have word : (clearPage s p).frames s.curpd = s.frames s.curpd := by
      rw [clearPage, present, if_pos rfl, write_other_frame s blank notDir.symm]
    rw [pageEntry, pageEntry, entry, entry, word]
    split
    · rename_i there
      rw [clearPage, present, if_pos rfl]
      by_cases same : q / 1024 = p / 1024
      · rw [same]
        exact write_other_word s blank (by omega)
      · rw [write_other_frame s blank]
        exact own (p / 1024) user slot (q / 1024) (by omega) same present there
    · rfl

theorem frames_read_eq (pages : List Nat) (held : Walkable s) (own : OwnUserTables s)
    (bounded : ∀ p ∈ pages, p < 2 ^ 20) (nodup : pages.Nodup) (blanked : Blanked s pages) :
    framesRead s pages = pages.map fun p => frameOf (pageEntry s s.curpd p) := by
  induction pages generalizing s with
  | nil => rfl
  | cons p pages ih =>
    obtain ⟨notLater, nodup⟩ := List.nodup_cons.mp nodup
    have inRest : ∀ q ∈ pages, q < 2 ^ 20 := fun q member => bounded q (List.mem_cons_of_mem p member)
    have rest : Blanked s pages := fun q member => blanked q (List.mem_cons_of_mem p member)
    rw [framesRead, List.map_cons]
    congr 1
    by_cases outside : OutsideUser p
    · rw [clear_of_blank (blanked p List.mem_cons_self outside)]
      exact ih held own inRest nodup rest
    · rw [OutsideUser] at outside
      have user : 256 ≤ p / 1024 := by omega
      have slot : p / 1024 < 1023 := by omega
      have changed := clear_user_changed held user slot
      have kept : ∀ q ∈ pages, pageEntry (clearPage s p) s.curpd q = pageEntry s s.curpd q :=
        fun q member => clear_other held own user slot (fun eq => notLater (eq ▸ member))
          (inRest q member)
      have words : ∀ k, (clearPage s p).frames s.curpd k = s.frames s.curpd k := by
        intro k
        rcases changed.words k with same | ⟨-, -, absent, addr, -, -, new⟩
        · exact same
        · rcases clear_word s p s.curpd k with same | cleared
          · exact same
          · rw [cleared] at new
            cases new
      rw [ih changed.walkable ?_ inRest nodup ?_, clear_curpd]
      · exact List.map_congr_left fun q member => congrArg frameOf (kept q member)
      · intro i user' slot' i' small' other
        rw [clear_curpd, words, words]
        exact own i user' slot' i' small' other
      · intro q member far
        rw [clear_curpd, kept q member]
        exact rest q member far

end Dma

/-- What is known of the state in which a process makes a call. -/
structure Proper (dirs : List Nat) (s : Shms) : Prop where
  guarded : Guarded dirs s.machine
  unshared : Unshared dirs s.machine
  stackTables : OwnStackTables dirs s.machine
  loaded : s.space.pagedir = s.machine.curpd
  stack : s.space.stack < 2 ^ 32
  /-- The table of the stack is the last one of user memory. -/
  lastTable : (s.machine.frames s.machine.curpd 1022).present = true
  existing : ∀ p, 2 ^ 18 ≤ p → p < 1023 * 1024 →
    (pageEntry s.machine s.machine.curpd p).present = true →
      (pageEntry s.machine s.machine.curpd p).existing = true
  /-- The first page is mapped to itself. -/
  first : (pageEntry s.machine s.machine.curpd 0).present = true ∧
    (pageEntry s.machine s.machine.curpd 0).page = 0
  firstTable : (s.machine.frames s.machine.curpd 0).page < 2 ^ 18
  /-- There is no memory at the addresses of the page tables. -/
  tablesInRam : ∀ d ∈ dirs, ∀ k < 1024, (s.machine.frames d k).page < 1023 * 1024
  freeInRam : ∀ a ∈ freePages s.machine.mem, addr2page a < 1023 * 1024
  objects : ∀ shm ∈ s.ipcObjects, (s.ipc shm).type = .shm →
    (s.shms shm).numPages = (s.shms shm).phys.length ∧ (s.shms shm).numPages ≤ 2 ^ 20 ∧
      ∀ page ∈ (s.shms shm).phys, Fresh dirs s.machine (addr2page page)

/-- The page of the stack of free pages that comes next. -/
def stackPlace (s : Machine) : Nat := addr2page (stackdataAddress + 4 * s.mem.stackend)

/-- The call of `memuser_free` makes the page of the stack's end a page of the page stack. -/
def Grows (s : Shms) : Prop :=
  let pte := pageEntry s.machine s.machine.curpd (addr2page s.space.stack)
  pte.present = true ∧ pte.page ≠ 0 ∧ s.machine.mem.stackptr = s.machine.mem.stackend

/-- For NULL there is room, and the word that gets the address is none of the kernel's
entries; any other address leaves room for the pages below the page tables. -/
def AttachHarmless (dirs : List Nat) (s : Machine) (pages : Nat) (addr virt : BitVec 32) : Prop :=
  if virt = 0 then
    (∃ start, FreeRange s s.curpd pages start) ∧
      ∀ frame, s.translate addr.toNat = some frame → ¬ KernelTable dirs s frame
  else pages = 0 ∨ addr2page virt.toNat + pages ≤ 1023 * 1024

/-- The condition under which a call leaves the kernel's mappings alone. -/
def Call.Harmless (dirs : List Nat) (Obtained : Nat → Prop) (s : Shms) : Call → Prop
  | .free page => page = 0 ∨
    Blanked s.machine [addr2page page.toNat] ∧
      (Grows s → stackPlace s.machine = addr2page page.toNat ∨
        pageEntry s.machine s.machine.curpd (stackPlace s.machine) = mapEntry
          ((pageEntry s.machine s.machine.curpd (addr2page s.space.stack)).page * 4096) false true)
  | .dmaFree addr size =>
    let pages := visited addr.toNat ((size.toNat + 4095) / 4096)
    Blanked s.machine pages ∧ ∀ p ∈ pages,
      let f := frameOf (pageEntry s.machine s.machine.curpd p)
      Obtained f ∨ memphysDmalimit / pageSize ≤ f ∨ dmaUsed s.machine.mem.dmaBitmap f = false
  | .attach id addr virt _ _ =>
    userdataAddress ≤ virt.toNat ∨ virt = 0 → ∀ shm, ipcFind (-1) id .shm s.toObjects = some shm →
      AttachHarmless dirs s.machine (s.shms shm).numPages addr virt
  | .detach virt _ => userdataAddress ≤ virt.toNat → ∀ shm j, findAtt virt.toNat s = some (shm, j) →
    Blanked s.machine (visited virt.toNat (s.shms shm).numPages)

section Calls
variable {s : Shms} {after : Machine} {Obtained : Nat → Prop}

/-- Where the bitmap is as before, only the entries count. -/
theorem isolated_iff_sealed (same : after.mem.dmaBitmap = m.mem.dmaBitmap) :
    Isolated dirs Obtained m after ↔ Sealed dirs m after := by
  refine ⟨Isolated.toSealed, fun sealedAfter => ⟨sealedAfter, fun page _ _ used => ?_⟩⟩
  rw [same]
  exact used

theorem dma_free_isolated_iff (addr size : BitVec 32) (held : Proper dirs s)
    (ran : Call.plainRun s (.dmaFree addr size) = some after) :
    Isolated dirs Obtained s.machine after ↔ Call.Harmless dirs Obtained s (.dmaFree addr size) := by
  rw [Call.plainRun, memuserDmaFree] at ran
  split at ran
  · rename_i ends
    have final := dma_free_from_eq _ _ held.guarded.linked ran
    have bounded : ∀ p ∈ visited addr.toNat ((size.toNat + 4095) / 4096), p < 2 ^ 20 := visited_bounded
    have frames : after.frames =
        (clearPages s.machine (visited addr.toNat ((size.toNat + 4095) / 4096))).frames := by
      rw [final]
    have closed := clear_sealed_iff held.guarded held.unshared _ bounded frames
    have bits : Blanked s.machine (visited addr.toNat ((size.toNat + 4095) / 4096)) →
        ∀ page, dmaUsed after.mem.dmaBitmap page = true ↔ dmaUsed s.machine.mem.dmaBitmap page = true ∧
          page ∉ (visited addr.toNat ((size.toNat + 4095) / 4096)).map fun p =>
            frameOf (pageEntry s.machine s.machine.curpd p) := by
      intro blanked page
      rw [final, ← frames_read_eq _ held.guarded.walkable (own_user_tables held.guarded held.unshared)
        bounded (visited_nodup (by omega)) blanked]
      exact dma_frees_used _ _ page
    constructor
    · intro isolated
      have blanked := closed.mp isolated.toSealed
      refine ⟨blanked, fun p member => ?_⟩
      by_contra bad
      obtain ⟨notOwn, rest⟩ := not_or.mp bad
      obtain ⟨small, set⟩ := not_or.mp rest
      have used := isolated.dma _ (Nat.lt_of_not_le small) notOwn (Bool.eq_true_of_not_eq_false set)
      exact ((bits blanked _).mp used).2 (List.mem_map_of_mem member)
    · rintro ⟨blanked, pages⟩
      refine ⟨closed.mpr blanked, fun page small notOwn used => ?_⟩
      refine (bits blanked page).mpr ⟨used, fun again => ?_⟩
      obtain ⟨p, member, rfl⟩ := List.mem_map.mp again
      rcases pages p member with own | high | clear
      · exact notOwn own
      · omega
      · rw [clear] at used
        cases used
  · cases ran

theorem detach_isolated_iff (virt : BitVec 32) (time : Int) (held : Proper dirs s)
    (ran : Call.plainRun s (.detach virt time) = some after) :
    Isolated dirs Obtained s.machine after ↔ Call.Harmless dirs Obtained s (.detach virt time) := by
  obtain ⟨⟨result, t⟩, detached, rfl⟩ := Option.map_eq_some_iff.mp ran
  clear ran
  rw [ipcShmDetach] at detached
  by_cases low : virt.toNat < userdataAddress
  · rw [if_pos low] at detached
    cases detached
    rw [isolated_iff_sealed rfl]
    exact iff_of_true (.refl dirs _) fun high => by omega
  · rw [if_neg low] at detached
    cases found : findAtt virt.toNat s with
    | none =>
      rw [found] at detached
      cases detached
      rw [isolated_iff_sealed rfl]
      refine iff_of_true (.refl dirs _) fun _ shm j none => ?_
      rw [found] at none
      cases none
    | some place =>
      obtain ⟨shm, j⟩ := place
      rw [found] at detached
      obtain ⟨machine, unmapped, same⟩ := Option.map_eq_some_iff.mp detached
      cases same
      have final := unmap_pages_eq _ _ held.guarded.linked unmapped
      have closed := clear_sealed_iff held.guarded held.unshared
        (visited virt.toNat (s.shms shm).numPages) visited_bounded (congrArg Machine.frames final)
      change Isolated dirs Obtained s.machine machine ↔ _
      rw [isolated_iff_sealed (by rw [final, clear_pages_mem])]
      refine closed.trans ⟨fun blanked _ shm' j' found' => ?_, fun harmless => ?_⟩
      · rw [found] at found'
        cases found'
        exact blanked
      · exact harmless (by omega) shm j found

/-- `memuser_free` of a page other than NULL. -/
theorem free_frames (held : Proper dirs s) (page : BitVec 32) (real : page ≠ 0)
    (ran : Call.plainRun s (.free page) = some after) :
    after.mem.dmaBitmap = s.machine.mem.dmaBitmap ∧
      (Grows s → after.frames = (clearPage (s.machine.grow
        ((pageEntry s.machine s.machine.curpd (addr2page s.space.stack)).page * 4096))
          (addr2page page.toNat)).frames) ∧
      (¬ Grows s → after.frames = (clearPages s.machine [addr2page page.toNat]).frames) := by
  obtain ⟨⟨t, space⟩, freed, rfl⟩ := Option.map_eq_some_iff.mp ran
  clear ran
  have address : page.toNat ≠ 0 := fun eq => real (BitVec.eq_of_toNat_eq eq)
  have looked : pagingGetptePd s.machine s.space.stack s.space.pagedir =
      some (pageEntry s.machine s.machine.curpd (addr2page s.space.stack), s.machine) := by
    rw [pagingGetptePd, if_pos held.loaded, getpte_eq held.guarded.linked held.stack]
    rfl
  have cleared : ∀ m t : Machine,
      pagingSetptePd m page.toNat blank s.space.pagedir = some t → m.curpd = s.machine.curpd →
      SelfLinked m ∨ (m.frames s.machine.curpd 1023).present = false →
        t = clearPage m (addr2page page.toNat) := by
    intro m t set same linked
    rw [pagingSetptePd, if_pos (held.loaded.trans same.symm)] at set
    rcases linked with linked | broken
    · rw [setpte_eq linked page.isLt, Option.map_some] at set
      cases set
      rw [clearPage, addr2pde, addr2pte]
      split <;> rfl
    · rw [← same] at broken
      rw [pagingSetpte, getpde_faults broken page.isLt] at set
      cases set
  rw [memuserFree, if_neg address, looked, Option.bind_some] at freed
  obtain ⟨⟨m, space'⟩, first, set⟩ := Option.bind_eq_some_iff.mp freed
  obtain ⟨t', set, same⟩ := Option.map_eq_some_iff.mp set
  cases same
  cases present : (pageEntry s.machine s.machine.curpd (addr2page s.space.stack)).present with
  | true =>
    rw [present, if_pos rfl] at first
    obtain ⟨m, given, same⟩ := Option.map_eq_some_iff.mp first
    cases same
    by_cases full : (pageEntry s.machine s.machine.curpd (addr2page s.space.stack)).page * 4096 ≠ 0 ∧
        s.machine.mem.stackptr = s.machine.mem.stackend
    · rw [free_full held.guarded full.2 full.1] at given
      cases given
      have linked : SelfLinked (s.machine.grow
          ((pageEntry s.machine s.machine.curpd (addr2page s.space.stack)).page * 4096)) := by
        rw [SelfLinked]
        change (Machine.frames _ s.machine.curpd 1023).present = true ∧
          (Machine.frames _ s.machine.curpd 1023).page = s.machine.curpd
        rw [grow_frames held.guarded full.2 held.guarded.loaded]
        exact held.guarded.linked
      have final := cleared _ _ set rfl (Or.inl linked)
      refine ⟨?_, fun _ => congrArg Machine.frames final, fun stays => ?_⟩
      · rw [final, clear_mem]
        rfl
      · exact absurd ⟨present, by omega, full.2⟩ stays
    · rw [memphysFree, if_neg full] at given
      cases given
      have final := cleared _ _ set rfl (Or.inl held.guarded.linked)
      refine ⟨?_, fun grows => ?_, fun _ => ?_⟩
      · rw [final, clear_mem]
        exact push_dma_bitmap _ _
      · exact absurd ⟨by have := grows.2.1; omega, grows.2.2⟩ full
      · rw [final, clear_with_mem]
        rfl
  | false =>
    have stays : ¬ Grows s := fun grows => Bool.false_ne_true (present.symm.trans grows.1)
    rw [present, if_neg Bool.false_ne_true, unmap_eq held.guarded.linked page.isLt] at first
    have again : clearPage (clearPage s.machine (addr2page page.toNat)) (addr2page page.toNat) =
        clearPage s.machine (addr2page page.toNat) := by
      apply clear_of_blank
      rw [clear_curpd]
      exact clear_blank _ _
    have final : t = clearPage s.machine (addr2page page.toNat) := by
      split at first
      · cases first
        exact cleared _ _ set rfl (Or.inl held.guarded.linked)
      · rw [← again]
        split at first
        all_goals
          cases first
          exact cleared _ _ set (clear_curpd _ _) (clear_linked held.guarded.linked _)
    refine ⟨?_, fun grows => absurd grows stays, fun _ => ?_⟩
    · rw [final, clear_mem]
    · rw [final]
      rfl

theorem write_back (m : Machine) (f k : Nat) : m.write f k (m.frames f k) = m := by
  rw [Machine.write, Function.update_eq_self, Function.update_eq_self]

theorem write_twice (m : Machine) (f k : Nat) (e e' : Entry) :
    (m.write f k e).write f k e' = m.write f k e' := by
  simp [Machine.write]

/-- The page stack grows into the entry of another page than the one that is cleared. -/
theorem grown_entry (held : Proper dirs s) (full : s.machine.mem.stackptr = s.machine.mem.stackend)
    (blanked : Blanked s.machine [p]) (small : p < 2 ^ 20) (other : stackPlace s.machine ≠ p)
    (addr : Nat) :
    pageEntry (clearPage (s.machine.grow addr) p) s.machine.curpd (stackPlace s.machine) =
      mapEntry addr false true := by
  obtain ⟨low, present⟩ := held.guarded.stack_place full
  have mapped := write_mapped (j := stackPlace s.machine % 1024) (e := mapEntry addr false true)
    held.guarded.walkable (by omega) present
  have grown : pageEntry (s.machine.grow addr) s.machine.curpd (stackPlace s.machine) =
      mapEntry addr false true := by
    rw [pageEntry]
    exact (entry_present _ _ mapped.present).trans mapped.written
  by_cases outside : OutsideUser p
  · have was := blanked p (List.mem_singleton.mpr rfl) outside
    have still : pageEntry (s.machine.grow addr) s.machine.curpd p = blank := by
      rcases grow_entry addr held.guarded held.stackTables full held.guarded.loaded
        (i := p / 1024) (by omega) (p % 1024) with same | ⟨slot, word, -⟩
      · rw [pageEntry, same]
        exact was
      · refine absurd ?_ other
        have page : stackPlace s.machine / 1024 = p / 1024 := slot
        have rest : stackPlace s.machine % 1024 = p % 1024 := word
        omega
    rw [clear_of_blank still]
    exact grown
  · rw [OutsideUser] at outside
    have own : OwnUserTables (s.machine.grow addr) := by
      intro i user slot i' slot' apart
      change (Machine.frames _ s.machine.curpd i).present = true →
        (Machine.frames _ s.machine.curpd i').present = true →
        (Machine.frames _ s.machine.curpd i').page ≠ (Machine.frames _ s.machine.curpd i).page
      rw [grow_frames held.guarded full held.guarded.loaded]
      exact own_user_tables held.guarded held.unshared i user slot i' slot' apart
    have place := stack_place_page held.guarded full
    have walkable : Walkable (s.machine.grow addr) := by
      obtain ⟨stocked, linked, loaded, tables⟩ := mapped.walkable
      refine ⟨⟨stocked.nodup, stocked.aligned, ?_⟩, linked, loaded, tables⟩
      exact Nat.le_trans stocked.bounded (Nat.le_add_right _ _)
    have kept := clear_other (q := stackPlace s.machine) walkable own (by omega) (by omega) other (by
      rw [stackPlace]
      omega)
    exact kept.trans grown

/-- The page stack grows into the page that is cleared, or where it has grown already. -/
theorem grown_frames (held : Proper dirs s) (full : s.machine.mem.stackptr = s.machine.mem.stackend)
    (place : stackPlace s.machine = p ∨
      pageEntry s.machine s.machine.curpd (stackPlace s.machine) = mapEntry addr false true) :
    (clearPage (s.machine.grow addr) p).frames = (clearPage s.machine p).frames := by
  obtain ⟨-, present⟩ := held.guarded.stack_place full
  have table : (s.machine.frames s.machine.curpd (stackPlace s.machine / 1024)).present = true := present
  rcases place with rfl | written
  · have same : (s.machine.grow addr).frames s.machine.curpd (stackPlace s.machine / 1024) =
        s.machine.frames s.machine.curpd (stackPlace s.machine / 1024) :=
      congrFun (grow_frames held.guarded full held.guarded.loaded) _
    have there : ((s.machine.grow addr).frames (s.machine.grow addr).curpd
        (stackPlace s.machine / 1024)).present = true := (congrArg Entry.present same).trans table
    rw [clearPage, clearPage, if_pos there, if_pos table]
    change ((s.machine.grow addr).write ((s.machine.grow addr).frames s.machine.curpd _).page _ _).frames = _
    rw [same]
    have twice := congrArg Machine.frames (write_twice s.machine
      (s.machine.frames s.machine.curpd (stackPlace s.machine / 1024)).page
      (stackPlace s.machine % 1024) (mapEntry addr false true) blank)
    exact twice
  · rw [pageEntry, entry_present _ _ table] at written
    have still : s.machine.grow addr = { s.machine with mem := memphysGrow s.machine.mem addr } := by
      rw [Machine.grow, ← written]
      exact congrArg (fun m : Machine => { m with mem := memphysGrow s.machine.mem addr })
        (write_back s.machine _ _)
    rw [still, clear_with_mem]

theorem free_isolated_iff (page : BitVec 32) (held : Proper dirs s)
    (ran : Call.plainRun s (.free page) = some after) :
    Isolated dirs Obtained s.machine after ↔ Call.Harmless dirs Obtained s (.free page) := by
  by_cases real : page = 0
  · subst real
    cases ran
    rw [isolated_iff_sealed rfl]
    exact iff_of_true (.refl dirs _) (Or.inl rfl)
  · obtain ⟨dma, grown, cleared⟩ := free_frames held page real ran
    rw [isolated_iff_sealed dma, Call.Harmless, or_iff_right real]
    have bounded : ∀ p ∈ [addr2page page.toNat], p < 2 ^ 20 := by
      intro p member
      rw [List.mem_singleton.mp member, addr2page]
      have := page.isLt
      omega
    by_cases grows : Grows s
    · have frames := grown grows
      have full := grows.2.2
      constructor
      · intro sealedAfter
        have blanked := sealedAfter.blanked held.guarded _ bounded fun p member => by
          rw [List.mem_singleton.mp member, pageEntry, entry, frames]
          exact clear_blank (s.machine.grow _) _
        refine ⟨blanked, fun _ => ?_⟩
        by_cases here : stackPlace s.machine = addr2page page.toNat
        · exact Or.inl here
        · right
          have low := stack_place_page held.guarded full
          rw [← sealedAfter.kernel s.machine.curpd held.guarded.loaded (stackPlace s.machine)
            (by rw [stackPlace]; omega), pageEntry, entry, frames]
          exact grown_entry held full blanked (bounded _ (List.mem_singleton.mpr rfl)) here _
      · rintro ⟨blanked, place⟩
        rw [grown_frames held full (place grows)] at frames
        exact (clear_sealed_iff held.guarded held.unshared _ bounded frames).mpr blanked
    · have closed := clear_sealed_iff held.guarded held.unshared _ bounded (cleared grows)
      exact closed.trans ⟨fun blanked => ⟨blanked, fun yes => absurd yes grows⟩, And.left⟩

end Calls

end MeinOS.UserIsolation
