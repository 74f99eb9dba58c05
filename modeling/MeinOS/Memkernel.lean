import MeinOS.Llist
import MeinOS.PagingWindow

/-! Kernel memory, `kernel2/memkernel.c`, and how the directories come to share it.
`memuser_create_pagedir` copies the kernel's entries into a new directory, and each page
that `memkernel_alloc` maps is followed by `memuser_syncpds`, which enters one slot of the
loaded directory into those of all processes.

The copy is of 64 entries and not of 256; the directory of the kernel itself is that of
no process; and the slot that is entered for page `i` of an area is the one of its byte
`i`. So the entries stay the same as long as the area lies in tables that exist. -/
namespace MeinOS.Memkernel
open Lib.Runs Llist Memphys Paging Memuser PagingWindow

def kerneldataAddress : Nat := 7 * 2 ^ 20

/-- `KERNELDATA_ADDRESS+KERNELDATA_SIZE`. -/
def kerneldataEnd : Nat := 2 ^ 30

/-- The loop of `memkernel_findvirt` for at most `rounds` more rounds. A missing table is
passed by 3072 bytes more than it spans. -/
def kernelFindvirtFrom (pages : Nat) : Nat → Nat → Nat → Machine → Option Nat
  | 0, _, _, _ => some 0
  | rounds + 1, virt, found, s =>
    if virt < kerneldataEnd then
      if pages ≤ found then some (virt - found * 4096)
      else
        (if addr2pte virt = 0 then (pagingGetpde s virt).map (!·.present) else some false).bind
          fun missing =>
            if missing then kernelFindvirtFrom pages rounds (virt + 1024 * 4095 + 4096) (found + 1024) s
            else (pagingGetpte s virt).bind fun pte =>
              kernelFindvirtFrom pages rounds (virt + 4096) (if pte.existing then 0 else found + 1) s
    else some 0

/-- `memkernel_findvirt`; `0` is NULL. -/
def memkernelFindvirt (s : Machine) (pages : Nat) : Option Nat :=
  kernelFindvirtFrom pages (2 ^ 18) kerneldataAddress 0 s

/-- The loop of `memuser_syncpds` over the directories of the processes. -/
def syncDirs (addr : Nat) (pde : Entry) : List Nat → Machine → Option Machine
  | [], s => some s
  | d :: ds, s => (pagingSetpde { s with curpd := d } addr pde).bind (syncDirs addr pde ds)

/-- `memuser_syncpds`, given the directories of `proc_all` and of `proc_current`. -/
def memuserSyncpds (procAll : List Nat) (current : Option Nat) (addr : Nat) (s : Machine) :
    Option Machine :=
  (pagingGetpde s addr).bind fun pde =>
    (syncDirs addr pde procAll s).map fun s =>
      match current with
      | none => s
      | some d => { s with curpd := d }

/-- One round of `memkernel_alloc`. The page is mapped at `virt+i*PAGE_SIZE`, and the slot
of `virt+i` is synchronised. -/
def allocRound (procAll : List Nat) (current : Option Nat) (virt i : Nat) (s : Machine) :
    Option Machine :=
  (memphysAlloc s).bind fun (page, s) =>
    (pagingMap s ((virt + i * 4096) % 2 ^ 32) page false true).bind fun (_, s) =>
      memuserSyncpds procAll current ((virt + i) % 2 ^ 32) s

/-- The loop of `memkernel_alloc` from round `i` on. -/
def allocRounds (procAll : List Nat) (current : Option Nat) (virt : Nat) :
    Nat → Nat → Machine → Option Machine
  | 0, _, s => some s
  | left + 1, i, s =>
    (allocRound procAll current virt i s).bind (allocRounds procAll current virt left (i + 1))

/-- `memkernel_alloc`, after `memuser_init`. -/
def memkernelAlloc (procAll : List Nat) (current : Option Nat) (size : Nat) (s : Machine) :
    Option (Nat × Machine) :=
  (memkernelFindvirt s (addr2page size)).bind fun virt =>
    (allocRounds procAll current virt (addr2page size) 0 s).map (virt, ·)

/-- The machine with the directories in use. Those of `proc_all` are listed; a process
that is being created has its directory before it is listed. -/
structure Halves where
  machine : Machine
  dirs : List Nat
  procAll : List Nat
  current : Option Nat

/-- `proc_create` makes the directory and then enters the process in `proc_all`, and its
`malloc`s may call `memkernel_alloc` in between. -/
inductive Event where
  | alloc (size : Nat)
  | create
  | enlist (pagedir : Nat)
  | switch (pagedir : Nat)

def step (h : Halves) : Event → Option Halves
  | .alloc size => (memkernelAlloc h.procAll h.current size h.machine).map fun (_, s) =>
    { h with machine := s }
  | .create => (memuserCreatePagedir h.machine).map fun (pagedir, s) =>
    { h with machine := s, dirs := pagedir :: h.dirs }
  | .enlist pagedir =>
    onlyIf (pagedir ∈ h.dirs ∧ pagedir ≠ pagingKernelpd ∧ pagedir ∉ h.procAll)
      { h with procAll := llistPush h.procAll pagedir }
  | .switch pagedir =>
    onlyIf (pagedir ∈ h.procAll)
      { h with machine := { h.machine with curpd := pagedir }, current := some pagedir }

/-- The state at that time. -/
def start (s : Machine) : Halves := ⟨s, [s.curpd], [], none⟩

/-- All directories have the same entries for the kernel, wherever one has an entry. -/
def KernelShared (dirs : List Nat) (s : Machine) : Prop :=
  ∀ d ∈ dirs, ∀ d' ∈ dirs, ∀ i < addr2pde kerneldataEnd, (s.frames d i).present = true →
    s.frames d' i = s.frames d i

/-- The kernel's area has `pages` free pages in a row in the tables that follow each other
from slot 1 on in the loaded directory. -/
def Fits (pages : Nat) (s : Machine) : Prop :=
  ∃ slots first, slots < 256 ∧
    (∀ i, 1 ≤ i → i < slots → (s.frames s.curpd i).present = true) ∧
    addr2page kerneldataAddress ≤ first ∧ first + pages ≤ slots * 1024 ∧
    ∀ page, first ≤ page → page < first + pages →
      (s.frames (s.frames s.curpd (page / 1024)).page (page % 1024)).existing = false

/-- A new table is added only before there are processes, or for a single page while the
kernel's directory is loaded and every process is listed; a directory is created while
the kernel has no entry that is not copied. -/
def Meets (h : Halves) : Event → Prop
  | .alloc size => Fits (addr2page size) h.machine ∨
    (h.dirs = [pagingKernelpd] ∧ addr2page size < 2 ^ 18) ∨
    (h.machine.curpd = pagingKernelpd ∧ addr2page size ≤ 1 ∧
      ∀ d ∈ h.dirs, d ≠ pagingKernelpd → d ∈ h.procAll)
  | .create => ∀ i, 64 ≤ i → i < 256 → (h.machine.frames h.machine.curpd i).present = false
  | _ => True

/-- The tables behind the kernel's entries are used for nothing else. -/
structure Half (dirs : List Nat) (s : Machine) : Prop extends Windowed dirs s where
  kernelTables : ∀ d ∈ dirs, ∀ i < 256, (s.frames d i).present = true →
    Spare dirs s (s.frames d i).page

variable {dirs : List Nat} {s s' : Machine} {d k addr virt : Nat} {e pde : Entry}

section Writes

theorem kernel_slots : addr2pde kerneldataEnd = 256 := by decide

section
variable (held : Half dirs s)
include held

theorem Half.load (inDirs : d ∈ dirs) : Half dirs { s with curpd := d } where
  toWindowed := { held.toWindowed with loaded := inDirs }
  kernelTables c member i low present := (held.kernelTables c member i low present).of_slots rfl
    fun _ _ => rfl

theorem alloc_half (ran : memphysAlloc s = some (addr, s')) :
    Half dirs s' ∧ Spare dirs s' (addr2page addr) ∧ s'.frames = s.frames ∧ s'.curpd = s.curpd := by
  obtain ⟨windowed, spare, ⟨mem, rfl⟩, -, others⟩ := alloc_windowed held.toWindowed ran
  exact ⟨⟨windowed, fun c member i low present =>
    (others _ (held.kernelTables c member i low present)).2⟩, spare, rfl, rfl⟩

/-- A word of a page that is no directory and no window's table. -/
theorem write_half (spare : Spare dirs s t) (k : Nat) (e : Entry) :
    Half dirs (s.write t k e) ∧ ∀ d ∈ dirs, (s.write t k e).frames d = s.frames d := by
  have same : ∀ d ∈ dirs, (s.write t k e).frames d = s.frames d := fun _ => write_dir spare.notDir
  refine ⟨⟨held.toWindowed.of_same_windows (fun d inDirs => ?_) ⟨rfl, rfl, rfl, rfl⟩, ?_⟩, same⟩
  · rw [same d inDirs]
    exact ⟨rfl, rfl, fun present =>
      congrFun (write_other_frame s e (spare.notTable d inDirs present)) 1023⟩
  · intro d inDirs i low
    rw [same d inDirs]
    intro present
    refine (held.kernelTables d inDirs i low present).of_slots rfl fun c member => ?_
    rw [same c member]

/-- A kernel's entry of a directory. -/
theorem set_half (inDirs : d ∈ dirs) (low : k < 256)
    (table : e.present = true → Spare dirs s e.page) :
    Half dirs (s.write d k e) ∧
      ∀ c ∈ dirs, ∀ i, (c, i) ≠ (d, k) → (s.write d k e).frames c i = s.frames c i := by
  have other : ∀ c ∈ dirs, ∀ i, (c, i) ≠ (d, k) → (s.write d k e).frames c i = s.frames c i :=
    fun _ _ _ slot => write_other s e slot
  have high : ∀ c ∈ dirs, ∀ i, 256 ≤ i → (s.write d k e).frames c i = s.frames c i := by
    intro c member i high
    apply other c member i
    intro same
    have := (Prod.mk.inj same).2
    omega
  have spared : ∀ page, Spare dirs s page → Spare dirs (s.write d k e) page := fun page spare =>
    spare.of_slots rfl fun c member => high c member 1022 (by omega)
  refine ⟨⟨held.toWindowed.of_same_windows (fun c member => ?_) ⟨rfl, rfl, rfl, rfl⟩, ?_⟩, other⟩
  · refine ⟨high c member 1022 (by omega), high c member 1023 (by omega), fun present => ?_⟩
    refine congrFun (write_other_frame s e ?_) 1023
    intro same
    exact (held.tables c member present).1 (same ▸ inDirs)
  · intro c member i low' present
    apply spared
    by_cases changed : (c, i) = (d, k)
    · obtain ⟨rfl, rfl⟩ := Prod.mk.inj changed
      rw [write_same] at present ⊢
      exact table present
    · rw [other c member i changed] at present ⊢
      exact held.kernelTables c member i low' present

/-- A new table for the kernel. -/
theorem link_half (low : k < 256) (spare : Spare dirs s (addr2page addr)) :
    Half dirs (s.link s.curpd k addr) ∧
      (s.link s.curpd k addr).frames s.curpd k = tableEntry addr ∧
      ∀ c ∈ dirs, ∀ i, (c, i) ≠ (s.curpd, k) → (s.link s.curpd k addr).frames c i = s.frames c i := by
  obtain ⟨set, other⟩ := set_half held held.loaded low (e := tableEntry addr) fun _ => spare
  have spare' : Spare dirs (s.write s.curpd k (tableEntry addr)) (addr2page addr) := by
    refine spare.of_slots rfl fun c member => ?_
    apply other c member
    intro same
    have := (Prod.mk.inj same).2
    omega
  have notDir : ∀ c ∈ dirs, c ≠ addr2page addr := by
    rintro c member rfl
    exact spare.notDir member
  have same : ∀ c ∈ dirs, (s.link s.curpd k addr).frames c =
      (s.write s.curpd k (tableEntry addr)).frames c := fun c member => fill_other _ _ (notDir c member)
  refine ⟨⟨fill_spare set.toWindowed spare' _, fun c member i low' present => ?_⟩,
    link_new s (notDir _ held.loaded), fun c member i slot => ?_⟩
  · rw [same c member] at present ⊢
    refine (set.kernelTables c member i low' present).of_slots rfl fun c' member' => ?_
    rw [same c' member']
  · rw [same c member]
    exact other c member i slot

end

end Writes

section Rounds

/-- What `paging_map` does for the kernel: it adds the table if there is none. -/
theorem map_half (held : Half dirs s) (low : addr2pde virt < 256)
    (ran : pagingMap s virt phys user writable = some (ok, s')) :
    Half dirs s' ∧ s'.curpd = s.curpd ∧ (s'.frames s.curpd (addr2pde virt)).present = true ∧
      ((s.frames s.curpd (addr2pde virt)).present = true →
        s'.frames s.curpd (addr2pde virt) = s.frames s.curpd (addr2pde virt)) ∧
      ∀ c ∈ dirs, ∀ i, (c, i) ≠ (s.curpd, addr2pde virt) → s'.frames c i = s.frames c i := by
  have inside : virt < 2 ^ 32 := by
    rw [addr2pde, addr2page] at low
    omega
  rw [pagingMap, getpde_eq held.linked inside, Option.bind_some,
    add_table_eq held.linked inside (by omega)] at ran
  obtain ⟨m, ready, set⟩ := Option.bind_eq_some_iff.mp ran
  have table : Half dirs m ∧ m.curpd = s.curpd ∧ (m.frames s.curpd (addr2pde virt)).present = true ∧
      ((s.frames s.curpd (addr2pde virt)).present = true →
        m.frames s.curpd (addr2pde virt) = s.frames s.curpd (addr2pde virt)) ∧
      ∀ c ∈ dirs, ∀ i, (c, i) ≠ (s.curpd, addr2pde virt) → m.frames c i = s.frames c i := by
    split at ready
    case isTrue present =>
      cases ready
      exact ⟨held, rfl, present, fun _ => rfl, fun _ _ _ _ => rfl⟩
    case isFalse absent =>
      obtain ⟨⟨addr, t⟩, taken, rfl⟩ := Option.map_eq_some_iff.mp ready
      obtain ⟨half, spare, frames, curpd⟩ := alloc_half held taken
      rw [← curpd]
      obtain ⟨linked, new, other⟩ := link_half half low spare
      refine ⟨linked, rfl, ?_, fun present => ?_, fun c member i slot => ?_⟩
      · rw [new]
        rfl
      · rw [curpd] at present
        exact absurd present absent
      · rw [other c member i slot, frames]
  obtain ⟨half, curpd, present, kept, other⟩ := table
  rw [setpte_eq half.linked inside, curpd, if_pos present] at set
  cases set
  have spare := half.kernelTables s.curpd held.loaded _ low present
  obtain ⟨written, same⟩ := write_half half spare (addr2pte virt) (mapEntry phys user writable)
  rw [mapEntry] at written same
  refine ⟨written, curpd, ?_, fun was => ?_, fun c member i slot => ?_⟩
  · rw [same _ held.loaded]
    exact present
  · rw [same _ held.loaded]
    exact kept was
  · rw [same c member]
    exact other c member i slot

/-- The entry of the slot is the same in all listed directories. -/
theorem sync_half (held : Half dirs s) (listed : ∀ d ∈ procs, d ∈ dirs) (low : addr2pde addr < 256)
    (table : pde.present = true → Spare dirs s pde.page) (ran : syncDirs addr pde procs s = some s') :
    Half dirs s' ∧ ∀ c ∈ dirs, ∀ i,
      s'.frames c i = if c ∈ procs ∧ i = addr2pde addr then pde else s.frames c i := by
  have inside : addr < 2 ^ 32 := by
    rw [addr2pde, addr2page] at low
    omega
  induction procs generalizing s with
  | nil =>
    cases ran
    exact ⟨held, fun c _ i => by simp⟩
  | cons d procs ih =>
    rw [syncDirs] at ran
    have inDirs := listed d List.mem_cons_self
    have loaded := held.load inDirs
    rw [setpde_eq loaded.linked inside, Option.bind_some] at ran
    have table' : pde.present = true → Spare dirs { s with curpd := d } pde.page := fun present =>
      (table present).of_slots rfl fun _ _ => rfl
    obtain ⟨set, other⟩ := set_half loaded inDirs low table'
    have later : pde.present = true →
        Spare dirs ({ s with curpd := d }.write d (addr2pde addr) pde) pde.page := by
      intro present
      refine (table' present).of_slots rfl fun c member => ?_
      apply other c member
      intro same
      have := (Prod.mk.inj same).2
      omega
    obtain ⟨half, rest⟩ := ih set (fun c member => listed c (List.mem_cons_of_mem _ member)) later ran
    refine ⟨half, fun c member i => ?_⟩
    rw [rest c member i]
    by_cases changed : (c, i) = (d, addr2pde addr)
    · obtain ⟨rfl, rfl⟩ := Prod.mk.inj changed
      rw [write_same]
      simp
    · rw [other c member i changed]
      by_cases slot : i = addr2pde addr
      · have apart : c ≠ d := by
          rintro rfl
          exact changed (by rw [slot])
        simp [slot, apart]
      · simp [slot]

/-- One round: `m` is the state after the page has been mapped. -/
structure Round (dirs procs : List Nat) (k k' : Nat) (s m s' : Machine) : Prop where
  half : Half dirs s'
  curpd : m.curpd = s.curpd
  present : (m.frames s.curpd k).present = true
  kept : (s.frames s.curpd k).present = true → m.frames s.curpd k = s.frames s.curpd k
  other : ∀ c ∈ dirs, ∀ i, (c, i) ≠ (s.curpd, k) → m.frames c i = s.frames c i
  synced : ∀ c ∈ dirs, ∀ i,
    s'.frames c i = if c ∈ procs ∧ i = k' then m.frames s.curpd k' else m.frames c i

theorem alloc_round (held : Half dirs s) (listed : ∀ d ∈ procs, d ∈ dirs)
    (running : ∀ d, current = some d → d ∈ procs) (low : addr2pde ((virt + i * 4096) % 2 ^ 32) < 256)
    (low' : addr2pde ((virt + i) % 2 ^ 32) < 256)
    (ran : allocRound procs current virt i s = some s') :
    (∃ m, Round dirs procs (addr2pde ((virt + i * 4096) % 2 ^ 32)) (addr2pde ((virt + i) % 2 ^ 32))
      s m s') ∧ (procs = [] → s'.curpd = s.curpd) := by
  obtain ⟨⟨page, t⟩, taken, ran⟩ := Option.bind_eq_some_iff.mp ran
  obtain ⟨⟨ok, m⟩, mapped, ran⟩ := Option.bind_eq_some_iff.mp ran
  obtain ⟨half, -, frames, curpd⟩ := alloc_half held taken
  obtain ⟨half, curpd', present, kept, other⟩ := map_half half low mapped
  rw [curpd] at curpd' present kept other
  rw [frames] at kept other
  have inside : (virt + i) % 2 ^ 32 < 2 ^ 32 := Nat.mod_lt _ (by omega)
  simp only [memuserSyncpds, getpde_eq half.linked inside, Option.bind_some] at ran
  obtain ⟨u, synced, rfl⟩ := Option.map_eq_some_iff.mp ran
  have table := half.kernelTables m.curpd half.loaded _ low'
  obtain ⟨half', all⟩ := sync_half half listed low' table synced
  rw [curpd'] at all
  constructor
  · cases current with
    | none => exact ⟨m, half', curpd', present, kept, other, all⟩
    | some d =>
      have inDirs := listed d (running d rfl)
      exact ⟨m, half'.load inDirs, curpd', present, kept, other, all⟩
  · rintro rfl
    cases current with
    | none =>
      cases synced
      exact curpd'
    | some d => exact absurd (running d rfl) List.not_mem_nil

end Rounds

section Search

/-- The area found for free pages in the tables that exist starts at a page and lies in
these tables. The search is at page `q`, the last `found` pages before it are free. -/
theorem findvirt_fits (linked : SelfLinked s) (below : slots < 256)
    (present : ∀ i, 1 ≤ i → i < slots → (s.frames s.curpd i).present = true)
    (fits : first + pages ≤ slots * 1024)
    (free : ∀ page, first ≤ page → page < first + pages →
      (s.frames (s.frames s.curpd (page / 1024)).page (page % 1024)).existing = false)
    (rounds q found : Nat) (start : 1792 + found ≤ q) (room : found ≤ pages)
    (before : q ≤ first + found) (enough : first + pages < q + rounds) :
    ∃ v, kernelFindvirtFrom pages rounds (q * 4096) found s = some (v * 4096) ∧ 1792 ≤ v ∧
      v + pages ≤ first + pages := by
  induction rounds generalizing q found with
  | zero => omega
  | succ rounds ih =>
    have inside : q * 4096 < kerneldataEnd := by
      rw [kerneldataEnd]
      omega
    have inside' : q * 4096 < 2 ^ 32 := by omega
    rw [kernelFindvirtFrom, if_pos inside]
    by_cases enough' : pages ≤ found
    · rw [if_pos enough']
      refine ⟨q - found, ?_, by omega, by omega⟩
      rw [Nat.sub_mul]
    · rw [if_neg enough']
      have slot := page_slot q
      have word := page_word q
      have table := present (q / 1024) (by omega) (by omega)
      have there : (if addr2pte (q * 4096) = 0 then
          (pagingGetpde s (q * 4096)).map (!·.present) else some false) = some false := by
        split
        · rw [getpde_eq linked inside', slot, Option.map_some, table]
          rfl
        · rfl
      rw [there, Option.bind_some, if_neg Bool.false_ne_true, getpte_eq linked inside', slot, word,
        if_pos table, Option.bind_some]
      have next : q * 4096 + 4096 = (q + 1) * 4096 := by omega
      rw [next]
      cases used : (s.frames (s.frames s.curpd (q / 1024)).page (q % 1024)).existing with
      | true =>
        have early : q < first := by
          by_contra late
          rw [free q (by omega) (by omega)] at used
          cases used
        exact ih (q + 1) 0 (by omega) (by omega) (by omega) (by omega)
      | false => exact ih (q + 1) (found + 1) (by omega) (by omega) (by omega) (by omega)

/-- Whatever is found lies below the end of the kernel's area. -/
theorem findvirt_bound (start : kerneldataAddress + found * 4096 ≤ virt)
    (ran : kernelFindvirtFrom pages rounds virt found s = some v) :
    v = 0 ∨ v + pages * 4096 ≤ kerneldataEnd := by
  induction rounds generalizing virt found with
  | zero =>
    cases ran
    exact .inl rfl
  | succ rounds ih =>
    rw [kernelFindvirtFrom] at ran
    split at ran
    · split at ran
      case isTrue inside enough =>
        cases ran
        right
        have : pages * 4096 ≤ found * 4096 := Nat.mul_le_mul_right _ enough
        omega
      case isFalse inside _ =>
        obtain ⟨missing, -, ran⟩ := Option.bind_eq_some_iff.mp ran
        split at ran
        · have later : kerneldataAddress + (found + 1024) * 4096 ≤ virt + 1024 * 4095 + 4096 := by
            linarith
          exact ih later ran
        · obtain ⟨pte, -, ran⟩ := Option.bind_eq_some_iff.mp ran
          have later : kerneldataAddress + (if pte.existing then 0 else found + 1) * 4096 ≤ virt + 4096 := by
            split <;> linarith
          exact ih later ran
    · cases ran
      exact .inl rfl

end Search

section Growth

theorem slot_of (inside : a < 2 ^ 32) : addr2pde (a % 2 ^ 32) = a / 4096 / 1024 := by
  rw [Nat.mod_eq_of_lt inside, addr2pde, addr2page]

/-- Growing within tables that exist changes no entry of the kernel. -/
theorem grow_within (held : Half dirs s) (shared : KernelShared dirs s)
    (listed : ∀ d ∈ procs, d ∈ dirs) (running : ∀ d, current = some d → d ∈ procs)
    (below : slots < 256)
    (present : ∀ i, 1 ≤ i → i < slots → (s.frames s.curpd i).present = true)
    (low : 1792 ≤ v) (high : v + i + left ≤ slots * 1024)
    (ran : allocRounds procs current (v * 4096) left i s = some s') :
    Half dirs s' ∧ ∀ c ∈ dirs, ∀ j < 256, s'.frames c j = s.frames c j := by
  induction left generalizing i s with
  | zero =>
    cases ran
    exact ⟨held, fun _ _ _ _ => rfl⟩
  | succ left ih =>
    obtain ⟨t, first, rest⟩ := Option.bind_eq_some_iff.mp ran
    have slot := slot_of (show v * 4096 + i * 4096 < 2 ^ 32 by omega)
    have slot' := slot_of (show v * 4096 + i < 2 ^ 32 by omega)
    obtain ⟨⟨m, half, curpd, -, kept, other, synced⟩, -⟩ :=
      alloc_round held listed running (by rw [slot]; omega) (by rw [slot']; omega) first
    rw [slot] at kept other
    rw [slot'] at synced
    have mapped : ∀ c ∈ dirs, ∀ j, m.frames c j = s.frames c j := by
      intro c member j
      by_cases own : (c, j) = (s.curpd, (v * 4096 + i * 4096) / 4096 / 1024)
      · obtain ⟨rfl, rfl⟩ := Prod.mk.inj own
        exact kept (present _ (by omega) (by omega))
      · exact other c member j own
    have same : ∀ c ∈ dirs, ∀ j < 256, t.frames c j = s.frames c j := by
      intro c member j small
      rw [synced c member j]
      split
      case isTrue entered =>
        rw [mapped _ held.loaded, entered.2]
        refine (shared _ held.loaded c member _ ?_ ?_).symm
        · rw [kernel_slots]
          omega
        · exact present _ (by omega) (by omega)
      case isFalse => exact mapped c member j
    have shared' : KernelShared dirs t := by
      intro d inDirs d' inDirs' j small
      have small' : j < 256 := small
      rw [same d inDirs j small', same d' inDirs' j small']
      exact shared d inDirs d' inDirs' j small
    have present' : ∀ j, 1 ≤ j → j < slots → (t.frames t.curpd j).present = true := by
      intro j positive inside
      have there := present j positive inside
      rw [same _ half.loaded j (by omega), shared _ held.loaded _ half.loaded j
        (by rw [kernel_slots]; omega) there]
      exact there
    obtain ⟨half', all⟩ := ih half shared' present' (by omega) rest
    refine ⟨half', fun c member j small => ?_⟩
    rw [all c member j small, same c member j small]

/-- Growing anywhere while there are no processes. -/
theorem grow_alone (held : Half dirs s) (high : virt + (i + left) * 4096 ≤ kerneldataEnd)
    (ran : allocRounds [] none virt left i s = some s') : Half dirs s' := by
  induction left generalizing i s with
  | zero =>
    cases ran
    exact held
  | succ left ih =>
    obtain ⟨t, first, rest⟩ := Option.bind_eq_some_iff.mp ran
    have later : virt + (i + 1 + left) * 4096 ≤ kerneldataEnd := by
      rwa [Nat.add_right_comm, Nat.add_assoc i left 1]
    rw [kerneldataEnd] at high
    have slot := slot_of (show virt + i * 4096 < 2 ^ 32 by omega)
    have slot' := slot_of (show virt + i < 2 ^ 32 by omega)
    obtain ⟨⟨m, round⟩, -⟩ := alloc_round held (List.forall_mem_nil _)
      (fun _ none => by cases none) (by rw [slot]; omega) (by rw [slot']; omega) first
    exact ih round.half later rest

/-- Growing by one page while the kernel's directory is loaded: the new entry is entered
everywhere. -/
theorem grow_page (held : Half dirs s) (shared : KernelShared dirs s)
    (listed : ∀ d ∈ procs, d ∈ dirs) (running : ∀ d, current = some d → d ∈ procs)
    (others : ∀ d ∈ dirs, d ≠ s.curpd → d ∈ procs) (high : virt + 4096 ≤ kerneldataEnd)
    (ran : allocRound procs current virt 0 s = some s') : Half dirs s' ∧ KernelShared dirs s' := by
  rw [kerneldataEnd] at high
  have slot := slot_of (show virt + 0 * 4096 < 2 ^ 32 by omega)
  have slot' := slot_of (show virt + 0 < 2 ^ 32 by omega)
  obtain ⟨⟨m, half, curpd, -, kept, other, synced⟩, -⟩ :=
    alloc_round held listed running (by rw [slot]; omega) (by rw [slot']; omega) ran
  rw [slot] at kept other
  rw [slot'] at synced
  rw [Nat.zero_mul, Nat.add_zero] at kept other
  rw [Nat.add_zero] at synced
  refine ⟨half, fun d inDirs d' inDirs' j small present => ?_⟩
  have entered : ∀ c ∈ dirs, s'.frames c (virt / 4096 / 1024) = m.frames s.curpd (virt / 4096 / 1024) := by
    intro c member
    rw [synced c member]
    by_cases own : c = s.curpd
    · rw [own, ite_self]
    · rw [if_pos ⟨others c member own, rfl⟩]
  by_cases new : j = virt / 4096 / 1024
  · rw [new, entered d inDirs, entered d' inDirs']
  · have old : ∀ c ∈ dirs, s'.frames c j = s.frames c j := by
      intro c member
      rw [synced c member, if_neg fun both => new both.2]
      exact other c member j fun same => new (Prod.mk.inj same).2
    rw [old d inDirs] at present ⊢
    rw [old d' inDirs']
    exact shared d inDirs d' inDirs' j small present

end Growth

/-- The invariant of the runs. -/
structure Sound (h : Halves) : Prop extends Half h.dirs h.machine where
  shared : KernelShared h.dirs h.machine
  listed : ∀ d ∈ h.procAll, d ∈ h.dirs ∧ d ≠ pagingKernelpd
  running : ∀ d, h.current = some d → d ∈ h.procAll

theorem alloc_sound {h : Halves} (held : Sound h) (meets : Meets h (.alloc size))
    (ran : memkernelAlloc h.procAll h.current size h.machine = some (virt, s')) :
    Sound { h with machine := s' } := by
  obtain ⟨v, found, ran⟩ := Option.bind_eq_some_iff.mp ran
  obtain ⟨_, grown, same⟩ := Option.map_eq_some_iff.mp ran
  cases same
  have listed : ∀ d ∈ h.procAll, d ∈ h.dirs := fun d member => (held.listed d member).1
  have bound : virt = 0 ∨ virt + addr2page size * 4096 ≤ kerneldataEnd :=
    findvirt_bound (Nat.le_refl kerneldataAddress) found
  obtain ⟨slots, first, below, present, low, fits, free⟩ | ⟨alone, small⟩ | ⟨loaded, one, all⟩ := meets
  · have low' : 1792 ≤ first := low
    obtain ⟨v, at', inArea, inside⟩ := findvirt_fits held.linked below present fits free (2 ^ 18) 1792 0
      (by omega) (by omega) (by omega) (by omega)
    have place : virt = v * 4096 := by
      have both := found.symm.trans at'
      exact Option.some.inj both
    rw [place] at grown
    obtain ⟨half, same⟩ := grow_within held.toHalf held.shared listed held.running below present inArea
      (by omega) grown
    refine ⟨half, fun d inDirs d' inDirs' j inKernel => ?_, held.listed, held.running⟩
    have inKernel' : j < 256 := inKernel
    change (s'.frames d j).present = true → s'.frames d' j = s'.frames d j
    rw [same d inDirs j inKernel', same d' inDirs' j inKernel']
    exact held.shared d inDirs d' inDirs' j inKernel
  · have nobody : h.procAll = [] := by
      rw [List.eq_nil_iff_forall_not_mem]
      intro d member
      obtain ⟨inDirs, other⟩ := held.listed d member
      rw [alone] at inDirs
      exact other (List.mem_singleton.mp inDirs)
    have idle : h.current = none := by
      rw [Option.eq_none_iff_forall_ne_some]
      intro d runs
      have member := held.running d runs
      rw [nobody] at member
      exact List.not_mem_nil member
    rw [nobody, idle] at grown
    have high : virt + (0 + addr2page size) * 4096 ≤ kerneldataEnd := by
      rw [kerneldataEnd] at bound ⊢
      omega
    refine ⟨grow_alone held.toHalf high grown, fun d inDirs d' inDirs' j _ _ => ?_, held.listed,
      held.running⟩
    change d ∈ h.dirs at inDirs
    change d' ∈ h.dirs at inDirs'
    rw [alone] at inDirs inDirs'
    rw [List.mem_singleton.mp inDirs, List.mem_singleton.mp inDirs']
  · by_cases some' : addr2page size = 1
    · rw [some'] at grown bound
      obtain ⟨t, round, rest⟩ := Option.bind_eq_some_iff.mp grown
      cases rest
      have high : virt + 4096 ≤ kerneldataEnd := by
        rw [kerneldataEnd] at bound ⊢
        omega
      have others : ∀ d ∈ h.dirs, d ≠ h.machine.curpd → d ∈ h.procAll := by
        rw [loaded]
        exact all
      obtain ⟨half, shared⟩ :=
        grow_page held.toHalf held.shared listed held.running others high round
      exact ⟨half, shared, held.listed, held.running⟩
    · have nothing : addr2page size = 0 := by omega
      rw [nothing] at grown
      cases grown
      exact held

theorem create_sound {h : Halves} (held : Sound h) (meets : Meets h .create)
    (ran : memuserCreatePagedir h.machine = some (d, s')) :
    Sound { h with machine := s', dirs := d :: h.dirs } := by
  obtain ⟨-, mem, filled, others⟩ := create_filled held.toWindowed ran
  have old : ∀ c ∈ h.dirs, ∀ j < 256, s'.frames c j = h.machine.frames c j := fun c member j low =>
    filled.dirs c member j (by omega)
  have new : ∀ j < 256, s'.frames d j =
      if j < 64 then h.machine.frames h.machine.curpd j else blank := by
    intro j low
    rw [filled.filled, newDirectory]
    split
    · rfl
    · rw [if_neg (by omega)]
  -- every entry of the new directory is one of the loaded directory
  have copied : ∀ j < 256, (s'.frames d j).present = true →
      s'.frames d j = h.machine.frames h.machine.curpd j := by
    intro j low present
    rw [new j low] at present ⊢
    split at present
    case isTrue few => rw [if_pos few]
    case isFalse => cases present
  have joined : ∀ page, Spare h.dirs h.machine page → Spare (d :: h.dirs) s' page := by
    intro page spare
    obtain ⟨other, spare⟩ := others page spare
    obtain ⟨real, outside, away, notTable⟩ := filled.others page spare
    refine ⟨real, outside, fun member => ?_, fun c member present => ?_⟩
    · rcases List.mem_cons.mp member with same | member
      · exact other same
      · exact away member
    · rcases List.mem_cons.mp member with rfl | member
      · rw [filled.filled] at present
        cases present
      · exact notTable c member present
  have tables := held.kernelTables
  refine ⟨⟨filled.joins, fun c member i low present => ?_⟩, ?_, fun c member => ?_, held.running⟩
  · apply joined
    rcases List.mem_cons.mp member with rfl | member
    · change (s'.frames c i).present = true at present
      have entry := copied i low present
      rw [entry] at present
      change Spare h.dirs h.machine (s'.frames c i).page
      rw [entry]
      exact tables _ held.loaded i low present
    · change (s'.frames c i).present = true at present
      change Spare h.dirs h.machine (s'.frames c i).page
      rw [old c member i low] at present ⊢
      exact tables c member i low present
  · intro c member c' member' j inKernel present
    have low : j < 256 := inKernel
    change (s'.frames c j).present = true at present
    change s'.frames c' j = s'.frames c j
    -- compare with the loaded directory
    have loaded : s'.frames c j = h.machine.frames h.machine.curpd j := by
      rcases List.mem_cons.mp member with rfl | member
      · exact copied j low present
      · rw [old c member j low] at present ⊢
        exact (held.shared c member _ held.loaded j inKernel present).symm
    rw [loaded] at present ⊢
    rcases List.mem_cons.mp member' with rfl | member'
    · rw [new j low]
      split
      · rfl
      case isFalse many =>
        rw [meets j (by omega) low] at present
        cases present
    · rw [old c' member' j low]
      exact held.shared _ held.loaded c' member' j inKernel present
  · exact ⟨List.mem_cons_of_mem _ (held.listed c member).1, (held.listed c member).2⟩

theorem step_sound (h : Halves) (e : Event) (h' : Halves) (held : Sound h) (meets : Meets h e)
    (ran : step h e = some h') : Sound h' := by
  cases e with
  | alloc size =>
    obtain ⟨⟨virt, s'⟩, grown, rfl⟩ := Option.map_eq_some_iff.mp ran
    exact alloc_sound held meets grown
  | create =>
    obtain ⟨⟨pagedir, s'⟩, created, rfl⟩ := Option.map_eq_some_iff.mp ran
    exact create_sound held meets created
  | enlist pagedir =>
    obtain ⟨⟨inDirs, other, -⟩, rfl⟩ := onlyIf_eq_some ran
    refine ⟨held.toHalf, held.shared, fun d member => ?_, fun d runs => ?_⟩
    · rcases List.mem_cons.mp member with rfl | member
      · exact ⟨inDirs, other⟩
      · exact held.listed d member
    · exact List.mem_cons_of_mem _ (held.running d runs)
  | switch pagedir =>
    obtain ⟨member, rfl⟩ := onlyIf_eq_some ran
    refine ⟨held.toHalf.load (held.listed pagedir member).1, held.shared, held.listed, ?_⟩
    rintro d ⟨⟩
    exact member

end MeinOS.Memkernel
