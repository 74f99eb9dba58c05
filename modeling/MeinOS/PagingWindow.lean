import MeinOS.Lib.Runs
import MeinOS.Memuser

/-! The window at `BUFPAGE_ADDRESS`, through which the kernel reaches physical pages, as a
cache of one entry: which page it shows, and in which page directory. `paging_physread`
and `paging_cleanpage` trust the pair, `paging_physwrite` maps the window every time.

The mapping itself lies in the directory that was loaded, and directories are destroyed
and created again in the same physical page. A destroyed directory can be left in the
pair, but it can be loaded again only after `memuser_create_pagedir` has used the window
in another one, and then it is no longer there.

Here the window shows what its entry says. `MeinOS.Tlb` adds the translation of the window page that
the processor may have kept. -/
namespace MeinOS.PagingWindow
open Lib.Runs Memphys Paging Memuser

/-- The words of a page. -/
abbrev Words := Nat → Entry

/-- The `memcpy` or `memset` of the window functions: what it finds in the page that the
window shows, and the state after `change` has been made to that page. -/
def throughWindow (change : Words → Words) (s : Machine) : Option (Words × Machine) :=
  (s.translate bufpageAddress).map fun frame =>
    (s.frames frame, s.fill frame (change (s.frames frame)))

/-- `paging_physread` of any bytes of one page. -/
def windowRead (s : Machine) (addr : Nat) : Option (Words × Machine) :=
  (showWindow s addr).bind (throughWindow id)

/-- `paging_physwrite` of any bytes of one page; `change` says what becomes of its words. -/
def windowWrite (s : Machine) (addr : Nat) (change : Words → Words) : Option (Words × Machine) :=
  (mapWindow s addr).bind (throughWindow change)

/-- `paging_cleanpage`. -/
def windowClean (s : Machine) (addr : Nat) : Option (Words × Machine) :=
  (showWindow s addr).bind (throughWindow fun _ _ => blank)

/-- The machine with the page directories in use. -/
structure Windows where
  machine : Machine
  dirs : List Nat

/-- The calls. Every access stays within the page of its address. -/
inductive Event where
  | read (addr : Nat)
  | write (addr : Nat) (change : Words → Words)
  | clean (addr : Nat)
  | load (pagedir : Nat)
  | create
  | destroy (pagedir : Nat)

/-- One call. Directories are loaded and destroyed while they exist, and
`paging_kernelpd` always exists. -/
def step (w : Windows) : Event → Option Windows
  | .read addr => (windowRead w.machine addr).map fun (_, s) => { w with machine := s }
  | .write addr change =>
    (windowWrite w.machine addr change).map fun (_, s) => { w with machine := s }
  | .clean addr => (windowClean w.machine addr).map fun (_, s) => { w with machine := s }
  | .load pagedir =>
    onlyIf (pagedir ∈ w.dirs) { w with machine := { w.machine with curpd := pagedir } }
  | .create => (memuserCreatePagedir w.machine).map fun (pagedir, s) => ⟨s, pagedir :: w.dirs⟩
  | .destroy pagedir =>
    if pagedir ∈ w.dirs ∧ pagedir ≠ pagingKernelpd then
      (memuserDestroyPagedir w.machine pagedir).map fun s => ⟨s, w.dirs.erase pagedir⟩
    else none

/-- After `paging_init`: only `paging_kernelpd` exists, its window was never used, and the
page stack holds other pages. -/
structure Booted (s : Machine) : Prop extends Stocked s.mem where
  loaded : s.curpd = pagingKernelpd
  unused : s.lastpd = 0
  linked : SelfLinked s
  absent : (s.frames s.curpd 1022).present = false
  outside : Outside s.mem s.curpd

/-- The three words that make up the window of each directory are the same. -/
def SameWindows (dirs : List Nat) (s s' : Machine) : Prop :=
  ∀ d ∈ dirs, s'.frames d 1022 = s.frames d 1022 ∧ s'.frames d 1023 = s.frames d 1023 ∧
    ((s.frames d 1022).present = true →
      s'.frames (s.frames d 1022).page 1023 = s.frames (s.frames d 1022).page 1023)

/-- Nothing but the window functions changes a window: not the words that are written, and
not what `memphys_free` maps when it makes a page part of the page stack. -/
def Undisturbed (w : Windows) : Event → Prop
  | .write addr change => ∀ m, mapWindow w.machine addr = some m →
    SameWindows w.dirs m (m.fill (addr2page addr) (change (m.frames (addr2page addr))))
  | .clean addr => ∀ m, showWindow w.machine addr = some m →
    SameWindows w.dirs m (m.fill (addr2page addr) fun _ => blank)
  | .destroy pagedir => ∀ s', memuserDestroyPagedir w.machine pagedir = some s' →
    SameWindows (w.dirs.erase pagedir) w.machine s'
  | _ => True

/-- Outside the pages in `touched` only the window of the loaded directory may have
changed: its entry in the table, and the table with its slot if there was none. -/
structure Quiet (touched : Nat → Prop) (s s' : Machine) : Prop where
  curpd : s'.curpd = s.curpd
  present : (s'.frames s.curpd 1022).present = true
  kept : (s.frames s.curpd 1022).present = true → s'.frames s.curpd 1022 = s.frames s.curpd 1022
  words : ∀ f w, ¬ touched f → s'.frames f w = s.frames f w ∨
    (f = s.curpd ∧ w = 1022 ∧ (s.frames s.curpd 1022).present = false) ∨
    (f = (s'.frames s.curpd 1022).page ∧ (w = 1023 ∨ (s.frames s.curpd 1022).present = false))

/-- An access gets to the page it addresses. It is made if the window has a table or a page
is left for one; it finds the words of that page and changes them only. -/
structure Exact (s : Machine) (addr : Nat) (change : Words → Words)
    (result : Option (Words × Machine)) : Prop where
  made : (s.frames s.curpd 1022).present = true ∨ 0 < s.mem.stackptr → result.isSome
  exact : ∀ words s', result = some (words, s') → ∃ m, Quiet (fun _ => False) s m ∧
    words = m.frames (addr2page addr) ∧
    s'.frames = Function.update m.frames (addr2page addr) (change words)

/-- The entries of a new directory. -/
def newDirectory (kernel : Words) (pagedir : Nat) : Words := fun i =>
  if i < 64 then kernel i else if i = 1023 then selfEntry pagedir else blank

theorem new_directory_eq (kernel : Words) (pagedir : Nat) : newDirectory kernel pagedir =
    Function.update (fun i => if i < 64 then kernel i else blank) 1023 (selfEntry pagedir) := by
  funext i
  rw [newDirectory]
  by_cases last : i = 1023
  · rw [last, Function.update_self]
    rfl
  · rw [Function.update_of_ne last, if_neg last]

/-- What is promised of each call. Inside `memuser_create_pagedir` the accesses are to the
new directory. -/
def Promised (w : Windows) : Event → Prop
  | .read addr => Exact w.machine addr id (windowRead w.machine addr)
  | .write addr change => Exact w.machine addr change (windowWrite w.machine addr change)
  | .clean addr => Exact w.machine addr (fun _ _ => blank) (windowClean w.machine addr)
  | .create =>
    (2 ≤ w.machine.mem.stackptr → (memuserCreatePagedir w.machine).isSome) ∧
    ∀ pagedir s', memuserCreatePagedir w.machine = some (pagedir, s') →
      pagedir ∉ w.dirs ∧ Quiet (· = pagedir) w.machine s' ∧
      s'.frames pagedir = newDirectory (w.machine.frames w.machine.curpd) pagedir
  | _ => True

/-- The invariant. -/
structure Windowed (dirs : List Nat) (s : Machine) : Prop extends Stocked s.mem where
  loaded : s.curpd ∈ dirs
  kernel : pagingKernelpd ∈ dirs
  distinct : dirs.Nodup
  self : ∀ d ∈ dirs, (s.frames d 1023).present = true ∧ (s.frames d 1023).page = d
  used : ∀ d ∈ dirs, d ≠ 0 ∧ Outside s.mem d
  tables : ∀ d ∈ dirs, (s.frames d 1022).present = true →
    (s.frames d 1022).page ∉ dirs ∧ Outside s.mem (s.frames d 1022).page
  own : ∀ d ∈ dirs, ∀ d' ∈ dirs, d' ≠ d → (s.frames d 1022).present = true →
    (s.frames d' 1022).present = true → (s.frames d' 1022).page ≠ (s.frames d 1022).page
  /-- A pair that names a directory in use says what its window shows. -/
  shown : s.lastpd ∈ dirs → Maps s s.lastpd 1022 1023 s.lastpage

/-- A page that is used for nothing. -/
structure Spare (dirs : List Nat) (s : Machine) (page : Nat) : Prop where
  real : page ≠ 0
  outside : Outside s.mem page
  notDir : page ∉ dirs
  notTable : ∀ d ∈ dirs, (s.frames d 1022).present = true → (s.frames d 1022).page ≠ page

variable {dirs : List Nat} {s s' m : Machine} {page addr : Nat}

section Functions

/-- The word-wise functions are cases of the general ones. -/
theorem physwrite_eq_window (s : Machine) (addr : Nat) (e : Entry) : pagingPhyswrite s addr e =
    (windowWrite s addr fun words => Function.update words (addr % 4096 / 4) e).map (·.2) := by
  have inside : addr % 4096 < 4096 := Nat.mod_lt _ (by omega)
  have word : (bufpageAddress + addr % 4096) % 4096 / 4 = addr % 4096 / 4 := by
    rw [bufpageAddress]
    omega
  rw [pagingPhyswrite, windowWrite]
  cases mapWindow s addr with
  | none => rfl
  | some m =>
    have same : m.translate (bufpageAddress + addr % 4096) = m.translate bufpageAddress := by
      simp only [Machine.translate, addr2pde_window inside, addr2pte_window inside,
        addr2pde_bufpage, addr2pte_bufpage]
    simp only [Option.bind_some, Machine.store, throughWindow, same, word]
    cases m.translate bufpageAddress with
    | none | some => rfl

theorem cleanpage_eq_window (s : Machine) (page : Nat) : pagingCleanpage s page =
    (windowClean s page).map fun (_, s) => (page, s) := by
  rw [pagingCleanpage, windowClean]
  cases showWindow s page with
  | none => rfl
  | some m =>
    simp only [Option.bind_some, Machine.storePage, throughWindow]
    cases m.translate bufpageAddress with
    | none | some => rfl

end Functions

/-- A page stays unused when no window gets another table. -/
theorem Spare.of_slots (spare : Spare dirs s page) (mem : s'.mem = s.mem)
    (slots : ∀ d ∈ dirs, s'.frames d 1022 = s.frames d 1022) : Spare dirs s' page := by
  refine ⟨spare.real, ?_, spare.notDir, fun d inDirs => ?_⟩
  · rw [mem]
    exact spare.outside
  · rw [slots d inDirs]
    exact spare.notTable d inDirs

section Mapping

theorem Windowed.linked (held : Windowed dirs s) : SelfLinked s := held.self s.curpd held.loaded

/-- A page from the stack is used for nothing, and is none of those known to be unused. -/
theorem alloc_windowed (held : Windowed dirs s) (ran : memphysAlloc s = some (addr, s')) :
    Windowed dirs s' ∧ Spare dirs s' (addr2page addr) ∧ (∃ mem, s' = { s with mem := mem }) ∧
      freePages s.mem = freePages s'.mem ++ [addr] ∧
      ∀ other, Spare dirs s other → other ≠ addr2page addr ∧ Spare dirs s' other := by
  obtain ⟨⟨mem, rfl⟩, stocked, pages, whole, real, outside⟩ := alloc_stocked held.toStocked ran
  have fewer := rest_free pages
  have onStack : addr2page addr * 4096 ∈ freePages s.mem := by
    rw [whole]
    exact taken_free pages
  refine ⟨?_, ⟨real, outside, ?_, ?_⟩, ⟨mem, rfl⟩, pages, ?_⟩
  · exact { held with
      toStocked := stocked
      used := fun d inDirs => ⟨(held.used d inDirs).1, (held.used d inDirs).2.of_fewer fewer⟩
      tables := fun d inDirs present =>
        ⟨(held.tables d inDirs present).1, (held.tables d inDirs present).2.of_fewer fewer⟩ }
  · exact fun inDirs => (held.used _ inDirs).2.2 onStack
  · intro d inDirs present same
    apply (held.tables d inDirs present).2.2
    rw [same]
    exact onStack
  · intro other spare
    refine ⟨?_, spare.real, spare.outside.of_fewer fewer, spare.notDir, spare.notTable⟩
    rintro rfl
    exact spare.outside.2 onStack

/-- The state in which the loaded directory has a table for the window. -/
def withTable (s : Machine) : Option Machine :=
  if (s.frames s.curpd 1022).present then some s
  else (memphysAlloc s).map fun (addr, m) => m.link s.curpd 1022 addr

/-- The window is mapped to a page and the pair remembers it. -/
def pointWindow (s : Machine) (page : Nat) : Machine :=
  { s.write (s.frames s.curpd 1022).page 1023 (mapEntry (page * 4096) false true) with
    lastpage := page
    lastpd := s.curpd }

/-- The invariant looks at two slots of each directory, besides what the pair says. -/
theorem Windowed.of_slots (held : Windowed dirs s) (mem : s'.mem = s.mem) (curpd : s'.curpd = s.curpd)
    (slots : ∀ d ∈ dirs, s'.frames d 1022 = s.frames d 1022 ∧ s'.frames d 1023 = s.frames d 1023)
    (shown : s'.lastpd ∈ dirs → Maps s' s'.lastpd 1022 1023 s'.lastpage) : Windowed dirs s' where
  toStocked := by
    rw [mem]
    exact held.toStocked
  loaded := by
    rw [curpd]
    exact held.loaded
  kernel := held.kernel
  distinct := held.distinct
  self := by
    intro d inDirs
    rw [(slots d inDirs).2]
    exact held.self d inDirs
  used := by
    rw [mem]
    exact held.used
  tables := by
    intro d inDirs
    rw [(slots d inDirs).1, mem]
    exact held.tables d inDirs
  own := by
    intro d inDirs d' inDirs'
    rw [(slots d inDirs).1, (slots d' inDirs').1]
    exact held.own d inDirs d' inDirs'
  shown := shown

/-- Entering a spare page as the window's table. -/
theorem link_window (held : Windowed dirs s) (spare : Spare dirs s (addr2page addr))
    (absent : (s.frames s.curpd 1022).present = false) :
    Windowed dirs (s.link s.curpd 1022 addr) ∧ Quiet (fun _ => False) s (s.link s.curpd 1022 addr) := by
  have notDir : ∀ d ∈ dirs, d ≠ addr2page addr := by
    rintro d inDirs rfl
    exact spare.notDir inDirs
  have new : (s.link s.curpd 1022 addr).frames s.curpd 1022 = tableEntry addr :=
    link_new s (notDir _ held.loaded)
  have other : ∀ d ∈ dirs, ∀ i, (d, i) ≠ (s.curpd, 1022) →
      (s.link s.curpd 1022 addr).frames d i = s.frames d i := fun d inDirs i slot =>
    link_old_slot s (notDir d inDirs) slot
  have old : ∀ d ∈ dirs, d ≠ s.curpd →
      (s.link s.curpd 1022 addr).frames d 1022 = s.frames d 1022 := fun d inDirs away =>
    other d inDirs 1022 fun same => away (Prod.mk.inj same).1
  constructor
  · exact { held with
      self := by
        intro d inDirs
        rw [other d inDirs 1023 (by simp)]
        exact held.self d inDirs
      tables := by
        intro d inDirs present
        by_cases loaded : d = s.curpd
        · rw [loaded, new]
          exact ⟨spare.notDir, spare.outside⟩
        · rw [old d inDirs loaded] at present ⊢
          exact held.tables d inDirs present
      own := by
        intro d inDirs d' inDirs' away present present'
        by_cases loaded : d = s.curpd
        · rw [loaded] at away ⊢
          rw [old d' inDirs' away] at present' ⊢
          rw [new]
          exact spare.notTable d' inDirs' present'
        · rw [old d inDirs loaded] at present ⊢
          by_cases loaded' : d' = s.curpd
          · rw [loaded', new]
            exact (spare.notTable d inDirs present).symm
          · rw [old d' inDirs' loaded'] at present' ⊢
            exact held.own d inDirs d' inDirs' away present present'
      shown := by
        intro inDirs
        obtain ⟨table, entry, target⟩ := held.shown inDirs
        have away : s.lastpd ≠ s.curpd := by
          intro same
          rw [same, absent] at table
          cases table
        have notNew := spare.notTable s.lastpd inDirs table
        have notLoaded : (s.frames s.lastpd 1022).page ≠ s.curpd := by
          intro same
          exact (held.tables s.lastpd inDirs table).1 (same ▸ held.loaded)
        have slot := old s.lastpd inDirs away
        change Maps (s.link s.curpd 1022 addr) s.lastpd 1022 1023 s.lastpage
        rw [Maps, slot, link_old_frame s notNew notLoaded]
        exact ⟨table, entry, target⟩ }
  · refine ⟨rfl, ?_, fun present => ?_, ?_⟩
    · rw [new]
      rfl
    · rw [absent] at present
      cases present
    intro f w _
    rw [new]
    by_cases table : f = addr2page addr
    · exact .inr (.inr ⟨table, .inr absent⟩)
    · by_cases slot : (f, w) = (s.curpd, 1022)
      · exact .inr (.inl ⟨(Prod.mk.inj slot).1, (Prod.mk.inj slot).2, absent⟩)
      · exact .inl (link_old_slot s table slot)

/-- Mapping the window to a page. -/
theorem point_window (held : Windowed dirs s) (present : (s.frames s.curpd 1022).present = true)
    (page : Nat) : Windowed dirs (pointWindow s page) ∧ Quiet (fun _ => False) s (pointWindow s page) ∧
      Maps (pointWindow s page) s.curpd 1022 1023 page := by
  have notDir := (held.tables s.curpd held.loaded present).1
  have same : ∀ d ∈ dirs, (pointWindow s page).frames d = s.frames d := fun _ => write_dir notDir
  have maps : Maps (pointWindow s page) s.curpd 1022 1023 page := by
    rw [Maps, same s.curpd held.loaded]
    have written : (pointWindow s page).frames (s.frames s.curpd 1022).page 1023 =
        mapEntry (page * 4096) false true := write_same _ _ _ _
    rw [written]
    exact ⟨present, rfl, addr2page_mul page⟩
  refine ⟨?_, ⟨rfl, ?_, fun _ => ?_, ?_⟩, maps⟩
  · refine held.of_slots rfl rfl (fun d inDirs => ?_) fun _ => maps
    rw [same d inDirs]
    exact ⟨rfl, rfl⟩
  · rw [same s.curpd held.loaded]
    exact present
  · rw [same s.curpd held.loaded]
  · intro f w _
    rw [same s.curpd held.loaded]
    by_cases here : (f, w) = ((s.frames s.curpd 1022).page, 1023)
    · obtain ⟨table, word⟩ := Prod.mk.inj here
      exact .inr (.inr ⟨table, .inl word⟩)
    · exact .inl (write_other s _ here)

theorem Quiet.trans (first : Quiet touched s m) (second : Quiet touched m s') :
    Quiet touched s s' where
  curpd := second.curpd.trans first.curpd
  present := by
    have present := second.present
    rwa [first.curpd] at present
  kept present := by
    have kept := second.kept
    rw [first.curpd] at kept
    rw [kept first.present, first.kept present]
  words f w away := by
    have kept := second.kept
    rw [first.curpd] at kept
    have table := kept first.present
    rcases second.words f w away with same | ⟨_, _, absent⟩ | ⟨atTable, word⟩
    · rw [same, table]
      exact first.words f w away
    · rw [first.curpd, first.present] at absent
      cases absent
    · rw [first.curpd] at atTable word
      rcases word with last | absent
      · exact .inr (.inr ⟨atTable, .inl last⟩)
      · rw [first.present] at absent
        cases absent

/-- Using the window for `addr`: the state `m` in which it shows the page. -/
structure Shown (dirs : List Nat) (s : Machine) (addr : Nat) (m : Machine) : Prop where
  windowed : Windowed dirs m
  quiet : Quiet (fun _ => False) s m
  maps : Maps m m.curpd 1022 1023 (addr2page addr)
  pair : m.lastpd = m.curpd
  fewer : ∀ a ∈ freePages m.mem, a ∈ freePages s.mem
  spare : ∀ page, Spare dirs s page → Spare dirs m page

theorem with_table_spec (held : Windowed dirs s) (ran : withTable s = some m) :
    Windowed dirs m ∧ m.curpd = s.curpd ∧ (m.frames s.curpd 1022).present = true ∧
      (m = s ∨ Quiet (fun _ => False) s m) ∧ (∀ a ∈ freePages m.mem, a ∈ freePages s.mem) ∧
      ∀ page, Spare dirs s page → Spare dirs m page := by
  rw [withTable] at ran
  split at ran
  case isTrue present =>
    cases ran
    exact ⟨held, rfl, present, .inl rfl, fun _ member => member, fun _ spare => spare⟩
  case isFalse absent =>
    rw [Bool.not_eq_true] at absent
    obtain ⟨⟨addr, t⟩, taken, rfl⟩ := Option.map_eq_some_iff.mp ran
    obtain ⟨windowed, new, ⟨mem, rfl⟩, pages, others⟩ := alloc_windowed held taken
    obtain ⟨linked, quiet⟩ := link_window windowed new absent
    have present : (({ s with mem := mem }.link s.curpd 1022 addr).frames s.curpd 1022).present =
        true := quiet.present
    refine ⟨linked, rfl, present, .inr ⟨quiet.curpd, present, quiet.kept, quiet.words⟩,
      rest_free pages, ?_⟩
    intro page spare
    obtain ⟨other, spare⟩ := others page spare
    refine ⟨spare.real, spare.outside, spare.notDir, ?_⟩
    intro d inDirs there
    have away : d ≠ addr2page addr := by
      rintro rfl
      exact new.notDir inDirs
    by_cases loaded : d = s.curpd
    · have entered : ({ s with mem := mem }.link s.curpd 1022 addr).frames d 1022 = tableEntry addr := by
        rw [loaded] at away ⊢
        exact link_new _ away
      rw [entered]
      exact other.symm
    · have old : ({ s with mem := mem }.link s.curpd 1022 addr).frames d 1022 = s.frames d 1022 :=
        link_old_slot _ away fun same => loaded (Prod.mk.inj same).1
      rw [old] at there ⊢
      exact spare.notTable d inDirs there

theorem map_window_linked (linked : SelfLinked s) (stocked : Stocked s.mem)
    (used : Outside s.mem s.curpd) (addr : Nat) :
    mapWindow s addr = (withTable s).map fun t => pointWindow t (addr2page addr) := by
  have table : (if (s.frames s.curpd 1022).present then some s
      else (memphysAlloc s).map fun (addr, t) => t.link s.curpd 1022 addr) = withTable s := rfl
  rw [mapWindow, pagingMap, getpde_eq linked (by decide), Option.bind_some, addr2pde_bufpage,
    add_table_eq linked (by decide) (by decide), addr2pde_bufpage, table]
  cases made : withTable s with
  | none => rfl
  | some t =>
    rw [withTable] at made
    obtain ⟨linked', present⟩ : SelfLinked t ∧ (t.frames t.curpd 1022).present = true := by
      split at made
      · cases made
        exact ⟨linked, ‹_›⟩
      · obtain ⟨⟨addr, a⟩, taken, rfl⟩ := Option.map_eq_some_iff.mp made
        obtain ⟨⟨mem, rfl⟩, -, free, whole, -, -⟩ := alloc_stocked stocked taken
        have away : s.curpd ≠ addr2page addr := by
          intro same
          apply used.2
          rw [same, whole]
          exact taken_free free
        have other : (s.curpd, 1023) ≠ (s.curpd, 1022) := by simp
        constructor
        · change (((_ : Machine).link s.curpd 1022 addr).frames s.curpd 1023).present = true ∧
            (((_ : Machine).link s.curpd 1022 addr).frames s.curpd 1023).page = s.curpd
          rw [link_old_slot _ away other]
          exact linked
        · change (((_ : Machine).link s.curpd 1022 addr).frames s.curpd 1022).present = true
          rw [link_new _ away]
          rfl
    rw [Option.bind_some, setpte_eq linked' (by decide), addr2pde_bufpage, if_pos present]
    rfl

theorem map_window_eq (held : Windowed dirs s) (addr : Nat) :
    mapWindow s addr = (withTable s).map fun m => pointWindow m (addr2page addr) :=
  map_window_linked held.linked held.toStocked (held.used _ held.loaded).2 addr

theorem map_window_shown (held : Windowed dirs s) (ran : mapWindow s addr = some m) :
    Shown dirs s addr m := by
  rw [map_window_eq held] at ran
  obtain ⟨t, made, rfl⟩ := Option.map_eq_some_iff.mp ran
  obtain ⟨windowed, curpd, present, quiet, fewer, spare⟩ := with_table_spec held made
  rw [← curpd] at present
  obtain ⟨pointed, moved, maps⟩ := point_window windowed present (addr2page addr)
  have notDir := (windowed.tables t.curpd windowed.loaded present).1
  refine ⟨pointed, ?_, maps, rfl, fewer, ?_⟩
  · rcases quiet with rfl | quiet
    · exact moved
    · exact quiet.trans moved
  · intro page known
    refine (spare page known).of_slots rfl fun d inDirs => ?_
    have same : (pointWindow t (addr2page addr)).frames d = t.frames d := write_dir notDir inDirs
    rw [same]

theorem show_window_shown (held : Windowed dirs s) (ran : showWindow s addr = some m) :
    Shown dirs s addr m := by
  rw [showWindow] at ran
  split at ran
  · exact map_window_shown held ran
  case isFalse trusted =>
    cases ran
    obtain ⟨page, loaded⟩ := not_or.mp trusted
    rw [not_not] at page loaded
    have maps := held.shown (loaded ▸ held.loaded)
    rw [← loaded, ← page] at maps
    exact ⟨held, ⟨rfl, maps.1, fun _ => rfl, fun _ _ _ => .inl rfl⟩, maps, loaded.symm,
      fun _ member => member, fun _ spare => spare⟩

theorem alloc_isSome (stock : 0 < s.mem.stackptr) : (memphysAlloc s).isSome := by
  rw [memphysAlloc, Option.isSome_map, memphysPop, if_pos stock]
  split <;> rfl

theorem alloc_stock (stock : 0 < s.mem.stackptr) : ∃ addr t, memphysAlloc s = some (addr, t) :=
  Prod.exists.mp (Option.isSome_iff_exists.mp (alloc_isSome stock))

section
variable (held : Windowed dirs s)
  (room : (s.frames s.curpd 1022).present = true ∨ 0 < s.mem.stackptr)
include held room

/-- The window can be mapped if it has a table or a page is left for one. -/
theorem map_window_isSome : (mapWindow s addr).isSome := by
  rw [map_window_eq held, Option.isSome_map, withTable]
  split
  · rfl
  case isFalse absent =>
    rw [Option.isSome_map]
    exact alloc_isSome (room.resolve_left absent)

theorem show_window_isSome : (showWindow s addr).isSome := by
  rw [showWindow]
  split
  · exact map_window_isSome held room
  · rfl

end

end Mapping

section Accesses

/-- What an access does when the window shows its page. -/
theorem through_window_eq (change : Words → Words) (shown : Shown dirs s addr m) :
    throughWindow change m = some (m.frames (addr2page addr),
      m.fill (addr2page addr) (change (m.frames (addr2page addr)))) := by
  have frame : m.translate bufpageAddress = some (addr2page addr) :=
    (translate_bufpage 0 shown.maps (by omega)).1
  rw [throughWindow, frame, Option.map_some]

/-- An access is exact whichever way its window comes about. -/
theorem exact_of_shown (change : Words → Words) {window : Option Machine}
    (shown : ∀ m, window = some m → Shown dirs s addr m)
    (made : (s.frames s.curpd 1022).present = true ∨ 0 < s.mem.stackptr → window.isSome) :
    Exact s addr change (window.bind (throughWindow change)) where
  made room := by
    obtain ⟨m, ready⟩ := Option.isSome_iff_exists.mp (made room)
    rw [ready, Option.bind_some, through_window_eq change (shown m ready)]
    rfl
  exact words s' ran := by
    obtain ⟨m, ready, ran⟩ := Option.bind_eq_some_iff.mp ran
    rw [through_window_eq change (shown m ready)] at ran
    cases ran
    exact ⟨m, (shown m ready).quiet, rfl, rfl⟩

/-- Words that are no window's may change. -/
theorem Windowed.of_same_windows (held : Windowed dirs s) (same : SameWindows dirs s s')
    (rest : s'.mem = s.mem ∧ s'.curpd = s.curpd ∧ s'.lastpage = s.lastpage ∧ s'.lastpd = s.lastpd) :
    Windowed dirs s' := by
  obtain ⟨mem, curpd, lastpage, lastpd⟩ := rest
  refine held.of_slots mem curpd (fun d inDirs => ⟨(same d inDirs).1, (same d inDirs).2.1⟩) ?_
  rw [lastpd, lastpage]
  intro inDirs
  obtain ⟨table, entry, target⟩ := held.shown inDirs
  obtain ⟨slot, -, word⟩ := same s.lastpd inDirs
  rw [Maps, slot, word table]
  exact ⟨table, entry, target⟩

end Accesses

section Directories

variable {words : Words} {d : Nat}

theorem Quiet.weaken (quiet : Quiet (fun _ => False) s m) : Quiet touched s m :=
  ⟨quiet.curpd, quiet.present, quiet.kept, fun f w _ => quiet.words f w not_false⟩

theorem fill_quiet (present : (s.frames s.curpd 1022).present = true) (away : page ≠ s.curpd) :
    Quiet (· = page) s (s.fill page words) := by
  have same : (s.fill page words).frames s.curpd = s.frames s.curpd := fill_other s words away.symm
  refine ⟨rfl, ?_, fun _ => ?_, fun f w other => .inl ?_⟩
  · rw [same]
    exact present
  · rw [same]
  · exact congrFun (fill_other s words other) w

/-- Filling a page that is used for nothing. -/
theorem fill_spare (held : Windowed dirs s) (spare : Spare dirs s page) (words : Words) :
    Windowed dirs (s.fill page words) := by
  refine held.of_same_windows (fun d inDirs => ?_) ⟨rfl, rfl, rfl, rfl⟩
  rw [fill_dir spare.notDir inDirs]
  exact ⟨rfl, rfl, fun present =>
    congrFun (fill_other s words (spare.notTable d inDirs present)) 1023⟩

/-- Using the window leaves a page that is used for nothing alone. -/
theorem Shown.spare_frame (shown : Shown dirs s addr m) (spare : Spare dirs s page) :
    m.frames page = s.frames page := by
  funext w
  have loaded := shown.windowed.loaded
  have notTable := (shown.spare page spare).notTable m.curpd loaded
  rw [shown.quiet.curpd] at loaded notTable
  rcases shown.quiet.words page w not_false with same | ⟨rfl, _⟩ | ⟨rfl, _⟩
  · exact same
  · exact absurd loaded spare.notDir
  · exact absurd rfl (notTable shown.quiet.present)

/-- Using the window changes one slot of a directory at most. -/
theorem Shown.dir_word (shown : Shown dirs s addr m) (inDirs : d ∈ dirs) (other : w ≠ 1022) :
    m.frames d w = s.frames d w := by
  have tables := shown.windowed.tables m.curpd shown.windowed.loaded
  rw [shown.quiet.curpd] at tables
  rcases shown.quiet.words d w not_false with same | ⟨_, slot, _⟩ | ⟨rfl, _⟩
  · exact same
  · exact absurd slot other
  · exact absurd inDirs (tables shown.quiet.present).1

/-- A step of `memuser_create_pagedir`: the window is used for the new directory, and its
words change. -/
structure Filled (dirs : List Nat) (page : Nat) (words : Words) (s s' : Machine) : Prop where
  windowed : Windowed dirs s'
  spare : Spare dirs s' page
  quiet : Quiet (· = page) s s'
  pair : s'.lastpd = s'.curpd
  filled : s'.frames page = words
  others : ∀ other, Spare dirs s other → Spare dirs s' other
  dirs : ∀ d ∈ dirs, ∀ w ≠ 1022, s'.frames d w = s.frames d w

theorem Shown.filled (shown : Shown dirs s addr m) (spare : Spare dirs s page) (words : Words) :
    Filled dirs page words s (m.fill page words) := by
  have kept := shown.spare page spare
  have present := shown.quiet.present
  have away : page ≠ m.curpd := by
    rintro rfl
    exact kept.notDir shown.windowed.loaded
  rw [← shown.quiet.curpd] at present
  have others : ∀ other, Spare dirs s other → Spare dirs (m.fill page words) other := by
    intro other unused
    refine (shown.spare other unused).of_slots rfl fun d inDirs => ?_
    rw [fill_dir kept.notDir inDirs]
  refine ⟨fill_spare shown.windowed kept words, others page spare,
    shown.quiet.weaken.trans (fill_quiet present away), shown.pair, fill_same m page words, others, ?_⟩
  intro d inDirs w other
  rw [fill_dir kept.notDir inDirs]
  exact shown.dir_word inDirs other

theorem Filled.present (filled : Filled dirs page words s s') :
    (s'.frames s'.curpd 1022).present = true := by
  rw [filled.quiet.curpd]
  exact filled.quiet.present

/-- The window can be used in `s`. -/
def Room (s : Machine) : Prop := (s.frames s.curpd 1022).present = true ∨ 0 < s.mem.stackptr

section
variable (held : Windowed dirs s)
include held

theorem clean_filled (spare : Spare dirs s (addr2page addr))
    (ran : pagingCleanpage s addr = some (result, s')) :
    result = addr ∧ Filled dirs (addr2page addr) (fun _ => blank) s s' := by
  rw [cleanpage_eq_window, windowClean] at ran
  obtain ⟨⟨_, u⟩, cleaned, same⟩ := Option.map_eq_some_iff.mp ran
  obtain ⟨rfl, rfl⟩ := Prod.mk.inj same
  obtain ⟨m, shows, through⟩ := Option.bind_eq_some_iff.mp cleaned
  have shown := show_window_shown held shows
  rw [through_window_eq _ shown] at through
  cases through
  exact ⟨rfl, shown.filled spare _⟩

theorem clean_isSome (addr : Nat) (room : Room s) : (pagingCleanpage s addr).isSome := by
  obtain ⟨m, shows⟩ := Option.isSome_iff_exists.mp (show_window_isSome held room)
  rw [cleanpage_eq_window, windowClean, shows, Option.bind_some,
    through_window_eq _ (show_window_shown held shows)]
  rfl

theorem copy_eq (ran : mapWindow s (page * 4096) = some m) :
    copyKernelEntries s page =
      some (m.fill page fun i => if i < 64 then m.frames m.curpd i else m.frames page i) := by
  have shown := map_window_shown held ran
  have source : m.translate pagedirAddress = some m.curpd :=
    (translate_pagedir (k := 0) shown.windowed.linked (by omega)).1
  have frame : m.translate bufpageAddress = some (addr2page (page * 4096)) :=
    (translate_bufpage 0 shown.maps (by omega)).1
  rw [addr2page_mul] at frame
  rw [copyKernelEntries, ran, Option.bind_some, source, Option.bind_some, frame, Option.map_some]

theorem copy_filled (spare : Spare dirs s page) (ran : copyKernelEntries s page = some s') :
    Filled dirs page (fun i => if i < 64 then s.frames s.curpd i else s.frames page i) s s' := by
  obtain ⟨m, maps, -⟩ := Option.bind_eq_some_iff.mp ran
  have shown := map_window_shown held maps
  have copied : (fun i => if i < 64 then m.frames m.curpd i else m.frames page i) =
      fun i => if i < 64 then s.frames s.curpd i else s.frames page i := by
    funext i
    rw [shown.spare_frame spare, shown.quiet.curpd]
    by_cases low : i < 64
    · rw [if_pos low, if_pos low]
      exact shown.dir_word held.loaded (by omega)
    · rw [if_neg low, if_neg low]
  rw [copy_eq held maps, copied] at ran
  cases ran
  exact shown.filled spare _

theorem copy_isSome (page : Nat) (room : Room s) : (copyKernelEntries s page).isSome := by
  obtain ⟨m, maps⟩ := Option.isSome_iff_exists.mp
    (map_window_isSome held room)
  rw [copy_eq held maps]
  rfl

end

theorem set_self_eq (away : page ≠ s.curpd) :
    pagingSetpdePd s 0xFFC00000 (selfEntry page) page = (windowWrite s (page * 4096 + 4 * 1023)
      fun words => Function.update words 1023 (selfEntry page)).map (·.2) := by
  obtain ⟨-, word⟩ := addr2page_word page (show 1023 < 1024 by omega)
  have slot : addr2pde 0xFFC00000 = 1023 := by decide
  rw [pagingSetpdePd, if_neg away, slot, physwrite_eq_window, word]

section
variable (held : Windowed dirs s) (spare : Spare dirs s page)
include held spare

theorem Windowed.not_loaded : page ≠ s.curpd := by
  rintro rfl
  exact spare.notDir held.loaded

theorem set_self_filled (ran : pagingSetpdePd s 0xFFC00000 (selfEntry page) page = some s') :
    Filled dirs page (Function.update (s.frames page) 1023 (selfEntry page)) s s' := by
  obtain ⟨frame, -⟩ := addr2page_word page (show 1023 < 1024 by omega)
  rw [set_self_eq (held.not_loaded spare)] at ran
  obtain ⟨⟨_, u⟩, written, rfl⟩ := Option.map_eq_some_iff.mp ran
  obtain ⟨m, maps, through⟩ := Option.bind_eq_some_iff.mp written
  have shown := map_window_shown held maps
  rw [through_window_eq _ shown, frame, shown.spare_frame spare] at through
  cases through
  exact shown.filled spare _

theorem set_self_isSome (room : Room s) :
    (pagingSetpdePd s 0xFFC00000 (selfEntry page) page).isSome := by
  obtain ⟨m, maps⟩ := Option.isSome_iff_exists.mp
    (map_window_isSome held room)
  rw [set_self_eq (held.not_loaded spare), windowWrite, maps, Option.bind_some,
    through_window_eq _ (map_window_shown held maps)]
  rfl

end

/-- `memuser_create_pagedir`: the three accesses go to the page it has taken. -/
theorem create_filled (held : Windowed dirs s) (ran : memuserCreatePagedir s = some (page, s')) :
    page ∉ dirs ∧ ∃ mem, Filled dirs page (newDirectory (s.frames s.curpd) page) { s with mem := mem } s' ∧
      ∀ other, Spare dirs s other → other ≠ page ∧ Spare dirs { s with mem := mem } other := by
  obtain ⟨⟨addr, t⟩, taken, ran⟩ := Option.bind_eq_some_iff.mp ran
  obtain ⟨windowed, spare, ⟨mem, rfl⟩, others⟩ := alloc_windowed held taken
  obtain ⟨⟨cleaned, u⟩, clean, ran⟩ := Option.bind_eq_some_iff.mp ran
  obtain ⟨v, copy, ran⟩ := Option.bind_eq_some_iff.mp ran
  obtain ⟨_, set, same⟩ := Option.map_eq_some_iff.mp ran
  obtain ⟨rfl, first⟩ := clean_filled windowed spare clean
  cases same
  have second := copy_filled first.windowed first.spare copy
  have third := set_self_filled second.windowed second.spare set
  refine ⟨spare.notDir, mem, ⟨third.windowed, third.spare,
    (first.quiet.trans second.quiet).trans third.quiet, third.pair, ?_,
    fun other unused => third.others other (second.others other (first.others other unused)),
    fun d inDirs w other => ?_⟩, others.2⟩
  · rw [third.filled, second.filled, first.filled, first.quiet.curpd, new_directory_eq]
    congr 1
    funext i
    by_cases low : i < 64
    · rw [if_pos low, if_pos low]
      exact first.dirs s.curpd held.loaded i (by omega)
    · rw [if_neg low, if_neg low]
  · rw [third.dirs d inDirs w other, second.dirs d inDirs w other, first.dirs d inDirs w other]

/-- Two pages are enough: one for the directory and one for the window's table. -/
theorem create_isSome (held : Windowed dirs s) (stock : 2 ≤ s.mem.stackptr) :
    (memuserCreatePagedir s).isSome := by
  have one : 0 < s.mem.stackptr := by omega
  obtain ⟨addr, t, taken⟩ := alloc_stock one
  obtain ⟨windowed, spare, ⟨mem, rfl⟩, pages, -⟩ := alloc_windowed held taken
  have count : s.mem.stackptr = mem.stackptr + 1 := taken_count pages
  have room : Room { s with mem := mem } := .inr (show 0 < mem.stackptr by omega)
  obtain ⟨⟨cleaned, u⟩, clean⟩ := Option.isSome_iff_exists.mp
    (clean_isSome windowed addr room)
  obtain ⟨rfl, first⟩ := clean_filled windowed spare clean
  obtain ⟨v, copy⟩ := Option.isSome_iff_exists.mp
    (copy_isSome first.windowed (addr2page cleaned) (.inl first.present))
  have second := copy_filled first.windowed first.spare copy
  obtain ⟨x, set⟩ := Option.isSome_iff_exists.mp
    (set_self_isSome second.windowed second.spare (.inl second.present))
  simp only [memuserCreatePagedir, taken, Option.bind_some, clean, copy, set, Option.map_some,
    Option.isSome_some]

/-- The new directory joins those in use. -/
theorem Filled.joins (filled : Filled dirs page (newDirectory kernel page) s s') :
    Windowed (page :: dirs) s' := by
  have held := filled.windowed
  have last : s'.frames page 1023 = selfEntry page := by
    rw [filled.filled]
    rfl
  have absent : s'.frames page 1022 = blank := by
    rw [filled.filled]
    rfl
  exact {
    toStocked := held.toStocked
    loaded := List.mem_cons_of_mem _ held.loaded
    kernel := List.mem_cons_of_mem _ held.kernel
    distinct := List.nodup_cons.mpr ⟨filled.spare.notDir, held.distinct⟩
    self := by
      refine List.forall_mem_cons.mpr ⟨?_, held.self⟩
      rw [last]
      exact ⟨rfl, rfl⟩
    used := List.forall_mem_cons.mpr ⟨⟨filled.spare.real, filled.spare.outside⟩, held.used⟩
    tables := by
      intro d inDirs present
      rcases List.mem_cons.mp inDirs with rfl | inDirs
      · rw [absent] at present
        cases present
      · obtain ⟨notDir, outside⟩ := held.tables d inDirs present
        refine ⟨fun member => ?_, outside⟩
        rcases List.mem_cons.mp member with same | member
        · exact filled.spare.notTable d inDirs present same
        · exact notDir member
    own := by
      intro d inDirs d' inDirs' other present present'
      rcases List.mem_cons.mp inDirs with rfl | inDirs
      · rw [absent] at present
        cases present
      · rcases List.mem_cons.mp inDirs' with rfl | inDirs'
        · rw [absent] at present'
          cases present'
        · exact held.own d inDirs d' inDirs' other present present'
    shown := by
      intro _
      apply held.shown
      rw [filled.pair]
      exact held.loaded }

/-- A destroyed directory leaves those in use, and its page is used for nothing. -/
theorem Windowed.leaves (held : Windowed dirs s) (inDirs : d ∈ dirs) (other : d ≠ pagingKernelpd) :
    let t := if s.curpd = d then { s with curpd := pagingKernelpd } else s
    Windowed (dirs.erase d) t ∧ Spare (dirs.erase d) t d := by
  intro t
  have still : ∀ c ∈ dirs.erase d, c ∈ dirs ∧ c ≠ d := by
    intro c member
    obtain ⟨away, member⟩ := held.distinct.mem_erase_iff.mp member
    exact ⟨member, away⟩
  have kernel := held.distinct.mem_erase_iff.mpr ⟨other.symm, held.kernel⟩
  obtain ⟨c, loaded, same⟩ : ∃ c ∈ dirs.erase d, t = { s with curpd := c } := by
    simp only [t]
    split
    · exact ⟨_, kernel, rfl⟩
    case isFalse away => exact ⟨s.curpd, held.distinct.mem_erase_iff.mpr ⟨away, held.loaded⟩, rfl⟩
  rw [same]
  constructor
  · exact { held with
      loaded := loaded
      kernel := kernel
      distinct := held.distinct.erase d
      self := fun c member => held.self c (still c member).1
      used := fun c member => held.used c (still c member).1
      tables := by
        intro c member present
        obtain ⟨notDir, outside⟩ := held.tables c (still c member).1 present
        exact ⟨fun again => notDir (still _ again).1, outside⟩
      own := fun c member c' member' => held.own c (still c member).1 c' (still c' member').1
      shown := fun member => held.shown (still _ member).1 }
  · refine ⟨(held.used d inDirs).1, (held.used d inDirs).2, fun again => (still d again).2 rfl, ?_⟩
    rintro c member present rfl
    exact (held.tables c (still c member).1 present).1 inDirs

end Directories

section Release

theorem map_rest (held : Stocked s.mem) (ran : pagingMap s virt phys user writable = some (ok, s')) :
    Stocked s'.mem ∧ (∀ a ∈ freePages s'.mem, a ∈ freePages s.mem) ∧
      s'.curpd = s.curpd ∧ s'.lastpage = s.lastpage ∧ s'.lastpd = s.lastpd := by
  rcases map_frames ran with same | ⟨page, mem, popped, same⟩
  · rw [same]
    exact ⟨held, fun _ member => member, rfl, rfl, rfl⟩
  · have taken : memphysAlloc s = some (page, { s with mem := mem }) := congrArg (Option.map _) popped
    obtain ⟨-, stocked, pages, -⟩ := alloc_stocked held taken
    rw [same]
    exact ⟨stocked, rest_free pages, rfl, rfl, rfl⟩

/-- The invariant for a stack that has lost pages, or has got a page that is used for
nothing. -/
theorem Windowed.restock (held : Windowed dirs s) (same : SameWindows dirs s s')
    (stocked : Stocked s'.mem) (spare : Spare dirs s d)
    (pages : ∀ a ∈ freePages s'.mem, a ∈ freePages s.mem ∨ a = d * 4096)
    (rest : s'.curpd = s.curpd ∧ s'.lastpage = s.lastpage ∧ s'.lastpd = s.lastpd) :
    Windowed dirs s' := by
  have windowed : Windowed dirs { s' with mem := s.mem } :=
    held.of_same_windows same ⟨rfl, rest.1, rest.2.1, rest.2.2⟩
  have outside : ∀ page, page ≠ d → Outside s.mem page → Outside s'.mem page := by
    intro page other was
    refine ⟨was.1, fun member => ?_⟩
    rcases pages _ member with old | new
    · exact was.2 old
    · omega
  exact { windowed with
    toStocked := stocked
    used := by
      intro c inDirs
      refine ⟨(held.used c inDirs).1, outside c ?_ (held.used c inDirs).2⟩
      rintro rfl
      exact spare.notDir inDirs
    tables := by
      intro c inDirs present
      obtain ⟨notDir, away⟩ := windowed.tables c inDirs present
      refine ⟨notDir, outside _ ?_ away⟩
      change (s'.frames c 1022).present = true at present
      rw [(same c inDirs).1] at present ⊢
      exact spare.notTable c inDirs present }

theorem free_windowed (held : Windowed dirs s) (spare : Spare dirs s d)
    (same : SameWindows dirs s s') (ran : memphysFree s (d * 4096) = some s') : Windowed dirs s' := by
  have real : d * 4096 ≠ 0 := by
    have := spare.real
    omega
  rw [memphysFree] at ran
  split at ran
  case isTrue full =>
    -- the page becomes part of the stack
    obtain ⟨⟨ok, t⟩, mapped, ran⟩ := Option.bind_eq_some_iff.mp ran
    obtain ⟨stocked, fewer, curpd, lastpage, lastpd⟩ := map_rest held.toStocked mapped
    obtain ⟨-, ran⟩ := Option.ite_none_right_eq_some.mp ran
    cases ran
    have bounded : t.mem.stackptr ≤ t.mem.stackend + 1024 := Nat.le_add_right_of_le stocked.bounded
    exact held.restock same ⟨stocked.nodup, stocked.aligned, bounded⟩ spare
      (fun a member => .inl (fewer a member)) ⟨curpd, lastpage, lastpd⟩
  case isFalse room =>
    have free : s.mem.stackptr ≠ s.mem.stackend := fun full => room ⟨real, full⟩
    cases ran
    refine held.restock same (push_stocked held.toStocked spare.real spare.outside free) spare ?_
      ⟨rfl, rfl, rfl⟩
    intro a member
    change a ∈ freePages (memphysPush s.mem (d * 4096)) at member
    rw [push_free_pages real free] at member
    rcases List.mem_append.mp member with old | new
    · exact .inl old
    · exact .inr (List.mem_singleton.mp new)

end Release

/-- The directories in use and their windows. -/
def Sound (w : Windows) : Prop := Windowed w.dirs w.machine

theorem Booted.sound (booted : Booted s) : Sound ⟨s, [s.curpd]⟩ where
  toStocked := booted.toStocked
  loaded := List.mem_singleton_self _
  kernel := List.mem_singleton.mpr booted.loaded.symm
  distinct := List.nodup_singleton _
  self d inDirs := by
    rw [List.mem_singleton.mp inDirs]
    exact booted.linked
  used d inDirs := by
    rw [List.mem_singleton.mp inDirs]
    refine ⟨?_, booted.outside⟩
    rw [booted.loaded]
    decide
  tables d inDirs present := by
    rw [List.mem_singleton.mp inDirs] at present
    rw [booted.absent] at present
    cases present
  own d inDirs d' inDirs' other := absurd
    ((List.mem_singleton.mp inDirs').trans (List.mem_singleton.mp inDirs).symm) other
  shown inDirs := by
    have loaded := List.mem_singleton.mp inDirs
    change s.lastpd = s.curpd at loaded
    rw [booted.unused, booted.loaded] at loaded
    exact absurd loaded (by decide)

/-- An access whose words leave the windows alone. -/
theorem access_sound {change : Words → Words} (shown : Shown dirs s addr m)
    (same : SameWindows dirs m (m.fill (addr2page addr) (change (m.frames (addr2page addr)))))
    (ran : throughWindow change m = some (words, s')) : Windowed dirs s' := by
  rw [through_window_eq change shown] at ran
  cases ran
  exact shown.windowed.of_same_windows same ⟨rfl, rfl, rfl, rfl⟩

theorem step_sound (held : Sound w) (undisturbed : Undisturbed w e) (ran : step w e = some w') :
    Sound w' := by
  cases e with
  | read addr =>
    obtain ⟨⟨words, s'⟩, accessed, rfl⟩ := Option.map_eq_some_iff.mp ran
    obtain ⟨m, shows, through⟩ := Option.bind_eq_some_iff.mp accessed
    have shown := show_window_shown held shows
    have same : m.fill (addr2page addr) (m.frames (addr2page addr)) = m := by
      simp [Machine.fill]
    refine access_sound shown ?_ through
    rw [id, same]
    exact fun _ _ => ⟨rfl, rfl, fun _ => rfl⟩
  | write addr change =>
    obtain ⟨⟨words, s'⟩, accessed, rfl⟩ := Option.map_eq_some_iff.mp ran
    obtain ⟨m, maps, through⟩ := Option.bind_eq_some_iff.mp accessed
    exact access_sound (map_window_shown held maps) (undisturbed m maps) through
  | clean addr =>
    obtain ⟨⟨words, s'⟩, accessed, rfl⟩ := Option.map_eq_some_iff.mp ran
    obtain ⟨m, shows, through⟩ := Option.bind_eq_some_iff.mp accessed
    exact access_sound (show_window_shown held shows) (undisturbed m shows) through
  | load pagedir =>
    obtain ⟨inDirs, rfl⟩ := onlyIf_eq_some ran
    exact { held with loaded := inDirs }
  | create =>
    obtain ⟨⟨pagedir, s'⟩, created, rfl⟩ := Option.map_eq_some_iff.mp ran
    obtain ⟨-, mem, filled, -⟩ := create_filled held created
    exact filled.joins
  | destroy pagedir =>
    rw [step] at ran
    obtain ⟨⟨inDirs, other⟩, ran⟩ := Option.ite_none_right_eq_some.mp ran
    obtain ⟨s', destroyed, rfl⟩ := Option.map_eq_some_iff.mp ran
    obtain ⟨windowed, spare⟩ := Windowed.leaves held inDirs other
    refine free_windowed windowed spare ?_ destroyed
    have same := undisturbed s' destroyed
    split
    · exact same
    · exact same

/-- What is promised of a call holds in every sound state. -/
theorem sound_promised (held : Sound w) (e : Event) : Promised w e := by
  cases e with
  | read addr =>
    exact exact_of_shown id (fun _ shows => show_window_shown held shows) (show_window_isSome held)
  | write addr change =>
    exact exact_of_shown change (fun _ maps => map_window_shown held maps) (map_window_isSome held)
  | clean addr =>
    exact exact_of_shown _ (fun _ shows => show_window_shown held shows) (show_window_isSome held)
  | load pagedir => trivial
  | create =>
    refine ⟨create_isSome held, fun pagedir s' created => ?_⟩
    obtain ⟨notDir, mem, filled, -⟩ := create_filled held created
    obtain ⟨curpd, present, kept, words⟩ := filled.quiet
    exact ⟨notDir, ⟨curpd, present, kept, words⟩, filled.filled⟩
  | destroy pagedir => trivial

theorem free_keeps_frames (room : s.mem.stackptr ≠ s.mem.stackend)
    (ran : memphysFree s addr = some s') : s'.frames = s.frames := by
  rw [memphysFree, if_neg fun full => room full.2] at ran
  cases ran
  rfl

/-- Destroying a directory changes no page while the page stack has room. -/
theorem destroy_undisturbed (room : s.mem.stackptr ≠ s.mem.stackend)
    (ran : memuserDestroyPagedir s d = some s') : SameWindows dirs s s' := by
  have same : s'.frames = s.frames := by
    rw [memuserDestroyPagedir] at ran
    by_cases loaded : s.curpd = d
    · rw [if_pos loaded] at ran
      exact free_keeps_frames (s := { s with curpd := pagingKernelpd }) room ran
    · rw [if_neg loaded] at ran
      exact free_keeps_frames room ran
  intro c _
  rw [same]
  exact ⟨rfl, rfl, fun _ => rfl⟩

/-- The kernel's directory, two tables behind it, and eight free pages. -/
def bootMachine : Machine where
  frames := fun frame word =>
    if frame ≠ 0x300 then blank
    else if word = 0 then tableEntry 0x301000
    else if word = 1 then tableEntry 0x302000
    else if word = 1023 then selfEntry 0x300
    else blank
  mem :=
    { stack := fun i => 0x320000 + i * 4096
      stackptr := 8
      stackend := 1024
      stackPages := fun i => if i = 0 then some 0x303000 else none
      dmaBitmap := fun _ => 0 }
  curpd := 0x300
  lastpage := 0
  lastpd := 0

end MeinOS.PagingWindow
