import MeinOS.PagingWindow

/-! The window together with the translation that the processor keeps of it.

A processor uses a translation it has kept without looking at the page tables again, until a page
directory is loaded, `invlpg` names the page, or it drops the translation by itself.
`paging_setpte` calls `paging_flushtlb` for the page it has changed, but that hands its own
parameter to `invlpg` as the operand, so the page named is the one of the kernel's stack in which
the parameter lies. A window that is moved keeps its old translation, and the accesses through it
go on to reach the page it showed before.

Of the pages that `paging.c` works through, only the window page is mapped anew while a directory
stays loaded, so its translation is the only one that is carried along. -/
namespace MeinOS.Tlb
open Lib.Runs Memphys Paging Memuser PagingWindow

/-- The machine with what the processor keeps of the window page. -/
structure Cpu where
  machine : Machine
  /-- The physical page to which the kept translation leads. -/
  kept : Option Nat
  /-- Where the parameter of `paging_flushtlb` lies. -/
  slot : Nat
  inKernel : slot < userdataAddress

/-- `invlpg` with an operand at the address `virt`. -/
def Cpu.invlpg (c : Cpu) (virt : Nat) : Cpu :=
  if addr2page virt = addr2page bufpageAddress then { c with kept := none } else c

/-- `paging_flushtlb`, which is not asked for `addr` but for where `addr` lies. -/
def pagingFlushtlb (c : Cpu) (_addr : Nat) : Cpu := c.invlpg c.slot

/-- `paging_loadpagedir`. -/
def pagingLoadpagedir (c : Cpu) (pagedir : Nat) : Cpu :=
  { c with machine := { c.machine with curpd := pagedir }, kept := none }

/-- The window is mapped to the page of an address. -/
def Cpu.mapWindow (c : Cpu) (addr : Nat) : Option Cpu :=
  (Paging.mapWindow c.machine addr).map fun s =>
    pagingFlushtlb { c with machine := s } bufpageAddress

/-- The window for reading, which is trusted if it shows the page already. -/
def Cpu.showWindow (c : Cpu) (addr : Nat) : Option Cpu :=
  if addr2page addr ≠ c.machine.lastpage ∨ c.machine.curpd ≠ c.machine.lastpd then c.mapWindow addr
  else some c

/-- An access through the window: it goes where the kept translation leads, and a translation that
was not kept is kept from then on. -/
def Cpu.through (c : Cpu) (change : Words → Words) : Option (Words × Cpu) :=
  (c.kept <|> c.machine.translate bufpageAddress).map fun frame =>
    (c.machine.frames frame,
      { c with
        machine := c.machine.fill frame (change (c.machine.frames frame))
        kept := some frame })

/-- `paging_physread` of any bytes of one page. -/
def pagingPhysread (c : Cpu) (addr : Nat) : Option (Words × Cpu) :=
  (c.showWindow addr).bind fun c => c.through id

/-- `paging_physwrite` of any bytes of one page. -/
def pagingPhyswrite (c : Cpu) (addr : Nat) (change : Words → Words) : Option (Words × Cpu) :=
  (c.mapWindow addr).bind fun c => c.through change

/-- `paging_cleanpage`. -/
def pagingCleanpage (c : Cpu) (addr : Nat) : Option (Words × Cpu) :=
  (c.showWindow addr).bind fun c => c.through fun _ _ => blank

/-- The `paging_physwrite` of `memuser_create_pagedir`, from the loaded directory. -/
def copyKernelEntries (c : Cpu) (pagedir : Nat) : Option Cpu :=
  (c.mapWindow (pagedir * 4096)).bind fun c =>
    (c.machine.translate pagedirAddress).bind fun source =>
      (c.through fun words i => if i < 64 then c.machine.frames source i else words i).map (·.2)

/-- `paging_setpde_pd`. -/
def pagingSetpdePd (c : Cpu) (virt : Nat) (pde : Entry) (pagedir : Nat) : Option Cpu :=
  if pagedir = c.machine.curpd then
    (pagingSetpde c.machine virt pde).map fun s => pagingFlushtlb { c with machine := s } virt
  else
    (pagingPhyswrite c (pagedir * 4096 + 4 * addr2pde virt) fun words =>
      Function.update words (addr2pde virt) pde).map (·.2)

/-- `memuser_create_pagedir`. -/
def memuserCreatePagedir (c : Cpu) : Option (Nat × Cpu) :=
  (memphysAlloc c.machine).bind fun (page, s) =>
    (pagingCleanpage { c with machine := s } page).bind fun (_, c) =>
      (copyKernelEntries c (addr2page page)).bind fun c =>
        (pagingSetpdePd c 0xFFC00000 (selfEntry (addr2page page)) (addr2page page)).map
          (addr2page page, ·)

/-- `memuser_destroy_pagedir`. -/
def memuserDestroyPagedir (c : Cpu) (pagedir : Nat) : Option Cpu :=
  let c := if c.machine.curpd = pagedir then pagingLoadpagedir c pagingKernelpd else c
  (memphysFree c.machine (pagedir * 4096)).map fun s => { c with machine := s }

/-- The processor with the page directories in use. -/
structure Windows where
  cpu : Cpu
  dirs : List Nat

/-- What the page tables and the directories are. -/
def Windows.plain (w : Windows) : PagingWindow.Windows := ⟨w.cpu.machine, w.dirs⟩

/-- The calls, and the processor dropping what it has kept. -/
inductive Event where
  | call (e : PagingWindow.Event)
  | drop

/-- One call. -/
def call (w : Windows) : PagingWindow.Event → Option Windows
  | .read addr => (pagingPhysread w.cpu addr).map fun (_, c) => { w with cpu := c }
  | .write addr change => (pagingPhyswrite w.cpu addr change).map fun (_, c) => { w with cpu := c }
  | .clean addr => (pagingCleanpage w.cpu addr).map fun (_, c) => { w with cpu := c }
  | .load pagedir => onlyIf (pagedir ∈ w.dirs) { w with cpu := pagingLoadpagedir w.cpu pagedir }
  | .create => (memuserCreatePagedir w.cpu).map fun (pagedir, c) => ⟨c, pagedir :: w.dirs⟩
  | .destroy pagedir =>
    if pagedir ∈ w.dirs ∧ pagedir ≠ pagingKernelpd then
      (memuserDestroyPagedir w.cpu pagedir).map fun c => ⟨c, w.dirs.erase pagedir⟩
    else none

def step (w : Windows) : Event → Option Windows
  | .call e => call w e
  | .drop => some { w with cpu := { w.cpu with kept := none } }

/-- A translation that is kept leads to this page. -/
def Cpu.Current (c : Cpu) (page : Nat) : Prop := ∀ frame, c.kept = some frame → frame = page

/-- The processor keeps no translation of the window page, or the one that the call is to use. -/
def Current (w : Windows) : Event → Prop
  | .call (.read addr) | .call (.write addr _) | .call (.clean addr) => w.cpu.Current (addr2page addr)
  | .call .create => ∀ page s, memphysAlloc w.cpu.machine = some (page, s) →
    w.cpu.Current (addr2page page)
  | _ => True

/-- Nothing but the window functions changes a window. -/
def Undisturbed (w : Windows) : Event → Prop
  | .call e => PagingWindow.Undisturbed w.plain e
  | .drop => True

/-- The outcome of an access without what the processor keeps. -/
def outcome (result : Option (Words × Cpu)) : Option (Words × Machine) :=
  result.map fun (words, c) => (words, c.machine)

/-- What is promised of each call: it gets to the page it addresses, and `memuser_create_pagedir`
gives the new directory its entries. -/
def Promised (w : Windows) : Event → Prop
  | .call (.read addr) => Exact w.cpu.machine addr id (outcome (pagingPhysread w.cpu addr))
  | .call (.write addr change) =>
    Exact w.cpu.machine addr change (outcome (pagingPhyswrite w.cpu addr change))
  | .call (.clean addr) =>
    Exact w.cpu.machine addr (fun _ _ => blank) (outcome (pagingCleanpage w.cpu addr))
  | .call .create =>
    (2 ≤ w.cpu.machine.mem.stackptr → (memuserCreatePagedir w.cpu).isSome) ∧
    ∀ pagedir c, memuserCreatePagedir w.cpu = some (pagedir, c) →
      pagedir ∉ w.dirs ∧ Quiet (· = pagedir) w.cpu.machine c.machine ∧
      c.machine.frames pagedir = newDirectory (w.cpu.machine.frames w.cpu.machine.curpd) pagedir
  | _ => True

variable {c c' : Cpu} {dirs : List Nat} {page addr : Nat} {w w' : Windows}

section Accesses

/-- The kernel's stack is not the window page, so nothing is flushed. -/
@[simp] theorem flushtlb_eq (c : Cpu) (addr : Nat) : pagingFlushtlb c addr = c := by
  have inKernel := c.inKernel
  rw [userdataAddress] at inKernel
  rw [pagingFlushtlb, Cpu.invlpg, if_neg]
  rw [addr2page, addr2page, bufpageAddress]
  omega

theorem map_window_cpu (c : Cpu) (addr : Nat) :
    c.mapWindow addr = (mapWindow c.machine addr).map fun s => { c with machine := s } := by
  simp only [Cpu.mapWindow, flushtlb_eq]

theorem show_window_cpu (c : Cpu) (addr : Nat) :
    c.showWindow addr = (showWindow c.machine addr).map fun s => { c with machine := s } := by
  rw [Cpu.showWindow, showWindow, map_window_cpu]
  split <;> rfl

/-- With a window that shows the page, and no translation of it but the right one, the access goes
to the page. -/
theorem through_current (frame : c.machine.translate bufpageAddress = some page)
    (current : c.Current page) (change : Words → Words) :
    c.through change = some (c.machine.frames page,
      { c with
        machine := c.machine.fill page (change (c.machine.frames page))
        kept := some page }) := by
  rw [Cpu.through]
  cases kept : c.kept with
  | none =>
    rw [frame]
    rfl
  | some other =>
    cases current other kept
    rfl

variable {s : Machine}

/-- The outcome is then that of the page tables alone. -/
theorem through_agrees (change : Words → Words) (shown : Shown dirs c.machine addr s)
    (current : c.Current (addr2page addr)) :
    ({ c with machine := s } : Cpu).through change = (throughWindow change s).map fun (words, m) =>
      (words, { c with machine := m, kept := some (addr2page addr) }) := by
  have frame : s.translate bufpageAddress = some (addr2page addr) :=
    (translate_bufpage 0 shown.maps (by omega)).1
  rw [through_window_eq change shown]
  exact through_current (c := { c with machine := s }) frame current change

variable (held : Windowed dirs c.machine) (current : c.Current (addr2page addr))
include held current

theorem map_access_agrees (change : Words → Words) :
    ((c.mapWindow addr).bind fun c => c.through change) =
      (windowWrite c.machine addr change).map fun (words, s) =>
        (words, { c with machine := s, kept := some (addr2page addr) }) := by
  rw [map_window_cpu, windowWrite]
  cases ran : mapWindow c.machine addr with
  | none => rfl
  | some s => exact through_agrees change (map_window_shown held ran) current

theorem show_access_agrees (change : Words → Words) :
    ((c.showWindow addr).bind fun c => c.through change) =
      ((showWindow c.machine addr).bind (throughWindow change)).map fun (words, s) =>
        (words, { c with machine := s, kept := some (addr2page addr) }) := by
  rw [show_window_cpu]
  cases ran : showWindow c.machine addr with
  | none => rfl
  | some s => exact through_agrees change (show_window_shown held ran) current

end Accesses

theorem outcome_of_agreed (result : Option (Words × Machine)) (c : Cpu) (page : Nat) :
    outcome (result.map fun (words, s) => (words, { c with machine := s, kept := some page })) =
      result := by
  cases result <;> rfl

section Directories
variable {s : Machine}

/-- The translation of a page that has been used is kept. -/
theorem kept_current (c : Cpu) (s : Machine) (page : Nat) :
    ({ c with machine := s, kept := some page } : Cpu).Current page := by
  rintro frame same
  exact (Option.some.inj same).symm

theorem copy_agrees (held : Windowed dirs c.machine) (current : c.Current page) :
    copyKernelEntries c page = (Memuser.copyKernelEntries c.machine page).map fun s =>
      { c with machine := s, kept := some page } := by
  rw [copyKernelEntries, map_window_cpu, Memuser.copyKernelEntries]
  cases ran : mapWindow c.machine (page * 4096) with
  | none => rfl
  | some s =>
    have shown := map_window_shown held ran
    have frame : s.translate bufpageAddress = some page :=
      addr2page_mul page ▸ (translate_bufpage 0 shown.maps (by omega)).1
    simp only [Option.map_some, Option.bind_some]
    cases s.translate pagedirAddress with
    | none => rfl
    | some source =>
      simp only [Option.bind_some, frame, Option.map_some]
      rw [through_current (c := { c with machine := s }) frame current]
      rfl

theorem set_self_agrees (held : Windowed dirs c.machine) (spare : Spare dirs c.machine page)
    (current : c.Current page) :
    pagingSetpdePd c 0xFFC00000 (selfEntry page) page =
      (Paging.pagingSetpdePd c.machine 0xFFC00000 (selfEntry page) page).map fun s =>
        { c with machine := s, kept := some page } := by
  have away := held.not_loaded spare
  have slot : addr2pde 0xFFC00000 = 1023 := by decide
  obtain ⟨number, -⟩ := addr2page_word page (show 1023 < 1024 by omega)
  rw [pagingSetpdePd, if_neg away, slot, set_self_eq away, pagingPhyswrite,
    map_access_agrees held (by rw [number]; exact current), number, Option.map_map, Option.map_map]
  rfl

/-- The three accesses of `memuser_create_pagedir` are to one page. -/
theorem create_agrees (held : Windowed dirs c.machine)
    (current : ∀ page s, memphysAlloc c.machine = some (page, s) → c.Current (addr2page page)) :
    memuserCreatePagedir c = (Memuser.memuserCreatePagedir c.machine).map fun (pagedir, s) =>
      (pagedir, { c with machine := s, kept := some pagedir }) := by
  rw [memuserCreatePagedir, Memuser.memuserCreatePagedir]
  cases taken : memphysAlloc c.machine with
  | none => rfl
  | some result =>
    obtain ⟨addr, s⟩ := result
    obtain ⟨windowed, spare, -⟩ := alloc_windowed held taken
    have cleans := show_access_agrees (c := { c with machine := s }) windowed
      (current addr s taken) fun _ _ => blank
    simp only [Option.bind_some]
    rw [pagingCleanpage, cleans, cleanpage_eq_window, windowClean]
    cases cleaned : (showWindow s addr).bind (throughWindow fun _ _ => blank) with
    | none => rfl
    | some result =>
      obtain ⟨words, t⟩ := result
      have clean : Paging.pagingCleanpage s addr = some (addr, t) := by
        rw [cleanpage_eq_window, windowClean, cleaned]
        rfl
      obtain ⟨-, first⟩ := clean_filled windowed spare clean
      simp only [Option.map_some, Option.bind_some]
      rw [copy_agrees (c := { c with machine := t, kept := some (addr2page addr) }) first.windowed
        (kept_current c t _)]
      cases copied : Memuser.copyKernelEntries t (addr2page addr) with
      | none => rfl
      | some u =>
        have second := copy_filled first.windowed first.spare copied
        simp only [Option.map_some, Option.bind_some]
        rw [set_self_agrees (c := { c with machine := u, kept := some (addr2page addr) })
          second.windowed second.spare (kept_current c u _), Option.map_map, Option.map_map]
        rfl

end Directories

/-- Where an access agrees with the page tables, so does the call. -/
theorem access_agrees {result : Option (Words × Machine)} {accessed : Option (Words × Cpu)}
    (agreed : accessed = result.map fun (words, s) =>
      (words, { w.cpu with machine := s, kept := some page }))
    (ran : (accessed.map fun (_, c) => ({ w with cpu := c } : Windows)) = some w') :
    (result.map fun (_, s) => ({ w.plain with machine := s } : PagingWindow.Windows)) =
      some w'.plain := by
  cases result with
  | none =>
    rw [agreed] at ran
    cases ran
  | some found =>
    rw [agreed] at ran
    cases ran
    rfl

/-- A call that finds no translation but its own does what the page tables say. -/
theorem call_agrees {e : PagingWindow.Event} (held : Sound w.plain) (current : Current w (.call e))
    (ran : call w e = some w') : PagingWindow.step w.plain e = some w'.plain := by
  cases e with
  | read addr => exact access_agrees (show_access_agrees held current id) ran
  | write addr change => exact access_agrees (map_access_agrees held current change) ran
  | clean addr => exact access_agrees (show_access_agrees held current fun _ _ => blank) ran
  | load pagedir =>
    obtain ⟨inDirs, rfl⟩ := onlyIf_eq_some ran
    exact if_pos inDirs
  | create =>
    obtain ⟨⟨pagedir, c⟩, created, rfl⟩ := Option.map_eq_some_iff.mp ran
    rw [create_agrees held current] at created
    obtain ⟨⟨page, s⟩, found, same⟩ := Option.map_eq_some_iff.mp created
    cases same
    exact congrArg (Option.map _) found
  | destroy pagedir =>
    obtain ⟨met, ran⟩ := Option.ite_none_right_eq_some.mp ran
    obtain ⟨c, destroyed, rfl⟩ := Option.map_eq_some_iff.mp ran
    obtain ⟨s, freed, rfl⟩ := Option.map_eq_some_iff.mp destroyed
    have inUse : pagedir ∈ w.plain.dirs ∧ pagedir ≠ pagingKernelpd := met
    rw [PagingWindow.step, if_pos inUse]
    have same : Memuser.memuserDestroyPagedir w.cpu.machine pagedir = some s := by
      rw [Memuser.memuserDestroyPagedir, ← freed]
      split <;> rfl
    exact congrArg (Option.map _) same

theorem step_sound {e : Event} (held : Sound w.plain) (undisturbed : Undisturbed w e)
    (current : Current w e) (ran : step w e = some w') : Sound w'.plain := by
  cases e with
  | call e => exact PagingWindow.step_sound held undisturbed (call_agrees held current ran)
  | drop =>
    cases ran
    exact held

/-- What is promised of the page tables alone is then kept. -/
theorem current_promised {e : Event} (held : Sound w.plain) (current : Current w e) : Promised w e := by
  cases e with
  | drop => trivial
  | call e =>
    have promised := sound_promised held e
    cases e with
    | read addr =>
      rw [Promised, pagingPhysread, show_access_agrees held current, outcome_of_agreed]
      exact promised
    | write addr change =>
      rw [Promised, pagingPhyswrite, map_access_agrees held current, outcome_of_agreed]
      exact promised
    | clean addr =>
      rw [Promised, pagingCleanpage, show_access_agrees held current, outcome_of_agreed]
      exact promised
    | create =>
      obtain ⟨made, entries⟩ := promised
      rw [Promised, create_agrees held current]
      refine ⟨fun stock => ?_, fun pagedir c created => ?_⟩
      · rw [Option.isSome_map]
        exact made stock
      · obtain ⟨⟨page, s⟩, found, same⟩ := Option.map_eq_some_iff.mp created
        cases same
        exact entries _ _ found
    | load | destroy => trivial

/-- In every sequence of calls in which nothing else changes a window, and before each access the
processor keeps no translation of the window page but the one the access is to use, each read
returns and each write or clean changes the words of the physical page it addresses, and no access
fails for want of a mapping. -/
theorem window_accesses_exact (c : Cpu) (events : List Event) (booted : Booted c.machine)
    (undisturbed : Along step Undisturbed ⟨c, [c.machine.curpd]⟩ events)
    (current : Along step Current ⟨c, [c.machine.curpd]⟩ events) :
    Along step Promised ⟨c, [c.machine.curpd]⟩ events := by
  have promised : ∀ (w : Windows) e, Sound w.plain → Undisturbed w e ∧ Current w e → Promised w e :=
    fun w e held met => current_promised held met.2
  have keeps : ∀ (w : Windows) e w', Sound w.plain → Undisturbed w e ∧ Current w e →
      step w e = some w' → Sound w'.plain :=
    fun w e w' held met ran => step_sound held met.1 met.2 ran
  exact (along_and undisturbed current).derive promised keeps booted.sound

/-- Calls that cannot disturb a window and find no translation but their own. -/
def Calm (w : Windows) : Event → Bool
  | .call (.read addr) => w.cpu.kept.all (· = addr2page addr)
  | .call (.write _ _) | .call (.clean _) => false
  | .call .create => w.cpu.kept.isNone
  | .call (.destroy _) => w.cpu.machine.mem.stackptr ≠ w.cpu.machine.mem.stackend
  | _ => true

theorem calm_meets (w : Windows) (e : Event) (calm : Calm w e = true) :
    Undisturbed w e ∧ Current w e := by
  cases e with
  | drop => exact ⟨trivial, trivial⟩
  | call e =>
    cases e with
    | read addr =>
      refine ⟨trivial, fun frame kept => ?_⟩
      rw [Calm, kept] at calm
      exact of_decide_eq_true calm
    | write | clean => cases calm
    | load => exact ⟨trivial, trivial⟩
    | create =>
      refine ⟨trivial, fun page s _ frame kept => ?_⟩
      rw [Calm, kept] at calm
      cases calm
    | destroy pagedir =>
      exact ⟨fun _ ran => destroy_undisturbed (of_decide_eq_true calm) ran, trivial⟩

/-- The kernel's directory, with a word in page 0x500. -/
def markedCpu : Cpu where
  machine := bootMachine.write 0x500 0 (selfEntry 0x500)
  kept := none
  slot := 0x110000
  inKernel := by decide

theorem marked_cpu_booted : Booted markedCpu.machine where
  nodup := by decide
  aligned := by decide
  bounded := by decide
  loaded := rfl
  unused := rfl
  linked := ⟨rfl, rfl⟩
  absent := rfl
  outside := ⟨by decide, by decide⟩

/-- A directory reads two pages, is destroyed, and its page becomes a directory again, which reads
the second page. -/
def reuse : List Event :=
  [.call .create, .call (.load 0x327), .call (.read 0x500000), .drop, .call (.read 0x501000),
    .call (.destroy 0x327), .call .create, .call (.load 0x327), .call (.read 0x501000)]

theorem reused_directory_reads_exactly :
    (run step ⟨markedCpu, [0x300]⟩ reuse).map (fun w => (w.dirs, w.cpu.machine.lastpd)) =
        some ([0x327, 0x300], 0x327) ∧
      Along step Promised ⟨markedCpu, [0x300]⟩ reuse := by
  have calm : Along step (fun w e => Calm w e = true) ⟨markedCpu, [0x300]⟩ reuse := by
    decide +kernel
  exact ⟨by decide +kernel, window_accesses_exact markedCpu reuse marked_cpu_booted
    (calm.mono fun w e met => (calm_meets w e met).1)
    (calm.mono fun w e met => (calm_meets w e met).2)⟩

/-- Two reads one after the other: the second one returns the words of the first page. -/
theorem moved_window_reads_old_page : Booted markedCpu.machine ∧ ∃ w words c,
    Along step Undisturbed ⟨markedCpu, [0x300]⟩ [.call (.read 0x500000), .call (.read 0x501000)] ∧
    run step ⟨markedCpu, [0x300]⟩ [.call (.read 0x500000)] = some w ∧
    pagingPhysread w.cpu 0x501000 = some (words, c) ∧ words 0 = selfEntry 0x500 ∧
    w.cpu.machine.frames 0x501 0 = blank ∧ ¬ Promised w (.call (.read 0x501000)) := by
  obtain ⟨w, ran, ⟨words, c⟩, read, marked, clear, slot, curpd⟩ : ∃ w,
      run step ⟨markedCpu, [0x300]⟩ [.call (.read 0x500000)] = some w ∧
      ∃ r, pagingPhysread w.cpu 0x501000 = some r ∧ r.1 0 = selfEntry 0x500 ∧
        w.cpu.machine.frames 0x501 0 = blank ∧
        w.cpu.machine.frames 0x300 1022 = tableEntry 0x327000 ∧ w.cpu.machine.curpd = 0x300 := by
    decide +kernel
  refine ⟨marked_cpu_booted, w, words, c, ?_, ran, read, marked, clear, fun promised => ?_⟩
  · exact along_of_forall (by simp [Undisturbed, PagingWindow.Undisturbed])
  · have result : outcome (pagingPhysread w.cpu 0x501000) = some (words, c.machine) := by
      rw [read]
      rfl
    obtain ⟨m, quiet, rfl, -⟩ := promised.exact words c.machine result
    have table := quiet.kept (by rw [curpd, slot]; rfl)
    rw [curpd, slot] at table
    -- page 0x501 is neither the directory nor the table of the window
    rcases quiet.words 0x501 0 not_false with same | ⟨here, -⟩ | ⟨here, -⟩
    · rw [clear] at same
      exact absurd (same.symm.trans marked) (by decide)
    · rw [curpd] at here
      exact absurd here (by decide)
    · rw [curpd, table] at here
      exact absurd here (by decide)

end MeinOS.Tlb
