import MeinOS.MemuserFindvirt
import MeinOS.PagingUser
import MeinOS.Shm

/-! The loops of `kernel2/shm.c` over the page tables of all address spaces: which entries
they clear or map in the loaded directory, that the kernel's part stays, and that pages
which are mapped nowhere go back to the stack. -/
namespace MeinOS.Shm
open Memphys Paging Memuser

variable {dirs : List Nat} {s s' m : Machine} {virt d i j : Nat}

/-- The entry is one of `pages` entries from the address `virt` on. -/
def Covers (virt pages i j : Nat) : Prop :=
  ∃ k < pages, addr2pde (virt + k * 4096) = i ∧ addr2pte (virt + k * 4096) = j

theorem next_page (virt k : Nat) : virt + (k + 1) * 4096 = virt + 4096 + k * 4096 := by ring

theorem covers_succ (virt left i j : Nat) : Covers virt (left + 1) i j ↔
    (addr2pde virt = i ∧ addr2pte virt = j) ∨ Covers (virt + 4096) left i j := by
  constructor
  · rintro ⟨k, small, place⟩
    cases k with
    | zero =>
      rw [Nat.zero_mul, Nat.add_zero] at place
      exact Or.inl place
    | succ k =>
      rw [next_page] at place
      exact Or.inr ⟨k, by omega, place⟩
  · rintro (place | ⟨k, small, place⟩)
    · refine ⟨0, by omega, ?_⟩
      rw [Nat.zero_mul, Nat.add_zero]
      exact place
    · refine ⟨k + 1, by omega, ?_⟩
      rw [next_page]
      exact place

/-- An address of user memory. -/
theorem user_place (user : userdataAddress ≤ virt) (below : virt < bufpageAddress) :
    virt < 2 ^ 32 ∧ 256 ≤ addr2pde virt ∧ addr2pde virt < 1023 ∧
      (addr2pde virt, addr2pte virt) ≠ (1022, 1023) := by
  refine ⟨below_top below, ?_, below_window below⟩
  rw [userdataAddress] at user
  rw [addr2pde, addr2page]
  omega

/-- The loaded directory has lost some entries; all others are as before. -/
structure Cleared (dirs : List Nat) (s s' : Machine) (Gone : Nat → Nat → Prop) : Prop where
  guarded : Guarded dirs s'
  unshared : Unshared dirs s'
  curpd : s'.curpd = s.curpd
  mem : s'.mem = s.mem
  frames : ∀ d ∈ dirs, s'.frames d = s.frames d
  gone : ∀ i < 1023, ∀ j, Gone i j → entry s' s.curpd i j = blank
  kept : ∀ d ∈ dirs, ∀ i < 1023, ∀ j, (d = s.curpd → ¬ Gone i j) → entry s' d i j = entry s d i j

theorem Cleared.refl (held : Guarded dirs s) (unshared : Unshared dirs s) :
    Cleared dirs s s fun _ _ => False :=
  ⟨held, unshared, rfl, rfl, fun _ _ => rfl, fun _ _ _ none => none.elim, fun _ _ _ _ _ _ => rfl⟩

theorem Cleared.trans {A B : Nat → Nat → Prop} (loaded : s.curpd ∈ dirs)
    (first : Cleared dirs s m A) (second : Cleared dirs m s' B) :
    Cleared dirs s s' fun i j => A i j ∨ B i j where
  guarded := second.guarded
  unshared := second.unshared
  curpd := second.curpd.trans first.curpd
  mem := second.mem.trans first.mem
  frames d inDirs := (second.frames d inDirs).trans (first.frames d inDirs)
  gone i slot j lost := by
    by_cases later : B i j
    · rw [← first.curpd]
      exact second.gone i slot j later
    · rw [second.kept _ loaded i slot j fun _ => later]
      exact first.gone i slot j (lost.resolve_right later)
  kept d inDirs i slot j stays := by
    rw [second.kept d inDirs i slot j fun own lost => stays (own.trans first.curpd) (Or.inr lost)]
    exact first.kept d inDirs i slot j fun own lost => stays own (Or.inl lost)

theorem Cleared.congr {A B : Nat → Nat → Prop} (cleared : Cleared dirs s s' A)
    (same : ∀ i j, A i j ↔ B i j) : Cleared dirs s s' B := by
  have eq : A = B := funext fun i => funext fun j => propext (same i j)
  rwa [eq] at cleared

theorem unmap_cleared (held : Guarded dirs s) (unshared : Unshared dirs s)
    (user : userdataAddress ≤ virt) (below : virt < bufpageAddress)
    (ran : pagingUnmap s virt = some (addr, s')) :
    Cleared dirs s s' fun i j => addr2pde virt = i ∧ addr2pte virt = j := by
  obtain ⟨inside, high, slot, notWindow⟩ := user_place user below
  obtain ⟨pointed, mem, frames⟩ := unmap_pointed held unshared inside high slot notWindow ran
  refine ⟨pointed.guarded, pointed.unshared, pointed.curpd, mem, frames, ?_, ?_⟩
  · rintro i slot' j ⟨rfl, rfl⟩
    rw [pointed.entries _ held.loaded _ slot', if_pos rfl]
  · intro d inDirs i slot' j stays
    rw [pointed.entries d inDirs i slot', if_neg fun eq => ?_]
    simp only [Prod.mk.injEq] at eq
    exact stays eq.1 ⟨eq.2.1.symm, eq.2.2.symm⟩

theorem unmap_pages_cleared (left virt : Nat) (held : Guarded dirs s) (unshared : Unshared dirs s)
    (user : userdataAddress ≤ virt) (below : virt + left * 4096 ≤ bufpageAddress)
    (ran : unmapPages left virt s = some s') : Cleared dirs s s' (Covers virt left) := by
  induction left generalizing virt s with
  | zero =>
    cases ran
    exact (Cleared.refl held unshared).congr fun i j => by simp [Covers]
  | succ left ih =>
    have here := first_below below
    rw [unmapPages, Nat.mod_eq_of_lt (below_top here)] at ran
    obtain ⟨⟨addr, m⟩, unmapped, ran⟩ := Option.bind_eq_some_iff.mp ran
    have first := unmap_cleared held unshared user here unmapped
    have rest := ih (virt + 4096) first.guarded first.unshared (by linarith) (by linarith) ran
    exact (first.trans held.loaded rest).congr fun i j => (covers_succ virt left i j).symm

/-- The entry is at one of the attachments. -/
def CoveredBy (pages : Nat) (atts : List Att) (i j : Nat) : Prop :=
  ∃ att ∈ atts, Covers att.virt pages i j

theorem unmap_atts_cleared (pages : Nat) (atts : List Att) (held : Guarded dirs s)
    (unshared : Unshared dirs s)
    (placed : ∀ att ∈ atts, userdataAddress ≤ att.virt ∧ att.virt + pages * 4096 ≤ bufpageAddress)
    (ran : unmapAtts pages atts s = some s') : Cleared dirs s s' (CoveredBy pages atts) := by
  induction atts generalizing s with
  | nil =>
    cases ran
    exact (Cleared.refl held unshared).congr fun i j => by simp [CoveredBy]
  | cons att atts ih =>
    obtain ⟨m, unmapped, ran⟩ := Option.bind_eq_some_iff.mp ran
    obtain ⟨user, below⟩ := placed att List.mem_cons_self
    have first := unmap_pages_cleared pages att.virt held unshared user below unmapped
    have rest := ih first.guarded first.unshared
      (fun other member => placed other (List.mem_cons_of_mem att member)) ran
    exact (first.trans held.loaded rest).congr fun i j => by simp [CoveredBy]

/-- The loaded directory maps the pages at some of the entries from `virt` on; all other
entries are as before. -/
structure Attached (dirs : List Nat) (s s' : Machine) (virt : Nat) (pages : List Nat)
    (writable : Bool) : Prop where
  guarded : Guarded dirs s'
  unshared : Unshared dirs s'
  curpd : s'.curpd = s.curpd
  stackend : s'.mem.stackend = s.mem.stackend
  fewer : ∀ a ∈ freePages s'.mem, a ∈ freePages s.mem
  tables : ∀ page, Table dirs s' page → page * 4096 ∈ freePages s.mem ∨ Table dirs s page
  slots : ∀ d ∈ dirs, ∀ i < 256, s'.frames d i = s.frames d i
  entries : ∀ d ∈ dirs, ∀ i < 1023, ∀ j, entry s' d i j = entry s d i j ∨
    d = s.curpd ∧ ∃ k page, pages[k]? = some page ∧ addr2pde (virt + k * 4096) = i ∧
      addr2pte (virt + k * 4096) = j ∧ entry s' d i j = mapEntry page true writable

theorem map_pages_attached (writable : Bool) (pages : List Nat) (virt : Nat)
    (held : Guarded dirs s) (unshared : Unshared dirs s) (user : userdataAddress ≤ virt)
    (below : virt + pages.length * 4096 ≤ bufpageAddress)
    (away : ∀ page ∈ pages, Outside s.mem (addr2page page))
    (ran : mapPages writable pages virt s = some s') :
    Attached dirs s s' virt pages writable := by
  induction pages generalizing virt s with
  | nil =>
    cases ran
    exact ⟨held, unshared, rfl, rfl, fun _ member => member, fun _ table => Or.inr table,
      fun _ _ _ _ => rfl, fun _ _ _ _ _ => Or.inl rfl⟩
  | cons page pages ih =>
    rw [List.length_cons] at below
    have here := first_below below
    obtain ⟨inside, high, slot, notWindow⟩ := user_place user here
    rw [mapPages, Nat.mod_eq_of_lt inside] at ran
    obtain ⟨⟨ok, m⟩, mapped, ran⟩ := Option.bind_eq_some_iff.mp ran
    have first := map_pointed held unshared inside high slot notWindow
      (away page List.mem_cons_self) mapped
    have rest := ih (virt + 4096) first.guarded first.unshared (by linarith) (by linarith)
      (fun other member => (away other (List.mem_cons_of_mem page member)).of_fewer first.fewer) ran
    refine ⟨rest.guarded, rest.unshared, rest.curpd.trans first.curpd,
      rest.stackend.trans first.stackend, fun a member => first.fewer a (rest.fewer a member),
      fun table isTable => ?_, fun d inDirs i low => ?_, fun d inDirs i slot' j => ?_⟩
    · rcases rest.tables table isTable with free | old
      · exact Or.inl (first.fewer _ free)
      · exact first.tables table old
    · have other : (d, i) ≠ (s.curpd, addr2pde virt) := by
        rw [Ne, Prod.mk.injEq]
        omega
      exact (rest.slots d inDirs i low).trans (first.slots d inDirs i (Or.inl other))
    · have step := first.entries d inDirs i slot' j
      rcases rest.entries d inDirs i slot' j with same | ⟨own, k, other, found, pde, pte, new⟩
      · rw [same, step]
        split
        · rename_i atHead
          simp only [Prod.mk.injEq] at atHead
          obtain ⟨rfl, rfl, rfl⟩ := atHead
          exact Or.inr ⟨rfl, 0, page, rfl, by simp, by simp, rfl⟩
        · exact Or.inl rfl
      · rw [← next_page] at pde pte
        exact Or.inr ⟨own.trans first.curpd, k + 1, other, found, pde, pte, new⟩

/-- The pages that an object takes from the stack. -/
theorem alloc_phys_spec {s s' : Machine} (left : Nat) (held : Guarded dirs s)
    (ran : allocPhys left s = some (pages, s')) :
    Guarded dirs s' ∧ (∃ mem, s' = { s with mem := mem }) ∧
      s'.mem.stackend = s.mem.stackend ∧ pages.length = left ∧
      freePages s.mem = freePages s'.mem ++ pages.reverse := by
  induction left generalizing s pages with
  | zero =>
    cases ran
    exact ⟨held, ⟨_, rfl⟩, rfl, rfl, by simp⟩
  | succ left ih =>
    obtain ⟨⟨page, m⟩, taken, ran⟩ := Option.bind_eq_some_iff.mp ran
    obtain ⟨⟨rest, t⟩, others, same⟩ := Option.map_eq_some_iff.mp ran
    cases same
    obtain ⟨⟨first, mem⟩, popped, same⟩ := Option.map_eq_some_iff.mp taken
    cases same
    have stackend := pop_stackend held.bounded popped
    obtain ⟨guarded, -, -, -, free, -⟩ := alloc_guarded held taken
    obtain ⟨guarded', ⟨mem', rfl⟩, stackend', count, free'⟩ := ih guarded others
    refine ⟨guarded', ⟨mem', rfl⟩, stackend'.trans stackend, by rw [List.length_cons, count], ?_⟩
    rw [free, free', List.reverse_cons, List.append_assoc]

/-- An entry of a page that does not exist. -/
def Unused (e : Entry) : Prop := e.present = false ∧ e.existing = false

/-- The tables of the first two slots, where the page stack lies, are in no other slot. -/
def OwnStackTables (dirs : List Nat) (s : Machine) : Prop :=
  ∀ d ∈ dirs, ∀ d' ∈ dirs, ∀ i < 2, ∀ i' < 1024, i' ≠ i → (s.frames d' i').present = true →
    (s.frames d' i').page ≠ (s.frames d i).page

/-- No page exists where the page stack will grow. -/
def StackClear (dirs : List Nat) (s : Machine) : Prop :=
  ∀ d ∈ dirs, ∀ page, addr2page (stackdataAddress + 4 * s.mem.stackend) ≤ page → page < 0x700 →
    Unused (pageEntry s d page)

/-- The kernel's part of the page tables and the size of the page stack are as before. -/
structure SameKernel (dirs : List Nat) (s s' : Machine) : Prop where
  stackend : s'.mem.stackend = s.mem.stackend
  slots : ∀ d ∈ dirs, ∀ i < 256, s'.frames d i = s.frames d i
  entries : ∀ d ∈ dirs, ∀ i < 256, ∀ j, entry s' d i j = entry s d i j

theorem OwnStackTables.of_same (own : OwnStackTables dirs s) (same : SameKernel dirs s s')
    (held : Guarded dirs s') (unshared : Unshared dirs s') : OwnStackTables dirs s' := by
  intro d inDirs d' inDirs' i small i' slot' other present
  have kernel : (s'.frames d i).present = true := by
    rcases Nat.lt_succ_iff_lt_or_eq.mp small with first | rfl
    · rw [Nat.lt_one_iff.mp first]
      exact (held.kernel d inDirs).1
    · exact (held.kernel d inDirs).2
  by_cases low : i' < 256
  · rw [same.slots d inDirs i (by omega)]
    rw [same.slots d' inDirs' i' low] at present ⊢
    exact own d inDirs d' inDirs' i small i' slot' other present
  · by_cases last : i' = 1023
    · subst last
      rw [(held.recursive d' inDirs').2]
      exact fun eq => held.table_not_dir inDirs (by omega) kernel (eq ▸ inDirs')
    · have places : (d, i) ≠ (d', i') := by
        rw [Ne, Prod.mk.injEq]
        omega
      exact (unshared d' inDirs' d inDirs i' (by omega) (by omega) i (by omega) places present
        kernel).symm

theorem StackClear.of_same (clear : StackClear dirs s) (same : SameKernel dirs s s') :
    StackClear dirs s' := by
  intro d inDirs page above below
  rw [same.stackend] at above
  rw [pageEntry, same.entries d inDirs _ (by omega)]
  exact clear d inDirs page above below

theorem Cleared.same_kernel (cleared : Cleared dirs s s' Gone)
    (user : ∀ i j, Gone i j → 256 ≤ i) : SameKernel dirs s s' where
  stackend := by rw [cleared.mem]
  slots d inDirs i _ := by rw [cleared.frames d inDirs]
  entries d inDirs i low j :=
    cleared.kept d inDirs i (by omega) j fun _ gone => absurd (user i j gone) (by omega)

theorem covered_user (user : userdataAddress ≤ virt) (below : virt + pages * 4096 ≤ bufpageAddress)
    (covered : Covers virt pages i j) : 256 ≤ i ∧ i < 1023 ∧ j < 1024 := by
  obtain ⟨k, small, rfl, rfl⟩ := covered
  have inside : virt + k * 4096 < bufpageAddress := by
    rw [bufpageAddress] at below ⊢
    omega
  obtain ⟨-, high, slot, -⟩ := user_place (Nat.le_add_right_of_le user) inside
  exact ⟨high, slot, addr2pte_lt _⟩

theorem Attached.same_kernel (attached : Attached dirs s s' virt pages writable)
    (user : userdataAddress ≤ virt) (below : virt + pages.length * 4096 ≤ bufpageAddress) :
    SameKernel dirs s s' where
  stackend := attached.stackend
  slots := attached.slots
  entries d inDirs i low j := by
    rcases attached.entries d inDirs i (by omega) j with same | ⟨-, k, page, found, pde, pte, -⟩
    · exact same
    · obtain ⟨small, -⟩ := List.getElem?_eq_some_iff.mp found
      have high := (covered_user user below ⟨k, small, pde, pte⟩).1
      omega

section Free

theorem page_address (aligned : a % 4096 = 0) : addr2page a * 4096 = a :=
  Nat.div_mul_cancel (Nat.dvd_of_mod_eq_zero aligned)

/-- A page that is mapped nowhere has gone back to the stack, which may have grown into an
entry that did not exist. -/
structure GivenBack (dirs : List Nat) (s s' : Machine) (a : Nat) : Prop where
  guarded : Guarded dirs s'
  own : OwnStackTables dirs s'
  clear : StackClear dirs s'
  more : ∀ b ∈ freePages s'.mem, b = a ∨ b ∈ freePages s.mem
  entries : ∀ d ∈ dirs, ∀ i < 1024, ∀ j, entry s' d i j = entry s d i j ∨
    (Unused (entry s d i j) ∧ entry s' d i j = mapEntry a false true)

/-- What becomes of the entries when a page is made the next page of the stack. -/
theorem grow_entry (addr : Nat) (held : Guarded dirs s) (own : OwnStackTables dirs s)
    (full : s.mem.stackptr = s.mem.stackend) (inDirs : d ∈ dirs) (slot : i < 1024) (j : Nat) :
    entry (s.grow addr) d i j = entry s d i j ∨
      (addr2pde (stackdataAddress + 4 * s.mem.stackend) = i ∧
        addr2pte (stackdataAddress + 4 * s.mem.stackend) = j ∧
        entry (s.grow addr) d i j = mapEntry addr false true) := by
  obtain ⟨low, present⟩ := held.stack_place full
  have notDir := held.table_not_dir held.loaded (by omega) present
  have written : entry (s.grow addr) d i j = _ := entry_write notDir inDirs i j
  rw [written]
  split
  · rename_i here
    obtain ⟨there, table, word⟩ := here
    right
    refine ⟨?_, word.symm, rfl⟩
    by_contra other
    exact own s.curpd held.loaded d inDirs _ low i slot (Ne.symm other) there table
  · exact Or.inl rfl

theorem stack_place_page (held : Guarded dirs s) (full : s.mem.stackptr = s.mem.stackend) :
    addr2page (stackdataAddress + 4 * s.mem.stackend) < 0x700 := by
  have short := held.toStocked.short
  rw [addr2page, stackdataAddress]
  omega

/-- The entry that the stack grows into did not exist. -/
theorem StackClear.place (clear : StackClear dirs s) (held : Guarded dirs s)
    (full : s.mem.stackptr = s.mem.stackend) (inDirs : d ∈ dirs) :
    Unused (entry s d (addr2pde (stackdataAddress + 4 * s.mem.stackend))
      (addr2pte (stackdataAddress + 4 * s.mem.stackend))) :=
  clear d inDirs _ (Nat.le_refl _) (stack_place_page held full)

section
variable (held : Guarded dirs s) (own : OwnStackTables dirs s)
include held own

theorem grow_stack_clear (clear : StackClear dirs s) (full : s.mem.stackptr = s.mem.stackend) :
    StackClear dirs (s.grow addr) := by
  intro d inDirs page above below
  have next : addr2page (stackdataAddress + 4 * (s.mem.stackend + 1024)) =
      addr2page (stackdataAddress + 4 * s.mem.stackend) + 1 := by
    rw [addr2page, addr2page]
    omega
  change addr2page (stackdataAddress + 4 * (s.mem.stackend + 1024)) ≤ page at above
  have old := clear d inDirs page (by omega) below
  have slot : page / 1024 < 1024 := by omega
  rcases grow_entry addr held own full inDirs slot (page % 1024) with same | ⟨pde, pte, -⟩
  · rw [pageEntry, same]
    exact old
  · rw [addr2pde] at pde
    rw [addr2pte] at pte
    omega

theorem grow_own_tables (full : s.mem.stackptr = s.mem.stackend) : OwnStackTables dirs (s.grow addr) := by
  intro d inDirs d' inDirs'
  rw [grow_frames held full inDirs, grow_frames held full inDirs']
  exact own d inDirs d' inDirs'

theorem grow_given_back (clear : StackClear dirs s) (outside : Outside s.mem (addr2page a))
    (full : s.mem.stackptr = s.mem.stackend) : GivenBack dirs s (s.grow a) a := by
  refine ⟨grow_guarded held full outside, grow_own_tables held own full,
    grow_stack_clear held own clear full, fun b member => Or.inr member, ?_⟩
  intro d inDirs i slot j
  rcases grow_entry a held own full inDirs slot j with same | ⟨rfl, rfl, new⟩
  · exact Or.inl same
  · exact Or.inr ⟨clear.place held full inDirs, new⟩

end

section
variable (held : Guarded dirs s) (own : OwnStackTables dirs s) (clear : StackClear dirs s)
  (aligned : a % 4096 = 0) (real : a ≠ 0) (outside : Outside s.mem (addr2page a))
  (unmapped : ∀ d ∈ dirs, ∀ i < 1024, ∀ j < 1024, ¬ Maps s d i j (addr2page a))
include held own clear aligned real outside unmapped

theorem push_given_back (room : s.mem.stackptr ≠ s.mem.stackend) :
    GivenBack dirs s { s with mem := memphysPush s.mem a } a := by
  have whole := page_address aligned
  have pages := push_free_pages real room
  have more : ∀ b ∈ freePages (memphysPush s.mem a), b = a ∨ b ∈ freePages s.mem := by
    intro b member
    rw [pages] at member
    exact (List.mem_append.mp member).symm.imp List.mem_singleton.mp id
  have stocked : Stocked (memphysPush s.mem a) := by
    rw [← whole]
    exact push_stocked held.toStocked (fun zero => real (by rw [← whole, zero])) outside room
  have stackend : (memphysPush s.mem a).stackend = s.mem.stackend := by
    rw [memphysPush, if_neg real, if_neg room]
  refine ⟨restock_guarded held stocked fun d inDirs i slot j inTable page maps => ?_, own, ?_, more,
    fun _ _ _ _ _ => Or.inl rfl⟩
  · obtain ⟨small, off⟩ := held.unmapped d inDirs i slot j inTable page maps
    refine ⟨small, fun member => ?_⟩
    rcases more _ member with same | old
    · rw [← same, addr2page_mul] at unmapped
      exact unmapped d inDirs i slot j inTable maps
    · exact off old
  · intro d inDirs page above below
    rw [stackend] at above
    exact clear d inDirs page above below

theorem free_given_back (ran : memphysFree s a = some s') : GivenBack dirs s s' a := by
  by_cases full : s.mem.stackptr = s.mem.stackend
  · rw [free_full held full real] at ran
    cases ran
    exact grow_given_back held own clear outside full
  · rw [memphysFree, if_neg (fun both => full both.2)] at ran
    cases ran
    exact push_given_back held own clear aligned real outside unmapped full

end

/-- What is given back concerns no other page. -/
theorem GivenBack.other (given : GivenBack dirs s s' a) (other : page ≠ addr2page a) :
    (Outside s.mem page → Outside s'.mem page) ∧
      ∀ d ∈ dirs, ∀ i < 1024, ∀ j, Maps s' d i j page → Maps s d i j page := by
  constructor
  · rintro ⟨small, off⟩
    refine ⟨small, fun member => ?_⟩
    rcases given.more _ member with same | old
    · exact other (by rw [← same, addr2page_mul])
    · exact off old
  · intro d inDirs i slot j maps
    rw [maps_iff_entry] at maps ⊢
    rcases given.entries d inDirs i slot j with same | ⟨-, new⟩
    · rw [← same]
      exact maps
    · rw [new] at maps
      exact absurd maps.2.symm other

/-- The second loop of `ipc_shm_destroy`, for pages that are mapped nowhere. -/
theorem free_phys_spec (pages : List Nat) (held : Guarded dirs s) (own : OwnStackTables dirs s)
    (clear : StackClear dirs s) (nodup : pages.Nodup)
    (real : ∀ a ∈ pages, a % 4096 = 0 ∧ a ≠ 0) (outside : ∀ a ∈ pages, Outside s.mem (addr2page a))
    (unmapped : ∀ a ∈ pages, ∀ d ∈ dirs, ∀ i < 1024, ∀ j < 1024, ¬ Maps s d i j (addr2page a))
    (ran : freePhys pages s = some s') :
    Guarded dirs s' ∧ ∀ d ∈ dirs, ∀ i < 1024, ∀ j,
      entry s' d i j = entry s d i j ∨ Unused (entry s d i j) := by
  induction pages generalizing s with
  | nil =>
    cases ran
    exact ⟨held, fun _ _ _ _ _ => Or.inl rfl⟩
  | cons a pages ih =>
    obtain ⟨m, freed, ran⟩ := Option.bind_eq_some_iff.mp ran
    obtain ⟨aligned, address⟩ := real a List.mem_cons_self
    obtain ⟨missing, nodup⟩ := List.nodup_cons.mp nodup
    have given := free_given_back held own clear aligned address (outside a List.mem_cons_self)
      (unmapped a List.mem_cons_self) freed
    have others : ∀ b ∈ pages, addr2page b ≠ addr2page a := by
      intro b member same
      have whole := page_address (real b (List.mem_cons_of_mem a member)).1
      rw [same, page_address aligned] at whole
      exact missing (whole ▸ member)
    obtain ⟨guarded, entries⟩ := ih given.guarded given.own given.clear nodup
      (fun b member => real b (List.mem_cons_of_mem a member))
      (fun b member => (given.other (others b member)).1
        (outside b (List.mem_cons_of_mem a member)))
      (fun b member d inDirs i slot j inTable maps =>
        unmapped b (List.mem_cons_of_mem a member) d inDirs i slot j inTable
          ((given.other (others b member)).2 d inDirs i slot j maps)) ran
    refine ⟨guarded, fun d inDirs i slot j => ?_⟩
    rcases given.entries d inDirs i slot j with same | ⟨unused, -⟩
    · rw [← same]
      exact entries d inDirs i slot j
    · exact Or.inr unused

end Free

end MeinOS.Shm
