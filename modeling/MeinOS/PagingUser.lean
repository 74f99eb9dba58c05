import MeinOS.PagingOps

/-! What `paging_map` and `paging_unmap` do to the page tables as a whole, where no two
slots share a table of user memory: in all directories together exactly one entry
changes. -/
namespace MeinOS.Paging
open Memphys

variable {dirs : List Nat} {s s' : Machine} {d i j t page virt : Nat} {e : Entry}

/-- The tables of user memory are each in one slot of one directory. -/
def Unshared (dirs : List Nat) (s : Machine) : Prop :=
  ∀ d ∈ dirs, ∀ d' ∈ dirs, ∀ i, 256 ≤ i → i < 1023 → ∀ i' < 1024, (d', i') ≠ (d, i) →
    (s.frames d i).present = true → (s.frames d' i').present = true →
      (s.frames d' i').page ≠ (s.frames d i).page

/-- A write to a table shows wherever the table is in a slot. -/
theorem entry_write (notDir : t ∉ dirs) (inDirs : d ∈ dirs) (i j : Nat) :
    entry (s.write t k e) d i j =
      if (s.frames d i).present = true ∧ (s.frames d i).page = t ∧ j = k then e
      else entry s d i j := by
  rw [entry, entry, write_dir notDir inDirs]
  by_cases present : (s.frames d i).present = true
  · rw [if_pos present, if_pos present]
    by_cases here : ((s.frames d i).page, j) = (t, k)
    · obtain ⟨rfl, rfl⟩ := Prod.mk.inj here
      rw [if_pos ⟨present, rfl, rfl⟩, write_same]
    · rw [if_neg fun all => here (Prod.ext all.2.1 all.2.2), write_other s e here]
  · rw [if_neg present, if_neg present, if_neg fun all => present all.1]

theorem Unshared.of_same (held : Unshared dirs s) (same : ∀ d ∈ dirs, s'.frames d = s.frames d) :
    Unshared dirs s' := by
  intro d inDirs d' inDirs' i user slot i' slot' other
  rw [same d inDirs, same d' inDirs']
  exact held d inDirs d' inDirs' i user slot i' slot' other

theorem link_unshared (held : Guarded dirs s) (unshared : Unshared dirs s)
    (fresh : Fresh dirs s (addr2page addr)) : Unshared dirs (s.link d i addr) := by
  intro d₁ inDirs₁ d₂ inDirs₂ i₁ user slot i₂ slot₂ other
  exact link_apart held fresh inDirs₁ inDirs₂ (by omega) slot₂ other
    (unshared d₁ inDirs₁ d₂ inDirs₂ i₁ user slot i₂ slot₂ other)

/-- One entry of the loaded directory is new; all the others, in all directories, are as
before. A table that had to be added was on the stack. -/
structure Pointed (dirs : List Nat) (s s' : Machine) (i j : Nat) (e : Entry) : Prop where
  guarded : Guarded dirs s'
  unshared : Unshared dirs s'
  curpd : s'.curpd = s.curpd
  stackend : s'.mem.stackend = s.mem.stackend
  fewer : ∀ a ∈ freePages s'.mem, a ∈ freePages s.mem
  tables : ∀ page, Table dirs s' page → page * 4096 ∈ freePages s.mem ∨ Table dirs s page
  slots : ∀ d ∈ dirs, ∀ i', (d, i') ≠ (s.curpd, i) ∨ (s.frames d i').present = true →
    s'.frames d i' = s.frames d i'
  entries : ∀ d ∈ dirs, ∀ i' < 1023, ∀ j', entry s' d i' j' =
    if (d, i', j') = (s.curpd, i, j) then e else entry s d i' j'

/-- The write itself, into a table that is there. -/
theorem write_pointed (held : Guarded dirs s) (unshared : Unshared dirs s) (user : 256 ≤ i)
    (slot : i < 1023) (present : (s.frames s.curpd i).present = true)
    (notWindow : (i, j) ≠ (1022, 1023)) (away : e.present = true → Outside s.mem e.page) :
    Pointed dirs s (s.write (s.frames s.curpd i).page j e) i j e := by
  have notDir := held.table_not_dir held.loaded slot present
  refine ⟨point_guarded held held.loaded slot present notWindow away,
    unshared.of_same fun _ => write_dir notDir, rfl, rfl, fun _ member => member,
    fun _ table => Or.inr (write_tables notDir table),
    fun d inDirs i' _ => congrFun (write_dir notDir inDirs) i', ?_⟩
  intro d inDirs i' slot' j'
  rw [entry_write notDir inDirs]
  by_cases here : (d, i') = (s.curpd, i)
  · obtain ⟨rfl, rfl⟩ := Prod.mk.inj here
    simp [present]
  · have other : ¬ ((s.frames d i').present = true ∧
        (s.frames d i').page = (s.frames s.curpd i).page ∧ j' = j) := fun ⟨there, eq, _⟩ =>
      unshared s.curpd held.loaded d inDirs i user slot i' (by omega) here present there eq
    rw [if_neg other, if_neg fun eq => here (by simp only [Prod.mk.injEq] at eq ⊢; omega)]

theorem pop_stackend {mem rest : PhysMem} (bounded : mem.stackptr ≤ mem.stackend)
    (popped : memphysPop mem = some (page, rest)) : rest.stackend = mem.stackend := by
  obtain ⟨-, -, rfl⟩ := pop_eq bounded popped
  rfl

/-- A table that is added where there was none is shared with no other slot. -/
theorem ensure_unshared (held : Guarded dirs s) (unshared : Unshared dirs s)
    (inside : virt < 2 ^ 32) (slot : addr2pde virt < 1023) (ran : ensureTable s virt = some m) :
    Unshared dirs m ∧ m.mem.stackend = s.mem.stackend ∧
      ∀ d ∈ dirs, ∀ i, (s.frames d i).present = true → m.frames d i = s.frames d i := by
  rw [ensureTable] at ran
  by_cases present : (s.frames s.curpd (addr2pde virt)).present = true
  · rw [if_pos present] at ran
    cases ran
    exact ⟨unshared, rfl, fun _ _ _ _ => rfl⟩
  · rw [if_neg present] at ran
    obtain ⟨addr, t, taken, rfl⟩ := add_table_spec held.linked inside slot ran
    obtain ⟨guarded, fresh, -⟩ := alloc_guarded held taken
    obtain ⟨⟨page, mem⟩, popped, same⟩ := Option.map_eq_some_iff.mp taken
    cases same
    refine ⟨link_unshared guarded (unshared.of_same fun _ _ => rfl) fresh,
      pop_stackend held.bounded popped, fun d inDirs i there => ?_⟩
    refine link_old_slot _ (fun eq => fresh.not_dir guarded (eq ▸ inDirs)) fun eq => present ?_
    obtain ⟨rfl, rfl⟩ := Prod.mk.inj eq
    exact there

section
variable (held : Guarded dirs s) (unshared : Unshared dirs s) (inside : virt < 2 ^ 32)
  (user : 256 ≤ addr2pde virt) (slot : addr2pde virt < 1023)
  (notWindow : (addr2pde virt, addr2pte virt) ≠ (1022, 1023))
include held unshared inside user slot notWindow

/-- `paging_map` of a user page. -/
theorem map_pointed (away : Outside s.mem (addr2page phys))
    (ran : pagingMap s virt phys u w = some (ok, s')) :
    Pointed dirs s s' (addr2pde virt) (addr2pte virt) (mapEntry phys u w) := by
  rw [map_eq held inside slot] at ran
  obtain ⟨m, readied, same⟩ := Option.map_eq_some_iff.mp ran
  cases same
  have ready := ensure_table held inside slot readied
  obtain ⟨unshared', stackend, slots⟩ := ensure_unshared held unshared inside slot readied
  have evolves := ready.evolves fun _ => True
  have loaded := evolves.curpd
  have pointed := write_pointed (e := mapEntry phys u w) evolves.guarded unshared' user slot
    (by rw [loaded]; exact ready.present) notWindow fun _ => away.of_fewer evolves.fewer
  rw [loaded] at pointed
  refine ⟨pointed.guarded, pointed.unshared, loaded, pointed.stackend.trans stackend,
    fun a member => evolves.fewer a (pointed.fewer a member), fun page table => ?_,
    fun d inDirs i' old => ?_, ?_⟩
  · rcases pointed.tables page table with free | old
    · exact Or.inl (evolves.fewer _ free)
    · exact evolves.tables page old
  · have kept : m.frames d i' = s.frames d i' :=
      old.elim (ready.slots d inDirs i') (slots d inDirs i')
    refine (pointed.slots d inDirs i' ?_).trans kept
    rw [loaded, kept]
    exact old
  · intro d inDirs i' slot' j'
    have written := pointed.entries d inDirs i' slot' j'
    rw [loaded, ready.entries d inDirs i' slot' j'] at written
    exact written

/-- `paging_unmap` of a user page; where the table is missing, the entry is blank. -/
theorem unmap_pointed (ran : pagingUnmap s virt = some (addr, s')) :
    Pointed dirs s s' (addr2pde virt) (addr2pte virt) blank ∧ s'.mem = s.mem ∧
      ∀ d ∈ dirs, s'.frames d = s.frames d := by
  rw [unmap_result held.linked inside] at ran
  cases ran
  by_cases present : (s.frames s.curpd (addr2pde virt)).present = true
  · rw [if_pos present]
    have notDir := held.table_not_dir held.loaded slot present
    refine ⟨?_, rfl, fun _ => write_dir notDir⟩
    exact write_pointed held unshared user slot present notWindow fun there =>
      absurd there (by simp [blank])
  · rw [if_neg present]
    refine ⟨⟨held, unshared, rfl, rfl, fun _ member => member, fun _ table => Or.inr table,
      fun _ _ _ _ => rfl, ?_⟩, rfl, fun _ _ => rfl⟩
    intro d inDirs i' slot' j'
    split
    · rename_i here
      simp only [Prod.mk.injEq] at here
      obtain ⟨rfl, rfl, rfl⟩ := here
      rw [entry, if_neg present]
    · rfl

end

end MeinOS.Paging
