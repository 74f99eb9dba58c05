import MeinOS.Paging

/-! The stack of free pages over whole runs of `memphys_push` and `memphys_pop`.

A page that finds the stack full becomes a page of the stack itself, and where there is no
page table for its place `paging_map` takes one from the stack at that moment. So every page
that was ever pushed is on the stack, handed out or part of the stack, and these are told
apart by a ledger of what was pushed and what was handed out. -/
namespace MeinOS.MemphysStack
open Lib Lib.Runs Memphys

/-- The entries that one page of the stack holds. -/
def entriesPerPage : Nat := pageSize / 4

/-- The pages that store the stack. -/
def storagePages (m : PhysMem) : List Nat :=
  (List.range (m.stackend / entriesPerPage)).filterMap m.stackPages

/-- `memphys_push`; with `table`, `paging_map` finds no page table for the next page of the
stack and takes one with `memphys_alloc`. The pages it took are returned. -/
def memphysPushMapping (m : PhysMem) (page : Nat) (table : Bool) : Option (List Nat × PhysMem) :=
  if page ≠ 0 ∧ m.stackptr = m.stackend ∧ table then
    (memphysPop m).map fun (taken, m) => ([taken], memphysGrow m page)
  else some ([], memphysPush m page)

/-- The stack, every page that was ever pushed, and those that are handed out. -/
structure Ledger where
  mem : PhysMem
  pushed : List Nat
  handedOut : List Nat

inductive Event where
  /-- A page that the stack has not seen. -/
  | push (page : Nat) (table : Bool)
  /-- A page whose owner gives it back. -/
  | giveBack (page : Nat) (table : Bool)
  | pop
  deriving DecidableEq

/-- The address of a physical page. -/
def IsPage (addr : Nat) : Prop := addr % pageSize = 0 ∧ addr < 2 ^ 32

instance (addr : Nat) : Decidable (IsPage addr) := inferInstanceAs (Decidable (_ ∧ _))

/-- The page is somewhere already. -/
def Known (w : Ledger) (page : Nat) : Prop :=
  page ∈ freePages w.mem ∨ page ∈ w.handedOut ∨ page ∈ storagePages w.mem

instance (w : Ledger) (page : Nat) : Decidable (Known w page) := inferInstanceAs (Decidable (_ ∨ _))

/-- One call. NULL may be pushed at any time; a call that panics is not a step. -/
def step (w : Ledger) : Event → Option Ledger
  | .push page table =>
    if page = 0 then some { w with mem := memphysPush w.mem page }
    else if IsPage page ∧ ¬ Known w page then
      (memphysPushMapping w.mem page table).map fun (taken, mem) =>
        { mem := mem, pushed := page :: w.pushed, handedOut := taken ++ w.handedOut }
    else none
  | .giveBack page table =>
    if page ∈ w.handedOut then
      (memphysPushMapping w.mem page table).map fun (taken, mem) =>
        { w with mem := mem, handedOut := taken ++ w.handedOut.erase page }
    else none
  | .pop => (memphysPop w.mem).map fun (page, mem) =>
      { w with mem := mem, handedOut := page :: w.handedOut }

/-- The stack inside its pages, and the pages ever pushed as a disjoint union. The stack
does not outgrow `STACKDATA_SIZE`, so its pointers never wrap. -/
structure PageStack (w : Ledger) : Prop where
  bounded : w.mem.stackptr ≤ w.mem.stackend
  whole : entriesPerPage ∣ w.mem.stackend
  in_place : w.mem.stackend ≤ 2 ^ 20
  distinct : (freePages w.mem).Nodup
  exact_union : ∀ page, page ∈ w.pushed ↔ Known w page
  stack_out : (freePages w.mem).Disjoint w.handedOut
  stack_storage : (freePages w.mem).Disjoint (storagePages w.mem)
  out_storage : w.handedOut.Disjoint (storagePages w.mem)

/-- What the steps keep: every page that was pushed is counted once, in one of the three
places. -/
structure Accounts (w : Ledger) : Prop where
  bounded : w.mem.stackptr ≤ w.mem.stackend
  whole : entriesPerPage ∣ w.mem.stackend
  in_place : w.mem.stackend ≤ 2 ^ 20
  pages : ∀ page ∈ w.pushed, IsPage page ∧ page ≠ 0
  once : w.pushed.Nodup
  balance : w.pushed.Perm (freePages w.mem ++ (w.handedOut ++ storagePages w.mem))

theorem Accounts.page_stack (held : Accounts w) : PageStack w := by
  have distinct := held.balance.nodup held.once
  obtain ⟨free, rest, apart⟩ := List.nodup_append'.mp distinct
  obtain ⟨-, -, others⟩ := List.nodup_append'.mp rest
  obtain ⟨out, storage⟩ := List.disjoint_append_right.mp apart
  refine ⟨held.bounded, held.whole, held.in_place, free, fun page => ?_, out, storage, others⟩
  rw [held.balance.mem_iff, List.mem_append, List.mem_append]
  rfl

/-- Every entry of the stack is another page, so a full stack has not reached its end. -/
theorem Accounts.short (held : Accounts w) : w.mem.stackptr < 2 ^ 20 := by
  have count := pages_short (held.page_stack.distinct) fun page member => by
    have known := (held.page_stack.exact_union page).mpr (Or.inl member)
    obtain ⟨⟨aligned, below⟩, real⟩ := held.pages page known
    exact ⟨aligned, real, below⟩
  rwa [freePages, List.length_map, List.length_range] at count

/-- A page that finds room goes on top; the pages of the stack stay. -/
theorem push_room (real : page ≠ 0) (room : m.stackptr ≠ m.stackend)
    (bounded : m.stackptr ≤ m.stackend) :
    freePages (memphysPush m page) = freePages m ++ [page] ∧
      storagePages (memphysPush m page) = storagePages m ∧
      (memphysPush m page).stackptr ≤ (memphysPush m page).stackend ∧
      (memphysPush m page).stackend = m.stackend := by
  refine ⟨push_free_pages real room, ?_⟩
  rw [memphysPush, if_neg real, if_neg room]
  exact ⟨rfl, by change m.stackptr + 1 ≤ m.stackend; omega, rfl⟩

/-- A page that becomes part of the stack. -/
theorem grow_storage (m : PhysMem) (page : Nat) :
    freePages (memphysGrow m page) = freePages m ∧
      storagePages (memphysGrow m page) = storagePages m ++ [page] := by
  refine ⟨rfl, ?_⟩
  have next : (memphysGrow m page).stackend / entriesPerPage =
      m.stackend / entriesPerPage + 1 := Nat.add_div_right _ (by decide)
  rw [storagePages, next, List.range_succ, List.filterMap_append]
  refine congrArg₂ _ (List.filterMap_congr fun i member => ?_) ?_
  · have below := List.mem_range.mp member
    exact Function.update_of_ne (Nat.ne_of_lt below) _ _
  · change [m.stackend / entriesPerPage].filterMap
      (Function.update m.stackPages (m.stackend / entriesPerPage) (some page)) = [page]
    simp

/-- What a push does with a real page: one of the three places gains it, and a page table
that is needed goes from the stack to the pages handed out. -/
theorem push_mapping_spec (real : page ≠ 0) (bounded : m.stackptr ≤ m.stackend)
    (whole : entriesPerPage ∣ m.stackend) (place : m.stackend ≤ 2 ^ 20) (short : m.stackptr < 2 ^ 20)
    (ran : memphysPushMapping m page table = some (taken, m')) :
    m'.stackptr ≤ m'.stackend ∧ entriesPerPage ∣ m'.stackend ∧ m'.stackend ≤ 2 ^ 20 ∧
      (page :: (freePages m ++ storagePages m)).Perm
        (freePages m' ++ (taken ++ storagePages m')) := by
  have next : m.stackptr = m.stackend → m.stackend + entriesPerPage ≤ 2 ^ 20 := by
    intro full
    obtain ⟨count, size⟩ := whole
    rw [show entriesPerPage = 1024 from rfl] at size ⊢
    omega
  by_cases mapping : page ≠ 0 ∧ m.stackptr = m.stackend ∧ table = true
  · rw [memphysPushMapping, if_pos mapping] at ran
    obtain ⟨⟨first, rest⟩, popped, same⟩ := Option.map_eq_some_iff.mp ran
    cases same
    obtain ⟨free, -⟩ := pop_spec bounded popped
    obtain ⟨-, -, rfl⟩ := pop_eq bounded popped
    obtain ⟨kept, stored⟩ := grow_storage { m with stackptr := m.stackptr - 1 } page
    refine ⟨Nat.le_trans (Nat.sub_le _ _) (Nat.le_add_right_of_le bounded),
      Nat.dvd_add whole (Nat.dvd_refl _), next mapping.2.1, ?_⟩
    rw [kept, stored, free]
    refine List.perm_iff_count.mpr fun a => ?_
    simp only [List.count_cons, List.count_append, List.count_nil]
    rw [show storagePages { m with stackptr := m.stackptr - 1 } = storagePages m from rfl]
    omega
  · rw [memphysPushMapping, if_neg mapping] at ran
    cases ran
    by_cases full : m.stackptr = m.stackend
    · have grown : memphysPush m page = memphysGrow m page := by
        rw [memphysPush, if_neg real, if_pos full]
      obtain ⟨kept, stored⟩ := grow_storage m page
      rw [grown, kept, stored]
      refine ⟨Nat.le_add_right_of_le bounded, Nat.dvd_add whole (Nat.dvd_refl _), next full, ?_⟩
      refine List.perm_iff_count.mpr fun a => ?_
      simp only [List.count_cons, List.count_append, List.count_nil]
      omega
    · obtain ⟨kept, stored, inside, same⟩ := push_room real full bounded
      rw [kept, stored, same]
      refine ⟨same ▸ inside, whole, place, List.perm_iff_count.mpr fun a => ?_⟩
      simp only [List.count_cons, List.count_append, List.count_nil]
      omega

theorem step_accounts (w : Ledger) (event : Event) (w' : Ledger) (held : Accounts w)
    (ran : step w event = some w') : Accounts w' := by
  cases event with
  | push page table =>
    by_cases null : page = 0
    · rw [step, if_pos null, null] at ran
      cases ran
      exact held
    · rw [step, if_neg null] at ran
      obtain ⟨⟨isPage, unknown⟩, ran⟩ := Option.ite_none_right_eq_some.mp ran
      obtain ⟨⟨taken, mem⟩, done, rfl⟩ := Option.map_eq_some_iff.mp ran
      obtain ⟨bounded, whole, place, moved⟩ :=
        push_mapping_spec null held.bounded held.whole held.in_place held.short done
      have fresh : page ∉ w.pushed := fun old =>
        unknown ((held.page_stack.exact_union page).mp old)
      refine ⟨bounded, whole, place, fun p member => ?_, List.nodup_cons.mpr ⟨fresh, held.once⟩, ?_⟩
      · rcases List.mem_cons.mp member with rfl | old
        · exact ⟨isPage, null⟩
        · exact held.pages p old
      · refine List.perm_iff_count.mpr fun a => ?_
        have before := held.balance.count_eq a
        have after := moved.count_eq a
        simp only [List.count_cons, List.count_append] at before after ⊢
        omega
  | giveBack page table =>
    obtain ⟨owned, ran⟩ := Option.ite_none_right_eq_some.mp ran
    obtain ⟨⟨taken, mem⟩, done, rfl⟩ := Option.map_eq_some_iff.mp ran
    have known : page ∈ w.pushed := (held.page_stack.exact_union page).mpr (Or.inr (Or.inl owned))
    obtain ⟨bounded, whole, place, moved⟩ := push_mapping_spec (held.pages page known).2
      held.bounded held.whole held.in_place held.short done
    refine ⟨bounded, whole, place, held.pages, held.once, List.perm_iff_count.mpr fun a => ?_⟩
    have before := held.balance.count_eq a
    have after := moved.count_eq a
    have taken := (List.perm_cons_erase owned).count_eq a
    simp only [List.count_cons, List.count_append] at before after taken ⊢
    omega
  | pop =>
    obtain ⟨⟨page, mem⟩, popped, rfl⟩ := Option.map_eq_some_iff.mp ran
    obtain ⟨free, bounded⟩ := pop_spec held.bounded popped
    obtain ⟨-, -, rfl⟩ := pop_eq held.bounded popped
    refine ⟨bounded, held.whole, held.in_place, held.pages, held.once, List.perm_iff_count.mpr fun a => ?_⟩
    have before := held.balance.count_eq a
    rw [free] at before
    simp only [List.count_cons, List.count_append, List.count_nil] at before ⊢
    rw [show storagePages { w.mem with stackptr := w.mem.stackptr - 1 } = storagePages w.mem from rfl]
    omega

/-- The stack as `memphys_init` sets it up, over memory with any contents. -/
def emptied (m : PhysMem) : Ledger where
  mem := { m with stackptr := 0, stackend := 0 }
  pushed := []
  handedOut := []

theorem emptied_accounts (m : PhysMem) : Accounts (emptied m) where
  bounded := Nat.le_refl 0
  whole := Nat.dvd_zero _
  in_place := Nat.zero_le _
  pages := by simp [emptied]
  once := List.nodup_nil
  balance := by simp [emptied, freePages, storagePages]

/-- In every run the stack stays inside its pages and every page that was pushed is in
exactly one place. -/
theorem page_stack_accounts (m : PhysMem) (events : List Event)
    (ran : run step (emptied m) events = some w) : PageStack w :=
  (run_invariant step_accounts (emptied_accounts m) ran).page_stack

/-- The first page is used for the stack, the others are stored on it, handed out and given
back. -/
theorem five_pages_accounted :
    ∃ w, run step (emptied ⟨fun _ => 7, 3, 5, fun _ => none, fun _ => 0⟩)
        [.push 0x303000 false, .push 0x304000 false, .push 0 false, .push 0x305000 true, .pop,
          .giveBack 0x305000 false, .pop] = some w ∧
      w.handedOut = [0x305000] ∧ PageStack w := by
  refine reached_of (P := fun w => w.handedOut = [0x305000]) (by decide) fun w ran out => ⟨out, ?_⟩
  exact page_stack_accounts _ _ ran

section Paging
open Paging

end Paging

end MeinOS.MemphysStack
