import MeinOS.Memuser

/-! The search of `memuser_findvirt` for free pages. It returns NULL or a range below the
window page, and in the loaded address space it finds a range whenever enough free pages
follow each other below the last page table of user memory. -/
namespace MeinOS.Memuser
open Memphys Paging

variable {dirs : List Nat} {s s' m : Machine} {space : Addrspace} {d : Nat}

/-- Below the window page lies no other entry that the kernel uses for itself. -/
theorem below_window (below : virt < bufpageAddress) :
    addr2pde virt < 1023 ∧ (addr2pde virt, addr2pte virt) ≠ (1022, 1023) := by
  rw [bufpageAddress] at below
  rw [addr2pde, addr2pte, addr2page, Ne, Prod.mk.injEq]
  omega

theorem below_top (below : virt < bufpageAddress) : virt < 2 ^ 32 := by
  rw [bufpageAddress] at below
  omega

/-- The first of several pages. -/
theorem first_below (below : virt + (left + 1) * 4096 ≤ bufpageAddress) : virt < bufpageAddress := by
  omega

/-- The place of a page in the page tables of a directory. -/
def pageEntry (s : Machine) (d page : Nat) : Entry := entry s d (page / 1024) (page % 1024)

/-- `pages` free pages from some page of user memory on, below its last page table. -/
def HasRoom (s : Machine) (d pages : Nat) : Prop :=
  ∃ first, 2 ^ 18 ≤ first ∧ first + pages ≤ 1022 * 1024 ∧
    ∀ page, first ≤ page → page < first + pages → (pageEntry s d page).existing = false

/-- The entry of a page in the loaded directory. -/
theorem getpte_page (linked : SelfLinked s) (inside : page < 2 ^ 20) :
    pagingGetpte s (page * 4096) = some (pageEntry s s.curpd page) := by
  rw [getpte_eq linked (by omega), page_slot, page_word]
  rfl

/-- What the loop reads in the loaded directory. -/
theorem getpde_loaded (held : Guarded dirs s) (inside : page * 4096 < 2 ^ 32) :
    pagingGetpdePd s (page * 4096) s.curpd = some (s.frames s.curpd (page / 1024), s) := by
  rw [pagingGetpdePd, if_pos rfl, getpde_eq held.linked inside, page_slot, Option.map_some]

theorem getpte_loaded (held : Guarded dirs s) (inside : page * 4096 < 2 ^ 32) :
    pagingGetptePd s (page * 4096) s.curpd = some (pageEntry s s.curpd page, s) := by
  rw [pagingGetptePd, if_pos rfl, getpte_page held.linked (by omega), Option.map_some]

/-- The loop at page `page`, in reach of the free pages from `first` on: it has passed
none of them, or counts all that it has passed. -/
theorem findvirt_from_finds (held : Guarded dirs s)
    (room : ∀ page, first ≤ page → page < first + pages →
      (pageEntry s s.curpd page).existing = false)
    (high : first + pages ≤ top) (limit : top < 0xFFBFF)
    (tables : ∀ i, i * 1024 < top → (s.frames s.curpd i).present = false → (i + 1) * 1024 ≤ top)
    (rounds page found : Nat)
    (enough : 2 ^ 20 ≤ page + rounds) (base : 2 ^ 18 + found ≤ page) (low : page ≤ top)
    (reach : page ≤ first ∨ page ≤ first + found) :
    ∃ start, findvirtFrom s.curpd pages rounds (page * 4096) found s = some (start * 4096, s) ∧
      2 ^ 18 ≤ start ∧ start + pages ≤ top := by
  induction rounds generalizing page found with
  | zero => omega
  | succ rounds ih =>
    have inside : page * 4096 < 2 ^ 32 := by omega
    have more : page * 4096 < userdataAddress + userdataSize := by
      have bound : userdataAddress + userdataSize = 0xFFBFF000 := by decide
      omega
    rw [findvirtFrom, if_pos more]
    by_cases done : pages ≤ found
    · rw [if_pos done]
      refine ⟨page - found, ?_, by omega, by omega⟩
      rw [Nat.sub_mul]
    · rw [if_neg done]
      have ahead : page < first + pages := by omega
      have forward : ∃ start, ((pagingGetptePd s (page * 4096) s.curpd).bind fun read =>
          findvirtFrom s.curpd pages rounds (page * 4096 + 4096)
            (if read.1.existing then 0 else found + 1) read.2) = some (start * 4096, s) ∧
          2 ^ 18 ≤ start ∧ start + pages ≤ top := by
        rw [getpte_loaded held inside, Option.bind_some]
        simp only [← Nat.succ_mul]
        by_cases existing : (pageEntry s s.curpd page).existing = true
        · have before : page < first := by
            by_contra after
            have free := room page (by omega) ahead
            rw [existing] at free
            cases free
          rw [if_pos existing]
          exact ih (page + 1) 0 (by omega) (by omega) (by omega) (by omega)
        · rw [if_neg existing]
          exact ih (page + 1) (found + 1) (by omega) (by omega) (by omega) (by omega)
      by_cases atTable : addr2pte (page * 4096) = 0
      · rw [if_pos atTable, getpde_loaded held inside, Option.map_some, Option.bind_some]
        have aligned : page % 1024 = 0 := by
          rwa [page_word] at atTable
        cases present : (s.frames s.curpd (page / 1024)).present with
        | true =>
          simp only [present, Bool.not_true, Bool.false_eq_true, if_false]
          exact forward
        | false =>
          have next : page + 1024 ≤ top := by
            have whole : page / 1024 * 1024 = page := by omega
            have below : page / 1024 * 1024 < top := by
              rw [whole]
              exact Nat.lt_of_lt_of_le ahead high
            have after := tables (page / 1024) below present
            rwa [Nat.succ_mul, whole] at after
          obtain ⟨start, ran, bounds⟩ :=
            ih (page + 1024) (found + 1024) (by linarith) (by linarith) next (by omega)
          refine ⟨start, ?_, bounds⟩
          have jump : page * 4096 + 1023 * 4096 + 4096 = (page + 1024) * 4096 := by ring
          simp only [present, Bool.not_false, if_true, jump]
          exact ran
      · rw [if_neg atTable, Option.bind_some]
        simp only [Bool.false_eq_true, if_false]
        exact forward

theorem findvirt_finds (held : Guarded dirs s) (loaded : space.pagedir = s.curpd)
    (room : HasRoom s s.curpd pages) :
    ∃ start, memuserFindvirt s space pages = some (start * 4096, s) ∧ 2 ^ 18 ≤ start ∧
      start + pages ≤ 1022 * 1024 := by
  obtain ⟨first, base, high, free⟩ := room
  rw [memuserFindvirt, loaded]
  exact findvirt_from_finds held free high (by omega) (fun i below _ => by omega) (2 ^ 20) (2 ^ 18) 0
    (by omega) (by omega) (by omega) (Or.inl base)

/-- Free pages from `start` on that the loop has room to count, up to the window page. -/
def FreeRange (s : Machine) (d pages start : Nat) : Prop :=
  2 ^ 18 ≤ start ∧ start + pages < 0xFFBFF ∧
    ∀ page, start ≤ page → page < start + pages → (pageEntry s d page).existing = false

/-- Looking moves nothing but the window. -/
theorem page_peeked {Known : Nat → Prop} (peeks : Peeks dirs Known s s') (inDirs : d ∈ dirs)
    (below : page < 0xFFBFF) : pageEntry s' d page = pageEntry s d page := by
  refine peeks.entries d inDirs _ (by omega) _ fun window => ?_
  obtain ⟨-, place⟩ := Prod.mk.inj window
  obtain ⟨slot, word⟩ := Prod.mk.inj place
  omega

theorem FreeRange.before {Known : Nat → Prop} (peeks : Peeks dirs Known s m) (inDirs : d ∈ dirs)
    (range : FreeRange m d pages start) : FreeRange s d pages start := by
  obtain ⟨low, high, free⟩ := range
  refine ⟨low, high, fun page above below => ?_⟩
  rw [← page_peeked peeks inDirs (Nat.lt_trans below high)]
  exact free page above below

/-- The loop passes a table only if it is missing. -/
theorem skip_peeks (held : Guarded dirs s) (inDirs : d ∈ dirs) (below : page < 0xFFBFF)
    (looked : (if addr2pte (page * 4096) = 0 then
      (pagingGetpdePd s (page * 4096) d).map fun (pde, s) => (!pde.present, s)
      else some (false, s)) = some (skip, m)) :
    Peeks dirs (Table dirs s) s m ∧ (d = s.curpd → m = s) ∧
      (skip = true → ∀ q < 0xFFBFF, page ≤ q → q < page + 1024 → (pageEntry s d q).existing = false) := by
  by_cases atTable : addr2pte (page * 4096) = 0
  · rw [if_pos atTable] at looked
    obtain ⟨⟨pde, t⟩, got, same⟩ := Option.map_eq_some_iff.mp looked
    cases same
    obtain ⟨rfl, peeks, stays⟩ := getpde_pd_spec held inDirs (by omega) got
    refine ⟨peeks, fun loaded => by rwa [if_pos loaded] at stays, fun absent q _ above under => ?_⟩
    rw [page_word] at atTable
    rw [page_slot] at absent
    have slot : q / 1024 = page / 1024 := by omega
    rw [pageEntry, entry, slot, if_neg (by simpa using absent)]
    rfl
  · rw [if_neg atTable] at looked
    cases looked
    exact ⟨.refl held, fun _ => rfl, fun absurd => by cases absurd⟩

/-- The loop at page `page`, in any directory: the `found` pages before it are free, and so is
what it finds. -/
theorem findvirt_from_free (inDirs : d ∈ dirs) (rounds page found : Nat) (held : Guarded dirs s)
    (base : 2 ^ 18 + found ≤ page)
    (free : ∀ q < 0xFFBFF, page ≤ q + found → q < page → (pageEntry s d q).existing = false)
    (ran : findvirtFrom d pages rounds (page * 4096) found s = some (addr, s')) :
    Peeks dirs (Table dirs s) s s' ∧ (d = s.curpd → s' = s) ∧
      (addr = 0 ∨ ∃ start, addr = start * 4096 ∧ FreeRange s d pages start) := by
  induction rounds generalizing page found s with
  | zero =>
    cases ran
    exact ⟨.refl held, fun _ => rfl, Or.inl rfl⟩
  | succ rounds ih =>
    have bound : userdataAddress + userdataSize = 0xFFBFF000 := by decide
    rw [findvirtFrom, bound] at ran
    by_cases more : page * 4096 < 0xFFBFF000
    · have below : page < 0xFFBFF := by omega
      rw [if_pos more] at ran
      by_cases done : pages ≤ found
      · rw [if_pos done] at ran
        cases ran
        refine ⟨.refl held, fun _ => rfl,
          Or.inr ⟨page - found, by rw [Nat.sub_mul], by omega, by omega, ?_⟩⟩
        intro q above under
        exact free q (by omega) (by omega) (by omega)
      · rw [if_neg done] at ran
        obtain ⟨⟨skip, m⟩, looked, ran⟩ := Option.bind_eq_some_iff.mp ran
        obtain ⟨look, stays, missing⟩ := skip_peeks held inDirs below looked
        have further : ∀ t, Peeks dirs (Table dirs s) s t → (d = s.curpd → t = s) → ∀ next count,
            2 ^ 18 + count ≤ next →
            (∀ q < 0xFFBFF, next ≤ q + count → q < next → (pageEntry s d q).existing = false) →
            findvirtFrom d pages rounds (next * 4096) count t = some (addr, s') →
            Peeks dirs (Table dirs s) s s' ∧ (d = s.curpd → s' = s) ∧
              (addr = 0 ∨ ∃ start, addr = start * 4096 ∧ FreeRange s d pages start) := by
          intro t peeks same next count base' free' ran'
          obtain ⟨rest, loaded, result⟩ := ih next count peeks.evolves.guarded base'
            (fun q low above under => by
              rw [page_peeked peeks inDirs low]
              exact free' q low above under) ran'
          refine ⟨peeks.trans rest, fun here => ?_, result.imp_right fun ⟨start, at', range⟩ =>
            ⟨start, at', range.before peeks inDirs⟩⟩
          rw [loaded (here.trans peeks.evolves.curpd.symm), same here]
        cases skip with
        | true =>
          have jump : page * 4096 + 1023 * 4096 + 4096 = (page + 1024) * 4096 := by ring
          simp only [if_true, jump] at ran
          refine further m look stays _ _ (by omega) (fun q low above under => ?_) ran
          by_cases new : page ≤ q
          · exact missing rfl q low new under
          · exact free q low (by omega) (by omega)
        | false =>
          simp only [Bool.false_eq_true, if_false] at ran
          obtain ⟨⟨pte, t⟩, got, ran⟩ := Option.bind_eq_some_iff.mp ran
          have slot : addr2pde (page * 4096) < 1023 := by
            rw [page_slot]
            omega
          obtain ⟨rfl, peeks, stays'⟩ :=
            getpte_pd_spec look.evolves.guarded inDirs (by omega) slot got
          have read : entry m d (addr2pde (page * 4096)) (addr2pte (page * 4096)) =
              pageEntry s d page := by
            rw [page_slot, page_word]
            exact page_peeked look inDirs below
          rw [read, ← Nat.succ_mul] at ran
          refine further t (look.trans peeks) (fun here => ?_) _ _ (by split <;> omega)
            (fun q low above under => ?_) ran
          · rw [if_pos (here.trans look.evolves.curpd.symm)] at stays'
            rw [stays', stays here]
          · split at above
            · omega
            · rename_i empty
              by_cases here : q = page
              · rw [here]
                exact Bool.eq_false_of_not_eq_true empty
              · exact free q low (by omega) (by omega)
    · rw [if_neg more] at ran
      cases ran
      exact ⟨.refl held, fun _ => rfl, Or.inl rfl⟩

/-- The whole search. -/
theorem findvirt_free (held : Guarded dirs s) (inDirs : space.pagedir ∈ dirs)
    (ran : memuserFindvirt s space pages = some (addr, s')) :
    Peeks dirs (Table dirs s) s s' ∧ (space.pagedir = s.curpd → s' = s) ∧
      (addr = 0 ∨ ∃ start, addr = start * 4096 ∧ FreeRange s space.pagedir pages start) := by
  have base : userdataAddress = 2 ^ 18 * 4096 := by decide
  rw [memuserFindvirt, base] at ran
  exact findvirt_from_free inDirs (2 ^ 20) (2 ^ 18) 0 held (by omega) (fun q _ _ _ => by omega) ran

section
variable (held : Guarded dirs s) (loaded : space.pagedir = s.curpd)
  (last : (s.frames s.curpd 1022).present = true)
include held loaded last

/-- With the last table of user memory there, the search in the loaded address space finds a
range if there is one. -/
theorem findvirt_room (room : FreeRange s s.curpd pages first) :
    ∃ start, memuserFindvirt s space pages = some (start * 4096, s) ∧ 2 ^ 18 ≤ start := by
  obtain ⟨low, high, free⟩ := room
  have base : userdataAddress = 2 ^ 18 * 4096 := by decide
  have below : first + pages ≤ 0xFFBFE := by omega
  have tables : ∀ i, i * 1024 < 0xFFBFE → (s.frames s.curpd i).present = false →
      (i + 1) * 1024 ≤ 0xFFBFE := by
    intro i small absent
    have other : i ≠ 1022 := by
      rintro rfl
      rw [last] at absent
      cases absent
    omega
  obtain ⟨start, found, real, -⟩ := findvirt_from_finds held free below (by omega) tables (2 ^ 20)
    (2 ^ 18) 0 (by omega) (by omega) (by omega) (Or.inl low)
  rw [memuserFindvirt, loaded, base]
  exact ⟨start, found, real⟩

/-- The whole search in the loaded address space, in which the last table of user memory is
there: it returns NULL exactly if there is no such range. -/
theorem findvirt_loaded (ran : memuserFindvirt s space pages = some (addr, s')) :
    s' = s ∧ (addr = 0 ∧ (∀ start, ¬ FreeRange s s.curpd pages start) ∨
      ∃ start, addr = start * 4096 ∧ FreeRange s s.curpd pages start) := by
  obtain ⟨-, stays, result⟩ := findvirt_free held (loaded ▸ held.loaded) ran
  obtain rfl := stays loaded
  rw [loaded] at result
  refine ⟨rfl, ?_⟩
  rcases result with rfl | found
  · refine Or.inl ⟨rfl, fun first room => ?_⟩
    obtain ⟨start, found, real⟩ := findvirt_room held loaded last room
    have null := (Prod.mk.inj (Option.some.inj (found.symm.trans ran))).1
    omega
  · exact Or.inr found

end

end MeinOS.Memuser
