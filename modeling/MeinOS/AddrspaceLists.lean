import MeinOS.ProcmMemory

/-! The lists of an address space against its page tables, call by call.

A page of user memory that exists is on `pages_loaded` if it has memory and on
`pages_imaginary` if not. What each call does is said once: the entries it touches, and that
the lists count every page as its entry says. -/
namespace MeinOS.AddrspaceLists
open Llist Memphys Paging Memuser ProcmMemory

variable {dirs : List Nat} {s s' m : Machine} {space space' : Addrspace} {d p : Nat} {e : Entry}

/-- A page of user memory, by number. -/
def UserPage (p : Nat) : Prop := 2 ^ 18 ≤ p ∧ p < windowPage

instance (p : Nat) : Decidable (UserPage p) := inferInstanceAs (Decidable (_ ∧ _))

/-- The address of a page of user memory. -/
def UserAddr (addr : Nat) : Prop := UserPage (addr2page addr) ∧ addr % 4096 = 0

instance (addr : Nat) : Decidable (UserAddr addr) := inferInstanceAs (Decidable (_ ∧ _))

/-- Every user page that exists is on one of the two lists, once, on `pages_loaded` exactly
if it is in memory; and what is on the lists exists. -/
structure Booked (s : Machine) (space : Addrspace) : Prop where
  once : ∀ p, UserPage p → (pageEntry s space.pagedir p).existing = true →
    space.pagesLoaded.count (p * 4096) + space.pagesImaginary.count (p * 4096) = 1 ∧
      (p * 4096 ∈ space.pagesLoaded ↔ (pageEntry s space.pagedir p).present = true)
  listed : ∀ addr ∈ space.pagesLoaded ++ space.pagesImaginary,
    (pageEntry s space.pagedir (addr2page addr)).existing = true

/-- How often a page with this entry is on the two lists. -/
def loadedCount (e : Entry) : Nat := if e.existing ∧ e.present then 1 else 0

def imaginaryCount (e : Entry) : Nat := if e.existing ∧ ¬ e.present then 1 else 0

/-- The lists, counted page by page. -/
structure Kept (s : Machine) (space : Addrspace) : Prop where
  loaded : ∀ p, UserPage p →
    space.pagesLoaded.count (p * 4096) = loadedCount (pageEntry s space.pagedir p)
  imaginary : ∀ p, UserPage p →
    space.pagesImaginary.count (p * 4096) = imaginaryCount (pageEntry s space.pagedir p)
  users : ∀ addr ∈ space.pagesLoaded ++ space.pagesImaginary, UserAddr addr

theorem user_addr_mul (user : UserPage p) : UserAddr (p * 4096) := by
  refine ⟨?_, by omega⟩
  rw [addr2page_mul]
  exact user

theorem UserAddr.whole (user : UserAddr addr) : addr = addr2page addr * 4096 := by
  have aligned := user.2
  rw [addr2page]
  omega

theorem Kept.booked (kept : Kept s space) : Booked s space where
  once p user existing := by
    have loaded := kept.loaded p user
    have imaginary := kept.imaginary p user
    rw [← List.count_pos_iff]
    cases present : (pageEntry s space.pagedir p).present <;>
      simp [loaded, imaginary, loadedCount, imaginaryCount, existing, present]
  listed addr member := by
    have user := kept.users addr member
    by_contra missing
    have loaded := kept.loaded _ user.1
    have imaginary := kept.imaginary _ user.1
    rw [← user.whole] at loaded imaginary
    simp only [loadedCount, imaginaryCount, missing, false_and, if_false,
      List.count_eq_zero] at loaded imaginary
    rcases List.mem_append.mp member with there | there
    · exact loaded there
    · exact imaginary there

theorem Booked.kept (booked : Booked s space)
    (users : ∀ addr ∈ space.pagesLoaded ++ space.pagesImaginary, UserAddr addr) :
    Kept s space := by
  have missing : ∀ p, (pageEntry s space.pagedir p).existing = false →
      p * 4096 ∉ space.pagesLoaded ++ space.pagesImaginary := by
    intro p absent member
    have there := booked.listed _ member
    rw [addr2page_mul, absent] at there
    cases there
  have counts : ∀ p, UserPage p →
      space.pagesLoaded.count (p * 4096) = loadedCount (pageEntry s space.pagedir p) ∧
        space.pagesImaginary.count (p * 4096) = imaginaryCount (pageEntry s space.pagedir p) := by
    intro p user
    cases existing : (pageEntry s space.pagedir p).existing with
    | false =>
      have none := missing p existing
      rw [List.mem_append, not_or] at none
      simp [loadedCount, imaginaryCount, existing, List.count_eq_zero, none]
    | true =>
      obtain ⟨once, loaded⟩ := booked.once p user existing
      cases present : (pageEntry s space.pagedir p).present with
      | false =>
        have none : space.pagesLoaded.count (p * 4096) = 0 := by
          apply List.count_eq_zero_of_not_mem
          rw [loaded, present]
          exact Bool.false_ne_true
        simp only [loadedCount, imaginaryCount, existing, present]
        exact ⟨none, by simpa [none] using once⟩
      | true =>
        have listed : 0 < space.pagesLoaded.count (p * 4096) :=
          List.count_pos_iff.mpr (loaded.mpr present)
        simp only [loadedCount, imaginaryCount, existing, present]
        exact ⟨by simp; omega, by simp; omega⟩
  exact ⟨fun p user => (counts p user).1, fun p user => (counts p user).2, users⟩

/-- A list that has changed for one page only, which it now has `n` times. -/
structure Relisted (p n : Nat) (list list' : List Nat) : Prop where
  here : list'.count (p * 4096) = n
  others : ∀ q, q ≠ p → list'.count (q * 4096) = list.count (q * 4096)
  members : ∀ addr ∈ list', addr = p * 4096 ∨ addr ∈ list

theorem Relisted.same (count : list.count (p * 4096) = n) : Relisted p n list list :=
  ⟨count, fun _ _ => rfl, fun _ member => .inr member⟩

theorem Relisted.push (count : list.count (p * 4096) + 1 = n) :
    Relisted p n list (llistPush list (p * 4096)) where
  here := by
    rw [llistPush, List.count_cons_self]
    exact count
  others q other := List.count_cons_of_ne (by omega)
  members _ member := List.mem_cons.mp member

theorem Relisted.drop (count : list.count (p * 4096) - 1 = n) :
    Relisted p n list (llistDrop list (p * 4096)) := by
  rw [llistDrop, llist_remove_find]
  refine ⟨?_, fun q other => List.count_erase_of_ne (by omega), fun _ member => .inr (List.mem_of_mem_erase member)⟩
  rw [List.count_erase_self]
  exact count

/-- The entries of a directory that a step at one page leaves as they were. -/
theorem touches_others (touches : Touches dirs (Just d p) s s')
    (inDirs : d ∈ dirs) (q : Nat) (user : UserPage q) (other : q ≠ p) :
    pageEntry s' d q = pageEntry s d q :=
  touches.pages d inDirs q user.2 fun same => other (Prod.mk.inj same).2

section
variable (kept : Kept s space) (user : UserPage p) (inDirs : space.pagedir ∈ dirs)
  (touches : Touches dirs (Just space.pagedir p) s s')
include kept user inDirs touches

/-- The entry of one page is new, and the lists have changed for that page only. -/
theorem Kept.change (here : pageEntry s' space.pagedir p = e)
    (pagedir : space'.pagedir = space.pagedir)
    (loaded : Relisted p (loadedCount e) space.pagesLoaded space'.pagesLoaded)
    (imaginary : Relisted p (imaginaryCount e) space.pagesImaginary space'.pagesImaginary) :
    Kept s' space' := by
  have others := touches_others touches inDirs
  refine ⟨fun q inUser => ?_, fun q inUser => ?_, fun addr member => ?_⟩
  · rw [pagedir]
    by_cases same : q = p
    · rw [same, here, loaded.here]
    · rw [others q inUser same, loaded.others q same, kept.loaded q inUser]
  · rw [pagedir]
    by_cases same : q = p
    · rw [same, here, imaginary.here]
    · rw [others q inUser same, imaginary.others q same, kept.imaginary q inUser]
  · rcases List.mem_append.mp member with there | there
    · rcases loaded.members addr there with rfl | old
      · exact user_addr_mul user
      · exact kept.users addr (List.mem_append_left _ old)
    · rcases imaginary.members addr there with rfl | old
      · exact user_addr_mul user
      · exact kept.users addr (List.mem_append_right _ old)

/-- A page that did not exist gets an entry and goes on a list. -/
theorem Kept.push_loaded (absent : (pageEntry s space.pagedir p).existing = false)
    (here : pageEntry s' space.pagedir p = e) (existing : e.existing = true)
    (present : e.present = true) :
    Kept s' { space with pagesLoaded := llistPush space.pagesLoaded (p * 4096) } := by
  refine kept.change user inDirs touches here rfl (.push ?_) (.same ?_)
  · rw [kept.loaded p user]
    simp [loadedCount, absent, existing, present]
  · rw [kept.imaginary p user]
    simp [imaginaryCount, absent, existing, present]

/-- The entry of an imaginary page gets its page, and the page changes lists. -/
theorem Kept.fill (existing : (pageEntry s space.pagedir p).existing = true)
    (missing : (pageEntry s space.pagedir p).present = false)
    (here : pageEntry s' space.pagedir p = { pageEntry s space.pagedir p with page := new, present := true }) :
    Kept s' { space with
      pagesImaginary := llistDrop space.pagesImaginary (p * 4096)
      pagesLoaded := llistPush space.pagesLoaded (p * 4096) } := by
  refine kept.change user inDirs touches here rfl (.push ?_) (.drop ?_)
  · rw [kept.loaded p user]
    simp [loadedCount, existing, missing]
  · rw [kept.imaginary p user]
    simp [imaginaryCount, existing, missing]

/-- A page that is in memory gets another page. -/
theorem Kept.replace
    (existing : (pageEntry s' space.pagedir p).existing = (pageEntry s space.pagedir p).existing)
    (present : (pageEntry s' space.pagedir p).present = (pageEntry s space.pagedir p).present) :
    Kept s' space := by
  refine kept.change user inDirs touches rfl rfl (.same ?_) (.same ?_)
  · rw [kept.loaded p user, loadedCount, loadedCount, existing, present]
  · rw [kept.imaginary p user, imaginaryCount, imaginaryCount, existing, present]

/-- A page is unmapped and taken off all lists it can be on. -/
theorem Kept.clear (here : pageEntry s' space.pagedir p = blank)
    (pagedir : space'.pagedir = space.pagedir)
    (loaded : space'.pagesLoaded = llistDrop space.pagesLoaded (p * 4096))
    (imaginary : space'.pagesImaginary = llistDrop space.pagesImaginary (p * 4096)) :
    Kept s' space' := by
  refine kept.change user inDirs touches here pagedir (loaded ▸ .drop ?_) (imaginary ▸ .drop ?_)
  · rw [kept.loaded p user, loadedCount, loadedCount]
    split <;> simp [blank]
  · rw [kept.imaginary p user, imaginaryCount, imaginaryCount]
    split <;> simp [blank]

end

/-- Nothing changed in the directory of the address space. -/
theorem Kept.of_same (kept : Kept s space)
    (same : ∀ q, UserPage q → pageEntry s' space.pagedir q = pageEntry s space.pagedir q) :
    Kept s' space where
  loaded q user := by
    rw [same q user]
    exact kept.loaded q user
  imaginary q user := by
    rw [same q user]
    exact kept.imaginary q user
  users := kept.users

/-- What a call does to one address space: its entries of user memory may change, its lists
are kept with them, and its stack stays a page address below the window. -/
structure Moves (dirs : List Nat) (s s' : Machine) (space space' : Addrspace) : Prop where
  touches : Touches dirs (fun d p => d = space.pagedir ∧ UserPage p) s s'
  pagedir : space'.pagedir = space.pagedir
  stack : space'.stack % 4096 = 0 ∧ space'.stack ≤ userstackEnd
  kept : Kept s' space'

/-- A directory and its stack, before a call. -/
structure Ours (dirs : List Nat) (s : Machine) (space : Addrspace) : Prop where
  guarded : Guarded dirs s
  unshared : Unshared dirs s
  inDirs : space.pagedir ∈ dirs
  stack : space.stack % 4096 = 0 ∧ space.stack ≤ userstackEnd
  kept : Kept s space

theorem Ours.after (ours : Ours dirs s space) (touches : Touches dirs (fun _ _ => False) s s') :
    Ours dirs s' space :=
  ⟨touches.guarded, touches.unshared, ours.inDirs, ours.stack,
    ours.kept.of_same fun q user => touches.pages _ ours.inDirs q user.2 not_false⟩

theorem Ours.moves (ours : Ours dirs s space) (touches : Touches dirs (fun _ _ => False) s s') :
    Moves dirs s s' space space :=
  ⟨touches.mono fun _ _ => False.elim, rfl, ours.stack, (ours.after touches).kept⟩

theorem Moves.after (first : Touches dirs (fun _ _ => False) s m)
    (second : Moves dirs m s' space space') : Moves dirs s s' space space' :=
  { second with touches := (first.mono fun _ _ => False.elim).append second.touches }

/-- A step at one page of user memory. -/
theorem Moves.of_page (user : UserPage p) (pagedir : space'.pagedir = space.pagedir)
    (stack : space'.stack % 4096 = 0 ∧ space'.stack ≤ userstackEnd)
    (touches : Touches dirs (Just space.pagedir p) s s')
    (kept : Kept s' space') : Moves dirs s s' space space' := by
  refine ⟨touches.mono fun d' p' same => ?_, pagedir, stack, kept⟩
  obtain ⟨rfl, rfl⟩ := Prod.mk.inj same
  exact ⟨rfl, user⟩

/-- The page at an address and its slot. -/
theorem UserPage.place (user : UserPage p) :
    p * 4096 < 2 ^ 32 ∧ addr2pde (p * 4096) < 1023 ∧ 2 ^ 18 ≤ addr2page (p * 4096) ∧
      addr2page (p * 4096) < windowPage := by
  obtain ⟨low, high⟩ := user
  rw [windowPage] at high ⊢
  rw [page_slot, addr2page_mul]
  omega

/-- What `memuser_alloc` does for some pages from `first` on. -/
structure Allocated (dirs : List Nat) (swappable : Bool) (first pages : Nat) (s s' : Machine)
    (space space' : Addrspace) : Prop where
  touches : Touches dirs (fun d p => d = space.pagedir ∧ first ≤ p ∧ p < first + pages) s s'
  entries : ∀ p, first ≤ p → p < first + pages →
    pageEntry s' space.pagedir p = imaginaryEntry swappable
  lists : space' = { space with
    pagesImaginary := ((List.range' first pages).map (· * 4096)).reverse ++ space.pagesImaginary }

/-- The loop of `memuser_alloc`. -/
theorem alloc_pages_allocated (swappable : Bool) (left page : Nat) (held : Guarded dirs s)
    (unshared : Unshared dirs s) (inDirs : space.pagedir ∈ dirs) (low : 2 ^ 18 ≤ page)
    (high : page + left ≤ windowPage)
    (ran : allocPages swappable left (page * 4096) s space = some (s', space')) :
    Allocated dirs swappable page left s s' space space' := by
  induction left generalizing page s space with
  | zero =>
    cases ran
    exact ⟨.refl held unshared, fun p above below => by omega, by simp⟩
  | succ left ih =>
    have user : UserPage page := ⟨low, by omega⟩
    obtain ⟨inside, slot, place⟩ := user.place
    obtain ⟨m, needed, ran⟩ := Option.bind_eq_some_iff.mp ran
    have first : Touches dirs (fun _ _ => False) s m :=
      need_pagetable_touches held unshared inDirs inside slot needed
    obtain ⟨-, -, present⟩ := need_pagetable_spec held inDirs inside slot needed
    obtain ⟨t, set, ran⟩ := Option.bind_eq_some_iff.mp ran
    obtain ⟨second, written⟩ := setpte_pd_touches first.guarded first.unshared inDirs place.1
      place.2 present (fun there => absurd there (by simp [imaginaryEntry, blank])) set
    rw [addr2page_mul] at second written
    rw [← Nat.succ_mul] at ran
    have listed : ({ space with pagesImaginary := llistPush space.pagesImaginary (page * 4096) } :
        Addrspace).pagedir ∈ dirs := inDirs
    have rest := ih (page + 1) second.guarded second.unshared listed (by omega) (by omega) ran
    refine ⟨(first.trans second |>.trans rest.touches).mono fun d p there => ?_, fun p above below => ?_, ?_⟩
    · rcases there with (none | here) | ⟨same, above, below⟩
      · exact none.elim
      · obtain ⟨rfl, rfl⟩ := Prod.mk.inj here
        exact ⟨rfl, by omega, by omega⟩
      · exact ⟨same, by omega, by omega⟩
    · by_cases here : p = page
      · subst here
        rw [rest.touches.pages _ inDirs p user.2 fun there => by omega]
        exact written
      · exact rest.entries p (by omega) (by omega)
    · rw [rest.lists, List.range'_succ]
      simp [llistPush]

theorem Allocated.kept (allocated : Allocated dirs swappable first pages s s' space space')
    (kept : Kept s space) (inDirs : space.pagedir ∈ dirs) (low : 2 ^ 18 ≤ first)
    (high : first + pages ≤ windowPage)
    (free : ∀ p, first ≤ p → p < first + pages → (pageEntry s space.pagedir p).existing = false) :
    Kept s' space' := by
  have times : ∀ q, ((List.range' first pages).map (· * 4096)).reverse.count (q * 4096) =
      if first ≤ q ∧ q < first + pages then 1 else 0 := by
    intro q
    have counted := List.count_map_of_injective (List.range' first pages) (· * 4096)
      (fun a b same => by simpa using same) q
    rw [List.count_reverse, counted, (List.nodup_range' : (List.range' first pages).Nodup).count]
    simp only [List.mem_range'_1]
  obtain ⟨touches, entries, rfl⟩ := allocated
  refine ⟨fun q user => ?_, fun q user => ?_, fun addr member => ?_⟩
  · rw [kept.loaded q user]
    by_cases inside : first ≤ q ∧ q < first + pages
    · rw [entries q inside.1 inside.2]
      simp [loadedCount, free q inside.1 inside.2, imaginaryEntry, blank]
    · rw [touches.pages _ inDirs q user.2 fun there => inside there.2]
  · rw [List.count_append, times, kept.imaginary q user]
    by_cases inside : first ≤ q ∧ q < first + pages
    · rw [if_pos inside, entries q inside.1 inside.2]
      simp [imaginaryCount, free q inside.1 inside.2, imaginaryEntry, blank]
    · rw [if_neg inside, touches.pages _ inDirs q user.2 fun there => inside there.2, Nat.zero_add]
  · simp only [List.mem_append, List.mem_reverse, List.mem_map, List.mem_range'_1] at member
    rcases member with loaded | ⟨p, ⟨above, below⟩, rfl⟩ | imaginary
    · exact kept.users addr (List.mem_append_left _ loaded)
    · exact user_addr_mul ⟨by omega, by omega⟩
    · exact kept.users addr (List.mem_append_right _ imaginary)

/-- The fresh page is filled from the one that was shared. -/
theorem copy_page_touches (before : Touches dirs At s m) (user : UserPage p)
    (wasFree : addr2page new * 4096 ∈ freePages s.mem) (fresh : Fresh dirs m (addr2page new))
    (target : (pageEntry m m.curpd p).page = addr2page new) (away : Outside m.mem old)
    (ran : pagingPhysreadPage m (p * 4096) (old * 4096) = some s') :
    Touches dirs At s s' ∧ pageEntry s' m.curpd p = pageEntry m m.curpd p ∧
      ¬ Table dirs s' (addr2page new) := by
  have page : addr2page (old * 4096) = old := addr2page_mul old
  obtain ⟨v, shown, ran⟩ := Option.bind_eq_some_iff.mp ran
  obtain ⟨f, seen, ran⟩ := Option.bind_eq_some_iff.mp ran
  obtain ⟨g, stored, rfl⟩ := Option.map_eq_some_iff.mp ran
  obtain ⟨peeks, -⟩ := show_window_spec (fun _ => True) (old * 4096) before.guarded
    (by rwa [page]) trivial shown (Nat.add_zero bufpageAddress ▸ seen) (by omega)
  have look : Touches dirs At m v := peeks.touches before.unshared
  have loaded := before.guarded.loaded
  have slot := (page_not_window user.2).1
  have same : pageEntry v m.curpd p = pageEntry m m.curpd p :=
    page_peeked peeks loaded user.2
  have fresh := fresh.of_evolves peeks.evolves
  obtain rfl : g = addr2page new := by
    have there := (maps_iff_entry _ _ _ _ _).mp (translate_some stored)
    rw [peeks.evolves.curpd, entry_of_addr, addr2page_mul, same, target] at there
    exact there.2.symm
  refine ⟨(before.append look).fill wasFree fresh.notTable _, ?_, fun table => ?_⟩
  · rw [← same]
    exact fill_entries look.guarded fresh.notTable loaded (by omega) _ _
  · exact fresh.notTable (fill_tables (fresh.not_dir look.guarded) table)

/-- The access that makes the stack grow. -/
def GrowsStack (s : Machine) (space : Addrspace) (addr : Nat) : Prop :=
  (pageEntry s space.pagedir (addr2page addr)).existing = false ∧ addr < space.stack ∧
    userstackEnd - userstackMaxsize < addr

instance (s : Machine) (space : Addrspace) (addr : Nat) : Decidable (GrowsStack s space addr) :=
  inferInstanceAs (Decidable (_ ∧ _ ∧ _))

/-- The entry of a page is new: it is in memory, and if the page was not given, no table. -/
structure Loads (dirs : List Nat) (s s' : Machine) (d p : Nat) (given : Prop) : Prop where
  touches : Touches dirs (fun d' p' => (d', p') = (d, p)) s s'
  existing : (pageEntry s' d p).existing = true
  present : (pageEntry s' d p).present = true
  data : ¬ given → ¬ Table dirs s' (pageEntry s' d p).page

/-- The page below the stack. -/
def nextStack (space : Addrspace) : Nat := addr2page space.stack - 1

/-- What `memuser_pagefault` can do: nothing, give a page of its own to an entry that shared
one, give a page to an entry that had none, or make the stack one page larger. -/
inductive Serves (dirs : List Nat) (s s' : Machine) (space : Addrspace) (addr : Nat) :
    Addrspace → Prop where
  | nothing (same : s' = s) : Serves dirs s s' space addr space
  | replaced (p : Nat) (user : UserPage p)
      (touches : Touches dirs (Just space.pagedir p) s s')
      (existing : (pageEntry s' space.pagedir p).existing = (pageEntry s space.pagedir p).existing)
      (present : (pageEntry s' space.pagedir p).present = (pageEntry s space.pagedir p).present)
      (data : ¬ Table dirs s' (pageEntry s' space.pagedir p).page) : Serves dirs s s' space addr space
  | filled (p new : Nat) (user : UserPage p)
      (existing : (pageEntry s space.pagedir p).existing = true)
      (missing : (pageEntry s space.pagedir p).present = false)
      (touches : Touches dirs (Just space.pagedir p) s s')
      (here : pageEntry s' space.pagedir p =
        { pageEntry s space.pagedir p with page := new, present := true })
      (data : ¬ Table dirs s' new) :
      Serves dirs s s' space addr { space with
        pagesImaginary := llistDrop space.pagesImaginary (p * 4096)
        pagesLoaded := llistPush space.pagesLoaded (p * 4096) }
  | grown (grows : GrowsStack s space addr) (user : UserPage (nextStack space))
      (below : nextStack space * 4096 ≤ userstackEnd)
      (loads : Loads dirs s s' space.pagedir (nextStack space) False) :
      Serves dirs s s' space addr { space with
        stack := nextStack space * 4096
        pagesLoaded := llistPush space.pagesLoaded (nextStack space * 4096) }

section
variable (held : Guarded dirs s) (unshared : Unshared dirs s)
include held unshared

/-- The page that is mapped: the one given, or a fresh one. -/
theorem take_page (given : phys ≠ 0 → Outside s.mem (addr2page phys))
    (ran : (if phys = 0 then memphysAlloc s else some (phys, s)) = some (taken, s')) :
    Touches dirs (fun _ _ => False) s s' ∧ Outside s'.mem (addr2page taken) ∧
      (phys = 0 → ¬ Table dirs s' (addr2page taken)) := by
  by_cases null : phys = 0
  · rw [if_pos null] at ran
    obtain ⟨-, fresh, -⟩ := alloc_guarded held ran
    exact ⟨alloc_touches held unshared ran, fresh.outside, fun _ => fresh.notTable⟩
  · rw [if_neg null] at ran
    cases ran
    exact ⟨.refl held unshared, given null, fun eq => absurd eq null⟩

/-- An entry of the loaded directory is given a fresh page. -/
theorem fill_entry_touches (user : UserPage p)
    (present : (s.frames s.curpd (p / 1024)).present = true)
    (taken : memphysAlloc s = some (new, m)) (target : e.page = addr2page new)
    (set : pagingSetpte m (p * 4096) e = some (ok, t)) :
    Touches dirs (Just s.curpd p) s t ∧ pageEntry t s.curpd p = e ∧
      Fresh dirs t (addr2page new) := by
  have first : Touches dirs (Just s.curpd p) s m :=
    alloc_touches held unshared taken
  obtain ⟨guarded, fresh, -, ⟨mem, rfl⟩, -, -⟩ := alloc_guarded held taken
  obtain ⟨inside, -⟩ := user.place
  rw [setpte_eq guarded.linked inside] at set
  simp only [page_slot, page_word, present, if_true] at set
  cases set
  obtain ⟨second, written⟩ := write_touches (e := e) guarded first.unshared held.loaded user.1 user.2
    present fun _ => by rw [target]; exact fresh.outside
  exact ⟨first.append second, written, fresh.of_touches second⟩

section
variable (inDirs : space.pagedir ∈ dirs)
include inDirs

/-- `memuser_findvirt` looks and finds a free range or NULL. -/
theorem findvirt_looks (ran : memuserFindvirt s space pages = some (addr, s')) :
    Touches dirs (fun _ _ => False) s s' ∧
      (addr = 0 ∨ ∃ start, addr = start * 4096 ∧ FreeRange s space.pagedir pages start) := by
  obtain ⟨peeks, -, result⟩ := findvirt_free held inDirs ran
  exact ⟨peeks.touches unshared, result⟩

/-- `memuser_alloc` returns NULL and has only looked, or it has taken a free range. -/
theorem memuser_alloc_cases (ran : memuserAlloc s space count swappable = some (addr, s', space')) :
    (addr = 0 ∧ Touches dirs (fun _ _ => False) s s' ∧ space' = space) ∨
      ∃ first, addr = first * 4096 ∧ FreeRange s space.pagedir (count / 4096) first ∧
        Allocated dirs swappable first (count / 4096) s s' space space' := by
  obtain ⟨⟨first, m⟩, found, ran⟩ := Option.bind_eq_some_iff.mp ran
  obtain ⟨touches, result⟩ := findvirt_looks held unshared inDirs found
  by_cases real : first ≠ 0
  · simp only [if_pos real] at ran
    obtain ⟨⟨t, grown⟩, filled, same⟩ := Option.map_eq_some_iff.mp ran
    cases same
    obtain ⟨start, rfl, range⟩ := result.resolve_left real
    have ⟨low, high, _⟩ := range
    have allocated := alloc_pages_allocated swappable _ start touches.guarded touches.unshared inDirs
      low (Nat.le_of_lt high) filled
    exact .inr ⟨start, rfl, range, { allocated with
      touches := (touches.mono fun _ _ => False.elim).append allocated.touches }⟩
  · simp only [if_neg real] at ran
    cases ran
    exact .inl ⟨not_not.mp real, touches, rfl⟩

theorem alloc_at_loads (user : UserPage p)
    (given : phys ≠ 0 → Outside s.mem (addr2page phys))
    (ran : memuserAllocAt s space (p * 4096) phys writable = some (s', space')) :
    Loads dirs s s' space.pagedir p (phys ≠ 0) ∧
      space' = { space with pagesLoaded := llistPush space.pagesLoaded (p * 4096) } := by
  obtain ⟨inside, slot, place⟩ := user.place
  obtain ⟨m, needed, ran⟩ := Option.bind_eq_some_iff.mp ran
  have first : Touches dirs (fun _ _ => False) s m :=
    need_pagetable_touches held unshared inDirs inside slot needed
  obtain ⟨-, -, present⟩ := need_pagetable_spec held inDirs inside slot needed
  obtain ⟨⟨old, t⟩, got, ran⟩ := Option.bind_eq_some_iff.mp ran
  obtain ⟨-, peeks, same⟩ := getpte_pd_spec first.guarded inDirs inside slot got
  have second : Touches dirs (fun _ _ => False) s t := first.append (peeks.touches first.unshared)
  rw [← peeks.own_slots inDirs same] at present
  obtain ⟨⟨taken, u⟩, took, ran⟩ := Option.bind_eq_some_iff.mp ran
  obtain ⟨third, outside, data⟩ := take_page second.guarded second.unshared
    (fun real => (given real).of_fewer second.fewer) took
  have there : (u.frames space.pagedir (addr2pde (p * 4096))).present = true := by
    by_cases null : phys = 0
    · rw [if_pos null] at took
      obtain ⟨-, -, -, ⟨-, rfl⟩, -⟩ := alloc_guarded second.guarded took
      exact present
    · rw [if_neg null] at took
      cases took
      exact present
  obtain ⟨v, set, same⟩ := Option.map_eq_some_iff.mp ran
  cases same
  have before := second.append third
  obtain ⟨last, written⟩ := setpte_pd_touches before.guarded before.unshared inDirs place.1
    place.2 there (fun _ => outside) set
  rw [addr2page_mul] at last written
  refine ⟨⟨(before.mono fun _ _ => False.elim).append last, ?_, ?_, fun fresh => ?_⟩, rfl⟩
  · rw [written]
  · rw [written]
  · rw [written]
    exact (last.stays_data (data (not_not.mp fresh)) outside.2).1

theorem expand_stack_loads (stack : space.stack % 4096 = 0 ∧ space.stack ≤ userstackEnd)
    (high : userstackEnd - userstackMaxsize < space.stack)
    (ran : memuserExpandStack s space = some (s', space')) :
    UserPage (nextStack space) ∧ nextStack space * 4096 ≤ userstackEnd ∧
      Loads dirs s s' space.pagedir (nextStack space) False ∧
      space' = { space with
        stack := nextStack space * 4096
        pagesLoaded := llistPush space.pagesLoaded (nextStack space * 4096) } := by
  obtain ⟨aligned, low⟩ := stack
  rw [userstackEnd, userstackMaxsize, bufpageAddress] at high
  rw [userstackEnd, bufpageAddress] at low
  have next : (space.stack + (2 ^ 32 - 4096)) % 2 ^ 32 = nextStack space * 4096 := by
    rw [nextStack, addr2page]
    omega
  have user : UserPage (nextStack space) := by
    rw [UserPage, windowPage, nextStack, addr2page]
    omega
  simp only [memuserExpandStack, next] at ran
  have lowered : ({ space with stack := nextStack space * 4096 } : Addrspace).pagedir ∈ dirs := inDirs
  obtain ⟨loads, rfl⟩ := alloc_at_loads held unshared lowered user (fun real => absurd rfl real) ran
  refine ⟨user, ?_, ⟨loads.touches, loads.existing, loads.present, fun _ => ?_⟩, rfl⟩
  · rw [userstackEnd, bufpageAddress, nextStack, addr2page]
    omega
  · exact loads.data fun real => real rfl

end

theorem pagefault_existing_serves (loaded : s.curpd = space.pagedir) (inside : p * 4096 < 2 ^ 32)
    (settled : p < 2 ^ 18 → ¬ (pageEntry s space.pagedir p).Lazy)
    (existing : (pageEntry s space.pagedir p).existing = true)
    (ran : pagefaultExisting s space (p * 4096) (pageEntry s space.pagedir p) = some (ok, s', space')) :
    Serves dirs s s' space addr space' := by
  have place : ∀ lazy : (pageEntry s space.pagedir p).Lazy,
      UserPage p ∧ (s.frames s.curpd (p / 1024)).present = true := by
    intro lazy
    have there : (entry s s.curpd (p / 1024) (p % 1024)).Lazy := by
      rw [loaded]
      exact lazy
    obtain ⟨present, slot, notWindow⟩ := lazy_place held (by omega) (by omega) there
    rw [Ne, Prod.mk.injEq] at notWindow
    refine ⟨⟨?_, by rw [windowPage]; omega⟩, present⟩
    by_contra low
    exact settled (by omega) lazy
  rw [pagefaultExisting] at ran
  split at ran
  · cases ran
    exact .nothing rfl
  split at ran
  · rename_i cow
    have lazy : (pageEntry s space.pagedir p).Lazy := ⟨existing, Or.inl cow.1⟩
    obtain ⟨user, present⟩ := place lazy
    obtain ⟨⟨new, m⟩, taken, ran⟩ := Option.bind_eq_some_iff.mp ran
    obtain ⟨⟨ok', t⟩, set, ran⟩ := Option.bind_eq_some_iff.mp ran
    obtain ⟨u, copied, same⟩ := Option.map_eq_some_iff.mp ran
    cases same
    obtain ⟨first, written, fresh⟩ :=
      fill_entry_touches held unshared user present taken rfl set
    have maps : Maps s s.curpd (p / 1024) (p % 1024) (pageEntry s space.pagedir p).page := by
      rw [maps_iff_entry, loaded]
      exact ⟨cow.2, rfl⟩
    have outside := held.unmapped _ held.loaded _ (by omega) _ (by omega) _ maps
    obtain ⟨second, kept, data⟩ := copy_page_touches first user (alloc_was_free held taken) fresh
      (by rw [first.curpd, written]) (outside.of_fewer first.fewer) copied
    rw [first.curpd, written, loaded] at kept
    rw [loaded] at second
    refine .replaced p user second ?_ ?_ ?_
    · rw [kept]
    · rw [kept]
    · rw [kept]
      exact data
  split at ran
  · rename_i absent
    have missing := Bool.eq_false_of_not_eq_true absent
    obtain ⟨user, present⟩ := place ⟨existing, Or.inr missing⟩
    obtain ⟨⟨new, m⟩, taken, ran⟩ := Option.bind_eq_some_iff.mp ran
    obtain ⟨⟨ok', t⟩, set, same⟩ := Option.map_eq_some_iff.mp ran
    cases same
    obtain ⟨first, written, fresh⟩ :=
      fill_entry_touches held unshared user present taken rfl set
    rw [loaded] at first written
    exact .filled p _ user existing missing first written fresh.notTable
  · cases ran
    exact .nothing rfl

/-- A page fault with the directory of the address space loaded. -/
theorem pagefault_serves (loaded : s.curpd = space.pagedir) (inside : addr < 2 ^ 32)
    (stack : space.stack % 4096 = 0 ∧ space.stack ≤ userstackEnd)
    (settled : ∀ q < 2 ^ 18, ¬ (pageEntry s space.pagedir q).Lazy)
    (ran : memuserPagefault s space addr = some (ok, s', space')) :
    Serves dirs s s' space addr space' := by
  have small := addr2page_lt inside
  rw [memuserPagefault, getpte_page held.linked small, loaded, Option.bind_some] at ran
  by_cases existing : (pageEntry s space.pagedir (addr2page addr)).existing = true
  · rw [if_neg (not_not.mpr existing)] at ran
    exact pagefault_existing_serves held unshared loaded (by omega) (settled _) existing ran
  · rw [if_pos existing] at ran
    split at ran
    · rename_i grows
      obtain ⟨⟨t, grown⟩, expanded, same⟩ := Option.map_eq_some_iff.mp ran
      cases same
      obtain ⟨user, below, loads, rfl⟩ := expand_stack_loads held unshared (loaded ▸ held.loaded)
        stack (Nat.lt_trans grows.2 grows.1) expanded
      exact .grown ⟨Bool.eq_false_of_not_eq_true existing, grows⟩ user below loads
    · cases ran
      exact .nothing rfl

end

theorem memuser_alloc_moves (ours : Ours dirs s space)
    (ran : memuserAlloc s space count swappable = some (addr, s', space')) :
    Moves dirs s s' space space' := by
  rcases memuser_alloc_cases ours.guarded ours.unshared ours.inDirs ran with
    ⟨-, touches, rfl⟩ | ⟨first, -, ⟨low, high, free⟩, allocated⟩
  · exact ours.moves touches
  · have below : first + count / 4096 ≤ windowPage := Nat.le_of_lt high
    have kept := allocated.kept ours.kept ours.inDirs low below free
    obtain ⟨touches, -, rfl⟩ := allocated
    exact ⟨touches.mono fun d p there => ⟨there.1, by omega, by omega⟩, rfl, ours.stack, kept⟩

theorem alloc_at_moves (ours : Ours dirs s space) (user : UserPage p)
    (absent : (pageEntry s space.pagedir p).existing = false)
    (given : phys ≠ 0 → Outside s.mem (addr2page phys))
    (ran : memuserAllocAt s space (p * 4096) phys writable = some (s', space')) :
    Moves dirs s s' space space' := by
  obtain ⟨loads, rfl⟩ := alloc_at_loads ours.guarded ours.unshared ours.inDirs user given ran
  exact Moves.of_page user rfl ours.stack loads.touches
    (ours.kept.push_loaded user ours.inDirs loads.touches absent rfl loads.existing loads.present)

theorem pagefault_moves (ours : Ours dirs s space) (loaded : s.curpd = space.pagedir)
    (inside : addr < 2 ^ 32) (settled : ∀ q < 2 ^ 18, ¬ (pageEntry s space.pagedir q).Lazy)
    (fits : GrowsStack s space addr →
      (pageEntry s space.pagedir (addr2page space.stack - 1)).existing = false)
    (ran : memuserPagefault s space addr = some (ok, s', space')) :
    Moves dirs s s' space space' := by
  have inDirs := ours.inDirs
  cases pagefault_serves ours.guarded ours.unshared loaded inside ours.stack settled ran with
  | nothing same =>
    subst same
    exact ours.moves (.refl ours.guarded ours.unshared)
  | replaced p user touches existing present data =>
    exact Moves.of_page user rfl ours.stack touches
      (ours.kept.replace user inDirs touches existing present)
  | filled p new user existing missing touches here data =>
    exact Moves.of_page user rfl ours.stack touches
      (ours.kept.fill user inDirs touches existing missing here)
  | grown grows user below loads =>
    have pushed := ours.kept.push_loaded user inDirs loads.touches (fits grows) rfl
      loads.existing loads.present
    exact Moves.of_page user rfl ⟨Nat.mul_mod_left _ _, below⟩ loads.touches
      ⟨pushed.loaded, pushed.imaginary, pushed.users⟩

/-- A page is mapped where none was. -/
theorem map_pd_moves (ours : Ours dirs s space) (loaded : s.curpd = space.pagedir)
    (user : UserPage p) (absent : (pageEntry s space.pagedir p).existing = false)
    (away : Outside s.mem (addr2page phys))
    (ran : pagingMapPd s (p * 4096) phys true writable swappable cow space.pagedir = some s') :
    Moves dirs s s' space
      { space with pagesLoaded := llistPush space.pagesLoaded (p * 4096) } := by
  obtain ⟨-, -, place⟩ := user.place
  rw [← loaded] at ran
  obtain ⟨touches, written⟩ :=
    map_pd_touches ours.guarded ours.unshared place.1 place.2 away ran
  rw [addr2page_mul, loaded] at touches written
  exact Moves.of_page user rfl ours.stack touches
    (ours.kept.push_loaded user ours.inDirs touches absent written rfl rfl)

/-- The loaded directory changes and changes back. -/
theorem Moves.in_space (held : Guarded dirs s)
    (moves : Moves dirs { s with curpd := d } s' space space') :
    Moves dirs s { s' with curpd := s.curpd } space space' :=
  ⟨moves.touches.in_space held, moves.pagedir, moves.stack, moves.kept.loaded,
    moves.kept.imaginary, moves.kept.users⟩

theorem Ours.load (ours : Ours dirs s space) : Ours dirs { s with curpd := space.pagedir } space :=
  ⟨ours.guarded.load ours.inDirs, ours.unshared, ours.inDirs, ours.stack, ours.kept.loaded,
    ours.kept.imaginary, ours.kept.users⟩

end MeinOS.AddrspaceLists
