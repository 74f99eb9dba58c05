import MeinOS.MallocTiling

/-! Requests of every size. `malloc` adds a header to the size, the fit test adds another one
and `calloc` multiplies, all of it modulo 2 ^ 32. -/
namespace MeinOS.Malloc
open Lib Lib.Memory

/-- `memset`; addresses wrap at the end of the address space. -/
def memset (m : Mem) (addr : Nat) (v : BitVec 8) (count : Nat) : Mem := fun x =>
  if x < 2 ^ 32 ∧ (x + (2 ^ 32 - addr)) % 2 ^ 32 < count then v else m x

/-- `calloc`. -/
def calloc (h : Heap) (n elsize : Nat) (pages : List Nat) : Option (Nat × Heap × List Nat) :=
  if n = 0 ∨ elsize = 0 then some (0, h, pages)
  else (malloc h (n * elsize % 2 ^ 32) pages).map fun (mem, h, left) =>
    (mem, { h with mem := memset h.mem mem 0 (n * elsize % 2 ^ 32) }, left)

/-- A call that returned `ptr` has used some of the pages, the block behind the pointer has the
`asked` bytes, and with it the heap is well formed. -/
def Serves (live : List Allocation) (regions : List Block) (pages : List Nat) (asked ptr : Nat)
    (h : Heap) (left : List Nat) : Prop :=
  ∃ used bs, pages = used ++ left ∧
    Tiled h (⟨ptr, asked⟩ :: live) ((used.map pageBlock).foldl donated regions) bs

/-- Two headers more do not reach 2 ^ 32, or the first free block has just the size. -/
def Fits (bs : List Block) (asked : Nat) : Prop :=
  asked + 24 < 2 ^ 32 ∨ ∃ c post, bs = c :: post ∧ c.size = asked + 12

variable {h h' : Heap} {live : List Allocation} {regions bs : List Block} {pages left : List Nat}
  {asked size cur ptr : Nat}

/-- If the first free block suits, it is taken. -/
theorem getfree_first (held : Tiled h live regions (c :: post)) (suits : Suits size c)
    (pages : List Nat) :
    mallocGetfree size pages h = some (c.addr, takeBlock h size 0 c.addr, pages) := by
  rcases getfree_round size held with ⟨none, -⟩ | ⟨pre, d, post', split, -, others, found⟩
  · exact absurd suits (none c List.mem_cons_self)
  · cases pre with
    | nil =>
      obtain ⟨rfl, rfl⟩ := List.cons.inj split
      exact found pages
    | cons e pre =>
      obtain ⟨rfl, -⟩ := List.cons.inj split
      exact absurd suits (others c List.mem_cons_self)

/-- If there is no free block and all would suit, it is one of the next page. -/
theorem getfree_empty (held : Tiled h live regions [])
    (fresh : AllDonatable regions (pages.map pageBlock))
    (suits : ∀ c : Block, 12 ≤ c.size → Suits size c)
    (got : mallocGetfree size pages h = some (cur, h', left)) :
    ∃ h₁ regions₁ c post, Tiled h₁ live regions₁ (c :: post) ∧ c.size ≤ 4096 ∧ cur = c.addr ∧
      h' = takeBlock h₁ size 0 c.addr := by
  induction pages generalizing h regions with
  | nil =>
    rw [mallocGetfree, show h.firstfree = 0 from held.linked] at got
    cases got
  | cons page pages ih =>
    obtain ⟨h₀, bs, given, grown⟩ := donate_tiled held fresh.1
    rw [mallocGetfree, show h.firstfree = 0 from held.linked] at got
    change (mallocDonatemem h page 4096).bind _ = _ at got
    rw [show mallocDonatemem h page 4096 = some h₀ from given, Option.bind_some] at got
    cases bs with
    | nil => exact ih grown.toTiled fresh.2 got
    | cons c post =>
      have wide := grown.ordered.wide c List.mem_cons_self
      rw [getfree_first grown.toTiled (suits c wide)] at got
      cases got
      refine ⟨h₀, _, c, post, grown.toTiled, ?_, rfl, rfl⟩
      have ends : ∀ x, c.Holds x → page ≤ x ∧ x < page + 4096 := by
        intro x holds
        rcases grown.covers x ⟨c, List.mem_cons_self, holds⟩ with ⟨d, none, -⟩ | ⟨-, inPage⟩
        · cases none
        · exact inPage
      have first := ends c.addr ⟨Nat.le_refl _, by rw [Block.fin]; omega⟩
      have last := ends (c.fin - 1) ⟨by rw [Block.fin]; omega, by rw [Block.fin]; omega⟩
      rw [Block.fin] at last
      omega

/-- Beside a block this large there is room for no other. -/
theorem Tiled.large_alone (held : Tiled h (⟨ptr, asked⟩ :: live) regions bs)
    (large : 2 ^ 32 ≤ asked + 24) : h.firstfree = 0 ∧ 12 < ptr ∧ ptr + asked < 2 ^ 32 := by
  have own : blockOf h.mem ⟨ptr, asked⟩ ∈ (⟨ptr, asked⟩ :: live : List Allocation).map (blockOf h.mem) :=
    List.mem_map_of_mem List.mem_cons_self
  have inside := held.inside (List.mem_append_right bs own)
  have asked := held.asked _ List.mem_cons_self
  simp only [blockOf, Block.fin] at inside asked
  refine ⟨?_, by omega, by omega⟩
  cases bs with
  | nil => exact held.linked
  | cons d post =>
    have inside' := held.ordered.inside d List.mem_cons_self
    have wide := held.ordered.wide d List.mem_cons_self
    have apart := (List.pairwise_append.mp held.laid.apart).2.2 d List.mem_cons_self _ own
    simp only [blockOf, Block.Apart, Block.fin] at inside' apart
    omega

section
variable (held : Tiled h live regions bs) (fresh : AllDonatable regions (pages.map pageBlock))
include held fresh

/-- A request that needs more than that is served from the first free block, which is cut
where the new header does not fit. -/
theorem large_malloc_unsound (misfit : ¬ Fits bs asked)
    (got : malloc h asked pages = some (ptr, h', left))
    (tiled : Tiled h₁ (⟨ptr, asked⟩ :: live₁) regions₁ bs₁) : h₁.firstfree ≠ h'.firstfree := by
  intro same
  obtain ⟨large, other⟩ := not_or.mp misfit
  obtain ⟨alone, low, high⟩ := tiled.large_alone (by omega)
  obtain ⟨⟨cur, h₂, rest⟩, found, result⟩ := Option.map_eq_some_iff.mp got
  rw [Nat.mod_eq_of_lt (by omega)] at found
  cases result
  have suits : ∀ c : Block, 12 ≤ c.size → Suits (asked + 12) c := fun c wide => Or.inr (by omega)
  obtain ⟨h₀, regions₀, c, post, held₀, size, rfl, rfl⟩ : ∃ h₀ regions₀ c post,
      Tiled h₀ live regions₀ (c :: post) ∧ c.size ≠ asked + 12 ∧ cur = c.addr ∧
        h' = takeBlock h₀ (asked + 12) 0 c.addr := by
    cases bs with
    | nil =>
      obtain ⟨h₀, regions₀, c, post, held₀, short, taken⟩ := getfree_empty held fresh suits found
      exact ⟨h₀, regions₀, c, post, held₀, by omega, taken⟩
    | cons c post =>
      rw [getfree_first held (suits c (held.ordered.wide c List.mem_cons_self))] at found
      cases found
      exact ⟨h, regions, c, post, held, fun size => other ⟨c, post, rfl, size⟩, rfl, rfl⟩
  have sized : sizeOf h₀.mem c.addr = c.size := held₀.linked.2.1
  rw [takeBlock, if_neg (by omega), relink, if_pos rfl] at same
  have inside := held₀.ordered.inside c List.mem_cons_self
  simp only [Block.fin] at inside same
  omega

theorem malloc_served (fits : Fits bs asked)
    (got : malloc h asked pages = some (ptr, h', left)) :
    ∃ used bs', pages = used ++ left ∧ Obtained h h' live regions bs used ⟨ptr, asked⟩ bs' := by
  rcases fits with bound | ⟨c, post, rfl, size⟩
  · exact malloc_obtained bound held fresh got
  · have inside := held.ordered.inside c List.mem_cons_self
    have reached : Reached (asked + 12) h h live regions (c :: post) [] [] c post :=
      ⟨held, Or.inl size.symm, by simp, fun x _ => rfl, List.Subset.refl _, fun parted _ => parted⟩
    rw [Block.fin] at inside
    rw [malloc, Nat.mod_eq_of_lt (by omega), getfree_first held (Or.inl size.symm)] at got
    cases got
    obtain ⟨bs', obtained⟩ := reached.obtained (Or.inl size.symm)
    exact ⟨[], bs', rfl, obtained⟩

end

theorem memset_tiled (held : Tiled h (⟨ptr, asked⟩ :: live) regions bs) (v : BitVec 8) :
    Tiled { h with mem := memset h.mem ptr v asked } (⟨ptr, asked⟩ :: live) regions bs := by
  refine stores_tiled (w := ⟨h, regions, ⟨ptr, asked⟩ :: live⟩) held fun x written =>
    Or.inr ⟨_, List.mem_cons_self, ?_⟩
  have inside := held.inside (List.mem_append_right bs (List.mem_map_of_mem List.mem_cons_self))
  have asked := held.asked _ List.mem_cons_self
  simp only [blockOf, Block.fin] at inside asked
  simp only [memset, ne_eq, ite_eq_right_iff, not_forall] at written
  obtain ⟨set, -⟩ := written
  simp only
  omega

/-- For every size and every product, a call that returns a pointer serves the request and
leaves the heap well formed exactly if the size fits. -/
theorem allocations_served_iff (h : Heap) (live : List Allocation) (regions bs : List Block)
    (pages : List Nat) (held : Tiled h live regions bs)
    (fresh : AllDonatable regions (pages.map pageBlock)) :
    (∀ size < 2 ^ 32, ∀ ptr h' left, malloc h size pages = some (ptr, h', left) →
      (Serves live regions pages size ptr h' left ↔ Fits bs size)) ∧
    ∀ n < 2 ^ 32, ∀ elsize < 2 ^ 32, ∀ ptr h' left, calloc h n elsize pages = some (ptr, h', left) →
      ptr ≠ 0 → (Serves live regions pages (n * elsize) ptr h' left ↔ Fits bs (n * elsize)) := by
  refine ⟨fun size _ ptr h' left got => ⟨fun ⟨used, bs', _, tiled⟩ => ?_, fun fits => ?_⟩,
    fun n _ elsize _ ptr h' left got real => ?_⟩
  · by_contra misfit
    exact large_malloc_unsound held fresh misfit got tiled rfl
  · obtain ⟨used, bs', split, obtained⟩ := malloc_served held fresh fits got
    exact ⟨used, bs', split, obtained.toTiled⟩
  · rw [calloc] at got
    split at got
    · cases got
      exact absurd rfl real
    · obtain ⟨⟨ptr, h₁, left⟩, got, same⟩ := Option.map_eq_some_iff.mp got
      cases same
      constructor
      · rintro ⟨used, bs', -, tiled⟩
        by_contra misfit
        have asked := tiled.asked _ List.mem_cons_self
        have inside := tiled.inside (List.mem_append_right bs' (List.mem_map_of_mem List.mem_cons_self))
        simp only [Block.fin] at inside asked
        rw [Nat.mod_eq_of_lt (by omega)] at got
        exact large_malloc_unsound held fresh misfit got tiled rfl
      · intro fits
        have small : n * elsize < 2 ^ 32 := by
          rcases fits with bound | ⟨c, post, rfl, size⟩
          · omega
          · have inside := held.ordered.inside c List.mem_cons_self
            rw [Block.fin] at inside
            omega
        rw [Nat.mod_eq_of_lt small] at got ⊢
        obtain ⟨used, bs', split, obtained⟩ := malloc_served held fresh fits got
        exact ⟨used, bs', split, memset_tiled obtained.toTiled 0⟩

/-- With `got` bytes right below the next page in one free block, the rest comes from pages that
follow each other. -/
theorem getfree_ends (count : Nat) (held : Tiled h live regions bs)
    (above : ∀ r ∈ regions, r.fin ≤ page) (real : 0 < page) (room : page + count * 4096 < 2 ^ 32)
    (below : got = 0 ∨ ∃ d ∈ bs, d.addr + got ≤ page ∧ page ≤ d.fin) (small : size + 12 < 2 ^ 32)
    (enough : size + 12 ≤ got + count * 4096) :
    ∃ cur h' left, mallocGetfree size (List.range' page count 4096) h = some (cur, h', left) := by
  induction count generalizing h regions bs page got with
  | zero =>
    obtain ⟨d, member, start, stop⟩ := below.resolve_left (by omega)
    rcases getfree_round size held with ⟨none, -⟩ | ⟨pre, c, post, -, -, -, found⟩
    · rw [Block.fin] at stop
      exact absurd (Or.inr (by omega)) (none d member)
    · exact ⟨_, _, _, found []⟩
  | succ count ih =>
    rcases getfree_round size held with ⟨-, -, next⟩ | ⟨pre, c, -, -, -, -, found⟩
    · have fresh : Donatable regions (pageBlock page) := by
        refine Or.inr ⟨?_, ?_, fun r member => Or.inl (above r member)⟩ <;>
          simp only [pageBlock, Block.fin] <;> omega
      obtain ⟨h₀, bs₀, given, grown⟩ := donate_tiled held fresh
      have given' : mallocDonatemem h page 4096 = some h₀ := given
      obtain ⟨d, inList, start, stop, joins⟩ := grown.grows real.ne'
      rw [List.range'_succ, next, given', Option.bind_some]
      have enough' : size + 12 ≤ got + 4096 + count * 4096 := by omega
      refine ih grown.toTiled (fun r member => ?_) (by omega) (by omega)
        (Or.inr ⟨d, inList, ?_, stop⟩) enough'
      · simp only [donated, pageBlock, real.ne', if_false] at member
        rcases List.mem_cons.mp member with rfl | old
        · exact Nat.le_refl _
        · exact Nat.le_add_right_of_le (above r old)
      · rcases below with rfl | ⟨c, member, low, high⟩
        · simp only [pageBlock] at start
          omega
        · -- the heap ends at the page, and so does the block
          have wide := held.ordered.wide c member
          obtain ⟨r, region, -, last⟩ := (held.covered (c.fin - 1)).mp
            ⟨c, List.mem_append_left _ member, by rw [Block.fin]; omega, by rw [Block.fin]; omega⟩
          have bound := above r region
          have joined := joins c member (by simp only [pageBlock]; omega)
          omega
    · exact ⟨_, _, _, found _⟩

/-- With pages that follow each other, the first one above all blocks, `malloc` returns as soon as
the pages have room for the request and two headers. -/
theorem malloc_ends (h : Heap) (live : List Allocation) (regions bs : List Block)
    (n first count : Nat) (held : Tiled h live regions bs) (bound : n + 24 < 2 ^ 32)
    (above : ∀ b ∈ bs ++ live.map (blockOf h.mem), b.fin ≤ first) (real : 0 < first)
    (room : first + count * 4096 < 2 ^ 32) (enough : n + 24 ≤ count * 4096) :
    ∃ ptr h' left, malloc h n (List.range' first count 4096) = some (ptr, h', left) := by
  have blocks : Tiled h live (bs ++ live.map (blockOf h.mem)) bs :=
    { held with covered := fun _ => Iff.rfl, regionsIn := fun b => held.inside }
  obtain ⟨cur, h', left, found⟩ := getfree_ends count blocks above real room (Or.inl rfl)
    (by omega) (by omega)
  rw [malloc, Nat.mod_eq_of_lt (by omega), found]
  exact ⟨_, _, _, rfl⟩

/-- A request for two pages and a half. -/
theorem ten_thousand_bytes_end : ∃ ptr h' left,
    malloc (start fun _ => 0).toHeap 10000 (List.range' 0x2000 3 4096) = some (ptr, h', left) :=
  malloc_ends _ [] [] [] 10000 0x2000 3 (start_tiled _) (by decide) (by simp) (by decide) (by decide)
    (by decide)

/-- A hundred bytes from a new page. -/
theorem hundred_bytes_served : ∃ h, malloc (start fun _ => 0).toHeap 100 [0x100000] =
    some (0x10000C, h, []) ∧ Serves [] [] [0x100000] 100 0x10000C h [] := by
  obtain ⟨⟨ptr, h, left⟩, ran, (rfl : ptr = 0x10000C), (rfl : left = [])⟩ : ∃ r,
      malloc (start fun _ => 0).toHeap 100 [0x100000] = some r ∧ r.1 = 0x10000C ∧ r.2.2 = [] := by
    decide +kernel
  exact ⟨h, ran, ((allocations_served_iff _ [] [] [] [0x100000] (start_tiled _) (by decide)).1 100
    (by decide) _ _ _ ran).mpr (Or.inl (by decide))⟩

/-- With the header, 2^32 - 12 bytes are none, and an array of 2^16 by 2^16 bytes has none. -/
theorem wrapped_sizes_not_served :
    (∃ h, malloc (start fun _ => 0).toHeap (2 ^ 32 - 12) [0x100000] = some (0x10000C, h, []) ∧
      sizeOf h.mem 0x100000 = 0 ∧ ¬ Serves [] [] [0x100000] (2 ^ 32 - 12) 0x10000C h []) ∧
    ∃ h, calloc (start fun _ => 0).toHeap (2 ^ 16) (2 ^ 16) [0x100000] = some (0x10000C, h, []) ∧
      sizeOf h.mem 0x100000 = 12 ∧ ¬ Serves [] [] [0x100000] (2 ^ 16 * 2 ^ 16) 0x10000C h [] := by
  obtain ⟨⟨ptr, h, left⟩, ran, (rfl : ptr = 0x10000C), (rfl : left = []), size⟩ : ∃ r,
      malloc (start fun _ => 0).toHeap (2 ^ 32 - 12) [0x100000] = some r ∧ r.1 = 0x10000C ∧ r.2.2 = [] ∧
        sizeOf r.2.1.mem 0x100000 = 0 := by
    decide +kernel
  obtain ⟨⟨ptr, h', left⟩, ran', (rfl : ptr = 0x10000C), (rfl : left = []), size'⟩ : ∃ r,
      calloc (start fun _ => 0).toHeap (2 ^ 16) (2 ^ 16) [0x100000] = some r ∧ r.1 = 0x10000C ∧
        r.2.2 = [] ∧ sizeOf r.2.1.mem 0x100000 = 12 := by
    decide +kernel
  refine ⟨⟨h, ran, size, ?_⟩, h', ran', size', ?_⟩
  · rintro ⟨used, bs, -, tiled⟩
    have asked := tiled.asked _ List.mem_cons_self
    simp [blockOf, size] at asked
  · rintro ⟨used, bs, -, tiled⟩
    have asked := tiled.asked _ List.mem_cons_self
    simp [blockOf, size'] at asked

end MeinOS.Malloc
