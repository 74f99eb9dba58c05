import MeinOS.Memphys

/-! The bitmap of the DMA pages: what `memphys_dma_alloc` finds and marks, and what
`memphys_dma_free` gives back.

Page 0 is a page like every other for the search, but its address is NULL. It is in use
after `memphys_dma_init`, and clear again once it is given back. -/
namespace MeinOS.Memphys

theorem dma_used_bit (bitmap : Nat → BitVec 32) (i : Nat) :
    dmaUsed bitmap i = (bitmap (i / 32)).getLsbD (i % 32) := by
  have small : i % 32 < 32 := Nat.mod_lt _ (by omega)
  rw [dmaUsed, ← BitVec.twoPow_eq, BitVec.and_twoPow]
  cases (bitmap (i / 32)).getLsbD (i % 32) with
  | false => simp
  | true =>
    simp only [if_true, bne_iff_ne, ne_eq]
    intro zero
    have bit := congrArg (fun x => x.getLsbD (i % 32)) zero
    simp [small] at bit

/-- Bitmaps that tell of the same pages are the same. -/
theorem bitmap_ext {bitmap bitmap' : Nat → BitVec 32}
    (bits : ∀ i, dmaUsed bitmap i = true ↔ dmaUsed bitmap' i = true) : bitmap = bitmap' := by
  funext w
  apply BitVec.eq_of_getLsbD_eq
  intro k small
  have word : (32 * w + k) / 32 = w := by omega
  have place : (32 * w + k) % 32 = k := by omega
  have bit := Bool.eq_iff_iff.mpr (bits (32 * w + k))
  rwa [dma_used_bit, dma_used_bit, word, place] at bit

/-- A word that differs in the bit of page `i` only changes what is told of that page. -/
theorem dma_used_update {bitmap : Nat → BitVec 32} {i : Nat} {word : BitVec 32} (bit : Bool)
    (bits : ∀ k < 32, word.getLsbD k = if k = i % 32 then bit else (bitmap (i / 32)).getLsbD k)
    (page : Nat) : dmaUsed (Function.update bitmap (i / 32) word) page =
      if page = i then bit else dmaUsed bitmap page := by
  rw [dma_used_bit, dma_used_bit]
  by_cases same : page / 32 = i / 32
  · have place : page % 32 = i % 32 ↔ page = i := by omega
    rw [same, Function.update_self, bits _ (Nat.mod_lt _ (by omega))]
    simp only [place]
  · have apart : page ≠ i := fun eq => same (by rw [eq])
    rw [Function.update_of_ne same, if_neg apart]

theorem dma_mark_used (bitmap : Nat → BitVec 32) (i page : Nat) :
    dmaUsed (dmaMark bitmap i) page = true ↔ dmaUsed bitmap page = true ∨ page = i := by
  rw [dmaMark, dma_used_update true]
  · by_cases here : page = i <;> simp [here]
  · intro k small
    by_cases here : k = i % 32
    · rw [here] at small
      simp [← BitVec.twoPow_eq, small, here]
    · simp [← BitVec.twoPow_eq, small, here]

theorem dma_marks_used (pages : List Nat) (bitmap : Nat → BitVec 32) (page : Nat) :
    dmaUsed (pages.foldl dmaMark bitmap) page = true ↔
      dmaUsed bitmap page = true ∨ page ∈ pages := by
  induction pages generalizing bitmap with
  | nil => simp
  | cons i pages ih =>
    rw [List.foldl_cons, ih, dma_mark_used, List.mem_cons, or_assoc]

/-- Gives back the DMA pages of a list. -/
def dmaFrees (mem : PhysMem) (frames : List Nat) : PhysMem :=
  frames.foldl (fun mem f => memphysDmaFree mem (f * 4096)) mem

theorem dma_free_used (mem : PhysMem) (f page : Nat) :
    dmaUsed (memphysDmaFree mem (f * 4096)).dmaBitmap page = true ↔
      dmaUsed mem.dmaBitmap page = true ∧ page ≠ f := by
  have index : f * 4096 / pageSize = f := by
    rw [page_size_eq]
    omega
  rw [memphysDmaFree, index, dma_used_update false]
  · by_cases here : page = f <;> simp [here]
  · intro k small
    by_cases here : k = f % 32 <;> simp [← BitVec.twoPow_eq, small, here]

theorem dma_frees_used (frames : List Nat) (mem : PhysMem) (page : Nat) :
    dmaUsed (dmaFrees mem frames).dmaBitmap page = true ↔
      dmaUsed mem.dmaBitmap page = true ∧ page ∉ frames := by
  induction frames generalizing mem with
  | nil => simp [dmaFrees]
  | cons f frames ih =>
    change dmaUsed (dmaFrees (memphysDmaFree mem (f * 4096)) frames).dmaBitmap page = true ↔ _
    rw [ih, dma_free_used, List.mem_cons, not_or, and_assoc]

theorem dma_frees_rest (frames : List Nat) (mem : PhysMem) :
    dmaFrees mem frames = { mem with dmaBitmap := (dmaFrees mem frames).dmaBitmap } := by
  induction frames generalizing mem with
  | nil => rfl
  | cons f frames ih => exact ih (memphysDmaFree mem (f * 4096))

/-- Some run of that many pages is clear below the limit. -/
def HasRun (m : PhysMem) (pages : Nat) : Prop :=
  ∃ first, first + pages ≤ memphysDmalimit / pageSize ∧ ClearRun m.dmaBitmap first pages

/-- `taken` differs from `m` in the bits of the first clear run of `pages` pages, which
starts at `first`, and giving these pages back in any order leads back to `m`. -/
structure Taken (m taken : PhysMem) (pages first : Nat) : Prop where
  clear : ClearRun m.dmaBitmap first pages
  below : first + pages ≤ memphysDmalimit / pageSize
  earliest : ∀ earlier < first, ¬ ClearRun m.dmaBitmap earlier pages
  marked : ∀ i, dmaUsed taken.dmaBitmap i = true ↔
    dmaUsed m.dmaBitmap i = true ∨ first ≤ i ∧ i < first + pages
  rest : taken = { m with dmaBitmap := taken.dmaBitmap }
  restored : ∀ frames : List Nat, (∀ i, i ∈ frames ↔ first ≤ i ∧ i < first + pages) →
    dmaFrees taken frames = m

/-- What `memphys_dma_alloc` is for: NULL and no change if there is no clear run of that
length, and else the address of the first such run, which is marked. -/
structure Searched (m : PhysMem) (pages : Nat) (result : Nat × PhysMem) : Prop where
  null : result.1 = 0 ↔ ¬ HasRun m pages
  unchanged : ¬ HasRun m pages → result.2 = m
  granted : HasRun m pages → ∃ first, result.1 = first * pageSize ∧ Taken m result.2 pages first

/-- Marking a clear run takes it. -/
theorem mark_taken {m : PhysMem} {pages first : Nat} (clear : ClearRun m.dmaBitmap first pages)
    (below : first + pages ≤ memphysDmalimit / pageSize)
    (earliest : ∀ earlier < first, ¬ ClearRun m.dmaBitmap earlier pages) :
    Taken m { m with dmaBitmap := (List.range' first pages).foldl dmaMark m.dmaBitmap }
      pages first := by
  have marked : ∀ i, dmaUsed ((List.range' first pages).foldl dmaMark m.dmaBitmap) i = true ↔
      dmaUsed m.dmaBitmap i = true ∨ first ≤ i ∧ i < first + pages := by
    intro i
    rw [dma_marks_used, List.mem_range'_1]
  refine ⟨clear, below, earliest, marked, rfl, ?_⟩
  intro frames run
  rw [dma_frees_rest]
  refine congrArg (fun bitmap => { m with dmaBitmap := bitmap }) (bitmap_ext fun i => ?_)
  rw [dma_frees_used, marked, run]
  constructor
  · rintro ⟨used | inside, outside⟩
    · exact used
    · exact absurd inside outside
  · intro used
    refine ⟨.inl used, ?_⟩
    rintro ⟨lower, upper⟩
    rw [clear i lower upper] at used
    cases used

theorem dma_alloc_cases (m : PhysMem) {pages : Nat} (asked : 1 ≤ pages) :
    (¬ HasRun m pages ∧ memphysDmaAlloc m pages = (0, m)) ∨
      ∃ first, (memphysDmaAlloc m pages).1 = first * pageSize ∧
        Taken m (memphysDmaAlloc m pages).2 pages first := by
  have spec := dma_search_spec m.dmaBitmap pages (memphysDmalimit / pageSize) 0 0
    (Nat.le_refl 0) asked (by intro i lower upper; omega)
  rw [memphysDmaAlloc]
  cases found : dmaSearch m.dmaBitmap pages (memphysDmalimit / pageSize) 0 0 with
  | none =>
    rw [found] at spec
    refine .inl ⟨?_, rfl⟩
    rintro ⟨first, below, clear⟩
    exact spec first (by omega) (by omega) clear
  | some first =>
    rw [found] at spec
    obtain ⟨clear, below, earliest⟩ := spec
    refine .inr ⟨first, rfl, mark_taken clear (by omega) ?_⟩
    intro earlier sooner
    exact earliest earlier (by omega) sooner

/-- `memphys_dma_alloc` does what it is for exactly if the run it takes does not start at
page 0, the address of which reads as a refusal. -/
theorem dma_alloc_searched_iff (m : PhysMem) (pages : Nat) (asked : 1 ≤ pages) :
    Searched m pages (memphysDmaAlloc m pages) ↔
      ¬ (ClearRun m.dmaBitmap 0 pages ∧ pages ≤ memphysDmalimit / pageSize) := by
  rcases dma_alloc_cases m asked with ⟨none, refused⟩ | ⟨first, returned, taken⟩
  · have absent : ¬ (ClearRun m.dmaBitmap 0 pages ∧ pages ≤ memphysDmalimit / pageSize) := by
      rintro ⟨clear, below⟩
      exact none ⟨0, by omega, clear⟩
    rw [refused]
    refine iff_of_true ⟨?_, ?_, ?_⟩ absent
    · exact iff_of_true rfl none
    · intro _
      rfl
    · intro run
      exact absurd run none
  · have run : HasRun m pages := ⟨first, taken.below, taken.clear⟩
    constructor
    · rintro searched ⟨clear, below⟩
      have start : first = 0 := by
        by_contra later
        exact taken.earliest 0 (by omega) clear
      have null : (memphysDmaAlloc m pages).1 = 0 := by rw [returned, start, Nat.zero_mul]
      exact searched.null.mp null run
    · intro blocked
      have later : first ≠ 0 := by
        rintro rfl
        have below := taken.below
        exact blocked ⟨taken.clear, by omega⟩
      refine ⟨iff_of_false ?_ (not_not_intro run), ?_, ?_⟩
      · rw [returned, page_size_eq]
        omega
      · intro none
        exact absurd run none
      · intro _
        exact ⟨first, returned, taken⟩

/-- With a clear bitmap a request for one page returns NULL and marks page 0. -/
theorem dma_alloc_returns_page_zero : ∃ m pages, 1 ≤ pages ∧
    ¬ Searched m pages (memphysDmaAlloc m pages) := by
  refine ⟨⟨fun _ => 0, 0, 0, fun _ => none, fun _ => 0⟩, 1, Nat.le_refl 1, ?_⟩
  intro searched
  have null : (memphysDmaAlloc ⟨fun _ => 0, 0, 0, fun _ => none, fun _ => 0⟩ 1).1 = 0 := rfl
  refine searched.null.mp null ⟨0, by decide, ?_⟩
  intro i _ upper
  obtain rfl : i = 0 := by omega
  rfl

/-- After `memphys_dma_init` page 0 is in use, and the search is right. -/
theorem dma_init_searched : Searched (memphysDmaInit (memphysInit [])) 3
    (memphysDmaAlloc (memphysDmaInit (memphysInit [])) 3) := by
  refine (dma_alloc_searched_iff _ 3 (by omega)).mpr ?_
  rintro ⟨clear, -⟩
  have used := clear 0 (by omega) (by omega)
  rw [dma_init_used] at used
  cases used

end MeinOS.Memphys
