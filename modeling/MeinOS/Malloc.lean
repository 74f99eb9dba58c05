import MeinOS.Lib.Memory
import MeinOS.Lib.Runs

/-! The kernel heap, `kernel2/malloc.c`. Every block starts with a header of twelve
bytes, its flags, its size and, while it is free, the next free block; the free list
is kept in the order of the addresses.

A pointer has 2 ^ 32 values and the loops over the free list write nothing, so a loop
that has not ended after as many rounds never ends; such a call returns `none`. -/
namespace MeinOS.Malloc
open Lib Lib.Runs Lib.Memory

def flagsOf (m : Mem) (header : Nat) : Nat := load32 m header

def sizeOf (m : Mem) (header : Nat) : Nat := load32 m (header + 4)

def nextfree (m : Mem) (header : Nat) : Nat := load32 m (header + 8)

def setFlags (m : Mem) (header v : Nat) : Mem := store32 m header v

def setSize (m : Mem) (header v : Nat) : Mem := store32 m (header + 4) v

def setNextfree (m : Mem) (header v : Nat) : Mem := store32 m (header + 8) v

/-- The memory and `_malloc_firstfree`. -/
structure Heap where
  mem : Mem
  firstfree : Nat

/-- The loop of `_malloc_insertlist`: the block that `header` comes after, or NULL. -/
def insertPlace (m : Mem) (header : Nat) : Nat → Nat → Option Nat
  | 0, _ => none
  | rounds + 1, cur =>
    if cur = 0 then some 0
    else if cur < header ∧ (header < nextfree m cur ∨ nextfree m cur = 0) then some cur
    else insertPlace m header rounds (nextfree m cur)

/-- The first half of `_malloc_insertlist`, which links the block in or adds it to the
block before it. -/
def linkIn (h : Heap) (header : Nat) : Option Heap :=
  if h.firstfree = 0 then
    some ⟨setNextfree h.mem header 0, header⟩
  else if header < h.firstfree then
    some ⟨setNextfree h.mem header h.firstfree, header⟩
  else
    (insertPlace h.mem header (2 ^ 32) h.firstfree).map fun cur =>
      if cur = 0 then h
      else if (cur + sizeOf h.mem cur) % 2 ^ 32 = header then
        { h with mem := setSize h.mem cur ((sizeOf h.mem cur + sizeOf h.mem header) % 2 ^ 32) }
      else
        { h with
          mem := setNextfree (setNextfree h.mem header (nextfree h.mem cur)) cur header }

/-- The second half of `_malloc_insertlist`, which adds the next block to this one. -/
def joinNext (h : Heap) (header : Nat) : Heap :=
  let next := nextfree h.mem header
  if (header + sizeOf h.mem header) % 2 ^ 32 = next then
    let mem := setSize h.mem header ((sizeOf h.mem header + sizeOf h.mem next) % 2 ^ 32)
    { h with mem := setNextfree mem header (nextfree mem (nextfree mem header)) }
  else h

/-- `_malloc_insertlist`. -/
def mallocInsertlist (h : Heap) (header : Nat) : Option Heap :=
  (linkIn h header).map (joinNext · header)

/-- `malloc_donatemem`. -/
def mallocDonatemem (h : Heap) (addr size : Nat) : Option Heap :=
  if addr = 0 then some h
  else mallocInsertlist { h with mem := setSize (setFlags h.mem addr 0) addr size } addr

/-- The inner loop of `_malloc_getfree`: the first block of exactly `size` bytes or with
room for another header, and the block before it. -/
def findFree (m : Mem) (size : Nat) : Nat → Nat → Nat → Option (Nat × Nat)
  | 0, _, _ => none
  | rounds + 1, last, cur =>
    if cur = 0 then some (last, 0)
    else if size = sizeOf m cur ∨ (size + 12) % 2 ^ 32 ≤ sizeOf m cur then some (last, cur)
    else findFree m size rounds cur (nextfree m cur)

/-- `if (last==NULL) _malloc_firstfree = next; else last->nextfree = next;` -/
def relink (h : Heap) (mem : Mem) (last next : Nat) : Heap :=
  if last = 0 then ⟨mem, next⟩ else { h with mem := setNextfree mem last next }

/-- Cuts `size` bytes off the block `cur`; the rest becomes a free block. -/
def cutMem (m : Mem) (size cur : Nat) : Mem :=
  let new := (cur + size) % 2 ^ 32
  let mem := setFlags m new 0
  let mem := setSize mem new ((sizeOf mem cur + (2 ^ 32 - size)) % 2 ^ 32)
  let mem := setNextfree mem new (nextfree mem cur)
  let mem := setSize mem cur size
  setFlags mem cur (flagsOf mem cur ||| 1)

/-- The two branches of `_malloc_getfree` that take the block `cur`, whole or cut. -/
def takeBlock (h : Heap) (size last cur : Nat) : Heap :=
  if size = sizeOf h.mem cur then
    let mem := setFlags h.mem cur (flagsOf h.mem cur ||| 1)
    relink h mem last (nextfree mem cur)
  else
    relink h (cutMem h.mem size cur) last ((cur + size) % 2 ^ 32)

/-- `_malloc_getfree`, given the pages that `_malloc_getpage` returns. The result has the
block and the pages that were not asked for. -/
def mallocGetfree (size : Nat) : List Nat → Heap → Option (Nat × Heap × List Nat)
  | [], h => (findFree h.mem size (2 ^ 32) 0 h.firstfree).bind fun (last, cur) =>
      if cur = 0 then none else some (cur, takeBlock h size last cur, [])
  | page :: pages, h => (findFree h.mem size (2 ^ 32) 0 h.firstfree).bind fun (last, cur) =>
      if cur = 0 then (mallocDonatemem h page 4096).bind (mallocGetfree size pages)
      else some (cur, takeBlock h size last cur, page :: pages)

/-- `malloc`. -/
def malloc (h : Heap) (size : Nat) (pages : List Nat) : Option (Nat × Heap × List Nat) :=
  (mallocGetfree ((size + 12) % 2 ^ 32) pages h).map fun (mem, h, left) =>
    ((mem + 12) % 2 ^ 32, h, left)

/-- `free`. -/
def free (h : Heap) (address : Nat) : Option Heap :=
  let header := (address + (2 ^ 32 - 12)) % 2 ^ 32
  mallocInsertlist { h with mem := setFlags h.mem header 0 } header

/-- The two memories differ only in headers at the given addresses. -/
def Writes (m m' : Mem) (headers : List Nat) : Prop :=
  ∀ x, (∀ a ∈ headers, ¬ (a ≤ x ∧ x < a + 12)) → m' x = m x

theorem Writes.trans (first : Writes m m' as) (second : Writes m' m'' bs) :
    Writes m m'' (as ++ bs) := by
  intro x outside
  rw [second x fun a member => outside a (List.mem_append_right as member)]
  exact first x fun a member => outside a (List.mem_append_left bs member)

theorem Writes.mono (writes : Writes m m' as) (more : ∀ a ∈ as, a ∈ bs) : Writes m m' bs :=
  fun x outside => writes x fun a member => outside a (more a member)

theorem Writes.agree (writes : Writes m m' as) (apart : ∀ a ∈ as, a + 12 ≤ c ∨ c + n ≤ a) :
    Agree m' m c n := by
  intro x lower upper
  apply writes x
  intro a member
  have := apart a member
  omega

/-- A store to one of the three words of a header. -/
theorem store_writes (fits : a + 12 ≤ 2 ^ 32) (inside : k + 4 ≤ 12) :
    Writes m (store32 m (a + k) v) [a] := by
  intro x outside
  have apart := outside a List.mem_cons_self
  exact store_agree (n := 1) (by omega) (by omega) x (Nat.le_refl x) (Nat.lt_succ_self x)

section Header
variable {m : Mem} {a v : Nat}

section
variable (fits : a + 12 ≤ 2 ^ 32)
include fits

theorem sizeOf_setSize (small : v < 2 ^ 32) :
    sizeOf (setSize m a v) a = v := load_store (by omega) small

theorem nextfree_setNextfree (small : v < 2 ^ 32) :
    nextfree (setNextfree m a v) a = v := load_store (by omega) small

theorem nextfree_setSize : nextfree (setSize m a v) a = nextfree m a :=
  load_store_apart (by omega) (by omega) (by omega)

theorem sizeOf_setNextfree : sizeOf (setNextfree m a v) a = sizeOf m a :=
  load_store_apart (by omega) (by omega) (by omega)

theorem sizeOf_setFlags : sizeOf (setFlags m a v) a = sizeOf m a :=
  load_store_apart (by omega) (by omega) (by omega)

theorem nextfree_setFlags : nextfree (setFlags m a v) a = nextfree m a :=
  load_store_apart (by omega) (by omega) (by omega)

theorem set_flags_writes : Writes m (setFlags m a v) [a] :=
  store_writes (k := 0) fits (by omega)

theorem set_size_writes : Writes m (setSize m a v) [a] :=
  store_writes fits (by omega)

theorem set_nextfree_writes : Writes m (setNextfree m a v) [a] :=
  store_writes fits (by omega)

end

end Header

/-- A header at `c` shares no byte with the headers in the list. -/
def ClearOf (headers : List Nat) (c : Nat) : Prop := ∀ a ∈ headers, a + 12 ≤ c ∨ c + 12 ≤ a

theorem Writes.size_of (writes : Writes m m' as) (fits : c + 12 ≤ 2 ^ 32)
    (apart : ClearOf as c) : sizeOf m' c = sizeOf m c := by
  have same := writes.agree apart
  exact load_agree (by omega) fun x lower upper => same x (by omega) (by omega)

theorem Writes.next_of (writes : Writes m m' as) (fits : c + 12 ≤ 2 ^ 32)
    (apart : ClearOf as c) : nextfree m' c = nextfree m c := by
  have same := writes.agree apart
  exact load_agree (by omega) fun x lower upper => same x (by omega) (by omega)

/-- The free list that starts with the pointer `p`. -/
def Linked (m : Mem) : Nat → List Block → Prop
  | p, [] => p = 0
  | p, b :: bs => p = b.addr ∧ sizeOf m b.addr = b.size ∧ Linked m (nextfree m b.addr) bs

theorem linked_tail (linked : Linked m p (pre ++ c :: post)) :
    sizeOf m c.addr = c.size ∧ Linked m (nextfree m c.addr) post := by
  induction pre generalizing p with
  | nil => exact linked.2
  | cons d pre ih => exact ih linked.2.2

/-- What writes do not reach up to `c` stays linked, whatever follows. -/
theorem linked_splice (linked : Linked m p (pre ++ c :: post)) (writes : Writes m m' as)
    (clear : ∀ d ∈ pre, d.addr + 12 ≤ 2 ^ 32 ∧ ClearOf as d.addr)
    (rest : Linked m' c.addr tail) : Linked m' p (pre ++ tail) := by
  induction pre generalizing p with
  | nil =>
    obtain ⟨rfl, -⟩ := linked
    exact rest
  | cons d pre ih =>
    obtain ⟨start, size, next⟩ := linked
    obtain ⟨fits, apart⟩ := clear d List.mem_cons_self
    refine ⟨start, ?_, ?_⟩
    · rw [writes.size_of fits apart]
      exact size
    · rw [writes.next_of fits apart]
      exact ih next fun e member => clear e (List.mem_cons_of_mem d member)

theorem linked_agree (linked : Linked m p bs)
    (same : ∀ d ∈ bs, sizeOf m' d.addr = sizeOf m d.addr ∧ nextfree m' d.addr = nextfree m d.addr) :
    Linked m' p bs := by
  induction bs generalizing p with
  | nil => exact linked
  | cons d bs ih =>
    obtain ⟨start, size, next⟩ := linked
    obtain ⟨sizes, nexts⟩ := same d List.mem_cons_self
    refine ⟨start, sizes.trans size, ?_⟩
    rw [nexts]
    exact ih next fun e member => same e (List.mem_cons_of_mem d member)

theorem linked_frame (linked : Linked m p bs) (writes : Writes m m' as)
    (clear : ∀ d ∈ bs, d.addr + 12 ≤ 2 ^ 32 ∧ ClearOf as d.addr) : Linked m' p bs :=
  linked_agree linked fun d member =>
    ⟨writes.size_of (clear d member).1 (clear d member).2,
      writes.next_of (clear d member).1 (clear d member).2⟩

/-- The pointer to the first block of a list. -/
def headOf : List Block → Nat
  | [] => 0
  | b :: _ => b.addr

theorem linked_head (linked : Linked m p bs) : p = headOf bs := by
  cases bs with
  | nil => exact linked
  | cons b bs => exact linked.1

theorem linked_pointer (linked : Linked m p bs) (fits : ∀ b ∈ bs, b.addr + 12 ≤ 2 ^ 32) :
    p < 2 ^ 32 := by
  rw [linked_head linked]
  cases bs with
  | nil => exact Nat.two_pow_pos 32
  | cons b bs =>
    have bound := fits b List.mem_cons_self
    rw [headOf]
    omega

/-- Blocks in the order of their addresses, away from NULL and from the end of the
address space, in which no two overlap. -/
structure Ordered (bs : List Block) : Prop where
  sorted : bs.Pairwise fun b c => b.fin ≤ c.addr
  wide : ∀ b ∈ bs, 12 ≤ b.size
  inside : ∀ b ∈ bs, 0 < b.addr ∧ b.fin < 2 ^ 32

theorem Ordered.head_lt (held : Ordered (b :: bs)) (member : c ∈ bs) : b.addr < c.addr := by
  have sorted := (List.pairwise_cons.mp held.sorted).1 c member
  have wide := held.wide b List.mem_cons_self
  rw [Block.fin] at sorted
  omega

theorem Ordered.tail (held : Ordered (b :: bs)) : Ordered bs :=
  ⟨held.sorted.of_cons, fun c member => held.wide c (List.mem_cons_of_mem b member),
    fun c member => held.inside c (List.mem_cons_of_mem b member)⟩

/-- A block that can be put between `pre` and `post`. -/
structure FitsBetween (pre post : List Block) (b : Block) : Prop where
  after : ∀ d ∈ pre, d.fin ≤ b.addr
  before : ∀ e ∈ post, b.fin ≤ e.addr
  wide : 12 ≤ b.size
  inside : 0 < b.addr ∧ b.fin < 2 ^ 32

theorem pairwise_insert {R : Block → Block → Prop} : (pre ++ b :: post).Pairwise R ↔
    (pre ++ post).Pairwise R ∧ (∀ d ∈ pre, R d b) ∧ ∀ e ∈ post, R b e := by
  simp only [List.pairwise_append, List.pairwise_cons, List.forall_mem_cons, forall_and]
  tauto

theorem ordered_insert : Ordered (pre ++ b :: post) ↔
    Ordered (pre ++ post) ∧ FitsBetween pre post b := by
  constructor
  · rintro ⟨sorted, wide, inside⟩
    obtain ⟨sorted, after, before⟩ := pairwise_insert.mp sorted
    simp only [List.forall_mem_append, List.forall_mem_cons] at wide inside
    exact ⟨⟨sorted, List.forall_mem_append.mpr ⟨wide.1, wide.2.2⟩,
      List.forall_mem_append.mpr ⟨inside.1, inside.2.2⟩⟩, after, before, wide.2.1, inside.2.1⟩
  · rintro ⟨⟨sorted, wide, inside⟩, fits⟩
    simp only [List.forall_mem_append] at wide inside
    refine ⟨pairwise_insert.mpr ⟨sorted, fits.after, fits.before⟩, ?_, ?_⟩
    · simp only [List.forall_mem_append, List.forall_mem_cons]
      exact ⟨wide.1, fits.wide, wide.2⟩
    · simp only [List.forall_mem_append, List.forall_mem_cons]
      exact ⟨inside.1, fits.inside, inside.2⟩

theorem Ordered.fits (held : Ordered bs) (member : b ∈ bs) : b.addr + 12 ≤ 2 ^ 32 := by
  have wide := held.wide b member
  have inside := held.inside b member
  rw [Block.fin] at inside
  omega

/-- The end of a block as the code computes it. -/
theorem FitsBetween.end_eq (fits : FitsBetween pre post b) : (b.addr + b.size) % 2 ^ 32 = b.fin :=
  Nat.mod_eq_of_lt fits.inside.2

/-- The size of two blocks that meet, likewise. -/
theorem FitsBetween.joined_lt {c : Block} (fits : FitsBetween pre post d) (meet : c.fin = d.addr) :
    c.size + d.size < 2 ^ 32 := by
  have inside := fits.inside.2
  simp only [Block.fin] at inside meet
  omega

theorem FitsBetween.room (fits : FitsBetween pre post b) : b.addr + 12 ≤ 2 ^ 32 := by
  have wide := fits.wide
  have inside := fits.inside
  rw [Block.fin] at inside
  omega

/-- The header of one block is clear of the headers of all the others. -/
theorem FitsBetween.clear (fits : FitsBetween pre post b) (ordered : Ordered (pre ++ post))
    (member : d ∈ pre ++ post) : ClearOf [b.addr] d.addr := by
  intro a same
  rw [List.mem_singleton.mp same]
  have wide := ordered.wide d member
  have own := fits.wide
  rcases List.mem_append.mp member with early | late
  · have := fits.after d early
    rw [Block.fin] at this
    omega
  · have := fits.before d late
    rw [Block.fin] at this
    omega

section Lists
variable {h : Heap} {m : Mem} {b c d : Block} {bs pre post : List Block} {cur header size : Nat}

/-- Writes that are clear of the other blocks leave what is before and after `c` linked. -/
theorem linked_around (linked : Linked m p (pre ++ c :: post)) (rest : Ordered (pre ++ post))
    (writes : Writes m m' as) (clear : ∀ d ∈ pre ++ post, ClearOf as d.addr) :
    (∀ tail, Linked m' c.addr tail → Linked m' p (pre ++ tail)) ∧
      Linked m' (nextfree m c.addr) post := by
  refine ⟨fun tail => linked_splice linked writes fun d early => ?_,
    linked_frame (linked_tail linked).2 writes fun d late => ?_⟩
  · have member := List.mem_append_left post early
    exact ⟨rest.fits member, clear d member⟩
  · have member := List.mem_append_right pre late
    exact ⟨rest.fits member, clear d member⟩

/-- Two neighbours that meet make one block. -/
theorem ordered_join (held : Ordered (pre ++ c :: d :: post)) (meet : c.fin = d.addr) :
    Ordered (pre ++ ⟨c.addr, c.size + d.size⟩ :: post) := by
  obtain ⟨rest, outer⟩ := ordered_insert.mp held
  obtain ⟨rest, inner⟩ := ordered_insert.mp rest
  refine ordered_insert.mpr ⟨rest, outer.after, fun e late => ?_, ?_, outer.inside.1, ?_⟩
  · have beyond := inner.before e late
    simp only [Block.fin] at beyond meet ⊢
    omega
  · exact Nat.le_add_right_of_le outer.wide
  · have bound := inner.inside.2
    simp only [Block.fin] at bound meet ⊢
    omega

/-- No block of the list ends where a later one starts. -/
def Parted (bs : List Block) : Prop := bs.Pairwise fun b c => b.fin ≠ c.addr

theorem parted_join (meet : c.fin = d.addr) (parted : Parted (pre ++ d :: post))
    (gaps : ∀ e ∈ pre, e.fin ≠ c.addr) : Parted (pre ++ ⟨c.addr, c.size + d.size⟩ :: post) := by
  obtain ⟨rest, -, after⟩ := pairwise_insert.mp parted
  refine pairwise_insert.mpr ⟨rest, gaps, fun e late => ?_⟩
  have gap := after e late
  simp only [Block.fin] at gap meet ⊢
  omega

/-- Memory between two pieces of free memory: the bytes right before and after it are free. -/
def Bridging (free : Nat → Prop) (b : Block) : Prop := b.addr ≠ 0 ∧ free (b.addr - 1) ∧ free b.fin

/-- What putting the block `b` on the free list `bs` makes of it. -/
structure Merged (bs : List Block) (b : Block) (bs' : List Block) : Prop where
  starts : bs'.map Block.addr ⊆ (b :: bs).map Block.addr
  covers : ∀ x, Covered bs' x → Covered bs x ∨ b.addr ≠ 0 ∧ b.Holds x
  parted : Parted bs → ¬ Bridging (Covered bs) b → Parted bs'
  grows : b.addr ≠ 0 → ∃ d ∈ bs', d.addr ≤ b.addr ∧ b.fin ≤ d.fin ∧
    ∀ c ∈ bs, c.fin = b.addr → d.addr ≤ c.addr

theorem retiled_join (meet : c.fin = d.addr) :
    Retiled 12 (pre ++ c :: d :: post) (pre ++ ⟨c.addr, c.size + d.size⟩ :: post) := by
  have front : (pre ++ c :: d :: post).Perm (c :: d :: (pre ++ post)) := by
    refine List.perm_middle.trans (List.Perm.cons c ?_)
    exact List.perm_middle
  exact .trans (.perm front) (.trans (.join meet) (.perm List.perm_middle.symm))

/-- An ordered list is shorter than the address space. -/
theorem Ordered.length_lt (held : Ordered bs) : bs.length < 2 ^ 32 := by
  have distinct : (bs.map Block.addr).Nodup := by
    refine List.pairwise_map.mpr (held.sorted.imp_of_mem fun {b c} left right apart => ?_)
    have wide := held.wide b left
    rw [Block.fin] at apart
    omega
  have within : bs.map Block.addr ⊆ List.range (2 ^ 32 - 1) := by
    intro a member
    obtain ⟨b, inList, rfl⟩ := List.mem_map.mp member
    have wide := held.wide b inList
    have inside := held.inside b inList
    rw [Block.fin] at inside
    rw [List.mem_range]
    omega
  have short := (distinct.subperm within).length_le
  rw [List.length_map, List.length_range] at short
  omega

/-- The loop stops at the last block before the new one. -/
theorem insert_place_found (rounds : Nat) (linked : Linked m cur (c :: bs))
    (ordered : Ordered (c :: bs)) (before : c.addr < header)
    (fresh : ∀ d ∈ bs, d.addr ≠ header) (enough : bs.length < rounds) :
    ∃ pre d post, c :: bs = pre ++ d :: post ∧ insertPlace m header rounds cur = some d.addr ∧
      d.addr < header ∧ ∀ e ∈ post, header < e.addr := by
  induction bs generalizing c cur rounds with
  | nil =>
    obtain ⟨rfl, -, last⟩ := linked
    have positive := (ordered.inside c List.mem_cons_self).1
    refine ⟨[], c, [], rfl, ?_, before, by simp⟩
    cases rounds with
    | zero => cases enough
    | succ rounds => rw [insertPlace, if_neg (by omega), if_pos ⟨before, Or.inr last⟩]
  | cons d bs ih =>
    obtain ⟨rfl, -, linked⟩ := linked
    have next := linked.1
    have positive := (ordered.inside c List.mem_cons_self).1
    have positiveNext := (ordered.inside d (List.mem_cons_of_mem c List.mem_cons_self)).1
    have rest : Ordered (d :: bs) := ordered.tail
    cases rounds with
    | zero => cases enough
    | succ rounds =>
      rw [insertPlace, if_neg (by omega), next]
      by_cases beyond : header < d.addr
      · refine ⟨[], c, d :: bs, rfl, if_pos ⟨before, Or.inl beyond⟩, before, ?_⟩
        intro e member
        rcases List.mem_cons.mp member with rfl | later
        · exact beyond
        · exact beyond.trans (rest.head_lt later)
      · have earlier : d.addr < header := by
          have other := fresh d List.mem_cons_self
          omega
        rw [if_neg (by omega)]
        rw [next] at linked
        obtain ⟨pre, e, post, split, found, after, last⟩ := ih rounds linked rest earlier
          (fun f member => fresh f (List.mem_cons_of_mem d member))
          (Nat.lt_of_succ_lt_succ enough)
        exact ⟨c :: pre, e, post, congrArg (c :: ·) split, found, after, last⟩

/-- What `linkIn` makes of the free list: the block is linked in between `pre` and
`post`, or it is added to the last block of `pre`. -/
structure LinkedIn (h h' : Heap) (b : Block) (pre post : List Block) : Prop where
  fits : FitsBetween pre post b
  links : ((∀ d ∈ pre, d.fin ≠ b.addr) ∧ Writes h.mem h'.mem (b.addr :: pre.map Block.addr) ∧
      Linked h'.mem h'.firstfree (pre ++ b :: post)) ∨
    ∃ init c, pre = init ++ [c] ∧ c.fin = b.addr ∧ Writes h.mem h'.mem [c.addr] ∧
      Linked h'.mem h'.firstfree (init ++ ⟨c.addr, c.size + b.size⟩ :: post)

/-- The new block goes in front of the whole list. -/
theorem link_in_front (linked : Linked h.mem h.firstfree bs) (ordered : Ordered bs)
    (size : sizeOf h.mem b.addr = b.size) (fits : FitsBetween [] bs b) :
    LinkedIn h ⟨setNextfree h.mem b.addr h.firstfree, b.addr⟩ b [] bs := by
  have room := fits.room
  have writes : Writes h.mem (setNextfree h.mem b.addr h.firstfree) [b.addr] :=
    set_nextfree_writes room
  have pointer := linked_pointer linked fun c member => ordered.fits member
  refine ⟨fits, Or.inl ⟨by simp, writes, rfl, ?_, ?_⟩⟩
  · rw [sizeOf_setNextfree room]
    exact size
  · rw [nextfree_setNextfree room pointer]
    exact linked_frame linked writes fun d member =>
      ⟨ordered.fits member, fits.clear ordered member⟩

section
variable (linked : Linked h.mem h.firstfree (init ++ c :: post)) (ordered : Ordered (init ++ c :: post))
include linked ordered

/-- The new block is added to the block right before it. -/
theorem link_in_join (fits : FitsBetween (init ++ [c]) post b)
    (meet : c.fin = b.addr) :
    LinkedIn h { h with mem := setSize h.mem c.addr ((c.size + b.size) % 2 ^ 32) } b
      (init ++ [c]) post := by
  obtain ⟨rest, own⟩ := ordered_insert.mp ordered
  have writes : Writes h.mem (setSize h.mem c.addr ((c.size + b.size) % 2 ^ 32)) [c.addr] :=
    set_size_writes own.room
  obtain ⟨front, back⟩ := linked_around linked rest writes fun d => own.clear rest
  refine ⟨fits, Or.inr ⟨init, c, rfl, meet, writes, front _ ⟨rfl, ?_, ?_⟩⟩⟩
  · rw [sizeOf_setSize own.room (Nat.mod_lt _ (Nat.two_pow_pos 32)),
      Nat.mod_eq_of_lt (fits.joined_lt meet)]
  · rw [nextfree_setSize own.room]
    exact back

/-- The new block is linked in after the block `c`. -/
theorem link_in_after (size : sizeOf h.mem b.addr = b.size)
    (fits : FitsBetween (init ++ [c]) post b) (gap : c.fin ≠ b.addr) :
    LinkedIn h
      { h with mem := setNextfree (setNextfree h.mem b.addr (nextfree h.mem c.addr)) c.addr b.addr }
      b (init ++ [c]) post := by
  obtain ⟨rest, own⟩ := ordered_insert.mp ordered
  have whole : Ordered ((init ++ [c]) ++ post) := by
    rw [List.append_assoc]
    exact ordered
  have atC : c ∈ (init ++ [c]) ++ post := by simp
  have fromB : ClearOf [b.addr] c.addr := fits.clear whole atC
  obtain ⟨-, next⟩ := linked_tail linked
  have pointer := linked_pointer next fun d member =>
    rest.fits (List.mem_append_right init member)
  have first : Writes h.mem (setNextfree h.mem b.addr (nextfree h.mem c.addr)) [b.addr] :=
    set_nextfree_writes fits.room
  have second : Writes (setNextfree h.mem b.addr (nextfree h.mem c.addr))
      (setNextfree (setNextfree h.mem b.addr (nextfree h.mem c.addr)) c.addr b.addr) [c.addr] :=
    set_nextfree_writes own.room
  have writes := first.trans second
  have clear : ∀ d ∈ init ++ post, ClearOf ([b.addr] ++ [c.addr]) d.addr := by
    intro d member a written
    have inWhole : d ∈ (init ++ [c]) ++ post := by
      simp only [List.mem_append, List.mem_singleton] at member ⊢
      tauto
    rcases List.mem_append.mp written with atB | atC
    · exact fits.clear whole inWhole a atB
    · exact own.clear rest member a atC
  have toC : ClearOf [c.addr] b.addr := by
    intro a same
    rw [List.mem_singleton.mp same]
    exact (fromB b.addr List.mem_cons_self).symm
  have gaps : ∀ d ∈ init ++ [c], d.fin ≠ b.addr := by
    intro d member
    rcases List.mem_append.mp member with early | last
    · have sorted := own.after d early
      have room := fits.after c (by simp)
      have wide := own.wide
      rw [Block.fin] at room
      omega
    · rw [List.mem_singleton.mp last]
      exact gap
  obtain ⟨front, back⟩ := linked_around linked rest writes clear
  refine ⟨fits, Or.inl ⟨gaps, writes.mono (by simp), ?_⟩⟩
  rw [List.append_assoc]
  refine front _ ⟨rfl, ?_, ?_⟩
  · rw [sizeOf_setNextfree own.room, first.size_of own.room fromB]
    exact (linked_tail linked).1
  · rw [nextfree_setNextfree own.room (by have := fits.room; omega)]
    refine ⟨rfl, ?_, ?_⟩
    · rw [second.size_of fits.room toC, sizeOf_setNextfree fits.room]
      exact size
    · rw [second.next_of fits.room toC, nextfree_setNextfree fits.room pointer]
      exact back

end

/-- A free list and a block outside of it whose header is filled in. -/
structure Insertable (h : Heap) (bs : List Block) (b : Block) : Prop where
  linked : Linked h.mem h.firstfree bs
  ordered : Ordered bs
  size : sizeOf h.mem b.addr = b.size
  apart : ∀ c ∈ bs, c.Apart b
  wide : 12 ≤ b.size
  inside : 0 < b.addr ∧ b.fin < 2 ^ 32

theorem Insertable.between (pre post : List Block) (held : Insertable h (pre ++ post) b)
    (after : ∀ d ∈ pre, d.addr < b.addr) (before : ∀ e ∈ post, b.addr < e.addr) :
    FitsBetween pre post b := by
  refine ⟨fun d member => ?_, fun e member => ?_, held.wide, held.inside⟩
  · have order := after d member
    have apart := held.apart d (List.mem_append_left post member)
    simp only [Block.Apart, Block.fin] at apart ⊢
    omega
  · have order := before e member
    have apart := held.apart e (List.mem_append_right pre member)
    simp only [Block.Apart, Block.fin] at apart ⊢
    omega

theorem Insertable.address_ne (held : Insertable h bs b) (member : c ∈ bs) :
    c.addr ≠ b.addr := by
  have apart := held.apart c member
  have own := held.wide
  have other := held.ordered.wide c member
  simp only [Block.Apart, Block.fin] at apart
  omega

/-- The new block comes after the first one, so the loop finds its place. -/
theorem link_in_later (held : Insertable h (c :: bs) b) (later : c.addr < b.addr) :
    ∃ h' pre post, c :: bs = pre ++ post ∧ linkIn h b.addr = some h' ∧
      LinkedIn h h' b pre post := by
  have start : h.firstfree = c.addr := held.linked.1
  have positive := (held.ordered.inside c List.mem_cons_self).1
  have short := held.ordered.length_lt
  rw [List.length_cons] at short
  obtain ⟨init, d, post, split, found, before, after⟩ := insert_place_found (2 ^ 32) held.linked
    held.ordered later (fun e member => held.address_ne (List.mem_cons_of_mem c member)) (by omega)
  rw [split] at held
  have order := held.ordered.sorted
  obtain ⟨-, -, across⟩ := List.pairwise_append.mp order
  have fits : FitsBetween (init ++ [d]) post b := by
    refine Insertable.between (h := h) (init ++ [d]) post ?_ (fun e member => ?_) after
    · rw [List.append_assoc]
      exact held
    · rcases List.mem_append.mp member with early | last
      · have sorted := across e early d List.mem_cons_self
        rw [Block.fin] at sorted
        omega
      · rw [List.mem_singleton.mp last]
        exact before
  have own := (ordered_insert.mp held.ordered).2
  have positiveD := own.inside.1
  have sizeD := (linked_tail held.linked).1
  have regroup : c :: bs = (init ++ [d]) ++ post := by
    rw [List.append_assoc]
    exact split
  rw [linkIn, start, if_neg (by omega), if_neg (by omega), ← start, found, Option.map_some,
    if_neg (by omega), sizeD, held.size, own.end_eq]
  by_cases meet : d.fin = b.addr
  · rw [if_pos meet]
    exact ⟨_, _, _, regroup, rfl, link_in_join held.linked held.ordered fits meet⟩
  · rw [if_neg meet]
    exact ⟨_, _, _, regroup, rfl, link_in_after held.linked held.ordered held.size fits meet⟩

theorem link_in_spec (held : Insertable h bs b) :
    ∃ h' pre post, bs = pre ++ post ∧ linkIn h b.addr = some h' ∧ LinkedIn h h' b pre post := by
  cases bs with
  | nil =>
    have empty : h.firstfree = 0 := held.linked
    have front := link_in_front held.linked held.ordered held.size
      (held.between [] [] (by simp) (by simp))
    rw [empty] at front
    exact ⟨_, [], [], rfl, by rw [linkIn, if_pos empty], front⟩
  | cons c bs =>
    by_cases first : b.addr < c.addr
    · have start : h.firstfree = c.addr := held.linked.1
      have fits : FitsBetween [] (c :: bs) b := by
        refine held.between [] (c :: bs) (by simp) (fun e member => ?_)
        rcases List.mem_cons.mp member with rfl | later
        · exact first
        · exact first.trans (held.ordered.head_lt later)
      refine ⟨_, [], c :: bs, rfl, ?_, link_in_front held.linked held.ordered held.size fits⟩
      rw [linkIn, if_neg (by omega), if_pos (by omega)]
    · have other := held.address_ne List.mem_cons_self
      exact link_in_later held (by omega)

theorem join_next_writes (h : Heap) (room : a + 12 ≤ 2 ^ 32) :
    Writes h.mem (joinNext h a).mem [a] := by
  simp only [joinNext]
  split
  · exact ((set_size_writes room).trans (set_nextfree_writes room)).mono (by simp)
  · exact fun x _ => rfl

theorem join_next_firstfree (h : Heap) (a : Nat) : (joinNext h a).firstfree = h.firstfree := by
  simp only [joinNext]
  split <;> rfl

/-- The block takes in the next one if they meet. -/
theorem join_next_meets (linked : Linked h.mem h.firstfree (pre ++ b :: d :: post))
    (ordered : Ordered (pre ++ b :: d :: post)) (meet : b.fin = d.addr) :
    Linked (joinNext h b.addr).mem h.firstfree (pre ++ ⟨b.addr, b.size + d.size⟩ :: post) := by
  obtain ⟨others, own⟩ := ordered_insert.mp ordered
  obtain ⟨rest, next⟩ := ordered_insert.mp others
  obtain ⟨size, start, sizeD, linkedPost⟩ := linked_tail linked
  have room := own.room
  have fromB : ClearOf [b.addr] d.addr :=
    own.clear others (List.mem_append_right pre List.mem_cons_self)
  have sized : Writes h.mem (setSize h.mem b.addr ((b.size + d.size) % 2 ^ 32)) [b.addr] :=
    set_size_writes room
  have pointer := linked_pointer linkedPost fun e member =>
    rest.fits (List.mem_append_right pre member)
  have tail : nextfree (setSize h.mem b.addr ((b.size + d.size) % 2 ^ 32)) d.addr =
      nextfree h.mem d.addr := sized.next_of next.room fromB
  have result : (joinNext h b.addr).mem =
      setNextfree (setSize h.mem b.addr ((b.size + d.size) % 2 ^ 32)) b.addr
        (nextfree h.mem d.addr) := by
    have meets := own.end_eq.trans meet
    simp only [joinNext, start, size, if_pos meets, sizeD, nextfree_setSize room, tail]
  have writes := sized.trans (set_nextfree_writes (v := nextfree h.mem d.addr) room)
  have clear : ∀ e ∈ pre ++ d :: post, ClearOf ([b.addr] ++ [b.addr]) e.addr :=
    fun e member a written => own.clear others member a (by simpa using written)
  rw [result]
  refine (linked_around linked others writes clear).1 _ ⟨rfl, ?_, ?_⟩
  · rw [sizeOf_setNextfree room, sizeOf_setSize room (Nat.mod_lt _ (Nat.two_pow_pos 32)),
      Nat.mod_eq_of_lt (next.joined_lt meet)]
  · rw [nextfree_setNextfree room pointer]
    exact linked_frame linkedPost writes fun e member =>
      ⟨rest.fits (List.mem_append_right pre member), clear e (by simp [member])⟩

section
variable (linked : Linked h.mem h.firstfree (pre ++ b :: post)) (ordered : Ordered (pre ++ b :: post))
include linked ordered

/-- Otherwise nothing happens. -/
theorem join_next_apart (gap : b.fin ≠ headOf post) :
    joinNext h b.addr = h := by
  obtain ⟨size, next⟩ := linked_tail linked
  rw [joinNext, size, linked_head next, (ordered_insert.mp ordered).2.end_eq, if_neg gap]

theorem join_next_spec :
    ∃ bs, Linked (joinNext h b.addr).mem h.firstfree bs ∧ Ordered bs ∧
      Retiled 12 (pre ++ b :: post) bs ∧
      bs.map Block.addr ⊆ (pre ++ b :: post).map Block.addr ∧
      (Parted (pre ++ post) → (∀ d ∈ pre, d.fin ≠ b.addr) → Parted bs) ∧
      ∃ d ∈ bs, d.addr = b.addr ∧ b.fin ≤ d.fin := by
  by_cases meet : b.fin = headOf post
  · cases post with
    | nil =>
      have positive := (ordered.inside b (List.mem_append_right pre List.mem_cons_self)).1
      rw [Block.fin, headOf] at meet
      omega
    | cons d post =>
      refine ⟨_, join_next_meets linked ordered meet, ordered_join ordered meet, retiled_join meet,
        fun a => ?_, parted_join meet, _, List.mem_append_right pre List.mem_cons_self, rfl, ?_⟩
      · simp only [List.map_append, List.map_cons, List.mem_append, List.mem_cons]
        tauto
      · simp only [Block.fin]
        omega
  · rw [join_next_apart linked ordered meet]
    refine ⟨_, linked, ordered, .perm (List.Perm.refl _), List.Subset.refl _,
      fun parted gaps => ?_, b, by simp, rfl, Nat.le_refl _⟩
    refine pairwise_insert.mpr ⟨parted, gaps, fun e late => ?_⟩
    obtain ⟨rest, own⟩ := ordered_insert.mp ordered
    cases post with
    | nil => cases late
    | cons d post =>
      rcases List.mem_cons.mp late with rfl | late
      · exact meet
      · have first := own.before d List.mem_cons_self
        have wide := rest.wide d (List.mem_append_right pre List.mem_cons_self)
        have second := (ordered_insert.mp rest).2.before e late
        rw [Block.fin] at second
        omega

end

theorem covers_of (whole : Retiled 12 (b :: bs) bs') (real : 0 < b.addr) (x : Nat)
    (covered : Covered bs' x) : Covered bs x ∨ b.addr ≠ 0 ∧ b.Holds x := by
  obtain ⟨c, member, holds⟩ := (whole.covered x).mp covered
  rcases List.mem_cons.mp member with rfl | old
  · exact .inr ⟨Nat.ne_of_gt real, holds⟩
  · exact .inl ⟨c, old, holds⟩

/-- `_malloc_insertlist` returns, and the block is part of the free list, joined with
its neighbours or not. Only headers on the list and the block's own are written. -/
theorem insertlist_spec (held : Insertable h bs b) :
    ∃ h' bs', mallocInsertlist h b.addr = some h' ∧ Linked h'.mem h'.firstfree bs' ∧
      Ordered bs' ∧ Retiled 12 (b :: bs) bs' ∧
      Writes h.mem h'.mem ((b :: bs).map Block.addr) ∧ Merged bs b bs' := by
  obtain ⟨mid, pre, post, rfl, linkedIn, fits, links⟩ := link_in_spec held
  have ordered : Ordered (pre ++ b :: post) := ordered_insert.mpr ⟨held.ordered, fits⟩
  have toFront : Retiled 12 (b :: (pre ++ post)) (pre ++ b :: post) :=
    .perm List.perm_middle.symm
  have second := join_next_writes mid fits.room
  refine ⟨joinNext mid b.addr, ?_⟩
  rw [mallocInsertlist, linkedIn, join_next_firstfree]
  rcases links with ⟨gaps, writes, linked⟩ | ⟨init, c, rfl, meet, writes, linked⟩
  · obtain ⟨bs', linked', ordered', retiled, starts, parts, d, inList, start, stop⟩ :=
      join_next_spec linked ordered
    have whole := Retiled.trans toFront retiled
    refine ⟨bs', rfl, linked', ordered', whole,
      (writes.trans second).mono (by simp only [List.mem_append, List.map_cons, List.map_append,
        List.mem_cons, List.not_mem_nil]; tauto), ?_, covers_of whole held.inside.1,
      fun parted _ => parts parted gaps, fun _ => ⟨d, inList, start.le, stop, fun e member ends => ?_⟩⟩
    · exact List.Subset.trans starts (List.perm_middle.map Block.addr).subset
    · rcases List.mem_append.mp member with early | late
      · exact absurd ends (gaps e early)
      · have beyond := fits.before e late
        simp only [Block.fin] at beyond
        omega
  · have regroup : init ++ [c] ++ b :: post = init ++ c :: b :: post := by simp
    rw [regroup] at ordered toFront
    have whole := Retiled.trans toFront (retiled_join meet)
    refine ⟨_, rfl, ?_, ordered_join ordered meet, whole,
      (writes.trans second).mono (by simp), ?_, covers_of whole held.inside.1, ?_,
      fun _ => ⟨_, List.mem_append_right init List.mem_cons_self, ?_, ?_, fun e member ends => ?_⟩⟩
    · refine linked_frame linked second fun d member => ?_
      have joined := ordered_join ordered meet
      refine ⟨joined.fits member, ?_⟩
      rcases List.mem_append.mp member with early | late
      · exact fits.clear held.ordered (by simp [early])
      · rcases List.mem_cons.mp late with rfl | late
        · exact fits.clear (d := c) held.ordered (by simp)
        · exact fits.clear held.ordered (by simp [late])
    · intro a
      simp only [List.map_append, List.map_cons, List.mem_append, List.mem_cons]
      tauto
    · -- the block is added to `c`, and nothing joins `c` with what comes after
      intro parted apart
      rw [List.append_assoc] at parted
      obtain ⟨rest, before, -⟩ := pairwise_insert.mp parted
      refine pairwise_insert.mpr ⟨rest, before, fun e late meets => apart ⟨?_, ?_, ?_⟩⟩
      · have positive := held.inside.1
        omega
      · have wide := held.ordered.wide c (by simp)
        rw [Block.fin] at meet
        exact ⟨c, by simp, by omega, by rw [Block.fin]; omega⟩
      · have wide := held.ordered.wide e (by simp [late])
        have start : b.fin = e.addr := by
          simp only [Block.fin] at meet meets ⊢
          omega
        exact ⟨e, by simp [late], start.ge, by rw [start, Block.fin]; omega⟩
    · simp only [Block.fin] at meet ⊢
      omega
    · simp only [Block.fin] at meet ⊢
      omega
    · simp only [List.append_assoc, List.mem_append, List.mem_singleton] at member
      rcases member with early | rfl | late
      · have sorted := (ordered_insert.mp ordered).2.after e early
        have wide := held.ordered.wide c (by simp)
        rw [Block.fin] at meet
        omega
      · exact Nat.le_refl _
      · have beyond := fits.before e late
        simp only [Block.fin] at beyond meet ⊢
        omega

/-- The block before the place that a walk over `bs` has come to. -/
def lastOf (last : Nat) : List Block → Nat
  | [] => last
  | b :: bs => lastOf b.addr bs

theorem last_of_append (last : Nat) (bs : List Block) (b : Block) :
    lastOf last (bs ++ [b]) = b.addr := by
  induction bs generalizing last with
  | nil => rfl
  | cons c bs ih => exact ih c.addr

/-- The block is taken for `size` bytes, whole or cut. -/
def Suits (size : Nat) (c : Block) : Prop := size = c.size ∨ (size + 12) % 2 ^ 32 ≤ c.size

theorem find_free_spec (size rounds last : Nat) (linked : Linked m cur bs) (ordered : Ordered bs)
    (enough : bs.length < rounds) :
    (∃ l, findFree m size rounds last cur = some (l, 0) ∧ ∀ d ∈ bs, ¬ Suits size d) ∨
      ∃ pre c post, bs = pre ++ c :: post ∧
        findFree m size rounds last cur = some (lastOf last pre, c.addr) ∧
        Suits size c ∧ ∀ d ∈ pre, ¬ Suits size d := by
  induction bs generalizing cur rounds last with
  | nil =>
    cases rounds with
    | zero => cases enough
    | succ rounds =>
      have stop : cur = 0 := linked
      exact Or.inl ⟨last, by rw [findFree, if_pos stop], by simp⟩
  | cons c bs ih =>
    obtain ⟨rfl, sizeC, linked⟩ := linked
    have positive := (ordered.inside c List.mem_cons_self).1
    cases rounds with
    | zero => cases enough
    | succ rounds =>
      rw [findFree, if_neg (by omega), sizeC]
      by_cases suits : size = c.size ∨ (size + 12) % 2 ^ 32 ≤ c.size
      · exact Or.inr ⟨[], c, bs, rfl, if_pos suits, suits, by simp⟩
      · rw [if_neg suits]
        rcases ih rounds c.addr linked ordered.tail (Nat.lt_of_succ_lt_succ enough) with
          ⟨l, none, others⟩ | ⟨pre, d, post, split, found, suited, others⟩
        · exact Or.inl ⟨l, none, List.forall_mem_cons.mpr ⟨suits, others⟩⟩
        · exact Or.inr ⟨c :: pre, d, post, congrArg (c :: ·) split, found, suited,
            List.forall_mem_cons.mpr ⟨suits, others⟩⟩

/-- The rest of the list from `c` on is replaced by `tail`. -/
theorem relink_linked (linked : Linked h.mem h.firstfree (pre ++ c :: post))
    (ordered : Ordered (pre ++ tail)) (writes : Writes h.mem mem as)
    (clear : ∀ d ∈ pre, ClearOf as d.addr) (rest : Linked mem next tail) :
    Linked (relink h mem (lastOf 0 pre) next).mem (relink h mem (lastOf 0 pre) next).firstfree
      (pre ++ tail) ∧
    Writes mem (relink h mem (lastOf 0 pre) next).mem (pre.map Block.addr) := by
  have pointer := linked_pointer rest fun e member =>
    ordered.fits (List.mem_append_right pre member)
  rcases List.eq_nil_or_concat pre with rfl | ⟨init, d, rfl⟩
  · exact ⟨rest, fun x _ => rfl⟩
  · rw [List.concat_eq_append] at linked ordered clear ⊢
    have member : d ∈ init ++ [d] ++ tail := by simp
    have positive := (ordered.inside d member).1
    have room := ordered.fits member
    obtain ⟨others, own⟩ := ordered_insert.mp (List.append_assoc init [d] tail ▸ ordered)
    rw [last_of_append, relink, if_neg (by omega)]
    have second : Writes mem (setNextfree mem d.addr next) [d.addr] := set_nextfree_writes room
    refine ⟨?_, second.mono (by simp)⟩
    rw [List.append_assoc] at linked ⊢
    refine linked_splice linked (writes.trans second) (fun e early => ⟨?_, ?_⟩) ⟨rfl, ?_, ?_⟩
    · exact others.fits (List.mem_append_left tail early)
    · intro a written
      rcases List.mem_append.mp written with first | last
      · exact clear e (List.mem_append_left [d] early) a first
      · exact own.clear others (List.mem_append_left tail early) a last
    · rw [sizeOf_setNextfree room, writes.size_of room (clear d (by simp))]
      exact (linked_tail linked).1
    · rw [nextfree_setNextfree room pointer]
      exact linked_frame rest second fun e late =>
        ⟨others.fits (List.mem_append_right init late),
          own.clear others (List.mem_append_right init late)⟩

/-- The two memories differ only inside the blocks. -/
def Within (m m' : Mem) (blocks : List Block) : Prop := ∀ x, ¬ Covered blocks x → m' x = m x

theorem Writes.within (writes : Writes m m' as)
    (inBlocks : ∀ a ∈ as, ∃ b ∈ blocks, b.addr ≤ a ∧ a + 12 ≤ b.fin) : Within m m' blocks := by
  intro x outside
  refine writes x fun a member inside => outside ?_
  obtain ⟨b, inList, start, stop⟩ := inBlocks a member
  exact ⟨b, inList, by omega, by omega⟩

theorem header_within {bs : List Block} (wide : ∀ b ∈ bs, 12 ≤ b.size) (member : a ∈ bs.map Block.addr) :
    ∃ b ∈ bs, b.addr ≤ a ∧ a + 12 ≤ b.fin := by
  obtain ⟨b, inList, rfl⟩ := List.mem_map.mp member
  have enough := wide b inList
  exact ⟨b, inList, Nat.le_refl _, by rw [Block.fin]; omega⟩

theorem FitsBetween.clear_of (fits : FitsBetween pre post b) (ordered : Ordered (pre ++ post)) :
    ClearOf (pre.map Block.addr) b.addr := by
  intro a member
  obtain ⟨d, early, rfl⟩ := List.mem_map.mp member
  exact (fits.clear ordered (List.mem_append_left post early) b.addr List.mem_cons_self).symm

/-- A block of exactly the size asked for is unlinked. -/
theorem take_whole (linked : Linked h.mem h.firstfree (pre ++ c :: post))
    (ordered : Ordered (pre ++ c :: post)) :
    Linked (takeBlock h c.size (lastOf 0 pre) c.addr).mem
      (takeBlock h c.size (lastOf 0 pre) c.addr).firstfree (pre ++ post) ∧
    sizeOf (takeBlock h c.size (lastOf 0 pre) c.addr).mem c.addr = c.size ∧
    Writes h.mem (takeBlock h c.size (lastOf 0 pre) c.addr).mem
      ((pre ++ c :: post).map Block.addr) := by
  obtain ⟨rest, own⟩ := ordered_insert.mp ordered
  obtain ⟨size, -⟩ := linked_tail linked
  have room := own.room
  rw [takeBlock, if_pos size.symm]
  generalize flagsOf h.mem c.addr ||| 1 = flags
  have flagged : Writes h.mem (setFlags h.mem c.addr flags) [c.addr] := set_flags_writes room
  have tail : Linked (setFlags h.mem c.addr flags)
      (nextfree (setFlags h.mem c.addr flags) c.addr) post := by
    rw [nextfree_setFlags room]
    exact (linked_around linked rest flagged fun d => own.clear rest).2
  obtain ⟨linked', second⟩ := relink_linked linked rest flagged
    (fun d member => own.clear rest (List.mem_append_left post member)) tail
  refine ⟨linked', ?_, ?_⟩
  · rw [second.size_of room (own.clear_of rest), sizeOf_setFlags room]
    exact size
  · apply (flagged.trans second).mono
    intro a
    simp only [List.mem_append, List.map_append, List.map_cons, List.mem_cons]
    tauto

/-- Cutting writes the header of the new block and the size and flags of the old one. -/
theorem cut_mem_spec (fits : cur + whole < 2 ^ 32) (left : 12 ≤ size) (right : size + 12 ≤ whole)
    (sized : sizeOf m cur = whole) (pointer : nextfree m cur < 2 ^ 32) :
    Writes m (cutMem m size cur) [cur + size, cur] ∧ sizeOf (cutMem m size cur) cur = size ∧
    sizeOf (cutMem m size cur) (cur + size) = whole - size ∧
    nextfree (cutMem m size cur) (cur + size) = nextfree m cur := by
  have address : (cur + size) % 2 ^ 32 = cur + size := Nat.mod_eq_of_lt (by omega)
  simp only [cutMem, address]
  generalize new_def : cur + size = new
  have room : cur + 12 ≤ 2 ^ 32 := by omega
  have roomNew : new + 12 ≤ 2 ^ 32 := by omega
  have toCur : ClearOf [new] cur := by
    intro a member
    rw [List.mem_singleton.mp member]
    omega
  have toNew : ClearOf [cur] new := by
    intro a member
    rw [List.mem_singleton.mp member]
    omega
  have first : Writes m (setFlags m new 0) [new] := set_flags_writes roomNew
  rw [first.size_of room toCur, sized,
    show (whole + (2 ^ 32 - size)) % 2 ^ 32 = whole - size by omega]
  have second := first.trans (set_size_writes (v := whole - size) roomNew)
  have both : Writes m (setSize (setFlags m new 0) new (whole - size)) [new] :=
    second.mono (by simp)
  rw [both.next_of room toCur]
  have third := both.trans (set_nextfree_writes (v := nextfree m cur) roomNew)
  generalize mid_def :
    setNextfree (setSize (setFlags m new 0) new (whole - size)) new (nextfree m cur) = mid at third ⊢
  have newSize : sizeOf mid new = whole - size := by
    rw [← mid_def, sizeOf_setNextfree roomNew, sizeOf_setSize roomNew (by omega)]
  have newNext : nextfree mid new = nextfree m cur := by
    rw [← mid_def, nextfree_setNextfree roomNew pointer]
  have fourth : Writes mid (setSize mid cur size) [cur] := set_size_writes room
  have last : Writes mid (setFlags (setSize mid cur size) cur
      (flagsOf (setSize mid cur size) cur ||| 1)) [cur] :=
    (fourth.trans (set_flags_writes room)).mono (by simp)
  refine ⟨(third.trans last).mono (by simp), ?_, ?_, ?_⟩
  · rw [sizeOf_setFlags room, sizeOf_setSize room (by omega)]
  · rw [last.size_of roomNew toNew, newSize]
  · rw [last.next_of roomNew toNew, newNext]

/-- A larger block keeps its front part, and the rest takes its place on the list. -/
theorem take_cut (linked : Linked h.mem h.firstfree (pre ++ c :: post))
    (ordered : Ordered (pre ++ c :: post)) (left : 12 ≤ size) (right : size + 12 ≤ c.size) :
    Ordered (pre ++ ⟨c.addr + size, c.size - size⟩ :: post) ∧
    Linked (takeBlock h size (lastOf 0 pre) c.addr).mem
      (takeBlock h size (lastOf 0 pre) c.addr).firstfree
      (pre ++ ⟨c.addr + size, c.size - size⟩ :: post) ∧
    sizeOf (takeBlock h size (lastOf 0 pre) c.addr).mem c.addr = size ∧
    Writes h.mem (takeBlock h size (lastOf 0 pre) c.addr).mem
      ((c.addr + size) :: (pre ++ c :: post).map Block.addr) := by
  obtain ⟨rest, own⟩ := ordered_insert.mp ordered
  obtain ⟨sized, next⟩ := linked_tail linked
  have bound := own.inside.2
  rw [Block.fin] at bound
  have fits : FitsBetween pre post ⟨c.addr + size, c.size - size⟩ := by
    refine ⟨fun d early => ?_, fun e late => ?_, ?_, ?_⟩
    · exact Nat.le_add_right_of_le (own.after d early)
    · have beyond := own.before e late
      simp only [Block.fin] at beyond ⊢
      omega
    · exact Nat.le_sub_of_add_le (by omega)
    · simp only [Block.fin]
      omega
  have ordered' := ordered_insert.mpr ⟨rest, fits⟩
  have pointer := linked_pointer next fun e member =>
    rest.fits (List.mem_append_right pre member)
  obtain ⟨writes, sizeC, sizeNew, nextNew⟩ := cut_mem_spec bound left right sized pointer
  have clear : ∀ d ∈ pre ++ post, ClearOf [c.addr + size, c.addr] d.addr := by
    intro d member a written
    rcases List.mem_cons.mp written with atNew | atC
    · rw [atNew]
      exact fits.clear rest member _ List.mem_cons_self
    · exact own.clear rest member a atC
  have tail : Linked (cutMem h.mem size c.addr) (c.addr + size)
      (⟨c.addr + size, c.size - size⟩ :: post) := by
    refine ⟨rfl, sizeNew, ?_⟩
    rw [nextNew]
    exact (linked_around linked rest writes clear).2
  have taken : takeBlock h size (lastOf 0 pre) c.addr =
      relink h (cutMem h.mem size c.addr) (lastOf 0 pre) (c.addr + size) := by
    rw [takeBlock, sized, if_neg (by omega), Nat.mod_eq_of_lt (by omega)]
  obtain ⟨linked', second⟩ := relink_linked linked ordered' writes
    (fun d member => clear d (List.mem_append_left post member)) tail
  rw [taken]
  refine ⟨ordered', linked', ?_, ?_⟩
  · rw [second.size_of own.room (own.clear_of rest), sizeC]
  · apply (writes.trans second).mono
    intro a
    simp only [List.mem_append, List.map_append, List.map_cons, List.mem_cons]
    tauto

theorem retiled_take (left : 12 ≤ size) (right : size + 12 ≤ c.size) :
    Retiled 12 (pre ++ c :: post)
      (⟨c.addr, size⟩ :: (pre ++ ⟨c.addr + size, c.size - size⟩ :: post)) := by
  have parts : c = ⟨c.addr, size + (c.size - size)⟩ := by
    rw [Nat.add_sub_of_le (by omega)]
  have front : (pre ++ c :: post).Perm (⟨c.addr, size + (c.size - size)⟩ :: (pre ++ post)) := by
    rw [← parts]
    exact List.perm_middle
  refine .trans (.perm front) (.trans (.cut left (by omega)) (.perm (List.Perm.cons _ ?_)))
  exact List.perm_middle.symm

end Lists

end MeinOS.Malloc
