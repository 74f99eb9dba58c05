import MeinOS.Malloc

/-! Whole runs of the kernel heap. Memory is donated, allocated and freed, and in
between the owners of live blocks write what they like to their bytes: the free
blocks and the live blocks always tile the donated memory. -/
namespace MeinOS.Malloc
open Lib Lib.Runs Lib.Memory

/-- A pointer that `malloc` has returned, and how many bytes were asked for. -/
structure Allocation where
  ptr : Nat
  asked : Nat
  deriving DecidableEq

/-- The block behind a pointer. -/
def blockOf (m : Mem) (a : Allocation) : Block := ⟨a.ptr - 12, sizeOf m (a.ptr - 12)⟩

/-- The free list `bs` and the live blocks tile the regions. -/
structure Tiled (h : Heap) (live : List Allocation) (regions bs : List Block) : Prop where
  linked : Linked h.mem h.firstfree bs
  ordered : Ordered bs
  laid : Laid 12 (bs ++ live.map (blockOf h.mem))
  covered : ∀ x, Covered (bs ++ live.map (blockOf h.mem)) x ↔ Covered regions x
  asked : ∀ a ∈ live, a.asked + 12 ≤ (blockOf h.mem a).size
  regionsIn : ∀ r ∈ regions, 0 < r.addr ∧ r.fin < 2 ^ 32

variable {h h' : Heap} {live : List Allocation} {regions bs : List Block} {b r : Block}
  {m m' mem : Mem}

/-- What lies in the regions is away from NULL and from the end of the memory. -/
theorem inside_of_covered (wide : ∀ b ∈ bs, 12 ≤ b.size)
    (covered : ∀ x, Covered bs x → Covered regions x)
    (regionsIn : ∀ r ∈ regions, 0 < r.addr ∧ r.fin < 2 ^ 32) (member : b ∈ bs) :
    0 < b.addr ∧ b.fin < 2 ^ 32 := by
  have enough := wide b member
  constructor
  · obtain ⟨r, inRegions, start, -⟩ := covered b.addr ⟨b, member, Nat.le_refl _, by
      rw [Block.fin]; omega⟩
    have bound := (regionsIn r inRegions).1
    omega
  · obtain ⟨r, inRegions, -, stop⟩ := covered (b.fin - 1) ⟨b, member, by rw [Block.fin]; omega, by
      rw [Block.fin]; omega⟩
    have bound := (regionsIn r inRegions).2
    omega

theorem Tiled.inside (held : Tiled h live regions bs)
    (member : b ∈ bs ++ live.map (blockOf h.mem)) : 0 < b.addr ∧ b.fin < 2 ^ 32 :=
  inside_of_covered held.laid.wide (fun x => (held.covered x).mp) held.regionsIn member

/-- Writes inside other blocks do not reach the headers of the live ones. -/
theorem live_blocks_within (within : Within m m' blocks)
    (laid : Laid 12 (blocks ++ live.map (blockOf m)))
    (inside : ∀ b ∈ live.map (blockOf m), b.fin < 2 ^ 32) :
    live.map (blockOf m') = live.map (blockOf m) := by
  obtain ⟨-, -, across⟩ := List.pairwise_append.mp laid.apart
  refine List.map_congr_left fun a member => ?_
  have inList : blockOf m a ∈ live.map (blockOf m) := List.mem_map_of_mem member
  have wide := laid.wide _ (List.mem_append_right blocks inList)
  have bound := inside _ inList
  have same : sizeOf m' (a.ptr - 12) = sizeOf m (a.ptr - 12) := by
    apply load_agree
    · simp only [blockOf, Block.fin] at bound wide
      omega
    · intro x lower upper
      apply within x
      rintro ⟨b, inBlocks, start, stop⟩
      have apart := across b inBlocks _ inList
      simp only [blockOf, Block.Apart, Block.fin] at apart wide bound stop
      omega
  rw [blockOf, blockOf, same]

/-- The block `b` has come onto the free list `bs`, and the tiling is complete. -/
structure Grown (h h' : Heap) (live : List Allocation) (regions bs : List Block) (b : Block)
    (bs' : List Block) : Prop extends Tiled h' live regions bs', Merged bs b bs' where
  writes : Writes h.mem h'.mem ((b :: bs).map Block.addr)

/-- What `malloc_donatemem` may be given: NULL, or memory that is not yet donated. -/
def Donatable (regions : List Block) (r : Block) : Prop :=
  r.addr = 0 ∨ (12 ≤ r.size ∧ r.fin < 2 ^ 32 ∧ ∀ q ∈ regions, q.Apart r)

instance (regions : List Block) (r : Block) : Decidable (Donatable regions r) :=
  inferInstanceAs (Decidable (_ ∨ _))

/-- The regions after a donation; NULL gives nothing. -/
def donated (regions : List Block) (r : Block) : List Block :=
  if r.addr = 0 then regions else r :: regions

/-- New memory overlaps none of the blocks. -/
theorem donatable_apart (held : Tiled h live regions bs) (fresh : ∀ q ∈ regions, q.Apart r)
    (wide : 12 ≤ r.size) (member : b ∈ bs ++ live.map (blockOf h.mem)) : b.Apart r := by
  by_contra overlap
  have size := held.laid.wide b member
  have shared : ∃ x, b.Holds x ∧ r.Holds x := by
    refine ⟨max b.addr r.addr, ?_⟩
    simp only [Block.Apart, Block.Holds, Block.fin] at overlap ⊢
    omega
  obtain ⟨x, inBlock, inRegion⟩ := shared
  obtain ⟨q, old, holds⟩ := (held.covered x).mp ⟨b, member, inBlock⟩
  have apart := fresh q old
  simp only [Block.Apart, Block.Holds, Block.fin] at apart holds inRegion
  omega

/-- A block outside of the free list gets its header and is put on the list. -/
theorem insert_filled (linked : Linked h.mem h.firstfree bs) (ordered : Ordered bs)
    (laid : Laid 12 ((b :: bs) ++ live.map (blockOf h.mem)))
    (covered : ∀ x, Covered ((b :: bs) ++ live.map (blockOf h.mem)) x ↔ Covered regions x)
    (asked : ∀ a ∈ live, a.asked + 12 ≤ (blockOf h.mem a).size)
    (regionsIn : ∀ r ∈ regions, 0 < r.addr ∧ r.fin < 2 ^ 32)
    (writes : Writes h.mem mem [b.addr]) (size : sizeOf mem b.addr = b.size) :
    ∃ h' bs', mallocInsertlist { h with mem := mem } b.addr = some h' ∧
      Grown h h' live regions bs b bs' := by
  have inside : ∀ c ∈ (b :: bs) ++ live.map (blockOf h.mem), 0 < c.addr ∧ c.fin < 2 ^ 32 :=
    fun c => inside_of_covered laid.wide (fun x => (covered x).mp) regionsIn
  have wide : ∀ c ∈ b :: bs, 12 ≤ c.size := fun c member =>
    laid.wide c (List.mem_append_left _ member)
  obtain ⟨fromB, -⟩ := List.pairwise_cons.mp laid.apart
  have apart : ∀ c ∈ bs, c.Apart b := fun c member => (fromB c (List.mem_append_left _ member)).symm
  have linked' : Linked mem h.firstfree bs := by
    refine linked_frame linked writes fun c member => ⟨ordered.fits member, ?_⟩
    intro a same
    rw [List.mem_singleton.mp same]
    have away := apart c member
    have size := ordered.wide c member
    have own := wide b List.mem_cons_self
    simp only [Block.Apart, Block.fin] at away
    omega
  have insertable : Insertable { h with mem := mem } bs b :=
    ⟨linked', ordered, size, apart, wide b List.mem_cons_self, inside b List.mem_cons_self⟩
  obtain ⟨h', bs', inserted, linked, ordered, retiled, writes', merged⟩ := insertlist_spec insertable
  have both : Writes h.mem h'.mem ((b :: bs).map Block.addr) := (writes.trans writes').mono (by simp)
  have sameLive : live.map (blockOf h'.mem) = live.map (blockOf h.mem) := by
    refine live_blocks_within (both.within fun a => header_within wide) laid fun c member => ?_
    exact (inside c (List.mem_append_right _ member)).2
  have whole := retiled.append (live.map (blockOf h.mem))
  refine ⟨h', bs', inserted, ⟨linked, ordered, ?_, fun x => ?_, fun a member => ?_, regionsIn⟩,
    merged, both⟩
  · rw [sameLive]
    exact whole.laid (by omega) laid
  · rw [sameLive, whole.covered x]
    exact covered x
  · rw [(List.map_inj_left.mp sameLive) a member]
    exact asked a member

theorem donate_tiled (held : Tiled h live regions bs) (fresh : Donatable regions r) :
    ∃ h' bs', mallocDonatemem h r.addr r.size = some h' ∧
      Grown h h' live (donated regions r) bs r bs' := by
  by_cases null : r.addr = 0
  · rw [mallocDonatemem, donated, if_pos null, if_pos null]
    exact ⟨h, bs, rfl, held, ⟨by simp, fun x => .inl, fun parted _ => parted, absurd null⟩,
      fun x _ => rfl⟩
  · obtain ⟨wide, bound, others⟩ := fresh.resolve_left null
    have room : r.addr + 12 ≤ 2 ^ 32 := by
      rw [Block.fin] at bound
      omega
    have small : r.size < 2 ^ 32 := by
      rw [Block.fin] at bound
      omega
    rw [mallocDonatemem, donated, if_neg null, if_neg null]
    refine insert_filled held.linked held.ordered ⟨fun c member => ?_, ?_⟩ (fun x => ?_) held.asked
      (fun q member => ?_) (((set_flags_writes room).trans (set_size_writes room)).mono (by simp))
      (sizeOf_setSize room small)
    · rcases List.mem_cons.mp member with rfl | old
      · exact wide
      · exact held.laid.wide c old
    · refine List.pairwise_cons.mpr ⟨fun c member => ?_, held.laid.apart⟩
      exact (donatable_apart held others wide member).symm
    · have old := held.covered x
      simp only [Covered, List.cons_append, List.exists_mem_cons_iff] at old ⊢
      rw [old]
    · rcases List.mem_cons.mp member with rfl | old
      · exact ⟨by omega, bound⟩
      · exact held.regionsIn q old

/-- `free` moves a live block to the free list. -/
theorem free_tiled (held : Tiled h live regions bs) (member : a ∈ live) :
    ∃ h' bs', free h a.ptr = some h' ∧
      Grown h h' (live.erase a) regions bs (blockOf h.mem a) bs' := by
  have split : live.Perm (a :: live.erase a) := List.perm_cons_erase member
  have moved : (bs ++ live.map (blockOf h.mem)).Perm
      ((blockOf h.mem a :: bs) ++ (live.erase a).map (blockOf h.mem)) :=
    ((split.map (blockOf h.mem)).append_left bs).trans List.perm_middle
  have inList : blockOf h.mem a ∈ bs ++ live.map (blockOf h.mem) :=
    List.mem_append_right bs (List.mem_map_of_mem member)
  have inside := held.inside inList
  have wide := held.laid.wide _ inList
  simp only [blockOf, Block.fin] at inside wide
  have header : (a.ptr + (2 ^ 32 - 12)) % 2 ^ 32 = a.ptr - 12 := by omega
  have room : a.ptr - 12 + 12 ≤ 2 ^ 32 := by omega
  rw [free, header]
  refine insert_filled (b := blockOf h.mem a) held.linked held.ordered (held.laid.of_perm moved) (fun x => ?_)
    (fun c kept => held.asked c (List.mem_of_mem_erase kept)) held.regionsIn (set_flags_writes room)
    (sizeOf_setFlags room)
  exact ((Retiled.perm moved : Retiled 12 _ _).covered x).trans (held.covered x)

/-- Taking a block off the free list for `asked` bytes. -/
theorem take_tiled (held : Tiled h live regions (pre ++ c :: post))
    (suits : asked + 12 = c.size ∨ asked + 24 ≤ c.size) :
    c.addr ≠ 0 ∧ c.addr + 12 < 2 ^ 32 ∧
    ∃ bs', Tiled (takeBlock h (asked + 12) (lastOf 0 pre) c.addr) (⟨c.addr + 12, asked⟩ :: live)
      regions bs' ∧ (Parted (pre ++ c :: post) → Parted bs') ∧
      Writes h.mem (takeBlock h (asked + 12) (lastOf 0 pre) c.addr).mem
        (bs'.map Block.addr ++ (pre ++ c :: post).map Block.addr) := by
  have member : c ∈ pre ++ c :: post := List.mem_append_right pre List.mem_cons_self
  have inside := held.ordered.inside c member
  have wide := held.ordered.wide c member
  rw [Block.fin] at inside
  obtain ⟨bs', linked, ordered, sized, writes, starts, retiled, parts⟩ : ∃ bs',
      Linked (takeBlock h (asked + 12) (lastOf 0 pre) c.addr).mem
        (takeBlock h (asked + 12) (lastOf 0 pre) c.addr).firstfree bs' ∧ Ordered bs' ∧
      sizeOf (takeBlock h (asked + 12) (lastOf 0 pre) c.addr).mem c.addr = asked + 12 ∧
      Writes h.mem (takeBlock h (asked + 12) (lastOf 0 pre) c.addr).mem
        (bs'.map Block.addr ++ (pre ++ c :: post).map Block.addr) ∧
      (∀ b ∈ bs', ∃ d ∈ pre ++ c :: post, d.addr ≤ b.addr ∧ b.addr + 12 ≤ d.fin) ∧
      Retiled 12 (pre ++ c :: post) (⟨c.addr, asked + 12⟩ :: bs') ∧
      (Parted (pre ++ c :: post) → Parted bs') := by
    obtain ⟨others, own⟩ := ordered_insert.mp held.ordered
    have kept : ∀ b ∈ pre ++ post, ∃ d ∈ pre ++ c :: post, d.addr ≤ b.addr ∧ b.addr + 12 ≤ d.fin := by
      intro b old
      have size := others.wide b old
      refine ⟨b, ?_, Nat.le_refl _, by rw [Block.fin]; omega⟩
      simp only [List.mem_append, List.mem_cons] at old ⊢
      tauto
    by_cases same : asked + 12 = c.size
    · rw [same]
      obtain ⟨linked, sized, writes⟩ := take_whole held.linked held.ordered
      exact ⟨_, linked, others, sized, writes.mono fun a => List.mem_append_right _, kept,
        .perm List.perm_middle, fun parted => (pairwise_insert.mp parted).1⟩
    · have right : asked + 12 + 12 ≤ c.size := suits.resolve_left same
      obtain ⟨ordered, linked, sized, writes⟩ :=
        take_cut held.linked held.ordered (by omega) right
      refine ⟨_, linked, ordered, sized, writes.mono ?_, fun b inList => ?_,
        retiled_take (by omega) right, fun parted => ?_⟩
      · intro a
        simp only [List.mem_append, List.map_append, List.map_cons, List.mem_cons]
        tauto
      · have cases : b = ⟨c.addr + (asked + 12), c.size - (asked + 12)⟩ ∨ b ∈ pre ++ post := by
          simp only [List.mem_append, List.mem_cons] at inList ⊢
          tauto
        rcases cases with rfl | old
        · refine ⟨c, member, Nat.le_add_right _ _, ?_⟩
          simp only [Block.fin]
          omega
        · exact kept b old
      · obtain ⟨rest, -, after⟩ := pairwise_insert.mp parted
        refine pairwise_insert.mpr ⟨rest, fun d early => ?_, fun e late => ?_⟩
        · have order := own.after d early
          simp only
          omega
        · have gap := after e late
          simp only [Block.fin] at gap ⊢
          omega
  generalize takeBlock h (asked + 12) (lastOf 0 pre) c.addr = h' at linked sized writes ⊢
  have within : Within h.mem h'.mem (pre ++ c :: post) := by
    refine writes.within fun a written => ?_
    rcases List.mem_append.mp written with new | old
    · obtain ⟨b, inList, rfl⟩ := List.mem_map.mp new
      exact starts b inList
    · exact header_within held.ordered.wide old
  have sameLive : live.map (blockOf h'.mem) = live.map (blockOf h.mem) :=
    live_blocks_within within held.laid fun b member =>
      (held.inside (List.mem_append_right _ member)).2
  have own : blockOf h'.mem ⟨c.addr + 12, asked⟩ = ⟨c.addr, asked + 12⟩ := by
    simp only [blockOf, Nat.add_sub_cancel, sized]
  have whole : Retiled 12 ((pre ++ c :: post) ++ live.map (blockOf h.mem))
      (bs' ++ (⟨c.addr, asked + 12⟩ :: live.map (blockOf h.mem))) :=
    .trans (retiled.append _) (.perm List.perm_middle.symm)
  have blocks : (⟨c.addr + 12, asked⟩ :: live : List Allocation).map (blockOf h'.mem) =
      ⟨c.addr, asked + 12⟩ :: live.map (blockOf h.mem) := by
    rw [List.map_cons, own, sameLive]
  refine ⟨by omega, by omega, bs', ⟨linked, ordered, ?_, fun x => ?_, fun a member => ?_,
    held.regionsIn⟩, parts, writes⟩
  · rw [blocks]
    exact whole.laid (by omega) held.laid
  · rw [blocks, whole.covered x]
    exact held.covered x
  · rcases List.mem_cons.mp member with rfl | old
    · rw [own]
    · rw [(List.map_inj_left.mp sameLive) a old]
      exact held.asked a old

/-- Memory that can be donated piece by piece. -/
def AllDonatable : List Block → List Block → Prop
  | _, [] => True
  | regions, r :: rs => Donatable regions r ∧ AllDonatable (donated regions r) rs

instance decidableAllDonatable : (regions rs : List Block) → Decidable (AllDonatable regions rs)
  | _, [] => isTrue trivial
  | regions, r :: rs =>
    have := decidableAllDonatable (donated regions r) rs
    inferInstanceAs (Decidable (Donatable regions r ∧ AllDonatable (donated regions r) rs))

/-- The block that `_malloc_getmem` donates. -/
def pageBlock (page : Nat) : Block := ⟨page, 4096⟩

/-- No piece of memory fills a gap between free memory when its turn comes. -/
def NoneBridging : (Nat → Prop) → List Block → Prop
  | _, [] => True
  | free, r :: rs => ¬ Bridging free r ∧ NoneBridging (fun x => free x ∨ r.addr ≠ 0 ∧ r.Holds x) rs

theorem NoneBridging.mono {free free' : Nat → Prop} (fewer : ∀ x, free' x → free x)
    (held : NoneBridging free rs) : NoneBridging free' rs := by
  induction rs generalizing free free' with
  | nil => trivial
  | cons r rs ih =>
    obtain ⟨now, later⟩ := held
    refine ⟨fun ⟨real, before, after⟩ => now ⟨real, fewer _ before, fewer _ after⟩, ?_⟩
    exact ih (fun x => Or.imp_left (fewer x)) later

/-- The end of the search of `_malloc_getfree` in a heap with the free list `bs`: the pages
`used` have been donated, and `c` is the first block that suits. -/
structure Reached (size : Nat) (h h₁ : Heap) (live : List Allocation) (regions bs : List Block)
    (used : List Nat) (pre : List Block) (c : Block) (post : List Block) : Prop
    extends Tiled h₁ live ((used.map pageBlock).foldl donated regions) (pre ++ c :: post) where
  suits : Suits size c
  first : ∀ d ∈ pre, ¬ Suits size d
  writes : Writes h.mem h₁.mem (used ++ bs.map Block.addr)
  starts : (pre ++ c :: post).map Block.addr ⊆ used ++ bs.map Block.addr
  parted : Parted bs → NoneBridging (Covered bs) (used.map pageBlock) → Parted (pre ++ c :: post)

/-- One round of the search: a block that suits is taken, otherwise the next page is donated. -/
theorem getfree_round (size : Nat) (held : Tiled h live regions bs) :
    ((∀ d ∈ bs, ¬ Suits size d) ∧ mallocGetfree size [] h = none ∧ ∀ page pages,
      mallocGetfree size (page :: pages) h =
        (mallocDonatemem h page 4096).bind (mallocGetfree size pages)) ∨
    ∃ pre c post, bs = pre ++ c :: post ∧ Suits size c ∧ (∀ d ∈ pre, ¬ Suits size d) ∧ ∀ pages,
      mallocGetfree size pages h = some (c.addr, takeBlock h size (lastOf 0 pre) c.addr, pages) := by
  rcases find_free_spec size (2 ^ 32) 0 held.linked held.ordered held.ordered.length_lt with
    ⟨l, none, others⟩ | ⟨pre, c, post, rfl, found, suits, others⟩
  · refine Or.inl ⟨others, ?_, fun page pages => ?_⟩ <;>
      simp only [mallocGetfree, none, Option.bind_some, if_true]
  · have notNull := (held.ordered.inside c (by simp)).1.ne'
    refine Or.inr ⟨pre, c, post, rfl, suits, others, fun pages => ?_⟩
    cases pages <;> simp only [mallocGetfree, found, Option.bind_some, if_neg notNull]

theorem getfree_reached (held : Tiled h live regions bs)
    (fresh : AllDonatable regions (pages.map pageBlock))
    (got : mallocGetfree size pages h = some (cur, h', left)) :
    ∃ used h₁ pre c post, pages = used ++ left ∧ cur = c.addr ∧
      h' = takeBlock h₁ size (lastOf 0 pre) c.addr ∧
      Reached size h h₁ live regions bs used pre c post := by
  induction pages generalizing h regions bs with
  | nil =>
    rcases getfree_round size held with ⟨-, none, -⟩ | ⟨pre, c, post, rfl, suits, others, found⟩
    · cases none.symm.trans got
    · cases (found []).symm.trans got
      exact ⟨[], h, pre, c, post, rfl, rfl, rfl, held, suits, others, fun x _ => rfl,
        List.Subset.refl _, fun parted _ => parted⟩
  | cons page pages ih =>
    rcases getfree_round size held with ⟨-, -, next⟩ | ⟨pre, c, post, rfl, suits, others, found⟩
    · obtain ⟨h₀, bs₀, given, grown⟩ := donate_tiled held fresh.1
      have given' : mallocDonatemem h page 4096 = some h₀ := given
      rw [next, given', Option.bind_some] at got
      obtain ⟨used, h₁, pre, c, post, split, at', taken, reached⟩ := ih grown.toTiled fresh.2 got
      refine ⟨page :: used, h₁, pre, c, post, congrArg (page :: ·) split, at', taken,
        reached.toTiled, reached.suits, reached.first, ?_, ?_, fun parted none => ?_⟩
      · refine (grown.writes.trans reached.writes).mono fun a written => ?_
        have starts := @grown.starts a
        simp only [pageBlock, List.mem_append, List.map_cons, List.mem_cons] at starts written ⊢
        tauto
      · intro a member
        have inner := reached.starts member
        have starts := @grown.starts a
        simp only [pageBlock, List.mem_append, List.map_cons, List.mem_cons] at starts inner ⊢
        tauto
      · exact reached.parted (grown.parted parted none.1) (none.2.mono grown.covers)
    · cases (found (page :: pages)).symm.trans got
      exact ⟨[], h, pre, c, post, rfl, rfl, rfl, held, suits, others, fun x _ => rfl,
        List.Subset.refl _, fun parted _ => parted⟩

/-- `malloc` has got the block `a` off the free list `bs`, with the pages `used`. -/
structure Obtained (h h' : Heap) (live : List Allocation) (regions bs : List Block)
    (used : List Nat) (a : Allocation) (bs' : List Block) : Prop
    extends Tiled h' (a :: live) ((used.map pageBlock).foldl donated regions) bs' where
  writes : Writes h.mem h'.mem (bs'.map Block.addr ++ (used ++ bs.map Block.addr))
  parted : Parted bs → NoneBridging (Covered bs) (used.map pageBlock) → Parted bs'

theorem Reached.obtained (held : Reached (asked + 12) h h₁ live regions bs used pre c post)
    (suits : asked + 12 = c.size ∨ asked + 24 ≤ c.size) :
    ∃ bs', Obtained h (takeBlock h₁ (asked + 12) (lastOf 0 pre) c.addr) live regions bs used
      ⟨(c.addr + 12) % 2 ^ 32, asked⟩ bs' := by
  obtain ⟨-, small, bs', tiled, parted, writes⟩ := take_tiled held.toTiled suits
  rw [Nat.mod_eq_of_lt small]
  refine ⟨bs', tiled, (held.writes.trans writes).mono fun a written => ?_,
    fun before none => parted (held.parted before none)⟩
  have starts := @held.starts a
  simp only [List.mem_append] at starts written ⊢
  tauto

theorem malloc_obtained (bound : asked + 24 < 2 ^ 32) (held : Tiled h live regions bs)
    (fresh : AllDonatable regions (pages.map pageBlock))
    (got : malloc h asked pages = some (ptr, h', left)) :
    ∃ used bs', pages = used ++ left ∧ Obtained h h' live regions bs used ⟨ptr, asked⟩ bs' := by
  obtain ⟨⟨cur, h₁, rest⟩, found, same⟩ := Option.map_eq_some_iff.mp got
  rw [Nat.mod_eq_of_lt (by omega)] at found
  cases same
  obtain ⟨used, h₁, pre, c, post, split, rfl, rfl, reached⟩ := getfree_reached held fresh found
  have suits : asked + 12 = c.size ∨ asked + 24 ≤ c.size := by
    have either := reached.suits
    rw [Suits] at either
    omega
  obtain ⟨bs', obtained⟩ := reached.obtained suits
  exact ⟨used, bs', split, obtained⟩

/-- The heap with the memory that was donated to it and the pointers in use. -/
structure World extends Heap where
  regions : List Block
  live : List Allocation

inductive Event where
  | donate (addr size : Nat)
  /-- A call of `malloc` that returns, with the pages that it gets in turn. -/
  | malloc (size : Nat) (pages : List Nat)
  | free (a : Allocation)
  /-- Other code writes a byte of its own. -/
  | store (x : Nat) (v : BitVec 8)
  deriving DecidableEq

/-- A byte of a live block or outside of the heap. -/
def Writable (w : World) (x : Nat) : Prop :=
  (∀ r ∈ w.regions, ¬ r.Holds x) ∨ ∃ a ∈ w.live, a.ptr ≤ x ∧ x < a.ptr + a.asked

instance (w : World) (x : Nat) : Decidable (Writable w x) :=
  inferInstanceAs (Decidable (_ ∨ _))

def step (w : World) : Event → Option World
  | .donate addr size =>
    if Donatable w.regions ⟨addr, size⟩ then
      (mallocDonatemem w.toHeap addr size).map fun h =>
        { w with toHeap := h, regions := donated w.regions ⟨addr, size⟩ }
    else none
  | .malloc size pages =>
    if size + 24 < 2 ^ 32 ∧ AllDonatable w.regions (pages.map pageBlock) then
      match malloc w.toHeap size pages with
      | some (ptr, h, []) => some
          { toHeap := h
            regions := (pages.map pageBlock).foldl donated w.regions
            live := ⟨ptr, size⟩ :: w.live }
      | _ => none
    else none
  | .free a =>
    if a ∈ w.live then
      (free w.toHeap a.ptr).map fun h => { w with toHeap := h, live := w.live.erase a }
    else none
  | .store x v => onlyIf (Writable w x) { w with mem := Function.update w.mem x v }

/-- A writable byte lies in no header and in no free block. -/
theorem writable_outside {w : World} (held : Tiled w.toHeap w.live w.regions bs)
    (own : Writable w x) (member : b ∈ bs ++ w.live.map (blockOf w.mem)) :
    ¬ (b.addr ≤ x ∧ x < b.addr + 12) := by
  intro inHeader
  have wide := held.laid.wide b member
  rcases own with outside | ⟨a, live, start, stop⟩
  · have inBlock : b.Holds x := ⟨inHeader.1, by rw [Block.fin]; omega⟩
    obtain ⟨r, region, holds⟩ := (held.covered x).mp ⟨b, member, inBlock⟩
    exact outside r region holds
  · have asked := held.asked a live
    have inList : blockOf w.mem a ∈ bs ++ w.live.map (blockOf w.mem) :=
      List.mem_append_right bs (List.mem_map_of_mem live)
    by_cases same : b = blockOf w.mem a
    · rw [same, blockOf] at inHeader
      have inside := (held.inside inList).1
      simp only [blockOf] at inside inHeader
      omega
    · have apart := held.laid.apart.forall member inList same
      have inside := (held.inside inList).1
      simp only [blockOf, Block.Apart, Block.fin] at apart asked inside
      omega

/-- What the owners write leaves the lists alone. -/
theorem stores_tiled {w : World} (held : Tiled w.toHeap w.live w.regions bs)
    (own : ∀ x, mem x ≠ w.mem x → Writable w x) :
    Tiled { w.toHeap with mem := mem } w.live w.regions bs := by
  have same : ∀ b ∈ bs ++ w.live.map (blockOf w.mem), ∀ k, k + 4 ≤ 12 →
      load32 mem (b.addr + k) = load32 w.mem (b.addr + k) := by
    intro b member k inHeader
    have inside := held.inside member
    have wide := held.laid.wide b member
    rw [Block.fin] at inside
    refine load_agree (by omega) fun x lower upper => ?_
    by_contra written
    exact writable_outside held (own x written) member ⟨by omega, by omega⟩
  have sameLive : w.live.map (blockOf mem) = w.live.map (blockOf w.mem) := by
    refine List.map_congr_left fun a member => ?_
    have sized : sizeOf mem (a.ptr - 12) = sizeOf w.mem (a.ptr - 12) :=
      same (blockOf w.mem a) (List.mem_append_right bs (List.mem_map_of_mem member)) 4 (by omega)
    rw [blockOf, blockOf, sized]
  refine ⟨linked_agree held.linked fun b member => ?_, held.ordered, ?_, ?_, fun a member => ?_,
    held.regionsIn⟩
  · exact ⟨same b (List.mem_append_left _ member) 4 (by omega),
      same b (List.mem_append_left _ member) 8 (by omega)⟩
  · rw [sameLive]
    exact held.laid
  · rw [sameLive]
    exact held.covered
  · rw [(List.map_inj_left.mp sameLive) a member]
    exact held.asked a member

/-- A byte of the heap that lies in no live block. -/
def FreeByte (w : World) (x : Nat) : Prop :=
  Covered w.regions x ∧ ¬ Covered (w.live.map (blockOf w.mem)) x

theorem free_byte_of_covered {w : World} (held : Tiled w.toHeap w.live w.regions bs)
    (covered : Covered bs x) : FreeByte w x := by
  obtain ⟨b, member, holds⟩ := covered
  refine ⟨(held.covered x).mp ⟨b, List.mem_append_left _ member, holds⟩, ?_⟩
  rintro ⟨c, live, holds'⟩
  have apart := (List.pairwise_append.mp held.laid.apart).2.2 b member c live
  simp only [Block.Apart, Block.Holds] at apart holds holds'
  omega

instance (blocks : List Block) (x : Nat) : Decidable (Covered blocks x) :=
  inferInstanceAs (Decidable (∃ b ∈ blocks, b.Holds x))

instance (w : World) (x : Nat) : Decidable (FreeByte w x) := inferInstanceAs (Decidable (_ ∧ _))

instance (free : Nat → Prop) [DecidablePred free] (b : Block) : Decidable (Bridging free b) :=
  inferInstanceAs (Decidable (_ ∧ _))

/-- The memory that comes onto the free list does not fill a gap in it. -/
def LeavesGap (w : World) : Event → Prop
  | .donate addr size => ¬ Bridging (FreeByte w) ⟨addr, size⟩
  | .malloc _ pages => NoneBridging (FreeByte w) (pages.map pageBlock)
  | .free a => ¬ Bridging (FreeByte w) (blockOf w.mem a)
  | .store _ _ => True

instance decidableNoneBridging (free : Nat → Prop) [DecidablePred free] :
    (rs : List Block) → Decidable (NoneBridging free rs)
  | [] => isTrue trivial
  | r :: rs =>
    have := decidableNoneBridging (fun x => free x ∨ r.addr ≠ 0 ∧ r.Holds x) rs
    inferInstanceAs (Decidable (_ ∧ _))

instance (w : World) : (e : Event) → Decidable (LeavesGap w e)
  | .donate _ _ => inferInstanceAs (Decidable (¬ _))
  | .malloc _ _ => inferInstanceAs (Decidable (NoneBridging _ _))
  | .free _ => inferInstanceAs (Decidable (¬ _))
  | .store _ _ => isTrue trivial

theorem step_tiled {w next : World} (held : Tiled w.toHeap w.live w.regions bs)
    (ran : step w e = some next) : ∃ bs', Tiled next.toHeap next.live next.regions bs' ∧
      (Parted bs → LeavesGap w e → Parted bs') := by
  have freeBytes : ∀ b, ¬ Bridging (FreeByte w) b → ¬ Bridging (Covered bs) b :=
    fun b gap ⟨real, before, after⟩ =>
      gap ⟨real, free_byte_of_covered held before, free_byte_of_covered held after⟩
  cases e with
  | donate addr size =>
    obtain ⟨fresh, ran⟩ := Option.ite_none_right_eq_some.mp ran
    obtain ⟨h', bs', given, grown⟩ := donate_tiled held fresh
    rw [given] at ran
    cases ran
    exact ⟨bs', grown.toTiled, fun parted gap => grown.parted parted (freeBytes _ gap)⟩
  | malloc size pages =>
    obtain ⟨⟨bound, fresh⟩, ran⟩ := Option.ite_none_right_eq_some.mp ran
    split at ran
    next ptr h' got =>
      cases ran
      obtain ⟨used, bs', split, obtained⟩ := malloc_obtained bound held fresh got
      rw [List.append_nil] at split
      subst split
      exact ⟨bs', obtained.toTiled, fun parted gaps =>
        obtained.parted parted (gaps.mono fun x => free_byte_of_covered held)⟩
    next => cases ran
  | free a =>
    obtain ⟨member, ran⟩ := Option.ite_none_right_eq_some.mp ran
    obtain ⟨h', bs', freed, grown⟩ := free_tiled held member
    rw [freed] at ran
    cases ran
    exact ⟨bs', grown.toTiled, fun parted gap => grown.parted parted (freeBytes _ gap)⟩
  | store x v =>
    obtain ⟨own, rfl⟩ := onlyIf_eq_some ran
    refine ⟨bs, stores_tiled held fun y written => ?_, fun parted _ => parted⟩
    rw [by_contra fun other : y ≠ x => written (Function.update_of_ne other _ _)]
    exact own

/-- The heap tiles its regions with some free list. -/
def Tiling (w : World) : Prop := ∃ bs, Tiled w.toHeap w.live w.regions bs

/-- After `malloc_init`, with any memory. -/
def start (mem : Mem) : World where
  mem := mem
  firstfree := 0
  regions := []
  live := []

theorem start_tiled (mem : Mem) : Tiled (start mem).toHeap [] [] [] where
  linked := rfl
  ordered := ⟨List.Pairwise.nil, by simp, by simp⟩
  laid := ⟨by simp, List.Pairwise.nil⟩
  covered := fun _ => Iff.rfl
  asked := by simp
  regionsIn := by simp

/-- The free list ends and its addresses increase; the free blocks and the live blocks
are at least a header long, do not overlap and together make up the donated memory;
and every live block has the bytes that were asked for behind its header. -/
def WellFormed (w : World) : Prop :=
  ∃ bs, Linked w.mem w.firstfree bs ∧ bs.Pairwise (fun b c => b.addr < c.addr) ∧
    Laid 12 (bs ++ w.live.map (blockOf w.mem)) ∧
    (∀ x, Covered (bs ++ w.live.map (blockOf w.mem)) x ↔ Covered w.regions x) ∧
    ∀ a ∈ w.live, a.asked + 12 ≤ (blockOf w.mem a).size

theorem Tiled.well_formed {w : World} (held : Tiled w.toHeap w.live w.regions bs) :
    WellFormed w := by
  refine ⟨bs, held.linked, ?_, held.laid, held.covered, held.asked⟩
  refine held.ordered.sorted.imp_of_mem fun {b c} member _ order => ?_
  have wide := held.ordered.wide b member
  rw [Block.fin] at order
  omega

/-- In every run the heap stays well formed, and every donation of new memory and every
`free` of a live pointer returns. -/
theorem kernel_heap_well_formed (mem : Mem) (events : List Event)
    (ran : run step (start mem) events = some w) :
    WellFormed w ∧
      (∀ addr size, Donatable w.regions ⟨addr, size⟩ → (step w (.donate addr size)).isSome) ∧
      ∀ a ∈ w.live, (step w (.free a)).isSome := by
  have start : Tiling (start mem) := ⟨[], start_tiled mem⟩
  have keeps : ∀ w e next, Tiling w → step w e = some next → Tiling next := by
    rintro w e next ⟨bs, held⟩ ran
    obtain ⟨bs', tiled, -⟩ := step_tiled held ran
    exact ⟨bs', tiled⟩
  obtain ⟨bs, held⟩ := run_invariant keeps start ran
  refine ⟨held.well_formed, fun addr size fresh => ?_, fun a member => ?_⟩
  · obtain ⟨h', -, given, -⟩ := donate_tiled held fresh
    have given' : mallocDonatemem w.toHeap addr size = some h' := given
    rw [step, if_pos fresh, given']
    rfl
  · obtain ⟨h', -, freed, -⟩ := free_tiled held member
    rw [step, if_pos member, freed]
    rfl

/-- Two blocks cut off a donated region, one of them written to and freed, and a block
over two pages that `malloc` had to get. -/
def heapRun : List Event :=
  [.donate 0x1000 100, .malloc 20 [], .malloc 8 [], .store 0x100C 7, .free ⟨0x100C, 20⟩,
    .malloc 5000 [0x2000, 0x3000]]

theorem heap_run_well_formed : ∃ w,
    run step (start fun _ => 0xFF) heapRun = some w ∧ w.live = [⟨0x200C, 5000⟩, ⟨0x102C, 8⟩] ∧
      WellFormed w := by
  refine reached_of (P := fun w => w.live = [⟨0x200C, 5000⟩, ⟨0x102C, 8⟩]) (by decide +kernel)
    fun w ran live => ⟨live, ?_⟩
  exact (kernel_heap_well_formed _ heapRun ran).1

/-- The free list ends, and none of its blocks ends where a later one starts. -/
def Coalesced (w : World) : Prop := ∃ bs, Linked w.mem w.firstfree bs ∧ Parted bs

/-- As long as no memory comes back that fills a gap between two free blocks, neighbours are
joined. A block that fills a gap is added to the one before it and not to the one after. -/
theorem free_list_coalesced (mem : Mem) (events : List Event)
    (gaps : Along step LeavesGap (start mem) events) :
    Throughout step Coalesced (start mem) events := by
  let Inv (w : World) := ∃ bs, Tiled w.toHeap w.live w.regions bs ∧ Parted bs
  have good : ∀ w, Inv w → Coalesced w := fun w ⟨bs, held, parted⟩ => ⟨bs, held.linked, parted⟩
  have keeps : ∀ w e next, Inv w → LeavesGap w e → step w e = some next → Inv next := by
    rintro w e next ⟨bs, held, parted⟩ gap ran
    obtain ⟨bs', tiled, joins⟩ := step_tiled held ran
    exact ⟨bs', tiled, joins parted gap⟩
  exact guarded_throughout good keeps ⟨[], start_tiled mem, List.Pairwise.nil⟩ gaps

/-- The first block is freed, and then the second one, between the first and the rest. -/
def gapRun : List Event :=
  [.donate 0x1000 100, .malloc 20 [], .malloc 8 [], .free ⟨0x100C, 20⟩, .free ⟨0x102C, 8⟩]

theorem filled_gap_stays_apart : ∃ w,
    run step (start fun _ => 0xFF) gapRun = some w ∧ ¬ Coalesced w := by
  refine reached_of (P := fun w => w.firstfree = 0x1000 ∧ sizeOf w.mem 0x1000 = 52 ∧
    nextfree w.mem 0x1000 = 0x1034) (by decide +kernel) ?_
  rintro w - ⟨first, size, next⟩ ⟨bs, linked, parted⟩
  rw [first] at linked
  rcases bs with _ | ⟨b, bs⟩
  · cases linked
  · obtain ⟨start, sized, linked⟩ := linked
    rw [← start, next] at linked
    rw [← start, size] at sized
    rcases bs with _ | ⟨c, bs⟩
    · cases linked
    · have gap := (List.pairwise_cons.mp parted).1 c List.mem_cons_self
      rw [Block.fin, ← start, ← sized, ← linked.1] at gap
      exact gap rfl

/-- Blocks freed from the other side leave one free block. -/
theorem freed_in_order_coalesced : ∃ w,
    run step (start fun _ => 0xFF) [.donate 0x1000 100, .malloc 20 [], .malloc 8 [],
      .free ⟨0x102C, 8⟩, .free ⟨0x100C, 20⟩] = some w ∧ Coalesced w := by
  refine reached_of (P := fun _ => True) (by decide +kernel) fun w ran _ => ?_
  exact free_list_coalesced _ _ (by decide +kernel) _ w (List.prefix_refl _) ran

end MeinOS.Malloc
