import MeinOS.Memphys

/-! The boot loader's memory map: which pages `memphys_init` takes from the regions that
`multiboot_get_mmap` gives it. Bases and lengths have 64 bits in the map and 32 bits in the
loop, so a region can be taken for pages that are not its own. -/
namespace MeinOS.MemphysMap
open Memphys

/-- The bytes of a region. -/
def Holds (r : MmapEntry) (addr : Nat) : Prop :=
  r.base.toNat ≤ addr ∧ addr < r.base.toNat + r.length.toNat

/-- Two regions have no byte in common. -/
def Apart (r r' : MmapEntry) : Prop := ∀ addr, Holds r addr → ¬ Holds r' addr

/-- The addresses that `memphys_init` gives to `memphys_push`. -/
def initPages (mmap : List MmapEntry) : List Nat :=
  (mmap.filter (·.type = multibootFree)).flatMap regionPages

theorem memphys_init_eq (mmap : List MmapEntry) : memphysInit mmap =
    (initPages mmap).foldl memphysPush ⟨fun _ => 0, 0, 0, fun _ => none, fun _ => 0⟩ := rfl

/-- The addresses are those of pages that lie in a free region, each of them once. -/
structure TakesFreePages (mmap : List MmapEntry) : Prop where
  aligned : ∀ addr ∈ initPages mmap, addr % pageSize = 0
  inside : ∀ addr ∈ initPages mmap, freephysAddress ≤ addr ∧
    ∃ r ∈ mmap, r.type = multibootFree ∧ ∀ i < pageSize, Holds r (addr + i)
  once : (initPages mmap).Nodup

/-- Above the kernel, the page at `addr` is one of the region's as far as its base and its
length modulo 2^32 tell. -/
def Covers (r : MmapEntry) (addr : Nat) : Prop :=
  freephysAddress ≤ addr ∧ ∃ j, (j + 1) * pageSize ≤ r.length.toNat % 2 ^ 32 ∧
    addr = (r.base.toNat + j * pageSize) % 2 ^ 32

/-- Free regions that cover a page start on a page boundary. Where one covers a page that is
not its own, the page lies in another free region, and nobody else covers it. -/
structure Addressable (mmap : List MmapEntry) : Prop where
  aligned : ∀ r ∈ mmap, r.type = multibootFree → ∀ addr, Covers r addr → r.base.toNat % pageSize = 0
  foreign : ∀ r ∈ mmap, r.type = multibootFree → ∀ addr, Covers r addr → addr < r.base.toNat →
    (∃ r' ∈ mmap, r'.type = multibootFree ∧ ∀ i < pageSize, Holds r' (addr + i)) ∧
      ∀ r' ∈ mmap, r'.type = multibootFree → Covers r' addr → r' = r

variable {mmap : List MmapEntry} {r r' : MmapEntry} {addr : Nat}

theorem mem_region_pages : addr ∈ regionPages r ↔ Covers r addr := by
  simp only [regionPages, List.mem_filter, List.mem_map, List.mem_range, decide_eq_true_eq, Covers,
    BitVec.toNat_setWidth, pageSize]
  constructor
  · rintro ⟨⟨j, below, rfl⟩, above⟩
    exact ⟨above, j, by omega, by omega⟩
  · rintro ⟨above, j, below, same⟩
    exact ⟨⟨j, by omega, by omega⟩, above⟩

theorem mem_init_pages :
    addr ∈ initPages mmap ↔ ∃ r ∈ mmap, r.type = multibootFree ∧ Covers r addr := by
  simp only [initPages, List.mem_flatMap, List.mem_filter, decide_eq_true_eq, mem_region_pages, and_assoc]

/-- A region has less than 2^20 pages, so no two of them have one address. -/
theorem region_pages_nodup (r : MmapEntry) : (regionPages r).Nodup := by
  apply List.Nodup.filter
  apply List.Nodup.map_on _ List.nodup_range
  intro j below k below' same
  simp only [List.mem_range, pageSize] at below below' same
  omega

/-- A page at or above the base is the region's own. -/
theorem Covers.own (covers : Covers r addr) (above : r.base.toNat ≤ addr) (i : Nat)
    (below : i < pageSize) : Holds r (addr + i) := by
  obtain ⟨-, j, fits, rfl⟩ := covers
  simp only [Holds, pageSize] at *
  omega

theorem Covers.not_apart (covers : Covers r addr) : ¬ Apart r r := by
  intro apart
  obtain ⟨-, j, fits, -⟩ := covers
  have first : Holds r r.base.toNat := ⟨Nat.le_refl _, by simp only [pageSize] at fits; omega⟩
  exact apart _ first first

/-- Regions that have no byte in common cover no page in common. -/
theorem Addressable.covers_once (addressable : Addressable mmap) (inMap : r ∈ mmap)
    (free : r.type = multibootFree) (inMap' : r' ∈ mmap) (free' : r'.type = multibootFree)
    (apart : Apart r r') (covers : Covers r addr) : ¬ Covers r' addr := by
  intro covers'
  by_cases below : addr < r.base.toNat
  · obtain rfl := (addressable.foreign r inMap free addr covers below).2 r' inMap' free' covers'
    exact covers.not_apart apart
  · by_cases below' : addr < r'.base.toNat
    · obtain rfl := (addressable.foreign r' inMap' free' addr covers' below').2 r inMap free covers
      exact covers.not_apart apart
    · exact apart _ (covers.own (by omega) 0 (by decide)) (covers'.own (by omega) 0 (by decide))

/-- For a map of disjoint regions, what `memphys_init` pushes are pages of free regions, each
pushed once, exactly if the free regions can be told from their bases and lengths modulo 2^32. -/
theorem init_takes_free_pages_iff (mmap : List MmapEntry) (apart : mmap.Pairwise Apart) :
    TakesFreePages mmap ↔ Addressable mmap := by
  constructor
  · intro takes
    have taken : ∀ r ∈ mmap, r.type = multibootFree → ∀ addr, Covers r addr → addr ∈ initPages mmap :=
      fun r inMap free addr covers => mem_init_pages.mpr ⟨r, inMap, free, covers⟩
    refine ⟨fun r inMap free addr covers => ?_, fun r inMap free addr covers _ => ⟨?_, ?_⟩⟩
    · have page := takes.aligned addr (taken r inMap free addr covers)
      obtain ⟨-, j, -, rfl⟩ := covers
      simp only [pageSize] at *
      omega
    · exact (takes.inside addr (taken r inMap free addr covers)).2
    · intro r' inMap' free' covers'
      by_contra different
      have symmetric : Std.Symm (Function.onFun List.Disjoint regionPages) :=
        ⟨fun _ _ disjoint => disjoint.symm⟩
      exact (List.nodup_flatMap.mp takes.once).2.forall (List.mem_filter.mpr ⟨inMap', by simpa using free'⟩)
        (List.mem_filter.mpr ⟨inMap, by simpa using free⟩) different (mem_region_pages.mpr covers')
        (mem_region_pages.mpr covers)
  · intro addressable
    refine ⟨fun addr member => ?_, fun addr member => ?_, ?_⟩
    · obtain ⟨r, inMap, free, covers⟩ := mem_init_pages.mp member
      have base := addressable.aligned r inMap free addr covers
      obtain ⟨-, j, -, rfl⟩ := covers
      simp only [pageSize] at *
      omega
    · obtain ⟨r, inMap, free, covers⟩ := mem_init_pages.mp member
      refine ⟨covers.1, ?_⟩
      by_cases above : r.base.toNat ≤ addr
      · exact ⟨r, inMap, free, covers.own above⟩
      · exact (addressable.foreign r inMap free addr covers (by omega)).1
    · refine List.nodup_flatMap.mpr ⟨fun r _ => region_pages_nodup r, ?_⟩
      refine (apart.filter _).imp_of_mem fun member member' apart addr taken taken' => ?_
      obtain ⟨inMap, free⟩ := List.mem_filter.mp member
      obtain ⟨inMap', free'⟩ := List.mem_filter.mp member'
      exact addressable.covers_once inMap (by simpa using free) inMap' (by simpa using free') apart
        (mem_region_pages.mp taken) (mem_region_pages.mp taken')

/-- Two regions behind the kernel, of two pages and of three. -/
theorem low_regions_taken : TakesFreePages [⟨0x400000, 0x2000, 1⟩, ⟨0x800000, 0x3000, 1⟩] := by
  refine (init_takes_free_pages_iff _ (List.pairwise_pair.mpr fun addr first second => ?_)).mpr
    ⟨?_, ?_⟩
  · simp [Holds] at first second
    omega
  · intro r member _ addr _
    rcases List.mem_pair.mp member with rfl | rfl
    · decide
    · decide
  · rintro r member _ addr ⟨-, j, fits, rfl⟩ below
    rcases List.mem_pair.mp member with rfl | rfl
    · simp [pageSize] at fits below
      omega
    · simp [pageSize] at fits below
      omega

/-- A page above 4 GB is taken for the one 4 GB below it, which is free too and pushed twice. -/
theorem high_page_taken_twice :
    [⟨0x303000, 0x1000, 1⟩, ⟨0x100303000, 0x1000, 1⟩].Pairwise Apart ∧
      initPages [⟨0x303000, 0x1000, 1⟩, ⟨0x100303000, 0x1000, 1⟩] = [0x303000, 0x303000] ∧
      ¬ TakesFreePages [⟨0x303000, 0x1000, 1⟩, ⟨0x100303000, 0x1000, 1⟩] := by
  have pages : initPages [⟨0x303000, 0x1000, 1⟩, ⟨0x100303000, 0x1000, 1⟩] = [0x303000, 0x303000] := by
    decide
  refine ⟨?_, pages, fun takes => ?_⟩
  · refine List.pairwise_pair.mpr fun addr first second => ?_
    simp [Holds] at first second
    omega
  · have once := takes.once
    rw [pages] at once
    exact absurd once (by decide)

end MeinOS.MemphysMap
