import Mathlib

/-! Byte memory of a 32-bit machine, and blocks of such memory. Words are little
endian and need not be aligned; an address wraps at the end of the address space.

A list of blocks is retiled by reordering it, by joining two blocks that meet and by
cutting a block in two: what it covers stays the same, and so does that no two of
its blocks overlap. -/
namespace MeinOS.Lib.Memory

abbrev Mem := Nat → BitVec 8

def load32 (m : Mem) (a : Nat) : Nat :=
  (m (a % 2 ^ 32)).toNat + 2 ^ 8 * (m ((a + 1) % 2 ^ 32)).toNat +
    2 ^ 16 * (m ((a + 2) % 2 ^ 32)).toNat + 2 ^ 24 * (m ((a + 3) % 2 ^ 32)).toNat

def store32 (m : Mem) (a v : Nat) : Mem := fun x =>
  if x = a % 2 ^ 32 then BitVec.ofNat 8 v
  else if x = (a + 1) % 2 ^ 32 then BitVec.ofNat 8 (v / 2 ^ 8)
  else if x = (a + 2) % 2 ^ 32 then BitVec.ofNat 8 (v / 2 ^ 16)
  else if x = (a + 3) % 2 ^ 32 then BitVec.ofNat 8 (v / 2 ^ 24)
  else m x

/-- Two memories hold the same `n` bytes from `a` on. -/
def Agree (m m' : Mem) (a n : Nat) : Prop := ∀ x, a ≤ x → x < a + n → m x = m' x

section
variable (fits : a + 4 ≤ 2 ^ 32)
include fits

theorem load_agree (same : Agree m m' a 4) :
    load32 m a = load32 m' a := by
  have byte : ∀ k < 4, m ((a + k) % 2 ^ 32) = m' ((a + k) % 2 ^ 32) := by
    intro k inside
    rw [Nat.mod_eq_of_lt (by omega)]
    exact same _ (by omega) (by omega)
  have first := byte 0 (by omega)
  rw [Nat.add_zero] at first
  rw [load32, load32, first, byte 1 (by omega), byte 2 (by omega), byte 3 (by omega)]

theorem store_agree (apart : a + 4 ≤ b ∨ b + n ≤ a) :
    Agree (store32 m a v) m b n := by
  intro x lower upper
  rw [store32, Nat.mod_eq_of_lt (by omega), Nat.mod_eq_of_lt (by omega),
    Nat.mod_eq_of_lt (by omega), Nat.mod_eq_of_lt (by omega)]
  rw [if_neg (by omega), if_neg (by omega), if_neg (by omega), if_neg (by omega)]

theorem load_store (small : v < 2 ^ 32) :
    load32 (store32 m a v) a = v := by
  simp only [load32, store32, Nat.mod_eq_of_lt (show a < 2 ^ 32 by omega),
    Nat.mod_eq_of_lt (show a + 1 < 2 ^ 32 by omega),
    Nat.mod_eq_of_lt (show a + 2 < 2 ^ 32 by omega),
    Nat.mod_eq_of_lt (show a + 3 < 2 ^ 32 by omega)]
  simp only [↓reduceIte, show ¬ a + 1 = a by omega, show ¬ a + 2 = a by omega,
    show ¬ a + 3 = a by omega, show ¬ a + 2 = a + 1 by omega, show ¬ a + 3 = a + 1 by omega,
    show ¬ a + 3 = a + 2 by omega, BitVec.toNat_ofNat]
  omega

theorem load_store_apart (fits' : b + 4 ≤ 2 ^ 32)
    (apart : a + 4 ≤ b ∨ b + 4 ≤ a) : load32 (store32 m a v) b = load32 m b :=
  load_agree fits' (store_agree fits apart)

end

/-- A stretch of addresses. -/
structure Block where
  addr : Nat
  size : Nat
  deriving DecidableEq

/-- The first address after the block. -/
def Block.fin (b : Block) : Nat := b.addr + b.size

def Block.Holds (b : Block) (x : Nat) : Prop := b.addr ≤ x ∧ x < b.fin

def Block.Apart (b c : Block) : Prop := b.fin ≤ c.addr ∨ c.fin ≤ b.addr

instance (b : Block) (x : Nat) : Decidable (b.Holds x) := inferInstanceAs (Decidable (_ ∧ _))

instance (b c : Block) : Decidable (b.Apart c) := inferInstanceAs (Decidable (_ ∨ _))

theorem Block.Apart.symm {b c : Block} (apart : b.Apart c) : c.Apart b := Or.symm apart

instance : Std.Symm Block.Apart := ⟨fun _ _ => Block.Apart.symm⟩

/-- The addresses that some block of the list holds. -/
def Covered (blocks : List Block) (x : Nat) : Prop := ∃ b ∈ blocks, b.Holds x

/-- Blocks of at least `least` bytes, no two of them overlapping. -/
structure Laid (least : Nat) (blocks : List Block) : Prop where
  wide : ∀ b ∈ blocks, least ≤ b.size
  apart : blocks.Pairwise Block.Apart

theorem Laid.of_perm (same : as.Perm bs) (held : Laid least as) : Laid least bs :=
  ⟨fun b member => held.wide b (same.mem_iff.mpr member),
    (same.pairwise_iff Block.Apart.symm).mp held.apart⟩

inductive Retiled (least : Nat) : List Block → List Block → Prop
  | perm (same : as.Perm bs) : Retiled least as bs
  | join (meet : b.fin = c.addr) :
    Retiled least (b :: c :: rest) (⟨b.addr, b.size + c.size⟩ :: rest)
  | cut (left : least ≤ s) (right : least ≤ t) :
    Retiled least (⟨a, s + t⟩ :: rest) (⟨a, s⟩ :: ⟨a + s, t⟩ :: rest)
  | trans (first : Retiled least as bs) (second : Retiled least bs cs) : Retiled least as cs

theorem Retiled.append (retiled : Retiled least as bs) (others : List Block) :
    Retiled least (as ++ others) (bs ++ others) := by
  induction retiled with
  | perm same => exact .perm (same.append_right others)
  | join meet => exact .join meet
  | cut left right => exact .cut left right
  | trans _ _ first second => exact .trans first second

theorem Retiled.covered (retiled : Retiled least as bs) (x : Nat) :
    Covered bs x ↔ Covered as x := by
  induction retiled with
  | perm same =>
    constructor
    · rintro ⟨b, member, holds⟩
      exact ⟨b, same.mem_iff.mpr member, holds⟩
    · rintro ⟨b, member, holds⟩
      exact ⟨b, same.mem_iff.mp member, holds⟩
  | join meet =>
    simp only [Covered, List.exists_mem_cons_iff, Block.Holds, Block.fin] at meet ⊢
    rw [← or_assoc]
    apply or_congr_left
    omega
  | cut left right =>
    simp only [Covered, List.exists_mem_cons_iff, Block.Holds, Block.fin]
    rw [← or_assoc]
    apply or_congr_left
    omega
  | trans _ _ first second => exact second.trans first

theorem Retiled.laid (positive : 0 < least) (retiled : Retiled least as bs)
    (held : Laid least as) : Laid least bs := by
  induction retiled with
  | perm same => exact held.of_perm same
  | @join b c rest meet =>
    obtain ⟨wide, apart⟩ := held
    rw [List.pairwise_cons, List.pairwise_cons] at apart
    obtain ⟨fromLeft, fromRight, others⟩ := apart
    constructor
    · intro d member
      rcases List.mem_cons.mp member with rfl | later
      · have left := wide b List.mem_cons_self
        exact Nat.le_add_right_of_le left
      · exact wide d (List.mem_cons_of_mem b (List.mem_cons_of_mem c later))
    · refine List.pairwise_cons.mpr ⟨fun d member => ?_, others⟩
      have left := fromLeft d (List.mem_cons_of_mem c member)
      have right := fromRight d member
      have size := wide d (List.mem_cons_of_mem b (List.mem_cons_of_mem c member))
      simp only [Block.Apart, Block.fin] at left right meet ⊢
      omega
  | @cut s t a rest left right =>
    obtain ⟨wide, apart⟩ := held
    rw [List.pairwise_cons] at apart
    obtain ⟨fromBlock, others⟩ := apart
    constructor
    · intro d member
      rcases List.mem_cons.mp member with rfl | later
      · exact left
      · rcases List.mem_cons.mp later with rfl | later
        · exact right
        · exact wide d (List.mem_cons_of_mem _ later)
    · rw [List.pairwise_cons, List.pairwise_cons]
      refine ⟨fun d member => ?_, fun d member => ?_, others⟩
      · rcases List.mem_cons.mp member with rfl | later
        · exact Or.inl (Nat.le_refl _)
        · have whole := fromBlock d later
          simp only [Block.Apart, Block.fin] at whole ⊢
          omega
      · have whole := fromBlock d member
        simp only [Block.Apart, Block.fin] at whole ⊢
        omega
  | trans _ _ first second => exact second (first held)

end MeinOS.Lib.Memory
