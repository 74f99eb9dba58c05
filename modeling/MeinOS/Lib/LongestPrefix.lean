import Mathlib

/-! Longest prefixes: how many leading elements two lists share, and the scan of a list for
the first item with the largest score. -/
namespace MeinOS.Lib.LongestPrefix

section Shared
variable [DecidableEq α]

/-- The number of leading elements that two lists share. -/
def shared : List α → List α → Nat
  | a :: as, b :: bs => if a = b then shared as bs + 1 else 0
  | _, _ => 0

@[simp] theorem shared_nil_left (bs : List α) : shared [] bs = 0 := rfl

@[simp] theorem shared_nil_right (as : List α) : shared as [] = 0 := by cases as <;> rfl

theorem shared_cons_self (a : α) (as bs : List α) : shared (a :: as) (a :: bs) = shared as bs + 1 :=
  if_pos rfl

theorem shared_cons_ne {a b : α} (apart : a ≠ b) (as bs : List α) : shared (a :: as) (b :: bs) = 0 :=
  if_neg apart

theorem shared_le_length (as bs : List α) : shared as bs ≤ bs.length := by
  induction as generalizing bs with
  | nil => exact Nat.zero_le _
  | cons a as ih =>
    cases bs with
    | nil => exact Nat.zero_le _
    | cons b bs =>
      rw [shared]
      split
      · exact Nat.succ_le_succ (ih bs)
      · exact Nat.zero_le _

/-- A list shares all it has exactly with the lists it is a prefix of. -/
theorem shared_eq_length {as bs : List α} : shared as bs = bs.length ↔ bs <+: as := by
  induction bs generalizing as with
  | nil => simp
  | cons b bs ih =>
    cases as with
    | nil => simp
    | cons a as =>
      rw [List.cons_prefix_cons, ← ih, shared]
      split
      · rename_i same
        simp [same]
      · rename_i apart
        simp [Ne.symm apart]

/-- The lengths of the lists that both lists start with. -/
def commonLengths (as bs : List α) : Set Nat := { n | ∃ common, common <+: as ∧ common <+: bs ∧ common.length = n }

theorem take_shared (as bs : List α) : bs.take (shared as bs) <+: as := by
  induction as generalizing bs with
  | nil => simp
  | cons a as ih =>
    cases bs with
    | nil => simp
    | cons b bs =>
      rw [shared]
      split
      · rename_i same
        rw [List.take_succ_cons, List.cons_prefix_cons]
        exact ⟨same.symm, ih bs⟩
      · exact List.nil_prefix

/-- It is the length of the longest of them. -/
theorem shared_greatest (as bs : List α) : IsGreatest (commonLengths as bs) (shared as bs) := by
  constructor
  · exact ⟨bs.take (shared as bs), take_shared as bs, List.take_prefix _ _,
      List.length_take_of_le (shared_le_length as bs)⟩
  · rintro - ⟨common, left, right, rfl⟩
    induction common generalizing as bs with
    | nil => exact Nat.zero_le _
    | cons c common ih =>
      obtain ⟨as, rfl, rest⟩ := List.cons_prefix_iff.mp left
      obtain ⟨bs, rfl, rest'⟩ := List.cons_prefix_iff.mp right
      rw [shared_cons_self]
      exact Nat.succ_le_succ (ih as bs rest rest')

theorem shared_comm (as bs : List α) : shared as bs = shared bs as := by
  have same : commonLengths bs as = commonLengths as bs := by
    ext n
    exact exists_congr fun _ => and_left_comm
  exact (shared_greatest as bs).unique (same ▸ shared_greatest bs as)

end Shared

/-- Scans for the first item whose score is the largest above `best`. -/
def largest (score : α → Nat) : List α → Nat → Option α → Option α
  | [], _, found => found
  | item :: rest, best, found =>
    if best < score item then largest score rest (score item) (some item)
    else largest score rest best found

variable {score : α → Nat}

theorem largest_low {items : List α} {best : Nat} (low : ∀ item ∈ items, score item ≤ best)
    (found : Option α) : largest score items best found = found := by
  induction items with
  | nil => rfl
  | cons item rest ih =>
    obtain ⟨here, later⟩ := List.forall_mem_cons.mp low
    rw [largest, if_neg (Nat.not_lt.mpr here)]
    exact ih later

/-- `item` is the first of the items with the largest score. -/
def First (score : α → Nat) (items : List α) (item : α) : Prop :=
  ∃ before after, items = before ++ item :: after ∧ (∀ other ∈ before, score other < score item) ∧
    ∀ other ∈ after, score other ≤ score item

theorem First.mem {items : List α} {item : α} (first : First score items item) : item ∈ items := by
  obtain ⟨before, -, rfl, -, -⟩ := first
  exact List.mem_append_right before List.mem_cons_self

theorem largest_first {items : List α} {item : α} (first : First score items item) {best : Nat}
    (above : best < score item) (found : Option α) : largest score items best found = some item := by
  obtain ⟨before, after, rfl, earlier, later⟩ := first
  induction before generalizing best found with
  | nil =>
    rw [List.nil_append, largest, if_pos above]
    exact largest_low later _
  | cons other before ih =>
    obtain ⟨here, rest⟩ := List.forall_mem_cons.mp earlier
    rw [List.cons_append, largest]
    split
    · exact ih here _ rest
    · exact ih above _ rest

/-- Some item is the first with the largest score, unless no score is above `best`. -/
theorem low_or_first (score : α → Nat) (items : List α) (best : Nat) :
    (∀ item ∈ items, score item ≤ best) ∨ ∃ item, First score items item ∧ best < score item := by
  induction items generalizing best with
  | nil => exact .inl (List.forall_mem_nil _)
  | cons item rest ih =>
    by_cases above : best < score item
    · right
      rcases ih (score item) with low | ⟨other, ⟨before, after, rfl, earlier, later⟩, higher⟩
      · exact ⟨item, ⟨[], rest, rfl, List.forall_mem_nil _, low⟩, above⟩
      · refine ⟨other, ⟨item :: before, after, rfl, ?_, later⟩, above.trans higher⟩
        exact List.forall_mem_cons.mpr ⟨higher, earlier⟩
    · rcases ih best with low | ⟨other, ⟨before, after, rfl, earlier, later⟩, higher⟩
      · exact .inl (List.forall_mem_cons.mpr ⟨Nat.not_lt.mp above, low⟩)
      · refine .inr ⟨other, ⟨item :: before, after, rfl, ?_, later⟩, higher⟩
        exact List.forall_mem_cons.mpr ⟨(Nat.not_lt.mp above).trans_lt higher, earlier⟩

end MeinOS.Lib.LongestPrefix
