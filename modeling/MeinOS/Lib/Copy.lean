import Mathlib

/-! Copies between buffers of fixed size. A copy that would leave one of the two buffers is
`none`, so that a program which only makes copies inside its buffers never is. -/
namespace MeinOS.Lib.Copy

/-- The buffer with `data` from a position on. -/
def splice (dst : List α) (pos : Nat) (data : List α) : List α :=
  dst.take pos ++ data ++ dst.drop (pos + data.length)

/-- The `n` values of a buffer from a position on. -/
def slice (src : List α) (pos n : Nat) : List α := (src.drop pos).take n

/-- `memcpy(dst+dpos,src+spos,n)`. -/
def memcpy (dst : List α) (dpos : Nat) (src : List α) (spos n : Nat) : Option (List α) :=
  if spos + n ≤ src.length ∧ dpos + n ≤ dst.length then some (splice dst dpos (slice src spos n)) else none

@[simp] theorem slice_length {src : List α} {pos n : Nat} (inside : pos + n ≤ src.length) :
    (slice src pos n).length = n := by
  simp only [slice, List.length_take, List.length_drop]
  omega

@[simp] theorem splice_length {dst data : List α} {pos : Nat} (inside : pos + data.length ≤ dst.length) :
    (splice dst pos data).length = dst.length := by
  simp only [splice, List.length_append, List.length_take, List.length_drop]
  omega

theorem memcpy_inside {dst src : List α} {dpos spos n : Nat} (source : spos + n ≤ src.length)
    (target : dpos + n ≤ dst.length) :
    memcpy dst dpos src spos n = some (splice dst dpos (slice src spos n)) :=
  if_pos ⟨source, target⟩

/-- Two neighbouring stretches are one. -/
theorem slice_append (src : List α) (pos n m : Nat) :
    slice src pos n ++ slice src (pos + n) m = slice src pos (n + m) := by
  simp only [slice, List.take_add, List.drop_drop]

/-- Two neighbouring copies are one. -/
theorem splice_splice (dst first second : List α) {pos : Nat}
    (inside : pos + first.length + second.length ≤ dst.length) :
    splice (splice dst pos first) (pos + first.length) second = splice dst pos (first ++ second) := by
  have shorter : (dst.take pos).length = pos := by
    rw [List.length_take]
    omega
  have head : (dst.take pos ++ first).length = pos + first.length := by
    rw [List.length_append, shorter]
  have gone : (dst.take pos ++ first).drop (pos + first.length + second.length) = [] :=
    List.drop_eq_nil_of_le (by omega)
  simp only [splice]
  rw [List.take_left' head, List.drop_append, gone, head]
  simp [Nat.add_assoc]

/-- Putting a stretch where it was changes nothing. -/
theorem splice_slice {dst : List α} {pos n : Nat} (inside : pos + n ≤ dst.length) :
    splice dst pos (slice dst pos n) = dst := by
  rw [splice, slice_length inside, slice, List.append_assoc, ← List.drop_drop, List.take_append_drop,
    List.take_append_drop]

theorem splice_take {dst : List α} {pos : Nat} (inside : pos ≤ dst.length) (data : List α) :
    (splice dst pos data).take (pos + data.length) = dst.take pos ++ data := by
  apply List.take_left'
  rw [List.length_append, List.length_take_of_le inside]

/-- A stretch of a stretch. -/
theorem slice_slice {src : List α} {pos n at' m : Nat} (inside : at' + m ≤ n) :
    slice (slice src pos n) at' m = slice src (pos + at') m := by
  simp only [slice, List.drop_take, List.drop_drop, List.take_take]
  rw [Nat.min_eq_left (by omega)]

theorem splice_front (dst data : List α) : (splice dst 0 data).take data.length = data := by
  simp [splice]

end MeinOS.Lib.Copy
