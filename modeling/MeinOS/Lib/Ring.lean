import MeinOS.Lib.Copy

/-! Rings. The values that wait in a ring are a part of the buffer that is rotated to the
position of the next read; a read takes some away at the front, and a write that stays in the
free part adds some at the end, wherever the buffer is cut. One cell is never used, so that equal
positions mean an empty ring. -/
namespace MeinOS.Lib.Ring
open Copy

/-- How many values wait between the two positions. -/
def used (size rpos wpos : Nat) : Nat := if rpos ≤ wpos then wpos - rpos else wpos + size - rpos

/-- The values that wait, in the order in which they are read. -/
def unread (buf : List α) (rpos wpos : Nat) : List α := (buf.rotate rpos).take (used buf.length rpos wpos)

variable {size rpos wpos n : Nat} {buf : List α}

theorem used_lt (read : rpos < size) (write : wpos < size) : used size rpos wpos < size := by
  unfold used
  split <;> omega

/-- The sum of a position and a distance in the ring, without the modulus. -/
theorem mod_cases {pos : Nat} (inside : pos < size) (near : n ≤ size) :
    pos + n < size ∧ (pos + n) % size = pos + n ∨ size ≤ pos + n ∧ (pos + n) % size = pos + n - size := by
  by_cases below : pos + n < size
  · exact .inl ⟨below, Nat.mod_eq_of_lt below⟩
  · refine .inr ⟨by omega, ?_⟩
    rw [Nat.mod_eq_sub_mod (by omega), Nat.mod_eq_of_lt (by omega)]

section
variable (read : rpos < size) (write : wpos < size)
include read write

theorem used_read (enough : n ≤ used size rpos wpos) :
    used size ((rpos + n) % size) wpos = used size rpos wpos - n := by
  have near := (used_lt read write).le.trans' enough
  rcases mod_cases read near with ⟨-, moved⟩ | ⟨beyond, moved⟩
  all_goals
    rw [moved]
    unfold used at enough ⊢
    split at enough <;> split <;> omega

theorem used_write (room : used size rpos wpos + n < size) :
    used size rpos ((wpos + n) % size) = used size rpos wpos + n := by
  rcases mod_cases write (show n ≤ size by omega) with ⟨-, moved⟩ | ⟨beyond, moved⟩
  all_goals
    rw [moved]
    unfold used at room ⊢
    split at room <;> split <;> omega

theorem read_reaches_write :
    (rpos + used size rpos wpos) % size = wpos := by
  unfold used
  split
  · rw [Nat.add_sub_cancel' (by omega), Nat.mod_eq_of_lt write]
  · rw [Nat.add_sub_cancel' (by omega), Nat.add_mod_right, Nat.mod_eq_of_lt write]

/-! Reading. -/

end

theorem front_whole (inside : rpos + n ≤ buf.length) : (buf.rotate rpos).take n = slice buf rpos n := by
  have enough : n ≤ (buf.drop rpos).length := by
    rw [List.length_drop]
    omega
  rw [List.rotate_eq_drop_append_take (by omega), List.take_append_of_le_length enough, slice]

theorem front_parts (read : rpos ≤ buf.length) (wraps : buf.length ≤ rpos + n) (near : n ≤ buf.length) :
    (buf.rotate rpos).take n =
      slice buf rpos (buf.length - rpos) ++ slice buf 0 (n - (buf.length - rpos)) := by
  rw [List.rotate_eq_drop_append_take read, List.take_append, List.length_drop]
  rw [List.take_of_length_le (by rw [List.length_drop]; omega)]
  simp only [slice, List.drop_zero, List.take_take]
  rw [List.take_of_length_le (show (buf.drop rpos).length ≤ buf.length - rpos by rw [List.length_drop])]
  rw [Nat.min_eq_left (by omega)]

/-- One copy brings the front of the ring, if it does not wrap. -/
theorem copy_out_whole {dst : List α} (inside : rpos + n ≤ buf.length) (fits : n ≤ dst.length) :
    ∃ dst', memcpy dst 0 buf rpos n = some dst' ∧ dst'.take n = (buf.rotate rpos).take n := by
  refine ⟨_, memcpy_inside inside (by omega), ?_⟩
  have front := splice_front dst (slice buf rpos n)
  rw [slice_length inside] at front
  rw [front, front_whole inside]

/-- Two copies, up to the end and from the start on, bring the front of the ring. -/
theorem copy_out_parts {dst : List α} {m : Nat} (read : rpos ≤ buf.length) (behind : m ≤ rpos)
    (fits : buf.length - rpos + m ≤ dst.length) :
    ∃ dst', ((memcpy dst 0 buf rpos (buf.length - rpos)).bind fun dst =>
        memcpy dst (buf.length - rpos) buf 0 m) = some dst' ∧
      dst'.take (buf.length - rpos + m) = (buf.rotate rpos).take (buf.length - rpos + m) := by
  have first : rpos + (buf.length - rpos) ≤ buf.length := by omega
  have second : 0 + m ≤ buf.length := by omega
  have one := slice_length first
  have two := slice_length second
  have kept : (splice dst 0 (slice buf rpos (buf.length - rpos))).length = dst.length :=
    splice_length (by omega)
  rw [memcpy_inside first (by omega), Option.bind_some]
  refine ⟨_, memcpy_inside second (by omega), ?_⟩
  -- the two copies are one copy of both parts
  have joined := splice_splice dst (slice buf rpos (buf.length - rpos)) (slice buf 0 m)
    (show 0 + _ + _ ≤ _ by omega)
  have front := splice_front dst (slice buf rpos (buf.length - rpos) ++ slice buf 0 m)
  rw [one, Nat.zero_add] at joined
  rw [List.length_append, one, two] at front
  rw [joined, front, front_parts read (by omega) (by omega), Nat.add_sub_cancel_left]

/-- What is read comes first, and the others go on waiting. -/
theorem unread_read (read : rpos < buf.length) (write : wpos < buf.length)
    (enough : n ≤ used buf.length rpos wpos) :
    unread buf rpos wpos = (buf.rotate rpos).take n ++ unread buf ((rpos + n) % buf.length) wpos := by
  have below := used_lt read write
  have moved : buf.rotate ((rpos + n) % buf.length) = (buf.rotate rpos).drop n ++ (buf.rotate rpos).take n := by
    rw [List.rotate_mod, ← List.rotate_rotate, List.rotate_eq_drop_append_take]
    rw [List.length_rotate]
    omega
  have rest : used buf.length rpos wpos - n ≤ ((buf.rotate rpos).drop n).length := by
    rw [List.length_drop, List.length_rotate]
    omega
  unfold unread
  rw [used_read read write enough, moved, List.take_append_of_le_length rest, ← List.take_add,
    Nat.add_sub_cancel' enough]

/-! Writing. -/

/-- The new buffer has the data at the write position and is otherwise the old one. -/
def Written (buf : List α) (wpos : Nat) (data buf' : List α) : Prop :=
  buf'.length = buf.length ∧ buf'.rotate wpos = data ++ (buf.rotate wpos).drop data.length

theorem written_whole {data : List α} (inside : wpos + data.length ≤ buf.length) :
    Written buf wpos data (splice buf wpos data) := by
  refine ⟨splice_length inside, ?_⟩
  have head : (buf.take wpos).length = wpos := by
    rw [List.length_take]
    omega
  have rotated := List.rotate_append_length_eq (buf.take wpos) (data ++ buf.drop (wpos + data.length))
  rw [head, ← List.append_assoc] at rotated
  have enough : data.length ≤ (buf.drop wpos).length := by
    rw [List.length_drop]
    omega
  rw [List.rotate_eq_drop_append_take (show wpos ≤ buf.length by omega),
    List.drop_append_of_le_length enough, List.drop_drop, ← List.append_assoc]
  exact rotated

theorem written_parts {first second : List α} (write : wpos ≤ buf.length)
    (wraps : wpos + first.length = buf.length) (room : second.length ≤ wpos) :
    Written buf wpos (first ++ second) (splice (splice buf wpos first) 0 second) := by
  have whole : splice buf wpos first = buf.take wpos ++ first := by
    simp [splice, wraps]
  have head : (second ++ (buf.take wpos).drop second.length).length = wpos := by
    simp only [List.length_append, List.length_drop, List.length_take]
    omega
  have taken : second.length ≤ (buf.take wpos).length := by
    rw [List.length_take]
    omega
  have pieces : splice (splice buf wpos first) 0 second =
      (second ++ (buf.take wpos).drop second.length) ++ first := by
    rw [whole]
    simp only [splice, List.take_zero, List.nil_append, Nat.zero_add, List.append_assoc]
    rw [List.drop_append_of_le_length taken]
  constructor
  · rw [pieces, List.length_append, head, wraps]
  · have rotated := List.rotate_append_length_eq (second ++ (buf.take wpos).drop second.length) first
    rw [head] at rotated
    have gone : (buf.drop wpos).length = first.length := by
      rw [List.length_drop]
      omega
    rw [pieces, rotated, List.rotate_eq_drop_append_take write, List.length_append, ← gone,
      List.drop_append, List.append_assoc, Nat.add_sub_cancel_left]
    rw [List.drop_eq_nil_of_le (Nat.le_add_right _ _), List.nil_append]

/-- One copy writes what does not reach past the end. -/
theorem copy_in_whole {src : List α} (inside : wpos + n ≤ buf.length) (fits : n ≤ src.length) :
    ∃ buf', memcpy buf wpos src 0 n = some buf' ∧ Written buf wpos (src.take n) buf' := by
  have length : (src.take n).length = n := List.length_take_of_le fits
  refine ⟨_, memcpy_inside (by omega) inside, ?_⟩
  exact written_whole (show wpos + (src.take n).length ≤ buf.length by omega)

/-- Two copies, up to the end and from the start on, write what reaches past the end. -/
theorem copy_in_parts {src : List α} {m : Nat} (write : wpos ≤ buf.length) (behind : m ≤ wpos)
    (fits : buf.length - wpos + m ≤ src.length) :
    ∃ buf', ((memcpy buf wpos src 0 (buf.length - wpos)).bind fun buf' =>
        memcpy buf' 0 src (buf.length - wpos) m) = some buf' ∧
      Written buf wpos (src.take (buf.length - wpos + m)) buf' := by
  have first : 0 + (buf.length - wpos) ≤ src.length := by omega
  have one := slice_length first
  have two := slice_length fits
  have kept : (splice buf wpos (slice src 0 (buf.length - wpos))).length = buf.length :=
    splice_length (by omega)
  rw [memcpy_inside first (by omega), Option.bind_some, memcpy_inside fits (by omega)]
  refine ⟨_, rfl, ?_⟩
  have parts := slice_append src 0 (buf.length - wpos) m
  rw [Nat.zero_add] at parts
  have reached : wpos + (slice src 0 (buf.length - wpos)).length = buf.length := by omega
  have written := written_parts write reached (two.trans_le behind)
  rw [parts] at written
  exact written

/-- What is written into the free part waits behind the others. Only the first `n` of the data
may count. -/
theorem unread_written {data buf' : List α} (written : Written buf wpos data buf') (read : rpos < buf.length)
    (write : wpos < buf.length) (free : used buf.length rpos wpos + data.length ≤ buf.length)
    (counted : n ≤ data.length) (room : used buf.length rpos wpos + n < buf.length) :
    unread buf' rpos ((wpos + n) % buf.length) = unread buf rpos wpos ++ data.take n := by
  obtain ⟨same, rotated⟩ := written
  have reaches := read_reaches_write read write
  -- both buffers, seen from the read position, with the waiting values cut off
  have cut : ∀ list : List α, list.length = buf.length → list.rotate wpos =
      (list.rotate rpos).drop (used buf.length rpos wpos) ++
        (list.rotate rpos).take (used buf.length rpos wpos) := by
    intro list length
    rw [← List.rotate_eq_drop_append_take (by rw [List.length_rotate, length]; omega), List.rotate_rotate,
      ← List.rotate_mod list (rpos + _), length, reaches]
  rw [cut buf' same, cut buf rfl, List.drop_append_of_le_length, ← List.append_assoc] at rotated
  · have parts := List.append_inj rotated (by
      simp only [List.length_drop, List.length_rotate, List.length_append, same]
      omega)
    unfold unread
    rw [same, used_write read write room, List.take_add, parts.2, parts.1,
      List.take_append_of_le_length counted]
  · rw [List.length_drop, List.length_rotate]
    omega

end MeinOS.Lib.Ring
