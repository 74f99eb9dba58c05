import Mathlib

/-! Characters and lines from a stream, `fgetc` of `apps/include/stdio.h` and `_fread` and `fgets` of
`apps/lib/stdlibc/stdio.c`, on a stream that was opened for reading and a file whose bytes `read`
gets in order.

`fgetc` keeps the byte in a `char`, which has a sign, and takes the one that is -1 for the end of
the file. `fgets` ends at a newline before it has counted it, and writes the final zero over it. -/
namespace MeinOS.StdioInput

/-- A stream, and what is still to be read of its file. -/
structure Input where
  rest : List UInt8
  eof : Bool
  deriving DecidableEq

/-- `_fread`: the result and the bytes it stores. -/
def fread (size : Nat) (s : Input) : Int × List UInt8 × Input :=
  if s.rest.take size = [] then (-1, [], s)
  else ((s.rest.take size).length, s.rest.take size, ⟨s.rest.drop size, s.eof || (s.rest.take size).length < size⟩)

/-- A byte as a `char`. -/
def char (byte : UInt8) : Int := byte.toBitVec.toInt

/-- A `char` in memory. -/
def byteOf (chr : Int) : UInt8 := ⟨BitVec.ofInt 8 chr⟩

/-- `fgetc`, where `c` is `EOF` unless a byte is read. -/
def fgetc (s : Input) : Int × Input :=
  let (_, bytes, s) := fread 1 s
  let c := (bytes.head?).elim (-1) char
  (c, { s with eof := s.eof || c = -1 })

/-- The loop of `fgets` with so much room left, up to the final zero. `errno` is 0 once `read` has
got something. -/
def fgetsLoop : Nat → Input → List UInt8 × Input
  | 0, s => ([], s)
  | left + 1, s =>
    let (chr, s) := fgetc s
    if chr = -1 then ([], s)
    else if byteOf chr = 0 ∨ byteOf chr = 10 then ([], s)
    else
      let (line, s) := fgetsLoop left s
      (byteOf chr :: line, s)

/-- `fgets`. -/
def fgets (n : Nat) (s : Input) : List UInt8 × Input := fgetsLoop (n - 1) s

/-- So many calls of `fgetc` one after the other. -/
def fgetcs : Nat → Input → List Int × Input
  | 0, s => ([], s)
  | calls + 1, s =>
    let (c, s) := fgetc s
    let (more, s) := fgetcs calls s
    (c :: more, s)

/-- The bytes of the file come in order as numbers, then the end of the file, which the stream does
not show before it is there. -/
def ReadsBytes (content : List UInt8) : Prop :=
  ∀ calls, (fgetcs calls ⟨content, false⟩).1 =
      (List.range calls).map (fun i => content[i]?.elim (-1) fun byte => (byte.toNat : Int)) ∧
    ((fgetcs calls ⟨content, false⟩).2.eof = true → content.length ≤ calls)

/-- The next line with its newline, as far as there is room. -/
def nextLine (n : Nat) (content : List UInt8) : List UInt8 :=
  (content.take (n - 1)).takeWhile (· ≠ 10) ++ if 10 ∈ content.take (n - 1) then [10] else []

theorem fgetc_nil (eof : Bool) : fgetc ⟨[], eof⟩ = (-1, ⟨[], true⟩) := by
  simp [fgetc, fread]

theorem fgetc_cons (byte : UInt8) (rest : List UInt8) (eof : Bool) :
    fgetc ⟨byte :: rest, eof⟩ = (char byte, ⟨rest, eof || char byte = -1⟩) := by
  simp [fgetc, fread]

/-- What a number of calls return. -/
theorem fgetcs_values (calls : Nat) (content : List UInt8) (eof : Bool) :
    (fgetcs calls ⟨content, eof⟩).1 = (List.range calls).map fun i => content[i]?.elim (-1) char := by
  induction calls generalizing content eof with
  | zero => rfl
  | succ calls ih =>
    rw [List.range_succ_eq_map, List.map_cons, List.map_map, fgetcs]
    cases content with
    | nil => simp [fgetc_nil, ih, Function.comp_def]
    | cons byte rest => simp [fgetc_cons, ih, Function.comp_def]

/-- A `char` is the byte unless it has a sign. -/
theorem char_eq (byte : UInt8) : char byte = if byte.toNat < 128 then (byte.toNat : Int) else byte.toNat - 256 := by
  rw [char, BitVec.toInt_eq_toNat_cond, UInt8.toNat_toBitVec]
  split <;> split <;> omega

@[simp] theorem byte_of_char (byte : UInt8) : byteOf (char byte) = byte := by
  simp [byteOf, char]

theorem char_end_iff (byte : UInt8) : char byte = -1 ↔ byte = 255 := by
  rw [char_eq, ← UInt8.toNat_inj, show (255 : UInt8).toNat = 255 from rfl]
  split <;> omega

/-- Without a byte that is taken for it, the end of the file is seen behind the last byte. -/
theorem fgetcs_eof {content : List UInt8} (plain : ∀ byte ∈ content, char byte ≠ -1) (calls : Nat) :
    (fgetcs calls ⟨content, false⟩).2.eof = true → content.length ≤ calls := by
  induction calls generalizing content with
  | zero => simp [fgetcs]
  | succ calls ih =>
    cases content with
    | nil => simp
    | cons byte rest =>
      obtain ⟨here, later⟩ := List.forall_mem_cons.mp plain
      intro shown
      simp only [fgetcs, fgetc_cons, here, decide_false, Bool.or_false] at shown
      exact Nat.succ_le_succ (ih later shown)

theorem reads_bytes_iff (content : List UInt8) : ReadsBytes content ↔ ∀ byte ∈ content, byte.toNat < 128 := by
  constructor
  · intro reads byte member
    obtain ⟨i, inside, rfl⟩ := List.getElem_of_mem member
    have values := (reads (i + 1)).1
    rw [fgetcs_values] at values
    have value := List.map_inj_left.mp values i (by simp)
    simp only [List.getElem?_eq_getElem inside, Option.elim_some, char_eq] at value
    split at value <;> omega
  · intro ascii calls
    constructor
    · rw [fgetcs_values]
      apply List.map_congr_left
      intro i _
      cases found : content[i]? with
      | none => rfl
      | some byte =>
        rw [Option.elim_some, Option.elim_some, char_eq, if_pos (ascii byte (List.mem_of_getElem? found))]
    · apply fgetcs_eof
      intro byte member
      rw [char_eq, if_pos (ascii byte member)]
      omega

/-- A byte that does not end a string of `fgets`. -/
def Plain (byte : UInt8) : Prop := byte ≠ 0 ∧ byte ≠ 10 ∧ byte ≠ 255

instance (byte : UInt8) : Decidable (Plain byte) := inferInstanceAs (Decidable (_ ∧ _ ∧ _))

/-- The loop of `fgets` ends before the first byte that is not plain. -/
theorem fgets_loop_eq (left : Nat) (content : List UInt8) (eof : Bool) :
    (fgetsLoop left ⟨content, eof⟩).1 = (content.take left).takeWhile Plain := by
  induction left generalizing content eof with
  | zero => rfl
  | succ left ih =>
    cases content with
    | nil => simp [fgetsLoop, fgetc_nil]
    | cons byte rest =>
      rw [fgetsLoop, fgetc_cons]
      simp only [byte_of_char, char_end_iff, List.take_succ_cons, List.takeWhile_cons]
      by_cases last : byte = 255
      · simp [last, Plain]
      · rw [if_neg last]
        by_cases ends : byte = 0 ∨ byte = 10
        · rw [if_pos ends, if_neg]
          rcases ends with rfl | rfl <;> decide
        · obtain ⟨zero, newline⟩ := not_or.mp ends
          simp [zero, newline, last, Plain, ih]

/-- The string of `fgets` is the line exactly if every byte of it is plain. -/
theorem plain_line_iff (bytes : List UInt8) :
    bytes.takeWhile Plain = bytes.takeWhile (· ≠ 10) ++ (if 10 ∈ bytes then [10] else []) ↔
      ∀ byte ∈ bytes, Plain byte := by
  induction bytes with
  | nil => simp
  | cons byte bytes ih =>
    by_cases plain : Plain byte
    · have other : byte ≠ 10 := plain.2.1
      simpa [plain, other, other.symm] using ih
    · -- the string ends here, the line has at least this byte
      by_cases newline : byte = 10
      · simp [newline, Plain]
      · simp [plain, newline]

/-- Characters and lines come as they are in the file exactly if no byte has a sign, and no newline
or zero is among those of the line. -/
theorem input_iff (content : List UInt8) (n : Nat) :
    (ReadsBytes content ∧ (fgets n ⟨content, false⟩).1 = nextLine n content) ↔
      (∀ byte ∈ content, byte.toNat < 128) ∧ ∀ byte ∈ content.take (n - 1), byte ≠ 0 ∧ byte ≠ 10 := by
  rw [reads_bytes_iff, fgets, fgets_loop_eq, nextLine, plain_line_iff]
  refine and_congr_right fun ascii => forall₂_congr fun byte member => ?_
  have low := ascii byte (List.mem_of_mem_take member)
  have high : byte ≠ 255 := by
    rintro rfl
    exact absurd low (by decide)
  simp [Plain, high]

theorem newline_is_lost :
    (fgetcs 1 ⟨[0xFF, 97], false⟩) = ([-1], ⟨[97], true⟩) ∧
      (fgets 80 ⟨[97, 10, 98], false⟩).1 = [97] ∧ nextLine 80 [97, 10, 98] = [97, 10] := by
  decide

end MeinOS.StdioInput
