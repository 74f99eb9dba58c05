import MeinOS.Lib.Runs

/-! Buffered output of `apps/lib/stdlibc/stdio.c`. `fflush` empties the buffer whatever `write` has
accepted. It notes a short write in the stream, but neither a failed one nor one that accepted
nothing, and it returns how much was written, which `fclose` takes for an error. -/
namespace MeinOS.Stdio
open Lib.Runs

/-- `BUFSIZ`. -/
def bufsiz : Nat := 2048

/-- `FILE`: `buf` is the address of the buffer and `pending` what is in it up to `bufcur`. -/
structure Stream where
  fh : Int
  writable : Bool
  dobuf : Bool
  error : Bool
  eof : Bool
  buf : Nat
  pending : List UInt8
  deriving DecidableEq

/-- `create_stream`. -/
def createStream (fh : Int) (writable : Bool) (buf : Nat) : Stream := ⟨fh, writable, true, false, false, buf, []⟩

/-- What `write` returns for so many bytes: it fails, or it accepts all of them or fewer. -/
def written (answer : Option Nat) (length : Nat) : Int :=
  match answer with
  | none => -1
  | some most => (min most length : Nat)

/-- The bytes that `write` accepts. -/
def sentOf (answer : Option Nat) (bytes : List UInt8) : List UInt8 := bytes.take (answer.getD 0)

/-- `fflush`: what it returns, what was sent and the stream. -/
def fflush (answer : Option Nat) (s : Stream) : Int × List UInt8 × Stream :=
  if s.dobuf then
    if 0 < written answer s.pending.length ∧ written answer s.pending.length < s.pending.length then
      (-1, sentOf answer s.pending, { s with eof := true, pending := [] })
    else (written answer s.pending.length, sentOf answer s.pending, { s with pending := [] })
  else (0, [], s)

/-- Whether `_fwrite` empties the buffer first; the sum of the pointer and the size wraps. -/
def full (s : Stream) (size : Nat) : Bool := s.buf + bufsiz < (s.buf + s.pending.length + size) % 2 ^ 32

/-- The copy of `_fwrite` into the buffer, which is none if it goes past the end. -/
def append (s : Stream) (bytes : List UInt8) : Option Stream :=
  if s.pending.length + bytes.length ≤ bufsiz then some { s with pending := s.pending ++ bytes } else none

/-- `fflush` under a condition, for what was sent and the stream. -/
def flushIf (needed : Bool) (answer : Option Nat) (s : Stream) : List UInt8 × Stream :=
  if needed then (fflush answer s).2 else ([], s)

/-- `_fwrite` to a buffered stream: what it sends to make room, the copy, and what it sends because
of a newline. -/
def fwriteBuffered (ptr : List UInt8) (first second : Option Nat) (s : Stream) :
    Option (Int × List UInt8 × Stream) :=
  (append (flushIf (full s ptr.length) first s).2 (ptr.take bufsiz)).map fun t =>
    (((ptr.take bufsiz).length : Nat),
      (flushIf (full s ptr.length) first s).1 ++ (flushIf ((ptr.take bufsiz).contains 10) second t).1,
      (flushIf ((ptr.take bufsiz).contains 10) second t).2)

/-- `_fwrite`, with the answers to its calls of `write` in order. -/
def fwrite (ptr : List UInt8) (first second : Option Nat) (s : Stream) : Option (Int × List UInt8 × Stream) :=
  if ptr.length = 0 then some (0, [], s)
  else if 0 ≤ s.fh then
    if s.writable then
      if s.dobuf then fwriteBuffered ptr first second s
      else
        some (written first ptr.length, sentOf first ptr,
          { s with eof := s.eof || (0 < written first ptr.length ∧ written first ptr.length < s.pending.length) })
    else some (0, [], { s with eof := true })
  else some (-1, [], s)

/-- `fclose`: whether it closes the descriptor, and what it sent. -/
def fclose (answer : Option Nat) (s : Stream) : Bool × List UInt8 :=
  if 0 ≤ s.fh then ((fflush answer s).1 = 0, (fflush answer s).2.1) else (false, [])

/-- A stream with the bytes that `_fwrite` reported as accepted and those that `write` accepted. -/
structure World where
  stream : Stream
  accepted : List UInt8
  sent : List UInt8
  deriving DecidableEq

inductive Event where
  | fwrite (ptr : List UInt8) (first second : Option Nat)
  | fflush (answer : Option Nat)
  deriving DecidableEq

/-- A call, which is none if it copies past the end of the buffer. -/
def step (w : World) : Event → Option World
  | .fwrite ptr first second => (fwrite ptr first second w.stream).map fun (ret, sent, stream) =>
    ⟨stream, w.accepted ++ ptr.take ret.toNat, w.sent ++ sent⟩
  | .fflush answer => some ⟨(fflush answer w.stream).2.2, w.accepted, w.sent ++ (fflush answer w.stream).2.1⟩

def start (s : Stream) : World := ⟨s, [], []⟩

/-- Nothing is lost, unless the stream says so. -/
def Kept (w : World) : Prop :=
  w.stream.error ∨ w.stream.eof ∨ w.accepted = w.sent ++ w.stream.pending

instance (w : World) : Decidable (Kept w) := inferInstanceAs (Decidable (_ ∨ _ ∨ _))

/-- If there are bytes to send, `write` accepts at least one. -/
def Answered (pending : List UInt8) (answer : Option Nat) : Prop := pending = [] ∨ 1 ≤ answer.getD 0

instance (pending : List UInt8) (answer : Option Nat) : Decidable (Answered pending answer) :=
  inferInstanceAs (Decidable (_ ∨ _))

/-- `write` accepts a byte whenever there are some to send: what was in the buffer, if the new bytes
do not fit behind it, and the new ones, if there is a newline among those that are taken. The size
does not reach past the end of the address space from a buffer that is not empty. -/
def Meets (w : World) : Event → Prop
  | .fwrite ptr first second =>
    (w.stream.pending = [] ∨ w.stream.buf + w.stream.pending.length + ptr.length < 2 ^ 32) ∧
    (bufsiz < w.stream.pending.length + ptr.length → Answered w.stream.pending first) ∧
    (10 ∈ ptr.take bufsiz → 1 ≤ second.getD 0)
  | .fflush answer => Answered w.stream.pending answer

instance (w : World) : (event : Event) → Decidable (Meets w event)
  | .fwrite .. => inferInstanceAs (Decidable (_ ∧ (_ → _) ∧ (_ → _)))
  | .fflush _ => inferInstanceAs (Decidable (Answered _ _))

/-- A buffered stream for writing that has its block in the address space. -/
structure Buffered (s : Stream) : Prop where
  fh : 0 ≤ s.fh
  writable : s.writable
  dobuf : s.dobuf
  block : s.buf + bufsiz < 2 ^ 32
  inside : s.pending.length ≤ bufsiz

/-- What the calls keep. -/
structure Sound (w : World) : Prop where
  buffered : Buffered w.stream
  kept : Kept w

/-- One stream becomes the other by sending the front of what is in the buffer, or it says that
something went wrong. -/
structure Carries (s : Stream) (sent : List UInt8) (t : Stream) : Prop where
  buffered : Buffered t
  error : s.error → t.error
  eof : s.eof → t.eof
  rest : t.eof ∨ sent ++ t.pending = s.pending

theorem Kept.carries {s t : Stream} {accepted before sent : List UInt8} (kept : Kept ⟨s, accepted, before⟩)
    (carries : Carries s sent t) : Kept ⟨t, accepted, before ++ sent⟩ := by
  rcases kept with error | eof | same
  · exact .inl (carries.error error)
  · exact .inr (.inl (carries.eof eof))
  · rcases carries.rest with eof | rest
    · exact .inr (.inl eof)
    · refine .inr (.inr ?_)
      change accepted = before ++ sent ++ t.pending
      rw [List.append_assoc, rest]
      exact same

theorem flush_pending {s : Stream} (dobuf : s.dobuf) (answer : Option Nat) :
    (fflush answer s).2.2.pending = [] := by
  unfold fflush
  rw [if_pos dobuf]
  split <;> rfl

section
variable {s : Stream} {answer : Option Nat}

/-- `fflush` sends all that is in the buffer, or notes that it did not. -/
theorem flush_carries (buffered : Buffered s) (answered : Answered s.pending answer) :
    Carries s (fflush answer s).2.1 (fflush answer s).2.2 := by
  unfold fflush
  rw [if_pos buffered.dobuf]
  split
  · exact ⟨⟨buffered.fh, buffered.writable, buffered.dobuf, buffered.block, Nat.zero_le _⟩, id, fun _ => rfl, .inl rfl⟩
  · rename_i whole
    refine ⟨⟨buffered.fh, buffered.writable, buffered.dobuf, buffered.block, Nat.zero_le _⟩, id, id, .inr ?_⟩
    change sentOf answer s.pending ++ [] = s.pending
    rw [List.append_nil]
    rcases answered with empty | some
    · simp [sentOf, empty]
    · cases answer with
      | none => exact absurd some (by decide)
      | some most =>
        simp only [Option.getD_some] at some
        simp only [written] at whole
        exact List.take_of_length_le (by simp only [Option.getD_some]; omega)

theorem flush_if_carries (buffered : Buffered s) {needed : Bool}
    (answered : needed → Answered s.pending answer) :
    Carries s (flushIf needed answer s).1 (flushIf needed answer s).2 := by
  unfold flushIf
  split
  · rename_i flushes
    exact flush_carries buffered (answered flushes)
  · exact ⟨buffered, id, id, .inr rfl⟩

/-- A buffer that is not empty and counts as full has no room for the bytes. -/
theorem full_answered {size : Nat}
    (near : s.pending = [] ∨ s.buf + s.pending.length + size < 2 ^ 32)
    (answered : bufsiz < s.pending.length + size → Answered s.pending answer)
    (flushes : full s size) : Answered s.pending answer := by
  rcases near with empty | below
  · exact .inl empty
  · apply answered
    have beyond : s.buf + bufsiz < (s.buf + s.pending.length + size) % 2 ^ 32 := by simpa [full] using flushes
    rw [Nat.mod_eq_of_lt below] at beyond
    omega

/-- After the first `fflush`, if there is one, the bytes fit. -/
theorem made_room (buffered : Buffered s) {size : Nat}
    (near : s.pending = [] ∨ s.buf + s.pending.length + size < 2 ^ 32) :
    (flushIf (full s size) answer s).2.pending.length + min bufsiz size ≤ bufsiz := by
  unfold flushIf
  split
  · rw [flush_pending buffered.dobuf, List.length_nil]
    omega
  · rename_i room
    rcases near with empty | below
    · rw [empty, List.length_nil]
      omega
    · have inside : ¬ s.buf + bufsiz < (s.buf + s.pending.length + size) % 2 ^ 32 := by simpa [full] using room
      rw [Nat.mod_eq_of_lt below] at inside
      change s.pending.length + min bufsiz size ≤ bufsiz
      omega

end

theorem Kept.append {s : Stream} {accepted before : List UInt8} (kept : Kept ⟨s, accepted, before⟩)
    (bytes : List UInt8) : Kept ⟨{ s with pending := s.pending ++ bytes }, accepted ++ bytes, before⟩ := by
  rcases kept with error | eof | same
  · exact .inl error
  · exact .inr (.inl eof)
  · refine .inr (.inr ?_)
    change accepted ++ bytes = before ++ (s.pending ++ bytes)
    rw [← List.append_assoc]
    exact congrArg (· ++ bytes) same

/-- What `_fwrite` takes is in the buffer behind the rest, or was sent. -/
theorem fwrite_sound {w : World} (sound : Sound w) {ptr : List UInt8} {first second : Option Nat}
    (met : Meets w (.fwrite ptr first second)) :
    ∃ next, step w (.fwrite ptr first second) = some next ∧ Sound next := by
  obtain ⟨near, room, newline⟩ := met
  have buffered := sound.buffered
  have valid := buffered.fh
  by_cases nothing : ptr.length = 0
  · refine ⟨w, ?_, sound⟩
    simp [step, fwrite, nothing]
  · have opened : fwrite ptr first second w.stream = fwriteBuffered ptr first second w.stream := by
      simp only [fwrite, if_neg nothing, if_pos valid, if_pos buffered.writable, if_pos buffered.dobuf]
    -- the stream after making room, after the copy, and at the end
    have one : Carries w.stream (flushIf (full w.stream ptr.length) first w.stream).1 _ :=
      flush_if_carries buffered (full_answered near room)
    have fits : (flushIf (full w.stream ptr.length) first w.stream).2.pending.length + min bufsiz ptr.length ≤ bufsiz :=
      made_room buffered near
    simp only [step, opened, fwriteBuffered]
    generalize flushIf (full w.stream ptr.length) first w.stream = cleared at one fits ⊢
    have taken : (ptr.take bufsiz).length = min bufsiz ptr.length := List.length_take ..
    have copied : append cleared.2 (ptr.take bufsiz) =
        some { cleared.2 with pending := cleared.2.pending ++ ptr.take bufsiz } := if_pos (taken ▸ fits)
    have filled : Buffered { cleared.2 with pending := cleared.2.pending ++ ptr.take bufsiz } := by
      refine ⟨one.buffered.fh, one.buffered.writable, one.buffered.dobuf, one.buffered.block, ?_⟩
      change (cleared.2.pending ++ ptr.take bufsiz).length ≤ bufsiz
      rw [List.length_append, taken]
      exact fits
    have two : Carries _ (flushIf ((ptr.take bufsiz).contains 10) second _).1 _ :=
      flush_if_carries filled fun has => .inr (newline (by simpa using has))
    refine ⟨_, by rw [copied]; rfl, two.buffered, ?_⟩
    have same : ptr.take (((ptr.take bufsiz).length : Nat) : Int).toNat = ptr.take bufsiz := by
      rw [Int.toNat_natCast, taken, ← List.take_eq_take_min]
    have kept := ((sound.kept.carries one).append (ptr.take bufsiz)).carries two
    rw [List.append_assoc] at kept
    change Kept ⟨_, w.accepted ++ ptr.take (((ptr.take bufsiz).length : Nat) : Int).toNat, _⟩
    rw [same]
    exact kept

theorem step_sound {w : World} {event : Event} (sound : Sound w) (met : Meets w event) :
    ∃ next, step w event = some next ∧ Sound next := by
  cases event with
  | fwrite ptr first second => exact fwrite_sound sound met
  | fflush answer =>
    have carries := flush_carries sound.buffered met
    exact ⟨_, rfl, carries.buffered, sound.kept.carries carries⟩

/-- `fclose` of a stream that is flushed whole closes it only if there was nothing to flush. -/
theorem close_iff_empty {s : Stream} (fh : 0 ≤ s.fh) (dobuf : s.dobuf) {most : Nat}
    (all : s.pending.length ≤ most) : (fclose (some most) s).1 ↔ s.pending = [] := by
  have whole : min most s.pending.length = s.pending.length := by omega
  unfold fclose fflush
  rw [if_pos fh, if_pos dobuf]
  simp only [written, whole]
  rw [if_neg (by omega)]
  simp

/-- If `write` accepts a byte whenever there are some to send, `_fwrite` never copies past the end of
the buffer and every byte that it took was sent or is in the buffer, in order, unless the stream
says otherwise. And `fclose`, when `write` accepts everything, closes the descriptor exactly if the
buffer is empty. -/
theorem output_is_kept (fh : Int) (valid : 0 ≤ fh) (buf : Nat) (block : buf + bufsiz < 2 ^ 32)
    (events : List Event) (met : Along step Meets (start (createStream fh true buf)) events) :
    ((∃ last, run step (start (createStream fh true buf)) events = some last) ∧
      Throughout step Kept (start (createStream fh true buf)) events) ∧
    ∀ s : Stream, 0 ≤ s.fh → s.dobuf → ∀ most, s.pending.length ≤ most →
      ((fclose (some most) s).1 ↔ s.pending = []) := by
  have fresh : Sound (start (createStream fh true buf)) :=
    ⟨⟨valid, rfl, rfl, block, Nat.zero_le _⟩, .inr (.inr rfl)⟩
  have goes : ∀ w event, Sound w → Meets w event → ∃ next, step w event = some next ∧ Sound next :=
    fun w event sound met => step_sound sound met
  exact ⟨guarded_run goes (fun w sound => sound.kept) fresh met,
    fun s fh dobuf most all => close_iff_empty fh dobuf all⟩

/-- A line that is sent at once, and a byte that stays in the buffer. -/
theorem line_is_kept :
    ((∃ last, run step (start (createStream 1 true 4096)) [.fwrite [72, 105, 10] none (some 3), .fwrite [72] none none,
      .fflush (some 5)] = some last) ∧
    Throughout step Kept (start (createStream 1 true 4096)) [.fwrite [72, 105, 10] none (some 3),
      .fwrite [72] none none, .fflush (some 5)]) ∧
    ∀ s : Stream, 0 ≤ s.fh → s.dobuf → ∀ most, s.pending.length ≤ most →
      ((fclose (some most) s).1 ↔ s.pending = []) :=
  output_is_kept 1 (by decide) 4096 (by decide) _ (by decide)

/-- A byte is gone after a failed `write`, and no flag says so. And a stream with one byte stays open,
although `write` accepts it. -/
theorem failed_write_loses_byte :
    (∃ w, run step (start (createStream 1 true 4096)) [.fwrite [72] none none, .fflush none] = some w ∧
      w.accepted = [72] ∧ w.sent = [] ∧ w.stream.pending = [] ∧ ¬ Kept w) ∧
    fclose (some 1) { createStream 1 true 4096 with pending := [72] } = (false, [72]) := by
  refine ⟨⟨_, rfl, rfl, rfl, rfl, ?_⟩, rfl⟩
  decide

end MeinOS.Stdio
