import MeinOS.Lib.Ring
import MeinOS.Lib.Runs

/-! The ring buffer of `apps/lib/libmeinos/ringbuf.c`. `ringbuf_read` takes the bytes that wait.
`ringbuf_write` computes the free space of an empty ring wherever the ring does not wrap, gives
away the cell that tells a full ring from an empty one, and decides by the read position whether
the bytes have to be cut in two. -/
namespace MeinOS.Ringbuf
open Lib.Copy Lib.Ring Lib.Runs

/-- `ringbuf_t`. -/
structure RingbufT (α : Type) where
  buf : List α
  size : Nat
  rpos : Nat
  wpos : Nat
  deriving DecidableEq

variable {α : Type}

/-- `ringbuf_create`, with what `malloc` finds in the block. -/
def ringbufCreate (block : List α) : RingbufT α := ⟨block, block.length, 0, 0⟩

/-- The difference of two values of type `size_t`. -/
def minus (a b : Nat) : Nat := (a + 2 ^ 32 - b) % 2 ^ 32

/-- How much `ringbuf_read` can read. -/
def readable (r : RingbufT α) : Nat := if r.rpos ≤ r.wpos then r.wpos - r.rpos else r.wpos + r.size - r.rpos

/-- The copies of `ringbuf_read`. -/
def copyOut (r : RingbufT α) (dst : List α) (n : Nat) : Option (List α) :=
  if (r.rpos + n) % 2 ^ 32 < r.size then memcpy dst 0 r.buf r.rpos n
  else (memcpy dst 0 r.buf r.rpos (r.size - r.rpos)).bind fun dst =>
    memcpy dst (r.size - r.rpos) r.buf 0 (minus n (r.size - r.rpos))

def readOut (r : RingbufT α) (dst : List α) (n : Nat) : Option (Nat × List α × RingbufT α) :=
  if n = 0 then some (0, dst, r)
  else (copyOut r dst n).map fun dst => (n, dst, { r with rpos := (r.rpos + n) % 2 ^ 32 % r.size })

/-- `ringbuf_read` into a buffer of the given size: how much was read, the buffer and the ring. -/
def ringbufRead (r : RingbufT α) (dst : List α) : Option (Nat × List α × RingbufT α) :=
  readOut r dst (min dst.length (readable r))

/-- How much `ringbuf_write` would write. -/
def writable (r : RingbufT α) : Nat := if r.wpos < r.rpos then r.rpos - r.wpos else r.rpos + r.size - r.rpos

/-- The copies of `ringbuf_write`. -/
def copyIn (r : RingbufT α) (src : List α) (n : Nat) : Option (List α) :=
  if (r.rpos + n) % 2 ^ 32 < r.size then memcpy r.buf r.wpos src 0 n
  else (memcpy r.buf r.wpos src 0 (r.size - r.wpos)).bind fun buf =>
    memcpy buf 0 src (r.size - r.wpos) (minus n (r.size - r.wpos))

def writeIn (r : RingbufT α) (src : List α) (n : Nat) : Option (Nat × RingbufT α) :=
  if n = 0 then some (0, r)
  else (copyIn r src n).map fun buf => (n, { r with buf := buf, wpos := (r.wpos + n) % 2 ^ 32 % r.size })

/-- `ringbuf_write` of a buffer: how much was written and the ring. -/
def ringbufWrite (r : RingbufT α) (src : List α) : Option (Nat × RingbufT α) :=
  writeIn r src (min src.length (writable r))

/-- A ring with all bytes that were accepted and all that were read. -/
structure World (α : Type) where
  ring : RingbufT α
  accepted : List α
  taken : List α
  deriving DecidableEq

inductive Event (α : Type) where
  | read (dst : List α)
  | write (src : List α)
  deriving DecidableEq

/-- A call, which is none if it copies outside of a buffer. -/
def step (w : World α) : Event α → Option (World α)
  | .read dst => (ringbufRead w.ring dst).map fun (n, dst, ring) =>
    { w with ring := ring, taken := w.taken ++ dst.take n }
  | .write src => (ringbufWrite w.ring src).map fun (n, ring) =>
    { w with ring := ring, accepted := w.accepted ++ src.take n }

def start (block : List α) : World α := ⟨ringbufCreate block, [], []⟩

/-- The bytes that were read and the ones that wait in the ring are the accepted ones, in order:
none was overwritten. -/
def Queued (w : World α) : Prop := w.taken ++ unread w.ring.buf w.ring.rpos w.ring.wpos = w.accepted

/-- The bytes leave one cell free, and reach the end of the buffer from the read position
exactly if they do so from the write position. -/
def Meets (w : World α) : Event α → Prop
  | .read _ => True
  | .write src => used w.ring.size w.ring.rpos w.ring.wpos + src.length < w.ring.size ∧
    (w.ring.rpos + src.length < w.ring.size ∧ w.ring.wpos + src.length ≤ w.ring.size ∨
      w.ring.size ≤ w.ring.rpos + src.length ∧ w.ring.size ≤ w.ring.wpos + src.length)

instance (w : World α) : (event : Event α) → Decidable (Meets w event)
  | .read _ => isTrue trivial
  | .write _ => inferInstanceAs (Decidable (_ ∧ _))

/-- A ring that is not larger than half of the address space, with its positions inside. -/
structure Sized (r : RingbufT α) : Prop where
  length : r.buf.length = r.size
  small : r.size ≤ 2 ^ 31
  read : r.rpos < r.size
  write : r.wpos < r.size

theorem minus_le {a b : Nat} (le : b ≤ a) (small : a < 2 ^ 32) : minus a b = a - b := by
  unfold minus
  omega

section
variable {r : RingbufT α} (sized : Sized r)
include sized

/-- A position and a distance in a ring have a sum that fits. -/
theorem Sized.sum {pos n : Nat} (inside : pos < r.size) (near : n ≤ r.size) :
    (pos + n) % 2 ^ 32 = pos + n := by
  have := sized.small
  exact Nat.mod_eq_of_lt (by omega)

/-- The copies of `ringbuf_read` bring the front of what waits, whether it is cut or not. -/
theorem copy_out_spec {dst : List α} {n : Nat} (near : n ≤ r.size) (fits : n ≤ dst.length) :
    ∃ dst', copyOut r dst n = some dst' ∧ dst'.take n = (r.buf.rotate r.rpos).take n := by
  have small := sized.small
  have read := sized.read
  unfold copyOut
  rw [sized.sum read near]
  rw [← sized.length] at small read near ⊢
  split
  · exact copy_out_whole (by omega) fits
  · rw [minus_le (by omega) (by omega)]
    have all : r.buf.length - r.rpos + (n - (r.buf.length - r.rpos)) = n := by omega
    have copied := copy_out_parts (m := n - (r.buf.length - r.rpos)) read.le (by omega) (all.trans_le fits)
    rw [all] at copied
    exact copied

/-- Reading takes the front of what waits, as much as there is room for. -/
theorem read_spec (dst : List α) :
    ∃ n dst' r', ringbufRead r dst = some (n, dst', r') ∧ Sized r' ∧
      unread r.buf r.rpos r.wpos = dst'.take n ++ unread r'.buf r'.rpos r'.wpos := by
  have enough : min dst.length (readable r) ≤ used r.size r.rpos r.wpos := Nat.min_le_right ..
  have fits : min dst.length (readable r) ≤ dst.length := Nat.min_le_left ..
  unfold ringbufRead
  generalize min dst.length (readable r) = n at enough fits ⊢
  have near := enough.trans (used_lt sized.read sized.write).le
  unfold readOut
  split
  · exact ⟨0, dst, r, rfl, sized, rfl⟩
  · obtain ⟨dst', copied, front⟩ := copy_out_spec sized near fits
    refine ⟨n, dst', { r with rpos := (r.rpos + n) % r.size }, ?_, ?_, ?_⟩
    · rw [copied, sized.sum sized.read near]
      rfl
    · exact ⟨sized.length, sized.small, Nat.mod_lt _ (Nat.zero_lt_of_lt sized.read), sized.write⟩
    · have length := sized.length
      rw [front, ← length]
      apply unread_read
      · exact length ▸ sized.read
      · exact length ▸ sized.write
      · exact length ▸ enough

/-- The copies of `ringbuf_write` put the bytes at the write position, if both positions are as
far from the end as the bytes need. -/
theorem copy_in_spec {src : List α} (near : src.length ≤ r.size)
    (room : used r.size r.rpos r.wpos + src.length < r.size)
    (alike : r.rpos + src.length < r.size ∧ r.wpos + src.length ≤ r.size ∨
      r.size ≤ r.rpos + src.length ∧ r.size ≤ r.wpos + src.length) :
    ∃ buf', copyIn r src src.length = some buf' ∧ Written r.buf r.wpos src buf' := by
  have small := sized.small
  have write := sized.write
  unfold copyIn
  rw [sized.sum sized.read near]
  rw [← sized.length] at small write near room alike ⊢
  rcases alike with ⟨below, inside⟩ | ⟨beyond, reaches⟩
  · rw [if_pos below]
    have copied := copy_in_whole inside (le_refl src.length)
    rw [List.take_length] at copied
    exact copied
  · rw [if_neg (by omega), minus_le (by omega) (by omega)]
    have all : r.buf.length - r.wpos + (src.length - (r.buf.length - r.wpos)) = src.length := by omega
    have behind : src.length - (r.buf.length - r.wpos) ≤ r.wpos := by
      unfold used at room
      split at room <;> omega
    have copied := copy_in_parts write.le behind all.le
    rw [all, List.take_length] at copied
    exact copied

/-- Writing adds the bytes behind the ones that wait. -/
theorem write_spec {src : List α} (room : used r.size r.rpos r.wpos + src.length < r.size)
    (alike : r.rpos + src.length < r.size ∧ r.wpos + src.length ≤ r.size ∨
      r.size ≤ r.rpos + src.length ∧ r.size ≤ r.wpos + src.length) :
    ∃ r', ringbufWrite r src = some (src.length, r') ∧ Sized r' ∧
      unread r'.buf r'.rpos r'.wpos = unread r.buf r.rpos r.wpos ++ src := by
  have near : src.length ≤ r.size := by omega
  have all : min src.length (writable r) = src.length := by
    have := sized.read
    unfold writable
    unfold used at room
    split at room <;> split <;> omega
  unfold ringbufWrite writeIn
  rw [all]
  split
  · rename_i empty
    rw [List.length_eq_zero_iff.mp empty]
    exact ⟨r, rfl, sized, (List.append_nil _).symm⟩
  · obtain ⟨buf', copied, written⟩ := copy_in_spec sized near room alike
    refine ⟨{ r with buf := buf', wpos := (r.wpos + src.length) % r.size }, ?_, ?_, ?_⟩
    · rw [copied, sized.sum sized.write near]
      rfl
    · exact ⟨written.1.trans sized.length, sized.small, sized.read, Nat.mod_lt _ (Nat.zero_lt_of_lt sized.read)⟩
    · have length := sized.length
      have waits := unread_written written (length ▸ sized.read) (length ▸ sized.write)
        (by rw [length]; omega) le_rfl (length ▸ room)
      rw [List.take_length, length] at waits
      exact waits

end

/-- What the calls keep. -/
structure Fifo (w : World α) : Prop where
  sized : Sized w.ring
  queued : Queued w

theorem step_fifo {w : World α} {event : Event α} (fifo : Fifo w) (met : Meets w event) :
    ∃ next, step w event = some next ∧ Fifo next := by
  have queued := fifo.queued
  unfold Queued at queued
  cases event with
  | read dst =>
    obtain ⟨n, dst', r', ran, sized, split⟩ := read_spec fifo.sized dst
    refine ⟨⟨r', w.accepted, w.taken ++ dst'.take n⟩, by simp only [step, ran, Option.map_some], sized, ?_⟩
    rw [Queued, List.append_assoc, ← split, queued]
  | write src =>
    obtain ⟨r', ran, sized, added⟩ := write_spec fifo.sized met.1 met.2
    refine ⟨⟨r', w.accepted ++ src, w.taken⟩, ?_, sized, ?_⟩
    · simp only [step, ran, Option.map_some, List.take_length]
    · rw [Queued, added, ← List.append_assoc, queued]

/-- In a ring of at most half of the address space, writes that leave a cell free and that are cut
where they should be never copy outside of a buffer, and the bytes come out in order and none is
lost. -/
theorem ring_is_fifo (block : List α) (positive : 1 ≤ block.length) (small : block.length ≤ 2 ^ 31)
    (events : List (Event α)) (met : Along step Meets (start block) events) :
    (∃ last, run step (start block) events = some last) ∧
      Throughout step (fun w => Queued w ∧ w.taken <+: w.accepted) (start block) events := by
  have fresh : Fifo (start block) := by
    refine ⟨⟨rfl, small, positive, positive⟩, ?_⟩
    simp [Queued, start, ringbufCreate, unread, used]
  have good : ∀ w : World α, Fifo w → Queued w ∧ w.taken <+: w.accepted :=
    fun w fifo => ⟨fifo.queued, ⟨_, fifo.queued⟩⟩
  have goes : ∀ (w : World α) event, Fifo w → Meets w event → ∃ next, step w event = some next ∧ Fifo next :=
    fun w event fifo met => step_fifo fifo met
  exact guarded_run goes good fresh met

/-- Writes and reads that go around a ring of four cells. -/
theorem ring_of_four_is_fifo :
    (∃ last, run step (start [(0 : UInt8), 0, 0, 0]) [.write [1, 2], .read [0], .write [3, 4], .read [0, 0, 0, 0],
      .write [5, 6, 7]] = some last) ∧
    Throughout step (fun w => Queued w ∧ w.taken <+: w.accepted) (start [(0 : UInt8), 0, 0, 0])
      [.write [1, 2], .read [0], .write [3, 4], .read [0, 0, 0, 0], .write [5, 6, 7]] :=
  ring_is_fifo [0, 0, 0, 0] (by decide) (by decide) _ (by decide)

/-- Four bytes fill a ring of four cells, which is empty then, and the next write takes their
place. In a ring of eight cells a write near the end goes past it. -/
theorem ring_loses_and_overruns :
    (∃ w, run step (start [(0 : UInt8), 0, 0, 0]) [.write [1, 2, 3, 4], .write [5], .read [0, 0, 0, 0]] = some w ∧
      w.accepted = [1, 2, 3, 4, 5] ∧ w.taken = [5] ∧ ¬ w.taken <+: w.accepted) ∧
    run step (start [(0 : UInt8), 0, 0, 0, 0, 0, 0, 0])
      [.write [1, 2, 3, 4, 5, 6, 7], .read [0, 0], .write [8, 9]] = none := by
  refine ⟨⟨_, rfl, rfl, rfl, ?_⟩, rfl⟩
  decide

end MeinOS.Ringbuf
