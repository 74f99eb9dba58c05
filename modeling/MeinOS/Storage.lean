import MeinOS.Lib.Copy
import MeinOS.Lib.Runs

/-! Block devices as `apps/lib/libcdi/storage.c` offers them: reads and writes of any bytes go
through a buffer of one block, over a driver that reads and writes blocks exactly.

Both calls cut their bytes into blocks, but count the whole length again for every block and place
each one a full block behind the one before. `cdi_storage_write` copies in the same direction as
`cdi_storage_read`, so that it never stores anything; it only marks the buffer, which goes back
to the block whose number is the one it came from, divided by the block size once more. -/
namespace MeinOS.Storage
open Lib.Copy Lib.Runs

/-- `struct cdi_storage_device` and the contents of the device. `written` has for every buffer that
was written back the block it came from and the block it went to. -/
structure Device (α : Type) where
  blockSize : Nat
  disk : List α
  buffer : List α
  curblock : Nat
  loaded : Bool
  dirty : Bool
  written : List (Nat × Nat)
  deriving DecidableEq

variable {α : Type}

/-- `write_blocks` for the buffer, as `cdi_storage_swapbuffer` calls it. -/
def writeBack (d : Device α) : Device α :=
  if d.loaded ∧ d.dirty then
    { d with
      disk := splice d.disk (d.curblock / d.blockSize * d.blockSize) d.buffer
      written := (d.curblock, d.curblock / d.blockSize) :: d.written }
  else d

/-- `read_blocks` into the buffer. -/
def load (d : Device α) (block : Nat) : Device α :=
  { d with
    buffer := slice d.disk (block * d.blockSize) d.blockSize
    dirty := false
    loaded := true
    curblock := block }

/-- `cdi_storage_swapbuffer`. -/
def swapbuffer (d : Device α) (newpos : Nat) : Device α :=
  if d.curblock ≠ newpos / d.blockSize ∨ d.loaded = false then load (writeBack d) (newpos / d.blockSize) else d

/-- One round of the loops: the block comes into the buffer and a part of it into the one of the
caller, and `cdi_storage_write` marks it. -/
def round (marks : Bool) (count i offset blockpos : Nat) (d : Device α) (buffer : List α) :
    Option (Device α × List α) :=
  (memcpy buffer (i * d.blockSize) (swapbuffer d blockpos).buffer offset (min (d.blockSize - offset) count)).map
    fun buffer => ({ swapbuffer d blockpos with dirty := (swapbuffer d blockpos).dirty || marks }, buffer)

/-- The loops, with so many blocks left. -/
def transfer (marks : Bool) (count : Nat) : Nat → Nat → Nat → Nat → Device α → List α → Option (Device α × List α)
  | 0, _, _, _, d, buffer => some (d, buffer)
  | blocks + 1, i, offset, blockpos, d, buffer => (round marks count i offset blockpos d buffer).bind
    fun (d, buffer) => transfer marks count blocks (i + 1) 0 (blockpos + d.blockSize) d buffer

/-- What the two calls have in common: the device afterwards and the buffer of the caller, whose
size is `count`. -/
def access (marks : Bool) (d : Device α) (buffer : List α) (pos : Nat) : Option (Device α × List α) :=
  transfer marks buffer.length ((buffer.length + pos % d.blockSize - 1) / d.blockSize + 1) 0
    (pos % d.blockSize) (pos - pos % d.blockSize) d buffer

/-- `cdi_storage_read`. -/
def cdiStorageRead (d : Device α) (buffer : List α) (pos : Nat) : Option (Device α × List α) :=
  access false d buffer pos

/-- `cdi_storage_write`. -/
def cdiStorageWrite (d : Device α) (buffer : List α) (pos : Nat) : Option (Device α × List α) :=
  access true d buffer pos

/-- A device beside the bytes it stands for. `reads` has what was read and what should have been. -/
structure World (α : Type) where
  device : Device α
  array : List α
  reads : List (List α × List α)
  deriving DecidableEq

inductive Event (α : Type) where
  | read (pos : Nat) (buffer : List α)
  | write (pos : Nat) (buffer : List α)
  deriving DecidableEq

/-- A call, which is none if it copies outside of a buffer. -/
def step (w : World α) : Event α → Option (World α)
  | .read pos buffer => (cdiStorageRead w.device buffer pos).map fun (device, got) =>
    { w with device := device, reads := (got, slice w.array pos buffer.length) :: w.reads }
  | .write pos buffer => (cdiStorageWrite w.device buffer pos).map fun (device, _) =>
    { w with device := device, array := splice w.array pos buffer }

/-- A device as `cdi_storage_driver_register` leaves it. -/
def start (blockSize : Nat) (disk : List α) : World α := ⟨⟨blockSize, disk, [], 0, false, false, []⟩, disk, []⟩

/-- Every read gave the bytes it should have, and every buffer went back to its block. -/
structure Exact (w : World α) : Prop where
  reads : ∀ read ∈ w.reads, read.1 = read.2
  written : ∀ block ∈ w.device.written, block.1 = block.2

/-- Bytes inside the device that lie in one block or are whole blocks. -/
def Shaped (w : World α) (pos count : Nat) : Prop :=
  1 ≤ count ∧ pos + count ≤ w.array.length ∧
    (pos % w.device.blockSize + count ≤ w.device.blockSize ∨
      pos % w.device.blockSize = 0 ∧ w.device.blockSize ∣ count)

instance (w : World α) (pos count : Nat) : Decidable (Shaped w pos count) :=
  inferInstanceAs (Decidable (_ ∧ _ ∧ (_ ∨ _ ∧ _)))

/-- The bytes are in one block or whole blocks; and what is written is what the device has there
already, and lies in the first block unless blocks are single bytes. -/
def Meets (w : World α) : Event α → Prop
  | .read pos buffer => Shaped w pos buffer.length
  | .write pos buffer => Shaped w pos buffer.length ∧ buffer = slice w.array pos buffer.length ∧
    (w.device.blockSize = 1 ∨ pos + buffer.length ≤ w.device.blockSize)

instance [DecidableEq α] (w : World α) : (event : Event α) → Decidable (Meets w event)
  | .read pos buffer => inferInstanceAs (Decidable (Shaped w pos buffer.length))
  | .write pos buffer => inferInstanceAs (Decidable (Shaped w pos buffer.length ∧ _ ∧ (_ ∨ _)))

/-- The device has the bytes, the buffer has its block of them, and if it is marked it will go back
to that block. -/
structure Clean (d : Device α) (array : List α) : Prop where
  positive : 1 ≤ d.blockSize
  disk : d.disk = array
  whole : d.blockSize ∣ array.length
  buffer : d.loaded → (d.curblock + 1) * d.blockSize ≤ array.length ∧
    d.buffer = slice array (d.curblock * d.blockSize) d.blockSize
  dirty : d.dirty → d.curblock / d.blockSize = d.curblock
  written : ∀ block ∈ d.written, block.1 = block.2

theorem write_back_clean {d : Device α} (clean : Clean d array) : Clean (writeBack d) array := by
  unfold writeBack
  split
  · rename_i marked
    obtain ⟨inside, buffer⟩ := clean.buffer marked.1
    have home := clean.dirty marked.2
    refine ⟨clean.positive, ?_, clean.whole, clean.buffer, clean.dirty, ?_⟩
    · rw [Nat.add_mul, Nat.one_mul] at inside
      change splice d.disk (d.curblock / d.blockSize * d.blockSize) d.buffer = array
      rw [home, clean.disk, buffer, splice_slice inside]
    · exact List.forall_mem_cons.mpr ⟨home.symm, clean.written⟩
  · exact clean

@[simp] theorem write_back_block_size (d : Device α) : (writeBack d).blockSize = d.blockSize := by
  unfold writeBack
  split <;> rfl

@[simp] theorem swap_block_size (d : Device α) (newpos : Nat) : (swapbuffer d newpos).blockSize = d.blockSize := by
  unfold swapbuffer
  split
  · exact write_back_block_size d
  · rfl

section
variable {d : Device α} {array : List α} (clean : Clean d array)
include clean

/-- After `cdi_storage_swapbuffer` the buffer has the block of the position. -/
theorem swap_clean {block : Nat} (inside : (block + 1) * d.blockSize ≤ array.length) :
    Clean (swapbuffer d (block * d.blockSize)) array ∧ (swapbuffer d (block * d.blockSize)).curblock = block ∧
      (swapbuffer d (block * d.blockSize)).buffer = slice array (block * d.blockSize) d.blockSize := by
  have number : block * d.blockSize / d.blockSize = block := Nat.mul_div_cancel _ clean.positive
  unfold swapbuffer
  rw [number]
  split
  · have back := write_back_clean clean
    have bytes : (load (writeBack d) block).buffer = slice array (block * d.blockSize) d.blockSize := by
      simp only [load, write_back_block_size, back.disk]
    refine ⟨⟨back.positive, back.disk, back.whole, fun _ => ⟨?_, ?_⟩, fun marked => ?_, back.written⟩, rfl, bytes⟩
    · simpa only [load, write_back_block_size] using inside
    · simpa only [load, write_back_block_size] using bytes
    · cases marked
  · rename_i same
    push Not at same
    obtain ⟨rfl, loaded⟩ := same
    exact ⟨clean, rfl, (clean.buffer (by simpa using loaded)).2⟩

/-- One round copies its part of the block. -/
theorem round_clean (marks : Bool) (count i offset block : Nat) (buffer : List α)
    (inside : (block + 1) * d.blockSize ≤ array.length) (start : offset ≤ d.blockSize)
    (room : i * d.blockSize + min (d.blockSize - offset) count ≤ buffer.length)
    (home : marks → block / d.blockSize = block) :
    ∃ next, round marks count i offset (block * d.blockSize) d buffer = some (next, splice buffer (i * d.blockSize)
        (slice array (block * d.blockSize + offset) (min (d.blockSize - offset) count))) ∧
      Clean next array ∧ next.blockSize = d.blockSize := by
  obtain ⟨swapped, current, bytes⟩ := swap_clean clean inside
  have length : (swapbuffer d (block * d.blockSize)).buffer.length = d.blockSize := by
    rw [bytes, slice_length]
    rw [Nat.add_mul, Nat.one_mul] at inside
    exact inside
  have part : offset + min (d.blockSize - offset) count ≤ d.blockSize := by omega
  refine ⟨{ swapbuffer d (block * d.blockSize) with
    dirty := (swapbuffer d (block * d.blockSize)).dirty || marks }, ?_, ?_, swap_block_size d _⟩
  · rw [round, memcpy_inside (part.trans length.ge) room, bytes, slice_slice part]
    rfl
  · refine ⟨swapped.positive, swapped.disk, swapped.whole, swapped.buffer, fun marked => ?_, swapped.written⟩
    rcases (Bool.or_eq_true _ _).mp marked with before | now
    · exact swapped.dirty before
    · change (swapbuffer d _).curblock / (swapbuffer d _).blockSize = (swapbuffer d _).curblock
      rw [current, swap_block_size]
      exact home now

/-- Whole blocks take a round each, and the parts come one behind the other. -/
theorem transfer_blocks (marks : Bool) {bs first blocks total i : Nat} {buffer : List α}
    (size : d.blockSize = bs) (sum : i + blocks = total) (some : 1 ≤ total)
    (inside : (first + total) * bs ≤ array.length) (length : buffer.length = total * bs)
    (before : buffer.take (i * bs) = slice array (first * bs) (i * bs))
    (home : marks → ∀ block < first + total, block / bs = block) :
    ∃ next, transfer marks (total * bs) blocks i 0 ((first + i) * bs) d buffer =
        .some (next, slice array (first * bs) (total * bs)) ∧ Clean next array ∧ next.blockSize = bs := by
  -- induction on the blocks that are left; the ones before are in their places
  induction blocks generalizing i d buffer with
  | zero =>
    refine ⟨d, ?_, clean, size⟩
    rw [Nat.add_zero] at sum
    rw [sum, ← length, List.take_length] at before
    rw [transfer, before, length]
  | succ blocks ih =>
    have wide : min (bs - 0) (total * bs) = bs := by
      have := Nat.le_mul_of_pos_left bs some
      omega
    have block : (first + i + 1) * bs ≤ array.length := (Nat.mul_le_mul_right _ (by omega)).trans inside
    have room : (i + 1) * bs ≤ buffer.length := (Nat.mul_le_mul_right _ (by omega)).trans length.ge
    have ran := round_clean clean marks (total * bs) i 0 (first + i) buffer
    simp only [size, wide, Nat.add_zero] at ran
    rw [Nat.add_mul, Nat.one_mul] at room
    obtain ⟨d', ran, kept, same⟩ := ran block (Nat.zero_le _) room fun marked => home marked _ (by omega)
    have copied : (slice array ((first + i) * bs) bs).length = bs := by
      rw [Nat.add_mul (first + i), Nat.one_mul] at block
      exact slice_length block
    have taken := splice_take (show i * bs ≤ buffer.length by omega) (slice array ((first + i) * bs) bs)
    rw [copied, before, Nat.add_mul first, slice_append] at taken
    have kept_length : (splice buffer (i * bs) (slice array ((first + i) * bs) bs)).length = total * bs := by
      rw [splice_length (by rw [copied]; exact room), length]
    have rest := ih kept same (show i + 1 + blocks = total by omega) kept_length
    rw [Nat.add_mul i, Nat.one_mul, ← Nat.add_assoc first, Nat.add_mul (first + i), Nat.one_mul] at rest
    simp only [transfer, ran, Option.bind_some, same]
    exact rest (by rw [Nat.add_mul first]; exact taken)

variable (marks : Bool) {buffer : List α} {pos : Nat} (some : 1 ≤ buffer.length)
  (inside : pos + buffer.length ≤ array.length)
  (home : marks → ∀ block, block * d.blockSize < pos + buffer.length → block / d.blockSize = block)
include some inside home

/-- Bytes in one block take one round. -/
theorem access_one (one : pos % d.blockSize + buffer.length ≤ d.blockSize) :
    ∃ next, access marks d buffer pos = .some (next, slice array pos buffer.length) ∧ Clean next array := by
  have positive := clean.positive
  have split : pos / d.blockSize * d.blockSize + pos % d.blockSize = pos := Nat.div_add_mod' ..
  have blockpos : pos - pos % d.blockSize = pos / d.blockSize * d.blockSize := by omega
  have rounds : (buffer.length + pos % d.blockSize - 1) / d.blockSize = 0 := Nat.div_eq_of_lt (by omega)
  have all : min (d.blockSize - pos % d.blockSize) buffer.length = buffer.length := by omega
  have block : (pos / d.blockSize + 1) * d.blockSize ≤ array.length := by
    obtain ⟨blocks, total⟩ := clean.whole
    have below : pos / d.blockSize < blocks := by
      rw [Nat.div_lt_iff_lt_mul positive, Nat.mul_comm]
      omega
    rw [total, Nat.mul_comm d.blockSize]
    exact Nat.mul_le_mul_right _ below
  obtain ⟨next, ran, kept, -⟩ := round_clean clean marks buffer.length 0 (pos % d.blockSize)
    (pos / d.blockSize) buffer block (Nat.mod_lt pos positive).le (by omega) fun marked => home marked _ (by omega)
  refine ⟨next, ?_, kept⟩
  have bytes : splice buffer 0 (slice array pos buffer.length) = slice array pos buffer.length := by
    have front := splice_front buffer (slice array pos buffer.length)
    rw [slice_length inside, List.take_of_length_le] at front
    · exact front
    · rw [splice_length (by rw [slice_length inside]; omega)]
  rw [all, Nat.zero_mul, split, bytes] at ran
  rw [access, rounds, blockpos, transfer, ran]
  rfl

theorem access_blocks (aligned : pos % d.blockSize = 0) (whole : d.blockSize ∣ buffer.length) :
    ∃ next, access marks d buffer pos = .some (next, slice array pos buffer.length) ∧ Clean next array := by
  have positive := clean.positive
  obtain ⟨total, length⟩ := whole
  obtain ⟨first, rfl⟩ := Nat.dvd_of_mod_eq_zero aligned
  rw [Nat.mul_comm] at length
  rw [Nat.mul_comm d.blockSize, length, ← Nat.add_mul] at inside home
  have counted : 1 ≤ total := by
    by_contra none
    rw [show total = 0 by omega] at length
    omega
  have before : (total - 1) * d.blockSize + d.blockSize = total * d.blockSize := by
    rw [← Nat.succ_mul, Nat.succ_eq_add_one, Nat.sub_add_cancel counted]
  have rounds : (total * d.blockSize + 0 - 1) / d.blockSize + 1 = total := by
    rw [Nat.div_eq_of_lt_le (k := total - 1) (by omega) (by rw [Nat.sub_add_cancel counted]; omega)]
    omega
  obtain ⟨next, ran, kept, -⟩ := transfer_blocks clean marks (i := 0) rfl (Nat.zero_add total) counted inside length
    (by simp [slice]) fun marked block below => home marked block (Nat.mul_lt_mul_of_pos_right below positive)
  refine ⟨next, ?_, kept⟩
  rw [access, aligned, Nat.mul_comm d.blockSize, Nat.sub_zero, length, rounds]
  exact ran

/-- Reads and writes of bytes with the right shape go as they should, as far as the device and the
caller's buffer are concerned: the buffer has the bytes of the device afterwards. -/
theorem access_clean (shape : pos % d.blockSize + buffer.length ≤ d.blockSize ∨
      pos % d.blockSize = 0 ∧ d.blockSize ∣ buffer.length) :
    ∃ next, access marks d buffer pos = .some (next, slice array pos buffer.length) ∧ Clean next array := by
  rcases shape with one | ⟨aligned, whole⟩
  · exact access_one clean marks some inside home one
  · exact access_blocks clean marks some inside home aligned whole

end

/-- Blocks of one byte, and the first block, go back to where they came from. -/
theorem block_home {bs stop block : Nat} (placed : bs = 1 ∨ stop ≤ bs) (below : block * bs < stop) :
    block / bs = block := by
  rcases placed with rfl | short
  · exact Nat.div_one block
  · have zero : block = 0 := by
      by_contra positive
      have := Nat.le_mul_of_pos_left bs (Nat.pos_of_ne_zero positive)
      omega
    rw [zero, Nat.zero_div]

/-- What the calls keep. -/
structure Faithful (w : World α) : Prop where
  clean : Clean w.device w.array
  reads : ∀ read ∈ w.reads, read.1 = read.2

theorem step_faithful {w : World α} {event : Event α} (faithful : Faithful w) (met : Meets w event) :
    ∃ next, step w event = some next ∧ Faithful next := by
  cases event with
  | read pos buffer =>
    obtain ⟨some, inside, shape⟩ := met
    obtain ⟨next, ran, kept⟩ := access_clean faithful.clean false some inside
      (fun marked => nomatch marked) shape
    refine ⟨⟨next, w.array, (slice w.array pos buffer.length, slice w.array pos buffer.length) :: w.reads⟩,
      ?_, kept, List.forall_mem_cons.mpr ⟨rfl, faithful.reads⟩⟩
    simp only [step, cdiStorageRead, ran, Option.map_some]
  | write pos buffer =>
    obtain ⟨⟨some, inside, shape⟩, same, placed⟩ := met
    obtain ⟨next, ran, kept⟩ := access_clean faithful.clean true some inside
      (fun _ block below => block_home placed below) shape
    refine ⟨⟨next, splice w.array pos buffer, w.reads⟩, ?_, ?_, faithful.reads⟩
    · simp only [step, cdiStorageWrite, ran, Option.map_some]
    · rw [same, splice_slice inside]
      exact kept

/-- On a device of whole blocks, accesses to bytes in one block or to whole blocks never leave a
buffer, reads give the bytes they should and buffers go back to their blocks, if every write
brings what the device has already and is in the first block or the blocks are bytes. -/
theorem device_is_byte_array (blockSize : Nat) (positive : 1 ≤ blockSize) (disk : List α)
    (whole : blockSize ∣ disk.length) (events : List (Event α))
    (met : Along step Meets (start blockSize disk) events) :
    (∃ last, run step (start blockSize disk) events = some last) ∧
      Throughout step Exact (start blockSize disk) events := by
  have fresh : Faithful (start blockSize disk) := by
    refine ⟨⟨positive, rfl, whole, fun loaded => ?_, fun dirty => ?_, ?_⟩, ?_⟩
    · cases loaded
    · cases dirty
    · exact List.forall_mem_nil _
    · exact List.forall_mem_nil _
  have good : ∀ w : World α, Faithful w → Exact w := fun w faithful => ⟨faithful.reads, faithful.clean.written⟩
  have goes : ∀ (w : World α) event, Faithful w → Meets w event → ∃ next, step w event = some next ∧ Faithful next :=
    fun w event faithful met => step_faithful faithful met
  exact guarded_run goes good fresh met

/-- Reads inside of a block and of whole blocks, and a write that changes nothing. -/
theorem two_blocks_are_read :
    (∃ last, run step (start 2 [(1 : UInt8), 2, 3, 4]) [.read 1 [0], .write 0 [1, 2], .read 0 [0, 0, 0, 0],
      .read 3 [0]] = some last) ∧
    Throughout step Exact (start 2 [(1 : UInt8), 2, 3, 4]) [.read 1 [0], .write 0 [1, 2], .read 0 [0, 0, 0, 0],
      .read 3 [0]] :=
  device_is_byte_array 2 (by decide) _ (by decide) _ (by decide)

/-- What is written cannot be read. A marked buffer from the second block goes to the first one,
even if the write changed nothing. And a read across two blocks leaves the buffer of its caller. -/
theorem device_loses_and_overruns :
    (∃ w, run step (start 2 [(1 : UInt8), 2, 3, 4]) [.write 0 [9], .read 0 [0]] = some w ∧
      w.reads = [([1], [9])] ∧ ¬ Exact w) ∧
    (∃ w, run step (start 2 [(1 : UInt8), 2, 3, 4]) [.write 2 [3], .read 0 [0]] = some w ∧
      w.device.written = [(1, 0)] ∧ w.reads = [([3], [1])] ∧ ¬ Exact w) ∧
    run step (start 2 [(1 : UInt8), 2, 3, 4]) [.read 1 [0, 0]] = none := by
  refine ⟨⟨_, rfl, rfl, fun exact => ?_⟩, ⟨_, rfl, rfl, rfl, fun exact => ?_⟩, rfl⟩
  · exact absurd (exact.reads _ List.mem_cons_self) (by decide)
  · exact absurd (exact.reads _ List.mem_cons_self) (by decide)

end MeinOS.Storage
