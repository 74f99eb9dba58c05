import MeinOS.Lib.Ring
import MeinOS.Lib.Runs

/-! The FIFOs of `apps/lib/libcdi/fs.c`. Every handle that is open on a FIFO has a ring of its own,
and `fs_fifo_write` puts the bytes into the ring of every other one.

How much it writes is computed from the ring of the writer, not from the ones it fills, and a full
ring counts as free space as well. Whether a ring has to be cut is decided by comparing its write
position with where the bytes would end if they were read. -/
namespace MeinOS.Fifo
open Lib.Copy Lib.Ring Lib.Runs

/-- `CDI_FS_FIFOBUF_SIZE`, which is also the size of the shared buffers. -/
def fifobufSize : Nat := 4096

/-- The contents of a buffer of this size. -/
abbrev Page (α : Type) := { bytes : List α // bytes.length = fifobufSize }

/-- The part of `struct cdi_fs_file` that a FIFO uses, with the bytes that the others have written
since it was opened and the bytes that it has read. -/
structure Handle (α : Type) where
  id : Nat
  buffer : List α
  posr : Nat
  posw : Nat
  received : List α
  taken : List α
  deriving DecidableEq

variable {α : Type}

/-- How much `fs_fifo_read` can read. -/
def readable (fifo : Handle α) : Nat :=
  if fifo.posr ≤ fifo.posw then fifo.posw - fifo.posr else fifo.posw + fifobufSize - fifo.posr

/-- The copies of `fs_fifo_read`. If it has to make two it brings all that waits. -/
def copyOut (fifo : Handle α) (shmbuf : List α) (size : Nat) : Option (List α) :=
  if fifo.posr < (fifo.posr + size) % fifobufSize then memcpy shmbuf 0 fifo.buffer fifo.posr size
  else (memcpy shmbuf 0 fifo.buffer fifo.posr (fifobufSize - fifo.posr)).bind fun shmbuf =>
    memcpy shmbuf (fifobufSize - fifo.posr) fifo.buffer 0 fifo.posw

def readOut (fifo : Handle α) (shmbuf : List α) (size : Nat) : Option (Handle α) :=
  if size = 0 then some fifo
  else (copyOut fifo shmbuf size).map fun shmbuf =>
    { fifo with posr := (fifo.posr + size) % fifobufSize, taken := fifo.taken ++ shmbuf.take size }

/-- `fs_fifo_read`. -/
def fsFifoRead (fifo : Handle α) (shmbuf : List α) (size : Nat) : Option (Handle α) :=
  readOut fifo shmbuf (min size (readable fifo))

/-- The free space that `fs_fifo_write` computes. It does so once for every other handle, and each
time from the positions of the writer. -/
def writable (fifo : Handle α) : Nat :=
  if fifo.posw < fifo.posr then fifo.posr - fifo.posw else fifo.posr + fifobufSize - fifo.posw

/-- The copies of `fs_fifo_write` into the ring of another handle. -/
def copyIn (dstfifo : Handle α) (shmbuf : List α) (size : Nat) : Option (List α) :=
  if dstfifo.posw < (dstfifo.posr + size) % fifobufSize then memcpy dstfifo.buffer dstfifo.posw shmbuf 0 size
  else (memcpy dstfifo.buffer dstfifo.posw shmbuf 0 (fifobufSize - dstfifo.posw)).bind fun buffer =>
    memcpy buffer 0 shmbuf (fifobufSize - dstfifo.posw) dstfifo.posr

def deliver (shmbuf : List α) (size : Nat) (dstfifo : Handle α) : Option (Handle α) :=
  (copyIn dstfifo shmbuf size).map fun buffer =>
    { dstfifo with
      buffer := buffer
      posw := (dstfifo.posw + size) % fifobufSize
      received := dstfifo.received ++ shmbuf.take size }

/-- The second loop of `fs_fifo_write`. -/
def deliverAll (writer : Nat) (shmbuf : List α) (size : Nat) : List (Handle α) → Option (List (Handle α))
  | [] => some []
  | dstfifo :: list => (if dstfifo.id = writer then some dstfifo else deliver shmbuf size dstfifo).bind
    fun dstfifo => (deliverAll writer shmbuf size list).map (dstfifo :: ·)

/-- `fs_fifo_write`. -/
def fsFifoWrite (fifo : Handle α) (shmbuf : List α) (size : Nat) (list : List (Handle α)) :
    Option (List (Handle α)) :=
  if size = 0 ∨ list.length = 1 then some list
  else deliverAll fifo.id shmbuf (min size (writable fifo)) list

/-- The list with the handle replaced. -/
def replace (fifo : Handle α) (list : List (Handle α)) : List (Handle α) :=
  list.map fun other => if other.id = fifo.id then fifo else other

/-- The handles of a FIFO, which are in one list, and the number of the next one. -/
structure World (α : Type) where
  list : List (Handle α)
  lastFh : Nat
  deriving DecidableEq

/-- The calls. A handle is opened with what `malloc` finds in its block, and the shared buffer of a
handle is as its client left it. -/
inductive Event (α : Type) where
  | openFifo (block : Page α)
  | read (id : Nat) (shmbuf : Page α) (size : Nat)
  | write (id : Nat) (shmbuf : Page α) (size : Nat)
  | close (id : Nat)
  deriving DecidableEq

/-- A call, which is none if it copies outside of a buffer. -/
def step (w : World α) : Event α → Option (World α)
  | .openFifo block => some ⟨⟨w.lastFh, block.1, 0, 0, [], []⟩ :: w.list, w.lastFh + 1⟩
  | .read id shmbuf size => match w.list.find? (·.id = id) with
    | none => some w
    | some fifo => (fsFifoRead fifo shmbuf.1 size).map fun fifo => { w with list := replace fifo w.list }
  | .write id shmbuf size => match w.list.find? (·.id = id) with
    | none => some w
    | some fifo => (fsFifoWrite fifo shmbuf.1 size w.list).map fun list => { w with list := list }
  | .close id => some { w with list := w.list.filter (·.id ≠ id) }

/-- A FIFO that nobody has opened. -/
def start : World α := ⟨[], 0⟩

/-- What a handle has read and what waits for it is what the others have written since it was
opened. -/
def Queued (fifo : Handle α) : Prop :=
  fifo.taken ++ unread fifo.buffer fifo.posr fifo.posw = fifo.received

/-- So many bytes leave a cell of the ring free. If they are copied at once they do not reach past
the end, and if they are cut the ring is not. -/
def Fits (size : Nat) (fifo : Handle α) : Prop :=
  used fifobufSize fifo.posr fifo.posw + size < fifobufSize ∧
    if fifo.posw < (fifo.posr + size) % fifobufSize then fifo.posw + size ≤ fifobufSize
    else fifo.posr ≤ fifo.posw

instance (size : Nat) (fifo : Handle α) : Decidable (Fits size fifo) :=
  inferInstanceAs (Decidable (_ < _ ∧ if _ < _ then _ ≤ _ else _ ≤ _))

/-- What is written fits into the ring of every other handle. -/
def Meets (w : World α) : Event α → Prop
  | .write id _ size => ∀ fifo ∈ w.list.find? (·.id = id), ∀ dstfifo ∈ w.list, dstfifo.id ≠ id →
    Fits (min size (writable fifo)) dstfifo
  | .openFifo _ => True
  | .read .. => True
  | .close _ => True

instance (w : World α) : (event : Event α) → Decidable (Meets w event)
  | .write id _ size =>
    inferInstanceAs (Decidable (∀ fifo ∈ w.list.find? (·.id = id), ∀ dstfifo ∈ w.list, dstfifo.id ≠ id →
      Fits (min size (writable fifo)) dstfifo))
  | .openFifo _ | .read .. | .close _ => isTrue trivial

/-- A ring with its positions inside that has lost nothing. -/
structure Sound (fifo : Handle α) : Prop where
  length : fifo.buffer.length = fifobufSize
  read : fifo.posr < fifobufSize
  write : fifo.posw < fifobufSize
  queued : Queued fifo

theorem open_sound (id : Nat) (block : Page α) : Sound (⟨id, block.1, 0, 0, [], []⟩ : Handle α) where
  length := block.2
  read := show 0 < 4096 by decide
  write := show 0 < 4096 by decide
  queued := by simp [Queued, unread, used]

section
variable {fifo : Handle α} (sound : Sound fifo) (shmbuf : Page α)
include sound shmbuf

/-- The copies of `fs_fifo_read` bring the front of what waits. -/
theorem copy_out_spec {size : Nat} (some : size ≠ 0)
    (enough : size ≤ used fifobufSize fifo.posr fifo.posw) :
    ∃ shmbuf', copyOut fifo shmbuf.1 size = .some shmbuf' ∧
      shmbuf'.take size = (fifo.buffer.rotate fifo.posr).take size := by
  have read := sound.read
  have write := sound.write
  have below := used_lt read write
  have length := shmbuf.2
  unfold copyOut
  rcases mod_cases read (enough.trans below.le) with ⟨inside, moved⟩ | ⟨wraps, moved⟩
  · rw [moved, if_pos (by omega)]
    exact copy_out_whole (by rw [sound.length]; omega) (by omega)
  · rw [moved, if_neg (by omega)]
    -- the ring wraps, and all that waits is copied
    have all : used fifobufSize fifo.posr fifo.posw = fifobufSize - fifo.posr + fifo.posw := by
      unfold used at enough ⊢
      split at enough <;> split <;> omega
    have behind : fifo.posw ≤ fifo.posr := by omega
    have inside : fifo.posr ≤ fifo.buffer.length := by rw [sound.length]; omega
    have room : fifo.buffer.length - fifo.posr + fifo.posw ≤ shmbuf.1.length := by rw [sound.length]; omega
    obtain ⟨shmbuf', copied, front⟩ := copy_out_parts inside behind room
    rw [sound.length] at copied front
    refine ⟨shmbuf', copied, ?_⟩
    have shorter := congrArg (List.take size) front
    rw [← all, List.take_take, List.take_take, Nat.min_eq_left enough] at shorter
    exact shorter

theorem read_sound (size : Nat) :
    ∃ next, fsFifoRead fifo shmbuf.1 size = some next ∧ Sound next := by
  have enough : min size (readable fifo) ≤ used fifobufSize fifo.posr fifo.posw := Nat.min_le_right ..
  unfold fsFifoRead
  generalize min size (readable fifo) = size at enough ⊢
  unfold readOut
  split
  · exact ⟨fifo, rfl, sound⟩
  · rename_i some
    obtain ⟨shmbuf', copied, front⟩ := copy_out_spec sound shmbuf some enough
    refine ⟨{ fifo with posr := (fifo.posr + size) % fifobufSize, taken := fifo.taken ++ shmbuf'.take size },
      by rw [copied]; rfl, sound.length, Nat.mod_lt _ (Nat.zero_lt_of_lt sound.read), sound.write, ?_⟩
    have length := sound.length
    have rest := unread_read (length ▸ sound.read) (length ▸ sound.write) (length ▸ enough)
    have queued := sound.queued
    unfold Queued at queued ⊢
    rw [rest, length, ← List.append_assoc] at queued
    rw [front]
    exact queued

/-- The copies of `fs_fifo_write` put at least the bytes that count behind what waits. -/
theorem copy_in_spec {size : Nat} (fits : Fits size fifo) :
    ∃ buffer m, copyIn fifo shmbuf.1 size = some buffer ∧ size ≤ m ∧
      used fifobufSize fifo.posr fifo.posw + m ≤ fifobufSize ∧
      Written fifo.buffer fifo.posw (shmbuf.1.take m) buffer := by
  have length := shmbuf.2
  have write := sound.write
  obtain ⟨room, placed⟩ := fits
  unfold copyIn
  split at placed
  · rename_i once
    have inside : fifo.posw + size ≤ fifo.buffer.length := by rw [sound.length]; exact placed
    have enough : size ≤ shmbuf.1.length := by omega
    obtain ⟨buffer, copied, written⟩ := copy_in_whole inside enough
    exact ⟨buffer, size, (if_pos once).trans copied, le_rfl, room.le, written⟩
  · rename_i twice
    have all : used fifobufSize fifo.posr fifo.posw = fifo.posw - fifo.posr := if_pos placed
    have inside : fifo.posw ≤ fifo.buffer.length := by rw [sound.length]; exact write.le
    have enough : fifo.buffer.length - fifo.posw + fifo.posr ≤ shmbuf.1.length := by rw [sound.length]; omega
    obtain ⟨buffer, copied, written⟩ := copy_in_parts inside placed enough
    rw [sound.length] at copied written
    exact ⟨buffer, _, (if_neg twice).trans copied, by omega, by omega, written⟩

theorem deliver_sound {size : Nat} (fits : Fits size fifo) :
    ∃ next, deliver shmbuf.1 size fifo = some next ∧ Sound next := by
  obtain ⟨buffer, m, copied, counted, free, written⟩ := copy_in_spec sound shmbuf fits
  have length := sound.length
  have taken : (shmbuf.1.take m).length = m := List.length_take_of_le (by rw [shmbuf.2]; omega)
  have waits := unread_written written (length ▸ sound.read) (length ▸ sound.write)
    (by rw [length, taken]; exact free) (counted.trans taken.ge) (length ▸ fits.1)
  have filled : deliver shmbuf.1 size fifo = some
      { fifo with
        buffer := buffer
        posw := (fifo.posw + size) % fifobufSize
        received := fifo.received ++ shmbuf.1.take size } := by
    rw [deliver, copied]
    rfl
  refine ⟨_, filled, written.1.trans length, sound.read, Nat.mod_lt _ (Nat.zero_lt_of_lt sound.read), ?_⟩
  have queued := sound.queued
  unfold Queued at queued ⊢
  rw [length, List.take_take, Nat.min_eq_left counted] at waits
  simp only
  rw [waits, ← List.append_assoc, queued]

end

/-- The loop of `fs_fifo_write` fills the rings one after the other. -/
theorem deliver_all_sound {writer size : Nat} (shmbuf : Page α) {list : List (Handle α)}
    (sound : ∀ fifo ∈ list, Sound fifo) (fits : ∀ fifo ∈ list, fifo.id ≠ writer → Fits size fifo) :
    ∃ next, deliverAll writer shmbuf.1 size list = some next ∧ ∀ fifo ∈ next, Sound fifo := by
  induction list with
  | nil => exact ⟨[], rfl, List.forall_mem_nil _⟩
  | cons first list ih =>
    obtain ⟨here, others⟩ := List.forall_mem_cons.mp sound
    obtain ⟨now, later⟩ := List.forall_mem_cons.mp fits
    obtain ⟨rest, delivered, kept⟩ := ih others later
    by_cases own : first.id = writer
    · refine ⟨first :: rest, ?_, List.forall_mem_cons.mpr ⟨here, kept⟩⟩
      simp only [deliverAll, if_pos own, delivered, Option.bind_some, Option.map_some]
    · obtain ⟨next, filled, good⟩ := deliver_sound here shmbuf (now own)
      refine ⟨next :: rest, ?_, List.forall_mem_cons.mpr ⟨good, kept⟩⟩
      simp only [deliverAll, if_neg own, filled, delivered, Option.bind_some, Option.map_some]

theorem step_sound {w : World α} {event : Event α} (sound : ∀ fifo ∈ w.list, Sound fifo) (met : Meets w event) :
    ∃ next, step w event = some next ∧ ∀ fifo ∈ next.list, Sound fifo := by
  cases event with
  | openFifo block => exact ⟨_, rfl, List.forall_mem_cons.mpr ⟨open_sound w.lastFh block, sound⟩⟩
  | close id => exact ⟨_, rfl, fun fifo member => sound fifo (List.mem_of_mem_filter member)⟩
  | read id shmbuf size =>
    simp only [step]
    cases found : w.list.find? (·.id = id) with
    | none => exact ⟨w, rfl, sound⟩
    | some fifo =>
      obtain ⟨next, ran, good⟩ := read_sound (sound fifo (List.mem_of_find?_eq_some found)) shmbuf size
      refine ⟨{ w with list := replace next w.list }, by simp only [ran, Option.map_some], ?_⟩
      refine List.forall_mem_map.mpr ?_
      intro other member
      split
      · exact good
      · exact sound other member
  | write id shmbuf size =>
    simp only [step]
    cases found : w.list.find? (·.id = id) with
    | none => exact ⟨w, rfl, sound⟩
    | some fifo =>
      have writer : fifo.id = id := by simpa using List.find?_some found
      simp only [fsFifoWrite]
      split
      · exact ⟨w, rfl, sound⟩
      · have fits := met fifo found
        rw [← writer] at fits
        obtain ⟨next, delivered, kept⟩ := deliver_all_sound shmbuf sound fits
        exact ⟨{ w with list := next }, by simp only [delivered, Option.map_some], kept⟩

/-- If all that is written fits into the rings of the others, no call copies outside of a buffer
and every handle reads what the others have written since it was opened, in order. -/
theorem fifo_broadcasts (events : List (Event α)) (met : Along step Meets start events) :
    (∃ last, run step start events = some last) ∧
      Throughout step (fun w => ∀ fifo ∈ w.list, fifo.taken <+: fifo.received) (start : World α) events := by
  have fresh : ∀ fifo ∈ (start : World α).list, Sound fifo := List.forall_mem_nil _
  have good : ∀ w : World α, (∀ fifo ∈ w.list, Sound fifo) → ∀ fifo ∈ w.list, fifo.taken <+: fifo.received :=
    fun w sound fifo member => ⟨_, (sound fifo member).queued⟩
  have goes : ∀ (w : World α) event, (∀ fifo ∈ w.list, Sound fifo) → Meets w event →
      ∃ next, step w event = some next ∧ ∀ fifo ∈ next.list, Sound fifo :=
    fun w event sound met => step_sound sound met
  exact guarded_run goes good fresh met

/-- A page of equal bytes. -/
def page (byte : UInt8) : Page UInt8 := ⟨List.replicate fifobufSize byte, List.length_replicate⟩

/-- One handle writes to two others, of which one is opened later. -/
theorem small_writes_are_broadcast :
    (∃ last, run step start [.openFifo (page 0), .openFifo (page 0), .write 0 (page 1) 100, .openFifo (page 0),
      .write 0 (page 2) 3, .read 1 (page 0) 101, .read 2 (page 0) 1, .close 0] = some last) ∧
    Throughout step (fun w => ∀ fifo ∈ w.list, fifo.taken <+: fifo.received) start
      [.openFifo (page 0), .openFifo (page 0), .write 0 (page 1) 100, .openFifo (page 0),
      .write 0 (page 2) 3, .read 1 (page 0) 101, .read 2 (page 0) 1, .close 0] :=
  fifo_broadcasts _ (by decide +kernel)

/-- A whole page fills the ring of the other handle, which is empty then, and it reads the byte
that is written next. A write near the end of a ring goes past it. -/
theorem fifo_loses_and_overruns :
    (∃ w, run step start [.openFifo (page 0), .openFifo (page 0), .write 0 (page 1) 4096, .write 0 (page 2) 1,
      .read 1 (page 0) 1] = some w ∧ ∃ fifo ∈ w.list, fifo.taken = [2] ∧ ¬ fifo.taken <+: fifo.received) ∧
    run step start [.openFifo (page 0), .openFifo (page 0), .write 0 (page 1) 3500, .read 1 (page 0) 3000,
      .write 0 (page 2) 1000] = none := by
  constructor <;> decide +kernel

end MeinOS.Fifo
