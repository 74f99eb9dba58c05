import MeinOS.FileServers
import MeinOS.Vfs

/-! Positions in open files and directories, `fs_seek`, `fs_readdir` and `fs_seekdir` of
`apps/lib/libfuse/fuse_lowlevel.c` and of `apps/lib/libcdi/fs.c`, at the widths they have there:
`off_t` is an `int`, which libfuse also keeps, while libcdi keeps a `uint64_t`.

`fs_seek` of libfuse takes the start of a file for its end, and `fs_seekdir` of libfuse does not
go to position 0. A position that does not fit `off_t` is cut off by both. -/
namespace MeinOS.FilePositions
open Llist Lib.Runs
open FileServers (FileType Whence ebadf)
open Ipc (einval)
open Vfs (enoent)

abbrev Off := BitVec 32

def enosys : Int := 55
def enotdir : Int := 57

/-- A negated error number, as the server returns it. -/
def failed (error : Int) : Off := BitVec.ofInt 32 (-error)

/-- The arguments of `fs_seek`. -/
structure Seek where
  off : Off
  whence : Whence

/-- `fs_seek` of libfuse: the answer and the position of the file. -/
def Fuse.fsSeek (call : Seek) (pos : Off) : Off × Off :=
  let moved := match call.whence with
    | .set => call.off
    | .cur => pos + call.off
    | .fromEnd => 0
    | .other => pos
  (moved, moved)

/-- `struct cdi_fs_file` of a file. Nothing sets the position of one that is not regular. -/
structure Cdi.File where
  type : FileType
  pos : BitVec 64
  deriving DecidableEq

/-- `cdi_fs_filesize`, for a driver that may have no `meta_read`. -/
def Cdi.filesize (metaRead : Option (BitVec 64)) : Off := (metaRead.getD 0).setWidth 32

/-- `fs_seek` of libcdi with a file that was found. The sum with the size is one of two `size_t`. -/
def Cdi.fsSeek (metaRead : Option (BitVec 64)) (call : Seek) (file : File) : Off × File :=
  if file.type ≠ .reg then (failed ebadf, file)
  else match call.whence with
    | .set => moved (call.off.signExtend 64)
    | .cur => moved (file.pos + call.off.signExtend 64)
    | .fromEnd => moved ((filesize metaRead + call.off).setWidth 64)
    | .other => (failed einval, file)
where
  moved (pos : BitVec 64) : Off × File := (pos.setWidth 32, { file with pos })

/-- A file that both servers have open. -/
structure Opened where
  fuse : Off
  cdi : Cdi.File

/-- Both servers get the same request. -/
def seekBoth (metaRead : Option (BitVec 64)) (o : Opened) (call : Seek) : Option Opened :=
  some ⟨(Fuse.fsSeek call o.fuse).2, (Cdi.fsSeek metaRead call o.cdi).2⟩

/-- Where a request leads from position `pos` in a file of this size. -/
def target (size pos : Int) (call : Seek) : Int :=
  match call.whence with
  | .set => call.off.toInt
  | .cur => pos + call.off.toInt
  | .fromEnd => size + call.off.toInt
  | .other => pos

/-- The size of the file, as a number. -/
def size (metaRead : Option (BitVec 64)) : Int := (metaRead.getD 0).toInt

/-- Both servers answer with the same position, the one where the request leads. -/
def SamePosition (metaRead : Option (BitVec 64)) (o : Opened) (call : Seek) : Prop :=
  (Fuse.fsSeek call o.fuse).1 = (Cdi.fsSeek metaRead call o.cdi).1 ∧
  (Fuse.fsSeek call o.fuse).1.toInt = target (size metaRead) o.fuse.toInt call ∧
  (Cdi.fsSeek metaRead call o.cdi).1.toInt = target (size metaRead) o.cdi.pos.toInt call

instance : Decidable (SamePosition metaRead o call) := inferInstanceAs (Decidable (_ ∧ _ ∧ _))

/-- The number is an `off_t`. -/
def FitsOff (n : Int) : Prop := -2 ^ 31 ≤ n ∧ n < 2 ^ 31

instance : Decidable (FitsOff n) := inferInstanceAs (Decidable (_ ∧ _))

/-- A relative request comes while both servers are at the same position and leads to an `off_t`,
and one from the end leads to the start. -/
def Seekable (metaRead : Option (BitVec 64)) (o : Opened) (call : Seek) : Prop :=
  match call.whence with
  | .set => True
  | .cur => o.fuse.toInt = o.cdi.pos.toInt ∧ FitsOff (o.fuse.toInt + call.off.toInt)
  | .fromEnd => size metaRead + call.off.toInt = 0
  | .other => False

instance : Decidable (Seekable metaRead o call) := by
  unfold Seekable
  split <;> infer_instance

/-- A sum keeps its value in an `off_t` exactly if it is one. -/
theorem bmod_eq_iff_fits (n : Int) : n.bmod (2 ^ 32) = n ↔ FitsOff n := by
  constructor
  · intro kept
    have low := Int.le_bmod (x := n) (m := 2 ^ 32) (by norm_num)
    have high := Int.bmod_lt (x := n) (m := 2 ^ 32) (by norm_num)
    rw [kept] at low high
    constructor <;> omega
  · rintro ⟨low, high⟩
    exact Int.bmod_eq_of_le (by omega) (by omega)

@[simp] theorem extended_back (off : Off) : (off.signExtend 64).setWidth 32 = off := by
  apply BitVec.eq_of_getLsbD_eq
  intro i inside
  simp [BitVec.getLsbD_signExtend, inside]
  omega

/-- A sum of which only an `off_t` is kept. -/
theorem cut_off_sum (pos : BitVec 64) (off : Off) :
    (pos.setWidth 32 + off).toInt = (pos.toInt + off.toInt).bmod (2 ^ 32) := by
  have cut : (pos.setWidth 32).toInt = pos.toInt.bmod (2 ^ 32) := by
    rw [BitVec.toInt_setWidth, BitVec.toInt_eq_toNat_bmod, Int.bmod_bmod_of_dvd (by norm_num)]
  rw [BitVec.toInt_add, cut, Int.bmod_add_bmod]

theorem Cdi.seek_set (regular : file.type = .reg) :
    (Cdi.fsSeek metaRead ⟨off, .set⟩ file).1 = off := by
  simp [Cdi.fsSeek, Cdi.fsSeek.moved, regular]

theorem Cdi.seek_cur (regular : file.type = .reg) :
    (Cdi.fsSeek metaRead ⟨off, .cur⟩ file).1 = file.pos.setWidth 32 + off := by
  simp [Cdi.fsSeek, Cdi.fsSeek.moved, regular, BitVec.setWidth_add]

theorem Cdi.seek_end (regular : file.type = .reg) :
    (Cdi.fsSeek metaRead ⟨off, .fromEnd⟩ file).1 = (metaRead.getD 0).setWidth 32 + off := by
  simp [Cdi.fsSeek, Cdi.fsSeek.moved, Cdi.filesize, regular]

theorem Cdi.seek_type : (Cdi.fsSeek metaRead call file).2.type = file.type := by
  unfold Cdi.fsSeek
  split
  · rfl
  · split <;> rfl

/-- Both servers agree on a relative request exactly if they are at the same position and the sum
does not overflow. -/
theorem same_position_cur (regular : o.cdi.type = .reg) :
    SamePosition metaRead o ⟨off, .cur⟩ ↔ Seekable metaRead o ⟨off, .cur⟩ := by
  have fuse : (o.fuse + off).toInt = (o.fuse.toInt + off.toInt).bmod (2 ^ 32) := BitVec.toInt_add _ _
  have cdi := cut_off_sum o.cdi.pos off
  simp only [SamePosition, Seekable, Cdi.seek_cur regular, Fuse.fsSeek, target]
  constructor
  · rintro ⟨same, fuseAt, cdiAt⟩
    have sums : o.fuse.toInt + off.toInt = o.cdi.pos.toInt + off.toInt := by
      rw [← fuseAt, ← cdiAt, same]
    exact ⟨by omega, (bmod_eq_iff_fits _).mp (fuse.symm.trans fuseAt)⟩
  · rintro ⟨same, fits⟩
    have kept := (bmod_eq_iff_fits _).mpr fits
    refine ⟨BitVec.eq_of_toInt_eq ?_, fuse.trans kept, ?_⟩
    · rw [fuse, cdi, same]
    · rw [cdi, ← same, kept]

/-- Both agree on a request from the end exactly if it leads to the start. -/
theorem same_position_end (regular : o.cdi.type = .reg) :
    SamePosition metaRead o ⟨off, .fromEnd⟩ ↔ Seekable metaRead o ⟨off, .fromEnd⟩ := by
  simp only [SamePosition, Seekable, Cdi.seek_end regular, Fuse.fsSeek, target]
  constructor
  · rintro ⟨-, fuseAt, -⟩
    exact fuseAt.symm
  · intro start
    have cdi := cut_off_sum (metaRead.getD 0) off
    rw [show (metaRead.getD 0).toInt + off.toInt = 0 from start] at cdi
    have zero : (metaRead.getD 0).setWidth 32 + off = 0 := BitVec.eq_of_toInt_eq cdi
    exact ⟨zero.symm, start.symm, by rw [start, zero]; rfl⟩

theorem same_position_iff (regular : o.cdi.type = .reg) (known : call.whence ≠ .other) :
    SamePosition metaRead o call ↔ Seekable metaRead o call := by
  obtain ⟨off, whence⟩ := call
  cases whence with
  | set => simp [SamePosition, Seekable, Cdi.seek_set regular, Fuse.fsSeek, target]
  | cur => exact same_position_cur regular
  | fromEnd => exact same_position_end regular
  | other => exact absurd rfl known

/-- The runs on which all answers agree are those whose requests are all seekable. -/
theorem seeks_agree_iff {calls : List Seek} (regular : o.cdi.type = .reg)
    (known : ∀ call ∈ calls, call.whence ≠ .other) :
    Along (seekBoth metaRead) (SamePosition metaRead) o calls ↔
      Along (seekBoth metaRead) (Seekable metaRead) o calls := by
  induction calls generalizing o with
  | nil => simp [Along]
  | cons call calls ih =>
    have next := ih (o := ⟨(Fuse.fsSeek call o.fuse).2, (Cdi.fsSeek metaRead call o.cdi).2⟩)
      (Cdi.seek_type.trans regular) fun call later => known call (List.mem_cons_of_mem _ later)
    simp only [along_cons, same_position_iff regular (known call List.mem_cons_self), seekBoth,
      Option.some.injEq, forall_eq'] at next ⊢
    exact and_congr_right fun _ => next

theorem sum_cut_off (pos : BitVec 64) (off : Off) :
    BitVec.ofInt 32 (pos.toInt + off.toInt) = pos.setWidth 32 + off := by
  apply BitVec.eq_of_toInt_eq
  rw [BitVec.toInt_ofInt, cut_off_sum]

/-- The answers are the positions of the model of the file servers, which are numbers, cut off to
an `off_t`. -/
theorem Fuse.seek_cuts_off (off pos : Off) (known : whence ≠ .other) :
    (FileServers.seekTo .fuse off.toInt whence (size metaRead) (some pos.toInt)).map (BitVec.ofInt 32) =
      some (Fuse.fsSeek ⟨off, whence⟩ pos).1 := by
  cases whence with
  | set => simp [FileServers.seekTo, Fuse.fsSeek]
  | cur => simp [FileServers.seekTo, Fuse.fsSeek, BitVec.ofInt_add]
  | fromEnd => simp [FileServers.seekTo, Fuse.fsSeek]
  | other => exact absurd rfl known

theorem Cdi.seek_cuts_off {file : Cdi.File} (off : Off) (known : whence ≠ .other)
    (regular : file.type = .reg) :
    (FileServers.seekTo .cdi off.toInt whence (size metaRead) (some file.pos.toInt)).map
      (BitVec.ofInt 32) = some (Cdi.fsSeek metaRead ⟨off, whence⟩ file).1 := by
  cases whence with
  | set => simp [FileServers.seekTo, Cdi.seek_set regular]
  | cur => simp [FileServers.seekTo, Cdi.seek_cur regular, sum_cut_off]
  | fromEnd => simp only [FileServers.seekTo, Cdi.seek_end regular, size, Option.map_some, sum_cut_off]
  | other => exact absurd rfl known

/-- `struct fuse_file` of a directory: its position and the names that were loaded. -/
structure Fuse.Dir where
  off : Off
  dir : List String
  deriving DecidableEq

/-- `struct cdi_fs_file` of a directory, where `dirlist` may be NULL. -/
structure Cdi.Dir where
  pos : BitVec 64
  dirlist : Option (List String)
  deriving DecidableEq

/-- The end of `fs_readdir` of libfuse, with the answer of the driver: the answer, the name that is
left in the buffer, and the directory. The comparison with the size is one of two `size_t`. -/
def Fuse.readEntry (ret : Int) (file : Dir) : Int × Option String × Dir :=
  if 0 ≤ ret then
    match llistGet file.dir file.off.toNat with
    | none => (-enoent, none, file)
    | some name => (ret, some name, { file with off := file.off + 1 })
  else (ret, none, file)

/-- `fs_readdir` of libfuse. The driver is asked while no names are loaded; `op` says what it answers
for a position and which names it fills in. The names are not copied, and are taken to stay. -/
def Fuse.fsReaddir (op : Option (Off → Int × List String)) (file : Dir) : Int × Option String × Dir :=
  if file.dir = [] then
    match op with
    | none => (-enosys, none, file)
    | some fill => readEntry (fill file.off).1 { file with dir := (fill file.off).2 }
  else readEntry 0 file

/-- `fs_seekdir` of libfuse. -/
def Fuse.fsSeekdir (off : Off) (file : Dir) : Off × Dir :=
  let moved := if (0 : Off).slt off then { file with off } else file
  (moved.off, moved)

/-- `fs_readdir` of libcdi, where `list` has the names that the driver lists, if the resource is
still a directory. The position moves on even at the end. -/
def Cdi.fsReaddir (list : Option (List String)) (file : Dir) : Int × Option String × Dir :=
  if file.pos.toNat < 2 then
    (0, some (if file.pos = 0 then "." else ".."), { file with pos := file.pos + 1 })
  else match file.dirlist.or list with
    | none => (-enotdir, none, file)
    | some names =>
      let next : Dir := ⟨file.pos + 1, some names⟩
      match llistGet names ((file.pos - 2).setWidth 32).toNat with
      | none => (-enoent, none, next)
      | some name => (0, some name, next)

/-- `fs_seekdir` of libcdi. -/
def Cdi.fsSeekdir (off : Off) (file : Dir) : Off × Dir :=
  let moved := if off ≠ -1 then { file with pos := off.signExtend 64 } else file
  (moved.pos.setWidth 32, moved)

/-- What a client can do with an open directory. -/
inductive Call where
  | readdir
  | telldir
  | seekdir (nth : Nat)
  deriving DecidableEq

/-- A kind of open directory `δ` with positions `π`. -/
structure Stream (δ π : Type) where
  readdir : δ → Option String × δ
  telldir : δ → π × δ
  seekdir : π → δ → δ

/-- An open directory with the positions that were told so far and what was read. -/
structure Session (δ π : Type) where
  dir : δ
  told : List π
  entries : List (Option String)
  deriving DecidableEq

/-- The client seeks to a position that it was told before, or back to the first one. -/
def Session.seekTarget (s : Session δ π) (start : π) (nth : Nat) : π := s.told.getD nth start

def Stream.step (stream : Stream δ π) (start : π) (s : Session δ π) : Call → Option (Session δ π)
  | .readdir => some { s with
      dir := (stream.readdir s.dir).2, entries := s.entries ++ [(stream.readdir s.dir).1] }
  | .telldir => some { s with
      dir := (stream.telldir s.dir).2, told := s.told ++ [(stream.telldir s.dir).1] }
  | .seekdir nth => some { s with dir := stream.seekdir (s.seekTarget start nth) s.dir }

/-- A directory as it is meant: positions are places in the list of names, and a seek leads to
the place. -/
def listing (names : List String) : Stream Nat Nat where
  readdir place := (names[place]?, if place < names.length then place + 1 else place)
  telldir place := (place, place)
  seekdir told _ := told

def fuseStream (op : Option (Off → Int × List String)) : Stream Fuse.Dir Off where
  readdir file := (Fuse.fsReaddir op file).2
  telldir := Fuse.fsSeekdir (-1)
  seekdir off file := (Fuse.fsSeekdir off file).2

def cdiStream (list : Option (List String)) : Stream Cdi.Dir Off where
  readdir file := (Cdi.fsReaddir list file).2
  telldir := Cdi.fsSeekdir (-1)
  seekdir off file := (Cdi.fsSeekdir off file).2

/-- The directories that `fs_opendir` makes. -/
def Fuse.opendir : Fuse.Dir := ⟨0, []⟩

def Cdi.opendir : Cdi.Dir := ⟨0, none⟩

/-- The client has just opened a directory. -/
def Session.opened (dir : δ) : Session δ π := ⟨dir, [], []⟩

/-- What a client reads from a directory that it has just opened. -/
def reads (stream : Stream δ π) (start : π) (dir : δ) (calls : List Call) : Option (List (Option String)) :=
  (run (stream.step start) (.opened dir) calls).map (·.entries)

/-- The number `n` stands for this place; all numbers from the length on stand for the end. -/
def Means (names : List String) (n place : Nat) : Prop := min n names.length = place ∧ n < 2 ^ 31

theorem Means.entry (means : Means names n place) : names[place]? = names[n]? := by
  obtain ⟨rfl, -⟩ := means
  by_cases inside : n ≤ names.length
  · rw [Nat.min_eq_left inside]
  · rw [Nat.min_eq_right (by omega), List.getElem?_eq_none (by omega), List.getElem?_eq_none (by omega)]

/-- Reading on leads to the next place, whether the number is counted up at the end or not. -/
theorem Means.next (means : Means names n place) (room : n + 1 < 2 ^ 31)
    (counted : after = n + 1 ∨ after = n ∧ names.length ≤ n) :
    Means names after ((listing names).readdir place).2 := by
  obtain ⟨rfl, -⟩ := means
  refine ⟨?_, by omega⟩
  simp only [listing]
  split <;> omega

/-- A session with a server is at the place where it is meant to be, and so is every position
that was told. -/
structure Follows (names : List String) (number : δ → Nat) (s : Session δ Off) (t : Session Nat Nat) : Prop where
  here : Means names (number s.dir) t.dir
  told : List.Forall₂ (fun off place => Means names off.toNat place) s.told t.told
  entries : s.entries = t.entries

theorem forall₂_getD {R : α → β → Prop} {xs : List α} {ys : List β} (related : List.Forall₂ R xs ys)
    (default : R x y) (nth : Nat) : R (xs.getD nth x) (ys.getD nth y) := by
  induction related generalizing nth with
  | nil => exact default
  | cons first _ ih =>
    cases nth with
    | zero => exact first
    | succ nth => exact ih nth

theorem Follows.target (follows : Follows names number s t) (nth : Nat) :
    Means names (s.seekTarget 0 nth).toNat (t.seekTarget 0 nth) :=
  forall₂_getD follows.told ⟨by simp, by decide⟩ nth

/-- A session goes on as it is meant to, if the server reads the entry at its number and counts on,
tells its number and leaves the directory, and seeks to the number it gets. -/
theorem Follows.step {stream : Stream δ Off} (follows : Follows names number s t) (call : Call)
    (reads : call = .readdir → (stream.readdir s.dir).1 = names[number s.dir]? ∧
      number s.dir + 1 < 2 ^ 31 ∧ (number (stream.readdir s.dir).2 = number s.dir + 1 ∨
        number (stream.readdir s.dir).2 = number s.dir ∧ names.length ≤ number s.dir))
    (tells : call = .telldir → (stream.telldir s.dir).1.toNat = number s.dir ∧ (stream.telldir s.dir).2 = s.dir)
    (seeks : ∀ nth, call = .seekdir nth →
      number (stream.seekdir (s.seekTarget 0 nth) s.dir) = (s.seekTarget 0 nth).toNat)
    (went : stream.step 0 s call = some next) :
    ∃ next', (listing names).step 0 t call = some next' ∧ Follows names number next next' := by
  cases call with
  | readdir =>
    obtain ⟨entry, room, counted⟩ := reads rfl
    cases went
    refine ⟨_, rfl, follows.here.next room counted, follows.told, ?_⟩
    simp only [follows.entries, entry, listing, follows.here.entry]
  | telldir =>
    obtain ⟨told, same⟩ := tells rfl
    cases went
    refine ⟨_, rfl, ?_, ?_, follows.entries⟩
    · simpa only [same, listing] using follows.here
    · refine List.rel_append follows.told (List.Forall₂.cons ?_ List.Forall₂.nil)
      simpa only [told, listing] using follows.here
  | seekdir nth =>
    cases went
    refine ⟨_, rfl, ?_, follows.told, follows.entries⟩
    simpa only [seeks nth rfl, listing] using follows.target nth

/-- The condition on the calls to libfuse: no seek to position 0 except from there, and no
position beyond an `off_t`. -/
def Fuse.Resumes (s : Session Fuse.Dir Off) : Call → Prop
  | .readdir => s.dir.off.toNat + 1 < 2 ^ 31
  | .telldir => True
  | .seekdir nth => s.seekTarget 0 nth = 0 → s.dir.off = 0

instance : ∀ call, Decidable (Fuse.Resumes s call)
  | .readdir => inferInstanceAs (Decidable (_ < _))
  | .telldir => isTrue trivial
  | .seekdir _ => inferInstanceAs (Decidable (_ → _))

/-- The condition on the calls to libcdi: no position beyond an `off_t`. -/
def Cdi.Resumes (s : Session Cdi.Dir Off) : Call → Prop
  | .readdir => s.dir.pos.toNat + 1 < 2 ^ 31
  | _ => True

instance : ∀ call, Decidable (Cdi.Resumes s call)
  | .readdir => inferInstanceAs (Decidable (_ < _))
  | .telldir | .seekdir _ => isTrue trivial

/-- The names are loaded, or nothing was read yet and all positions that were told are 0. -/
def Fuse.Loaded (names : List String) (s : Session Fuse.Dir Off) : Prop :=
  s.dir.dir = names ∧ names ≠ [] ∨ s.dir.dir = [] ∧ s.dir.off = 0 ∧ ∀ off ∈ s.told, off = 0

theorem Fuse.read_entry_eq (succeeds : 0 ≤ ret) : (Fuse.readEntry ret file).2 =
    (file.dir[file.off.toNat]?,
      { file with off := if file.off.toNat < file.dir.length then file.off + 1 else file.off }) := by
  simp only [Fuse.readEntry, if_pos succeeds, llistGet]
  by_cases inside : file.off.toNat < file.dir.length
  · simp [inside]
  · simp [inside]

theorem Fuse.readdir_eq {fill : Off → Int × List String} (succeeds : 0 ≤ (fill 0).1)
    (loaded : Fuse.Loaded (fill 0).2 s) : (Fuse.fsReaddir (some fill) s.dir).2 =
    ((fill 0).2[s.dir.off.toNat]?,
      ⟨if s.dir.off.toNat < (fill 0).2.length then s.dir.off + 1 else s.dir.off, (fill 0).2⟩) := by
  obtain ⟨same, some_⟩ | ⟨none_, start, -⟩ := loaded
  · rw [Fuse.fsReaddir, if_neg (by rw [same]; exact some_), Fuse.read_entry_eq (le_refl 0), same]
  · simp only [Fuse.fsReaddir, if_pos none_, start]
    exact Fuse.read_entry_eq succeeds

theorem Fuse.seekdir_eq {file : Fuse.Dir} (small : off.toNat < 2 ^ 31) (resumes : off = 0 → file.off = 0) :
    (Fuse.fsSeekdir off file).2 = { file with off } := by
  by_cases zero : off = 0
  · subst zero
    simp [Fuse.fsSeekdir, ← resumes rfl]
  · have positive : (0 : Off).slt off = true := by
      have nonzero : off.toNat ≠ 0 := fun same => zero (BitVec.eq_of_toNat_eq same)
      rw [BitVec.slt_iff_toInt_lt, BitVec.toInt_eq_toNat_of_lt (x := off) (by omega)]
      simp
      omega
    simp only [Fuse.fsSeekdir, if_pos positive]

theorem count_on {n : BitVec w} (room : n.toNat + 1 < 2 ^ w) : (n + 1).toNat = n.toNat + 1 := by
  simp only [BitVec.ofNat_eq_ofNat, BitVec.toNat_add, BitVec.toNat_ofNat, Nat.add_mod_mod]
  exact Nat.mod_eq_of_lt room

theorem seek_target_zero {s : Session δ Off} (zero : ∀ off ∈ s.told, off = 0) : s.seekTarget 0 nth = 0 := by
  unfold Session.seekTarget
  rw [List.getD_eq_getElem?_getD]
  cases found : s.told[nth]? with
  | none => rfl
  | some off => exact zero off (List.mem_of_getElem? found)

section
variable {fill : Off → Int × List String} {s next : Session Fuse.Dir Off} {call : Call}
  (succeeds : 0 ≤ (fill 0).1)
include succeeds

theorem Fuse.loaded_step (loaded : Fuse.Loaded (fill 0).2 s)
    (went : (fuseStream (some fill)).step 0 s call = some next) : Fuse.Loaded (fill 0).2 next := by
  cases call with
  | readdir =>
    have read := Fuse.readdir_eq succeeds loaded
    cases went
    simp only [Fuse.Loaded, fuseStream, read]
    -- Only an empty directory is still not loaded after it was read.
    by_cases empty : (fill 0).2 = []
    · obtain ⟨-, some_⟩ | ⟨-, start, zero⟩ := loaded
      · exact absurd empty some_
      · refine Or.inr ⟨empty, ?_, zero⟩
        rw [if_neg (by rw [empty]; exact Nat.not_lt_zero _)]
        exact start
    · exact Or.inl ⟨trivial, empty⟩
  | telldir =>
    cases went
    refine loaded.imp id ?_
    rintro ⟨none_, start, zero⟩
    refine ⟨none_, start, fun off told => ?_⟩
    obtain earlier | now := List.mem_append.mp told
    · exact zero off earlier
    · rw [List.mem_singleton.mp now]
      exact start
  | seekdir nth =>
    cases went
    obtain full | ⟨none_, start, zero⟩ := loaded
    · left
      refine ⟨Eq.trans ?_ full.1, full.2⟩
      simp only [fuseStream, Fuse.fsSeekdir]
      split <;> rfl
    · right
      simp only [seek_target_zero zero]
      exact ⟨none_, start, zero⟩

/-- Every call to libfuse keeps the session where it is meant to be. -/
theorem Fuse.session_step {t : Session Nat Nat} (follows : Follows (fill 0).2 (·.off.toNat) s t)
    (loaded : Fuse.Loaded (fill 0).2 s) (resumes : Fuse.Resumes s call)
    (went : (fuseStream (some fill)).step 0 s call = some next) :
    ∃ next', (listing (fill 0).2).step 0 t call = some next' ∧
      Follows (fill 0).2 (·.off.toNat) next next' := by
  refine follows.step call ?_ (fun _ => ⟨rfl, rfl⟩) ?_ went
  · rintro rfl
    have room : s.dir.off.toNat + 1 < 2 ^ 31 := resumes
    simp only [fuseStream, Fuse.readdir_eq succeeds loaded, true_and]
    refine ⟨room, ?_⟩
    split
    · exact Or.inl (count_on (by omega))
    · exact Or.inr ⟨rfl, by omega⟩
  · rintro nth rfl
    exact congrArg (·.off.toNat) (Fuse.seekdir_eq (follows.target nth).2 resumes)

end

theorem Cdi.telldir_eq (file : Cdi.Dir) : Cdi.fsSeekdir (-1) file = (file.pos.setWidth 32, file) := rfl

/-- The names as libcdi gives them out. -/
def Cdi.names (children : List String) : List String := "." :: ".." :: children

theorem Cdi.child_index {pos : BitVec 64} (behind : 2 ≤ pos.toNat) (room : pos.toNat + 1 < 2 ^ 31) :
    ((pos - 2).setWidth 32).toNat = pos.toNat - 2 := by
  have two : (2 : BitVec 64).toNat = 2 := rfl
  rw [BitVec.toNat_setWidth, BitVec.toNat_sub_of_le (by rw [BitVec.le_def, two]; exact behind), two]
  exact Nat.mod_eq_of_lt (by omega)

/-- libcdi reads the name at its position and counts on. -/
theorem Cdi.readdir_eq {file : Cdi.Dir} (room : file.pos.toNat + 1 < 2 ^ 31)
    (listed : ∀ names ∈ file.dirlist, names = children) :
    (Cdi.fsReaddir (some children) file).2.1 = (Cdi.names children)[file.pos.toNat]? ∧
    (Cdi.fsReaddir (some children) file).2.2.pos = file.pos + 1 ∧
    ∀ names ∈ (Cdi.fsReaddir (some children) file).2.2.dirlist, names = children := by
  unfold Cdi.fsReaddir
  by_cases dots : file.pos.toNat < 2
  · rw [if_pos dots]
    refine ⟨?_, rfl, listed⟩
    by_cases start : file.pos = 0
    · simp [start, Cdi.names]
    · have second : file.pos.toNat = 1 := by
        have nonzero : file.pos.toNat ≠ 0 := fun same => start (BitVec.eq_of_toNat_eq same)
        omega
      simp only [if_neg start, second, Cdi.names, List.getElem?_cons_succ, List.getElem?_cons_zero]
  · have loaded : file.dirlist.or (some children) = some children := by
      cases list : file.dirlist with
      | none => rfl
      | some names => rw [listed names list]; rfl
    have name : (Cdi.names children)[file.pos.toNat]? = children[file.pos.toNat - 2]? := by
      rw [show file.pos.toNat = file.pos.toNat - 2 + 1 + 1 by omega]
      rfl
    rw [if_neg dots, loaded, name]
    simp only [Cdi.child_index (Nat.le_of_not_lt dots) room, llistGet]
    cases children[file.pos.toNat - 2]? with
    | none | some => simp

theorem Cdi.seekdir_pos {file : Cdi.Dir} {off : Off} (small : off.toNat < 2 ^ 31) :
    (Cdi.fsSeekdir off file).2.pos.toNat = off.toNat := by
  have told : off ≠ -1 := by
    rintro rfl
    exact absurd small (by decide)
  simp only [Cdi.fsSeekdir, if_pos told]
  have positive : off.msb = false := BitVec.msb_eq_false_iff_two_mul_lt.mpr (by omega)
  rw [BitVec.signExtend_eq_setWidth_of_msb_false positive, BitVec.toNat_setWidth]
  exact Nat.mod_eq_of_lt (by omega)

theorem Cdi.session_step {s next : Session Cdi.Dir Off} {t : Session Nat Nat} {call : Call}
    (follows : Follows (Cdi.names children) (·.pos.toNat) s t)
    (listed : ∀ names ∈ s.dir.dirlist, names = children)
    (resumes : Cdi.Resumes s call) (went : (cdiStream (some children)).step 0 s call = some next) :
    ∃ next', (listing (Cdi.names children)).step 0 t call = some next' ∧
      Follows (Cdi.names children) (·.pos.toNat) next next' := by
  refine follows.step call ?_ (fun _ => ⟨?_, rfl⟩) ?_ went
  · rintro rfl
    have room : s.dir.pos.toNat + 1 < 2 ^ 31 := resumes
    obtain ⟨entry, counted, -⟩ := Cdi.readdir_eq room listed
    refine ⟨entry, room, Or.inl ?_⟩
    simp only [cdiStream, counted]
    exact count_on (by omega)
  · have small : s.dir.pos.toNat < 2 ^ 31 := follows.here.2
    simp only [cdiStream, Cdi.telldir_eq, BitVec.toNat_setWidth]
    exact Nat.mod_eq_of_lt (by omega)
  · rintro nth rfl
    exact Cdi.seekdir_pos (follows.target nth).2

theorem Cdi.listed_step {s next : Session Cdi.Dir Off} {call : Call}
    (listed : ∀ names ∈ s.dir.dirlist, names = children)
    (resumes : Cdi.Resumes s call) (went : (cdiStream (some children)).step 0 s call = some next) :
    ∀ names ∈ next.dir.dirlist, names = children := by
  cases call with
  | readdir =>
    cases went
    exact (Cdi.readdir_eq resumes listed).2.2
  | telldir =>
    cases went
    exact listed
  | seekdir nth =>
    cases went
    simp only [cdiStream, Cdi.fsSeekdir]
    split <;> exact listed

theorem Stream.run_goes (stream : Stream δ π) (start : π) (s : Session δ π) (calls : List Call) :
    ∃ s', run (stream.step start) s calls = some s' := by
  induction calls generalizing s with
  | nil => exact ⟨s, rfl⟩
  | cons call calls ih => cases call <;> exact ih _

/-- A server whose steps follow the listing reads what is listed. -/
theorem reads_as_listed {stream : Stream δ Off} {number : δ → Nat} {Inv : Session δ Off → Prop}
    {guard : Session δ Off → Call → Prop} {dir : δ} {calls : List Call}
    (follow : ∀ s t call next, Follows names number s t → Inv s → guard s call →
      stream.step 0 s call = some next →
      ∃ next', (listing names).step 0 t call = some next' ∧ Follows names number next next')
    (keep : ∀ s call next, Inv s → guard s call → stream.step 0 s call = some next → Inv next)
    (first : number dir = 0) (start : Inv (.opened dir)) (met : Along (stream.step 0) guard (.opened dir) calls) :
    ∃ entries, reads stream 0 dir calls = some entries ∧ reads (listing names) 0 0 calls = some entries := by
  obtain ⟨s, ran⟩ := stream.run_goes 0 (.opened dir) calls
  have opened : Follows names number (.opened dir) (.opened 0) :=
    ⟨by simp [Session.opened, Means, first], List.Forall₂.nil, rfl⟩
  have answers : ∀ s t call next, Follows names number s t ∧ Inv s → guard s call →
      stream.step 0 s call = some next →
      ∃ next', (listing names).step 0 t call = some next' ∧ Follows names number next next' ∧ Inv next := by
    rintro s t call next ⟨follows, holds⟩ now went
    obtain ⟨next', answered, follows'⟩ := follow s t call next follows holds now went
    exact ⟨next', answered, follows', keep s call next holds now went⟩
  obtain ⟨t, ran', follows, -⟩ := lockstep answers ⟨opened, start⟩ met ran
  exact ⟨s.entries, by rw [reads, ran]; rfl, by rw [reads, ran', follows.entries]; rfl⟩

/-- Both servers answer a sequence of seeks in a regular file with the same positions, those where
the requests lead, exactly if all requests are seekable; and both read from a directory what is
listed at the places that were sought, if no seek at libfuse rewinds it. -/
theorem positioning_agrees (metaRead : Option (BitVec 64)) (o : Opened) (seeks : List Seek)
    (fill : Off → Int × List String) (children : List String) (calls : List Call) :
    (o.cdi.type = .reg → (∀ call ∈ seeks, call.whence ≠ .other) →
      (Along (seekBoth metaRead) (SamePosition metaRead) o seeks ↔
        Along (seekBoth metaRead) (Seekable metaRead) o seeks)) ∧
    (0 ≤ (fill 0).1 → Along ((fuseStream (some fill)).step 0) Fuse.Resumes (.opened Fuse.opendir) calls →
      ∃ entries, reads (fuseStream (some fill)) 0 Fuse.opendir calls = some entries ∧
        reads (listing (fill 0).2) 0 0 calls = some entries) ∧
    (Along ((cdiStream (some children)).step 0) Cdi.Resumes (.opened Cdi.opendir) calls →
      ∃ entries, reads (cdiStream (some children)) 0 Cdi.opendir calls = some entries ∧
        reads (listing (Cdi.names children)) 0 0 calls = some entries) := by
  refine ⟨seeks_agree_iff, fun succeeds met => ?_, fun met => ?_⟩
  · exact reads_as_listed
      (fun _ _ _ _ follows loaded now went => Fuse.session_step succeeds follows loaded now went)
      (fun _ _ _ loaded _ went => Fuse.loaded_step succeeds loaded went) rfl
      (Or.inr ⟨rfl, rfl, by simp [Session.opened]⟩) met
  · exact reads_as_listed
      (fun _ _ _ _ follows listed now went => Cdi.session_step follows listed now went)
      (fun _ _ _ listed now went => Cdi.listed_step listed now went) rfl
      (by simp [Session.opened, Cdi.opendir]) met

/-- In a file of ten bytes the end is at 0 for libfuse, and in a directory the second name is read
after a rewind, where libcdi gives the first one again. -/
theorem end_and_rewind_missed :
    ¬ Along (seekBoth (some 10)) (SamePosition (some 10)) ⟨0, ⟨.reg, 0⟩⟩ [⟨0, .fromEnd⟩] ∧
    reads (fuseStream (some fun _ => (0, Cdi.names ["a"]))) 0 Fuse.opendir [.readdir, .seekdir 0, .readdir] =
      some [some ".", some ".."] ∧
    reads (cdiStream (some ["a"])) 0 Cdi.opendir [.readdir, .seekdir 0, .readdir] = some [some ".", some "."] ∧
    reads (listing (Cdi.names ["a"])) 0 0 [.readdir, .seekdir 0, .readdir] = some [some ".", some "."] := by
  refine ⟨?_, ?_, ?_, ?_⟩ <;> decide +kernel

theorem file_and_directory_agree :
    Along (seekBoth (some 10)) (SamePosition (some 10)) ⟨0, ⟨.reg, 0⟩⟩
      [⟨5, .set⟩, ⟨-3, .cur⟩, ⟨-10, .fromEnd⟩] ∧
    (∃ entries, reads (fuseStream (some fun _ => (0, Cdi.names ["a"]))) 0 Fuse.opendir
      [.readdir, .telldir, .readdir, .seekdir 0, .readdir] = some entries ∧
        reads (listing (Cdi.names ["a"])) 0 0 [.readdir, .telldir, .readdir, .seekdir 0, .readdir] = some entries) ∧
    (∃ entries, reads (cdiStream (some ["a"])) 0 Cdi.opendir
      [.readdir, .telldir, .readdir, .seekdir 0, .readdir] = some entries ∧
        reads (listing (Cdi.names ["a"])) 0 0 [.readdir, .telldir, .readdir, .seekdir 0, .readdir] = some entries) := by
  obtain ⟨file, fuse, cdi⟩ := positioning_agrees (some 10) ⟨0, ⟨.reg, 0⟩⟩
    [⟨5, .set⟩, ⟨-3, .cur⟩, ⟨-10, .fromEnd⟩] (fun _ => (0, Cdi.names ["a"])) ["a"]
    [.readdir, .telldir, .readdir, .seekdir 0, .readdir]
  refine ⟨(file rfl (by decide)).mpr ?_, fuse (le_refl 0) ?_, cdi ?_⟩ <;> decide +kernel

end MeinOS.FilePositions
