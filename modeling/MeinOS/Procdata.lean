import MeinOS.Lib.Unpack
import MeinOS.PathNormal
import MeinOS.Shm

/-! What a process hands to the program it becomes: `proc_pack_procdata` and
`proc_unpack_procdata` of `apps/lib/libmeinos/proc.c`, the file handles of
`apps/lib/stdlibc/files.c` and the packing of `lib/libmeinos/pack.c`.

The data is written to a shared memory object, one record after the other. `unpackstr` returns
a pointer into the object; the strings of the environment, of the working directory and of the
mountpoints are copied, those of `argv` and of the files are not, and the object is detached at
the end. -/
namespace MeinOS.Procdata
open MeinOS.Path PathNormal Llist Lib.Unpack

/-- An `int`. -/
abbrev Word := BitVec 32

/-- A C string, which has no NUL among its characters. -/
structure CStr where
  text : Str
  whole : 0 ∉ text
  deriving DecidableEq

/-- `FL_DIR`. -/
def flDir : Word := 1

/-- `FD_CLOEXEC`. -/
def fdCloexec : Word := 1

/-- `struct fslist_item`, with its strings as `S`. -/
structure FsItem (S : Type) where
  id : Word
  pid : Word
  mountpoint : S
  deriving DecidableEq

/-- The fields of `struct filelist_item` that are handed on, with its path as `S` and its file
system as `F`. -/
structure File (S F : Type) where
  fh : Word
  fsFh : Word
  shmid : Word
  type : Word
  mode : Word
  stfl : Word
  fdfl : Word
  fs : F
  path : S
  deriving DecidableEq

def File.map (path : S → S') (fs : F → F') (file : File S F) : File S' F' :=
  ⟨file.fh, file.fsFh, file.shmid, file.type, file.mode, file.stfl, file.fdfl, fs file.fs, path file.path⟩

/-- What is packed; a missing pointer is NULL. -/
structure Data where
  argv : Option (List CStr)
  env : Option (List CStr)
  cwd : Option CStr
  cmask : Word
  fslist : List (FsItem CStr)
  filelist : List (File CStr (FsItem CStr))

section Pack

/-- `packi`: four bytes, the lowest first. -/
def packi (value : Word) : List UInt8 :=
  [.ofNat value.toNat, .ofNat (value.toNat / 2 ^ 8), .ofNat (value.toNat / 2 ^ 16),
    .ofNat (value.toNat / 2 ^ 24)]

/-- `packi` of a count. -/
def packn (count : Nat) : List UInt8 := packi (.ofNat 32 count)

/-- `packstr`. -/
def packstr (str : CStr) : List UInt8 := str.text ++ [0]

def packFs (fs : FsItem CStr) : List UInt8 := packi fs.id ++ (packi fs.pid ++ packstr fs.mountpoint)

def packFile (file : File CStr (FsItem CStr)) : List UInt8 :=
  packi file.fh ++ (packi file.fsFh ++ (packi file.shmid ++ (packi file.type ++ (packi file.mode ++
    (packi file.stfl ++ (packi file.fdfl ++ (packi file.fs.id ++ packstr file.path)))))))

/-- Directories and files marked `FD_CLOEXEC` are left out. -/
def stays (file : File S F) : Bool := file.type ≠ flDir && file.fdfl &&& fdCloexec = 0

/-- The size that `_fs_pack_filehandles` asks for. -/
def filehandlesSize (d : Data) : Nat :=
  4 + d.fslist.length * (4 * 2) + (d.fslist.map fun fs => fs.mountpoint.text.length + 1).sum +
    (4 + d.filelist.length * (4 * 8)) + (d.filelist.map fun file => file.path.text.length + 1).sum

/-- What `_fs_pack_filehandles` writes before the files. -/
def packFilesystems (d : Data) : List UInt8 :=
  packn d.fslist.length ++ (d.fslist.flatMap packFs ++ packn d.filelist.length)

/-- What `_fs_pack_filehandles` writes for the files. -/
def packFiles (d : Data) : List UInt8 := (d.filelist.filter stays).flatMap packFile

def Data.args (d : Data) : List CStr := d.argv.getD []

def Data.vars (d : Data) : List CStr := d.env.getD []

/-- The working directory, or `"/"`. -/
def Data.dir (d : Data) : CStr := d.cwd.getD ⟨[slash], by decide⟩

/-- The size that `proc_pack_procdata` allocates. -/
def allocated (d : Data) : Nat :=
  4 + (d.args.map fun arg => arg.text.length + 1).sum + (4 + (d.vars.map fun var => var.text.length).sum) +
    (d.dir.text.length + 1) + 4 + filehandlesSize d

/-- What `proc_pack_procdata` writes before the files. -/
def packHead (d : Data) : List UInt8 :=
  packn d.args.length ++ (d.args.flatMap packstr ++ (packn d.vars.length ++ (d.vars.flatMap packstr ++
    (packstr d.dir ++ (packi d.cmask ++ packFilesystems d)))))

/-- What `proc_pack_procdata` writes. -/
def packed (d : Data) : List UInt8 := packHead d ++ packFiles d

/-- `proc_pack_procdata` in a new shared memory object with this content; it faults behind the
last page. -/
def procPackProcdata (d : Data) (object : List UInt8) : Option (List UInt8) :=
  if (packed d).length ≤ object.length then some (packed d ++ object.drop (packed d).length) else none

end Pack

section Unpack

/-- `unpacki`, which faults behind the last page. -/
def unpacki (block : List UInt8) : Reader Word := fun cur =>
  match (block.drop cur).take 4 with
  | [a, b, c, d] =>
    some (.ofNat 32 (a.toNat + 2 ^ 8 * b.toNat + 2 ^ 16 * c.toNat + 2 ^ 24 * d.toNat), cur + 4)
  | _ => none

/-- The string at an address of the block. -/
def strAt (block : List UInt8) (address : Nat) : Option Str :=
  let str := (block.drop address).takeWhile (· ≠ 0)
  if address + str.length < block.length then some str else none

/-- `unpackstr`: the pointer. -/
def unpackstr (block : List UInt8) : Reader Nat := fun cur =>
  (strAt block cur).map fun str => (cur, cur + str.length + 1)

/-- `unpackstr`, and a copy of the string. -/
def unpackcopy (block : List UInt8) : Reader Str := do
  let tmp ← unpackstr block
  StateT.lift (strAt block tmp)

def unpackFs (block : List UInt8) : Reader (FsItem Str) := do
  let id ← unpacki block
  let pid ← unpacki block
  let mountpoint ← unpackcopy block
  return ⟨id, pid, mountpoint⟩

/-- `fsbyid`. -/
def fsbyid (fslist : List (FsItem Str)) (fsid : Word) : Option (FsItem Str) := fslist.find? (·.id = fsid)

/-- A file whose path is a pointer. -/
abbrev OpenFile := File Nat (Option (FsItem Str))

def unpackFile (block : List UInt8) (fslist : List (FsItem Str)) : Reader OpenFile := do
  let fh ← unpacki block
  let fsFh ← unpacki block
  let shmid ← unpacki block
  let type ← unpacki block
  let mode ← unpacki block
  let stfl ← unpacki block
  let fdfl ← unpacki block
  let id ← unpacki block
  let path ← unpackstr block
  return ⟨fh, fsFh, shmid, type, mode, stfl, fdfl, fsbyid fslist id, path⟩

/-- What stands before the files. -/
structure Head where
  argv : List Nat
  environ : List Str
  cwd : Str
  cmask : Word
  fss : List (FsItem Str)
  filesNum : Word

def unpackHead (block : List UInt8) : Reader Head := do
  let argc ← unpacki block
  let argv ← times (unpackstr block) argc.toNat
  let envNum ← unpacki block
  let environ ← times (unpackcopy block) envNum.toNat
  let cwd ← unpackcopy block
  let cmask ← unpacki block
  let fsNum ← unpacki block
  let fss ← times (unpackFs block) fsNum.toNat
  let filesNum ← unpacki block
  return ⟨argv, environ, cwd, cmask, fss, filesNum⟩

/-- The new program, and the object while it is attached. -/
structure Process where
  argv : List Nat
  environ : List Str
  workdir : Workdir
  creationMask : Word
  fslist : List (FsItem Str)
  filelist : List OpenFile
  block : Option (List UInt8)

/-- `umask`. -/
def umask (cmask : Word) : Word := cmask &&& 0o777

/-- The process that was given all this, in which the directory could be opened. -/
def Head.process (head : Head) (known : List (FsItem Str)) (block : List UInt8) (files : List OpenFile) :
    Process where
  argv := head.argv
  environ := head.environ
  workdir := (chdir true head.cwd (setWorkdir [slash])).2
  creationMask := umask head.cmask
  fslist := head.fss.foldl llistPush known
  filelist := files.foldl llistPush []
  block := some block

/-- `proc_unpack_procdata` before it detaches the object, in a process that knows some file
systems and has no files open. -/
def unpackAttached (known : List (FsItem Str)) (block : List UInt8) : Reader Process := do
  let head ← unpackHead block
  let files ← times (unpackFile block (head.fss.foldl llistPush known)) head.filesNum.toNat
  return head.process known block files

/-- `shmdt` of the object. -/
def Process.shmdt (p : Process) : Process := { p with block := none }

/-- `proc_unpack_procdata`. -/
def procUnpackProcdata (known : List (FsItem Str)) (block : List UInt8) : Option Process :=
  ((unpackAttached known block).run 0).map (·.1.shmdt)

/-- The string that a pointer into the object reads. -/
def Process.text (p : Process) (address : Nat) : Option Str := p.block.bind (strAt · address)

end Unpack

/-! Reading back what was written. -/

theorem word_bytes (value : Word) : BitVec.ofNat 32 ((UInt8.ofNat value.toNat).toNat +
    2 ^ 8 * (UInt8.ofNat (value.toNat / 2 ^ 8)).toNat + 2 ^ 16 * (UInt8.ofNat (value.toNat / 2 ^ 16)).toNat +
    2 ^ 24 * (UInt8.ofNat (value.toNat / 2 ^ 24)).toNat) = value := by
  apply BitVec.eq_of_toNat_eq
  simp only [BitVec.toNat_ofNat, UInt8.toNat_ofNat']
  omega

section Reading
variable {block : List UInt8} {pos : Nat}

theorem reads_word (held : Holds block pos (packi value)) :
    Reads (unpacki block) pos (packi value) (· = value) := by
  refine ⟨value, ?_, rfl⟩
  obtain ⟨rest, whole⟩ := held
  change unpacki block pos = _
  unfold unpacki
  rw [← whole]
  change some (BitVec.ofNat 32 _, _) = _
  rw [word_bytes]
  rfl

theorem reads_count (held : Holds block pos (packn count)) (small : count < 2 ^ 32) :
    Reads (unpacki block) pos (packn count) (·.toNat = count) := by
  obtain ⟨value, ran, rfl⟩ := reads_word held
  exact ⟨_, ran, Nat.mod_eq_of_lt small⟩

section
variable (held : Holds block pos (packstr str))
include held

theorem str_at : strAt block pos = some str.text := by
  obtain ⟨rest, whole⟩ := held
  have nonzero : ∀ c ∈ str.text, (c ≠ 0 : Bool) = true := by
    intro c member
    have other : c ≠ 0 := fun zero => str.whole (zero ▸ member)
    simpa using other
  have taken : (block.drop pos).takeWhile (· ≠ 0) = str.text := by
    rw [← whole, packstr, List.append_assoc, List.takeWhile_append_of_pos nonzero]
    simp
  have length := congrArg List.length whole
  simp only [packstr, List.length_append, List.length_drop, List.length_singleton] at length
  unfold strAt
  rw [taken]
  exact if_pos (by omega)

theorem reads_str :
    Reads (unpackstr block) pos (packstr str) (strAt block · = some str.text) := by
  refine ⟨pos, ?_, str_at held⟩
  change unpackstr block pos = _
  unfold unpackstr
  rw [str_at held]
  simp [packstr]
  omega

theorem reads_copy :
    Reads (unpackcopy block) pos (packstr str) (· = str.text) := by
  rw [← List.append_nil (packstr str)]
  apply Reads.bind (reads_str held)
  intro address found
  rw [found]
  exact ⟨str.text, rfl, rfl⟩

end

theorem reads_fs (held : Holds block pos (packFs fs)) :
    Reads (unpackFs block) pos (packFs fs) (· = ⟨fs.id, fs.pid, fs.mountpoint.text⟩) := by
  apply Reads.seq held reads_word
  rintro _ rfl behind
  apply Reads.seq behind reads_word
  rintro _ rfl mountpoint
  rw [← List.append_nil (packstr fs.mountpoint)]
  apply Reads.bind (reads_copy mountpoint)
  rintro _ rfl
  exact .pure rfl

/-- A file is read back with its own fields and a pointer to its path. -/
theorem reads_file (held : Holds block pos (packFile file)) (fslist : List (FsItem Str)) :
    Reads (unpackFile block fslist) pos (packFile file) fun opened =>
      opened.map (strAt block) id = file.map (some ·.text) (fsbyid fslist ·.id) := by
  apply Reads.seq held reads_word
  rintro _ rfl held
  apply Reads.seq held reads_word
  rintro _ rfl held
  apply Reads.seq held reads_word
  rintro _ rfl held
  apply Reads.seq held reads_word
  rintro _ rfl held
  apply Reads.seq held reads_word
  rintro _ rfl held
  apply Reads.seq held reads_word
  rintro _ rfl held
  apply Reads.seq held reads_word
  rintro _ rfl held
  apply Reads.seq held reads_word
  rintro _ rfl path
  rw [← List.append_nil (packstr file.path)]
  apply Reads.bind (reads_str path)
  intro address found
  apply Reads.pure
  simp [File.map, found]

/-- The head of some data. -/
structure HeadOf (d : Data) (block : List UInt8) (head : Head) : Prop where
  argv : head.argv.map (strAt block) = d.args.map (some ·.text)
  environ : head.environ = d.vars.map (·.text)
  cwd : head.cwd = d.dir.text
  cmask : head.cmask = d.cmask
  fss : head.fss = d.fslist.map fun fs => ⟨fs.id, fs.pid, fs.mountpoint.text⟩
  filesNum : head.filesNum.toNat = d.filelist.length

/-- The data fits into a 32-bit address space. -/
structure Addressable (d : Data) : Prop where
  args : d.args.length < 2 ^ 32
  vars : d.vars.length < 2 ^ 32
  fslist : d.fslist.length < 2 ^ 32
  filelist : d.filelist.length < 2 ^ 32
  size : allocated d ≤ 2 ^ 32 - 4096

theorem reads_head {d : Data} (small : Addressable d) (held : Holds block pos (packHead d)) :
    Reads (unpackHead block) pos (packHead d) (HeadOf d block) := by
  apply Reads.seq held (reads_count · small.args)
  intro argc count held
  rw [count]
  apply Reads.seq held (.times fun arg _ _ => reads_str)
  intro argv args held
  apply Reads.seq held (reads_count · small.vars)
  intro envNum count held
  rw [count]
  apply Reads.seq held (.times fun var _ _ => reads_copy)
  intro environ vars held
  apply Reads.seq held reads_copy
  rintro _ rfl held
  apply Reads.seq held reads_word
  rintro _ rfl held
  apply Reads.seq held (reads_count · small.fslist)
  intro fsNum count held
  rw [count]
  apply Reads.seq held (.times fun fs _ _ => reads_fs)
  intro fss fslist filesNum
  rw [← List.append_nil (packn d.filelist.length)]
  apply Reads.bind (reads_count filesNum small.filelist)
  intro filesNum count
  apply Reads.pure
  exact {
    argv := map_of_matches args
    environ := by simpa using map_of_matches (g := id) vars
    cwd := rfl
    cmask := rfl
    fss := by simpa using map_of_matches (g := id) fslist
    filesNum := count }

end Reading

/-- Unpacking goes through the head and then reads as many files as the table had. -/
theorem unpack_packed {d : Data} (small : Addressable d) (known : List (FsItem Str)) (rest : List UInt8) :
    ∃ head, HeadOf d (packed d ++ rest) head ∧ (unpackAttached known (packed d ++ rest)).run 0 =
      ((times (unpackFile (packed d ++ rest) (head.fss.foldl llistPush known)) d.filelist.length).run
        (packHead d).length).map fun read => (head.process known (packed d ++ rest) read.1, read.2) := by
  have held : Holds (packed d ++ rest) 0 (packHead d) := by
    unfold packed
    rw [List.append_assoc]
    exact holds_start _ _
  obtain ⟨head, ran, good⟩ := (reads_head small held).run_bind fun head => do
    let files ← times (unpackFile (packed d ++ rest) (head.fss.foldl llistPush known)) head.filesNum.toNat
    return head.process known (packed d ++ rest) files
  refine ⟨head, good, ?_⟩
  unfold unpackAttached
  rw [ran, good.filesNum, Nat.zero_add, StateT.run_bind]
  cases (times (unpackFile (packed d ++ rest) (head.fss.foldl llistPush known)) d.filelist.length).run
    (packHead d).length <;> rfl

/-! How much is written. -/

theorem sum_filter (keep : α → Bool) (size : α → Nat) (items : List α) :
    ((items.filter keep).map size).sum + ((items.filter (!keep ·)).map size).sum = (items.map size).sum := by
  induction items with
  | nil => rfl
  | cons item items ih =>
    cases kept : keep item <;> simp [kept, ← ih] <;> omega

/-- The size that is set aside for files that are left out. -/
def leftOut (d : Data) : Nat :=
  ((d.filelist.filter (!stays ·)).map fun file => 33 + file.path.text.length).sum

/-- The bytes that are written are those that were asked for, one for the NUL of each variable
of the environment more, and less what was set aside for the files that are left out. -/
theorem packed_length (d : Data) : (packed d).length + leftOut d = allocated d + d.vars.length := by
  have word : ∀ value, (packi value).length = 4 := fun _ => rfl
  have str : ∀ text, (packstr text).length = text.text.length + 1 := by simp [packstr]
  have fs : ∀ fs, (packFs fs).length = 8 + (fs.mountpoint.text.length + 1) := by
    intro fs
    simp only [packFs, List.length_append, word, str]
    omega
  have file : ∀ file, (packFile file).length = 33 + file.path.text.length := by
    intro file
    simp only [packFile, List.length_append, word, str]
    omega
  have files := sum_filter stays (fun file : File CStr (FsItem CStr) => 33 + file.path.text.length) d.filelist
  simp only [packed, packHead, packFilesystems, packFiles, packn, allocated, filehandlesSize, leftOut,
    List.length_append, List.length_flatMap, word, str, fs, file, List.sum_map_add, List.map_const',
    List.sum_replicate, smul_eq_mul] at files ⊢
  omega

/-! What is restored. -/

/-- The process has the arguments, the environment, the working directory, the mask and the
files that the data hands on, as it reads them. -/
structure Restored (d : Data) (p : Process) : Prop where
  argv : p.argv.map p.text = d.args.map (some ·.text)
  environ : p.environ = d.vars.map (·.text)
  workdir : p.workdir.str = d.dir.text
  creationMask : p.creationMask = d.cmask
  files : (p.filelist.map (File.map p.text (Option.map (·.id)))).Perm
    ((d.filelist.filter stays).map (File.map (some ·.text) (some ·.id)))

theorem chdir_str {cwd : Str} (normal : Normalised cwd) : (chdir true cwd (setWorkdir [slash])).2.str = cwd := by
  have same : getabsolutepath (setWorkdir [slash]) cwd = cwd := by
    rw [absolute_root _ (normalised_starts normal)]
    exact normal_form_of_normalised normal
  change (setWorkdir (getabsolutepath (setWorkdir [slash]) cwd)).str = cwd
  rw [same, set_workdir_str normal]

theorem foldl_push (list values : List α) : values.foldl llistPush list = values.reverse ++ list := by
  induction values generalizing list with
  | nil => rfl
  | cons value values ih =>
    rw [List.foldl_cons, ih, List.reverse_cons, List.append_assoc]
    rfl

theorem fsbyid_listed {fslist : List (FsItem Str)} {fs : FsItem Str} (member : fs ∈ fslist) :
    (fsbyid fslist fs.id).map (·.id) = some fs.id := by
  unfold fsbyid
  cases found : fslist.find? (·.id = fs.id) with
  | none => exact absurd (List.find?_eq_none.mp found fs member) (by simp)
  | some other => simpa using List.find?_some found

section Restoring
variable {d : Data}

/-- While the object is attached, everything is restored if no file is left out. -/
theorem restored_while_attached (small : Addressable d) (normal : Normalised d.dir.text)
    (mask : umask d.cmask = d.cmask) (all : ∀ file ∈ d.filelist, stays file)
    (listed : ∀ file ∈ d.filelist, file.fs ∈ d.fslist) (known : List (FsItem Str)) (rest : List UInt8) :
    ∃ p, ((unpackAttached known (packed d ++ rest)).run 0).map (·.1) = some p ∧ Restored d p := by
  obtain ⟨head, good, ran⟩ := unpack_packed small known rest
  have kept : d.filelist.filter stays = d.filelist := List.filter_eq_self.mpr all
  have held : Holds (packed d ++ rest) (packHead d).length (d.filelist.flatMap packFile) := by
    have whole : Holds (packed d ++ rest) 0 (packHead d ++ packFiles d) := holds_start _ _
    have files := (holds_append.mp whole).2
    rw [Nat.zero_add, packFiles, kept] at files
    exact files
  obtain ⟨files, read, matching⟩ :=
    Reads.times (fun file _ _ here => reads_file here (head.fss.foldl llistPush known)) held
  rw [read] at ran
  refine ⟨head.process known (packed d ++ rest) files, by rw [ran]; rfl, good.argv, good.environ, ?_, ?_, ?_⟩
  · change (chdir true head.cwd (setWorkdir [slash])).2.str = _
    rw [good.cwd]
    exact chdir_str normal
  · change umask head.cmask = _
    rw [good.cmask, mask]
  · rw [kept]
    change ((files.foldl llistPush []).map (File.map (strAt _) (Option.map (·.id)))).Perm _
    rw [foldl_push, List.append_nil, List.map_reverse]
    apply (List.reverse_perm _).trans
    have same := map_of_matches matching
    have both := congrArg (List.map (File.map id (Option.map (·.id)))) same
    rw [List.map_map, List.map_map] at both
    refine List.Perm.of_eq (both.trans (List.map_congr_left fun file member => ?_))
    have found : (⟨file.fs.id, file.fs.pid, file.fs.mountpoint.text⟩ : FsItem Str) ∈
        head.fss.foldl llistPush known := by
      rw [foldl_push, good.fss]
      apply List.mem_append_left
      rw [List.mem_reverse]
      exact List.mem_map_of_mem (listed file member)
    have byid := fsbyid_listed found
    simp only [Function.comp, File.map, id, byid]

/-- After `shmdt` no argument can be read. -/
theorem detached_args {p : Process} (restored : Restored d p.shmdt) : d.args = [] := by
  cases args : d.args with
  | nil => rfl
  | cons arg rest =>
    have same := restored.argv
    rw [args, List.map_cons] at same
    have member : some arg.text ∈ p.argv.map p.shmdt.text := same ▸ List.mem_cons_self
    obtain ⟨address, -, read⟩ := List.mem_map.mp member
    cases read

/-- After `shmdt` no path can be read. -/
theorem detached_files {p : Process} (restored : Restored d p.shmdt) : p.filelist = [] := by
  cases files : p.filelist with
  | nil => rfl
  | cons file rest =>
    have member : file.map p.shmdt.text (Option.map (·.id)) ∈
        p.filelist.map (File.map p.shmdt.text (Option.map (·.id))) := by
      rw [files]
      exact List.mem_cons_self
    obtain ⟨other, -, same⟩ := List.mem_map.mp (restored.files.subset member)
    cases congrArg File.path same

/-- The bytes written fit into what was allocated, and whatever the new object held before, the
data is restored from it. -/
def Carried (known : List (FsItem Str)) (d : Data) : Prop :=
  (packed d).length ≤ allocated d ∧
    ∀ object : List UInt8, object.length = Shm.sizePages (allocated d) * 4096 →
      ∃ block p, procPackProcdata d object = some block ∧ procUnpackProcdata known block = some p ∧
        Restored d p

theorem size_pages (small : size ≤ 2 ^ 32 - 4096) (some : 0 < size) : size ≤ Shm.sizePages size * 4096 := by
  unfold Shm.sizePages
  have wrapped : (size + (2 ^ 32 - 1)) % 2 ^ 32 = size - 1 := by omega
  rw [wrapped]
  omega

theorem pack_fits {object : List UInt8} (fits : (packed d).length ≤ object.length) :
    procPackProcdata d object = some (packed d ++ object.drop (packed d).length) := if_pos fits

theorem allocated_pos (d : Data) : 0 < allocated d := by
  unfold allocated
  omega

/-- A process hands all of its data on exactly if it has no arguments, no environment and no
open files, and a mask of nine bits: without `argv` and files nothing is read from the
detached object, and without left out files nothing is set aside for the environment. -/
theorem carried_iff (known : List (FsItem Str)) (small : Addressable d) (normal : Normalised d.dir.text) :
    Carried known d ↔ d.args = [] ∧ d.vars = [] ∧ d.filelist = [] ∧ umask d.cmask = d.cmask := by
  constructor
  · rintro ⟨fits, carried⟩
    obtain ⟨block, p, packs, unpacks, restored⟩ :=
      carried (.replicate (Shm.sizePages (allocated d) * 4096) 0) List.length_replicate
    have room := Option.ite_none_right_eq_some.mp packs
    obtain ⟨head, good, ran⟩ := unpack_packed small known
      ((List.replicate (Shm.sizePages (allocated d) * 4096) 0).drop (packed d).length)
    rw [Option.some.inj room.2] at ran
    unfold procUnpackProcdata at unpacks
    rw [ran, Option.map_map] at unpacks
    obtain ⟨⟨files, after⟩, read, rfl⟩ := Option.map_eq_some_iff.mp unpacks
    have opened : files.foldl llistPush [] = [] := detached_files restored
    rw [foldl_push, List.append_nil, List.reverse_eq_nil_iff] at opened
    have none : d.filelist = [] := by
      apply List.length_eq_zero_iff.mp
      rw [← times_length read, opened]
      rfl
    refine ⟨detached_args restored, ?_, none, ?_⟩
    · have length := packed_length d
      have nothing : leftOut d = 0 := by simp [leftOut, none]
      apply List.length_eq_zero_iff.mp
      omega
    · have mask := restored.creationMask
      rw [← good.cmask] at mask ⊢
      exact mask
  · rintro ⟨args, vars, none, mask⟩
    have fits : (packed d).length ≤ allocated d := by
      have length := packed_length d
      rw [vars, List.length_nil] at length
      omega
    refine ⟨fits, fun object size => ?_⟩
    have room : (packed d).length ≤ object.length := by
      rw [size]
      exact fits.trans (size_pages small.size (allocated_pos d))
    obtain ⟨p, ran, restored⟩ := restored_while_attached small normal mask
      (fun file member => absurd (none ▸ member) List.not_mem_nil)
      (fun file member => absurd (none ▸ member) List.not_mem_nil) known (object.drop (packed d).length)
    have argv : p.argv = [] := by
      have same := restored.argv
      rwa [args, List.map_nil, List.map_eq_nil_iff] at same
    have files : p.filelist = [] := by
      have same := restored.files
      rwa [none, List.filter_nil, List.map_nil, List.perm_nil, List.map_eq_nil_iff] at same
    refine ⟨_, p.shmdt, pack_fits room, ?_, ?_⟩
    · unfold procUnpackProcdata
      obtain ⟨read, same, rfl⟩ := Option.map_eq_some_iff.mp ran
      rw [same]
      rfl
    · exact { restored with
        argv := by
          change p.argv.map _ = _
          rw [argv, args]
          rfl
        files := by
          change (p.filelist.map _).Perm _
          rw [files, none]
          exact .refl [] }

end Restoring

/-- One argument, and one open file that is marked `FD_CLOEXEC`. -/
def oneArgument : Data where
  argv := some [⟨[97], by decide⟩]
  env := none
  cwd := none
  cmask := 0o22
  fslist := [⟨1, 1, ⟨[slash], by decide⟩⟩]
  filelist := [⟨3, 0, 0, 0, 0, 0, fdCloexec, ⟨1, 1, ⟨[slash], by decide⟩⟩, ⟨[slash, 98], by decide⟩⟩]

/-- The argument is unreadable after the detach, and the count of files covers an entry that was
never written, so a file is read from what the object held before. A single variable of the
environment is one byte longer than what is allocated for it. -/
theorem one_argument_is_lost : Addressable oneArgument ∧ Normalised oneArgument.dir.text ∧
    ((procPackProcdata oneArgument (.replicate 4096 0)).bind (procUnpackProcdata [])).map
      (fun p => (p.argv.map p.text, p.filelist.map (·.fh))) = some ([none], [0]) ∧
    ¬ Carried [] oneArgument ∧
    (packed { oneArgument with env := some [⟨[98], by decide⟩], filelist := [] }).length =
      allocated { oneArgument with env := some [⟨[98], by decide⟩], filelist := [] } + 1 := by
  refine ⟨⟨by decide, by decide, by decide, by decide, by decide⟩, normal_form_normalised [47],
    by decide +kernel, ?_, by decide⟩
  rintro ⟨-, carried⟩
  obtain ⟨block, p, -, unpacks, restored⟩ :=
    carried (.replicate (Shm.sizePages (allocated oneArgument) * 4096) 0) List.length_replicate
  obtain ⟨read, -, rfl⟩ := Option.map_eq_some_iff.mp unpacks
  cases detached_args restored

/-- The working directory /a, one file system and a mask. -/
def inDirectory : Data where
  argv := none
  env := none
  cwd := some ⟨[slash, 97], by decide⟩
  cmask := 0o22
  fslist := [⟨1, 1, ⟨[slash], by decide⟩⟩]
  filelist := []

theorem working_directory_is_carried : Carried [] inDirectory := by
  have normal : Normalised inDirectory.dir.text := normal_form_normalised [slash, 97]
  exact (carried_iff [] ⟨by decide, by decide, by decide, by decide, by decide⟩ normal).mpr
    ⟨rfl, rfl, rfl, by decide⟩

end MeinOS.Procdata
