import MeinOS.Files
import MeinOS.Ipc

/-! The handles of open files on both sides: the client of `apps/lib/stdlibc/files.c` against
the handle list of `apps/lib/libfuse/fuse_lowlevel.c` or of `apps/lib/libcdi/fs.c`, whose driver
does what it is asked.

`fs_close` of libfuse frees a handle and leaves it in the list, where later searches read it.
Neither `fs_dup` puts the handle that it makes into the list, so that no request ever finds it,
and `dup2` of the client returns the number of that handle instead of the new descriptor. -/
namespace MeinOS.FileServers
open Llist Lib.Runs Files
open Procm (Ptr)
open Ipc (einval)

/-- The library that the server uses. -/
inductive Library where
  | fuse
  | cdi
  deriving DecidableEq

/-- `FILE_REG`, `FILE_FIFO` and `FILE_LINK`; files of libfuse are `REG`. -/
inductive FileType where
  | reg
  | fifo
  | link
  deriving DecidableEq

/-- `struct fuse_file` or `struct cdi_fs_file`: its number, the file it is for and its position,
which is `none` as long as nothing was written there. -/
structure Handle where
  fh : Int
  file : Nat
  type : FileType
  off : Option Int
  deriving DecidableEq

/-- The list of handles, where `none` is one that was freed, and the next number. -/
structure Server where
  files : List (Option Handle)
  lastFh : Int
  deriving DecidableEq

def ebadf : Int := 8

/-- `fuse_file_find` and `cdi_fs_file_find`: the handle, if there is one; nothing at all if a
freed handle is read on the way. -/
def fileFind (fh : Int) : List (Option Handle) → Option (Option Handle)
  | [] => some none
  | none :: _ => none
  | some handle :: files => if handle.fh = fh then some (some handle) else fileFind fh files

/-- The list after something was done to the handle of this number. -/
def update (fh : Int) (f : Handle → Option Handle) (files : List (Option Handle)) : List (Option Handle) :=
  files.map fun file => file.bind fun handle => if handle.fh = fh then f handle else some handle

/-- The list after the position of the handle of this number was set. -/
def move (fh : Int) (f : Option Int → Option Int) (files : List (Option Handle)) : List (Option Handle) :=
  update fh (fun handle => some { handle with off := f handle.off }) files

/-- The handle that `fs_open` makes. Only a regular file gets a position from libcdi, which is
the end of the file with `O_APPEND`. -/
def newHandle (lib : Library) (fh : Int) (file : Nat) (type : FileType) (append : Bool) (size : Int) : Handle :=
  match lib, type with
  | .fuse, _ => ⟨fh, file, .reg, some 0⟩
  | .cdi, .reg => ⟨fh, file, .reg, some (if append then size else 0)⟩
  | .cdi, .fifo => ⟨fh, file, .fifo, none⟩
  | .cdi, .link => ⟨fh, file, .link, none⟩

/-- `fs_open`. -/
def fsOpen (lib : Library) (file : Nat) (type : FileType) (append : Bool) (size : Int) (s : Server) :
    Int × Server :=
  (s.lastFh, ⟨llistPush s.files (some (newHandle lib s.lastFh file type append size)), s.lastFh + 1⟩)

/-- `fs_close` of a handle that was found. -/
def closeHandle (lib : Library) (handle : Handle) (s : Server) : Int × Server :=
  match lib with
  | .fuse => (0, { s with files := update handle.fh (fun _ => none) s.files })
  | .cdi =>
    if handle.type = .link then (-ebadf, s)
    else (0, { s with files := (llistRemove s.files (llistFind s.files (some handle))).2 })

/-- `fs_read` and `fs_write` with a handle that was found, for which `count` bytes are moved. -/
def transferHandle (lib : Library) (count : Nat) (handle : Handle) (s : Server) : Int × Server :=
  match lib, handle.type with
  | .cdi, .link => (-ebadf, s)
  | .cdi, .fifo => (count, s)
  | _, _ => (count, { s with files := move handle.fh (Option.map (· + (count : Int))) s.files })

/-- `SEEK_SET`, `SEEK_CUR`, `SEEK_END` and any other value. -/
inductive Whence where
  | set
  | cur
  | fromEnd
  | other
  deriving DecidableEq

/-- The position that `fs_seek` sets. libfuse takes the start for the end. -/
def seekTo (lib : Library) (off : Int) (whence : Whence) (size : Int) (old : Option Int) : Option Int :=
  match whence, lib with
  | .set, _ => some off
  | .cur, _ => old.map (· + off)
  | .fromEnd, .fuse => some 0
  | .fromEnd, .cdi => some (size + off)
  | .other, _ => old

/-- `fs_seek` with a handle that was found. -/
def seekHandle (lib : Library) (off : Int) (whence : Whence) (size : Int) (handle : Handle) (s : Server) :
    Int × Server :=
  if lib = .cdi ∧ handle.type ≠ .reg then (-ebadf, s)
  else if lib = .cdi ∧ whence = .other then (-einval, s)
  else ((seekTo lib off whence size handle.off).getD 0,
    { s with files := move handle.fh (seekTo lib off whence size) s.files })

/-- `fs_dup` of a handle that was found: a number for a handle that is not put into the list. The
client does not send the shared memory object that the server attaches; libcdi checks whether
that went well. -/
def dupHandle (lib : Library) (attached : Bool) (s : Server) : Int × Server :=
  if lib = .cdi ∧ attached = false then (-einval, s) else (s.lastFh, { s with lastFh := s.lastFh + 1 })

/-- A request for a handle, which is refused if there is none. -/
def request (fh : Int) (serve : Handle → Server → Int × Server) (s : Server) : Option (Int × Server) :=
  (fileFind fh s.files).map fun
    | none => (-ebadf, s)
    | some handle => serve handle s

/-- The client and the server. `held` has what `open` and `dup2` returned, with the file that was
meant, until it is closed, and `closed` the handles that were closed. -/
structure World where
  lib : Library
  client : Client
  server : Server
  held : List (Int × Nat)
  closed : List Int

/-- The calls of the client, with what the driver and the shared memory come up with. `read` and
`write` ask the server once for every page; each time is a step. -/
inductive Event where
  | openFile (new : Ptr) (attached : Bool) (file : Nat) (type : FileType) (append : Bool) (size : Int)
  | dup2 (new : Ptr) (fildes fildes2 : Int) (attached : Bool)
  | transfer (fildes : Int) (count : Nat)
  | lseek (fildes off : Int) (whence : Whence) (size : Int)
  | closeFile (fildes : Int)
  deriving DecidableEq

/-- `open`, which returns zero without asking the server if it has no buffer. -/
def openBoth (new : Ptr) (attached : Bool) (file : Nat) (type : FileType) (append : Bool) (size : Int)
    (w : World) : World :=
  let done := if attached then fsOpen w.lib file type append size w.server else (0, w.server)
  let opened := Files.openFile new attached done.1 w.client
  { w with client := opened.2, server := done.2, held := (opened.1, file) :: w.held }

/-- `close` after the server has answered. -/
def closeAnswered (fildes : Int) (item : Item) (w : World) (done : Int × Server) : World :=
  { w with
    client := (Files.closeFile fildes done.1 w.client).2
    server := done.2
    held := if done.1 = 0 then w.held.filter (·.1 ≠ fildes) else w.held
    closed := if done.1 = 0 then item.fsFh :: w.closed else w.closed }

/-- `close`. -/
def closeBoth (fildes : Int) (w : World) : Option World :=
  match filebyfh w.client fildes with
  | none => some w
  | some item => (request item.fsFh (closeHandle w.lib) w.server).map (closeAnswered fildes item w)

/-- The file of a server handle. -/
def fileOf (fh : Int) (s : Server) : Nat :=
  match fileFind fh s.files with
  | some (some handle) => handle.file
  | _ => 0

/-- `dup2` after the server has answered. -/
def dupAnswered (new : Ptr) (fildes2 : Int) (item : Item) (w : World) (done : Int × Server) : Option World :=
  if 0 ≤ done.1 then
    (if fildes2 = 0 then some { w with server := done.2 } else closeBoth fildes2 { w with server := done.2 }).map
      fun closed =>
        { closed with
          client := if fildes2 = 0 then
              ⟨llistPush closed.client.filelist ⟨new, closed.client.nextfh, done.1⟩, closed.client.nextfh + 1⟩
            else { closed.client with filelist := llistPush closed.client.filelist ⟨new, fildes2, done.1⟩ }
          held := (done.1, fileOf item.fsFh w.server) :: closed.held }
  else some { w with server := done.2 }

/-- `dup2`. -/
def dupBoth (new : Ptr) (fildes fildes2 : Int) (attached : Bool) (w : World) : Option World :=
  match filebyfh w.client fildes with
  | none => some w
  | some item =>
    (request item.fsFh (fun _ => dupHandle w.lib attached) w.server).bind (dupAnswered new fildes2 item w)

/-- A request for the handle of a descriptor that only concerns the server. -/
def served (fildes : Int) (serve : Handle → Server → Int × Server) (w : World) : Option World :=
  match filebyfh w.client fildes with
  | none => some w
  | some item => (request item.fsFh serve w.server).map fun done => { w with server := done.2 }

def step (w : World) : Event → Option World
  | .openFile new attached file type append size => some (openBoth new attached file type append size w)
  | .dup2 new fildes fildes2 attached => dupBoth new fildes fildes2 attached w
  | .transfer fildes count => served fildes (transferHandle w.lib count) w
  | .lseek fildes off whence size => served fildes (seekHandle w.lib off whence size) w
  | .closeFile fildes => closeBoth fildes w

/-- A client after `_fs_init` and a server that has not opened anything. -/
def start (lib : Library) : World := ⟨lib, Files.start [], ⟨[], 0⟩, [], []⟩

/-- A handle whose position is set if it is ever used. -/
def Initialised (handle : Handle) : Prop := handle.type = .reg → handle.off.isSome

instance (handle : Handle) : Decidable (Initialised handle) :=
  inferInstanceAs (Decidable (_ → _))

/-- The descriptor leads to an initialised handle of the file. -/
def Resolves (w : World) (fildes : Int) (file : Nat) : Prop :=
  ∃ item handle, filebyfh w.client fildes = some item ∧
    fileFind item.fsFh w.server.files = some (some handle) ∧ Initialised handle ∧ handle.file = file

/-- What `open` and `dup2` returned leads to its file until it is closed, and a request for a
closed handle is refused without reading a freed one. -/
structure LivesWell (w : World) : Prop where
  held : ∀ value ∈ w.held, Resolves w value.1 value.2
  closed : ∀ fh ∈ w.closed, fileFind fh w.server.files = some none

/-- `open` has a buffer, and the two counters are not at the end of an `int`; `dup2` is called with a
descriptor that is not open, or libcdi cannot attach its buffer; and with libfuse `close` is called
with a descriptor that is not open. -/
def Meets (w : World) : Event → Prop
  | .openFile _ attached .. =>
    attached ∧ w.client.nextfh < 2 ^ 31 - 1 ∧ w.server.lastFh < 2 ^ 31 - 1
  | .dup2 _ fildes _ attached => filebyfh w.client fildes = none ∨ w.lib = .cdi ∧ attached = false
  | .closeFile fildes => filebyfh w.client fildes = none ∨ w.lib = .cdi
  | .transfer .. => True
  | .lseek .. => True

instance (w : World) : (event : Event) → Decidable (Meets w event)
  | .openFile _ attached .. => inferInstanceAs (Decidable (attached = true ∧ _ ∧ _))
  | .dup2 .. => inferInstanceAs (Decidable (_ ∨ _ ∧ _))
  | .closeFile _ => inferInstanceAs (Decidable (_ ∨ _))
  | .transfer .. | .lseek .. => isTrue trivial

/-- What the two sides agree on while no handle is freed and none is duplicated: `handles` are the
handles of the server, and different entries of the client have different ones. -/
structure Paired (w : World) (handles : List Handle) : Prop where
  files : w.server.files = handles.map some
  counter : 0 ≤ w.server.lastFh
  numbered : (handles.map (·.fh)).Nodup
  below : ∀ handle ∈ handles, handle.fh < w.server.lastFh
  initialised : ∀ handle ∈ handles, Initialised handle
  next : 0 ≤ w.client.nextfh
  distinct : Distinct w.client
  used : ∀ item ∈ w.client.filelist, 0 ≤ item.fh ∧ item.fh < w.client.nextfh
  own : (w.client.filelist.map (·.fsFh)).Nodup
  given : ∀ item ∈ w.client.filelist, item.fsFh < w.server.lastFh
  held : ∀ value ∈ w.held, ∃ item ∈ w.client.filelist, item.fh = value.1 ∧
    ∃ handle ∈ handles, handle.fh = item.fsFh ∧ handle.file = value.2
  closed : ∀ fh ∈ w.closed, fh < w.server.lastFh ∧ ∀ handle ∈ handles, handle.fh ≠ fh

theorem paired_start (lib : Library) : Paired (start lib) [] where
  files := rfl
  counter := le_refl 0
  numbered := List.nodup_nil
  below := by simp
  initialised := by simp
  next := show (0 : Int) ≤ 3 by decide
  distinct := List.nodup_nil
  used := by simp [start, Files.start]
  own := List.nodup_nil
  given := by simp [start, Files.start]
  held := by simp [start]
  closed := by simp [start]

/-! What a search finds. -/

theorem find_live (fh : Int) (handles : List Handle) :
    fileFind fh (handles.map some) = some (handles.find? (·.fh = fh)) := by
  induction handles with
  | nil => rfl
  | cons handle handles ih =>
    simp only [List.map_cons, fileFind, List.find?_cons]
    by_cases same : handle.fh = fh
    · simp [same]
    · simp [same, ih]

/-- A request in a list without freed handles is answered. -/
theorem request_live {s : Server} {handles : List Handle} (files : s.files = handles.map some) (fh : Int)
    (serve : Handle → Server → Int × Server) :
    request fh serve s = some (match handles.find? (·.fh = fh) with
      | none => (-ebadf, s)
      | some handle => serve handle s) := by
  unfold request
  rw [files, find_live]
  cases handles.find? (·.fh = fh) <;> rfl

theorem Paired.lives_well (paired : Paired w handles) : LivesWell w where
  held := by
    intro value member
    obtain ⟨item, listed, named, handle, live, same, file⟩ := paired.held value member
    have valid := (paired.used item listed).1
    refine ⟨item, handle, ?_, ?_, paired.initialised handle live, file⟩
    · rw [← named, filebyfh_find valid]
      exact find_keyed paired.distinct listed
    · rw [paired.files, find_live, ← same]
      exact congrArg some (find_keyed paired.numbered live)
  closed := by
    intro fh member
    rw [paired.files, find_live]
    have gone : handles.find? (·.fh = fh) = none := by
      rw [List.find?_eq_none]
      intro handle live
      simpa using (paired.closed fh member).2 handle live
    exact congrArg some gone

/-! What the calls keep. -/

section
variable (lib : Library) (fh : Int) (file : Nat) (type : FileType) (append : Bool) (size : Int)
include lib fh file type append size

theorem new_handle_fh : (newHandle lib fh file type append size).fh = fh := by
  cases lib <;> cases type <;> rfl

theorem new_handle_file : (newHandle lib fh file type append size).file = file := by
  cases lib <;> cases type <;> rfl

theorem new_handle_initialised : Initialised (newHandle lib fh file type append size) := by
  cases lib <;> cases type <;> simp [Initialised, newHandle]

end

theorem open_paired (paired : Paired w handles) (new : Ptr) (file : Nat) (type : FileType) (append : Bool)
    (size : Int) : Paired (openBoth new true file type append size w)
      (newHandle w.lib w.server.lastFh file type append size :: handles) := by
  have opened : openBoth new true file type append size w =
      { w with
        client := ⟨⟨new, w.client.nextfh, w.server.lastFh⟩ :: w.client.filelist, w.client.nextfh + 1⟩
        server := ⟨some (newHandle w.lib w.server.lastFh file type append size) :: w.server.files,
          w.server.lastFh + 1⟩
        held := (w.client.nextfh, file) :: w.held } := by
    simp [openBoth, fsOpen, Files.openFile, llistPush, paired.counter]
  rw [opened]
  have number := new_handle_fh w.lib w.server.lastFh file type append size
  have later : w.server.lastFh < w.server.lastFh + 1 := by omega
  constructor
  · simp [paired.files]
  · exact paired.counter.trans later.le
  · refine List.nodup_cons.mpr ⟨fun taken => ?_, paired.numbered⟩
    obtain ⟨handle, live, same⟩ := List.mem_map.mp taken
    have := paired.below handle live
    exact absurd (same.trans number) (by omega)
  · refine List.forall_mem_cons.mpr ⟨number.trans_lt later, fun handle live => ?_⟩
    exact (paired.below handle live).trans later
  · refine List.forall_mem_cons.mpr ⟨?_, paired.initialised⟩
    apply new_handle_initialised
  · have := paired.next
    change 0 ≤ w.client.nextfh + 1
    omega
  · have vacant : Vacant w.client.nextfh w.client :=
      fun item listed same => absurd (paired.used item listed).2 (by omega)
    exact push_distinct paired.distinct vacant _
  · refine List.forall_mem_cons.mpr ⟨⟨paired.next, ?_⟩, fun item listed => ?_⟩
    · change w.client.nextfh < w.client.nextfh + 1
      omega
    · have := paired.used item listed
      exact ⟨this.1, this.2.trans (by change w.client.nextfh < w.client.nextfh + 1; omega)⟩
  · refine List.nodup_cons.mpr ⟨fun taken => ?_, paired.own⟩
    obtain ⟨item, listed, same⟩ := List.mem_map.mp taken
    have := paired.given item listed
    simp only at same
    omega
  · exact List.forall_mem_cons.mpr ⟨later, fun item listed => (paired.given item listed).trans later⟩
  · refine List.forall_mem_cons.mpr ⟨⟨_, List.mem_cons_self, rfl, _, List.mem_cons_self, number, ?_⟩, ?_⟩
    · exact new_handle_file ..
    · intro value member
      obtain ⟨item, listed, named, handle, live, rest⟩ := paired.held value member
      exact ⟨item, List.mem_cons_of_mem _ listed, named, handle, List.mem_cons_of_mem _ live, rest⟩
  · intro fh member
    obtain ⟨old, gone⟩ := paired.closed fh member
    refine ⟨old.trans later, List.forall_mem_cons.mpr ⟨?_, gone⟩⟩
    rw [number]
    omega

/-- Moving the positions of handles changes nothing else. -/
theorem Paired.moved (paired : Paired w handles) {g : Handle → Handle} (fh : ∀ handle, (g handle).fh = handle.fh)
    (file : ∀ handle, (g handle).file = handle.file)
    (initialised : ∀ handle, Initialised handle → Initialised (g handle)) :
    Paired { w with server := { w.server with files := (handles.map g).map some } } (handles.map g) :=
  { paired with
    files := rfl
    numbered := by simpa only [List.map_map, Function.comp_def, fh] using paired.numbered
    below := List.forall_mem_map.mpr fun handle live => (fh handle).symm ▸ paired.below handle live
    initialised := List.forall_mem_map.mpr fun handle live => initialised handle (paired.initialised handle live)
    held := by
      intro value member
      obtain ⟨item, listed, named, handle, live, same, meant⟩ := paired.held value member
      exact ⟨item, listed, named, g handle, List.mem_map_of_mem live, (fh handle).trans same,
        (file handle).trans meant⟩
    closed := by
      intro number member
      obtain ⟨old, gone⟩ := paired.closed number member
      exact ⟨old, List.forall_mem_map.mpr fun handle live => (fh handle).symm ▸ gone handle live⟩ }

/-- What a request may do that only moves positions. -/
def Moves (serve : Handle → Server → Int × Server) : Prop :=
  ∀ handle s, Initialised handle → (serve handle s).2 = s ∨
    ∃ f : Option Int → Option Int, (∀ off, off.isSome → (f off).isSome) ∧
      (serve handle s).2 = { s with files := move handle.fh f s.files }

theorem move_live (fh : Int) (f : Option Int → Option Int) (handles : List Handle) :
    move fh f (handles.map some) =
      (handles.map fun h => if h.fh = fh then { h with off := f h.off } else h).map some := by
  simp only [move, update, List.map_map]
  refine List.map_congr_left fun handle _ => ?_
  simp only [Function.comp_apply, Option.bind_some]
  split <;> rfl

theorem served_paired {serve : Handle → Server → Int × Server} (moves : Moves serve) (paired : Paired w handles)
    (fildes : Int) : ∃ next handles, served fildes serve w = some next ∧ Paired next handles := by
  unfold served
  cases filebyfh w.client fildes with
  | none => exact ⟨w, handles, rfl, paired⟩
  | some item =>
    simp only [request_live paired.files, Option.map_some]
    cases found : handles.find? (·.fh = item.fsFh) with
    | none => exact ⟨w, handles, rfl, paired⟩
    | some handle =>
      have ready := paired.initialised handle (List.mem_of_find?_eq_some found)
      obtain same | ⟨f, sets, moved⟩ := moves handle w.server ready
      · exact ⟨w, handles, by rw [same], paired⟩
      · refine ⟨{ w with server := (serve handle w.server).2 },
          handles.map fun h => if h.fh = handle.fh then { h with off := f h.off } else h, rfl, ?_⟩
        rw [moved, paired.files, move_live]
        apply paired.moved
        · intro h
          split <;> rfl
        · intro h
          split <;> rfl
        · intro h ready
          split
          · exact fun regular => sets _ (ready regular)
          · exact ready

theorem transfer_moves (lib : Library) (count : Nat) : Moves (transferHandle lib count) := by
  intro handle s _
  unfold transferHandle
  split
  · exact .inl rfl
  · exact .inl rfl
  · exact .inr ⟨_, fun off set => by simpa using set, rfl⟩

theorem seek_moves (lib : Library) (off : Int) (whence : Whence) (size : Int) :
    Moves (seekHandle lib off whence size) := by
  intro handle s _
  unfold seekHandle
  split
  · exact .inl rfl
  · split
    · exact .inl rfl
    · refine .inr ⟨_, fun old set => ?_, rfl⟩
      cases whence <;> cases lib <;> simp_all [seekTo]

/-- `close` takes the entry and its handle away, and leaves the others. -/
theorem close_paired (paired : Paired w handles) {fildes : Int} {item : Item} {handle : Handle}
    (entry : filebyfh w.client fildes = some item) (found : handles.find? (·.fh = item.fsFh) = some handle) :
    Paired (closeAnswered fildes item w (0, { w.server with files := (handles.erase handle).map some }))
      (handles.erase handle) := by
  have valid : 0 ≤ fildes := by
    by_contra negative
    simp [filebyfh, negative] at entry
  have looked := entry
  rw [filebyfh_find valid] at looked
  have listed := List.mem_of_find?_eq_some looked
  have named : item.fh = fildes := by simpa using List.find?_some looked
  have live := List.mem_of_find?_eq_some found
  have number : handle.fh = item.fsFh := by simpa using List.find?_some found
  have once : handles.Nodup := paired.numbered.of_map
  have client : (Files.closeFile fildes 0 w.client).2 =
      { w.client with filelist := w.client.filelist.eraseP (·.fh = fildes) } := by
    simp only [Files.closeFile, entry, if_true, removed_filelist]
  have vacant := close_vacant paired.distinct valid
  unfold closeAnswered
  simp only [if_true]
  rw [client] at vacant ⊢
  have fewer : ∀ other ∈ w.client.filelist.eraseP (·.fh = fildes), other ∈ w.client.filelist :=
    fun _ => List.mem_of_mem_eraseP
  constructor
  · rfl
  · exact paired.counter
  · exact paired.numbered.sublist (List.erase_sublist.map _)
  · exact fun other member => paired.below other (List.mem_of_mem_erase member)
  · exact fun other member => paired.initialised other (List.mem_of_mem_erase member)
  · exact paired.next
  · exact paired.distinct.sublist (List.eraseP_sublist.map _)
  · exact fun other member => paired.used other (fewer other member)
  · exact paired.own.sublist (List.eraseP_sublist.map _)
  · exact fun other member => paired.given other (fewer other member)
  · intro value member
    obtain ⟨kept, differs⟩ := List.mem_filter.mp member
    have differs : value.1 ≠ fildes := by simpa using differs
    obtain ⟨other, there, same, far, alive, leads, file⟩ := paired.held value kept
    have stays : other.fh ≠ fildes := same ▸ differs
    refine ⟨other, (List.mem_eraseP_of_neg (by simpa using stays)).mpr there, same, far, ?_, leads, file⟩
    refine (List.mem_erase_of_ne ?_).mpr alive
    rintro rfl
    have equal := List.inj_on_of_nodup_map paired.own there listed (leads.symm.trans number)
    exact stays (equal ▸ named)
  · refine List.forall_mem_cons.mpr ⟨⟨paired.given item listed, fun other member same => ?_⟩, ?_⟩
    · have equal := List.inj_on_of_nodup_map paired.numbered (List.mem_of_mem_erase member) live
        (same.trans number.symm)
      exact once.not_mem_erase (equal ▸ member)
    · intro fh member
      obtain ⟨old, gone⟩ := paired.closed fh member
      exact ⟨old, fun other there => gone other (List.mem_of_mem_erase there)⟩

/-- A refused `close` changes nothing. -/
theorem close_refused (fildes : Int) (item : Item) (w : World) :
    closeAnswered fildes item w (-ebadf, w.server) = w := by
  have kept : (Files.closeFile fildes (-ebadf) w.client).2 = w.client :=
    close_kept fun both => absurd both.2 (by decide)
  have refused : -ebadf ≠ 0 := by decide
  simp only [closeAnswered, kept, if_neg refused]

section
variable (paired : Paired w handles)
include paired

theorem close_both_paired (cdi : w.lib = .cdi) (fildes : Int) :
    ∃ next handles, closeBoth fildes w = some next ∧ Paired next handles := by
  unfold closeBoth
  cases entry : filebyfh w.client fildes with
  | none => exact ⟨w, handles, rfl, paired⟩
  | some item =>
    simp only [request_live paired.files, Option.map_some]
    cases found : handles.find? (·.fh = item.fsFh) with
    | none => exact ⟨w, handles, congrArg some (close_refused fildes item w), paired⟩
    | some handle =>
      simp only [cdi, closeHandle]
      split
      · exact ⟨w, handles, congrArg some (close_refused fildes item w), paired⟩
      · refine ⟨_, handles.erase handle, rfl, ?_⟩
        have removed : (llistRemove w.server.files (llistFind w.server.files (some handle))).2 =
            (handles.erase handle).map some := by
          rw [llist_remove_find, paired.files]
          -- the instance that `llist_find` compares with is not the one of `Option`
          exact (@List.map_erase _ _ _ _ instBEqOfDecidableEq _ _ (Option.some_injective _) _ handles).symm
        rw [removed]
        exact close_paired paired entry found

/-- A duplicate that the server does not make changes nothing. -/
theorem dup_refused {attached : Bool} (cdi : w.lib = .cdi) (apart : attached = false) (new : Ptr)
    (fildes fildes2 : Int) : dupBoth new fildes fildes2 attached w = some w := by
  have unable : ¬ 0 ≤ -einval := by decide
  have unknown : ¬ 0 ≤ -ebadf := by decide
  unfold dupBoth
  cases filebyfh w.client fildes with
  | none => rfl
  | some item =>
    simp only [request_live paired.files, Option.bind_some]
    cases handles.find? (·.fh = item.fsFh) with
    | none => simp only [dupAnswered, if_neg unknown]
    | some handle =>
      have refused : dupHandle w.lib attached w.server = (-einval, w.server) := if_pos ⟨cdi, apart⟩
      simp only [refused, dupAnswered, if_neg unable]

theorem step_paired {event : Event} (met : Meets w event) :
    ∃ next handles, step w event = some next ∧ Paired next handles := by
  cases event with
  | openFile new attached file type append size =>
    obtain ⟨rfl, -⟩ := met
    exact ⟨_, _, rfl, open_paired paired new file type append size⟩
  | dup2 new fildes fildes2 attached =>
    refine ⟨w, handles, ?_, paired⟩
    rcases met with missing | ⟨cdi, apart⟩
    · simp only [step, dupBoth, missing]
    · exact dup_refused paired cdi apart new fildes fildes2
  | transfer fildes count => exact served_paired (transfer_moves w.lib count) paired fildes
  | lseek fildes off whence size => exact served_paired (seek_moves w.lib off whence size) paired fildes
  | closeFile fildes =>
    rcases met with missing | cdi
    · exact ⟨w, handles, by simp only [step, closeBoth, missing], paired⟩
    · exact close_both_paired paired cdi fildes

end

/-- As long as `open` has its buffer and a number to give, nothing is duplicated and libfuse closes
nothing, every call goes through, descriptors lead to live handles of their files until they are
closed, and closed handles are unknown. -/
theorem handles_live_until_closed (lib : Library) (events : List Event)
    (met : Along step Meets (start lib) events) :
    (∃ last, run step (start lib) events = some last) ∧ Throughout step LivesWell (start lib) events := by
  have goes : ∀ w event, (∃ handles, Paired w handles) → Meets w event →
      ∃ next, step w event = some next ∧ ∃ handles, Paired next handles := by
    rintro w event ⟨handles, paired⟩ met
    obtain ⟨next, handles, stepped, kept⟩ := step_paired paired met
    exact ⟨next, stepped, handles, kept⟩
  have good : ∀ w, (∃ handles, Paired w handles) → LivesWell w := by
    rintro w ⟨handles, paired⟩
    exact paired.lives_well
  have fresh : ∃ handles, Paired (start lib) handles := ⟨[], paired_start lib⟩
  exact guarded_run goes good fresh met

/-- A file that is opened twice at libcdi, written, moved in and closed. -/
theorem opened_files_live :
    (∃ last, run step (start .cdi) [.openFile 1 true 7 .reg false 0, .openFile 2 true 7 .reg true 5,
      .transfer 3 4, .lseek 4 1 .cur 9, .closeFile 3, .transfer 4 2] = some last) ∧
    Throughout step LivesWell (start .cdi) [.openFile 1 true 7 .reg false 0, .openFile 2 true 7 .reg true 5,
      .transfer 3 4, .lseek 4 1 .cur 9, .closeFile 3, .transfer 4 2] :=
  handles_live_until_closed .cdi _ (by decide)

/-- With either library `dup2` of the first file returns 1, which is no descriptor. With libfuse
the list still has the freed handle after the first `close`, and the next request reads it. -/
theorem handles_outlive_their_use :
    (∀ lib, ∃ w, run step (start lib) [.openFile 1 true 7 .reg false 0, .dup2 2 3 0 true] = some w ∧
      w.held = [(1, 7), (3, 7)] ∧ filebyfh w.client 1 = none ∧ ¬ LivesWell w) ∧
    (∃ w, run step (start .fuse) [.openFile 1 true 7 .reg false 0, .closeFile 3] = some w ∧
      w.closed = [0] ∧ fileFind 0 w.server.files = none ∧ ¬ LivesWell w) := by
  constructor
  · intro lib
    cases lib
    all_goals
      refine ⟨_, rfl, rfl, rfl, fun lives => ?_⟩
      obtain ⟨item, -, found, -⟩ := lives.held (1, 7) List.mem_cons_self
      cases found
  · refine ⟨_, rfl, rfl, rfl, fun lives => ?_⟩
    cases lives.closed 0 List.mem_cons_self

end MeinOS.FileServers
