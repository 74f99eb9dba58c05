import MeinOS.Ipc
import MeinOS.KernelHeap

/-! Shared memory objects, `kernel2/shm.c`. An object owns physical pages; an
attachment maps them into the address space of the process that makes it and is
remembered with that process and its address.

`ipc_shm_destroy` and `ipc_shm_detach` unmap through the loaded page directory.
`ipc_shm_attach` asks for no permission, and an address given by the caller has to be
at or above `USERDATA_ADDRESS` but may be as high as it likes.

The blocks for objects and attachments and the nodes of their lists come from the kernel's heap. It
has room for them here, so that no `malloc` makes `memkernel_alloc` map another page of the kernel.
`HeapShms.attach` is `ipc_shm_attach` without this assumption. -/
namespace MeinOS.Shm
open Llist Procm Ipc Memphys Paging Memuser KernelHeap

/-- `ipc_shm_att_t`, without the pointer to its object. -/
structure Att where
  proc : Ptr
  virt : Nat
  readonly : Bool
  deriving DecidableEq

/-- `ipc_shm_t` after its `ipc_obj_t`. -/
structure IpcShm where
  size : Nat
  numPages : Nat
  phys : List Nat
  atts : List Att
  lopid : Int
  atime : Int
  dtime : Int
  ctime : Int
  deriving DecidableEq

/-- The IPC objects with the shared memory objects, the page tables and the address
space of every process. -/
structure Shms extends Objects where
  shms : Ptr → IpcShm
  machine : Machine
  spaces : Ptr → Addrspace

def shmRdonly : BitVec 32 := 0x16000

/-- `ADDR2PAGE(PAGEUP(size))`, in 32 bits. -/
def sizePages (size : Nat) : Nat := ((size + (2 ^ 32 - 1)) % 2 ^ 32 / 4096 + 1) * 4096 % 2 ^ 32 / 4096

/-- The address space of the caller. -/
def Shms.space (s : Shms) : Addrspace := s.spaces s.kernel.procCurrent

/-- Writes one object. -/
def Shms.setShm (s : Shms) (shm : Ptr) (value : IpcShm) : Shms :=
  { s with shms := Function.update s.shms shm value }

/-- The loop of `ipc_shm_create` that takes the pages of the object. -/
def allocPhys : Nat → Machine → Option (List Nat × Machine)
  | 0, s => some ([], s)
  | left + 1, s =>
    (memphysAlloc s).bind fun (page, s) =>
      (allocPhys left s).map fun (pages, s) => (page :: pages, s)

/-- `ipc_shm_create`, given the block that `malloc` finds. -/
def ipcShmCreate (new : Ptr) (key : Int) (size : Nat) (flags : BitVec 32) (s : Shms) :
    Option (Int × Shms) :=
  if key ≠ ipcPrivate && (ipcFind key (-1) .shm s.toObjects).isSome then some (-eexist, s)
  else
    (allocPhys (sizePages size) s.machine).map fun (phys, machine) =>
      (s.ipcLastid,
        { s with
          machine := machine
          ipcLastid := s.ipcLastid + 1
          ipc := Function.update s.ipc new
            ⟨.shm, s.ipcLastid, key, s.kernel.procCurrent, s.kernel.procCurrent, flags &&& 0o777⟩
          shms := Function.update s.shms new
            ⟨size, sizePages size, phys, [], s.caller.pid, 0, 0, 0⟩
          ipcObjects := llistPush s.ipcObjects new })

/-- The loop of `ipc_shm_attach` that maps the pages from `virt` on. -/
def mapPages (writable : Bool) : List Nat → Nat → Machine → Option Machine
  | [], _, s => some s
  | page :: pages, virt, s =>
    (pagingMap s (virt % 2 ^ 32) page true writable).bind fun (_, s) =>
      mapPages writable pages (virt + 4096) s

/-- The address at which the caller is attached: `virt`, or what `memuser_findvirt`
finds for NULL. -/
def attachAddress (virt pages : Nat) (space : Addrspace) (s : Machine) : Option (Nat × Machine) :=
  if virt = 0 then memuserFindvirt s space pages else some (virt, s)

/-- `ipc_shm_attach`: the value it returns and the one it leaves in `*addr`. For NULL
the address is looked for twice, before anything is mapped. -/
def ipcShmAttach (id : Int) (virt : Nat) (flags : BitVec 32) (time : Int) (s : Shms) :
    Option (Int × Nat × Shms) :=
  if userdataAddress ≤ virt ∨ virt = 0 then
    match ipcFind (-1) id .shm s.toObjects with
    | none => some (-einval, virt, s)
    | some shm =>
      let object := s.shms shm
      let readonly := flags &&& shmRdonly != 0
      (attachAddress virt object.numPages s.space s.machine).bind fun (place, machine) =>
        (attachAddress virt object.numPages s.space machine).bind fun (result, machine) =>
          (mapPages (!readonly) object.phys place machine).map fun machine =>
            (0, result,
              { s with machine := machine }.setShm shm
                { object with
                  atts := llistPush object.atts ⟨s.kernel.procCurrent, place, readonly⟩
                  atime := time
                  lopid := s.caller.pid })
  else some (-einval, virt, s)

/-- The loop that unmaps the pages from `virt` on. -/
def unmapPages : Nat → Nat → Machine → Option Machine
  | 0, _, s => some s
  | left + 1, virt, s =>
    (pagingUnmap s (virt % 2 ^ 32)).bind fun (_, s) => unmapPages left (virt + 4096) s

/-- The attachment of the caller at this address: its object and its index there. -/
def findAtt (virt : Nat) (s : Shms) : Option (Ptr × Nat) :=
  s.ipcObjects.findSome? fun shm =>
    if (s.ipc shm).type = .shm then
      ((s.shms shm).atts.findIdx? fun att =>
        att.proc = s.kernel.procCurrent && att.virt = virt).map (shm, ·)
    else none

/-- `ipc_shm_detach`. -/
def ipcShmDetach (virt : Nat) (time : Int) (s : Shms) : Option (Int × Shms) :=
  if virt < userdataAddress then some (-1, s)
  else match findAtt virt s with
    | none => some (-einval, s)
    | some (shm, j) =>
      let object := s.shms shm
      (unmapPages object.numPages virt s.machine).map fun machine =>
        (0, { s with machine := machine }.setShm shm
          { object with
            atts := (llistRemove object.atts (some j)).2
            atime := time
            lopid := s.caller.pid })

/-- The first loop of `ipc_shm_destroy`. -/
def unmapAtts (pages : Nat) : List Att → Machine → Option Machine
  | [], s => some s
  | att :: atts, s => (unmapPages pages att.virt s).bind fun s => unmapAtts pages atts s

/-- The second loop of `ipc_shm_destroy`. -/
def freePhys : List Nat → Machine → Option Machine
  | [], s => some s
  | page :: pages, s => (memphysFree s page).bind fun s => freePhys pages s

/-- `ipc_shm_destroy`. -/
def ipcShmDestroy (id : Int) (s : Shms) : Option (Int × Shms) :=
  match ipcFind (-1) id .shm s.toObjects with
  | none => some (-1, s)
  | some shm =>
    let object := s.shms shm
    (unmapAtts object.numPages object.atts s.machine).bind fun machine =>
      (freePhys object.phys machine).map fun machine =>
        (0, { s.setShm shm { object with atts := [] } with
          machine := machine
          ipcObjects := (llistRemove s.ipcObjects (llistFind s.ipcObjects shm)).2 })

/-- The permission check of the shared memory functions, which passes the process id of
the owner as its user id. -/
def permitted (shm : Ptr) (op : PermOp) (s : Shms) : Bool :=
  let owner := s.kernel.procs (s.ipc shm).owner
  let creator := s.kernel.procs (s.ipc shm).creator
  permCheck owner.pid owner.gid s.caller.uid s.caller.gid (s.ipc shm).mode op ||
    s.caller.uid = creator.uid

/-- `ipc_shm_set`, which ignores the user and the group it is given. -/
def ipcShmSet (id : Int) (mode : BitVec 32) (time : Int) (s : Shms) : Int × Shms :=
  match ipcFind (-1) id .shm s.toObjects with
  | none => (-einval, s)
  | some shm =>
    if permitted shm .w s then
      (0, { s.setShm shm { s.shms shm with ctime := time } with
        ipc := Function.update s.ipc shm { s.ipc shm with mode := mode } })
    else (-eacces, s)

/-- The objects with the kernel's heap, and the page directories of `proc_all` and of
`proc_current`. -/
structure HeapShms extends Shms where
  heap : Malloc.Heap
  procAll : List Nat
  current : Option Nat

/-- `sizeof(ipc_shm_att_t)`. -/
def attSize : Nat := 16

/-- `ipc_shm_attach` with the heap: the attachment is allocated before the pages are mapped, and the
node of its list after that. -/
def HeapShms.attach (w : HeapShms) (id : Int) (virt : Nat) (flags : BitVec 32) (time : Int) :
    Option (Int × Nat × Shms) :=
  if (userdataAddress ≤ virt ∨ virt = 0) ∧ (ipcFind (-1) id .shm w.toObjects).isSome then
    (kernelMalloc w.procAll w.current attSize w.machine w.heap).bind fun (_, m, h) =>
      (ipcShmAttach id virt flags time { w.toShms with machine := m }).bind fun (result, place, t) =>
        (kernelMalloc w.procAll w.current nodeSize t.machine h).map fun (_, m, _) =>
          (result, place, { t with machine := m })
  else ipcShmAttach id virt flags time w.toShms

/-- The heap has room for an attachment and its node. -/
def HeapShms.Roomy (w : HeapShms) : Prop := (served w.heap [attSize, nodeSize]).isSome

instance (w : HeapShms) : Decidable w.Roomy := inferInstanceAs (Decidable (_ = true))

/-- With room in the heap `ipc_shm_attach` takes no page for it. -/
theorem attach_served {w : HeapShms} (room : w.Roomy) (id : Int) (virt : Nat) (flags : BitVec 32)
    (time : Int) : w.attach id virt flags time = ipcShmAttach id virt flags time w.toShms := by
  obtain ⟨last, room⟩ := Option.isSome_iff_exists.mp room
  obtain ⟨⟨att, h, pages⟩, first, room⟩ := Option.bind_eq_some_iff.mp room
  obtain ⟨⟨node, h', pages'⟩, second, -⟩ := Option.bind_eq_some_iff.mp room
  rw [HeapShms.attach]
  split
  · rw [malloc_served first, Option.bind_some]
    simp only [malloc_served second, Option.map_some]
    exact Option.bind_fun_some _
  · rfl

end MeinOS.Shm
