import MeinOS.Lib.Runs
import MeinOS.PagingEntries
import MeinOS.ProcmLists
import MeinOS.ShmPages

/-! What is left of a shared memory object after `ipc_shm_destroy`.

A mapping of an object's page is always at a recorded attachment. `ipc_shm_destroy` unmaps
the recorded ranges, but in the loaded address space only: the attachments of other
processes stay, and their pages go to the stack of free pages, while the caller loses
whatever it has at those addresses itself. -/
namespace MeinOS.Shm
open Lib Lib.Runs Llist Procm Ipc Memphys Paging Memuser

variable {dirs : List Nat} {s s' m : Machine} {virt d i j : Nat}

/-- The page directories of the kernel and of all processes. -/
def Shms.pagedirs (s : Shms) : List Nat :=
  addr2page kernelpdAddress :: s.kernel.procAll.map fun proc => (s.spaces proc).pagedir

/-- A shared memory object that can be found. -/
def Shms.Live (s : Shms) (shm : Ptr) : Prop := shm ∈ s.ipcObjects ∧ (s.ipc shm).type = .shm

/-- An attachment of the object puts this page at this entry of the directory. -/
def AttachedAt (spaces : Ptr → Addrspace) (object : IpcShm) (d i j page : Nat) : Prop :=
  ∃ att ∈ object.atts, (spaces att.proc).pagedir = d ∧ ∃ k : Nat,
    object.phys[k]? = some (page * 4096) ∧ addr2pde (att.virt + k * 4096) = i ∧
      addr2pte (att.virt + k * 4096) = j

/-- Pages that are neither on the stack nor used for page tables. -/
structure Owned (dirs : List Nat) (s : Machine) (phys : List Nat) : Prop where
  nodup : phys.Nodup
  real : ∀ a ∈ phys, a % 4096 = 0 ∧ a ≠ 0
  outside : ∀ a ∈ phys, Outside s.mem (addr2page a)
  notTable : ∀ a ∈ phys, ¬ Table dirs s (addr2page a)

/-- The pages of an object are its own, and are mapped only where it is attached. -/
structure Kept (dirs : List Nat) (spaces : Ptr → Addrspace) (s : Machine) (object : IpcShm) :
    Prop where
  count : object.phys.length = object.numPages
  owned : Owned dirs s object.phys
  placed : ∀ att ∈ object.atts, userdataAddress ≤ att.virt ∧
    att.virt + object.numPages * 4096 ≤ bufpageAddress
  located : ∀ d ∈ dirs, ∀ i < 1023, ∀ j < 1024, ∀ page, Maps s d i j page →
    page * 4096 ∈ object.phys → AttachedAt spaces object d i j page

section Kept
variable {spaces : Ptr → Addrspace} {object : IpcShm} {phys : List Nat}

theorem Owned.of_fewer (owned : Owned dirs s phys)
    (fewer : ∀ a ∈ freePages s'.mem, a ∈ freePages s.mem)
    (tables : ∀ page, Table dirs s' page → page * 4096 ∈ freePages s.mem ∨ Table dirs s page) :
    Owned dirs s' phys where
  nodup := owned.nodup
  real := owned.real
  outside a member := (owned.outside a member).of_fewer fewer
  notTable a member table := by
    rcases tables _ table with free | old
    · exact (owned.outside a member).2 free
    · exact owned.notTable a member old

/-- Pages that come from the stack were mapped nowhere. -/
theorem alloc_owned (held : Guarded dirs s) (ran : allocPhys count s = some (phys, s')) :
    Owned dirs s' phys ∧ ∀ d ∈ dirs, ∀ i < 1024, ∀ j < 1024, ∀ page, Maps s' d i j page →
      page * 4096 ∉ phys := by
  obtain ⟨guarded, ⟨mem, rfl⟩, -, length, free⟩ := alloc_phys_spec count held ran
  have taken : ∀ a ∈ phys, a ∈ freePages s.mem := by
    intro a member
    rw [free]
    exact List.mem_append_right _ (List.mem_reverse.mpr member)
  have whole : ∀ a ∈ phys, addr2page a * 4096 = a := fun a member =>
    page_address (held.aligned a (taken a member)).1
  have separate := List.nodup_append.mp (free ▸ held.nodup)
  refine ⟨⟨List.nodup_reverse.mp separate.2.1, fun a member => ?_, fun a member => ⟨?_, ?_⟩,
    fun a member table => ?_⟩, fun d inDirs i slot j inTable page maps member => ?_⟩
  · obtain ⟨aligned, real, -⟩ := held.aligned a (taken a member)
    exact ⟨aligned, real⟩
  · have top := (held.aligned a (taken a member)).2.2
    rw [addr2page]
    omega
  · rw [whole a member]
    exact fun left => separate.2.2 a left a (List.mem_reverse.mpr member) rfl
  · have off := (held.table_outside table).2
    rw [whole a member] at off
    exact off (taken a member)
  · exact (held.unmapped d inDirs i slot j inTable page maps).2 (taken _ member)

theorem alloc_same_kernel (held : Guarded dirs s) (ran : allocPhys count s = some (phys, s')) :
    SameKernel dirs s s' := by
  obtain ⟨-, ⟨mem, rfl⟩, stackend, -, -⟩ := alloc_phys_spec count held ran
  exact ⟨stackend, fun _ _ _ _ => rfl, fun _ _ _ _ _ => rfl⟩

/-- An object whose pages are mapped at no new place. -/
theorem Kept.of_maps (kept : Kept dirs spaces s object) (owned : Owned dirs s' object.phys)
    (maps : ∀ d ∈ dirs, ∀ i < 1023, ∀ j page, page * 4096 ∈ object.phys →
      Maps s' d i j page → Maps s d i j page) : Kept dirs spaces s' object :=
  ⟨kept.count, owned, kept.placed, fun d inDirs i slot j inTable page mapped member =>
    kept.located d inDirs i slot j inTable page (maps d inDirs i slot j page member mapped) member⟩

theorem Attached.owned (attached : Attached dirs s s' virt pages writable)
    (owned : Owned dirs s phys) : Owned dirs s' phys :=
  owned.of_fewer attached.fewer attached.tables

/-- A mapping after `ipc_shm_attach` is an old one or one of the pages it maps. -/
theorem Attached.maps (attached : Attached dirs s s' virt pages writable)
    (aligned : ∀ a ∈ pages, a % 4096 = 0) (inDirs : d ∈ dirs) (slot : i < 1023)
    (maps : Maps s' d i j page) :
    Maps s d i j page ∨ d = s.curpd ∧ ∃ k : Nat, pages[k]? = some (page * 4096) ∧
      addr2pde (virt + k * 4096) = i ∧ addr2pte (virt + k * 4096) = j := by
  rw [maps_iff_entry] at maps ⊢
  rcases attached.entries d inDirs i slot j with same | ⟨own, k, a, found, pde, pte, new⟩
  · rw [← same]
    exact Or.inl maps
  · rw [new] at maps
    refine Or.inr ⟨own, k, ?_, pde, pte⟩
    rw [← maps.2, show (mapEntry a true writable).page = addr2page a from rfl,
      page_address (aligned a (List.mem_of_getElem? found)), found]

/-- The object that is attached. -/
theorem attach_kept (kept : Kept dirs spaces s object)
    (attached : Attached dirs s s' virt object.phys writable)
    (loaded : s.curpd = (spaces att.proc).pagedir) (here : att.virt = virt)
    (user : userdataAddress ≤ virt) (below : virt + object.numPages * 4096 ≤ bufpageAddress) :
    Kept dirs spaces s' { object with
      atts := llistPush object.atts att
      atime := time
      lopid := pid } := by
  refine ⟨kept.count, attached.owned kept.owned, fun other member => ?_,
    fun d inDirs i slot j inTable page maps member => ?_⟩
  · rcases mem_llist_push.mp member with rfl | old
    · rw [here]
      exact ⟨user, below⟩
    · exact kept.placed other old
  · rcases attached.maps (fun a inA => (kept.owned.real a inA).1) inDirs slot maps with
      old | ⟨own, k, found, pde, pte⟩
    · obtain ⟨other, inAtts, place⟩ := kept.located d inDirs i slot j inTable page old member
      exact ⟨other, mem_llist_push.mpr (Or.inr inAtts), place⟩
    · refine ⟨att, mem_llist_push.mpr (Or.inl rfl), by rw [own, loaded], k, found, ?_⟩
      rw [here]
      exact ⟨pde, pte⟩

theorem Cleared.maps (cleared : Cleared dirs s s' Gone) (inDirs : d ∈ dirs) (slot : i < 1023)
    (maps : Maps s' d i j page) : Maps s d i j page ∧ (d = s.curpd → ¬ Gone i j) := by
  have stays : d = s.curpd → ¬ Gone i j := by
    rintro rfl gone
    rw [maps_iff_entry, cleared.gone i slot j gone] at maps
    exact absurd maps.1 (by simp [blank])
  rw [maps_iff_entry, cleared.kept d inDirs i slot j stays, ← maps_iff_entry] at maps
  exact ⟨maps, stays⟩

theorem Cleared.owned (cleared : Cleared dirs s s' Gone) (owned : Owned dirs s phys) :
    Owned dirs s' phys := by
  refine owned.of_fewer (fun a member => cleared.mem ▸ member) fun page table => ?_
  obtain ⟨d, inDirs, i, slot, present⟩ := table
  rw [cleared.frames d inDirs] at present
  exact Or.inr ⟨d, inDirs, i, slot, present⟩

/-- The object of which the caller detaches the attachment at this address. -/
theorem detach_kept (kept : Kept dirs spaces s object) (found : object.atts[index]? = some att)
    (loaded : s.curpd = (spaces att.proc).pagedir)
    (cleared : Cleared dirs s s' (Covers att.virt object.numPages)) :
    Kept dirs spaces s' { object with
      atts := (llistRemove object.atts (some index)).2
      atime := time
      lopid := pid } := by
  have rest : (llistRemove object.atts (some index)).2 = object.atts.eraseIdx index := by
    rw [llistRemove, found]
  refine ⟨kept.count, cleared.owned kept.owned, fun other member => ?_,
    fun d inDirs i slot j inTable page maps member => ?_⟩
  · rw [rest] at member
    exact kept.placed other (List.mem_of_mem_eraseIdx member)
  · obtain ⟨old, stays⟩ := cleared.maps inDirs slot maps
    obtain ⟨other, inAtts, own, k, page, pde, pte⟩ :=
      kept.located d inDirs i slot j inTable page old member
    have different : other ≠ att := by
      rintro rfl
      obtain ⟨small, -⟩ := List.getElem?_eq_some_iff.mp page
      rw [kept.count] at small
      exact stays (own.symm.trans loaded.symm) ⟨k, small, pde, pte⟩
    refine ⟨other, ?_, own, k, page, pde, pte⟩
    obtain ⟨inside, here⟩ := List.getElem?_eq_some_iff.mp found
    obtain ⟨index', inside', rfl⟩ := List.getElem_of_mem inAtts
    rw [rest, List.mem_eraseIdx_iff_getElem]
    exact ⟨index', inside', fun same => different (by subst same; exact here), rfl⟩

end Kept

/-- The page tables and the stack of free pages are well formed, and the address space of
the current process is loaded. -/
structure Sound (s : Shms) : Prop where
  guarded : Guarded s.pagedirs s.machine
  unshared : Unshared s.pagedirs s.machine
  own : OwnStackTables s.pagedirs s.machine
  clear : StackClear s.pagedirs s.machine
  current : s.kernel.procCurrent ∈ s.kernel.procAll
  loaded : s.machine.curpd = s.space.pagedir

structure InOrder (s : Shms) : Prop extends Sound s where
  kept : ∀ shm, s.Live shm → Kept s.pagedirs s.spaces s.machine (s.shms shm)
  apart : ∀ shm shm', s.Live shm → s.Live shm' → shm ≠ shm' →
    ∀ a ∈ (s.shms shm).phys, a ∉ (s.shms shm').phys

inductive Event where
  /-- Another process becomes the current one. -/
  | switch (proc : Ptr)
  | create (new : Ptr) (key : Int) (size : Nat) (flags : BitVec 32)
  | attach (id : Int) (virt : Nat) (flags : BitVec 32) (time : Int)
  | detach (virt : Nat) (time : Int)

def step (s : Shms) : Event → Option Shms
  | .switch proc => onlyIf (proc ∈ s.kernel.procAll)
      { s with
        kernel := { s.kernel with procCurrent := proc }
        machine := { s.machine with curpd := (s.spaces proc).pagedir } }
  | .create new key size flags =>
    if new ∈ s.ipcObjects then none else (ipcShmCreate new key size flags s).map (·.2)
  | .attach id virt flags time => (ipcShmAttach id virt flags time s).map (·.2.2)
  | .detach virt time => (ipcShmDetach virt time s).map (·.2)

/-- The object is attached below the window page: at an address that leaves room for it,
or where `memuser_findvirt` finds room. -/
def AttachesBelow (id : Int) (virt : Nat) (s : Shms) : Prop :=
  ∀ shm, ipcFind (-1) id .shm s.toObjects = some shm →
    if virt = 0 then HasRoom s.machine s.machine.curpd (s.shms shm).numPages
    else virt + (s.shms shm).numPages * 4096 ≤ bufpageAddress

def Meets (s : Shms) : Event → Prop
  | .attach id virt _ _ => AttachesBelow id virt s
  | _ => True

section Steps
variable {s t : Shms}

theorem find_live {id : Int} (found : ipcFind key id .shm s.toObjects = some shm) : s.Live shm := by
  have matched := List.find?_some found
  simp only [Bool.and_eq_true, decide_eq_true_eq] at matched
  exact ⟨List.mem_of_find?_eq_some found, matched.1.1⟩

/-- Other page tables with the same kernel part. -/
theorem Sound.with_machine (sound : Sound s) (guarded : Guarded s.pagedirs m)
    (unshared : Unshared s.pagedirs m) (same : SameKernel s.pagedirs s.machine m)
    (curpd : m.curpd = s.machine.curpd) (kernel : t.kernel = s.kernel) (spaces : t.spaces = s.spaces)
    (machine : t.machine = m) : Sound t := by
  have dirs : t.pagedirs = s.pagedirs := by rw [Shms.pagedirs, Shms.pagedirs, kernel, spaces]
  refine ⟨?_, ?_, ?_, ?_, ?_, ?_⟩
  · rw [dirs, machine]
    exact guarded
  · rw [dirs, machine]
    exact unshared
  · rw [dirs, machine]
    exact sound.own.of_same same guarded unshared
  · rw [dirs, machine]
    exact sound.clear.of_same same
  · rw [kernel]
    exact sound.current
  · rw [machine, curpd, Shms.space, spaces, kernel]
    exact sound.loaded

section
variable (held : InOrder s)
include held

/-- One object is written and the page tables change so that its pages and those of all
others stay where they were attached. -/
theorem InOrder.with_object (sound : Sound t) (objects : t.ipcObjects = s.ipcObjects)
    (headers : t.ipc = s.ipc) (shms : t.shms = Function.update s.shms shm value)
    (phys : value.phys = (s.shms shm).phys) (this : Kept t.pagedirs t.spaces t.machine value)
    (others : ∀ other, s.Live other → other ≠ shm → Kept t.pagedirs t.spaces t.machine (s.shms other)) :
    InOrder t := by
  have pages : ∀ other, (t.shms other).phys = (s.shms other).phys := by
    intro other
    rw [shms]
    by_cases same : other = shm
    · rw [same, Function.update_self, phys]
    · rw [Function.update_of_ne same]
  have lives : ∀ other, t.Live other → s.Live other := by
    intro other live'
    rwa [Shms.Live, objects, headers] at live'
  refine ⟨sound, fun other live' => ?_, fun other other' live' live'' different => ?_⟩
  · by_cases same : other = shm
    · rw [same, shms, Function.update_self]
      exact this
    · rw [shms, Function.update_of_ne same]
      exact others other (lives other live') same
  · rw [pages, pages]
    exact held.apart other other' (lives other live') (lives other' live'') different

/-- A new object is made. -/
theorem InOrder.with_new (sound : Sound t) (unused : new ∉ s.ipcObjects)
    (objects : t.ipcObjects = llistPush s.ipcObjects new)
    (headers : ∀ other, other ≠ new → t.ipc other = s.ipc other)
    (shms : t.shms = Function.update s.shms new value)
    (this : Kept t.pagedirs t.spaces t.machine value)
    (others : ∀ other, s.Live other → Kept t.pagedirs t.spaces t.machine (s.shms other))
    (apart : ∀ a ∈ value.phys, ∀ other, s.Live other → a ∉ (s.shms other).phys) : InOrder t := by
  have lives : ∀ other, t.Live other → other ≠ new → s.Live other := by
    rintro other ⟨listed, type⟩ different
    rw [objects, mem_llist_push] at listed
    rw [headers other different] at type
    exact ⟨listed.resolve_left different, type⟩
  have this' : t.shms new = value := by rw [shms, Function.update_self]
  have others' : ∀ other, other ≠ new → t.shms other = s.shms other := fun other different => by
    rw [shms, Function.update_of_ne different]
  refine ⟨sound, fun other live => ?_, fun first second live live' different a member => ?_⟩
  · by_cases same : other = new
    · rw [same, this']
      exact this
    · rw [others' other same]
      exact others other (lives other live same)
  · by_cases isNew : first = new
    · subst isNew
      rw [this'] at member
      rw [others' second (Ne.symm different)]
      exact apart a member second (lives second live' (Ne.symm different))
    · rw [others' first isNew] at member
      by_cases isNew' : second = new
      · subst isNew'
        rw [this']
        exact fun here => apart a here first (lives first live isNew) member
      · rw [others' second isNew']
        exact held.apart first second (lives first live isNew) (lives second live' isNew') different
          a member

theorem switch_in_order (proc : Ptr) (listed : proc ∈ s.kernel.procAll) :
    InOrder { s with
      kernel := { s.kernel with procCurrent := proc }
      machine := { s.machine with curpd := (s.spaces proc).pagedir } } := by
  have inDirs : (s.spaces proc).pagedir ∈ s.pagedirs :=
    List.mem_cons_of_mem _ (List.mem_map.mpr ⟨proc, listed, rfl⟩)
  have guarded : Guarded s.pagedirs { s.machine with curpd := (s.spaces proc).pagedir } :=
    { held.guarded with loaded := inDirs }
  refine ⟨⟨guarded, held.unshared, held.own, held.clear, listed, rfl⟩, fun shm live => ?_,
    held.apart⟩
  exact (held.kept shm live).of_maps
    ((held.kept shm live).owned.of_fewer (fun _ member => member) fun _ table => Or.inr table)
    fun _ _ _ _ _ _ _ maps => maps

theorem create_in_order (unused : new ∉ s.ipcObjects)
    (ran : ipcShmCreate new key size flags s = some (r, t)) : InOrder t := by
  rw [ipcShmCreate] at ran
  by_cases exists' : (key ≠ ipcPrivate && (ipcFind key (-1) .shm s.toObjects).isSome) = true
  · rw [if_pos exists'] at ran
    cases ran
    exact held
  · rw [if_neg exists'] at ran
    obtain ⟨⟨phys, machine⟩, taken, same⟩ := Option.map_eq_some_iff.mp ran
    cases same
    have same := alloc_same_kernel held.guarded taken
    obtain ⟨owned, nowhere⟩ := alloc_owned held.guarded taken
    obtain ⟨guarded, ⟨mem, rfl⟩, -, length, free⟩ := alloc_phys_spec _ held.guarded taken
    have sound : ∀ ipc shms ipcObjects ipcLastid, Sound
        { s with
          machine := { s.machine with mem := mem }
          ipc := ipc
          shms := shms
          ipcObjects := ipcObjects
          ipcLastid := ipcLastid } := fun _ _ _ _ =>
      held.toSound.with_machine guarded held.unshared same rfl rfl rfl rfl
    refine held.with_new (sound _ _ _ _) unused rfl
      (fun other different => Function.update_of_ne different ..) rfl ?_ (fun other live => ?_)
      fun a member other live inOther => ?_
    · refine ⟨length, owned, by simp, fun d inDirs i slot j inTable page maps member => ?_⟩
      exact absurd member (nowhere d inDirs i (by omega) j inTable page maps)
    · exact (held.kept other live).of_maps ((held.kept other live).owned.of_fewer
        (rest_free free) fun _ table => Or.inr table) fun _ _ _ _ _ _ _ maps => maps
    · have onStack : a ∈ freePages s.machine.mem := by
        rw [free]
        exact List.mem_append_right _ (List.mem_reverse.mpr member)
      have kept := (held.kept other live).owned
      have off := (kept.outside a inOther).2
      rw [page_address (kept.real a inOther).1] at off
      exact off onStack

theorem attach_address_spec (user : userdataAddress ≤ virt ∨ virt = 0)
    (room : if virt = 0 then HasRoom s.machine s.machine.curpd pages else virt + pages * 4096 ≤ bufpageAddress) :
    ∃ place, attachAddress virt pages s.space s.machine = some (place, s.machine) ∧
      userdataAddress ≤ place ∧ place + pages * 4096 ≤ bufpageAddress := by
  rw [attachAddress]
  by_cases null : virt = 0
  · rw [if_pos null] at room ⊢
    obtain ⟨start, found, low, high⟩ := findvirt_finds held.guarded held.loaded.symm room
    refine ⟨start * 4096, found, ?_, ?_⟩
    · rw [userdataAddress]
      omega
    · rw [bufpageAddress]
      omega
  · rw [if_neg null] at room ⊢
    exact ⟨virt, rfl, user.resolve_right null, room⟩

theorem attach_in_order {id : Int} (below : AttachesBelow id virt s)
    (ran : ipcShmAttach id virt flags time s = some (r, addr, t)) : InOrder t := by
  rw [ipcShmAttach] at ran
  by_cases user : userdataAddress ≤ virt ∨ virt = 0
  · rw [if_pos user] at ran
    cases found : ipcFind (-1) id .shm s.toObjects with
    | none =>
      simp only [found] at ran
      cases ran
      exact held
    | some shm =>
      simp only [found] at ran
      obtain ⟨place, address, low, high⟩ := attach_address_spec held user (below shm found)
      rw [address, Option.bind_some, address, Option.bind_some] at ran
      obtain ⟨machine, mapped, same⟩ := Option.map_eq_some_iff.mp ran
      cases same
      have kept := held.kept shm (find_live found)
      rw [← kept.count] at high
      have attached := map_pages_attached _ _ place held.guarded held.unshared low high
        kept.owned.outside mapped
      have sound : ∀ value, Sound ({ s with machine := machine }.setShm shm value) := fun value =>
        held.toSound.with_machine attached.guarded attached.unshared
          (attached.same_kernel low high) attached.curpd rfl rfl rfl
      rw [kept.count] at high
      refine held.with_object (sound _) rfl rfl rfl rfl
        (attach_kept kept attached held.loaded rfl low high) fun other live different => ?_
      refine (held.kept other live).of_maps (attached.owned (held.kept other live).owned) ?_
      intro d inDirs i slot j page member maps
      rcases attached.maps (fun a inA => (kept.owned.real a inA).1) inDirs slot maps with
        old | ⟨-, k, here, -⟩
      · exact old
      · exact absurd (List.mem_of_getElem? here)
          (held.apart other shm live (find_live found) different _ member)
  · rw [if_neg user] at ran
    cases ran
    exact held

end

theorem find_att_spec (found : findAtt virt s = some (shm, index)) :
    s.Live shm ∧ ∃ att, (s.shms shm).atts[index]? = some att ∧ att.proc = s.kernel.procCurrent ∧
      att.virt = virt := by
  obtain ⟨shm', listed, here⟩ := List.exists_of_findSome?_eq_some found
  obtain ⟨type, here⟩ := Option.ite_none_right_eq_some.mp here
  obtain ⟨index', first, same⟩ := Option.map_eq_some_iff.mp here
  cases same
  obtain ⟨inside, matched, -⟩ := List.findIdx?_eq_some_iff_getElem.mp first
  simp only [Bool.and_eq_true, decide_eq_true_eq] at matched
  exact ⟨⟨listed, type⟩, _, List.getElem?_eq_getElem inside, matched⟩

theorem detach_in_order (held : InOrder s) (ran : ipcShmDetach virt time s = some (r, t)) :
    InOrder t := by
  rw [ipcShmDetach] at ran
  by_cases low : virt < userdataAddress
  · rw [if_pos low] at ran
    cases ran
    exact held
  · rw [if_neg low] at ran
    cases found : findAtt virt s with
    | none =>
      simp only [found] at ran
      cases ran
      exact held
    | some place =>
      obtain ⟨shm, index⟩ := place
      simp only [found] at ran
      obtain ⟨machine, unmapped, same⟩ := Option.map_eq_some_iff.mp ran
      cases same
      obtain ⟨live, att, here, proc, rfl⟩ := find_att_spec found
      have kept := held.kept shm live
      obtain ⟨user, below⟩ := kept.placed att (List.mem_of_getElem? here)
      have cleared := unmap_pages_cleared _ _ held.guarded held.unshared user below unmapped
      have same : SameKernel s.pagedirs s.machine machine :=
        cleared.same_kernel fun i j covered => (covered_user user below covered).1
      have sound : ∀ value, Sound ({ s with machine := machine }.setShm shm value) := fun value =>
        held.toSound.with_machine cleared.guarded cleared.unshared same cleared.curpd rfl rfl rfl
      refine held.with_object (sound _) rfl rfl rfl rfl
        (detach_kept kept here (by rw [held.loaded, proc]; rfl) cleared) fun other live _ => ?_
      exact (held.kept other live).of_maps (cleared.owned (held.kept other live).owned)
        fun d inDirs i slot j page _ maps => (cleared.maps inDirs slot maps).1

theorem step_in_order (s : Shms) (e : Event) (t : Shms) (held : InOrder s) (meets : Meets s e)
    (ran : step s e = some t) : InOrder t := by
  cases e with
  | switch proc =>
    obtain ⟨listed, rfl⟩ := onlyIf_eq_some ran
    exact switch_in_order held proc listed
  | create new key size flags =>
    rw [step] at ran
    obtain ⟨unused, ran⟩ := Option.ite_none_left_eq_some.mp ran
    obtain ⟨⟨r, t⟩, created, rfl⟩ := Option.map_eq_some_iff.mp ran
    exact create_in_order held unused created
  | attach id virt flags time =>
    obtain ⟨⟨r, addr, t⟩, attached, rfl⟩ := Option.map_eq_some_iff.mp ran
    exact attach_in_order held meets attached
  | detach virt time =>
    obtain ⟨⟨r, t⟩, detached, rfl⟩ := Option.map_eq_some_iff.mp ran
    exact detach_in_order held detached

end Steps

/-- This entry of a directory maps a page of the object where the object is attached. -/
def IsAttachment (s : Shms) (object : IpcShm) (d i j : Nat) : Prop :=
  ∃ page, Maps s.machine d i j page ∧ AttachedAt s.spaces object d i j page

/-- Where an attachment has its page `k`, in the loaded directory. -/
def attEntry (s : Shms) (att : Att) (k : Nat) : Entry :=
  entry s.machine s.machine.curpd (addr2pde (att.virt + k * 4096)) (addr2pte (att.virt + k * 4096))

/-- Only the caller is attached to the object, and has nothing but pages of the object at
the addresses of its attachments. -/
def DestroysOwn (id : Int) (s : Shms) : Prop :=
  ∀ shm, ipcFind (-1) id .shm s.toObjects = some shm → ∀ att ∈ (s.shms shm).atts,
    att.proc = s.kernel.procCurrent ∧ ∀ k < (s.shms shm).numPages, Unused (attEntry s att k) ∨
      ((attEntry s att k).present = true ∧ (attEntry s att k).page * 4096 ∈ (s.shms shm).phys)

/-- What `ipc_shm_destroy` promises: a page that it gives back is mapped nowhere, and
every page that exists, other than as an attachment of the object, is as it was. -/
structure Destroyed (id : Int) (s s' : Shms) : Prop where
  released : ∀ shm, ipcFind (-1) id .shm s.toObjects = some shm → ∀ a ∈ (s.shms shm).phys,
    a ∈ freePages s'.machine.mem → ∀ d ∈ s.pagedirs, ∀ i < 1024, ∀ j < 1024,
      ¬ Maps s'.machine d i j (addr2page a)
  unchanged : ∀ shm, ipcFind (-1) id .shm s.toObjects = some shm → ∀ d ∈ s.pagedirs,
    ∀ i < 1024, ∀ j < 1024, ¬ Unused (entry s.machine d i j) →
      ¬ IsAttachment s (s.shms shm) d i j → entry s'.machine d i j = entry s.machine d i j

section Destroy
variable {s s' : Shms} {id : Int}

/-- The last slot shows the directory itself, which `paging_unmap` does not change. -/
theorem Cleared.last_slot {s s' : Machine} (cleared : Cleared dirs s s' Gone)
    (held : Guarded dirs s) (inDirs : d ∈ dirs) (j : Nat) :
    entry s' d 1023 j = entry s d 1023 j := by
  rw [entry, entry, cleared.frames d inDirs, (held.recursive d inDirs).2, cleared.frames d inDirs]

theorem covered_by_user (placed : ∀ att ∈ atts, userdataAddress ≤ att.virt ∧
    att.virt + pages * 4096 ≤ bufpageAddress) (covered : CoveredBy pages atts i j) : 256 ≤ i := by
  obtain ⟨att, member, covers⟩ := covered
  obtain ⟨user, below⟩ := placed att member
  exact (covered_user user below covers).1

/-- After the first loop no page of the object is mapped. -/
theorem atts_cleared_unmapped (held : InOrder s) (live : s.Live shm)
    (own : ∀ att ∈ (s.shms shm).atts, att.proc = s.kernel.procCurrent)
    (cleared : Cleared s.pagedirs s.machine m (CoveredBy (s.shms shm).numPages (s.shms shm).atts))
    (member : a ∈ (s.shms shm).phys) (inDirs : d ∈ s.pagedirs) (slot : i < 1024) (inTable : j < 1024) :
    ¬ Maps m d i j (addr2page a) := by
  intro maps
  have kept := held.kept shm live
  have whole := page_address (kept.owned.real a member).1
  by_cases last : i = 1023
  · subst last
    rw [maps_iff_entry, cleared.last_slot held.guarded inDirs, ← maps_iff_entry] at maps
    obtain ⟨-, present, page⟩ := maps
    rw [(held.guarded.recursive d inDirs).2] at present page
    exact kept.owned.notTable a member ⟨d, inDirs, j, inTable, present, page⟩
  · obtain ⟨old, stays⟩ := cleared.maps inDirs (by omega) maps
    obtain ⟨att, inAtts, dir, k, found, place⟩ :=
      kept.located d inDirs i (by omega) j inTable _ old (by rw [whole]; exact member)
    have mine : d = s.machine.curpd := by
      rw [← dir, own att inAtts, held.loaded]
      rfl
    obtain ⟨small, -⟩ := List.getElem?_eq_some_iff.mp found
    rw [kept.count] at small
    exact stays mine ⟨att, inAtts, k, small, place⟩

/-- The first loop takes nothing away that exists, other than attachments. -/
theorem atts_cleared_unchanged (held : InOrder s) (live : s.Live shm)
    (cleared : Cleared s.pagedirs s.machine m (CoveredBy (s.shms shm).numPages (s.shms shm).atts))
    (own : ∀ att ∈ (s.shms shm).atts, ∀ k < (s.shms shm).numPages, Unused (attEntry s att k) ∨
      ((attEntry s att k).present = true ∧ (attEntry s att k).page * 4096 ∈ (s.shms shm).phys))
    (inDirs : d ∈ s.pagedirs) (slot : i < 1024) (inTable : j < 1024)
    (used : ¬ Unused (entry s.machine d i j)) (other : ¬ IsAttachment s (s.shms shm) d i j) :
    entry m d i j = entry s.machine d i j := by
  by_cases last : i = 1023
  · subst last
    exact cleared.last_slot held.guarded inDirs j
  · refine cleared.kept d inDirs i (by omega) j ?_
    rintro rfl ⟨att, inAtts, k, small, rfl, rfl⟩
    obtain unused | ⟨present, member⟩ := own att inAtts k small
    · exact used unused
    · have maps := (maps_iff_entry s.machine s.machine.curpd _ _ _).mpr ⟨present, rfl⟩
      exact other ⟨_, maps, (held.kept shm live).located _ inDirs _ (by omega) _ inTable _ maps member⟩

theorem destroy_spec (held : InOrder s) (own : DestroysOwn id s)
    (done : ipcShmDestroy id s = some (0, s')) : Destroyed id s s' := by
  rw [ipcShmDestroy] at done
  cases found : ipcFind (-1) id .shm s.toObjects with
  | none =>
    simp only [found] at done
    cases done
  | some shm =>
    simp only [found] at done
    obtain ⟨m, unmapped, done⟩ := Option.bind_eq_some_iff.mp done
    obtain ⟨m', freed, same⟩ := Option.map_eq_some_iff.mp done
    cases same
    have live := find_live found
    have kept := held.kept shm live
    have mine := own shm found
    have cleared := unmap_atts_cleared _ _ held.guarded held.unshared kept.placed unmapped
    have kernel := cleared.same_kernel fun i j => covered_by_user kept.placed
    have owned := cleared.owned kept.owned
    obtain ⟨guarded, entries⟩ := free_phys_spec _ cleared.guarded
      (held.own.of_same kernel cleared.guarded cleared.unshared) (held.clear.of_same kernel)
      owned.nodup owned.real owned.outside
      (fun a member d inDirs i slot j inTable => atts_cleared_unmapped held live
        (fun att inAtts => (mine att inAtts).1) cleared member inDirs slot inTable) freed
    refine ⟨fun shm' found' a member free d inDirs i slot j inTable maps => ?_,
      fun shm' found' d inDirs i slot j inTable used other => ?_⟩
    · cases found.symm.trans found'
      have off := (guarded.unmapped d inDirs i slot j inTable _ maps).2
      rw [page_address (kept.owned.real a member).1] at off
      exact off free
    · cases found.symm.trans found'
      have unchanged := atts_cleared_unchanged held live cleared
        (fun att inAtts => (mine att inAtts).2) inDirs slot inTable used other
      rcases entries d inDirs i slot j with same | unused
      · exact same.trans unchanged
      · rw [unchanged] at unused
        exact absurd unused used

end Destroy

theorem Sound.in_order {s : Shms} (sound : Sound s) (none : ∀ shm, ¬ s.Live shm) : InOrder s :=
  ⟨sound, fun shm live => absurd live (none shm), fun shm _ live => absurd live (none shm)⟩

/-- Shared memory that only the caller of `ipc_shm_destroy` has attached, and that nothing
else was mapped over, is given back unmapped, and nothing else is unmapped with it. -/
theorem destroyed_memory_is_unmapped (s : Shms) (events : List Event) (id : Int) (start : Sound s)
    (none : ∀ shm, ¬ s.Live shm) (meets : Along step Meets s events)
    (ran : run step s events = some t) (own : DestroysOwn id t)
    (done : ipcShmDestroy id t = some (0, t')) : Destroyed id t t' :=
  destroy_spec (run_guarded step_in_order (start.in_order none) meets ran) own done

section Spaces

/-- A kernel without IPC objects, whose current process is the first one. -/
def processes (procs : List Ptr) (spaces : Ptr → Addrspace) (machine : Machine) : Shms where
  kernel := { ProcmLists.bootKernel with procAll := procs, procRunning := procs, procCurrent := 1 }
  ipcObjects := []
  ipc := fun _ => ⟨.shm, 0, 0, 0, 0, 0⟩
  ipcLastid := 0
  shms := fun _ => ⟨0, 0, [], [], 0, 0, 0, 0⟩
  machine := machine
  spaces := spaces

/-- A second directory at 0x330, with the stack page 0x332 in its table 0x331. -/
def twoSpacesFrames (frame word : Nat) : Entry :=
  if frame = 0x330 then
    if word = 1022 then tableEntry 0x331000
    else if word = 1023 then { tableEntry 0x330000 with user := false }
    else oneSpaceFrames 0x300 word
  else if frame = 0x331 ∧ word = 1022 then loadedEntry 0x332
  else oneSpaceFrames frame word

def twoSpaces : Shms :=
  processes [1, 2]
    (fun proc => ⟨[0xFFBFE000], [], [], if proc = 1 then 0x310 else 0x330, 0xFFBFE000⟩)
    { oneSpace.machine with frames := twoSpacesFrames }

/-- Two processes attach one object and the second one destroys it. Its page is free, and
the first process still has it. -/
theorem destroyed_page_stays_mapped : ∃ s s',
    run step twoSpaces
        [.create 9 7 4096 0o666, .attach 0 0x40000000 0 0, .switch 2, .attach 0 0x40000000 0 0] =
      some s ∧
    ipcShmDestroy 0 s = some (0, s') ∧ (s.shms 9).phys = [0x327000] ∧
    0x327000 ∈ freePages s'.machine.mem ∧ Maps s'.machine 0x310 256 0 0x327 ∧
    ¬ Destroyed 0 s s' := by
  obtain ⟨s, ran, found, phys, dir, ⟨r, s'⟩, done, (rfl : r = 0), freed, word⟩ : ∃ s, run step twoSpaces
      [.create 9 7 4096 0o666, .attach 0 0x40000000 0 0, .switch 2, .attach 0 0x40000000 0 0] =
      some s ∧ ipcFind (-1) 0 .shm s.toObjects = some 9 ∧ (s.shms 9).phys = [0x327000] ∧
      0x310 ∈ s.pagedirs ∧ ∃ r, ipcShmDestroy 0 s = some r ∧ r.1 = 0 ∧
        0x327000 ∈ freePages r.2.machine.mem ∧
        entry r.2.machine 0x310 256 0 = mapEntry 0x327000 true true := by
    decide +kernel
  have maps : Maps s'.machine 0x310 256 0 0x327 := by
    rw [maps_iff_entry, word]
    exact ⟨rfl, rfl⟩
  refine ⟨s, s', ran, done, phys, freed, maps, fun destroyed => ?_⟩
  exact destroyed.released 9 found 0x327000 (by rw [phys]; decide) freed 0x310
    dir 256 (by decide) 0 (by decide) maps

/-- One process in the address space of `oneSpace`. -/
def oneProcess : Shms :=
  processes [1] (fun _ => ⟨[0xFFBFE000], [], [], 0x310, 0xFFBFE000⟩) oneSpace.machine

/-- With a heap that has a free page. -/
def Shms.withPage (s : Shms) : HeapShms := ⟨s, KernelHeap.pageHeap, [0x310], some 0x310⟩

theorem one_space_own_tables : OwnStackTables oneSpace.pagedirs oneSpace.machine := by
  intro d inDirs d' inDirs' i small i' slot' other present'
  have present : (oneSpace.machine.frames d i).present = true := by
    obtain ⟨zero, one⟩ := one_space_directories.kernel d inDirs
    obtain rfl | rfl : i = 0 ∨ i = 1 := by omega
    · exact zero
    · exact one
  have table := one_space_tables inDirs present
  have table' := one_space_tables inDirs' present'
  have either := one_space_dirs inDirs'
  omega

theorem one_space_stack_clear : StackClear oneSpace.pagedirs oneSpace.machine := by
  intro d inDirs page above below
  change 0x301 ≤ page at above
  rw [pageEntry, one_space_entry inDirs (by omega), if_neg (by omega), if_neg (by omega),
    if_neg (by omega)]
  exact ⟨rfl, rfl⟩

theorem one_process_sound : Sound oneProcess := by
  have dirs : oneProcess.pagedirs = oneSpace.pagedirs := by decide
  refine ⟨?_, ?_, ?_, ?_, by decide, by decide⟩
  · rw [dirs]
    exact one_space_in_order.guarded
  · rw [dirs]
    exact one_space_unshared
  · rw [dirs]
    exact one_space_own_tables
  · rw [dirs]
    exact one_space_stack_clear

/-- The process attaches an object of two pages where there is room and destroys it. -/
theorem own_object_is_destroyed :
    Sound oneProcess ∧ (∀ shm, ¬ oneProcess.Live shm) ∧
      Along step Meets oneProcess [.create 9 7 8192 0o666, .attach 0 0x40000000 0 0] ∧
      ∃ s s', run step oneProcess [.create 9 7 8192 0o666, .attach 0 0x40000000 0 0] = some s ∧
        DestroysOwn 0 s ∧ ipcShmDestroy 0 s = some (0, s') ∧ Destroyed 0 s s' := by
  have none : ∀ shm, ¬ oneProcess.Live shm := fun shm live => absurd live.1 List.not_mem_nil
  obtain ⟨t, created, there, two⟩ : ∃ s, step oneProcess (.create 9 7 8192 0o666) = some s ∧
      ipcFind (-1) 0 .shm s.toObjects = some 9 ∧ (s.shms 9).numPages = 2 := by
    decide +kernel
  have meets : Along step Meets oneProcess [.create 9 7 8192 0o666, .attach 0 0x40000000 0 0] := by
    refine along_cons.mpr ⟨trivial, fun s ran => along_cons.mpr ⟨fun shm found => ?_, fun _ _ => trivial⟩⟩
    cases created.symm.trans ran
    cases there.symm.trans found
    rw [if_neg (by decide), two]
    decide
  obtain ⟨s, ran, found, current, object, first, second, ⟨r, s'⟩, done, (rfl : r = 0)⟩ : ∃ s,
      run step oneProcess [.create 9 7 8192 0o666, .attach 0 0x40000000 0 0] = some s ∧
      ipcFind (-1) 0 .shm s.toObjects = some 9 ∧ s.kernel.procCurrent = 1 ∧
      s.shms 9 = ⟨8192, 2, [0x327000, 0x326000], [⟨1, 0x40000000, false⟩], 0, 0, 0, 0⟩ ∧
      attEntry s ⟨1, 0x40000000, false⟩ 0 = mapEntry 0x327000 true true ∧
      attEntry s ⟨1, 0x40000000, false⟩ 1 = mapEntry 0x326000 true true ∧
      ∃ r, ipcShmDestroy 0 s = some r ∧ r.1 = 0 := by
    decide +kernel
  have own : DestroysOwn 0 s := by
    intro shm found' att member
    cases found.symm.trans found'
    rw [object] at member ⊢
    cases List.mem_singleton.mp member
    refine ⟨current.symm, fun k (small : k < 2) => Or.inr ?_⟩
    interval_cases k
    · rw [first]
      decide
    · rw [second]
      decide
  exact ⟨one_process_sound, none, meets, s, s', ran, own, done,
    destroyed_memory_is_unmapped oneProcess _ 0 one_process_sound none meets ran own done⟩

end Spaces

end MeinOS.Shm
