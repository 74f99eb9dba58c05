import MeinOS.Lib.Runs
import MeinOS.Llist

/-! The devices of `apps/devfs/devfs.c`. Any process may create and remove them; a lookup that
finds nothing answers with the index -1, for which `llist_get` has no item. In a read, the number
that the driver answers, or the -1 of a call that failed, becomes the length of a copy as it is. -/
namespace MeinOS.Devfs
open Llist Lib.Runs

/-- `ENOENT`. -/
def enoent : Int := 45

/-- A string without its NUL. -/
abbrev Str := List (BitVec 8)

/-- `struct devlist_item`, as far as the list is concerned. -/
structure Dev where
  id : Int
  name : Str
  owner : Nat
  deriving DecidableEq

structure Server where
  devlist : List Dev
  nextdevid : BitVec 32
  deriving DecidableEq

/-- `getlid_devid`. -/
def getlidDevid (v : Server) (devid : Int) : Option Nat := v.devlist.findIdx? (·.id = devid)

/-- `getdev_name`. -/
def getdevName (v : Server) (name : Str) : Option Dev := v.devlist.find? (·.name = name)

/-- `devfs_createdev`, called by the process `pid`. The id is used up in any case. -/
def devfsCreatedev (v : Server) (pid : Nat) (name : Str) : Int × Server :=
  if v.nextdevid.toInt ≥ 0 ∧ getdevName v name = none then
    (v.nextdevid.toInt,
      ⟨llistPush v.devlist ⟨v.nextdevid.toInt, name, pid⟩, v.nextdevid + 1⟩)
  else (-1, { v with nextdevid := v.nextdevid + 1 })

/-- `devfs_removedev`. -/
def devfsRemovedev (v : Server) (pid : Nat) (id : Int) : Int × Server :=
  match (getlidDevid v id).bind (llistGet v.devlist) with
  | some dev =>
    if dev.owner = pid then (0, { v with devlist := (llistRemove v.devlist (getlidDevid v id)).2 })
    else (-1, v)
  | none => (-1, v)

/-- The loop of `devfs_readdir` from index `i` on, for at most `left` rounds. -/
def fillFrom (v : Server) : Nat → Nat → List Str
  | 0, _ => []
  | left + 1, i =>
    match llistGet v.devlist i with
    | some dev => dev.name :: fillFrom v left (i + 1)
    | none => []

/-- `devfs_readdir`: its result and what it hands to `filler`. -/
def devfsReaddir (v : Server) (path : Str) : Int × List Str :=
  if path = [47] then (0, [46] :: [46, 46] :: fillFrom v (v.devlist.length + 1) 0) else (-enoent, [])

inductive Call where
  | createdev (pid : Nat) (name : Str)
  | removedev (pid : Nat) (id : Int)
  deriving DecidableEq

def step (v : Server) : Call → Option Server
  | .createdev pid name => some (devfsCreatedev v pid name).2
  | .removedev pid id => some (devfsRemovedev v pid id).2

/-- The server after its `main` has set it up. -/
def start : Server := ⟨[], 1⟩

/-- How many of the calls create a device. -/
def creations (calls : List Call) : Nat :=
  calls.countP fun | .createdev _ _ => true | .removedev _ _ => false

/-- Ids and names are different, and the directory lists every device once. -/
structure Registered (v : Server) : Prop where
  ids : (v.devlist.map (·.id)).Nodup
  names : (v.devlist.map (·.name)).Nodup
  listed : ∃ names, devfsReaddir v [47] = (0, [46] :: [46, 46] :: names) ∧
    ∀ name, names.count name = if ∃ dev ∈ v.devlist, dev.name = name then 1 else 0

/-- What a call does to the list. -/
def Promised (v : Server) : Call → Prop
  | .createdev pid name =>
    if ∃ dev ∈ v.devlist, dev.name = name then
      (devfsCreatedev v pid name).1 = -1 ∧ (devfsCreatedev v pid name).2.devlist = v.devlist
    else devfsCreatedev v pid name = (v.nextdevid.toInt,
      ⟨⟨v.nextdevid.toInt, name, pid⟩ :: v.devlist, v.nextdevid + 1⟩)
  | .removedev pid id =>
    if ∃ dev ∈ v.devlist, dev.id = id ∧ dev.owner = pid then
      devfsRemovedev v pid id = (0, { v with devlist := v.devlist.filter (·.id ≠ id) })
    else devfsRemovedev v pid id = (-1, v)

/-- The invariant: names are different, and the ids as well, which are those given out so far. -/
structure Numbered (v : Server) : Prop where
  ids : (v.devlist.map (·.id)).Nodup
  names : (v.devlist.map (·.name)).Nodup
  used : ∀ dev ∈ v.devlist, dev.id < v.nextdevid.toNat

variable {v : Server}

theorem fill_from_eq (v : Server) (left i : Nat) :
    fillFrom v left i = ((v.devlist.drop i).take left).map (·.name) := by
  induction left generalizing i with
  | zero => rfl
  | succ left ih =>
    rw [fillFrom, llistGet]
    cases inside : v.devlist[i]? with
    | none =>
      rw [List.drop_eq_nil_of_le (List.getElem?_eq_none_iff.mp inside)]
      rfl
    | some dev =>
      obtain ⟨below, rfl⟩ := List.getElem?_eq_some_iff.mp inside
      rw [List.drop_eq_getElem_cons below, List.take_succ_cons, List.map_cons, ih]

theorem Numbered.registered (held : Numbered v) : Registered v := by
  refine ⟨held.ids, held.names, v.devlist.map (·.name), ?_, fun name => ?_⟩
  · rw [devfsReaddir, if_pos rfl, fill_from_eq, List.drop_zero, List.take_of_length_le (Nat.le_succ _)]
  · split
    · rename_i used
      exact List.count_eq_one_of_mem held.names (List.mem_map.mpr used)
    · rename_i unused
      exact List.count_eq_zero.mpr fun member => unused (List.mem_map.mp member)

/-- There is an id left for the call. -/
def HasId (v : Server) : Call → Prop
  | .createdev _ _ => v.nextdevid.toNat < 2 ^ 31
  | .removedev _ _ => True

theorem next_id (left : v.nextdevid.toNat < 2 ^ 31) : v.nextdevid.toInt = v.nextdevid.toNat ∧
    (v.nextdevid + 1).toNat = v.nextdevid.toNat + 1 :=
  ⟨BitVec.toInt_eq_toNat_of_lt (by omega), BitVec.toNat_add_of_lt (by change _ + 1 < _; omega)⟩

/-- While ids are left, each call does what is promised. -/
theorem Numbered.promised (held : Numbered v) (call : Call) (left : HasId v call) : Promised v call := by
  cases call with
  | createdev pid name =>
    have positive : v.nextdevid.toInt ≥ 0 := by
      rw [(next_id left).1]
      exact Int.natCast_nonneg _
    have found : v.devlist.find? (·.name = name) = none ↔ ¬ ∃ dev ∈ v.devlist, dev.name = name := by
      simp [List.find?_eq_none]
    by_cases used : ∃ dev ∈ v.devlist, dev.name = name
    · simp [Promised, devfsCreatedev, getdevName, found, used]
    · simp [Promised, devfsCreatedev, getdevName, found, used, positive, llistPush]
  | removedev pid id =>
    simp only [Promised, devfsRemovedev, getlidDevid, llist_get_first, llist_remove_first]
    cases found : v.devlist.find? (·.id = id) with
    | none =>
      have missing := List.find?_eq_none.mp found
      rw [if_neg]
      rintro ⟨dev, member, same, -⟩
      exact missing dev member (decide_eq_true same)
    | some dev =>
      have member := List.mem_of_find?_eq_some found
      have same : dev.id = id := by simpa using List.find?_some found
      rw [erase_keyed held.ids]
      by_cases own : dev.owner = pid
      · rw [if_pos ⟨dev, member, same, own⟩]
        exact if_pos own
      · rw [if_neg]
        · exact if_neg own
        · rintro ⟨other, member', same', own'⟩
          obtain rfl := List.inj_on_of_nodup_map held.ids member' member (same'.trans same.symm)
          exact own own'

theorem Numbered.step (held : Numbered v) (call : Call) (left : HasId v call) :
    ∃ v', step v call = some v' ∧ Numbered v' := by
  have promised := held.promised call left
  cases call with
  | createdev pid name =>
    obtain ⟨id, next⟩ := next_id left
    have used : ∀ dev ∈ v.devlist, dev.id < (v.nextdevid + 1).toNat := by
      intro dev member
      have before := held.used dev member
      omega
    refine ⟨(devfsCreatedev v pid name).2, rfl, ?_⟩
    unfold devfsCreatedev
    split
    · rename_i free
      have unused : ¬ ∃ dev ∈ v.devlist, dev.name = name := by
        simpa [getdevName, List.find?_eq_none] using free.2
      have fresh : (v.nextdevid.toNat : Int) ∉ v.devlist.map (·.id) := by
        simp only [List.mem_map, not_exists, not_and]
        intro dev listed
        exact ne_of_lt (held.used dev listed)
      have last : (v.nextdevid.toNat : Int) < (v.nextdevid + 1).toNat := by omega
      rw [id]
      exact ⟨List.nodup_cons.mpr ⟨fresh, held.ids⟩,
        List.nodup_cons.mpr ⟨fun member => unused (List.mem_map.mp member), held.names⟩,
        List.forall_mem_cons.mpr ⟨last, used⟩⟩
    · exact ⟨held.ids, held.names, used⟩
  | removedev pid id =>
    refine ⟨(devfsRemovedev v pid id).2, rfl, ?_⟩
    rw [Promised] at promised
    split at promised <;> rw [promised]
    · exact ⟨held.ids.sublist (List.filter_sublist.map _), held.names.sublist (List.filter_sublist.map _),
        fun dev member => held.used dev (List.mem_of_mem_filter member)⟩
    · exact held

/-- With fewer than 2^31 creations no id is missing. -/
theorem ids_last (calls : List Call) (few : v.nextdevid.toNat + creations calls ≤ 2 ^ 31) :
    Along step HasId v calls := by
  induction calls generalizing v with
  | nil => trivial
  | cons call calls ih =>
    rw [along_cons]
    cases call with
    | createdev pid name =>
      have count : creations (.createdev pid name :: calls) = creations calls + 1 := by simp [creations]
      have left : v.nextdevid.toNat < 2 ^ 31 := by omega
      refine ⟨left, fun v' ran => ih ?_⟩
      have next : v'.nextdevid = v.nextdevid + 1 := by
        cases ran
        unfold devfsCreatedev
        split <;> rfl
      rw [next, (next_id left).2]
      omega
    | removedev pid id =>
      have count : creations (.removedev pid id :: calls) = creations calls := by simp [creations]
      refine ⟨trivial, fun v' ran => ih ?_⟩
      have next : v'.nextdevid = v.nextdevid := by
        cases ran
        unfold devfsRemovedev
        repeat split
        all_goals rfl
      rw [next]
      omega

/-- Over any calls of any processes with fewer than 2^31 creations, the devices are registered
under different ids and names, and each call does to the list what it should. -/
theorem devices_stay_registered (calls : List Call) (few : creations calls < 2 ^ 31) :
    (∃ v, run step start calls = some v) ∧ Throughout step Registered start calls ∧
      Along step Promised start calls := by
  have ids : Along step HasId start calls := ids_last calls (by change 1 + _ ≤ _; omega)
  have held : Numbered start := ⟨List.nodup_nil, List.nodup_nil, fun _ member => absurd member List.not_mem_nil⟩
  have goes : ∀ v call, Numbered v → HasId v call → ∃ v', step v call = some v' ∧ Numbered v' :=
    fun _ call held => held.step call
  obtain ⟨ends, registered⟩ := guarded_run goes (fun _ => Numbered.registered) held ids
  exact ⟨ends, registered, ids.derive (fun _ call held => held.promised call) (keeps_of_goes goes) held⟩

/-- A second device of the same name is refused, and so is its removal by another process. -/
theorem two_devices :
    run step start [.createdev 7 [97], .createdev 8 [97], .createdev 8 [98], .removedev 7 3,
      .removedev 8 3] = some ⟨[⟨1, [97], 7⟩], 4⟩ ∧
    Registered ⟨[⟨1, [97], 7⟩], 4⟩ := by
  have ran : run step start [.createdev 7 [97], .createdev 8 [97], .createdev 8 [98], .removedev 7 3,
      .removedev 8 3] = some ⟨[⟨1, [97], 7⟩], 4⟩ := by decide +kernel
  exact ⟨ran, (devices_stay_registered _ (by decide)).2.1 _ _ List.prefix_rfl ran⟩

section Read

/-- What `rpc_call` returns: the answer of the driver, or -1 if the call fails. -/
def rpcCall (reply : Option Int) : Int := reply.getD (-1)

/-- `devfs_read`, with the size of the buffer of the device if there is one, and the answers of its
driver to requests: the result, and how much `memcpy` copies from the buffer of the device. -/
def devfsRead (bufsz : Option Nat) (driver : Nat → Int → Option Int) (count : Nat) (offset : Int) : Int × Nat :=
  match bufsz with
  | none => (-enoent, 0)
  | some bufsz =>
    let ret := rpcCall (driver (if bufsz < count then bufsz else count) offset)
    (ret, (ret % 2 ^ 32).toNat)

/-- The answer is returned and as much is copied, nothing if there is none or it is an error. -/
def Copies (bufsz : Nat) (reply : Option Int) (count : Nat) (read : Int × Nat) : Prop :=
  read.1 = rpcCall reply ∧ read.2 = (reply.getD 0).toNat ∧ read.2 ≤ min count bufsz

end Read

/-- A read copies what it should exactly if the driver answers, and not with an error. -/
theorem device_read_iff (bufsz : Nat) (driver : Nat → Int → Option Int) (count : Nat) (offset : Int)
    (small : count < 2 ^ 32) (replies : ∀ n r, driver n offset = some r → -2 ^ 31 ≤ r ∧ r ≤ n) :
    Copies bufsz (driver (min count bufsz) offset) count (devfsRead (some bufsz) driver count offset) ↔
      ∃ r, driver (min count bufsz) offset = some r ∧ 0 ≤ r := by
  have clamped : (if bufsz < count then bufsz else count) = min count bufsz := by
    split <;> omega
  rw [Copies, devfsRead, clamped]
  cases answered : driver (min count bufsz) offset with
  | none => simp [rpcCall]
  | some r =>
    obtain ⟨low, high⟩ := replies _ r answered
    simp only [rpcCall, Option.getD_some, Option.some.injEq, exists_eq_left', true_and]
    constructor
    · rintro ⟨length, -⟩
      omega
    · intro answer
      rw [Int.emod_eq_of_lt answer (by omega)]
      exact ⟨rfl, by omega⟩

/-- A driver that answers with an error. -/
theorem error_is_copied : devfsRead (some 4096) (fun _ _ => some (-5)) 16 0 = (-5, 0xFFFFFFFB) := by
  decide

theorem ten_bytes_are_copied : Copies 4096 (some 10) 16 (devfsRead (some 4096) (fun n _ => some (min n 10)) 16 0) :=
  (device_read_iff 4096 (fun n _ => some (min n 10)) 16 0 (by decide) (by intro n r same; cases same; omega)).mpr
    ⟨10, rfl, by decide⟩

end MeinOS.Devfs
