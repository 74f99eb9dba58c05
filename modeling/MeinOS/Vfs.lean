import MeinOS.Lib.LongestPrefix
import MeinOS.Lib.Runs
import MeinOS.Llist
import MeinOS.PathNormal

/-! The mount table of `apps/vfs/vfs.c`.

A file system is found by the number of leading components that its mountpoint shares with
the path, which says nothing about the rest of the mountpoint, and its name is then cut off
the path by length. `root_fs` starts the search and shares nothing with any path. -/
namespace MeinOS.Vfs
open MeinOS.Path PathNormal Llist Lib.Runs Lib.LongestPrefix

/-- `ENOENT`. -/
def enoent : Int := 45

/-- `struct fslist_item`. -/
structure Fs where
  fsid : Nat
  mountpoint : Str
  mpPath : PathT
  pid : Nat
  deriving DecidableEq

/-- The state of the server. `root_fs` may point to an item that is freed. -/
structure Server where
  fslist : List Fs
  rootFs : Option Fs
  nextfsid : Nat
  deriving DecidableEq

/-- The mountpoint as `vfs_regfs` stores it, without a slash at its end. -/
def trimMountpoint (mountpoint : Str) : Str :=
  if mountpoint.getLast? = some slash ∧ 1 < mountpoint.length then mountpoint.dropLast else mountpoint

/-- The item that `vfs_regfs` fills. -/
def newFs (v : Server) (pid : Nat) (mountpoint : Str) : Fs where
  fsid := v.nextfsid
  mountpoint := trimMountpoint mountpoint
  mpPath := pathParse (trimMountpoint mountpoint)
  pid := pid

/-- `vfs_regfs`. -/
def vfsRegfs (v : Server) (pid : Nat) (mountpoint : Str) : Server where
  fslist := llistPush v.fslist (newFs v pid mountpoint)
  rootFs := if trimMountpoint mountpoint = [slash] then some (newFs v pid mountpoint) else v.rootFs
  nextfsid := v.nextfsid + 1

/-- `getlid_fsid`. -/
def getlidFsid (v : Server) (fsid : Nat) : Option Nat := v.fslist.findIdx? (·.fsid = fsid)

/-- `vfs_remfs`, which faults on an id that is not registered. -/
def vfsRemfs (v : Server) (pid fsid : Nat) : Option (Int × Server) :=
  ((getlidFsid v fsid).bind (llistGet v.fslist)).map fun rem =>
    if rem.pid = pid then (0, { v with fslist := (llistRemove v.fslist (getlidFsid v fsid)).2 })
    else (-1, v)

/-- Cuts the mountpoint off a path, as both searches do with `memmove`. The size it moves is
computed as a `size_t`: it is zero if the mountpoint is one byte longer than the path, and
too large for any memory if it is longer than that. -/
def cutMountpoint (file mountpoint : Str) : Option Str :=
  if mountpoint.length ≤ file.length then
    some (if file.drop mountpoint.length = [] then [slash] else file.drop mountpoint.length)
  else if mountpoint.length = file.length + 1 then some (if file = [] then [slash] else file)
  else none

/-- The path that is searched for. -/
def searched (file : Str) (parent : Bool) : PathT :=
  if parent then pathParent (pathParse file) else pathParse file

/-- How far a file system matches, in the loop of `vfs_getfsid`. -/
def compared (path : PathT) (fs : Fs) : Nat := pathCompare path fs.mpPath

/-- `vfs_getfsid`: the id and the path as it is left, or nothing if it reads through a freed
`root_fs` or moves more than there is. -/
def vfsGetfsid (v : Server) (file : Str) (parent : Bool) : Option (Int × Str) :=
  match largest (compared (searched file parent)) v.fslist 0 v.rootFs with
  | some maxfs =>
    if maxfs ∈ v.fslist then (cutMountpoint file maxfs.mountpoint).map ((maxfs.fsid : Int), ·) else none
  | none => some (-enoent, file)

/-- `vfs_getpid`. -/
def vfsGetpid (v : Server) (fsid : Nat) : Option Nat :=
  ((getlidFsid v fsid).bind (llistGet v.fslist)).map (·.pid)

/-- What a client asks of the table. -/
inductive Call where
  | regfs (pid : Nat) (mountpoint : Str)
  | remfs (pid fsid : Nat)
  deriving DecidableEq

def step (v : Server) : Call → Option Server
  | .regfs pid mountpoint => some (vfsRegfs v pid mountpoint)
  | .remfs pid fsid => (vfsRemfs v pid fsid).map (·.2)

/-- The server after its `main` has set it up. -/
def start : Server := ⟨[], none, 1⟩

/-- Mountpoints are registered as normalised paths. -/
def Call.Normal : Call → Prop
  | .regfs _ mountpoint => Normalised mountpoint
  | .remfs _ _ => True

/-! Comparing paths by their names. -/

/-- The components of a path. -/
def names (path : Str) : List Str := real (path.splitOn slash)

theorem names_joined {parts : List Str} (all : ∀ part ∈ parts, Name part) : names (joined parts) = parts := by
  unfold names
  rw [split_joined fun part member => (all part member).whole, real_blank]
  split
  · rename_i none
    rw [none]
    rfl
  · exact real_of_real fun part member => (all part member).some

/-- Normalised paths are the joined lists of their own names. -/
theorem normalised_names {path : Str} (normal : Normalised path) :
    (∀ part ∈ names path, Name part) ∧ path = joined (names path) := by
  obtain ⟨parts, all, rfl⟩ := normal
  rw [names_joined all]
  exact ⟨all, rfl⟩

theorem compare_parts (n : Nat) (parts1 parts2 : List Str) (enough : parts1.length + parts2.length ≤ n) :
    compareParts n parts1 parts2 = shared (real parts1) (real parts2) := by
  induction n generalizing parts1 parts2 with
  | zero =>
    have none : parts1 = [] := List.length_eq_zero_iff.mp (by omega)
    rw [none]
    rfl
  | succ n ih =>
    cases parts1 with
    | nil => rfl
    | cons part1 rest1 =>
      cases parts2 with
      | nil => rw [real_nil, shared_nil_right, compareParts]; simp
      | cons part2 rest2 =>
        simp only [List.length_cons] at enough
        rw [compareParts]
        split
        · rename_i blank
          rw [blank, real_blank]
          exact ih rest1 (part2 :: rest2) (by simp only [List.length_cons]; omega)
        · rename_i some1
          split
          · rename_i blank
            rw [blank, real_blank]
            exact ih (part1 :: rest1) rest2 (by simp only [List.length_cons]; omega)
          · rename_i some2
            rw [real_cons some1, real_cons some2]
            split
            · rename_i apart
              rw [shared_cons_ne apart]
            · rename_i same
              rw [not_not.mp same, shared_cons_self, ih rest1 rest2 (by omega)]

theorem parse_is_root {path : Str} (normal : Normalised path) : (pathParse path).root = true := by
  simpa [pathParse] using normalised_starts normal

/-- `path_compare` counts the components that two paths start with in common. -/
theorem compare_eq (path1 path2 : Str) : pathCompare (pathParse path1) (pathParse path2) =
    if (pathParse path1).root ≠ (pathParse path2).root then 0 else shared (names path1) (names path2) := by
  rw [pathCompare, compare_parts _ _ _ le_rfl, parse_parts, parse_parts]
  rfl

theorem compare_shared {path mountpoint : Str} (normal : Normalised path) (mounted : Normalised mountpoint) :
    pathCompare (pathParse path) (pathParse mountpoint) = shared (names path) (names mountpoint) := by
  rw [compare_eq, parse_is_root normal, parse_is_root mounted, if_neg (not_not.mpr rfl)]

/-- `path_compare` of any two paths that both start with a slash or both do not counts the
components they start with in common; else it is 0. -/
theorem compare_longest_prefix (path1 path2 : Str) :
    ((path1.head? = some slash ↔ path2.head? = some slash) →
      IsGreatest (commonLengths (names path1) (names path2)) (pathCompare (pathParse path1) (pathParse path2))) ∧
    (¬ (path1.head? = some slash ↔ path2.head? = some slash) →
      pathCompare (pathParse path1) (pathParse path2) = 0) ∧
    pathCompare (pathParse path1) (pathParse path2) = pathCompare (pathParse path2) (pathParse path1) := by
  have roots : (pathParse path1).root = (pathParse path2).root ↔
      (path1.head? = some slash ↔ path2.head? = some slash) := decide_eq_decide
  refine ⟨fun same => ?_, fun other => if_pos fun same => other (roots.mp same), ?_⟩
  · rw [compare_eq, if_neg (not_not.mpr (roots.mpr same))]
    exact shared_greatest _ _
  · rw [compare_eq, compare_eq, shared_comm]
    exact if_congr ne_comm rfl rfl

/-! Cutting a mountpoint off. -/

theorem joined_append {before after : List Str} (below : before ≠ []) :
    joined (before ++ after) = joined before ++ after.flatMap (slash :: ·) := by
  simp [joined, below]

/-- Below a mountpoint other than `/` the rest of the path is left. -/
theorem cut_below {before after : List Str} (below : before ≠ []) :
    cutMountpoint (joined (before ++ after)) (joined before) = some (joined after) := by
  unfold cutMountpoint
  rw [joined_append below, if_pos (by simp), List.drop_left]
  unfold joined
  by_cases none : after = []
  · simp [none]
  · have some : after.flatMap (slash :: ·) ≠ [] := by
      cases after with
      | nil => exact absurd rfl none
      | cons => simp
    rw [if_neg some, if_neg none]

/-- What is left below `/` has lost its slash. -/
theorem cut_root {path : Str} (starts : path ≠ []) : cutMountpoint path [slash] =
    some (if path.drop 1 = [] then [slash] else path.drop 1) :=
  if_pos (List.length_pos_of_ne_nil starts)

/-! What the calls keep. -/

/-- The table of a server that was given normalised mountpoints. -/
structure Mounted (v : Server) : Prop where
  normal : ∀ fs ∈ v.fslist, Normalised fs.mountpoint
  parsed : ∀ fs ∈ v.fslist, fs.mpPath = pathParse fs.mountpoint
  root : ∀ fs ∈ v.rootFs, fs.mountpoint = [slash]
  below : ∀ fs ∈ v.fslist, fs.fsid < v.nextfsid
  apart : (v.fslist.map (·.fsid)).Nodup

theorem start_mounted : Mounted start where
  normal _ member := absurd member List.not_mem_nil
  parsed _ member := absurd member List.not_mem_nil
  root _ member := nomatch member
  below _ member := absurd member List.not_mem_nil
  apart := List.nodup_nil

/-- A normalised path has no slash at its end to trim. -/
theorem trim_normalised {mountpoint : Str} (normal : Normalised mountpoint) :
    trimMountpoint mountpoint = mountpoint := by
  obtain ⟨parts, all, rfl⟩ := normal
  apply if_neg
  rintro ⟨ends, long⟩
  rcases List.eq_nil_or_concat' parts with none | ⟨before, last, rfl⟩
  · rw [none] at long
    exact absurd long (by decide)
  · have name := all last (by simp)
    have shape : joined (before ++ [last]) = before.flatMap (slash :: ·) ++ slash :: last := by
      simp [joined]
    rw [shape, List.getLast?_append, List.getLast?_cons, List.getLast?_eq_some_getLast name.some] at ends
    apply name.whole
    rw [← Option.some.inj ends]
    exact List.getLast_mem name.some

theorem regfs_below {v : Server} (below : ∀ fs ∈ v.fslist, fs.fsid < v.nextfsid) (pid : Nat)
    (mountpoint : Str) : ∀ fs ∈ (vfsRegfs v pid mountpoint).fslist, fs.fsid < v.nextfsid + 1 :=
  List.forall_mem_cons.mpr ⟨Nat.lt_succ_self _, fun fs member => Nat.lt_succ_of_lt (below fs member)⟩

theorem regfs_apart {v : Server} (below : ∀ fs ∈ v.fslist, fs.fsid < v.nextfsid)
    (apart : (v.fslist.map (·.fsid)).Nodup) (pid : Nat) (mountpoint : Str) :
    ((vfsRegfs v pid mountpoint).fslist.map (·.fsid)).Nodup := by
  refine List.nodup_cons.mpr ⟨fun listed => ?_, apart⟩
  obtain ⟨fs, member, same⟩ := List.mem_map.mp listed
  exact absurd same (below fs member).ne

/-- A removal takes out what has the id, if the ids differ. -/
theorem remfs_eq {v : Server} (apart : (v.fslist.map (·.fsid)).Nodup) (pid fsid : Nat) :
    vfsRemfs v pid fsid = (v.fslist.find? (·.fsid = fsid)).map fun rem =>
      if rem.pid = pid then (0, { v with fslist := v.fslist.filter (·.fsid ≠ fsid) }) else (-1, v) := by
  rw [vfsRemfs, getlidFsid, llist_get_first, llist_remove_first, erase_keyed apart]

theorem regfs_mounted {v : Server} (mounted : Mounted v) (pid : Nat) {mountpoint : Str}
    (normal : Normalised mountpoint) : Mounted (vfsRegfs v pid mountpoint) where
  normal := by
    refine List.forall_mem_cons.mpr ⟨?_, mounted.normal⟩
    change Normalised (trimMountpoint mountpoint)
    rw [trim_normalised normal]
    exact normal
  parsed := List.forall_mem_cons.mpr ⟨rfl, mounted.parsed⟩
  root := by
    intro fs member
    change fs ∈ if _ then _ else _ at member
    split at member
    · rename_i root
      rw [← Option.some.inj member]
      exact root
    · exact mounted.root fs member
  below := regfs_below mounted.below pid mountpoint
  apart := regfs_apart mounted.below mounted.apart pid mountpoint

theorem remfs_mounted {v w : Server} (mounted : Mounted v) {pid fsid : Nat} {result : Int}
    (ran : vfsRemfs v pid fsid = some (result, w)) : Mounted w := by
  rw [remfs_eq mounted.apart] at ran
  obtain ⟨rem, -, same⟩ := Option.map_eq_some_iff.mp ran
  split at same
  · cases same
    exact {
      normal fs member := mounted.normal fs (List.mem_of_mem_filter member)
      parsed fs member := mounted.parsed fs (List.mem_of_mem_filter member)
      root := mounted.root
      below fs member := mounted.below fs (List.mem_of_mem_filter member)
      apart := mounted.apart.sublist (List.filter_sublist.map _) }
  · cases same
    exact mounted

theorem step_mounted {v w : Server} {call : Call} (mounted : Mounted v) (normal : call.Normal)
    (ran : step v call = some w) : Mounted w := by
  cases call with
  | regfs pid mountpoint =>
    cases ran
    exact regfs_mounted mounted pid normal
  | remfs pid fsid =>
    obtain ⟨⟨result, next⟩, removed, rfl⟩ := Option.map_eq_some_iff.mp ran
    exact remfs_mounted mounted removed

theorem run_mounted {v : Server} {calls : List Call} (normal : ∀ call ∈ calls, call.Normal)
    (ran : run step start calls = some v) : Mounted v := by
  have met : Along step (fun _ call => call.Normal) start calls :=
    along_of_forall fun call member _ => normal call member
  exact run_guarded (fun _ _ _ kept normal ran => step_mounted kept normal ran) start_mounted met ran

/-- Items with one id are one item. -/
theorem Mounted.unique {v : Server} (mounted : Mounted v) {fs other : Fs} (member : fs ∈ v.fslist)
    (found : other ∈ v.fslist) (same : fs.fsid = other.fsid) : fs = other :=
  List.inj_on_of_nodup_map mounted.apart member found same

/-- The score of the search. -/
theorem Mounted.score {v : Server} (mounted : Mounted v) {path : Str} (normal : Normalised path)
    {fs : Fs} (member : fs ∈ v.fslist) :
    compared (searched path false) fs = shared (names path) (names fs.mountpoint) := by
  unfold compared
  rw [mounted.parsed fs member]
  exact compare_shared normal (mounted.normal fs member)

/-! Resolution. -/

/-- The answer for a path: a file system whose mountpoint is the longest component-wise
prefix, and the rest of the path after it. -/
def Resolves (v : Server) (path : Str) (answer : Int × Str) : Prop :=
  ∃ fs ∈ v.fslist, answer.1 = fs.fsid ∧ names fs.mountpoint <+: names path ∧
    (∀ other ∈ v.fslist, names other.mountpoint <+: names path →
      (names other.mountpoint).length ≤ (names fs.mountpoint).length) ∧
    answer.2 = joined ((names path).drop (names fs.mountpoint).length)

/-- A mountpoint other than `/` is a prefix of the path, no mountpoint shares more components
with the path than that one has, and none registered later as many; or the path is `/` and
the last file system registered for it is still there. -/
def Clear (v : Server) (path : Str) : Prop :=
  (∃ later fs earlier, v.fslist = later ++ fs :: earlier ∧ names fs.mountpoint ≠ [] ∧
    names fs.mountpoint <+: names path ∧
    (∀ other ∈ later, shared (names path) (names other.mountpoint) < (names fs.mountpoint).length) ∧
    ∀ other ∈ earlier, shared (names path) (names other.mountpoint) ≤ (names fs.mountpoint).length) ∨
  path = [slash] ∧ ∃ fs ∈ v.rootFs, fs ∈ v.fslist

theorem getfsid_found {v : Server} {path : Str} {fs : Fs} (member : fs ∈ v.fslist)
    (found : largest (compared (searched path false)) v.fslist 0 v.rootFs = some fs) :
    vfsGetfsid v path false = (cutMountpoint path fs.mountpoint).map ((fs.fsid : Int), ·) := by
  unfold vfsGetfsid
  rw [found]
  exact if_pos member

theorem names_root : names [slash] = [] := rfl

section
variable {v : Server} (mounted : Mounted v) {path : Str} (normal : Normalised path)
include mounted normal

theorem Mounted.first {later earlier : List Fs} {fs : Fs} (shape : v.fslist = later ++ fs :: earlier)
    (inside : names fs.mountpoint <+: names path)
    (behind : ∀ other ∈ later, shared (names path) (names other.mountpoint) < (names fs.mountpoint).length)
    (ahead : ∀ other ∈ earlier, shared (names path) (names other.mountpoint) ≤ (names fs.mountpoint).length) :
    First (compared (searched path false)) v.fslist fs := by
  have score : ∀ other ∈ v.fslist, _ := fun other member => mounted.score normal member
  rw [shape] at score
  have own := (score fs (by simp)).trans (shared_eq_length.mpr inside)
  refine ⟨later, earlier, shape, fun other member => ?_, fun other member => ?_⟩
  · rw [own, score other (by simp [member])]
    exact behind other member
  · rw [own, score other (by simp [member])]
    exact ahead other member

theorem clear_resolves (clear : Clear v path) :
    ∃ answer, vfsGetfsid v path false = some answer ∧ Resolves v path answer := by
  obtain ⟨all, whole⟩ := normalised_names normal
  rcases clear with ⟨later, fs, earlier, shape, below, inside, behind, ahead⟩ | ⟨rfl, fs, pointed, member⟩
  · have first := mounted.first normal shape inside behind ahead
    have own := (mounted.score normal first.mem).trans (shared_eq_length.mpr inside)
    have found := largest_first first (own ▸ List.length_pos_of_ne_nil below) v.rootFs
    obtain ⟨rest, split⟩ := inside
    have cut : cutMountpoint path fs.mountpoint = some (joined rest) := by
      rw [whole, (normalised_names (mounted.normal fs first.mem)).2, ← split]
      exact cut_below below
    refine ⟨(fs.fsid, joined rest), by rw [getfsid_found first.mem found, cut]; rfl, fs, first.mem, rfl,
      ⟨rest, split⟩, fun other registered below' => ?_, by rw [← split, List.drop_left]⟩
    rw [← shared_eq_length.mpr below']
    rw [shape] at registered
    rcases List.mem_append.mp registered with after | here
    · exact (behind other after).le
    · rcases List.mem_cons.mp here with rfl | before
      · exact shared_le_length _ _
      · exact ahead other before
  · have low : ∀ other ∈ v.fslist, compared (searched [slash] false) other ≤ 0 := by
      intro other registered
      rw [mounted.score normal registered, names_root, shared_nil_left]
    have found := (largest_low low v.rootFs).trans pointed
    have mountpoint := mounted.root fs pointed
    refine ⟨(fs.fsid, [slash]), ?_, fs, member, rfl, ?_⟩
    · rw [getfsid_found member found, mountpoint]
      rfl
    · rw [mountpoint, names_root]
      refine ⟨List.nil_prefix, fun other _ inside => ?_, rfl⟩
      rw [List.prefix_nil.mp inside]

theorem resolves_clear {answer : Int × Str} (ran : vfsGetfsid v path false = some answer)
    (right : Resolves v path answer) : Clear v path := by
  obtain ⟨fs, member, id, inside, -, rest⟩ := right
  rcases low_or_first (compared (searched path false)) v.fslist 0 with
    low | ⟨item, first, above⟩
  · -- Nothing shares a component with the path, so `root_fs` is taken and only `/` survives the cut.
    cases pointed : v.rootFs with
    | none =>
      unfold vfsGetfsid at ran
      rw [largest_low low, pointed] at ran
      cases ran
      exact absurd id (by simp [enoent])
    | some root =>
      have found := (largest_low low v.rootFs).trans pointed
      by_cases held : root ∈ v.fslist
      · rw [getfsid_found held found, mounted.root root pointed, cut_root] at ran
        · cases ran
          have same := mounted.unique member held (by simpa using id.symm)
          have whole := (normalised_names normal).2
          subst same
          rw [mounted.root fs pointed, names_root, List.length_nil, List.drop_zero, ← whole] at rest
          refine .inr ⟨?_, fs, pointed, member⟩
          change (if path.drop 1 = [] then [slash] else path.drop 1) = path at rest
          split at rest
          · exact rest.symm
          · have length := congrArg List.length rest
            have starts := normalised_starts normal
            cases path with
            | nil => cases starts
            | cons => simp at length
        · intro none
          rw [none] at normal
          exact nomatch normalised_starts normal
      · unfold vfsGetfsid at ran
        rw [found] at ran
        simp only [if_neg held] at ran
        cases ran
  · rw [getfsid_found first.mem (largest_first first above v.rootFs)] at ran
    obtain ⟨left, -, rfl⟩ := Option.map_eq_some_iff.mp ran
    have same := mounted.unique member first.mem (by simpa using id.symm)
    subst same
    obtain ⟨later, earlier, shape, behind, ahead⟩ := first
    have own := (mounted.score normal member).trans (shared_eq_length.mpr inside)
    have score : ∀ other ∈ v.fslist, _ := fun other member => mounted.score normal member
    rw [shape] at score
    refine .inl ⟨later, fs, earlier, shape, ?_, inside, fun other registered => ?_,
      fun other registered => ?_⟩
    · apply List.ne_nil_of_length_pos
      rw [← own]
      exact above
    · rw [← own, ← score other (by simp [registered])]
      exact behind other registered
    · rw [← own, ← score other (by simp [registered])]
      exact ahead other registered

end

/-- In every table that registrations of normalised mountpoints and removals leave, a
normalised path resolves to the longest mountpoint and the rest of the path exactly if the
mountpoints are clear about it. -/
theorem mount_resolves_iff {v : Server} {calls : List Call} (normal : ∀ call ∈ calls, call.Normal)
    (ran : run step start calls = some v) {path : Str} (absolute : Normalised path) :
    (∃ answer, vfsGetfsid v path false = some answer ∧ Resolves v path answer) ↔ Clear v path := by
  have mounted := run_mounted normal ran
  constructor
  · rintro ⟨answer, found, right⟩
    exact resolves_clear mounted absolute found right
  · exact clear_resolves mounted absolute

/-- With `/` and `/mnt/a` mounted, `/x` becomes `x`, and `/mnt/b` is the root of the file
system at `/mnt/a`. -/
theorem path_below_root_loses_slash : ∃ v,
    run step start [.regfs 7 [47], .regfs 8 [47, 109, 110, 116, 47, 97]] = some v ∧
    (∃ fs ∈ v.fslist, fs.mountpoint = [slash]) ∧ Normalised [47, 120] ∧
    vfsGetfsid v [47, 120] false = some (1, [120]) ∧
    vfsGetfsid v [47, 109, 110, 116, 47, 98] false = some (2, [47]) ∧
    ¬ ∃ answer, vfsGetfsid v [47, 120] false = some answer ∧ Resolves v [47, 120] answer := by
  refine reached_of (P := fun v => (∃ fs ∈ v.fslist, fs.mountpoint = [slash]) ∧
    vfsGetfsid v [47, 120] false = some (1, [120]) ∧
    vfsGetfsid v [47, 109, 110, 116, 47, 98] false = some (2, [47])) (by decide +kernel) ?_
  rintro v ran ⟨registered, below, beside⟩
  refine ⟨registered, normal_form_normalised [47, 120], below, beside, ?_⟩
  rintro ⟨answer, found, fs, -, -, -, -, rest⟩
  rw [below] at found
  cases found
  have starts := joined_starts ((names [47, 120]).drop (names fs.mountpoint).length)
  rw [← rest] at starts
  exact absurd starts (by decide)

/-- With `/` and `/a` mounted, `/a/b` is `/b` on the file system at `/a`. -/
theorem path_below_mountpoint_resolves : ∃ v,
    run step start [.regfs 7 [47], .regfs 8 [47, 97]] = some v ∧
    ∃ answer, vfsGetfsid v [47, 97, 47, 98] false = some answer ∧ Resolves v [47, 97, 47, 98] answer := by
  refine reached_of (P := (Clear · [47, 97, 47, 98])) ?_ fun v ran clear =>
    (mount_resolves_iff ?_ ran (normal_form_normalised [47, 97, 47, 98])).mpr clear
  · refine ⟨_, rfl, .inl ⟨[], _, _, rfl, by decide, by decide, ?_, by decide +kernel⟩⟩
    exact List.forall_mem_nil _
  · simpa using ⟨normal_form_normalised [47], normal_form_normalised [47, 97]⟩

/-! The table over any calls, whatever the mountpoints. -/

structure Registered (v : Server) : Prop where
  root : ∀ fs ∈ v.rootFs, fs ∈ v.fslist
  apart : (v.fslist.map (·.fsid)).Nodup

/-- What a removal does: the owner takes out the item with the id, and nothing else happens. -/
def Call.Kept (v : Server) : Call → Prop
  | .regfs _ _ => True
  | .remfs pid fsid => vfsRemfs v pid fsid = some
      (if ∃ fs ∈ v.fslist, fs.fsid = fsid ∧ fs.pid = pid then
        (0, { v with fslist := v.fslist.filter (·.fsid ≠ fsid) }) else (-1, v))

/-- There is an id for the new item, or the item to remove exists and is not the caller's own
`root_fs`. -/
def Call.Careful (v : Server) : Call → Prop
  | .regfs _ _ => v.nextfsid < 2 ^ 32
  | .remfs pid fsid => (∃ fs ∈ v.fslist, fs.fsid = fsid) ∧
      ∀ fs ∈ v.rootFs, ¬ (fs.fsid = fsid ∧ fs.pid = pid)

instance (v : Server) : (call : Call) → Decidable (call.Careful v)
  | .regfs _ _ => inferInstanceAs (Decidable (_ < _))
  | .remfs _ _ => inferInstanceAs (Decidable (_ ∧ _))

theorem Registered.kept {v : Server} (registered : Registered v) (call : Call) (careful : call.Careful v) :
    call.Kept v := by
  cases call with
  | regfs => trivial
  | remfs pid fsid =>
    obtain ⟨⟨fs, member, rfl⟩, -⟩ := careful
    rw [Call.Kept, remfs_eq registered.apart, find_keyed registered.apart member, Option.map_some]
    have owner : fs.pid = pid ↔ ∃ other ∈ v.fslist, other.fsid = fs.fsid ∧ other.pid = pid := by
      constructor
      · exact fun own => ⟨fs, member, rfl, own⟩
      · rintro ⟨other, member', same, own⟩
        rwa [List.inj_on_of_nodup_map registered.apart member' member same] at own
    simp only [owner]

theorem Registered.step {v : Server} (call : Call)
    (held : Registered v ∧ ∀ fs ∈ v.fslist, fs.fsid < v.nextfsid) (careful : call.Careful v) :
    ∃ w, step v call = some w ∧ Registered w ∧ ∀ fs ∈ w.fslist, fs.fsid < w.nextfsid := by
  obtain ⟨registered, below⟩ := held
  have kept := registered.kept call careful
  cases call with
  | regfs pid mountpoint =>
    refine ⟨_, rfl, ⟨fun fs pointed => ?_, regfs_apart below registered.apart pid mountpoint⟩,
      regfs_below below pid mountpoint⟩
    change fs ∈ if _ then _ else _ at pointed
    split at pointed
    · rw [← Option.some.inj pointed]
      exact List.mem_cons_self
    · exact List.mem_cons_of_mem _ (registered.root fs pointed)
  | remfs pid fsid =>
    refine ⟨_, congrArg (Option.map Prod.snd) kept, ?_⟩
    split
    · rename_i owned
      obtain ⟨item, member, rfl, own⟩ := owned
      refine ⟨⟨fun fs pointed => List.mem_filter.mpr ⟨registered.root fs pointed, ?_⟩,
        registered.apart.sublist (List.filter_sublist.map _)⟩,
        fun fs listed => below fs (List.mem_of_mem_filter listed)⟩
      apply decide_eq_true
      intro same
      have item := List.inj_on_of_nodup_map registered.apart (registered.root fs pointed) member same
      exact careful.2 fs pointed ⟨same, item ▸ own⟩
    · exact ⟨registered, below⟩

/-- Over calls that are careful, the table stays in order and a removal does what it should. -/
theorem careful_calls_registered (calls : List Call)
    (careful : Along step (fun v call => call.Careful v) start calls) :
    (∃ v, run step start calls = some v) ∧ Throughout step Registered start calls ∧
      Along step (fun v call => call.Kept v) start calls := by
  have held : Registered start ∧ ∀ fs ∈ start.fslist, fs.fsid < start.nextfsid :=
    ⟨⟨fun _ pointed => absurd pointed (Option.not_mem_none _), List.nodup_nil⟩,
      List.forall_mem_nil _⟩
  have goes := fun v call => Registered.step (v := v) call
  obtain ⟨ends, registered⟩ := guarded_run goes (fun _ held => held.1) held careful
  exact ⟨ends, registered, careful.derive (fun _ call held => held.1.kept call) (keeps_of_goes goes) held⟩

/-- Removing the root leaves `root_fs` behind, and removing what does not exist is a fault. -/
theorem removal_breaks_table :
    ¬ (∀ calls, Throughout step Registered start calls) ∧
    ¬ (∀ calls, Along step (fun v call => call.Kept v) start calls) := by
  obtain ⟨v, ran, dangling⟩ : ∃ v, run step start [.regfs 7 [47], .remfs 7 1] = some v ∧
      ¬ ∀ fs ∈ v.rootFs, fs ∈ v.fslist := by decide +kernel
  refine ⟨fun all => dangling (all _ _ _ List.prefix_rfl ran).root, fun all => ?_⟩
  obtain ⟨unknown, -⟩ := along_cons.mp (all [.remfs 7 5])
  nomatch unknown

/-- Process 8 cannot remove the file system of process 7 and removes its own. -/
theorem own_mount_removed : ∃ v,
    run step start [.regfs 7 [47], .regfs 8 [47, 97], .remfs 8 1, .remfs 8 2] = some v ∧
    v.fslist.map (·.fsid) = [1] ∧ Registered v := by
  refine reached_of (P := fun v => v.fslist.map (·.fsid) = [1]) (by decide +kernel)
    fun v ran left => ⟨left, ?_⟩
  exact (careful_calls_registered _ (by decide +kernel)).2.1 _ _ List.prefix_rfl ran

end MeinOS.Vfs
