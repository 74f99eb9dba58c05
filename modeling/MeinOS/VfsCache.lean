import MeinOS.Vfs

/-! The client's cache of mountpoints, `mp_match` and `fsbypath` of
`apps/lib/stdlibc/files.c`, against the server that it caches.

A cached mountpoint is what the server cut off a path, so it is a mountpoint of the table if
the server left more than a `/` of the path; it is then matched by the same search, which a
single shared component satisfies. -/
namespace MeinOS.VfsCache
open MeinOS.Path PathNormal Llist Lib.Runs Lib.LongestPrefix Vfs

/-- The client's `struct fslist_item`. -/
structure Item where
  pid : Nat
  id : Int
  mountpoint : PathT
  mountpointStr : Str
  deriving DecidableEq

/-- How far an item matches, in the loop of `mp_match`. -/
def matched (path : PathT) (fs : Item) : Nat := pathCompare path fs.mountpoint

/-- `mp_match`: the item, and the path as it is left. -/
def mpMatch (fslist : List Item) (file : Str) (parent : Bool) : Option (Option Item × Str) :=
  match largest (matched (searched file parent)) fslist 0 none with
  | some maxfs => (cutMountpoint file maxfs.mountpointStr).map (some maxfs, ·)
  | none => some (none, if file = [] then [slash] else file)

/-- What `fsbypath` returns, leaves of the path and keeps in the cache. -/
structure Found where
  fs : Option Item
  path : Str
  fslist : List Item
  deriving DecidableEq

/-- The mountpoint that `fsbypath` reads off the lengths of the path and of what is left. -/
def mountpointOf (path left : Str) : Str := path.take (path.length - left.length)

/-- The item that `fsbypath` fills. -/
def newItem (path left : Str) (id : Int) (pid : Nat) : Item where
  pid := pid
  id := id
  mountpoint := pathParse (mountpointOf path left)
  mountpointStr := pathOutput (pathParse (mountpointOf path left))

/-- What `fsbypath` makes of the server's answer. -/
def fill (v : Server) (fslist : List Item) (path : Str) (answer : Int × Str) : Found :=
  if answer.1 < 0 then ⟨none, answer.2, fslist⟩
  else match vfsGetpid v answer.1.toNat with
    | none => ⟨none, answer.2, fslist⟩
    | some pid =>
      ⟨some (newItem path answer.2 answer.1 pid), answer.2, llistPush fslist (newItem path answer.2 answer.1 pid)⟩

/-- The part of `fsbypath` for a path that no item matches. -/
def askServer (v : Server) (fslist : List Item) (path : Str) (parent : Bool) : Option Found :=
  (vfsGetfsid v path parent).map (fill v fslist path)

/-- `fsbypath`. -/
def fsbypath (v : Server) (fslist : List Item) (path : Str) (parent : Bool) : Option Found :=
  if path = [] then some ⟨none, path, fslist⟩
  else (mpMatch fslist path parent).bind fun found =>
    match found.1 with
    | some fs => some ⟨some fs, found.2, fslist⟩
    | none => askServer v fslist found.2 parent

/-- A path to resolve, and whether the file system of its parent directory is wanted. -/
abbrev Request := Str × Bool

/-- The cache after a resolution. -/
def resolve (v : Server) (fslist : List Item) (request : Request) : Option (List Item) :=
  (fsbypath v fslist request.1 request.2).map (·.fslist)

/-- The client finds the file system that the server names for the path, and leaves the same
of the path. -/
def Agrees (v : Server) (fslist : List Item) (request : Request) : Prop :=
  ∀ answer, vfsGetfsid v request.1 request.2 = some answer →
    ∃ found, fsbypath v fslist request.1 request.2 = some found ∧ found.path = answer.2 ∧
      found.fs.map (·.id) = if answer.1 < 0 then none else some answer.1

/-- The components that are searched for. -/
def sought (request : Request) : List Str :=
  if request.2 then (names request.1).dropLast else names request.1

/-- At most one mountpoint shares a component with what is searched for. It is a prefix of
that and not the whole path, or it is cached already. -/
def Lone (v : Server) (fslist : List Item) (request : Request) : Prop :=
  ∀ fs ∈ v.fslist, 0 < shared (sought request) (names fs.mountpoint) →
    (∀ other ∈ v.fslist, 0 < shared (sought request) (names other.mountpoint) → other = fs) ∧
    names fs.mountpoint <+: sought request ∧
    (names fs.mountpoint ≠ names request.1 ∨
      ∃ item ∈ fslist, item.id = fs.fsid ∧ item.mountpointStr = fs.mountpoint)

instance (v : Server) (fslist : List Item) (request : Request) : Decidable (Lone v fslist request) :=
  inferInstanceAs (Decidable (∀ fs ∈ v.fslist, _ → _ ∧ _ ∧ (_ ∨ _)))

/-! What is searched for. -/

theorem sought_inside (request : Request) : sought request <+: names request.1 := by
  unfold sought
  split
  · exact List.dropLast_prefix _
  · exact List.prefix_rfl

section
variable {path : Str} (normal : Normalised path) (parent : Bool)
include normal parent

theorem searched_root : (searched path parent).root = true := by
  unfold searched
  split <;> exact parse_is_root normal

theorem searched_names : real (searched path parent).parts = sought (path, parent) := by
  obtain ⟨all, whole⟩ := normalised_names normal
  have pieces := split_joined fun part member => (all part member).whole
  rw [← whole] at pieces
  unfold searched sought
  cases parent with
  | false => exact congrArg real (parse_parts path)
  | true =>
    change real ((pathParse path).parts.set ((pathParse path).parts.length - 1) []) = (names path).dropLast
    rw [parse_parts, pieces]
    rcases List.eq_nil_or_concat' (names path) with none | ⟨before, last, shape⟩
    · rw [none]
      rfl
    · have some : names path ≠ [] := by simp [shape]
      have named : ∀ part ∈ before, part ≠ [] := fun part member => (all part (by simp [shape, member])).some
      rw [if_neg some, shape, List.dropLast_concat]
      simp [real_of_real named]

/-- `path_compare` with what is searched for. -/
theorem compare_sought {other : PathT} (root : other.root = true) :
    pathCompare (searched path parent) other = shared (sought (path, parent)) (real other.parts) := by
  unfold pathCompare
  rw [searched_root normal, root, if_neg (not_not.mpr rfl), compare_parts _ _ _ le_rfl,
    searched_names normal]

end

theorem parse_names (path : Str) : real (pathParse path).parts = names path := by
  rw [parse_parts]
  rfl

/-- The output of a normalised path is the path. -/
theorem output_parse {path : Str} (normal : Normalised path) : pathOutput (pathParse path) = path := by
  obtain ⟨rest, parsed, pieces⟩ := parse_root (normalised_starts normal)
  obtain ⟨-, whole⟩ := normalised_names normal
  have same : real rest = names path := by
    unfold names
    rw [pieces, real_blank]
  rw [parsed, output_joined, same, ← whole]

/-! The cache. -/

/-- An item that no path matches. -/
def Inert (item : Item) : Prop := real item.mountpoint.parts = [] ∧ item.mountpointStr = [slash]

/-- An item that is an entry of the table. -/
structure Copies (item : Item) (fs : Fs) : Prop where
  id : item.id = fs.fsid
  mountpoint : item.mountpoint = pathParse fs.mountpoint
  mountpointStr : item.mountpointStr = fs.mountpoint

/-- Every item is an entry of the table, or no path matches it. -/
def Faithful (v : Server) (fslist : List Item) : Prop :=
  ∀ item ∈ fslist, Inert item ∨ ∃ fs ∈ v.fslist, Copies item fs

section Matching
variable {v : Server} {path : Str} {item : Item}

theorem inert_unmatched (inert : Inert item) (path : PathT) : matched path item = 0 := by
  unfold matched pathCompare
  split
  · rfl
  · rw [compare_parts _ _ _ le_rfl, inert.1, shared_nil_right]

theorem copy_matched (mounted : Mounted v) (normal : Normalised path) (parent : Bool)
    (member : fs ∈ v.fslist) (copy : Copies item fs) :
    matched (searched path parent) item = shared (sought (path, parent)) (names fs.mountpoint) := by
  unfold matched
  rw [copy.mountpoint, compare_sought normal parent (parse_is_root (mounted.normal fs member)), parse_names]

theorem entry_compared (mounted : Mounted v) (normal : Normalised path) (parent : Bool)
    (member : fs ∈ v.fslist) :
    compared (searched path parent) fs = shared (sought (path, parent)) (names fs.mountpoint) := by
  unfold compared
  rw [mounted.parsed fs member, compare_sought normal parent (parse_is_root (mounted.normal fs member)),
    parse_names]

/-- A matched item is an entry that the server compares alike. -/
theorem matched_copy (faithful : Faithful v fslist) (member : item ∈ fslist) {path : PathT}
    (above : 0 < matched path item) : ∃ fs ∈ v.fslist, Copies item fs := by
  rcases faithful item member with inert | copy
  · rw [inert_unmatched inert] at above
    exact absurd above (Nat.lt_irrefl 0)
  · exact copy

end Matching

/-! The two ways through `fsbypath`. -/

theorem fsbypath_matched {path : Str} {parent : Bool} {item : Item} (some : path ≠ [])
    (found : largest (matched (searched path parent)) fslist 0 none = Option.some item) (v : Server) :
    fsbypath v fslist path parent =
      (cutMountpoint path item.mountpointStr).map fun left => ⟨Option.some item, left, fslist⟩ := by
  unfold fsbypath mpMatch
  rw [if_neg some, found]
  change ((cutMountpoint path item.mountpointStr).map (Option.some item, ·)).bind _ = _
  cases cutMountpoint path item.mountpointStr <;> rfl

theorem fsbypath_unmatched {path : Str} {parent : Bool} (some : path ≠ [])
    (missing : largest (matched (searched path parent)) fslist 0 none = none) (v : Server) :
    fsbypath v fslist path parent = askServer v fslist path parent := by
  unfold fsbypath mpMatch
  rw [if_neg some, missing]
  change askServer v fslist (if path = [] then [slash] else path) parent = _
  rw [if_neg some]

theorem getpid_registered {v : Server} {fs : Fs} (member : fs ∈ v.fslist) :
    ∃ pid, vfsGetpid v fs.fsid = some pid := by
  have located : (v.fslist.find? (·.fsid = fs.fsid)).isSome := by
    rw [List.find?_isSome]
    exact ⟨fs, member, decide_eq_true rfl⟩
  obtain ⟨found, located⟩ := Option.isSome_iff_exists.mp located
  unfold vfsGetpid getlidFsid
  rw [llist_get_first, located]
  exact ⟨found.pid, rfl⟩

/-- What the server answers with is the error, or an entry cut off the path. -/
theorem getfsid_cases {v : Server} {path : Str} {parent : Bool} {answer : Int × Str}
    (ran : vfsGetfsid v path parent = some answer) :
    answer = (-enoent, path) ∨ ∃ fs ∈ v.fslist, answer.1 = fs.fsid ∧
      largest (compared (searched path parent)) v.fslist 0 v.rootFs = some fs ∧
      cutMountpoint path fs.mountpoint = some answer.2 := by
  unfold vfsGetfsid at ran
  split at ran
  · rename_i fs found
    split at ran
    · rename_i member
      obtain ⟨left, cut, rfl⟩ := Option.map_eq_some_iff.mp ran
      exact .inr ⟨fs, member, rfl, found, cut⟩
    · cases ran
  · exact .inl (Option.some.inj ran).symm

/-! One resolution. -/

section Resolution
variable {v : Server} {fslist : List Item} {path : Str} {parent : Bool}

/-- If nothing matches, the server is asked. -/
theorem unmatched_agrees (some : path ≠ [])
    (missing : largest (matched (searched path parent)) fslist 0 none = none) :
    Agrees v fslist (path, parent) := by
  intro answer ran
  refine ⟨fill v fslist path answer, ?_, ?_⟩
  · rw [fsbypath_unmatched some missing]
    exact congrArg (Option.map _) ran
  · unfold fill
    rcases getfsid_cases ran with error | ⟨fs, member, id, -, -⟩
    · rw [error]
      exact ⟨rfl, rfl⟩
    · obtain ⟨pid, registered⟩ := getpid_registered member
      have positive : ¬ answer.1 < 0 := by omega
      rw [if_neg positive, if_neg positive, id, Int.toNat_natCast, registered]
      exact ⟨rfl, rfl⟩

/-- The entry that shares a component with the path is the one the server takes. -/
theorem lone_found (mounted : Mounted v) (normal : Normalised path) (lone : Lone v fslist (path, parent))
    {fs : Fs} (member : fs ∈ v.fslist) (above : 0 < shared (sought (path, parent)) (names fs.mountpoint)) :
    largest (compared (searched path parent)) v.fslist 0 v.rootFs = some fs := by
  rcases low_or_first (compared (searched path parent)) v.fslist 0 with low | ⟨item, first, higher⟩
  · have none := low fs member
    rw [entry_compared mounted normal parent member] at none
    omega
  · rw [largest_first first higher]
    rw [entry_compared mounted normal parent first.mem] at higher
    exact congrArg some ((lone fs member above).1 item first.mem higher)

/-- A matched item is a copy of the entry that the server takes. -/
theorem matched_agrees (mounted : Mounted v) (faithful : Faithful v fslist) (normal : Normalised path)
    (some : path ≠ []) (lone : Lone v fslist (path, parent)) {item : Item}
    (first : First (matched (searched path parent)) fslist item)
    (above : 0 < matched (searched path parent) item) : Agrees v fslist (path, parent) := by
  obtain ⟨fs, member, copy⟩ := matched_copy faithful first.mem above
  have found := largest_first first above none
  rw [copy_matched mounted normal parent member copy] at above
  have taken := lone_found mounted normal lone member above
  intro answer ran
  rcases getfsid_cases ran with error | ⟨other, -, id, same, cut⟩
  · unfold vfsGetfsid at ran
    simp only [taken, if_pos member] at ran
    obtain ⟨left, -, rfl⟩ := Option.map_eq_some_iff.mp ran
    have negative : (fs.fsid : Int) = -enoent := congrArg Prod.fst error
    unfold enoent at negative
    omega
  · cases taken.symm.trans same
    refine ⟨⟨Option.some item, answer.2, fslist⟩, ?_, rfl, ?_⟩
    · rw [fsbypath_matched some found, copy.mountpointStr, cut]
      rfl
    · have positive : ¬ answer.1 < 0 := by omega
      rw [if_neg positive, id]
      exact congrArg Option.some copy.id

/-- What the server cuts off below a mountpoint is the mountpoint. -/
theorem mountpoint_of_below {before after : List Str} (below : before ≠ []) (rest : after ≠ []) :
    mountpointOf (joined (before ++ after)) (joined after) = joined before := by
  have shape : joined after = after.flatMap (slash :: ·) := if_neg rest
  unfold mountpointOf
  rw [joined_append below, shape, List.length_append, Nat.add_sub_cancel, List.take_left]

/-- An entry cut off the path is cached as it is. -/
theorem new_item_copies {fs : Fs} {left : Str} (normal : Normalised path) (mountpoint : Normalised fs.mountpoint)
    (below : names fs.mountpoint ≠ []) (inside : names fs.mountpoint <+: names path)
    (proper : names fs.mountpoint ≠ names path) (cut : cutMountpoint path fs.mountpoint = some left)
    (pid : Nat) : Copies (newItem path left fs.fsid pid) fs := by
  obtain ⟨rest, split⟩ := inside
  have nonempty : rest ≠ [] := by
    intro none
    rw [none, List.append_nil] at split
    exact proper split
  have whole := (normalised_names normal).2
  have mounted := (normalised_names mountpoint).2
  have name : mountpointOf path left = fs.mountpoint := by
    rw [whole, mounted, ← split, cut_below below] at cut
    rw [← Option.some.inj cut, whole, ← split, mountpoint_of_below below nonempty]
    exact mounted.symm
  refine ⟨rfl, congrArg pathParse name, ?_⟩
  change pathOutput (pathParse (mountpointOf path left)) = fs.mountpoint
  rw [name, output_parse mountpoint]

/-- What the server cuts off for `/` matches nothing. -/
theorem new_item_inert {left : Str} (normal : Normalised path)
    (cut : cutMountpoint path [slash] = some left) (id : Int) (pid : Nat) : Inert (newItem path left id pid) := by
  have starts := normalised_starts normal
  cases path with
  | nil => cases starts
  | cons c rest =>
    cases Option.some.inj starts
    rw [cut_root (List.cons_ne_nil slash rest), List.drop_one, List.tail_cons] at cut
    have same := Option.some.inj cut
    split at same
    · rename_i none
      subst none same
      exact ⟨rfl, rfl⟩
    · have name : mountpointOf (slash :: rest) left = [slash] := by
        unfold mountpointOf
        rw [← same, List.length_cons, Nat.add_sub_cancel_left]
        rfl
      unfold Inert newItem
      rw [name]
      exact ⟨rfl, rfl⟩

/-- An entry that is cached already is matched. -/
theorem cached_matched (mounted : Mounted v) (faithful : Faithful v fslist) (normal : Normalised path)
    {fs : Fs} {item : Item} (cached : item ∈ fslist) (same : item.mountpointStr = fs.mountpoint)
    (above : 0 < shared (sought (path, parent)) (names fs.mountpoint)) :
    0 < matched (searched path parent) item := by
  rcases faithful item cached with inert | ⟨other, registered, copy⟩
  · rw [← same, inert.2, names_root, shared_nil_right] at above
    exact absurd above (Nat.lt_irrefl 0)
  · rw [copy_matched mounted normal parent registered copy, ← copy.mountpointStr, same]
    exact above

theorem unmatched_faithful (mounted : Mounted v) (faithful : Faithful v fslist) (normal : Normalised path)
    (lone : Lone v fslist (path, parent)) (low : ∀ item ∈ fslist, matched (searched path parent) item ≤ 0)
    {answer : Int × Str} (ran : vfsGetfsid v path parent = some answer) :
    Faithful v (fill v fslist path answer).fslist := by
  unfold fill
  split
  · exact faithful
  · rename_i positive
    rcases getfsid_cases ran with error | ⟨fs, member, id, found, cut⟩
    · rw [error] at positive
      exact absurd (show -enoent < 0 by decide) positive
    · split
      · exact faithful
      · rename_i pid _
        refine List.forall_mem_cons.mpr ⟨?_, faithful⟩
        rcases low_or_first (compared (searched path parent)) v.fslist 0 with least | ⟨item, first, higher⟩
        · rw [largest_low least] at found
          rw [mounted.root fs found] at cut
          exact .inl (new_item_inert normal cut answer.1 pid)
        · cases (largest_first first higher v.rootFs).symm.trans found
          rw [entry_compared mounted normal parent member] at higher
          obtain ⟨-, inside, proper | ⟨item, cached, -, same⟩⟩ := lone fs member higher
          · have below : names fs.mountpoint ≠ [] := by
              intro none
              rw [none, shared_nil_right] at higher
              exact absurd higher (Nat.lt_irrefl 0)
            rw [id]
            exact .inr ⟨fs, member, new_item_copies normal (mounted.normal fs member) below
              (inside.trans (sought_inside (path, parent))) proper cut pid⟩
          · have above := cached_matched mounted faithful normal cached same higher
            exact absurd (low item cached) (Nat.not_le.mpr above)

end Resolution

theorem normalised_nonempty {path : Str} (normal : Normalised path) : path ≠ [] := by
  intro none
  rw [none] at normal
  exact nomatch normalised_starts normal

section
variable {v : Server} {fslist : List Item} {request : Request} (mounted : Mounted v)
  (faithful : Faithful v fslist) (normal : Normalised request.1) (lone : Lone v fslist request)
include mounted faithful normal lone

theorem lone_agrees : Agrees v fslist request := by
  have some := normalised_nonempty normal
  rcases low_or_first (matched (searched request.1 request.2)) fslist 0 with low | ⟨item, first, above⟩
  · exact unmatched_agrees some (largest_low low none)
  · exact matched_agrees mounted faithful normal some lone first above

theorem lone_faithful (ran : resolve v fslist request = some next) : Faithful v next := by
  have some := normalised_nonempty normal
  obtain ⟨found, resolved, rfl⟩ := Option.map_eq_some_iff.mp ran
  rcases low_or_first (matched (searched request.1 request.2)) fslist 0 with low | ⟨item, first, above⟩
  · rw [fsbypath_unmatched some (largest_low low none)] at resolved
    obtain ⟨answer, asked, rfl⟩ := Option.map_eq_some_iff.mp resolved
    exact unmatched_faithful mounted faithful normal lone low asked
  · rw [fsbypath_matched some (largest_first first above none)] at resolved
    obtain ⟨left, -, rfl⟩ := Option.map_eq_some_iff.mp resolved
    exact faithful

end

/-- Along every sequence of resolutions from an empty cache in which each path meets one
mountpoint at most, as a proper prefix or as one that is cached, the client agrees with the
server. -/
theorem lone_paths_resolve_alike {v : Server} {calls : List Call} (mounted : ∀ call ∈ calls, call.Normal)
    (built : run Vfs.step start calls = some v) {requests : List Request}
    (normal : ∀ request ∈ requests, Normalised request.1)
    (lone : Along (resolve v) (Lone v) [] requests) : Along (resolve v) (Agrees v) [] requests := by
  have table := run_mounted mounted built
  have start : Faithful v [] := List.forall_mem_nil _
  have both : Along (resolve v) (fun fslist request => Normalised request.1 ∧ Lone v fslist request) []
      requests := along_and (along_of_forall fun request member _ => normal request member) lone
  exact both.derive (fun _ _ faithful met => lone_agrees table faithful met.1 met.2)
    (fun _ _ _ faithful met ran => lone_faithful table faithful met.1 met.2 ran) start

/-- With `/` and `/mnt` mounted, `/mnt` is cached as `/mn`, and `/mn/y` is then `/y` on the
file system at `/mnt`; the server has `mn/y` on the one at `/`. -/
theorem cached_mountpoint_loses_byte : ∃ v,
    run Vfs.step start [.regfs 7 [47], .regfs 8 [47, 109, 110, 116]] = some v ∧
    Normalised [47, 109, 110, 116] ∧ Normalised [47, 109, 110, 47, 121] ∧
    ∃ fslist, resolve v [] ([47, 109, 110, 116], false) = some fslist ∧
      (fsbypath v fslist [47, 109, 110, 47, 121] false).map (fun found => (found.fs.map (·.id), found.path)) =
        some (some 2, [47, 121]) ∧
      vfsGetfsid v [47, 109, 110, 47, 121] false = some (1, [109, 110, 47, 121]) ∧
      ¬ Along (resolve v) (Agrees v) [] [([47, 109, 110, 116], false), ([47, 109, 110, 47, 121], false)] := by
  refine reached_of (P := fun v => ∃ fslist, resolve v [] ([47, 109, 110, 116], false) = some fslist ∧
    (fsbypath v fslist [47, 109, 110, 47, 121] false).map
      (fun found => (found.fs.map (·.id), found.path)) = some (some 2, [47, 121]) ∧
    vfsGetfsid v [47, 109, 110, 47, 121] false = some (1, [109, 110, 47, 121])) (by decide +kernel) ?_
  rintro v ran ⟨fslist, cached, client, server⟩
  refine ⟨normal_form_normalised [47, 109, 110, 116], normal_form_normalised [47, 109, 110, 47, 121],
    fslist, cached, client, server, fun agree => ?_⟩
  obtain ⟨now, -⟩ := along_cons.mp ((along_cons.mp agree).2 fslist cached)
  obtain ⟨found, same, -, id⟩ := now _ server
  rw [same] at client
  have two : found.fs.map (·.id) = some 2 := congrArg Prod.fst (Option.some.inj client)
  rw [two] at id
  exact absurd id (by decide)

/-- With `/` and `/a` mounted, `/a/b`, `/a` and `/c` are found alike. -/
theorem paths_below_mountpoint_resolve_alike : ∃ v,
    run Vfs.step start [.regfs 7 [47], .regfs 8 [47, 97]] = some v ∧
    Along (resolve v) (Agrees v) [] [([47, 97, 47, 98], false), ([47, 97], false), ([47, 99], false)] := by
  refine reached_of (P := fun v => Along (resolve v) (Lone v) [] _) ⟨_, rfl, by decide +kernel⟩
    fun v ran lone => lone_paths_resolve_alike ?_ ran ?_ lone
  · simpa using ⟨normal_form_normalised [47], normal_form_normalised [47, 97]⟩
  · simpa using ⟨normal_form_normalised [47, 97, 47, 98], normal_form_normalised [47, 97],
      normal_form_normalised [47, 99]⟩

end MeinOS.VfsCache
