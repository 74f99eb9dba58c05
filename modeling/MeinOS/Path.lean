import Mathlib

/-! Paths, `apps/lib/libmeinos/path.c`.

A string is the list of its bytes before the NUL. `path_parse` cuts a copy of the string at
its slashes, so that the parts are strings of their own; a part is blanked by writing zeros
over it, which makes it the empty string. All loops of the file run over the parts in order,
and empty parts do not count. -/
namespace MeinOS.Path

/-- A C string. -/
abbrev Str := List UInt8

/-- `'/'`. -/
def slash : UInt8 := 47

/-- `"."`. -/
def dot : Str := [46]

/-- `".."`. -/
def dotdot : Str := [46, 46]

/-- `path_t`. -/
structure PathT where
  root : Bool
  parts : List Str
  deriving DecidableEq

/-- The loop of `path_parse` over the parts. -/
def cutParts : Nat → Str → List Str
  | 0, _ => []
  | n + 1, data =>
    data.takeWhile (· ≠ slash) :: cutParts n (data.drop ((data.takeWhile (· ≠ slash)).length + 1))

/-- `path_parse`. -/
def pathParse (path : Str) : PathT where
  root := path.head? = some slash
  parts := cutParts (path.count slash + 1) path

/-- The inner loop of `path_reject_dots`: blanks the last part below `j` that is not blank. -/
def blankBefore (parts : List Str) : Nat → List Str
  | 0 => parts
  | j + 1 => if parts.getD j [] ≠ [] then parts.set j [] else blankBefore parts j

/-- One round of the loop of `path_reject_dots`. -/
def rejectAt (parts : List Str) (i : Nat) : List Str :=
  if parts.getD i [] = dot then parts.set i []
  else if parts.getD i [] = dotdot then blankBefore (parts.set i []) i
  else parts

/-- `path_reject_dots`. -/
def pathRejectDots (path : PathT) : PathT :=
  { path with parts := (List.range path.parts.length).foldl rejectAt path.parts }

/-- The loop of `path_output`: a slash follows a part if the next part is not blank. -/
def outputParts : List Str → Str
  | [] => []
  | [part] => part
  | part :: next :: rest =>
    part ++ (if next ≠ [] then [slash] else []) ++ outputParts (next :: rest)

/-- `path_output`. -/
def pathOutput (path : PathT) : Str :=
  if 0 < path.parts.countP (· ≠ []) then
    (if path.root && path.parts.headD [] ≠ [] then [slash] else []) ++ outputParts path.parts
  else [slash]

/-- The loop of `path_compare`, for at most `n` rounds. -/
def compareParts : Nat → List Str → List Str → Nat
  | n + 1, part1 :: rest1, part2 :: rest2 =>
    if part1 = [] then compareParts n rest1 (part2 :: rest2)
    else if part2 = [] then compareParts n (part1 :: rest1) rest2
    else if part1 ≠ part2 then 0
    else compareParts n rest1 rest2 + 1
  | _, _, _ => 0

/-- `path_compare`. -/
def pathCompare (path1 path2 : PathT) : Nat :=
  if path1.root ≠ path2.root then 0
  else compareParts (path1.parts.length + path2.parts.length) path1.parts path2.parts

/-- `path_cat`. -/
def pathCat (path1 path2 : PathT) : PathT where
  root := path1.root
  parts := path1.parts ++ path2.parts

/-- `path_parent`. -/
def pathParent (path : PathT) : PathT :=
  { path with parts := path.parts.set (path.parts.length - 1) [] }

/-- The parts that are not blank. -/
def real (parts : List Str) : List Str := parts.filter (· ≠ [])

section Real

@[simp] theorem real_nil : real [] = [] := rfl

@[simp] theorem real_blank (parts : List Str) : real ([] :: parts) = real parts := rfl

theorem real_cons {part : Str} (some : part ≠ []) (parts : List Str) :
    real (part :: parts) = part :: real parts := List.filter_cons_of_pos (by simpa using some)

@[simp] theorem real_append (parts rest : List Str) : real (parts ++ rest) = real parts ++ real rest :=
  List.filter_append ..

theorem real_of_real {parts : List Str} (all : ∀ part ∈ parts, part ≠ []) : real parts = parts :=
  List.filter_eq_self.mpr (by simpa using all)

end Real

/-! Cutting a string at its slashes. -/

theorem cut_parts_slash (n : Nat) (rest : Str) :
    cutParts (n + 1) (slash :: rest) = [] :: cutParts n rest := by
  simp [cutParts]

theorem cut_parts_cons (n : Nat) {c : UInt8} (other : c ≠ slash) (rest : Str) :
    cutParts (n + 1) (c :: rest) = (cutParts (n + 1) rest).modifyHead (c :: ·) := by
  simp [cutParts, other]

/-- The parts are the pieces between the slashes. -/
theorem parse_parts (path : Str) : (pathParse path).parts = path.splitOn slash := by
  change cutParts (path.count slash + 1) path = path.splitOnP (· == slash)
  induction path with
  | nil => rfl
  | cons c rest ih =>
    rw [List.splitOnP_cons_eq_if_modifyHead]
    by_cases same : c = slash
    · subst same
      rw [List.count_cons_self, cut_parts_slash, ih]
      simp
    · rw [List.count_cons_of_ne same, cut_parts_cons _ same, ih]
      simp [same]

/-! `path_reject_dots` is a stack: a name is pushed, `..` pops. -/

/-- What a part does to the names before it. -/
def push (names : List Str) (part : Str) : List Str :=
  if part = [] ∨ part = dot then names
  else if part = dotdot then names.dropLast
  else names ++ [part]

/-- The names that survive. -/
def survivors (parts : List Str) : List Str := parts.foldl push []

/-- Below the length of a list, the search sees that list alone. -/
theorem blank_before_append (done rest : List Str) :
    ∃ blanked, blankBefore (done ++ rest) done.length = blanked ++ rest ∧
      blanked.length = done.length ∧ real blanked = (real done).dropLast := by
  induction done using List.reverseRecOn generalizing rest with
  | nil => exact ⟨[], rfl, rfl, rfl⟩
  | append_singleton done part ih =>
    have here : (done ++ [part] ++ rest).getD done.length [] = part := by simp
    have set : (done ++ [part] ++ rest).set done.length [] = (done ++ [[]]) ++ rest := by simp
    rw [List.length_append, List.length_singleton, blankBefore, here]
    by_cases some : part ≠ []
    · refine ⟨done ++ [[]], by rw [if_pos some, set], by simp, ?_⟩
      simp [real_cons some]
    · rw [if_neg some]
      have blank : part = [] := not_not.mp some
      subst blank
      obtain ⟨blanked, found, length, names⟩ := ih ([] :: rest)
      refine ⟨blanked ++ [[]], ?_, by simp [length], ?_⟩
      · rw [List.append_assoc, List.singleton_append, found]
        simp
      · simpa using names

/-- After `i` rounds the names among the first parts are those that survive, and the rest is
untouched. -/
theorem reject_rounds (done rest : List Str) :
    ∃ parts, (List.range done.length).foldl rejectAt (done ++ rest) = parts ++ rest ∧
      parts.length = done.length ∧ real parts = survivors done := by
  induction done using List.reverseRecOn generalizing rest with
  | nil => exact ⟨[], rfl, rfl, rfl⟩
  | append_singleton done part ih =>
    obtain ⟨parts, ran, length, names⟩ := ih (part :: rest)
    have here : (parts ++ part :: rest).getD done.length [] = part := by simp [← length]
    have set : (parts ++ part :: rest).set done.length [] = parts ++ [] :: rest := by simp [← length]
    have last : survivors (done ++ [part]) = push (real parts) part := by
      rw [survivors, List.foldl_append, names]
      rfl
    rw [List.length_append, List.length_singleton, List.range_succ, List.foldl_append,
      List.append_assoc, List.singleton_append, ran, last]
    change ∃ parts', rejectAt (parts ++ part :: rest) done.length = parts' ++ rest ∧ _
    rw [rejectAt, here, set, push]
    by_cases single : part = dot
    · rw [if_pos single, if_pos (.inr single)]
      exact ⟨parts ++ [[]], by simp, by simp [length], by simp⟩
    · rw [if_neg single]
      by_cases double : part = dotdot
      · have notBlank : ¬ (part = [] ∨ part = dot) := by
          rintro (blank | same)
          · rw [blank] at double
            cases double
          · exact single same
        obtain ⟨blanked, found, size, dropped⟩ := blank_before_append parts ([] :: rest)
        rw [if_pos double, if_neg notBlank, if_pos double, ← length, found]
        exact ⟨blanked ++ [[]], by simp, by simp [size], by simpa using dropped⟩
      · rw [if_neg double]
        refine ⟨parts ++ [part], by simp, by simp [length], ?_⟩
        by_cases blank : part = []
        · rw [if_pos (.inl blank), blank]
          simp
        · have name : ¬ (part = [] ∨ part = dot) := by
            rintro (none | same)
            · exact blank none
            · exact single same
          rw [if_neg name, if_neg double, real_append, real_cons blank, real_nil]

/-- `path_reject_dots` leaves the names that survive. -/
theorem reject_dots_names (path : PathT) : real (pathRejectDots path).parts = survivors path.parts := by
  obtain ⟨parts, ran, -, names⟩ := reject_rounds path.parts []
  rw [List.append_nil, List.append_nil] at ran
  change real ((List.range path.parts.length).foldl rejectAt path.parts) = _
  rw [ran, names]

/-! The names of a path, and paths made of names. -/

theorem push_blank (names : List Str) : push names [] = names := if_pos (.inl rfl)

theorem survivors_append (parts rest : List Str) :
    survivors (parts ++ rest) = rest.foldl push (survivors parts) := List.foldl_append

/-- A name: not blank, not a dot directory, without a slash. -/
structure Name (part : Str) : Prop where
  some : part ≠ []
  single : part ≠ dot
  double : part ≠ dotdot
  whole : slash ∉ part

theorem Name.push (name : Name part) (names : List Str) : push names part = names ++ [part] := by
  have kept : ¬ (part = [] ∨ part = dot) := fun either => either.elim name.some name.single
  rw [Path.push, if_neg kept, if_neg name.double]

theorem push_names {parts : List Str} (all : ∀ part ∈ parts, Name part) (names : List Str) :
    parts.foldl push names = names ++ parts := by
  induction parts generalizing names with
  | nil => simp
  | cons part parts ih =>
    obtain ⟨here, later⟩ := List.forall_mem_cons.mp all
    rw [List.foldl_cons, here.push, ih later, List.append_assoc, List.singleton_append]

theorem survivors_of_names {parts : List Str} (all : ∀ part ∈ parts, Name part) :
    survivors parts = parts := push_names all []

/-- What survives among pieces without slashes is names. -/
theorem survivors_names {parts : List Str} (whole : ∀ part ∈ parts, slash ∉ part) :
    ∀ part ∈ survivors parts, Name part := by
  have step : ∀ names : List Str, (∀ part ∈ names, Name part) →
      ∀ part ∈ parts.foldl push names, Name part := by
    induction parts with
    | nil => exact fun names held => held
    | cons part parts ih =>
      obtain ⟨here, later⟩ := List.forall_mem_cons.mp whole
      intro names held
      rw [List.foldl_cons]
      apply ih later
      unfold push
      split
      · exact held
      · rename_i kept
        split
        · exact fun name member => held name (List.mem_of_mem_dropLast member)
        · rename_i double
          intro name member
          rcases List.mem_append.mp member with before | last
          · exact held name before
          · rw [List.mem_singleton.mp last]
            exact ⟨fun blank => kept (.inl blank), fun single => kept (.inr single), double, here⟩
  exact step [] (List.forall_mem_nil _)

/-- A slash before each name, and the slash alone without names. -/
def joined (names : List Str) : Str :=
  if names = [] then [slash] else names.flatMap (slash :: ·)

theorem intercalate_slash (part : Str) (names : List Str) :
    [slash].intercalate (part :: names) = part ++ names.flatMap (slash :: ·) := by
  induction names generalizing part with
  | nil => simp
  | cons name names ih =>
    rw [List.intercalate_cons_cons, ih name]
    simp

theorem split_names {names : List Str} (whole : ∀ part ∈ names, slash ∉ part) :
    (names.flatMap (slash :: ·)).splitOn slash = [] :: names := by
  have pieces : ∀ part ∈ [] :: names, slash ∉ part :=
    List.forall_mem_cons.mpr ⟨List.not_mem_nil, whole⟩
  have joins := intercalate_slash [] names
  rw [List.nil_append] at joins
  rw [← joins]
  exact List.splitOn_intercalate slash pieces (List.cons_ne_nil [] names)

/-- The parts of a joined path are a blank and its names, or two blanks. -/
theorem split_joined {names : List Str} (whole : ∀ part ∈ names, slash ∉ part) :
    (joined names).splitOn slash = [] :: (if names = [] then [[]] else names) := by
  unfold joined
  split
  · rfl
  · exact split_names whole

theorem output_parts_names (part : Str) (rest : List Str) :
    outputParts (part :: rest) = part ++ (real rest).flatMap (slash :: ·) := by
  induction rest generalizing part with
  | nil => simp [outputParts]
  | cons next rest ih =>
    rw [outputParts, ih next]
    by_cases some : next ≠ []
    · rw [if_pos some, real_cons some]
      simp
    · have blank : next = [] := not_not.mp some
      subst blank
      simp

/-- `path_output` of a path that starts with a blank part joins its names. -/
theorem output_joined (root : Bool) (rest : List Str) :
    pathOutput ⟨root, [] :: rest⟩ = joined (real rest) := by
  have count : ([] :: rest).countP (· ≠ []) = (real rest).length := by
    simp [real, List.countP_eq_length_filter]
  have names := output_parts_names [] rest
  unfold pathOutput joined
  rw [count]
  by_cases none : real rest = []
  · simp [none]
  · rw [if_pos (List.length_pos_of_ne_nil none), if_neg none, names]
    simp

end MeinOS.Path
