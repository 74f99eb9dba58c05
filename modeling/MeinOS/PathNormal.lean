import MeinOS.Path

/-! Absolute paths, `getabsolutepath` and `chdir` of `apps/lib/stdlibc/files.c`, against the
normal form of a path: the names that survive when empty parts and `.` are dropped and each
`..` takes away the nearest name before it, with a slash in front of each. -/
namespace MeinOS.PathNormal
open MeinOS.Path

/-- `workdir`. -/
structure Workdir where
  str : Str
  path : PathT
  deriving DecidableEq

/-- The working directory that `chdir` sets. -/
def setWorkdir (new : Str) : Workdir where
  str := pathOutput (pathRejectDots (pathParse new))
  path := pathRejectDots (pathParse new)

/-- `getabsolutepath`. -/
def getabsolutepath (workdir : Workdir) (relative : Str) : Str :=
  let path := pathParse relative
  pathOutput (pathRejectDots (if path.root then path else pathCat workdir.path path))

/-- `chdir`, with what `opendir` says about the directory. -/
def chdir (opened : Bool) (new : Str) (workdir : Workdir) : Int × Workdir :=
  if opened then (0, setWorkdir (getabsolutepath workdir new)) else (-1, workdir)

/-- The normal form of a path. -/
def normalForm (path : Str) : Str := joined (survivors (path.splitOn slash))

/-- A normalised absolute path. -/
def Normalised (path : Str) : Prop := ∃ names, (∀ part ∈ names, Name part) ∧ path = joined names

theorem split_whole (path : Str) : ∀ part ∈ path.splitOn slash, slash ∉ part := by
  induction path with
  | nil =>
    intro part member
    rw [List.mem_singleton.mp member]
    exact List.not_mem_nil
  | cons c rest ih =>
    change ∀ part ∈ (c :: rest).splitOnP (· == slash), _
    rw [List.splitOnP_cons_eq_if_modifyHead]
    split
    · exact List.forall_mem_cons.mpr ⟨List.not_mem_nil, ih⟩
    · rename_i other
      change ∀ part ∈ rest.splitOnP (· == slash), _ at ih
      cases shape : rest.splitOnP (· == slash) with
      | nil => exact List.forall_mem_nil _
      | cons first pieces =>
        rw [shape] at ih
        obtain ⟨here, later⟩ := List.forall_mem_cons.mp ih
        change ∀ part ∈ (c :: first) :: pieces, _
        refine List.forall_mem_cons.mpr ⟨fun member => ?_, later⟩
        rcases List.mem_cons.mp member with same | inside
        · exact other (by simp [same])
        · exact here inside

theorem normal_form_normalised (path : Str) : Normalised (normalForm path) :=
  ⟨survivors (path.splitOn slash), survivors_names (split_whole path), rfl⟩

/-- Blank parts do not survive. -/
theorem survivors_real (parts : List Str) : survivors (real parts) = survivors parts := by
  have step : ∀ names, (real parts).foldl push names = parts.foldl push names := by
    induction parts with
    | nil => exact fun _ => rfl
    | cons part parts ih =>
      intro names
      by_cases blank : part = []
      · subst blank
        rw [real_blank, List.foldl_cons, push_blank]
        exact ih names
      · rw [real_cons blank, List.foldl_cons, List.foldl_cons]
        exact ih _
  exact step []

/-- The names of a normalised path are its own. -/
theorem survivors_joined {names : List Str} (all : ∀ part ∈ names, Name part) :
    survivors ((joined names).splitOn slash) = names := by
  rw [split_joined fun part member => (all part member).whole]
  split
  · rename_i none
    rw [none]
    rfl
  · exact survivors_of_names all

/-! `path_reject_dots` keeps a blank part at the front, so `path_output` begins with the slash
of the first name. -/

theorem blank_before_head (rest : List Str) (j : Nat) :
    ∃ rest', blankBefore ([] :: rest) j = [] :: rest' := by
  induction j with
  | zero => exact ⟨rest, rfl⟩
  | succ j ih =>
    rw [blankBefore]
    split
    · cases j with
      | zero => exact ⟨rest, rfl⟩
      | succ j => exact ⟨rest.set j [], rfl⟩
    · exact ih

theorem reject_at_head (rest : List Str) (i : Nat) :
    ∃ rest', rejectAt ([] :: rest) i = [] :: rest' := by
  have set : ∃ rest', ([] :: rest).set i [] = [] :: rest' := by
    cases i with
    | zero => exact ⟨rest, rfl⟩
    | succ i => exact ⟨rest.set i [], rfl⟩
  obtain ⟨blanked, same⟩ := set
  unfold rejectAt
  rw [same]
  split
  · exact ⟨blanked, rfl⟩
  · split
    · exact blank_before_head blanked i
    · exact ⟨rest, rfl⟩

theorem reject_dots_head (root : Bool) (rest : List Str) :
    ∃ rest', pathRejectDots ⟨root, [] :: rest⟩ = ⟨root, [] :: rest'⟩ := by
  have rounds : ∀ (steps : List Nat) (rest : List Str),
      ∃ rest', steps.foldl rejectAt ([] :: rest) = [] :: rest' := by
    intro steps
    induction steps with
    | nil => exact fun rest => ⟨rest, rfl⟩
    | cons i steps ih =>
      intro rest
      obtain ⟨next, same⟩ := reject_at_head rest i
      rw [List.foldl_cons, same]
      exact ih next
  obtain ⟨rest', same⟩ := rounds (List.range ([] :: rest).length) rest
  exact ⟨rest', by rw [pathRejectDots, same]⟩

/-- The output of a path with a blank part at the front. -/
theorem output_rejected (root : Bool) (rest : List Str) :
    pathOutput (pathRejectDots ⟨root, [] :: rest⟩) = joined (survivors rest) := by
  obtain ⟨rest', same⟩ := reject_dots_head root rest
  have names := reject_dots_names ⟨root, [] :: rest⟩
  rw [same] at names ⊢
  rw [output_joined]
  exact congrArg joined names

theorem parse_root {path : Str} (starts : path.head? = some slash) :
    ∃ rest, pathParse path = ⟨true, [] :: rest⟩ ∧ path.splitOn slash = [] :: rest := by
  cases path with
  | nil => cases starts
  | cons c rest =>
    cases Option.some.inj starts
    have pieces : (slash :: rest).splitOn slash = [] :: rest.splitOn slash := by
      change (slash :: rest).splitOnP (· == slash) = _
      rw [List.splitOnP_cons_eq_if_modifyHead]
      rfl
    refine ⟨rest.splitOn slash, ?_, pieces⟩
    have parts := parse_parts (slash :: rest)
    rw [pieces] at parts
    rw [← parts]
    rfl

theorem joined_starts (names : List Str) : (joined names).head? = some slash := by
  unfold joined
  split
  · rfl
  · cases names with
    | nil => contradiction
    | cons => rfl

theorem absolute_root (workdir : Workdir) {path : Str} (starts : path.head? = some slash) :
    getabsolutepath workdir path = normalForm path := by
  obtain ⟨rest, parsed, pieces⟩ := parse_root starts
  unfold getabsolutepath normalForm
  rw [parsed, pieces]
  exact output_rejected true rest

/-- A working directory that was set is a blank part and parts with the names of the path. -/
theorem workdir_parts {names : List Str} (all : ∀ part ∈ names, Name part) :
    ∃ rest, (setWorkdir (joined names)).path = ⟨true, [] :: rest⟩ ∧ survivors rest = names := by
  obtain ⟨pieces, parsed, split⟩ := parse_root (joined_starts names)
  obtain ⟨rest, rejected⟩ := reject_dots_head true pieces
  have found := reject_dots_names ⟨true, [] :: pieces⟩
  have own := survivors_joined all
  rw [rejected] at found
  rw [split] at own
  refine ⟨rest, ?_, ?_⟩
  · rw [← rejected, ← parsed]
    rfl
  · -- The parts that are left are names and blanks, so nothing more is taken away.
    rw [← survivors_real]
    have names_left : real rest = names := found.trans own
    rw [names_left]
    exact survivors_of_names all

theorem absolute_relative {names : List Str} (all : ∀ part ∈ names, Name part) {path : Str}
    (relative : path.head? ≠ some slash) :
    getabsolutepath (setWorkdir (joined names)) path = normalForm (joined names ++ slash :: path) := by
  obtain ⟨rest, parts, survive⟩ := workdir_parts all
  have root : (pathParse path).root = false := by simpa [pathParse] using relative
  have split : (joined names ++ slash :: path).splitOn slash =
      (joined names).splitOn slash ++ path.splitOn slash := List.splitOnP_append_cons _ _ (by simp)
  unfold normalForm
  rw [split, survivors_append, survivors_joined all]
  have whole : getabsolutepath (setWorkdir (joined names)) path =
      pathOutput (pathRejectDots (pathCat (setWorkdir (joined names)).path (pathParse path))) := by
    simp only [getabsolutepath, root, Bool.false_eq_true, if_false]
  rw [whole, parts, pathCat, parse_parts]
  change pathOutput (pathRejectDots ⟨true, [] :: (rest ++ path.splitOn slash)⟩) = _
  rw [output_rejected, survivors_append, survive]

section
variable {d : Str} (normal : Normalised d)
include normal

theorem absolute_normalised (path : Str) : Normalised (getabsolutepath (setWorkdir d) path) := by
  obtain ⟨names, all, rfl⟩ := normal
  by_cases starts : path.head? = some slash
  · rw [absolute_root _ starts]
    exact normal_form_normalised path
  · rw [absolute_relative all starts]
    exact normal_form_normalised _

/-- A normalised path is its own normal form. -/
theorem normal_form_of_normalised : normalForm d = d := by
  obtain ⟨names, all, rfl⟩ := normal
  unfold normalForm
  rw [survivors_joined all]

theorem normalised_starts : d.head? = some slash := by
  obtain ⟨names, -, rfl⟩ := normal
  exact joined_starts names

theorem set_workdir_str : (setWorkdir d).str = d := by
  have whole := absolute_root (setWorkdir d) (normalised_starts normal)
  obtain ⟨rest, parsed, -⟩ := parse_root (normalised_starts normal)
  rw [normal_form_of_normalised normal] at whole
  unfold getabsolutepath at whole
  rw [parsed] at whole
  unfold setWorkdir
  rw [parsed]
  exact whole

end

/-- The working directory is one that was set to a normalised path. -/
def Settled (workdir : Workdir) : Prop := Normalised workdir.str ∧ workdir = setWorkdir workdir.str

theorem set_workdir_settled {d : Str} (normal : Normalised d) : Settled (setWorkdir d) := by
  have str := set_workdir_str normal
  constructor
  · rw [str]
    exact normal
  · rw [str]

theorem chdir_settled {workdir : Workdir} (settled : Settled workdir) (opened : Bool) (new : Str) :
    Settled (chdir opened new workdir).2 := by
  obtain ⟨normal, same⟩ := settled
  unfold chdir
  split
  · apply set_workdir_settled
    rw [same]
    exact absolute_normalised normal new
  · exact ⟨normal, same⟩

/-- With a normalised working directory `getabsolutepath` gives the normal form of an absolute
path, and of the working directory followed by a relative one; given its own result it
changes nothing; and any calls of `chdir` from `/` leave a normalised working directory. -/
theorem absolute_path_is_normal_form :
    (∀ d path, Normalised d → getabsolutepath (setWorkdir d) path =
      if path.head? = some slash then normalForm path else normalForm (d ++ slash :: path)) ∧
    (∀ d path, Normalised d →
      getabsolutepath (setWorkdir d) (getabsolutepath (setWorkdir d) path) =
        getabsolutepath (setWorkdir d) path) ∧
    ∀ calls : List (Bool × Str),
      Settled (calls.foldl (fun workdir call => (chdir call.1 call.2 workdir).2) (setWorkdir [slash])) := by
  refine ⟨fun d path normal => ?_, fun d path normal => ?_, fun calls => ?_⟩
  · split
    · exact absolute_root _ ‹_›
    · obtain ⟨names, all, rfl⟩ := normal
      exact absolute_relative all ‹_›
  · have result := absolute_normalised normal path
    rw [absolute_root _ (normalised_starts result)]
    exact normal_form_of_normalised result
  · have first : Settled (setWorkdir [slash]) :=
      set_workdir_settled ⟨[], List.forall_mem_nil _, rfl⟩
    generalize setWorkdir [slash] = workdir at first
    induction calls generalizing workdir with
    | nil => exact first
    | cons call calls ih => exact ih _ (chdir_settled first call.1 call.2)

/-- From `/a`, the path `b//../.c/.` leads to `/a/.c`. -/
theorem absolute_path_from_a : Normalised [47, 97] ∧
    getabsolutepath (setWorkdir [47, 97]) [98, 47, 47, 46, 46, 47, 46, 99, 47, 46] =
      [47, 97, 47, 46, 99] := by
  have normal : Normalised [47, 97] := normal_form_normalised [47, 97]
  refine ⟨normal, ?_⟩
  rw [absolute_path_is_normal_form.1 [47, 97] _ normal]
  decide +kernel

end MeinOS.PathNormal
