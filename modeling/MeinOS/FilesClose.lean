import MeinOS.Files

/-! What becomes of the open files and directories when a process ends or executes a program:
`_close_all_filehandles` and `_fs_cloexec` of `apps/lib/stdlibc/files.c`, with servers that let
everything be closed.

`_close_all_filehandles` takes an entry out of the table before `close` looks for it there, so that
the server of a file hears nothing. `_fs_cloexec` goes on behind the entry that takes the place of
one it has closed. Both tell directories by the type `FL_DIR`, which `opendir` does not set. -/
namespace MeinOS.FilesClose
open Llist Files

/-- The `type` of an entry. -/
inductive Kind where
  | file | dir | sock
  deriving DecidableEq

/-- What is used of `struct filelist_item`. -/
structure Entry extends Item where
  type : Kind
  cloexec : Bool
  deriving DecidableEq

/-- A request to the server of an entry. -/
inductive Request where
  | close (fsFh : Int)
  | closedir (fsFh : Int)
  deriving DecidableEq

/-- `close`: the requests, and the table without the entry. -/
def close (fh : Int) (table : List Entry) : List Request × List Entry :=
  if 0 ≤ fh then match table.find? (·.fh = fh) with
    | some file => ([.close file.fsFh], (llistRemove table (table.findIdx? (·.fh = fh))).2)
    | none => ([], table)
  else ([], table)

/-- `closedir`. -/
def closedir (file : Entry) (table : List Entry) : List Request × List Entry :=
  ([.closedir file.fsFh], (llistRemove table (table.findIdx? (·.ptr = file.ptr))).2)

/-- `_close_all_filehandles` in at most so many rounds. -/
def closeAllFilehandles : Nat → List Entry → Option (List Request × List Entry)
  | 0, _ => none
  | rounds + 1, table => match llistPop table with
    | (none, table) => some ([], table)
    | (some file, table) =>
      let (sent, table) := match file.type with
        | .file => close file.fh table
        | .dir => closedir file table
        | .sock => ([], table)
      (closeAllFilehandles rounds table).map fun (more, table) => (sent ++ more, table)

/-- What `_fs_cloexec` does with an entry. -/
def cloexecEntry (file : Entry) (table : List Entry) : List Entry :=
  if file.type = .dir then (closedir file table).2
  else if file.cloexec then (close file.fh table).2
  else table

/-- `_fs_cloexec` from index `i` on, in at most so many rounds. -/
def fsCloexec : Nat → Nat → List Entry → Option (List Entry)
  | 0, _, _ => none
  | rounds + 1, i, table => match llistGet table i with
    | none => some table
    | some file => fsCloexec rounds (i + 1) (cloexecEntry file table)

/-- The request closes the entry. -/
def Closes (file : Entry) (request : Request) : Prop :=
  request = .close file.fsFh ∨ request = .closedir file.fsFh

/-- Each entry is closed at its server, once, and the table is empty. -/
def ClosesAll (table : List Entry) : Prop :=
  ∃ rounds sent, closeAllFilehandles rounds table = some (sent, []) ∧
    ∃ requests, sent.Perm requests ∧ List.Forall₂ Closes table requests

/-- What is left is what `exec` keeps. -/
def KeepsFiles (table : List Entry) : Prop :=
  ∃ rounds, fsCloexec rounds 0 table = some (table.filter fun file => file.type ≠ .dir ∧ file.cloexec = false)

/-- The table loses an entry for the request that is sent, or nothing happens. -/
theorem close_cases (fh : Int) (table : List Entry) :
    close fh table = ([], table) ∨
      ∃ request rest, close fh table = ([request], rest) ∧ rest.length + 1 = table.length := by
  unfold close
  split
  · cases found : table.find? (·.fh = fh) with
    | none => exact Or.inl rfl
    | some file =>
      have member := List.mem_of_find?_eq_some found
      have named : decide (file.fh = fh) = true := by simpa using List.find?_some found
      refine Or.inr ⟨_, _, rfl, ?_⟩
      rw [llist_remove_first, List.length_eraseP_of_mem member named]
      exact Nat.succ_pred (List.length_pos_of_mem member).ne'
  · exact Or.inl rfl

theorem close_length (fh : Int) (table : List Entry) :
    (close fh table).1.length + (close fh table).2.length = table.length ∧
      table.length ≤ (close fh table).2.length + 1 := by
  rcases close_cases fh table with same | ⟨request, rest, same, one⟩
  · simp [same]
  · simp [same]
    omega

/-- A file whose entry is taken out is not closed by anyone. -/
theorem close_all_length {rounds : Nat} {table rest : List Entry} {sent : List Request}
    (closed : closeAllFilehandles rounds table = some (sent, rest)) :
    sent.length ≤ table.length ∧ (sent.length = table.length → ∀ file ∈ table, file.type = .dir) := by
  induction rounds generalizing table sent with
  | zero => cases closed
  | succ rounds ih =>
    cases table with
    | nil =>
      cases closed
      simp
    | cons file table =>
      obtain ⟨⟨more, end'⟩, later, same⟩ := Option.map_eq_some_iff.mp closed
      cases same
      cases type : file.type with
      | file =>
        simp only [type] at later
        have one := close_length file.fh table
        have most := (ih later).1
        simp only [List.length_append, List.length_cons]
        constructor <;> omega
      | sock =>
        simp only [type] at later
        have most := (ih later).1
        simp only [List.nil_append, List.length_cons]
        constructor <;> omega
      | dir =>
        simp only [type, closedir, llist_remove_first] at later
        obtain ⟨most, all⟩ := ih later
        have part : (table.eraseP (·.ptr = file.ptr)).Sublist table := List.eraseP_sublist
        have fewer := part.length_le
        simp only [closedir, List.length_append, List.length_cons, List.length_nil]
        refine ⟨by omega, fun equal other member => ?_⟩
        rw [part.eq_of_length (by omega)] at all
        rcases List.mem_cons.mp member with rfl | member
        · exact type
        · exact all (by omega) other member

theorem cloexec_entry_length (file : Entry) (table : List Entry) :
    table.length ≤ (cloexecEntry file table).length + 1 := by
  unfold cloexecEntry
  split
  · rw [closedir, llist_remove_first]
    have := List.le_length_eraseP (p := fun other => decide (other.ptr = file.ptr)) (l := table)
    omega
  · split
    · exact (close_length file.fh table).2
    · omega

/-- Behind the first entry the loop never empties the table. -/
theorem cloexec_leaves {rounds i : Nat} {table : List Entry} (filled : table ≠ []) :
    fsCloexec rounds (i + 1) table ≠ some [] := by
  induction rounds generalizing i table with
  | zero => simp [fsCloexec]
  | succ rounds ih =>
    rw [fsCloexec]
    cases found : llistGet table (i + 1) with
    | none => simpa using filled
    | some file =>
      have inside := (List.getElem?_eq_some_iff.mp found).1
      have kept := cloexec_entry_length file table
      exact ih (List.ne_nil_of_length_pos (by omega))

/-- Both do what they should exactly if there is nothing to close but a single directory. -/
theorem closing_iff (table : List Entry) :
    (KeepsFiles table ∧ ClosesAll table) ↔ table = [] ∨ ∃ dir, table = [dir] ∧ dir.type = .dir := by
  constructor
  · rintro ⟨⟨rounds, kept⟩, rounds', sent, closed, requests, perm, closes⟩
    have every : ∀ file ∈ table, file.type = .dir :=
      (close_all_length closed).2 (perm.length_eq.trans closes.length_eq.symm)
    have nothing : table.filter (fun file => file.type ≠ .dir ∧ file.cloexec = false) = [] := by
      apply List.filter_eq_nil_iff.mpr
      intro file member
      simp [every file member]
    rw [nothing] at kept
    match table, every, kept with
    | [], _, _ => exact Or.inl rfl
    | [dir], every, _ => exact Or.inr ⟨dir, rfl, every dir List.mem_cons_self⟩
    | first :: second :: rest, _, kept =>
      cases rounds with
      | zero => cases kept
      | succ rounds =>
        have left := cloexec_entry_length first (first :: second :: rest)
        simp only [List.length_cons] at left
        exact absurd kept (cloexec_leaves (List.ne_nil_of_length_pos (by omega)))
  · rintro (rfl | ⟨dir, rfl, type⟩)
    · exact ⟨⟨1, rfl⟩, 1, [], rfl, [], .refl _, .nil⟩
    · refine ⟨⟨2, ?_⟩, 2, [.closedir dir.fsFh], ?_, _, .refl _, .cons (Or.inr rfl) .nil⟩
      · simp [fsCloexec, llistGet, cloexecEntry, closedir, llistRemove, type]
      · simp [closeAllFilehandles, llistPop, closedir, llistRemove, type]

/-- One open file, and two that are to be closed on `exec`. -/
theorem file_is_not_closed :
    closeAllFilehandles 2 [⟨⟨1, 3, 7⟩, .file, true⟩] = some ([], []) ∧
      fsCloexec 3 0 [⟨⟨1, 3, 7⟩, .file, true⟩, ⟨⟨2, 4, 8⟩, .file, true⟩] =
        some [⟨⟨2, 4, 8⟩, .file, true⟩] := by
  decide

end MeinOS.FilesClose
