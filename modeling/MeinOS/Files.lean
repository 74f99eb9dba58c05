import MeinOS.Lib.Runs
import MeinOS.Llist
import MeinOS.Procm

/-! The table of open files in a client, `apps/lib/stdlibc/files.c`. Every call asks a file
server and takes its answer; the entries differ in where their descriptor comes from: `open`
counts, `opendir` leaves it zero, `dup2` takes it from its caller, and after `exec` the entries
are inherited while the counter starts again at 3. -/
namespace MeinOS.Files
open Llist Lib.Runs
open Procm (Ptr)

/-- `struct filelist_item`: the block it is in, its descriptor and the handle of the server. -/
structure Item where
  ptr : Ptr
  fh : Int
  fsFh : Int
  deriving DecidableEq

/-- `filelist` and `nextfh`. -/
structure Client where
  filelist : List Item
  nextfh : Int
  deriving DecidableEq

/-- `lidxbyfh`. -/
def lidxbyfh (c : Client) (fh : Int) : Option Nat := c.filelist.findIdx? (·.fh = fh)

/-- `filebyfh`. -/
def filebyfh (c : Client) (fh : Int) : Option Item :=
  if 0 ≤ fh then (lidxbyfh c fh).bind (llistGet c.filelist) else none

/-- `open`, with whether the shared buffer could be attached and what the server answers. -/
def openFile (new : Ptr) (attached : Bool) (answer : Int) (c : Client) : Int × Client :=
  if !attached then (0, c)
  else if 0 ≤ answer then (c.nextfh, ⟨llistPush c.filelist ⟨new, c.nextfh, answer⟩, c.nextfh + 1⟩)
  else (-1, c)

/-- `opendir`, whose entry is zeroed and gets no descriptor. -/
def openDir (new : Ptr) (answer : Int) (c : Client) : Client :=
  if 0 ≤ answer then { c with filelist := llistPush c.filelist ⟨new, 0, answer⟩ } else c

/-- `close`. -/
def closeFile (fildes answer : Int) (c : Client) : Int × Client :=
  match filebyfh c fildes with
  | none => (-1, c)
  | some _ =>
    if answer = 0 then (0, { c with filelist := (llistRemove c.filelist (lidxbyfh c fildes)).2 })
    else (if answer < 0 then -1 else answer, c)

/-- The end of `dup2`: the new entry, whose descriptor the caller chose or did not. -/
def addDup (new : Ptr) (fildes2 answer closed : Int) (c : Client) : Client :=
  if fildes2 = 0 then ⟨llistPush c.filelist ⟨new, c.nextfh, answer⟩, c.nextfh + 1⟩
  else
    let c := (closeFile fildes2 closed c).2
    { c with filelist := llistPush c.filelist ⟨new, fildes2, answer⟩ }

/-- `dup2`, with what the server answers to `fs_dup` and, for `fildes2`, to `fs_close`. It
returns the handle of the server. -/
def dup2 (new : Ptr) (fildes fildes2 answer closed : Int) (c : Client) : Int × Client :=
  match filebyfh c fildes with
  | none => (-1, c)
  | some _ => if 0 ≤ answer then (answer, addDup new fildes2 answer closed c) else (answer, c)

/-- `closedir` of an entry. -/
def closeDir (dir : Ptr) (answer : Int) (c : Client) : Client :=
  if answer = 0 then
    { c with filelist := (llistRemove c.filelist (c.filelist.findIdx? (·.ptr = dir))).2 }
  else c

/-- The calls, with the block that `malloc` finds for a new entry and the answers of the
servers. -/
inductive Event where
  | openFile (new : Ptr) (attached : Bool) (answer : Int)
  | openDir (new : Ptr) (answer : Int)
  | dup2 (new : Ptr) (fildes fildes2 answer closed : Int)
  | closeFile (fildes answer : Int)
  | closeDir (dir : Ptr) (answer : Int)
  deriving DecidableEq

/-- A block that no entry is in. -/
def Unused (new : Ptr) (c : Client) : Prop := ∀ item ∈ c.filelist, item.ptr ≠ new

instance (new : Ptr) (c : Client) : Decidable (Unused new c) :=
  inferInstanceAs (Decidable (∀ item ∈ c.filelist, item.ptr ≠ new))

/-- A call, in which the counter does not reach the end of an `int`. -/
def step (c : Client) : Event → Option Client
  | .openFile new attached answer =>
    onlyIf (Unused new c ∧ c.nextfh < 2 ^ 31 - 1) (openFile new attached answer c).2
  | .openDir new answer => onlyIf (Unused new c) (openDir new answer c)
  | .dup2 new fildes fildes2 answer closed =>
    onlyIf (Unused new c ∧ c.nextfh < 2 ^ 31 - 1) (dup2 new fildes fildes2 answer closed c).2
  | .closeFile fildes answer => some (closeFile fildes answer c).2
  | .closeDir dir answer => onlyIf (∃ item ∈ c.filelist, item.ptr = dir) (closeDir dir answer c)

/-- The client after `_fs_init` and the entries that it inherits. -/
def start (inherited : List Item) : Client := ⟨inherited, 3⟩

/-- All entries have different descriptors. -/
def Distinct (c : Client) : Prop := (c.filelist.map (·.fh)).Nodup

/-- No entry has the descriptor. -/
def Vacant (fh : Int) (c : Client) : Prop := ∀ item ∈ c.filelist, item.fh ≠ fh

instance (fh : Int) (c : Client) : Decidable (Vacant fh c) :=
  inferInstanceAs (Decidable (∀ item ∈ c.filelist, item.fh ≠ fh))

/-- The descriptor that a new entry gets is vacant: the counter for `open` and for `dup2` without
a choice, zero for `opendir`, and otherwise the one `dup2` is given, unless it can be closed
and the server closes it. -/
def Meets (c : Client) : Event → Prop
  | .openFile _ attached answer => attached → 0 ≤ answer → Vacant c.nextfh c
  | .openDir _ answer => 0 ≤ answer → Vacant 0 c
  | .dup2 _ fildes fildes2 answer closed => (filebyfh c fildes).isSome → 0 ≤ answer →
    if fildes2 = 0 then Vacant c.nextfh c else Vacant fildes2 c ∨ 0 ≤ fildes2 ∧ closed = 0
  | .closeFile _ _ => True
  | .closeDir _ _ => True

/-! The entries that a call adds and removes. -/

theorem push_distinct {c : Client} {item : Item} (distinct : Distinct c) (vacant : Vacant item.fh c)
    (next : Int) : Distinct ⟨llistPush c.filelist item, next⟩ := by
  refine List.nodup_cons.mpr ⟨fun listed => ?_, distinct⟩
  obtain ⟨other, member, same⟩ := List.mem_map.mp listed
  exact vacant other member same

theorem push_not_distinct {c : Client} {item : Item} (taken : ¬ Vacant item.fh c) (next : Int) :
    ¬ Distinct ⟨llistPush c.filelist item, next⟩ := by
  intro distinct
  apply taken
  intro other member same
  exact (List.nodup_cons.mp distinct).1 (List.mem_map.mpr ⟨other, member, same⟩)

theorem removed_distinct {c : Client} (distinct : Distinct c) (index : Option Nat) :
    Distinct { c with filelist := (llistRemove c.filelist index).2 } := by
  unfold llistRemove
  split
  · exact distinct
  · split
    · exact distinct
    · exact distinct.sublist ((List.eraseIdx_sublist ..).map _)

theorem close_distinct {c : Client} (distinct : Distinct c) (fildes answer : Int) :
    Distinct (closeFile fildes answer c).2 := by
  unfold closeFile
  split
  · exact distinct
  · split
    · exact removed_distinct distinct _
    · exact distinct

theorem filebyfh_find {c : Client} {fh : Int} (valid : 0 ≤ fh) :
    filebyfh c fh = c.filelist.find? (·.fh = fh) := by
  unfold filebyfh lidxbyfh
  rw [if_pos valid]
  exact llist_get_first _ _

/-- A descriptor that is found has an entry, and one that has an entry is found. -/
theorem filebyfh_vacant {c : Client} {fh : Int} (valid : 0 ≤ fh) : filebyfh c fh = none ↔ Vacant fh c := by
  rw [filebyfh_find valid, List.find?_eq_none]
  simp [Vacant]

/-- What `close` removes is the first entry with the descriptor. -/
theorem removed_filelist (c : Client) (fildes : Int) :
    (llistRemove c.filelist (lidxbyfh c fildes)).2 = c.filelist.eraseP (·.fh = fildes) :=
  llist_remove_first _ _

/-- After `close` the descriptor is vacant, if the entries had different ones. -/
theorem close_vacant {c : Client} (distinct : Distinct c) {fildes : Int} (valid : 0 ≤ fildes) :
    Vacant fildes (closeFile fildes 0 c).2 := by
  unfold closeFile
  cases found : filebyfh c fildes with
  | none => exact (filebyfh_vacant valid).mp found
  | some item =>
    change Vacant fildes { c with filelist := (llistRemove c.filelist (lidxbyfh c fildes)).2 }
    rw [removed_filelist, erase_keyed distinct]
    exact fun item member => of_decide_eq_true (List.mem_filter.mp member).2

/-- A descriptor that is negative, or that the server does not close, keeps its entry. -/
theorem close_kept {c : Client} {fildes answer : Int} (refused : ¬ (0 ≤ fildes ∧ answer = 0)) :
    (closeFile fildes answer c).2 = c := by
  unfold closeFile
  cases found : filebyfh c fildes with
  | none => rfl
  | some item =>
    have valid : 0 ≤ fildes := by
      by_contra negative
      unfold filebyfh at found
      rw [if_neg negative] at found
      cases found
    have other : answer ≠ 0 := fun zero => refused ⟨valid, zero⟩
    change (if answer = 0 then _ else _ : Int × Client).2 = c
    rw [if_neg other]

/-! One call. -/

theorem dup_distinct {c : Client} (distinct : Distinct c) {new : Ptr} {fildes fildes2 answer closed : Int}
    (meets : Meets c (.dup2 new fildes fildes2 answer closed)) :
    Distinct (dup2 new fildes fildes2 answer closed c).2 := by
  unfold dup2
  cases found : filebyfh c fildes with
  | none => exact distinct
  | some item =>
    by_cases positive : 0 ≤ answer
    · simp only [if_pos positive]
      have vacant := meets (by rw [found]; rfl) positive
      unfold addDup
      split at vacant
      · rename_i zero
        rw [if_pos zero]
        exact push_distinct distinct vacant _
      · rename_i chosen
        rw [if_neg chosen]
        apply push_distinct (c := (closeFile fildes2 closed c).2) (close_distinct distinct _ _)
        rcases vacant with vacant | ⟨valid, rfl⟩
        · by_cases refused : 0 ≤ fildes2 ∧ closed = 0
          · rw [refused.2]
            exact close_vacant distinct refused.1
          · rw [close_kept refused]
            exact vacant
        · exact close_vacant distinct valid
    · simp only [if_neg positive]
      exact distinct

theorem dup_not_distinct {c : Client} {new : Ptr} {fildes fildes2 answer closed : Int}
    (unmet : ¬ Meets c (.dup2 new fildes fildes2 answer closed)) :
    ¬ Distinct (dup2 new fildes fildes2 answer closed c).2 := by
  unfold Meets at unmet
  push Not at unmet
  obtain ⟨found, positive, taken⟩ := unmet
  obtain ⟨item, found⟩ := Option.isSome_iff_exists.mp found
  unfold dup2
  simp only [found, if_pos positive]
  unfold addDup
  split at taken
  · rename_i zero
    rw [if_pos zero]
    exact push_not_distinct taken _
  · rename_i chosen
    rw [if_neg chosen]
    obtain ⟨held, refused⟩ := not_or.mp taken
    rw [close_kept refused]
    exact push_not_distinct held _

theorem step_distinct {c d : Client} {event : Event} (distinct : Distinct c) (meets : Meets c event)
    (ran : step c event = some d) : Distinct d := by
  cases event with
  | openFile new attached answer =>
    obtain ⟨-, rfl⟩ := onlyIf_eq_some ran
    unfold openFile
    cases attached with
    | false => exact distinct
    | true =>
      simp only [Bool.not_true, Bool.false_eq_true, if_false]
      split
      · exact push_distinct distinct (meets rfl ‹_›) _
      · exact distinct
  | openDir new answer =>
    obtain ⟨-, rfl⟩ := onlyIf_eq_some ran
    unfold openDir
    split
    · exact push_distinct distinct (meets ‹_›) _
    · exact distinct
  | dup2 new fildes fildes2 answer closed =>
    obtain ⟨-, rfl⟩ := onlyIf_eq_some ran
    exact dup_distinct distinct meets
  | closeFile fildes answer =>
    cases ran
    exact close_distinct distinct fildes answer
  | closeDir dir answer =>
    obtain ⟨-, rfl⟩ := onlyIf_eq_some ran
    unfold closeDir
    split
    · exact removed_distinct distinct _
    · exact distinct

theorem step_not_distinct {c d : Client} {event : Event} (unmet : ¬ Meets c event)
    (ran : step c event = some d) : ¬ Distinct d := by
  cases event with
  | openFile new attached answer =>
    obtain ⟨-, rfl⟩ := onlyIf_eq_some ran
    unfold Meets at unmet
    push Not at unmet
    obtain ⟨rfl, positive, taken⟩ := unmet
    unfold openFile
    simp only [Bool.not_true, Bool.false_eq_true, if_false, if_pos positive]
    exact push_not_distinct taken _
  | openDir new answer =>
    obtain ⟨-, rfl⟩ := onlyIf_eq_some ran
    unfold Meets at unmet
    push Not at unmet
    unfold openDir
    rw [if_pos unmet.1]
    exact push_not_distinct unmet.2 _
  | dup2 new fildes fildes2 answer closed =>
    obtain ⟨-, rfl⟩ := onlyIf_eq_some ran
    exact dup_not_distinct unmet
  | closeFile | closeDir => exact absurd trivial unmet

/-- From inherited entries with different descriptors, the entries have different descriptors
at all times exactly if every call that adds an entry gives it a vacant one. -/
theorem descriptors_distinct_iff {inherited : List Item} (distinct : (inherited.map (·.fh)).Nodup)
    {events : List Event} {c : Client} (ran : run step (start inherited) events = some c) :
    Throughout step Distinct (start inherited) events ↔ Along step Meets (start inherited) events := by
  have keeps : ∀ c event next, Distinct c → Meets c event → step c event = some next → Distinct next :=
    fun _ _ _ kept meets ran => step_distinct kept meets ran
  have breaks : ∀ c event next, Distinct c → ¬ Meets c event → step c event = some next → ¬ Distinct next :=
    fun _ _ _ _ unmet ran => step_not_distinct unmet ran
  exact throughout_iff_along (fun _ kept => kept) keeps breaks distinct ran

/-- Two directories are both at descriptor 0, and a file that is opened after `exec` gets the
descriptor 3 that another one was inherited with. -/
theorem descriptors_collide :
    (run step (start []) [.openDir 9 0, .openDir 10 1]).map (·.filelist.map (·.fh)) = some [0, 0] ∧
    ¬ Throughout step Distinct (start []) [.openDir 9 0, .openDir 10 1] ∧
    (run step (start [⟨9, 3, 0⟩]) [.openFile 10 true 1]).map (·.filelist.map (·.fh)) = some [3, 3] := by
  have reached : (run step (start []) [.openDir 9 0, .openDir 10 1]).map (·.filelist.map (·.fh)) =
      some [0, 0] := by decide
  refine ⟨reached, fun holds => ?_, by decide⟩
  obtain ⟨c, ran, same⟩ := Option.map_eq_some_iff.mp reached
  have distinct := holds _ c List.prefix_rfl ran
  unfold Distinct at distinct
  rw [same] at distinct
  exact absurd distinct (by decide)

/-- Two files, one of which is duplicated over the other. -/
theorem duplicated_file_is_distinct : ∃ c,
    run step (start []) [.openFile 9 true 0, .openFile 10 true 1, .dup2 11 3 4 2 0] = some c ∧
    Throughout step Distinct (start []) [.openFile 9 true 0, .openFile 10 true 1, .dup2 11 3 4 2 0] := by
  have none : (([] : List Item).map (·.fh)).Nodup := List.nodup_nil
  refine ⟨_, rfl, (descriptors_distinct_iff none rfl).mpr ?_⟩
  refine along_cons.mpr ⟨fun _ _ => by decide, fun d first => ?_⟩
  cases first
  refine along_cons.mpr ⟨fun _ _ => by decide, fun d second => ?_⟩
  cases second
  exact along_cons.mpr ⟨fun _ _ => .inr ⟨by decide, rfl⟩, fun _ _ => trivial⟩

end MeinOS.Files
