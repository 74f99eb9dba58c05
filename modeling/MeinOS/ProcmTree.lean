import MeinOS.ProcmLists

/-! The process tree: parent pointers against lists of children.

`proc_create` writes both ends of an edge. `proc_destroy` hands the children of a process
to the grandparent by their parent pointers alone and does not put them on its list, so the
two ends agree as long as a process that is destroyed has no children or no parent. -/
namespace MeinOS.ProcmTree
open Lib Lib.Runs Llist Procm ProcmLists

/-- The two ends of every edge agree, and every edge is between existing processes. -/
structure ProcessTree (k : Kernel) : Prop where
  edges : ∀ p ∈ k.procAll, ∀ q ∈ k.procAll,
    (k.procs p).children.count q = if (k.procs q).parent = p then 1 else 0
  children_exist : ∀ p ∈ k.procAll, ∀ q ∈ (k.procs p).children, q ∈ k.procAll
  parents_exist : ∀ p ∈ k.procAll, ParentExists k p

/-- The tree, with what its steps need: `proc_all` is a list of real processes without
duplicates, and none of them is its own parent. -/
structure Family (k : Kernel) : Prop extends ProcessTree k where
  all_nodup : k.procAll.Nodup
  null_free : 0 ∉ k.procAll
  no_loop : ∀ p ∈ k.procAll, (k.procs p).parent ≠ p

/-- Who is on the list of children has the pointer. -/
theorem ProcessTree.mem_children (tree : ProcessTree k) (existing : p ∈ k.procAll)
    (existing' : q ∈ k.procAll) : q ∈ (k.procs p).children ↔ (k.procs q).parent = p := by
  rw [← List.count_pos_iff, tree.edges p existing q existing']
  split <;> simp_all

section Create
variable (c : Creation) (k : Kernel)

theorem create_parent (other : p ≠ c.new) :
    ((procCreate c k).procs p).parent = (k.procs p).parent :=
  create_keeps Proc.parent (fun _ _ => rfl) c k other

theorem create_children (other : p ≠ c.new) : ((procCreate c k).procs p).children =
    if c.parent ≠ 0 ∧ p = c.parent then c.new :: (k.procs p).children else (k.procs p).children := by
  simp only [procCreate, setProc_other _ _ _ other]
  by_cases real : c.parent ≠ 0
  · rw [if_pos real, setProc_apply]
    by_cases here : p = c.parent
    · rw [if_pos here, if_pos ⟨real, here⟩]
      rfl
    · rw [if_neg here, if_neg fun both => here both.2]
  · rw [if_neg real, if_neg fun both => real both.1]

end Create

section Destroy

theorem reparent_parent (parent : Ptr) (children : List Ptr) (k : Kernel) (p : Ptr) :
    ((reparent parent children k).procs p).parent =
      if p ∈ children then parent else (k.procs p).parent := by
  unfold reparent
  induction children generalizing k with
  | nil => simp
  | cons child children ih =>
    rw [List.foldl_cons, ih, setProc_apply]
    by_cases here : p = child
    · simp [here]
    · simp [here]

/-- The children of the destroyed process point to its parent. -/
theorem destroy_parent (proc : Ptr) (k : Kernel) (p : Ptr) :
    ((procDestroy proc k).procs p).parent =
      if p ∈ (k.procs proc).children then (k.procs proc).parent else (k.procs p).parent := by
  rw [← reparent_parent]
  simp only [procDestroy]
  split
  · refine (setProc_keeps _ _ _ Proc.parent (fun _ => ?_) p).trans ?_
    · rfl
    · exact setProc_keeps _ _ _ Proc.parent (fun _ => by rfl) p
  · exact setProc_keeps _ _ _ Proc.parent (fun _ => by rfl) p

/-- Its parent loses it from the list, and no list gets longer. -/
theorem destroy_children (proc : Ptr) (k : Kernel) (other : p ≠ proc) :
    ((procDestroy proc k).procs p).children =
      if (k.procs proc).parent ≠ 0 ∧ p = (k.procs proc).parent then (k.procs p).children.erase proc
      else (k.procs p).children := by
  have kept := reparent_keeps Proc.children (fun _ _ => rfl) (k.procs proc).parent
    (k.procs proc).children k p
  simp only [procDestroy, llist_remove_find]
  by_cases real : (k.procs proc).parent ≠ 0
  · rw [if_pos real, setProc_apply, setProc_other _ _ _ other]
    by_cases here : p = (k.procs proc).parent
    · rw [if_pos here, if_pos ⟨real, here⟩, ← kept]
    · rw [if_neg here, if_neg fun both => here both.2, kept]
  · rw [if_neg real, if_neg fun both => real both.1, setProc_other _ _ _ other, kept]

end Destroy

/-- The calls the tree is made by. -/
inductive Event where
  | create (c : Creation)
  | destroy (proc : Ptr)
  deriving DecidableEq

/-- One call. `malloc` hands out memory of no existing process; the parent given is NULL or
exists, and so does the process that is destroyed. -/
def step (k : Kernel) : Event → Option Kernel
  | .create c =>
    onlyIf (c.new ≠ 0 ∧ c.new ∉ k.procAll ∧ (c.parent = 0 ∨ c.parent ∈ k.procAll)) (procCreate c k)
  | .destroy proc => onlyIf (proc ∈ k.procAll) (procDestroy proc k)

/-- A process that is destroyed has no parent or no children. -/
def AtAnEnd (k : Kernel) : Event → Prop
  | .destroy proc => (k.procs proc).parent = 0 ∨ (k.procs proc).children = []
  | .create _ => True

instance (k : Kernel) : (event : Event) → Decidable (AtAnEnd k event)
  | .destroy _ => inferInstanceAs (Decidable (_ ∨ _))
  | .create _ => isTrue trivial

theorem create_family (held : Family k) (real : c.new ≠ 0) (fresh : c.new ∉ k.procAll)
    (parent : c.parent = 0 ∨ c.parent ∈ k.procAll) : Family (procCreate c k) := by
  have all : (procCreate c k).procAll = c.new :: k.procAll := rfl
  have record := create_record c k
  have old : ∀ p ∈ k.procAll, p ≠ c.new := fun p existing eq => fresh (eq ▸ existing)
  have notSelf : c.parent ≠ c.new := by
    rcases parent with null | existing
    · exact null ▸ real.symm
    · exact old _ existing
  have childless : ((procCreate c k).procs c.new).children = [] := by
    rw [record]
    rfl
  have adopted : ((procCreate c k).procs c.new).parent = c.parent := by
    rw [record]
    rfl
  -- no list held the block before, and no pointer of an existing process did
  have unlisted : ∀ p ∈ k.procAll, c.new ∉ (k.procs p).children := fun p existing on =>
    fresh (held.children_exist p existing _ on)
  have unpointed : ∀ q ∈ k.procAll, (k.procs q).parent ≠ c.new := by
    intro q existing eq
    rcases held.parents_exist q existing with null | there
    · exact real (eq.symm.trans null)
    · exact fresh (eq ▸ there)
  refine { edges := ?_, children_exist := ?_, parents_exist := ?_, all_nodup := ?_,
           null_free := ?_, no_loop := ?_ }
  · rw [all]
    intro p existing q existing'
    rcases List.mem_cons.mp existing with rfl | before
    · rw [childless, List.count_nil]
      rcases List.mem_cons.mp existing' with rfl | before'
      · rw [adopted, if_neg notSelf]
      · rw [create_parent c k (old q before'), if_neg (unpointed q before')]
    · rw [create_children c k (old p before)]
      have counts := held.edges p before
      rcases List.mem_cons.mp existing' with rfl | before'
      · rw [adopted]
        have none : (k.procs p).children.count c.new = 0 :=
          List.count_eq_zero_of_not_mem (unlisted p before)
        by_cases here : p = c.parent
        · have nonnull : c.parent ≠ 0 := fun null => held.null_free (null ▸ here ▸ before)
          rw [if_pos ⟨nonnull, here⟩, if_pos here.symm, List.count_cons_self, none]
        · rw [if_neg fun both => here both.2, if_neg fun eq => here eq.symm, none]
      · rw [create_parent c k (old q before'), ← counts q before']
        split
        · rw [List.count_cons_of_ne (old q before').symm]
        · rfl
  · rw [all]
    intro p existing q on
    rcases List.mem_cons.mp existing with rfl | before
    · rw [childless] at on
      cases on
    · rw [create_children c k (old p before)] at on
      split at on
      · rcases List.mem_cons.mp on with rfl | listed
        · exact List.mem_cons_self
        · exact List.mem_cons_of_mem _ (held.children_exist p before q listed)
      · exact List.mem_cons_of_mem _ (held.children_exist p before q on)
  · intro p existing
    rw [ParentExists, all]
    rcases List.mem_cons.mp existing with rfl | before
    · rw [adopted]
      exact parent.imp_right (List.mem_cons_of_mem _)
    · rw [create_parent c k (old p before)]
      exact (held.parents_exist p before).imp_right (List.mem_cons_of_mem _)
  · rw [all]
    exact List.nodup_cons.mpr ⟨fresh, held.all_nodup⟩
  · rw [all, List.mem_cons]
    rintro (null | before)
    · exact real null.symm
    · exact held.null_free before
  · intro p existing
    rcases List.mem_cons.mp existing with rfl | before
    · rw [adopted]
      exact notSelf
    · rw [create_parent c k (old p before)]
      exact held.no_loop p before

/-- A process without a parent leaves its children without one; a process without children
is taken off one list. -/
theorem destroy_family (held : Family k) (existing : proc ∈ k.procAll)
    (atEnd : (k.procs proc).parent = 0 ∨ (k.procs proc).children = []) :
    Family (procDestroy proc k) := by
  have all : (procDestroy proc k).procAll = k.procAll.erase proc := (destroy_books proc k).1
  have before : ∀ p, p ∈ k.procAll.erase proc ↔ p ≠ proc ∧ p ∈ k.procAll := fun p =>
    held.all_nodup.mem_erase_iff
  -- an existing process lost its pointer exactly if it pointed to the one destroyed
  have pointer : ∀ p ∈ k.procAll, ((procDestroy proc k).procs p).parent =
      if (k.procs p).parent = proc then 0 else (k.procs p).parent := by
    intro p there
    rw [destroy_parent]
    by_cases child : (k.procs p).parent = proc
    · have listed := (held.mem_children existing there).mpr child
      have root := atEnd.resolve_right fun none => by rw [none] at listed; cases listed
      rw [if_pos listed, if_pos child, root]
    · rw [if_neg fun on => child ((held.mem_children existing there).mp on), if_neg child]
  have counts : ∀ p, p ≠ proc → ∀ q, q ≠ proc →
      ((procDestroy proc k).procs p).children.count q = (k.procs p).children.count q := by
    intro p other q other'
    rw [destroy_children proc k other]
    split
    · exact List.count_erase_of_ne other'
    · rfl
  refine { edges := ?_, children_exist := ?_, parents_exist := ?_, all_nodup := ?_,
           null_free := ?_, no_loop := ?_ }
  · rw [all]
    intro p member q member'
    obtain ⟨other, there⟩ := (before p).mp member
    obtain ⟨other', there'⟩ := (before q).mp member'
    rw [counts p other q other', held.edges p there q there', pointer q there']
    by_cases child : (k.procs q).parent = proc
    · have notNull : (0 : Ptr) ≠ p := fun eq => held.null_free (eq ▸ there)
      rw [if_pos child, if_neg notNull, child, if_neg other.symm]
    · rw [if_neg child]
  · rw [all]
    intro p member q on
    obtain ⟨other, there⟩ := (before p).mp member
    have listed : q ∈ (k.procs p).children := by
      rw [destroy_children proc k other] at on
      split at on
      · exact List.mem_of_mem_erase on
      · exact on
    refine (before q).mpr ⟨?_, held.children_exist p there q listed⟩
    rintro rfl
    have parent := (held.mem_children there existing).mp listed
    have nonnull : (k.procs q).parent ≠ 0 := fun null =>
      held.null_free (null ▸ parent.symm ▸ there)
    rw [destroy_children q k other, if_pos ⟨nonnull, parent.symm⟩] at on
    have left := List.count_pos_iff.mpr on
    rw [List.count_erase_self, held.edges p there q existing, if_pos parent] at left
    omega
  · rw [all]
    intro p member
    obtain ⟨other, there⟩ := (before p).mp member
    rw [ParentExists, all, pointer p there]
    by_cases child : (k.procs p).parent = proc
    · exact Or.inl (if_pos child)
    · rw [if_neg child]
      exact (held.parents_exist p there).imp_right fun parent => (before _).mpr ⟨child, parent⟩
  · rw [all]
    exact held.all_nodup.erase proc
  · rw [all]
    exact fun null => held.null_free ((before 0).mp null).2
  · rw [all]
    intro p member
    obtain ⟨other, there⟩ := (before p).mp member
    rw [pointer p there]
    split
    · exact fun eq => held.null_free (eq ▸ there)
    · exact held.no_loop p there

/-- With a parent and a child, the child points to the grandparent and is not on its list. -/
theorem destroy_inner (held : Family k) (existing : proc ∈ k.procAll)
    (inner : ¬ ((k.procs proc).parent = 0 ∨ (k.procs proc).children = [])) :
    ¬ ProcessTree (procDestroy proc k) := by
  intro tree
  obtain ⟨parent, family⟩ := not_or.mp inner
  obtain ⟨child, rest, shape⟩ := List.exists_cons_of_ne_nil family
  have listed : child ∈ (k.procs proc).children := by
    rw [shape]
    exact List.mem_cons_self
  have childExists := held.children_exist proc existing child listed
  have pointer := (held.mem_children existing childExists).mp listed
  have loop := held.no_loop proc existing
  have grandparent := (held.parents_exist proc existing).resolve_left parent
  have all : (procDestroy proc k).procAll = k.procAll.erase proc := (destroy_books proc k).1
  have childLeft : child ∈ (procDestroy proc k).procAll := by
    rw [all, held.all_nodup.mem_erase_iff]
    exact ⟨fun eq => held.no_loop child childExists (eq ▸ pointer), childExists⟩
  have parentLeft : (k.procs proc).parent ∈ (procDestroy proc k).procAll := by
    rw [all, held.all_nodup.mem_erase_iff]
    exact ⟨loop, grandparent⟩
  have raised : ((procDestroy proc k).procs child).parent = (k.procs proc).parent := by
    rw [destroy_parent, if_pos listed]
  have on := (tree.mem_children parentLeft childLeft).mpr raised
  rw [destroy_children proc k loop, if_pos ⟨parent, rfl⟩] at on
  have older := (held.mem_children grandparent childExists).mp (List.mem_of_mem_erase on)
  exact loop (older.symm.trans pointer)

theorem step_family (k : Kernel) (event : Event) (k' : Kernel) (held : Family k)
    (atEnd : AtAnEnd k event) (ran : step k event = some k') : Family k' := by
  cases event with
  | create c =>
    obtain ⟨⟨real, fresh, parent⟩, rfl⟩ := onlyIf_eq_some ran
    exact create_family held real fresh parent
  | destroy proc =>
    obtain ⟨existing, rfl⟩ := onlyIf_eq_some ran
    exact destroy_family held existing atEnd

theorem step_inner (k : Kernel) (event : Event) (k' : Kernel) (held : Family k)
    (inner : ¬ AtAnEnd k event) (ran : step k event = some k') : ¬ ProcessTree k' := by
  cases event with
  | create c => exact absurd trivial inner
  | destroy proc =>
    obtain ⟨existing, rfl⟩ := onlyIf_eq_some ran
    exact destroy_inner held existing inner

theorem init_family (k : Kernel) : Family (procInit k) := by
  constructor
  · constructor <;> simp [procInit]
  all_goals simp [procInit]

/-- From `proc_init` on the process tree is right throughout exactly the runs in which every
process that is destroyed has no parent or no children. -/
theorem tree_kept_iff_at_an_end (k : Kernel) (events : List Event)
    (ran : run step (procInit k) events = some k') :
    Throughout step ProcessTree (procInit k) events ↔ Along step AtAnEnd (procInit k) events :=
  throughout_iff_along (fun _ held => held.toProcessTree) step_family step_inner (init_family k) ran

/-- A process with a parent and a child is destroyed. -/
def innerRun : List Event :=
  [.create ⟨1, staleBlock, 11, 1, 1, 0, true⟩, .create ⟨2, staleBlock, 12, 1, 1, 1, true⟩,
    .create ⟨3, staleBlock, 13, 1, 1, 2, true⟩, .destroy 2]

/-- The child points to the grandparent, whose list of children is empty; when the
grandparent goes as well, the pointer is left dangling. -/
theorem inner_process_breaks_tree :
    (∃ k', run step (procInit bootKernel) innerRun = some k' ∧ k'.procAll = [3, 1] ∧
        (k'.procs 3).parent = 1 ∧ (k'.procs 1).children = [] ∧ ¬ ProcessTree k') ∧
      ∃ k', run step (procInit bootKernel) (innerRun ++ [.destroy 1]) = some k' ∧
        k'.procAll = [3] ∧ (k'.procs 3).parent = 1 := by
  refine ⟨⟨_, rfl, rfl, rfl, rfl, fun tree => ?_⟩, _, rfl, rfl, rfl⟩
  have on := (tree.mem_children (p := 1) (q := 3) (by decide) (by decide)).mpr rfl
  cases on

/-- A leaf goes, and then the root of what is left. -/
def trimmedRun : List Event :=
  [.create ⟨1, staleBlock, 11, 1, 1, 0, true⟩, .create ⟨2, staleBlock, 12, 1, 1, 1, true⟩,
    .create ⟨3, staleBlock, 13, 1, 1, 2, true⟩, .destroy 3, .destroy 1]

theorem trimmed_run_keeps_tree :
    ∃ k', run step (procInit bootKernel) trimmedRun = some k' ∧
      Throughout step ProcessTree (procInit bootKernel) trimmedRun :=
  ⟨_, rfl, (tree_kept_iff_at_an_end bootKernel trimmedRun rfl).mpr (by decide)⟩

end MeinOS.ProcmTree
