import Mathlib

/-! The linked lists of `lib/libmeinos/llist.c`, as the sequence of their
values from the anchor on. A value is never NULL, so `llist_get` past the end is
`none`; the `-1` that `llist_find` returns for a missing value is `none` as well,
because as a `size_t` it lies past the end of every list. -/
namespace MeinOS.Llist

variable {α : Type}

/-- `llist_push`: the new node becomes the anchor. -/
def llistPush (list : List α) (value : α) : List α := value :: list

/-- `llist_pop`: the value at the anchor and the list behind it. -/
def llistPop : List α → Option α × List α
  | [] => (none, [])
  | value :: list => (some value, list)

/-- `llist_get`, which is `none` past the end. -/
def llistGet (list : List α) (index : Nat) : Option α := list[index]?

/-- `llist_find`: the position of the first node with this value. -/
def llistFind [DecidableEq α] (list : List α) (value : α) : Option Nat := list.idxOf? value

/-- `llist_remove`: the value at the index and the list without its node. -/
def llistRemove (list : List α) : Option Nat → Option α × List α
  | none => (none, list)
  | some index => match list[index]? with
    | none => (none, list)
    | some value => (some value, list.eraseIdx index)

@[simp] theorem mem_llist_push {list : List α} {x value : α} :
    x ∈ llistPush list value ↔ x = value ∨ x ∈ list := List.mem_cons

/-- The idiom `llist_remove(l,llist_find(l,x))` takes out the first `x`, and is
harmless when there is none. -/
theorem llist_remove_find [DecidableEq α] (list : List α) (x : α) :
    llistRemove list (llistFind list x) =
      (if x ∈ list then some x else none, list.erase x) := by
  rw [List.erase_eq_eraseIdx]
  cases found : list.idxOf? x with
  | none =>
    have missing : x ∉ list := List.idxOf?_eq_none_iff.mp found
    simp [llistRemove, llistFind, found, missing]
  | some index =>
    obtain ⟨inside, here, -⟩ := List.idxOf?_eq_some_iff.mp found
    have value : list[index]? = some x := by rw [List.getElem?_eq_getElem inside, here]
    have member : x ∈ list := List.mem_of_getElem? value
    simp [llistRemove, llistFind, found, value, member]

/-- `llist_get` at the index of the first value that `p` holds of. -/
theorem llist_get_first (list : List α) (p : α → Bool) :
    (list.findIdx? p).bind (llistGet list) = list.find? p :=
  List.find?_eq_bind_findIdx?_getElem?.symm

/-- `llist_remove` at that index. -/
theorem llist_remove_first (list : List α) (p : α → Bool) :
    (llistRemove list (list.findIdx? p)).2 = list.eraseP p := by
  rw [List.eraseP_eq_eraseIdx]
  unfold llistRemove
  cases found : list.findIdx? p with
  | none => rfl
  | some index =>
    obtain ⟨inside, -⟩ := List.findIdx?_eq_some_iff_getElem.mp found
    simp [inside]

section Keys
variable {β : Type} [DecidableEq β] {key : α → β} {list : List α} (distinct : (list.map key).Nodup)
include distinct

/-- In a list whose keys differ no other value has the key of one that is taken out. -/
theorem erase_keyed (k : β) : list.eraseP (key · = k) = list.filter (key · ≠ k) := by
  induction list with
  | nil => rfl
  | cons x list ih =>
    obtain ⟨fresh, rest⟩ := List.nodup_cons.mp distinct
    by_cases same : key x = k
    · rw [List.eraseP_cons_of_pos (by simpa using same), List.filter_cons_of_neg (by simpa using same)]
      refine (List.filter_eq_self.mpr fun y member => ?_).symm
      exact decide_eq_true fun equal => fresh (List.mem_map.mpr ⟨y, member, equal.trans same.symm⟩)
    · rw [List.eraseP_cons_of_neg (by simpa using same), List.filter_cons_of_pos (by simpa using same),
        ih rest]

/-- In a list whose keys differ the search for a key finds the value that has it. -/
theorem find_keyed {x : α} (member : x ∈ list) : list.find? (fun y => key y = key x) = some x := by
  cases found : list.find? (fun y => key y = key x) with
  | none => exact absurd (List.find?_eq_none.mp found x member) (by simp)
  | some y =>
    have same : key y = key x := by simpa using List.find?_some found
    rw [List.inj_on_of_nodup_map distinct (List.mem_of_find?_eq_some found) member same]

end Keys

end MeinOS.Llist
