import Mathlib.Logic.Function.Basic
import Mathlib.Tactic.SplitIfs
import Mathlib.Tactic.Tauto

/-! The signal mask of `apps/lib/stdlibc/signal.c`. `sigprocmask` reports the mask it has just set.
The set that it is given and the one it reports to are different ones. -/
namespace MeinOS.SigMask

/-- `sigset_t`: `sizeof(char)` is one, so a signal has a whole byte, of which the lowest bit is
used. -/
abbrev Sigset := Nat → BitVec 8

def sigaddset (set : Sigset) (sig : Nat) : Sigset :=
  if 0 < sig ∧ sig < 64 then Function.update set (sig - 1) (set (sig - 1) ||| 1) else set

def sigdelset (set : Sigset) (sig : Nat) : Sigset :=
  if 0 < sig ∧ sig < 64 then Function.update set (sig - 1) (set (sig - 1) &&& ~~~1) else set

def sigismember (set : Sigset) (sig : Nat) : Int :=
  if 0 < sig ∧ sig < 64 then (set (sig - 1) &&& 1).toNat else -1

/-- The fields `masked`, and the set that `oset` points to, if it is not `NULL`. -/
structure Masks where
  masked : Nat → Int
  oset : Option Sigset

/-- What each round does after it has changed `masked`. -/
def report (i : Nat) (m : Masks) : Masks :=
  { m with oset := m.oset.map fun oset =>
      if m.masked i ≠ 0 then sigaddset oset i else sigdelset oset i }

/-- The loops, for so many signals. -/
def walk (change : Nat → Int → Int) (m : Masks) : Nat → Masks
  | 0 => m
  | i + 1 =>
    let m := walk change m i
    report i { m with masked := Function.update m.masked i (change i (m.masked i)) }

inductive How where
  | block
  | unblock
  | setmask
  | other
  deriving DecidableEq

/-- `none` is `EINVAL`. -/
def sigprocmask (how : How) (set : Option Sigset) (m : Masks) : Option Masks :=
  match how, set with
  | .block, some set => some (walk (fun i old => if sigismember set i ≠ 0 then 1 else old) m 64)
  | .unblock, some set => some (walk (fun i old => if sigismember set i ≠ 0 then 0 else old) m 64)
  | .setmask, some set => some (walk (fun i _ => sigismember set i) m 64)
  | _, _ => if m.oset.isSome then some (walk (fun _ old => old) m 64) else none

/-- What the call is for. -/
def Wanted (how : How) (set : Sigset) (masked : Nat → Int) (sig : Nat) : Prop :=
  match how with
  | .block => masked sig ≠ 0 ∨ sigismember set sig ≠ 0
  | .unblock => masked sig ≠ 0 ∧ sigismember set sig = 0
  | .setmask => sigismember set sig ≠ 0
  | .other => masked sig ≠ 0

/-- `sigprocmask(how,set,&old)` makes the mask what is wanted and leaves the mask before the call in
`old`, with which `sigprocmask(SIG_SETMASK,&old,NULL)` restores it. -/
def SavesMask (how : How) (set oset : Sigset) (masked : Nat → Int) : Prop :=
  ∃ (after restored : Masks) (old : Sigset),
    sigprocmask how (some set) ⟨masked, some oset⟩ = some after ∧ after.oset = some old ∧
    sigprocmask .setmask (some old) ⟨after.masked, none⟩ = some restored ∧
    ∀ sig, 0 < sig → sig < 64 → (after.masked sig ≠ 0 ↔ Wanted how set masked sig) ∧
      (sigismember old sig ≠ 0 ↔ masked sig ≠ 0) ∧ (restored.masked sig ≠ 0 ↔ masked sig ≠ 0)

theorem byte_added : ∀ b : BitVec 8, (((b ||| 1) &&& 1).toNat : Int) ≠ 0 := by decide +kernel

theorem byte_deleted : ∀ b : BitVec 8, (((b &&& ~~~1) &&& 1).toNat : Int) = 0 := by decide +kernel

theorem ismember_reported {set : Sigset} {i sig : Nat} (valid : 0 < sig ∧ sig < 64) (masked : Int) :
    sigismember (if masked ≠ 0 then sigaddset set i else sigdelset set i) sig ≠ 0 ↔
      if sig = i then masked ≠ 0 else sigismember set sig ≠ 0 := by
  by_cases same : sig = i
  · subst same
    rw [if_pos rfl, sigismember, if_pos valid]
    split_ifs with nonzero
    · rw [sigaddset, if_pos valid, Function.update_self]
      exact iff_of_true (byte_added _) nonzero
    · rw [sigdelset, if_pos valid, Function.update_self]
      exact iff_of_false (not_not.mpr (byte_deleted _)) nonzero
  · have apart (b : BitVec 8) : 0 < i → Function.update set (i - 1) b (sig - 1) = set (sig - 1) := by
      intro positive
      exact Function.update_of_ne (by omega) _ _
    rw [if_neg same, sigismember, sigismember, if_pos valid, if_pos valid]
    unfold sigaddset sigdelset
    split_ifs <;> simp_all

theorem walk_masked (change : Nat → Int → Int) (m : Masks) (count i : Nat) :
    (walk change m count).masked i = if i < count then change i (m.masked i) else m.masked i := by
  induction count with
  | zero => rfl
  | succ n ih =>
    simp only [walk, report]
    by_cases same : i = n
    · subst same
      rw [Function.update_self, ih, if_neg (Nat.lt_irrefl i), if_pos (Nat.lt_succ_self i)]
    · rw [Function.update_of_ne same, ih]
      exact if_congr (by omega) rfl rfl

/-- What is reported is what the round has made of the signal. -/
theorem walk_reports (change : Nat → Int → Int) {m : Masks} {oset : Sigset} (given : m.oset = some oset)
    {count : Nat} (inside : count ≤ 64) : ∃ old, (walk change m count).oset = some old ∧
      ∀ sig, 0 < sig → sig < count → (sigismember old sig ≠ 0 ↔ change sig (m.masked sig) ≠ 0) := by
  induction count with
  | zero => exact ⟨oset, given, by omega⟩
  | succ n ih =>
    obtain ⟨old, walked, right⟩ := ih (by omega)
    refine ⟨_, congrArg (Option.map _) walked, ?_⟩
    intro sig positive less
    rw [ismember_reported ⟨positive, by omega⟩]
    split_ifs with same
    · dsimp only
      rw [Function.update_self, walk_masked, if_neg (Nat.lt_irrefl n), same]
    · exact right sig positive (by omega)

/-- Saving allows to undo the call exactly if the call changes nothing. -/
theorem sigprocmask_saves_iff (how : How) (set oset : Sigset) (masked : Nat → Int)
    (known : how ≠ .other) :
    SavesMask how set oset masked ↔
      ∀ sig, 0 < sig → sig < 64 → (Wanted how set masked sig ↔ masked sig ≠ 0) := by
  have done : ∃ change, sigprocmask how (some set) ⟨masked, some oset⟩ =
        some (walk change ⟨masked, some oset⟩ 64) ∧
      ∀ sig, change sig (masked sig) ≠ 0 ↔ Wanted how set masked sig := by
    cases how with
    | block => exact ⟨_, rfl, fun sig => by simp only [Wanted]; split_ifs <;> tauto⟩
    | unblock => exact ⟨_, rfl, fun sig => by simp only [Wanted]; split_ifs <;> tauto⟩
    | setmask => exact ⟨_, rfl, fun sig => Iff.rfl⟩
    | other => exact absurd rfl known
  obtain ⟨change, result, wanted⟩ := done
  obtain ⟨old, reported, right⟩ :=
    walk_reports change (show (Masks.mk masked (some oset)).oset = some oset from rfl) (Nat.le_refl 64)
  constructor
  · rintro ⟨after, restored, old', called, given, -, holds⟩ sig positive less
    obtain rfl : walk change ⟨masked, some oset⟩ 64 = after := Option.some.inj (result.symm.trans called)
    obtain rfl : old = old' := Option.some.inj (reported.symm.trans given)
    rw [← wanted, ← right sig positive less]
    exact (holds sig positive less).2.1
  · intro unchanged
    refine ⟨_, _, old, result, reported, rfl, ?_⟩
    intro sig positive less
    rw [walk_masked, walk_masked, if_pos less, if_pos less, right sig positive less, wanted,
      unchanged sig positive less]
    simp

/-- Blocking signals that are blocked. -/
theorem sigprocmask_saves_blocked : SavesMask .block (fun _ => 1) (fun _ => 0) fun _ => 1 :=
  (sigprocmask_saves_iff .block (fun _ => 1) (fun _ => 0) (fun _ => 1) (by decide)).mpr fun _ _ _ =>
    iff_of_true (.inl Int.one_ne_zero) Int.one_ne_zero

/-- With an empty mask, `SIG_BLOCK` reports the signals it blocks as blocked before. -/
theorem sigprocmask_reports_new : ¬ SavesMask .block (fun _ => 1) (fun _ => 0) fun _ => 0 := by
  rintro ⟨after, restored, old, called, given, -, holds⟩
  obtain rfl := Option.some.inj called
  obtain rfl := Option.some.inj given
  exact absurd (holds 1 (by decide) (by decide)).2.1 (by decide +kernel)

end MeinOS.SigMask
