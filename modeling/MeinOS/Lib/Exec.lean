import Mathlib

/-! Kernel code that may not come back. A call either returns a value, or waits
for an interrupt whose handler continues somewhere else, or stops the machine; in
the last two cases the rest of the caller is never executed. -/
namespace MeinOS.Lib

/-- How a piece of kernel code ends, and the state it leaves behind. -/
inductive Exec (σ : Type u) (α : Type v) where
  | ret (value : α) (state : σ)
  | idle (state : σ)
  | halt (state : σ)
  deriving DecidableEq

namespace Exec

/-- The state left behind, however the code ended. -/
def state : Exec σ α → σ
  | .ret _ s => s
  | .idle s => s
  | .halt s => s

/-- The code after a call runs only when the call returns. -/
def andThen (first : Exec σ α) (rest : α → σ → Exec σ β) : Exec σ β :=
  match first with
  | .ret value s => rest value s
  | .idle s => .idle s
  | .halt s => .halt s

/-- Code that runs on a part of a larger state. -/
def within (put : σ → τ) : Exec σ α → Exec τ α
  | .ret value s => .ret value (put s)
  | .idle s => .idle (put s)
  | .halt s => .halt (put s)

@[simp] theorem state_ret (value : α) (s : σ) : (Exec.ret value s).state = s := rfl
@[simp] theorem state_idle (s : σ) : (Exec.idle s : Exec σ α).state = s := rfl
@[simp] theorem ret_andThen (value : α) (s : σ) (rest : α → σ → Exec σ β) :
    (Exec.ret value s).andThen rest = rest value s := rfl

@[simp] theorem state_within (put : σ → τ) (code : Exec σ α) :
    (code.within put).state = put code.state := by
  cases code <;> rfl

@[simp] theorem state_andThen_ret (code : Exec σ α) (value : β) :
    (code.andThen fun _ s => .ret value s).state = code.state := by
  cases code <;> rfl

/-- A fact that both parts keep is kept by their sequence. -/
theorem andThen_keeps {Inv : σ → Prop} {first : Exec σ α} {rest : α → σ → Exec σ β}
    (kept : Inv first.state)
    (keeps : ∀ value s, first = .ret value s → Inv s → Inv (rest value s).state) :
    Inv (first.andThen rest).state := by
  cases first with
  | ret value s => exact keeps value s rfl kept
  | idle | halt => exact kept

/-- How the code ends: `After` holds where it returns, `Left` where it waits. -/
def Ends (After Left : σ → Prop) : Exec σ α → Prop
  | .ret _ s => After s
  | .idle s => Left s
  | .halt _ => True

theorem Ends.andThen {Middle After Left : σ → Prop} {first : Exec σ α} {rest : α → σ → Exec σ β}
    (ended : first.Ends Middle Left)
    (ends : ∀ value s, Middle s → (rest value s).Ends After Left) :
    (first.andThen rest).Ends After Left := by
  cases first with
  | ret value s => exact ends value s ended
  | idle s => exact ended
  | halt s => trivial

theorem Ends.weaken {Middle After Left : σ → Prop} {code : Exec σ α} (ended : code.Ends Middle Left)
    (weaker : ∀ s, Middle s → After s) : code.Ends After Left := by
  cases code with
  | ret value s => exact weaker s ended
  | idle s => exact ended
  | halt s => trivial

theorem andThen_assoc (first : Exec σ α) (second : α → σ → Exec σ β) (third : β → σ → Exec σ γ) :
    (first.andThen second).andThen third =
      first.andThen fun value s => (second value s).andThen third := by
  cases first <;> rfl

/-- A list of instructions, one after the other. -/
def each (code : ι → σ → Exec σ Unit) : List ι → σ → Exec σ Unit
  | [], s => .ret () s
  | i :: rest, s => (code i s).andThen fun _ t => each code rest t

/-- Every instruction that is reached meets `guard` in the state before it. -/
def EachMet (code : ι → σ → Exec σ Unit) (guard : σ → ι → Prop) : List ι → σ → Prop
  | [], _ => True
  | i :: rest, s => guard s i ∧ match code i s with
    | .ret _ t => EachMet code guard rest t
    | _ => True

section Each
variable {code : ι → σ → Exec σ Unit} {guard : σ → ι → Prop}

instance decidableEachMet [∀ s i, Decidable (guard s i)] :
    (is : List ι) → (s : σ) → Decidable (EachMet code guard is s)
  | [], _ => isTrue trivial
  | i :: rest, s =>
    have : Decidable (match code i s with | .ret _ t => EachMet code guard rest t | _ => True) :=
      match code i s with
      | .ret _ t => decidableEachMet rest t
      | .idle _ | .halt _ => isTrue trivial
    inferInstanceAs (Decidable (guard s i ∧ _))

theorem each_met_cons {i : ι} {rest : List ι} {s : σ} : EachMet code guard (i :: rest) s ↔
    guard s i ∧ ∀ t, code i s = .ret () t → EachMet code guard rest t := by
  rw [EachMet]
  refine and_congr_right fun _ => ?_
  cases code i s <;> simp

/-- A guard that the instructions meet in any state. -/
theorem each_met_of_forall {is : List ι} {s : σ} (met : ∀ i ∈ is, ∀ s, guard s i) :
    EachMet code guard is s := by
  induction is generalizing s with
  | nil => trivial
  | cons i rest ih =>
    apply each_met_cons.mpr
    exact ⟨met i List.mem_cons_self s, fun _ _ => ih fun j later => met j (List.mem_cons_of_mem i later)⟩

/-- What every guarded instruction keeps, the list keeps. -/
theorem each_ends {Inv Left : σ → Prop} {is : List ι} {s : σ}
    (ends : ∀ s i, Inv s → guard s i → (code i s).Ends Inv Left)
    (start : Inv s) (met : EachMet code guard is s) : (each code is s).Ends Inv Left := by
  induction is generalizing s with
  | nil => exact start
  | cons i rest ih =>
    obtain ⟨now, later⟩ := each_met_cons.mp met
    have first := ends s i start now
    rw [each]
    cases ran : code i s with
    | ret value t =>
      rw [ran] at first
      exact ih first (later t ran)
    | idle t =>
      rw [ran] at first
      exact first
    | halt t => trivial

/-- What every instruction keeps, the list keeps. -/
theorem each_ends_all {Inv Left : σ → Prop} {is : List ι} {s : σ}
    (ends : ∀ s i, Inv s → (code i s).Ends Inv Left) (start : Inv s) :
    (each code is s).Ends Inv Left :=
  each_ends (fun s i held (_ : True) => ends s i held) start (each_met_of_forall fun _ _ _ => trivial)

end Each

end Exec

end MeinOS.Lib
