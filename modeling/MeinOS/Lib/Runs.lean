import Mathlib

/-! Runs of a partial step function. A system is given by `step`, which is
`none` where an event cannot happen; a run is a list of events. The two rules
carry a fact along a whole run, the second one for runs whose steps all meet a
guard on the state before the step. -/
namespace MeinOS.Lib.Runs

/-- The state after a list of events, if every one of them can happen. -/
def run (step : σ → ε → Option σ) : σ → List ε → Option σ
  | s, [] => some s
  | s, e :: es => (step s e).bind fun t => run step t es

/-- What can be decided of the end of a run is decided by running. -/
instance decidableReached {o : Option σ} {P : σ → Prop} [∀ s, Decidable (P s)] :
    Decidable (∃ s, o = some s ∧ P s) :=
  match o with
  | none => isFalse (by simp)
  | some s => decidable_of_iff (P s) (by simp)

/-- What is found of the end of a run, and what follows from that. -/
theorem reached_of {o : Option σ} {P Q : σ → Prop} (found : ∃ s, o = some s ∧ P s)
    (follows : ∀ s, o = some s → P s → Q s) : ∃ s, o = some s ∧ Q s := by
  obtain ⟨s, ran, met⟩ := found
  exact ⟨s, ran, follows s ran met⟩

/-- A step that can happen only under a condition. -/
def onlyIf (p : Prop) [Decidable p] (next : σ) : Option σ := if p then some next else none

theorem onlyIf_eq_some {p : Prop} [Decidable p] {next t : σ} (ran : onlyIf p next = some t) :
    p ∧ next = t := by
  obtain ⟨met, same⟩ := Option.ite_none_right_eq_some.mp ran
  exact ⟨met, Option.some.inj same⟩

/-- Every event of the run meets `guard` in the state it happens in. -/
def Along (step : σ → ε → Option σ) (guard : σ → ε → Prop) : σ → List ε → Prop
  | _, [] => True
  | s, e :: es => guard s e ∧ match step s e with
    | none => True
    | some t => Along step guard t es

variable {step : σ → ε → Option σ} {guard : σ → ε → Prop}

instance decidableAlong [∀ s e, Decidable (guard s e)] :
    (s : σ) → (es : List ε) → Decidable (Along step guard s es)
  | _, [] => isTrue trivial
  | s, e :: es =>
    have : Decidable (match step s e with | none => True | some t => Along step guard t es) :=
      match step s e with
      | none => isTrue trivial
      | some t => decidableAlong t es
    inferInstanceAs (Decidable (guard s e ∧ _))

theorem along_cons {s : σ} {e : ε} {es : List ε} : Along step guard s (e :: es) ↔
    guard s e ∧ ∀ t, step s e = some t → Along step guard t es := by
  rw [Along]
  refine and_congr_right fun _ => ?_
  cases step s e <;> simp

/-- Two guards along a run are one. -/
theorem along_and {guard' : σ → ε → Prop} (met : Along step guard s es) (also : Along step guard' s es) :
    Along step (fun s e => guard s e ∧ guard' s e) s es := by
  induction es generalizing s with
  | nil => trivial
  | cons e es ih =>
    obtain ⟨now, later⟩ := along_cons.mp met
    obtain ⟨now', later'⟩ := along_cons.mp also
    exact along_cons.mpr ⟨⟨now, now'⟩, fun t ran => ih (later t ran) (later' t ran)⟩

@[simp] theorem run_nil (s : σ) : run step s [] = some s := rfl

theorem run_cons (s : σ) (e : ε) (es : List ε) :
    run step s (e :: es) = (step s e).bind fun t => run step t es := rfl

theorem run_cons_some {s t : σ} {e : ε} {es : List ε} (ran : run step s (e :: es) = some t) :
    ∃ m, step s e = some m ∧ run step m es = some t :=
  Option.bind_eq_some_iff.mp ran

/-- A run splits at any point into two runs. -/
theorem run_append (s : σ) (es fs : List ε) :
    run step s (es ++ fs) = (run step s es).bind fun t => run step t fs := by
  induction es generalizing s with
  | nil => rfl
  | cons e es ih =>
    simp only [List.cons_append, run_cons, Option.bind_assoc]
    exact congrArg _ (funext ih)

/-- A guard that the events meet in any state holds along their run. -/
theorem along_of_forall {s : σ} {es : List ε} (met : ∀ e ∈ es, ∀ s, guard s e) :
    Along step guard s es := by
  induction es generalizing s with
  | nil => trivial
  | cons e es ih =>
    rw [along_cons]
    exact ⟨met e List.mem_cons_self s, fun _ _ => ih fun f later => met f (List.mem_cons_of_mem e later)⟩

section
variable {Inv : σ → Prop} {es : List ε}

/-- What every guarded step keeps, every guarded run keeps. -/
theorem run_guarded {s t : σ} (keeps : ∀ s e t, Inv s → guard s e → step s e = some t → Inv t)
    (start : Inv s) (met : Along step guard s es) (ran : run step s es = some t) : Inv t := by
  induction es generalizing s with
  | nil => cases ran; exact start
  | cons e es ih =>
    obtain ⟨next, stepped, rest⟩ := run_cons_some ran
    have both := along_cons.mp met
    exact ih (keeps s e next start both.1 stepped) (both.2 next stepped) rest

/-- A guarded run goes through, if from the invariant every guarded step can happen. -/
theorem guarded_total {s : σ} (goes : ∀ s e, Inv s → guard s e → ∃ t, step s e = some t ∧ Inv t)
    (start : Inv s) (met : Along step guard s es) : ∃ t, run step s es = some t ∧ Inv t := by
  induction es generalizing s with
  | nil => exact ⟨s, rfl, start⟩
  | cons e es ih =>
    obtain ⟨now, later⟩ := along_cons.mp met
    obtain ⟨next, stepped, kept⟩ := goes s e start now
    obtain ⟨last, ran, holds⟩ := ih kept (later next stepped)
    exact ⟨last, by rw [run_cons, stepped]; exact ran, holds⟩

/-- An invariant of the guarded steps may be used to derive another guard along the run. -/
theorem Along.derive {guard' : σ → ε → Prop} {s : σ}
    (derives : ∀ s e, Inv s → guard s e → guard' s e)
    (keeps : ∀ s e t, Inv s → guard s e → step s e = some t → Inv t) (start : Inv s)
    (met : Along step guard s es) : Along step guard' s es := by
  induction es generalizing s with
  | nil => trivial
  | cons e es ih =>
    obtain ⟨now, later⟩ := along_cons.mp met
    exact along_cons.mpr
      ⟨derives s e start now, fun t ran => ih (keeps s e t start now ran) (later t ran)⟩

theorem Along.mono {guard' : σ → ε → Prop} (weaker : ∀ s e, guard s e → guard' s e)
    (met : Along step guard s es) : Along step guard' s es :=
  met.derive (fun s e (_ : True) => weaker s e) (fun _ _ _ _ _ _ => trivial) trivial

/-- What every step keeps, every run keeps. -/
theorem run_invariant {s t : σ} (keeps : ∀ s e t, Inv s → step s e = some t → Inv t) (start : Inv s)
    (ran : run step s es = some t) : Inv t :=
  run_guarded (fun s e t holds (_ : True) => keeps s e t holds) start
    (along_of_forall fun _ _ _ => trivial) ran

end

/-- `Good` holds in every state that a run passes through. -/
def Throughout (step : σ → ε → Option σ) (Good : σ → Prop) (s : σ) (es : List ε) : Prop :=
  ∀ before m, before <+: es → run step s before = some m → Good m

theorem along_part {s : σ} {es fs : List ε} (part : fs <+: es) (met : Along step guard s es) :
    Along step guard s fs := by
  induction fs generalizing s es with
  | nil => trivial
  | cons e fs ih =>
    obtain ⟨rest, rfl⟩ := part
    obtain ⟨now, later⟩ := along_cons.mp met
    exact along_cons.mpr ⟨now, fun t ran => ih (List.prefix_append fs rest) (later t ran)⟩

/-- A guarded run passes through good states only, if guarded steps keep an invariant that
is good. -/
theorem guarded_throughout {Inv Good : σ → Prop} {s : σ} {es : List ε}
    (good : ∀ s, Inv s → Good s)
    (keeps : ∀ s e t, Inv s → guard s e → step s e = some t → Inv t)
    (start : Inv s) (met : Along step guard s es) : Throughout step Good s es := by
  intro before m part reached
  exact good m (run_guarded keeps start (along_part part met) reached)

section
variable {Inv Good : σ → Prop} (goes : ∀ s e, Inv s → guard s e → ∃ t, step s e = some t ∧ Inv t)
include goes

theorem keeps_of_goes (s : σ) (e : ε) (t : σ) (holds : Inv s) (now : guard s e)
    (stepped : step s e = some t) : Inv t := by
  obtain ⟨next, same, kept⟩ := goes s e holds now
  cases stepped.symm.trans same
  exact kept

/-- Where guarded steps can happen and keep an invariant that is good, a guarded run goes through
and passes through good states only. -/
theorem guarded_run {s : σ} {es : List ε} (good : ∀ s, Inv s → Good s) (start : Inv s)
    (met : Along step guard s es) : (∃ t, run step s es = some t) ∧ Throughout step Good s es := by
  obtain ⟨last, ran, -⟩ := guarded_total goes start met
  exact ⟨⟨last, ran⟩, guarded_throughout good (keeps_of_goes goes) start met⟩

end

theorem throughout_cons {Good : σ → Prop} {s next : σ} {e : ε} {es : List ε}
    (first : step s e = some next) :
    Throughout step Good s (e :: es) ↔ Good s ∧ Throughout step Good next es := by
  constructor
  · intro holds
    refine ⟨holds [] s List.nil_prefix rfl, fun before m part reached => ?_⟩
    refine holds (e :: before) m ((List.prefix_cons_inj e).mpr part) ?_
    rw [run_cons, first]
    exact reached
  · rintro ⟨here, later⟩ before m part reached
    cases before with
    | nil =>
      cases reached
      exact here
    | cons other before =>
      obtain ⟨rfl, tail⟩ := List.cons_prefix_cons.mp part
      rw [run_cons, first] at reached
      exact later before m tail reached

/-- If guarded steps keep an invariant that is good, and the first unguarded step from it leads to
a bad state, then exactly the guarded runs stay good, among those that meet `side` all along. -/
theorem throughout_iff_along_where {Inv Good : σ → Prop} {side : σ → ε → Prop} {s t : σ} {es : List ε}
    (good : ∀ s, Inv s → Good s)
    (keeps : ∀ s e t, Inv s → side s e → guard s e → step s e = some t → Inv t)
    (breaks : ∀ s e t, Inv s → side s e → ¬ guard s e → step s e = some t → ¬ Good t)
    (start : Inv s) (also : Along step side s es) (ran : run step s es = some t) :
    Throughout step Good s es ↔ Along step guard s es := by
  induction es generalizing s with
  | nil =>
    refine ⟨fun _ => trivial, fun _ before m part reached => ?_⟩
    rw [List.prefix_nil.mp part] at reached
    cases reached
    exact good s start
  | cons e es ih =>
    obtain ⟨next, first, rest⟩ := run_cons_some ran
    obtain ⟨here, there⟩ := along_cons.mp also
    have tail := there next first
    rw [throughout_cons first, along_cons]
    constructor
    · rintro ⟨-, later⟩
      have met : guard s e := by
        by_contra unmet
        exact breaks s e next start here unmet first (later [] next List.nil_prefix rfl)
      refine ⟨met, fun m stepped => ?_⟩
      cases first.symm.trans stepped
      exact (ih (keeps s e next start here met first) tail rest).mp later
    · rintro ⟨met, later⟩
      exact ⟨good s start, (ih (keeps s e next start here met first) tail rest).mpr (later next first)⟩

theorem throughout_iff_along {Inv Good : σ → Prop} {s t : σ} {es : List ε}
    (good : ∀ s, Inv s → Good s)
    (keeps : ∀ s e t, Inv s → guard s e → step s e = some t → Inv t)
    (breaks : ∀ s e t, Inv s → ¬ guard s e → step s e = some t → ¬ Good t)
    (start : Inv s) (ran : run step s es = some t) :
    Throughout step Good s es ↔ Along step guard s es := by
  have always : Along step (fun _ _ => True) s es := along_of_forall fun _ _ _ => trivial
  refine throughout_iff_along_where good ?_ ?_ start always ran
  · exact fun s e t holds _ => keeps s e t holds
  · exact fun s e t holds _ => breaks s e t holds

/-- Two systems in lockstep: where every guarded step of the first is answered by a step of the
second with the same event that keeps `Rel`, so is every guarded run. -/
theorem lockstep {step' : τ → ε → Option τ} {Rel : σ → τ → Prop} {s s' : σ} {t : τ} {es : List ε}
    (answers : ∀ s t e next, Rel s t → guard s e → step s e = some next →
      ∃ next', step' t e = some next' ∧ Rel next next')
    (start : Rel s t) (met : Along step guard s es) (ran : run step s es = some s') :
    ∃ t', run step' t es = some t' ∧ Rel s' t' := by
  induction es generalizing s t with
  | nil =>
    cases ran
    exact ⟨t, rfl, start⟩
  | cons e es ih =>
    obtain ⟨next, stepped, rest⟩ := run_cons_some ran
    obtain ⟨now, later⟩ := along_cons.mp met
    obtain ⟨next', answered, related⟩ := answers s t e next start now stepped
    obtain ⟨t', ran', last⟩ := ih related (later next stepped) rest
    exact ⟨t', by rw [run_cons, answered]; exact ran', last⟩

end MeinOS.Lib.Runs
