import Mathlib.Tactic.Common

/-!
# Two objects under the same calls

An object is a function `step : σ → γ → σ × ρ`: a call changes its state and answers. Two objects
agree on a list of calls when they give the same answers to it. `answers_eq` is the one rule: a
relation between their states that makes the next answers equal and survives the call. A call may
come with a side condition `ok` on both states, for objects that agree only while some call is
avoided.
-/

set_option autoImplicit false

namespace Lockstep

variable {σ τ γ ρ : Type*}

/-- The state after some calls. -/
def after (step : σ → γ → σ × ρ) : σ → List γ → σ
  | s, [] => s
  | s, c :: cs => after step (step s c).1 cs

/-- The answers to some calls. -/
def answers (step : σ → γ → σ × ρ) : σ → List γ → List ρ
  | _, [] => []
  | s, c :: cs => (step s c).2 :: answers step (step s c).1 cs

/-- Every call satisfies `ok` in the two states it finds. -/
def Along (step : σ → γ → σ × ρ) (step' : τ → γ → τ × ρ) (ok : σ → τ → γ → Prop) :
    σ → τ → List γ → Prop
  | _, _, [] => True
  | s, t, c :: cs => ok s t c ∧ Along step step' ok (step s c).1 (step' t c).1 cs

instance Along.decidable (step : σ → γ → σ × ρ) (step' : τ → γ → τ × ρ) (ok : σ → τ → γ → Prop)
    [∀ s t c, Decidable (ok s t c)] : ∀ s t cs, Decidable (Along step step' ok s t cs)
  | _, _, [] => inferInstanceAs (Decidable True)
  | s, t, c :: cs =>
    haveI := Along.decidable step step' ok (step s c).1 (step' t c).1 cs
    inferInstanceAs (Decidable (_ ∧ _))

variable {step : σ → γ → σ × ρ} {step' : τ → γ → τ × ρ} {ok : σ → τ → γ → Prop}
  {R : σ → τ → Prop} {s : σ} {t : τ} {c : γ} {cs cs' : List γ}

theorem after_append : after step s (cs ++ cs') = after step (after step s cs) cs' := by
  induction cs generalizing s with
  | nil => rfl
  | cons c cs ih => exact ih

theorem answers_append :
    answers step s (cs ++ cs') = answers step s cs ++ answers step (after step s cs) cs' := by
  induction cs generalizing s with
  | nil => rfl
  | cons c cs ih => exact congrArg _ ih

/-- A condition met by some calls is met by the first of them, and by the rest. -/
theorem Along.append (h : Along step step' ok s t (cs ++ cs')) :
    Along step step' ok s t cs ∧
      Along step step' ok (after step s cs) (after step' t cs) cs' := by
  induction cs generalizing s t with
  | nil => exact ⟨trivial, h⟩
  | cons c cs ih =>
    obtain ⟨hrest, hlater⟩ := ih h.2
    exact ⟨⟨h.1, hrest⟩, hlater⟩

/-- A relation that every admissible call keeps is kept by all of them. -/
theorem related_after
    (hstep : ∀ s t c, R s t → ok s t c →
      (step s c).2 = (step' t c).2 ∧ R (step s c).1 (step' t c).1)
    (h : R s t) (hok : Along step step' ok s t cs) : R (after step s cs) (after step' t cs) := by
  induction cs generalizing s t with
  | nil => exact h
  | cons c cs ih => exact ih (hstep s t c h hok.1).2 hok.2

/-- **The simulation rule.** -/
theorem answers_eq
    (hstep : ∀ s t c, R s t → ok s t c →
      (step s c).2 = (step' t c).2 ∧ R (step s c).1 (step' t c).1)
    (h : R s t) (hok : Along step step' ok s t cs) :
    answers step s cs = answers step' t cs := by
  induction cs generalizing s t with
  | nil => rfl
  | cons c cs ih =>
    obtain ⟨hanswer, hrelated⟩ := hstep s t c h hok.1
    simp only [answers]
    rw [hanswer, ih hrelated hok.2]

end Lockstep
