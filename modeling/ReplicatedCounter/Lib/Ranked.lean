import ReplicatedCounter.Lib.Transition

/-!
# Runs that come to an end

Some of a system's events are its `own`, and the rest come from outside. If each event of its own
brings a number down, then left to itself the system comes to rest, and the number says how soon
(`length_add_rank_le`, `exists_resting`).
-/

set_option autoImplicit false

namespace Transition

variable {σ ε : Type*} {step : σ → ε → Option σ} {own : ε → Prop} {rank : σ → Nat} {s s' : σ}
  {es : List ε}

/-- Each event of the system's own brings the rank down. -/
def Falls (step : σ → ε → Option σ) (own : ε → Prop) (rank : σ → Nat) : Prop :=
  ∀ s e s', own e → step s e = some s' → rank s' < rank s

/-- No event of the system's own is enabled. -/
def Resting (step : σ → ε → Option σ) (own : ε → Prop) (s : σ) : Prop :=
  ∀ e, own e → step s e = none

/-- A run of the system's own is no longer than the rank it uses up. -/
theorem length_add_rank_le (hfalls : Falls step own rank) (h : run step s es = some s')
    (hown : ∀ e ∈ es, own e) : es.length + rank s' ≤ rank s := by
  induction es generalizing s with
  | nil =>
    simp only [run_nil, Option.some.injEq] at h
    simp [h]
  | cons e es ih =>
    obtain ⟨t, ht, hrest⟩ := run_cons_eq_some.mp h
    have htail := ih hrest fun e' he' => hown e' (List.mem_cons_of_mem e he')
    have hhead := hfalls s e t (hown e List.mem_cons_self) ht
    rw [List.length_cons]
    omega

/-- **Left to itself, the system comes to rest.** -/
theorem exists_resting (hfalls : Falls step own rank) (s : σ) :
    ∃ es s', (∀ e ∈ es, own e) ∧ run step s es = some s' ∧ Resting step own s' := by
  -- the induction is on the rank that is left
  induction hn : rank s using Nat.strongRecOn generalizing s with
  | _ n ih =>
    by_cases hrest : Resting step own s
    · exact ⟨[], s, fun e he => absurd he List.not_mem_nil, rfl, hrest⟩
    · unfold Resting at hrest
      push Not at hrest
      obtain ⟨e, hown, henabled⟩ := hrest
      obtain ⟨t, ht⟩ := Option.ne_none_iff_exists'.mp henabled
      obtain ⟨es, s', hes, hrun, hrest⟩ := ih (rank t) (hn ▸ hfalls s e t hown ht) t rfl
      refine ⟨e :: es, s', fun e' he' => ?_, run_cons_eq_some.mpr ⟨t, ht, hrun⟩, hrest⟩
      rcases List.mem_cons.mp he' with rfl | he'
      · exact hown
      · exact hes e' he'

end Transition
