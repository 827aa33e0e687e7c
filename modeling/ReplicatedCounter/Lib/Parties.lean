import Mathlib.Logic.Function.Basic
import Mathlib.Tactic.Common

/-!
# Many parties, one of which moves

The parties of a system are a type `ι`, and what each of them has in hand is a partial function on
it. A step replaces the value at one key (`Function.update`): `eq_some_of_update` says what is found
afterwards, and `update_eq_some` what is still there. A group of two or three parties is a `Fin`.
-/

set_option autoImplicit false

namespace Parties

-- Constants, so that a numeral for a member of a small group has no proof of its own inside.
instance neZeroTwo : @NeZero Nat Zero.ofOfNat0 2 := ⟨by decide⟩

instance neZeroThree : @NeZero Nat Zero.ofOfNat0 3 := ⟨by decide⟩

variable {ι σ : Type*} [DecidableEq ι] {f : ι → Option σ} {i j : ι} {x y : σ}

/-- An updated map holds the new value, or an old one under another key. -/
theorem eq_of_update {x : Option σ} (h : Function.update f i x j = some y) :
    (j = i ∧ x = some y) ∨ (j ≠ i ∧ f j = some y) := by
  by_cases hj : j = i
  · subst hj
    rw [Function.update_self] at h
    exact .inl ⟨rfl, h⟩
  · rw [Function.update_of_ne hj] at h
    exact .inr ⟨hj, h⟩

theorem eq_some_of_update (h : Function.update f i (some x) j = some y) :
    (j = i ∧ y = x) ∨ (j ≠ i ∧ f j = some y) := by
  rcases eq_of_update h with ⟨rfl, hx⟩ | hold
  · exact .inl ⟨rfl, (Option.some.inj hx).symm⟩
  · exact .inr hold

/-- A key that was not there takes nothing away. -/
theorem update_eq_some (hi : f i = none) (hj : f j = some y) :
    Function.update f i (some x) j = some y := by
  rw [Function.update_of_ne]
  · exact hj
  · rintro rfl
    exact absurd (hi.symm.trans hj) (by simp)

end Parties
