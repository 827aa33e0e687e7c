import Mathlib.Data.Int.Range
import Mathlib.Tactic.Common

/-!
# Runs of consecutive integers

`Int.range m n` lists `m, …, n - 1`. A sequence that is cut into consecutive pieces stays one when a
cut is moved: `Int.range_concat` adds an element at the upper end of a piece, `Int.range_cons` takes
one from the lower end.
-/

set_option autoImplicit false

namespace Int

variable {m n : ℤ}

theorem range_self (m : ℤ) : range m m = [] := by
  simp [range]

theorem range_concat (h : m ≤ n) : range m (n + 1) = range m n ++ [n] := by
  obtain ⟨k, rfl⟩ := Int.le.dest h
  have hk : (m + k + 1 - m).toNat = (m + k - m).toNat + 1 := by omega
  unfold range
  rw [hk, List.range_succ, List.map_append, List.map_singleton]
  congr 2
  omega

theorem range_cons (h : m < n) : range m n = m :: range (m + 1) n := by
  obtain ⟨k, rfl⟩ := Int.le.dest (Int.add_one_le_of_lt h)
  have hk : (m + 1 + k - m).toNat = (m + 1 + k - (m + 1)).toNat + 1 := by omega
  unfold range
  rw [hk, List.range_succ_eq_map, List.map_cons, List.map_map]
  refine congrArg₂ _ (by simp) (List.map_congr_left fun i _ => ?_)
  simp only [Function.comp_apply]
  omega

theorem length_range (m n : ℤ) : (range m n).length = (n - m).toNat := by
  simp [range]

/-- A list that begins like a range tells where the range begins. -/
theorem eq_of_range_eq_cons {a : ℤ} {l : List ℤ} (h : range m n = a :: l) :
    m < n ∧ a = m ∧ l = range (m + 1) n := by
  have hlt : m < n := by
    by_contra hle
    have : (range m n).length = 0 := by
      rw [length_range]
      omega
    rw [h] at this
    exact absurd this (by simp)
  rw [range_cons hlt] at h
  obtain ⟨rfl, rfl⟩ := List.cons.inj h
  exact ⟨hlt, rfl, rfl⟩

/-- Of two ranges with one beginning the shorter one comes first in the other. -/
theorem range_prefix {k : ℤ} (hmn : m ≤ n) (h : n ≤ k) : range m n <+: range m k := by
  obtain ⟨d, rfl⟩ := Int.le.dest h
  induction d with
  | zero => simp
  | succ d ih =>
    have hstep : range m (n + (d + 1 : ℕ)) = range m (n + d) ++ [n + d] := by
      rw [← range_concat (by omega)]
      congr 1
      omega
    rw [hstep]
    exact (ih (by omega)).trans (List.prefix_append _ _)

end Int
