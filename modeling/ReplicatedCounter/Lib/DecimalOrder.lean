import Mathlib.Algebra.Ring.Nat
import ReplicatedCounter.Lib.Decimal
import ReplicatedCounter.Lib.PrefixScan

/-!
# Rendered numbers in lexicographic order

Decimal text without padding, compared as words. Numbers with equally many digits stand in their
order. Otherwise the longer text is cut down to the length of the shorter one: `toDigits_lt_iff`. So
9 comes behind 10, and 1 before everything that begins with it.
-/

set_option autoImplicit false

namespace Decimal

/-- How many digits a number has. -/
def digits (n : Nat) : Nat := (Nat.toDigits 10 n).length

/-- A first digit counts by its place. -/
theorem ofDigitChars_cons (c : Char) (text : List Char) :
    Nat.ofDigitChars 10 (c :: text) 0 =
      10 ^ text.length * (c.toNat - '0'.toNat) + Nat.ofDigitChars 10 text 0 := by
  rw [Nat.ofDigitChars_cons, Nat.ofDigitChars_eq_ofDigitChars_zero, Nat.mul_zero, Nat.zero_add]

theorem ofDigitChars_lt {text : List Char} (h : ∀ c ∈ text, c.isDigit = true) :
    Nat.ofDigitChars 10 text 0 < 10 ^ text.length := by
  induction text with
  | nil => simp
  | cons c text ih =>
    have hrest := ih fun c' hc' => h c' (List.mem_cons_of_mem _ hc')
    obtain ⟨hlow, hhigh⟩ := Char.isDigit_iff_toNat.mp (h c List.mem_cons_self)
    rw [ofDigitChars_cons, List.length_cons, Nat.pow_succ]
    have hdigit : c.toNat - '0'.toNat ≤ 9 := by
      have hzero : '0'.toNat = 48 := rfl
      have hnine : '9'.toNat = 57 := rfl
      omega
    calc 10 ^ text.length * (c.toNat - '0'.toNat) + Nat.ofDigitChars 10 text 0
        < 10 ^ text.length * 9 + 10 ^ text.length :=
          Nat.add_lt_add_of_le_of_lt (Nat.mul_le_mul_left _ hdigit) hrest
      _ = 10 ^ text.length * 10 := by rw [← Nat.mul_succ]

/-- **Words of digits of one length** stand in the order of their values. -/
theorem lt_iff_ofDigitChars_lt {u v : List Char} (hlength : u.length = v.length)
    (hu : ∀ c ∈ u, c.isDigit = true) (hv : ∀ c ∈ v, c.isDigit = true) :
    u < v ↔ Nat.ofDigitChars 10 u 0 < Nat.ofDigitChars 10 v 0 := by
  induction u generalizing v with
  | nil =>
    obtain rfl := List.length_eq_zero_iff.mp hlength.symm
    exact iff_of_false (List.not_lt_nil _) (Nat.lt_irrefl _)
  | cons c u ih =>
    cases v with
    | nil => exact absurd hlength (by simp)
    | cons d v =>
      have hlength' : u.length = v.length := by simpa using hlength
      have hbound := ofDigitChars_lt fun c' hc' => hu c' (List.mem_cons_of_mem _ hc')
      have hbound' := ofDigitChars_lt fun c' hc' => hv c' (List.mem_cons_of_mem _ hc')
      have hrest := ih hlength' (fun c' hc' => hu c' (List.mem_cons_of_mem _ hc'))
        fun c' hc' => hv c' (List.mem_cons_of_mem _ hc')
      have hc := (Char.isDigit_iff_toNat.mp (hu c List.mem_cons_self)).1
      have hd := (Char.isDigit_iff_toNat.mp (hv d List.mem_cons_self)).1
      have hzero : '0'.toNat = 48 := rfl
      rw [List.cons_lt_cons_iff, hrest, ofDigitChars_cons, ofDigitChars_cons, hlength']
      rw [hlength'] at hbound
      rcases lt_trichotomy c d with hcd | rfl | hcd
      · have hnat : c.toNat < d.toNat := hcd
        refine iff_of_true (.inl hcd) ?_
        calc _ < 10 ^ v.length * (c.toNat - '0'.toNat) + 10 ^ v.length :=
              Nat.add_lt_add_left hbound _
          _ = 10 ^ v.length * (c.toNat - '0'.toNat + 1) := (Nat.mul_succ _ _).symm
          _ ≤ 10 ^ v.length * (d.toNat - '0'.toNat) :=
              Nat.mul_le_mul_left _ (by omega)
          _ ≤ _ := Nat.le_add_right _ _
      · simp
      · have hnat : d.toNat < c.toNat := hcd
        refine iff_of_false (by simp [hcd.not_gt, hcd.ne']) (not_lt.mpr ?_)
        calc _ ≤ 10 ^ v.length * (d.toNat - '0'.toNat) + 10 ^ v.length :=
              Nat.add_le_add_left hbound'.le _
          _ = 10 ^ v.length * (d.toNat - '0'.toNat + 1) := (Nat.mul_succ _ _).symm
          _ ≤ 10 ^ v.length * (c.toNat - '0'.toNat) :=
              Nat.mul_le_mul_left _ (by omega)
          _ ≤ _ := Nat.le_add_right _ _

/-- The beginning of a rendered number is the number without its last digits. -/
theorem toDigits_eq_append {n k : Nat} (hk : k ≤ digits n) :
    ∃ w x, Nat.toDigits 10 n = w ++ x ∧ w.length = k ∧ x.length = digits n - k ∧
      (∀ c ∈ w, c.isDigit = true) ∧ Nat.ofDigitChars 10 w 0 = n / 10 ^ (digits n - k) := by
  refine ⟨(Nat.toDigits 10 n).take k, (Nat.toDigits 10 n).drop k, (List.take_append_drop _ _).symm,
    List.length_take_of_le hk, List.length_drop, fun c hc => isDigit_of_mem_toDigits
      (List.mem_of_mem_take hc), ?_⟩
  have hvalue := Nat.ofDigitChars_ten_toDigits (n := n)
  rw [← List.take_append_drop k (Nat.toDigits 10 n), Nat.ofDigitChars_append,
    Nat.ofDigitChars_eq_ofDigitChars_zero] at hvalue
  have hlength : ((Nat.toDigits 10 n).drop k).length = digits n - k := List.length_drop
  have hrest : Nat.ofDigitChars 10 ((Nat.toDigits 10 n).drop k) 0 < _ :=
    ofDigitChars_lt fun c hc => isDigit_of_mem_toDigits (List.mem_of_mem_drop hc)
  rw [hlength] at hvalue hrest
  have hdiv : (10 ^ (digits n - k) * Nat.ofDigitChars 10 ((Nat.toDigits 10 n).take k) 0 +
      Nat.ofDigitChars 10 ((Nat.toDigits 10 n).drop k) 0) / 10 ^ (digits n - k) =
      Nat.ofDigitChars 10 ((Nat.toDigits 10 n).take k) 0 := by
    rw [Nat.mul_add_div (Nat.pow_pos (by decide)), Nat.div_eq_of_lt hrest, Nat.add_zero]
  rw [hvalue] at hdiv
  exact hdiv.symm

/-- **Rendered numbers in lexicographic order.** The shorter one is compared with the beginning of
the longer one, and comes first if they are equal. -/
theorem toDigits_lt_iff {l n : Nat} :
    Nat.toDigits 10 l < Nat.toDigits 10 n ↔
      if digits l < digits n then l ≤ n / 10 ^ (digits n - digits l)
      else l / 10 ^ (digits l - digits n) < n := by
  split
  · rename_i hlt
    obtain ⟨w, x, happend, hw, hx, hdigit, hvalue⟩ := toDigits_eq_append hlt.le
    have hne : x ≠ [] := by
      rintro rfl
      simp at hx
      omega
    rw [happend, PrefixScan.lt_append_iff hw.symm hne, lt_iff_ofDigitChars_lt hw hdigit
      fun c hc => isDigit_of_mem_toDigits hc, hvalue, Nat.ofDigitChars_ten_toDigits, not_lt]
  · rename_i hge
    obtain ⟨w, x, happend, hw, -, hdigit, hvalue⟩ := toDigits_eq_append (not_lt.mp hge)
    rw [happend, PrefixScan.append_lt_iff hw, lt_iff_ofDigitChars_lt hw hdigit
      fun c hc => isDigit_of_mem_toDigits hc, hvalue, Nat.ofDigitChars_ten_toDigits]

theorem lt_of_digits_lt {l n : Nat} (h : digits l < digits n) : l < n := by
  have hpos : 0 < digits l := Nat.length_toDigits_pos
  have hl : l < 10 ^ digits l := (Nat.length_toDigits_le_iff (by decide) hpos).mp le_rfl
  refine hl.trans_le (not_lt.mp fun hn => ?_)
  exact absurd ((Nat.length_toDigits_le_iff (by decide) hpos).mpr hn) (not_le.mpr h)

/-- Rendering keeps the order of two numbers: the shorter one is not above the beginning of the
longer one, if it should come first, and not above it if it should come last. -/
def KeepsOrder (l n : Nat) : Prop :=
  (digits l < digits n → l ≤ n / 10 ^ (digits n - digits l)) ∧
    (digits n < digits l → n ≤ l / 10 ^ (digits l - digits n))

instance (l n : Nat) : Decidable (KeepsOrder l n) := inferInstanceAs (Decidable (_ ∧ _))

theorem keepsOrder_iff {l n : Nat} :
    KeepsOrder l n ↔ (Nat.toDigits 10 l < Nat.toDigits 10 n ↔ l < n) := by
  rw [toDigits_lt_iff]
  unfold KeepsOrder
  rcases lt_trichotomy (digits l) (digits n) with hlt | heq | hlt
  · have hln := lt_of_digits_lt hlt
    simp [hlt, hlt.not_gt, hln]
  · simp [heq]
  · have hnl := lt_of_digits_lt hlt
    simp [hlt, hlt.not_gt, hnl.not_gt]

end Decimal
