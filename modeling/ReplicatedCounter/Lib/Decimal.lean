import Mathlib.Data.Char
import Mathlib.Data.List.TakeWhile
import Mathlib.Logic.Function.Basic
import Mathlib.Tactic.Common

/-!
# Decimal text

`Int.repr` is `std::to_string` of an integer: an optional minus sign and the digits, without
padding. Two integers never render alike.

`readNat` and `readInt` read a number the way a checked conversion does: white space around it is
passed over, leading zeros are digits like others, and anything else is refused. They read back what
was rendered, padded or not.
-/

set_option autoImplicit false

namespace Decimal

theorem natRepr_injective {m n : Nat} (h : m.repr = n.repr) : m = n := by
  have hdigits : Nat.toDigits 10 m = Nat.toDigits 10 n := by
    rw [← Nat.toList_repr, ← Nat.toList_repr, h]
  rw [← Nat.ofDigitChars_ten_toDigits (n := m), hdigits, Nat.ofDigitChars_ten_toDigits]

/-- A minus sign is not a digit. -/
theorem natRepr_ne_neg {m n : Nat} : m.repr ≠ "-" ++ n.repr := by
  intro h
  have hmem : '-' ∈ m.repr.toList := by
    rw [h]
    simp
  rw [Nat.toList_repr] at hmem
  have hdigit := Nat.isDigit_of_mem_toDigits (by decide) (by decide) hmem
  exact absurd hdigit (by decide)

theorem intRepr_injective : Function.Injective Int.repr := by
  intro a b h
  cases a with
  | ofNat m =>
    cases b with
    | ofNat n => exact congrArg Int.ofNat (natRepr_injective h)
    | negSucc n => exact absurd h natRepr_ne_neg
  | negSucc m =>
    cases b with
    | ofNat n => exact absurd h.symm natRepr_ne_neg
    | negSucc n =>
      have hrepr : (m + 1).repr = (n + 1).repr := by
        have h' : "-" ++ (m + 1).repr = "-" ++ (n + 1).repr := h
        simpa using h'
      have hmn := natRepr_injective hrepr
      omega

/-! ## Reading -/

/-- `std::isspace`. -/
def isSpace (c : Char) : Bool := c = ' ' || ('\t' ≤ c && c ≤ '\r')

/-- Digits, at least one, and white space behind them. -/
def readDigits (text : List Char) : Option Nat :=
  if text.takeWhile Char.isDigit ≠ [] ∧ (text.dropWhile Char.isDigit).all isSpace then
    some (Nat.ofDigitChars 10 (text.takeWhile Char.isDigit) 0)
  else
    none

def readNat (text : List Char) : Option Nat := readDigits (text.dropWhile isSpace)

def readInt (text : List Char) : Option Int :=
  match text.dropWhile isSpace with
  | '-' :: rest => (readDigits rest).map fun n => -(n : Int)
  | '+' :: rest => (readDigits rest).map fun n => (n : Int)
  | rest => (readDigits rest).map fun n => (n : Int)

theorem not_isSpace_of_isDigit {c : Char} (h : c.isDigit = true) : isSpace c = false := by
  have h0 : '0' ≤ c := by
    have := (Char.isDigit_iff_toNat.mp h).1
    exact this
  have hspace : ' ' < c := lt_of_lt_of_le (by decide) h0
  have hreturn : ¬ c ≤ '\r' := not_le.mpr (lt_of_lt_of_le (by decide) h0)
  unfold isSpace
  simp [hspace.ne', hreturn]

theorem readDigits_of_digits {text : List Char} (hne : text ≠ []) (h : ∀ c ∈ text, c.isDigit = true) :
    readDigits text = some (Nat.ofDigitChars 10 text 0) := by
  have htake : text.takeWhile Char.isDigit = text := List.takeWhile_eq_self_iff.mpr h
  have hdrop : text.dropWhile Char.isDigit = [] := List.dropWhile_eq_nil_iff.mpr h
  unfold readDigits
  rw [htake, hdrop, if_pos ⟨hne, rfl⟩]

theorem isDigit_of_mem_toDigits {n : Nat} {c : Char} (h : c ∈ Nat.toDigits 10 n) : c.isDigit = true :=
  Nat.isDigit_of_mem_toDigits (by decide) (by decide) h

theorem isDigit_of_mem_leftpad {w n : Nat} {c : Char} (h : c ∈ (Nat.toDigits 10 n).leftpad w '0') :
    c.isDigit = true := by
  unfold List.leftpad at h
  rcases List.mem_append.mp h with h | h
  · rw [List.eq_of_mem_replicate h]
    decide
  · exact isDigit_of_mem_toDigits h

theorem leftpad_ne_nil {w n : Nat} : (Nat.toDigits 10 n).leftpad w '0' ≠ [] := by
  unfold List.leftpad
  simp [Nat.toDigits_ne_nil]

theorem ofDigitChars_leftpad {w n : Nat} :
    Nat.ofDigitChars 10 ((Nat.toDigits 10 n).leftpad w '0') 0 = n := by
  unfold List.leftpad
  rw [Nat.ofDigitChars_append, Nat.ofDigitChars_replicate_zero, Nat.mul_zero,
    Nat.ofDigitChars_ten_toDigits]

/-- Text of digits has no white space in front. -/
theorem dropWhile_isSpace {text : List Char} (h : ∀ c ∈ text, c.isDigit = true) :
    text.dropWhile isSpace = text := by
  cases text with
  | nil => rfl
  | cons c rest =>
    rw [List.dropWhile_cons, not_isSpace_of_isDigit (h c List.mem_cons_self)]
    rfl

/-- **A padded number is read back.** -/
theorem readNat_leftpad {w n : Nat} : readNat ((Nat.toDigits 10 n).leftpad w '0') = some n := by
  unfold readNat
  rw [dropWhile_isSpace fun c h => isDigit_of_mem_leftpad h,
    readDigits_of_digits leftpad_ne_nil fun c h => isDigit_of_mem_leftpad h, ofDigitChars_leftpad]

theorem readDigits_toDigits {n : Nat} : readDigits (Nat.toDigits 10 n) = some n := by
  rw [readDigits_of_digits Nat.toDigits_ne_nil fun c h => isDigit_of_mem_toDigits h,
    Nat.ofDigitChars_ten_toDigits]

/-- **A rendered integer is read back.** -/
theorem readInt_repr (i : Int) : readInt i.repr.toList = some i := by
  cases i with
  | ofNat n =>
    have hrepr : (Int.ofNat n).repr.toList = Nat.toDigits 10 n := Nat.toList_repr
    rw [hrepr]
    unfold readInt
    rw [dropWhile_isSpace fun c h => isDigit_of_mem_toDigits h]
    split
    · rename_i rest h
      have := isDigit_of_mem_toDigits (n := n) (c := '-') (h ▸ List.mem_cons_self)
      exact absurd this (by decide)
    · rename_i rest h
      have := isDigit_of_mem_toDigits (n := n) (c := '+') (h ▸ List.mem_cons_self)
      exact absurd this (by decide)
    · rw [readDigits_toDigits]
      rfl
  | negSucc n =>
    have hrepr : (Int.negSucc n).repr.toList = '-' :: Nat.toDigits 10 (n + 1) := by
      show ("-" ++ (n + 1).repr).toList = _
      simp
    rw [hrepr]
    unfold readInt
    rw [List.dropWhile_cons, show isSpace '-' = false by decide]
    simp only [Bool.false_eq_true, if_false]
    rw [readDigits_toDigits]
    rfl

end Decimal
