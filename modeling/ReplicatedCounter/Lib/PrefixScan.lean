import Mathlib.Data.List.Lex
import ReplicatedCounter.Lib.SortedMap

/-!
# Prefix scans

In a map whose keys are words in lexicographic order, the words with a common prefix stand together,
and the prefix itself would be the first of them. So an iterator that seeks the prefix and goes on
while it sees it meets all of them and nothing else: `scan_eq_filter`.
-/

set_option autoImplicit false

namespace PrefixScan

variable {α : Type*} [LinearOrder α]

theorem not_lt_of_prefix {p a : List α} (h : p <+: a) : ¬ a < p := by
  obtain ⟨t, rfl⟩ := h
  induction p with
  | nil => exact List.not_lt_nil _
  | cons x p ih =>
    rw [List.cons_append, List.cons_lt_cons_self]
    exact ih

/-- A word between a prefix and a word that has it has it too. -/
theorem prefix_of_between {p a b : List α} (hpa : ¬ a < p) (hab : a < b) (hb : p <+: b) :
    p <+: a := by
  induction p generalizing a b with
  | nil => exact List.nil_prefix
  | cons x p ih =>
    obtain ⟨t, rfl⟩ := hb
    rw [List.cons_append] at hab
    cases a with
    | nil => exact absurd (List.nil_lt_cons x p) hpa
    | cons y a =>
      rw [List.cons_lt_cons_iff] at hpa hab
      rcases hab with hlt | ⟨rfl, hlt⟩
      · exact absurd (.inl hlt) hpa
      · have hle : ¬ a < p := fun h => hpa (.inr ⟨rfl, h⟩)
        exact List.cons_prefix_cons.mpr ⟨rfl, ih hle hlt (List.prefix_append p t)⟩

/-- A common beginning decides nothing. -/
theorem append_lt_append_iff {p a b : List α} : p ++ a < p ++ b ↔ a < b := by
  induction p with
  | nil => rfl
  | cons x p ih =>
    rw [List.cons_append, List.cons_append, List.cons_lt_cons_self]
    exact ih

/-- Words that are not the beginnings of one another are compared by themselves. -/
theorem append_lt_append_iff_of_apart {a b x y : List α} (hab : ¬ a <+: b) (hba : ¬ b <+: a) :
    a ++ x < b ++ y ↔ a < b := by
  induction a generalizing b with
  | nil => exact absurd List.nil_prefix hab
  | cons c a ih =>
    cases b with
    | nil => exact absurd List.nil_prefix hba
    | cons d b =>
      rw [List.cons_append, List.cons_append, List.cons_lt_cons_iff, List.cons_lt_cons_iff]
      refine or_congr_right (and_congr_right fun heq => ?_)
      subst heq
      exact ih (fun h => hab (List.cons_prefix_cons.mpr ⟨rfl, h⟩))
        fun h => hba (List.cons_prefix_cons.mpr ⟨rfl, h⟩)

/-- A longer word is compared by its beginning, and is above it. -/
theorem lt_append_iff {u w x : List α} (h : u.length = w.length) (hx : x ≠ []) :
    u < w ++ x ↔ ¬ w < u := by
  induction u generalizing w with
  | nil =>
    obtain rfl := List.length_eq_zero_iff.mp h.symm
    cases x with
    | nil => exact absurd rfl hx
    | cons y x => exact iff_of_true (List.nil_lt_cons y x) (List.not_lt_nil _)
  | cons a u ih =>
    cases w with
    | nil => exact absurd h (by simp)
    | cons b w =>
      rw [List.cons_append, List.cons_lt_cons_iff, List.cons_lt_cons_iff, ih (by simpa using h)]
      rcases lt_trichotomy a b with hab | rfl | hab
      · simp [hab, hab.ne', hab.not_gt]
      · simp
      · simp [hab, hab.ne', hab.not_gt]

/-- A longer word below another is below by its beginning. -/
theorem append_lt_iff {w x v : List α} (h : w.length = v.length) : w ++ x < v ↔ w < v := by
  induction w generalizing v with
  | nil =>
    obtain rfl := List.length_eq_zero_iff.mp h.symm
    exact iff_of_false (List.not_lt_nil _) (List.not_lt_nil _)
  | cons a w ih =>
    cases v with
    | nil => exact absurd h (by simp)
    | cons b v =>
      rw [List.cons_append, List.cons_lt_cons_iff, List.cons_lt_cons_iff, ih (by simpa using h)]

end PrefixScan

namespace SortedMap

variable {α V : Type*} [LinearOrder α]

/-- `Seek(p)`, then `Next()` while the key starts with `p`. -/
def scan (m : SortedMap (List α) V) (p : List α) : List (List α × V) :=
  (m.entries.dropWhile (·.1 < p)).takeWhile fun e => p.isPrefixOf e.1

/-- Among keys that are not below the prefix, the first without it ends the run. -/
theorem takeWhile_eq_filter {p : List α} {l : List (List α × V)} (hsorted : l.Pairwise (·.1 < ·.1))
    (hge : ∀ e ∈ l, ¬ e.1 < p) :
    (l.takeWhile fun e => p.isPrefixOf e.1) = l.filter fun e => p.isPrefixOf e.1 := by
  induction l with
  | nil => rfl
  | cons e rest ih =>
    obtain ⟨hhead, hrest⟩ := List.pairwise_cons.mp hsorted
    rw [List.takeWhile_cons, List.filter_cons]
    by_cases h : p.isPrefixOf e.1
    · rw [if_pos h, if_pos h, ih hrest fun e' he' => hge e' (List.mem_cons_of_mem _ he')]
    · rw [if_neg h, if_neg h, eq_comm, List.filter_eq_nil_iff]
      intro e' he' h'
      rw [List.isPrefixOf_iff_prefix] at h h'
      exact h (PrefixScan.prefix_of_between (hge e List.mem_cons_self) (hhead e' he') h')

/-- **A prefix scan from a key with the prefix** finds the keys with it that are not below. -/
theorem takeWhile_dropWhile_eq_filter (m : SortedMap (List α) V) {p k : List α} (hk : p <+: k) :
    ((m.entries.dropWhile (·.1 < k)).takeWhile fun e => p.isPrefixOf e.1) =
      m.entries.filter fun e => ¬ e.1 < k ∧ p <+: e.1 := by
  have hdrop : m.entries.dropWhile (·.1 < k) = m.entries.filter fun e => !(decide (e.1 < k)) :=
    dropWhile_eq_filter_not (m.sorted.imp fun hlt h => by simpa using hlt.trans (of_decide_eq_true h))
  rw [hdrop, takeWhile_eq_filter (m.sorted.filter _), List.filter_filter]
  · refine List.filter_congr fun e _ => ?_
    rw [Bool.eq_iff_iff, Bool.and_eq_true, List.isPrefixOf_iff_prefix, Bool.not_eq_true',
      decide_eq_false_iff_not, decide_eq_true_iff, and_comm]
  · intro e he hlt
    have hge : ¬ e.1 < k := by simpa using (List.mem_filter.mp he).2
    exact hge (lt_of_lt_of_le hlt (not_lt.mp (PrefixScan.not_lt_of_prefix hk)))

/-- **A prefix scan finds the keys with the prefix.** -/
theorem scan_eq_filter (m : SortedMap (List α) V) (p : List α) :
    m.scan p = m.entries.filter fun e => p.isPrefixOf e.1 := by
  unfold scan
  rw [takeWhile_dropWhile_eq_filter m List.prefix_rfl]
  refine List.filter_congr fun e _ => ?_
  rw [Bool.eq_iff_iff, decide_eq_true_iff, List.isPrefixOf_iff_prefix]
  exact and_iff_right_of_imp PrefixScan.not_lt_of_prefix

theorem mem_scan {m : SortedMap (List α) V} {p k : List α} {v : V} :
    (k, v) ∈ m.scan p ↔ p <+: k ∧ m.find? k = some v := by
  rw [scan_eq_filter, List.mem_filter, List.isPrefixOf_iff_prefix, find?_eq_some, and_comm]

end SortedMap
