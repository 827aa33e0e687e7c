import Mathlib.Data.List.Chain
import Mathlib.Logic.Relation
import Mathlib.Tactic.Common

/-!
# Links from each element to at most one other

A partial function `next : α → Option α` is a graph in which every walk is forced: of two elements
that one can reach from the same start, one is on the way to the other (`Reaches.total`). So a walk
either comes to an end, and then everything on it reaches that end, or it comes back to an element
it has passed. `Lasso` is what such a walk looks like when it is stopped at the first element seen
twice.
-/

set_option autoImplicit false

namespace Links

open Relation

variable {α : Type*} {next next' : α → Option α} {a b c x y t : α} {path : List α}

/-- `b` is the next one after `a`. -/
def Linked (next : α → Option α) (a b : α) : Prop := next a = some b

instance [DecidableEq α] (a b : α) : Decidable (Linked next a b) :=
  inferInstanceAs (Decidable (_ = _))

/-- `b` is `a`, or somewhere behind it. -/
abbrev Reaches (next : α → Option α) : α → α → Prop := ReflTransGen (Linked next)

theorem linked_unique (h : Linked next a b) (h' : Linked next a c) : b = c :=
  Option.some.inj (h.symm.trans h')

/-- Two elements on one walk: one comes behind the other. -/
theorem Reaches.total (h : Reaches next a b) (h' : Reaches next a c) :
    Reaches next b c ∨ Reaches next c b :=
  ReflTransGen.total_of_right_unique (fun _ _ _ => linked_unique) h h'

/-- Nothing comes behind an end. -/
theorem Reaches.eq_of_end (h : Reaches next a b) (ha : next a = none) : b = a := by
  rcases h.cases_head with rfl | ⟨c, hc, -⟩
  · rfl
  · exact absurd (hc.symm.trans ha) (by simp)

/-- What is on a walk that comes to an end reaches the end. -/
theorem Reaches.reaches_end (h : Reaches next a x) (hend : Reaches next a b) (hb : next b = none) :
    Reaches next x b := by
  rcases h.total hend with h | h
  · exact h
  · rw [h.eq_of_end hb]

/-! ## Walks that come back -/

/-- Going on from `a`, one comes to some element twice. -/
def Revisits (next : α → Option α) (a : α) : Prop :=
  ∃ x, Reaches next a x ∧ TransGen (Linked next) x x

/-- What is behind an element of a cycle is on the cycle. -/
theorem cycle_of_reaches (h : TransGen (Linked next) x x) (hxy : Reaches next x y) :
    TransGen (Linked next) y y := by
  induction hxy with
  | refl => exact h
  | @tail y z _ hyz ih =>
    obtain ⟨c, hyc, hcy⟩ := TransGen.head'_iff.mp ih
    obtain rfl := linked_unique hyc hyz
    exact TransGen.tail' hcy hyz

/-- A walk that comes to an end does not come back. -/
theorem not_revisits_of_end (hend : Reaches next a b) (hb : next b = none) : ¬ Revisits next a := by
  intro h
  obtain ⟨x, hax, hxx⟩ := h
  have hcycle := cycle_of_reaches hxx (hax.reaches_end hend hb)
  obtain ⟨c, hbc, -⟩ := TransGen.head'_iff.mp hcycle
  exact absurd (hbc.symm.trans hb) (by simp)

/-- The walk from `a`, stopped at the first element it comes to for the second time. -/
structure Lasso (next : α → Option α) (a : α) (walk : List α) : Prop where
  head : walk.head? = some a
  chain : walk.IsChain (Linked next)
  last_earlier : ∃ init last, walk = init ++ [last] ∧ last ∈ init ∧ init.Nodup

/-- Along a walk, every element reaches those behind it. -/
theorem pairwise_of_chain (h : path.IsChain (Linked next)) :
    path.Pairwise (TransGen (Linked next)) :=
  (h.imp fun _ _ => TransGen.single).pairwise

theorem reaches_of_chain (h : path.IsChain (Linked next)) (hhead : path.head? = some a)
    (hb : b ∈ path) : Reaches next a b := by
  cases path with
  | nil => exact absurd hb List.not_mem_nil
  | cons x rest =>
    obtain rfl := Option.some.inj hhead
    rcases List.mem_cons.mp hb with rfl | hb
    · exact .refl
    · exact ((List.pairwise_cons.mp (pairwise_of_chain h)).1 b hb).to_reflTransGen

theorem Lasso.ne_nil (h : Lasso next a path) : path ≠ [] := by
  rintro rfl
  exact absurd h.head (by simp)

theorem Lasso.revisits (h : Lasso next a path) : Revisits next a := by
  obtain ⟨init, last, rfl, hlast, -⟩ := h.last_earlier
  refine ⟨last, ?_, ?_⟩
  · exact reaches_of_chain h.chain h.head (List.mem_append_left _ hlast)
  · exact (List.pairwise_append.mp (pairwise_of_chain h.chain)).2.2 last hlast last
      List.mem_cons_self

/-- A walk can be made longer. -/
theorem chain_concat (h : (path ++ [x]).IsChain (Linked next)) (hxy : Linked next x y) :
    (path ++ [x] ++ [y]).IsChain (Linked next) := by
  rw [List.isChain_append]
  refine ⟨h, List.isChain_singleton y, ?_⟩
  intro x' hx' y' hy'
  rw [List.getLast?_concat] at hx'
  obtain rfl := Option.some.inj hx'
  obtain rfl := Option.some.inj hy'
  exact hxy

/-- A walk without repetitions, and a link from its last element back into it. -/
theorem lasso_of_link (hhead : (path ++ [x]).head? = some a)
    (hchain : (path ++ [x]).IsChain (Linked next)) (hnodup : (path ++ [x]).Nodup)
    (hxy : Linked next x y) (hy : y ∈ path ++ [x]) : Lasso next a (path ++ [x] ++ [y]) where
  head := by
    rw [List.head?_append, hhead]
    rfl
  chain := chain_concat hchain hxy
  last_earlier := ⟨path ++ [x], y, rfl, hy, hnodup⟩

/-! ## More links -/

/-- Links are added where there are none. -/
def Extends (next next' : α → Option α) : Prop := ∀ a b, Linked next a b → Linked next' a b

theorem Reaches.mono (h : Reaches next a b) (hext : Extends next next') : Reaches next' a b :=
  ReflTransGen.mono hext a b h

/-- All new links go to `t`: what reaches `t` did so before, or reached an element that has got one
of them. -/
theorem reaches_of_new_links (hnew : ∀ x y, Linked next' x y → Linked next x y ∨ y = t)
    (h : Reaches next' a t) :
    Reaches next a t ∨ ∃ w, Reaches next a w ∧ Linked next' w t ∧ ¬ Linked next w t := by
  induction h using ReflTransGen.head_induction_on with
  | refl => exact .inl .refl
  | @head a c hac _ ih =>
    rcases hnew a c hac with hold | rfl
    · rcases ih with ih | ⟨w, hw, hlink⟩
      · exact .inl (.head hold ih)
      · exact .inr ⟨w, .head hold hw, hlink⟩
    · by_cases hold : Linked next a c
      · exact .inl (.single hold)
      · exact .inr ⟨a, .refl, hac, hold⟩

/-- From `t` itself the new links are of no use. -/
theorem reaches_from_target (hnew : ∀ x y, Linked next' x y → Linked next x y ∨ y = t)
    (h : Reaches next' t b) : Reaches next t b := by
  induction h with
  | refl => exact .refl
  | @tail b c _ hbc ih =>
    rcases hnew b c hbc with hold | rfl
    · exact ih.tail hold
    · exact .refl

end Links
