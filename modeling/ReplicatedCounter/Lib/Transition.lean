import Mathlib.Tactic.Common

/-!
# Event-driven transition systems

A system here is a *function* `step : σ → ε → Option σ`: an event either fires, and then the
next state is determined, or it is not enabled. Everything nondeterministic about an execution
(who moves next, which message is delivered, which call times out) is in the event, so a run is
a list of events and can be replayed by evaluation.

`run_invariant` is the induction over a run: what every step keeps, the whole run keeps.
`meets_invariant` is the same rule for a run whose steps all satisfy a side condition `ok`, which is
how a property that only holds while some branch is avoided gets stated; by `run_iff_meets` it holds
in no other run, if no other step keeps it.
-/

set_option autoImplicit false

namespace Transition

variable {σ ε : Type*}

/-- Fire the events one after another; `none` as soon as one of them is not enabled. -/
def run (step : σ → ε → Option σ) : σ → List ε → Option σ
  | s, [] => some s
  | s, e :: es => (step s e).bind fun s' => run step s' es

/-- Every step of the run satisfies `ok` in the state it is taken from. -/
def Meets (step : σ → ε → Option σ) (ok : σ → ε → Prop) : σ → List ε → Prop
  | _, [] => True
  | s, e :: es => ok s e ∧ ∀ s', step s e = some s' → Meets step ok s' es

variable {step : σ → ε → Option σ} {ok : σ → ε → Prop} {s s' : σ} {e : ε} {es es' : List ε}

@[simp] theorem run_nil : run step s [] = some s := rfl

theorem run_cons : run step s (e :: es) = (step s e).bind fun s' => run step s' es := rfl

theorem run_cons_eq_some :
    run step s (e :: es) = some s' ↔ ∃ t, step s e = some t ∧ run step t es = some s' := by
  rw [run_cons, Option.bind_eq_some_iff]

theorem run_append : run step s (es ++ es') = (run step s es).bind fun t => run step t es' := by
  induction es generalizing s with
  | nil => rfl
  | cons e es ih =>
    simp only [List.cons_append, run_cons]
    cases step s e with
    | none => rfl
    | some t => simpa using ih

/-- A run can be cut anywhere. -/
theorem run_append_eq_some :
    run step s (es ++ es') = some s' ↔ ∃ t, run step s es = some t ∧ run step t es' = some s' := by
  rw [run_append, Option.bind_eq_some_iff]

/-- A run can be made longer. -/
theorem run_concat {t : σ} (h : run step s es = some t) (hs : step t e = some s') :
    run step s (es ++ [e]) = some s' :=
  run_append_eq_some.mpr ⟨t, h, run_cons_eq_some.mpr ⟨s', hs, rfl⟩⟩

/-- **The invariant rule.** What every step preserves, every run preserves. -/
theorem run_invariant {P : σ → Prop} (hstep : ∀ s e s', P s → step s e = some s' → P s')
    (h : run step s es = some s') (hs : P s) : P s' := by
  induction es generalizing s with
  | nil =>
    simp only [run_nil, Option.some.injEq] at h
    exact h ▸ hs
  | cons e es ih =>
    obtain ⟨t, ht, hrest⟩ := run_cons_eq_some.mp h
    exact ih hrest (hstep s e t hs ht)

/-- **The conditional invariant rule.** What every step satisfying `ok` preserves, every run
whose steps all satisfy `ok` preserves. -/
theorem meets_invariant {P : σ → Prop}
    (hstep : ∀ s e s', P s → ok s e → step s e = some s' → P s')
    (h : run step s es = some s') (hok : Meets step ok s es) (hs : P s) : P s' := by
  induction es generalizing s with
  | nil =>
    simp only [run_nil, Option.some.injEq] at h
    exact h ▸ hs
  | cons e es ih =>
    obtain ⟨t, ht, hrest⟩ := run_cons_eq_some.mp h
    exact ih hrest (hok.2 t ht) (hstep s e t hs hok.1 ht)

/-- **The exact rule.** What a step keeps exactly if it satisfies `ok`, a run keeps exactly if all
its steps do. -/
theorem run_iff_meets {I P : σ → Prop} (hI : ∀ s e s', I s → step s e = some s' → I s')
    (hstep : ∀ s e s', I s → step s e = some s' → (P s' ↔ P s ∧ ok s e))
    (h : run step s es = some s') (hs : I s) : P s' ↔ P s ∧ Meets step ok s es := by
  induction es generalizing s with
  | nil =>
    simp only [run_nil, Option.some.injEq] at h
    subst h
    exact (and_iff_left trivial).symm
  | cons e es ih =>
    obtain ⟨t, ht, hrest⟩ := run_cons_eq_some.mp h
    rw [ih hrest (hI s e t hs ht), hstep s e t hs ht, and_assoc]
    refine and_congr_right fun _ => and_congr_right fun _ => ?_
    constructor
    · intro hmeets u hu
      exact Option.some.inj (ht.symm.trans hu) ▸ hmeets
    · intro hmeets
      exact hmeets t ht

/-- **The exact rule for every state of a run.** A property may break and come back. If a step from
a state that has it leads to one that has it exactly if the step satisfies `ok`, then it holds in
every state of a run exactly if all the steps do. -/
theorem always_iff_meets {I P : σ → Prop} (hI : ∀ s e s', I s → step s e = some s' → I s')
    (hstep : ∀ s e s', I s → P s → step s e = some s' → (P s' ↔ ok s e))
    (h : run step s es = some s') (hs : I s) (hP : P s) :
    (∀ es' t, es' <+: es → run step s es' = some t → P t) ↔ Meets step ok s es := by
  induction es generalizing s with
  | nil =>
    refine iff_of_true (fun es' t hprefix hrun => ?_) trivial
    obtain rfl := List.prefix_nil.mp hprefix
    exact Option.some.inj hrun ▸ hP
  | cons e es ih =>
    obtain ⟨u, hu, hrest⟩ := run_cons_eq_some.mp h
    have hnext := hstep s e u hs hP hu
    constructor
    · intro hall
      have hPu : P u := hall [e] u (List.prefix_append [e] es)
        (run_cons_eq_some.mpr ⟨u, hu, rfl⟩)
      refine ⟨hnext.mp hPu, fun u' hu' => ?_⟩
      obtain rfl := Option.some.inj (hu.symm.trans hu')
      refine (ih hrest (hI s e u hs hu) hPu).mp fun es' t hprefix hrun => ?_
      exact hall (e :: es') t (List.cons_prefix_cons.mpr ⟨rfl, hprefix⟩)
        (run_cons_eq_some.mpr ⟨u, hu, hrun⟩)
    · intro hmeets es' t hprefix hrun
      cases es' with
      | nil => exact Option.some.inj hrun ▸ hP
      | cons e' es' =>
        obtain ⟨rfl, htail⟩ := List.cons_prefix_cons.mp hprefix
        obtain ⟨u', hu', hrun⟩ := run_cons_eq_some.mp hrun
        obtain rfl := Option.some.inj (hu.symm.trans hu')
        exact (ih hrest (hI s e' u hs hu) (hnext.mpr hmeets.1)).mpr (hmeets.2 u hu) es' t htail hrun

/-- A condition met by a run is met by its beginning, and by what follows. -/
theorem Meets.append (h : Meets step ok s (es ++ es')) (hrun : run step s es = some s') :
    Meets step ok s es ∧ Meets step ok s' es' := by
  induction es generalizing s with
  | nil =>
    simp only [run_nil, Option.some.injEq] at hrun
    exact ⟨trivial, hrun ▸ h⟩
  | cons e es ih =>
    obtain ⟨t, ht, hrest⟩ := run_cons_eq_some.mp hrun
    refine ⟨⟨h.1, fun u hu => ?_⟩, (ih (h.2 t ht) hrest).2⟩
    obtain rfl : t = u := Option.some.inj (ht.symm.trans hu)
    exact (ih (h.2 t ht) hrest).1

/-- Two conditions met by the same run. -/
theorem Meets.and {ok' : σ → ε → Prop} (h : Meets step ok s es) (h' : Meets step ok' s es) :
    Meets step (fun s e => ok s e ∧ ok' s e) s es := by
  induction es generalizing s with
  | nil => trivial
  | cons e es ih => exact ⟨⟨h.1, h'.1⟩, fun t ht => ih (h.2 t ht) (h'.2 t ht)⟩

/-- The condition met by a run that is known step by step. -/
theorem Meets.cons {t : σ} (hok : ok s e) (hs : step s e = some t) (h : Meets step ok t es) :
    Meets step ok s (e :: es) := by
  refine ⟨hok, fun u hu => ?_⟩
  obtain rfl : t = u := Option.some.inj (hs.symm.trans hu)
  exact h

instance Meets.decidable (step : σ → ε → Option σ) (ok : σ → ε → Prop)
    [∀ s e, Decidable (ok s e)] : ∀ s es, Decidable (Meets step ok s es)
  | _, [] => isTrue trivial
  | s, e :: es =>
    match hs : step s e with
    | none => decidable_of_iff (ok s e) ⟨fun h => ⟨h, fun _ hs' => absurd (hs.symm.trans hs') (by simp)⟩,
        fun h => h.1⟩
    | some t =>
      haveI := Meets.decidable step ok t es
      decidable_of_iff (ok s e ∧ Meets step ok t es) ⟨fun h => .cons h.1 hs h.2,
        fun h => ⟨h.1, h.2 t hs⟩⟩

/-- Two side conditions that agree where a run meeting the second can get are met by the same
runs. -/
theorem meets_congr {I : σ → Prop} {ok' : σ → ε → Prop} (hok : ∀ s e, I s → (ok s e ↔ ok' s e))
    (hI : ∀ s e s', I s → ok' s e → step s e = some s' → I s') (hs : I s) :
    Meets step ok s es ↔ Meets step ok' s es := by
  induction es generalizing s with
  | nil => exact Iff.rfl
  | cons e es ih =>
    constructor
    · intro h
      have hhead := (hok s e hs).mp h.1
      refine ⟨hhead, ?_⟩
      intro t ht
      exact (ih (hI s e t hs hhead ht)).mp (h.2 t ht)
    · intro h
      refine ⟨(hok s e hs).mpr h.1, ?_⟩
      intro t ht
      exact (ih (hI s e t hs h.1 ht)).mpr (h.2 t ht)

/-- A side condition on the events alone is a condition on the list. -/
theorem meets_of_mem (h : ∀ e ∈ es, ∀ t, ok t e) : Meets step ok s es := by
  induction es generalizing s with
  | nil => trivial
  | cons e es ih =>
    exact ⟨h e List.mem_cons_self s, fun _ _ => ih fun e' he' => h e' (List.mem_cons_of_mem e he')⟩

/-- A relation between the two ends of a run: reflexive, and extended by every step. -/
theorem run_relation {R : σ → σ → Prop} (hrefl : ∀ s, R s s)
    (hstep : ∀ s t e t', R s t → step t e = some t' → R s t')
    (h : run step s es = some s') : R s s' :=
  run_invariant (P := R s) (fun t e t' ht hs => hstep s t e t' ht hs) h (hrefl s)

/-! ## What is observed along a run -/

variable {ω : Type*} {obs : σ → ε → Option ω}

/-- What an observer of single steps has seen at the end of a run, in order. -/
def observed (step : σ → ε → Option σ) (obs : σ → ε → Option ω) : σ → List ε → List ω
  | _, [] => []
  | s, e :: es => (obs s e).toList ++ ((step s e).elim [] fun s' => observed step obs s' es)

/-- **The invariant rule with an observer.** -/
theorem observed_invariant {P : σ → List ω → Prop}
    (hstep : ∀ s l e s', P s l → step s e = some s' → P s' (l ++ (obs s e).toList))
    (h : run step s es = some s') (hs : P s []) : P s' (observed step obs s es) := by
  have hgeneral : ∀ l, P s l → P s' (l ++ observed step obs s es) := by
    clear hs
    induction es generalizing s with
    | nil =>
      intro l hl
      simp only [run_nil, Option.some.injEq] at h
      rw [observed, List.append_nil]
      exact h ▸ hl
    | cons e es ih =>
      intro l hl
      obtain ⟨t, ht, hrest⟩ := run_cons_eq_some.mp h
      rw [observed, ht, Option.elim_some, ← List.append_assoc]
      exact ih hrest _ (hstep s l e t hl ht)
  exact hgeneral [] hs

/-! ## Simulation -/

/-- **The simulation rule.** If a relation is carried from every step that satisfies `ok` to a step
of another system, whose event is read off the first one, or to none, it is carried along a run. -/
theorem run_simulation {τ φ : Type*} {step' : τ → φ → Option τ} {label : σ → ε → Option φ}
    {R : σ → τ → Prop} {t : τ}
    (hstep : ∀ s e s' t, R s t → ok s e → step s e = some s' →
      ∃ t', run step' t (label s e).toList = some t' ∧ R s' t')
    (h : run step s es = some s') (hok : Meets step ok s es) (hR : R s t) :
    ∃ t', run step' t (observed step label s es) = some t' ∧ R s' t' := by
  induction es generalizing s t with
  | nil =>
    simp only [run_nil, Option.some.injEq] at h
    exact ⟨t, rfl, h ▸ hR⟩
  | cons e es ih =>
    obtain ⟨u, hu, hrest⟩ := run_cons_eq_some.mp h
    obtain ⟨v, hv, hRv⟩ := hstep s e u t hR hok.1 hu
    obtain ⟨t', ht', hR'⟩ := ih hrest (hok.2 u hu) hRv
    refine ⟨t', ?_, hR'⟩
    rw [observed, hu, Option.elim_some]
    exact run_append_eq_some.mpr ⟨v, hv, ht'⟩

end Transition
