import Mathlib.Data.List.Forall2

/-!
# Lists of calls that can fail

`List.mapM` and `List.foldlM` in `Except`, as a specification wants them: a list of calls returns
when every call does, and what it returns stands element by element beside what it was given.
-/

set_option autoImplicit false

namespace Fallible

universe u

variable {ε α γ : Type u} {β : Type u} {f : α → Except ε β} {g : γ → Except ε β} {l : List α}

theorem ok_bind (a : α) (f : α → Except ε β) : ((Except.ok a : Except ε α) >>= f) = f a := rfl

theorem bind_eq_ok {x : Except ε α} {b : β} :
    (x >>= f) = .ok b ↔ ∃ a, x = .ok a ∧ f a = .ok b := by
  cases x with
  | error e =>
    constructor
    · intro h
      cases h
    · rintro ⟨_, h, -⟩
      cases h
  | ok a =>
    constructor
    · intro h
      exact ⟨a, rfl, h⟩
    · rintro ⟨_, h, hf⟩
      cases h
      exact hf

theorem bind_eq_error {x : Except ε α} {e : ε} :
    (x >>= f) = .error e ↔ x = .error e ∨ ∃ a, x = .ok a ∧ f a = .error e := by
  cases x with
  | error e' =>
    constructor
    · intro h
      exact .inl (by cases h; rfl)
    · rintro (h | ⟨_, h, -⟩)
      · cases h
        rfl
      · cases h
  | ok a =>
    constructor
    · intro h
      exact .inr ⟨a, rfl, h⟩
    · rintro (h | ⟨_, h, hf⟩)
      · cases h
      · cases h
        exact hf

/-- Calls that stand beside calls with the same result. -/
theorem mapM_congr {l' : List γ} (h : List.Forall₂ (fun a c => f a = g c) l l') :
    l.mapM f = l'.mapM g := by
  induction h with
  | nil => rfl
  | cons hhead _ ih => rw [List.mapM_cons, List.mapM_cons, hhead, ih]

theorem mapM_ok {k : α → β} (h : ∀ a ∈ l, f a = .ok (k a)) : l.mapM f = .ok (l.map k) := by
  induction l with
  | nil => rfl
  | cons a l ih =>
    rw [List.mapM_cons, h a List.mem_cons_self, ih fun a' ha' => h a' (List.mem_cons_of_mem _ ha')]
    rfl

/-- Calls that all return something. -/
theorem mapM_exists {P : β → Prop} (h : ∀ a ∈ l, ∃ b, f a = .ok b ∧ P b) :
    ∃ bs, l.mapM f = .ok bs ∧ ∀ b ∈ bs, P b := by
  induction l with
  | nil => exact ⟨[], rfl, fun _ hb => absurd hb List.not_mem_nil⟩
  | cons a l ih =>
    obtain ⟨b, hb, hPb⟩ := h a List.mem_cons_self
    obtain ⟨bs, hbs, hPbs⟩ := ih fun a' ha' => h a' (List.mem_cons_of_mem _ ha')
    refine ⟨b :: bs, ?_, List.forall_mem_cons.mpr ⟨hPb, hPbs⟩⟩
    rw [List.mapM_cons, hb, hbs]
    rfl

/-- Calls that stand beside values that are there. -/
theorem mapM_eq_filterMap {k : γ → Option β} {l' : List γ}
    (h : List.Forall₂ (fun a c => ∃ b, f a = .ok b ∧ k c = some b) l l') :
    l.mapM f = .ok (l'.filterMap k) := by
  induction h with
  | nil => rfl
  | cons hb _ ih =>
    obtain ⟨b, hf, hk⟩ := hb
    rw [List.mapM_cons, hf, ih, List.filterMap_cons_some hk]
    rfl

/-- Results beside what they were made from. -/
theorem mapM_zip {bs : List β} (h : l.mapM f = .ok bs) :
    l.mapM (fun a => do return (a, ← f a)) = .ok (l.zip bs) := by
  induction l generalizing bs with
  | nil =>
    cases h
    rfl
  | cons a l ih =>
    rw [List.mapM_cons] at h
    obtain ⟨b, hb, h⟩ := bind_eq_ok.mp h
    obtain ⟨bs', hbs, h⟩ := bind_eq_ok.mp h
    cases h
    rw [List.mapM_cons, hb, ih hbs]
    rfl

theorem forall₂_of_mapM {bs : List β} (h : l.mapM f = .ok bs) :
    List.Forall₂ (fun a b => f a = .ok b) l bs := by
  induction l generalizing bs with
  | nil =>
    cases h
    exact .nil
  | cons a l ih =>
    rw [List.mapM_cons] at h
    cases ha : f a with
    | error e =>
      rw [ha] at h
      cases h
    | ok b =>
      rw [ha] at h
      cases hl : l.mapM f with
      | error e =>
        rw [hl] at h
        cases h
      | ok bs' =>
        rw [hl] at h
        cases h
        exact .cons ha (ih hl)

theorem mapM_eq_ok {bs : List β} :
    l.mapM f = .ok bs ↔ List.Forall₂ (fun a b => f a = .ok b) l bs := by
  refine ⟨forall₂_of_mapM, fun h => ?_⟩
  induction h with
  | nil => rfl
  | cons hhead _ ih =>
    rw [List.mapM_cons, hhead, ih]
    rfl

/-- Another list of calls returns the same, as far as `k` goes, if it does so call by call. -/
theorem mapM_same_iff {δ ι : Type u} {k : β → ι} {k' : δ → ι} {g : γ → Except ε δ} {bs : List β}
    (h : l.mapM f = .ok bs) {l' : List γ} :
    (∃ ds, l'.mapM g = .ok ds ∧ bs.map k = ds.map k') ↔
      List.Forall₂ (fun a c => ∃ b d, f a = .ok b ∧ g c = .ok d ∧ k b = k' d) l l' := by
  rw [mapM_eq_ok] at h
  simp only [mapM_eq_ok]
  induction h generalizing l' with
  | nil =>
    constructor
    · rintro ⟨ds, hds, hnil⟩
      obtain rfl := List.map_eq_nil_iff.mp hnil.symm
      cases hds
      exact .nil
    · intro hl
      cases hl
      exact ⟨[], .nil, rfl⟩
  | cons hhead _ ih =>
    constructor
    · rintro ⟨ds, hds, hsame⟩
      cases hds with
      | nil => cases hsame
      | cons hd hds =>
        obtain ⟨hk, hrest⟩ := List.cons.inj hsame
        exact .cons ⟨_, _, hhead, hd, hk⟩ (ih.mp ⟨_, hds, hrest⟩)
    · intro hl
      cases hl with
      | cons hc hl =>
        obtain ⟨b, d, hb, hd, hk⟩ := hc
        obtain ⟨ds, hds, hsame⟩ := ih.mpr hl
        cases hhead.symm.trans hb
        exact ⟨d :: ds, .cons hd hds, by rw [List.map_cons, List.map_cons, hk, hsame]⟩

/-- If a call can only return one value, the list of calls can only return these. -/
theorem eq_map_of_mapM {k : α → β} {bs : List β} (h : l.mapM f = .ok bs)
    (hf : ∀ a ∈ l, ∀ b, f a = .ok b → b = k a) : bs = l.map k := by
  have hcalls := forall₂_of_mapM h
  clear h
  induction hcalls with
  | nil => rfl
  | cons hhead _ ih =>
    rw [List.map_cons, hf _ List.mem_cons_self _ hhead,
      ih fun a ha => hf a (List.mem_cons_of_mem _ ha)]

theorem exists_of_forall₂_right {R : α → β → Prop} {bs : List β} {b : β}
    (h : List.Forall₂ R l bs) (hb : b ∈ bs) : ∃ a ∈ l, R a b := by
  induction h with
  | nil => exact absurd hb List.not_mem_nil
  | cons hhead _ ih =>
    rcases List.mem_cons.mp hb with rfl | hb
    · exact ⟨_, List.mem_cons_self, hhead⟩
    · obtain ⟨a, ha, heq⟩ := ih hb
      exact ⟨a, List.mem_cons_of_mem _ ha, heq⟩

theorem exists_of_forall₂_left {R : α → β → Prop} {bs : List β} {a : α}
    (h : List.Forall₂ R l bs) (ha : a ∈ l) : ∃ b ∈ bs, R a b :=
  exists_of_forall₂_right h.flip ha

/-- What the list of calls returns comes from a call. -/
theorem exists_of_mem_mapM {bs : List β} {b : β} (h : l.mapM f = .ok bs) (hb : b ∈ bs) :
    ∃ a ∈ l, f a = .ok b :=
  exists_of_forall₂_right (R := fun a b => f a = .ok b) (forall₂_of_mapM h) hb

/-- A list of calls that returns has something of every call. -/
theorem exists_of_mem_mapM_left {bs : List β} {a : α} (h : l.mapM f = .ok bs) (ha : a ∈ l) :
    ∃ b ∈ bs, f a = .ok b :=
  exists_of_forall₂_left (R := fun a b => f a = .ok b) (forall₂_of_mapM h) ha

/-- If the list of calls fails, one of them does. -/
theorem exists_of_mapM_error {e : ε} (h : l.mapM f = .error e) : ∃ a ∈ l, f a = .error e := by
  induction l with
  | nil => cases h
  | cons a l ih =>
    rw [List.mapM_cons] at h
    cases ha : f a with
    | error e' =>
      rw [ha] at h
      cases h
      exact ⟨a, List.mem_cons_self, ha⟩
    | ok b =>
      rw [ha] at h
      cases hl : l.mapM f with
      | error e' =>
        rw [hl] at h
        cases h
        obtain ⟨a', ha', heq⟩ := ih hl
        exact ⟨a', List.mem_cons_of_mem _ ha', heq⟩
      | ok bs =>
        rw [hl] at h
        cases h

/-- Two lists of calls, the second one of what the first one returns. -/
theorem mapM_bind {δ : Type u} {f : α → Except ε γ} {h : γ → Except ε δ} {ds : List δ} :
    l.mapM (fun a => f a >>= h) = .ok ds ↔ ∃ cs, l.mapM f = .ok cs ∧ cs.mapM h = .ok ds := by
  induction l generalizing ds with
  | nil =>
    constructor
    · intro hds
      exact ⟨[], rfl, hds⟩
    · rintro ⟨cs, hcs, hds⟩
      cases hcs
      exact hds
  | cons a l ih =>
    constructor
    · intro hds
      rw [List.mapM_cons] at hds
      obtain ⟨d, hd, hds⟩ := bind_eq_ok.mp hds
      obtain ⟨c, hc, hd⟩ := bind_eq_ok.mp hd
      obtain ⟨ds', hds', hds⟩ := bind_eq_ok.mp hds
      obtain ⟨cs, hcs, hds'⟩ := ih.mp hds'
      refine ⟨c :: cs, ?_, ?_⟩
      · rw [List.mapM_cons, hc, hcs]
        rfl
      · rw [List.mapM_cons, hd, hds']
        exact hds
    · rintro ⟨cs, hcs, hds⟩
      rw [List.mapM_cons] at hcs
      obtain ⟨c, hc, hcs⟩ := bind_eq_ok.mp hcs
      obtain ⟨cs', hcs', hcs⟩ := bind_eq_ok.mp hcs
      cases hcs
      rw [List.mapM_cons] at hds
      obtain ⟨d, hd, hds⟩ := bind_eq_ok.mp hds
      obtain ⟨ds', hds', hds⟩ := bind_eq_ok.mp hds
      cases hds
      rw [List.mapM_cons, ih.mpr ⟨cs', hcs', hds'⟩, hc]
      show (h c >>= _) = _
      rw [hd]
      rfl

/-- A step that returns is done. -/
theorem foldlM_cons_ok {step : β → α → Except ε β} {b b' : β} {a : α} (h : step b a = .ok b')
    (l : List α) : (a :: l).foldlM step b = l.foldlM step b' := by
  rw [List.foldlM_cons, h]
  rfl

/-- What every call of a run keeps, the run keeps. -/
theorem foldlM_invariant {P : β → Prop} {step : β → α → Except ε β}
    (hstep : ∀ b a b', P b → step b a = .ok b' → P b') {b b' : β} (hb : P b)
    (hrun : l.foldlM step b = .ok b') : P b' := by
  induction l generalizing b with
  | nil =>
    cases hrun
    exact hb
  | cons a l ih =>
    rw [List.foldlM_cons] at hrun
    obtain ⟨b₁, hcall, hrest⟩ := bind_eq_ok.mp hrun
    exact ih (hstep b a b₁ hb hcall) hrest

/-- Where a step is a call and then something that never fails, the calls come first. -/
theorem foldlM_eq_ok_iff {step : β → α → Except ε β} {read : α → Except ε γ} {put : β → γ → β}
    (hstep : ∀ b a, step b a = read a >>= fun c => .ok (put b c)) {b b' : β} :
    l.foldlM step b = .ok b' ↔ ∃ cs, l.mapM read = .ok cs ∧ b' = cs.foldl put b := by
  induction l generalizing b with
  | nil =>
    constructor
    · intro h
      cases h
      exact ⟨[], rfl, rfl⟩
    · rintro ⟨cs, h, rfl⟩
      cases h
      rfl
  | cons a l ih =>
    rw [List.foldlM_cons, hstep, List.mapM_cons]
    constructor
    · intro h
      obtain ⟨b₁, hcall, h⟩ := bind_eq_ok.mp h
      obtain ⟨c, hread, hcall⟩ := bind_eq_ok.mp hcall
      cases hcall
      obtain ⟨cs, hcs, rfl⟩ := ih.mp h
      refine ⟨c :: cs, ?_, rfl⟩
      rw [hread, hcs]
      rfl
    · rintro ⟨cs, h, rfl⟩
      obtain ⟨c, hread, h⟩ := bind_eq_ok.mp h
      obtain ⟨cs', hcs, h⟩ := bind_eq_ok.mp h
      cases h
      rw [hread]
      exact ih.mpr ⟨cs', hcs, rfl⟩

/-- Calls in groups. -/
theorem mapM_flatten {ls : List (List α)} {bs : List β} :
    ls.flatten.mapM f = .ok bs ↔ ∃ bss, ls.mapM (List.mapM f) = .ok bss ∧ bs = bss.flatten := by
  induction ls generalizing bs with
  | nil =>
    constructor
    · intro hbs
      cases hbs
      exact ⟨[], rfl, rfl⟩
    · rintro ⟨bss, hbss, rfl⟩
      cases hbss
      rfl
  | cons l ls ih =>
    rw [List.flatten_cons, List.mapM_append]
    constructor
    · intro hbs
      obtain ⟨front, hfront, hbs⟩ := bind_eq_ok.mp hbs
      obtain ⟨rest, hrest, hbs⟩ := bind_eq_ok.mp hbs
      cases hbs
      obtain ⟨bss, hbss, rfl⟩ := ih.mp hrest
      refine ⟨front :: bss, ?_, rfl⟩
      rw [List.mapM_cons, hfront, hbss]
      rfl
    · rintro ⟨bss, hbss, rfl⟩
      rw [List.mapM_cons] at hbss
      obtain ⟨front, hfront, hbss⟩ := bind_eq_ok.mp hbss
      obtain ⟨bss', hbss', hbss⟩ := bind_eq_ok.mp hbss
      cases hbss
      rw [hfront, ih.mpr ⟨bss', hbss', rfl⟩]
      rfl

/-! ## How calls fail -/

/-- If the call fails, it is with such an error. -/
def FailsOnly (P : ε → Prop) (x : Except ε α) : Prop := ∀ e, x = .error e → P e

variable {P : ε → Prop}

theorem failsOnly_ok (a : α) : FailsOnly P (.ok a : Except ε α) := by
  intro e he
  cases he

theorem failsOnly_error {e : ε} (he : P e) : FailsOnly P (.error e : Except ε α) := by
  intro e' he'
  cases he'
  exact he

theorem FailsOnly.bind {x : Except ε α} (hx : FailsOnly P x) (hf : ∀ a, FailsOnly P (f a)) :
    FailsOnly P (x >>= f) := by
  intro e he
  rcases bind_eq_error.mp he with herror | ⟨a, -, herror⟩
  · exact hx e herror
  · exact hf a e herror

theorem failsOnly_mapM (hf : ∀ a ∈ l, FailsOnly P (f a)) : FailsOnly P (l.mapM f) := by
  intro e he
  obtain ⟨a, ha, herror⟩ := exists_of_mapM_error he
  exact hf a ha e herror

theorem failsOnly_foldlM {step : β → α → Except ε β} (hstep : ∀ b a, FailsOnly P (step b a)) (b : β) :
    FailsOnly P (l.foldlM step b) := by
  induction l generalizing b with
  | nil => exact failsOnly_ok b
  | cons a l ih =>
    rw [List.foldlM_cons]
    exact (hstep b a).bind ih

end Fallible
