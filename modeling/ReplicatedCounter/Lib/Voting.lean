import Mathlib.Data.Finset.Card
import Mathlib.Data.Fintype.Card
import Mathlib.Order.Basic

/-!
# Quorums and ballot voting

The mathematics a quorum protocol rests on, with no protocol in it.

* `Majority` — more than half of the members of a finite type, and the one fact ever used of
  it: two majorities meet (`Majority.inter`).
* `Record` — which acceptor voted for which value in which ballot, and the ballot below which an
  acceptor has promised to stay silent. A value is `Chosen` at a ballot when a quorum voted for
  it there and `Choosable` when that may still come to pass. `SafeAt b w` says that below `b`
  nothing but `w` is choosable any more.

The two theorems that matter are `safeAt_of_highest` — a proposer that hears from a quorum and
takes over the highest vote it is told about proposes a safe value — and `eq_of_chosen_of_vote`
— if every vote is cast for a safe value, no vote ever disagrees with a choice below it.
-/

set_option autoImplicit false

namespace Voting

/-! ## Majorities -/

/-- More than half of the members of `ι`. -/
def Majority {ι : Type*} [Fintype ι] (M : Finset ι) : Prop := Fintype.card ι < 2 * M.card

instance {ι : Type*} [Fintype ι] (M : Finset ι) : Decidable (Majority M) :=
  inferInstanceAs (Decidable (_ < _))

/-- `n / 2 + 1` members out of `n` are a majority. -/
theorem majority_of_le {ι : Type*} [Fintype ι] {M : Finset ι}
    (h : Fintype.card ι / 2 + 1 ≤ M.card) : Majority M := by
  unfold Majority
  omega

/-- **Two majorities have a member in common.** -/
theorem Majority.inter {ι : Type*} [Fintype ι] [DecidableEq ι] {M M' : Finset ι}
    (h : Majority M) (h' : Majority M') : ∃ i, i ∈ M ∧ i ∈ M' := by
  have hlt : (Finset.univ : Finset ι).card < M.card + M'.card := by
    unfold Majority at h h'
    rw [Finset.card_univ]
    omega
  obtain ⟨i, hi⟩ := Finset.inter_nonempty_of_card_lt_card_add_card
    (Finset.subset_univ M) (Finset.subset_univ M') hlt
  exact ⟨i, Finset.mem_inter.mp hi⟩

/-! ## Votes and promises -/

variable {A B V : Type*} [LinearOrder B]

/-- A family of sets any two of which meet. -/
structure QuorumSystem (A : Type*) where
  IsQuorum : Set A → Prop
  inter : ∀ {Q Q' : Set A}, IsQuorum Q → IsQuorum Q' → (Q ∩ Q').Nonempty

/-- The quorum system in which only the whole of `S` decides, and the empty set never does. -/
def QuorumSystem.unanimous (S : Set A) : QuorumSystem A where
  IsQuorum Q := Q = S ∧ S.Nonempty
  inter := by
    rintro _ _ ⟨rfl, hS⟩ ⟨rfl, -⟩
    simpa using hS

/-- The quorum system in which any `m` acceptors decide, for an `m` above one half. -/
def QuorumSystem.atLeast [Fintype A] [DecidableEq A] {m : Nat} (hm : Fintype.card A < 2 * m) :
    QuorumSystem A where
  IsQuorum Q := ∃ M : Finset A, m ≤ M.card ∧ ∀ a ∈ M, a ∈ Q
  inter := by
    rintro Q Q' ⟨M, hM, hsub⟩ ⟨M', hM', hsub'⟩
    have hmajority : Majority M := by unfold Majority; omega
    have hmajority' : Majority M' := by unfold Majority; omega
    obtain ⟨a, ha, ha'⟩ := hmajority.inter hmajority'
    exact ⟨a, hsub a ha, hsub' a ha'⟩

/-- Who voted for what, and the ballot each acceptor has promised. -/
structure Record (A B V : Type*) where
  vote : A → B → V → Prop
  promised : A → B

namespace Record

/-- In one ballot only one value is ever voted for. -/
def OneValue (R : Record A B V) : Prop :=
  ∀ a a' b w w', R.vote a b w → R.vote a' b w' → w = w'

variable (qs : QuorumSystem A)

/-- A quorum voted for `w` in ballot `b`. -/
def Chosen (R : Record A B V) (b : B) (w : V) : Prop :=
  ∃ Q, qs.IsQuorum Q ∧ ∀ a ∈ Q, R.vote a b w

/-- A quorum voted for `w` in ballot `b`, or may still do so: whoever has not, is free to. -/
def Choosable (R : Record A B V) (b : B) (w : V) : Prop :=
  ∃ Q, qs.IsQuorum Q ∧
    ∀ a ∈ Q, R.vote a b w ∨ (R.promised a ≤ b ∧ ∀ w', ¬ R.vote a b w')

/-- Below ballot `b` nothing but `w` can be chosen. -/
def SafeAt (R : Record A B V) (b : B) (w : V) : Prop :=
  ∀ b' < b, ∀ w', R.Choosable qs b' w' → w' = w

/-- Every vote was cast for a safe value. -/
def AllSafe (R : Record A B V) : Prop := ∀ a b w, R.vote a b w → R.SafeAt qs b w

/-- `R'` comes after `R`: votes stay, promises grow, and a new vote respects the promise its
acceptor had made. -/
structure Extends (R R' : Record A B V) : Prop where
  vote_mono : ∀ {a b w}, R.vote a b w → R'.vote a b w
  promised_mono : ∀ a, R.promised a ≤ R'.promised a
  vote_new : ∀ {a b w}, R'.vote a b w → R.vote a b w ∨ R.promised a ≤ b

variable {qs} {R R' : Record A B V} {b b' : B} {w w' : V} {a : A}

theorem Extends.refl (R : Record A B V) : R.Extends R :=
  ⟨id, fun _ => le_refl _, .inl⟩

theorem Chosen.choosable (h : R.Chosen qs b w) : R.Choosable qs b w := by
  obtain ⟨Q, hQ, hv⟩ := h
  exact ⟨Q, hQ, fun a ha => .inl (hv a ha)⟩

omit [LinearOrder B] in
theorem Chosen.mono (h : R.Chosen qs b w) (hv : ∀ {a b w}, R.vote a b w → R'.vote a b w) :
    R'.Chosen qs b w := by
  obtain ⟨Q, hQ, hall⟩ := h
  exact ⟨Q, hQ, fun a ha => hv (hall a ha)⟩

/-- What is choosable later was choosable before. -/
theorem Choosable.anti (he : R.Extends R') (hone : R'.OneValue) (h : R'.Choosable qs b w) :
    R.Choosable qs b w := by
  obtain ⟨Q, hQ, hv⟩ := h
  refine ⟨Q, hQ, fun a ha => ?_⟩
  rcases hv a ha with hvote | ⟨hle, hno⟩
  · rcases he.vote_new hvote with hold | hle
    · exact .inl hold
    · by_cases hany : ∃ w', R.vote a b w'
      · obtain ⟨w', hw'⟩ := hany
        have heq : w' = w := hone a a b w' w (he.vote_mono hw') hvote
        exact .inl (heq ▸ hw')
      · exact .inr ⟨hle, fun w' hw' => hany ⟨w', hw'⟩⟩
  · exact .inr ⟨le_trans (he.promised_mono a) hle, fun w' hw' => hno w' (he.vote_mono hw')⟩

theorem SafeAt.mono (he : R.Extends R') (hone : R'.OneValue) (h : R.SafeAt qs b w) :
    R'.SafeAt qs b w :=
  fun b' hb' w' hw' => h b' hb' w' (hw'.anti he hone)

/-- What is safe at a ballot is safe below it. -/
theorem SafeAt.of_le (h : R.SafeAt qs b w) (hle : b' ≤ b) : R.SafeAt qs b' w :=
  fun c hc w' hw' => h c (lt_of_lt_of_le hc hle) w' hw'

/-- If every member of a quorum is past `b'` without a vote there, nothing is choosable at `b'`. -/
theorem not_choosable_of_silent {Q : Set A} (hQ : qs.IsQuorum Q)
    (hprom : ∀ a ∈ Q, b' < R.promised a) (hsilent : ∀ a ∈ Q, ∀ w, ¬ R.vote a b' w) :
    ¬ R.Choosable qs b' w := by
  rintro ⟨Q', hQ', hv⟩
  obtain ⟨a, haQ, haQ'⟩ := qs.inter hQ hQ'
  rcases hv a haQ' with hvote | ⟨hle, -⟩
  · exact hsilent a haQ w hvote
  · exact absurd (hprom a haQ) (not_lt.mpr hle)

/-- What a member of a quorum says about its votes below `b` when it promises `b`: it has none,
or its highest is `β` for `w`. -/
def Reports (R : Record A B V) (b : B) (a : A) : Option (B × V) → Prop
  | none => ∀ b' < b, ∀ w, ¬ R.vote a b' w
  | some (β, w) => β < b ∧ R.vote a β w ∧ ∀ b' < b, ∀ w', R.vote a b' w' → b' ≤ β

/-- A report stays true as long as the acceptor keeps its promise. -/
theorem Reports.mono {r : Option (B × V)} (he : R.Extends R') (hp : b ≤ R.promised a)
    (h : R.Reports b a r) : R'.Reports b a r := by
  have hold : ∀ b' < b, ∀ w, R'.vote a b' w → R.vote a b' w := by
    intro b' hb' w hv
    rcases he.vote_new hv with hv | hle
    · exact hv
    · exact absurd (lt_of_lt_of_le hb' hp) (not_lt.mpr hle)
  cases r with
  | none => exact fun b' hb' w hv => h b' hb' w (hold b' hb' w hv)
  | some r =>
    obtain ⟨hlt, hv, hmax⟩ := h
    exact ⟨hlt, he.vote_mono hv, fun b' hb' w' hv' => hmax b' hb' w' (hold b' hb' w' hv')⟩

/-- **A quorum without votes makes every value safe.** -/
theorem safeAt_of_no_reports {Q : Set A} (hQ : qs.IsQuorum Q)
    (hprom : ∀ a ∈ Q, b ≤ R.promised a) (hrep : ∀ a ∈ Q, R.Reports b a none) (w : V) :
    R.SafeAt qs b w := by
  intro b' hb' w' hc
  refine absurd hc (not_choosable_of_silent hQ (fun a ha => ?_) fun a ha => hrep a ha b' hb')
  exact lt_of_lt_of_le hb' (hprom a ha)

/-- **The highest vote below `b` that a quorum knows of is safe.** Above it nobody in the quorum
voted, at it only one value was ever voted for, and below it the vote itself was already safe. -/
theorem safeAt_of_highest {Q : Set A} {β : B} {a₀ : A}
    (hone : R.OneValue) (hsafe : R.AllSafe qs) (hQ : qs.IsQuorum Q)
    (hprom : ∀ a ∈ Q, b ≤ R.promised a) (hv₀ : R.vote a₀ β w)
    (hmax : ∀ a ∈ Q, ∀ b' < b, ∀ w', R.vote a b' w' → b' ≤ β) :
    R.SafeAt qs b w := by
  intro b' hb' w' hc
  rcases lt_trichotomy b' β with hlt | rfl | hgt
  · exact hsafe a₀ β w hv₀ b' hlt w' hc
  · -- some member of the quorum that may choose `w'` here also answered the proposer
    obtain ⟨Q', hQ', hv⟩ := hc
    obtain ⟨a, haQ, haQ'⟩ := qs.inter hQ hQ'
    rcases hv a haQ' with hvote | ⟨hle, -⟩
    · exact hone a a₀ b' w' w hvote hv₀
    · exact absurd (lt_of_lt_of_le hb' (hprom a haQ)) (not_lt.mpr hle)
  · refine absurd hc (not_choosable_of_silent hQ (fun a ha => lt_of_lt_of_le hb' (hprom a ha)) ?_)
    intro a ha w'' hv
    exact absurd hgt (not_lt.mpr (hmax a ha b' hb' w'' hv))

/-- **Nothing is voted for above a choice but the chosen value.** -/
theorem eq_of_chosen_of_vote (hone : R.OneValue) (hsafe : R.AllSafe qs)
    (hc : R.Chosen qs b w) (hv : R.vote a b' w') (hle : b ≤ b') : w' = w := by
  rcases lt_or_eq_of_le hle with hlt | rfl
  · exact (hsafe a b' w' hv b hlt w hc.choosable).symm
  · obtain ⟨Q, hQ, hvotes⟩ := hc
    obtain ⟨a', ha', -⟩ := qs.inter hQ hQ
    exact hone a a' b w' w hv (hvotes a' ha')

end Record

end Voting
