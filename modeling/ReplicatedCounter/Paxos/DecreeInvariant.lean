import ReplicatedCounter.Paxos.Decree

/-!
# Every step of a register keeps its invariant

`Paxos/Decree.lean` has the invariant and what one object does to its own part of it. Here the
parts are put together: `DecreeInv.step` is the step lemma, and `DecreeInv.agreement` and
`DecreeInv.answered_wrote` are what the invariant says to a reader of committed values.

Only `vote` adds to the record, so it is the one step with something to argue about the voting
record (`VoteInv.vote`); all the others either raise a promise or leave the record alone.
-/

set_option autoImplicit false

namespace ReplicatedCounter.Paxos

open Voting

variable {A ι : Type} {reg : Int} {S : List A} {d d' : Decree A ι}

/-! ## The beginning -/

/-- Before anything happened the invariant holds for any set of acceptors. -/
theorem decreeInv_init (hvotes : ∀ a b v, ¬ d.accepted a b v)
    (hobjects : ∀ o, d.objects o = none) (hanswered : ∀ v, ¬ d.answered v)
    (haccepted : ∀ a, (d.instances a).accepted = none)
    (hcommitted : ∀ a, (d.instances a).committed = false) : DecreeInv reg S d where
  votes := {
    mem := fun hv => absurd hv (hvotes _ _ _)
    promised := fun hv => absurd hv (hvotes _ _ _)
    wrote := fun hv => absurd hv (hvotes _ _ _)
    oneValue := fun a _ b w _ hv => absurd hv (hvotes a b w)
    allSafe := fun a b w hv => absurd hv (hvotes a b w) }
  object := fun hr => absurd hr (by simp [hobjects])
  disjoint := fun hr => absurd hr (by simp [hobjects])
  accepted_none := fun _ b v => hvotes _ b v
  accepted_some := fun hs => absurd hs (by simp [haccepted])
  committed := fun hc => absurd hc (by simp [hcommitted])
  answered := fun hv => absurd hv (hanswered _)
  held := fun hv => absurd hv (hanswered _)

/-! ## What the invariant says -/

section reading

variable {R : Record A BallotId String} {wrote : String → Prop}

theorem VoteInv.eq_of_chosen (h : VoteInv S R wrote) {b b' : BallotId} {v v' : String}
    (hc : R.Chosen (allOf S) b v) (hc' : R.Chosen (allOf S) b' v') : v = v' := by
  -- the later of the two choices is a vote above the earlier one
  rcases le_total b b' with hle | hle
  · obtain ⟨Q, ⟨rfl, a, ha⟩, hall⟩ := hc'
    exact (Record.eq_of_chosen_of_vote h.oneValue h.allSafe hc (hall a ha) hle).symm
  · obtain ⟨Q, ⟨rfl, a, ha⟩, hall⟩ := hc
    exact Record.eq_of_chosen_of_vote h.oneValue h.allSafe hc' (hall a ha) hle

theorem VoteInv.wrote_of_chosen (h : VoteInv S R wrote) {b : BallotId} {v : String}
    (hc : R.Chosen (allOf S) b v) : wrote v := by
  obtain ⟨Q, ⟨rfl, a, ha⟩, hall⟩ := hc
  exact h.wrote (hall a ha)

end reading

/-- **Agreement**: the values returned by `getCommittedValue` are all the same. -/
theorem DecreeInv.agreement (h : DecreeInv reg S d) {v v' : String} (hv : d.answered v)
    (hv' : d.answered v') : v = v' := by
  obtain ⟨b, hc⟩ := h.answered hv
  obtain ⟨b', hc'⟩ := h.answered hv'
  exact h.votes.eq_of_chosen hc hc'

/-- **Validity**: a value returned by `getCommittedValue` was the payload of a write. -/
theorem DecreeInv.answered_wrote (h : DecreeInv reg S d) {v : String} (hv : d.answered v) :
    d.wrote v := by
  obtain ⟨b, hc⟩ := h.answered hv
  exact h.votes.wrote_of_chosen hc

/-- A committed acceptor's accepted value is the chosen one, whatever it has accepted since. -/
theorem DecreeInv.chosen_of_committedValue (h : DecreeInv reg S d) {a : A} {v : String}
    (hv : LocalAcceptor.committedValue (d.instances a) = some v) :
    ∃ b, d.record.Chosen (allOf S) b v := by
  unfold LocalAcceptor.committedValue at hv
  split at hv
  · rename_i hcommitted
    obtain ⟨hmem, b, w, hc⟩ := h.committed hcommitted
    refine ⟨b, ?_⟩
    have hvote : d.accepted a b w := by
      obtain ⟨Q, ⟨rfl, -⟩, hall⟩ := hc
      exact hall a hmem
    cases hacc : (d.instances a).accepted with
    | none => exact absurd hvote (h.accepted_none hacc b w)
    | some p =>
      obtain ⟨β, u, rfl, hlast, hmax⟩ := h.accepted_some hacc
      have hu : u = w := Record.eq_of_chosen_of_vote h.votes.oneValue h.votes.allSafe hc hlast
        (hmax b w hvote)
      simp only [hacc, Option.getD_some, Option.some.injEq] at hv
      exact (hv.symm.trans hu).symm ▸ hc
  · exact absurd hv (by simp)

/-- What an acceptor tells about its votes when it promises a higher ballot. -/
theorem DecreeInv.reports (h : DecreeInv reg S d) {a : A} {b : BallotId} (ha : a ∈ S)
    (hb : (d.instances a).promisedBallotId < b) :
    d.record.Reports b a
      ((d.instances a).accepted.getD { ballotId := some b }).report := by
  cases hacc : (d.instances a).accepted with
  | none => exact fun b' _ v hv => h.accepted_none hacc b' v hv
  | some p =>
    obtain ⟨β, v, rfl, hv, hmax⟩ := h.accepted_some hacc
    exact ⟨lt_of_le_of_lt (h.votes.promised hv a ha) hb, hv, fun b' _ v' hv' => hmax b' v' hv'⟩

/-- A value that was ever returned is still what some acceptor holds as committed. -/
theorem DecreeInv.committedValue_of_answered (h : DecreeInv reg S d) {v : String}
    (hv : d.answered v) : ∃ a, LocalAcceptor.committedValue (d.instances a) = some v := by
  obtain ⟨a, hc⟩ := h.held hv
  obtain ⟨b, hchosen⟩ := h.answered hv
  have hvalue : LocalAcceptor.committedValue (d.instances a) =
      some (((d.instances a).accepted.getD {}).value.getD "") := if_pos hc
  obtain ⟨b', hchosen'⟩ := h.chosen_of_committedValue hvalue
  exact ⟨a, hvalue.trans (congrArg some (h.votes.eq_of_chosen hchosen' hchosen))⟩

/-! ## The acceptors' side -/

/-- Anything that extends the record and leaves the objects alone: what is to be shown of it. -/
theorem DecreeInv.extend (h : DecreeInv reg S d) (hobjects : d'.objects = d.objects)
    (he : d.record.Extends d'.record) (hvotes : VoteInv S d'.record d'.wrote)
    (hw : ∀ v, d.wrote v → d'.wrote v)
    (hnew : ∀ o r, d.objects o = some r → r.holders ≠ [] → ∀ a v,
      d'.accepted a (r.ballot r.lockId) v → d.accepted a (r.ballot r.lockId) v ∨
        (¬ r.Unproposed ∧ ∀ p remaining n, r.phase = .accepting p remaining n → v = p.value))
    (hnone : ∀ {a}, (d'.instances a).accepted = none → ∀ b v, ¬ d'.accepted a b v)
    (hsome : ∀ {a p}, (d'.instances a).accepted = some p →
      ∃ b v, p = { ballotId := some b, value := some v } ∧ d'.accepted a b v ∧
        ∀ b' v', d'.accepted a b' v' → b' ≤ b)
    (hcommitted : ∀ {a}, (d'.instances a).committed = true → (d.instances a).committed = true ∨
      (a ∈ S ∧ ∃ b v, d.record.Chosen (allOf S) b v))
    (hanswered : ∀ {v}, d'.answered v → d.answered v ∨ ∃ b, d.record.Chosen (allOf S) b v)
    (hheld : ∀ {v}, d'.answered v → ∃ a, (d'.instances a).committed = true) :
    DecreeInv reg S d' where
  votes := hvotes
  object := by
    intro o r hr
    rw [hobjects] at hr
    exact (h.object hr).mono he hvotes.oneValue hw (hnew o r hr)
  disjoint := by
    intro o o' r r' hr hr'
    rw [hobjects] at hr hr'
    exact h.disjoint hr hr'
  accepted_none := hnone
  accepted_some := hsome
  committed := by
    intro a hc
    rcases hcommitted hc with hc | hc
    · obtain ⟨hmem, b, v, hch⟩ := h.committed hc
      exact ⟨hmem, b, v, hch.mono he.vote_mono⟩
    · obtain ⟨hmem, b, v, hch⟩ := hc
      exact ⟨hmem, b, v, hch.mono he.vote_mono⟩
  answered := by
    intro v hv
    rcases hanswered hv with hv | ⟨b, hch⟩
    · obtain ⟨b, hch⟩ := h.answered hv
      exact ⟨b, hch.mono he.vote_mono⟩
    · exact ⟨b, hch.mono he.vote_mono⟩
  held := hheld

/-- Votes stay good when promises grow. -/
theorem VoteInv.mono {R R' : Record A BallotId String} {wrote wrote' : String → Prop}
    (h : VoteInv S R wrote) (he : R.Extends R')
    (hsame : ∀ {a b v}, R'.vote a b v → R.vote a b v) (hw : ∀ v, wrote v → wrote' v) :
    VoteInv S R' wrote' := by
  have hone : R'.OneValue := fun a a' b w w' hv hv' => h.oneValue a a' b w w' (hsame hv) (hsame hv')
  exact {
    mem := fun hv => h.mem (hsame hv)
    promised := fun hv a' ha' => le_trans (h.promised (hsame hv) a' ha') (he.promised_mono a')
    wrote := fun hv => hw _ (h.wrote (hsame hv))
    oneValue := hone
    allSafe := fun a b w hv => (h.allSafe a b w (hsame hv)).mono he hone }

theorem DecreeInv.wrote (h : DecreeInv reg S d) (payload : String) :
    DecreeInv reg S { d with wrote := fun v => v = payload ∨ d.wrote v } :=
  h.extend rfl (Record.Extends.refl _) (h.votes.mono (Record.Extends.refl _) id fun _ => .inr)
    (fun _ => .inr) (fun _ _ _ _ _ _ hv => .inl hv) h.accepted_none h.accepted_some .inl .inl
    h.held

theorem DecreeInv.answer (h : DecreeInv reg S d) {a : A} {v : String}
    (hv : LocalAcceptor.committedValue (d.instances a) = some v) :
    DecreeInv reg S { d with answered := fun v' => v' = v ∨ d.answered v' } := by
  refine h.extend rfl (Record.Extends.refl _) h.votes (fun _ => id)
    (fun _ _ _ _ _ _ hv => .inl hv) h.accepted_none h.accepted_some .inl ?_ ?_
  · rintro v' (rfl | hv')
    · exact .inr (h.chosen_of_committedValue hv)
    · exact .inl hv'
  · rintro v' (rfl | hv')
    · exact ⟨a, LocalAcceptor.committed_of_committedValue hv⟩
    · exact h.held hv'

variable [DecidableEq A]

/-- A field of an instance after `setInstance`. -/
theorem Decree.setInstance_apply {α : Type} (f : PaxosInstance → α) (d : Decree A ι) (a a' : A)
    (i : PaxosInstance) :
    f ((d.setInstance a i).instances a') = if a' = a then f i else f (d.instances a') := by
  unfold Decree.setInstance
  by_cases h : a' = a
  · subst h
    simp
  · simp [h]

/-- A field that the new instance has from the old one is the same everywhere. -/
theorem Decree.setInstance_keeps {α : Type} (f : PaxosInstance → α) {a : A} {i : PaxosInstance}
    (hf : f i = f (d.instances a)) (a' : A) :
    f ((d.setInstance a i).instances a') = f (d.instances a') := by
  rw [Decree.setInstance_apply f]
  split
  · rename_i heq
    rw [heq, hf]
  · rfl

/-- Raising an acceptor's promise. -/
theorem Decree.extends_promise {a : A} {b : BallotId}
    (hb : (d.instances a).promisedBallotId < b) :
    d.record.Extends
      (d.setInstance a { d.instances a with promisedBallotId := b }).record where
  vote_mono := id
  promised_mono a' := by
    change _ ≤ PaxosInstance.promisedBallotId _
    rw [Decree.setInstance_apply PaxosInstance.promisedBallotId]
    split
    · rename_i heq
      subst heq
      exact le_of_lt hb
    · exact le_refl _
  vote_new := .inl

theorem DecreeInv.promise (h : DecreeInv reg S d) {a : A} {b : BallotId}
    (hb : (d.instances a).promisedBallotId < b) :
    DecreeInv reg S (d.setInstance a { d.instances a with promisedBallotId := b }) := by
  refine h.extend rfl (Decree.extends_promise hb)
    (h.votes.mono (Decree.extends_promise hb) id fun _ => id) (fun _ => id)
    (fun _ _ _ _ _ _ hv => .inl hv) ?_ ?_ ?_ .inl ?_
  · intro a' hnone
    rw [Decree.setInstance_keeps PaxosInstance.accepted (by rfl)] at hnone
    exact h.accepted_none hnone
  · intro a' p hsome
    rw [Decree.setInstance_keeps PaxosInstance.accepted (by rfl)] at hsome
    exact h.accepted_some hsome
  · intro a' hc
    rw [Decree.setInstance_keeps PaxosInstance.committed (by rfl)] at hc
    exact .inl hc
  · intro v hv
    obtain ⟨a', hc⟩ := h.held hv
    exact ⟨a', (Decree.setInstance_keeps PaxosInstance.committed (by rfl) a').trans hc⟩

theorem DecreeInv.commit (h : DecreeInv reg S d) {a : A}
    (hc : a ∈ S ∧ ∃ b v, d.record.Chosen (allOf S) b v) :
    DecreeInv reg S (d.setInstance a { d.instances a with committed := true }) := by
  have hrecord : (d.setInstance a { d.instances a with committed := true }).record = d.record := by
    unfold Decree.record
    congr 1
    funext a'
    exact Decree.setInstance_keeps PaxosInstance.promisedBallotId (by rfl) a'
  refine h.extend rfl (hrecord ▸ Record.Extends.refl _) (hrecord ▸ h.votes) (fun _ => id)
    (fun _ _ _ _ _ _ hv => .inl hv) ?_ ?_ ?_ .inl ?_
  · intro a' hnone
    rw [Decree.setInstance_keeps PaxosInstance.accepted (by rfl)] at hnone
    exact h.accepted_none hnone
  · intro a' p hsome
    rw [Decree.setInstance_keeps PaxosInstance.accepted (by rfl)] at hsome
    exact h.accepted_some hsome
  · intro a' hc'
    rw [Decree.setInstance_apply PaxosInstance.committed] at hc'
    split at hc'
    · rename_i heq
      subst heq
      exact .inr hc
    · exact .inl hc'
  · exact fun _ => ⟨a, (Decree.setInstance_apply PaxosInstance.committed d a a _).trans (if_pos rfl)⟩

/-! ## A vote -/

/-- One more vote. -/
def addVote (R : Record A BallotId String) (a : A) (b : BallotId) (v : String) :
    Record A BallotId String where
  vote a' b' v' := (a' = a ∧ b' = b ∧ v' = v) ∨ R.vote a' b' v'
  promised := R.promised

omit [DecidableEq A] in
theorem extends_addVote {R : Record A BallotId String} {a : A} {b : BallotId} {v : String}
    (hle : R.promised a ≤ b) : R.Extends (addVote R a b v) where
  vote_mono := .inr
  promised_mono _ := le_refl _
  vote_new := by
    rintro a' b' v' (⟨rfl, rfl, rfl⟩ | hv)
    · exact .inr hle
    · exact .inl hv

omit [DecidableEq A] in
/-- **A vote for a safe value, at a ballot all acceptors have promised and at which nobody voted
for anything else, keeps the votes good.** -/
theorem VoteInv.vote {R : Record A BallotId String} {wrote : String → Prop}
    (h : VoteInv S R wrote) {a : A} {b : BallotId} {v : String} (ha : a ∈ S)
    (hprom : ∀ a' ∈ S, b ≤ R.promised a') (hle : R.promised a ≤ b)
    (hsafe : R.SafeAt (allOf S) b v) (hown : ∀ a' v', R.vote a' b v' → v' = v) (hw : wrote v) :
    VoteInv S (addVote R a b v) wrote := by
  have hone : (addVote R a b v).OneValue := by
    rintro a₁ a₂ b' w w' (⟨-, rfl, rfl⟩ | hv) (⟨-, heq, rfl⟩ | hv')
    · rfl
    · exact (hown _ _ hv').symm
    · exact hown _ _ (heq ▸ hv)
    · exact h.oneValue a₁ a₂ b' w w' hv hv'
  refine {
    mem := ?_
    promised := ?_
    wrote := ?_
    oneValue := hone
    allSafe := ?_ }
  · rintro _ _ _ (⟨rfl, -, -⟩ | hv)
    · exact ha
    · exact h.mem hv
  · rintro _ _ _ (⟨-, rfl, -⟩ | hv)
    · exact hprom
    · exact h.promised hv
  · rintro _ _ _ (⟨-, -, rfl⟩ | hv)
    · exact hw
    · exact h.wrote hv
  · rintro a' b' w' (⟨-, rfl, rfl⟩ | hv)
    · exact hsafe.mono (extends_addVote hle) hone
    · exact (h.allSafe a' b' w' hv).mono (extends_addVote hle) hone

/-- The state right after an acceptor voted, before the object counts the vote. -/
def Decree.addAccepted (d : Decree A ι) (a : A) (p : Proposal) : Decree A ι :=
  ({ d with
    accepted := fun a' b v => (a' = a ∧ b = p.ballotId ∧ v = p.value) ∨ d.accepted a' b v } :
      Decree A ι).setInstance a { d.instances a with
    promisedBallotId := p.ballotId
    accepted := some { ballotId := some p.ballotId, value := some p.value } }

theorem Decree.addAccepted_accepted (d : Decree A ι) (a a' : A) (p : Proposal) :
    ((d.addAccepted a p).instances a').accepted =
      if a' = a then some { ballotId := some p.ballotId, value := some p.value }
      else (d.instances a').accepted :=
  Decree.setInstance_apply PaxosInstance.accepted _ a a' _

omit [DecidableEq A] in
/-- An object that can still get a vote proposes at its newest ballot and holds all promises. -/
theorem DecreeInv.proposes_newest (h : DecreeInv reg S d) {o : ι} {r : RegisterObject A}
    {p : Proposal} {a : A} {remaining : List A} {n : Nat} (hr : d.objects o = some r)
    (hph : r.phase = .accepting p (a :: remaining) n)
    (hle : (d.instances a).promisedBallotId ≤ p.ballotId) :
    p.ballotId = r.ballot r.lockId ∧ r.holders = S ∧ a ∈ S ∧
      (d.instances a).promisedBallotId = p.ballotId := by
  have hobj := h.object hr
  have hacc := hobj.accepting _ _ _ hph
  have hholders : r.holders = r.proposer.proposeAcceptors :=
    RegisterObject.holders_of_not_preparing (by simp [hph])
  have hmem : a ∈ r.holders := by
    obtain ⟨done, happ, -⟩ := hacc.count
    rw [hholders, ← happ]
    simp
  have hheld : r.ballot r.lockId ≤ (d.instances a).promisedBallotId := hobj.holders_promised a hmem
  have hb : p.ballotId = r.ballot r.lockId := le_antisymm hacc.le (le_trans hheld hle)
  have hS : r.holders = S := hholders.trans (hacc.safe hb).1
  exact ⟨hb, hS, hS ▸ hmem, le_antisymm hle (hb ▸ hheld)⟩

/-- **A vote keeps the invariant.** No other object is concerned: one that holds a promise of the
same ballot would hold it of an acceptor this one holds too. -/
theorem DecreeInv.vote (h : DecreeInv reg S d) {o : ι} {r : RegisterObject A} {p : Proposal}
    {a : A} {remaining : List A} {n : Nat} (hr : d.objects o = some r)
    (hph : r.phase = .accepting p (a :: remaining) n)
    (hle : (d.instances a).promisedBallotId ≤ p.ballotId) :
    DecreeInv reg S (d.addAccepted a p) := by
  obtain ⟨hb, hS, hmem, hprom⟩ := h.proposes_newest hr hph hle
  have hobj := h.object hr
  have hacc := hobj.accepting _ _ _ hph
  have hpropose : r.proposer.proposeAcceptors = r.holders :=
    (RegisterObject.holders_of_not_preparing (by simp [hph])).symm
  have hne : r.holders ≠ [] := hS ▸ List.ne_nil_of_mem hmem
  have hrecord : (d.addAccepted a p).record = addVote d.record a p.ballotId p.value := by
    unfold Decree.record addVote
    congr 1
    funext a'
    refine (Decree.setInstance_apply PaxosInstance.promisedBallotId _ a a' _).trans ?_
    split
    · rename_i heq
      rw [heq]
      exact hprom.symm
    · rfl
  have hvotes : VoteInv S (d.addAccepted a p).record d.wrote := by
    rw [hrecord]
    refine h.votes.vote hmem (fun a' ha' => ?_) hle (hacc.safe hb).2
      (hacc.own hb (hpropose ▸ hne)) hacc.wrote
    exact hb ▸ hobj.holders_promised a' (hS ▸ ha')
  refine h.extend rfl (hrecord ▸ extends_addVote hle) hvotes (fun _ => id) ?_ ?_ ?_ ?_ .inl ?_
  · rintro o' r' hr' hne' a' v (⟨-, hb', rfl⟩ | hv)
    · have hlock : r.lockId = r'.lockId := by
        have heq := hb'.trans hb
        simp only [RegisterObject.ballot, BallotId.mk.injEq] at heq
        exact heq.2.symm
      by_cases ho : o = o'
      · subst ho
        obtain rfl : r = r' := Option.some.inj (hr.symm.trans hr')
        refine .inr ⟨?_, ?_⟩
        · rintro (⟨answers, hprep⟩ | hunused)
          · exact absurd (hph.symm.trans hprep) (by simp)
          · exact hacc.used hb hunused
        · intro q remaining' n' hph'
          have heq := hph.symm.trans hph'
          simp only [Phase.accepting.injEq] at heq
          rw [heq.1]
      · obtain ⟨x, hx⟩ := List.exists_mem_of_ne_nil _ hne'
        have hxS : x ∈ r.holders := hS ▸ (h.object hr').holders_sublist.subset hx
        exact absurd hx (h.disjoint hr hr' ho hlock x hxS)
    · exact .inl hv
  · intro a' hnone b v hv
    have hf := d.addAccepted_accepted a a' p
    by_cases ha' : a' = a
    · rw [if_pos ha'] at hf
      exact absurd (hf.symm.trans hnone) (by simp)
    · rw [if_neg ha'] at hf
      rcases hv with ⟨heq, -, -⟩ | hv
      · exact ha' heq
      · exact h.accepted_none (hf.symm.trans hnone) b v hv
  · intro a' q hsome
    have hf := d.addAccepted_accepted a a' p
    by_cases ha' : a' = a
    · rw [if_pos ha'] at hf
      refine ⟨p.ballotId, p.value, (Option.some.inj (hf.symm.trans hsome)).symm,
        .inl ⟨ha', rfl, rfl⟩, ?_⟩
      rintro b' v' (⟨-, rfl, -⟩ | hv)
      · exact le_refl _
      · exact le_trans (h.votes.promised hv a hmem) hle
    · rw [if_neg ha'] at hf
      obtain ⟨b, v, hq, hv, hmax⟩ := h.accepted_some (hf.symm.trans hsome)
      refine ⟨b, v, hq, .inr hv, ?_⟩
      rintro b' v' (⟨heq, -, -⟩ | hv')
      · exact absurd heq ha'
      · exact hmax b' v' hv'
  · intro a' hc
    exact .inl ((Decree.setInstance_keeps PaxosInstance.committed (by rfl) a').symm.trans hc)
  · intro v hv
    obtain ⟨a', hc⟩ := h.held hv
    exact ⟨a', (Decree.setInstance_keeps PaxosInstance.committed (by rfl) a').trans hc⟩

/-! ## The objects' side, and the step -/

variable [DecidableEq ι]

omit [DecidableEq A] in
/-- Replacing an object: the new one satisfies its part, and shares no promise with the others. -/
theorem DecreeInv.setObject (h : DecreeInv reg S d) (o : ι) (x : Option (RegisterObject A))
    (hobj : ∀ r, x = some r → ObjectInv reg S d.record d.wrote r)
    (hdisj : ∀ r, x = some r → ∀ o' r', o' ≠ o → d.objects o' = some r' →
      r.lockId = r'.lockId → ∀ a ∈ r.holders, a ∉ r'.holders) :
    DecreeInv reg S (d.setObject o x) := by
  have hget : ∀ o' r, (d.setObject o x).objects o' = some r →
      (o' = o ∧ x = some r) ∨ (o' ≠ o ∧ d.objects o' = some r) := by
    intro o' r hr
    by_cases ho : o' = o
    · subst ho
      exact .inl ⟨rfl, by simpa [Decree.setObject] using hr⟩
    · exact .inr ⟨ho, by simpa [Decree.setObject, ho] using hr⟩
  refine { h with object := ?_, disjoint := ?_ }
  · intro o' r hr
    rcases hget o' r hr with ⟨-, hx⟩ | ⟨-, hr⟩
    · exact hobj r hx
    · exact h.object hr
  · intro o₁ o₂ r₁ r₂ hr₁ hr₂ hne hlock a ha₁ ha₂
    rcases hget o₁ r₁ hr₁ with ⟨rfl, hx₁⟩ | ⟨hne₁, hold₁⟩
    · rcases hget o₂ r₂ hr₂ with ⟨rfl, -⟩ | ⟨hne₂, hold₂⟩
      · exact hne rfl
      · exact hdisj r₁ hx₁ o₂ r₂ hne₂ hold₂ hlock a ha₁ ha₂
    · rcases hget o₂ r₂ hr₂ with ⟨rfl, hx₂⟩ | ⟨-, hold₂⟩
      · exact hdisj r₂ hx₂ o₁ r₁ hne₁ hold₁ hlock.symm a ha₂ ha₁
      · exact h.disjoint hold₁ hold₂ hne hlock a ha₁ ha₂

omit [DecidableEq A] in
/-- Replacing an object by one that holds nothing new. -/
theorem DecreeInv.updateObject (h : DecreeInv reg S d) {o : ι} {r r' : RegisterObject A}
    (hr : d.objects o = some r) (hobj : ObjectInv reg S d.record d.wrote r')
    (hholders : ∀ a ∈ r'.holders, r'.lockId = r.lockId ∧ a ∈ r.holders) :
    DecreeInv reg S (d.setObject o (some r')) := by
  refine h.setObject o (some r') (fun r₁ hr₁ => Option.some.inj hr₁ ▸ hobj) ?_
  intro r₁ hr₁ o' r₂ hne hr₂ hlock a ha
  obtain rfl := Option.some.inj hr₁
  obtain ⟨hsame, hmem⟩ := hholders a ha
  exact h.disjoint hr hr₂ (Ne.symm hne) (hsame ▸ hlock) a hmem

/-- **Every step of a register keeps its invariant.** -/
theorem DecreeInv.step (h : DecreeInv reg S d) (hs : Decree.Step reg S d d') :
    DecreeInv reg S d' := by
  cases hs with
  | make o =>
    refine h.setObject o _ (fun r hr => Option.some.inj hr ▸ objectInv_makePaxosWor) ?_
    intro r hr o' r' _ _ _ a ha
    obtain rfl := Option.some.inj hr
    exact absurd ha List.not_mem_nil
  | discard o =>
    exact h.setObject o none (fun r hr => absurd hr (by simp)) fun r hr => absurd hr (by simp)
  | localMove hr hm =>
    obtain ⟨hobj, hholders⟩ := (h.object hr).localMove h.votes hm
    exact h.updateObject hr hobj hholders
  | promise hb => exact h.promise hb
  | @grant o r k a hr hout hb =>
    obtain ⟨⟨answers, hph⟩, hk⟩ := RegisterObject.outstanding_cases hout
    have hobj := h.object hr
    rw [hobj.prepareAcceptors] at hk
    have ha : a ∈ S := List.mem_of_getElem? hk
    have h₁ := h.promise hb
    have hpromised : ((d.setInstance a { d.instances a with
        promisedBallotId := r.ballot r.lockId }).instances a).promisedBallotId =
          r.ballot r.lockId :=
      (Decree.setInstance_apply PaxosInstance.promisedBallotId d a a _).trans (if_pos rfl)
    refine h₁.setObject o _ ?_ ?_
    · intro r₁ hr₁
      obtain rfl := Option.some.inj hr₁
      refine (h₁.object (o := o) hr).answer k _ ?_
      intro a' p hk' hp
      obtain rfl : a = a' := Option.some.inj (hk.symm.trans hk')
      simp only [Option.some.injEq, PrepareResponse.promise.injEq] at hp
      subst hp
      refine ⟨le_of_eq hpromised.symm, h.reports ha hb, fun a' v hv => ?_⟩
      -- a vote at this ballot would have come with everybody's promise of it
      exact absurd hb (not_lt.mpr (h.votes.promised hv a ha))
    · intro r₁ hr₁ o' r' hne hr' hlock x hx hx'
      obtain rfl := Option.some.inj hr₁
      rw [RegisterObject.answer_lockId] at hlock
      rcases RegisterObject.mem_holders_answer hx with hx | hk'
      · exact h.disjoint hr hr' (Ne.symm hne) hlock x hx hx'
      · rw [hobj.prepareAcceptors, hk, Option.some.injEq] at hk'
        subst hk'
        have hheld := (h.object hr').holders_promised a hx'
        unfold RegisterObject.ballot at hb hheld
        rw [(h.object hr').majorId, ← hlock, ← hobj.majorId] at hheld
        exact absurd hb (not_lt.mpr hheld)
  | @write o r r' lockId payload hr hw =>
    have h₁ := h.wrote payload
    refine h₁.updateObject (o := o) hr ((h₁.object (o := o) hr).write hw (.inl rfl)) ?_
    exact RegisterObject.holders_write hw
  | @vote o r p a remaining n hr hph hle =>
    have h₁ := h.vote hr hph hle
    have hobj := h₁.object (o := o) hr
    refine h₁.updateObject (o := o) hr (hobj.setPhase (by simp [hph]) (by simp) ?_ (by simp)) ?_
    · intro q remaining' n' heq
      simp only [Phase.accepting.injEq] at heq
      obtain ⟨rfl, rfl, rfl⟩ := heq
      have hacc := hobj.accepting _ _ _ hph
      obtain ⟨done, happ, hlen, hall⟩ := hacc.count
      refine { hacc with count := ⟨done ++ [a], by rw [List.append_assoc]; exact happ, ?_, ?_⟩ }
      · rw [List.length_append, List.length_singleton]
        omega
      · intro hn x hx
        rw [List.length_append, List.length_singleton] at hn
        rcases List.mem_append.mp hx with hx | hx
        · exact hall (by omega) x hx
        · exact .inl ⟨List.mem_singleton.mp hx, rfl, rfl⟩
    · intro x hx
      rw [RegisterObject.holders_of_not_preparing (by simp)] at hx
      rw [RegisterObject.holders_of_not_preparing (by simp [hph])]
      exact ⟨rfl, hx⟩
  | @commit o r b a remaining c hr hph =>
    obtain ⟨hmem, v, hc⟩ := (h.object hr).committing b _ c hph a (by simp)
    exact h.commit ⟨hmem, b, v, hc⟩
  | answer hv => exact h.answer hv

end ReplicatedCounter.Paxos
