import ReplicatedCounter.Paxos.Decree
import ReplicatedCounter.Paxos.Proposers

/-!
# One instance under proposers with unique ballots

A `Poll` is everything that concerns a single instance: the acceptors' states, the proposers that
serve it, and what was accepted, proposed and prepared. The argument is the textbook one, for any
quorum system: a ballot has one proposal, and the proposal was safe when it was made. It needs of
the proposers that what they may still propose is safe, also after a later `prepare`, which replaces
the selected proposal. A later `prepare` that succeeds has a higher ballot (`PollInv.unused_lt`),
and what is safe there is safe below.

`PollInv.committed` is the invariant of the commits: a committed acceptor has accepted at the ballot
of a choice or above it, so what it holds is the chosen value. Nothing but the commit itself can
break it.
-/

set_option autoImplicit false

namespace ReplicatedCounter.Paxos

open Voting

variable {A ι : Type}

/-- The state of one instance. -/
structure Poll (A ι : Type) where
  instances : A → PaxosInstance
  accepted : A → BallotId → String → Prop
  proposed : BallotId → String → Prop
  prepared : BallotId → Prop
  objects : ι → Option (ProposerObject A)

/-- The votes and promises of an instance. -/
def Poll.record (P : Poll A ι) : Record A BallotId String where
  vote := P.accepted
  promised a := (P.instances a).promisedBallotId

theorem Poll.record_promised (P : Poll A ι) (a : A) :
    P.record.promised a = (P.instances a).promisedBallotId := rfl

namespace ProposerObject

/-- The promises received by the `prepare` in progress. -/
def promises (r : ProposerObject A) : List (A × Promise) :=
  match r.phase with
  | .preparing answers => promisesOf r.proposer.prepareAcceptors (answers.map (·.getD none))
  | _ => []

/-- The ballots that this proposer may still propose. -/
def openBallots (r : ProposerObject A) : List BallotId :=
  match r.phase with
  | .preparing _ => r.ballotId :: r.unusedBallots
  | _ => r.unusedBallots

variable {r : ProposerObject A}

theorem promises_of_not_preparing (h : ∀ answers, r.phase ≠ .preparing answers) :
    r.promises = [] := by
  unfold promises
  split
  · exact absurd ‹_› (h _)
  · rfl

theorem openBallots_of_not_preparing (h : ∀ answers, r.phase ≠ .preparing answers) :
    r.openBallots = r.unusedBallots := by
  unfold openBallots
  split
  · exact absurd ‹_› (h _)
  · rfl

theorem unused_subset_openBallots {b : BallotId} (h : b ∈ r.unusedBallots) : b ∈ r.openBallots := by
  unfold openBallots
  split
  · exact List.mem_cons_of_mem _ h
  · exact h

end ProposerObject

/-! ## The invariant -/

/-- What a proposer of the instance satisfies. -/
structure ProposerInv (m : Nat) (qs : QuorumSystem A) (P : Poll A ι) (r : ProposerObject A) :
    Prop where
  majority : r.proposer.majority = m
  prepare_nodup : r.proposer.prepareAcceptors.Nodup
  propose_nodup : r.proposer.proposeAcceptors.Nodup
  open_prepared : ∀ b ∈ r.openBallots, P.prepared b
  open_unproposed : ∀ b ∈ r.openBallots, ∀ v, ¬ P.proposed b v
  open_nodup : r.openBallots.Nodup
  promised : ∀ q ∈ r.promises, r.ballotId ≤ P.record.promised q.1
  reports : ∀ q ∈ r.promises, P.record.Reports r.ballotId q.1 q.2.report
  /-- Whatever payload comes with a ballot that may be proposed, the proposal is safe. -/
  safe : ∀ b ∈ r.unusedBallots, ∀ payload,
    P.record.SafeAt qs b (r.proposer.proposalValue payload)
  /-- A quorum has promised the ballot, and whoever of it promises the running `prepare`, promises
  something higher. -/
  granted : ∀ b ∈ r.unusedBallots, ∃ Q, qs.IsQuorum Q ∧ ∀ a ∈ Q, b ≤ P.record.promised a ∧
    (a ∈ r.promises.map (·.1) → b < r.ballotId)
  accepting : ∀ p remaining n, r.phase = .accepting p remaining n →
    P.proposed p.ballotId p.value ∧ remaining.Nodup ∧
      ∃ M : Finset A, M.card = n ∧ ∀ a ∈ M, a ∉ remaining ∧ P.accepted a p.ballotId p.value
  committing : ∀ b remaining c, r.phase = .committing b remaining c →
    ∃ v, P.record.Chosen qs b v

/-- What one instance satisfies at all times. -/
structure PollInv (m : Nat) (qs : QuorumSystem A) (P : Poll A ι) : Prop where
  votes : ∀ {a b v}, P.accepted a b v → P.proposed b v
  le_promised : ∀ {a b v}, P.accepted a b v → b ≤ P.record.promised a
  one : ∀ {b v v'}, P.proposed b v → P.proposed b v' → v = v'
  safe : ∀ {b v}, P.proposed b v → P.record.SafeAt qs b v
  proposed_prepared : ∀ {b v}, P.proposed b v → P.prepared b
  accepted_none : ∀ {a}, (P.instances a).accepted = none → ∀ b v, ¬ P.accepted a b v
  accepted_some : ∀ {a p}, (P.instances a).accepted = some p →
    ∃ b v, p = { ballotId := some b, value := some v } ∧ P.accepted a b v ∧
      ∀ b' v', P.accepted a b' v' → b' ≤ b
  committed : ∀ {a}, (P.instances a).committed = true →
    ∃ b v β u, P.record.Chosen qs b v ∧
      (P.instances a).accepted = some { ballotId := some β, value := some u } ∧ b ≤ β
  object : ∀ {o r}, P.objects o = some r → ProposerInv m qs P r
  disjoint : ∀ {o o' r r'}, P.objects o = some r → P.objects o' = some r' → o ≠ o' →
    ∀ b ∈ r.openBallots, b ∉ r'.openBallots

variable {m : Nat} {qs : QuorumSystem A} {P P' : Poll A ι} {r r' : ProposerObject A}

theorem PollInv.oneValue (h : PollInv m qs P) : P.record.OneValue :=
  fun _ _ _ _ _ hv hv' => h.one (h.votes hv) (h.votes hv')

theorem PollInv.allSafe (h : PollInv m qs P) : P.record.AllSafe qs := fun _ _ _ hv =>
  h.safe (h.votes hv)

/-- **What a committed acceptor holds was chosen.** -/
theorem PollInv.chosen_of_committedValue (h : PollInv m qs P) {a : A} {v : String}
    (hv : LocalAcceptor.committedValue (P.instances a) = some v) :
    ∃ b, P.record.Chosen qs b v := by
  obtain ⟨b, w, β, u, hchosen, haccepted, hle⟩ :=
    h.committed (LocalAcceptor.committed_of_committedValue hv)
  obtain ⟨β', u', heq, hvote, -⟩ := h.accepted_some haccepted
  cases heq
  -- the value held is a vote at or above the choice
  have hu : u = w := Record.eq_of_chosen_of_vote h.oneValue h.allSafe hchosen hvote hle
  unfold LocalAcceptor.committedValue at hv
  rw [if_pos (LocalAcceptor.committed_of_committedValue hv), haccepted] at hv
  obtain rfl : u = v := Option.some.inj hv
  exact ⟨b, hu ▸ hchosen⟩

/-- What an acceptor tells about its votes when it promises a higher ballot. -/
theorem PollInv.reports (h : PollInv m qs P) {a : A} {b : BallotId}
    (hb : (P.instances a).promisedBallotId < b) :
    P.record.Reports b a ((P.instances a).accepted.getD { ballotId := some b }).report := by
  cases haccepted : (P.instances a).accepted with
  | none => exact fun b' _ v hv => h.accepted_none haccepted b' v hv
  | some p =>
    obtain ⟨β, v, rfl, hv, hmax⟩ := h.accepted_some haccepted
    exact ⟨lt_of_le_of_lt (h.le_promised hv) hb, hv, fun b' _ v' hv' => hmax b' v' hv'⟩

/-! ## The acceptors' side -/

/-- A proposer's part of the invariant survives any extension of the record in which nobody else
proposes what it may propose. -/
theorem ProposerInv.mono (h : ProposerInv m qs P r) (he : P.record.Extends P'.record)
    (hone : P'.record.OneValue) (hprepared : ∀ b, P.prepared b → P'.prepared b)
    (hproposed : ∀ b v, P.proposed b v → P'.proposed b v)
    (hnew : ∀ b ∈ r.openBallots, ∀ v, P'.proposed b v → P.proposed b v) :
    ProposerInv m qs P' r where
  majority := h.majority
  prepare_nodup := h.prepare_nodup
  propose_nodup := h.propose_nodup
  open_prepared b hb := hprepared b (h.open_prepared b hb)
  open_unproposed b hb v hv := h.open_unproposed b hb v (hnew b hb v hv)
  open_nodup := h.open_nodup
  promised q hq := le_trans (h.promised q hq) (he.promised_mono q.1)
  reports q hq := (h.reports q hq).mono he (h.promised q hq)
  safe b hb payload := (h.safe b hb payload).mono he hone
  granted b hb := by
    obtain ⟨Q, hQ, hall⟩ := h.granted b hb
    exact ⟨Q, hQ, fun a ha => ⟨le_trans (hall a ha).1 (he.promised_mono a), (hall a ha).2⟩⟩
  accepting p remaining n hp := by
    obtain ⟨hprop, hnodup, M, hM, hall⟩ := h.accepting p remaining n hp
    exact ⟨hproposed _ _ hprop, hnodup, M, hM, fun a ha => ⟨(hall a ha).1,
      he.vote_mono (hall a ha).2⟩⟩
  committing b remaining c hp := by
    obtain ⟨v, hv⟩ := h.committing b remaining c hp
    exact ⟨v, hv.mono he.vote_mono⟩

/-- Anything an acceptor does: what is to be shown of it. -/
theorem PollInv.extend (h : PollInv m qs P) (hproposed : P'.proposed = P.proposed)
    (hprepared : P'.prepared = P.prepared) (hobjects : P'.objects = P.objects)
    (he : P.record.Extends P'.record)
    (hvotes : ∀ {a b v}, P'.accepted a b v → P.proposed b v)
    (hle : ∀ {a b v}, P'.accepted a b v → b ≤ P'.record.promised a)
    (hnone : ∀ {a}, (P'.instances a).accepted = none → ∀ b v, ¬ P'.accepted a b v)
    (hsome : ∀ {a p}, (P'.instances a).accepted = some p →
      ∃ b v, p = { ballotId := some b, value := some v } ∧ P'.accepted a b v ∧
        ∀ b' v', P'.accepted a b' v' → b' ≤ b)
    (hcommitted : ∀ {a}, (P'.instances a).committed = true →
      ∃ b v β u, P.record.Chosen qs b v ∧
        (P'.instances a).accepted = some { ballotId := some β, value := some u } ∧ b ≤ β) :
    PollInv m qs P' := by
  have hone : P'.record.OneValue := fun _ _ _ _ _ hv hv' => h.one (hvotes hv) (hvotes hv')
  refine {
    votes := fun hv => hproposed ▸ hvotes hv, le_promised := hle
    one := fun hv hv' => h.one (hproposed ▸ hv) (hproposed ▸ hv')
    safe := fun hv => (h.safe (hproposed ▸ hv)).mono he hone
    proposed_prepared := fun hv => hprepared ▸ h.proposed_prepared (hproposed ▸ hv)
    accepted_none := hnone, accepted_some := hsome
    committed := fun hc => ?_, object := fun {o r} hr => ?_, disjoint := fun hr hr' => ?_ }
  · obtain ⟨b, v, β, u, hchosen, haccepted, hb⟩ := hcommitted hc
    exact ⟨b, v, β, u, hchosen.mono he.vote_mono, haccepted, hb⟩
  · rw [hobjects] at hr
    refine (h.object hr).mono he hone (fun b hb => hprepared ▸ hb) (fun b v hv => hproposed ▸ hv) ?_
    exact fun b _ v hv => hproposed ▸ hv
  · rw [hobjects] at hr hr'
    exact h.disjoint hr hr'

section acceptors

variable [DecidableEq A]

/-- Replace one acceptor's instance. -/
def Poll.setInstance (P : Poll A ι) (a : A) (i : PaxosInstance) : Poll A ι :=
  { P with instances := Function.update P.instances a i }

/-- A field of the instances after `setInstance`. -/
theorem Poll.setInstance_cases (P : Poll A ι) (a a' : A) (i : PaxosInstance) :
    (a' = a ∧ (P.setInstance a i).instances a' = i) ∨
      (a' ≠ a ∧ (P.setInstance a i).instances a' = P.instances a') := by
  by_cases ha : a' = a
  · exact .inl ⟨ha, by rw [ha]; exact Function.update_self ..⟩
  · exact .inr ⟨ha, Function.update_of_ne ha ..⟩

/-- An acceptor raises its promise. -/
theorem PollInv.promise (h : PollInv m qs P) {a : A} {b : BallotId}
    (hlt : (P.instances a).promisedBallotId < b) :
    PollInv m qs (P.setInstance a { P.instances a with promisedBallotId := b }) := by
  have hpromised : ∀ a', P.record.promised a' ≤
      (P.setInstance a { P.instances a with promisedBallotId := b }).record.promised a' := by
    intro a'
    rw [Poll.record_promised, Poll.record_promised]
    rcases P.setInstance_cases a a' { P.instances a with promisedBallotId := b } with ⟨rfl, heq⟩ | ⟨-, heq⟩
    · rw [heq]
      exact le_of_lt hlt
    · rw [heq]
  have hsame : ∀ a', ((P.setInstance a { P.instances a with promisedBallotId := b }).instances
      a').accepted = (P.instances a').accepted ∧
      ((P.setInstance a { P.instances a with promisedBallotId := b }).instances
        a').committed = (P.instances a').committed := by
    intro a'
    rcases P.setInstance_cases a a' { P.instances a with promisedBallotId := b } with ⟨rfl, heq⟩ | ⟨-, heq⟩
    · rw [heq]
      exact ⟨rfl, rfl⟩
    · rw [heq]
      exact ⟨rfl, rfl⟩
  refine h.extend rfl rfl rfl ⟨id, hpromised, .inl⟩ (fun hv => h.votes hv)
    (fun hv => le_trans (h.le_promised hv) (hpromised _)) ?_ ?_ ?_
  · intro a' hnone
    exact h.accepted_none ((hsame a').1 ▸ hnone)
  · intro a' p hsome
    exact h.accepted_some ((hsame a').1 ▸ hsome)
  · intro a' hcommitted
    rw [(hsame a').1]
    exact h.committed ((hsame a').2 ▸ hcommitted)

/-- An acceptor votes for a proposal. -/
theorem PollInv.vote (h : PollInv m qs P) {a : A} {p : Proposal}
    (hproposed : P.proposed p.ballotId p.value)
    (hle : (P.instances a).promisedBallotId ≤ p.ballotId) :
    PollInv m qs (({ P with
        accepted := fun a' b v => (a' = a ∧ b = p.ballotId ∧ v = p.value) ∨ P.accepted a' b v } :
          Poll A ι).setInstance a { P.instances a with
      promisedBallotId := p.ballotId
      accepted := some { ballotId := some p.ballotId, value := some p.value } }) := by
  generalize hP' : ({ P with accepted := fun a' b v =>
    (a' = a ∧ b = p.ballotId ∧ v = p.value) ∨ P.accepted a' b v } : Poll A ι) = P₁
  have hinstances : P₁.instances = P.instances := by rw [← hP']
  have haccepted : ∀ {a' b v}, P₁.accepted a' b v ↔
      (a' = a ∧ b = p.ballotId ∧ v = p.value) ∨ P.accepted a' b v := by
    intro a' b v
    rw [← hP']
  generalize hi : ({ P.instances a with
    promisedBallotId := p.ballotId
    accepted := some { ballotId := some p.ballotId, value := some p.value } } : PaxosInstance) = i
  have hcases : ∀ a', (a' = a ∧ (P₁.setInstance a i).instances a' = i) ∨
      (a' ≠ a ∧ (P₁.setInstance a i).instances a' = P.instances a') := by
    intro a'
    rw [← hinstances]
    exact Poll.setInstance_cases ..
  have hpromised : ∀ a', P.record.promised a' ≤ (P₁.setInstance a i).record.promised a' := by
    intro a'
    rw [Poll.record_promised, Poll.record_promised]
    rcases hcases a' with ⟨rfl, heq⟩ | ⟨-, heq⟩
    · rw [heq, ← hi]
      exact hle
    · rw [heq]
  refine h.extend (by rw [← hP']; rfl) (by rw [← hP']; rfl) (by rw [← hP']; rfl)
    ⟨fun hv => haccepted.mpr (.inr hv), hpromised, fun {a' b v} hv => ?_⟩ ?_ ?_ ?_ ?_ ?_
  · rcases haccepted.mp hv with ⟨rfl, rfl, rfl⟩ | hv
    · exact .inr hle
    · exact .inl hv
  · intro a' b v hv
    rcases haccepted.mp hv with ⟨rfl, rfl, rfl⟩ | hv
    · exact hproposed
    · exact h.votes hv
  · intro a' b v hv
    rcases haccepted.mp hv with ⟨rfl, rfl, rfl⟩ | hv
    · rw [Poll.record_promised]
      rcases hcases a' with ⟨-, heq⟩ | ⟨hne, -⟩
      · rw [heq, ← hi]
      · exact absurd rfl hne
    · exact le_trans (h.le_promised hv) (hpromised a')
  · intro a' hnone b v hv
    rcases hcases a' with ⟨rfl, heq⟩ | ⟨hne, heq⟩
    · rw [heq, ← hi] at hnone
      exact absurd hnone (by simp)
    · rcases haccepted.mp hv with ⟨rfl, -⟩ | hv
      · exact absurd rfl hne
      · exact h.accepted_none (heq ▸ hnone) b v hv
  · intro a' q hsome
    rcases hcases a' with ⟨rfl, heq⟩ | ⟨hne, heq⟩
    · rw [heq, ← hi] at hsome
      refine ⟨p.ballotId, p.value, (Option.some.inj hsome).symm,
        haccepted.mpr (.inl ⟨rfl, rfl, rfl⟩), fun b' v' hv' => ?_⟩
      rcases haccepted.mp hv' with ⟨-, rfl, -⟩ | hv'
      · exact le_refl _
      · exact le_trans (h.le_promised hv') hle
    · obtain ⟨b, v, rfl, hv, hmax⟩ := h.accepted_some (heq ▸ hsome)
      refine ⟨b, v, rfl, haccepted.mpr (.inr hv), fun b' v' hv' => ?_⟩
      rcases haccepted.mp hv' with ⟨rfl, -⟩ | hv'
      · exact absurd rfl hne
      · exact hmax b' v' hv'
  · intro a' hcommitted
    rcases hcases a' with ⟨rfl, heq⟩ | ⟨-, heq⟩
    · -- it was committed before, with something accepted at or above a choice
      rw [heq, ← hi] at hcommitted
      obtain ⟨b, v, β, u, hchosen, hacc, hb⟩ := h.committed hcommitted
      obtain ⟨β', u', hpair, hvote, -⟩ := h.accepted_some hacc
      cases hpair
      refine ⟨b, v, p.ballotId, p.value, hchosen, by rw [heq, ← hi], ?_⟩
      exact le_trans hb (le_trans (h.le_promised hvote) hle)
    · rw [heq] at hcommitted ⊢
      exact h.committed hcommitted

/-- **An acceptor commits** at a ballot that was chosen, having accepted there or above. -/
theorem PollInv.commit (h : PollInv m qs P) {a : A} {b : BallotId} {v : String}
    (hchosen : P.record.Chosen qs b v)
    (hok : (P.instances a).committed = true ∨
      ∃ q ∈ (P.instances a).accepted, ∃ β ∈ q.ballotId, b ≤ β) :
    PollInv m qs (P.setInstance a { P.instances a with committed := true }) := by
  have hcases : ∀ a', (a' = a ∧ (P.setInstance a { P.instances a with committed := true }).instances
      a' = { P.instances a with committed := true }) ∨
      (a' ≠ a ∧ (P.setInstance a { P.instances a with committed := true }).instances a' =
        P.instances a') := fun a' => P.setInstance_cases a a' _
  have hsame : ∀ a', ((P.setInstance a { P.instances a with committed := true }).instances
      a').accepted = (P.instances a').accepted ∧
      (P.setInstance a { P.instances a with committed := true }).record.promised a' =
        P.record.promised a' := by
    intro a'
    rw [Poll.record_promised, Poll.record_promised]
    rcases hcases a' with ⟨rfl, heq⟩ | ⟨-, heq⟩
    · rw [heq]
      exact ⟨rfl, rfl⟩
    · rw [heq]
      exact ⟨rfl, rfl⟩
  refine h.extend rfl rfl rfl ⟨id, fun a' => le_of_eq (hsame a').2.symm, .inl⟩ h.votes
    (fun {a' b v} hv => (hsame a').2 ▸ h.le_promised hv)
    (fun {a'} hnone => h.accepted_none ((hsame a').1 ▸ hnone))
    (fun {a' p} hsome => h.accepted_some ((hsame a').1 ▸ hsome)) ?_
  intro a' hcommitted
  rw [(hsame a').1]
  rcases hcases a' with ⟨rfl, heq⟩ | ⟨-, heq⟩
  · rcases hok with hold | ⟨q, hq, β, hβ, hle⟩
    · exact h.committed hold
    · obtain ⟨β', u, rfl, -, -⟩ := h.accepted_some hq
      obtain rfl : β' = β := Option.some.inj hβ
      exact ⟨b, v, β', u, hchosen, hq, hle⟩
  · rw [heq] at hcommitted
    exact h.committed hcommitted

end acceptors

/-! ## The proposers' side -/

section proposers

variable [DecidableEq ι]

/-- Replace one proposer. -/
def Poll.setObject (P : Poll A ι) (o : ι) (x : Option (ProposerObject A)) : Poll A ι :=
  { P with objects := Function.update P.objects o x }

/-- A slot gets another proposer: what is to be shown of it. -/
theorem PollInv.setObject (h : PollInv m qs P) (o : ι) (x : Option (ProposerObject A))
    (hx : ∀ r', x = some r' → ProposerInv m qs P r' ∧
      ∀ o' r, o' ≠ o → P.objects o' = some r → ∀ b ∈ r'.openBallots, b ∉ r.openBallots) :
    PollInv m qs (P.setObject o x) := by
  have hcases : ∀ o' r, (P.setObject o x).objects o' = some r →
      (o' = o ∧ x = some r) ∨ (o' ≠ o ∧ P.objects o' = some r) := by
    intro o' r hr
    change Function.update P.objects o x o' = some r at hr
    exact Parties.eq_of_update hr
  refine {
    votes := h.votes, le_promised := h.le_promised, one := h.one, safe := h.safe
    proposed_prepared := h.proposed_prepared, accepted_none := h.accepted_none
    accepted_some := h.accepted_some, committed := h.committed
    object := fun {o' r} hr => ?_, disjoint := fun {o₁ o₂ r₁ r₂} h₁ h₂ hne b hb => ?_ }
  · have hinv : ProposerInv m qs P r := by
      rcases hcases o' r hr with ⟨-, hr⟩ | ⟨-, hr⟩
      · exact (hx r hr).1
      · exact h.object hr
    exact hinv.mono (Record.Extends.refl _) h.oneValue (fun _ => id)
      (fun _ _ => id) fun _ _ _ => id
  · rcases hcases o₁ r₁ h₁ with ⟨heq₁, hx₁⟩ | ⟨hne₁, hold₁⟩
    · rcases hcases o₂ r₂ h₂ with ⟨heq₂, -⟩ | ⟨hne₂, hold₂⟩
      · exact absurd (heq₁.trans heq₂.symm) hne
      · exact (hx r₁ hx₁).2 o₂ r₂ hne₂ hold₂ b hb
    · rcases hcases o₂ r₂ h₂ with ⟨-, hx₂⟩ | ⟨-, hold₂⟩
      · exact fun hb' => (hx r₂ hx₂).2 o₁ r₁ hne₁ hold₁ b hb' hb
      · exact h.disjoint hold₁ hold₂ hne b hb

/-- A slot is used for another instance from now on. -/
theorem PollInv.discard (h : PollInv m qs P) (o : ι) : PollInv m qs (P.setObject o none) :=
  h.setObject o none fun _ hr => absurd hr (by simp)

/-- A proposer goes on, and opens no ballot. -/
theorem PollInv.updateObject (h : PollInv m qs P) {o : ι} (hr : P.objects o = some r)
    (hinv : ProposerInv m qs P r') (hopen : ∀ b ∈ r'.openBallots, b ∈ r.openBallots) :
    PollInv m qs (P.setObject o (some r')) := by
  refine h.setObject o (some r') fun r'' hr'' => ?_
  obtain rfl := Option.some.inj hr''
  exact ⟨hinv, fun o' r₁ hne hr₁ b hb => h.disjoint hr hr₁ (Ne.symm hne) b (hopen b hb)⟩

end proposers

theorem proposerInv_make {acceptors : List A} (hnodup : acceptors.Nodup) (id : String) :
    ProposerInv m qs P (.make m id acceptors) where
  majority := rfl
  prepare_nodup := hnodup
  propose_nodup := List.nodup_nil
  open_prepared _ hb := absurd hb List.not_mem_nil
  open_unproposed _ hb := absurd hb List.not_mem_nil
  open_nodup := List.nodup_nil
  promised _ hq := absurd hq List.not_mem_nil
  reports _ hq := absurd hq List.not_mem_nil
  safe _ hb := absurd hb List.not_mem_nil
  granted _ hb := absurd hb List.not_mem_nil
  accepting _ _ _ hp := absurd hp (by simp [ProposerObject.make])
  committing _ _ _ hp := absurd hp (by simp [ProposerObject.make])

/-- A proposer that is not preparing goes to another such phase. -/
theorem ProposerInv.setPhase (h : ProposerInv m qs P r) (phase : Phase A)
    (hold : ∀ answers, r.phase ≠ .preparing answers) (hnew : ∀ answers, phase ≠ .preparing answers)
    (haccepting : ∀ p remaining n, phase = .accepting p remaining n →
      P.proposed p.ballotId p.value ∧ remaining.Nodup ∧
        ∃ M : Finset A, M.card = n ∧ ∀ a ∈ M, a ∉ remaining ∧ P.accepted a p.ballotId p.value)
    (hcommitting : ∀ b remaining c, phase = .committing b remaining c →
      ∃ v, P.record.Chosen qs b v) :
    ProposerInv m qs P { r with phase } ∧
      ({ r with phase } : ProposerObject A).openBallots = r.openBallots := by
  have hopen : ({ r with phase } : ProposerObject A).openBallots = r.openBallots := by
    rw [ProposerObject.openBallots_of_not_preparing hold,
      ProposerObject.openBallots_of_not_preparing hnew]
  have hpromises : ({ r with phase } : ProposerObject A).promises = r.promises := by
    rw [ProposerObject.promises_of_not_preparing hold,
      ProposerObject.promises_of_not_preparing hnew]
  refine ⟨{
    majority := h.majority, prepare_nodup := h.prepare_nodup, propose_nodup := h.propose_nodup
    open_prepared := hopen ▸ h.open_prepared, open_unproposed := hopen ▸ h.open_unproposed
    open_nodup := hopen ▸ h.open_nodup, promised := hpromises ▸ h.promised
    reports := hpromises ▸ h.reports, safe := h.safe, granted := ?_
    accepting := haccepting, committing := hcommitting }, hopen⟩
  rw [hpromises]
  exact h.granted

namespace ProposerObject

theorem prepare_cases {b : BallotId} (h : r.prepare b = some r') :
    r.phase = .idle ∧ r' = { r with
      ballotId := b
      proposer := { r.proposer with proposeAcceptors := [] }
      phase := .preparing (r.proposer.prepareAcceptors.map fun _ => none) } := by
  unfold prepare at h
  split at h
  · rename_i hph
    exact ⟨hph, (Option.some.inj h).symm⟩
  · exact absurd h (by simp)

theorem outstanding_cases {k : Nat} {a : A} (h : r.outstanding k = some a) :
    (∃ answers, r.phase = .preparing answers) ∧ r.proposer.prepareAcceptors[k]? = some a := by
  unfold outstanding at h
  split at h
  · rename_i answers hph
    split at h
    · exact ⟨⟨answers, hph⟩, h⟩
    · exact absurd h (by simp)
  · exact absurd h (by simp)

theorem answer_eq {answers : List (Option (Option PrepareResponse))} (k : Nat)
    (response : Option PrepareResponse) (h : r.phase = .preparing answers) :
    r.answer k response = { r with phase := .preparing (answers.set k (some response)) } := by
  unfold answer
  rw [h]

theorem promises_of_preparing {answers : List (Option (Option PrepareResponse))}
    (h : r.phase = .preparing answers) :
    r.promises = promisesOf r.proposer.prepareAcceptors (answers.map (·.getD none)) := by
  simp [promises, h]

theorem promises_nodup (h : r.proposer.prepareAcceptors.Nodup) :
    (r.promises.map (·.1)).Nodup := by
  unfold promises
  split
  · exact h.sublist (promisesOf_sublist _ _)
  · exact List.nodup_nil

/-- One more answer adds at most the promise in it. -/
theorem mem_promises_answer {k : Nat} {response : Option PrepareResponse} {q : A × Promise}
    {a : A} (ha : r.outstanding k = some a) (hq : q ∈ (r.answer k response).promises) :
    q ∈ r.promises ∨ (q.1 = a ∧ response = some (.promise q.2)) := by
  obtain ⟨⟨answers, hph⟩, hacceptor⟩ := outstanding_cases ha
  rw [answer_eq k response hph] at hq
  rw [promises_of_preparing rfl] at hq
  rw [promises_of_preparing hph]
  rcases mem_promisesOf_set hq with hq | ⟨hk, hresponse⟩
  · exact .inl hq
  · exact .inr ⟨Option.some.inj (hk.symm.trans hacceptor), hresponse⟩

/-- The last answer of `prepare` is in. -/
theorem prepareDone_cases (h : r.prepareDone = some r') :
    ∃ answers, r.phase = .preparing answers ∧
      (r.promises.length < r.proposer.majority ∧ r' = { r with
          proposer := { r.proposer with proposeAcceptors := r.promises.map (·.1) }
          phase := .idle } ∨
        r.proposer.majority ≤ r.promises.length ∧ r' = { r with
          proposer := { r.proposer with
            proposeAcceptors := r.promises.map (·.1)
            selectedProposal := selectProposal (proposalsOf r.promises) }
          phase := .idle
          unusedBallots := r.ballotId :: r.unusedBallots }) := by
  unfold prepareDone at h
  split at h
  · rename_i answers hph
    refine ⟨answers, hph, ?_⟩
    rw [promises_of_preparing hph]
    split at h
    · unfold ProposerImpl.finishPrepare at h
      by_cases hlen : (promisesOf r.proposer.prepareAcceptors
          (answers.map (·.getD none))).length < r.proposer.majority
      · simp only [hlen, if_true, Bool.false_eq_true, if_false, Option.some.injEq] at h
        exact .inl ⟨hlen, h.symm⟩
      · simp only [hlen, if_false, if_true, Option.some.injEq] at h
        exact .inr ⟨not_lt.mp hlen, h.symm⟩
    · exact absurd h (by simp)
  · exact absurd h (by simp)

theorem propose_cases {b : BallotId} {value : String} (h : r.propose b value = some r') :
    r.phase = .idle ∧ b ∈ r.unusedBallots ∧ r' = { r with
      unusedBallots := r.unusedBallots.erase b
      phase := .accepting { ballotId := b, value := r.proposer.proposalValue value }
        r.proposer.proposeAcceptors 0 } := by
  unfold propose at h
  split at h
  · rename_i hph
    split at h
    · rename_i hmem
      exact ⟨hph, hmem, (Option.some.inj h).symm⟩
    · exact absurd h (by simp)
  · exact absurd h (by simp)

theorem acceptDone_cases (h : r.acceptDone = some r') :
    ∃ p n, r.phase = .accepting p [] n ∧
      (r' = { r with phase := .idle } ∨
        r.proposer.majority ≤ n ∧ r' = { r with
          phase := .committing p.ballotId r.proposer.proposeAcceptors false }) := by
  unfold acceptDone at h
  split at h
  · rename_i p n hph
    refine ⟨p, n, hph, ?_⟩
    split at h
    · exact .inl (Option.some.inj h).symm
    · rename_i hn
      exact .inr ⟨not_lt.mp hn, (Option.some.inj h).symm⟩
  · exact absurd h (by simp)

theorem commitDone_cases (h : r.commitDone = some r') :
    (∃ b c, r.phase = .committing b [] c) ∧ r' = { r with phase := .idle } := by
  unfold commitDone at h
  split at h
  · rename_i b c hph
    exact ⟨⟨b, c, hph⟩, (Option.some.inj h).symm⟩
  · exact absurd h (by simp)

end ProposerObject

/-! ## One lemma per move of a proposer -/

/-- A `prepare` with a new ballot begins. -/
theorem ProposerInv.prepare (h : ProposerInv m qs P r) {b : BallotId} (hnew : ¬ P.prepared b)
    (hproposed : ∀ v, ¬ P.proposed b v) (hprepare : r.prepare b = some r')
    (hP' : P'.record = P.record) (hsame : P'.proposed = P.proposed)
    (hprepared : ∀ b', P'.prepared b' ↔ b' = b ∨ P.prepared b') :
    ProposerInv m qs P' r' ∧ r'.openBallots = b :: r.openBallots := by
  obtain ⟨hph, rfl⟩ := ProposerObject.prepare_cases hprepare
  have hopen : r.openBallots = r.unusedBallots :=
    ProposerObject.openBallots_of_not_preparing (by simp [hph])
  have hnone : ∀ q, q ∉ promisesOf r.proposer.prepareAcceptors
      ((r.proposer.prepareAcceptors.map fun _ => (none : Option (Option PrepareResponse))).map
        (·.getD none)) := by
    intro q hq
    obtain ⟨k, -, hk⟩ := mem_promisesOf.mp hq
    rw [List.map_map, List.getElem?_map] at hk
    cases hget : r.proposer.prepareAcceptors[k]? <;> simp [hget] at hk
  refine ⟨{
    majority := h.majority, prepare_nodup := h.prepare_nodup, propose_nodup := List.nodup_nil
    open_prepared := fun b' hb' => ?_, open_unproposed := fun b' hb' v hv => ?_
    open_nodup := ?_, promised := fun q hq => absurd hq (hnone q)
    reports := fun q hq => absurd hq (hnone q), safe := fun b' hb' payload => ?_
    granted := fun b' hb' => ?_, accepting := fun _ _ _ hp => absurd hp (by simp)
    committing := fun _ _ _ hp => absurd hp (by simp) }, by rw [hopen]; rfl⟩
  · rcases List.mem_cons.mp hb' with rfl | hb'
    · exact (hprepared b').mpr (.inl rfl)
    · exact (hprepared b').mpr (.inr (h.open_prepared b' (hopen ▸ hb')))
  · rw [hsame] at hv
    rcases List.mem_cons.mp hb' with rfl | hb'
    · exact hproposed v hv
    · exact h.open_unproposed b' (hopen ▸ hb') v hv
  · refine List.nodup_cons.mpr ⟨fun hb => hnew (h.open_prepared b (hopen ▸ hb)), ?_⟩
    exact hopen ▸ h.open_nodup
  · rw [hP']
    exact h.safe b' hb' payload
  · obtain ⟨Q, hQ, hall⟩ := h.granted b' hb'
    refine ⟨Q, hQ, fun a ha => ⟨hP' ▸ (hall a ha).1, fun hq => ?_⟩⟩
    obtain ⟨q, hq, -⟩ := List.mem_map.mp hq
    exact absurd hq (hnone q)

/-- An answer to the `prepare` in progress: what is to be shown of the promises. -/
theorem ProposerInv.answer (h : ProposerInv m qs P r) {k : Nat} {response : Option PrepareResponse}
    {answers : List (Option (Option PrepareResponse))} (hph : r.phase = .preparing answers)
    (hpromised : ∀ q ∈ (r.answer k response).promises, r.ballotId ≤ P.record.promised q.1)
    (hreports : ∀ q ∈ (r.answer k response).promises, P.record.Reports r.ballotId q.1 q.2.report)
    (hgranted : ∀ b ∈ r.unusedBallots, ∃ Q, qs.IsQuorum Q ∧ ∀ a ∈ Q, b ≤ P.record.promised a ∧
      (a ∈ (r.answer k response).promises.map (·.1) → b < r.ballotId)) :
    ProposerInv m qs P (r.answer k response) ∧
      (r.answer k response).openBallots = r.openBallots := by
  rw [ProposerObject.answer_eq k response hph] at hpromised hreports hgranted ⊢
  have hopen : ({ r with phase := .preparing (answers.set k (some response)) } :
      ProposerObject A).openBallots = r.openBallots := by
    unfold ProposerObject.openBallots
    rw [hph]
  exact ⟨{
    majority := h.majority, prepare_nodup := h.prepare_nodup, propose_nodup := h.propose_nodup
    open_prepared := hopen ▸ h.open_prepared, open_unproposed := hopen ▸ h.open_unproposed
    open_nodup := hopen ▸ h.open_nodup, promised := hpromised, reports := hreports, safe := h.safe
    granted := hgranted, accepting := fun _ _ _ hp => absurd hp (by simp)
    committing := fun _ _ _ hp => absurd hp (by simp) }, hopen⟩

/-- A prepare was rejected or went unanswered. -/
theorem ProposerInv.unpromised (h : ProposerInv m qs P r) {k : Nat} {a : A}
    {response : Option PrepareResponse} (ha : r.outstanding k = some a)
    (hresponse : ∀ promise, response ≠ some (.promise promise)) :
    ProposerInv m qs P (r.answer k response) ∧
      (r.answer k response).openBallots = r.openBallots := by
  obtain ⟨⟨answers, hph⟩, -⟩ := ProposerObject.outstanding_cases ha
  have hsub : ∀ q ∈ (r.answer k response).promises, q ∈ r.promises := by
    intro q hq
    rcases ProposerObject.mem_promises_answer ha hq with hq | ⟨-, heq⟩
    · exact hq
    · exact absurd heq (hresponse q.2)
  refine h.answer hph (fun q hq => h.promised q (hsub q hq)) (fun q hq => h.reports q (hsub q hq)) ?_
  intro b hb
  obtain ⟨Q, hQ, hall⟩ := h.granted b hb
  refine ⟨Q, hQ, fun a' ha' => ⟨(hall a' ha').1, fun hmem => ?_⟩⟩
  obtain ⟨q, hq, rfl⟩ := List.mem_map.mp hmem
  exact (hall q.1 ha').2 (List.mem_map_of_mem (hsub q hq))

/-- **An acceptor promises** the ballot of the proposer, and the proposer hears of it. -/
theorem ProposerInv.grant [DecidableEq A] (hP : PollInv m qs P) (h : ProposerInv m qs P r) {k : Nat}
    {a : A} (ha : r.outstanding k = some a)
    (hlt : (P.instances a).promisedBallotId < r.ballotId) :
    ProposerInv m qs (P.setInstance a { P.instances a with promisedBallotId := r.ballotId })
        (r.answer k (some (.promise
          ((P.instances a).accepted.getD { ballotId := some r.ballotId })))) ∧
      (r.answer k (some (.promise
        ((P.instances a).accepted.getD { ballotId := some r.ballotId })))).openBallots =
        r.openBallots := by
  obtain ⟨⟨answers, hph⟩, -⟩ := ProposerObject.outstanding_cases ha
  have hpoll := hP.promise hlt
  have hraised : P.record.promised a < r.ballotId := hlt
  generalize hP' : P.setInstance a { P.instances a with promisedBallotId := r.ballotId } = P' at hpoll ⊢
  have hpromised_a : P'.record.promised a = r.ballotId := by
    rw [← hP', Poll.record_promised]
    show (Function.update P.instances a _ a).promisedBallotId = _
    rw [Function.update_self]
  have he : P.record.Extends P'.record := by
    refine ⟨fun hv => by rw [← hP']; exact hv, fun a' => ?_, fun hv => .inl (by
      rw [← hP'] at hv
      exact hv)⟩
    by_cases haa : a' = a
    · rw [haa, hpromised_a]
      exact le_of_lt hraised
    · rw [← hP', Poll.record_promised, Poll.record_promised]
      show _ ≤ (Function.update P.instances a _ a').promisedBallotId
      rw [Function.update_of_ne haa]
  have h' : ProposerInv m qs P' r := by
    refine h.mono he hpoll.oneValue ?_ ?_ ?_
    · rw [← hP']
      exact fun _ => id
    · rw [← hP']
      exact fun _ _ => id
    · rw [← hP']
      exact fun _ _ _ => id
  refine h'.answer hph (fun q hq => ?_) (fun q hq => ?_) fun b hb => ?_
  · rcases ProposerObject.mem_promises_answer ha hq with hq | ⟨heq, -⟩
    · exact h'.promised q hq
    · rw [heq, hpromised_a]
  · rcases ProposerObject.mem_promises_answer ha hq with hq | ⟨heq, hresponse⟩
    · exact h'.reports q hq
    · -- what the acceptor tells is true when it promises, and stays so
      simp only [Option.some.injEq, PrepareResponse.promise.injEq] at hresponse
      rw [heq, ← hresponse]
      have hreport := hP.reports hlt
      cases hr : ((P.instances a).accepted.getD { ballotId := some r.ballotId }).report with
      | none =>
        rw [hr] at hreport
        intro b' hb' v hv
        exact hreport b' hb' v (by rw [← hP'] at hv; exact hv)
      | some x =>
        rw [hr] at hreport
        obtain ⟨hxlt, hvote, hmax⟩ := hreport
        exact ⟨hxlt, he.vote_mono hvote, fun b' hb' v hv => hmax b' hb' v (by
          rw [← hP'] at hv
          exact hv)⟩
  · obtain ⟨Q, hQ, hall⟩ := h.granted b hb
    refine ⟨Q, hQ, fun a' ha' => ⟨le_trans (hall a' ha').1 (he.promised_mono a'), fun hmem => ?_⟩⟩
    obtain ⟨q, hq, rfl⟩ := List.mem_map.mp hmem
    rcases ProposerObject.mem_promises_answer ha hq with hq | ⟨heq, -⟩
    · exact (hall q.1 ha').2 (List.mem_map_of_mem hq)
    · exact lt_of_le_of_lt (hall q.1 ha').1 (heq ▸ hraised)

section quorums

variable [DecidableEq A] (hqs : ∀ M : Finset A, m ≤ M.card → qs.IsQuorum {a | a ∈ M})
include hqs

/-- The acceptors that promised are a quorum if they are enough. -/
theorem ProposerInv.promises_quorum (h : ProposerInv m qs P r)
    (hlen : r.proposer.majority ≤ r.promises.length) :
    qs.IsQuorum {a | a ∈ r.promises.map (·.1)} := by
  have hcard := List.toFinset_card_of_nodup (ProposerObject.promises_nodup h.prepare_nodup)
  have hquorum := hqs (r.promises.map (·.1)).toFinset (by
    rw [hcard, List.length_map, ← h.majority]
    exact hlen)
  have hset : {a | a ∈ (r.promises.map (·.1)).toFinset} = {a | a ∈ r.promises.map (·.1)} := by
    ext a
    exact List.mem_toFinset
  rw [hset] at hquorum
  exact hquorum

/-- **A later `prepare` that succeeds has a higher ballot.** -/
theorem ProposerInv.unused_lt (h : ProposerInv m qs P r)
    (hlen : r.proposer.majority ≤ r.promises.length) {b : BallotId} (hb : b ∈ r.unusedBallots) :
    b < r.ballotId := by
  obtain ⟨Q, hQ, hall⟩ := h.granted b hb
  obtain ⟨a, haQ, hapromises⟩ := qs.inter hQ (h.promises_quorum hqs hlen)
  exact (hall a haQ).2 hapromises

/-- `prepare` ends. -/
theorem ProposerInv.prepareDone (hP : PollInv m qs P) (h : ProposerInv m qs P r)
    (hdone : r.prepareDone = some r') :
    ProposerInv m qs P r' ∧ ∀ b ∈ r'.openBallots, b ∈ r.openBallots := by
  obtain ⟨answers, hph, ⟨-, rfl⟩ | ⟨hlen, rfl⟩⟩ := ProposerObject.prepareDone_cases hdone
  · -- a failed `prepare` keeps the promises it got, and the selected proposal of an earlier one
    refine ⟨{
      majority := h.majority, prepare_nodup := h.prepare_nodup
      propose_nodup := ProposerObject.promises_nodup h.prepare_nodup
      open_prepared := fun b hb => h.open_prepared b (ProposerObject.unused_subset_openBallots hb)
      open_unproposed := fun b hb => h.open_unproposed b (ProposerObject.unused_subset_openBallots hb)
      open_nodup := ?_, promised := fun _ hq => absurd hq List.not_mem_nil
      reports := fun _ hq => absurd hq List.not_mem_nil, safe := h.safe, granted := fun b hb => ?_
      accepting := fun _ _ _ hp => absurd hp (by simp)
      committing := fun _ _ _ hp => absurd hp (by simp) },
      fun b hb => ProposerObject.unused_subset_openBallots hb⟩
    · have hnodup := h.open_nodup
      unfold ProposerObject.openBallots at hnodup
      rw [hph] at hnodup
      exact (List.nodup_cons.mp hnodup).2
    · obtain ⟨Q, hQ, hall⟩ := h.granted b hb
      exact ⟨Q, hQ, fun a ha => ⟨(hall a ha).1, fun hq => absurd hq List.not_mem_nil⟩⟩
  · have hopen : r.openBallots = r.ballotId :: r.unusedBallots := by
      unfold ProposerObject.openBallots
      rw [hph]
    have hsafe : ∀ payload, P.record.SafeAt qs r.ballotId
        (({ r.proposer with
          proposeAcceptors := r.promises.map (·.1)
          selectedProposal := selectProposal (proposalsOf r.promises) } :
            ProposerImpl A).proposalValue payload) :=
      safeAt_of_promises hP.oneValue hP.allSafe (h.promises_quorum hqs hlen) h.promised h.reports rfl
    refine ⟨{
      majority := h.majority, prepare_nodup := h.prepare_nodup
      propose_nodup := ProposerObject.promises_nodup h.prepare_nodup
      open_prepared := fun b hb => h.open_prepared b (hopen ▸ hb)
      open_unproposed := fun b hb => h.open_unproposed b (hopen ▸ hb)
      open_nodup := hopen ▸ h.open_nodup, promised := fun _ hq => absurd hq List.not_mem_nil
      reports := fun _ hq => absurd hq List.not_mem_nil
      safe := fun b hb payload => ?_, granted := fun b hb => ?_
      accepting := fun _ _ _ hp => absurd hp (by simp)
      committing := fun _ _ _ hp => absurd hp (by simp) }, fun b hb => hopen ▸ hb⟩
    · rcases List.mem_cons.mp hb with rfl | hb
      · exact hsafe payload
      · exact (hsafe payload).of_le (le_of_lt (h.unused_lt hqs hlen hb))
    · rcases List.mem_cons.mp hb with rfl | hb
      · refine ⟨_, h.promises_quorum hqs hlen, fun a ha => ⟨?_, fun hq =>
          absurd hq List.not_mem_nil⟩⟩
        obtain ⟨q, hq, rfl⟩ := List.mem_map.mp ha
        exact h.promised q hq
      · obtain ⟨Q, hQ, hall⟩ := h.granted b hb
        exact ⟨Q, hQ, fun a ha => ⟨(hall a ha).1, fun hq => absurd hq List.not_mem_nil⟩⟩

omit [DecidableEq A] in
/-- The accept loop ends: enough votes are a choice. -/
theorem ProposerInv.acceptDone (h : ProposerInv m qs P r) (hdone : r.acceptDone = some r') :
    ProposerInv m qs P r' ∧ r'.openBallots = r.openBallots := by
  obtain ⟨p, n, hph, rfl | ⟨hn, rfl⟩⟩ := ProposerObject.acceptDone_cases hdone
  · exact h.setPhase _ (by simp [hph]) (by simp) (by simp) (by simp)
  · refine h.setPhase _ (by simp [hph]) (by simp) (by simp) fun b remaining c heq => ?_
    obtain ⟨-, -, M, hM, hall⟩ := h.accepting p [] n hph
    cases heq
    refine ⟨p.value, {a | a ∈ M}, hqs M (hM ▸ h.majority ▸ hn), fun a ha => (hall a ha).2⟩

end quorums

/-! ## What the instance goes through -/

/-- A proposal appears at a ballot that nobody may propose any more. -/
theorem PollInv.addProposed (h : PollInv m qs P) {b : BallotId} {v : String} (hprepared : P.prepared b)
    (hunproposed : ∀ v, ¬ P.proposed b v) (hsafe : P.record.SafeAt qs b v)
    (hclosed : ∀ o r, P.objects o = some r → b ∉ r.openBallots) :
    PollInv m qs ({ P with proposed := fun b' v' => (b' = b ∧ v' = v) ∨ P.proposed b' v' } :
      Poll A ι) where
  votes hv := .inr (h.votes hv)
  le_promised := h.le_promised
  one := by
    rintro b' w w' (⟨rfl, rfl⟩ | hw) (⟨hb, rfl⟩ | hw')
    · rfl
    · exact absurd hw' (hunproposed w')
    · exact absurd (hb ▸ hw) (hunproposed w)
    · exact h.one hw hw'
  safe := by
    rintro b' w (⟨rfl, rfl⟩ | hw)
    · exact hsafe
    · exact h.safe hw
  proposed_prepared := by
    rintro b' w (⟨rfl, rfl⟩ | hw)
    · exact hprepared
    · exact h.proposed_prepared hw
  accepted_none := h.accepted_none
  accepted_some := h.accepted_some
  committed := h.committed
  object := by
    intro o r hr
    refine (h.object hr).mono (Record.Extends.refl _) h.oneValue (fun _ => id) (fun _ _ => .inr) ?_
    rintro b' hb' w (⟨rfl, -⟩ | hw)
    · exact absurd hb' (hclosed o r hr)
    · exact hw
  disjoint := h.disjoint

/-- An idle proposer gives up a ballot. -/
theorem ProposerInv.erase (h : ProposerInv m qs P r) (hph : r.phase = .idle) (b : BallotId) :
    ProposerInv m qs P { r with unusedBallots := r.unusedBallots.erase b } ∧
      ({ r with unusedBallots := r.unusedBallots.erase b } : ProposerObject A).openBallots =
        r.openBallots.erase b := by
  have hopen : r.openBallots = r.unusedBallots :=
    ProposerObject.openBallots_of_not_preparing (by simp [hph])
  have hopen' : ({ r with unusedBallots := r.unusedBallots.erase b } :
      ProposerObject A).openBallots = r.openBallots.erase b := by
    rw [hopen]
    exact ProposerObject.openBallots_of_not_preparing (by simp [hph])
  have hpromises : ({ r with unusedBallots := r.unusedBallots.erase b } :
      ProposerObject A).promises = [] :=
    ProposerObject.promises_of_not_preparing (by simp [hph])
  refine ⟨{
    majority := h.majority, prepare_nodup := h.prepare_nodup, propose_nodup := h.propose_nodup
    open_prepared := fun b' hb' => h.open_prepared b' (List.mem_of_mem_erase (hopen' ▸ hb'))
    open_unproposed := fun b' hb' => h.open_unproposed b' (List.mem_of_mem_erase (hopen' ▸ hb'))
    open_nodup := hopen' ▸ h.open_nodup.erase b
    promised := by simp [hpromises], reports := by simp [hpromises]
    safe := fun b' hb' => h.safe b' (List.mem_of_mem_erase hb')
    granted := fun b' hb' => ?_, accepting := h.accepting, committing := h.committing }, hopen'⟩
  obtain ⟨Q, hQ, hall⟩ := h.granted b' (List.mem_of_mem_erase hb')
  exact ⟨Q, hQ, fun a ha => ⟨(hall a ha).1, by simp [hpromises]⟩⟩

/-- An empty tally. -/
theorem ProposerInv.startAccepting (h : ProposerInv m qs P r) {p : Proposal}
    (hph : r.phase = .idle) (hproposed : P.proposed p.ballotId p.value) :
    ProposerInv m qs P { r with phase := .accepting p r.proposer.proposeAcceptors 0 } ∧
      ({ r with phase := .accepting p r.proposer.proposeAcceptors 0 } :
        ProposerObject A).openBallots = r.openBallots := by
  refine h.setPhase _ (by simp [hph]) (by simp) (fun q remaining n heq => ?_) (by simp)
  cases heq
  exact ⟨hproposed, h.propose_nodup, ∅, rfl, fun a ha => absurd ha (Finset.notMem_empty a)⟩

section instance_moves

variable [DecidableEq ι] {o : ι}

/-- A proposer draws a ballot that nobody has drawn before. -/
theorem PollInv.prepare (h : PollInv m qs P) (hr : P.objects o = some r) {b : BallotId}
    (hnew : ¬ P.prepared b) (hprepare : r.prepare b = some r') :
    PollInv m qs (({ P with prepared := fun b' => b' = b ∨ P.prepared b' } : Poll A ι).setObject o
      (some r')) := by
  have hproposed : ∀ v, ¬ P.proposed b v := fun v hv => hnew (h.proposed_prepared hv)
  obtain ⟨hinv, hopen⟩ : ProposerInv m qs
      ({ P with prepared := fun b' => b' = b ∨ P.prepared b' } : Poll A ι) r' ∧
        r'.openBallots = b :: r.openBallots :=
    (h.object hr).prepare hnew hproposed hprepare rfl rfl fun _ => Iff.rfl
  have h' : PollInv m qs ({ P with prepared := fun b' => b' = b ∨ P.prepared b' } : Poll A ι) := {
    votes := h.votes, le_promised := h.le_promised, one := h.one, safe := h.safe
    proposed_prepared := fun hv => .inr (h.proposed_prepared hv), accepted_none := h.accepted_none
    accepted_some := h.accepted_some, committed := h.committed, disjoint := h.disjoint
    object := fun hr => (h.object hr).mono (Record.Extends.refl _) h.oneValue (fun _ => .inr)
      (fun _ _ => id) fun _ _ _ => id }
  refine h'.setObject o (some r') fun r'' hr'' => ?_
  obtain rfl := Option.some.inj hr''
  refine ⟨hinv, fun o' r₁ hne hr₁ b' hb' => ?_⟩
  rw [hopen] at hb'
  rcases List.mem_cons.mp hb' with rfl | hb'
  · exact fun hb₁ => hnew ((h.object hr₁).open_prepared b' hb₁)
  · exact h.disjoint hr hr₁ (Ne.symm hne) b' hb'

/-- **A proposer proposes**, at a ballot that is its own. -/
theorem PollInv.propose (h : PollInv m qs P) (hr : P.objects o = some r) {b : BallotId}
    {value : String} (hpropose : r.propose b value = some r') :
    PollInv m qs (({ P with proposed := fun b' v =>
      (b' = b ∧ v = r.proposer.proposalValue value) ∨ P.proposed b' v } : Poll A ι).setObject o
        (some r')) := by
  obtain ⟨hph, hmem, rfl⟩ := ProposerObject.propose_cases hpropose
  have hobj := h.object hr
  have hmem' : b ∈ r.openBallots := ProposerObject.unused_subset_openBallots hmem
  -- first the proposer gives the ballot up, then the proposal appears, then it is sent out
  obtain ⟨herased, hopen⟩ := hobj.erase hph b
  have h₁ := h.updateObject hr herased fun b' hb' => List.mem_of_mem_erase (hopen ▸ hb')
  have hobject₁ : ∀ {o' r₁}, (P.setObject o
      (some { r with unusedBallots := r.unusedBallots.erase b })).objects o' = some r₁ →
      (o' = o ∧ r₁ = { r with unusedBallots := r.unusedBallots.erase b }) ∨
        (o' ≠ o ∧ P.objects o' = some r₁) := by
    intro o' r₁ hr₁
    change Function.update P.objects o _ o' = some r₁ at hr₁
    exact Parties.eq_some_of_update hr₁
  have h₂ := h₁.addProposed (hobj.open_prepared b hmem') (hobj.open_unproposed b hmem')
    (hobj.safe b hmem value) (by
      intro o' r₁ hr₁
      rcases hobject₁ hr₁ with ⟨-, rfl⟩ | ⟨hne, hr₁⟩
      · rw [hopen]
        exact hobj.open_nodup.not_mem_erase
      · exact h.disjoint hr hr₁ (Ne.symm hne) b hmem')
  have hself : (P.setObject o (some { r with
      unusedBallots := r.unusedBallots.erase b })).objects o =
      some { r with unusedBallots := r.unusedBallots.erase b } := Function.update_self ..
  obtain ⟨hsent, hopen'⟩ := (h₂.object hself).startAccepting
    (p := { ballotId := b, value := r.proposer.proposalValue value }) hph (.inl ⟨rfl, rfl⟩)
  have h₃ := h₂.updateObject hself hsent fun b' hb' => hopen' ▸ hb'
  unfold Poll.setObject at h₃ ⊢
  rw [Function.update_idem] at h₃
  exact h₃

/-- **An acceptor accepts** what a proposer proposes. -/
theorem PollInv.accept [DecidableEq A] (h : PollInv m qs P) (hr : P.objects o = some r)
    {p : Proposal} {a : A} {remaining : List A} {n : Nat}
    (hph : r.phase = .accepting p (a :: remaining) n)
    (hle : (P.instances a).promisedBallotId ≤ p.ballotId) :
    PollInv m qs ((({ P with
        accepted := fun a' b v => (a' = a ∧ b = p.ballotId ∧ v = p.value) ∨ P.accepted a' b v } :
          Poll A ι).setInstance a { P.instances a with
        promisedBallotId := p.ballotId
        accepted := some { ballotId := some p.ballotId, value := some p.value } }).setObject o
      (some { r with phase := .accepting p remaining (n + 1) })) := by
  obtain ⟨hproposed, -⟩ := (h.object hr).accepting p _ n hph
  have h' := h.vote hproposed hle
  obtain ⟨-, hnodup, M, hM, hall⟩ := (h'.object hr).accepting p _ n hph
  obtain ⟨hnot, hnodup⟩ := List.nodup_cons.mp hnodup
  obtain ⟨hinv, hopen⟩ := (h'.object hr).setPhase (.accepting p remaining (n + 1))
    (by simp [hph]) (by simp) (by
      intro p' remaining' n' heq
      cases heq
      refine ⟨hproposed, hnodup, insert a M, ?_, fun a' ha' => ?_⟩
      · rw [Finset.card_insert_of_notMem fun ha => (hall a ha).1 List.mem_cons_self, hM]
      · rcases Finset.mem_insert.mp ha' with rfl | ha'
        · exact ⟨hnot, .inl ⟨rfl, rfl, rfl⟩⟩
        · exact ⟨fun hmem => (hall a' ha').1 (List.mem_cons_of_mem _ hmem), (hall a' ha').2⟩)
    (by simp)
  exact h'.updateObject hr hinv fun b hb => hopen ▸ hb

/-- An acceptor refuses. -/
theorem PollInv.refuse (h : PollInv m qs P) (hr : P.objects o = some r) {p : Proposal} {a : A}
    {remaining : List A} {n : Nat} (hph : r.phase = .accepting p (a :: remaining) n) :
    PollInv m qs (P.setObject o (some { r with phase := .accepting p remaining n })) := by
  obtain ⟨hproposed, hnodup, M, hM, hall⟩ := (h.object hr).accepting p _ n hph
  obtain ⟨hinv, hopen⟩ := (h.object hr).setPhase (.accepting p remaining n)
    (by simp [hph]) (by simp) (by
      intro p' remaining' n' heq
      cases heq
      exact ⟨hproposed, (List.nodup_cons.mp hnodup).2, M, hM, fun a' ha' =>
        ⟨fun hmem => (hall a' ha').1 (List.mem_cons_of_mem _ hmem), (hall a' ha').2⟩⟩)
    (by simp)
  exact h.updateObject hr hinv fun b hb => hopen ▸ hb

/-- **An acceptor is sent the commit.** -/
theorem PollInv.commitNext [DecidableEq A] (h : PollInv m qs P) (hr : P.objects o = some r)
    {b : BallotId} {a : A} {remaining : List A} {c : Bool}
    (hph : r.phase = .committing b (a :: remaining) c) (c' : Bool)
    (hok : (P.instances a).committed = true ∨
      ∃ q ∈ (P.instances a).accepted, ∃ β ∈ q.ballotId, b ≤ β) :
    PollInv m qs ((P.setInstance a { P.instances a with committed := true }).setObject o
      (some { r with phase := .committing b remaining c' })) := by
  obtain ⟨v, hchosen⟩ := (h.object hr).committing b _ c hph
  have h' := h.commit hchosen hok
  obtain ⟨hinv, hopen⟩ := (h'.object hr).setPhase (.committing b remaining c')
    (by simp [hph]) (by simp) (by simp) (by
      intro b' remaining' c'' heq
      cases heq
      exact (h'.object hr).committing b _ c hph)
  exact h'.updateObject hr hinv fun b hb => hopen ▸ hb

end instance_moves

end ReplicatedCounter.Paxos
