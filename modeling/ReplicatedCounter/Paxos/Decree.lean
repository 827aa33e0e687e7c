import Mathlib.Logic.Relation
import ReplicatedCounter.Lib.Voting
import ReplicatedCounter.Paxos.Register

/-!
# One register by itself

A `Decree` is everything that concerns a single register id: the acceptors' instances of it, the
objects made for it, and what has been observed of it. Its steps are what one acceptor call or one
local move of an object can do to that, with the stores, the keys and the other registers out of
sight. `Paxos/Agreement.lean` shows that the interleaved world moves every one of its registers by
these steps.

**Ballots are not unique here.** Every object counts its own lock ids from one, so two objects
draw the same ballot `(register id, lock id)`. What stands in for uniqueness is that an acceptor
promises a ballot *strictly* above its last one, so no acceptor promises the same ballot twice, and
that `makePaxosWor` makes the majority all of the acceptors: whoever may write at a ballot holds
*every* acceptor's promise of it, and no second object holds even one (`DecreeInv.disjoint`).

The other gap is a lock id used late. `write(k, …)` after a newer `lock()` still proposes at `k`,
with whatever the newer `lock()` selected; it is harmless because it only talks to acceptors that
promised the newer ballot (`ObjectInv.holders_promised`).
-/

set_option autoImplicit false

namespace ReplicatedCounter.Paxos

open Voting

variable {A ι : Type}

/-! ## The machine -/

/-- The state of one register. -/
structure Decree (A ι : Type) where
  instances : A → PaxosInstance
  /-- Which `accept` answered `true`. -/
  accepted : A → BallotId → String → Prop
  /-- The payloads of the writes so far. -/
  wrote : String → Prop
  /-- The values `getCommittedValue` has returned so far. -/
  answered : String → Prop
  objects : ι → Option (RegisterObject A)

/-- The votes and promises of a register. -/
def Decree.record (d : Decree A ι) : Record A BallotId String where
  vote := d.accepted
  promised a := (d.instances a).promisedBallotId

namespace RegisterObject

/-- The promises received by the `lock()` in progress. -/
def promises (r : RegisterObject A) : List (A × Promise) :=
  match r.phase with
  | .preparing answers => promisesOf r.proposer.prepareAcceptors (answers.map (·.getD none))
  | _ => []

/-- The acceptors whose promise of the newest ballot the object holds. -/
def holders (r : RegisterObject A) : List A :=
  match r.phase with
  | .preparing _ => r.promises.map (·.1)
  | _ => r.proposer.proposeAcceptors

/-- The newest ballot has not been proposed yet: `lock()` is running, or has returned the id. -/
def Unproposed (r : RegisterObject A) : Prop :=
  (∃ answers, r.phase = .preparing answers) ∨ r.lockId ∈ r.unusedLocks

/-- What an object does without an acceptor's state changing. -/
inductive LocalMove : RegisterObject A → RegisterObject A → Prop
  | lock {r r' : RegisterObject A} : r.lock = some r' → LocalMove r r'
  /-- A prepare was rejected or went unanswered. -/
  | unpromised {r : RegisterObject A} (k : Nat) {response : Option PrepareResponse} :
      (∀ promise, response ≠ some (.promise promise)) → LocalMove r (r.answer k response)
  | lockDone {r r' : RegisterObject A} {result : Option Int} :
      r.lockDone = some (r', result) → LocalMove r r'
  | refused {r : RegisterObject A} {proposal : Proposal} {a : A} {remaining : List A} {n : Nat} :
      r.phase = .accepting proposal (a :: remaining) n →
      LocalMove r { r with phase := .accepting proposal remaining n }
  | acceptDone {r r' : RegisterObject A} {result : Option Bool} :
      r.acceptDone = some (r', result) → LocalMove r r'
  | committed {r : RegisterObject A} {ballotId : BallotId} {a : A} {remaining : List A}
      {c : Bool} (c' : Bool) :
      r.phase = .committing ballotId (a :: remaining) c →
      LocalMove r { r with phase := .committing ballotId remaining c' }
  /-- `read()` starts or goes on. -/
  | reading {r : RegisterObject A} (remaining : List A) :
      (∀ answers, r.phase ≠ .preparing answers) →
      LocalMove r { r with phase := .reading remaining }
  | finish {r : RegisterObject A} :
      (∀ answers, r.phase ≠ .preparing answers) → LocalMove r r.finish

end RegisterObject

namespace Decree

variable [DecidableEq A] [DecidableEq ι]

/-- Replace one acceptor's instance. -/
def setInstance (d : Decree A ι) (a : A) (i : PaxosInstance) : Decree A ι :=
  { d with instances := Function.update d.instances a i }

/-- Replace one object. -/
def setObject (d : Decree A ι) (o : ι) (r : Option (RegisterObject A)) : Decree A ι :=
  { d with objects := Function.update d.objects o r }

/-- One step of the register `reg` whose objects are all made with the acceptors `S`. -/
inductive Step (reg : Int) (S : List A) : Decree A ι → Decree A ι → Prop
  | make {d : Decree A ι} (o : ι) : Step reg S d (d.setObject o (some (makePaxosWor reg S)))
  /-- The slot is used for another register from now on. -/
  | discard {d : Decree A ι} (o : ι) : Step reg S d (d.setObject o none)
  | localMove {d : Decree A ι} {o : ι} {r r' : RegisterObject A} :
      d.objects o = some r → r.LocalMove r' → Step reg S d (d.setObject o (some r'))
  /-- An acceptor promises a ballot and nobody hears of it. -/
  | promise {d : Decree A ι} {a : A} {b : BallotId} :
      (d.instances a).promisedBallotId < b →
      Step reg S d (d.setInstance a { d.instances a with promisedBallotId := b })
  /-- An acceptor promises the object's ballot and the object hears of it. -/
  | grant {d : Decree A ι} {o : ι} {r : RegisterObject A} {k : Nat} {a : A} :
      d.objects o = some r → r.outstanding k = some a →
      (d.instances a).promisedBallotId < r.ballot r.lockId →
      Step reg S d ((d.setInstance a
          { d.instances a with promisedBallotId := r.ballot r.lockId }).setObject o
        (some (r.answer k (some (.promise
          ((d.instances a).accepted.getD { ballotId := some (r.ballot r.lockId) }))))))
  | write {d : Decree A ι} {o : ι} {r r' : RegisterObject A} {lockId : Int} {payload : String} :
      d.objects o = some r → r.write lockId payload = some r' →
      Step reg S d (({ d with wrote := fun v => v = payload ∨ d.wrote v } : Decree A ι).setObject o
        (some r'))
  | vote {d : Decree A ι} {o : ι} {r : RegisterObject A} {p : Proposal} {a : A}
      {remaining : List A} {n : Nat} :
      d.objects o = some r → r.phase = .accepting p (a :: remaining) n →
      (d.instances a).promisedBallotId ≤ p.ballotId →
      Step reg S d ((({ d with
          accepted := fun a' b v => (a' = a ∧ b = p.ballotId ∧ v = p.value) ∨ d.accepted a' b v } :
            Decree A ι).setInstance a { d.instances a with
          promisedBallotId := p.ballotId
          accepted := some { ballotId := some p.ballotId, value := some p.value } }).setObject o
        (some { r with phase := .accepting p remaining (n + 1) }))
  | commit {d : Decree A ι} {o : ι} {r : RegisterObject A} {b : BallotId} {a : A}
      {remaining : List A} {c : Bool} :
      d.objects o = some r → r.phase = .committing b (a :: remaining) c →
      Step reg S d (d.setInstance a { d.instances a with committed := true })
  | answer {d : Decree A ι} {a : A} {v : String} :
      LocalAcceptor.committedValue (d.instances a) = some v →
      Step reg S d { d with answered := fun v' => v' = v ∨ d.answered v' }

end Decree

/-! ## The invariant -/

/-- Only all of `S` together decide. -/
def allOf (S : List A) : QuorumSystem A := QuorumSystem.unanimous {a | a ∈ S}

/-- What the votes of a register satisfy. -/
structure VoteInv (S : List A) (R : Record A BallotId String) (wrote : String → Prop) : Prop where
  mem : ∀ {a b v}, R.vote a b v → a ∈ S
  promised : ∀ {a b v}, R.vote a b v → ∀ a' ∈ S, b ≤ R.promised a'
  wrote : ∀ {a b v}, R.vote a b v → wrote v
  oneValue : R.OneValue
  allSafe : R.AllSafe (allOf S)

/-- The vote a promise reports, in the terms of the voting record. -/
def Promise.report (p : Promise) : Option (BallotId × String) :=
  p.value.map fun v => (p.ballotId.getD {}, v)

/-- What an object satisfies while it proposes `p`. A ballot below the newest one it has drawn is
dead, and nothing is known of it. -/
structure AcceptingInv (S : List A) (R : Record A BallotId String) (wrote : String → Prop)
    (r : RegisterObject A) (p : Proposal) (remaining : List A) (n : Nat) : Prop where
  wrote : wrote p.value
  le : p.ballotId ≤ r.ballot r.lockId
  used : p.ballotId = r.ballot r.lockId → r.lockId ∉ r.unusedLocks
  safe : p.ballotId = r.ballot r.lockId →
    r.proposer.proposeAcceptors = S ∧ R.SafeAt (allOf S) p.ballotId p.value
  /-- A vote at the ballot being proposed is one for the proposal. -/
  own : p.ballotId = r.ballot r.lockId → r.proposer.proposeAcceptors ≠ [] →
    ∀ a v, R.vote a p.ballotId v → v = p.value
  count : ∃ done, done ++ remaining = r.proposer.proposeAcceptors ∧ n ≤ done.length ∧
    (n = done.length → ∀ a ∈ done, R.vote a p.ballotId p.value)

/-- What an object of the register satisfies. -/
structure ObjectInv (reg : Int) (S : List A) (R : Record A BallotId String)
    (wrote : String → Prop) (r : RegisterObject A) : Prop where
  majorId : r.majorId = reg
  prepareAcceptors : r.proposer.prepareAcceptors = S
  majority : r.proposer.majority = S.length
  unused_le : ∀ k ∈ r.unusedLocks, k ≤ r.lockId
  unused_preparing : ∀ answers, r.phase = .preparing answers → r.lockId ∉ r.unusedLocks
  unused_nodup : r.unusedLocks.Nodup
  holders_sublist : r.holders.Sublist S
  holders_promised : ∀ a ∈ r.holders, r.ballot r.lockId ≤ R.promised a
  /-- What the acceptors told the running `lock()` about their votes is still so. -/
  reports : ∀ q ∈ r.promises, R.Reports (r.ballot r.lockId) q.1 q.2.report
  /-- Nobody has voted at a ballot whose promises are held but that was not proposed. -/
  fresh : r.Unproposed → r.holders ≠ [] → ∀ a v, ¬ R.vote a (r.ballot r.lockId) v
  selected_wrote : ∀ p, r.proposer.selectedProposal = some p → wrote p.value
  /-- The newest lock id, while unused, stands for all acceptors' promises, and any payload
  would be proposed safely with it. -/
  locked : r.lockId ∈ r.unusedLocks → r.proposer.proposeAcceptors = S ∧
    ∀ payload, R.SafeAt (allOf S) (r.ballot r.lockId) (r.proposer.proposalValue payload)
  accepting : ∀ p remaining n, r.phase = .accepting p remaining n →
    AcceptingInv S R wrote r p remaining n
  committing : ∀ b remaining c, r.phase = .committing b remaining c →
    ∀ a ∈ remaining, a ∈ S ∧ ∃ v, R.Chosen (allOf S) b v

/-- What one register satisfies at all times. -/
structure DecreeInv (reg : Int) (S : List A) (d : Decree A ι) : Prop where
  votes : VoteInv S d.record d.wrote
  object : ∀ {o r}, d.objects o = some r → ObjectInv reg S d.record d.wrote r
  /-- Two objects never hold the same acceptor's promise of the same ballot. -/
  disjoint : ∀ {o o' r r'}, d.objects o = some r → d.objects o' = some r' → o ≠ o' →
    r.lockId = r'.lockId → ∀ a ∈ r.holders, a ∉ r'.holders
  accepted_none : ∀ {a}, (d.instances a).accepted = none → ∀ b v, ¬ d.accepted a b v
  accepted_some : ∀ {a p}, (d.instances a).accepted = some p →
    ∃ b v, p = { ballotId := some b, value := some v } ∧ d.accepted a b v ∧
      ∀ b' v', d.accepted a b' v' → b' ≤ b
  committed : ∀ {a}, (d.instances a).committed = true →
    a ∈ S ∧ ∃ b v, d.record.Chosen (allOf S) b v
  answered : ∀ {v}, d.answered v → ∃ b, d.record.Chosen (allOf S) b v
  held : ∀ {v}, d.answered v → ∃ a, (d.instances a).committed = true

/-! ## Promises and their holders -/

theorem mem_promisesOf {acceptors : List A} {prepares : List (Option PrepareResponse)}
    {q : A × Promise} :
    q ∈ promisesOf acceptors prepares ↔
      ∃ k : Nat, acceptors[k]? = some q.1 ∧ prepares[k]? = some (some (.promise q.2)) := by
  obtain ⟨a, p⟩ := q
  unfold promisesOf
  rw [List.mem_filterMap]
  constructor
  · rintro ⟨⟨x, y⟩, hxy, hq⟩
    obtain ⟨k, hk⟩ := List.mem_iff_getElem?.mp hxy
    rw [List.getElem?_zip_eq_some] at hk
    refine ⟨k, ?_⟩
    split at hq
    · rename_i heq
      simp only [Prod.mk.injEq, Option.some.injEq] at heq hq
      obtain ⟨rfl, rfl⟩ := heq
      obtain ⟨rfl, rfl⟩ := hq
      exact hk
    · exact absurd hq (by simp)
  · rintro ⟨k, hacc, hprep⟩
    refine ⟨(a, some (.promise p)), ?_, rfl⟩
    exact List.mem_iff_getElem?.mpr ⟨k, List.getElem?_zip_eq_some.mpr ⟨hacc, hprep⟩⟩

/-- The acceptors that promised stand in the order in which they were asked. -/
theorem promisesOf_sublist (acceptors : List A) (prepares : List (Option PrepareResponse)) :
    ((promisesOf acceptors prepares).map (·.1)).Sublist acceptors := by
  induction acceptors generalizing prepares with
  | nil => simp [promisesOf]
  | cons a rest ih =>
    cases prepares with
    | nil => simp [promisesOf]
    | cons x xs =>
      have hrest := ih xs
      unfold promisesOf at hrest ⊢
      rw [List.zip_cons_cons, List.filterMap_cons]
      split
      · exact hrest.cons a
      · rename_i y hy
        split at hy
        · rename_i heq
          simp only [Prod.mk.injEq, Option.some.injEq] at heq hy
          obtain ⟨rfl, -⟩ := heq
          subst hy
          exact hrest.cons_cons _
        · exact absurd hy (by simp)

/-- One more answer adds at most the promise in it. -/
theorem mem_promisesOf_set {acceptors : List A} {answers : List (Option (Option PrepareResponse))}
    {k : Nat} {response : Option PrepareResponse} {q : A × Promise}
    (h : q ∈ promisesOf acceptors ((answers.set k (some response)).map (·.getD none))) :
    q ∈ promisesOf acceptors (answers.map (·.getD none)) ∨
      (acceptors[k]? = some q.1 ∧ response = some (.promise q.2)) := by
  obtain ⟨j, hacc, hprep⟩ := mem_promisesOf.mp h
  by_cases hjk : k = j
  · subst hjk
    rw [List.getElem?_map, List.getElem?_set_self'] at hprep
    cases hk : answers[k]? with
    | none => exact absurd hprep (by simp [hk])
    | some _ => exact .inr ⟨hacc, by simpa [hk] using hprep⟩
  · rw [List.getElem?_map, List.getElem?_set_ne hjk, ← List.getElem?_map] at hprep
    exact .inl (mem_promisesOf.mpr ⟨j, hacc, hprep⟩)

namespace RegisterObject

variable {r r' : RegisterObject A}

theorem holders_of_not_preparing (h : ∀ answers, r.phase ≠ .preparing answers) :
    r.holders = r.proposer.proposeAcceptors := by
  unfold holders
  split
  · exact absurd ‹_› (h _)
  · rfl

theorem promises_of_not_preparing (h : ∀ answers, r.phase ≠ .preparing answers) :
    r.promises = [] := by
  unfold promises
  split
  · exact absurd ‹_› (h _)
  · rfl

theorem promises_of_preparing {answers : List (Option (Option PrepareResponse))}
    (h : r.phase = .preparing answers) :
    r.promises = promisesOf r.proposer.prepareAcceptors (answers.map (·.getD none)) := by
  simp [promises, h]

theorem holders_of_preparing {answers : List (Option (Option PrepareResponse))}
    (h : r.phase = .preparing answers) : r.holders = r.promises.map (·.1) := by
  simp [holders, h]

theorem outstanding_cases {k : Nat} {a : A}
    (h : r.outstanding k = some a) :
    (∃ answers, r.phase = .preparing answers) ∧ r.proposer.prepareAcceptors[k]? = some a := by
  unfold outstanding at h
  split at h
  · rename_i answers hph
    split at h
    · exact ⟨⟨answers, hph⟩, h⟩
    · exact absurd h (by simp)
  · exact absurd h (by simp)

@[simp] theorem answer_majorId (k : Nat) (response : Option PrepareResponse) :
    (r.answer k response).majorId = r.majorId := by
  unfold answer
  split <;> rfl

@[simp] theorem answer_proposer (k : Nat) (response : Option PrepareResponse) :
    (r.answer k response).proposer = r.proposer := by
  unfold answer
  split <;> rfl

@[simp] theorem answer_lockId (k : Nat) (response : Option PrepareResponse) :
    (r.answer k response).lockId = r.lockId := by
  unfold answer
  split <;> rfl

theorem write_cases {lockId : Int} {payload : String} (h : r.write lockId payload = some r') :
    r.phase = .idle ∧ lockId ∈ r.unusedLocks ∧
      r' = { r with
        unusedLocks := r.unusedLocks.erase lockId
        phase := .accepting
          { ballotId := r.ballot lockId, value := r.proposer.proposalValue payload }
          r.proposer.proposeAcceptors 0 } := by
  unfold write at h
  split at h
  · rename_i hph
    split at h
    · rename_i hmem
      exact ⟨hph, hmem, (Option.some.inj h).symm⟩
    · exact absurd h (by simp)
  · exact absurd h (by simp)

/-- The last answer of `lock()` is in. -/
theorem lockDone_cases {result : Option Int} (h : r.lockDone = some (r', result)) :
    ∃ answers, r.phase = .preparing answers ∧
      (r.promises.length < r.proposer.majority ∧ result = none ∧
          r' = { r with
            proposer := { r.proposer with proposeAcceptors := r.promises.map (·.1) }
            phase := .idle } ∨
        r.proposer.majority ≤ r.promises.length ∧ result = some r.lockId ∧
          r' = { r with
            proposer := { r.proposer with
              proposeAcceptors := r.promises.map (·.1)
              selectedProposal := selectProposal (proposalsOf r.promises) }
            phase := .idle
            unusedLocks := r.lockId :: r.unusedLocks }) := by
  unfold lockDone at h
  split at h
  · rename_i answers hph
    refine ⟨answers, hph, ?_⟩
    rw [promises_of_preparing hph]
    split at h
    · unfold ProposerImpl.finishPrepare at h
      by_cases hlen : (promisesOf r.proposer.prepareAcceptors
          (answers.map (·.getD none))).length < r.proposer.majority
      · simp only [hlen, if_true, Bool.false_eq_true, if_false, Option.some.injEq,
          Prod.mk.injEq] at h
        exact .inl ⟨hlen, h.2.symm, h.1.symm⟩
      · simp only [hlen, if_false, if_true, Option.some.injEq, Prod.mk.injEq] at h
        exact .inr ⟨not_lt.mp hlen, h.2.symm, h.1.symm⟩
    · exact absurd h (by simp)
  · exact absurd h (by simp)

theorem lock_cases (h : r.lock = some r') :
    r.phase = .idle ∧ r' = { r with
      lockId := r.lockId + 1
      proposer := { r.proposer with proposeAcceptors := [] }
      phase := .preparing (r.proposer.prepareAcceptors.map fun _ => none) } := by
  unfold lock at h
  split at h
  · rename_i hph
    exact ⟨hph, (Option.some.inj h).symm⟩
  · exact absurd h (by simp)

/-- The accept loop is over. -/
theorem acceptDone_cases {result : Option Bool} (h : r.acceptDone = some (r', result)) :
    ∃ p n, r.phase = .accepting p [] n ∧
      (n < r.proposer.majority ∧ result = some false ∧ r' = r.finish ∨
        r.proposer.majority ≤ n ∧ result = none ∧ r' = { r with
          phase := .committing p.ballotId r.proposer.proposeAcceptors false }) := by
  unfold acceptDone at h
  split at h
  · rename_i p n hph
    refine ⟨p, n, hph, ?_⟩
    split at h
    · rename_i hn
      obtain ⟨rfl, rfl⟩ := Prod.mk.inj (Option.some.inj h)
      exact .inl ⟨hn, rfl, rfl⟩
    · rename_i hn
      obtain ⟨rfl, rfl⟩ := Prod.mk.inj (Option.some.inj h)
      exact .inr ⟨not_lt.mp hn, rfl, rfl⟩
  · exact absurd h (by simp)

theorem commitDone_cases {result : Bool} (h : r.commitDone = some (r', result)) :
    ∃ b, r.phase = .committing b [] result ∧ r' = r.finish := by
  unfold commitDone at h
  split at h
  · rename_i b committed hph
    obtain ⟨rfl, rfl⟩ := Prod.mk.inj (Option.some.inj h)
    exact ⟨b, hph, rfl⟩
  · exact absurd h (by simp)

theorem read_cases (h : r.read = some r') :
    (∀ answers, r.phase ≠ .preparing answers) ∧
      r' = { r with phase := .reading r.proposer.prepareAcceptors } := by
  unfold read at h
  split at h
  · rename_i hph
    exact ⟨by simp [hph], (Option.some.inj h).symm⟩
  · exact absurd h (by simp)

theorem readDone_cases (h : r.readDone = some r') :
    (∀ answers, r.phase ≠ .preparing answers) ∧ r' = r.finish := by
  unfold readDone at h
  split at h
  · rename_i hph
    exact ⟨by simp [hph], (Option.some.inj h).symm⟩
  · exact absurd h (by simp)

/-- Of the same register, and made with the same acceptors. -/
def SameRegister (r r' : RegisterObject A) : Prop :=
  r'.majorId = r.majorId ∧ r'.proposer.prepareAcceptors = r.proposer.prepareAcceptors

/-- An object stays with its register and its acceptors. -/
theorem LocalMove.sameRegister (h : r.LocalMove r') : r.SameRegister r' := by
  cases h with
  | lock hl =>
    obtain ⟨-, rfl⟩ := lock_cases hl
    exact ⟨rfl, rfl⟩
  | unpromised k _ => exact ⟨answer_majorId k _, by rw [answer_proposer]⟩
  | lockDone hl =>
    obtain ⟨_, -, ⟨-, -, rfl⟩ | ⟨-, -, rfl⟩⟩ := lockDone_cases hl <;> exact ⟨rfl, rfl⟩
  | refused _ => exact ⟨rfl, rfl⟩
  | acceptDone hd =>
    obtain ⟨_, _, -, ⟨-, -, rfl⟩ | ⟨-, -, rfl⟩⟩ := acceptDone_cases hd <;> exact ⟨rfl, rfl⟩
  | committed _ _ => exact ⟨rfl, rfl⟩
  | reading _ _ => exact ⟨rfl, rfl⟩
  | finish _ => exact ⟨rfl, rfl⟩

theorem mem_holders_answer {k : Nat} {response : Option PrepareResponse} {a : A}
    (h : a ∈ (r.answer k response).holders) :
    a ∈ r.holders ∨ r.proposer.prepareAcceptors[k]? = some a := by
  unfold answer at h
  split at h
  · rename_i answers hph
    obtain ⟨q, hq, rfl⟩ := List.mem_map.mp h
    rcases mem_promisesOf_set hq with hq | ⟨hk, -⟩
    · rw [holders_of_preparing hph, promises_of_preparing hph]
      exact .inl (List.mem_map_of_mem hq)
    · exact .inr hk
  · exact .inl h

theorem holders_write {lockId : Int} {payload : String} (h : r.write lockId payload = some r') :
    ∀ a ∈ r'.holders, r'.lockId = r.lockId ∧ a ∈ r.holders := by
  obtain ⟨hph, -, rfl⟩ := write_cases h
  intro a ha
  rw [holders_of_not_preparing (by simp)] at ha
  rw [holders_of_not_preparing (by simp [hph])]
  exact ⟨rfl, ha⟩

end RegisterObject

/-! ## Objects under local moves -/

section objects

variable {reg : Int} {S : List A} {R R' : Record A BallotId String} {wrote wrote' : String → Prop}
  {r r' : RegisterObject A}

theorem objectInv_makePaxosWor :
    ObjectInv reg S R wrote (makePaxosWor reg S) where
  majorId := rfl
  prepareAcceptors := rfl
  majority := rfl
  unused_le _ hk := absurd hk List.not_mem_nil
  unused_preparing _ ha := absurd ha (by simp [makePaxosWor])
  unused_nodup := List.nodup_nil
  holders_sublist := List.nil_sublist _
  holders_promised _ ha := absurd ha List.not_mem_nil
  reports _ hq := absurd hq List.not_mem_nil
  fresh _ hne := absurd rfl hne
  selected_wrote _ hp := absurd hp (by simp [makePaxosWor])
  locked hk := absurd hk List.not_mem_nil
  accepting _ _ _ ha := absurd ha (by simp [makePaxosWor])
  committing _ _ _ ha := absurd ha (by simp [makePaxosWor])

/-- An object's part of the invariant survives any extension of the record in which nobody votes
at a ballot whose promises this object holds, except for what this object proposes. -/
theorem ObjectInv.mono (h : ObjectInv reg S R wrote r) (he : R.Extends R') (hone : R'.OneValue)
    (hw : ∀ v, wrote v → wrote' v)
    (hnew : r.holders ≠ [] → ∀ a v, R'.vote a (r.ballot r.lockId) v →
      R.vote a (r.ballot r.lockId) v ∨
        (¬ r.Unproposed ∧ ∀ p remaining n, r.phase = .accepting p remaining n → v = p.value)) :
    ObjectInv reg S R' wrote' r where
  majorId := h.majorId
  prepareAcceptors := h.prepareAcceptors
  majority := h.majority
  unused_le := h.unused_le
  unused_preparing := h.unused_preparing
  unused_nodup := h.unused_nodup
  holders_sublist := h.holders_sublist
  holders_promised a ha := le_trans (h.holders_promised a ha) (he.promised_mono a)
  reports := by
    intro q hq
    refine (h.reports q hq).mono he (h.holders_promised q.1 ?_)
    unfold RegisterObject.holders
    split
    · exact List.mem_map_of_mem hq
    · rename_i hnp
      rw [RegisterObject.promises_of_not_preparing hnp] at hq
      exact absurd hq (List.not_mem_nil)
  fresh hu hne a v hv := by
    rcases hnew hne a v hv with hv | ⟨hp, -⟩
    · exact h.fresh hu hne a v hv
    · exact hp hu
  selected_wrote p hp := hw _ (h.selected_wrote p hp)
  locked hk := ⟨(h.locked hk).1, fun payload => ((h.locked hk).2 payload).mono he hone⟩
  accepting p remaining n hp := by
    have ha := h.accepting p remaining n hp
    have hholders : r.holders = r.proposer.proposeAcceptors :=
      RegisterObject.holders_of_not_preparing (by simp [hp])
    obtain ⟨done, happ, hle, hall⟩ := ha.count
    exact {
      wrote := hw _ ha.wrote
      le := ha.le
      used := ha.used
      safe := fun hb => ⟨(ha.safe hb).1, (ha.safe hb).2.mono he hone⟩
      own := by
        intro hb hne a v hv
        rcases hnew (hholders ▸ hne) a v (hb ▸ hv) with hv | ⟨-, hval⟩
        · exact ha.own hb hne a v (hb ▸ hv)
        · exact hval p remaining n hp
      count := ⟨done, happ, hle, fun hn a ha => he.vote_mono (hall hn a ha)⟩ }
  committing b rem c hp a ha := by
    obtain ⟨hmem, v, hv⟩ := h.committing b rem c hp a ha
    exact ⟨hmem, v, hv.mono he.vote_mono⟩

/-- Moving between phases other than `lock()`'s: only what the new phase says is to be shown. -/
theorem ObjectInv.setPhase (h : ObjectInv reg S R wrote r)
    (hp : ∀ answers, r.phase ≠ .preparing answers) {phase : Phase A}
    (hp' : ∀ answers, phase ≠ .preparing answers)
    (haccepting : ∀ p remaining n, phase = .accepting p remaining n →
      AcceptingInv S R wrote r p remaining n)
    (hcommitting : ∀ b remaining c, phase = .committing b remaining c →
      ∀ a ∈ remaining, a ∈ S ∧ ∃ v, R.Chosen (allOf S) b v) :
    ObjectInv reg S R wrote { r with phase := phase } := by
  have hholders : ({ r with phase := phase } : RegisterObject A).holders = r.holders := by
    rw [RegisterObject.holders_of_not_preparing hp, RegisterObject.holders_of_not_preparing hp']
  have hun : ({ r with phase := phase } : RegisterObject A).Unproposed → r.Unproposed := by
    rintro (⟨answers, ha⟩ | hk)
    · exact absurd ha (hp' answers)
    · exact .inr hk
  have hpromises : ({ r with phase := phase } : RegisterObject A).promises = [] :=
    RegisterObject.promises_of_not_preparing hp'
  exact { h with
    unused_preparing := fun answers ha => absurd ha (hp' answers)
    holders_sublist := hholders ▸ h.holders_sublist
    holders_promised := fun a ha => h.holders_promised a (hholders ▸ ha)
    reports := fun q hq => absurd (hpromises ▸ hq) List.not_mem_nil
    fresh := fun hu hne => h.fresh (hun hu) (hholders ▸ hne)
    accepting := fun p remaining n hph => { haccepting p remaining n hph with }
    committing := hcommitting }

/-- **A write that counted as many successes as there are acceptors has them all.** -/
theorem ObjectInv.voted_of_majority (h : ObjectInv reg S R wrote r) {p : Proposal} {n : Nat}
    (hp : r.phase = .accepting p [] n) (hn : r.proposer.majority ≤ n) :
    r.proposer.proposeAcceptors = S ∧ ∀ a ∈ S, R.vote a p.ballotId p.value := by
  obtain ⟨done, happ, hle, hall⟩ := (h.accepting p [] n hp).count
  rw [List.append_nil] at happ
  have hsub : r.proposer.proposeAcceptors.Sublist S := by
    rw [← RegisterObject.holders_of_not_preparing (by simp [hp])]
    exact h.holders_sublist
  rw [h.majority] at hn
  have hlen : done.length ≤ S.length := happ ▸ hsub.length_le
  have hS : done = S := by
    rw [happ]
    exact hsub.eq_of_length_le (by rw [← happ]; omega)
  exact ⟨happ ▸ hS, hS ▸ hall (by omega)⟩

theorem mem_proposalsOf {promises : List (A × Promise)} {p : Proposal} :
    p ∈ proposalsOf promises ↔ ∃ q ∈ promises, q.2.report = some (p.ballotId, p.value) := by
  unfold proposalsOf Promise.report
  simp only [List.mem_filterMap, Option.map_eq_some_iff, Prod.mk.injEq]
  constructor
  · rintro ⟨q, hq, v, hv, rfl⟩
    exact ⟨q, hq, v, hv, rfl, rfl⟩
  · rintro ⟨q, hq, v, hv, hb, rfl⟩
    exact ⟨q, hq, _, hv, by rw [hb]⟩

/-- Without a quorum nothing is choosable, and everything is safe. -/
theorem safeAt_of_quorum {b : BallotId} {v : String}
    (h : (allOf S).IsQuorum {a | a ∈ S} → R.SafeAt (allOf S) b v) : R.SafeAt (allOf S) b v := by
  intro b' hb' v' hc
  have hne : {a | a ∈ S}.Nonempty := by
    obtain ⟨Q, hQ, -⟩ := hc
    exact hQ.2
  exact h ⟨rfl, hne⟩ b' hb' v' hc

/-- The selected proposal is somebody's vote. -/
theorem vote_of_selected {b : BallotId} {promises : List (A × Promise)}
    (hrep : ∀ q ∈ promises, R.Reports b q.1 q.2.report) {p : Proposal}
    (hsel : selectProposal (proposalsOf promises) = some p) :
    ∃ a, R.vote a p.ballotId p.value := by
  obtain ⟨q, hq, hreport⟩ := mem_proposalsOf.mp (selectProposal_eq_some hsel).1
  have hr := hrep q hq
  rw [hreport] at hr
  exact ⟨q.1, hr.2.1⟩

/-- **What `prepare` selects is safe**, and so is anything when it selects nothing, if a quorum has
answered. -/
theorem safeAt_of_promises {qs : QuorumSystem A} (hone : R.OneValue) (hsafe : R.AllSafe qs)
    {b : BallotId} {promises : List (A × Promise)} (hQ : qs.IsQuorum {a | a ∈ promises.map (·.1)})
    (hprom : ∀ q ∈ promises, b ≤ R.promised q.1)
    (hrep : ∀ q ∈ promises, R.Reports b q.1 q.2.report) {p : ProposerImpl A}
    (hsel : p.selectedProposal = selectProposal (proposalsOf promises)) (payload : String) :
    R.SafeAt qs b (p.proposalValue payload) := by
  have hreport : ∀ a ∈ {a | a ∈ promises.map (·.1)}, ∃ q ∈ promises, q.1 = a :=
    fun a ha => List.mem_map.mp ha
  have hpromised : ∀ a ∈ {a | a ∈ promises.map (·.1)}, b ≤ R.promised a := by
    intro a ha
    obtain ⟨q, hq, rfl⟩ := hreport a ha
    exact hprom q hq
  unfold ProposerImpl.proposalValue
  cases hs : selectProposal (proposalsOf promises) with
  | none =>
    rw [hs] at hsel
    simp only [hsel]
    refine Record.safeAt_of_no_reports hQ hpromised (fun a ha => ?_) payload
    obtain ⟨q, hq, rfl⟩ := hreport a ha
    have hr := hrep q hq
    cases hrq : q.2.report with
    | none => exact hrq ▸ hr
    | some x =>
      have hmem : (⟨x.1, x.2⟩ : Proposal) ∈ proposalsOf promises :=
        mem_proposalsOf.mpr ⟨q, hq, hrq⟩
      rw [selectProposal_eq_none hs] at hmem
      exact absurd hmem List.not_mem_nil
  | some s =>
    rw [hs] at hsel
    simp only [hsel]
    obtain ⟨a₀, hv₀⟩ := vote_of_selected hrep hs
    refine Record.safeAt_of_highest hone hsafe hQ hpromised hv₀ ?_
    intro a ha b' hb' w' hvote
    obtain ⟨q, hq, rfl⟩ := hreport a ha
    have hr := hrep q hq
    cases hrq : q.2.report with
    | none =>
      rw [hrq] at hr
      exact absurd hvote (hr b' hb' w')
    | some x =>
      rw [hrq] at hr
      have hmem : (⟨x.1, x.2⟩ : Proposal) ∈ proposalsOf promises :=
        mem_proposalsOf.mpr ⟨q, hq, hrq⟩
      exact le_trans (hr.2.2 b' hb' w' hvote) ((selectProposal_eq_some hs).2 _ hmem)

theorem safeAt_of_selected (hv : VoteInv S R wrote) {b : BallotId} {promises : List (A × Promise)}
    (hall : promises.map (·.1) = S) (hprom : ∀ a ∈ S, b ≤ R.promised a)
    (hrep : ∀ q ∈ promises, R.Reports b q.1 q.2.report) {p : ProposerImpl A}
    (hsel : p.selectedProposal = selectProposal (proposalsOf promises)) (payload : String) :
    R.SafeAt (allOf S) b (p.proposalValue payload) := by
  refine safeAt_of_quorum fun hQ => ?_
  refine safeAt_of_promises hv.oneValue hv.allSafe (hall ▸ hQ) (fun q hq => hprom q.1 ?_) hrep hsel
    payload
  rw [← hall]
  exact List.mem_map_of_mem hq

/-- A failed `lock()` keeps the promises it got, and nothing else. -/
theorem ObjectInv.lockFailed (h : ObjectInv reg S R wrote r)
    {answers : List (Option (Option PrepareResponse))} (hph : r.phase = .preparing answers) :
    ObjectInv reg S R wrote { r with
      proposer := { r.proposer with proposeAcceptors := r.promises.map (·.1) }
      phase := .idle } := by
  have hholders := RegisterObject.holders_of_preparing hph
  have hunused := h.unused_preparing answers hph
  exact { h with
    unused_preparing := fun _ ha => absurd ha (by simp)
    holders_sublist := hholders ▸ h.holders_sublist
    holders_promised := fun a ha => h.holders_promised a (hholders ▸ ha)
    reports := fun _ hq => absurd hq List.not_mem_nil
    fresh := fun _ hne => h.fresh (.inl ⟨answers, hph⟩) (hholders ▸ hne)
    locked := fun hk => absurd hk hunused
    accepting := fun _ _ _ ha => absurd ha (by simp)
    committing := fun _ _ _ ha => absurd ha (by simp) }

/-- A successful `lock()` holds everybody's promise and has selected safely. -/
theorem ObjectInv.lockSucceeded (hv : VoteInv S R wrote) (h : ObjectInv reg S R wrote r)
    {answers : List (Option (Option PrepareResponse))} (hph : r.phase = .preparing answers)
    (hlen : r.proposer.majority ≤ r.promises.length) :
    ObjectInv reg S R wrote { r with
      proposer := { r.proposer with
        proposeAcceptors := r.promises.map (·.1)
        selectedProposal := selectProposal (proposalsOf r.promises) }
      phase := .idle
      unusedLocks := r.lockId :: r.unusedLocks } := by
  have hholders := RegisterObject.holders_of_preparing hph
  have hall : r.promises.map (·.1) = S := by
    rw [h.majority] at hlen
    rw [← hholders]
    exact h.holders_sublist.eq_of_length_le (by rw [hholders, List.length_map]; exact hlen)
  have hprom : ∀ a ∈ S, r.ballot r.lockId ≤ R.promised a := by
    intro a ha
    exact h.holders_promised a (by rw [hholders, hall]; exact ha)
  exact { h with
    unused_le := by
      intro k hk
      rcases List.mem_cons.mp hk with rfl | hk
      · exact le_refl _
      · exact h.unused_le k hk
    unused_preparing := fun _ ha => absurd ha (by simp)
    unused_nodup := List.nodup_cons.mpr ⟨h.unused_preparing answers hph, h.unused_nodup⟩
    holders_sublist := hholders ▸ h.holders_sublist
    holders_promised := fun a ha => h.holders_promised a (hholders ▸ ha)
    reports := fun _ hq => absurd hq List.not_mem_nil
    fresh := fun _ hne => h.fresh (.inl ⟨answers, hph⟩) (hholders ▸ hne)
    selected_wrote := by
      intro p hp
      obtain ⟨a, ha⟩ := vote_of_selected h.reports hp
      exact hv.wrote ha
    locked := fun _ => ⟨hall, safeAt_of_selected hv hall hprom h.reports rfl⟩
    accepting := fun _ _ _ ha => absurd ha (by simp)
    committing := fun _ _ _ ha => absurd ha (by simp) }

theorem ObjectInv.lock (h : ObjectInv reg S R wrote r) (hl : r.lock = some r') :
    ObjectInv reg S R wrote r' ∧ r'.holders = [] := by
  obtain ⟨-, heq⟩ := RegisterObject.lock_cases hl
  have hpromises : r'.promises = [] := by
    rw [List.eq_nil_iff_forall_not_mem]
    intro q hq
    subst heq
    obtain ⟨k, -, hk⟩ := mem_promisesOf.mp hq
    simp [List.getElem?_replicate] at hk
  have hholders : r'.holders = [] := by
    rw [RegisterObject.holders_of_preparing (by rw [heq]), hpromises]
    rfl
  have hnew : r.lockId + 1 ∉ r.unusedLocks := fun hk => by
    have := h.unused_le _ hk
    omega
  subst heq
  exact ⟨{ h with
    unused_le := fun k hk => Int.le_add_one (h.unused_le k hk)
    unused_preparing := fun _ _ => hnew
    holders_sublist := by rw [hholders]; exact List.nil_sublist _
    holders_promised := fun a ha => absurd (hholders ▸ ha) List.not_mem_nil
    reports := fun q hq => absurd (hpromises ▸ hq) List.not_mem_nil
    fresh := fun _ hne => absurd hholders hne
    locked := fun hk => absurd hk hnew
    accepting := fun _ _ _ ha => absurd ha (by simp)
    committing := fun _ _ _ ha => absurd ha (by simp) }, hholders⟩

/-- An answer to a prepare arrives. If it is a promise, it has to be a true one. -/
theorem ObjectInv.answer (h : ObjectInv reg S R wrote r) (k : Nat)
    (response : Option PrepareResponse)
    (hnew : ∀ a p, S[k]? = some a → response = some (.promise p) →
      r.ballot r.lockId ≤ R.promised a ∧ R.Reports (r.ballot r.lockId) a p.report ∧
        ∀ a' v, ¬ R.vote a' (r.ballot r.lockId) v) :
    ObjectInv reg S R wrote (r.answer k response) := by
  unfold RegisterObject.answer
  split
  · rename_i answers hph
    have hmem : ∀ q ∈ promisesOf r.proposer.prepareAcceptors
        ((answers.set k (some response)).map (·.getD none)),
        q ∈ r.promises ∨ (S[k]? = some q.1 ∧ response = some (.promise q.2)) := by
      intro q hq
      rw [RegisterObject.promises_of_preparing hph, ← h.prepareAcceptors]
      exact mem_promisesOf_set hq
    have hheld : ∀ q ∈ r.promises, q.1 ∈ r.holders := by
      intro q hq
      rw [RegisterObject.holders_of_preparing hph]
      exact List.mem_map_of_mem hq
    exact { h with
      unused_preparing := fun _ _ => h.unused_preparing answers hph
      holders_sublist := h.prepareAcceptors ▸ promisesOf_sublist _ _
      holders_promised := by
        intro a ha
        obtain ⟨q, hq, rfl⟩ := List.mem_map.mp ha
        rcases hmem q hq with hq | ⟨hk, hresp⟩
        · exact h.holders_promised q.1 (hheld q hq)
        · exact (hnew q.1 q.2 hk hresp).1
      reports := by
        intro q hq
        rcases hmem q hq with hq | ⟨hk, hresp⟩
        · exact h.reports q hq
        · exact (hnew q.1 q.2 hk hresp).2.1
      fresh := by
        intro _ hne
        obtain ⟨a, ha⟩ := List.exists_mem_of_ne_nil _ hne
        obtain ⟨q, hq, rfl⟩ := List.mem_map.mp ha
        rcases hmem q hq with hq | ⟨hk, hresp⟩
        · exact h.fresh (.inl ⟨answers, hph⟩) (List.ne_nil_of_mem (hheld q hq))
        · exact (hnew q.1 q.2 hk hresp).2.2
      locked := fun hk => absurd hk (h.unused_preparing answers hph)
      accepting := fun _ _ _ ha => absurd ha (by simp)
      committing := fun _ _ _ ha => absurd ha (by simp) }
  · exact h

/-- `write` starts: with the newest lock id the proposal is safe and all acceptors are asked. -/
theorem ObjectInv.write (h : ObjectInv reg S R wrote r) {lockId : Int} {payload : String}
    (hw : r.write lockId payload = some r') (hpayload : wrote payload) :
    ObjectInv reg S R wrote r' := by
  obtain ⟨hph, hmem, rfl⟩ := RegisterObject.write_cases hw
  have hholders : r.holders = r.proposer.proposeAcceptors :=
    RegisterObject.holders_of_not_preparing (by simp [hph])
  have hkeep : ∀ k ∈ r.unusedLocks.erase lockId, k ∈ r.unusedLocks := fun k hk =>
    List.mem_of_mem_erase hk
  have hlock : r.ballot lockId = r.ballot r.lockId → lockId = r.lockId := by
    simp [RegisterObject.ballot]
  exact { h with
    unused_le := fun k hk => h.unused_le k (hkeep k hk)
    unused_preparing := fun _ ha => absurd ha (by simp)
    unused_nodup := h.unused_nodup.erase lockId
    holders_sublist := by
      change r.proposer.proposeAcceptors.Sublist S
      exact hholders ▸ h.holders_sublist
    holders_promised := fun a ha => h.holders_promised a (hholders ▸ ha)
    reports := fun _ hq => absurd hq List.not_mem_nil
    fresh := by
      rintro (⟨_, ha⟩ | hk) hne
      · exact absurd ha (by simp)
      · exact h.fresh (.inr (hkeep _ hk)) (hholders ▸ hne)
    locked := fun hk => h.locked (hkeep _ hk)
    accepting := by
      intro p remaining n ha
      simp only [Phase.accepting.injEq] at ha
      obtain ⟨rfl, rfl, rfl⟩ := ha
      exact {
        wrote := by
          unfold ProposerImpl.proposalValue
          cases hsel : r.proposer.selectedProposal with
          | none => exact hpayload
          | some s => exact h.selected_wrote s hsel
        le := BallotId.mk_le_mk.mpr (h.unused_le lockId hmem)
        used := by
          intro hb hk
          rw [hlock hb] at hk
          exact h.unused_nodup.not_mem_erase hk
        safe := by
          intro hb
          obtain rfl := hlock hb
          exact ⟨(h.locked hmem).1, (h.locked hmem).2 payload⟩
        own := by
          intro hb hne a v hv
          obtain rfl := hlock hb
          exact absurd hv (h.fresh (.inr hmem) (hholders ▸ hne) a v)
        count := ⟨[], rfl, le_refl _, fun _ _ ha => absurd ha List.not_mem_nil⟩ }
    committing := fun _ _ _ ha => absurd ha (by simp) }

/-- **A local move keeps the object's part of the invariant**, and it holds no promise of its
newest ballot that it did not hold before. -/
theorem ObjectInv.localMove (hv : VoteInv S R wrote) (h : ObjectInv reg S R wrote r)
    (hm : r.LocalMove r') :
    ObjectInv reg S R wrote r' ∧
      ∀ a ∈ r'.holders, r'.lockId = r.lockId ∧ a ∈ r.holders := by
  -- a move between two phases that are not `lock()`'s leaves the holders alone
  have hsame : ∀ phase : Phase A, (∀ answers, r.phase ≠ .preparing answers) →
      (∀ answers, phase ≠ .preparing answers) →
      ∀ a ∈ ({ r with phase := phase } : RegisterObject A).holders, a ∈ r.holders := by
    intro phase hp hp' a ha
    rw [RegisterObject.holders_of_not_preparing hp]
    rwa [RegisterObject.holders_of_not_preparing hp'] at ha
  cases hm with
  | lock hl =>
    obtain ⟨hinv, hnil⟩ := h.lock hl
    exact ⟨hinv, fun a ha => absurd (hnil ▸ ha) List.not_mem_nil⟩
  | unpromised k hresp =>
    refine ⟨h.answer k _ fun a p _ hp => absurd hp (hresp p), ?_⟩
    unfold RegisterObject.answer
    split
    · rename_i answers hph
      intro a ha
      obtain ⟨q, hq, rfl⟩ := List.mem_map.mp ha
      rcases mem_promisesOf_set hq with hq | ⟨-, hp⟩
      · refine ⟨rfl, ?_⟩
        rw [RegisterObject.holders_of_preparing hph, RegisterObject.promises_of_preparing hph]
        exact List.mem_map_of_mem hq
      · exact absurd hp (hresp _)
    · exact fun a ha => ⟨rfl, ha⟩
  | lockDone hl =>
    obtain ⟨answers, hph, ⟨-, -, rfl⟩ | ⟨hlen, -, rfl⟩⟩ := RegisterObject.lockDone_cases hl
    · refine ⟨h.lockFailed hph, fun a ha => ⟨rfl, ?_⟩⟩
      rwa [RegisterObject.holders_of_preparing hph]
    · refine ⟨h.lockSucceeded hv hph hlen, fun a ha => ⟨rfl, ?_⟩⟩
      rwa [RegisterObject.holders_of_preparing hph]
  | refused hph =>
    refine ⟨h.setPhase (by simp [hph]) (by simp) ?_ (by simp), fun a ha =>
      ⟨rfl, hsame _ (by simp [hph]) (by simp) a ha⟩⟩
    intro p remaining n heq
    simp only [Phase.accepting.injEq] at heq
    obtain ⟨rfl, rfl, rfl⟩ := heq
    have ha := h.accepting _ _ _ hph
    obtain ⟨done, happ, hle, -⟩ := ha.count
    refine { ha with count := ⟨done ++ [_], by rw [List.append_assoc]; exact happ, ?_, ?_⟩ }
    · rw [List.length_append]
      omega
    · intro hn
      rw [List.length_append, List.length_singleton] at hn
      omega
  | acceptDone hd =>
    obtain ⟨p, n, hph, ⟨-, -, rfl⟩ | ⟨hn, -, rfl⟩⟩ := RegisterObject.acceptDone_cases hd
    · exact ⟨h.setPhase (by simp [hph]) (by simp) (by simp) (by simp), fun a ha =>
        ⟨rfl, hsame _ (by simp [hph]) (by simp) a ha⟩⟩
    · refine ⟨h.setPhase (by simp [hph]) (by simp) (by simp) ?_, fun a ha =>
        ⟨rfl, hsame _ (by simp [hph]) (by simp) a ha⟩⟩
      intro b remaining c heq a ha
      simp only [Phase.committing.injEq] at heq
      obtain ⟨rfl, rfl, rfl⟩ := heq
      obtain ⟨hS, hall⟩ := h.voted_of_majority hph hn
      rw [hS] at ha
      exact ⟨ha, p.value, _, ⟨rfl, a, ha⟩, hall⟩
  | committed c' hph =>
    refine ⟨h.setPhase (by simp [hph]) (by simp) (by simp) ?_, fun a ha =>
      ⟨rfl, hsame _ (by simp [hph]) (by simp) a ha⟩⟩
    intro b remaining c heq a ha
    simp only [Phase.committing.injEq] at heq
    obtain ⟨rfl, rfl, rfl⟩ := heq
    exact h.committing _ _ _ hph a (List.mem_cons_of_mem _ ha)
  | reading remaining hp =>
    exact ⟨h.setPhase hp (by simp) (by simp) (by simp), fun a ha =>
      ⟨rfl, hsame _ hp (by simp) a ha⟩⟩
  | finish hp =>
    exact ⟨h.setPhase hp (by simp) (by simp) (by simp), fun a ha =>
      ⟨rfl, hsame _ hp (by simp) a ha⟩⟩

end objects

end ReplicatedCounter.Paxos
