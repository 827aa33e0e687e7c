import Mathlib.Data.List.Induction
import ReplicatedCounter.Lib.Decimal
import ReplicatedCounter.Lib.Parties
import ReplicatedCounter.Paxos.LocalAcceptor

/-!
# `ProposerImpl` and `PaxosWriteOnceRegister`

One register object: a `PaxosWriteOnceRegister` with the `ProposerImpl` that `makePaxosWor` gives
it. `prepare`, `propose` and `getCommittedValue` are coroutines that talk to one acceptor after the
other (or, in `prepare`, to all of them at once), so an object is a small state machine: `phase`
says which call is in progress and how far its loop has come. The functions here are the local
halves of a call — everything between two acceptor calls — and touch no acceptor.

`selectedProposal_` and `proposeAcceptors_` outlive the call that set them, exactly as in the
source: a failed `prepare` replaces the acceptors but leaves the selected proposal of an earlier
one in place.

`unusedLocks` is the caller's side of the contract: the lock ids `lock()` has returned and that
have not been passed to `write()` yet.
-/

set_option autoImplicit false

namespace ReplicatedCounter.Paxos

variable {A : Type}

/-! ## `wor/paxos/ProposerImpl.h` -/

/-- The members of `ProposerImpl`. -/
structure ProposerImpl (A : Type) where
  majority : Nat
  prepareAcceptors : List A
  proposeAcceptors : List A := []
  selectedProposal : Option Proposal := none

/-- The acceptors that answered a promise, with the promise; a timed-out prepare is `none`. -/
def promisesOf (acceptors : List A) (prepares : List (Option PrepareResponse)) :
    List (A × Promise) :=
  (acceptors.zip prepares).filterMap fun
    | (acceptor, some (.promise promise)) => some (acceptor, promise)
    | _ => none

/-- The proposals the promises carry. -/
def proposalsOf (promises : List (A × Promise)) : List Proposal :=
  promises.filterMap fun (_, promise) =>
    promise.value.map fun value => { ballotId := promise.ballotId.getD {}, value := value }

/-- The loop that keeps the first proposal with the highest ballot. -/
def selectProposal (proposals : List Proposal) : Option Proposal :=
  proposals.foldl (fun selectedProposal proposal =>
    match selectedProposal with
    | none => some proposal
    | some selected =>
      if selected.ballotId < proposal.ballotId then some proposal else some selected) none

/-- `ProposerImpl::prepare` once all answers are in. -/
def ProposerImpl.finishPrepare (p : ProposerImpl A) (prepares : List (Option PrepareResponse)) :
    ProposerImpl A × Bool :=
  let promises := promisesOf p.prepareAcceptors prepares
  let p := { p with proposeAcceptors := promises.map (·.1) }
  if promises.length < p.majority then
    (p, false)
  else
    ({ p with selectedProposal := selectProposal (proposalsOf promises) }, true)

/-- The value `ProposerImpl::propose` proposes: the selected one if there is one. -/
def ProposerImpl.proposalValue (p : ProposerImpl A) (value : String) : String :=
  match p.selectedProposal with
  | some selected => selected.value
  | none => value

/-! ## `wor/paxos/PaxosWriteOnceRegister.h` -/

/-- Which call of the register is in progress. -/
inductive Phase (A : Type) where
  | idle
  /-- `lock()`: one entry for each acceptor, `none` while its answer is outstanding. -/
  | preparing (answers : List (Option (Option PrepareResponse)))
  /-- `write()`, the accept loop. -/
  | accepting (proposal : Proposal) (remaining : List A) (successfulProposals : Nat)
  /-- `write()`, the commit loop. -/
  | committing (ballotId : BallotId) (remaining : List A) (committed : Bool)
  /-- `read()`. -/
  | reading (remaining : List A)

/-- A `PaxosWriteOnceRegister` and its proposer. -/
structure RegisterObject (A : Type) where
  majorId : Int
  lockId : Int := 0
  proposer : ProposerImpl A
  phase : Phase A := .idle
  unusedLocks : List Int := []

/-- `makePaxosWor`: all acceptors of the configuration, and all of them as the majority. -/
def makePaxosWor (worId : Int) (acceptors : List A) : RegisterObject A where
  majorId := worId
  proposer := { majority := acceptors.length, prepareAcceptors := acceptors }

/-- `std::to_string(registerId)`, the instance id all acceptors know the register by. -/
def instanceId (registerId : Int) : String := registerId.repr

/-- The `==` of prepares that are under way, each an acceptor, an instance and a ballot, is their
equality. -/
instance lawfulBEqPrepare [DecidableEq A] : LawfulBEq (A × String × BallotId) := inferInstance

theorem instanceId_injective : Function.Injective instanceId := Decimal.intRepr_injective

namespace RegisterObject

/-- The ballot of a lock id: the register's id, then the lock id. -/
def ballot (r : RegisterObject A) (lockId : Int) : BallotId := ⟨r.majorId, lockId⟩

/-- `lock()` up to the first answer: draw a lock id, clear the acceptors, ask everybody. -/
def lock (r : RegisterObject A) : Option (RegisterObject A) :=
  match r.phase with
  | .idle => some { r with
      lockId := r.lockId + 1
      proposer := { r.proposer with proposeAcceptors := [] }
      phase := .preparing (r.proposer.prepareAcceptors.map fun _ => none) }
  | _ => none

/-- The acceptor at index `k`, if its answer to the prepare is outstanding. -/
def outstanding (r : RegisterObject A) (k : Nat) : Option A :=
  match r.phase with
  | .preparing answers =>
    match answers[k]? with
    | some none => r.proposer.prepareAcceptors[k]?
    | _ => none
  | _ => none

/-- The answer of acceptor `k` is in; a timeout counts as an empty one. -/
def answer (r : RegisterObject A) (k : Nat) (response : Option PrepareResponse) :
    RegisterObject A :=
  match r.phase with
  | .preparing answers => { r with phase := .preparing (answers.set k (some response)) }
  | _ => r

/-- `lock()` after the last answer. -/
def lockDone (r : RegisterObject A) : Option (RegisterObject A × Option Int) :=
  match r.phase with
  | .preparing answers =>
    if answers.all (·.isSome) then
      let (proposer, result) := r.proposer.finishPrepare (answers.map (·.getD none))
      if result then
        some ({ r with
          proposer := proposer, phase := .idle, unusedLocks := r.lockId :: r.unusedLocks },
          some r.lockId)
      else
        some ({ r with proposer := proposer, phase := .idle }, none)
    else none
  | _ => none

/-- `write(lockId, payload)` up to the first accept, for a lock id not used before. -/
def write (r : RegisterObject A) (lockId : Int) (payload : String) : Option (RegisterObject A) :=
  match r.phase with
  | .idle =>
    if lockId ∈ r.unusedLocks then
      some { r with
        unusedLocks := r.unusedLocks.erase lockId
        phase := .accepting
          { ballotId := r.ballot lockId, value := r.proposer.proposalValue payload }
          r.proposer.proposeAcceptors 0 }
    else none
  | _ => none

/-- The accept loop is over: fewer successes than the majority end the write with `false`. -/
def acceptDone (r : RegisterObject A) : Option (RegisterObject A × Option Bool) :=
  match r.phase with
  | .accepting proposal [] successfulProposals =>
    if successfulProposals < r.proposer.majority then
      some ({ r with phase := .idle }, some false)
    else
      some ({ r with phase := .committing proposal.ballotId r.proposer.proposeAcceptors false },
        none)
  | _ => none

/-- The commit loop is over: the write answers whether some commit answered `true`. -/
def commitDone (r : RegisterObject A) : Option (RegisterObject A × Bool) :=
  match r.phase with
  | .committing _ [] committed => some ({ r with phase := .idle }, committed)
  | _ => none

/-- `read()` up to the first acceptor. -/
def read (r : RegisterObject A) : Option (RegisterObject A) :=
  match r.phase with
  | .idle => some { r with phase := .reading r.proposer.prepareAcceptors }
  | _ => none

/-- No acceptor had a committed value: `ReadError::NOT_WRITTEN`. -/
def readDone (r : RegisterObject A) : Option (RegisterObject A) :=
  match r.phase with
  | .reading [] => some { r with phase := .idle }
  | _ => none

/-- The call ends: it returned, or an acceptor's exception went through it. -/
def finish (r : RegisterObject A) : RegisterObject A := { r with phase := .idle }

end RegisterObject

/-! ## What `selectProposal` selects -/

theorem selectProposal_append (ps : List Proposal) (q : Proposal) :
    selectProposal (ps ++ [q]) =
      match selectProposal ps with
      | none => some q
      | some s => if s.ballotId < q.ballotId then some q else some s := by
  unfold selectProposal
  rw [List.foldl_append]
  rfl

theorem selectProposal_eq_none {ps : List Proposal} (h : selectProposal ps = none) : ps = [] := by
  induction ps using List.reverseRecOn with
  | nil => rfl
  | append_singleton ps q _ =>
    rw [selectProposal_append] at h
    split at h
    · exact absurd h (by simp)
    · split at h <;> exact absurd h (by simp)

/-- The selected proposal is one of the reported ones, and none of them has a higher ballot. -/
theorem selectProposal_eq_some {ps : List Proposal} {p : Proposal}
    (h : selectProposal ps = some p) : p ∈ ps ∧ ∀ q ∈ ps, q.ballotId ≤ p.ballotId := by
  induction ps using List.reverseRecOn generalizing p with
  | nil => simp [selectProposal] at h
  | append_singleton ps q ih =>
    rw [selectProposal_append] at h
    cases hs : selectProposal ps with
    | none =>
      rw [hs] at h
      simp only [Option.some.injEq] at h
      subst h
      rw [selectProposal_eq_none hs]
      simp
    | some s =>
      obtain ⟨hmem, hmax⟩ := ih hs
      rw [hs] at h
      by_cases hlt : s.ballotId < q.ballotId
      · simp only [hlt, if_true, Option.some.injEq] at h
        subst h
        refine ⟨by simp, fun q' hq' => ?_⟩
        rcases List.mem_append.mp hq' with hq' | hq'
        · exact le_trans (hmax q' hq') (le_of_lt hlt)
        · exact (List.mem_singleton.mp hq' ▸ le_refl _)
      · simp only [hlt, if_false, Option.some.injEq] at h
        subst h
        refine ⟨List.mem_append_left _ hmem, fun q' hq' => ?_⟩
        rcases List.mem_append.mp hq' with hq' | hq'
        · exact hmax q' hq'
        · exact List.mem_singleton.mp hq' ▸ not_lt.mp hlt

end ReplicatedCounter.Paxos
