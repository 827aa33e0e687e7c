import ReplicatedCounter.Lib.Transition
import ReplicatedCounter.Paxos.Register

/-!
# Proposers with unique ballots, for any majority size

`ProposerImpl` without a register around it: any number of them, all with one `majoritySize`, over
the same acceptors. Their callers draw **unique ballots**: a ballot is prepared once, and proposed
at most once, by the proposer whose `prepare` succeeded with it. (A register object does less: the
objects of one register draw the same ballots, see `Paxos/Decree.lean`, and get away with it because
their majority is everybody.) A proposer serves one instance, as it does in
`PaxosWriteOnceRegister`.

An event is one atomic step: a `LocalAcceptor` call of one proposer, or what a proposer does between
two of them. As in `Paxos/World.lean`, a prepare may time out and still take effect, at once or
later.
-/

set_option autoImplicit false

namespace ReplicatedCounter.Paxos

variable {A ι κ β : Type}

/-- A `ProposerImpl`, the call it is in, and what its caller knows. -/
structure ProposerObject (A : Type) where
  paxosInstanceId : String
  proposer : ProposerImpl A
  phase : Phase A := .idle
  /-- The ballot of the last `prepare`. -/
  ballotId : BallotId := {}
  /-- The ballots with which `prepare` has succeeded and that were not proposed yet. -/
  unusedBallots : List BallotId := []

namespace ProposerObject

/-- A new `ProposerImpl`. -/
def make (majoritySize : Nat) (paxosInstanceId : String) (acceptors : List A) : ProposerObject A where
  paxosInstanceId
  proposer := { majority := majoritySize, prepareAcceptors := acceptors }

/-- `prepare` up to the first answer. -/
def prepare (r : ProposerObject A) (ballotId : BallotId) : Option (ProposerObject A) :=
  match r.phase with
  | .idle => some { r with
      ballotId
      proposer := { r.proposer with proposeAcceptors := [] }
      phase := .preparing (r.proposer.prepareAcceptors.map fun _ => none) }
  | _ => none

/-- The acceptor at index `k`, if its answer to the prepare is outstanding. -/
def outstanding (r : ProposerObject A) (k : Nat) : Option A :=
  match r.phase with
  | .preparing answers =>
    match answers[k]? with
    | some none => r.proposer.prepareAcceptors[k]?
    | _ => none
  | _ => none

/-- The answer of acceptor `k` is in; a timeout counts as an empty one. -/
def answer (r : ProposerObject A) (k : Nat) (response : Option PrepareResponse) :
    ProposerObject A :=
  match r.phase with
  | .preparing answers => { r with phase := .preparing (answers.set k (some response)) }
  | _ => r

/-- `prepare` after the last answer. -/
def prepareDone (r : ProposerObject A) : Option (ProposerObject A) :=
  match r.phase with
  | .preparing answers =>
    if answers.all (·.isSome) then
      let (proposer, result) := r.proposer.finishPrepare (answers.map (·.getD none))
      some { r with
        proposer, phase := .idle
        unusedBallots := if result then r.ballotId :: r.unusedBallots else r.unusedBallots }
    else none
  | _ => none

/-- `propose` up to the first accept. -/
def propose (r : ProposerObject A) (ballotId : BallotId) (value : String) :
    Option (ProposerObject A) :=
  match r.phase with
  | .idle =>
    if ballotId ∈ r.unusedBallots then
      some { r with
        unusedBallots := r.unusedBallots.erase ballotId
        phase := .accepting { ballotId, value := r.proposer.proposalValue value }
          r.proposer.proposeAcceptors 0 }
    else none
  | _ => none

/-- The accept loop is over. Everybody who has promised is sent the commit, whatever it answered to
the accept. -/
def acceptDone (r : ProposerObject A) : Option (ProposerObject A) :=
  match r.phase with
  | .accepting proposal [] successfulProposals =>
    if successfulProposals < r.proposer.majority then
      some { r with phase := .idle }
    else
      some { r with phase := .committing proposal.ballotId r.proposer.proposeAcceptors false }
  | _ => none

/-- The commit loop is over. -/
def commitDone (r : ProposerObject A) : Option (ProposerObject A) :=
  match r.phase with
  | .committing _ [] _ => some { r with phase := .idle }
  | _ => none

end ProposerObject

/-- What is observed of the acceptors and the proposals. -/
inductive BallotObservation (A : Type) where
  /-- `accept` answered `true` at this acceptor. -/
  | accepted (acceptor : A) (paxosInstanceId : String) (ballotId : BallotId) (value : String)
  /-- A proposal was sent out for the first time. -/
  | proposed (paxosInstanceId : String) (ballotId : BallotId) (value : String)
  deriving DecidableEq

/-- Acceptors `A` over stores `κ`, proposers in slots `ι`. -/
structure ProposerWorld (A ι κ : Type) where
  acceptors : A → κ
  proposers : ι → Option (ProposerObject A)
  /-- The ballots in use. -/
  prepared : List (String × BallotId) := []
  late : List (A × String × BallotId) := []
  /-- The history; no step reads it. -/
  trace : List (BallotObservation A) := []

/-- One step of one party. -/
inductive ProposerEvent (A ι : Type) where
  | make (o : ι) (paxosInstanceId : String) (acceptors : List A)
  | prepare (o : ι) (ballotId : BallotId)
  | answer (o : ι) (k : Nat) (timedOut : Bool)
  | answerTimeout (o : ι) (k : Nat)
  | latePrepare (acceptor : A) (paxosInstanceId : String) (ballotId : BallotId)
  | prepareDone (o : ι)
  | propose (o : ι) (ballotId : BallotId) (value : String)
  | accept (o : ι)
  | acceptDone (o : ι)
  | commit (o : ι)
  | commitDone (o : ι)
  /-- Anybody, also `ProposerImpl::getCommittedValue`, asks an acceptor for the committed value. -/
  | query (acceptor : A) (paxosInstanceId : String)

namespace ProposerWorld

variable [DecidableEq A] [DecidableEq ι] [KVStoreLite κ β]

/-- Run a coroutine on an acceptor's store. -/
def call {α : Type} (w : ProposerWorld A ι κ) (a : A) (m : AcceptorM κ α) :
    Except AcceptorError α × ProposerWorld A ι κ :=
  let (result, kv) := Coro.exec m (w.acceptors a)
  (result, { w with acceptors := Function.update w.acceptors a kv })

/-- Replace the proposer in a slot. -/
def set (w : ProposerWorld A ι κ) (o : ι) (r : ProposerObject A) : ProposerWorld A ι κ :=
  { w with proposers := Function.update w.proposers o (some r) }

def observe (w : ProposerWorld A ι κ) (obs : BallotObservation A) : ProposerWorld A ι κ :=
  { w with trace := obs :: w.trace }

variable (codec : Codec PaxosInstance β) (majoritySize : Nat)

/-- One event. -/
def step (w : ProposerWorld A ι κ) : ProposerEvent A ι → Option (ProposerWorld A ι κ)
  | .make o paxosInstanceId acceptors =>
    if acceptors.Nodup then some (w.set o (.make majoritySize paxosInstanceId acceptors)) else none
  | .prepare o ballotId => do
    let r ← w.proposers o
    if (r.paxosInstanceId, ballotId) ∈ w.prepared then
      none
    else
      let r' ← r.prepare ballotId
      return { w.set o r' with prepared := (r.paxosInstanceId, ballotId) :: w.prepared }
  | .answer o k timedOut => do
    let r ← w.proposers o
    let a ← r.outstanding k
    match w.call a (LocalAcceptor.prepare codec r.paxosInstanceId r.ballotId) with
    | (.ok response, w) => return w.set o (r.answer k (if timedOut then none else some response))
    | (.error _, w) => return w.set o { r with phase := .idle }
  | .answerTimeout o k => do
    let r ← w.proposers o
    let a ← r.outstanding k
    let w := { w with late := (a, r.paxosInstanceId, r.ballotId) :: w.late }
    return w.set o (r.answer k none)
  | .latePrepare a id ballotId =>
    if (a, id, ballotId) ∈ w.late then
      let w := { w with late := w.late.erase (a, id, ballotId) }
      some (w.call a (LocalAcceptor.prepare codec id ballotId)).2
    else none
  | .prepareDone o => do
    let r ← w.proposers o
    let r' ← r.prepareDone
    return w.set o r'
  | .propose o ballotId value => do
    let r ← w.proposers o
    let r' ← r.propose ballotId value
    return (w.set o r').observe
      (.proposed r.paxosInstanceId ballotId (r.proposer.proposalValue value))
  | .accept o => do
    let r ← w.proposers o
    match r.phase with
    | .accepting proposal (a :: remaining) successful =>
      match w.call a (LocalAcceptor.accept codec r.paxosInstanceId proposal) with
      | (.ok true, w) =>
        let w := w.observe (.accepted a r.paxosInstanceId proposal.ballotId proposal.value)
        return w.set o { r with phase := .accepting proposal remaining (successful + 1) }
      | (.ok false, w) =>
        return w.set o { r with phase := .accepting proposal remaining successful }
      | (.error _, w) => return w.set o { r with phase := .idle }
    | _ => none
  | .acceptDone o => do
    let r ← w.proposers o
    let r' ← r.acceptDone
    return w.set o r'
  | .commit o => do
    let r ← w.proposers o
    match r.phase with
    | .committing ballotId (a :: remaining) committed =>
      match w.call a (LocalAcceptor.commit codec r.paxosInstanceId ballotId) with
      | (.ok commitResult, w) =>
        return w.set o { r with
          phase := .committing ballotId remaining (committed || commitResult) }
      | (.error _, w) => return w.set o { r with phase := .idle }
    | _ => none
  | .commitDone o => do
    let r ← w.proposers o
    let r' ← r.commitDone
    return w.set o r'
  | .query a id => some (w.call a (LocalAcceptor.getCommittedValue codec id)).2

/-- A world before anything happened: empty stores, no proposers. -/
structure Initial (w : ProposerWorld A ι κ) : Prop where
  stores : ∀ a id, KVStoreLite.get (w.acceptors a) (LocalAcceptor.keyFormat id) = none
  proposers : ∀ o, w.proposers o = none
  prepared : w.prepared = []
  trace : w.trace = []

/-- The acceptor that is sent a commit next, with the instance and the ballot. -/
def commitTarget (w : ProposerWorld A ι κ) : ProposerEvent A ι → Option (A × String × BallotId)
  | .commit o =>
    match w.proposers o with
    | none => none
    | some r =>
      match r.phase with
      | .committing ballotId (a :: _) _ => some (a, r.paxosInstanceId, ballotId)
      | _ => none
  | _ => none

/-- **The commit reaches only acceptors that have accepted.** An acceptor that is not committed and
is sent the commit of a ballot has accepted at that ballot or above. -/
def CommitsAccepted (w : ProposerWorld A ι κ) (e : ProposerEvent A ι) : Prop :=
  ∀ target ∈ w.commitTarget e,
    let paxosInstance := LocalAcceptor.instanceOf codec (w.acceptors target.1) target.2.1
    paxosInstance.committed = true ∨
      ∃ promise ∈ paxosInstance.accepted, ∃ accepted ∈ promise.ballotId, target.2.2 ≤ accepted

instance (w : ProposerWorld A ι κ) (e : ProposerEvent A ι) :
    Decidable (w.CommitsAccepted codec e) :=
  inferInstanceAs (Decidable (∀ target ∈ w.commitTarget e, _))

end ProposerWorld

end ReplicatedCounter.Paxos
