import ReplicatedCounter.Log.System

/-!
# `log/impl/SequencerImpl.cc`: one object for many versions

The log has a sequencer for each version. The source has an object that
`VirtualLogImpl::reconfigure` finds in the registry and starts again: `start` stores the numbers and
the version, one after the other and under no lock, whatever calls of `append` are on their way.
Such a call has taken its id at the beginning, reads the commit index and the version for each
replica, in either order, and at its end compares the commit index with its id and raises it, under
the mutex. Each of these reads and stores is an event of its own here.

An id can come with two payloads: the new id in the old version (`entry_sent_between_stores`), and
the old id in the new version (`entry_sent_twice`). `InVersion` is what it takes to prevent both.

What the replicas answer is anybody's guess here; `complete` is the callback of a future.
-/

set_option autoImplicit false

namespace ReplicatedCounter.Log

/-! ## The object -/

/-- A call of `SequencerImpl::append`, with the id that it took. `versionId` is the record of the
version in which it did. The next call of a replica has the commit index in `round` and the version
in `roundVersionId`, once they have been read: the order of the two arguments is the compiler's. -/
structure SharedAppend (N : Nat) extends SequencerAppend N where
  versionId : Int
  logId : Int
  round : Option (Fin N × Int) := none
  roundVersionId : Option Int := none

/-- What a call of `start` stores next. -/
inductive Starting where
  | globalCommitIndex (versionId sequenceNum : Int)
  | versionId (versionId : Int)
  deriving DecidableEq

/-- `SequencerImpl`, with the calls of its `append` and what they have sent. `raising` holds the
mutex, having found the commit index below its id. -/
structure SharedSequencer (N : Nat) where
  sequencer : SequencerImpl
  versionId : Int
  calls : CallId → Option (SharedAppend N) := fun _ => none
  raising : Option CallId := none
  starting : List Starting := []
  requests : List (Request N) := []

inductive SharedEvent (N : Nat) where
  | append (c : CallId) (payload : String)
  | load (c : CallId)
  | loadVersionId (c : CallId)
  | send (c : CallId)
  | complete (c : CallId) (i : Fin N) (result : TryUnit)
  | compare (c : CallId)
  | raise
  | start (versionId : Int) (sequenceNum : Int)
  | store (k : Nat)
  deriving DecidableEq

/-- What is sent in a round. -/
def SharedAppend.request {N : Nat} (call : SharedAppend N) (versionId : Int) (round : Fin N × Int) :
    Request N :=
  ⟨round.1, .sequencer, some round.2, versionId, call.logId, call.payload⟩

namespace SharedSequencer

variable {N : Nat}

/-- The constructor. -/
def make (seedSeqNum versionId : Int) : SharedSequencer N where
  sequencer := .start seedSeqNum
  versionId := versionId

def setCall (s : SharedSequencer N) (c : CallId) (call : SharedAppend N) : SharedSequencer N :=
  { s with calls := Function.update s.calls c (some call) }

/-- A call that has taken its id. -/
def newCall (s : SharedSequencer N) (logId : Int) (payload : String) : SharedAppend N where
  payload := payload
  versionId := s.versionId
  logId := logId

/-- `SequencerImpl::append` takes the next id. -/
def append (s : SharedSequencer N) (c : CallId) (payload : String) : Option (SharedSequencer N) :=
  match s.calls c with
  | some _ => none
  | none =>
    let (logId, sequencer) := s.sequencer.next
    if logId < highestNonExistingLogId then
      some ({ s with sequencer }.setCall c (s.newCall logId payload))
    else
      none

/-- In a round of the loop over `replicaSet_`, `globalCommitIndex_` is read. -/
def load (s : SharedSequencer N) (c : CallId) : Option (SharedSequencer N) := do
  let call ← s.calls c
  if h : call.sentTo < N ∧ call.round = none then
    some (s.setCall c { call with
      sentTo := call.sentTo + 1
      round := some (⟨call.sentTo, h.1⟩, s.sequencer.globalCommitIndex) })
  else
    none

/-- `versionId_` is read before `globalCommitIndex_`. -/
def loadVersionId (s : SharedSequencer N) (c : CallId) : Option (SharedSequencer N) := do
  let call ← s.calls c
  if call.sentTo < N ∧ call.round = none ∧ call.roundVersionId = none then
    some (s.setCall c { call with roundVersionId := some s.versionId })
  else
    none

/-- The replica is called. `versionId_` is read now, if it has not been. -/
def send (s : SharedSequencer N) (c : CallId) : Option (SharedSequencer N) := do
  let call ← s.calls c
  let round ← call.round
  some { s.setCall c { call with round := none, roundVersionId := none } with
    requests := call.request (call.roundVersionId.getD s.versionId) round :: s.requests }

/-- The callback of one future, once all requests have been sent. -/
def complete (s : SharedSequencer N) (c : CallId) (i : Fin N) (result : TryUnit) :
    Option (SharedSequencer N) := do
  let call ← s.calls c
  let futures ← call.futures.complete i result
  if call.sentTo = N ∧ call.round = none then
    some (s.setCall c { call with futures })
  else
    none

/-- The end of `SequencerImpl::append` takes the mutex and compares. A call that has nothing to
store returns. -/
def compare (s : SharedSequencer N) (c : CallId) : Option (SharedSequencer N) := do
  let call ← s.calls c
  match s.raising, call.acknowledged, call.futures.promise with
  | none, false, some (.ok _) =>
    if s.sequencer.globalCommitIndex < call.logId then
      some { s with raising := some c }
    else
      some (s.setCall c { call with acknowledged := true })
  | _, _, _ => none

/-- It stores its id, and returns. -/
def raise (s : SharedSequencer N) : Option (SharedSequencer N) := do
  let c ← s.raising
  let call ← s.calls c
  some ({ s with
    sequencer := { s.sequencer with globalCommitIndex := call.logId }
    raising := none }.setCall c { call with acknowledged := true })

/-- `SequencerImpl::start` stores `sequenceNum_`. -/
def start (s : SharedSequencer N) (versionId sequenceNum : Int) : SharedSequencer N :=
  { s with
    sequencer := { s.sequencer with sequenceNum }
    starting := .globalCommitIndex versionId sequenceNum :: s.starting }

/-- The next store of one of the calls of `start`. -/
def store (s : SharedSequencer N) (k : Nat) : Option (SharedSequencer N) :=
  match s.starting[k]? with
  | none => none
  | some (.globalCommitIndex versionId sequenceNum) =>
    some { s with
      sequencer := { s.sequencer with globalCommitIndex := sequenceNum }
      starting := s.starting.set k (.versionId versionId) }
  | some (.versionId versionId) => some { s with versionId, starting := s.starting.eraseIdx k }

def step (s : SharedSequencer N) : SharedEvent N → Option (SharedSequencer N)
  | .append c payload => s.append c payload
  | .load c => s.load c
  | .loadVersionId c => s.loadVersionId c
  | .send c => s.send c
  | .complete c i result => s.complete c i result
  | .compare c => s.compare c
  | .raise => s.raise
  | .start versionId sequenceNum => some (s.start versionId sequenceNum)
  | .store k => s.store k

/-- Between the stores of a `start` nobody takes an id, reads the commit index or is about to raise
it, and no other `start` begins. A call sends in the version it began in, an acknowledgement that
comes late is of an id that is not above the commit index, and the versions go up. -/
def InVersion (s : SharedSequencer N) : SharedEvent N → Prop
  | .append _ _ => s.starting = []
  | .load c => s.starting = [] ∧ ∀ call ∈ s.calls c, call.versionId = s.versionId
  | .loadVersionId c => ∀ call ∈ s.calls c, call.versionId = s.versionId
  | .send c => ∀ call ∈ s.calls c, call.roundVersionId = none → call.versionId = s.versionId
  | .compare c => ∀ call ∈ s.calls c, s.sequencer.globalCommitIndex < call.logId →
      s.starting = [] ∧ call.versionId = s.versionId
  | .start versionId _ => s.versionId < versionId ∧ s.starting = [] ∧ s.raising = none
  | _ => True

instance (s : SharedSequencer N) (e : SharedEvent N) : Decidable (s.InVersion e) := by
  unfold InVersion
  split <;> infer_instance

/-- **An append between the stores of a `start`** takes its id from the new version and sends it in
the old one. -/
theorem entry_sent_between_stores : ∃ s : SharedSequencer 1,
    Transition.run step (make 5 1)
        [.append 0 "a", .load 0, .send 0, .start 2 5, .append 1 "b", .load 1, .send 1] = some s ∧
      s.requests.map (fun m => (m.versionId, m.logId, m.payload)) = [(1, 5, "b"), (1, 5, "a")] :=
  ⟨_, rfl, rfl⟩

/-- **A call that goes on after `start`** sends its id in the new version, where another payload
gets it. -/
theorem entry_sent_twice : ∃ s : SharedSequencer 1,
    Transition.run step (make 5 1)
        [.append 0 "a", .start 2 5, .store 0, .store 0, .append 1 "b", .load 0, .send 0, .load 1,
          .send 1] = some s ∧
      s.requests.map (fun m => (m.versionId, m.logId, m.payload)) = [(2, 5, "b"), (2, 5, "a")] :=
  ⟨_, rfl, rfl⟩

end SharedSequencer

end ReplicatedCounter.Log
