import ReplicatedCounter.Lib.Transition
import ReplicatedCounter.Paxos.Register

/-!
# Acceptors and register objects, interleaved

The world is a set of acceptors, each over its own store, and any number of register objects. An
event is one atomic step of one of them: a `LocalAcceptor` call made by an object (the acceptor's
mutex makes it atomic), or the local work an object does between two of them. Which object moves
next is up to the event list, so every interleaving is a run; an object that stops is one that no
later event names; a slot can be given a new object with `make`.

Two kinds of event stand for the network. A prepare may take effect and still time out
(`prepare … true`), or time out first and take effect at any later point, when nobody listens any
more (`prepareTimeout` and `latePrepare`).

`trace` is the history of what was observed, for the statements about it; no step reads it.
-/

set_option autoImplicit false

namespace ReplicatedCounter.Paxos

/-- What the outside sees. -/
inductive Observation (A : Type) where
  /-- `accept` answered `true` at this acceptor. -/
  | accepted (acceptor : A) (paxosInstanceId : String) (ballotId : BallotId) (value : String)
  /-- `write` was called with this payload on an object of this register. -/
  | wrote (registerId : Int) (payload : String)
  /-- `getCommittedValue` returned this value at this acceptor. -/
  | committedValue (acceptor : A) (paxosInstanceId : String) (value : String)
  deriving DecidableEq

/-- Acceptors `A` over stores `κ`, register objects in slots `ι`. -/
structure World (A ι κ : Type) where
  acceptors : A → κ
  registers : ι → Option (RegisterObject A)
  late : List (A × String × BallotId) := []
  trace : List (Observation A) := []

/-- One step of one party. -/
inductive Event (A ι : Type) where
  | make (o : ι) (worId : Int) (acceptors : List A)
  | lock (o : ι)
  | prepare (o : ι) (k : Nat) (timedOut : Bool)
  | prepareTimeout (o : ι) (k : Nat)
  | latePrepare (acceptor : A) (paxosInstanceId : String) (ballot : BallotId)
  | lockDone (o : ι)
  | write (o : ι) (lockId : Int) (payload : String)
  | accept (o : ι)
  | acceptDone (o : ι)
  | commit (o : ι)
  | commitDone (o : ι)
  | read (o : ι)
  | readNext (o : ι)
  | readDone (o : ι)
  /-- Anybody asks an acceptor for the committed value. -/
  | query (acceptor : A) (paxosInstanceId : String)

/-- The object an event belongs to. -/
def Event.owner {A ι : Type} : Event A ι → Option ι
  | .latePrepare .. | .query .. => none
  | .make o .. | .lock o | .prepare o .. | .prepareTimeout o .. | .lockDone o | .write o ..
  | .accept o | .acceptDone o | .commit o | .commitDone o | .read o | .readNext o
  | .readDone o => some o

/-- The events by which the owner of an object creates it or calls it; all others are the call
going on by itself. -/
def Event.IsCall {A ι : Type} : Event A ι → Bool
  | .make .. | .lock .. | .write .. | .read .. => true
  | _ => false

/-- What a register call returns to its caller, at the step that ends it. -/
inductive Output where
  | lockReturned (lockId : Option Int)
  | writeReturned (result : Bool)
  /-- `none` is `ReadError::NOT_WRITTEN`. -/
  | readReturned (value : Option String)
  | threw (error : AcceptorError)
  deriving DecidableEq

namespace World

variable {A ι κ β : Type} [DecidableEq A] [DecidableEq ι] [KVStoreLite κ β]

/-- Run a coroutine on an acceptor's store. -/
def call {α : Type} (w : World A ι κ) (a : A) (m : AcceptorM κ α) :
    Except AcceptorError α × World A ι κ :=
  let (result, kv) := Coro.exec m (w.acceptors a)
  (result, { w with acceptors := Function.update w.acceptors a kv })

/-- Replace the object in a slot. -/
def set (w : World A ι κ) (o : ι) (r : RegisterObject A) : World A ι κ :=
  { w with registers := Function.update w.registers o (some r) }

def observe (w : World A ι κ) (obs : Observation A) : World A ι κ :=
  { w with trace := obs :: w.trace }

variable (codec : Codec PaxosInstance β)

/-- One event, and what a call that ends with it returns. -/
def step (w : World A ι κ) : Event A ι → Option (World A ι κ × Option Output)
  | .make o worId acceptors => some (w.set o (makePaxosWor worId acceptors), none)
  | .lock o => do
    let r ← w.registers o
    let r' ← r.lock
    return (w.set o r', none)
  | .prepare o k timedOut => do
    let r ← w.registers o
    let a ← r.outstanding k
    match w.call a (LocalAcceptor.prepare codec (instanceId r.majorId) (r.ballot r.lockId)) with
    | (.ok response, w) =>
      return (w.set o (r.answer k (if timedOut then none else some response)), none)
    | (.error e, w) => return (w.set o r.finish, some (.threw e))
  | .prepareTimeout o k => do
    let r ← w.registers o
    let a ← r.outstanding k
    let w := { w with late := (a, instanceId r.majorId, r.ballot r.lockId) :: w.late }
    return (w.set o (r.answer k none), none)
  | .latePrepare a id ballot =>
    if (a, id, ballot) ∈ w.late then
      let w := { w with late := w.late.erase (a, id, ballot) }
      some ((w.call a (LocalAcceptor.prepare codec id ballot)).2, none)
    else none
  | .lockDone o => do
    let r ← w.registers o
    let (r', lockId) ← r.lockDone
    return (w.set o r', some (.lockReturned lockId))
  | .write o lockId payload => do
    let r ← w.registers o
    let r' ← r.write lockId payload
    return ((w.set o r').observe (.wrote r.majorId payload), none)
  | .accept o => do
    let r ← w.registers o
    match r.phase with
    | .accepting proposal (a :: remaining) successful =>
      match w.call a (LocalAcceptor.accept codec (instanceId r.majorId) proposal) with
      | (.ok true, w) =>
        let w := w.observe (.accepted a (instanceId r.majorId) proposal.ballotId proposal.value)
        return (w.set o { r with phase := .accepting proposal remaining (successful + 1) }, none)
      | (.ok false, w) =>
        return (w.set o { r with phase := .accepting proposal remaining successful }, none)
      | (.error e, w) => return (w.set o r.finish, some (.threw e))
    | _ => none
  | .acceptDone o => do
    let r ← w.registers o
    let (r', result) ← r.acceptDone
    return (w.set o r', result.map .writeReturned)
  | .commit o => do
    let r ← w.registers o
    match r.phase with
    | .committing ballotId (a :: remaining) committed =>
      match w.call a (LocalAcceptor.commit codec (instanceId r.majorId) ballotId) with
      | (.ok commitResult, w) =>
        return (w.set o { r with
          phase := .committing ballotId remaining (committed || commitResult) }, none)
      | (.error e, w) => return (w.set o r.finish, some (.threw e))
    | _ => none
  | .commitDone o => do
    let r ← w.registers o
    let (r', result) ← r.commitDone
    return (w.set o r', some (.writeReturned result))
  | .read o => do
    let r ← w.registers o
    let r' ← r.read
    return (w.set o r', none)
  | .readNext o => do
    let r ← w.registers o
    match r.phase with
    | .reading (a :: remaining) =>
      match w.call a (LocalAcceptor.getCommittedValue codec (instanceId r.majorId)) with
      | (.ok (some value), w) =>
        let w := w.observe (.committedValue a (instanceId r.majorId) value)
        return (w.set o r.finish, some (.readReturned (some value)))
      | (.ok none, w) => return (w.set o { r with phase := .reading remaining }, none)
      | (.error e, w) => return (w.set o r.finish, some (.threw e))
    | _ => none
  | .readDone o => do
    let r ← w.registers o
    let r' ← r.readDone
    return (w.set o r', some (.readReturned none))
  | .query a id =>
    match w.call a (LocalAcceptor.getCommittedValue codec id) with
    | (.ok (some value), w) => some (w.observe (.committedValue a id value), none)
    | (_, w) => some (w, none)

/-- The step without the returned value. -/
def next (w : World A ι κ) (e : Event A ι) : Option (World A ι κ) := (w.step codec e).map (·.1)

/-- A world before anything happened: empty stores, no objects. -/
structure Initial (w : World A ι κ) : Prop where
  stores : ∀ a id, KVStoreLite.get (w.acceptors a) (LocalAcceptor.keyFormat id) = none
  registers : ∀ o, w.registers o = none
  late : w.late = []
  trace : w.trace = []

end World

end ReplicatedCounter.Paxos
