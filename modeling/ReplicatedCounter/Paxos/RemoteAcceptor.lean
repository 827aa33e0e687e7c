import ReplicatedCounter.Paxos.LocalAcceptor

/-!
# `RemoteAcceptor` over `AcceptorServer`

The same five calls, made through gRPC: `RemoteAcceptor` forwards to `AcceptorClient`, which
encodes a request, calls the stub and decodes the response; `AcceptorServer` decodes the request,
calls the acceptor it wraps and encodes the answer. gRPC itself is the identity here — a handler
that returns is delivered unaltered with status OK, one that throws comes back as a status the
client turns into an exception of its own.

The question is whether the pair is transparent. Four of the five calls are. `prepare` is not: the
client looks at the status and then answers `co_return {}`, a default `Promise`, whatever the
response holds. So through a remote acceptor a rejected prepare looks like a promise, and an
accepted value is never reported. `transparent_iff_not_prepare` says that this is all that goes
wrong, in every state an acceptor can be in.
-/

set_option autoImplicit false

namespace ReplicatedCounter.Paxos

/-! ## `wor/paxos/server/proto/Acceptor.proto` -/

structure PrepareRequest where
  paxosInstanceId : String
  ballotId : BallotId

/-- `PrepareResponse`, a `oneof` that may also be unset. -/
inductive PrepareReply where
  | notSet
  | promise (promise : Promise)
  | prepareFailed

structure AcceptRequest where
  paxosInstanceId : String
  proposal : Proposal

structure CommitRequest where
  paxosInstanceId : String
  ballotId : BallotId

/-- `AcceptResponse` and `CommitResponse`. -/
structure ResultReply where
  result : Bool := false

/-- `GetAcceptedValueRequest` and `GetCommittedValueRequest`. -/
structure ValueRequest where
  paxosInstanceId : String

structure GetAcceptedValueReply where
  promise : Option Promise := none

structure GetCommittedValueReply where
  value : Option String := none

/-! ## `wor/paxos/server/Acceptor.h` -/

namespace AcceptorServer

variable {κ : Type} (acceptor : Acceptor (AcceptorM κ))

/-- `AcceptorServer::prepare`. -/
def prepare (request : PrepareRequest) : AcceptorM κ PrepareReply := do
  let prepareResult ← acceptor.prepare request.paxosInstanceId request.ballotId
  match prepareResult with
  | .rejected => return .prepareFailed
  | .promise promise => return .promise promise

/-- `AcceptorServer::accept`. -/
def accept (request : AcceptRequest) : AcceptorM κ ResultReply := do
  let result ← acceptor.accept request.paxosInstanceId request.proposal
  return { result := result }

/-- `AcceptorServer::commit`. -/
def commit (request : CommitRequest) : AcceptorM κ ResultReply := do
  let result ← acceptor.commit request.paxosInstanceId request.ballotId
  return { result := result }

/-- `AcceptorServer::getAcceptedValue`. -/
def getAcceptedValue (request : ValueRequest) : AcceptorM κ GetAcceptedValueReply := do
  match ← acceptor.getAcceptedValue request.paxosInstanceId with
  | some promise => return { promise := some promise }
  | none => return {}

/-- `AcceptorServer::getCommittedValue`. -/
def getCommittedValue (request : ValueRequest) : AcceptorM κ GetCommittedValueReply := do
  match ← acceptor.getCommittedValue request.paxosInstanceId with
  | some value => return { value := some value }
  | none => return {}

end AcceptorServer

/-! ## `wor/paxos/client/AcceptorClient.h` and `wor/paxos/RemoteAcceptor.h` -/

/-- The client's only exception: `std::runtime_error(context.debug_error_string())`. -/
inductive RpcError where
  | statusNotOk
  deriving DecidableEq, Repr

/-- A coroutine of the client, with the server's store behind the wire. -/
abbrev RpcM (κ : Type) := Coro RpcError κ

/-- `stub_->method(&context, request, &response)`: what the handler returns arrives as it is, and
a handler that throws arrives as a status that is not OK. -/
def stub {κ ρ : Type} (handler : AcceptorM κ ρ) : RpcM κ ρ :=
  ExceptT.mk fun kv =>
    match Coro.exec handler kv with
    | (.ok response, kv') => (.ok response, kv')
    | (.error _, kv') => (.error .statusNotOk, kv')

namespace AcceptorClient

variable {κ : Type} (server : Acceptor (AcceptorM κ))

/-- `AcceptorClient::prepare`. The response is received and not looked at: with status OK the
answer is the default of `std::variant<Promise, std::false_type>`. -/
def prepare (paxosInstanceId : String) (ballot : BallotId) : RpcM κ PrepareResponse := do
  let _prepareResponse ← stub (AcceptorServer.prepare server ⟨paxosInstanceId, ballot⟩)
  return .promise {}

/-- `AcceptorClient::accept`. -/
def accept (paxosInstanceId : String) (proposal : Proposal) : RpcM κ Bool := do
  let response ← stub (AcceptorServer.accept server ⟨paxosInstanceId, proposal⟩)
  return response.result

/-- `AcceptorClient::commit`. -/
def commit (paxosInstanceId : String) (ballotId : BallotId) : RpcM κ Bool := do
  let response ← stub (AcceptorServer.commit server ⟨paxosInstanceId, ballotId⟩)
  return response.result

/-- `AcceptorClient::getAcceptedValue`. -/
def getAcceptedValue (paxosInstanceId : String) : RpcM κ (Option Promise) := do
  let response ← stub (AcceptorServer.getAcceptedValue server ⟨paxosInstanceId⟩)
  match response.promise with
  | some promise => return some promise
  | none => return none

/-- `AcceptorClient::getCommittedValue`. -/
def getCommittedValue (paxosInstanceId : String) : RpcM κ (Option String) := do
  let response ← stub (AcceptorServer.getCommittedValue server ⟨paxosInstanceId⟩)
  match response.value with
  | some value => return some value
  | none => return none

end AcceptorClient

/-- `RemoteAcceptor`: every method forwards to the client's. -/
def remoteAcceptor {κ : Type} (server : Acceptor (AcceptorM κ)) : Acceptor (RpcM κ) where
  prepare := AcceptorClient.prepare server
  accept := AcceptorClient.accept server
  commit := AcceptorClient.commit server
  getAcceptedValue := AcceptorClient.getAcceptedValue server
  getCommittedValue := AcceptorClient.getCommittedValue server

/-! ## Transparency -/

section Transparency

/-- The one call whose answer the client drops. -/
def Call.IsPrepare : Call → Prop
  | .prepare _ _ => True
  | _ => False

variable {κ β : Type} [KVStoreLite κ β] (codec : Codec PaxosInstance β)

/-- The store after a call, made locally. -/
def afterCall (kv : κ) (call : Call) : κ := (Coro.exec ((localAcceptor codec).perform call) kv).2

/-- The store after a history of calls. -/
def afterCalls (kv : κ) (history : List Call) : κ := history.foldl (afterCall codec) kv

/-- Through the wire the call answers what the acceptor answers and leaves the same store. -/
def Transparent (kv : κ) (call : Call) : Prop :=
  ∀ answer kv', Coro.exec ((localAcceptor codec).perform call) kv = (.ok answer, kv') →
    Coro.exec ((remoteAcceptor (localAcceptor codec)).perform call) kv = (.ok answer, kv')

/-- A well-formed store in which whatever is accepted carries its ballot. -/
structure Sound (kv : κ) : Prop where
  wellFormed : LocalAcceptor.WellFormed codec kv
  ballot : ∀ id p, (LocalAcceptor.instanceOf codec kv id).accepted = some p → p.ballotId.isSome

variable {codec}

theorem stub_exec {ρ : Type} {handler : AcceptorM κ ρ} {kv kv' : κ} {response : ρ}
    (h : Coro.exec handler kv = (.ok response, kv')) :
    Coro.exec (stub handler) kv = (.ok response, kv') := by
  show (match Coro.exec handler kv with
    | (.ok response, kv') => (Except.ok response, kv')
    | (.error _, kv') => (.error RpcError.statusNotOk, kv')) = _
  rw [h]

theorem Sound.update {kv kv' : κ} {id : String} {i : PaxosInstance} (h : Sound codec kv)
    (hup : LocalAcceptor.Updates codec kv kv' id i)
    (hi : ∀ p, i.accepted = some p → p.ballotId.isSome) : Sound codec kv' where
  wellFormed := hup.wellFormed
  ballot := by
    intro id' p hp
    by_cases hid : id' = id
    · subst hid
      rw [hup.same] at hp
      exact hi p hp
    · rw [hup.other id' hid] at hp
      exact h.ballot id' p hp

variable [LawfulKVStoreLite κ β]

/-- On a sound store every call returns and keeps the store sound. -/
theorem Sound.perform {kv : κ} (h : Sound codec kv) (call : Call) :
    ∃ answer kv', Coro.exec ((localAcceptor codec).perform call) kv = (.ok answer, kv') ∧
      Sound codec kv' := by
  cases call with
  | prepare id b =>
    obtain ⟨resp, kv', hexec, hcases⟩ := LocalAcceptor.prepare_spec h.wellFormed id b
    refine ⟨.prepared resp, kv', Coro.exec_map_ok_iff.mpr ⟨resp, hexec, rfl⟩, ?_⟩
    rcases hcases with ⟨-, -, hup⟩ | ⟨-, -, hup⟩
    · exact h.update hup (h.ballot id)
    · exact h.update hup (h.ballot id)
  | accept id p =>
    obtain ⟨result, kv', hexec, hcases⟩ := LocalAcceptor.accept_spec h.wellFormed id p
    refine ⟨.done result, kv', Coro.exec_map_ok_iff.mpr ⟨result, hexec, rfl⟩, ?_⟩
    rcases hcases with ⟨-, -, hup⟩ | ⟨-, -, hup⟩
    · exact h.update hup (h.ballot id)
    · refine h.update hup fun q hq => ?_
      simp only [Option.some.injEq] at hq
      subst hq
      rfl
  | commit id b =>
    obtain ⟨kv', hexec, hup⟩ := LocalAcceptor.commit_spec h.wellFormed id b
    exact ⟨_, kv', Coro.exec_map_ok_iff.mpr ⟨_, hexec, rfl⟩, h.update hup (h.ballot id)⟩
  | getAcceptedValue id =>
    obtain ⟨kv', hexec, hup⟩ := LocalAcceptor.getAcceptedValue_spec h.wellFormed id
    exact ⟨_, kv', Coro.exec_map_ok_iff.mpr ⟨_, hexec, rfl⟩, h.update hup (h.ballot id)⟩
  | getCommittedValue id =>
    obtain ⟨kv', hexec, hup⟩ := LocalAcceptor.getCommittedValue_spec h.wellFormed id
    exact ⟨_, kv', Coro.exec_map_ok_iff.mpr ⟨_, hexec, rfl⟩, h.update hup (h.ballot id)⟩

/-- Every history of calls on an empty store leaves a sound one. -/
theorem sound_afterCalls {kv : κ} (h : Sound codec kv) (history : List Call) :
    Sound codec (afterCalls codec kv history) := by
  induction history generalizing kv with
  | nil => exact h
  | cons call rest ih =>
    obtain ⟨answer, kv', hexec, hsound⟩ := h.perform call
    have hkv : afterCall codec kv call = kv' := by
      unfold afterCall
      rw [hexec]
    exact ih (hkv ▸ hsound)

omit [LawfulKVStoreLite κ β] in
theorem sound_of_empty {kv : κ}
    (h : ∀ id, KVStoreLite.get kv (LocalAcceptor.keyFormat id) = none) : Sound codec kv where
  wellFormed := LocalAcceptor.wellFormed_of_empty h
  ballot := by
    intro id p hp
    rw [LocalAcceptor.instanceOf_of_empty h] at hp
    exact absurd hp (by simp [LocalAcceptor.freshInstance])

omit [LawfulKVStoreLite κ β] in
/-- `accept`, `commit` and the two reads survive the wire, whatever the store holds. -/
theorem transparent_of_not_prepare (kv : κ) {call : Call} (hcall : ¬ call.IsPrepare) :
    Transparent codec kv call := by
  intro answer kv' hlocal
  cases call with
  | prepare id b => exact absurd trivial hcall
  | accept id p =>
    obtain ⟨result, hexec, rfl⟩ := Coro.exec_map_ok_iff.mp hlocal
    have hserver : Coro.exec (AcceptorServer.accept (localAcceptor codec) ⟨id, p⟩) kv =
        (.ok { result := result }, kv') := Coro.exec_map_ok_iff.mpr ⟨result, hexec, rfl⟩
    have hclient : Coro.exec (AcceptorClient.accept (localAcceptor codec) id p) kv =
        (.ok result, kv') := Coro.exec_map_ok_iff.mpr ⟨_, stub_exec hserver, rfl⟩
    exact Coro.exec_map_ok_iff.mpr ⟨result, hclient, rfl⟩
  | commit id b =>
    obtain ⟨result, hexec, rfl⟩ := Coro.exec_map_ok_iff.mp hlocal
    have hserver : Coro.exec (AcceptorServer.commit (localAcceptor codec) ⟨id, b⟩) kv =
        (.ok { result := result }, kv') := Coro.exec_map_ok_iff.mpr ⟨result, hexec, rfl⟩
    have hclient : Coro.exec (AcceptorClient.commit (localAcceptor codec) id b) kv =
        (.ok result, kv') := Coro.exec_map_ok_iff.mpr ⟨_, stub_exec hserver, rfl⟩
    exact Coro.exec_map_ok_iff.mpr ⟨result, hclient, rfl⟩
  | getAcceptedValue id =>
    obtain ⟨value, hexec, rfl⟩ := Coro.exec_map_ok_iff.mp hlocal
    have hserver : Coro.exec (AcceptorServer.getAcceptedValue (localAcceptor codec) ⟨id⟩) kv =
        (.ok { promise := value }, kv') := by
      unfold AcceptorServer.getAcceptedValue
      rw [Coro.exec_bind_ok hexec]
      cases value <;> rfl
    have hclient : Coro.exec (AcceptorClient.getAcceptedValue (localAcceptor codec) id) kv =
        (.ok value, kv') := by
      unfold AcceptorClient.getAcceptedValue
      rw [Coro.exec_bind_ok (stub_exec hserver)]
      cases value <;> rfl
    exact Coro.exec_map_ok_iff.mpr ⟨value, hclient, rfl⟩
  | getCommittedValue id =>
    obtain ⟨value, hexec, rfl⟩ := Coro.exec_map_ok_iff.mp hlocal
    have hserver : Coro.exec (AcceptorServer.getCommittedValue (localAcceptor codec) ⟨id⟩) kv =
        (.ok { value := value }, kv') := by
      unfold AcceptorServer.getCommittedValue
      rw [Coro.exec_bind_ok hexec]
      cases value <;> rfl
    have hclient : Coro.exec (AcceptorClient.getCommittedValue (localAcceptor codec) id) kv =
        (.ok value, kv') := by
      unfold AcceptorClient.getCommittedValue
      rw [Coro.exec_bind_ok (stub_exec hserver)]
      cases value <;> rfl
    exact Coro.exec_map_ok_iff.mpr ⟨value, hclient, rfl⟩

omit [LawfulKVStoreLite κ β] in
/-- Whatever the acceptor answers a prepare, the client answers the default promise. -/
theorem remote_prepare_answer {kv kv' : κ} {id : String} {b : BallotId} {answer : Answer}
    (h : Coro.exec ((remoteAcceptor (localAcceptor codec)).perform (.prepare id b)) kv =
      (.ok answer, kv')) : answer = .prepared (.promise {}) := by
  obtain ⟨resp, hclient, rfl⟩ := Coro.exec_map_ok_iff.mp h
  obtain ⟨reply, -, hresp⟩ :=
    (Coro.exec_map_ok_iff (f := fun _ => PrepareResponse.promise {})).mp hclient
  rw [← hresp]

/-- A local promise always carries a ballot: its own, or the one accepted before. -/
theorem Sound.prepare_ne_default {kv kv' : κ} (h : Sound codec kv) {id : String} {b : BallotId}
    {answer : Answer}
    (hlocal : Coro.exec ((localAcceptor codec).perform (.prepare id b)) kv = (.ok answer, kv')) :
    answer ≠ .prepared (.promise {}) := by
  obtain ⟨resp, hexec, rfl⟩ := Coro.exec_map_ok_iff.mp hlocal
  obtain ⟨resp', kv'', hexec', hcases⟩ := LocalAcceptor.prepare_spec h.wellFormed id b
  have hresp : resp = resp' := by
    have heq := hexec.symm.trans hexec'
    simp only [Prod.mk.injEq, Except.ok.injEq] at heq
    exact heq.1
  subst hresp
  rcases hcases with ⟨-, rfl, -⟩ | ⟨-, rfl, -⟩
  · simp
  · intro hdefault
    simp only [Answer.prepared.injEq, PrepareResponse.promise.injEq] at hdefault
    cases hacc : (LocalAcceptor.instanceOf codec kv id).accepted with
    | none => exact absurd hdefault (by simp [hacc])
    | some p =>
      rw [hacc, Option.getD_some] at hdefault
      have hset := h.ballot id p hacc
      rw [hdefault] at hset
      exact absurd hset (by simp)

/-- **A call through the remote acceptor is transparent exactly when it is not a prepare**, in
every state that any history of calls can bring an acceptor to. -/
theorem transparent_iff_not_prepare {kv : κ}
    (hempty : ∀ id, KVStoreLite.get kv (LocalAcceptor.keyFormat id) = none)
    (history : List Call) (call : Call) :
    Transparent codec (afterCalls codec kv history) call ↔ ¬ call.IsPrepare := by
  constructor
  · intro htrans hprep
    cases call with
    | prepare id b =>
      have hsound : Sound codec (afterCalls codec kv history) :=
        sound_afterCalls (sound_of_empty hempty) history
      obtain ⟨answer, kv', hlocal, -⟩ := hsound.perform (.prepare id b)
      exact hsound.prepare_ne_default hlocal (remote_prepare_answer (htrans answer kv' hlocal))
    | accept id p => exact hprep
    | commit id b => exact hprep
    | getAcceptedValue id => exact hprep
    | getCommittedValue id => exact hprep
  · exact transparent_of_not_prepare _

end Transparency

/-- A promised acceptor on a fresh Rocks store, asked to accept. -/
theorem transparent_accept_after_prepare :
    (∀ id, KVStoreLite.get (RocksStore.provideSharedPtr true : RocksStore PaxosInstance)
      (LocalAcceptor.keyFormat id) = none) ∧
    Transparent (Codec.identity PaxosInstance)
      (afterCalls (Codec.identity PaxosInstance) (RocksStore.provideSharedPtr true)
        [.prepare "1" ⟨1, 5⟩])
      (.accept "1" ⟨⟨1, 5⟩, "config"⟩) :=
  ⟨fun _ => rfl, (transparent_iff_not_prepare (fun _ => rfl) _ _).mpr id⟩

/-- After a promise for ballot (1, 5) a prepare with ballot (1, 2) is rejected by the acceptor and
answered with a promise by the client. -/
theorem not_transparent_rejected_prepare :
    ¬ Transparent (Codec.identity PaxosInstance)
      (afterCalls (Codec.identity PaxosInstance)
        (RocksStore.provideSharedPtr true : RocksStore PaxosInstance) [.prepare "1" ⟨1, 5⟩])
      (.prepare "1" ⟨1, 2⟩) := by
  intro h
  have hanswer := remote_prepare_answer (h (.prepared .rejected) _ rfl)
  exact absurd hanswer (by decide)

end ReplicatedCounter.Paxos
