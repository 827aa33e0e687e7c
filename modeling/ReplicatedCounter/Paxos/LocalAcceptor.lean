import ReplicatedCounter.Lib.Coro
import ReplicatedCounter.Paxos.Messages
import ReplicatedCounter.Persistence.KVStoreLite

/-!
# `wor/paxos/LocalAcceptor.cc`

One acceptor, as the code has it: no state of its own, every call loads the `PaxosInstance` of the
register from the key-value store, decides, and writes the instance back under
`PAXOS_DATA|<instance.id()>`. Loading creates the instance when it is missing — also for a read.

The five calls run in `AcceptorM`, state over the store with the code's exceptions on top; an
exception leaves the store as it was when it was thrown.

The second half is the view the rest of the development uses. Over a lawful store whose Paxos keys
all hold a readable instance with the right id (`WellFormed`), every call succeeds, and its effect
is one update of `instanceOf` at one id (`Updates`). `prepare_spec` and its siblings say which.
Nothing outside this file opens a store again.
-/

set_option autoImplicit false

namespace ReplicatedCounter.Paxos

/-- What `LocalAcceptor` throws. -/
inductive AcceptorError where
  | storageWriteFailed
  | notDeserialized
  | storageError
  deriving DecidableEq, Repr

/-- The text of the exception. -/
def AcceptorError.what : AcceptorError → String
  | .storageWriteFailed => "storage write failed"
  | .notDeserialized => "paxos instance could not be deserialized"
  | .storageError => "storage error"

/-- A coroutine of the acceptor: reads and writes the store, may throw. -/
abbrev AcceptorM (κ : Type) := Coro AcceptorError κ

namespace LocalAcceptor

variable {κ β : Type} [KVStoreLite κ β]

/-- `KEY_FORMAT = "PAXOS_DATA|{}"`. -/
def keyFormat (id : String) : String := "PAXOS_DATA|" ++ id

/-- `co_await kvStore_->get(key)`. -/
def kvGet (key : String) : AcceptorM κ (Option β) := do
  let kv ← getThe κ
  return KVStoreLite.get kv key

/-- `co_await kvStore_->put(key, value)`. -/
def kvPut (key : String) (value : β) : AcceptorM κ Bool := do
  let kv ← getThe κ
  let (kv', result) := KVStoreLite.put kv key value
  set kv'
  return result

/-- The instance `getOrCreate` starts a register with. -/
def freshInstance (id : String) : PaxosInstance :=
  { id := id, promisedBallotId := ⟨-1, -1⟩, committed := false }

theorem kvGet_exec (key : String) (kv : κ) :
    Coro.exec (kvGet key) kv = (.ok (KVStoreLite.get kv key), kv) := rfl

theorem kvPut_exec (key : String) (value : β) (kv : κ) :
    Coro.exec (kvPut key value) kv =
      (.ok (KVStoreLite.put kv key value).2, (KVStoreLite.put kv key value).1) := rfl

variable (codec : Codec PaxosInstance β)

/-- `LocalAcceptor::getOrCreate`. -/
def getOrCreate (id : String) : AcceptorM κ PaxosInstance := do
  let result ← kvGet (keyFormat id)
  match result with
  | some bytes =>
    match codec.parse bytes with
    | none => throw .notDeserialized
    | some paxosInstance => return paxosInstance
  | none =>
    let paxosInstance := freshInstance id
    let putResult ← kvPut (keyFormat id) (codec.serialize paxosInstance)
    if !putResult then
      throw .storageError
    return paxosInstance

/-- `kvStore_->put(fmt::format(KEY_FORMAT, paxosInstance.id()), ...)` and the check after it. -/
def writeBack (paxosInstance : PaxosInstance) : AcceptorM κ Unit := do
  let result ← kvPut (keyFormat paxosInstance.id) (codec.serialize paxosInstance)
  if !result then
    throw .storageWriteFailed

/-- `LocalAcceptor::prepare`. -/
def prepare (paxosInstanceId : String) (ballot : BallotId) : AcceptorM κ PrepareResponse := do
  let paxosInstance ← getOrCreate codec paxosInstanceId
  if ballot ≤ paxosInstance.promisedBallotId then
    return .rejected
  let paxosInstance := { paxosInstance with promisedBallotId := ballot }
  writeBack codec paxosInstance
  match paxosInstance.accepted with
  | some accepted => return .promise accepted
  | none => return .promise { ballotId := some ballot }

/-- `LocalAcceptor::accept`. -/
def accept (paxosInstanceId : String) (proposal : Proposal) : AcceptorM κ Bool := do
  let paxosInstance ← getOrCreate codec paxosInstanceId
  if proposal.ballotId < paxosInstance.promisedBallotId then
    return false
  writeBack codec { paxosInstance with
    promisedBallotId := proposal.ballotId
    accepted := some { ballotId := some proposal.ballotId, value := some proposal.value } }
  return true

/-- `LocalAcceptor::commit`. The ballot is not looked at. -/
def commit (paxosInstanceId : String) (_ballotId : BallotId) : AcceptorM κ Bool := do
  let paxosInstance ← getOrCreate codec paxosInstanceId
  if !paxosInstance.committed then
    writeBack codec { paxosInstance with committed := true }
    return true
  return false

/-- `LocalAcceptor::getAcceptedValue`. An unset `accepted` reads as the default `Promise`. -/
def getAcceptedValue (paxosInstanceId : String) : AcceptorM κ (Option Promise) := do
  let paxosInstance ← getOrCreate codec paxosInstanceId
  return some (paxosInstance.accepted.getD {})

/-- `LocalAcceptor::getCommittedValue`. An unset `accepted` or `value` reads as the empty
string. -/
def getCommittedValue (paxosInstanceId : String) : AcceptorM κ (Option String) := do
  let paxosInstance ← getOrCreate codec paxosInstanceId
  if paxosInstance.committed then
    return some ((paxosInstance.accepted.getD {}).value.getD "")
  return none

/-! ## The instances a store holds -/

/-- The instance of a register, the fresh one when the store has none. -/
def instanceOf (kv : κ) (id : String) : PaxosInstance :=
  ((KVStoreLite.get kv (keyFormat id)).bind codec.parse).getD (freshInstance id)

/-- Every Paxos key of the store holds an instance that parses and carries its own id. -/
def WellFormed (kv : κ) : Prop :=
  ∀ id bytes, KVStoreLite.get kv (keyFormat id) = some bytes →
    ∃ i, codec.parse bytes = some i ∧ i.id = id

/-- `kv'` is `kv` with the instance of `id` set to `i` and every other instance unchanged. -/
structure Updates (kv kv' : κ) (id : String) (i : PaxosInstance) : Prop where
  wellFormed : WellFormed codec kv'
  same : instanceOf codec kv' id = i
  other : ∀ id', id' ≠ id → instanceOf codec kv' id' = instanceOf codec kv id'

variable {codec}

theorem keyFormat_injective : Function.Injective keyFormat := by
  intro a b h
  simpa [keyFormat] using h

theorem instanceOf_id {kv : κ} (h : WellFormed codec kv) (id : String) :
    (instanceOf codec kv id).id = id := by
  unfold instanceOf
  cases hget : KVStoreLite.get kv (keyFormat id) with
  | none => rfl
  | some bytes =>
    obtain ⟨i, hparse, hid⟩ := h id bytes hget
    simpa [hparse] using hid

/-- A store without Paxos keys holds only fresh instances. -/
theorem wellFormed_of_empty {kv : κ} (h : ∀ id, KVStoreLite.get kv (keyFormat id) = none) :
    WellFormed codec kv := by
  intro id bytes hget
  rw [h id] at hget
  exact absurd hget (by simp)

theorem instanceOf_of_empty {kv : κ} (h : ∀ id, KVStoreLite.get kv (keyFormat id) = none)
    (id : String) : instanceOf codec kv id = freshInstance id := by
  simp [instanceOf, h id]

theorem Updates.trans {kv kv' kv'' : κ} {id : String} {i i' : PaxosInstance}
    (h : Updates codec kv kv' id i) (h' : Updates codec kv' kv'' id i') :
    Updates codec kv kv'' id i' :=
  ⟨h'.wellFormed, h'.same, fun id' hne => (h'.other id' hne).trans (h.other id' hne)⟩

variable [LawfulKVStoreLite κ β]

/-- Writing an instance under its own id updates that instance only. -/
theorem updates_put {kv : κ} (h : WellFormed codec kv) (i : PaxosInstance) :
    Updates codec kv (KVStoreLite.put kv (keyFormat i.id) (codec.serialize i)).1 i.id i where
  wellFormed := by
    intro id bytes hget
    rw [LawfulKVStoreLite.get_put] at hget
    by_cases hid : keyFormat id = keyFormat i.id
    · rw [if_pos hid, Option.some.injEq] at hget
      exact ⟨i, hget ▸ codec.parse_serialize i, (keyFormat_injective hid).symm⟩
    · rw [if_neg hid] at hget
      exact h id bytes hget
  same := by
    unfold instanceOf
    rw [LawfulKVStoreLite.get_put, if_pos rfl]
    simp [codec.parse_serialize]
  other := by
    intro id' hne
    unfold instanceOf
    rw [LawfulKVStoreLite.get_put, if_neg (fun hk => hne (keyFormat_injective hk))]

theorem getOrCreate_exec {kv : κ} (h : WellFormed codec kv) (id : String) :
    ∃ kv', Coro.exec (getOrCreate codec id) kv = (.ok (instanceOf codec kv id), kv') ∧
      Updates codec kv kv' id (instanceOf codec kv id) := by
  unfold getOrCreate
  rw [Coro.exec_bind_ok (kvGet_exec _ kv)]
  cases hget : KVStoreLite.get kv (keyFormat id) with
  | none =>
    have hi : instanceOf codec kv id = freshInstance id := by simp [instanceOf, hget]
    refine ⟨(KVStoreLite.put kv (keyFormat id) (codec.serialize (freshInstance id))).1, ?_, ?_⟩
    · dsimp only
      rw [Coro.exec_bind_ok (kvPut_exec _ _ kv), LawfulKVStoreLite.put_ok, hi]
      rfl
    · rw [hi]
      exact updates_put h (freshInstance id)
  | some bytes =>
    obtain ⟨i, hparse, hid⟩ := h id bytes hget
    have hi : instanceOf codec kv id = i := by simp [instanceOf, hget, hparse]
    refine ⟨kv, ?_, h, rfl, fun _ _ => rfl⟩
    dsimp only
    rw [hparse, hi]
    rfl

theorem writeBack_exec {kv : κ} (h : WellFormed codec kv) (i : PaxosInstance) :
    ∃ kv', Coro.exec (writeBack codec i) kv = (.ok (), kv') ∧ Updates codec kv kv' i.id i := by
  refine ⟨(KVStoreLite.put kv (keyFormat i.id) (codec.serialize i)).1, ?_, updates_put h i⟩
  unfold writeBack
  rw [Coro.exec_bind_ok (kvPut_exec _ _ kv), LawfulKVStoreLite.put_ok]
  rfl

/-- Loading an instance and writing a changed copy back: one update at its id. -/
theorem load_write_exec {kv : κ} (h : WellFormed codec kv) (id : String) {i : PaxosInstance}
    (hid : i.id = id) :
    ∃ kv₁ kv', Coro.exec (getOrCreate codec id) kv = (.ok (instanceOf codec kv id), kv₁) ∧
      Coro.exec (writeBack codec i) kv₁ = (.ok (), kv') ∧ Updates codec kv kv' id i := by
  obtain ⟨kv₁, hload, hup₁⟩ := getOrCreate_exec h id
  obtain ⟨kv', hwrite, hup'⟩ := writeBack_exec hup₁.wellFormed i
  exact ⟨kv₁, kv', hload, hwrite, hup₁.trans (hid ▸ hup')⟩

/-! ## One spec per call -/

/-- **`prepare`**: a ballot that is not above the promise is rejected and changes nothing; any
other becomes the promise, and the answer carries what was accepted before. -/
theorem prepare_spec {kv : κ} (h : WellFormed codec kv) (id : String) (b : BallotId) :
    ∃ resp kv', Coro.exec (prepare codec id b) kv = (.ok resp, kv') ∧
      (b ≤ (instanceOf codec kv id).promisedBallotId ∧ resp = .rejected ∧
          Updates codec kv kv' id (instanceOf codec kv id) ∨
        (instanceOf codec kv id).promisedBallotId < b ∧
          resp = .promise ((instanceOf codec kv id).accepted.getD { ballotId := some b }) ∧
          Updates codec kv kv' id { instanceOf codec kv id with promisedBallotId := b }) := by
  rcases le_or_gt b (instanceOf codec kv id).promisedBallotId with hb | hb
  · obtain ⟨kv', hload, hup⟩ := getOrCreate_exec h id
    refine ⟨.rejected, kv', ?_, .inl ⟨hb, rfl, hup⟩⟩
    unfold prepare
    rw [Coro.exec_bind_ok hload]
    simp [hb]
  · obtain ⟨kv₁, kv', hload, hwrite, hup⟩ := load_write_exec h id
      (i := { instanceOf codec kv id with promisedBallotId := b }) (instanceOf_id h id)
    refine ⟨_, kv', ?_, .inr ⟨hb, rfl, hup⟩⟩
    unfold prepare
    rw [Coro.exec_bind_ok hload]
    simp only [not_le.mpr hb, if_false]
    rw [Coro.exec_bind_ok hwrite]
    cases (instanceOf codec kv id).accepted <;> rfl

/-- **`accept`**: a ballot below the promise is refused and changes nothing; any other becomes
promise and accepted ballot at once, overwriting what was accepted before. -/
theorem accept_spec {kv : κ} (h : WellFormed codec kv) (id : String) (p : Proposal) :
    ∃ result kv', Coro.exec (accept codec id p) kv = (.ok result, kv') ∧
      (p.ballotId < (instanceOf codec kv id).promisedBallotId ∧ result = false ∧
          Updates codec kv kv' id (instanceOf codec kv id) ∨
        (instanceOf codec kv id).promisedBallotId ≤ p.ballotId ∧ result = true ∧
          Updates codec kv kv' id { instanceOf codec kv id with
            promisedBallotId := p.ballotId
            accepted := some { ballotId := some p.ballotId, value := some p.value } }) := by
  rcases lt_or_ge p.ballotId (instanceOf codec kv id).promisedBallotId with hb | hb
  · obtain ⟨kv', hload, hup⟩ := getOrCreate_exec h id
    refine ⟨false, kv', ?_, .inl ⟨hb, rfl, hup⟩⟩
    unfold accept
    rw [Coro.exec_bind_ok hload]
    simp [hb]
  · obtain ⟨kv₁, kv', hload, hwrite, hup⟩ := load_write_exec h id
      (i := { instanceOf codec kv id with
        promisedBallotId := p.ballotId
        accepted := some { ballotId := some p.ballotId, value := some p.value } })
      (instanceOf_id h id)
    refine ⟨true, kv', ?_, .inr ⟨hb, rfl, hup⟩⟩
    unfold accept
    rw [Coro.exec_bind_ok hload]
    simp only [not_lt.mpr hb, if_false]
    rw [Coro.exec_bind_ok hwrite]
    rfl

/-- **`commit`** sets the flag, whatever the ballot, and answers whether it was unset. -/
theorem commit_spec {kv : κ} (h : WellFormed codec kv) (id : String) (b : BallotId) :
    ∃ kv', Coro.exec (commit codec id b) kv = (.ok (!(instanceOf codec kv id).committed), kv') ∧
      Updates codec kv kv' id { instanceOf codec kv id with committed := true } := by
  cases hc : (instanceOf codec kv id).committed with
  | true =>
    obtain ⟨kv', hload, hup⟩ := getOrCreate_exec h id
    refine ⟨kv', ?_, ?_⟩
    · unfold commit
      rw [Coro.exec_bind_ok hload]
      simp [hc]
    · have hi : { instanceOf codec kv id with committed := true } = instanceOf codec kv id := by
        rw [← hc]
      rw [hi]
      exact hup
  | false =>
    obtain ⟨kv₁, kv', hload, hwrite, hup⟩ := load_write_exec h id
      (i := { instanceOf codec kv id with committed := true }) (instanceOf_id h id)
    refine ⟨kv', ?_, hup⟩
    unfold commit
    rw [Coro.exec_bind_ok hload]
    simp only [hc, Bool.not_false, if_true]
    rw [Coro.exec_bind_ok hwrite]
    rfl

/-- **`getAcceptedValue`** only ever creates the instance. -/
theorem getAcceptedValue_spec {kv : κ} (h : WellFormed codec kv) (id : String) :
    ∃ kv', Coro.exec (getAcceptedValue codec id) kv =
        (.ok (some ((instanceOf codec kv id).accepted.getD {})), kv') ∧
      Updates codec kv kv' id (instanceOf codec kv id) := by
  obtain ⟨kv', hload, hup⟩ := getOrCreate_exec h id
  refine ⟨kv', ?_, hup⟩
  unfold getAcceptedValue
  rw [Coro.exec_bind_ok hload]
  rfl

/-- What `getCommittedValue` answers on an instance. -/
def committedValue (i : PaxosInstance) : Option String :=
  if i.committed then some ((i.accepted.getD {}).value.getD "") else none

omit [KVStoreLite κ β] [LawfulKVStoreLite κ β] in
theorem committed_of_committedValue {i : PaxosInstance} {v : String}
    (h : committedValue i = some v) : i.committed = true := by
  unfold committedValue at h
  split at h
  · assumption
  · exact absurd h (by simp)

/-- **`getCommittedValue`** only ever creates the instance. -/
theorem getCommittedValue_spec {kv : κ} (h : WellFormed codec kv) (id : String) :
    ∃ kv', Coro.exec (getCommittedValue codec id) kv =
        (.ok (committedValue (instanceOf codec kv id)), kv') ∧
      Updates codec kv kv' id (instanceOf codec kv id) := by
  obtain ⟨kv', hload, hup⟩ := getOrCreate_exec h id
  refine ⟨kv', ?_, hup⟩
  unfold getCommittedValue committedValue
  rw [Coro.exec_bind_ok hload]
  cases (instanceOf codec kv id).committed <;> rfl

end LocalAcceptor

/-! ## `wor/paxos/include/Acceptor.h` -/

/-- `paxos::Acceptor`, the interface both kinds implement. -/
structure Acceptor (m : Type → Type) where
  prepare : String → BallotId → m PrepareResponse
  accept : String → Proposal → m Bool
  commit : String → BallotId → m Bool
  getAcceptedValue : String → m (Option Promise)
  getCommittedValue : String → m (Option String)

/-- A call of the interface with its arguments. -/
inductive Call where
  | prepare (paxosInstanceId : String) (ballot : BallotId)
  | accept (paxosInstanceId : String) (proposal : Proposal)
  | commit (paxosInstanceId : String) (ballotId : BallotId)
  | getAcceptedValue (paxosInstanceId : String)
  | getCommittedValue (paxosInstanceId : String)
  deriving DecidableEq, Repr

/-- What a call answers. -/
inductive Answer where
  | prepared (response : PrepareResponse)
  | done (result : Bool)
  | acceptedValue (value : Option Promise)
  | committedValue (value : Option String)
  deriving DecidableEq, Repr

/-- Make a call on an acceptor. -/
def Acceptor.perform {m : Type → Type} [Monad m] (acceptor : Acceptor m) : Call → m Answer
  | .prepare id ballot => do return .prepared (← acceptor.prepare id ballot)
  | .accept id proposal => do return .done (← acceptor.accept id proposal)
  | .commit id ballotId => do return .done (← acceptor.commit id ballotId)
  | .getAcceptedValue id => do return .acceptedValue (← acceptor.getAcceptedValue id)
  | .getCommittedValue id => do return .committedValue (← acceptor.getCommittedValue id)

/-- `LocalAcceptor` behind the interface. -/
def localAcceptor {κ β : Type} [KVStoreLite κ β] (codec : Codec PaxosInstance β) :
    Acceptor (AcceptorM κ) where
  prepare := LocalAcceptor.prepare codec
  accept := LocalAcceptor.accept codec
  commit := LocalAcceptor.commit codec
  getAcceptedValue := LocalAcceptor.getAcceptedValue codec
  getCommittedValue := LocalAcceptor.getCommittedValue codec

end ReplicatedCounter.Paxos
