import ReplicatedCounter.Lib.RemoteCall
import ReplicatedCounter.Lib.Transition
import ReplicatedCounter.Log.QuorumWait
import ReplicatedCounter.Metadata.ConfigChain

/-!
# `log/server/` and `log/client/`

A log server has a replica, a sequencer and a metadata store, and a service for each.
`RemoteReplica`, `RemoteSequencer` and `RemoteMetadataStore` are clients of the services; here every
request and response arrives as it was sent, and in time.

Each method is written out twice, once on each side. All of them hand arguments and results through;
**what gets lost is the kind of an exception**, which every client makes a `std::runtime_error`, and
with it an absent config, which a server answers with a status. One method is on the client's side
only (`trim`), and one response is not looked at (`isAlive`).
-/

set_option autoImplicit false

namespace ReplicatedCounter.Log

open Metadata

/-! ## Exceptions and statuses -/

/-- The types of exceptions that a caller can catch. -/
inductive ExceptionKind where
  | nanoLogSealed
  | nanoLogLogPositionAlreadyOccupied
  | metadataBlockNotFound
  | nonRecoverable
  | optimisticConcurrency
  | multipleExceptions
  | brokenPromise
  | runtimeError
  deriving DecidableEq, Repr

structure Thrown where
  kind : ExceptionKind
  what : String
  deriving DecidableEq, Repr

def ReplicaException.thrown (e : ReplicaException) : Thrown where
  kind :=
    match e with
    | .nanoLogSealed _ => .nanoLogSealed
    | .nanoLogLogPositionAlreadyOccupied => .nanoLogLogPositionAlreadyOccupied
    | .metadataBlockNotFound => .metadataBlockNotFound
    | .nonRecoverable => .nonRecoverable
  what := e.what

/-- `std::runtime_error`. -/
def Thrown.runtimeError (what : String) : Thrown where
  kind := .runtimeError
  what

/-- The codes of `grpc::StatusCode` that occur. -/
inductive StatusCode where
  | unknown
  | internal
  | unimplemented
  deriving DecidableEq, Repr

/-- A `grpc::Status` that is not OK. -/
structure Status where
  code : StatusCode
  message : String
  deriving DecidableEq, Repr

/-- `catch (const std::exception& e)` of a server; some put a text in front. -/
def Status.ofException (text : String) (e : Thrown) : Status where
  code := .unknown
  message := text ++ e.what

/-! ## What is called directly -/

/-- A call of a member function. -/
abbrev Result (β : Type) := Outcome Thrown β

namespace ReplicaImpl

variable {α : Type}

/-- `ReplicaImpl::append`, until it waits for `promise`; with the promises it has fulfilled. -/
def append (replica : ReplicaImpl α) (metadataStore : InMemoryMetadataStore)
    (globalCommitIndex : Option Int) (versionId logId : Int) (logEntryPayload : String)
    (skipSeal : Bool) (promise : α) : ReplicaImpl α × List (Int × α) × Result Unit :=
  let (replica, admitted) := replica.beginAppend metadataStore versionId skipSeal
  match admitted, replica.nanoLogStore versionId with
  | .error e, _ => (replica, [], .thrown e.thrown)
  | .ok (), none => (replica, [], .undefined)
  | .ok (), some nanoLog =>
    let appended := nanoLog.appendLocked globalCommitIndex logId logEntryPayload skipSeal promise
    (replica.add versionId appended.nanoLog, appended.completed,
      match appended.answer with
      | none => .pending
      | some (.ok _) => .returned ()
      | some (.error e) => .thrown e.thrown)

/-- `ReplicaImpl::getCommitIndex`. It does not ask whether there is a nanolog. -/
def getCommitIndex (replica : ReplicaImpl α) (versionId : Int) : Result Int :=
  match replica.nanoLogStore versionId with
  | none => .undefined
  | some nanoLog => .returned nanoLog.getLocalCommitIndex

/-- `ReplicaImpl::trim`, with `InMemoryNanoLog::trim`, which trims nothing. -/
def trim (replica : ReplicaImpl α) (versionId logId : Int) : Result Int :=
  match replica.nanoLogStore versionId with
  | none => .thrown (.runtimeError "nanolog not present")
  | some _ => .returned logId

end ReplicaImpl

/-- `replica->append` as a sequencer calls it. -/
structure SequencedAppend where
  globalCommitIndex : Option Int
  versionId : Int
  logId : Int
  logEntryPayload : String
  deriving DecidableEq, Repr

/-- `SequencerImpl`, all of it; `sent` is what each replica of `replicaSet_` has been sent. The
replica set is a repeated field of a configuration, and no longer than an `int` says. -/
structure SequencerMembers where
  sequencer : SequencerImpl
  versionId : Int
  isAlive : Bool := false
  replicaSetSize : Nat
  sent : List SequencedAppend := []
  size_lt : replicaSetSize < 2 ^ 31

namespace SequencerMembers

/-- `quorumSize_`. -/
def quorumSize (s : SequencerMembers) : Int32 := Int32.ofNat s.replicaSetSize / 2 + 1

/-- The beginning of `SequencerImpl::append`: a log id, and an append to each replica. -/
def send (s : SequencerMembers) (logEntryPayload : String) : SequencerMembers :=
  let (logId, sequencer) := s.sequencer.next
  { s with
    sequencer
    sent := s.sent ++ [⟨some s.sequencer.globalCommitIndex, s.versionId, logId, logEntryPayload⟩] }

/-- `SequencerImpl::append`. The results are those of the replicas' futures that have come, each
with the index of its replica; without enough of them the call waits. -/
def append (s : SequencerMembers) (logEntryPayload : String)
    (results : List (Except Thrown Unit × Nat)) :
    SequencerMembers × Result Int :=
  let logId := s.sequencer.sequenceNum
  let sent := s.send logEntryPayload
  match (QuorumWait.after s.quorumSize s.replicaSetSize results).promise with
  | some (.ok ()) => ({ sent with sequencer := sent.sequencer.commit logId }, .returned logId)
  | some (.error _) => (sent, .thrown ⟨.multipleExceptions, "std::exception"⟩)
  | none =>
    -- nobody is left to set the promise
    if results.length = s.replicaSetSize then (sent, .thrown ⟨.brokenPromise, "Broken promise"⟩)
    else (sent, .pending)

/-- `SequencerImpl::latestAppendPosition`. -/
def latestAppendPosition (s : SequencerMembers) : Result Int := .returned (s.sequencer.sequenceNum - 1)

end SequencerMembers

/-- A log server; `answered` are the promises of appends that its nanologs have fulfilled. -/
structure LogServer (α : Type) where
  replica : ReplicaImpl α := {}
  sequencer : SequencerMembers
  metadataStore : InMemoryMetadataStore := {}
  answered : List (Int × α) := []

/-- The calls of a replica, a sequencer and a metadata store, with what they return. An append comes
with who waits for it, or with what the replicas have answered. -/
inductive Call (α : Type) : Type → Type where
  | append (globalCommitIndex : Option Int) (versionId logId : Int) (logEntryPayload : String)
      (skipSeal : Bool) (promise : α) : Call α Unit
  | getLogEntry (versionId logId : Int) : Call α (Except LogReadError LogEntry)
  | getCommitIndex (versionId : Int) : Call α Int
  | seal (versionId : Int) : Call α Int
  | trim (versionId logId : Int) : Call α Int
  | sequencerAppend (logEntryPayload : String) (results : List (Except Thrown Unit × Nat)) : Call α Int
  | latestAppendPosition : Call α Int
  | isAlive : Call α Bool
  | getConfig (versionId : Int) : Call α (Option MetadataConfig)
  | getConfigUsingLogId (logId : Int) : Call α (Option MetadataConfig)
  | getCurrentVersionId : Call α Int
  | compareAndAppendRange (newMetadataConfig : MetadataConfig) : Call α Unit

namespace LogServer

variable {α β : Type}

/-- The call made on `ReplicaImpl`, `SequencerImpl` or `InMemoryMetadataStore` itself. -/
def direct (s : LogServer α) : Call α β → LogServer α × Result β
  | .append globalCommitIndex versionId logId logEntryPayload skipSeal promise =>
    let (replica, completed, result) := s.replica.append s.metadataStore globalCommitIndex versionId logId
      logEntryPayload skipSeal promise
    ({ s with replica, answered := s.answered ++ completed }, result)
  | .getLogEntry versionId logId => (s, .returned (s.replica.getLogEntry versionId logId))
  | .getCommitIndex versionId => (s, s.replica.getCommitIndex versionId)
  | .seal versionId =>
    match s.replica.seal s.metadataStore versionId with
    | .ok (replica, endLogId) => ({ s with replica }, .returned endLogId)
    | .error e => (s, .thrown e.thrown)
  | .trim versionId logId => (s, s.replica.trim versionId logId)
  | .sequencerAppend logEntryPayload results =>
    let (sequencer, result) := s.sequencer.append logEntryPayload results
    ({ s with sequencer }, result)
  | .latestAppendPosition => (s, s.sequencer.latestAppendPosition)
  | .isAlive => (s, .returned s.sequencer.isAlive)
  | .getConfig versionId => (s, .returned (s.metadataStore.getConfig versionId))
  | .getConfigUsingLogId logId => (s, .returned (s.metadataStore.getConfigUsingLogId logId))
  | .getCurrentVersionId => (s, .returned s.metadataStore.getCurrentVersionId)
  | .compareAndAppendRange newMetadataConfig =>
    match s.metadataStore.compareAndAppendRange newMetadataConfig with
    | .ok metadataStore => ({ s with metadataStore }, .returned ())
    | .error e => (s, .thrown ⟨.optimisticConcurrency, e.what⟩)

end LogServer

/-! ## `log/server/proto/` -/

structure ReplicaAppendRequest where
  globalCommitIndex : Option Int := none
  versionId : Int := 0
  logId : Int := 0
  payload : String := ""
  skipSeal : Bool := false

structure GetLogEntryRequest where
  versionId : Int := 0
  logId : Int := 0

/-- `GetLogEntryResponse::LOG_READ_ERROR`; any other number is neither of these. -/
inductive LOG_READ_ERROR where
  | UNKNOWN
  | INDEX_OUT_OF_BOUNDS
  | NOT_FOUND

/-- The `LogEntry` of `Common.proto`. -/
structure LogEntryMessage where
  logId : Int := 0
  payload : String := ""

structure GetLogEntryResponse where
  logReadError : Option LOG_READ_ERROR := none
  logEntry : LogEntryMessage := {}

/-- `GetLocalCommitIndexRequest` and `SealRequest`. -/
structure VersionIdRequest where
  versionId : Int := 0

structure TrimRequest where
  versionId : Int := 0
  logId : Int := 0

structure LogIdResponse where
  logId : Int := 0

structure SequencerAppendRequest where
  payload : String := ""

structure IsAliveResponse where
  isAlive : Bool := false

/-- `MetadataVersionId`, and the `LogId` of `MetadataService.proto`. -/
structure IdMessage where
  id : Int := 0

structure CompareAndAppendRangeRequest where
  metadataConfig : MetadataConfig := {}

/-! ## The services -/

/-- What a method of a service answers. -/
abbrev ServiceReply (ρ : Type) := Result (Except Status ρ)

namespace ReplicaServer

variable {α : Type}

/-- The handler of every method. -/
def handle {β ρ : Type} (respond : β → ρ) : LogServer α × Result β → LogServer α × ServiceReply ρ :=
  Prod.map id (Outcome.serve respond (Status.ofException ""))

def append (s : LogServer α) (request : ReplicaAppendRequest) (promise : α) :
    LogServer α × ServiceReply Unit :=
  handle id (s.direct (.append request.globalCommitIndex request.versionId request.logId request.payload
    request.skipSeal promise))

def logEntryResponse : Except LogReadError LogEntry → GetLogEntryResponse
  | .ok logEntry => { logEntry := { logId := logEntry.logId, payload := logEntry.payload } }
  | .error .notFound => { logReadError := some .NOT_FOUND }
  | .error .indexOutOfBounds => { logReadError := some .INDEX_OUT_OF_BOUNDS }
  | .error .unknown => { logReadError := some .UNKNOWN }

def getLogEntry (s : LogServer α) (request : GetLogEntryRequest) :
    LogServer α × ServiceReply GetLogEntryResponse :=
  handle logEntryResponse (s.direct (.getLogEntry request.versionId request.logId))

def getLocalCommitIndex (s : LogServer α) (request : VersionIdRequest) :
    LogServer α × ServiceReply LogIdResponse :=
  handle LogIdResponse.mk (s.direct (.getCommitIndex request.versionId))

def «seal» (s : LogServer α) (request : VersionIdRequest) : LogServer α × ServiceReply LogIdResponse :=
  handle LogIdResponse.mk (s.direct (.seal request.versionId))

/-- `ReplicaService::Service::trim`, which `ReplicaServer` does not override. -/
def trim (s : LogServer α) (_ : TrimRequest) : LogServer α × ServiceReply Unit :=
  (s, .returned (.error ⟨.unimplemented, ""⟩))

end ReplicaServer

namespace SequencerServer

variable {α : Type}

/-- The handler of a method. -/
def handle {β ρ : Type} (methodName : String) (respond : β → ρ) :
    LogServer α × Result β → LogServer α × ServiceReply ρ :=
  Prod.map id (Outcome.serve respond
    (Status.ofException ("method name: SequencerServer::" ++ methodName ++ ", error: ")))

def append (s : LogServer α) (request : SequencerAppendRequest)
    (results : List (Except Thrown Unit × Nat)) :
    LogServer α × ServiceReply LogIdResponse :=
  handle "append" LogIdResponse.mk (s.direct (.sequencerAppend request.payload results))

def latestAppendPosition (s : LogServer α) : LogServer α × ServiceReply LogIdResponse :=
  handle "latestAppendPosition" LogIdResponse.mk (s.direct .latestAppendPosition)

def isAlive (s : LogServer α) : LogServer α × ServiceReply IsAliveResponse :=
  handle "isAlive" IsAliveResponse.mk (s.direct .isAlive)

end SequencerServer

namespace MetadataServer

variable {α : Type}

/-- A config, or the status that there is none. -/
def found (message : String) (config : Option MetadataConfig) : ServiceReply MetadataConfig :=
  match config with
  | some metadataConfig => .returned (.ok metadataConfig)
  | none => .returned (.error ⟨.internal, message⟩)

def getConfig (s : LogServer α) (request : IdMessage) : LogServer α × ServiceReply MetadataConfig :=
  (s, found "config not found" (s.metadataStore.getConfig request.id))

def getCurrentConfig (s : LogServer α) : LogServer α × ServiceReply MetadataConfig :=
  (s, found "config not found" (s.metadataStore.getConfig s.metadataStore.getCurrentVersionId))

def getConfigUsingLogId (s : LogServer α) (request : IdMessage) :
    LogServer α × ServiceReply MetadataConfig :=
  (s, found "config not Round" (s.metadataStore.getConfigUsingLogId request.id))

/-- It catches `OptimisticConcurrencyException`, and nothing else is thrown. -/
def compareAndAppendRange (s : LogServer α) (request : CompareAndAppendRangeRequest) :
    LogServer α × ServiceReply Unit :=
  Prod.map id (Outcome.serve id (Status.ofException ""))
    (s.direct (.compareAndAppendRange request.metadataConfig))

end MetadataServer

/-! ## The clients -/

/-- What gRPC says of a status in `context.debug_error_string()`. -/
abbrev DebugErrorString := Status → String

section clients

variable {α : Type} (debugErrorString : DebugErrorString)

/-- The end of every client's method: a result, or a `std::runtime_error`. -/
def receive {β ρ : Type} (read : ρ → β) (what : Status → String) :
    LogServer α × ServiceReply ρ → LogServer α × Result β :=
  Prod.map id (Outcome.receive read fun status => .runtimeError (what status))

namespace ReplicaClient

def append (s : LogServer α) (globalCommitIndex : Option Int) (versionId logId : Int)
    (logEntryPayload : String) (skipSeal : Bool) (promise : α) : LogServer α × Result Unit :=
  let request : ReplicaAppendRequest :=
    { globalCommitIndex, versionId, logId, payload := logEntryPayload, skipSeal }
  receive id debugErrorString (ReplicaServer.append s request promise)

def logEntry (response : GetLogEntryResponse) : Except LogReadError LogEntry :=
  match response.logReadError with
  | some .INDEX_OUT_OF_BOUNDS => .error .indexOutOfBounds
  | some .NOT_FOUND => .error .notFound
  | some .UNKNOWN => .error .unknown
  | none => .ok { logId := response.logEntry.logId, payload := response.logEntry.payload }

def getLogEntry (s : LogServer α) (versionId logId : Int) :
    LogServer α × Result (Except LogReadError LogEntry) :=
  receive logEntry debugErrorString (ReplicaServer.getLogEntry s { versionId, logId })

def getLocalCommitIndex (s : LogServer α) (versionId : Int) : LogServer α × Result Int :=
  receive LogIdResponse.logId debugErrorString (ReplicaServer.getLocalCommitIndex s { versionId })

def «seal» (s : LogServer α) (versionId : Int) : LogServer α × Result Int :=
  receive LogIdResponse.logId debugErrorString (ReplicaServer.seal s { versionId })

/-- What it returns is its argument, and what it throws says `status.error_message()`. -/
def trim (s : LogServer α) (versionId logId : Int) : LogServer α × Result Int :=
  receive (fun _ => logId) Status.message (ReplicaServer.trim s { versionId, logId })

end ReplicaClient

namespace SequencerClient

def append (s : LogServer α) (logEntryPayload : String) (results : List (Except Thrown Unit × Nat)) :
    LogServer α × Result Int :=
  receive LogIdResponse.logId debugErrorString
    (SequencerServer.append s { payload := logEntryPayload } results)

def latestAppendPosition (s : LogServer α) : LogServer α × Result Int :=
  receive LogIdResponse.logId debugErrorString (SequencerServer.latestAppendPosition s)

/-- A server that answers is alive. -/
def isAlive (s : LogServer α) : LogServer α × Result Bool :=
  receive (fun _ => true) debugErrorString (SequencerServer.isAlive s)

end SequencerClient

namespace MetadataStoreClient

def getConfig (s : LogServer α) (versionId : Int) : LogServer α × Result MetadataConfig :=
  receive id debugErrorString (MetadataServer.getConfig s { id := versionId })

def getConfigUsingLogId (s : LogServer α) (logId : Int) : LogServer α × Result MetadataConfig :=
  receive id debugErrorString (MetadataServer.getConfigUsingLogId s { id := logId })

def getCurrentVersionId (s : LogServer α) : LogServer α × Result Int :=
  receive MetadataConfig.versionId debugErrorString (MetadataServer.getCurrentConfig s)

def compareAndAppendRange (s : LogServer α) (newMetadataConfig : MetadataConfig) :
    LogServer α × Result Unit :=
  receive id (fun status => "debug string: " ++ debugErrorString status)
    (MetadataServer.compareAndAppendRange s { metadataConfig := newMetadataConfig })

end MetadataStoreClient

/-- `co_return client_->getConfig(versionId).get()`, which makes the config an optional one. -/
def optional : LogServer α × Result MetadataConfig → LogServer α × Result (Option MetadataConfig) :=
  Prod.map id fun
    | .returned metadataConfig => .returned (some metadataConfig)
    | .thrown e => .thrown e
    | .pending => .pending
    | .undefined => .undefined

/-- The call made on `RemoteReplica`, `RemoteSequencer` or `RemoteMetadataStore`. -/
def LogServer.remote {β : Type} (s : LogServer α) : Call α β → LogServer α × Result β
  | .append globalCommitIndex versionId logId logEntryPayload skipSeal promise =>
    ReplicaClient.append debugErrorString s globalCommitIndex versionId logId logEntryPayload
      skipSeal promise
  | .getLogEntry versionId logId => ReplicaClient.getLogEntry debugErrorString s versionId logId
  | .getCommitIndex versionId => ReplicaClient.getLocalCommitIndex debugErrorString s versionId
  | .seal versionId => ReplicaClient.seal debugErrorString s versionId
  | .trim versionId logId => ReplicaClient.trim s versionId logId
  | .sequencerAppend logEntryPayload results =>
    SequencerClient.append debugErrorString s logEntryPayload results
  | .latestAppendPosition => SequencerClient.latestAppendPosition debugErrorString s
  | .isAlive => SequencerClient.isAlive debugErrorString s
  | .getConfig versionId => optional (MetadataStoreClient.getConfig debugErrorString s versionId)
  | .getConfigUsingLogId logId =>
    optional (MetadataStoreClient.getConfigUsingLogId debugErrorString s logId)
  | .getCurrentVersionId => MetadataStoreClient.getCurrentVersionId debugErrorString s
  | .compareAndAppendRange newMetadataConfig =>
    MetadataStoreClient.compareAndAppendRange debugErrorString s newMetadataConfig

end clients

/-! ## What gets through -/

namespace LogServer

variable {α β : Type}

/-- The call through a proxy has the effect of the call itself, and its result or kind of
exception. -/
def Preserves (debugErrorString : DebugErrorString) (s : LogServer α) (c : Call α β) : Prop :=
  (s.remote debugErrorString c).1 = (s.direct c).1 ∧
    (s.remote debugErrorString c).2.SameKind Thrown.kind (s.direct c).2

/-- What each call needs, of the server and its arguments. -/
def Carries (s : LogServer α) : Call α β → Prop
  | .append _ versionId logId _ skipSeal _ =>
    match s.replica.nanoLogStore versionId with
    | none => (s.metadataStore.getConfig versionId).isSome = true
    | some nanoLog => skipSeal = true ∨ (nanoLog.sealed = false ∧ nanoLog.logs.find? logId = none)
  | .getLogEntry _ _ => True
  | .getCommitIndex _ => True
  | .seal versionId => (s.metadataStore.getConfig versionId).isSome = true
  | .trim versionId _ => s.replica.nanoLogStore versionId = none
  | .sequencerAppend _ results =>
    results.length = s.sequencer.replicaSetSize →
      s.sequencer.replicaSetSize / 2 + 1 ≤ QuorumWait.successes results
  | .latestAppendPosition => True
  | .isAlive => s.sequencer.isAlive = true
  | .getConfig versionId => (s.metadataStore.getConfig versionId).isSome = true
  | .getConfigUsingLogId logId => (s.metadataStore.getConfigUsingLogId logId).isSome = true
  | .getCurrentVersionId => True
  | .compareAndAppendRange newMetadataConfig =>
    newMetadataConfig.previousVersionId = s.metadataStore.getCurrentVersionId ∧
      (s.metadataStore.configs.last? = none ∨
        newMetadataConfig.versionId = newMetadataConfig.previousVersionId + 1)

/-- No more replicas answer a sequencer than it has asked. -/
def Answers (s : LogServer α) : Call α β → Prop
  | .sequencerAppend _ results => results.length ≤ s.sequencer.replicaSetSize
  | _ => True

variable {s : LogServer α} {debugErrorString : DebugErrorString}

/-- **One method.** If the client reads what the server has written, all that can get lost is the
kind of an exception. -/
theorem preserves_iff {c : Call α β} {ρ : Type} {respond : β → ρ} {read : ρ → β}
    {fault : Thrown → Status}
    {what : Status → String}
    (hremote : s.remote debugErrorString c =
      receive read what (Prod.map id (Outcome.serve respond fault) (s.direct c)))
    (hread : ∀ result, read (respond result) = result) :
    s.Preserves debugErrorString c ↔ ∀ e, (s.direct c).2 = .thrown e → e.kind = .runtimeError := by
  unfold Preserves
  rw [hremote]
  unfold receive
  rw [Prod.map_snd, Prod.map_snd, Outcome.sameKind_receive_serve hread]
  constructor
  · rintro ⟨-, h⟩ e he
    exact (h e he).symm
  · intro h
    exact ⟨rfl, fun e he => (h e he).symm⟩

end LogServer

namespace ReplicaImpl

variable {α : Type} {replica : ReplicaImpl α} {metadataStore : InMemoryMetadataStore}
  {globalCommitIndex : Option Int} {versionId logId : Int} {payload : String} {skipSeal : Bool}
  {promise : α}

theorem thrown_kind_ne (e : ReplicaException) : e.thrown.kind ≠ .runtimeError := by
  cases e with
  | nanoLogSealed versionId => exact nofun
  | nanoLogLogPositionAlreadyOccupied => exact nofun
  | metadataBlockNotFound => exact nofun
  | nonRecoverable => exact nofun

/-- What an append to a nanolog comes to. -/
theorem append_of_some {nanoLog : InMemoryNanoLog α}
    (h : replica.nanoLogStore versionId = some nanoLog) :
    (replica.append metadataStore globalCommitIndex versionId logId payload skipSeal promise).2.2 =
      if skipSeal = false ∧ nanoLog.sealed = true then
        .thrown (ReplicaException.nanoLogSealed nanoLog.metadataVersionId).thrown
      else if nanoLog.logs.find? logId = none then
        .pending
      else if skipSeal = true then
        .returned ()
      else
        .thrown ReplicaException.nanoLogLogPositionAlreadyOccupied.thrown := by
  unfold ReplicaImpl.append beginAppend InMemoryNanoLog.checkSealed
  rw [h]
  dsimp only
  cases hfind : nanoLog.logs.find? logId with
  | none =>
    cases skipSeal with
    | true => simp [h, InMemoryNanoLog.appendLocked_of_vacant hfind]
    | false =>
      cases hsealed : nanoLog.sealed with
      | true => simp
      | false => simp [h, InMemoryNanoLog.appendLocked_of_vacant hfind]
  | some old =>
    cases skipSeal with
    | true => simp [h, InMemoryNanoLog.appendLocked_of_occupied hfind]
    | false =>
      cases hsealed : nanoLog.sealed with
      | true => simp
      | false => simp [h, InMemoryNanoLog.appendLocked_of_occupied hfind]

/-- An append to a nanolog throws if that is sealed, or the position taken, and the append does not
skip the seal. -/
theorem append_some_iff {nanoLog : InMemoryNanoLog α}
    (h : replica.nanoLogStore versionId = some nanoLog) :
    (∀ e, (replica.append metadataStore globalCommitIndex versionId logId payload skipSeal promise).2.2 =
        .thrown e → e.kind = .runtimeError) ↔
      skipSeal = true ∨ (nanoLog.sealed = false ∧ nanoLog.logs.find? logId = none) := by
  rw [append_of_some h]
  split_ifs with hsealed hfind hskip
  · refine iff_of_false (fun hkind => thrown_kind_ne _ (hkind _ rfl)) ?_
    simp [hsealed]
  · refine iff_of_true nofun ?_
    cases skipSeal with
    | true => exact .inl rfl
    | false => exact .inr ⟨by simpa using hsealed, hfind⟩
  · exact iff_of_true nofun (.inl hskip)
  · refine iff_of_false (fun hkind => thrown_kind_ne _ (hkind _ rfl)) ?_
    simp [hskip, hfind]

/-- Without a nanolog, it throws if there is no config to make one. -/
theorem append_none_iff (h : replica.nanoLogStore versionId = none) :
    (∀ e, (replica.append metadataStore globalCommitIndex versionId logId payload skipSeal promise).2.2 =
        .thrown e → e.kind = .runtimeError) ↔ (metadataStore.getConfig versionId).isSome = true := by
  unfold ReplicaImpl.append beginAppend
  rw [h]
  cases hconfig : metadataStore.getConfig versionId with
  | none => exact iff_of_false (fun hkind => thrown_kind_ne _ (hkind _ rfl)) nofun
  | some config =>
    refine iff_of_true (fun e he => ?_) rfl
    have hvacant : (makeNanoLog versionId config : InMemoryNanoLog α).logs.find? logId = none := rfl
    have hopen : (makeNanoLog versionId config : InMemoryNanoLog α).checkSealed skipSeal = .ok () := by
      cases skipSeal <;> rfl
    dsimp only at he
    rw [hopen, add_self] at he
    dsimp only at he
    rw [InMemoryNanoLog.appendLocked_of_vacant hvacant] at he
    exact nomatch he

end ReplicaImpl

/-! ## The sequencer -/

namespace SequencerMembers

variable {s : SequencerMembers} {payload : String} {results : List (Except Thrown Unit × Nat)}

theorem toInt_quorumSize (s : SequencerMembers) : s.quorumSize.toInt = s.replicaSetSize / 2 + 1 := by
  have hlt := s.size_lt
  have htwo : (2 : Int32).toInt = 2 := by decide
  have hone : (1 : Int32).toInt = 1 := by decide
  have hdiv : (s.replicaSetSize : Int).tdiv 2 = s.replicaSetSize / 2 :=
    Int.tdiv_eq_ediv_of_nonneg (Int.natCast_nonneg _)
  have hhalf : (s.replicaSetSize / 2 : Int).bmod (2 ^ 32) = s.replicaSetSize / 2 :=
    Int.bmod_eq_of_le (by omega) (by omega)
  unfold quorumSize
  rw [Int32.toInt_add, Int32.toInt_div, Int32.toInt_ofNat_of_lt hlt, htwo, hone, hdiv, hhalf]
  exact Int.bmod_eq_of_le (by omega) (by omega)

/-- What a sequencer's append comes to. -/
theorem append_result (h : results.length ≤ s.replicaSetSize) :
    (s.append payload results).2 =
      if s.replicaSetSize / 2 + 1 ≤ QuorumWait.successes results then
        .returned s.sequencer.sequenceNum
      else if results.length = s.replicaSetSize then
        .thrown (if s.replicaSetSize = 0 then ⟨.brokenPromise, "Broken promise"⟩
          else ⟨.multipleExceptions, "std::exception"⟩)
      else
        .pending := by
  have hquorum := s.toInt_quorumSize
  unfold append
  by_cases hzero : s.replicaSetSize = 0
  · have hnil : results = [] := List.eq_nil_of_length_eq_zero (by omega)
    subst hnil
    simp [QuorumWait.after, QuorumWait.successes, hzero]
  · have hpromise := QuorumWait.promise_after (n := s.quorumSize) (by omega) h
      (Nat.pos_of_ne_zero hzero)
    rw [hquorum] at hpromise
    by_cases hmany : s.replicaSetSize / 2 + 1 ≤ QuorumWait.successes results
    · rw [if_pos (by omega)] at hpromise
      simp only [hpromise]
      rw [if_pos hmany]
    · rw [if_neg (by omega)] at hpromise
      by_cases hall : results.length = s.replicaSetSize
      · rw [if_pos ⟨hall, s.size_lt⟩] at hpromise
        simp only [hpromise]
        rw [if_neg hmany, if_pos hall, if_neg hzero]
      · rw [if_neg fun h => hall h.1] at hpromise
        simp only [hpromise]
        rw [if_neg hmany, if_neg hall, if_neg hall]

/-- It throws as soon as it is clear that there is no quorum: when all replicas have answered. -/
theorem append_iff (h : results.length ≤ s.replicaSetSize) :
    (∀ e, (s.append payload results).2 = .thrown e → e.kind = .runtimeError) ↔
      (results.length = s.replicaSetSize → s.replicaSetSize / 2 + 1 ≤ QuorumWait.successes results) := by
  rw [append_result h]
  split_ifs with hmany hall hzero
  · exact iff_of_true nofun fun _ => hmany
  · exact iff_of_false (fun hkind => nomatch hkind _ rfl) fun hneeds => hmany (hneeds hall)
  · exact iff_of_false (fun hkind => nomatch hkind _ rfl) fun hneeds => hmany (hneeds hall)
  · exact iff_of_true nofun fun heq => absurd heq hall

end SequencerMembers

/-! ## Every call -/

namespace LogServer

variable {α β : Type} {s : LogServer α} {debugErrorString : DebugErrorString}

theorem logEntry_logEntryResponse (result : Except LogReadError LogEntry) :
    ReplicaClient.logEntry (ReplicaServer.logEntryResponse result) = result := by
  cases result with
  | ok logEntry => rfl
  | error e =>
    cases e with
    | notFound => rfl
    | indexOutOfBounds => rfl
    | unknown => rfl

/-- A config gets through if there is one. -/
theorem optional_found {message : String} {config : Option MetadataConfig} :
    ((optional (receive id debugErrorString (s, MetadataServer.found message config))).1 = s ∧
      (optional (receive id debugErrorString (s, MetadataServer.found message config))).2.SameKind
        Thrown.kind (.returned config)) ↔ config.isSome = true := by
  cases config with
  | none => exact iff_of_false (fun h => h.2) nofun
  | some metadataConfig => exact iff_of_true ⟨rfl, rfl⟩ rfl

/-- The current version is read off its config. -/
theorem getCurrentVersionId_preserved (h : InMemoryMetadataStore.Reachable s.metadataStore) :
    s.Preserves debugErrorString .getCurrentVersionId := by
  obtain ⟨config, hconfig⟩ := s.metadataStore.getConfig_currentVersion
  have hversion : config.versionId = s.metadataStore.getCurrentVersionId := by
    unfold InMemoryMetadataStore.getConfig at hconfig
    split_ifs at hconfig with hzero
    · cases hconfig
      exact hzero.symm
    · exact h.versionId_eq hconfig
  refine ⟨rfl, ?_⟩
  show (receive MetadataConfig.versionId debugErrorString (MetadataServer.getCurrentConfig s)).2.SameKind
    Thrown.kind (.returned s.metadataStore.getCurrentVersionId)
  unfold MetadataServer.getCurrentConfig
  rw [hconfig]
  exact hversion

/-- Appending a config throws unless it is the successor of the last one. -/
theorem compareAndAppendRange_carries {c : MetadataConfig} :
    (∀ e, (s.direct (.compareAndAppendRange c)).2 = .thrown e → e.kind = .runtimeError) ↔
      s.Carries (.compareAndAppendRange c) := by
  have hstale : ∀ {e : MetadataError}, s.metadataStore.compareAndAppendRange c = .error e →
      ¬ ∀ e, (s.direct (.compareAndAppendRange c)).2 = .thrown e → e.kind = .runtimeError := by
    intro e herror h
    unfold direct at h
    dsimp only at h
    rw [herror] at h
    exact nomatch h _ rfl
  have hnext : ∀ {store : InMemoryMetadataStore}, s.metadataStore.compareAndAppendRange c = .ok store →
      ∀ e, (s.direct (.compareAndAppendRange c)).2 = .thrown e → e.kind = .runtimeError := by
    intro store hok e he
    unfold direct at he
    dsimp only at he
    rw [hok] at he
    exact nomatch he
  unfold Carries InMemoryMetadataStore.getCurrentVersionId
  unfold InMemoryMetadataStore.compareAndAppendRange at hstale hnext
  dsimp only
  cases hlast : s.metadataStore.configs.last? with
  | none =>
    rw [hlast] at hstale hnext
    dsimp only at hstale hnext
    by_cases hzero : c.previousVersionId = 0
    · exact iff_of_true (hnext (if_neg (not_not.mpr hzero))) ⟨hzero, .inl rfl⟩
    · exact iff_of_false (hstale (if_pos hzero)) fun h => hzero h.1
  | some last =>
    rw [hlast] at hstale hnext
    dsimp only at hstale hnext
    by_cases hmatch : last.1 = c.previousVersionId ∧ last.1 + 1 = c.versionId
    · exact iff_of_true (hnext (if_pos hmatch)) ⟨hmatch.1.symm, .inr (by omega)⟩
    · refine iff_of_false (hstale (if_neg hmatch)) fun h => hmatch ⟨h.1.symm, ?_⟩
      have hlastVersion : c.previousVersionId = last.1 := h.1
      have hsuccessor : c.versionId = c.previousVersionId + 1 := h.2.resolve_left nofun
      omega

/-- A seal throws if the version has no config. -/
theorem seal_carries {versionId : Int} :
    (∀ e, (s.direct (.seal versionId)).2 = .thrown e → e.kind = .runtimeError) ↔
      (s.metadataStore.getConfig versionId).isSome = true := by
  unfold direct ReplicaImpl.seal
  dsimp only
  cases s.metadataStore.getConfig versionId with
  | none => exact iff_of_false (fun h => ReplicaImpl.thrown_kind_ne _ (h _ rfl)) nofun
  | some config => exact iff_of_true (fun _ he => nomatch he) rfl

/-- No trim gets to the replica, and every one throws. -/
theorem trim_carries {versionId logId : Int} :
    s.Preserves debugErrorString (.trim versionId logId) ↔ s.replica.nanoLogStore versionId = none := by
  unfold Preserves direct LogServer.remote ReplicaClient.trim ReplicaServer.trim ReplicaImpl.trim
  dsimp only
  cases s.replica.nanoLogStore versionId with
  | none => exact iff_of_true ⟨rfl, rfl⟩ rfl
  | some nanoLog => exact iff_of_false (fun h => h.2) nofun

/-- A server that answers is taken for a live sequencer. -/
theorem isAlive_carries : s.Preserves debugErrorString .isAlive ↔ s.sequencer.isAlive = true := by
  constructor
  · intro h
    exact h.2.symm
  · intro h
    exact ⟨rfl, h.symm⟩

/-- A new server whose sequencer has not been started, after a seal of version 0. -/
def sealedServer : LogServer Unit :=
  (direct
    { sequencer := { sequencer := .start 1, versionId := 1, replicaSetSize := 1, size_lt := by decide } }
    (.seal 0)).1

end LogServer

end ReplicatedCounter.Log
