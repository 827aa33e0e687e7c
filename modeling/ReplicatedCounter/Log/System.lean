import ReplicatedCounter.Lib.Parties
import ReplicatedCounter.Lib.Transition
import ReplicatedCounter.Log.Sequencer

/-!
# `log/impl/VirtualLogImpl.cc`: the whole log

`N` replicas, one metadata store, one sequencer per version, and any number of calls of `append`,
`reconfigure` and `getLogEntry`, all interleaved.

The calls on a replica are messages. A `Request` may be delivered late, or never; the answer is a
`Reply`, which may also be late or never read, and a caller may be told that there was no answer
(`timeout`) whatever happened at the replica. So may a reader (`failProbe`). Nothing is delivered
twice: these are method calls.

A call is a coroutine, and one event is what it does from one suspension to the next. Where two
things happen at once here that the source does one after the other, nobody can tell: the
sequencer of a new version is started together with its configuration, since an append to it may
come as late as it likes, and a `seal` is answered when it is executed.

Which sequencer a client appends to depends on the configuration it has seen last; any sequencer
that has ever been started may be appended to. Sequence numbers do not wrap: an append that would
be given `HighestNonExistingLogId` is not enabled.
-/

set_option autoImplicit false

namespace ReplicatedCounter.Log

open Metadata

/-! ## Messages -/

/-- A call of `VirtualLogImpl::reconfigure` or `VirtualLogImpl::getLogEntry`. -/
abbrev CallId := Nat

/-- Who waits for an append. -/
inductive Origin where
  | sequencer
  | reconfigure (call : CallId)
  deriving DecidableEq, Repr

/-- Only a reconfiguration passes `skipSeal = true`. -/
def Origin.skipSeal : Origin → Bool
  | .sequencer => false
  | .reconfigure _ => true

/-- The arguments of `Replica::append` at one replica. -/
structure Request (N : Nat) where
  replica : Fin N
  origin : Origin
  globalCommitIndex : Option Int
  versionId : Int
  logId : Int
  payload : String
  deriving DecidableEq, Repr

structure Reply (N : Nat) where
  replica : Fin N
  origin : Origin
  versionId : Int
  logId : Int
  result : TryUnit
  deriving DecidableEq

/-- The answer to a request. -/
def Request.reply {N : Nat} (m : Request N) (result : TryUnit) : Reply N :=
  ⟨m.replica, m.origin, m.versionId, m.logId, result⟩

/-! ## Calls -/

/-- The shuffled and shortened `replicaSet` of `reconfigure`. -/
structure MajoritySet (N : Nat) where
  replicas : List (Fin N)
  nodup : replicas.Nodup
  length_eq : replicas.length = N / 2 + 1

/-- Where a call of `reconfigure` is suspended. -/
inductive Phase (N : Nat) where
  | sealing
  | reading (logId : Int)
  | appending (logId : Int) (futures : AnyNSuccessful N (N / 2 + 1))
  | installing
  | returned

/-- The local variables of `VirtualLogImpl::reconfigure`. -/
structure Reconfigure (N : Nat) where
  versionId : Int
  targetMetadataConfig : MetadataConfig
  replicaSet : MajoritySet N
  toSeal : List (Fin N) := replicaSet.replicas
  minLogId : Int := highestNonExistingLogId
  maxLogId : Int := lowestNonExistingLogId
  phase : Phase N := .sealing

namespace Reconfigure

variable {N : Nat}

/-- The head of the re-replication loop, at `logId`. -/
def loop (task : Reconfigure N) (logId : Int) : Reconfigure N :=
  { task with phase := if logId < task.maxLogId then .reading logId else .installing }

/-- The bounds after a replica answered `endLogId`, with `remaining` still to be sealed. -/
def collect (task : Reconfigure N) (endLogId : Int) (remaining : List (Fin N)) : Reconfigure N :=
  { task with
    toSeal := remaining
    minLogId := min task.minLogId endLogId
    maxLogId := max task.maxLogId endLogId }

/-- One round of the sealing loop; after the last one the re-replication begins. -/
def afterSeal (task : Reconfigure N) (endLogId : Int) (remaining : List (Fin N)) :
    Reconfigure N :=
  let task := task.collect endLogId remaining
  match remaining with
  | [] => task.loop task.minLogId
  | _ :: _ => task

/-- After a callback of the `anyNSuccessful` of the loop: a failure is rethrown. -/
def afterAppend (task : Reconfigure N) (logId : Int) (futures : AnyNSuccessful N (N / 2 + 1)) :
    Reconfigure N :=
  match futures.promise with
  | none => { task with phase := .appending logId futures }
  | some (.ok _) => task.loop (logId + 1)
  | some (.error _) => { task with phase := .returned }

/-- The configuration `reconfigure` proposes. -/
def newConfig (task : Reconfigure N) : MetadataConfig where
  versionId := task.versionId + 1
  previousVersionId := task.versionId
  startIndex := task.maxLogId
  endIndex := highestNonExistingLogId
  previousVersionEndIndex := task.maxLogId
  sequencerConfig := task.targetMetadataConfig.sequencerConfig
  replicaSetConfig := task.targetMetadataConfig.replicaSetConfig

/-- The replicas that have answered this call's `seal`. -/
def HasSealed (task : Reconfigure N) (r : Fin N) : Prop :=
  r ∈ task.replicaSet.replicas ∧ r ∉ task.toSeal

instance (task : Reconfigure N) (r : Fin N) : Decidable (task.HasSealed r) :=
  inferInstanceAs (Decidable (_ ∧ _))

end Reconfigure

/-- A call of `VirtualLogImpl::getLogEntry` after the lookup. -/
structure Read where
  logId : Int
  versionId : Int
  retryAttempt : Nat := 0
  result : Option LogEntry := none

/-! ## The state -/

/-- What a replica did with an append, for the record: it passed the seal check, or its promise
was fulfilled. -/
inductive Observation (N : Nat) where
  | accepted (origin : Origin) (r : Fin N) (versionId : Int) (logId : Int)
  | completed (origin : Origin) (r : Fin N) (versionId : Int) (logId : Int)
  deriving DecidableEq

structure LogSystem (N : Nat) where
  metadataStore : InMemoryMetadataStore := {}
  replicas : Fin N → ReplicaImpl Origin := fun _ => {}
  sequencers : Int → Option SequencerImpl := fun _ => none
  appends : Int × Int → Option (SequencerAppend N) := fun _ => none
  reconfigures : CallId → Option (Reconfigure N) := fun _ => none
  reads : CallId → Option Read := fun _ => none
  requests : List (Request N) := []
  admitted : List (Request N) := []
  replies : List (Reply N) := []
  trace : List (Observation N) := []

inductive LogEvent (N : Nat) where
  | append (v : Int) (payload : String)
  | send (v : Int) (l : Int)
  | arrive (m : Request N)
  | execute (m : Request N)
  | receive (m : Reply N)
  | timeout (r : Fin N) (origin : Origin) (v : Int) (l : Int)
  | acknowledge (v : Int) (l : Int)
  | «seal» (r : Fin N) (v : Int)
  | reconfigure (t : CallId) (target : MetadataConfig) (replicaSet : MajoritySet N)
  | sealNext (t : CallId)
  | readEntry (t : CallId) (r : Fin N)
  | install (t : CallId)
  | abort (t : CallId)
  | getLogEntry (c : CallId) (l : Int)
  | probe (c : CallId)
  | failProbe (c : CallId)

namespace LogSystem

variable {N : Nat}

def setReplica (s : LogSystem N) (r : Fin N) (replica : ReplicaImpl Origin) : LogSystem N :=
  { s with replicas := Function.update s.replicas r replica }

def setAppend (s : LogSystem N) (v : Int) (l : Int) (call : SequencerAppend N) :
    LogSystem N :=
  { s with appends := Function.update s.appends (v, l) (some call) }

def setSequencer (s : LogSystem N) (v : Int) (sequencer : SequencerImpl) : LogSystem N :=
  { s with sequencers := Function.update s.sequencers v (some sequencer) }

def setReconfigure (s : LogSystem N) (t : CallId) (task : Reconfigure N) : LogSystem N :=
  { s with reconfigures := Function.update s.reconfigures t (some task) }

def setRead (s : LogSystem N) (c : CallId) (read : Read) : LogSystem N :=
  { s with reads := Function.update s.reads c (some read) }

/-! ## Appending -/

/-- `SequencerImpl::append` takes the next id. -/
def append (s : LogSystem N) (v : Int) (payload : String) : Option (LogSystem N) := do
  let sequencer ← s.sequencers v
  let (logId, sequencer) := sequencer.next
  if logId < highestNonExistingLogId then
    some ((s.setSequencer v sequencer).setAppend v logId { payload })
  else
    none

/-- One round of the loop over `replicaSet_`; the commit index is read in each of them. -/
def send (s : LogSystem N) (v : Int) (l : Int) : Option (LogSystem N) := do
  let sequencer ← s.sequencers v
  let call ← s.appends (v, l)
  if h : call.sentTo < N then
    let request : Request N :=
      ⟨⟨call.sentTo, h⟩, .sequencer, some sequencer.globalCommitIndex, v, l, call.payload⟩
    some { s.setAppend v l { call with sentTo := call.sentTo + 1 } with
      requests := request :: s.requests }
  else
    none

/-- `ReplicaImpl::append` up to the nanolog's lock. -/
def arrive (s : LogSystem N) (m : Request N) : Option (LogSystem N) :=
  if m ∈ s.requests then
    let (replica, result) :=
      (s.replicas m.replica).beginAppend s.metadataStore m.versionId m.origin.skipSeal
    let s := { s.setReplica m.replica replica with requests := s.requests.erase m }
    match result with
    | .error e => some { s with replies := m.reply (.error e) :: s.replies }
    | .ok _ =>
      some { s with
        admitted := m :: s.admitted
        trace := .accepted m.origin m.replica m.versionId m.logId :: s.trace }
  else
    none

/-- The answers given by the locked section of an append. -/
def answers (m : Request N) (appended : Appended Origin) : List (Reply N) :=
  appended.answer.toList.map (fun answer => m.reply (answer.map fun _ => ())) ++
    appended.completed.map fun e => ⟨m.replica, e.2, m.versionId, e.1, .ok ()⟩

/-- The promises fulfilled by it. -/
def completions (m : Request N) (appended : Appended Origin) : List (Observation N) :=
  appended.completed.map fun e => .completed e.2 m.replica m.versionId e.1

/-- `InMemoryNanoLog::append` under the lock. -/
def execute (s : LogSystem N) (m : Request N) : Option (LogSystem N) :=
  if m ∈ s.admitted then do
    let nanoLog ← (s.replicas m.replica).nanoLogStore m.versionId
    let appended :=
      nanoLog.appendLocked m.globalCommitIndex m.logId m.payload m.origin.skipSeal m.origin
    some { s.setReplica m.replica ((s.replicas m.replica).add m.versionId appended.nanoLog) with
      admitted := s.admitted.erase m
      replies := answers m appended ++ s.replies
      trace := completions m appended ++ s.trace }
  else
    none

/-- The callback of one future of whoever is waiting for this append. A sequencer waits when it has
sent all its requests. -/
def deliver (s : LogSystem N) (m : Reply N) : Option (LogSystem N) :=
  match m.origin with
  | .sequencer => do
    let call ← s.appends (m.versionId, m.logId)
    let futures ← call.futures.complete m.replica m.result
    if call.sentTo = N then
      some (s.setAppend m.versionId m.logId { call with futures })
    else
      none
  | .reconfigure t => do
    let task ← s.reconfigures t
    match task.phase with
    | .appending logId futures =>
      if m.versionId = task.versionId ∧ m.logId = logId then do
        let futures ← futures.complete m.replica m.result
        some (s.setReconfigure t (task.afterAppend logId futures))
      else
        none
    | _ => none

def receive (s : LogSystem N) (m : Reply N) : Option (LogSystem N) :=
  if m ∈ s.replies then
    ({ s with replies := s.replies.erase m } : LogSystem N).deliver m
  else
    none

/-- The end of `SequencerImpl::append`: the commit index, then the caller. -/
def acknowledge (s : LogSystem N) (v : Int) (l : Int) : Option (LogSystem N) := do
  let sequencer ← s.sequencers v
  let call ← s.appends (v, l)
  match call.acknowledged, call.futures.promise with
  | false, some (.ok _) =>
    some ((s.setSequencer v (sequencer.commit l)).setAppend v l { call with acknowledged := true })
  | _, _ => none

/-! ## Reconfiguring -/

/-- `ReplicaImpl::seal`, called by whoever it may be. -/
def sealReplica (s : LogSystem N) (r : Fin N) (v : Int) : Option (LogSystem N × Int) :=
  match (s.replicas r).seal s.metadataStore v with
  | .error _ => none
  | .ok (replica, endLogId) => some (s.setReplica r replica, endLogId)

/-- `VirtualLogImpl::reconfigure` up to the first `seal`. -/
def reconfigure (s : LogSystem N) (t : CallId) (target : MetadataConfig)
    (replicaSet : MajoritySet N) : Option (LogSystem N) :=
  match s.reconfigures t with
  | some _ => none
  | none =>
    some (s.setReconfigure t
      { versionId := s.metadataStore.getCurrentVersionId
        targetMetadataConfig := target
        replicaSet })

/-- One round of the sealing loop. -/
def sealNext (s : LogSystem N) (t : CallId) : Option (LogSystem N) := do
  let task ← s.reconfigures t
  match task.phase, task.toSeal with
  | .sealing, r :: remaining =>
    let (s, endLogId) ← s.sealReplica r task.versionId
    some (s.setReconfigure t (task.afterSeal endLogId remaining))
  | _, _ => none

/-- The re-replication of one entry: the first replica with an entry wins, and what it has goes to
all replicas. -/
def readEntry (s : LogSystem N) (t : CallId) (r : Fin N) : Option (LogSystem N) := do
  let task ← s.reconfigures t
  match task.phase with
  | .reading logId =>
    if r ∈ task.replicaSet.replicas then
      match (s.replicas r).getLogEntry task.versionId logId with
      | .error _ => none
      | .ok entry =>
        let requests := (List.finRange N).map fun i =>
          (⟨i, .reconfigure t, none, task.versionId, entry.logId, entry.payload⟩ : Request N)
        some { s.setReconfigure t { task with phase := .appending logId .make } with
          requests := requests ++ s.requests }
    else
      none
  | _ => none

/-- Installing the new configuration, and starting its sequencer if that went well. -/
def install (s : LogSystem N) (t : CallId) : Option (LogSystem N) := do
  let task ← s.reconfigures t
  match task.phase with
  | .installing =>
    let s := s.setReconfigure t { task with phase := .returned }
    match s.metadataStore.getConfig task.versionId with
    | none => some s
    | some _ =>
      match s.metadataStore.compareAndAppendRange task.newConfig with
      | .error _ => some s
      | .ok metadataStore =>
        some ({ s with metadataStore }.setSequencer task.newConfig.versionId
          (.start task.newConfig.startIndex))
  | _ => none

/-- A call inside `reconfigure` throws. -/
def abort (s : LogSystem N) (t : CallId) : Option (LogSystem N) := do
  let task ← s.reconfigures t
  match task.phase with
  | .returned => none
  | _ => some (s.setReconfigure t { task with phase := .returned })

/-! ## Reading -/

/-- `VirtualLogImpl::getLogEntry` up to the first attempt. -/
def getLogEntry (s : LogSystem N) (c : CallId) (l : Int) : Option (LogSystem N) :=
  match s.reads c with
  | some _ => none
  | none => do
    let config ← s.metadataStore.getConfigUsingLogId l
    some (s.setRead c { logId := l, versionId := config.versionId })

/-- One attempt of the `retrying` loop, which goes through the replicas in order. -/
def probe (s : LogSystem N) (c : CallId) : Option (LogSystem N) := do
  let read ← s.reads c
  match read.result with
  | some _ => none
  | none =>
    if h : read.retryAttempt < N then
      match (s.replicas ⟨read.retryAttempt, h⟩).getLogEntry read.versionId read.logId with
      | .error _ => some (s.setRead c { read with retryAttempt := read.retryAttempt + 1 })
      | .ok entry => some (s.setRead c { read with result := some entry })
    else
      none

/-- An attempt whose call throws; it is the next replica's turn as well. -/
def failProbe (s : LogSystem N) (c : CallId) : Option (LogSystem N) := do
  let read ← s.reads c
  match read.result with
  | some _ => none
  | none =>
    if read.retryAttempt < N then
      some (s.setRead c { read with retryAttempt := read.retryAttempt + 1 })
    else
      none

/-! ## The transition system -/

def step (s : LogSystem N) : LogEvent N → Option (LogSystem N)
  | .append v payload => s.append v payload
  | .send v l => s.send v l
  | .arrive m => s.arrive m
  | .execute m => s.execute m
  | .receive m => s.receive m
  | .timeout r origin v l => s.deliver ⟨r, origin, v, l, .error .nonRecoverable⟩
  | .acknowledge v l => s.acknowledge v l
  | .seal r v => (s.sealReplica r v).map (·.1)
  | .reconfigure t target replicaSet => s.reconfigure t target replicaSet
  | .sealNext t => s.sealNext t
  | .readEntry t r => s.readEntry t r
  | .install t => s.install t
  | .abort t => s.abort t
  | .getLogEntry c l => s.getLogEntry c l
  | .probe c => s.probe c
  | .failProbe c => s.failProbe c

end LogSystem

/-- The configuration a log is created with (`makeVirtualLog`); its fields are 64-bit integers. -/
structure Bootstrap where
  config : MetadataConfig
  versionId_eq : config.versionId = 1
  previousVersionId_eq : config.previousVersionId = 0
  lowest_le : lowestNonExistingLogId ≤ config.startIndex
  le_highest : config.startIndex ≤ highestNonExistingLogId
  endIndex_le : config.endIndex ≤ highestNonExistingLogId

/-- The store after the one `compareAndAppendRange` of `makeVirtualLog`. -/
def Bootstrap.metadataStore (b : Bootstrap) : InMemoryMetadataStore :=
  ({} : InMemoryMetadataStore).appendFirst b.config

theorem Bootstrap.compareAndAppendRange (b : Bootstrap) :
    ({} : InMemoryMetadataStore).compareAndAppendRange b.config = .ok b.metadataStore := by
  unfold InMemoryMetadataStore.compareAndAppendRange
  rw [show (({} : InMemoryMetadataStore).configs.last? : Option (Int × MetadataConfig)) = none
    from rfl]
  dsimp only
  rw [if_neg (not_not.mpr b.previousVersionId_eq)]
  rfl

/-- The log as it is created: either with a first configuration and its sequencer
(`makeVirtualLog`), or with an empty store, and then the first `reconfigure` installs version 1. -/
def LogSystem.initial (N : Nat) : Option Bootstrap → LogSystem N
  | none => {}
  | some b =>
    ({ metadataStore := b.metadataStore } : LogSystem N).setSequencer b.config.versionId
      (.start b.config.startIndex)

end ReplicatedCounter.Log
