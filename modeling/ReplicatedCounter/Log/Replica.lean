import Mathlib.Logic.Function.Basic
import ReplicatedCounter.Log.OrderedCompletionQueue
import ReplicatedCounter.Metadata.InMemoryMetadataStore

/-!
# `log/impl/InMemoryNanoLog.cc` and `log/impl/ReplicaImpl.cc`

A replica keeps one nanolog per version. A nanolog keeps what it was told to store, whether it has
been sealed, and a completion queue that decides when an append is answered.

An append comes in two pieces, because the source takes the nanolog's mutex between them:
`beginAppend` finds or makes the nanolog and looks at `sealed_`, `execute` is the section under the
lock. A seal can fall in between. A seal-skipping append (`skipSeal`) is one a reconfiguration
sends; it is let through a sealed nanolog, and an occupied position counts as success for it.

The type `α` is who waits for the answer.
-/

set_option autoImplicit false

namespace ReplicatedCounter.Log

open Metadata

/-! ## `log/include/Common.h` and `log/include/NanoLog.h`

`LogId` and `VersionId` are both `std::int64_t`; here they are integers. -/

/-- `HighestNonExistingLogId`. -/
def highestNonExistingLogId : Int := 9223372036854775807

/-- `LowestNonExistingLogId`. -/
def lowestNonExistingLogId : Int := -9223372036854775808

theorem lowest_le_highest : lowestNonExistingLogId ≤ highestNonExistingLogId := by decide

structure LogEntry where
  logId : Int
  payload : String
  deriving DecidableEq, Repr

/-- `LogReadError`; in memory only `NotFound` is ever returned. -/
inductive LogReadError where
  | indexOutOfBounds
  | notFound
  | unknown
  deriving DecidableEq, Repr

/-- What a call of a replica throws. `nonRecoverable` stands for a call that got no answer. -/
inductive ReplicaException where
  | nanoLogSealed (versionId : String)
  | nanoLogLogPositionAlreadyOccupied
  | metadataBlockNotFound
  | nonRecoverable
  deriving DecidableEq, Repr

/-- `what()` of the exceptions. -/
def ReplicaException.what : ReplicaException → String
  | .nanoLogSealed versionId => "nanolog is sealed. versionId: " ++ versionId
  | .nanoLogLogPositionAlreadyOccupied => "there is already a log entry at that position."
  | .metadataBlockNotFound => "metadatablock not found"
  | .nonRecoverable => "NonRecoverableError"

/-! ## `InMemoryNanoLog` -/

/-- `InMemoryNanoLog`. -/
structure InMemoryNanoLog (α : Type) where
  metadataVersionId : String
  startIndex : Int
  sealed : Bool := false
  logs : SortedMap Int String := .empty
  completionQueue : OrderedCompletionQueue α := { currentIndex := startIndex }

/-- What the locked section of an append leaves behind: the nanolog, the answer if there is one at
once, and the promises it fulfilled. -/
structure Appended (α : Type) where
  nanoLog : InMemoryNanoLog α
  answer : Option (Except ReplicaException Int)
  completed : List (Int × α)

namespace InMemoryNanoLog

variable {α : Type}

/-- `InMemoryNanoLog::append` up to the lock. -/
def checkSealed (nanoLog : InMemoryNanoLog α) (skipSeal : Bool) : Except ReplicaException Unit :=
  if !skipSeal && nanoLog.sealed then
    .error (.nanoLogSealed nanoLog.metadataVersionId)
  else
    .ok ()

/-- `completionQueue_.add`, then `completeAllBelow` if a commit index came along. -/
def park (queue : OrderedCompletionQueue α) (globalCommitIndex : Option Int) (logId : Int)
    (promise : α) : OrderedCompletionQueue α × List (Int × α) :=
  let (queue, completed) := queue.add logId promise
  match globalCommitIndex with
  | none => (queue, completed)
  | some index =>
    let (queue, below) := queue.completeAllBelow index
    (queue, completed ++ below)

/-- `InMemoryNanoLog::append` under the lock. -/
def appendLocked (nanoLog : InMemoryNanoLog α) (globalCommitIndex : Option Int) (logId : Int)
    (logEntryPayload : String) (skipSeal : Bool) (promise : α) : Appended α :=
  match nanoLog.logs.find? logId with
  | some _ =>
    -- the source does not compare the payloads
    { nanoLog
      answer := some (if skipSeal then .ok logId else .error .nanoLogLogPositionAlreadyOccupied)
      completed := [] }
  | none =>
    let (completionQueue, completed) :=
      park nanoLog.completionQueue globalCommitIndex logId promise
    { nanoLog :=
        { nanoLog with logs := nanoLog.logs.insert logId logEntryPayload, completionQueue }
      answer := none
      completed }

/-- `InMemoryNanoLog::getLogEntry`. -/
def getLogEntry (nanoLog : InMemoryNanoLog α) (logId : Int) : Except LogReadError LogEntry :=
  match nanoLog.logs.find? logId with
  | some payload => .ok ⟨logId, payload⟩
  | none => .error .notFound

/-- `InMemoryNanoLog::getLocalCommitIndex`. -/
def getLocalCommitIndex (nanoLog : InMemoryNanoLog α) : Int := nanoLog.completionQueue.currentIndex

/-- `InMemoryNanoLog::seal`. -/
def «seal» (nanoLog : InMemoryNanoLog α) : InMemoryNanoLog α × Int :=
  ({ nanoLog with sealed := true }, nanoLog.getLocalCommitIndex)

/-! ### What an append leaves behind -/

/-- `nanoLog'` comes after `nanoLog`: nothing stored is lost, the local commit index moves up, and
a seal is final. -/
structure Extends (nanoLog nanoLog' : InMemoryNanoLog α) : Prop where
  startIndex : nanoLog'.startIndex = nanoLog.startIndex
  index_le : nanoLog.getLocalCommitIndex ≤ nanoLog'.getLocalCommitIndex
  logs : ∀ {l p}, nanoLog.logs.find? l = some p → nanoLog'.logs.find? l = some p
  sealed : nanoLog.sealed = true → nanoLog'.sealed = true

theorem Extends.refl (nanoLog : InMemoryNanoLog α) : nanoLog.Extends nanoLog :=
  ⟨rfl, le_refl _, id, id⟩

theorem Extends.trans {nanoLog nanoLog' nanoLog'' : InMemoryNanoLog α}
    (h : nanoLog.Extends nanoLog') (h' : nanoLog'.Extends nanoLog'') : nanoLog.Extends nanoLog'' :=
  ⟨h'.startIndex.trans h.startIndex, h.index_le.trans h'.index_le, fun hl => h'.logs (h.logs hl),
    fun hs => h'.sealed (h.sealed hs)⟩

theorem seal_extends (nanoLog : InMemoryNanoLog α) : nanoLog.Extends nanoLog.seal.1 :=
  ⟨rfl, le_refl _, id, fun _ => rfl⟩

variable {nanoLog : InMemoryNanoLog α} {globalCommitIndex : Option Int} {logId : Int}
  {payload : String} {skipSeal : Bool} {promise : α}

/-- The commit index of an append vouches for everything below it. -/
def Vouched (globalCommitIndex : Option Int) (j : Int) : Prop :=
  ∃ index, globalCommitIndex = some index ∧ j < index

theorem park_completes (queue : OrderedCompletionQueue α) (globalCommitIndex : Option Int)
    (logId : Int) (promise : α) :
    ({ queue with promises := queue.promises.insert logId promise } :
        OrderedCompletionQueue α).Completes (Vouched globalCommitIndex)
      (park queue globalCommitIndex logId promise).1
      (park queue globalCommitIndex logId promise).2 := by
  have hadd := queue.add_completes logId promise
  cases globalCommitIndex with
  | none =>
    have : Vouched none = fun _ => False := by
      funext j
      simp [Vouched]
    rw [this]
    exact hadd
  | some index =>
    have : Vouched (some index) = fun j => False ∨ j < index := by
      funext j
      simp [Vouched]
    rw [this]
    exact hadd.trans (OrderedCompletionQueue.completeAllBelow_completes _ index)

theorem appendLocked_of_occupied {p : String} (h : nanoLog.logs.find? logId = some p) :
    nanoLog.appendLocked globalCommitIndex logId payload skipSeal promise =
      { nanoLog
        answer := some (if skipSeal then .ok logId else .error .nanoLogLogPositionAlreadyOccupied)
        completed := [] } := by
  unfold appendLocked
  rw [h]

theorem appendLocked_of_vacant (h : nanoLog.logs.find? logId = none) :
    nanoLog.appendLocked globalCommitIndex logId payload skipSeal promise =
      { nanoLog :=
          { nanoLog with
            logs := nanoLog.logs.insert logId payload
            completionQueue := (park nanoLog.completionQueue globalCommitIndex logId promise).1 }
        answer := none
        completed := (park nanoLog.completionQueue globalCommitIndex logId promise).2 } := by
  unfold appendLocked
  rw [h]

theorem appendLocked_extends :
    nanoLog.Extends
      (nanoLog.appendLocked globalCommitIndex logId payload skipSeal promise).nanoLog := by
  cases h : nanoLog.logs.find? logId with
  | some p =>
    rw [appendLocked_of_occupied h]
    exact .refl nanoLog
  | none =>
    rw [appendLocked_of_vacant h]
    refine ⟨rfl, (park_completes nanoLog.completionQueue ..).index_le, fun {l p} hl => ?_, id⟩
    rw [SortedMap.find?_insert, if_neg]
    · exact hl
    · rintro rfl
      exact absurd hl (by rw [h]; simp)

end InMemoryNanoLog

/-! ## `ReplicaImpl` -/

/-- `ReplicaImpl`, as its `NanoLogStoreImpl`. -/
structure ReplicaImpl (α : Type) where
  nanoLogStore : Int → Option (InMemoryNanoLog α) := fun _ => none

namespace ReplicaImpl

variable {α : Type}

/-- `nanoLogStore_->add`. -/
def add (replica : ReplicaImpl α) (versionId : Int) (nanoLog : InMemoryNanoLog α) :
    ReplicaImpl α :=
  { nanoLogStore := Function.update replica.nanoLogStore versionId (some nanoLog) }

/-- `NanoLogFactory::makeNanoLog` for `NanoLogType::InMemory`. -/
def makeNanoLog (versionId : Int) (config : MetadataConfig) : InMemoryNanoLog α :=
  { metadataVersionId := toString versionId, startIndex := config.startIndex }

/-- `ReplicaImpl::append` up to the nanolog's lock. -/
def beginAppend (replica : ReplicaImpl α) (metadataStore : InMemoryMetadataStore) (versionId : Int)
    (skipSeal : Bool) : ReplicaImpl α × Except ReplicaException Unit :=
  match replica.nanoLogStore versionId with
  | some nanoLog => (replica, nanoLog.checkSealed skipSeal)
  | none =>
    match metadataStore.getConfig versionId with
    | none => (replica, .error .metadataBlockNotFound)
    | some config =>
      let nanoLog := makeNanoLog versionId config
      (replica.add versionId nanoLog, nanoLog.checkSealed skipSeal)

/-- `ReplicaImpl::getLogEntry`. -/
def getLogEntry (replica : ReplicaImpl α) (versionId : Int) (logId : Int) :
    Except LogReadError LogEntry :=
  match replica.nanoLogStore versionId with
  | none => .error .notFound
  | some nanoLog => nanoLog.getLogEntry logId

/-- `ReplicaImpl::seal`. -/
def «seal» (replica : ReplicaImpl α) (metadataStore : InMemoryMetadataStore)
    (versionId : Int) : Except ReplicaException (ReplicaImpl α × Int) :=
  match metadataStore.getConfig versionId with
  | none => .error .metadataBlockNotFound
  | some config =>
    let nanoLog := (replica.nanoLogStore versionId).getD (makeNanoLog versionId config)
    let (nanoLog, endLogId) := nanoLog.seal
    .ok (replica.add versionId nanoLog, endLogId)

/-- Whether `seal` has been executed for the version. -/
def isSealed (replica : ReplicaImpl α) (versionId : Int) : Bool :=
  match replica.nanoLogStore versionId with
  | none => false
  | some nanoLog => nanoLog.sealed

@[simp] theorem add_self (replica : ReplicaImpl α) (v : Int) (nanoLog : InMemoryNanoLog α) :
    (replica.add v nanoLog).nanoLogStore v = some nanoLog :=
  Function.update_self ..

theorem add_of_ne (replica : ReplicaImpl α) {v v' : Int} (nanoLog : InMemoryNanoLog α)
    (h : v' ≠ v) : (replica.add v nanoLog).nanoLogStore v' = replica.nanoLogStore v' :=
  Function.update_of_ne h ..

variable {replica : ReplicaImpl α} {metadataStore : InMemoryMetadataStore} {v : Int}
  {skipSeal : Bool}

/-- The replica after `beginAppend` has the nanolog it had, or a new one if it had none. -/
theorem beginAppend_replica (replica : ReplicaImpl α) (metadataStore : InMemoryMetadataStore) (v : Int)
    (skipSeal : Bool) :
    (replica.beginAppend metadataStore v skipSeal).1 = replica ∨
    (replica.nanoLogStore v = none ∧ ∃ config, metadataStore.getConfig v = some config ∧
      (replica.beginAppend metadataStore v skipSeal).1 = replica.add v (makeNanoLog v config)) := by
  unfold beginAppend
  cases hstore : replica.nanoLogStore v with
  | some nanoLog => exact .inl rfl
  | none =>
    cases hconfig : metadataStore.getConfig v with
    | none => exact .inl rfl
    | some config => exact .inr ⟨rfl, config, rfl, rfl⟩

/-- **An admitted append finds a nanolog, and a sealed one only if it skips the seal.** -/
theorem beginAppend_ok (h : (replica.beginAppend metadataStore v skipSeal).2 = .ok ()) :
    (∃ nanoLog, (replica.beginAppend metadataStore v skipSeal).1.nanoLogStore v = some nanoLog) ∧
      (skipSeal = false → replica.isSealed v = false) := by
  have hcheck : ∀ nanoLog : InMemoryNanoLog α, nanoLog.checkSealed skipSeal = .ok () →
      skipSeal = false → nanoLog.sealed = false := by
    intro nanoLog hok hskip
    unfold InMemoryNanoLog.checkSealed at hok
    cases hsealed : nanoLog.sealed with
    | false => rfl
    | true => simp [hskip, hsealed] at hok
  unfold beginAppend isSealed at *
  cases hstore : replica.nanoLogStore v with
  | some nanoLog =>
    rw [hstore] at h
    exact ⟨⟨nanoLog, hstore⟩, hcheck nanoLog h⟩
  | none =>
    rw [hstore] at h
    cases hconfig : metadataStore.getConfig v with
    | none =>
      rw [hconfig] at h
      exact absurd h (by simp)
    | some config => exact ⟨⟨_, add_self ..⟩, fun _ => rfl⟩

/-- **What `seal` does**, with the nanolog it finds or makes. -/
theorem seal_eq_ok {replica' : ReplicaImpl α} {endLogId : Int}
    (h : replica.seal metadataStore v = .ok (replica', endLogId)) :
    ∃ config nanoLog, metadataStore.getConfig v = some config ∧
      (replica.nanoLogStore v = some nanoLog ∨
        (replica.nanoLogStore v = none ∧ nanoLog = makeNanoLog v config)) ∧
      replica' = replica.add v { nanoLog with sealed := true } ∧
      endLogId = nanoLog.getLocalCommitIndex := by
  unfold ReplicaImpl.seal at h
  cases hconfig : metadataStore.getConfig v with
  | none =>
    rw [hconfig] at h
    exact absurd h (by simp)
  | some config =>
    rw [hconfig] at h
    obtain ⟨rfl, rfl⟩ := Prod.mk.inj (Except.ok.inj h)
    refine ⟨config, _, rfl, ?_, rfl, rfl⟩
    cases hstore : replica.nanoLogStore v with
    | none => exact .inr ⟨rfl, rfl⟩
    | some nanoLog => exact .inl rfl

end ReplicaImpl

end ReplicatedCounter.Log
