import Mathlib
import ReplicatedCounter.Lib.Coro
import ReplicatedCounter.Log.Replica
import ReplicatedCounter.Persistence.KVStoreLite

/-!
# `log/impl/RocksNanoLog.cc`

The nanolog that keeps its entries in a key-value store. What the in-memory one reads off its
completion queue, this one keeps a second time: the end index and the seal are stored under keys of
the version, and cached in members that a dirty flag guards.

A call is a coroutine over the nanolog and its store. An append that does not throw ends by waiting
for its promise, so what it returns here is the promises it has completed, its own perhaps among
them; the type `α` is who waits.

The second half says, over a store that does what it is asked, what each call does. `Holds` is the
view of the store that the calls share, and nothing after this file reads a key.
-/

set_option autoImplicit false

namespace ReplicatedCounter.Log

/-- What a call throws: an exception of `log/include/NanoLog.h`, or one of its own. -/
inductive RocksNanoLogError where
  | nanoLog (exception : ReplicaException)
  | unknownWriteError
  /-- `folly::ConversionError`. -/
  | conversionError
  | logTrimFailed
  deriving DecidableEq, Repr

/-- `RocksNanoLog`. -/
structure RocksNanoLog (α κ : Type) where
  versionId : String
  startIndex : Int
  endIndexDirty : Bool := true
  endIndex : Int
  sealed : Bool
  sealDirty : Bool := true
  completionQueue : OrderedCompletionQueue α := { currentIndex := startIndex }
  kvStore : κ

/-- `folly::to<bool>`. -/
def toBool (text : String) : Option Bool :=
  let word := text.toList.map Char.toLower
  if word ∈ ["1", "y", "yes", "t", "true", "on"].map String.toList then some true
  else if word ∈ ["0", "n", "no", "f", "false", "off"].map String.toList then some false
  else none

/-- `folly::to<LogId>`. -/
def toLogId (text : String) : Option Int := text.toInt?

namespace RocksNanoLog

variable {α κ : Type} [KVStoreLite κ String]

/-! ## `KeyFormat` -/

def logKey (versionId : String) (logId : Int) : String :=
  "VERSION_ID|" ++ versionId ++ "|LOG_ID|" ++ logId.repr

def sealKey (versionId : String) : String := "VERSION_ID|" ++ versionId ++ "|SEAL|"

def startIndexKey (versionId : String) : String := "VERSION_ID|" ++ versionId ++ "|START_INDEX|"

def endIndexKey (versionId : String) : String := "VERSION_ID|" ++ versionId ++ "|END_INDEX|"

/-- `sealed_ ? "TRUE" : "FALSE"`. -/
def sealText (isSealed : Bool) : String := if isSealed then "TRUE" else "FALSE"

/-! ## The calls -/

/-- A coroutine of the nanolog. -/
abbrev RocksM (α κ : Type) := Coro RocksNanoLogError (RocksNanoLog α κ)

/-- Work on the store. -/
def onStore {ρ : Type} (f : κ → κ × ρ) : RocksM α κ ρ := do
  let nanoLog ← getThe (RocksNanoLog α κ)
  let (kvStore, result) := f nanoLog.kvStore
  set { nanoLog with kvStore }
  return result

/-- `kvStore_->get(key)`. -/
def kvGet (key : String) : RocksM α κ (Option String) := onStore fun kv => (kv, KVStoreLite.get kv key)

/-- `kvStore_->put(key, value)`. -/
def kvPut (key value : String) : RocksM α κ Bool := onStore fun kv => KVStoreLite.put kv key value

/-- `kvStore_->putIfNotExists(key, value)`. -/
def kvPutIfNotExists (key value : String) : RocksM α κ Bool :=
  onStore fun kv => KVStoreLite.putIfNotExists kv key value

/-- `kvStore_->flushWal()`. -/
def kvFlushWal : RocksM α κ Bool := onStore KVStoreLite.flushWal

/-- `RocksNanoLog::init`. The end index it stores is the start index, whatever the constructor was
given. -/
def init : RocksM α κ Unit := do
  let nanoLog ← getThe (RocksNanoLog α κ)
  let _ ← kvPut (startIndexKey nanoLog.versionId) nanoLog.startIndex.repr
  let _ ← kvPut (endIndexKey nanoLog.versionId) nanoLog.startIndex.repr
  let _ ← kvPut (sealKey nanoLog.versionId) (sealText nanoLog.sealed)

/-- `RocksNanoLog::co_isSealed`. -/
def isSealed : RocksM α κ Bool := do
  let nanoLog ← getThe (RocksNanoLog α κ)
  if nanoLog.sealDirty then
    match ← kvGet (sealKey nanoLog.versionId) with
    | some text =>
      match toBool text with
      | none => throw .conversionError
      | some isSealed => modify fun nanoLog => { nanoLog with sealed := isSealed }
    | none => pure ()
    modify fun nanoLog => { nanoLog with sealDirty := false }
  return (← getThe (RocksNanoLog α κ)).sealed

/-- `RocksNanoLog::co_setSeal`. -/
def setSeal : RocksM α κ Bool := do
  let nanoLog ← getThe (RocksNanoLog α κ)
  modify fun nanoLog => { nanoLog with sealDirty := true }
  let result ← kvPut (sealKey nanoLog.versionId) "TRUE"
  let fsyncResult ← kvFlushWal
  if fsyncResult then
    modify fun nanoLog => { nanoLog with sealDirty := false, sealed := true }
  return result && fsyncResult && (← getThe (RocksNanoLog α κ)).sealed

/-- `RocksNanoLog::co_getEndIndex`. -/
def getEndIndex : RocksM α κ Int := do
  let nanoLog ← getThe (RocksNanoLog α κ)
  if nanoLog.endIndexDirty then
    match ← kvGet (endIndexKey nanoLog.versionId) with
    | some text =>
      match toLogId text with
      | none => throw .conversionError
      | some endIndex => modify fun nanoLog => { nanoLog with endIndex }
    | none => pure ()
    modify fun nanoLog => { nanoLog with endIndexDirty := false }
  return (← getThe (RocksNanoLog α κ)).endIndex

/-- `RocksNanoLog::co_setEndIndex`. -/
def setEndIndex (endIndex : Int) : RocksM α κ Bool := do
  let nanoLog ← getThe (RocksNanoLog α κ)
  modify fun nanoLog => { nanoLog with endIndexDirty := true }
  let _ ← kvPut (endIndexKey nanoLog.versionId) endIndex.repr
  let fsyncResult ← kvFlushWal
  if fsyncResult then
    modify fun nanoLog => { nanoLog with endIndexDirty := false, endIndex }
  else
    throw .unknownWriteError
  return true

/-- Replace the queue, and hand back what it has completed. -/
def complete (f : OrderedCompletionQueue α → OrderedCompletionQueue α × List (Int × α)) :
    RocksM α κ (List (Int × α)) := do
  let nanoLog ← getThe (RocksNanoLog α κ)
  let (completionQueue, completed) := f nanoLog.completionQueue
  set { nanoLog with completionQueue }
  return completed

/-- `RocksNanoLog::append`, until it waits for `promise`. -/
def append (globalCommitIndex : Option Int) (logId : Int) (logEntryPayload : String)
    (skipSeal : Bool) (promise : α) : RocksM α κ (List (Int × α)) := do
  let isSealed ← isSealed
  let nanoLog ← getThe (RocksNanoLog α κ)
  if !skipSeal && isSealed then
    throw (.nanoLog (.nanoLogSealed nanoLog.versionId))
  let stored ← kvPutIfNotExists (logKey nanoLog.versionId logId) logEntryPayload
  if !stored then
    throw (.nanoLog .nanoLogLogPositionAlreadyOccupied)
  match globalCommitIndex with
  | some index =>
    let completed ← complete fun queue => queue.add logId promise
    let below ← complete fun queue => queue.completeAllBelow index
    let _ ← setEndIndex (index + 1)
    return completed ++ below
  | none =>
    let _ ← complete fun queue => (queue.addIncomplete logId promise, [])
    let range := (← getThe (RocksNanoLog α κ)).completionQueue.getRangeEligibleForCompletion
    if range.1 < range.2 then
      let _ ← setEndIndex range.2
      complete fun queue => queue.completeAllBelow (range.2 - 1)
    else
      return []

/-- `RocksNanoLog::getLogEntry`. -/
def getLogEntry (logId : Int) : RocksM α κ (Except LogReadError LogEntry) := do
  let nanoLog ← getThe (RocksNanoLog α κ)
  match ← kvGet (logKey nanoLog.versionId logId) with
  | some payload => return .ok ⟨logId, payload⟩
  | none => return .error .notFound

/-- `RocksNanoLog::seal`. The end index it returns is the cached one, dirty or not. -/
def «seal» : RocksM α κ Int := do
  if ← setSeal then
    return (← getThe (RocksNanoLog α κ)).endIndex
  return -1

/-- `RocksNanoLog::getLocalCommitIndex`. -/
def getLocalCommitIndex : RocksM α κ Int := getEndIndex

/-- `NanoLogFactory::makeNanoLog` for `NanoLogType::Rocks`. -/
def makeNanoLog (versionId : String) (startIndex endIndex : Int) (isSealed : Bool) (kvStore : κ) :
    RocksNanoLog α κ :=
  (Coro.exec init { versionId, startIndex, endIndex, sealed := isSealed, kvStore }).2

/-! ## What the store holds -/

/-- The keys of one version, as the nanolog means them. -/
structure Holds (kvStore : κ) (versionId : String) (logs : Int → Option String) (endIndex : Int)
    (isSealed : Bool) : Prop where
  logs : ∀ logId, KVStoreLite.get kvStore (logKey versionId logId) = logs logId
  endIndex : KVStoreLite.get kvStore (endIndexKey versionId) = some endIndex.repr
  isSealed : KVStoreLite.get kvStore (sealKey versionId) = some (sealText isSealed)

theorem logKey_injective {versionId : String} {l l' : Int}
    (h : logKey versionId l = logKey versionId l') : l = l' := by
  unfold logKey at h
  simpa using h

theorem logKey_ne_sealKey {versionId : String} {l : Int} : logKey versionId l ≠ sealKey versionId := by
  intro h
  unfold logKey sealKey at h
  simp only [String.append_assoc, String.append_right_inj] at h
  exact absurd (congrArg String.toList h) (by simp)

theorem logKey_ne_endIndexKey {versionId : String} {l : Int} :
    logKey versionId l ≠ endIndexKey versionId := by
  intro h
  unfold logKey endIndexKey at h
  simp only [String.append_assoc, String.append_right_inj] at h
  exact absurd (congrArg String.toList h) (by simp)

theorem logKey_ne_startIndexKey {versionId : String} {l : Int} :
    logKey versionId l ≠ startIndexKey versionId := by
  intro h
  unfold logKey startIndexKey at h
  simp only [String.append_assoc, String.append_right_inj] at h
  exact absurd (congrArg String.toList h) (by simp)

theorem endIndexKey_ne_sealKey {versionId : String} : endIndexKey versionId ≠ sealKey versionId := by
  intro h
  unfold endIndexKey sealKey at h
  simp only [String.append_assoc, String.append_right_inj] at h
  exact absurd h (by decide)

theorem toBool_sealText (isSealed : Bool) : toBool (sealText isSealed) = some isSealed := by
  cases isSealed <;> decide

theorem toLogId_repr (logId : Int) : toLogId logId.repr = some logId := Int.toInt?_repr logId

variable {logs : Int → Option String} {endIndex : Int} {isSealed : Bool} {versionId : String} {kv : κ}
  {nanoLog : RocksNanoLog α κ}

section keys

variable [LawfulKVStoreLite κ String]

theorem Holds.putEndIndex (h : Holds kv versionId logs endIndex isSealed) (endIndex' : Int) :
    Holds (KVStoreLite.put kv (endIndexKey versionId) endIndex'.repr).1 versionId logs endIndex'
      isSealed where
  logs l := by rw [LawfulKVStoreLite.get_put, if_neg logKey_ne_endIndexKey, h.logs]
  endIndex := by rw [LawfulKVStoreLite.get_put, if_pos rfl]
  isSealed := by rw [LawfulKVStoreLite.get_put, if_neg endIndexKey_ne_sealKey.symm, h.isSealed]

theorem Holds.putSeal (h : Holds kv versionId logs endIndex isSealed) :
    Holds (KVStoreLite.put kv (sealKey versionId) "TRUE").1 versionId logs endIndex true where
  logs l := by rw [LawfulKVStoreLite.get_put, if_neg logKey_ne_sealKey, h.logs]
  endIndex := by rw [LawfulKVStoreLite.get_put, if_neg endIndexKey_ne_sealKey, h.endIndex]
  isSealed := by
    rw [LawfulKVStoreLite.get_put, if_pos rfl]
    rfl

theorem Holds.putLog (h : Holds kv versionId logs endIndex isSealed) (logId : Int) (payload : String) :
    Holds (KVStoreLite.put kv (logKey versionId logId) payload).1 versionId
      (fun l => if l = logId then some payload else logs l) endIndex isSealed where
  logs l := by
    rw [LawfulKVStoreLite.get_put]
    by_cases hl : l = logId
    · rw [if_pos (congrArg _ hl), if_pos hl]
    · rw [if_neg fun heq => hl (logKey_injective heq), if_neg hl, h.logs]
  endIndex := by rw [LawfulKVStoreLite.get_put, if_neg logKey_ne_endIndexKey.symm, h.endIndex]
  isSealed := by rw [LawfulKVStoreLite.get_put, if_neg logKey_ne_sealKey.symm, h.isSealed]

omit [LawfulKVStoreLite κ String] in
theorem Holds.flushWal [FlushingKVStoreLite κ String] (h : Holds kv versionId logs endIndex isSealed) :
    Holds (KVStoreLite.flushWal kv).1 versionId logs endIndex isSealed where
  logs l := by rw [FlushingKVStoreLite.get_flushWal, h.logs]
  endIndex := by rw [FlushingKVStoreLite.get_flushWal, h.endIndex]
  isSealed := by rw [FlushingKVStoreLite.get_flushWal, h.isSealed]

/-- **A new nanolog** over any store. What entries there are of its version stay; the end index is
the start index, and the seal what the constructor was given. -/
theorem holds_makeNanoLog_of (versionId : String) (startIndex endIndex : Int) (isSealed : Bool)
    (kv : κ) :
    ∃ kvStore, (makeNanoLog versionId startIndex endIndex isSealed kv : RocksNanoLog α κ) =
        { versionId, startIndex, endIndex, sealed := isSealed, kvStore } ∧
      Holds kvStore versionId (fun l => KVStoreLite.get kv (logKey versionId l)) startIndex
        isSealed := by
  refine ⟨(KVStoreLite.put (KVStoreLite.put (KVStoreLite.put kv (startIndexKey versionId)
    startIndex.repr).1 (endIndexKey versionId) startIndex.repr).1 (sealKey versionId)
    (sealText isSealed)).1, rfl, ⟨fun l => ?_, ?_, ?_⟩⟩
  · rw [LawfulKVStoreLite.get_put, if_neg logKey_ne_sealKey, LawfulKVStoreLite.get_put,
      if_neg logKey_ne_endIndexKey, LawfulKVStoreLite.get_put, if_neg logKey_ne_startIndexKey]
  · rw [LawfulKVStoreLite.get_put, if_neg endIndexKey_ne_sealKey, LawfulKVStoreLite.get_put,
      if_pos rfl]
  · rw [LawfulKVStoreLite.get_put, if_pos rfl]

/-- A new nanolog over a store without entries of its version. -/
theorem holds_makeNanoLog (startIndex endIndex : Int) (isSealed : Bool)
    (hempty : ∀ l, KVStoreLite.get kv (logKey versionId l) = none) :
    ∃ kvStore, (makeNanoLog versionId startIndex endIndex isSealed kv : RocksNanoLog α κ) =
        { versionId, startIndex, endIndex, sealed := isSealed, kvStore } ∧
      Holds kvStore versionId (fun _ => none) startIndex isSealed := by
  obtain ⟨kvStore, hmake, hholds⟩ := holds_makeNanoLog_of (α := α) versionId startIndex
    endIndex isSealed kv
  exact ⟨kvStore, hmake, ⟨fun l => (hholds.logs l).trans (hempty l), hholds.endIndex,
    hholds.isSealed⟩⟩

end keys

/-! ## One spec per call -/

omit [KVStoreLite κ String] in
theorem exec_complete (f : OrderedCompletionQueue α → OrderedCompletionQueue α × List (Int × α))
    (nanoLog : RocksNanoLog α κ) :
    Coro.exec (complete f) nanoLog = (.ok (f nanoLog.completionQueue).2,
      { nanoLog with completionQueue := (f nanoLog.completionQueue).1 }) := rfl

omit [KVStoreLite κ String] in
theorem exec_onStore {ρ : Type} (f : κ → κ × ρ) (nanoLog : RocksNanoLog α κ) :
    Coro.exec (onStore f) nanoLog =
      (.ok (f nanoLog.kvStore).2, { nanoLog with kvStore := (f nanoLog.kvStore).1 }) := rfl

theorem exec_kvGet (key : String) (nanoLog : RocksNanoLog α κ) :
    Coro.exec (kvGet key) nanoLog = (.ok (KVStoreLite.get nanoLog.kvStore key), nanoLog) := rfl

theorem exec_isSealed (h : Holds nanoLog.kvStore nanoLog.versionId logs endIndex isSealed)
    (hcache : nanoLog.sealDirty = false → nanoLog.sealed = isSealed) :
    Coro.exec RocksNanoLog.isSealed nanoLog =
      (.ok isSealed, { nanoLog with sealed := isSealed, sealDirty := false }) := by
  unfold RocksNanoLog.isSealed
  rw [Coro.exec_bind_ok (Coro.exec_getThe _)]
  cases hdirty : nanoLog.sealDirty with
  | true =>
    have hread : Coro.exec (kvGet (sealKey nanoLog.versionId)) nanoLog =
        (.ok (some (sealText isSealed)), nanoLog) := by
      rw [exec_kvGet, h.isSealed]
    simp only [if_true]
    rw [Coro.exec_bind_ok hread]
    simp only [toBool_sealText]
    rfl
  | false =>
    have hsame : ({ nanoLog with sealed := isSealed, sealDirty := false } : RocksNanoLog α κ) =
        nanoLog := by
      rw [← hcache hdirty, ← hdirty]
    rw [hsame, ← hcache hdirty]
    rfl

theorem exec_getEndIndex (h : Holds nanoLog.kvStore nanoLog.versionId logs endIndex isSealed)
    (hcache : nanoLog.endIndexDirty = false → nanoLog.endIndex = endIndex) :
    Coro.exec getEndIndex nanoLog =
      (.ok endIndex, { nanoLog with endIndex, endIndexDirty := false }) := by
  unfold getEndIndex
  rw [Coro.exec_bind_ok (Coro.exec_getThe _)]
  cases hdirty : nanoLog.endIndexDirty with
  | true =>
    have hread : Coro.exec (kvGet (endIndexKey nanoLog.versionId)) nanoLog =
        (.ok (some endIndex.repr), nanoLog) := by
      rw [exec_kvGet, h.endIndex]
    simp only [if_true]
    rw [Coro.exec_bind_ok hread]
    simp only [toLogId_repr]
    rfl
  | false =>
    have hsame : ({ nanoLog with endIndex, endIndexDirty := false } : RocksNanoLog α κ) =
        nanoLog := by
      rw [← hcache hdirty, ← hdirty]
    rw [hsame, ← hcache hdirty]
    rfl

/-- Reading the seal changes the cache of it and nothing else. -/
theorem keeps_isSealed {P : RocksNanoLog α κ → Prop}
    (hcache : ∀ nanoLog sealed sealDirty, P nanoLog → P { nanoLog with sealed, sealDirty }) :
    Coro.Keeps P (RocksNanoLog.isSealed : RocksM α κ Bool) := by
  have hclean : Coro.Keeps P (modify fun nanoLog => { nanoLog with sealDirty := false } :
      RocksM α κ PUnit) :=
    Coro.keeps_modify fun nanoLog h => hcache nanoLog nanoLog.sealed false h
  have hread (isSealed : Bool) : Coro.Keeps P (modify fun nanoLog =>
      { nanoLog with sealed := isSealed } : RocksM α κ PUnit) :=
    Coro.keeps_modify fun nanoLog h => hcache nanoLog isSealed nanoLog.sealDirty h
  unfold RocksNanoLog.isSealed
  refine Coro.Keeps.getThe_bind fun nanoLog _ => ?_
  dsimp only
  split
  · have hget : Coro.Keeps P (kvGet (sealKey nanoLog.versionId)) := fun _ h => h
    refine hget.bind fun text => ?_
    cases text with
    | none => exact hclean.bind fun _ => Coro.keeps_return_getThe _
    | some text =>
      dsimp only
      cases toBool text with
      | none => exact Coro.keeps_throw _
      | some isSealed =>
        exact (hread isSealed).bind fun _ => hclean.bind fun _ => Coro.keeps_return_getThe _
  · exact Coro.keeps_return_getThe _

variable [LawfulKVStoreLite κ String]

theorem exec_kvPut (key value : String) (nanoLog : RocksNanoLog α κ) :
    Coro.exec (kvPut key value) nanoLog =
      (.ok true, { nanoLog with kvStore := (KVStoreLite.put nanoLog.kvStore key value).1 }) := by
  unfold kvPut
  rw [exec_onStore, LawfulKVStoreLite.put_ok]

variable [FlushingKVStoreLite κ String]

omit [LawfulKVStoreLite κ String] in
theorem exec_kvFlushWal (nanoLog : RocksNanoLog α κ) :
    Coro.exec kvFlushWal nanoLog =
      (.ok true, { nanoLog with kvStore := (KVStoreLite.flushWal nanoLog.kvStore).1 }) := by
  unfold kvFlushWal
  rw [exec_onStore, FlushingKVStoreLite.flushWal_ok]

theorem exec_setEndIndex (nanoLog : RocksNanoLog α κ)
    (h : Holds nanoLog.kvStore nanoLog.versionId logs endIndex isSealed)
    (endIndex' : Int) :
    ∃ kvStore, Coro.exec (setEndIndex endIndex') nanoLog =
        (.ok true, { nanoLog with endIndex := endIndex', endIndexDirty := false, kvStore }) ∧
      Holds kvStore nanoLog.versionId logs endIndex' isSealed := by
  refine ⟨_, ?_, (h.putEndIndex endIndex').flushWal⟩
  unfold setEndIndex
  rw [Coro.exec_bind_ok (Coro.exec_getThe _)]
  have hmodify : Coro.exec (modify fun nanoLog => { nanoLog with endIndexDirty := true } :
      RocksM α κ PUnit) nanoLog = (.ok (), { nanoLog with endIndexDirty := true }) := rfl
  rw [Coro.exec_bind_ok hmodify]
  rw [Coro.exec_bind_ok (exec_kvPut ..), Coro.exec_bind_ok (exec_kvFlushWal _)]
  rfl

theorem exec_seal (h : Holds nanoLog.kvStore nanoLog.versionId logs endIndex isSealed) :
    ∃ kvStore, Coro.exec «seal» nanoLog =
        (.ok nanoLog.endIndex, { nanoLog with sealed := true, sealDirty := false, kvStore }) ∧
      Holds kvStore nanoLog.versionId logs endIndex true := by
  refine ⟨_, ?_, h.putSeal.flushWal⟩
  have hset : Coro.exec setSeal nanoLog = (.ok true, { nanoLog with
      sealed := true
      sealDirty := false
      kvStore := (KVStoreLite.flushWal
        (KVStoreLite.put nanoLog.kvStore (sealKey nanoLog.versionId) "TRUE").1).1 }) := by
    have hmodify : Coro.exec (modify fun nanoLog => { nanoLog with sealDirty := true } :
        RocksM α κ PUnit) nanoLog = (.ok (), { nanoLog with sealDirty := true }) := rfl
    unfold setSeal
    rw [Coro.exec_bind_ok (Coro.exec_getThe _), Coro.exec_bind_ok hmodify,
      Coro.exec_bind_ok (exec_kvPut ..),
      Coro.exec_bind_ok (exec_kvFlushWal _)]
    rfl
  unfold RocksNanoLog.seal
  rw [Coro.exec_bind_ok hset]
  rfl

section append

variable {globalCommitIndex : Option Int} {logId : Int} {payload : String} {skipSeal : Bool}
  {promise : α}

omit [LawfulKVStoreLite κ String] [FlushingKVStoreLite κ String] in
theorem exec_append_sealed (h : Holds nanoLog.kvStore nanoLog.versionId logs endIndex isSealed)
    (hcache : nanoLog.sealDirty = false → nanoLog.sealed = isSealed)
    (hrefused : (!skipSeal && isSealed) = true) :
    Coro.exec (append globalCommitIndex logId payload skipSeal promise) nanoLog =
      (.error (.nanoLog (.nanoLogSealed nanoLog.versionId)),
        { nanoLog with sealed := isSealed, sealDirty := false }) := by
  unfold append
  rw [Coro.exec_bind_ok (exec_isSealed h hcache), Coro.exec_bind_ok (Coro.exec_getThe _)]
  simp only [hrefused, if_true]
  rfl

omit [LawfulKVStoreLite κ String] [FlushingKVStoreLite κ String] in
theorem exec_append_occupied (h : Holds nanoLog.kvStore nanoLog.versionId logs endIndex isSealed)
    (hcache : nanoLog.sealDirty = false → nanoLog.sealed = isSealed)
    (hadmitted : (!skipSeal && isSealed) = false) {old : String} (hold : logs logId = some old) :
    Coro.exec (append globalCommitIndex logId payload skipSeal promise) nanoLog =
      (.error (.nanoLog .nanoLogLogPositionAlreadyOccupied),
        { nanoLog with sealed := isSealed, sealDirty := false }) := by
  have hput : Coro.exec (kvPutIfNotExists (logKey nanoLog.versionId logId) payload)
      { nanoLog with sealed := isSealed, sealDirty := false } =
      (.ok false, { nanoLog with sealed := isSealed, sealDirty := false }) := by
    unfold kvPutIfNotExists
    rw [exec_onStore]
    unfold KVStoreLite.putIfNotExists
    rw [h.logs, hold]
  unfold append
  rw [Coro.exec_bind_ok (exec_isSealed h hcache), Coro.exec_bind_ok (Coro.exec_getThe _)]
  simp only [hadmitted, Bool.false_eq_true, if_false]
  rw [Coro.exec_bind_ok hput]
  rfl

omit [FlushingKVStoreLite κ String] in
/-- The entry is stored. -/
theorem exec_append_stores (nanoLog : RocksNanoLog α κ)
    (h : Holds nanoLog.kvStore nanoLog.versionId logs endIndex isSealed)
    (hvacant : logs logId = none) (payload : String) :
    Coro.exec (kvPutIfNotExists (logKey nanoLog.versionId logId) payload) nanoLog =
      (.ok true, { nanoLog with kvStore := (KVStoreLite.put nanoLog.kvStore
        (logKey nanoLog.versionId logId) payload).1 }) := by
  unfold kvPutIfNotExists
  rw [exec_onStore]
  unfold KVStoreLite.putIfNotExists
  rw [h.logs, hvacant]
  dsimp only
  rw [LawfulKVStoreLite.put_ok]

/-- **An append with a commit index**: the end index becomes the one behind it, wherever the queue
has got to. -/
theorem exec_append_commit (payload : String) (promise : α)
    (h : Holds nanoLog.kvStore nanoLog.versionId logs endIndex isSealed)
    (hcache : nanoLog.sealDirty = false → nanoLog.sealed = isSealed)
    (hadmitted : (!skipSeal && isSealed) = false) (hvacant : logs logId = none) (index : Int) :
    ∃ kvStore, Coro.exec (append (some index) logId payload skipSeal promise) nanoLog =
        (.ok (InMemoryNanoLog.park nanoLog.completionQueue (some index) logId promise).2, { nanoLog with
          sealed := isSealed
          sealDirty := false
          endIndex := index + 1
          endIndexDirty := false
          completionQueue :=
            (InMemoryNanoLog.park nanoLog.completionQueue (some index) logId promise).1
          kvStore }) ∧
      Holds kvStore nanoLog.versionId (fun l => if l = logId then some payload else logs l) (index + 1)
        isSealed := by
  have hstored : Holds (KVStoreLite.put nanoLog.kvStore (logKey nanoLog.versionId logId) payload).1
      nanoLog.versionId (fun l => if l = logId then some payload else logs l) endIndex isSealed :=
    h.putLog logId payload
  obtain ⟨kvStore, hexec, hholds⟩ := exec_setEndIndex { nanoLog with
    sealed := isSealed
    sealDirty := false
    completionQueue := (InMemoryNanoLog.park nanoLog.completionQueue (some index) logId promise).1
    kvStore := (KVStoreLite.put nanoLog.kvStore (logKey nanoLog.versionId logId) payload).1 }
    hstored (index + 1)
  refine ⟨kvStore, ?_, hholds⟩
  have hstore : Coro.exec (kvPutIfNotExists (logKey nanoLog.versionId logId) payload)
      { nanoLog with sealed := isSealed, sealDirty := false } = _ :=
    exec_append_stores { nanoLog with sealed := isSealed, sealDirty := false } h hvacant payload
  unfold append
  rw [Coro.exec_bind_ok (exec_isSealed h hcache), Coro.exec_bind_ok (Coro.exec_getThe _)]
  simp only [hadmitted, Bool.false_eq_true, if_false]
  rw [Coro.exec_bind_ok hstore]
  simp only [Bool.not_true, Bool.false_eq_true, if_false]
  rw [Coro.exec_bind_ok (exec_complete ..), Coro.exec_bind_ok (exec_complete ..)]
  exact Coro.exec_bind_ok hexec

/-- **An append without a commit index** completes what it makes eligible, and the end index follows
the queue. -/
theorem exec_append_none (payload : String) (promise : α)
    (h : Holds nanoLog.kvStore nanoLog.versionId logs endIndex isSealed)
    (hcache : nanoLog.sealDirty = false → nanoLog.sealed = isSealed)
    (hadmitted : (!skipSeal && isSealed) = false) (hvacant : logs logId = none) :
    ∃ endIndex' endIndexDirty kvStore stored,
      Coro.exec (append none logId payload skipSeal promise) nanoLog =
        (.ok (nanoLog.completionQueue.add logId promise).2, { nanoLog with
          sealed := isSealed
          sealDirty := false
          endIndex := endIndex'
          endIndexDirty
          completionQueue := (nanoLog.completionQueue.add logId promise).1
          kvStore }) ∧
      Holds kvStore nanoLog.versionId (fun l => if l = logId then some payload else logs l) stored
        isSealed ∧
      (((nanoLog.completionQueue.add logId promise).1.currentIndex =
            nanoLog.completionQueue.currentIndex ∧
          endIndex' = nanoLog.endIndex ∧ endIndexDirty = nanoLog.endIndexDirty ∧ stored = endIndex) ∨
        (nanoLog.completionQueue.currentIndex <
            (nanoLog.completionQueue.add logId promise).1.currentIndex ∧
          endIndex' = (nanoLog.completionQueue.add logId promise).1.currentIndex ∧
          endIndexDirty = false ∧
          stored = (nanoLog.completionQueue.add logId promise).1.currentIndex)) := by
  have hstored : Holds (KVStoreLite.put nanoLog.kvStore (logKey nanoLog.versionId logId) payload).1
      nanoLog.versionId (fun l => if l = logId then some payload else logs l) endIndex isSealed :=
    h.putLog logId payload
  have hstore : Coro.exec (kvPutIfNotExists (logKey nanoLog.versionId logId) payload)
      { nanoLog with sealed := isSealed, sealDirty := false } = _ :=
    exec_append_stores { nanoLog with sealed := isSealed, sealDirty := false } h hvacant payload
  -- `q` is the queue with the new promise in it
  obtain ⟨q, hq⟩ : ∃ q, nanoLog.completionQueue.addIncomplete logId promise = q := ⟨_, rfl⟩
  have hexec : Coro.exec (append none logId payload skipSeal promise) nanoLog =
      Coro.exec (if q.getRangeEligibleForCompletion.1 < q.getRangeEligibleForCompletion.2 then do
          let _ ← setEndIndex q.getRangeEligibleForCompletion.2
          complete fun queue => queue.completeAllBelow (q.getRangeEligibleForCompletion.2 - 1)
        else
          return []) { nanoLog with
        sealed := isSealed
        sealDirty := false
        completionQueue := q
        kvStore := (KVStoreLite.put nanoLog.kvStore (logKey nanoLog.versionId logId) payload).1 } := by
    unfold append
    rw [Coro.exec_bind_ok (exec_isSealed h hcache), Coro.exec_bind_ok (Coro.exec_getThe _)]
    simp only [hadmitted, Bool.false_eq_true, if_false]
    rw [Coro.exec_bind_ok hstore]
    simp only [Bool.not_true, Bool.false_eq_true, if_false]
    rw [Coro.exec_bind_ok (exec_complete ..), Coro.exec_bind_ok (Coro.exec_getThe _), ← hq]
  have hadd : nanoLog.completionQueue.add logId promise = q.checkAndCompleteAfterCurrentIndex := by
    rw [← hq]
    rfl
  have hcurrent : nanoLog.completionQueue.currentIndex = q.currentIndex := by
    rw [← hq]
    rfl
  rw [hexec, hadd, hcurrent]
  by_cases hrange : q.getRangeEligibleForCompletion.1 < q.getRangeEligibleForCompletion.2
  · obtain ⟨kvStore, hset, hholds⟩ := exec_setEndIndex { nanoLog with
      sealed := isSealed
      sealDirty := false
      completionQueue := q
      kvStore := (KVStoreLite.put nanoLog.kvStore (logKey nanoLog.versionId logId) payload).1 }
      hstored q.getRangeEligibleForCompletion.2
    refine ⟨_, _, kvStore, _, ?_, hholds, .inr ⟨hrange, rfl, rfl, rfl⟩⟩
    rw [if_pos hrange, Coro.exec_bind_ok hset, exec_complete]
    dsimp only
    rw [q.completeAllBelow_range hrange]
    rfl
  · have hcheck := OrderedCompletionQueue.check_of_range_empty hrange
    refine ⟨_, _, _, _, ?_, hstored, .inl ⟨?_, rfl, rfl, rfl⟩⟩
    · rw [if_neg hrange, hcheck]
      rfl
    · rw [hcheck]

/-- **What an append can do.** It is turned away, and has read the seal; or it is stored and parked,
and the end index goes behind the commit index, stays, or follows the queue. -/
theorem exec_append_cases (globalCommitIndex : Option Int) (logId : Int) (payload : String)
    (skipSeal : Bool) (promise : α)
    (h : Holds nanoLog.kvStore nanoLog.versionId logs endIndex isSealed)
    (hcache : nanoLog.sealDirty = false → nanoLog.sealed = isSealed) :
    (¬ ((!skipSeal && isSealed) = false ∧ logs logId = none) ∧
      ∃ e, Coro.exec (append globalCommitIndex logId payload skipSeal promise) nanoLog =
        (.error e, { nanoLog with sealed := isSealed, sealDirty := false })) ∨
    (((!skipSeal && isSealed) = false ∧ logs logId = none) ∧
      ∃ cached endIndexDirty kvStore stored,
        Coro.exec (append globalCommitIndex logId payload skipSeal promise) nanoLog =
          (.ok (InMemoryNanoLog.park nanoLog.completionQueue globalCommitIndex logId promise).2,
            { nanoLog with
              sealed := isSealed
              sealDirty := false
              endIndex := cached
              endIndexDirty
              completionQueue := (InMemoryNanoLog.park nanoLog.completionQueue globalCommitIndex logId
                promise).1
              kvStore }) ∧
        Holds kvStore nanoLog.versionId (fun l => if l = logId then some payload else logs l) stored
          isSealed ∧
        ((∃ index ∈ globalCommitIndex, cached = index + 1 ∧ endIndexDirty = false ∧
            stored = index + 1) ∨
          (globalCommitIndex = none ∧
            (InMemoryNanoLog.park nanoLog.completionQueue globalCommitIndex logId
              promise).1.currentIndex = nanoLog.completionQueue.currentIndex ∧
            cached = nanoLog.endIndex ∧ endIndexDirty = nanoLog.endIndexDirty ∧ stored = endIndex) ∨
          (globalCommitIndex = none ∧
            nanoLog.completionQueue.currentIndex < (InMemoryNanoLog.park nanoLog.completionQueue
              globalCommitIndex logId promise).1.currentIndex ∧
            cached = (InMemoryNanoLog.park nanoLog.completionQueue globalCommitIndex logId
              promise).1.currentIndex ∧
            endIndexDirty = false ∧ stored = cached))) := by
  cases hadmitted : (!skipSeal && isSealed) with
  | true => exact .inl ⟨(fun hnot => nomatch hnot.1), _, exec_append_sealed h hcache hadmitted⟩
  | false =>
    cases hlookup : logs logId with
    | some old =>
      exact .inl ⟨(fun hnot => nomatch hnot.2), _, exec_append_occupied h hcache hadmitted hlookup⟩
    | none =>
      refine .inr ⟨⟨rfl, rfl⟩, ?_⟩
      cases globalCommitIndex with
      | some index =>
        obtain ⟨kvStore, hexec, hholds⟩ :=
          exec_append_commit payload promise h hcache hadmitted hlookup index
        exact ⟨_, _, kvStore, _, hexec, hholds, .inl ⟨index, rfl, rfl, rfl, rfl⟩⟩
      | none =>
        obtain ⟨cached, endIndexDirty, kvStore, stored, hexec, hholds, hend⟩ :=
          exec_append_none payload promise h hcache hadmitted hlookup
        refine ⟨cached, endIndexDirty, kvStore, stored, hexec, hholds, .inr ?_⟩
        rcases hend with ⟨hstays, hend⟩ | ⟨hmoves, hcached, hdirty, hstored⟩
        · exact .inl ⟨rfl, hstays, hend⟩
        · exact .inr ⟨rfl, hmoves, hcached, hdirty, hstored.trans hcached.symm⟩

end append

end RocksNanoLog

end ReplicatedCounter.Log
