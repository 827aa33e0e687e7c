import ReplicatedCounter.Lib.Transition
import ReplicatedCounter.Log.RocksNanoLog
import ReplicatedCounter.Log.SealCut

/-!
# Appends to one `RocksNanoLog`, side by side

An append stores its entry before it takes the mutex, and flushes the write-ahead log while it has
it. Without a commit index it flushes first and completes what is eligible afterwards: whatever is
parked by then was stored before the flush was issued. **With a commit index it completes first**,
and what it completes may be in no flush at all. `flushed_iff` says that this is the only way.

The pieces of `append` are those between which another append can do something: each call of the
store is one, and so is what happens under the mutex between two of them. Flushing is two, as what
is put between its issue and its return may or may not be in it.

The store is any store. It may refuse to put or to flush.
-/

set_option autoImplicit false

namespace ReplicatedCounter.Log

namespace RocksNanoLog

variable {α κ : Type} [KVStoreLite κ String]

/-! ## The pieces of an append -/

/-- `co_isSealed`, and what `append` does with it. -/
def checkSealed (skipSeal : Bool) : RocksM α κ Unit := do
  let isSealed ← isSealed
  let nanoLog ← getThe (RocksNanoLog α κ)
  if !skipSeal && isSealed then
    throw (.nanoLog (.nanoLogSealed nanoLog.versionId))

/-- The `get` of `putIfNotExists`. -/
def checkVacant (logId : Int) : RocksM α κ Unit := do
  let nanoLog ← getThe (RocksNanoLog α κ)
  if (← kvGet (logKey nanoLog.versionId logId)).isSome then
    throw (.nanoLog .nanoLogLogPositionAlreadyOccupied)

/-- The `put` of `putIfNotExists`. -/
def storeEntry (logId : Int) (logEntryPayload : String) : RocksM α κ Unit := do
  let nanoLog ← getThe (RocksNanoLog α κ)
  if !(← kvPut (logKey nanoLog.versionId logId) logEntryPayload) then
    throw (.nanoLog .nanoLogLogPositionAlreadyOccupied)

/-- Under the mutex, up to `co_setEndIndex`: what is completed, and the end index to be set. -/
def enqueue (globalCommitIndex : Option Int) (logId : Int) (promise : α) :
    RocksM α κ (List (Int × α) × Option Int) := do
  match globalCommitIndex with
  | some index =>
    let completed ← complete fun queue => queue.add logId promise
    let below ← complete fun queue => queue.completeAllBelow index
    return (completed ++ below, some (index + 1))
  | none =>
    let _ ← complete fun queue => (queue.addIncomplete logId promise, [])
    let range := (← getThe (RocksNanoLog α κ)).completionQueue.getRangeEligibleForCompletion
    return ([], if range.1 < range.2 then some range.2 else none)

/-- `co_setEndIndex`, up to the flush. -/
def putEndIndex (endIndex : Int) : RocksM α κ Unit := do
  let nanoLog ← getThe (RocksNanoLog α κ)
  modify fun nanoLog => { nanoLog with endIndexDirty := true }
  let _ ← kvPut (endIndexKey nanoLog.versionId) endIndex.repr

/-- `co_setEndIndex` from the flush on. -/
def flushEndIndex (endIndex : Int) : RocksM α κ Unit := do
  let fsyncResult ← kvFlushWal
  if fsyncResult then
    modify fun nanoLog => { nanoLog with endIndexDirty := false, endIndex }
  else
    throw .unknownWriteError

/-- Under the mutex, after `co_setEndIndex`. -/
def completeEligible (globalCommitIndex : Option Int) (endIndex : Int) : RocksM α κ (List (Int × α)) :=
  match globalCommitIndex with
  | some _ => return []
  | none => complete fun queue => queue.completeAllBelow (endIndex - 1)

/-- The pieces in a row. -/
def appendInPieces (globalCommitIndex : Option Int) (logId : Int) (logEntryPayload : String)
    (skipSeal : Bool) (promise : α) : RocksM α κ (List (Int × α)) := do
  checkSealed skipSeal
  checkVacant logId
  storeEntry logId logEntryPayload
  let (completed, endIndex?) ← enqueue globalCommitIndex logId promise
  match endIndex? with
  | none => return completed
  | some endIndex =>
    putEndIndex endIndex
    flushEndIndex endIndex
    return completed ++ (← completeEligible globalCommitIndex endIndex)

/-- The two calls of `putIfNotExists`. -/
theorem exec_store_pieces {ρ : Type} (logId : Int) (payload : String) (rest : RocksM α κ ρ)
    (nanoLog : RocksNanoLog α κ) :
    Coro.exec (do checkVacant logId; storeEntry logId payload; rest) nanoLog =
      match Coro.exec (kvPutIfNotExists (logKey nanoLog.versionId logId) payload) nanoLog with
      | (.ok true, nanoLog) => Coro.exec rest nanoLog
      | (.ok false, nanoLog) => (.error (.nanoLog .nanoLogLogPositionAlreadyOccupied), nanoLog)
      | (.error e, nanoLog) => (.error e, nanoLog) := by
  unfold checkVacant kvPutIfNotExists
  rw [exec_onStore, Coro.exec_bind, Coro.exec_bind_ok (Coro.exec_getThe _),
    Coro.exec_bind_ok (exec_kvGet ..)]
  unfold KVStoreLite.putIfNotExists
  cases KVStoreLite.get nanoLog.kvStore (logKey nanoLog.versionId logId) with
  | some old => rfl
  | none =>
    have hput : Coro.exec (kvPut (logKey nanoLog.versionId logId) payload) nanoLog =
        (.ok (KVStoreLite.put nanoLog.kvStore (logKey nanoLog.versionId logId) payload).2,
          { nanoLog with kvStore := (KVStoreLite.put nanoLog.kvStore
            (logKey nanoLog.versionId logId) payload).1 }) := rfl
    simp only [Option.isSome_none, Bool.false_eq_true, if_false]
    rw [Coro.exec_pure]
    dsimp only
    unfold storeEntry
    rw [Coro.exec_bind, Coro.exec_bind_ok (Coro.exec_getThe _), Coro.exec_bind_ok hput]
    cases (KVStoreLite.put nanoLog.kvStore (logKey nanoLog.versionId logId) payload).2 with
    | true => rfl
    | false => rfl

/-- The two calls of `co_setEndIndex`. -/
theorem exec_setEndIndex_pieces {ρ : Type} (endIndex : Int) (rest : RocksM α κ ρ)
    (nanoLog : RocksNanoLog α κ) :
    Coro.exec (do putEndIndex endIndex; flushEndIndex endIndex; rest) nanoLog =
      Coro.exec (do let _ ← setEndIndex endIndex; rest) nanoLog := by
  obtain ⟨written, hwritten⟩ : ∃ written, written = { nanoLog with
      endIndexDirty := true
      kvStore := (KVStoreLite.put nanoLog.kvStore (endIndexKey nanoLog.versionId)
        endIndex.repr).1 } := ⟨_, rfl⟩
  have hput : Coro.exec (putEndIndex endIndex) nanoLog = (.ok (), written) := hwritten ▸ rfl
  have hflush : Coro.exec kvFlushWal written = (.ok (KVStoreLite.flushWal written.kvStore).2,
      { written with kvStore := (KVStoreLite.flushWal written.kvStore).1 }) := rfl
  have hset : Coro.exec (setEndIndex endIndex) nanoLog =
      Coro.exec (do flushEndIndex endIndex; return true) written := by
    unfold setEndIndex flushEndIndex
    have hmodify : Coro.exec (modify fun nanoLog => { nanoLog with endIndexDirty := true } :
        RocksM α κ PUnit) nanoLog = (.ok (), { nanoLog with endIndexDirty := true }) := rfl
    have hkvPut : Coro.exec (kvPut (endIndexKey nanoLog.versionId) endIndex.repr)
        { nanoLog with endIndexDirty := true } =
        (.ok (KVStoreLite.put nanoLog.kvStore (endIndexKey nanoLog.versionId) endIndex.repr).2,
          written) := by
      rw [hwritten]
      rfl
    rw [Coro.exec_bind_ok (Coro.exec_getThe _), Coro.exec_bind_ok hmodify, Coro.exec_bind_ok hkvPut,
      Coro.exec_bind_ok hflush, Coro.exec_bind, Coro.exec_bind_ok hflush]
    cases (KVStoreLite.flushWal written.kvStore).2 with
    | true => rfl
    | false => rfl
  rw [Coro.exec_bind_ok hput, Coro.exec_bind, Coro.exec_bind, hset, Coro.exec_bind]
  rcases Coro.exec (flushEndIndex endIndex) written with ⟨_ | _, flushed⟩
  · rfl
  · rfl

/-- **The pieces make up `append`.** -/
theorem exec_appendInPieces (globalCommitIndex : Option Int) (logId : Int) (payload : String)
    (skipSeal : Bool) (promise : α) (nanoLog : RocksNanoLog α κ) :
    Coro.exec (appendInPieces globalCommitIndex logId payload skipSeal promise) nanoLog =
      Coro.exec (append globalCommitIndex logId payload skipSeal promise) nanoLog := by
  unfold appendInPieces append checkSealed
  rw [Coro.exec_bind, Coro.exec_bind, Coro.exec_bind]
  rcases Coro.exec isSealed nanoLog with ⟨_ | isSealed, opened⟩
  · rfl
  dsimp only
  rw [Coro.exec_bind_ok (Coro.exec_getThe _), Coro.exec_bind_ok (Coro.exec_getThe _)]
  cases hrefused : (!skipSeal && isSealed) with
  | true => rfl
  | false =>
    simp only [Bool.false_eq_true, if_false]
    rw [Coro.exec_pure]
    dsimp only
    rw [exec_store_pieces, Coro.exec_bind]
    rcases Coro.exec (kvPutIfNotExists (logKey opened.versionId logId) payload) opened with
      ⟨_ | _ | _, stored⟩
    · rfl
    · rfl
    · dsimp only
      simp only [Bool.not_true, Bool.false_eq_true, if_false]
      cases globalCommitIndex with
      | some index =>
        dsimp only
        have henqueue : Coro.exec (enqueue (some index) logId promise) stored = (.ok
            ((stored.completionQueue.add logId promise).2 ++
              ((stored.completionQueue.add logId promise).1.completeAllBelow index).2,
              some (index + 1)), { stored with completionQueue :=
            ((stored.completionQueue.add logId promise).1.completeAllBelow index).1 }) := rfl
        rw [Coro.exec_bind_ok henqueue, Coro.exec_bind_ok (exec_complete ..),
          Coro.exec_bind_ok (exec_complete ..)]
        dsimp only
        rw [exec_setEndIndex_pieces, Coro.exec_bind, Coro.exec_bind]
        rcases Coro.exec (setEndIndex (index + 1)) { stored with completionQueue :=
          ((stored.completionQueue.add logId promise).1.completeAllBelow index).1 } with
          ⟨_ | _, flushed⟩
        · rfl
        · unfold completeEligible
          dsimp only
          rw [Coro.exec_bind_ok (Coro.exec_pure ..), List.append_nil]
      | none =>
        dsimp only
        obtain ⟨queued, hqueued⟩ : ∃ queued, queued = { stored with
            completionQueue := stored.completionQueue.addIncomplete logId promise } := ⟨_, rfl⟩
        have hadd : Coro.exec (complete fun queue => (queue.addIncomplete logId promise, [])) stored =
            (.ok [], queued) := hqueued ▸ rfl
        have henqueue : Coro.exec (enqueue none logId promise) stored = (.ok ([],
            if queued.completionQueue.getRangeEligibleForCompletion.1 <
                queued.completionQueue.getRangeEligibleForCompletion.2 then
              some queued.completionQueue.getRangeEligibleForCompletion.2 else none), queued) := by
          rw [hqueued]
          rfl
        rw [Coro.exec_bind_ok henqueue, Coro.exec_bind_ok hadd, Coro.exec_bind_ok (Coro.exec_getThe _)]
        dsimp only
        by_cases hrange : queued.completionQueue.getRangeEligibleForCompletion.1 <
            queued.completionQueue.getRangeEligibleForCompletion.2
        · simp only [if_pos hrange]
          rw [exec_setEndIndex_pieces]
          rfl
        · simp only [if_neg hrange]

/-! ### What the pieces do to the queue -/

/-- A piece that leaves the queue alone. -/
def LeavesQueue {ρ : Type} (piece : RocksM α κ ρ) : Prop :=
  ∀ queue, Coro.Keeps (fun nanoLog => nanoLog.completionQueue = queue) piece

omit [KVStoreLite κ String] in
theorem LeavesQueue.queue_eq {ρ : Type} {piece : RocksM α κ ρ} (h : LeavesQueue piece)
    (nanoLog : RocksNanoLog α κ) :
    (Coro.exec piece nanoLog).2.completionQueue = nanoLog.completionQueue := h _ nanoLog rfl

omit [KVStoreLite κ String] in
theorem leavesQueue_onStore {ρ : Type} (f : κ → κ × ρ) :
    LeavesQueue (onStore f : RocksM α κ ρ) := fun _ _ h => h

theorem leavesQueue_checkSealed (skipSeal : Bool) :
    LeavesQueue (checkSealed skipSeal : RocksM α κ Unit) := by
  intro queue
  unfold checkSealed
  refine (keeps_isSealed fun _ _ _ h => h).bind fun isSealed => Coro.Keeps.getThe_bind fun _ _ => ?_
  split
  · exact Coro.keeps_throw _
  · exact Coro.keeps_pure _

theorem leavesQueue_checkVacant (logId : Int) :
    LeavesQueue (checkVacant logId : RocksM α κ Unit) := by
  intro queue
  unfold checkVacant kvGet
  refine Coro.Keeps.getThe_bind fun _ _ => (leavesQueue_onStore _ queue).bind fun old => ?_
  split
  · exact Coro.keeps_throw _
  · exact Coro.keeps_pure _

theorem leavesQueue_storeEntry (logId : Int) (payload : String) :
    LeavesQueue (storeEntry logId payload : RocksM α κ Unit) := by
  intro queue
  unfold storeEntry kvPut
  refine Coro.Keeps.getThe_bind fun _ _ => (leavesQueue_onStore _ queue).bind fun stored => ?_
  split
  · exact Coro.keeps_throw _
  · exact Coro.keeps_pure _

theorem leavesQueue_putEndIndex (endIndex : Int) :
    LeavesQueue (putEndIndex endIndex : RocksM α κ Unit) := by
  intro queue
  unfold putEndIndex kvPut
  refine Coro.Keeps.getThe_bind fun _ _ => Coro.Keeps.bind (Coro.keeps_modify fun _ h => h) fun _ => ?_
  exact (leavesQueue_onStore _ queue).bind fun _ => Coro.keeps_pure _

theorem leavesQueue_flushEndIndex (endIndex : Int) :
    LeavesQueue (flushEndIndex endIndex : RocksM α κ Unit) := by
  intro queue
  unfold flushEndIndex kvFlushWal
  refine (leavesQueue_onStore _ queue).bind fun fsyncResult => ?_
  split
  · exact Coro.keeps_modify fun _ h => h
  · exact Coro.keeps_throw _

omit [KVStoreLite κ String] in
/-- **Under the mutex**, with a commit index. -/
theorem exec_enqueue_some (index logId : Int) (promise : α) (nanoLog : RocksNanoLog α κ) :
    Coro.exec (enqueue (some index) logId promise) nanoLog =
      (.ok ((InMemoryNanoLog.park nanoLog.completionQueue (some index) logId promise).2,
        some (index + 1)), { nanoLog with completionQueue :=
          (InMemoryNanoLog.park nanoLog.completionQueue (some index) logId promise).1 }) := rfl

omit [KVStoreLite κ String] in
/-- Without one nothing is completed yet. -/
theorem exec_enqueue_none (logId : Int) (promise : α) (nanoLog : RocksNanoLog α κ) :
    ∃ endIndex?, Coro.exec (enqueue none logId promise) nanoLog = (.ok ([], endIndex?),
      { nanoLog with completionQueue := nanoLog.completionQueue.addIncomplete logId promise }) :=
  ⟨_, rfl⟩

end RocksNanoLog

/-! ## Appends in any order -/

/-- Where an append is. From `setting` to `flushed` it has the mutex. -/
inductive AppendPhase where
  | called
  | unsealed
  | vacant
  | stored
  | setting (endIndex : Int)
  | written (endIndex : Int)
  | flushing (endIndex : Int)
  | flushed (endIndex : Int)
  /-- It waits for its promise. -/
  | waiting
  | thrown
  deriving DecidableEq, Repr

/-- The append has the mutex. -/
def AppendPhase.locked : AppendPhase → Bool
  | .setting _ | .written _ | .flushing _ | .flushed _ => true
  | _ => false

/-- A nanolog under concurrent appends, which are numbered. -/
structure FlushRun (κ : Type) where
  nanoLog : RocksNanoLog Nat κ
  appends : Nat → Option (AppendRequest × AppendPhase) := fun _ => none
  /-- Who has `mtx_`. -/
  holder : Option Nat := none
  /-- The appends whose `putIfNotExists` has succeeded. -/
  stored : List Nat := []
  /-- Those that had succeeded when the flush under way was issued. -/
  issued : List Nat := []
  /-- The appends with a flush behind their `putIfNotExists` that has succeeded. -/
  flushed : List Nat := []
  /-- Whose promises were completed, and whether they were in `flushed` then. -/
  completed : List (Nat × Bool) := []

inductive FlushEvent where
  | append (id : Nat) (request : AppendRequest)
  | advance (id : Nat)
  deriving DecidableEq, Repr

namespace FlushRun

variable {κ : Type} [KVStoreLite κ String]

/-- The append goes to another phase. -/
def moved (s : FlushRun κ) (id : Nat) (request : AppendRequest) (nanoLog : RocksNanoLog Nat κ)
    (phase : AppendPhase) : FlushRun κ :=
  { s with nanoLog, appends := Function.update s.appends id (some (request, phase)) }

/-- Promises are completed. -/
def complete (s : FlushRun κ) (done : List (Int × Nat)) : FlushRun κ :=
  { s with completed := s.completed ++ done.map fun e => (e.2, decide (e.2 ∈ s.flushed)) }

/-- The next piece of an append, outside the mutex. -/
def outside (s : FlushRun κ) (id : Nat) (request : AppendRequest)
    (piece : RocksNanoLog.RocksM Nat κ Unit) (next : AppendPhase) : FlushRun κ :=
  match Coro.exec piece s.nanoLog with
  | (.ok (), nanoLog) => s.moved id request nanoLog next
  | (.error _, nanoLog) => s.moved id request nanoLog .thrown

/-- The next piece of an append. -/
def advance (s : FlushRun κ) (id : Nat) (request : AppendRequest) :
    AppendPhase → Option (FlushRun κ)
  | .called => some (s.outside id request (RocksNanoLog.checkSealed request.skipSeal) .unsealed)
  | .unsealed => some (s.outside id request (RocksNanoLog.checkVacant request.logId) .vacant)
  | .vacant =>
    match Coro.exec (RocksNanoLog.storeEntry request.logId request.logEntryPayload) s.nanoLog with
    | (.ok (), nanoLog) =>
      some { s.moved id request nanoLog .stored with stored := s.stored ++ [id] }
    | (.error _, nanoLog) => some (s.moved id request nanoLog .thrown)
  | .stored =>
    if s.holder = none then
      match Coro.exec (RocksNanoLog.enqueue request.globalCommitIndex request.logId id) s.nanoLog with
      | (.ok (done, some endIndex), nanoLog) =>
        some { (s.moved id request nanoLog (.setting endIndex)).complete done with holder := some id }
      | (.ok (done, none), nanoLog) => some ((s.moved id request nanoLog .waiting).complete done)
      | (.error _, nanoLog) => some (s.moved id request nanoLog .thrown)
    else
      none
  | .setting endIndex =>
    match Coro.exec (RocksNanoLog.putEndIndex endIndex) s.nanoLog with
    | (.ok (), nanoLog) => some (s.moved id request nanoLog (.written endIndex))
    | (.error _, nanoLog) => some { s.moved id request nanoLog .thrown with holder := none }
  | .written endIndex =>
    some { s.moved id request s.nanoLog (.flushing endIndex) with issued := s.stored }
  | .flushing endIndex =>
    match Coro.exec (RocksNanoLog.flushEndIndex endIndex) s.nanoLog with
    | (.ok (), nanoLog) =>
      some { s.moved id request nanoLog (.flushed endIndex) with flushed := s.flushed ++ s.issued }
    | (.error _, nanoLog) => some { s.moved id request nanoLog .thrown with holder := none }
  | .flushed endIndex =>
    match Coro.exec (RocksNanoLog.completeEligible request.globalCommitIndex endIndex) s.nanoLog with
    | (.ok done, nanoLog) =>
      some { (s.moved id request nanoLog .waiting).complete done with holder := none }
    | (.error _, nanoLog) => some { s.moved id request nanoLog .thrown with holder := none }
  | .waiting => none
  | .thrown => none

/-- One append is called, or goes on. -/
def step (s : FlushRun κ) : FlushEvent → Option (FlushRun κ)
  | .append id request =>
    match s.appends id with
    | none => some (s.moved id request s.nanoLog .called)
    | some _ => none
  | .advance id => (s.appends id).bind fun (request, phase) => s.advance id request phase

/-- An append with a commit index that takes the mutex reaches nothing in the queue that is not
flushed, itself included. -/
def OnlyFlushed (s : FlushRun κ) : FlushEvent → Prop
  | .append _ _ => True
  | .advance id => ∀ r ∈ s.appends id, r.2 = .stored → s.holder = none →
      ∀ index ∈ r.1.globalCommitIndex,
        ∀ e ∈ (s.nanoLog.completionQueue.promises.insert r.1.logId id).entries,
          InMemoryNanoLog.Reaches s.nanoLog.completionQueue (some index) r.1.logId e.1 →
            e.2 ∈ s.flushed

instance (s : FlushRun κ) : ∀ event, Decidable (s.OnlyFlushed event)
  | .append _ _ => isTrue trivial
  | .advance id => inferInstanceAs (Decidable (∀ r ∈ s.appends id, _ → _ → ∀ _ ∈ r.1.globalCommitIndex,
      ∀ _ ∈ (_ : List _), _ → _))

/-! ### What holds in every interleaving -/

/-- What is parked was stored, and as long as an append flushes, nothing else is parked. -/
structure Sound (s : FlushRun κ) : Prop where
  parked : ∀ e ∈ s.nanoLog.completionQueue.promises.entries, e.2 ∈ s.stored
  stored : ∀ id r, s.appends id = some (r, .stored) → id ∈ s.stored
  holder : ∀ id r, s.appends id = some r → r.2.locked = true → s.holder = some id
  issued : ∀ id r endIndex, s.appends id = some (r, .flushing endIndex) →
    ∀ e ∈ s.nanoLog.completionQueue.promises.entries, e.2 ∈ s.issued
  flushed : ∀ id r endIndex, s.appends id = some (r, .flushed endIndex) →
    ∀ e ∈ s.nanoLog.completionQueue.promises.entries, e.2 ∈ s.flushed

section Sound

omit [KVStoreLite κ String]

variable {s t : FlushRun κ} {id : Nat} {request : AppendRequest} {phase : AppendPhase}

theorem sound_make (nanoLog : RocksNanoLog Nat κ)
    (hempty : nanoLog.completionQueue.promises.entries = []) : Sound ({ nanoLog } : FlushRun κ) where
  parked e he := by
    rw [hempty] at he
    cases he
  stored _ _ h := nomatch h
  holder _ _ h := nomatch h
  issued _ _ _ h := nomatch h
  flushed _ _ _ h := nomatch h

/-- Only one append has the mutex. -/
theorem Sound.others_unlocked (h : s.Sound) (hholder : s.holder = none ∨ s.holder = some id) :
    ∀ other r, other ≠ id → s.appends other = some r → r.2.locked = false := by
  intro other r hne hother
  by_contra hlocked
  have hhas := h.holder other r hother (by simpa using hlocked)
  rcases hholder with hnone | hself
  · rw [hnone] at hhas
    cases hhas
  · rw [hself] at hhas
    exact hne (Option.some.inj hhas).symm

/-- **One append goes on.** It changes nothing that an append with the mutex relies on, or no other
append has the mutex. -/
theorem Sound.moved (h : s.Sound)
    (happends : t.appends = Function.update s.appends id (some (request, phase)))
    (hparked : ∀ e ∈ t.nanoLog.completionQueue.promises.entries, e.2 ∈ t.stored)
    (hmono : ∀ i ∈ s.stored, i ∈ t.stored) (hown : phase = .stored → id ∈ t.stored)
    (hholder : phase.locked = true → t.holder = some id)
    (hissued : ∀ endIndex, phase = .flushing endIndex →
      ∀ e ∈ t.nanoLog.completionQueue.promises.entries, e.2 ∈ t.issued)
    (hflushed : ∀ endIndex, phase = .flushed endIndex →
      ∀ e ∈ t.nanoLog.completionQueue.promises.entries, e.2 ∈ t.flushed)
    (hothers : (t.nanoLog.completionQueue = s.nanoLog.completionQueue ∧ t.holder = s.holder ∧
        t.issued = s.issued ∧ t.flushed = s.flushed) ∨
      ∀ other r, other ≠ id → s.appends other = some r → r.2.locked = false) : t.Sound := by
  have hself : t.appends id = some (request, phase) := by rw [happends, Function.update_self]
  have hother : ∀ other, other ≠ id → t.appends other = s.appends other := by
    intro other hne
    rw [happends, Function.update_of_ne hne]
  refine ⟨hparked, fun i r hi => ?_, fun i r hi hlocked => ?_, fun i r endIndex hi => ?_,
    fun i r endIndex hi => ?_⟩
  · by_cases hne : i = id
    · subst hne
      rw [hself] at hi
      exact hown (Prod.mk.inj (Option.some.inj hi)).2
    · exact hmono i (h.stored i r ((hother i hne).symm.trans hi))
  · by_cases hne : i = id
    · subst hne
      rw [hself] at hi
      obtain rfl := Option.some.inj hi
      exact hholder hlocked
    · rw [hother i hne] at hi
      rcases hothers with ⟨-, hsame, -, -⟩ | hunlocked
      · rw [hsame]
        exact h.holder i r hi hlocked
      · rw [hunlocked i r hne hi] at hlocked
        cases hlocked
  · by_cases hne : i = id
    · subst hne
      rw [hself] at hi
      exact hissued endIndex (Prod.mk.inj (Option.some.inj hi)).2
    · rw [hother i hne] at hi
      rcases hothers with ⟨hqueue, -, hsame, -⟩ | hunlocked
      · rw [hqueue, hsame]
        exact h.issued i r endIndex hi
      · exact nomatch hunlocked i _ hne hi
  · by_cases hne : i = id
    · subst hne
      rw [hself] at hi
      exact hflushed endIndex (Prod.mk.inj (Option.some.inj hi)).2
    · rw [hother i hne] at hi
      rcases hothers with ⟨hqueue, -, -, hsame⟩ | hunlocked
      · rw [hqueue, hsame]
        exact h.flushed i r endIndex hi
      · exact nomatch hunlocked i _ hne hi

/-- Completing promises says which of them are flushed. -/
theorem mem_complete (s : FlushRun κ) (done : List (Int × Nat)) :
    (∀ c ∈ done.map fun e => (e.2, decide (e.2 ∈ s.flushed)), c.2 = true) ↔
      ∀ e ∈ done, e.2 ∈ s.flushed := by
  constructor
  · intro h e he
    exact of_decide_eq_true (h _ (List.mem_map.mpr ⟨e, he, rfl⟩))
  · intro h c hc
    obtain ⟨e, he, rfl⟩ := List.mem_map.mp hc
    exact decide_eq_true (h e he)

end Sound

/-- What an append completes in a step is flushed, or not, as `ok` says. -/
def Completes (s t : FlushRun κ) (ok : Prop) : Prop :=
  ∃ new, t.completed = s.completed ++ new ∧ ((∀ c ∈ new, c.2 = true) ↔ ok)

variable {s t : FlushRun κ} {id : Nat} {request : AppendRequest} {phase : AppendPhase} {ok : Prop}

omit [KVStoreLite κ String] in
theorem Completes.nothing (h : t.completed = s.completed) (hok : ok) : s.Completes t ok :=
  ⟨[], by rw [h, List.append_nil], by simp [hok]⟩

omit [KVStoreLite κ String] in
/-- A piece outside the mutex. -/
theorem Sound.outside (h : s.Sound) {piece : RocksNanoLog.RocksM Nat κ Unit}
    (hpiece : RocksNanoLog.LeavesQueue piece) {next : AppendPhase}
    (hnext : next = .unsealed ∨ next = .vacant) (hok : ok) :
    (s.outside id request piece next).Sound ∧ s.Completes (s.outside id request piece next) ok := by
  have hqueue := hpiece.queue_eq s.nanoLog
  unfold FlushRun.outside
  rcases hexec : Coro.exec piece s.nanoLog with ⟨_ | _, nanoLog⟩
  · rw [hexec] at hqueue
    refine ⟨h.moved rfl ?_ (fun _ hi => hi) ?_ ?_ ?_ ?_ (.inl ⟨hqueue, rfl, rfl, rfl⟩),
      .nothing rfl hok⟩
    · exact fun e he => h.parked e (hqueue ▸ he)
    all_goals simp [AppendPhase.locked]
  · rw [hexec] at hqueue
    refine ⟨h.moved rfl ?_ (fun _ hi => hi) ?_ ?_ ?_ ?_ (.inl ⟨hqueue, rfl, rfl, rfl⟩),
      .nothing rfl hok⟩
    · exact fun e he => h.parked e (hqueue ▸ he)
    all_goals rcases hnext with rfl | rfl <;> simp [AppendPhase.locked]

omit [KVStoreLite κ String] in
/-- An append that throws while it has the mutex. -/
theorem Sound.thrown (h : s.Sound) (hid : s.appends id = some (request, phase))
    (hlocked : phase.locked = true) {nanoLog : RocksNanoLog Nat κ}
    (hqueue : nanoLog.completionQueue = s.nanoLog.completionQueue) :
    ({ s.moved id request nanoLog .thrown with holder := none } : FlushRun κ).Sound := by
  refine h.moved rfl ?_ (fun _ hi => hi) ?_ ?_ ?_ ?_
    (.inr (h.others_unlocked (.inr (h.holder id _ hid hlocked))))
  · exact fun e he => h.parked e (hqueue ▸ he)
  all_goals simp [AppendPhase.locked]

/-- The entry is stored, and the append comes to the mutex. -/
theorem Sound.storeEntry (h : s.Sound) (hok : ok) (hs : s.advance id request .vacant = some t) :
    t.Sound ∧ s.Completes t ok := by
  have hqueue := (RocksNanoLog.leavesQueue_storeEntry request.logId
    request.logEntryPayload).queue_eq s.nanoLog
  simp only [FlushRun.advance] at hs
  rcases hexec : Coro.exec (RocksNanoLog.storeEntry request.logId request.logEntryPayload)
    s.nanoLog with ⟨_ | _, nanoLog⟩
  · rw [hexec] at hs hqueue
    obtain rfl := Option.some.inj hs
    refine ⟨h.moved rfl ?_ (fun _ hi => hi) ?_ ?_ ?_ ?_ (.inl ⟨hqueue, rfl, rfl, rfl⟩),
      .nothing rfl hok⟩
    · exact fun e he => h.parked e (hqueue ▸ he)
    all_goals simp [AppendPhase.locked]
  · rw [hexec] at hs hqueue
    obtain rfl := Option.some.inj hs
    refine ⟨h.moved rfl ?_ ?_ ?_ ?_ ?_ ?_ (.inl ⟨hqueue, rfl, rfl, rfl⟩), .nothing rfl hok⟩
    · exact fun e he => List.mem_append_left _ (h.parked e (hqueue ▸ he))
    · exact fun i hi => List.mem_append_left _ hi
    · exact fun _ => List.mem_append_right _ (List.mem_singleton.mpr rfl)
    all_goals simp [AppendPhase.locked]

/-- **The append takes the mutex.** Only with a commit index does it complete anything now. -/
theorem Sound.enqueue (h : s.Sound) (hid : s.appends id = some (request, .stored))
    (hs : s.advance id request .stored = some t) :
    t.Sound ∧ s.holder = none ∧ s.Completes t (∀ index ∈ request.globalCommitIndex,
      ∀ e ∈ (s.nanoLog.completionQueue.promises.insert request.logId id).entries,
        InMemoryNanoLog.Reaches s.nanoLog.completionQueue (some index) request.logId e.1 →
          e.2 ∈ s.flushed) := by
  have hown := h.stored id request hid
  have hentries : ∀ e ∈ (s.nanoLog.completionQueue.promises.insert request.logId id).entries,
      e.2 ∈ s.stored := by
    rintro ⟨k, i⟩ he
    rcases SortedMap.mem_insert.mp he with ⟨-, rfl⟩ | ⟨-, he⟩
    · exact hown
    · exact h.parked _ he
  simp only [FlushRun.advance] at hs
  split at hs
  · rename_i hfree
    have hothers : ∀ other r, other ≠ id → s.appends other = some r → r.2.locked = false :=
      h.others_unlocked (.inl hfree)
    cases hcommit : request.globalCommitIndex with
    | some index =>
      rw [hcommit, RocksNanoLog.exec_enqueue_some] at hs
      obtain rfl := Option.some.inj hs
      refine ⟨h.moved rfl ?_ (fun _ hi => hi) ?_ ?_ ?_ ?_ (.inr hothers), hfree, _, rfl, ?_⟩
      · exact fun e he => hentries e ((InMemoryNanoLog.park_completes ..).rest_mem e he)
      · simp
      · exact fun _ => rfl
      · simp
      · simp
      · refine (mem_complete s _).trans ?_
        simp only [InMemoryNanoLog.mem_park_iff, and_imp, Option.mem_some_iff, forall_eq']
    | none =>
      obtain ⟨endIndex?, henqueue⟩ := RocksNanoLog.exec_enqueue_none request.logId id s.nanoLog
      rw [hcommit, henqueue] at hs
      cases endIndex? with
      | some endIndex =>
        obtain rfl := Option.some.inj hs
        refine ⟨h.moved rfl hentries (fun _ hi => hi) ?_ ?_ ?_ ?_ (.inr hothers), hfree,
          .nothing (List.append_nil _) (by simp)⟩
        · simp
        · exact fun _ => rfl
        · simp
        · simp
      | none =>
        obtain rfl := Option.some.inj hs
        refine ⟨h.moved rfl hentries (fun _ hi => hi) ?_ ?_ ?_ ?_ (.inr hothers), hfree,
          .nothing (List.append_nil _) (by simp)⟩
        all_goals simp [AppendPhase.locked]
  · cases hs

/-- The two calls of the store, and the issue of the second. -/
theorem Sound.setEndIndex (h : s.Sound) (hid : s.appends id = some (request, phase)) {endIndex : Int}
    (hphase : phase = .setting endIndex ∨ phase = .written endIndex ∨ phase = .flushing endIndex)
    (hok : ok) (hs : s.advance id request phase = some t) : t.Sound ∧ s.Completes t ok := by
  have hlocked : phase.locked = true := by rcases hphase with rfl | rfl | rfl <;> rfl
  have hholder := h.holder id _ hid hlocked
  have hothers : ∀ other r, other ≠ id → s.appends other = some r → r.2.locked = false :=
    h.others_unlocked (.inr hholder)
  rcases hphase with rfl | rfl | rfl
  · have hqueue := (RocksNanoLog.leavesQueue_putEndIndex endIndex).queue_eq s.nanoLog
    simp only [FlushRun.advance] at hs
    rcases hexec : Coro.exec (RocksNanoLog.putEndIndex endIndex) s.nanoLog with ⟨_ | _, nanoLog⟩
    · rw [hexec] at hs hqueue
      obtain rfl := Option.some.inj hs
      exact ⟨h.thrown hid hlocked hqueue, .nothing rfl hok⟩
    · rw [hexec] at hs hqueue
      obtain rfl := Option.some.inj hs
      refine ⟨h.moved rfl ?_ (fun _ hi => hi) ?_ ?_ ?_ ?_ (.inr hothers), .nothing rfl hok⟩
      · exact fun e he => h.parked e (hqueue ▸ he)
      · simp
      · exact fun _ => hholder
      · simp
      · simp
  · -- what is parked was stored, so it is in the flush that is issued now
    obtain rfl := Option.some.inj hs
    refine ⟨h.moved rfl h.parked (fun _ hi => hi) ?_ ?_ ?_ ?_ (.inr hothers), .nothing rfl hok⟩
    · simp
    · exact fun _ => hholder
    · exact fun _ _ => h.parked
    · simp
  · have hqueue := (RocksNanoLog.leavesQueue_flushEndIndex endIndex).queue_eq s.nanoLog
    simp only [FlushRun.advance] at hs
    rcases hexec : Coro.exec (RocksNanoLog.flushEndIndex endIndex) s.nanoLog with ⟨_ | _, nanoLog⟩
    · rw [hexec] at hs hqueue
      obtain rfl := Option.some.inj hs
      exact ⟨h.thrown hid hlocked hqueue, .nothing rfl hok⟩
    · rw [hexec] at hs hqueue
      obtain rfl := Option.some.inj hs
      refine ⟨h.moved rfl ?_ (fun _ hi => hi) ?_ ?_ ?_ ?_ (.inr hothers), .nothing rfl hok⟩
      · exact fun e he => h.parked e (hqueue ▸ he)
      · simp
      · exact fun _ => hholder
      · simp
      · exact fun _ _ e he => List.mem_append_right _ (h.issued id request endIndex hid e (hqueue ▸ he))

/-- **After the flush** everything that is parked is in it. -/
theorem Sound.completeEligible (h : s.Sound) {endIndex : Int}
    (hid : s.appends id = some (request, .flushed endIndex)) (hok : ok)
    (hs : s.advance id request (.flushed endIndex) = some t) : t.Sound ∧ s.Completes t ok := by
  have hholder := h.holder id _ hid rfl
  have hothers : ∀ other r, other ≠ id → s.appends other = some r → r.2.locked = false :=
    h.others_unlocked (.inr hholder)
  simp only [FlushRun.advance] at hs
  cases hcommit : request.globalCommitIndex with
  | some index =>
    rw [hcommit] at hs
    obtain rfl := Option.some.inj hs
    refine ⟨h.moved rfl h.parked (fun _ hi => hi) ?_ ?_ ?_ ?_ (.inr hothers),
      .nothing (List.append_nil _) hok⟩
    all_goals simp [AppendPhase.locked]
  | none =>
    have hcompletes := OrderedCompletionQueue.completeAllBelow_completes s.nanoLog.completionQueue
      (endIndex - 1)
    rw [hcommit] at hs
    obtain rfl := Option.some.inj hs
    refine ⟨h.moved rfl ?_ (fun _ hi => hi) ?_ ?_ ?_ ?_ (.inr hothers), _, rfl, ?_⟩
    · exact fun e he => h.parked e (hcompletes.rest_mem e he)
    · simp
    · simp [AppendPhase.locked]
    · simp
    · simp
    · refine (mem_complete s _).trans (iff_of_true (fun e he => ?_) hok)
      exact h.flushed id request endIndex hid e (hcompletes.done_mem e he)

/-- **What one step completes** is flushed exactly if it is an `OnlyFlushed` one. -/
theorem step_completes {event : FlushEvent} (h : s.Sound) (hs : s.step event = some t) :
    t.Sound ∧ s.Completes t (s.OnlyFlushed event) := by
  cases event with
  | append id request =>
    simp only [step] at hs
    cases hnew : s.appends id with
    | some r =>
      rw [hnew] at hs
      cases hs
    | none =>
      rw [hnew] at hs
      obtain rfl := Option.some.inj hs
      refine ⟨h.moved rfl h.parked (fun _ hi => hi) ?_ ?_ ?_ ?_ (.inl ⟨rfl, rfl, rfl, rfl⟩),
        .nothing rfl trivial⟩
      all_goals simp [AppendPhase.locked]
  | advance id =>
    obtain ⟨⟨request, phase⟩, hid, hs⟩ := Option.bind_eq_some_iff.mp hs
    have hother : phase ≠ .stored → s.OnlyFlushed (.advance id) := by
      intro hne r hr heq
      rw [hid] at hr
      exact absurd ((congrArg Prod.snd (Option.some.inj hr)).trans heq) hne
    cases phase with
    | called =>
      obtain rfl := Option.some.inj hs
      exact h.outside (RocksNanoLog.leavesQueue_checkSealed _) (.inl rfl) (hother (by simp))
    | «unsealed» =>
      obtain rfl := Option.some.inj hs
      exact h.outside (RocksNanoLog.leavesQueue_checkVacant _) (.inr rfl) (hother (by simp))
    | vacant => exact h.storeEntry (hother (by simp)) hs
    | stored =>
      obtain ⟨hsound, hfree, new, hnew, hiff⟩ := h.enqueue hid hs
      refine ⟨hsound, new, hnew, hiff.trans ?_⟩
      constructor
      · intro hall r hr _ _
        obtain rfl := Option.some.inj (hid.symm.trans hr)
        exact hall
      · intro honly
        exact honly (request, .stored) hid rfl hfree
    | setting endIndex => exact h.setEndIndex hid (.inl rfl) (hother (by simp)) hs
    | written endIndex => exact h.setEndIndex hid (.inr (.inl rfl)) (hother (by simp)) hs
    | flushing endIndex => exact h.setEndIndex hid (.inr (.inr rfl)) (hother (by simp)) hs
    | flushed endIndex => exact h.completeEligible hid (hother (by simp)) hs
    | waiting => cases hs
    | thrown => cases hs

theorem run_completes {es : List FlushEvent} (h : s.Sound)
    (hrun : Transition.run step s es = some t) :
    s.Completes t (Transition.Meets step OnlyFlushed s es) := by
  induction es generalizing s with
  | nil =>
    obtain rfl := Option.some.inj hrun
    exact .nothing rfl trivial
  | cons event es ih =>
    obtain ⟨u, hs, hrest⟩ := Transition.run_cons_eq_some.mp hrun
    obtain ⟨hsound, new, hnew, hflushed⟩ := step_completes h hs
    obtain ⟨new', hnew', hmeets⟩ := ih hsound hrest
    refine ⟨new ++ new', by rw [hnew', hnew, List.append_assoc], ?_⟩
    simp only [List.mem_append, or_imp, forall_and, hflushed, hmeets, Transition.Meets, hs,
      Option.some.injEq, forall_eq']

/-- **Acknowledged means flushed, exactly if appends with a commit index reach only what is.** A
nanolog with nothing parked is appended to by anybody, in any interleaving. Every promise that is
completed is that of an append with a successful flush behind its `putIfNotExists`, if and only if
no append with a commit index reaches one without. -/
theorem flushed_iff {nanoLog : RocksNanoLog Nat κ} {es : List FlushEvent}
    (hempty : nanoLog.completionQueue.promises.entries = [])
    (hrun : Transition.run step { nanoLog } es = some t) :
    (∀ c ∈ t.completed, c.2 = true) ↔ Transition.Meets step OnlyFlushed { nanoLog } es := by
  obtain ⟨new, hnew, hmeets⟩ := run_completes (sound_make nanoLog hempty) hrun
  rw [hnew]
  exact hmeets

/-- What `NanoLogFactory` makes over a store of the replica. -/
def newNanoLog : RocksNanoLog Nat (RocksStore String) :=
  RocksNanoLog.makeNanoLog "1" 1 highestNonExistingLogId false (.provideSharedPtr true)

/-- Append 2 comes with a commit index. It is stored before append 1 flushes, and takes the mutex
after that. -/
def flushedByOther : List FlushEvent :=
  [.append 1 { logId := 1 }, .append 2 { logId := 2, globalCommitIndex := some 1 },
    .advance 2, .advance 2, .advance 2, .advance 1, .advance 1, .advance 1, .advance 1, .advance 1,
    .advance 1, .advance 1, .advance 1, .advance 2]

theorem flushed_iff_by_other :
    ∃ t, Transition.run step { nanoLog := newNanoLog } flushedByOther = some t ∧
      t.completed = [(1, true), (2, true)] ∧ ∀ c ∈ t.completed, c.2 = true := by
  have hrun : Transition.run step { nanoLog := newNanoLog } flushedByOther =
      some ((Transition.run step { nanoLog := newNanoLog } flushedByOther).getD
        { nanoLog := newNanoLog }) := rfl
  refine ⟨_, hrun, rfl, (flushed_iff rfl hrun).mpr ?_⟩
  decide +kernel

/-- **The first append of a sequencer is completed before anything is flushed.** -/
theorem completed_unflushed :
    ∃ t, Transition.run step { nanoLog := newNanoLog }
        [.append 1 { logId := 1, globalCommitIndex := some 1 }, .advance 1, .advance 1, .advance 1,
          .advance 1] = some t ∧
      t.flushed = [] ∧ t.completed = [(1, false)] :=
  ⟨_, rfl, rfl, rfl⟩

end FlushRun

end ReplicatedCounter.Log
