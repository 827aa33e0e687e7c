import Mathlib.Data.String.Basic
import ReplicatedCounter.Lib.SortedMap
import ReplicatedCounter.Lib.Wire
import ReplicatedCounter.Persistence.KVStoreLite

/-!
# `applications/counter`: `CounterApp`, `CounterAppStateMachine`, `CounterApplicator`

A counter node keeps a map from keys to 64-bit values. Its operations become entries of the log, and
the state machine stack hands the entries back to `CounterApp::apply`, in the order of the log.

`lookup_[key]` creates the key, with the value 0, when it is not there; so does reading it. An entry
with a command that is neither `INCR` nor `DECR` makes `apply` throw in the middle of its batch, and
what the batch has done so far stays.

`CounterAppStateMachine::append` wraps the entries into a `SingleLogEntry` and sets its payload
only.
**The id of the entry stays 0, and that is what `CounterApplicator` passes on as its log id.**

Protobuf is a `Codec`; the store is `RocksKVStoreLite`.
-/

set_option autoImplicit false

namespace ReplicatedCounter.Counter

/-! ## Messages -/

/-- `CounterLogEntry.CommandType`. Enumerations of proto3 are open. -/
inductive CommandType where
  | incr
  | decr
  | unknown (value : Int)
  deriving DecidableEq, Repr

structure CounterLogEntry where
  key : String := ""
  val : Int64 := 0
  commandType : CommandType := .incr
  description : String := ""
  deriving DecidableEq, Repr

abbrev CounterLogEntries := List CounterLogEntry

structure CounterAppSnapshot where
  logId : Int := 0
  values : SortedMap String Int64 := .empty

structure SingleLogEntry where
  id : Int := 0
  payload : String := ""
  deriving DecidableEq, Repr

structure LogTrimEntry where
  id : Int := 0
  replicaId : String := ""
  snapshotId : Int := 0
  deriving DecidableEq, Repr

inductive TransactionalLogEntry where
  | notSet
  | single (entry : SingleLogEntry)
  | batch (logEntries : List SingleLogEntry)
  deriving DecidableEq, Repr

/-- `LogEntry_1`. -/
inductive LogEntry where
  | notSet
  | single (entry : SingleLogEntry)
  | batch (logEntries : List SingleLogEntry)
  | transactional (entry : TransactionalLogEntry)
  | logTrim (entry : LogTrimEntry)
  deriving DecidableEq, Repr

structure CounterKeyValue where
  key : String
  val : Int64
  deriving DecidableEq, Repr

/-- `ReturnType<std::vector<CounterKeyValue>, folly::Unit>`. -/
inductive ReturnType where
  | values (counterValues : List CounterKeyValue)
  | unit
  deriving DecidableEq, Repr

/-- `CounterApp::Operation`. -/
inductive Operation where
  | incr (key : String) (incrBy : Int64)
  | decr (key : String) (decrBy : Int64)
  deriving DecidableEq, Repr

/-! ## Their encodings

Any faithful codec will do for the results; these can be evaluated. -/

instance : Wire Int64 := .ofEquiv Int64.toInt Int64.ofInt Int64.ofInt_toInt

instance : Wire CommandType :=
  .ofEquiv (β := Nat × Int)
    (fun
      | .incr => (0, 0)
      | .decr => (1, 0)
      | .unknown value => (2, value))
    (fun
      | (0, _) => .incr
      | (1, _) => .decr
      | (_, value) => .unknown value)
    (fun c => by cases c <;> rfl)

instance : Wire CounterLogEntry :=
  .ofEquiv (fun e => (e.key, e.val, e.commandType, e.description))
    (fun (key, val, commandType, description) => ⟨key, val, commandType, description⟩) fun _ => rfl

instance {V : Type} [Wire V] : Wire (SortedMap String V) :=
  .ofEquiv (fun m => m.entries)
    (fun l => if h : l.Pairwise (·.1 < ·.1) then ⟨l, h⟩ else .empty)
    (fun m => dif_pos m.sorted)

instance : Wire CounterAppSnapshot :=
  .ofEquiv (fun s => (s.logId, s.values)) (fun (logId, values) => ⟨logId, values⟩) fun _ => rfl

instance : Wire SingleLogEntry :=
  .ofEquiv (fun e => (e.id, e.payload)) (fun (id, payload) => ⟨id, payload⟩) fun _ => rfl

instance : Wire LogTrimEntry :=
  .ofEquiv (fun e => (e.id, e.replicaId, e.snapshotId))
    (fun (id, replicaId, snapshotId) => ⟨id, replicaId, snapshotId⟩) fun _ => rfl

instance : Wire TransactionalLogEntry :=
  .ofEquiv (β := Nat × List SingleLogEntry)
    (fun
      | .notSet => (0, [])
      | .single e => (1, [e])
      | .batch es => (2, es))
    (fun
      | (1, [e]) => .single e
      | (2, es) => .batch es
      | _ => .notSet)
    (fun e => by cases e <;> rfl)

instance : Wire LogEntry :=
  .ofEquiv (β := Nat × List SingleLogEntry × TransactionalLogEntry × LogTrimEntry)
    (fun
      | .notSet => (0, [], .notSet, {})
      | .single e => (1, [e], .notSet, {})
      | .batch es => (2, es, .notSet, {})
      | .transactional e => (3, [], e, {})
      | .logTrim e => (4, [], .notSet, e))
    (fun
      | (1, [e], _, _) => .single e
      | (2, es, _, _) => .batch es
      | (3, _, e, _) => .transactional e
      | (4, _, _, e) => .logTrim e
      | _ => .notSet)
    (fun e => by cases e <;> rfl)

/-- Messages as the text they are written as. -/
def wireCodec (α : Type) [Wire α] : Codec α String where
  serialize := Wire.serialize
  parse := Wire.parse
  parse_serialize := Wire.parse_serialize

/-! ## `CounterApp` -/

structure CounterApp where
  kvStore : RocksStore String
  lastAppliedEntry : Int := 0
  lastSnapshotId : Int := 0
  lookup : SortedMap String Int64 := .empty

/-- The constructor. -/
def freshApp (kvStore : RocksStore String) : CounterApp := { kvStore }

/-- `kvStore_->checkpoint`: a copy of the store under a directory. -/
structure Checkpoint where
  checkpointDir : String
  kvStore : RocksStore String

namespace CounterApp

/-- The body of the loop of `serialize`. -/
def toEntry : Operation → CounterLogEntry
  | .incr key incrBy => { key, val := incrBy, commandType := .incr }
  | .decr key decrBy => { key, val := decrBy, commandType := .decr }

/-- `CounterApp::serialize`. -/
def serialize (operations : List Operation) : CounterLogEntries := operations.map toEntry

/-- `lookup_[key]`, as a value. -/
def valueAt (lookup : SortedMap String Int64) (key : String) : Int64 := (lookup.find? key).getD 0

/-- The body of the loop of `apply`. -/
def applyEntry (lookup : SortedMap String Int64) (entry : CounterLogEntry) :
    SortedMap String Int64 × Except String CounterKeyValue :=
  let val := valueAt lookup entry.key
  match entry.commandType with
  | .incr =>
    let val := val + entry.val
    (lookup.insert entry.key val, .ok ⟨entry.key, val⟩)
  | .decr =>
    let val := val - entry.val
    (lookup.insert entry.key val, .ok ⟨entry.key, val⟩)
  | .unknown _ =>
    (lookup.insert entry.key val, .error "Unknown Command. This is a non-recoverable error.")

/-- The loop of `apply`. -/
def applyEntries (lookup : SortedMap String Int64) :
    CounterLogEntries → SortedMap String Int64 × Except String (List CounterKeyValue)
  | [] => (lookup, .ok [])
  | entry :: entries =>
    match applyEntry lookup entry with
    | (lookup, .error e) => (lookup, .error e)
    | (lookup, .ok counterValue) =>
      let (lookup, counterValues) := applyEntries lookup entries
      (lookup, counterValues.map (counterValue :: ·))

/-- `CounterApp::apply`. -/
def apply (app : CounterApp) (counterLogEntries : CounterLogEntries) (logId : Int) :
    CounterApp × Except String (List CounterKeyValue) :=
  match applyEntries app.lookup counterLogEntries with
  | (lookup, .error e) => ({ app with lookup }, .error e)
  | (lookup, .ok counterValues) =>
    ({ app with lookup, lastAppliedEntry := logId }, .ok counterValues)

/-- `CounterApp::getValue`, once `sync` has returned. -/
def getValue (app : CounterApp) (key : String) : CounterApp × Int64 :=
  let val := valueAt app.lookup key
  ({ app with lookup := app.lookup.insert key val }, val)

/-- `CounterApp::getValues`. -/
def getValues (app : CounterApp) : SortedMap String Int64 := app.lookup

/-- `CounterApp::snapshot`. -/
def snapshot (codec : Codec CounterAppSnapshot String) (app : CounterApp)
    (snapshotDirectory : String) : CounterApp × Except String (CounterAppSnapshot × Checkpoint) :=
  let counterAppSnapshot : CounterAppSnapshot :=
    { logId := app.lastAppliedEntry, values := app.lookup }
  match app.kvStore.put "COUNTER_APP_SNAPSHOT" (codec.serialize counterAppSnapshot) with
  | (kvStore, false) => ({ app with kvStore }, .error "could not save snapshot")
  | (kvStore, true) =>
    match kvStore.flushWal with
    | (kvStore, false) => ({ app with kvStore }, .error "could not save snapshot")
    | (kvStore, true) =>
      ({ app with kvStore, lastSnapshotId := app.lastAppliedEntry },
        .ok (counterAppSnapshot, ⟨s!"{snapshotDirectory}/{app.lastAppliedEntry}", kvStore⟩))

/-- `CounterApp::restoreFromSnapshot`. -/
def restoreFromSnapshot (codec : Codec CounterAppSnapshot String) (app : CounterApp) :
    CounterApp × Except String (Option CounterAppSnapshot) :=
  match app.kvStore.get "COUNTER_APP_SNAPSHOT" with
  | none => (app, .ok none)
  | some serializedMap =>
    match codec.parse serializedMap with
    | none => (app, .error "snapshot could not be deserialized")
    | some counterAppSnapshot =>
      ({ app with lookup := counterAppSnapshot.values }, .ok (some counterAppSnapshot))

end CounterApp

/-! ## The state machine stack -/

variable (entriesCodec : Codec CounterLogEntries String)

/-- The entry that `CounterAppStateMachine::append` sends down the stack. -/
def CounterAppStateMachine.logEntry (t : CounterLogEntries) : LogEntry :=
  .single { payload := entriesCodec.serialize t }

/-- The end of `CounterAppStateMachine::append`. -/
def CounterAppStateMachine.unwrap : ReturnType → Except String (List CounterKeyValue)
  | .values counterValues => .ok counterValues
  | .unit => .error "unknown result type"

/-- `CounterApplicator::apply`, and `CounterAppStateMachine::apply`. -/
def CounterApplicator.apply (app : CounterApp) : LogEntry → CounterApp × Except String ReturnType
  | .single entry =>
    match entriesCodec.parse entry.payload with
    | none => (app, .error "log entry could not be parsed")
    | some entries =>
      let (app, result) := app.apply entries entry.id
      (app, result.map .values)
  | _ => (app, .error "unknown type of entry to apply")

/-- `LogTrimStateMachine::apply`, with whatever its applicator does with a trim entry. It is what
`makeStateMachineStack` puts above the log, with the counter above it. -/
def LogTrimStateMachine.apply (logTrimApplicator : LogTrimEntry → Except String Unit)
    (app : CounterApp) : LogEntry → CounterApp × Except String ReturnType
  | .logTrim entry => (app, (logTrimApplicator entry).map fun _ => .unit)
  | t => CounterApplicator.apply entriesCodec app t

/-! ## Calls that change counters

`mtx_` is held until `append` has returned, so a node's calls come one after the other. The entry
goes through the log; what `append` returns is what the stack makes of it when it is its turn. -/

/-- `CounterAppStateMachine::append`, of an entry that is the next one to be applied. -/
def CounterAppStateMachine.append (logTrimApplicator : LogTrimEntry → Except String Unit)
    (app : CounterApp) (t : CounterLogEntries) :
    CounterApp × Except String (List CounterKeyValue) :=
  let (app, result) :=
    LogTrimStateMachine.apply entriesCodec logTrimApplicator app (logEntry entriesCodec t)
  (app, result.bind unwrap)

namespace CounterApp

variable (logTrimApplicator : LogTrimEntry → Except String Unit) (app : CounterApp)

/-- `CounterApp::batchUpdate`. -/
def batchUpdate (operations : List Operation) : CounterApp × Except String (List CounterKeyValue) :=
  CounterAppStateMachine.append entriesCodec logTrimApplicator app (serialize operations)

/-- `result.at(0).val`. -/
def firstValue : List CounterKeyValue → Except String Int64
  | [] => .error "vector"
  | result :: _ => .ok result.val

/-- `CounterApp::incrementAndGet`. -/
def incrementAndGet (key : String) (incrBy : Int64) : CounterApp × Except String Int64 :=
  let operations := [Operation.incr key incrBy]
  let (app, result) :=
    CounterAppStateMachine.append entriesCodec logTrimApplicator app (serialize operations)
  (app, result.bind firstValue)

/-- `CounterApp::decrementAndGet`. -/
def decrementAndGet (key : String) (decrBy : Int64) : CounterApp × Except String Int64 :=
  let operations := [Operation.decr key decrBy]
  let (app, result) :=
    CounterAppStateMachine.append entriesCodec logTrimApplicator app (serialize operations)
  (app, result.bind firstValue)

end CounterApp

/-! ## What a batch does -/

/-- What an operation adds to a key. -/
def Operation.delta (key : String) : Operation → Int64
  | .incr k incrBy => if k = key then incrBy else 0
  | .decr k decrBy => if k = key then -decrBy else 0

/-- What some operations add to a key. -/
def total (key : String) : List Operation → Int64
  | [] => 0
  | op :: ops => op.delta key + total key ops

theorem total_append (key : String) (ops ops' : List Operation) :
    total key (ops ++ ops') = total key ops + total key ops' := by
  induction ops with
  | nil => exact (Int64.zero_add _).symm
  | cons op ops ih =>
    simp only [List.cons_append, total, ih]
    exact (Int64.add_assoc _ _ _).symm

namespace CounterApp

/-- Adding to one key. -/
theorem valueAt_insert_add (lookup : SortedMap String Int64) (k key : String) (d : Int64) :
    valueAt (lookup.insert k (valueAt lookup k + d)) key =
      valueAt lookup key + if k = key then d else 0 := by
  by_cases hk : k = key
  · subst hk
    rw [if_pos rfl]
    unfold valueAt
    rw [SortedMap.find?_insert, if_pos rfl]
    rfl
  · rw [if_neg hk, Int64.add_zero]
    unfold valueAt
    rw [SortedMap.find?_insert, if_neg (Ne.symm hk)]

/-- An operation succeeds and adds what it adds. -/
theorem applyEntry_toEntry (lookup : SortedMap String Int64) (op : Operation) :
    ∃ lookup' counterValue, applyEntry lookup (toEntry op) = (lookup', .ok counterValue) ∧
      ∀ key, valueAt lookup' key = valueAt lookup key + op.delta key := by
  cases op with
  | incr k incrBy => exact ⟨_, _, rfl, fun key => valueAt_insert_add lookup k key incrBy⟩
  | decr k decrBy =>
    refine ⟨_, _, rfl, fun key => ?_⟩
    have hsub : valueAt lookup k - decrBy = valueAt lookup k + -decrBy :=
      Int64.sub_eq_add_neg _ _
    show valueAt (lookup.insert k (valueAt lookup k - decrBy)) key = _
    rw [hsub]
    exact valueAt_insert_add lookup k key (-decrBy)

/-- **A batch of operations succeeds and adds its total to every key.** -/
theorem applyEntries_serialize (lookup : SortedMap String Int64) (ops : List Operation) :
    ∃ lookup' counterValues,
      applyEntries lookup (serialize ops) = (lookup', .ok counterValues) ∧
      ∀ key, valueAt lookup' key = valueAt lookup key + total key ops := by
  induction ops generalizing lookup with
  | nil => exact ⟨lookup, [], rfl, fun key => (Int64.add_zero _).symm⟩
  | cons op ops ih =>
    obtain ⟨lookup₁, counterValue, hentry, hvalue⟩ := applyEntry_toEntry lookup op
    obtain ⟨lookup₂, counterValues, hentries, hvalues⟩ := ih lookup₁
    refine ⟨lookup₂, counterValue :: counterValues, ?_, fun key => ?_⟩
    · unfold serialize at hentries
      simp only [serialize, List.map_cons, applyEntries, hentry, hentries]
      rfl
    · rw [hvalues, hvalue, total, Int64.add_assoc]

end CounterApp

/-- What the stack does with an entry of a counter node: the entry comes back as it was sent, the
totals are added, and the log id is that of the entry, 0. -/
theorem apply_logEntry (logTrimApplicator : LogTrimEntry → Except String Unit) (app : CounterApp)
    (ops : List Operation) :
    ∃ app' counterValues,
      LogTrimStateMachine.apply entriesCodec logTrimApplicator app
        (CounterAppStateMachine.logEntry entriesCodec (CounterApp.serialize ops)) =
          (app', .ok (.values counterValues)) ∧
      app'.lastAppliedEntry = 0 ∧ app'.kvStore = app.kvStore ∧
      CounterApp.applyEntries app.lookup (CounterApp.serialize ops) =
        (app'.lookup, .ok counterValues) ∧
      ∀ key, CounterApp.valueAt app'.lookup key =
        CounterApp.valueAt app.lookup key + total key ops := by
  obtain ⟨lookup, counterValues, hentries, hvalues⟩ :=
    CounterApp.applyEntries_serialize app.lookup ops
  refine ⟨{ app with lookup, lastAppliedEntry := 0 }, counterValues, ?_, rfl, rfl, hentries,
    hvalues⟩
  simp only [LogTrimStateMachine.apply, CounterAppStateMachine.logEntry, CounterApplicator.apply,
    entriesCodec.parse_serialize, CounterApp.apply, hentries]
  rfl

end ReplicatedCounter.Counter
