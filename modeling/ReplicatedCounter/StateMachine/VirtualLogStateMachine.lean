import Mathlib.Tactic.Common
import ReplicatedCounter.Lib.IntRange

/-!
# `statemachine/VirtualLogStateMachine.h` and `log/utils/FlatMapSequential.h`

A pipeline from the log to the state machine above it. Callers raise `targetLogId_`; the producer
loop starts a fetch for every id up to it; the fetches run in parallel and end in any order, or
fail; the consumer loop takes their results in the order in which they were started and hands each
to an executor with one thread, which applies it and wakes whoever waits for that id.

The model is what one machine does by itself. What it learns from the log comes in with the event:
the id its `append` was given, the position its `sync` was told, the entry a fetch came back with. A
caller's section under `mtx_` is one step. So is a task of `singleExecutor_`: the `apply` above it
does not suspend, and nobody else reads what it writes before the task takes the lock.

`requested`, `applied`, `appends`, `syncs` and `returned` are the record of what has happened; no
step of the source reads them.
-/

set_option autoImplicit false

namespace ReplicatedCounter.StateMachine

/-- A call of `append` or `sync`. -/
abbrev Waiter := Nat

/-- The future that `FlatMapSequential::add` puts into its list. A fetch that throws drops its
promise, which the consumer sees as an exception. -/
inductive Future (T : Type) where
  | pending
  | broken
  | fulfilled (log : T)
  deriving DecidableEq, Repr

/-- What a fetch leaves in its future. -/
def Future.ofFetch {T : Type} : Option T → Future T
  | none => .broken
  | some log => .fulfilled log

/-- An entry that was passed to the `apply` of the upstream state machine, and what came of it. -/
structure Applied (T R : Type) where
  logId : Int
  log : T
  result : Except String R

/-- `VirtualLogStateMachine`. -/
structure VirtualLogStateMachine (υ T R : Type) where
  upstream : υ
  lastAppliedLogId : Int := 0
  lastFetchId : Int := 0
  targetLogId : Int := -1
  /-- `to`, the local variable of `producerLoop`. -/
  upTo : Int := 0
  /-- `flatMapSeq_->list_`, with the ids the fetches were started for. -/
  list : List (Int × Future T) := []
  /-- `consumeLoop` has not been ended by an exception. -/
  consuming : Bool := true
  /-- The queue of `singleExecutor_`. -/
  tasks : List (Int × T) := []
  promises : List (Int × Waiter) := []
  /-- An `assert` has failed. -/
  aborted : Bool := false
  requested : List Int := []
  applied : List (Applied T R) := []
  appends : List (Int × Waiter) := []
  syncs : List (Int × Waiter) := []
  returned : List (Waiter × Option R) := []

/-- What happens to a machine. -/
inductive Event (T : Type) where
  | appended (c : Waiter) (logId : Int)
  | synced (c : Waiter) (position : Int)
  | wake
  | enqueue
  | fetched (logId : Int) (log : Option T)
  | consume
  | apply

namespace VirtualLogStateMachine

variable {υ T R : Type}

/-- The constructor. -/
def make (upstream : υ) (lastAppliedLogId : Int := 0) : VirtualLogStateMachine υ T R :=
  { upstream, lastAppliedLogId }

/-- No call by this name has come this far. -/
def Fresh (m : VirtualLogStateMachine υ T R) (c : Waiter) : Prop :=
  c ∉ m.appends.map (·.2) ∧ c ∉ m.syncs.map (·.2)

instance (m : VirtualLogStateMachine υ T R) (c : Waiter) : Decidable (m.Fresh c) :=
  inferInstanceAs (Decidable (_ ∧ _))

/-- `promises_.emplace`, and the target. -/
def register (m : VirtualLogStateMachine υ T R) (c : Waiter) (logId : Int) :
    VirtualLogStateMachine υ T R :=
  { m with
    promises := m.promises ++ [(logId, c)]
    targetLogId := max logId m.targetLogId }

/-- `append`, once the log has returned the id. -/
def appended (m : VirtualLogStateMachine υ T R) (c : Waiter) (logId : Int) :
    VirtualLogStateMachine υ T R :=
  { m.register c logId with appends := (logId, c) :: m.appends }

/-- `sync`, once the log has returned its position. -/
def synced (m : VirtualLogStateMachine υ T R) (c : Waiter) (position : Int) :
    VirtualLogStateMachine υ T R :=
  let logId := position - 1
  let m := { m with syncs := (logId, c) :: m.syncs }
  if logId ≤ m.lastAppliedLogId then
    { m with returned := (c, none) :: m.returned }
  else
    m.register c logId

/-- `producerLoop`, when the condition variable lets it through. -/
def wake (m : VirtualLogStateMachine υ T R) : Option (VirtualLogStateMachine υ T R) :=
  if m.upTo ≤ m.lastFetchId ∧ m.upTo < m.targetLogId then
    some { m with upTo := m.targetLogId }
  else
    none

/-- One round of the inner loop of `producerLoop`. -/
def enqueue (m : VirtualLogStateMachine υ T R) : Option (VirtualLogStateMachine υ T R) :=
  if m.lastFetchId + 1 ≤ m.upTo then
    let nextLogId := m.lastFetchId + 1
    some { m with
      list := m.list ++ [(nextLogId, .pending)]
      lastFetchId := nextLogId
      requested := m.requested ++ [nextLogId] }
  else
    none

/-- The first pending future for an id is completed. -/
def complete (logId : Int) (future : Future T) :
    List (Int × Future T) → Option (List (Int × Future T))
  | [] => none
  | (id, .pending) :: rest =>
    if id = logId then
      some ((id, future) :: rest)
    else
      (complete logId future rest).map ((id, .pending) :: ·)
  | e :: rest => (complete logId future rest).map (e :: ·)

/-- A fetch ends. -/
def fetched (m : VirtualLogStateMachine υ T R) (logId : Int) (log : Option T) :
    Option (VirtualLogStateMachine υ T R) :=
  (complete logId (.ofFetch log) m.list).map fun list => { m with list }

/-- One round of `consumeLoop`; the exception of a broken promise ends it. -/
def consume (m : VirtualLogStateMachine υ T R) : Option (VirtualLogStateMachine υ T R) :=
  if m.consuming then
    match m.list with
    | (logId, .fulfilled log) :: list => some { m with list, tasks := m.tasks ++ [(logId, log)] }
    | (_, .broken) :: list => some { m with list, consuming := false }
    | _ => none
  else
    none

/-- A task of `singleExecutor_`. When the assertion fails the process is gone, and with it everybody
who waits. -/
def applyTask (up : υ → T → υ × Except String R) (m : VirtualLogStateMachine υ T R) :
    Option (VirtualLogStateMachine υ T R) :=
  match m.tasks with
  | [] => none
  | (logId, log) :: tasks =>
    let (upstream, result) := up m.upstream log
    let m := { m with upstream, tasks, applied := m.applied ++ [⟨logId, log, result⟩] }
    match result with
    | .error _ => some m
    | .ok result =>
      if m.lastAppliedLogId + 1 = logId then
        some { m with
          promises := m.promises.filter (·.1 ≠ logId)
          returned := (m.promises.filter (·.1 = logId)).map (fun p => (p.2, some result)) ++
            m.returned
          lastAppliedLogId := logId }
      else
        some { m with aborted := true }

/-- One step. -/
def step (up : υ → T → υ × Except String R) (m : VirtualLogStateMachine υ T R) (e : Event T) :
    Option (VirtualLogStateMachine υ T R) :=
  if m.aborted then
    none
  else
    match e with
    | .appended c logId => if m.Fresh c then some (m.appended c logId) else none
    | .synced c position => if m.Fresh c then some (m.synced c position) else none
    | .wake => m.wake
    | .enqueue => m.enqueue
    | .fetched logId log => m.fetched logId log
    | .consume => m.consume
    | .apply => m.applyTask up

end VirtualLogStateMachine

end ReplicatedCounter.StateMachine
