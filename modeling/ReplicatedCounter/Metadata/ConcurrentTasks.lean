import Mathlib.Data.Fintype.Basic
import ReplicatedCounter.Metadata.StateMachine
import ReplicatedCounter.Paxos.WriteOnceRegister

/-!
# Several tasks on one `MetadataStoreStateMachine`

Every operation of `PersistentMetadataStore` is a task on the same machine: the lookups start with
`sync`, `compareAndAppendRange` is `append`. A task reads `lastAppliedWorId_` once, at the head of
its loop, and writes the register it has been working on back into it after several awaits. Nothing
keeps the tasks apart. The mutex that could, `mtx_`, is a member that no function locks.

Here a task is cut in front of each of its awaits, and the tasks take their turns in any order. Each
awaited call of a register or of the delegate is one step, together with the code up to the next
one. Between two steps the other nodes may do anything to the acceptors.

`applied_once_in_order_iff`: the registers are applied one after the other exactly if at every
`apply` the register is still the one after `lastAppliedWorId_`, and no other task is between its
`apply` and its write to `lastAppliedWorId_`.
-/

set_option autoImplicit false

namespace ReplicatedCounter.Metadata

open Paxos

/-! ## The tasks -/

/-- The await a task stands in front of. -/
inductive TaskPhase where
  /-- `wor->lock()`. -/
  | locking
  /-- `wor->write(lockId.value(), payload)`. -/
  | writing (lockId : Int)
  /-- `wor->read()`. -/
  | reading
  /-- `apply(metadataConfig)`. -/
  | applying (worValue : String) (metadataConfig : MetadataConfig)
  /-- `getCurrentVersionId()` in `currentConfigSupplier_()`; `result` is what `apply` returned. -/
  | gettingVersion (worValue : String) (result : ApplicationResult)
  /-- `getConfig(value)` in `currentConfigSupplier_()`. -/
  | gettingConfig (versionId : Int) (worValue : String) (result : ApplicationResult)
  deriving DecidableEq

/-- An `append` or `sync`, running: its locals, with the register `wor` it has made. -/
structure Task (A : Type) where
  operation : Operation
  nextWorId : Int
  lockId : Int := 0
  proposer : ProposerImpl A
  phase : TaskPhase

/-- What can be seen of the tasks. -/
inductive TaskObservation (τ : Type) where
  | started (t : τ)
  /-- The value of register `worId` was passed to `apply`. -/
  | applied (t : τ) (worId : Int) (worValue : String) (result : ApplicationResult)
  /-- `lastAppliedWorId_` was set. -/
  | lastApplied (worId : Int)
  | appendReturned (t : τ) (config : MetadataConfig)
      (result : Except AppendException ApplicationResult)
  | syncReturned (t : τ) (result : Except AppendException Unit)
  deriving DecidableEq

/-- A `MetadataStoreStateMachine` with its tasks, the delegate its applicator writes to and the
stores of all acceptors. `trace` is the record of what has happened, the latest first; no step reads
it. -/
structure TaskedStateMachine (A κ τ : Type) where
  currentConfig : MetadataConfig
  lastAppliedWorId : Int
  delegate : InMemoryMetadataStore := {}
  stores : A → κ
  tasks : τ → Option (Task A) := fun _ => none
  trace : List (TaskObservation τ) := []

inductive TaskEvent (A κ τ : Type) where
  /-- `append(config)` is called. -/
  | append (t : τ) (config : MetadataConfig)
  /-- `sync()` is called. -/
  | sync (t : τ)
  /-- The call a task awaits is made, and the task goes on to its next await. -/
  | proceed (t : τ)
  /-- Other nodes have their turn. -/
  | others (stores : A → κ)

/-- The first await of an iteration. -/
def Operation.start : Operation → TaskPhase
  | .append _ _ => .locking
  | .sync => .reading

namespace TaskedStateMachine

variable {A κ τ β α : Type} [DecidableEq A] [DecidableEq τ] [KVStoreLite κ β]
variable (codec : Codec PaxosInstance β) (configCodec : Codec MetadataConfig String)
  (registry : String → A)

/-- `makeMetadataStoreStateMachine` with an empty delegate. -/
def make (bootstrapConfig : MetadataConfig) (stores : A → κ) : TaskedStateMachine A κ τ where
  currentConfig := bootstrapConfig
  lastAppliedWorId := bootstrapConfig.startIndex
  stores

/-- The task `t` goes on as `task`; `none` is its end. -/
def setTask (s : TaskedStateMachine A κ τ) (t : τ) (task : Option (Task A)) :
    TaskedStateMachine A κ τ :=
  { s with tasks := Function.update s.tasks t task }

/-- The head of the loop: `nextWorId`, and a register made with `makePaxosWor`. -/
def iteration (s : TaskedStateMachine A κ τ) (operation : Operation) : Task A where
  operation
  nextWorId := s.lastAppliedWorId + 1
  proposer := (PaxosWriteOnceRegister.make (s.lastAppliedWorId + 1)
    (s.currentConfig.replicaSetConfig.map fun replicaConfig => registry replicaConfig.id)
    s.stores).proposer
  phase := operation.start

/-- A call of the task's register, run to its end. -/
def callWor (s : TaskedStateMachine A κ τ) (task : Task A) (m : RegisterM A κ α) :
    TaskedStateMachine A κ τ × Task A × Except AcceptorError α :=
  let (result, wor) := Coro.exec m
    { majorId := task.nextWorId
      lockId := task.lockId
      proposer := task.proposer
      stores := s.stores }
  ({ s with stores := wor.stores },
    { task with lockId := wor.lockId, proposer := wor.proposer }, result)

/-- An exception leaves the task. -/
def raise (s : TaskedStateMachine A κ τ) (t : τ) (operation : Operation) (e : AppendException) :
    TaskedStateMachine A κ τ :=
  let s := s.setTask t none
  match operation with
  | .append config _ => { s with trace := .appendReturned t config (.error e) :: s.trace }
  | .sync => { s with trace := .syncReturned t (.error e) :: s.trace }

/-- `append` returns. -/
def returnAppend (s : TaskedStateMachine A κ τ) (t : τ) (config : MetadataConfig)
    (result : ApplicationResult) : TaskedStateMachine A κ τ :=
  let s := s.setTask t none
  { s with trace := .appendReturned t config (.ok result) :: s.trace }

/-- `sync` returns. -/
def returnSync (s : TaskedStateMachine A κ τ) (t : τ) : TaskedStateMachine A κ τ :=
  let s := s.setTask t none
  { s with trace := .syncReturned t (.ok ()) :: s.trace }

/-- From `read()` to the next await. -/
def afterRead (s : TaskedStateMachine A κ τ) (t : τ) (task : Task A) :
    Except ReadError String → TaskedStateMachine A κ τ
  | .error readError =>
    match task.operation with
    | .append _ _ => s.setTask t (some { task with phase := .locking })
    | .sync =>
      if readError = .notWritten then s.returnSync t
      else s.setTask t (some (s.iteration registry .sync))
  | .ok worValue =>
    match configCodec.parse worValue with
    | some metadataConfig =>
      s.setTask t (some { task with phase := .applying worValue metadataConfig })
    | none =>
      match task.operation with
      | .append config _ => s.returnAppend t config (.exceptionWrapper "protobuf parse error")
      | .sync => s.raise t .sync (.runtimeError "protobuf parse error")

/-- From the end of `currentConfigSupplier_()` to the next await. -/
def afterSupplier (s : TaskedStateMachine A κ τ) (t : τ) (task : Task A) (worValue : String)
    (result : ApplicationResult) : Option MetadataConfig → TaskedStateMachine A κ τ
  | none => s.raise t task.operation (.runtimeError "metadata config not found")
  | some currentConfig =>
    let s := { s with
      currentConfig := currentConfig
      lastAppliedWorId := task.nextWorId
      trace := .lastApplied task.nextWorId :: s.trace }
    match task.operation with
    | .append config successfullyWritten =>
      if successfullyWritten || worValue == configCodec.serialize config then
        s.returnAppend t config result
      else s.setTask t (some (s.iteration registry (.append config successfullyWritten)))
    | .sync => s.setTask t (some (s.iteration registry .sync))

/-- The call a task awaits, and the code up to its next await. -/
def proceed (s : TaskedStateMachine A κ τ) (t : τ) (task : Task A) : TaskedStateMachine A κ τ :=
  match task.phase with
  | .locking =>
    let (s, task, result) := s.callWor task (PaxosWriteOnceRegister.lock codec)
    match result with
    | .error e => s.raise t task.operation (.acceptor e)
    | .ok none => s.setTask t (some task)
    | .ok (some lockId) => s.setTask t (some { task with phase := .writing lockId })
  | .writing lockId =>
    match task.operation with
    | .sync => s
    | .append config successfullyWritten =>
      let (s, task, result) := s.callWor task
        (PaxosWriteOnceRegister.write codec lockId (configCodec.serialize config))
      match result with
      | .error e => s.raise t task.operation (.acceptor e)
      | .ok writeResponse => s.setTask t (some { task with
          operation := .append config (successfullyWritten || writeResponse)
          phase := .reading })
  | .reading =>
    let (s, task, result) := s.callWor task (PaxosWriteOnceRegister.read codec)
    match result with
    | .error e => s.raise t task.operation (.acceptor e)
    | .ok readValue => s.afterRead configCodec registry t task readValue
  | .applying worValue metadataConfig =>
    let (delegate, result) := MetadataStoreApplicator.apply s.delegate metadataConfig
    { s with
      delegate := delegate
      tasks := Function.update s.tasks t
        (some { task with phase := .gettingVersion worValue result })
      trace := .applied t task.nextWorId worValue result :: s.trace }
  | .gettingVersion worValue result =>
    s.setTask t (some { task with
      phase := .gettingConfig s.delegate.getCurrentVersionId worValue result })
  | .gettingConfig versionId worValue result =>
    s.afterSupplier configCodec registry t task worValue result (s.delegate.getConfig versionId)

/-- A new task. -/
def begin (s : TaskedStateMachine A κ τ) (t : τ) (operation : Operation) :
    Option (TaskedStateMachine A κ τ) :=
  if (s.tasks t).isNone then
    some { s with
      tasks := Function.update s.tasks t (some (s.iteration registry operation))
      trace := .started t :: s.trace }
  else none

def step (s : TaskedStateMachine A κ τ) : TaskEvent A κ τ → Option (TaskedStateMachine A κ τ)
  | .append t config => s.begin registry t (.append config false)
  | .sync t => s.begin registry t .sync
  | .proceed t => (s.tasks t).map (s.proceed codec configCodec registry t)
  | .others stores => some { s with stores }

end TaskedStateMachine

/-! ## What is claimed of them -/

namespace TaskObservation

variable {τ : Type}

/-- The registers that were passed to `apply`, the latest first. -/
def appliedWorIds : List (TaskObservation τ) → List Int
  | [] => []
  | .applied _ worId _ _ :: trace => worId :: appliedWorIds trace
  | .started _ :: trace | .lastApplied _ :: trace | .appendReturned _ _ _ :: trace
  | .syncReturned _ _ :: trace => appliedWorIds trace

/-- The values `lastAppliedWorId_` has had after its first, the latest first. -/
def lastAppliedWorIds : List (TaskObservation τ) → List Int
  | [] => []
  | .lastApplied worId :: trace => worId :: lastAppliedWorIds trace
  | .started _ :: trace | .applied _ _ _ _ :: trace | .appendReturned _ _ _ :: trace
  | .syncReturned _ _ :: trace => lastAppliedWorIds trace

/-- Since the task `t` was started, the store has accepted this value. -/
def AcceptedSinceStart (t : τ) (payload : String) : List (TaskObservation τ) → Prop
  | [] => False
  | .started u :: trace => u ≠ t ∧ AcceptedSinceStart t payload trace
  | .applied _ _ worValue result :: trace =>
    (worValue = payload ∧ result = .trueType) ∨ AcceptedSinceStart t payload trace
  | .lastApplied _ :: trace | .appendReturned _ _ _ :: trace | .syncReturned _ _ :: trace =>
    AcceptedSinceStart t payload trace

/-- These are all registers after `first`, each of them once, and in their order (read from the
end). -/
def InOrder (first : Int) : List Int → Prop
  | [] => True
  | worId :: worIds => worId = first + worIds.length + 1 ∧ InOrder first worIds

/-- The append did not get as far as a result of the store: a call threw, or a register held
something that is no configuration. -/
def Unanswered (result : Except AppendException ApplicationResult) : Prop :=
  (∃ e, result = .error e) ∨ result = .ok (.exceptionWrapper "protobuf parse error")

/-- An append whose configuration the store has accepted was told so, and not that there was an
`OptimisticConcurrencyException`, if it was told anything. -/
def Truthful (configCodec : Codec MetadataConfig String) : List (TaskObservation τ) → Prop
  | [] => True
  | .appendReturned t config result :: trace =>
    (AcceptedSinceStart t (configCodec.serialize config) trace →
      result = .ok .trueType ∨ Unanswered result) ∧ Truthful configCodec trace
  | .started _ :: trace | .applied _ _ _ _ :: trace | .lastApplied _ :: trace
  | .syncReturned _ _ :: trace => Truthful configCodec trace

end TaskObservation

open TaskObservation

/-- **Each register is applied once, in order**: `apply` gets the registers one after the other,
`lastAppliedWorId_` never decreases, and an append whose configuration was accepted does not say
that it was not. -/
structure AppliedOnceInOrder {A κ τ : Type} (configCodec : Codec MetadataConfig String)
    (bootstrapConfig : MetadataConfig) (s : TaskedStateMachine A κ τ) : Prop where
  inOrder : InOrder bootstrapConfig.startIndex (appliedWorIds s.trace)
  monotone : (lastAppliedWorIds s.trace ++ [bootstrapConfig.startIndex]).Pairwise (· ≥ ·)
  truthful : Truthful configCodec s.trace

/-- The task is between its `apply` and its write to `lastAppliedWorId_`: the value it has applied,
and the result. -/
def TaskPhase.supplying : TaskPhase → Option (String × ApplicationResult)
  | .gettingVersion worValue result | .gettingConfig _ worValue result => some (worValue, result)
  | .locking | .writing _ | .reading | .applying _ _ => none

/-- The task is about to call `apply`. -/
def TaskPhase.isApplying : TaskPhase → Bool
  | .applying _ _ => true
  | .locking | .writing _ | .reading | .gettingVersion _ _ | .gettingConfig _ _ _ => false

/-- The step is not an `apply` of a register that is no longer the next one, or while another task
is between its `apply` and its write to `lastAppliedWorId_`. -/
def UpToDate {A κ τ : Type} (s : TaskedStateMachine A κ τ) : TaskEvent A κ τ → Prop
  | .proceed t => ∀ task ∈ s.tasks t, task.phase.isApplying = true →
    task.nextWorId = s.lastAppliedWorId + 1 ∧
      ∀ u, ∀ other ∈ s.tasks u, other.phase.supplying = none
  | .append _ _ | .sync _ | .others _ => True

/-! ## What a step can do -/

namespace TaskedStateMachine

variable {A κ τ β : Type} [DecidableEq τ] [KVStoreLite κ β]
variable (codec : Codec PaxosInstance β) (configCodec : Codec MetadataConfig String)
  (registry : String → A)

/-- One step, without the calls of registers. -/
inductive Moves (s : TaskedStateMachine A κ τ) :
    TaskEvent A κ τ → TaskedStateMachine A κ τ → Prop where
  | others (stores : A → κ) : Moves s (.others stores) { s with stores }
  | begins {e : TaskEvent A κ τ} (t : τ) (operation : Operation) (he : ∀ u, e ≠ .proceed u)
      (ht : s.tasks t = none) :
    Moves s e { s with
      tasks := Function.update s.tasks t (some (s.iteration registry operation))
      trace := .started t :: s.trace }
  /-- The task works on its register. -/
  | works (t : τ) {task task' : Task A} (stores : A → κ) (ht : s.tasks t = some task)
      (happlying : task.phase.isApplying = false) (hphase : task.phase.supplying = none)
      (hphase' : task'.phase.supplying = none) (hwor : task'.nextWorId = task.nextWorId)
      (hcall : ∀ config written', task'.operation = .append config written' →
        ∃ written, task.operation = .append config written) :
    Moves s (.proceed t) { s with stores, tasks := Function.update s.tasks t (some task') }
  /-- A `sync` that could not read its register tries again. -/
  | retries (t : τ) {task : Task A} (stores : A → κ) (ht : s.tasks t = some task)
      (happlying : task.phase.isApplying = false) (hphase : task.phase.supplying = none) :
    Moves s (.proceed t) { s with
      stores, tasks := Function.update s.tasks t (some (s.iteration registry .sync)) }
  /-- The task ends without a result. -/
  | gives (t : τ) {task : Task A} (stores : A → κ) (obs : TaskObservation τ)
      (ht : s.tasks t = some task) (happlying : task.phase.isApplying = false)
      (hphase : task.phase.supplying = none)
      (hobs : (∃ config result, obs = .appendReturned t config result ∧ Unanswered result) ∨
        ∃ result, obs = .syncReturned t result) :
    Moves s (.proceed t) { s with
      stores, tasks := Function.update s.tasks t none, trace := obs :: s.trace }
  | applies (t : τ) {task : Task A} (worValue : String) (metadataConfig : MetadataConfig)
      (ht : s.tasks t = some task) (hphase : task.phase = .applying worValue metadataConfig) :
    Moves s (.proceed t) { s with
      delegate := (MetadataStoreApplicator.apply s.delegate metadataConfig).1
      tasks := Function.update s.tasks t (some { task with
        phase := .gettingVersion worValue
          (MetadataStoreApplicator.apply s.delegate metadataConfig).2 })
      trace := .applied t task.nextWorId worValue
        (MetadataStoreApplicator.apply s.delegate metadataConfig).2 :: s.trace }
  | looksUp (t : τ) {task : Task A} (worValue : String) (result : ApplicationResult)
      (ht : s.tasks t = some task) (hphase : task.phase = .gettingVersion worValue result) :
    Moves s (.proceed t) { s with
      tasks := Function.update s.tasks t (some { task with
        phase := .gettingConfig s.delegate.getCurrentVersionId worValue result }) }
  | writesBack (t : τ) {task : Task A} (versionId : Int) (worValue : String)
      (result : ApplicationResult) (ht : s.tasks t = some task)
      (hphase : task.phase = .gettingConfig versionId worValue result) :
    Moves s (.proceed t) (s.afterSupplier configCodec registry t task worValue result
      (s.delegate.getConfig versionId))

variable {codec : Codec PaxosInstance β} {configCodec : Codec MetadataConfig String}
  {registry : String → A} {s s' : TaskedStateMachine A κ τ} {t : τ} {task : Task A}

omit [DecidableEq τ] in
/-- A call of the register leaves everything but the stores, and the task's place. -/
theorem callWor_cases {α : Type} (s : TaskedStateMachine A κ τ) (task : Task A)
    (m : RegisterM A κ α) :
    ∃ stores lockId proposer result,
      s.callWor task m = ({ s with stores }, { task with lockId, proposer }, result) :=
  ⟨_, _, _, _, rfl⟩

theorem Moves.raise (stores : A → κ) (ht : s.tasks t = some task)
    (happlying : task.phase.isApplying = false) (hphase : task.phase.supplying = none)
    (operation : Operation) (e : AppendException) :
    Moves configCodec registry s (.proceed t)
      (TaskedStateMachine.raise { s with stores } t operation e) := by
  cases operation with
  | append config written =>
    exact .gives t stores _ ht happlying hphase (.inl ⟨config, _, rfl, .inl ⟨e, rfl⟩⟩)
  | sync => exact .gives t stores _ ht happlying hphase (.inr ⟨_, rfl⟩)

theorem Moves.afterRead (stores : A → κ) {lockId : Int} {proposer : ProposerImpl A}
    (ht : s.tasks t = some task) (hphase : task.phase = .reading)
    (readValue : Except ReadError String) :
    Moves configCodec registry s (.proceed t)
      (TaskedStateMachine.afterRead configCodec registry { s with stores } t
        { task with lockId, proposer } readValue) := by
  have happlying : task.phase.isApplying = false := by rw [hphase]; rfl
  have hsupplying : task.phase.supplying = none := by rw [hphase]; rfl
  have hcall : ∀ config written', task.operation = .append config written' →
      ∃ written, task.operation = .append config written := fun _ written h => ⟨written, h⟩
  cases readValue with
  | error readError =>
    cases hop : task.operation with
    | append config written =>
      simp only [TaskedStateMachine.afterRead]
      exact .works t stores ht happlying hsupplying rfl rfl fun c w h => by
        simpa only [hop] using hcall c w (hop.trans h)
    | sync =>
      simp only [TaskedStateMachine.afterRead]
      split
      · exact .gives t stores _ ht happlying hsupplying (.inr ⟨_, rfl⟩)
      · exact .retries t stores ht happlying hsupplying
  | ok worValue =>
    cases hparse : configCodec.parse worValue with
    | some metadataConfig =>
      simp only [TaskedStateMachine.afterRead, hparse]
      exact .works t stores ht happlying hsupplying rfl rfl hcall
    | none =>
      cases hop : task.operation with
      | append config written =>
        simp only [TaskedStateMachine.afterRead, hparse]
        exact .gives t stores _ ht happlying hsupplying (.inl ⟨config, _, rfl, .inr rfl⟩)
      | sync =>
        simp only [TaskedStateMachine.afterRead, hparse]
        exact .gives t stores _ ht happlying hsupplying (.inr ⟨_, rfl⟩)

theorem proceed_moves [DecidableEq A] (ht : s.tasks t = some task) :
    Moves configCodec registry s (.proceed t)
      (s.proceed codec configCodec registry t task) := by
  have hcall : ∀ config written', task.operation = .append config written' →
      ∃ written, task.operation = .append config written := fun _ written h => ⟨written, h⟩
  unfold proceed
  cases hphase : task.phase with
  | locking =>
    have happlying : task.phase.isApplying = false := by rw [hphase]; rfl
    have hsupplying : task.phase.supplying = none := by rw [hphase]; rfl
    obtain ⟨stores, lockId, proposer, result, hwor⟩ :=
      callWor_cases s task (PaxosWriteOnceRegister.lock codec)
    simp only [hwor]
    cases result with
    | error e => exact .raise stores ht happlying hsupplying _ _
    | ok lockId =>
      cases lockId with
      | none => exact .works t stores ht happlying hsupplying hsupplying rfl hcall
      | some lockId => exact .works t stores ht happlying hsupplying rfl rfl hcall
  | writing lockId =>
    have happlying : task.phase.isApplying = false := by rw [hphase]; rfl
    have hsupplying : task.phase.supplying = none := by rw [hphase]; rfl
    cases hop : task.operation with
    | sync =>
      have hself : Function.update s.tasks t (some task) = s.tasks :=
        Function.update_eq_self_iff.mpr ht.symm
      have h : Moves configCodec registry s _ _ :=
        .works t s.stores ht happlying hsupplying hsupplying rfl hcall
      rw [hself] at h
      exact h
    | append config written =>
      obtain ⟨stores, lockId, proposer, result, hwor⟩ := callWor_cases s task
        (PaxosWriteOnceRegister.write codec lockId (configCodec.serialize config))
      simp only [hwor]
      cases result with
      | error e => exact .raise stores ht happlying hsupplying _ _
      | ok writeResponse =>
        refine .works t stores ht happlying hsupplying rfl rfl ?_
        intro c written' h
        obtain ⟨rfl, -⟩ := Operation.append.inj h
        exact ⟨written, hop⟩
  | reading =>
    have happlying : task.phase.isApplying = false := by rw [hphase]; rfl
    have hsupplying : task.phase.supplying = none := by rw [hphase]; rfl
    obtain ⟨stores, lockId, proposer, result, hwor⟩ :=
      callWor_cases s task (PaxosWriteOnceRegister.read codec)
    simp only [hwor]
    cases result with
    | error e => exact .raise stores ht happlying hsupplying _ _
    | ok readValue => exact .afterRead stores ht hphase readValue
  | applying worValue metadataConfig => exact .applies t worValue metadataConfig ht hphase
  | gettingVersion worValue result => exact .looksUp t worValue result ht hphase
  | gettingConfig versionId worValue result =>
    exact .writesBack t versionId worValue result ht hphase

/-- **What a step can do.** -/
theorem step_moves [DecidableEq A] {e : TaskEvent A κ τ}
    (h : s.step codec configCodec registry e = some s') : Moves configCodec registry s e s' := by
  have hbegin : ∀ t operation, (∀ u, e ≠ .proceed u) → s.begin registry t operation = some s' →
      Moves configCodec registry s e s' := by
    intro t operation he h
    unfold begin at h
    split at h
    · rename_i hidle
      obtain rfl := Option.some.inj h
      exact .begins t operation he (Option.isNone_iff_eq_none.mp hidle)
    · exact absurd h (by simp)
  cases e with
  | append t config => exact hbegin t _ (by simp) h
  | sync t => exact hbegin t _ (by simp) h
  | proceed t =>
    obtain ⟨task, ht, rfl⟩ := Option.map_eq_some_iff.mp h
    exact proceed_moves ht
  | others stores =>
    obtain rfl := Option.some.inj h
    exact .others stores

/-! ## While the registers are applied in order -/

/-- A task that is looking up the current configuration is looking up one that exists. -/
def LooksUpExisting (s : TaskedStateMachine A κ τ) : Prop :=
  ∀ t task versionId worValue result, s.tasks t = some task →
    task.phase = .gettingConfig versionId worValue result →
    (s.delegate.getConfig versionId).isSome

/-- The last register that was passed to `apply`. -/
def lastApplied (bootstrapConfig : MetadataConfig) (s : TaskedStateMachine A κ τ) : Int :=
  bootstrapConfig.startIndex + (appliedWorIds s.trace).length

/-- The register a task has applied and not yet written to `lastAppliedWorId_`. -/
def pending (s : TaskedStateMachine A κ τ) (t : τ) : Option Int :=
  (s.tasks t).bind fun task => task.phase.supplying.map fun _ => task.nextWorId

/-- Between an `apply` and the write to `lastAppliedWorId_` there is one task or none. -/
def OneAtATime (bootstrapConfig : MetadataConfig) (s : TaskedStateMachine A κ τ) : Prop :=
  (s.lastAppliedWorId = lastApplied bootstrapConfig s ∧ ∀ t, s.pending t = none) ∨
  (s.lastAppliedWorId + 1 = lastApplied bootstrapConfig s ∧
    ∃ t, s.pending t = some (lastApplied bootstrapConfig s) ∧ ∀ u, u ≠ t → s.pending u = none)

/-- As long as the registers have been applied in order, this holds. -/
structure Orderly (configCodec : Codec MetadataConfig String) (bootstrapConfig : MetadataConfig)
    (s : TaskedStateMachine A κ τ) : Prop where
  nextWorId_le : ∀ t task, s.tasks t = some task → task.nextWorId ≤ s.lastAppliedWorId + 1
  oneAtATime : OneAtATime bootstrapConfig s
  recorded : ∀ worId ∈ lastAppliedWorIds s.trace ++ [bootstrapConfig.startIndex],
    worId ≤ s.lastAppliedWorId
  monotone : (lastAppliedWorIds s.trace ++ [bootstrapConfig.startIndex]).Pairwise (· ≥ ·)
  /-- An append whose configuration has been accepted is the one that is about to return this, or
  it will never apply anything. -/
  accepted : ∀ t task config written, s.tasks t = some task →
    task.operation = .append config written →
    AcceptedSinceStart t (configCodec.serialize config) s.trace →
    task.phase.supplying = some (configCodec.serialize config, .trueType) ∨
      (task.phase.supplying = none ∧ task.nextWorId ≤ lastApplied bootstrapConfig s)
  truthful : Truthful configCodec s.trace

variable {bootstrapConfig : MetadataConfig} {e : TaskEvent A κ τ}

/-- A task after one has been replaced. -/
theorem task_of_update {x : Option (Task A)} {u : τ}
    (htasks : s'.tasks = Function.update s.tasks t x) (hu : s'.tasks u = some task) :
    (u = t ∧ x = some task) ∨ (u ≠ t ∧ s.tasks u = some task) :=
  Parties.eq_of_update (htasks ▸ hu)

omit [DecidableEq τ] in
theorem pending_of_task (ht : s.tasks t = some task) :
    s.pending t = task.phase.supplying.map fun _ => task.nextWorId := by
  unfold pending
  rw [ht]
  rfl

omit [DecidableEq τ] in
theorem pending_eq_none (ht : s.tasks t = some task) (h : task.phase.supplying = none) :
    s.pending t = none := by
  rw [pending_of_task ht, h]
  rfl

/-- Replacing a task by one that has the same to write back. -/
theorem pending_update {x : Option (Task A)} (htasks : s'.tasks = Function.update s.tasks t x)
    (hx : (x.bind fun task => task.phase.supplying.map fun _ => task.nextWorId) = s.pending t) :
    s'.pending = s.pending := by
  funext u
  by_cases hu : u = t
  · subst hu
    rw [← hx]
    unfold pending
    rw [htasks, Function.update_self]
  · unfold pending
    rw [htasks, Function.update_of_ne hu]

theorem pending_update_of_ne {x : Option (Task A)} {u : τ}
    (htasks : s'.tasks = Function.update s.tasks t x) (hu : u ≠ t) :
    s'.pending u = s.pending u := by
  unfold pending
  rw [htasks, Function.update_of_ne hu]

theorem pending_update_self {x : Option (Task A)}
    (htasks : s'.tasks = Function.update s.tasks t x) :
    s'.pending t = x.bind fun task => task.phase.supplying.map fun _ => task.nextWorId := by
  unfold pending
  rw [htasks, Function.update_self]

/-- **The frame of a step that neither applies a register nor writes one back.** -/
theorem Orderly.setTask (h : Orderly configCodec bootstrapConfig s) {x : Option (Task A)}
    (hlast : s'.lastAppliedWorId = s.lastAppliedWorId)
    (htasks : s'.tasks = Function.update s.tasks t x)
    (happlied : appliedWorIds s'.trace = appliedWorIds s.trace)
    (hrecorded : lastAppliedWorIds s'.trace = lastAppliedWorIds s.trace)
    (hpending : (x.bind fun task => task.phase.supplying.map fun _ => task.nextWorId) = s.pending t)
    (hnext : ∀ task, x = some task → task.nextWorId ≤ s.lastAppliedWorId + 1)
    (haccepted : ∀ task config written, x = some task → task.operation = .append config written →
      AcceptedSinceStart t (configCodec.serialize config) s'.trace →
      task.phase.supplying = some (configCodec.serialize config, .trueType) ∨
        (task.phase.supplying = none ∧ task.nextWorId ≤ lastApplied bootstrapConfig s))
    (hothers : ∀ u payload, u ≠ t → AcceptedSinceStart u payload s'.trace →
      AcceptedSinceStart u payload s.trace)
    (htruthful : Truthful configCodec s'.trace) : Orderly configCodec bootstrapConfig s' := by
  have hlastApplied : lastApplied bootstrapConfig s' = lastApplied bootstrapConfig s := by
    unfold lastApplied
    rw [happlied]
  constructor
  · intro u task hu
    rw [hlast]
    rcases task_of_update htasks hu with ⟨-, hx⟩ | ⟨-, hold⟩
    · exact hnext task hx
    · exact h.nextWorId_le u task hold
  · unfold OneAtATime
    rw [hlast, hlastApplied, pending_update htasks hpending]
    exact h.oneAtATime
  · rw [hlast, hrecorded]
    exact h.recorded
  · rw [hrecorded]
    exact h.monotone
  · intro u task config written hu hop hacc
    rw [hlastApplied]
    rcases task_of_update htasks hu with ⟨rfl, hx⟩ | ⟨hut, hold⟩
    · exact haccepted task config written hx hop hacc
    · exact h.accepted u task config written hold hop (hothers u _ hut hacc)
  · exact htruthful

/-- **An `apply` at the right time.** -/
theorem Orderly.applies (h : Orderly configCodec bootstrapConfig s) {worValue : String}
    {result : ApplicationResult} (ht : s.tasks t = some task) (hphase : task.phase.supplying = none)
    (hwor : task.nextWorId = s.lastAppliedWorId + 1) (hidle : ∀ u, s.pending u = none)
    (delegate : InMemoryMetadataStore) :
    Orderly configCodec bootstrapConfig { s with
      delegate := delegate
      tasks := Function.update s.tasks t
        (some { task with phase := .gettingVersion worValue result })
      trace := .applied t task.nextWorId worValue result :: s.trace } := by
  have hlast : s.lastAppliedWorId = lastApplied bootstrapConfig s := by
    rcases h.oneAtATime with ⟨hlast, -⟩ | ⟨-, u, hu, -⟩
    · exact hlast
    · exact absurd ((hidle u).symm.trans hu) (by simp)
  set s' : TaskedStateMachine A κ τ := { s with
      delegate := delegate
      tasks := Function.update s.tasks t
        (some { task with phase := .gettingVersion worValue result })
      trace := .applied t task.nextWorId worValue result :: s.trace }
  have htasks : s'.tasks = Function.update s.tasks t
      (some { task with phase := .gettingVersion worValue result }) := rfl
  have hlast' : lastApplied bootstrapConfig s' = lastApplied bootstrapConfig s + 1 := by
    show _ + ((task.nextWorId :: appliedWorIds s.trace).length : Int) = _
    unfold lastApplied
    rw [List.length_cons]
    push_cast
    omega
  constructor
  · intro u other hu
    rcases task_of_update htasks hu with ⟨-, hx⟩ | ⟨-, hold⟩
    · obtain rfl := Option.some.inj hx
      exact hwor.le
    · exact h.nextWorId_le u other hold
  · right
    refine ⟨?_, t, ?_, ?_⟩
    · rw [hlast', ← hlast]
    · have hself : s'.tasks t = some { task with phase := .gettingVersion worValue result } :=
        Function.update_self ..
      rw [pending_of_task hself, hlast', ← hlast, ← hwor]
      rfl
    · intro u hut
      have hother : s'.pending u = s.pending u := pending_update_of_ne rfl hut
      exact hother.trans (hidle u)
  · exact h.recorded
  · exact h.monotone
  · intro u other config written hu hop hacc
    rcases task_of_update htasks hu with ⟨rfl, hx⟩ | ⟨-, hold⟩
    · obtain rfl := Option.some.inj hx
      rcases hacc with ⟨hvalue, hresult⟩ | hbefore
      · left
        show some (worValue, result) = _
        rw [hvalue, hresult]
      · -- accepted before, and yet the next one to be applied
        rcases h.accepted u task config written ht hop hbefore with hsupplying | ⟨-, hle⟩
        · exact absurd (hphase.symm.trans hsupplying) (by simp)
        · omega
    · right
      constructor
      · have hnone := hidle u
        rw [pending_of_task hold] at hnone
        exact Option.map_eq_none_iff.mp hnone
      · have hle := h.nextWorId_le u other hold
        omega
  · exact h.truthful

/-- **The end of an iteration.** The task has written back what it had applied. -/
theorem Orderly.writesBack (h : Orderly configCodec bootstrapConfig s) {x : Option (Task A)}
    (ht : s.tasks t = some task) (hphase : task.phase.supplying ≠ none)
    (hlast : s'.lastAppliedWorId = task.nextWorId)
    (htasks : s'.tasks = Function.update s.tasks t x)
    (happlied : appliedWorIds s'.trace = appliedWorIds s.trace)
    (hrecorded : lastAppliedWorIds s'.trace = task.nextWorId :: lastAppliedWorIds s.trace)
    (hx : ∀ task', x = some task' →
      task'.phase.supplying = none ∧ task'.nextWorId ≤ task.nextWorId + 1)
    (haccepted : ∀ task' config written, x = some task' →
      task'.operation = .append config written →
      ¬ AcceptedSinceStart t (configCodec.serialize config) s'.trace)
    (hothers : ∀ u payload, u ≠ t → AcceptedSinceStart u payload s'.trace →
      AcceptedSinceStart u payload s.trace)
    (htruthful : Truthful configCodec s'.trace) : Orderly configCodec bootstrapConfig s' := by
  have hlastApplied : lastApplied bootstrapConfig s' = lastApplied bootstrapConfig s := by
    unfold lastApplied
    rw [happlied]
  have hpending : s.pending t = some task.nextWorId := by
    rw [pending_of_task ht]
    obtain ⟨p, hp⟩ := Option.ne_none_iff_exists'.mp hphase
    rw [hp]
    rfl
  -- the task is the one that is between its `apply` and its write
  obtain ⟨hnext, hwor, halone⟩ : s.lastAppliedWorId + 1 = lastApplied bootstrapConfig s ∧
      task.nextWorId = lastApplied bootstrapConfig s ∧ ∀ u, u ≠ t → s.pending u = none := by
    rcases h.oneAtATime with ⟨-, hnone⟩ | ⟨hnext, u, hu, halone⟩
    · exact absurd ((hnone t).symm.trans hpending) (by simp)
    · have htu : t = u := by
        by_contra hne
        exact absurd ((halone t hne).symm.trans hpending) (by simp)
      subst htu
      exact ⟨hnext, Option.some.inj (hpending.symm.trans hu), halone⟩
  constructor
  · intro u other hu
    rw [hlast]
    rcases task_of_update htasks hu with ⟨-, hnew⟩ | ⟨-, hold⟩
    · exact (hx other hnew).2
    · have hle := h.nextWorId_le u other hold
      omega
  · left
    refine ⟨by rw [hlast, hlastApplied, hwor], ?_⟩
    intro u
    by_cases hut : u = t
    · subst hut
      rw [pending_update_self htasks]
      cases hx' : x with
      | none => rfl
      | some task' =>
        show (task'.phase.supplying.map fun _ => task'.nextWorId) = none
        rw [(hx task' hx').1]
        rfl
    · rw [pending_update_of_ne htasks hut]
      exact halone u hut
  · intro worId hmem
    rw [hrecorded, List.cons_append, List.mem_cons] at hmem
    rw [hlast]
    rcases hmem with rfl | hmem
    · exact le_rfl
    · have hle := h.recorded worId hmem
      omega
  · rw [hrecorded, List.cons_append, List.pairwise_cons]
    refine ⟨?_, h.monotone⟩
    intro worId hmem
    have hle := h.recorded worId hmem
    omega
  · intro u other config written hu hop hacc
    rcases task_of_update htasks hu with ⟨rfl, hnew⟩ | ⟨hut, hold⟩
    · exact absurd hacc (haccepted other config written hnew hop)
    · rw [hlastApplied]
      exact h.accepted u other config written hold hop (hothers u _ hut hacc)
  · exact htruthful

/-! ## One step -/

omit [DecidableEq τ] in
theorem upToDate_of_not_applying (ht : s.tasks t = some task)
    (happlying : task.phase.isApplying = false) : UpToDate s (.proceed t) := by
  intro task' htask' happlying'
  obtain rfl := Option.some.inj (ht.symm.trans htask')
  exact absurd (happlying.symm.trans happlying') (by simp)

omit [DecidableEq τ] in
theorem upToDate_applies_iff (ht : s.tasks t = some task)
    (happlying : task.phase.isApplying = true) : UpToDate s (.proceed t) ↔
      task.nextWorId = s.lastAppliedWorId + 1 ∧ ∀ u, s.pending u = none := by
  constructor
  · intro h
    obtain ⟨hwor, hidle⟩ := h task ht happlying
    refine ⟨hwor, ?_⟩
    intro u
    cases hu : s.tasks u with
    | none =>
      unfold pending
      rw [hu]
      rfl
    | some other => exact pending_eq_none hu (hidle u other hu)
  · rintro ⟨hwor, hidle⟩ task' htask' -
    obtain rfl := Option.some.inj (ht.symm.trans htask')
    refine ⟨hwor, ?_⟩
    intro u other hu
    have hnone := hidle u
    rw [pending_of_task hu] at hnone
    exact Option.map_eq_none_iff.mp hnone

/-- What the end of `currentConfigSupplier_()` leaves of the trace. -/
theorem appliedWorIds_afterSupplier (s : TaskedStateMachine A κ τ) (t : τ) (task : Task A)
    (worValue : String) (result : ApplicationResult) (config : Option MetadataConfig) :
    appliedWorIds (s.afterSupplier configCodec registry t task worValue result config).trace =
      appliedWorIds s.trace := by
  unfold afterSupplier
  cases config with
  | none =>
    dsimp only
    unfold raise
    cases task.operation <;> rfl
  | some currentConfig =>
    dsimp only
    cases task.operation with
    | append config written =>
      dsimp only
      split <;> rfl
    | sync => rfl

/-- **The registers stay in order exactly if the step is up to date.** -/
theorem Moves.inOrder_iff (h : Orderly configCodec bootstrapConfig s)
    (hm : Moves configCodec registry s e s') :
    InOrder bootstrapConfig.startIndex (appliedWorIds s'.trace) ↔
      InOrder bootstrapConfig.startIndex (appliedWorIds s.trace) ∧ UpToDate s e := by
  cases hm with
  | others stores => exact (and_iff_left trivial).symm
  | begins t operation he ht =>
    refine (and_iff_left ?_).symm
    cases e with
    | append _ _ => trivial
    | sync _ => trivial
    | proceed u => exact absurd rfl (he u)
    | others _ => trivial
  | works t stores ht happlying _ _ _ _ =>
    exact (and_iff_left (upToDate_of_not_applying ht happlying)).symm
  | retries t stores ht happlying _ =>
    exact (and_iff_left (upToDate_of_not_applying ht happlying)).symm
  | gives t stores obs ht happlying _ hobs =>
    have happlied : appliedWorIds (obs :: s.trace) = appliedWorIds s.trace := by
      rcases hobs with ⟨config, result, rfl, -⟩ | ⟨result, rfl⟩
      · rfl
      · rfl
    show InOrder _ (appliedWorIds (obs :: s.trace)) ↔ _
    rw [happlied]
    exact (and_iff_left (upToDate_of_not_applying ht happlying)).symm
  | @applies t task worValue metadataConfig ht hphase =>
    rw [upToDate_applies_iff ht (by rw [hphase]; rfl)]
    show task.nextWorId = lastApplied bootstrapConfig s + 1 ∧ _ ↔ _
    have hle := h.nextWorId_le t task ht
    constructor
    · rintro ⟨hwor, hin⟩
      refine ⟨hin, ?_⟩
      -- a task that has yet to write back keeps `lastAppliedWorId_` too low
      rcases h.oneAtATime with ⟨hlast, hidle⟩ | ⟨hnext, -⟩
      · exact ⟨by omega, hidle⟩
      · omega
    · rintro ⟨hin, hwor, hidle⟩
      refine ⟨?_, hin⟩
      rcases h.oneAtATime with ⟨hlast, -⟩ | ⟨-, u, hu, -⟩
      · omega
      · exact absurd ((hidle u).symm.trans hu) (by simp)
  | looksUp t worValue result ht hphase =>
    exact (and_iff_left (upToDate_of_not_applying ht (by rw [hphase]; rfl))).symm
  | writesBack t versionId worValue result ht hphase =>
    rw [appliedWorIds_afterSupplier]
    exact (and_iff_left (upToDate_of_not_applying ht (by rw [hphase]; rfl))).symm

/-- A step that has a configuration to go on with keeps the order. -/
theorem Orderly.afterSupplier (h : Orderly configCodec bootstrapConfig s) {versionId : Int}
    {worValue : String} {result : ApplicationResult} (ht : s.tasks t = some task)
    (hphase : task.phase = .gettingConfig versionId worValue result)
    (currentConfig : MetadataConfig) :
    Orderly configCodec bootstrapConfig (s.afterSupplier configCodec registry t task worValue result
      (some currentConfig)) := by
  have hsupplying : task.phase.supplying = some (worValue, result) := by rw [hphase]; rfl
  have hne : task.phase.supplying ≠ none := by rw [hsupplying]; simp
  have hothers : ∀ (u : τ) (payload : String), u ≠ t → AcceptedSinceStart u payload s.trace →
      AcceptedSinceStart u payload s.trace := fun _ _ _ h => h
  -- an accepted configuration of the task itself is the one it has just applied
  have haccepted : ∀ config written, task.operation = .append config written →
      AcceptedSinceStart t (configCodec.serialize config) s.trace →
      worValue = configCodec.serialize config ∧ result = .trueType := by
    intro config written hop hacc
    rcases h.accepted t task config written ht hop hacc with hown | ⟨hnone, -⟩
    · exact Prod.mk.inj (Option.some.inj (hsupplying.symm.trans hown))
    · exact absurd hnone hne
  unfold TaskedStateMachine.afterSupplier
  dsimp only
  cases hop : task.operation with
  | append config written =>
    dsimp only
    split
    · refine h.writesBack ht hne rfl rfl rfl rfl (by simp) (by simp) hothers ⟨?_, h.truthful⟩
      intro hacc
      exact .inl (congrArg Except.ok (haccepted config written hop hacc).2)
    · rename_i hgo
      refine h.writesBack ht hne rfl rfl rfl rfl ?_ ?_ hothers h.truthful
      · intro task' htask'
        obtain rfl := Option.some.inj htask'
        exact ⟨rfl, le_rfl⟩
      · intro task' config' written' htask' hop' hacc
        obtain rfl := Option.some.inj htask'
        obtain ⟨rfl, -⟩ := Operation.append.inj hop'
        obtain ⟨rfl, -⟩ := haccepted config written hop hacc
        exact hgo (by simp)
  | sync =>
    refine h.writesBack ht hne rfl rfl rfl rfl ?_ ?_ hothers h.truthful
    · intro task' htask'
      obtain rfl := Option.some.inj htask'
      exact ⟨rfl, le_rfl⟩
    · intro task' config' written' htask' hop'
      obtain rfl := Option.some.inj htask'
      exact absurd hop' (by simp [iteration])

theorem LooksUpExisting.setTask (h : LooksUpExisting s) {x : Option (Task A)}
    (hdelegate : ∀ versionId, (s.delegate.getConfig versionId).isSome →
      (s'.delegate.getConfig versionId).isSome)
    (htasks : s'.tasks = Function.update s.tasks t x)
    (hx : ∀ task versionId worValue result, x = some task →
      task.phase = .gettingConfig versionId worValue result →
      (s'.delegate.getConfig versionId).isSome) : LooksUpExisting s' := by
  intro u task versionId worValue result hu hphase
  rcases task_of_update htasks hu with ⟨-, hnew⟩ | ⟨-, hold⟩
  · exact hx task versionId worValue result hnew hphase
  · exact hdelegate versionId (h u task versionId worValue result hold hphase)

omit [DecidableEq τ] in
theorem supplying_iteration (s : TaskedStateMachine A κ τ) (operation : Operation) :
    (s.iteration registry operation).phase.supplying = none := by
  cases operation <;> rfl

/-- A task that is not looking anything up. -/
theorem not_gettingConfig {versionId : Int} {worValue : String} {result : ApplicationResult}
    (h : task.phase.supplying = none) : task.phase ≠ .gettingConfig versionId worValue result := by
  intro hphase
  rw [hphase] at h
  exact absurd h (by simp [TaskPhase.supplying])

theorem tasks_afterSupplier (configCodec : Codec MetadataConfig String) (registry : String → A)
    (s : TaskedStateMachine A κ τ) (t : τ) (task : Task A) (worValue : String)
    (result : ApplicationResult) (config : Option MetadataConfig) :
    (s.afterSupplier configCodec registry t task worValue result config).delegate = s.delegate ∧
    ∃ x, (s.afterSupplier configCodec registry t task worValue result config).tasks =
        Function.update s.tasks t x ∧
      ∀ task', x = some task' → task'.phase.supplying = none := by
  have hiteration : ∀ (s : TaskedStateMachine A κ τ) operation (task' : Task A),
      some (s.iteration registry operation) = some task' → task'.phase.supplying = none := by
    intro s operation task' h
    obtain rfl := Option.some.inj h
    exact supplying_iteration s operation
  unfold afterSupplier
  cases config with
  | none =>
    dsimp only
    unfold raise
    cases task.operation with
    | append config written => exact ⟨rfl, none, rfl, by simp⟩
    | sync => exact ⟨rfl, none, rfl, by simp⟩
  | some currentConfig =>
    dsimp only
    cases task.operation with
    | append config written =>
      dsimp only
      split
      · exact ⟨rfl, none, rfl, by simp⟩
      · exact ⟨rfl, _, rfl, hiteration _ _⟩
    | sync => exact ⟨rfl, _, rfl, hiteration _ _⟩

/-- **Every version that is looked up exists**: the current version always does, and versions do not
disappear. -/
theorem LooksUpExisting.moves (h : LooksUpExisting s) (hm : Moves configCodec registry s e s') :
    LooksUpExisting s' := by
  cases hm with
  | others stores => exact h
  | begins t operation he ht =>
    refine h.setTask (fun _ hv => hv) rfl ?_
    intro task versionId worValue result htask
    obtain rfl := Option.some.inj htask
    exact fun hphase => absurd hphase (not_gettingConfig (supplying_iteration s operation))
  | works t stores ht happlying hphase hphase' hwor hcall =>
    refine h.setTask (fun _ hv => hv) rfl ?_
    intro task versionId worValue result htask
    obtain rfl := Option.some.inj htask
    exact fun hphase => absurd hphase (not_gettingConfig hphase')
  | retries t stores ht happlying hphase =>
    refine h.setTask (fun _ hv => hv) rfl ?_
    intro task versionId worValue result htask
    obtain rfl := Option.some.inj htask
    exact fun hphase => absurd hphase (not_gettingConfig (supplying_iteration s .sync))
  | gives t stores obs ht happlying hphase hobs =>
    exact h.setTask (fun _ hv => hv) rfl (by simp)
  | applies t worValue metadataConfig ht hphase =>
    refine h.setTask ?_ rfl ?_
    · intro versionId hv
      show ((MetadataStoreApplicator.apply s.delegate metadataConfig).1.getConfig versionId).isSome
      unfold MetadataStoreApplicator.apply
      cases happly : s.delegate.compareAndAppendRange metadataConfig with
      | error e => exact hv
      | ok delegate =>
        exact InMemoryMetadataStore.isSome_getConfig_of_compareAndAppendRange happly hv
    · intro task versionId value result htask
      obtain rfl := Option.some.inj htask
      simp
  | looksUp t worValue result ht hphase =>
    refine h.setTask (fun _ hv => hv) rfl ?_
    intro task versionId value result htask hphase
    obtain rfl := Option.some.inj htask
    obtain ⟨rfl, -, -⟩ := TaskPhase.gettingConfig.inj hphase
    obtain ⟨config, hconfig⟩ := s.delegate.getConfig_currentVersion
    exact Option.isSome_iff_exists.mpr ⟨config, hconfig⟩
  | @writesBack t task versionId worValue result ht hphase =>
    obtain ⟨hdelegate, x, htasks, hx⟩ := tasks_afterSupplier configCodec registry s t task worValue
      result (s.delegate.getConfig versionId)
    refine h.setTask ?_ htasks ?_
    · intro versionId' hv
      rw [hdelegate]
      exact hv
    · intro task' versionId' value result' htask' hphase'
      exact absurd hphase' (not_gettingConfig (hx task' htask'))

/-- **One step keeps the order**, as long as the registers have been applied in order. -/
theorem Orderly.moves (h : Orderly configCodec bootstrapConfig s) (hlooks : LooksUpExisting s)
    (hm : Moves configCodec registry s e s')
    (hin : InOrder bootstrapConfig.startIndex (appliedWorIds s'.trace)) :
    Orderly configCodec bootstrapConfig s' := by
  have hok := ((hm.inOrder_iff h).mp hin).2
  have hothers : ∀ (t u : τ) (payload : String), u ≠ t → AcceptedSinceStart u payload s.trace →
      AcceptedSinceStart u payload s.trace := fun _ _ _ _ h => h
  cases hm with
  | others stores => exact ⟨h.1, h.2, h.3, h.4, h.5, h.6⟩
  | begins t operation he ht =>
    refine h.setTask rfl rfl rfl rfl ?_ ?_ ?_ ?_ h.truthful
    · unfold pending
      rw [ht]
      cases operation <;> rfl
    · intro task htask
      obtain rfl := Option.some.inj htask
      exact le_rfl
    · intro task config written _ _ hacc
      exact absurd rfl hacc.1
    · intro u payload _ hacc
      exact hacc.2
  | works t stores ht happlying hphase hphase' hwor hcall =>
    refine h.setTask rfl rfl rfl rfl ?_ ?_ ?_ (hothers t) h.truthful
    · rw [pending_eq_none ht hphase, Option.bind_some, hphase']
      rfl
    · intro task' htask'
      obtain rfl := Option.some.inj htask'
      rw [hwor]
      exact h.nextWorId_le t _ ht
    · intro task' config written' htask' hop hacc
      obtain rfl := Option.some.inj htask'
      obtain ⟨written, hop⟩ := hcall config written' hop
      rcases h.accepted t _ config written ht hop hacc with hown | ⟨-, hle⟩
      · exact absurd (hphase.symm.trans hown) (by simp)
      · exact .inr ⟨hphase', hwor ▸ hle⟩
  | retries t stores ht happlying hphase =>
    refine h.setTask rfl rfl rfl rfl ?_ ?_ ?_ (hothers t) h.truthful
    · rw [pending_eq_none ht hphase]
      rfl
    · intro task htask
      obtain rfl := Option.some.inj htask
      exact le_rfl
    · intro task config written htask hop
      obtain rfl := Option.some.inj htask
      exact absurd hop (by simp [iteration])
  | gives t stores obs ht happlying hphase hobs =>
    have hpending := pending_eq_none ht hphase
    rcases hobs with ⟨config, result, rfl, hresult⟩ | ⟨result, rfl⟩
    · exact h.setTask rfl rfl rfl rfl hpending.symm (by simp) (by simp) (hothers t)
        ⟨fun _ => .inr hresult, h.truthful⟩
    · exact h.setTask rfl rfl rfl rfl hpending.symm (by simp) (by simp) (hothers t) h.truthful
  | applies t worValue metadataConfig ht hphase =>
    obtain ⟨hwor, hidle⟩ := (upToDate_applies_iff ht (by rw [hphase]; rfl)).mp hok
    exact h.applies ht (by rw [hphase]; rfl) hwor hidle _
  | looksUp t worValue result ht hphase =>
    refine h.setTask rfl rfl rfl rfl ?_ ?_ ?_ (hothers t) h.truthful
    · rw [pending_of_task ht, hphase]
      rfl
    · intro task' htask'
      obtain rfl := Option.some.inj htask'
      have hle := h.nextWorId_le t _ ht
      exact hle
    · intro task' config written htask' hop hacc
      obtain rfl := Option.some.inj htask'
      have hacc' := h.accepted t _ config written ht hop hacc
      rw [hphase] at hacc'
      exact hacc'
  | writesBack t versionId worValue result ht hphase =>
    obtain ⟨currentConfig, hconfig⟩ :=
      Option.isSome_iff_exists.mp (hlooks t _ versionId worValue result ht hphase)
    rw [hconfig]
    exact h.afterSupplier ht hphase currentConfig

/-! ## Runs -/

/-- What every step keeps. -/
def TasksInv (configCodec : Codec MetadataConfig String) (bootstrapConfig : MetadataConfig)
    (s : TaskedStateMachine A κ τ) : Prop :=
  LooksUpExisting s ∧ (InOrder bootstrapConfig.startIndex (appliedWorIds s.trace) →
    Orderly configCodec bootstrapConfig s)

omit [DecidableEq τ] in
theorem tasksInv_make (stores : A → κ) :
    TasksInv (τ := τ) configCodec bootstrapConfig (make bootstrapConfig stores) := by
  refine ⟨fun t task versionId worValue result ht => absurd ht (by simp [make]), ?_⟩
  intro _
  constructor
  · intro t task ht
    exact absurd ht (by simp [make])
  · left
    refine ⟨?_, fun t => rfl⟩
    show bootstrapConfig.startIndex = bootstrapConfig.startIndex + ((0 : Nat) : Int)
    omega
  · intro worId hmem
    obtain rfl := List.mem_singleton.mp hmem
    exact le_rfl
  · exact List.pairwise_singleton _ _
  · intro t task config written ht
    exact absurd ht (by simp [make])
  · trivial

/-- The beginning of a trace in order is in order. -/
theorem Moves.inOrder_of_inOrder (hm : Moves configCodec registry s e s')
    (hin : InOrder bootstrapConfig.startIndex (appliedWorIds s'.trace)) :
    InOrder bootstrapConfig.startIndex (appliedWorIds s.trace) := by
  cases hm with
  | others stores => exact hin
  | begins t operation he ht => exact hin
  | works t stores ht happlying hphase hphase' hwor hcall => exact hin
  | retries t stores ht happlying hphase => exact hin
  | gives t stores obs ht happlying hphase hobs =>
    rcases hobs with ⟨config, result, rfl, -⟩ | ⟨result, rfl⟩
    · exact hin
    · exact hin
  | applies t worValue metadataConfig ht hphase => exact hin.2
  | looksUp t worValue result ht hphase => exact hin
  | writesBack t versionId worValue result ht hphase =>
    rw [appliedWorIds_afterSupplier] at hin
    exact hin

theorem TasksInv.moves (h : TasksInv configCodec bootstrapConfig s)
    (hm : Moves configCodec registry s e s') : TasksInv configCodec bootstrapConfig s' :=
  ⟨h.1.moves hm, fun hin => (h.2 (hm.inOrder_of_inOrder hin)).moves h.1 hm hin⟩

omit [DecidableEq τ] in
/-- The other two parts follow from the first. -/
theorem TasksInv.appliedOnceInOrder_iff (h : TasksInv configCodec bootstrapConfig s) :
    AppliedOnceInOrder configCodec bootstrapConfig s ↔
      InOrder bootstrapConfig.startIndex (appliedWorIds s.trace) := by
  constructor
  · intro hall
    exact hall.inOrder
  · intro hin
    exact ⟨hin, (h.2 hin).monotone, (h.2 hin).truthful⟩

theorem TasksInv.step_iff (h : TasksInv configCodec bootstrapConfig s)
    (hm : Moves configCodec registry s e s') :
    AppliedOnceInOrder configCodec bootstrapConfig s' ↔
      AppliedOnceInOrder configCodec bootstrapConfig s ∧ UpToDate s e := by
  rw [(h.moves hm).appliedOnceInOrder_iff, h.appliedOnceInOrder_iff]
  constructor
  · intro hin
    exact (hm.inOrder_iff (h.2 (hm.inOrder_of_inOrder hin))).mp hin
  · intro hboth
    exact (hm.inOrder_iff (h.2 hboth.1)).mpr hboth

end TaskedStateMachine

open TaskedStateMachine

section run

variable {A κ τ β : Type} [DecidableEq A] [DecidableEq τ] [KVStoreLite κ β]
variable (codec : Codec PaxosInstance β) (configCodec : Codec MetadataConfig String)
  (registry : String → A)

/-- **The registers are applied once and in order, exactly in the runs whose steps are all up to
date**: at every `apply` the task's register is the one after `lastAppliedWorId_`, and no other task
has applied one that it has not yet written back. -/
theorem applied_once_in_order_iff (bootstrapConfig : MetadataConfig) (stores : A → κ)
    (events : List (TaskEvent A κ τ)) {s : TaskedStateMachine A κ τ}
    (h : Transition.run (TaskedStateMachine.step codec configCodec registry)
      (TaskedStateMachine.make bootstrapConfig stores) events = some s) :
    AppliedOnceInOrder configCodec bootstrapConfig s ↔
      Transition.Meets (TaskedStateMachine.step codec configCodec registry) UpToDate
        (TaskedStateMachine.make bootstrapConfig stores) events := by
  have hinv : TasksInv (τ := τ) configCodec bootstrapConfig (make bootstrapConfig stores) :=
    tasksInv_make stores
  rw [Transition.run_iff_meets (I := TasksInv configCodec bootstrapConfig)
    (P := AppliedOnceInOrder configCodec bootstrapConfig)
    (fun s e s' hs hstep => hs.moves (step_moves hstep))
    (fun s e s' hs hstep => hs.step_iff (step_moves hstep)) h hinv]
  exact and_iff_right (hinv.appliedOnceInOrder_iff.mpr trivial)

instance UpToDate.decidable [Fintype τ] (s : TaskedStateMachine A κ τ) :
    ∀ e, Decidable (UpToDate s e)
  | .proceed t => inferInstanceAs (Decidable (∀ task ∈ s.tasks t, task.phase.isApplying = true →
      task.nextWorId = s.lastAppliedWorId + 1 ∧
        ∀ u, ∀ other ∈ s.tasks u, other.phase.supplying = none))
  | .append _ _ | .sync _ | .others _ => isTrue trivial

end run

/-- Two tasks on a machine whose registers are all decided by the acceptor "a". -/
def twoTasks : TaskedStateMachine String (RocksStore PaxosInstance) Bool :=
  .make { replicaSetConfig := [{ id := "a" }] } fun _ => RocksStore.provideSharedPtr true

/-- A configuration of the acceptor "a". -/
def successor (versionId : Int) : MetadataConfig where
  versionId := versionId
  previousVersionId := versionId - 1
  replicaSetConfig := [{ id := "a" }]

/-- An append with a `sync` before it is decided, and another one after it has returned. -/
def appendBetweenSyncs : List (TaskEvent String (RocksStore PaxosInstance) Bool) :=
  [.append false (successor 1), .sync true, .proceed false, .proceed true] ++
    List.replicate 5 (.proceed false) ++ [.sync true, .proceed true]

theorem applied_once_in_order_iff_between_syncs :
    ∃ s, Transition.run (TaskedStateMachine.step (Codec.identity PaxosInstance)
        MetadataConfig.wireCodec id) twoTasks appendBetweenSyncs = some s ∧
      AppliedOnceInOrder MetadataConfig.wireCodec { replicaSetConfig := [{ id := "a" }] } s ∧
      appliedWorIds s.trace = [1] := by
  have hmeets : Transition.Meets (TaskedStateMachine.step (Codec.identity PaxosInstance)
      MetadataConfig.wireCodec id) UpToDate twoTasks appendBetweenSyncs := by decide +kernel
  have happlied : (Transition.run (TaskedStateMachine.step (Codec.identity PaxosInstance)
      MetadataConfig.wireCodec id) twoTasks appendBetweenSyncs).map (appliedWorIds ·.trace) =
      some [1] := by decide +kernel
  obtain ⟨s, hrun, htrace⟩ := Option.map_eq_some_iff.mp happlied
  exact ⟨s, hrun, (applied_once_in_order_iff _ _ id _ _ _ hrun).mpr hmeets, htrace⟩

/-- Task `false` gets its configuration into register 1, and is about to read it back. Task `true`
reads it first, applies it, goes on to register 2 with its own configuration, and returns. Then task
`false` goes on. -/
def overtaken : List (TaskEvent String (RocksStore PaxosInstance) Bool) :=
  [.append false (successor 1), .proceed false, .proceed false, .append true (successor 2)] ++
    List.replicate 13 (.proceed true) ++ List.replicate 4 (.proceed false)

/-- **A register is applied twice.** Register 1 is applied again after register 2,
`lastAppliedWorId_` goes from 2 back to 1, and task `false` is told of an
`OptimisticConcurrencyException`, although the store has its configuration. -/
theorem applied_twice_when_overtaken :
    ∃ s, Transition.run (TaskedStateMachine.step (Codec.identity PaxosInstance)
        MetadataConfig.wireCodec id) twoTasks overtaken = some s ∧
      ¬ InOrder 0 (appliedWorIds s.trace) ∧
      ¬ (lastAppliedWorIds s.trace ++ [0]).Pairwise (· ≥ ·) ∧
      ¬ Truthful MetadataConfig.wireCodec s.trace := by
  have htrace : (Transition.run (TaskedStateMachine.step (Codec.identity PaxosInstance)
      MetadataConfig.wireCodec id) twoTasks overtaken).map (·.trace) = some
        [.appendReturned false (successor 1) (.ok (.applicationErrors .optimisticConcurrency)),
          .lastApplied 1,
          .applied false 1 (MetadataConfig.wireCodec.serialize (successor 1))
            (.applicationErrors .optimisticConcurrency),
          .appendReturned true (successor 2) (.ok .trueType), .lastApplied 2,
          .applied true 2 (MetadataConfig.wireCodec.serialize (successor 2)) .trueType,
          .lastApplied 1,
          .applied true 1 (MetadataConfig.wireCodec.serialize (successor 1)) .trueType,
          .started true, .started false] := by decide +kernel
  obtain ⟨s, hrun, hs⟩ := Option.map_eq_some_iff.mp htrace
  refine ⟨s, hrun, ?_⟩
  rw [hs]
  refine ⟨?_, by decide, ?_⟩
  · intro hin
    exact absurd hin.1 (by decide)
  · intro htruthful
    -- accepted when task `true` applied it
    rcases htruthful.1 (.inr (.inr (.inl ⟨rfl, rfl⟩))) with hok | ⟨e, herror⟩ | hwrapper
    · exact absurd hok (by decide)
    · exact absurd herror (by simp)
    · exact absurd hwrapper (by decide)

end ReplicatedCounter.Metadata
