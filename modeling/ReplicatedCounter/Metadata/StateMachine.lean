import ReplicatedCounter.Lib.Wire
import ReplicatedCounter.Metadata.InMemoryMetadataStore
import ReplicatedCounter.Paxos.World

/-!
# `MetadataStoreStateMachine` and `PersistentMetadataStore`

A node replays a chain of write-once registers into its own `InMemoryMetadataStore`, the delegate.
Register `k + 1` is made with the acceptors of the configuration in force after register `k`, so
the chain decides who decides its next element.

`append` and `sync` are loops around register calls. Between two of those calls a node only
computes, so a node is driven by what its register returns: `resume` is the piece of the loop from
one `co_await` to the next. While a call is running, the acceptor steps of all nodes interleave
freely (`SystemEvent.progress`); each node runs one operation at a time. A node that stops is one
that no later event names.
-/

set_option autoImplicit false

namespace ReplicatedCounter.Metadata

open Paxos

/-! ## Configurations as register values -/

instance : Wire IpAddress := .ofEquiv (fun a => (a.host, a.port)) (fun p => ⟨p.1, p.2⟩) fun _ => rfl

instance : Wire SequencerConfig :=
  .ofEquiv (fun c => (c.id, c.ipAddress)) (fun p => ⟨p.1, p.2⟩) fun _ => rfl

instance : Wire ReplicaConfig :=
  .ofEquiv (fun c => (c.id, c.ipAddress, c.isLocal)) (fun p => ⟨p.1, p.2.1, p.2.2⟩) fun _ => rfl

instance : Wire MetadataConfig :=
  .ofEquiv
    (fun c => (c.versionId, c.previousVersionId, c.startIndex, c.endIndex,
      c.previousVersionEndIndex, c.sequencerConfig, c.replicaSetConfig))
    (fun p => ⟨p.1, p.2.1, p.2.2.1, p.2.2.2.1, p.2.2.2.2.1, p.2.2.2.2.2.1, p.2.2.2.2.2.2⟩)
    fun _ => rfl

/-- One way to write configurations. The results hold for any; this one can be run. -/
def MetadataConfig.wireCodec : Codec MetadataConfig String where
  serialize := Wire.serialize
  parse := Wire.parse
  parse_serialize := Wire.parse_serialize

/-! ## `statemachine/MetadataStoreApplicator.h` -/

/-- `ApplicationResult`. -/
inductive ApplicationResult where
  | trueType
  | applicationErrors (error : MetadataError)
  | exceptionWrapper (what : String)
  deriving DecidableEq, Repr

/-- `MetadataStoreApplicator::apply`: a rejected configuration is skipped. -/
def MetadataStoreApplicator.apply (metadataStore : InMemoryMetadataStore)
    (metadataConfig : MetadataConfig) : InMemoryMetadataStore × ApplicationResult :=
  match metadataStore.compareAndAppendRange metadataConfig with
  | .ok metadataStore => (metadataStore, .trueType)
  | .error e => (metadataStore, .applicationErrors e)

/-! ## `statemachine/MetadataStoreStateMachine.h` -/

/-- The operation a node is in the middle of. -/
inductive Operation where
  | append (config : MetadataConfig) (successfullyWritten : Bool)
  | sync
  deriving DecidableEq, Repr

/-- A `MetadataStoreStateMachine` with the store its applicator writes to. -/
structure MetadataStoreStateMachine where
  currentConfig : MetadataConfig
  lastAppliedWorId : Int
  delegate : InMemoryMetadataStore := {}
  operation : Option Operation := none

/-- `makeMetadataStoreStateMachine` with an empty delegate. -/
def makeMetadataStoreStateMachine (bootstrapConfig : MetadataConfig) :
    MetadataStoreStateMachine where
  currentConfig := bootstrapConfig
  lastAppliedWorId := bootstrapConfig.startIndex

/-- `currentConfigSupplier`; `none` is its `"metadata config not found"`. -/
def currentConfigSupplier (metadataStore : InMemoryMetadataStore) : Option MetadataConfig :=
  metadataStore.getConfig metadataStore.getCurrentVersionId

/-- What ends `compareAndAppendRange` other than a normal return. -/
inductive AppendException where
  | metadata (error : MetadataError)
  | runtimeError (what : String)
  | acceptor (error : AcceptorError)
  deriving DecidableEq

/-- `PersistentMetadataStore::compareAndAppendRange`, after `append` has returned. -/
def unwrapResult : ApplicationResult → Except AppendException Unit
  | .trueType => .ok ()
  | .applicationErrors e => .error (.metadata e)
  | .exceptionWrapper what => .error (.runtimeError what)

/-- What a finished operation returns to its caller. -/
inductive SystemOutput (ν : Type) where
  | compareAndAppendRange (n : ν) (config : MetadataConfig) (result : Except AppendException Unit)
  | sync (n : ν) (result : Except AppendException Unit)

/-! ## All nodes over the same acceptors -/

/-- The acceptors with the nodes' current registers, and the nodes. -/
structure System (A ν κ : Type) where
  world : World A ν κ
  nodes : ν → MetadataStoreStateMachine

inductive SystemEvent (A ν : Type) where
  /-- A client calls `compareAndAppendRange` on a node. -/
  | append (n : ν) (config : MetadataConfig)
  /-- A client calls one of the node's read operations, each of which starts with `sync`. -/
  | sync (n : ν)
  /-- A register call makes one step, and if that ends it, its caller goes on. -/
  | progress (e : Paxos.Event A ν)

namespace System

variable {A ν κ β : Type} [DecidableEq A] [DecidableEq ν] [KVStoreLite κ β]
variable (codec : Codec PaxosInstance β) (configCodec : Codec MetadataConfig String)
  (registry : String → A)

/-- `makePaxosWor(lastAppliedWorId_ + 1, currentConfig_.replica_set_config(), registry_)` and the
first call on the new register. -/
def nextWor (w : World A ν κ) (n : ν) (node : MetadataStoreStateMachine)
    (call : Paxos.Event A ν) : Option (World A ν κ) := do
  let w ← w.next codec (.make n (node.lastAppliedWorId + 1)
    (node.currentConfig.replicaSetConfig.map fun replicaConfig => registry replicaConfig.id))
  w.next codec call

/-- `apply`, then the new current configuration and the new last applied register; no result when
the supplier throws in between. -/
def applyWorValue (node : MetadataStoreStateMachine) (metadataConfig : MetadataConfig) :
    MetadataStoreStateMachine × Option ApplicationResult :=
  let (delegate, result) := MetadataStoreApplicator.apply node.delegate metadataConfig
  let node := { node with delegate := delegate }
  match currentConfigSupplier delegate with
  | none => (node, none)
  | some currentConfig =>
    ({ node with
      currentConfig := currentConfig
      lastAppliedWorId := node.lastAppliedWorId + 1 }, some result)

/-- The loops of `append`, from what the register returned to the next `co_await` or `co_return`. -/
def resumeAppend (w : World A ν κ) (n : ν) (node : MetadataStoreStateMachine)
    (config : MetadataConfig) (successfullyWritten : Bool) :
    Output → Option (World A ν κ × MetadataStoreStateMachine × Option (SystemOutput ν))
  | .lockReturned none => do return (← w.next codec (.lock n), node, none)
  | .lockReturned (some lockId) => do
    return (← w.next codec (.write n lockId (configCodec.serialize config)), node, none)
  | .writeReturned writeResponse => do
    return (← w.next codec (.read n),
      { node with operation := some (.append config (successfullyWritten || writeResponse)) }, none)
  | .readReturned none => do return (← w.next codec (.lock n), node, none)
  | .readReturned (some worValue) =>
    match configCodec.parse worValue with
    | none =>
      some (w, { node with operation := none }, some (.compareAndAppendRange n config
        (unwrapResult (.exceptionWrapper "protobuf parse error"))))
    | some metadataConfig =>
      match applyWorValue node metadataConfig with
      | (node, none) =>
        some (w, { node with operation := none }, some (.compareAndAppendRange n config
          (.error (.runtimeError "metadata config not found"))))
      | (node, some result) =>
        if successfullyWritten || worValue == configCodec.serialize config then
          some (w, { node with operation := none },
            some (.compareAndAppendRange n config (unwrapResult result)))
        else do return (← nextWor codec registry w n node (.lock n), node, none)
  | .threw e =>
    some (w, { node with operation := none },
      some (.compareAndAppendRange n config (.error (.acceptor e))))

/-- The loop of `sync`. -/
def resumeSync (w : World A ν κ) (n : ν) (node : MetadataStoreStateMachine) :
    Output → Option (World A ν κ × MetadataStoreStateMachine × Option (SystemOutput ν))
  | .readReturned none => some (w, { node with operation := none }, some (.sync n (.ok ())))
  | .readReturned (some worValue) =>
    match configCodec.parse worValue with
    | none =>
      some (w, { node with operation := none },
        some (.sync n (.error (.runtimeError "protobuf parse error"))))
    | some metadataConfig =>
      match applyWorValue node metadataConfig with
      | (node, none) =>
        some (w, { node with operation := none },
          some (.sync n (.error (.runtimeError "metadata config not found"))))
      | (node, some _) => do return (← nextWor codec registry w n node (.read n), node, none)
  | .threw e =>
    some (w, { node with operation := none }, some (.sync n (.error (.acceptor e))))
  | .lockReturned _ | .writeReturned _ => none

/-- A node goes on with what its register call returned. -/
def resume (w : World A ν κ) (n : ν) (node : MetadataStoreStateMachine) (output : Output) :
    Option (World A ν κ × MetadataStoreStateMachine × Option (SystemOutput ν)) :=
  match node.operation with
  | none => none
  | some (.append config successfullyWritten) =>
    resumeAppend codec configCodec registry w n node config successfullyWritten output
  | some .sync => resumeSync codec configCodec registry w n node output

/-- Replace a node. -/
def setNode (s : System A ν κ) (w : World A ν κ) (n : ν) (node : MetadataStoreStateMachine) :
    System A ν κ where
  world := w
  nodes := Function.update s.nodes n node

/-- One event, and what an operation that ends with it returns. -/
def step (s : System A ν κ) :
    SystemEvent A ν → Option (System A ν κ × Option (SystemOutput ν))
  | .append n config =>
    if (s.nodes n).operation.isNone then do
      let node := { s.nodes n with operation := some (.append config false) }
      return (s.setNode (← nextWor codec registry s.world n node (.lock n)) n node, none)
    else none
  | .sync n =>
    if (s.nodes n).operation.isNone then do
      let node := { s.nodes n with operation := some .sync }
      return (s.setNode (← nextWor codec registry s.world n node (.read n)) n node, none)
    else none
  | .progress e =>
    if e.IsCall then none
    else do
      let (w, output) ← s.world.step codec e
      match e.owner, output with
      | some n, some output =>
        let (w, node, out) ← resume codec configCodec registry w n (s.nodes n) output
        return (s.setNode w n node, out)
      | _, _ => return ({ s with world := w }, none)

/-- The step without the returned value. -/
def next (s : System A ν κ) (e : SystemEvent A ν) : Option (System A ν κ) :=
  (s.step codec configCodec registry e).map (·.1)

/-- Nothing has happened yet, and every node has been started from the same configuration. -/
structure Initial (bootstrapConfig : MetadataConfig) (s : System A ν κ) : Prop where
  world : s.world.Initial
  nodes : ∀ n, s.nodes n = makeMetadataStoreStateMachine bootstrapConfig

/-! ## What an event does -/

section cases

variable {codec configCodec registry} {s s' : System A ν κ} {n : ν}
  {out : Option (SystemOutput ν)}

/-- An idle node begins to append. -/
theorem step_append_cases {config : MetadataConfig}
    (hs : s.step codec configCodec registry (.append n config) = some (s', out)) :
    ∃ w, nextWor codec registry s.world n
        { s.nodes n with operation := some (.append config false) } (.lock n) = some w ∧
      s' = s.setNode w n { s.nodes n with operation := some (.append config false) } ∧
      out = none := by
  simp only [step] at hs
  split at hs
  · simp only [bind, pure, Option.bind_eq_some_iff, Option.some.injEq, Prod.mk.injEq] at hs
    obtain ⟨w, hnext, rfl, rfl⟩ := hs
    exact ⟨w, hnext, rfl, rfl⟩
  · cases hs

/-- An idle node begins to catch up. -/
theorem step_sync_cases (hs : s.step codec configCodec registry (.sync n) = some (s', out)) :
    ∃ w, nextWor codec registry s.world n
        { s.nodes n with operation := some .sync } (.read n) = some w ∧
      s' = s.setNode w n { s.nodes n with operation := some .sync } ∧ out = none := by
  simp only [step] at hs
  split at hs
  · simp only [bind, pure, Option.bind_eq_some_iff, Option.some.injEq, Prod.mk.injEq] at hs
    obtain ⟨w, hnext, rfl, rfl⟩ := hs
    exact ⟨w, hnext, rfl, rfl⟩
  · cases hs

/-- **A register call makes a step.** If that ends it, its node goes on, and otherwise no node
moves. -/
theorem step_progress_cases {e : Paxos.Event A ν}
    (hs : s.step codec configCodec registry (.progress e) = some (s', out)) :
    e.IsCall = false ∧ ∃ w output, s.world.step codec e = some (w, output) ∧
      ((∃ n value w' node', e.owner = some n ∧ output = some value ∧
          resume codec configCodec registry w n (s.nodes n) value = some (w', node', out) ∧
          s' = s.setNode w' n node') ∨
        (e.owner = none ∨ output = none) ∧ s' = { s with world := w } ∧ out = none) := by
  simp only [step] at hs
  split at hs
  · cases hs
  · rename_i he
    simp only [bind, pure, Option.bind_eq_some_iff, Prod.exists] at hs
    obtain ⟨w, output, hstep, hs⟩ := hs
    refine ⟨by simpa using he, w, output, hstep, ?_⟩
    cases howner : e.owner with
    | none =>
      rw [howner] at hs
      cases hs
      exact .inr ⟨.inl rfl, rfl, rfl⟩
    | some n =>
      rw [howner] at hs
      cases output with
      | none =>
        cases hs
        exact .inr ⟨.inr rfl, rfl, rfl⟩
      | some value =>
        simp only [Option.bind_eq_some_iff, Prod.exists, Option.some.injEq, Prod.mk.injEq] at hs
        obtain ⟨w', node', _, hresume, rfl, rfl⟩ := hs
        exact .inl ⟨n, value, w', node', rfl, rfl, hresume, rfl⟩

end cases

end System

end ReplicatedCounter.Metadata
