import ReplicatedCounter.Log.System
import ReplicatedCounter.Metadata.ConfigChain

/-!
# `log/impl/FailureDetectorImpl.cc`, and what a `VirtualLogImpl` has installed

`System.lean` has the log as its replicas see it: a client may append to any sequencer that has ever
been started. Which one it does append to is in the state of its `VirtualLogImpl`, the
configuration and the sequencer that `setState` has installed last. Two calls install: the end of
`reconfigure`, and `refreshConfiguration`. Both are made by the failure detector of the node, each
by a loop of its own: one looks after the health of the ensemble and refreshes when it is bad, and
the other reconfigures while it is.

The state of a `VirtualLogImpl` is not guarded. As long as the two loops are not in it at the same
time, all is well: no `CHECK` fails, the version that is installed never goes back, and the
sequencer of each version is started once, in that version and with its first id
(`views_installed`, `refreshed_views_current`). But nothing keeps the loops apart, and then a
refresh can find that a newer version is installed than the one it has just read, which is a failed
`CHECK`; or put the older one back, so that the other loop starts the sequencer of the older
version for the newer (`overlapping_calls`).

A call is cut in front of each call of the metadata store, and where it goes on after one. What
`reconfigure` does before it proposes its configuration is in `System.lean`; here it finds some
`maxLogId`.
-/

set_option autoImplicit false

namespace ReplicatedCounter.Log

open Metadata

/-! ## The source -/

/-- The sequencers of `log/impl/RegistryImpl.h`. -/
structure RegistryImpl (σ : Type) where
  sequencers : String → Option σ := fun _ => none

namespace RegistryImpl

variable {σ : Type}

/-- `RegistryImpl::registerSequencer`: the first one of an id stays. -/
def registerSequencer (r : RegistryImpl σ) (id : String) (sequencer : σ) : RegistryImpl σ :=
  match r.sequencers id with
  | some _ => r
  | none => { sequencers := Function.update r.sequencers id (some sequencer) }

/-- `RegistryImpl::sequencer`; `none` is the null pointer. -/
def sequencer (r : RegistryImpl σ) (sequencerId : String) : Option σ :=
  r.sequencers sequencerId

end RegistryImpl

/-- `VirtualLogImpl::State`, and the registry. The sequencer of the constructor is the
`NullSequencer`, which is `none` here. -/
structure VirtualLogImpl (σ : Type) where
  metadataConfig : MetadataConfig := {}
  sequencer : Option σ := none
  registry : RegistryImpl σ

/-- What of `server::ServerConfig` the failure detector reads. -/
structure ServerConfig where
  sequencerId : String
  replicaSet : List String := []
  deriving DecidableEq

/-- The configuration that the reconciliation loop asks for. -/
def ServerConfig.target (c : ServerConfig) : MetadataConfig where
  sequencerConfig := { id := c.sequencerId }
  replicaSetConfig := c.replicaSet.map fun id => { id }

/-- The configuration that `VirtualLogImpl::reconfigure` proposes. -/
def VirtualLogImpl.newConfig (versionId maxLogId : Int) (targetMetadataConfig : MetadataConfig) :
    MetadataConfig where
  versionId := versionId + 1
  previousVersionId := versionId
  startIndex := maxLogId
  endIndex := highestNonExistingLogId
  previousVersionEndIndex := maxLogId
  sequencerConfig := targetMetadataConfig.sequencerConfig
  replicaSetConfig := targetMetadataConfig.replicaSetConfig

/-- The proposal of `System.lean`. -/
theorem Reconfigure.newConfig_eq {N : Nat} (task : Reconfigure N) :
    task.newConfig =
      VirtualLogImpl.newConfig task.versionId task.maxLogId task.targetMetadataConfig := rfl

/-- What follows a `setState`. -/
inductive AfterSetState where
  | refreshed
  /-- `state_->sequencer->start(…)`. -/
  | start (newConfig : MetadataConfig)
  /-- `co_return *(co_await metadataStore_->getConfig(newVersionId))`. -/
  | getConfig (versionId : Int)
  deriving DecidableEq

/-- Where a call of `refreshConfiguration` or `reconfigure` stands. -/
inductive CallPhase where
  | refreshConfiguration
  | refreshing (versionId : Int)
  | reconfigure (targetMetadataConfig : MetadataConfig)
  | replicating (versionId : Int) (targetMetadataConfig : MetadataConfig)
  /-- Some other replica was able to install metadata. -/
  | overtaken
  | setState (versionId : Int) (next : AfterSetState)
  | installing (config : MetadataConfig) (next : AfterSetState)
  | starting (newConfig : MetadataConfig)
  | returning (versionId : Int)
  deriving DecidableEq

/-- What its caller goes on with. -/
def AfterSetState.call : AfterSetState → Option CallPhase
  | .refreshed => none
  | .start newConfig => some (.starting newConfig)
  | .getConfig versionId => some (.returning versionId)

/-- The loops of `FailureDetectorImpl`. -/
inductive Loop where
  | healthCheck
  | reconcile
  deriving DecidableEq

/-- A node: its `FailureDetectorImpl` and its `VirtualLogImpl`. -/
structure EnsembleNode (σ : Type) where
  virtualLog : VirtualLogImpl σ
  logServerConfig : ServerConfig
  healthCheckRecords : List Bool := List.replicate 5 false
  ensembleAlive : Bool := false
  calls : Loop → Option CallPhase := fun _ => none
  /-- A `CHECK` has failed, or an empty `optional` was dereferenced. -/
  crashed : Bool := false

/-- The nodes and the metadata store. `started` is the record of the calls of `Sequencer::start`. -/
structure Ensemble (ι σ : Type) where
  metadataStore : InMemoryMetadataStore := {}
  nodes : ι → EnsembleNode σ
  started : List (σ × Int × Int) := []

namespace EnsembleNode

variable {σ : Type}

def setCall (node : EnsembleNode σ) (loop : Loop) (call : Option CallPhase) : EnsembleNode σ :=
  { node with calls := Function.update node.calls loop call }

@[simp] theorem setCall_calls_self (node : EnsembleNode σ) (loop : Loop)
    (call : Option CallPhase) : (node.setCall loop call).calls loop = call :=
  Function.update_self ..

theorem setCall_calls_other {loop loop' : Loop} (node : EnsembleNode σ) (call : Option CallPhase)
    (h : loop' ≠ loop) : (node.setCall loop call).calls loop' = node.calls loop' :=
  Function.update_of_ne h ..

def crash (node : EnsembleNode σ) : EnsembleNode σ :=
  { node with calls := fun _ => none, crashed := true }

/-- An iteration of `runHealthCheckLoop`: `result` is `false` as well when the check throws or takes
too long. -/
def healthCheck (node : EnsembleNode σ) (result : Bool) : EnsembleNode σ :=
  let healthCheckRecords := (node.healthCheckRecords ++ [result]).drop 1
  let ensembleAlive := healthCheckRecords.any id
  { node with healthCheckRecords, ensembleAlive }.setCall .healthCheck
    (if ensembleAlive then none else some .refreshConfiguration)

/-- An iteration of `reconcileLoop`. -/
def reconcile (node : EnsembleNode σ) : EnsembleNode σ :=
  if node.ensembleAlive then node
  else node.setCall .reconcile (some (.reconfigure node.logServerConfig.target))

@[simp] theorem reconcile_virtualLog (node : EnsembleNode σ) :
    node.reconcile.virtualLog = node.virtualLog := by
  unfold reconcile
  split
  · rfl
  · rfl

theorem reconcile_calls {node : EnsembleNode σ} (hidle : node.calls .reconcile = none) :
    node.reconcile.calls .reconcile ≠ none ↔ node.ensembleAlive = false := by
  unfold reconcile
  cases halive : node.ensembleAlive with
  | true => simp [hidle]
  | false => simp

theorem healthCheck_calls (node : EnsembleNode σ) (result : Bool) :
    (node.healthCheck result).calls .healthCheck ≠ none ↔
      (node.healthCheck result).ensembleAlive = false := by
  unfold healthCheck
  dsimp only
  rw [setCall_calls_self]
  cases halive : ((node.healthCheckRecords ++ [result]).drop 1).any id with
  | true => simp [setCall]
  | false => simp [setCall]

/-- The end of `VirtualLogImpl::setState`, and what its caller goes on with. -/
def install (node : EnsembleNode σ) (loop : Loop) (config : MetadataConfig)
    (next : AfterSetState) : EnsembleNode σ :=
  match node.virtualLog.registry.sequencer config.sequencerConfig.id with
  | none => node.crash
  | some sequencer =>
    { node with
      virtualLog := { node.virtualLog with metadataConfig := config, sequencer := some sequencer }
      : EnsembleNode σ }.setCall loop next.call

/-- The health checks have found the same. -/
def SameHealth (node node' : EnsembleNode σ) : Prop :=
  node.healthCheckRecords = node'.healthCheckRecords ∧ node.ensembleAlive = node'.ensembleAlive

theorem sameHealth_install (node : EnsembleNode σ) (loop : Loop) (config : MetadataConfig)
    (next : AfterSetState) : (node.install loop config next).SameHealth node := by
  unfold install
  split
  · exact ⟨rfl, rfl⟩
  · exact ⟨rfl, rfl⟩

end EnsembleNode

namespace Ensemble

variable {ι σ : Type} [DecidableEq ι]

inductive Event (ι : Type) where
  | healthCheck (n : ι) (result : Bool)
  | reconcile (n : ι)
  | proceed (n : ι) (loop : Loop)
  /-- The re-replication is done up to `maxLogId`. -/
  | propose (n : ι) (loop : Loop) (maxLogId : Int)
  /-- A call inside throws; the loops catch it. -/
  | fail (n : ι) (loop : Loop)
  deriving DecidableEq

/-- The node where it happens. -/
def Event.node : Event ι → ι
  | .healthCheck n _ | .reconcile n | .proceed n _ | .propose n _ _ | .fail n _ => n

def setNode (s : Ensemble ι σ) (n : ι) (node : EnsembleNode σ) : Ensemble ι σ :=
  { s with nodes := Function.update s.nodes n node }

@[simp] theorem setNode_self (s : Ensemble ι σ) (n : ι) (node : EnsembleNode σ) :
    (s.setNode n node).nodes n = node := Function.update_self ..

theorem setNode_other {n m : ι} (s : Ensemble ι σ) (node : EnsembleNode σ) (h : m ≠ n) :
    (s.setNode n node).nodes m = s.nodes m := Function.update_of_ne h ..

/-- One call goes on. -/
def proceed (s : Ensemble ι σ) (n : ι) (loop : Loop) : CallPhase → Option (Ensemble ι σ)
  | .refreshConfiguration =>
    some (s.setNode n ((s.nodes n).setCall loop
      (some (.refreshing s.metadataStore.getCurrentVersionId))))
  | .refreshing versionId =>
    let currentVersionId := (s.nodes n).virtualLog.metadataConfig.versionId
    if currentVersionId ≤ versionId then
      some (s.setNode n ((s.nodes n).setCall loop
        (if currentVersionId < versionId then some (.setState versionId .refreshed) else none)))
    else
      some (s.setNode n (s.nodes n).crash)
  | .reconfigure target =>
    some (s.setNode n ((s.nodes n).setCall loop
      (some (.replicating s.metadataStore.getCurrentVersionId target))))
  | .replicating _ _ => none
  | .overtaken =>
    let newVersionId := s.metadataStore.getCurrentVersionId
    some (s.setNode n ((s.nodes n).setCall loop
      (some (.setState newVersionId (.getConfig newVersionId)))))
  | .setState versionId next =>
    match s.metadataStore.getConfig versionId with
    | none => some (s.setNode n (s.nodes n).crash)
    | some config =>
      some (s.setNode n ((s.nodes n).setCall loop (some (.installing config next))))
  | .installing config next => some (s.setNode n ((s.nodes n).install loop config next))
  | .starting newConfig =>
    let s' := s.setNode n ((s.nodes n).setCall loop none)
    match (s.nodes n).virtualLog.sequencer with
    | none => some s'
    | some sequencer =>
      some { s' with started := (sequencer, newConfig.versionId, newConfig.startIndex) :: s.started }
  | .returning _ => some (s.setNode n ((s.nodes n).setCall loop none))

/-- `reconfigure` proposes its configuration. -/
def propose (s : Ensemble ι σ) (n : ι) (loop : Loop) (maxLogId : Int) :
    CallPhase → Option (Ensemble ι σ)
  | .replicating versionId target =>
    let newConfig := VirtualLogImpl.newConfig versionId maxLogId target
    match s.metadataStore.getConfig versionId with
    | none => some (s.setNode n ((s.nodes n).setCall loop (some .overtaken)))
    | some _ =>
      match s.metadataStore.compareAndAppendRange newConfig with
      | .error _ => some (s.setNode n ((s.nodes n).setCall loop (some .overtaken)))
      | .ok metadataStore =>
        some { s.setNode n ((s.nodes n).setCall loop
          (some (.setState newConfig.versionId (.start newConfig)))) with metadataStore }
  | _ => none

variable {s s' : Ensemble ι σ} {n : ι} {loop : Loop} {call : CallPhase}

/-- **What `propose` does**: the configuration is in the store, or somebody was faster. -/
theorem propose_cases {maxLogId : Int} (hs : s.propose n loop maxLogId call = some s') :
    ∃ versionId target, call = .replicating versionId target ∧
      ((s' = s.setNode n ((s.nodes n).setCall loop (some .overtaken)) ∧
          (s.metadataStore.getConfig versionId = none ∨ ∃ e,
            s.metadataStore.compareAndAppendRange
              (VirtualLogImpl.newConfig versionId maxLogId target) = .error e)) ∨
        ∃ metadataStore, s.metadataStore.compareAndAppendRange
            (VirtualLogImpl.newConfig versionId maxLogId target) = .ok metadataStore ∧
          s' = { s.setNode n ((s.nodes n).setCall loop (some (.setState (versionId + 1)
            (.start (VirtualLogImpl.newConfig versionId maxLogId target))))) with
              metadataStore }) := by
  unfold propose at hs
  split at hs
  · rename_i versionId target
    refine ⟨versionId, target, rfl, ?_⟩
    dsimp only at hs
    split at hs
    · rename_i hnone
      exact .inl ⟨(Option.some.inj hs).symm, .inl hnone⟩
    · split at hs
      · rename_i e herror
        exact .inl ⟨(Option.some.inj hs).symm, .inr ⟨e, herror⟩⟩
      · rename_i metadataStore happend
        exact .inr ⟨metadataStore, happend, (Option.some.inj hs).symm⟩
  · cases hs

/-- A call that goes on is seen on its node only, and not by the health checks. -/
theorem proceed_frame (hs : s.proceed n loop call = some s') :
    s'.metadataStore = s.metadataStore ∧ ∃ node, s'.nodes = (s.setNode n node).nodes ∧
      node.SameHealth (s.nodes n) := by
  unfold proceed at hs
  dsimp only at hs
  split at hs
  case h_4 => cases hs
  case h_7 => exact Option.some.inj hs ▸ ⟨rfl, _, rfl, EnsembleNode.sameHealth_install ..⟩
  case h_2 | h_6 | h_8 =>
    split at hs
    · exact Option.some.inj hs ▸ ⟨rfl, _, rfl, rfl, rfl⟩
    · exact Option.some.inj hs ▸ ⟨rfl, _, rfl, rfl, rfl⟩
  all_goals exact Option.some.inj hs ▸ ⟨rfl, _, rfl, rfl, rfl⟩

def step (s : Ensemble ι σ) : Event ι → Option (Ensemble ι σ)
  | .healthCheck n result =>
    if (s.nodes n).crashed = false ∧ (s.nodes n).calls .healthCheck = none then
      some (s.setNode n ((s.nodes n).healthCheck result))
    else
      none
  | .reconcile n =>
    if (s.nodes n).crashed = false ∧ (s.nodes n).calls .reconcile = none then
      some (s.setNode n (s.nodes n).reconcile)
    else
      none
  | .proceed n loop => ((s.nodes n).calls loop).bind fun call => s.proceed n loop call
  | .propose n loop maxLogId =>
    ((s.nodes n).calls loop).bind fun call => s.propose n loop maxLogId call
  | .fail n loop =>
    ((s.nodes n).calls loop).map fun _ => s.setNode n ((s.nodes n).setCall loop none)

end Ensemble

end ReplicatedCounter.Log
