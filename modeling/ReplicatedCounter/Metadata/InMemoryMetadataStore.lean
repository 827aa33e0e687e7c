import Mathlib.Data.Int.Order.Basic
import ReplicatedCounter.Lib.SortedMap

/-!
# `log/proto/MetadataConfig.proto` and `log/impl/InMemoryMetadataStore.cc`

The chain of configurations. Each entry names its version, the version before it, the log ids it
is responsible for, its sequencer and its replicas; `compareAndAppendRange` is the only way to add
one, and it only ever adds the successor of the last.

The store keeps two copies of every configuration, one by version and one by start index. Only the
first is told where its successor begins (`set_end_index`); a lookup by log id therefore relies on
walking back from the first entry that starts after the id, and on a later configuration with the
same start index having replaced the earlier one.
-/

set_option autoImplicit false

namespace ReplicatedCounter.Metadata

/-! ## Messages -/

/-- `common.IpAddress`. -/
structure IpAddress where
  host : String := ""
  port : Int := 0
  deriving DecidableEq, Repr

structure SequencerConfig where
  id : String := ""
  ipAddress : IpAddress := {}
  deriving DecidableEq, Repr

structure ReplicaConfig where
  id : String := ""
  ipAddress : IpAddress := {}
  isLocal : Bool := false
  deriving DecidableEq, Repr

/-- `durable_log::MetadataConfig`; the defaults are those of an empty message. -/
structure MetadataConfig where
  versionId : Int := 0
  previousVersionId : Int := 0
  startIndex : Int := 0
  endIndex : Int := 0
  previousVersionEndIndex : Int := 0
  sequencerConfig : SequencerConfig := {}
  replicaSetConfig : List ReplicaConfig := []
  deriving DecidableEq, Repr

/-- `OptimisticConcurrencyException`. -/
inductive MetadataError where
  | optimisticConcurrency
  deriving DecidableEq, Repr

/-- `OptimisticConcurrencyException::what`. -/
def MetadataError.what : MetadataError → String
  | .optimisticConcurrency => "Optimistic Concurrency Exception"

/-! ## The store -/

/-- `InMemoryMetadataStore::State`. -/
structure InMemoryMetadataStore where
  configs : SortedMap Int MetadataConfig := .empty
  logIdToConfig : SortedMap Int MetadataConfig := .empty
  deriving DecidableEq

namespace InMemoryMetadataStore

/-- The configurations in the order in which the iterator of `getConfigUsingLogId` visits them:
the first one that starts after `logId`, then back to the beginning. -/
def visited (m : SortedMap Int MetadataConfig) (logId : Int) : List MetadataConfig :=
  let (before, after) := m.entries.span (·.1 ≤ logId)
  ((before ++ after.take 1).map (·.2)).reverse

/-- `InMemoryMetadataStore::getConfigUsingLogId`. -/
def getConfigUsingLogId (s : InMemoryMetadataStore) (logId : Int) : Option MetadataConfig :=
  (visited s.logIdToConfig logId).find? fun c => c.startIndex ≤ logId ∧ logId < c.endIndex

/-- `InMemoryMetadataStore::getConfig`. Version 0 always exists, as the empty message. -/
def getConfig (s : InMemoryMetadataStore) (versionId : Int) : Option MetadataConfig :=
  if versionId = 0 then some {} else s.configs.find? versionId

/-- `InMemoryMetadataStore::getCurrentVersionId`. -/
def getCurrentVersionId (s : InMemoryMetadataStore) : Int :=
  match s.configs.last? with
  | none => 0
  | some (versionId, _) => versionId

/-- `InMemoryMetadataStore::compareAndAppendRange`. -/
def compareAndAppendRange (s : InMemoryMetadataStore) (newMetadataConfig : MetadataConfig) :
    Except MetadataError InMemoryMetadataStore :=
  let versionId := newMetadataConfig.previousVersionId
  match s.configs.last? with
  | none =>
    if versionId ≠ 0 then
      .error .optimisticConcurrency
    else
      .ok {
        configs := s.configs.insert newMetadataConfig.versionId newMetadataConfig
        logIdToConfig := s.logIdToConfig.insert newMetadataConfig.startIndex newMetadataConfig }
  | some (lastVersionId, lastConfig) =>
    if lastVersionId = versionId ∧ lastVersionId + 1 = newMetadataConfig.versionId then
      .ok {
        configs := (s.configs.insert versionId
            { lastConfig with endIndex := newMetadataConfig.startIndex }).insert
          newMetadataConfig.versionId newMetadataConfig
        logIdToConfig := s.logIdToConfig.insert newMetadataConfig.startIndex newMetadataConfig }
    else
      .error .optimisticConcurrency

/-! ## What an append does -/

variable {s s' : InMemoryMetadataStore} {c : MetadataConfig}

/-- The configuration of the current version can always be looked up. -/
theorem getConfig_currentVersion (s : InMemoryMetadataStore) :
    ∃ c, s.getConfig s.getCurrentVersionId = some c := by
  unfold getConfig getCurrentVersionId
  cases hlast : s.configs.last? with
  | none => exact ⟨_, if_pos rfl⟩
  | some entry =>
    obtain ⟨versionId, config⟩ := entry
    by_cases h : versionId = 0
    · exact ⟨_, if_pos h⟩
    · exact ⟨config, (if_neg h).trans (SortedMap.find?_of_last? hlast)⟩

/-- The store after an append that was accepted as the first one. -/
def appendFirst (s : InMemoryMetadataStore) (c : MetadataConfig) : InMemoryMetadataStore where
  configs := s.configs.insert c.versionId c
  logIdToConfig := s.logIdToConfig.insert c.startIndex c

/-- The store after an append that was accepted behind `last`. -/
def appendAfter (s : InMemoryMetadataStore) (last c : MetadataConfig) : InMemoryMetadataStore where
  configs := (s.configs.insert c.previousVersionId { last with endIndex := c.startIndex }).insert
    c.versionId c
  logIdToConfig := s.logIdToConfig.insert c.startIndex c

/-- **What `compareAndAppendRange` accepts**, and what it makes of it. -/
theorem compareAndAppendRange_cases (h : s.compareAndAppendRange c = .ok s') :
    (s.configs.last? = none ∧ c.previousVersionId = 0 ∧ s' = s.appendFirst c) ∨
    ∃ last, s.configs.last? = some (c.previousVersionId, last) ∧
      c.versionId = c.previousVersionId + 1 ∧ s' = s.appendAfter last c := by
  unfold compareAndAppendRange at h
  cases hlast : s.configs.last? with
  | none =>
    rw [hlast] at h
    dsimp only at h
    split at h
    · exact absurd h (by simp)
    · rename_i hzero
      exact .inl ⟨rfl, not_not.mp hzero, (Except.ok.inj h).symm⟩
  | some entry =>
    obtain ⟨lastVersionId, last⟩ := entry
    rw [hlast] at h
    dsimp only at h
    split at h
    · rename_i hmatch
      obtain ⟨rfl, hnext⟩ := hmatch
      exact .inr ⟨last, rfl, hnext.symm, (Except.ok.inj h).symm⟩
    · exact absurd h (by simp)

/-- **An accepted configuration is stored under its version.** -/
theorem find?_of_compareAndAppendRange (h : s.compareAndAppendRange c = .ok s') :
    s'.configs.find? c.versionId = some c := by
  rcases compareAndAppendRange_cases h with ⟨-, -, rfl⟩ | ⟨last, -, -, rfl⟩
  · exact SortedMap.find?_insert.trans (if_pos rfl)
  · exact SortedMap.find?_insert.trans (if_pos rfl)

/-- A version does not disappear. -/
theorem isSome_getConfig_of_compareAndAppendRange {versionId : Int}
    (h : s.compareAndAppendRange c = .ok s') (hv : (s.getConfig versionId).isSome) :
    (s'.getConfig versionId).isSome := by
  unfold getConfig at hv ⊢
  split
  · rfl
  · rename_i hne
    rw [if_neg hne] at hv
    rcases compareAndAppendRange_cases h with ⟨-, -, rfl⟩ | ⟨last, -, -, rfl⟩
    · show ((s.configs.insert _ _).find? versionId).isSome
      rw [SortedMap.find?_insert]
      split
      · rfl
      · exact hv
    · show (((s.configs.insert _ _).insert _ _).find? versionId).isSome
      rw [SortedMap.find?_insert, SortedMap.find?_insert]
      split
      · rfl
      · split
        · rfl
        · exact hv

end InMemoryMetadataStore

end ReplicatedCounter.Metadata
