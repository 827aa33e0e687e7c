import Mathlib.Data.String.Basic
import ReplicatedCounter.MyDb.RequestTransformer

/-!
# `mydb/backend/PartitionMap.h` and `mydb/backend/transaction/TxnCoordinator.cc`

A request for several tables is cut up by the partitions of the tables, before its parts are
prepared and committed. The coordinator asks for the name of the table in the part of the message
that only a request for rows has (`requestsPerPartition_eq`); any other request has an empty name
there. And **the partition map does not keep what it is given**: `addTableToPartition` looks whether
the table is there and returns that it was not, so no table ever has a partition.
-/

set_option autoImplicit false

namespace ReplicatedCounter.MyDb

namespace client

/-- `client::SingleTableOperationRequest`. -/
inductive SingleTableOperationRequest where
  | notSet
  | addRow (request : AddRowRequest)
  | updateRow (request : UpdateRowRequest)
  | getRow (request : GetRowRequest)
  deriving DecidableEq, Repr

namespace SingleTableOperationRequest

/-- `get_row_request()`: the default message, where there is another one. -/
def getRowRequest : SingleTableOperationRequest → GetRowRequest
  | .getRow request => request
  | _ => {}

/-- The table an operation is for. -/
def tableName : SingleTableOperationRequest → Option String
  | .notSet => none
  | .addRow request => some request.tableName
  | .updateRow request => some request.tableName
  | .getRow request => some request.tableName

end SingleTableOperationRequest

/-- `client::MultiTableOperationRequest`. -/
abbrev MultiTableOperationRequest := List SingleTableOperationRequest

end client

/-! ## `PartitionMap` -/

structure PartitionMap where
  lookup : SortedMap String String := .empty

namespace PartitionMap

/-- `PartitionMap::addTableToPartition`. -/
def addTableToPartition (partitionMap : PartitionMap) (_shardId tableName : String) :
    PartitionMap × Bool :=
  match partitionMap.lookup.find? tableName with
  | some _ => (partitionMap, false)
  | none => (partitionMap, true)

/-- `PartitionMap::getPartition`. -/
def getPartition (partitionMap : PartitionMap) (tableName : String) : Option String :=
  partitionMap.lookup.find? tableName

/-- The map after some tables have been added, with what the calls returned. -/
def addAll : PartitionMap → List (String × String) → PartitionMap × List Bool
  | partitionMap, [] => (partitionMap, [])
  | partitionMap, (shardId, tableName) :: calls =>
    let (partitionMap, result) := partitionMap.addTableToPartition shardId tableName
    let (partitionMap, results) := addAll partitionMap calls
    (partitionMap, result :: results)

/-- **Nothing is added**, and every call says that it was. -/
theorem addAll_empty (calls : List (String × String)) :
    addAll {} calls = ({}, calls.map fun _ => true) := by
  induction calls with
  | nil => rfl
  | cons call calls ih =>
    have hadd : addTableToPartition {} call.1 call.2 = ({}, true) := rfl
    rw [addAll, hadd]
    dsimp only
    rw [ih]
    rfl

end PartitionMap

/-! ## `TxnCoordinator` -/

namespace TxnCoordinator

open client

/-- The body of the loop in `multiTableOperation`: the request goes to the end of a bucket. -/
def addToPartition (partitionMap : PartitionMap)
    (requestsPerPartition : SortedMap String MultiTableOperationRequest)
    (tableRequest : SingleTableOperationRequest) :
    Except ExecutionError (SortedMap String MultiTableOperationRequest) :=
  match partitionMap.getPartition tableRequest.getRowRequest.tableName with
  | none => .error .assertionFailed
  | some partitionId => .ok (requestsPerPartition.insert partitionId
      ((requestsPerPartition.find? partitionId).getD [] ++ [tableRequest]))

/-- `requestsPerPartition` of `TxnCoordinator::multiTableOperation`. -/
def requestsPerPartition (partitionMap : PartitionMap) (request : MultiTableOperationRequest) :
    Except ExecutionError (SortedMap String MultiTableOperationRequest) :=
  request.foldlM (addToPartition partitionMap) .empty

/-- The requests in the bucket of a partition. -/
def bucket (buckets : SortedMap String MultiTableOperationRequest) (partitionId : String) :
    MultiTableOperationRequest :=
  (buckets.find? partitionId).getD []

variable {partitionMap : PartitionMap} {request : MultiTableOperationRequest}

theorem foldlM_addToPartition
    (h : ∀ op ∈ request, partitionMap.getPartition op.getRowRequest.tableName ≠ none)
    (buckets : SortedMap String MultiTableOperationRequest) :
    ∃ buckets', request.foldlM (addToPartition partitionMap) buckets = .ok buckets' ∧
      ∀ partitionId, bucket buckets' partitionId = bucket buckets partitionId ++
        request.filter (partitionMap.getPartition ·.getRowRequest.tableName = some partitionId) := by
  induction request generalizing buckets with
  | nil => exact ⟨buckets, rfl, fun _ => (List.append_nil _).symm⟩
  | cons op request ih =>
    obtain ⟨hop, hrequest⟩ := List.forall_mem_cons.mp h
    obtain ⟨partitionId, hpartition⟩ := Option.ne_none_iff_exists'.mp hop
    obtain ⟨buckets', hfold, hbuckets⟩ := ih hrequest
      (buckets.insert partitionId (bucket buckets partitionId ++ [op]))
    refine ⟨buckets', ?_, fun partitionId' => ?_⟩
    · rw [List.foldlM_cons]
      unfold addToPartition at hfold ⊢
      rw [hpartition]
      exact hfold
    · rw [hbuckets, List.filter_cons, hpartition]
      unfold bucket
      rw [SortedMap.find?_insert]
      by_cases heq : partitionId' = partitionId
      · subst heq
        rw [if_pos rfl, if_pos (decide_eq_true rfl), Option.getD_some, List.append_assoc]
        rfl
      · rw [if_neg heq, if_neg (by simpa using Ne.symm heq)]

/-- **What the loop makes of a request**, whatever the map holds: each operation comes to the
partition of the table that its `get_row_request` names, in the order of the request. -/
theorem requestsPerPartition_eq_ok
    (h : ∀ op ∈ request, partitionMap.getPartition op.getRowRequest.tableName ≠ none) :
    ∃ buckets, requestsPerPartition partitionMap request = .ok buckets ∧
      ∀ partitionId, bucket buckets partitionId =
        request.filter (partitionMap.getPartition ·.getRowRequest.tableName = some partitionId) :=
  foldlM_addToPartition h .empty

/-- A table that has no partition ends it. -/
theorem requestsPerPartition_eq_error
    (h : ∃ op ∈ request, partitionMap.getPartition op.getRowRequest.tableName = none) :
    requestsPerPartition partitionMap request = .error .assertionFailed := by
  unfold requestsPerPartition
  generalize (SortedMap.empty : SortedMap String MultiTableOperationRequest) = buckets
  induction request generalizing buckets with
  | nil =>
    obtain ⟨op, hop, -⟩ := h
    exact absurd hop List.not_mem_nil
  | cons op request ih =>
    rw [List.foldlM_cons]
    unfold addToPartition at ih ⊢
    cases hpartition : partitionMap.getPartition op.getRowRequest.tableName with
    | none => rfl
    | some partitionId =>
      obtain ⟨op', hop', hnone⟩ := h
      rcases List.mem_cons.mp hop' with rfl | hmem
      · rw [hpartition] at hnone
        cases hnone
      · exact ih ⟨op', hmem, hnone⟩ _

/-! ## Where operations should go -/

/-- The partition a table was registered with. -/
def partitionOf (registered : List (String × String)) (tableName : String) : Option String :=
  (registered.find? (·.2 = tableName)).map (·.1)

/-- Every operation is in the bucket of the partition that its own table was registered with, once,
and in the order of the request. -/
def Routed (registered : List (String × String)) (request : MultiTableOperationRequest) : Prop :=
  ∃ buckets, requestsPerPartition (PartitionMap.addAll {} registered).1 request = .ok buckets ∧
    ∀ partitionId, bucket buckets partitionId =
      request.filter (·.tableName.bind (partitionOf registered) = some partitionId)

/-- **No operation is routed at all**: a request comes through only if it has none. -/
theorem routed_iff (registered : List (String × String)) (request : MultiTableOperationRequest) :
    Routed registered request ↔ request = [] := by
  unfold Routed
  rw [PartitionMap.addAll_empty]
  constructor
  · rintro ⟨buckets, hbuckets, -⟩
    cases request with
    | nil => rfl
    | cons op request =>
      rw [requestsPerPartition_eq_error ⟨op, List.mem_cons_self, rfl⟩] at hbuckets
      cases hbuckets
  · rintro rfl
    exact ⟨.empty, rfl, fun _ => rfl⟩

/-- One registered table, and a request for one of its rows. -/
theorem not_routed_registered :
    (PartitionMap.addAll {} [("p1", "jobs")]).2 = [true] ∧
      ¬ Routed [("p1", "jobs")] [.getRow { databaseName := "db", tableName := "jobs" }] := by
  refine ⟨rfl, fun ⟨buckets, hbuckets, _⟩ => ?_⟩
  cases hbuckets

end TxnCoordinator

end ReplicatedCounter.MyDb
