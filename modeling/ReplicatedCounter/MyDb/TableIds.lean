import Mathlib.Data.List.Forall2
import Mathlib.Data.List.Nodup
import ReplicatedCounter.MyDb.RequestTransformer

/-!
# The ids of a client's table

The transformer counts the columns from 0 and puts the default columns behind them, whose one id is
1001. The primary key index has the id 0, which is also what an index is left with that is given
none. So the ids are ambiguous as soon as there is a secondary index, or a column that is counted
1001.
-/

set_option autoImplicit false

namespace ReplicatedCounter.MyDb

open KeySerializer

/-- No two columns have one id, no two indexes, and no key of a secondary index begins like one of
the primary index. -/
structure UnambiguousIds (table : Table) : Prop where
  columns : (table.columns.map (·.id)).Nodup
  indexes : (table.primaryKeyIndex.id :: table.secondaryIndex.map (·.id)).Nodup
  apart : ∀ index ∈ table.secondaryIndex, ∀ values primaryValues key,
    secondaryIndexKey table index.id values primaryValues = .ok key →
      ¬ minimumIndexKey table table.primaryKeyIndex.id <+: key

/-- A key of a secondary index begins with the id of the index. -/
theorem begins_of_secondaryIndexKey {table : Table} {indexId : UInt32}
    {values primaryValues : List ColumnValue} {key : Bytes}
    (h : secondaryIndexKey table indexId values primaryValues = .ok key) :
    minimumIndexKey table indexId <+: key := by
  obtain ⟨_, -, -, rfl⟩ := secondaryIndexKey_eq_ok h
  exact List.prefix_append _ _

namespace Transformer

variable {clientTable : client.Table} {dbId tableId : UInt32} {table : Table}

/-- The columns are numbered, and the default column is behind them. -/
theorem columns_fromTable (h : fromTable clientTable dbId tableId = .ok table) :
    table.columns = (clientTable.columns.zipIdx.map fun p =>
      { id := UInt32.ofNat p.2, name := p.1.name, columnType := p.1.columnType.getD .int64 : Column }) ++
        getTableDefaultColumns := by
  unfold fromTable at h
  obtain ⟨columns, hcolumns, h⟩ := Fallible.bind_eq_ok.mp h
  obtain ⟨primaryKeyIds, -, h⟩ := Fallible.bind_eq_ok.mp h
  obtain ⟨secondaryIds, -, h⟩ := Fallible.bind_eq_ok.mp h
  cases h
  refine congrArg (· ++ getTableDefaultColumns)
    (Fallible.eq_map_of_mapM hcolumns fun p _ column hcolumn => ?_)
  obtain ⟨clientColumn, idCounter⟩ := p
  dsimp only at hcolumn
  cases htype : clientColumn.columnType with
  | none =>
    rw [htype] at hcolumn
    cases hcolumn
  | some columnType =>
    rw [htype] at hcolumn
    cases hcolumn
    rfl

/-- **The ids of the columns** are counted, with the default column's behind them. -/
theorem columnIds_fromTable (h : fromTable clientTable dbId tableId = .ok table) :
    table.columns.map (·.id) = (List.range clientTable.columns.length).map UInt32.ofNat ++ [1001] := by
  rw [columns_fromTable h, List.map_append, List.map_map, List.range_eq_range', ← List.zipIdx_map_snd,
    List.map_map]
  rfl

/-- The primary key has the ids of its columns. -/
theorem primaryKey_fromTable (h : fromTable clientTable dbId tableId = .ok table) :
    clientTable.primaryKey.mapM (idLookup clientTable.columns) =
      .ok table.primaryKeyIndex.columnIds := by
  unfold fromTable at h
  obtain ⟨columns, -, h⟩ := Fallible.bind_eq_ok.mp h
  obtain ⟨primaryKeyIds, hprimary, h⟩ := Fallible.bind_eq_ok.mp h
  obtain ⟨secondaryIds, -, h⟩ := Fallible.bind_eq_ok.mp h
  cases h
  exact hprimary

/-- **No index has an id** but 0. -/
theorem indexIds_fromTable (h : fromTable clientTable dbId tableId = .ok table) :
    table.primaryKeyIndex.id = 0 ∧
      table.secondaryIndex.map (·.id) = List.replicate clientTable.secondaryIndex.length 0 := by
  unfold fromTable at h
  obtain ⟨columns, -, h⟩ := Fallible.bind_eq_ok.mp h
  obtain ⟨primaryKeyIds, -, h⟩ := Fallible.bind_eq_ok.mp h
  obtain ⟨secondaryIds, hsecondary, h⟩ := Fallible.bind_eq_ok.mp h
  cases h
  refine ⟨rfl, ?_⟩
  rw [List.map_map, (Fallible.forall₂_of_mapM hsecondary).length_eq, List.eq_replicate_iff]
  refine ⟨by simp, fun id hid => ?_⟩
  obtain ⟨columnIds, -, rfl⟩ := List.mem_map.mp hid
  rfl

/-- Counting does not get to 1001, nor around. -/
theorem nodup_counted_iff {n : Nat} :
    ((List.range n).map UInt32.ofNat ++ [1001]).Nodup ↔ n ≤ 1001 := by
  constructor
  · intro h
    by_contra hlt
    have hmem : (1001 : UInt32) ∈ (List.range n).map UInt32.ofNat :=
      List.mem_map.mpr ⟨1001, List.mem_range.mpr (by omega), rfl⟩
    exact List.disjoint_of_nodup_append h hmem (List.mem_singleton.mpr rfl)
  · intro hle
    have htoNat : ∀ i < 2 ^ 32, (UInt32.ofNat i).toNat = i := fun i hi => UInt32.toNat_ofNat_of_lt' hi
    rw [List.nodup_append]
    refine ⟨?_, List.nodup_singleton _, ?_⟩
    · refine (List.nodup_map_iff_inj_on List.nodup_range).mpr fun i hi j hj heq => ?_
      rw [← htoNat i (by simp at hi; omega), ← htoNat j (by simp at hj; omega), heq]
    · intro id hid other hother
      obtain ⟨i, hi, rfl⟩ := List.mem_map.mp hid
      obtain rfl := List.mem_singleton.mp hother
      intro heq
      have hi := List.mem_range.mp hi
      have htoNat' := htoNat i (by omega)
      rw [heq, show (1001 : UInt32).toNat = 1001 from rfl] at htoNat'
      omega

/-- Ids that are different are in order. -/
theorem sorted_of_nodup (h : fromTable clientTable dbId tableId = .ok table)
    (hids : (table.columns.map (·.id)).Nodup) : (table.columns.map (·.id)).Pairwise (· < ·) := by
  rw [columnIds_fromTable h] at hids ⊢
  have hle := nodup_counted_iff.mp hids
  have htoNat : ∀ i < 2 ^ 32, (UInt32.ofNat i).toNat = i := fun i hi => UInt32.toNat_ofNat_of_lt' hi
  rw [List.pairwise_append, List.pairwise_map]
  refine ⟨?_, List.pairwise_singleton _ _, ?_⟩
  · refine List.pairwise_lt_range.imp_of_mem fun {i j} hi hj hlt => ?_
    have hi := List.mem_range.mp hi
    have hj := List.mem_range.mp hj
    rw [UInt32.lt_iff_toNat_lt, htoNat i (by omega), htoNat j (by omega)]
    exact hlt
  · intro id hid other hother
    obtain ⟨i, hi, rfl⟩ := List.mem_map.mp hid
    obtain rfl := List.mem_singleton.mp hother
    have hi := List.mem_range.mp hi
    rw [UInt32.lt_iff_toNat_lt, htoNat i (by omega)]
    exact lt_of_lt_of_le hi hle

/-- **A client's table has unambiguous ids** if and only if it has 1001 columns at most, and no
secondary index. -/
theorem unambiguousIds_iff (h : fromTable clientTable dbId tableId = .ok table) :
    UnambiguousIds table ↔ clientTable.columns.length ≤ 1001 ∧ clientTable.secondaryIndex = [] := by
  obtain ⟨hprimary, hsecondary⟩ := indexIds_fromTable h
  have hcolumns : (table.columns.map (·.id)).Nodup ↔ clientTable.columns.length ≤ 1001 := by
    rw [columnIds_fromTable h, nodup_counted_iff]
  constructor
  · intro hids
    refine ⟨hcolumns.mp hids.columns, ?_⟩
    have hnodup := hids.indexes
    rw [hprimary, hsecondary] at hnodup
    cases hindexes : clientTable.secondaryIndex with
    | nil => rfl
    | cons index rest =>
      rw [hindexes, List.length_cons, List.replicate_succ] at hnodup
      exact absurd List.mem_cons_self (List.nodup_cons.mp hnodup).1
  · rintro ⟨hle, hnone⟩
    rw [hnone, List.length_nil, List.replicate_zero, List.map_eq_nil_iff] at hsecondary
    refine ⟨hcolumns.mpr hle, ?_, ?_⟩
    · rw [hsecondary]
      exact List.nodup_singleton _
    · intro index hindex
      rw [hsecondary] at hindex
      exact absurd hindex List.not_mem_nil

/-- A table of two columns, with the second one as a secondary index. -/
def namedUsers (secondaryIndex : List (List String)) : client.Table where
  name := "users"
  db := "db"
  columns := [⟨"id", some .int64⟩, ⟨"name", some .string⟩]
  primaryKey := ["id"]
  secondaryIndex

theorem unambiguousIds_iff_named : ∃ table, fromTable (namedUsers []) 1 1 = .ok table ∧
    (UnambiguousIds table ↔
      (namedUsers []).columns.length ≤ 1001 ∧ (namedUsers []).secondaryIndex = []) := by
  obtain ⟨table, htable⟩ : ∃ table, fromTable (namedUsers []) 1 1 = .ok table := ⟨_, rfl⟩
  exact ⟨table, htable, unambiguousIds_iff htable⟩

/-- **One secondary index** has the id of the primary index, and its keys stand among those of the
primary index. -/
theorem secondary_index_has_id_zero : ∃ table key, fromTable (namedUsers [["name"]]) 1 1 = .ok table ∧
    ¬ UnambiguousIds table ∧
    secondaryIndexKey table 0 [.string "Ada".toList] [.int64 7] = .ok key ∧
    minimumIndexKey table table.primaryKeyIndex.id <+: key := by
  obtain ⟨table, htable⟩ : ∃ table, fromTable (namedUsers [["name"]]) 1 1 = .ok table := ⟨_, rfl⟩
  obtain ⟨key, hkey⟩ : ∃ key,
      secondaryIndexKey table 0 [.string "Ada".toList] [.int64 7] = .ok key := by
    cases htable
    exact ⟨_, rfl⟩
  obtain ⟨hprimary, hsecondary⟩ := indexIds_fromTable htable
  refine ⟨table, key, htable, fun hids => ?_, hkey, ?_⟩
  · have hnodup := hids.indexes
    rw [hprimary, hsecondary] at hnodup
    exact absurd hnodup (by decide)
  · rw [hprimary]
    exact begins_of_secondaryIndexKey hkey

end Transformer

end ReplicatedCounter.MyDb
