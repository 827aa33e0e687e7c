import ReplicatedCounter.MyDb.QueryPlanner
import ReplicatedCounter.MyDb.Rows
import ReplicatedCounter.MyDb.SchemaStore

/-!
# `mydb/backend/RequestTransformer.h` and `mydb/backend/DbDefaults.cc`

Requests carry columns by name and values as text; the transformer looks the columns up and reads
the values. A row with every column of its table, in its order, comes out as the table with that row
(`fromColumnValues_row`).

The internal schema of a client's table numbers its columns. It does not number the secondary
indexes: their ids stay 0, which is the id of the primary key index.
-/

set_option autoImplicit false

namespace ReplicatedCounter.MyDb

/-- `TableSchema::getColumnId`, `columnNameToColLookup_.at`. Of two columns with one name the later
one is there. -/
def Table.getColumnId (table : Table) (colName : String) : Option UInt32 :=
  (table.columns.reverse.find? (·.name = colName)).map (·.id)

namespace client

/-- `client::ColumnValue`; its value travels in an `Any`. -/
structure ColumnValue where
  name : String
  value : Bytes
  deriving DecidableEq, Repr

/-- `client::Column`. The type is an open enumeration: `none` is a number it does not have. -/
structure Column where
  name : String
  columnType : Option ColumnType
  deriving DecidableEq, Repr

/-- `client::Table`. -/
structure Table where
  name : String
  db : String
  columns : List Column
  primaryKey : List String
  secondaryIndex : List (List String)
  deriving DecidableEq, Repr

structure AddDatabaseRequest where
  database : String
  deriving DecidableEq, Repr

structure AddTableRequest where
  table : Table
  deriving DecidableEq, Repr

structure AddRowRequest where
  databaseName : String
  tableName : String
  columnValues : List ColumnValue
  deriving DecidableEq, Repr

/-- `client::UpdateRowRequest`. Its `UPDATE_TYPE` has the two members of `UpdateOptions`, and is
open. -/
structure UpdateRowRequest where
  databaseName : String
  tableName : String
  columnValues : List ColumnValue
  updateType : Option UpdateOptions
  condition : Condition
  deriving DecidableEq, Repr

/-- `client::GetRowRequest`: each of its `PrimaryKeyValues` is a list of columns with values. -/
structure GetRowRequest where
  databaseName : String := ""
  tableName : String := ""
  primaryKeyValues : List (List ColumnValue) := []
  deriving DecidableEq, Repr

/-- `client::ScanTableRequest`; a condition that it does not have is one that is not set. -/
structure ScanTableRequest where
  databaseName : String
  tableName : String
  returnColumns : List String := []
  condition : Condition := .notSet
  deriving DecidableEq, Repr

end client

/-- `getTableDefaultColumns`. -/
def getTableDefaultColumns : List Column := [⟨1001, "__internal__lock_mode", .int64⟩]

namespace Transformer

open RowSerializer

/-- `std::to_string(std::uint32_t)`. -/
def toString (num : UInt32) : Bytes := num.toNat.repr.toList

/-- The body of the loop in `from(columnValues, schema)`. -/
def appendColumnValue (table : Table) (colBuilder : SortedMap UInt32 (List ColumnValue))
    (columnValue : client.ColumnValue) :
    Except ExecutionError (SortedMap UInt32 (List ColumnValue)) :=
  match table.getColumnId columnValue.name with
  | none => throw .outOfRange
  | some colId =>
    match table.getColumnType colId with
    | none => throw .undefinedBehaviour
    | some .int64 => do return append colBuilder colId (.int64 (← toInt64 columnValue.value))
    | some .string => return append colBuilder colId (.string columnValue.value)

/-- `from(columnValues, schema)`. -/
def fromColumnValues (columnValues : List (List client.ColumnValue)) (table : Table) :
    Except ExecutionError ArrowTable := do
  let colBuilder ← columnValues.flatten.foldlM (appendColumnValue table) (getHeader table)
  let arrays := colBuilder.entries.map (·.2)
  if arrays = [] ∨ arrays.length < table.columns.length then
    throw .undefinedBehaviour
  return { fields := table.columns.map (·.name), columns := arrays.map ([·]) }

/-- `from(addDatabaseRequest, schema, dbId)`, at a time. -/
def fromAddDatabaseRequest (request : client.AddDatabaseRequest) (table : Table) (dbId : UInt32)
    (seconds : Int64) : Except ExecutionError ArrowTable :=
  fromColumnValues [[⟨"id", toString dbId⟩, ⟨"name", request.database.toList⟩,
    ⟨"created", (ColumnValue.int64 seconds).toString⟩,
    ⟨"modified", (ColumnValue.int64 seconds).toString⟩]] table

/-- `from(addTableRequest, schema, tableId)`, at a time. -/
def fromAddTableRequest (serializeAsString : client.AddTableRequest → Bytes)
    (request : client.AddTableRequest) (table : Table) (tableId : UInt32) (seconds : Int64) :
    Except ExecutionError ArrowTable :=
  fromColumnValues [[⟨"id", toString tableId⟩, ⟨"name", request.table.name.toList⟩,
    ⟨"created", (ColumnValue.int64 seconds).toString⟩,
    ⟨"modified", (ColumnValue.int64 seconds).toString⟩,
    ⟨"serialized_table_str", serializeAsString request⟩, ⟨"max_id_num", "0".toList⟩]] table

/-- `from(addRowRequest, schema)`. -/
def fromAddRowRequest (request : client.AddRowRequest) (table : Table) :
    Except ExecutionError ArrowTable :=
  fromColumnValues [request.columnValues] table

/-- `from(updateRowRequest, schema)`. -/
def fromUpdateRowRequest (request : client.UpdateRowRequest) (table : Table) :
    Except ExecutionError ArrowTable :=
  fromColumnValues [request.columnValues] table

/-- `from(getRowRequest, schema)`. -/
def fromGetRowRequest (request : client.GetRowRequest) (table : Table) :
    Except ExecutionError ArrowTable :=
  fromColumnValues request.primaryKeyValues table

/-- `from(internalTable)`: the texts of the values. -/
def toTableRows (table : Table) (arrowTable : ArrowTable) : Except ExecutionError (List (List Bytes)) :=
  arrowTable.positions.mapM fun (rowIdx, chunkIdx) =>
    table.columns.mapM fun col => do
      let value ← arrowTable.value col chunkIdx rowIdx
      return value.toString

/-- `idLookup` of `from(clientTable, dbId, tableId)`, and its `at`: of two columns with one name the
later one is there. -/
def idLookup (columns : List client.Column) (name : String) : Except ExecutionError UInt32 :=
  match columns.zipIdx.reverse.find? (·.1.name = name) with
  | some (_, idCounter) => .ok (UInt32.ofNat idCounter)
  | none => .error .outOfRange

/-- `from(clientTable, dbId, tableId)`. -/
def fromTable (clientTable : client.Table) (dbId tableId : UInt32) : Except ExecutionError Table := do
  let columns ← clientTable.columns.zipIdx.mapM fun (column, idCounter) =>
    match column.columnType with
    | some columnType =>
      .ok { id := UInt32.ofNat idCounter, name := column.name, columnType : Column }
    | none => .error .assertionFailed
  let primaryKeyIds ← clientTable.primaryKey.mapM (idLookup clientTable.columns)
  let secondaryIds ← clientTable.secondaryIndex.mapM (·.mapM (idLookup clientTable.columns))
  return {
    id := tableId
    dbId
    columns := columns ++ getTableDefaultColumns
    primaryKeyIndex := { id := 0, columnIds := primaryKeyIds }
    -- `set_id` is never called
    secondaryIndex := secondaryIds.map fun columnIds => { id := 0, columnIds } }

/-! ## What comes out -/

/-- The table of a client gets the ids it is given. -/
theorem fromTable_ids {clientTable : client.Table} {dbId tableId : UInt32} {table : Table}
    (h : fromTable clientTable dbId tableId = .ok table) : table.dbId = dbId ∧ table.id = tableId := by
  unfold fromTable at h
  obtain ⟨columns, -, h⟩ := Fallible.bind_eq_ok.mp h
  obtain ⟨primaryKeyIds, -, h⟩ := Fallible.bind_eq_ok.mp h
  obtain ⟨secondaryIds, -, h⟩ := Fallible.bind_eq_ok.mp h
  cases h
  exact ⟨rfl, rfl⟩

variable {table : Table}

/-- A row as a request has it. -/
def columnValues (row : Row table) : List client.ColumnValue :=
  table.columns.map fun col => ⟨col.name, (row.value col.id).toString⟩

theorem getColumnId_of_nodup (hnames : (table.columns.map (·.name)).Nodup) {col : Column}
    (hcol : col ∈ table.columns) : table.getColumnId col.name = some col.id := by
  unfold Table.getColumnId
  cases hfind : table.columns.reverse.find? (·.name = col.name) with
  | none =>
    rw [List.find?_eq_none] at hfind
    exact absurd (decide_eq_true rfl) (hfind col (List.mem_reverse.mpr hcol))
  | some col' =>
    have hname : col'.name = col.name := by simpa using List.find?_some hfind
    have hcol' := List.mem_reverse.mp (List.mem_of_find?_eq_some hfind)
    rw [List.inj_on_of_nodup_map hnames hcol' hcol hname]
    rfl

theorem getColumnId_eq (h : table.Keyed) {col : Column} (hcol : col ∈ table.columns) :
    table.getColumnId col.name = some col.id := getColumnId_of_nodup h.names hcol

theorem appendColumnValue_eq (h : table.Keyed) (row : Row table)
    (colBuilder : SortedMap UInt32 (List ColumnValue)) {col : Column} (hcol : col ∈ table.columns) :
    appendColumnValue table colBuilder ⟨col.name, (row.value col.id).toString⟩ =
      .ok (append colBuilder col.id (row.value col.id)) := by
  have htype := getColumnType_of_nodup (h.ids.imp fun hlt => hlt.ne) hcol
  have htyped := row.typed col hcol
  unfold appendColumnValue
  dsimp only
  rw [getColumnId_eq h hcol]
  dsimp only
  rw [htype, ← htyped]
  cases row.value col.id with
  | int64 value =>
    show (do return append colBuilder col.id (.int64 (← toInt64 (ColumnValue.int64 value).toString))) = _
    rw [toInt64_toString]
    rfl
  | string value => rfl

/-- Some of the columns of a row: each of them gets its value. -/
theorem foldlM_appendColumnValue (h : table.Keyed) (row : Row table) {columns : List Column}
    (hcolumns : ∀ col ∈ columns, col ∈ table.columns) (hnodup : (columns.map (·.id)).Nodup)
    {colBuilder : SortedMap UInt32 (List ColumnValue)}
    (hbuilder : ∀ col ∈ table.columns, ∃ values, colBuilder.find? col.id = some values) :
    ∃ colBuilder', (columns.map fun col =>
        (⟨col.name, (row.value col.id).toString⟩ : client.ColumnValue)).foldlM
          (appendColumnValue table) colBuilder = .ok colBuilder' ∧
      ∀ k, colBuilder'.find? k = (colBuilder.find? k).map fun values => values ++
        if k ∈ columns.map (·.id) then [row.value k] else [] := by
  induction columns generalizing colBuilder with
  | nil =>
    refine ⟨colBuilder, rfl, fun k => ?_⟩
    cases colBuilder.find? k <;> simp
  | cons col columns ih =>
    obtain ⟨hnot, hrest⟩ := List.nodup_cons.mp hnodup
    have hcol : col ∈ table.columns := hcolumns col List.mem_cons_self
    obtain ⟨values, hvalues⟩ := hbuilder col hcol
    have happend := find?_append hvalues (row.value col.id)
    have hbuilder' : ∀ col' ∈ table.columns, ∃ values,
        (append colBuilder col.id (row.value col.id)).find? col'.id = some values := by
      intro col' hcol'
      rw [happend]
      split
      · exact ⟨_, rfl⟩
      · exact hbuilder col' hcol'
    obtain ⟨colBuilder', hfold, hfind⟩ :=
      ih (fun col' hcol' => hcolumns col' (List.mem_cons_of_mem _ hcol')) hrest hbuilder'
    refine ⟨colBuilder', ?_, fun k => ?_⟩
    · rw [List.map_cons, List.foldlM_cons, appendColumnValue_eq h row colBuilder hcol]
      exact hfold
    · rw [hfind k, happend, List.map_cons]
      by_cases hk : k = col.id
      · -- the column itself does not come again
        subst hk
        rw [if_pos rfl, hvalues, Option.map_some, Option.map_some, if_neg hnot,
          if_pos List.mem_cons_self, List.append_nil]
      · rw [if_neg hk]
        simp only [List.mem_cons, hk, false_or]

/-- **A whole row comes out as the table with it.** -/
theorem fromColumnValues_row (h : table.Keyed) (row : Row table) :
    fromColumnValues [columnValues row] table = .ok (arrowTable table.columns [row]) := by
  have hheader : Built (getHeader table) ([] : List (Row table)) := built_getHeader
  have hbuilder : ∀ col ∈ table.columns, ∃ values, (getHeader table).find? col.id = some values :=
    fun col hcol => ⟨_, (hheader col.id).trans (if_pos (List.mem_map_of_mem hcol))⟩
  obtain ⟨colBuilder, hfold, hfind⟩ := foldlM_appendColumnValue h row (fun _ hcol => hcol)
    (h.ids.imp fun hlt => hlt.ne) hbuilder
  have hbuilt : Built colBuilder [row] := by
    intro k
    rw [hfind k, hheader k]
    by_cases hk : k ∈ table.columns.map (·.id)
    · rw [if_pos hk, if_pos hk, if_pos hk]
      rfl
    · rw [if_neg hk, if_neg hk, if_neg hk]
      rfl
  unfold fromColumnValues columnValues
  rw [List.flatten_singleton, hfold]
  exact hbuilt.arrowTable_eq h

end Transformer

end ReplicatedCounter.MyDb
