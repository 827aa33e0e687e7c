import ReplicatedCounter.MyDb.KeySerializer

/-!
# `mydb/backend/RowSerializer.h`

A row becomes one entry for its primary key, one for each column, and one for each secondary index
it is in; reading goes back from entries to columns of values, and never looks at anything in a key
but the column id.

The writer takes the values of the primary key in the order of the table's columns, the reader's
keys take them in the order of the index. The columns that come back are in the order of their ids,
under names in the order of the table.
-/

set_option autoImplicit false

namespace ReplicatedCounter.MyDb

/-- `folly::to<std::int64_t>`. -/
def toInt64 (text : Bytes) : Except ExecutionError Int64 :=
  match Decimal.readInt text with
  | some n =>
    if -2 ^ 63 ≤ n ∧ n < 2 ^ 63 then .ok (Int64.ofInt n) else .error .conversionError
  | none => .error .conversionError

theorem toInt64_toString (value : Int64) : toInt64 (ColumnValue.int64 value).toString = .ok value := by
  unfold toInt64 ColumnValue.toString
  rw [Decimal.readInt_repr]
  dsimp only
  rw [if_pos ⟨value.le_toInt, value.toInt_lt⟩, Int64.ofInt_toInt]

namespace RowSerializer

open KeySerializer

/-- The value of a key without one. -/
def null : Bytes := "NULL".toList

/-! ## Rows to entries -/

/-- `std::map::emplace`: the first one stays. -/
def emplace (colValues : SortedMap UInt32 ColumnValue) (colId : UInt32) (value : ColumnValue) :
    SortedMap UInt32 ColumnValue :=
  match colValues.find? colId with
  | some _ => colValues
  | none => colValues.insert colId value

/-- `primaryIdxValues` of `serialize`, in the order of the columns. -/
def primaryIdxValues (table : Table) (values : List (Column × ColumnValue)) : List ColumnValue :=
  (values.filter fun v => table.isPrimaryKeyColumn v.1.id).map (·.2)

/-- `secondaryIdxValues[idxId]`. -/
def secondaryIdxValues (table : Table) (values : List (Column × ColumnValue)) (idxId : UInt32) :
    List ColumnValue :=
  (values.filter fun v => idxId ∈ table.indexIds v.1.id).map (·.2)

/-- The entries of one row, of which the loop over the columns has the values. The order of the
secondary keys is that of an unordered map, so it is anyone's. -/
def rawTableRow (table : Table) (values : List (Column × ColumnValue)) :
    Except ExecutionError RawTableRow := do
  let colValues := values.foldl (fun m v => emplace m v.1.id v.2) .empty
  let primaryValues := primaryIdxValues table values
  let primaryKey ← KeySerializer.primaryKey table primaryValues
  let secondaryKeys ← (values.flatMap fun v => table.indexIds v.1.id).dedup.mapM fun idxId =>
    secondaryIndexKey table idxId (secondaryIdxValues table values idxId) primaryValues
  return (primaryKey, null) ::
    colValues.entries.map (fun e => (columnKey primaryKey e.1, e.2.toString)) ++
    secondaryKeys.map fun idxKey => (idxKey, null)

/-- `RowSerializer::serialize`. -/
def serialize (table : Table) (arrowTable : ArrowTable) :
    Except ExecutionError (List RawTableRow) :=
  arrowTable.positions.mapM fun (rowIdx, chunkIdx) => do
    let values ← table.columns.mapM fun col => do
      return (col, ← arrowTable.value col chunkIdx rowIdx)
    rawTableRow table values

/-- The value of the column with an id, by `schema->getColumn(colId)`. -/
def valueOfId (table : Table) (arrowTable : ArrowTable) (chunkIdx rowIdx : Nat) (colId : UInt32) :
    Except ExecutionError ColumnValue :=
  match table.getColumn colId with
  | none => .error .outOfRange
  | some col => arrowTable.value col chunkIdx rowIdx

/-- `RowSerializer::serializePrimaryKeys`. -/
def serializePrimaryKeys (table : Table) (arrowTable : ArrowTable) :
    Except ExecutionError (List Bytes) :=
  arrowTable.positions.mapM fun (rowIdx, chunkIdx) => do
    let primaryValues ←
      table.primaryKeyIndex.columnIds.mapM (valueOfId table arrowTable chunkIdx rowIdx)
    primaryKey table primaryValues

/-! ## Entries to columns -/

/-- `getHeader`: an empty builder for every column. -/
def getHeader (table : Table) : SortedMap UInt32 (List ColumnValue) :=
  table.columns.foldl (fun colBuilder col => colBuilder.insert col.id []) .empty

/-- `builder->Append(value)`. -/
def append (colBuilder : SortedMap UInt32 (List ColumnValue)) (colId : UInt32) (value : ColumnValue) :
    SortedMap UInt32 (List ColumnValue) :=
  colBuilder.insert colId ((colBuilder.find? colId).getD [] ++ [value])

/-- The body of the loop in `deserialize`. -/
def appendEntry (table : Table) (colBuilder : SortedMap UInt32 (List ColumnValue))
    (entry : Bytes × Bytes) : Except ExecutionError (SortedMap UInt32 (List ColumnValue)) := do
  let keyFragments ← parseKey table entry.1
  match keyFragments.colId with
  | none => return colBuilder
  | some colId =>
    match table.getColumnType colId with
    | none => throw .assertionFailed
    | some .int64 => return append colBuilder colId (.int64 (← toInt64 entry.2))
    | some .string => return append colBuilder colId (.string entry.2)

/-- `RowSerializer::deserialize`. Arrow does not compare the number of fields with the number of
arrays, and reads an array for every field. -/
def deserialize (table : Table) (rows : List RawTableRow) : Except ExecutionError ArrowTable := do
  let colBuilder ← rows.flatten.foldlM (appendEntry table) (getHeader table)
  let arrays := colBuilder.entries.map (·.2)
  if arrays = [] ∨ arrays.length < table.columns.length then
    throw .undefinedBehaviour
  return { fields := table.columns.map (·.name), columns := arrays.map ([·]) }

/-! ## Keys to columns -/

/-- The loop over `colBuilder` in `deserializeSecondaryIndexKeys`: the columns in the order of their
ids take the values in the order of the key. -/
def appendValues (table : Table) (colBuilder : SortedMap UInt32 (List ColumnValue)) :
    List UInt32 → List Bytes → Except ExecutionError (SortedMap UInt32 (List ColumnValue))
  | [], _ => .ok colBuilder
  | _ :: _, [] => .error .undefinedBehaviour
  | colId :: colIds, value :: values => do
    match table.getColumnType colId with
    | none => throw .undefinedBehaviour
    | some .int64 =>
      appendValues table (append colBuilder colId (.int64 (← toInt64 value))) colIds values
    | some .string => appendValues table (append colBuilder colId (.string value)) colIds values

/-- `RowSerializer::deserializeSecondaryIndexKeys`. It does not look at the index it is called
for. -/
def deserializeSecondaryIndexKeys (table : Table) (rows : List RawTableRow) :
    Except ExecutionError ArrowTable := do
  let columns ← table.primaryKeyIndex.columnIds.mapM fun colId =>
    match table.getColumn colId with
    | none => .error .outOfRange
    | some col => .ok col
  let header : SortedMap UInt32 (List ColumnValue) :=
    columns.foldl (fun colBuilder col => colBuilder.insert col.id []) .empty
  let colBuilder ← rows.flatten.foldlM (fun colBuilder entry => do
    let keyFragments ← parseKey table entry.1
    match keyFragments.primaryIndex with
    | none => return colBuilder
    | some index => appendValues table colBuilder (colBuilder.entries.map (·.1)) index.values) header
  let arrays := colBuilder.entries.map (·.2)
  if arrays = [] ∨ arrays.length < columns.length then
    throw .undefinedBehaviour
  return { fields := columns.map (·.name), columns := arrays.map ([·]) }

/-- The values of some columns in the first row there is. -/
def parseKeyValues (table : Table) (columnIds : List UInt32) (arrowTable : ArrowTable) :
    Except ExecutionError (List ColumnValue) :=
  match arrowTable.positions with
  | [] => .ok []
  | (rowIdx, chunkIdx) :: _ => columnIds.mapM (valueOfId table arrowTable chunkIdx rowIdx)

/-- `RowSerializer::parsePrimaryKeyValues`. -/
def parsePrimaryKeyValues (table : Table) (arrowTable : ArrowTable) :
    Except ExecutionError (List ColumnValue) :=
  parseKeyValues table table.primaryKeyIndex.columnIds arrowTable

/-- `RowSerializer::parseSecondaryKeyValues`, whatever the index: it takes the columns of the first
one. -/
def parseSecondaryKeyValues (table : Table) (arrowTable : ArrowTable) :
    Except ExecutionError (List ColumnValue) :=
  match table.secondaryIndex, arrowTable.positions with
  | _, [] => .ok []
  | [], _ :: _ => .error .undefinedBehaviour
  | index :: _, _ :: _ => parseKeyValues table index.columnIds arrowTable

end RowSerializer

end ReplicatedCounter.MyDb
