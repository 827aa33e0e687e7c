import Mathlib.Algebra.Ring.Int.Defs
import Mathlib.Algebra.Ring.Nat
import Mathlib.Data.Char
import Mathlib.Data.List.Dedup
import ReplicatedCounter.Lib.PrefixScan

/-!
# `mydb/backend/TableRow.h`, `Common.h` and `proto/db.proto`

The values a column holds, the schema of a table, and tables of values.

A `std::string` is the list of its characters, and RocksDB orders its keys by them. An Arrow table
is a list of named columns; each is cut into chunks, and nothing forces two columns to be cut alike.
A read that the source makes without looking — a column that is not there, a chunk read past its
end, an array cast to the wrong type — ends in `undefinedBehaviour` here.
-/

set_option autoImplicit false

namespace ReplicatedCounter.MyDb

/-- `std::string`. -/
abbrev Bytes := List Char

/-- How a call ends that does not return. -/
inductive ExecutionError where
  /-- `std::runtime_error`. -/
  | runtimeError (what : String)
  /-- `std::out_of_range`, of a map's `at`. -/
  | outOfRange
  /-- `folly::ConversionError`. -/
  | conversionError
  /-- An `assert`; some of them have the call that does the work inside, so they are never off. -/
  | assertionFailed
  | undefinedBehaviour
  deriving DecidableEq, Repr

/-! ## `proto/db.proto` -/

/-- `Column::COLUMN_TYPE`. -/
inductive ColumnType where
  | int64
  | string
  deriving DecidableEq, Repr

structure Column where
  id : UInt32
  name : String
  columnType : ColumnType
  deriving DecidableEq, Repr

/-- `PrimaryKeyIndex` and `SecondaryIndex`; their names are not read. -/
structure Index where
  id : UInt32
  columnIds : List UInt32
  deriving DecidableEq, Repr

/-- `internal::Table`, with the id of its database. -/
structure Table where
  id : UInt32
  dbId : UInt32
  columns : List Column
  primaryKeyIndex : Index
  secondaryIndex : List Index
  deriving DecidableEq, Repr

instance linearOrderUInt32 : LinearOrder UInt32 where
  le_refl := UInt32.le_refl
  le_trans _ _ _ := UInt32.le_trans
  le_antisymm _ _ := UInt32.le_antisymm
  le_total := UInt32.le_total
  toDecidableLE := inferInstance
  toDecidableLT := inferInstance
  toDecidableEq := inferInstance
  lt_iff_le_not_ge a b := by
    rw [UInt32.not_le]
    exact ⟨fun h => ⟨UInt32.le_of_lt h, h⟩, fun h => h.2⟩

instance lawfulBEqUInt32 : LawfulBEq UInt32 := inferInstance

/-! ## `TableSchema` -/

namespace Table

/-- `TableSchema::getColumn`, `columnIdToColLookup_.at`. Of two columns with one id the later one is
there. -/
def getColumn (table : Table) (colId : UInt32) : Option Column :=
  table.columns.reverse.find? (·.id = colId)

/-- `TableSchema::getColumnType`. -/
def getColumnType (table : Table) (colId : UInt32) : Option ColumnType :=
  (table.getColumn colId).map (·.columnType)

/-- `TableSchema::isPrimaryKeyColumn`. -/
def isPrimaryKeyColumn (table : Table) (colId : UInt32) : Bool :=
  colId ∈ table.primaryKeyIndex.columnIds

/-- `TableSchema::indexIds`: the secondary indexes a column is in. -/
def indexIds (table : Table) (colId : UInt32) : List UInt32 :=
  ((table.secondaryIndex.filter (colId ∈ ·.columnIds)).map (·.id)).dedup

end Table

/-! ## `TableRow.h` -/

/-- `ColumnValue`. -/
inductive ColumnValue where
  | int64 (value : Int64)
  | string (value : Bytes)
  deriving DecidableEq, Repr

/-- The type of a column that holds the value. -/
def ColumnValue.columnType : ColumnValue → ColumnType
  | .int64 _ => .int64
  | .string _ => .string

/-- `toString(const ColumnValue&)`. -/
def ColumnValue.toString : ColumnValue → Bytes
  | .int64 value => value.toInt.repr.toList
  | .string value => value

/-- `RawTableRow`. -/
abbrev RawTableRow := List (Bytes × Bytes)

/-- `arrow::ChunkedArray`. -/
abbrev ChunkedArray := List (List ColumnValue)

/-- `arrow::Table`. -/
structure ArrowTable where
  fields : List String
  columns : List ChunkedArray
  deriving DecidableEq, Repr

namespace ArrowTable

/-- `num_rows()`: the length of the first column. -/
def numRows (table : ArrowTable) : Nat :=
  match table.columns with
  | [] => 0
  | column :: _ => (column.map List.length).sum

/-- `columns().front()->num_chunks()`. -/
def numChunks (table : ArrowTable) : Nat :=
  match table.columns with
  | [] => 0
  | column :: _ => column.length

/-- `GetColumnByName`: null unless exactly one field has the name. -/
def getColumnByName (table : ArrowTable) (name : String) : Option ChunkedArray :=
  match (table.fields.zip table.columns).filter (·.1 = name) with
  | [(_, column)] => some column
  | _ => none

/-- `GetColumnByName(col.name())->chunk(chunkIdx)`, cast to an array of the column's type, and
`Value(rowIdx)` of it. -/
def value (table : ArrowTable) (col : Column) (chunkIdx rowIdx : Nat) :
    Except ExecutionError ColumnValue :=
  match table.getColumnByName col.name with
  | none => .error .undefinedBehaviour
  | some column =>
    match column[chunkIdx]? with
    | none => .error .undefinedBehaviour
    | some chunk =>
      match chunk[rowIdx]? with
      | none => .error .undefinedBehaviour
      | some value =>
        if value.columnType = col.columnType then .ok value else .error .undefinedBehaviour

/-- `ChunkedArray::Slice`. It leaves out the chunks in front; at least one is always there. -/
def sliceChunks (offset length : Nat) : ChunkedArray → ChunkedArray
  | [] => []
  | chunk :: chunks =>
    if chunk.length ≤ offset ∧ chunks ≠ [] then sliceChunks (offset - chunk.length) length chunks
    else
      let rest := length - (chunk.length - offset)
      (chunk.drop offset).take length :: if rest = 0 then [] else sliceChunks 0 rest chunks

/-- `Slice(offset, length)`, of every column. The offset must be within the rows. -/
def slice (table : ArrowTable) (offset : Int) (length : Nat) : Except ExecutionError ArrowTable := do
  let columns ← table.columns.mapM fun column =>
    if 0 ≤ offset ∧ offset.toNat ≤ (column.map List.length).sum then
      .ok (sliceChunks offset.toNat length column)
    else .error .undefinedBehaviour
  return { table with columns }

/-- The loops over rows and, inside, chunks. -/
def positions (table : ArrowTable) : List (Nat × Nat) :=
  (List.range table.numRows).flatMap fun rowIdx =>
    (List.range table.numChunks).map fun chunkIdx => (rowIdx, chunkIdx)

end ArrowTable

end ReplicatedCounter.MyDb
