import ReplicatedCounter.Lib.Fallible
import ReplicatedCounter.MyDb.RowSerializer

/-!
# `mydb/backend/RocksReaderWriter.cc` and `mydb/backend/QueryExecutor.cc`

The row store over RocksDB, which is a map in the order of its keys. A row is looked for with an
iterator that starts at its primary key and goes on while the key starts with it.
-/

set_option autoImplicit false

namespace ReplicatedCounter.MyDb

/-- The database behind a `RocksReaderWriter`. -/
abbrev Rocks := SortedMap Bytes Bytes

namespace RocksReaderWriter

/-- `RocksReaderWriter::write`. -/
def write (rocks : Rocks) (rows : List RawTableRow) : Rocks := rocks.insertAll rows.flatten

/-- `RocksReaderWriter::del`. -/
def del (rocks : Rocks) (keys : List Bytes) : Rocks := rocks.eraseAll keys

/-- `RocksReaderWriter::read`. -/
def read (rocks : Rocks) (keys : List Bytes) : List RawTableRow := keys.map rocks.scan

/-- `ScanOptions`; the direction is not read. -/
structure ScanOptions where
  maxRowsReturnSize : Nat
  seekPosition : Bytes
  keyPrefix : Bytes
  deriving DecidableEq, Repr

/-- The loop of `RocksReaderWriter::scan` over what the iterator has in front of it, with `rows`,
`row` and `prevKey`. -/
def scanLoop (scanOptions : ScanOptions) :
    List (Bytes × Bytes) → List RawTableRow → RawTableRow → Bytes → List RawTableRow × RawTableRow
  | [], rows, row, _ => (rows, row)
  | entry :: itr, rows, row, prevKey =>
    if prevKey.isPrefixOf entry.1 then scanLoop scanOptions itr rows (row ++ [entry]) prevKey
    else if scanOptions.keyPrefix.isPrefixOf entry.1 then
      if rows.length = scanOptions.maxRowsReturnSize then (rows, row)
      else scanLoop scanOptions itr (if row = [] then rows else rows ++ [row]) [entry] entry.1
    else (rows, row)

/-- `RocksReaderWriter::scan`. -/
def scan (rocks : Rocks) (scanOptions : ScanOptions) : List RawTableRow :=
  let itr := rocks.entries.dropWhile (·.1 < scanOptions.seekPosition)
  let (rows, row) := scanLoop scanOptions itr [] [] "SOME WEIRD STRING".toList
  if rows.length < scanOptions.maxRowsReturnSize ∧ row ≠ [] then rows ++ [row] else rows

variable {rocks : Rocks} {raws : List RawTableRow} {key : Bytes}

/-- **What a write leaves under a key**: what was written for it last, else what was there. -/
theorem find?_write : (write rocks raws).find? key =
    (SortedMap.lastValue raws.flatten key).or (rocks.find? key) := SortedMap.find?_insertAll

/-- A write takes no key away. -/
theorem find?_write_ne_none_iff : (write rocks raws).find? key ≠ none ↔
    key ∈ raws.flatten.map (·.1) ∨ rocks.find? key ≠ none := by
  rw [find?_write]
  cases hvalue : SortedMap.lastValue raws.flatten key with
  | some value =>
    have hmem : key ∈ raws.flatten.map (·.1) := by
      by_contra hnot
      rw [SortedMap.lastValue_eq_none.mpr hnot] at hvalue
      cases hvalue
    exact iff_of_true (by simp) (.inl hmem)
  | none =>
    rw [Option.none_or]
    exact (or_iff_right (SortedMap.lastValue_eq_none.mp hvalue)).symm

end RocksReaderWriter

/-- `IndexQueryOptions`; the direction is not read. -/
structure IndexQueryOptions where
  indexId : UInt32
  secondaryKeyValues : List ColumnValue := []
  primaryKeyValues : List ColumnValue := []
  maxRowsReturnSize : Nat
  deriving DecidableEq, Repr

/-- `UpdateOptions`. -/
inductive UpdateOptions where
  | replace
  | merge
  deriving DecidableEq, Repr

namespace QueryExecutor

open RowSerializer

/-- `QueryExecutor::get`. -/
def get (rocks : Rocks) (table : Table) (arrowTable : ArrowTable) :
    Except ExecutionError ArrowTable := do
  let keys ← serializePrimaryKeys table arrowTable
  deserialize table (RocksReaderWriter.read rocks keys)

/-- `QueryExecutor::insert`. -/
def insert (rocks : Rocks) (table : Table) (arrowTable : ArrowTable) : Except ExecutionError Rocks := do
  let getResult ← get rocks table arrowTable
  if getResult.numRows ≠ 0 then
    throw (.runtimeError "row already exists")
  let rawTableRows ← serialize table arrowTable
  return RocksReaderWriter.write rocks rawTableRows

/-- `QueryExecutor::update`. -/
def update (rocks : Rocks) (table : Table) (arrowTable : ArrowTable) (option : UpdateOptions) :
    Except ExecutionError Rocks := do
  let rawTableRows ← serialize table arrowTable
  let rocks := match option with
    | .replace => RocksReaderWriter.del rocks (rawTableRows.flatten.map (·.1))
    | .merge => rocks
  return RocksReaderWriter.write rocks rawTableRows

/-- Where `tableScan` begins. -/
def seekPosition (table : Table) (indexQueryOptions : IndexQueryOptions) :
    Except ExecutionError Bytes :=
  if indexQueryOptions.primaryKeyValues = [] then
    .ok (KeySerializer.minimumIndexKey table indexQueryOptions.indexId)
  else if indexQueryOptions.primaryKeyValues.length ≠ table.primaryKeyIndex.columnIds.length then
    .error .assertionFailed
  else if table.primaryKeyIndex.id = indexQueryOptions.indexId then
    KeySerializer.maximumIndexKey table indexQueryOptions.indexId indexQueryOptions.primaryKeyValues
  else
    KeySerializer.maximumSecondaryIndexKey table indexQueryOptions.indexId
      indexQueryOptions.primaryKeyValues indexQueryOptions.secondaryKeyValues

/-- `QueryExecutor::tableScan`. -/
def tableScan (rocks : Rocks) (table : Table) (indexQueryOptions : IndexQueryOptions) :
    Except ExecutionError ArrowTable := do
  let kvRows := RocksReaderWriter.scan rocks
    { maxRowsReturnSize := indexQueryOptions.maxRowsReturnSize
      seekPosition := ← seekPosition table indexQueryOptions
      keyPrefix := KeySerializer.minimumIndexKey table indexQueryOptions.indexId }
  if table.primaryKeyIndex.id = indexQueryOptions.indexId then
    deserialize table kvRows
  else
    get rocks table (← deserializeSecondaryIndexKeys table kvRows)

/-- What becomes of `secondaryKeyValues` in a turn of `tableScanGenerator`. It is read from the
table the generator was called with, often none. -/
def nextSecondaryKeyValues (table : Table) (arrowTable : Option ArrowTable)
    (indexQueryOptions : IndexQueryOptions) : Except ExecutionError (List ColumnValue) :=
  if table.primaryKeyIndex.id = indexQueryOptions.indexId then
    .ok indexQueryOptions.secondaryKeyValues
  else
    match arrowTable with
    | none => .error .undefinedBehaviour
    | some arrowTable => parseSecondaryKeyValues table arrowTable

/-- The body of the loop in `tableScanGenerator`: nothing if it breaks, else what it yields and the
options it goes on with. -/
def nextPage (rocks : Rocks) (table : Table) (arrowTable : Option ArrowTable)
    (indexQueryOptions : IndexQueryOptions) :
    Except ExecutionError (Option (ArrowTable × IndexQueryOptions)) := do
  let response ← tableScan rocks table indexQueryOptions
  if response.numRows = 0 then
    return none
  let lastRow ← response.slice (indexQueryOptions.maxRowsReturnSize - 1) 1
  let primaryKeyValues ← parsePrimaryKeyValues table lastRow
  let secondaryKeyValues ← nextSecondaryKeyValues table arrowTable indexQueryOptions
  return some (response, { indexQueryOptions with primaryKeyValues, secondaryKeyValues })

/-- `QueryExecutor::tableScanGenerator`, run for so many turns of its loop: nothing as long as it
goes on. -/
def tableScanGenerator (rocks : Rocks) (table : Table) (arrowTable : Option ArrowTable) :
    Nat → IndexQueryOptions → Option (Except ExecutionError (List ArrowTable))
  | 0, _ => none
  | turns + 1, indexQueryOptions =>
    match nextPage rocks table arrowTable indexQueryOptions with
    | .error e => some (.error e)
    | .ok none => some (.ok [])
    | .ok (some (response, indexQueryOptions)) =>
      (tableScanGenerator rocks table arrowTable turns indexQueryOptions).map
        (Except.map (response :: ·))

variable {rocks rocks' : Rocks} {table : Table} {arrowTable : ArrowTable}

/-- An insert that returns has found no row, and has written. -/
theorem insert_ok (h : insert rocks table arrowTable = .ok rocks') :
    ∃ result raws, get rocks table arrowTable = .ok result ∧ result.numRows = 0 ∧
      serialize table arrowTable = .ok raws ∧ rocks' = RocksReaderWriter.write rocks raws := by
  unfold insert at h
  obtain ⟨result, hget, h⟩ := Fallible.bind_eq_ok.mp h
  by_cases hrows : result.numRows = 0
  · simp only [hrows, ne_eq, not_true_eq_false, if_false] at h
    obtain ⟨raws, hser, h⟩ := Fallible.bind_eq_ok.mp h
    cases h
    exact ⟨result, raws, hget, hrows, hser, rfl⟩
  · simp only [hrows, ne_eq, not_false_eq_true, if_true] at h
    cases h

/-- An insert refuses its rows exactly if it has found one. -/
theorem insert_eq_error {result : ArrowTable} (hget : get rocks table arrowTable = .ok result)
    (hser : serialize table arrowTable ≠ .error (.runtimeError "row already exists")) :
    insert rocks table arrowTable = .error (.runtimeError "row already exists") ↔
      result.numRows ≠ 0 := by
  unfold insert
  rw [hget]
  show (if result.numRows ≠ 0 then throw _ else _) = _ ↔ _
  by_cases hrows : result.numRows = 0
  · rw [if_neg (not_not.mpr hrows)]
    refine iff_of_false (fun h => ?_) (not_not.mpr hrows)
    rcases Fallible.bind_eq_error.mp h with hraws | ⟨_, _, hraws⟩
    · exact hser hraws
    · cases hraws
  · rw [if_pos hrows]
    exact iff_of_true rfl hrows

/-- Deleting first what is written then makes no difference. -/
theorem update_ok {option : UpdateOptions} (h : update rocks table arrowTable option = .ok rocks') :
    ∃ raws, serialize table arrowTable = .ok raws ∧ rocks' = RocksReaderWriter.write rocks raws := by
  unfold update at h
  obtain ⟨raws, hser, h⟩ := Fallible.bind_eq_ok.mp h
  refine ⟨raws, hser, ?_⟩
  cases option with
  | merge =>
    cases h
    rfl
  | replace =>
    cases h
    refine SortedMap.ext_find? fun key => ?_
    unfold RocksReaderWriter.del
    rw [RocksReaderWriter.find?_write, RocksReaderWriter.find?_write, SortedMap.find?_eraseAll]
    cases hvalue : SortedMap.lastValue raws.flatten key with
    | some value => rfl
    | none => rw [if_neg (SortedMap.lastValue_eq_none.mp hvalue)]

end QueryExecutor

end ReplicatedCounter.MyDb
