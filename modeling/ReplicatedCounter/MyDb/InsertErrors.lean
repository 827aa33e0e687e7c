import ReplicatedCounter.MyDb.QueryExecutor

/-!
# What an insert is refused for

An insert looks for the keys it is to write, and tells its caller if one is taken. All other calls
that it makes fail without saying anything (`TellsNothing`), so this is all it is ever refused for
(`insert_refused_iff`).
-/

set_option autoImplicit false

namespace ReplicatedCounter.MyDb

open Fallible

/-! ## Calls that have no error of their own -/

/-- An error that is not a `std::runtime_error` with a text. -/
def TellsNothing (error : ExecutionError) : Prop := ∀ what, error ≠ .runtimeError what

theorem tellsNothing_conversionError : TellsNothing .conversionError := nofun

theorem tellsNothing_assertionFailed : TellsNothing .assertionFailed := nofun

theorem tellsNothing_undefinedBehaviour : TellsNothing .undefinedBehaviour := nofun

theorem tellsNothing_outOfRange : TellsNothing .outOfRange := nofun

theorem tellsNothing_toUInt32 (text : Bytes) : FailsOnly TellsNothing (toUInt32 text) := by
  unfold toUInt32
  split
  · split
    · exact failsOnly_ok _
    · exact failsOnly_error tellsNothing_conversionError
  · exact failsOnly_error tellsNothing_conversionError

theorem tellsNothing_toInt64 (text : Bytes) : FailsOnly TellsNothing (toInt64 text) := by
  unfold toInt64
  split
  · split
    · exact failsOnly_ok _
    · exact failsOnly_error tellsNothing_conversionError
  · exact failsOnly_error tellsNothing_conversionError

theorem tellsNothing_parseToken (table : Table) (s : KeySerializer.ParseState) (token : Bytes) :
    FailsOnly TellsNothing (KeySerializer.parseToken table s token) := by
  unfold KeySerializer.parseToken
  split
  · exact (tellsNothing_toUInt32 token).bind fun _ => failsOnly_ok _
  · exact (tellsNothing_toUInt32 token).bind fun _ => failsOnly_ok _
  · refine (tellsNothing_toUInt32 token).bind fun indexId => ?_
    split
    · exact failsOnly_ok _
    · exact failsOnly_ok _
  · split
    · exact failsOnly_error tellsNothing_undefinedBehaviour
    · exact failsOnly_ok _
  · exact (tellsNothing_toUInt32 token).bind fun _ => failsOnly_ok _
  · split
    · exact failsOnly_error tellsNothing_undefinedBehaviour
    · dsimp only
      split
      · exact failsOnly_ok _
      · exact failsOnly_ok _

theorem tellsNothing_parseKey (table : Table) (key : Bytes) :
    FailsOnly TellsNothing (KeySerializer.parseKey table key) :=
  (failsOnly_foldlM (fun s token => tellsNothing_parseToken table s token) _).bind
    fun _ => failsOnly_ok _

theorem tellsNothing_primaryKey (table : Table) (values : List ColumnValue) :
    FailsOnly TellsNothing (KeySerializer.primaryKey table values) := by
  unfold KeySerializer.primaryKey
  split
  · exact failsOnly_ok _
  · exact failsOnly_error tellsNothing_assertionFailed

theorem tellsNothing_secondaryIndexKey (table : Table) (indexId : UInt32)
    (values primaryValues : List ColumnValue) :
    FailsOnly TellsNothing (KeySerializer.secondaryIndexKey table indexId values primaryValues) := by
  unfold KeySerializer.secondaryIndexKey
  split
  · exact failsOnly_error tellsNothing_assertionFailed
  · split
    · exact failsOnly_error tellsNothing_assertionFailed
    · split
      · exact failsOnly_error tellsNothing_undefinedBehaviour
      · exact failsOnly_ok _

theorem tellsNothing_value (arrowTable : ArrowTable) (col : Column) (chunkIdx rowIdx : Nat) :
    FailsOnly TellsNothing (arrowTable.value col chunkIdx rowIdx) := by
  unfold ArrowTable.value
  split
  · exact failsOnly_error tellsNothing_undefinedBehaviour
  · split
    · exact failsOnly_error tellsNothing_undefinedBehaviour
    · split
      · exact failsOnly_error tellsNothing_undefinedBehaviour
      · split
        · exact failsOnly_ok _
        · exact failsOnly_error tellsNothing_undefinedBehaviour

namespace RowSerializer

theorem tellsNothing_serializePrimaryKeys (table : Table) (arrowTable : ArrowTable) :
    FailsOnly TellsNothing (serializePrimaryKeys table arrowTable) := by
  refine failsOnly_mapM fun position _ => ?_
  refine (failsOnly_mapM fun colId _ => ?_).bind fun values => tellsNothing_primaryKey table values
  unfold valueOfId
  split
  · exact failsOnly_error tellsNothing_outOfRange
  · exact tellsNothing_value _ _ _ _

theorem tellsNothing_appendEntry (table : Table) (colBuilder : SortedMap UInt32 (List ColumnValue))
    (entry : Bytes × Bytes) : FailsOnly TellsNothing (appendEntry table colBuilder entry) := by
  unfold appendEntry
  refine (tellsNothing_parseKey table entry.1).bind fun keyFragments => ?_
  split
  · exact failsOnly_ok _
  · split
    · exact failsOnly_error tellsNothing_assertionFailed
    · exact (tellsNothing_toInt64 entry.2).bind fun _ => failsOnly_ok _
    · exact failsOnly_ok _

theorem tellsNothing_deserialize (table : Table) (rows : List RawTableRow) :
    FailsOnly TellsNothing (deserialize table rows) := by
  unfold deserialize
  refine (failsOnly_foldlM (tellsNothing_appendEntry table) _).bind fun colBuilder => ?_
  dsimp only
  split
  · exact failsOnly_error tellsNothing_undefinedBehaviour
  · exact failsOnly_ok _

theorem tellsNothing_serialize (table : Table) (arrowTable : ArrowTable) :
    FailsOnly TellsNothing (serialize table arrowTable) := by
  refine failsOnly_mapM fun position _ => ?_
  refine (failsOnly_mapM fun col _ => (tellsNothing_value _ _ _ _).bind fun _ => failsOnly_ok _).bind ?_
  intro values
  unfold rawTableRow
  dsimp only
  refine (tellsNothing_primaryKey table _).bind fun primaryKey => ?_
  refine (failsOnly_mapM fun idxId _ => ?_).bind fun _ => failsOnly_ok _
  exact tellsNothing_secondaryIndexKey table _ _ _

end RowSerializer

/-- **Reading rows is never refused.** -/
theorem tellsNothing_get (rocks : Rocks) (table : Table) (arrowTable : ArrowTable) :
    FailsOnly TellsNothing (QueryExecutor.get rocks table arrowTable) :=
  (RowSerializer.tellsNothing_serializePrimaryKeys table arrowTable).bind fun keys =>
    RowSerializer.tellsNothing_deserialize table (RocksReaderWriter.read rocks keys)

/-! ## Inserts -/

/-- What the caller of an insert is told when the row is there. -/
def rowAlreadyExists : ExecutionError := .runtimeError "row already exists"

theorem TellsNothing.ne_rowAlreadyExists {error : ExecutionError} (h : TellsNothing error) :
    error ≠ rowAlreadyExists := h _

/-- A key of these rows is taken. -/
def Taken (rocks : Rocks) (table : Table) (arrowTable : ArrowTable) : Prop :=
  ∃ result, QueryExecutor.get rocks table arrowTable = .ok result ∧ result.numRows ≠ 0

theorem taken_iff {rocks : Rocks} {table : Table} {arrowTable result : ArrowTable}
    (hget : QueryExecutor.get rocks table arrowTable = .ok result) :
    Taken rocks table arrowTable ↔ result.numRows ≠ 0 := by
  constructor
  · rintro ⟨result', hget', hrows⟩
    cases hget.symm.trans hget'
    exact hrows
  · intro hrows
    exact ⟨result, hget, hrows⟩

/-- **An insert is refused** exactly if a key is taken. -/
theorem insert_refused_iff {rocks : Rocks} {table : Table} {arrowTable : ArrowTable} :
    QueryExecutor.insert rocks table arrowTable = .error rowAlreadyExists ↔
      Taken rocks table arrowTable := by
  have hser : RowSerializer.serialize table arrowTable ≠ .error rowAlreadyExists := fun h =>
    (RowSerializer.tellsNothing_serialize table arrowTable _ h).ne_rowAlreadyExists rfl
  constructor
  · intro h
    cases hget : QueryExecutor.get rocks table arrowTable with
    | error error =>
      have herror : QueryExecutor.insert rocks table arrowTable = .error error := by
        unfold QueryExecutor.insert
        rw [hget]
        rfl
      cases herror.symm.trans h
      exact absurd rfl (tellsNothing_get rocks table arrowTable _ hget).ne_rowAlreadyExists
    | ok result => exact ⟨result, hget, (QueryExecutor.insert_eq_error hget hser).mp h⟩
  · rintro ⟨result, hget, hrows⟩
    exact (QueryExecutor.insert_eq_error hget hser).mpr hrows

end ReplicatedCounter.MyDb
