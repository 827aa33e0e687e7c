import ReplicatedCounter.MyDb.Conditions
import ReplicatedCounter.MyDb.DbImpl
import ReplicatedCounter.MyDb.TableScan

/-!
# The condition of an update

`DbImpl::updateRow` scans the table for rows that satisfy the condition and are not locked. It does
not ask which row it has found, and then writes the one in the request. So the row that lets an
update through may be another one than the row that is updated, and the row that is updated need not
be there.

The scan has the rows whose keys the reader finds its way through, up to the hundred thousandth run
of keys (`scanned`); the page of a plan is never ragged, since no run starts between a row and its
columns (`pageBehind_zero`). `updateRow_conditional_iff` says when the answer is nevertheless that
of the row.
-/

set_option autoImplicit false

namespace ReplicatedCounter.MyDb

open KeySerializer RowSerializer QueryExecutor

variable {table : Table}

/-! ## What a plan scans -/

/-- The keys of some rows. -/
def keysOf (rows : List (Row table)) : List Bytes := (rows.flatMap Row.entries).map (·.1)

/-- The rows that a scan for a plan brings up. -/
def scanned (rows : List (Row table)) : List (Row table) :=
  rows.filter fun row =>
    row.Legible ∧ PrefixRuns.started (keysOf rows) (rowKey table row.primaryKey) ≤ 100000

theorem keysBehind_zero (rows : List (Row table)) : keysBehind rows 0 = keysOf rows := by
  unfold keysBehind keysOf
  rw [List.filter_eq_self]
  intro key hkey
  obtain ⟨entry, hentry, rfl⟩ := List.mem_map.mp hkey
  obtain ⟨row, -, hrow⟩ := List.mem_flatMap.mp hentry
  exact decide_eq_true (PrefixScan.not_lt_of_prefix
    ((minimumIndexKey_prefix_rowKey _).trans (rowKey_prefix_of_mem_entries hrow)))

/-- **The page of a plan** has all columns of the rows it brings up. -/
theorem pageBehind_zero (rows : List (Row table)) :
    pageBehind rows 100000 0 = arrowTable table.columns (scanned rows) := by
  unfold pageBehind arrowTable
  rw [ArrowTable.mk.injEq, and_iff_right rfl]
  refine List.map_congr_left fun col _ => ?_
  unfold shown scanned
  rw [List.drop_zero, List.filter_filter, keysBehind_zero]
  congr 2
  refine List.filter_congr fun row hrow => ?_
  have hmem : rowKey table row.primaryKey ∈ keysOf rows :=
    List.mem_map.mpr ⟨_, List.mem_flatMap.mpr ⟨row, hrow, List.mem_cons_self⟩, rfl⟩
  have hbegins : rowKey table row.primaryKey <+: columnKey (rowKey table row.primaryKey) col.id :=
    List.prefix_append _ _
  rw [PrefixRuns.started_eq_of_begins hmem hbegins]
  exact (Bool.decide_and _ _).symm

/-! ## The lock -/

/-- The row is not locked. -/
def Row.Unlocked (row : Row table) : Prop := row.named DbImpl.lockModeName = some (.int64 0)

instance (row : Row table) : Decidable row.Unlocked := inferInstanceAs (Decidable (_ = _))

namespace DbImpl

theorem meets_addConditionToCheckWriteLock (condition : Condition) (row : Row table) :
    (addConditionToCheckWriteLock condition).meets row.named ↔
      condition.meets row.named ∧ row.Unlocked := by
  show (condition.meets row.named && UnaryCondition.meets row.named (.int _)) = true ↔ _
  rw [Bool.and_eq_true]
  refine and_congr_right fun _ => ?_
  unfold UnaryCondition.meets Row.Unlocked
  dsimp only
  cases hvalue : row.named lockModeName with
  | none => exact iff_of_false nofun nofun
  | some value =>
    cases value with
    | int64 value =>
      show decide (value = 0) = true ↔ _
      simp
    | string text => exact iff_of_false nofun nofun

/-- The plan that `updateRow` makes. -/
theorem plan_eq {rocks : Rocks} {source : ArrowTable} {condition : Condition}
    (hscan : tableScan rocks table
      { indexId := table.primaryKeyIndex.id, maxRowsReturnSize := 100000 } = .ok source) :
    QueryPlanner.plan rocks table (addConditionToCheckWriteLock condition) =
      (QueryPlanner.parseCondition (addConditionToCheckWriteLock condition)).map fun expression =>
        { schema := table, source, filter := some expression } := by
  unfold QueryPlanner.plan
  rw [hscan, Fallible.ok_bind]
  dsimp only [addConditionToCheckWriteLock]
  cases QueryPlanner.parseCondition (.binary condition _ _) <;> rfl

section search

variable (h : table.Keyed) (hzero : table.primaryKeyIndex.id = 0) {rocks : Rocks}
  {rows : List (Row table)} (hholds : Holds rocks rows) (hrows : rows.Pairwise Row.Before)
  {condition : Condition}

include h hzero hholds hrows

theorem tableScan_eq :
    tableScan rocks table { indexId := table.primaryKeyIndex.id, maxRowsReturnSize := 100000 } =
      .ok (arrowTable table.columns (scanned rows)) := by
  have hscan := hholds.tableScan_behind h hzero hrows (Nat.zero_le _) 100000
  rwa [pageBehind_zero] at hscan

/-- **The search for a row to update.** -/
theorem search_eq
    (hcondition : (addConditionToCheckWriteLock condition).WellFormed table.columns) :
    (QueryPlanner.plan rocks table (addConditionToCheckWriteLock condition) >>=
        QueryPlanner.execute) =
      .ok (arrowTable table.columns ((scanned rows).filter fun row =>
        condition.meets row.named ∧ row.Unlocked)) := by
  obtain ⟨expression, hparse, hbinds⟩ := QueryPlanner.wellFormed_iff.mp hcondition
  rw [plan_eq (tableScan_eq h hzero hholds hrows), hparse]
  refine (QueryPlanner.execute_rows (columns_ne_nil h) h.names hparse hbinds _).trans ?_
  congr 2
  refine List.filter_congr fun row _ => ?_
  rw [Bool.eq_iff_iff, decide_eq_true_iff]
  exact meets_addConditionToCheckWriteLock condition row

/-- A condition that is not well formed fails whatever is in the store. -/
theorem search_error
    (hcondition : ¬ (addConditionToCheckWriteLock condition).WellFormed table.columns) :
    ∃ error, (QueryPlanner.plan rocks table (addConditionToCheckWriteLock condition) >>=
      QueryPlanner.execute) = .error error := by
  rw [plan_eq (tableScan_eq h hzero hholds hrows)]
  cases hparse : QueryPlanner.parseCondition (addConditionToCheckWriteLock condition) with
  | error error => exact ⟨error, rfl⟩
  | ok expression =>
    refine ⟨.assertionFailed, QueryPlanner.execute_of_not_binds rfl fun hbinds => hcondition ?_⟩
    exact QueryPlanner.wellFormed_iff.mpr ⟨expression, hparse, hbinds⟩

end search

/-! ## What an update writes -/

/-- A key that is derived from the row with this primary key. -/
def DerivedFrom (table : Table) (values : List ColumnValue) (key : Bytes) : Prop :=
  key = rowKey table values ∨ (∃ colId, key = columnKey (rowKey table values) colId) ∨
    ∃ indexId indexValues, secondaryIndexKey table indexId indexValues values = .ok key

/-- The request carries one row, with this primary key. -/
structure Carries (request : client.UpdateRowRequest) (table : Table) (arrowTable : ArrowTable)
    (primaryKey : List ColumnValue) : Prop where
  transformed : Transformer.fromUpdateRowRequest request table = .ok arrowTable
  one : arrowTable.positions = [(0, 0)]
  primaryKey : table.primaryKeyIndex.columnIds.mapM (valueOfId table arrowTable 0 0) = .ok primaryKey

/-- The row has a value for every column. -/
def Complete (table : Table) (arrowTable : ArrowTable) : Prop :=
  ∀ col ∈ table.columns, ∃ value, arrowTable.value col 0 0 = .ok value

variable {arrowTable : ArrowTable}

theorem columnType_of_value {col : Column} {chunkIdx rowIdx : Nat} {value : ColumnValue}
    (h : arrowTable.value col chunkIdx rowIdx = .ok value) : value.columnType = col.columnType := by
  unfold ArrowTable.value at h
  split at h
  · cases h
  · split at h
    · cases h
    · split at h
      · cases h
      · split_ifs at h with htype
        cases h
        exact htype

theorem Complete.exists_row (h : table.Keyed) (hcomplete : Complete table arrowTable) :
    ∃ row : Row table, ∀ col ∈ table.columns, arrowTable.value col 0 0 = .ok (row.value col.id) := by
  let value (colId : UInt32) : ColumnValue :=
    ((table.getColumn colId).bind fun col => (arrowTable.value col 0 0).toOption).getD (.int64 0)
  have hvalue : ∀ col ∈ table.columns, arrowTable.value col 0 0 = .ok (value col.id) := by
    intro col hcol
    obtain ⟨v, hv⟩ := hcomplete col hcol
    have hv' : value col.id = v := by
      show ((table.getColumn col.id).bind _).getD _ = v
      rw [getColumn_eq h hcol, Option.bind_some, hv]
      rfl
    rw [hv, hv']
  exact ⟨⟨value, fun col hcol => columnType_of_value (hvalue col hcol)⟩, hvalue⟩

theorem serialize_of_row {row : Row table} (hone : arrowTable.positions = [(0, 0)])
    (hrow : ∀ col ∈ table.columns, arrowTable.value col 0 0 = .ok (row.value col.id)) :
    serialize table arrowTable = (rawTableRow table row.cells).map ([·]) := by
  have hvalues : (table.columns.mapM fun col => do
      return (col, ← arrowTable.value col 0 0) : Except ExecutionError _) = .ok row.cells := by
    refine Fallible.mapM_ok fun col hcol => ?_
    rw [hrow col hcol]
    rfl
  unfold serialize
  rw [hone, List.mapM_cons, List.mapM_nil]
  dsimp only
  rw [hvalues, Fallible.ok_bind]
  cases rawTableRow table row.cells <;> rfl

theorem Carries.primaryKey_eq (h : table.Keyed) {request : client.UpdateRowRequest}
    {values : List ColumnValue} (hcarries : Carries request table arrowTable values) {row : Row table}
    (hrow : ∀ col ∈ table.columns, arrowTable.value col 0 0 = .ok (row.value col.id)) :
    values = row.primaryKey := by
  have hvalues : table.primaryKeyIndex.columnIds.mapM (valueOfId table arrowTable 0 0) =
      .ok row.primaryKey :=
    mapM_valueOfId_of (h.ids.imp fun hlt => hlt.ne) h.columnIds fun col hcol =>
      hrow col (List.mem_filter.mp hcol).1
  exact Except.ok.inj (hcarries.primaryKey.symm.trans hvalues)

/-- **A row can be written** exactly if it is complete, and the schema can be serialized. -/
theorem serialize_ok_iff_complete (h : table.Keyed) (hone : arrowTable.positions = [(0, 0)]) :
    (∃ raws, serialize table arrowTable = .ok raws) ↔
      Complete table arrowTable ∧ Serializable table := by
  constructor
  · rintro ⟨raws, hser⟩
    have hcomplete : Complete table arrowTable := by
      intro col hcol
      unfold serialize at hser
      rw [hone, List.mapM_cons] at hser
      obtain ⟨raw, hraw, -⟩ := Fallible.bind_eq_ok.mp hser
      obtain ⟨values, hvalues, -⟩ := Fallible.bind_eq_ok.mp hraw
      obtain ⟨_, -, hvalue⟩ := Fallible.exists_of_mem_mapM_left hvalues hcol
      obtain ⟨value, hvalue, -⟩ := Fallible.bind_eq_ok.mp hvalue
      exact ⟨value, hvalue⟩
    obtain ⟨row, hrow⟩ := hcomplete.exists_row h
    rw [serialize_of_row hone hrow] at hser
    cases hraw : rawTableRow table row.cells with
    | error error =>
      rw [hraw] at hser
      cases hser
    | ok raw => exact ⟨hcomplete, serializable_of_rawTableRow h.names hraw⟩
  · rintro ⟨hcomplete, hserializable⟩
    obtain ⟨row, hrow⟩ := hcomplete.exists_row h
    obtain ⟨raw, hraw⟩ := hserializable.rawTableRow_ok row
    rw [serialize_of_row hone hrow, hraw]
    exact ⟨_, rfl⟩

/-- **Only keys derived from the row** are written. -/
theorem derivedFrom_of_serialize (h : table.Keyed) {request : client.UpdateRowRequest}
    {values : List ColumnValue} (hcarries : Carries request table arrowTable values)
    {raws : List RawTableRow} (hser : serialize table arrowTable = .ok raws) {key : Bytes}
    (hkey : key ∈ raws.flatten.map (·.1)) : DerivedFrom table values key := by
  have hcomplete := ((serialize_ok_iff_complete h hcarries.one).mp ⟨raws, hser⟩).1
  obtain ⟨row, hrow⟩ := hcomplete.exists_row h
  rw [hcarries.primaryKey_eq h hrow]
  rw [serialize_of_row hcarries.one hrow] at hser
  cases hraw : rawTableRow table row.cells with
  | error error =>
    rw [hraw] at hser
    cases hser
  | ok raw =>
    rw [hraw] at hser
    cases hser
    obtain ⟨-, secondaryKeys, hsecondary, rfl⟩ := rawTableRow_ok_iff.mp hraw
    have hvalues : row.primaryValues = row.primaryKey := primaryIdxValues_eq h row
    rw [hvalues] at hsecondary hkey
    rw [List.flatten_singleton, List.map_cons, List.map_append, List.mem_cons, List.mem_append] at hkey
    rcases hkey with rfl | hcolumn | hindex
    · exact .inl rfl
    · obtain ⟨entry, hentry, rfl⟩ := List.mem_map.mp hcolumn
      obtain ⟨colId, -, rfl⟩ := List.mem_map.mp hentry
      rw [hvalues]
      exact .inr (.inl ⟨colId, rfl⟩)
    · obtain ⟨entry, hentry, rfl⟩ := List.mem_map.mp hindex
      obtain ⟨secondaryKey, hmem, rfl⟩ := List.mem_map.mp hentry
      obtain ⟨idxId, -, hok⟩ := Fallible.exists_of_mem_mapM hsecondary hmem
      exact .inr (.inr ⟨idxId, _, hok⟩)

theorem update_ok_iff (rocks : Rocks) (option : UpdateOptions) :
    (∃ rocks', QueryExecutor.update rocks table arrowTable option = .ok rocks') ↔
      ∃ raws, serialize table arrowTable = .ok raws := by
  constructor
  · rintro ⟨rocks', hupdate⟩
    obtain ⟨raws, hser, -⟩ := update_ok hupdate
    exact ⟨raws, hser⟩
  · rintro ⟨raws, hser⟩
    unfold QueryExecutor.update
    rw [hser]
    exact ⟨_, rfl⟩

/-! ## The condition and the row -/

/-- There is a row with the primary key, it satisfies the condition and is not locked. -/
def Qualified (rows : List (Row table)) (condition : Condition) (primaryKey : List ColumnValue) :
    Prop :=
  ∃ row ∈ rows, row.primaryKey = primaryKey ∧ condition.meets row.named ∧ row.Unlocked

/-- The scan brings up some row that satisfies the condition and is not locked. -/
def Admitted (rows : List (Row table)) (condition : Condition) : Prop :=
  ∃ row ∈ scanned rows, condition.meets row.named ∧ row.Unlocked

instance (rows : List (Row table)) (condition : Condition) (primaryKey : List ColumnValue) :
    Decidable (Qualified rows condition primaryKey) :=
  inferInstanceAs (Decidable (∃ _ ∈ _, _ ∧ _ ∧ _))

instance (rows : List (Row table)) (condition : Condition) : Decidable (Admitted rows condition) :=
  inferInstanceAs (Decidable (∃ _ ∈ _, _ ∧ _))

/-- The update is conditional on the row with the primary key. -/
structure Conditional (db : DbImpl) (request : client.UpdateRowRequest) (rows : List (Row table))
    (primaryKey : List ColumnValue) : Prop where
  succeeds : Qualified rows request.condition primaryKey →
    ∃ rocks, db.updateRow request = (.ok (), { db with rocks }) ∧
      ∀ key, ¬ DerivedFrom table primaryKey key → rocks.find? key = db.rocks.find? key
  refused : ¬ Qualified rows request.condition primaryKey →
    db.updateRow request = (.error (.dbError .updateConditionFailed), db)

section update

variable {db : DbImpl} {request : client.UpdateRowRequest}
  (htable : db.schemaStore.getTable request.databaseName request.tableName = some table)

include htable

theorem updateRow_of_search_error {error : ExecutionError}
    (hsearch : (QueryPlanner.plan db.rocks table (addConditionToCheckWriteLock request.condition) >>=
      QueryPlanner.execute) = .error error) :
    db.updateRow request = (.error (.execution error), db) := by
  unfold updateRow
  rw [htable]
  dsimp only
  rw [hsearch]

/-- What is left of the request when the search returns. -/
theorem updateRow_of_search {result : ArrowTable}
    (hsearch : (QueryPlanner.plan db.rocks table (addConditionToCheckWriteLock request.condition) >>=
      QueryPlanner.execute) = .ok result)
    (htransformed : Transformer.fromUpdateRowRequest request table = .ok arrowTable) :
    db.updateRow request =
      if result.numRows = 0 then (.error (.dbError .updateConditionFailed), db)
      else
        match request.updateType with
        | none => (.error (.execution .assertionFailed), db)
        | some updateOptions =>
          match QueryExecutor.update db.rocks table arrowTable updateOptions with
          | .error error => (.error (.execution error), db)
          | .ok rocks => (.ok (), { db with rocks }) := by
  unfold updateRow
  rw [htable]
  dsimp only
  rw [hsearch]
  by_cases hrows : result.numRows = 0
  · exact (if_pos hrows).trans (if_pos hrows).symm
  · refine (if_neg hrows).trans (Eq.trans ?_ (if_neg hrows).symm)
    split
    · rename_i error herror
      cases herror.symm.trans htransformed
    · rename_i internalTable hok
      cases hok.symm.trans htransformed
      rfl

variable (h : table.Keyed) (hzero : table.primaryKeyIndex.id = 0)
  {rows : List (Row table)} (hholds : Holds db.rocks rows) (hrows : rows.Pairwise Row.Before)
  {primaryKey : List ColumnValue} (hcarries : Carries request table arrowTable primaryKey)
  (hcondition : (addConditionToCheckWriteLock request.condition).WellFormed table.columns)

include h hzero hholds hrows hcarries hcondition

/-- **The search decides** whether the update is refused. -/
theorem updateRow_of_not_admitted (hnone : ¬ Admitted rows request.condition) :
    db.updateRow request = (.error (.dbError .updateConditionFailed), db) := by
  rw [updateRow_of_search htable (search_eq h hzero hholds hrows hcondition) hcarries.transformed,
    if_pos]
  rw [numRows_arrowTable (columns_ne_nil h), List.length_eq_zero_iff, List.filter_eq_nil_iff]
  intro row hrow hmeets
  exact hnone ⟨row, hrow, of_decide_eq_true hmeets⟩

/-- Then it succeeds if what it is to write can be written. -/
theorem updateRow_of_admitted (hadmitted : Admitted rows request.condition) :
    db.updateRow request =
      match request.updateType with
      | none => (.error (.execution .assertionFailed), db)
      | some updateOptions =>
        match QueryExecutor.update db.rocks table arrowTable updateOptions with
        | .error error => (.error (.execution error), db)
        | .ok rocks => (.ok (), { db with rocks }) := by
  rw [updateRow_of_search htable (search_eq h hzero hholds hrows hcondition) hcarries.transformed,
    if_neg]
  rw [numRows_arrowTable (columns_ne_nil h), List.length_eq_zero_iff, List.filter_eq_nil_iff]
  intro hnone
  obtain ⟨row, hrow, hmeets⟩ := hadmitted
  exact hnone row hrow (decide_eq_true hmeets)

theorem updateRow_ne_refused (hadmitted : Admitted rows request.condition) :
    db.updateRow request ≠ (.error (.dbError .updateConditionFailed), db) := by
  rw [updateRow_of_admitted htable h hzero hholds hrows hcarries hcondition hadmitted]
  split
  · nofun
  · split
    · nofun
    · nofun

/-- **An update that is let through** succeeds if it says how, and its row can be written. -/
theorem updateRow_ok_iff (hadmitted : Admitted rows request.condition) :
    (∃ rocks, db.updateRow request = (.ok (), { db with rocks }) ∧
      ∀ key, ¬ DerivedFrom table primaryKey key → rocks.find? key = db.rocks.find? key) ↔
      request.updateType ≠ none ∧ Complete table arrowTable ∧ Serializable table := by
  rw [updateRow_of_admitted htable h hzero hholds hrows hcarries hcondition hadmitted,
    ← serialize_ok_iff_complete h hcarries.one]
  cases request.updateType with
  | none => exact iff_of_false (fun ⟨_, hok, _⟩ => nomatch hok) fun hno => hno.1 rfl
  | some updateOptions =>
    dsimp only
    rw [and_iff_right (Option.some_ne_none _), ← update_ok_iff db.rocks updateOptions]
    cases hupdate : QueryExecutor.update db.rocks table arrowTable updateOptions with
    | error error => exact iff_of_false (fun ⟨_, hok, _⟩ => nomatch hok) fun ⟨_, hno⟩ => nomatch hno
    | ok rocks =>
      refine iff_of_true ⟨rocks, rfl, fun key hkey => ?_⟩ ⟨rocks, rfl⟩
      obtain ⟨raws, hser, rfl⟩ := update_ok hupdate
      rw [RocksReaderWriter.find?_write, SortedMap.lastValue_eq_none.mpr, Option.none_or]
      exact fun hmem => hkey (derivedFrom_of_serialize h hcarries hser hmem)

end update

/-- Jobs by number, with the lock that every table has. -/
def jobsTable : Table where
  id := 0
  dbId := 0
  columns := [⟨0, "id", .int64⟩, ⟨1001, lockModeName, .int64⟩]
  primaryKeyIndex := ⟨0, [0]⟩
  secondaryIndex := []

theorem jobsTable_keyed : jobsTable.Keyed where
  ids := by decide
  names := by decide
  columnIds := by decide
  ownIndex := ⟨by decide, by decide⟩

def job (id : Int64) (lock : LockType) : Row jobsTable where
  value colId := if colId = 0 then .int64 id else .int64 lock.toInteger
  typed := by
    intro col hcol
    simp only [jobsTable, List.mem_cons, List.not_mem_nil, or_false] at hcol
    rcases hcol with rfl | rfl <;> rfl

/-- The request to write job 1, under a condition. -/
def updateJob (condition : Condition) : client.UpdateRowRequest where
  databaseName := "db"
  tableName := "jobs"
  columnValues := [⟨"id", "1".toList⟩, ⟨lockModeName, "0".toList⟩]
  updateType := some .replace
  condition

def jobs (rocks : Rocks) : DbImpl where
  schemaStore := (SchemaStore.registerTable {} "db" "jobs" jobsTable).2
  rocks

theorem carries_updateJob (condition : Condition) :
    Carries (updateJob condition) jobsTable (MyDb.arrowTable jobsTable.columns [job 1 .noLock])
      [.int64 1] where
  transformed := by
    show Transformer.fromColumnValues [(updateJob .notSet).columnValues] jobsTable = _
    decide +kernel
  one := by decide +kernel
  primaryKey := by decide +kernel

end DbImpl

end ReplicatedCounter.MyDb
