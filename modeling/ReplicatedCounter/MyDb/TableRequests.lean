import ReplicatedCounter.MyDb.AddedRows
import ReplicatedCounter.MyDb.RowTable

/-!
# The requests of a table

Over a schema that keeps to what is needed, `DbImpl` answers the requests for the rows of a table as
`RowTable` does (`table_of_rows`): the store has the entries of the table's rows and no others in the
primary index, and every request that is admitted leaves it so.

What is not said: anything about tables with a secondary index of a client, whose id is that of the
primary one; and about a scan of more rows than Arrow reads at once, which comes back in several
chunks.
-/

set_option autoImplicit false

namespace ReplicatedCounter.MyDb

open KeySerializer RowSerializer QueryExecutor

variable {table : Table}

/-! ## Arrow's chunks -/

/-- How Arrow cuts the result of a plan: in one chunk at most, if the source has no more rows than a
batch. -/
structure InBatches (rechunk : ArrowTable → ArrowTable → ArrowTable) : Prop where
  fields : ∀ source result, (rechunk source result).fields = result.fields
  values : ∀ source result, (rechunk source result).columns.map List.flatten =
    result.columns.map List.flatten
  one : ∀ source result, source.numRows ≤ 32768 →
    ∀ column ∈ (rechunk source result).columns, column.length ≤ 1

/-- The texts of rows are what is sent of them. -/
theorem toTableRows_arrowTable (h : table.Keyed) (rows : List (Row table)) :
    Transformer.toTableRows table (arrowTable table.columns rows) = .ok (rows.map Row.texts) := by
  unfold Transformer.toTableRows
  rw [mapM_positions (g := fun row => .ok row.texts) (columns_ne_nil h)]
  · exact Fallible.mapM_ok fun _ _ => rfl
  · intro rowIdx row hrow
    refine Fallible.mapM_ok fun col hcol => ?_
    rw [value_arrowTable h.names hcol hcol hrow]
    rfl

section batches

variable {rechunk : ArrowTable → ArrowTable → ArrowTable} (hbatches : InBatches rechunk)
  {source : ArrowTable} (rows : List (Row table))

include hbatches

theorem InBatches.flatten_columns :
    (rechunk source (arrowTable table.columns rows)).columns.map List.flatten =
      table.columns.map fun col => rows.map fun row => row.value col.id := by
  rw [hbatches.values]
  simp [arrowTable]

/-- Without rows there is nothing to go over. -/
theorem InBatches.positions_nil :
    (rechunk source (arrowTable table.columns ([] : List (Row table)))).positions = [] := by
  have hflatten : (rechunk source (arrowTable table.columns ([] : List (Row table)))).columns.map
      List.flatten = _ := hbatches.flatten_columns []
  generalize rechunk source (arrowTable table.columns ([] : List (Row table))) = result at hflatten
  have hzero : result.numRows = 0 := by
    unfold ArrowTable.numRows
    cases hcolumns : result.columns with
    | nil => rfl
    | cons column columns =>
      have hmem : column.flatten ∈ result.columns.map List.flatten := by
        rw [hcolumns]
        exact List.mem_cons_self
      rw [hflatten] at hmem
      obtain ⟨col, -, hcol⟩ := List.mem_map.mp hmem
      dsimp only
      rw [← List.length_flatten, ← hcol, List.map_nil, List.length_nil]
  unfold ArrowTable.positions
  rw [hzero]
  rfl

/-- Rows that are not too many stay in one chunk. -/
theorem InBatches.eq_self (hsource : source.numRows ≤ 32768) (hrows : rows ≠ []) :
    rechunk source (arrowTable table.columns rows) = arrowTable table.columns rows := by
  have hfields := hbatches.fields source (arrowTable table.columns rows)
  have hone := hbatches.one source (arrowTable table.columns rows) hsource
  have hflatten : (rechunk source (arrowTable table.columns rows)).columns.map List.flatten = _ :=
    hbatches.flatten_columns rows
  generalize rechunk source (arrowTable table.columns rows) = result at hfields hone hflatten
  have hchunk : ∀ column ∈ result.columns, column = [column.flatten] := by
    intro column hcolumn
    have hlength := hone column hcolumn
    match column, hlength with
    | [], _ =>
      have hmem : [] ∈ result.columns.map List.flatten := List.mem_map.mpr ⟨[], hcolumn, rfl⟩
      rw [hflatten] at hmem
      obtain ⟨col, -, hcol⟩ := List.mem_map.mp hmem
      exact absurd (List.map_eq_nil_iff.mp hcol) hrows
    | [chunk], _ => rw [List.flatten_singleton]
  have hcolumns : result.columns = (arrowTable table.columns rows).columns := by
    calc result.columns = result.columns.map fun column => [column.flatten] := by
          conv_lhs => rw [← List.map_id result.columns]
          exact List.map_congr_left hchunk
      _ = (result.columns.map List.flatten).map ([·]) := by rw [List.map_map]; rfl
      _ = (arrowTable table.columns rows).columns := by
          rw [hflatten, List.map_map]
          rfl
  calc result = ⟨result.fields, result.columns⟩ := rfl
    _ = arrowTable table.columns rows := by rw [hfields, hcolumns]

/-- **How Arrow cuts them** makes no difference to so many rows. -/
theorem InBatches.toTableRows_eq (h : table.Keyed) (hsource : source.numRows ≤ 32768) :
    Transformer.toTableRows table (rechunk source (arrowTable table.columns rows)) =
      .ok (rows.map Row.texts) := by
  by_cases hrows : rows = []
  · subst hrows
    unfold Transformer.toTableRows
    rw [hbatches.positions_nil]
    rfl
  · rw [hbatches.eq_self rows hsource hrows]
    exact toTableRows_arrowTable h rows

end batches

/-! ## The state -/

/-- The table of this name has these rows in the store. -/
structure Represents (db : DbImpl) (databaseName tableName : String) (t : RowTable table) : Prop where
  table : db.schemaStore.getTable databaseName tableName = some table
  holds : Holds db.rocks t.rows
  apart : t.Apart

/-- What is stored after a row was written is what the table has then. -/
theorem Stores.put (h : table.Keyed) {rocks : Rocks} {t : RowTable table} {row : Row table}
    (hstores : Stores rocks (t.rows ++ [row])) : Stores rocks (t.put row).rows := by
  intro key hkey
  have hnodup := nodup_keys h (t.put row).sorted
  rw [hstores key hkey, List.flatMap_append, List.flatMap_singleton, SortedMap.lastValue_append]
  cases hvalue : SortedMap.lastValue row.entries key with
  | some value =>
    rw [Option.some_or, eq_comm, SortedMap.lastValue_eq_some hnodup]
    exact List.mem_flatMap.mpr
      ⟨row, (RowTable.mem_put h).mpr (.inl rfl), SortedMap.mem_of_lastValue hvalue⟩
  | none =>
    -- a row with the same primary key has the same keys, and this is none of them
    have hnot : ∀ {other : Row table} {value : Bytes}, (key, value) ∈ other.entries →
        other.primaryKey ≠ row.primaryKey := by
      intro other value hentry hsame
      have hkeys := SortedMap.lastValue_eq_none.mp hvalue
      rw [keys_entries, ← hsame, ← keys_entries] at hkeys
      exact hkeys (List.mem_map_of_mem hentry)
    ext value
    rw [Option.none_or, SortedMap.lastValue_eq_some (nodup_keys h t.sorted),
      SortedMap.lastValue_eq_some hnodup, List.mem_flatMap, List.mem_flatMap]
    constructor
    · rintro ⟨other, hother, hentry⟩
      exact ⟨other, (RowTable.mem_put h).mpr (.inr ⟨hother, hnot hentry⟩), hentry⟩
    · rintro ⟨other, hother, hentry⟩
      rcases (RowTable.mem_put h).mp hother with rfl | ⟨hold, -⟩
      · exact absurd rfl (hnot hentry)
      · exact ⟨other, hold, hentry⟩

/-- **A call that writes a row** puts it into the table. -/
theorem Holds.put (h : table.Keyed) {rocks rocks' : Rocks} {t : RowTable table}
    (hholds : Holds rocks t.rows) {call : Call table} {row : Row table} (hcall : call.rows = [row])
    (hrun : call.run rocks = .ok rocks') : Holds rocks' (t.put row).rows := by
  refine ⟨Stores.put h ?_, hholds.written.run h hrun⟩
  rw [← hcall]
  exact hholds.stores.run h hrun

/-- A row that can be written has a key to look for. -/
theorem RowTable.Apart.clear {t : RowTable table} (hapart : t.Apart) {row : Row table}
    (hkeys : KeysApart (row :: t.rows)) : Clear t.rows row.primaryKey := by
  refine ⟨fun other hother hbegins => ?_, fun other hother _ => hapart.legible other hother⟩
  exact (hkeys row List.mem_cons_self other (List.mem_cons_of_mem _ hother) hbegins).symm

/-- A scan for a plan brings up the first rows. -/
theorem RowTable.Apart.scanned_eq {t : RowTable table} (hapart : t.Apart) (h : table.Keyed) :
    scanned t.rows = t.rows.take 100000 := by
  have hshown := hapart.keysApart.shown_eq h t.sorted (Nat.zero_le _) 100000 0
  rw [List.drop_zero] at hshown
  rw [← hshown]
  unfold scanned shown
  rw [List.drop_zero, keysBehind_zero]
  refine List.filter_congr fun row hrow => ?_
  have hmem : rowKey table row.primaryKey ∈ keysOf t.rows :=
    List.mem_map.mpr ⟨_, List.mem_flatMap.mpr ⟨row, hrow, List.mem_cons_self⟩, rfl⟩
  have hbegins : rowKey table row.primaryKey <+: columnKey (rowKey table row.primaryKey) 0 :=
    List.prefix_append _ _
  rw [PrefixRuns.started_eq_of_begins hmem hbegins]
  simp [hapart.legible row hrow]

/-! ## The requests -/

/-- A request for every column gives the table with the row. -/
theorem fromColumnValues_all (h : table.Keyed) {row : Row table}
    {columnValues : List client.ColumnValue}
    (hgives : Transformer.Gives row table.columns columnValues) :
    Transformer.fromColumnValues [columnValues] table = .ok (arrowTable table.columns [row]) := by
  rw [← List.flatten_singleton (l := columnValues)] at hgives
  rw [Transformer.fromColumnValues_gives h.ids h.names (columns_ne_nil h) (.refl _) hgives]
  unfold requestTable arrowTable
  congr 2
  refine List.map_congr_left fun col hcol => ?_
  dsimp only
  rw [if_pos (List.mem_map_of_mem hcol)]
  rfl

/-- A row can be written, over a schema that can be serialized. -/
theorem serialize_row_ok (h : table.Keyed) (hserializable : Serializable table) (row : Row table) :
    ∃ raws, serialize table (arrowTable table.columns [row]) = .ok raws := by
  obtain ⟨raw, hraw⟩ := hserializable.rawTableRow_ok row
  refine ⟨[raw], ?_⟩
  rw [serialize_arrowTable h]
  exact Fallible.mapM_eq_ok.mpr (.cons hraw .nil)

namespace DbImpl

/-- A request, as the table of this name is asked. -/
def serve (rechunk : ArrowTable → ArrowTable → ArrowTable) (databaseName tableName : String)
    (db : DbImpl) : RowRequest table → DbImpl × Except Error (List (List Bytes))
  | .addRow _ columnValues _ => (db.addRow { databaseName, tableName, columnValues }).swap
  | .updateRow _ columnValues _ updateType condition _ =>
    -- the response to an update has no rows
    ((db.updateRow { databaseName, tableName, columnValues, updateType := some updateType,
                     condition }).map (·.map fun _ => []) id).swap
  | .getRow _ primaryKeyValues _ => (db, db.getRow { databaseName, tableName, primaryKeyValues })
  | .scanTable returnColumns _ condition _ =>
    (db, db.scanTable rechunk { databaseName, tableName, returnColumns, condition })

end DbImpl

/-- Without a filter a plan gives what it has read. -/
theorem execute_source (h : table.Keyed) (rows : List (Row table)) :
    QueryPlanner.execute { schema := table, source := arrowTable table.columns rows, filter := none } =
      .ok (arrowTable table.columns rows) := by
  have hragged : ¬ ((arrowTable table.columns rows).columns.any fun column =>
      decide (column.flatten.length < (arrowTable table.columns rows).numRows)) = true := by
    rw [numRows_arrowTable (columns_ne_nil h), Bool.not_eq_true, List.any_eq_false]
    intro column hcolumn
    obtain ⟨col, -, rfl⟩ := List.mem_map.mp hcolumn
    simp
  unfold QueryPlanner.execute
  dsimp only [Option.any]
  rw [if_neg Bool.false_ne_true, if_neg hragged]

section requests

variable (h : table.Keyed) {db : DbImpl} {databaseName tableName : String} {t : RowTable table}
  (hrep : Represents db databaseName tableName t) {row : Row table}

include h hrep

/-- **A row is found** under its key. -/
theorem Represents.get_eq (hclear : Clear t.rows row.primaryKey) :
    QueryExecutor.get db.rocks table (arrowTable table.columns [row]) =
      .ok (arrowTable table.columns (t.find? row.primaryKey).toList) := by
  have hclears : ∀ query ∈ [row], Clear t.rows query.primaryKey := by simpa using hclear
  rw [get_arrowTable h hrep.holds.stores h.names (fun _ hcol => (List.mem_filter.mp hcol).1) hclears]
  rw [List.filterMap_cons, List.filterMap_nil, t.lastWritten_eq]
  cases t.find? row.primaryKey <;> rfl

/-- After a row was written the store has the table with it. -/
theorem Represents.put (call : Call table) (hcall : call.rows = [row]) {rocks : Rocks}
    (hrun : call.run db.rocks = .ok rocks) (hlegible : row.Legible)
    (hkeys : KeysApart (row :: t.rows)) :
    Represents { db with rocks } databaseName tableName (t.put row) where
  table := hrep.table
  holds := hrep.holds.put h hcall hrun
  apart := hrep.apart.put h hlegible hkeys

/-- **Adding a row.** -/
theorem Represents.addRow (hserializable : Serializable table)
    {columnValues : List client.ColumnValue}
    (hgives : Transformer.Gives row table.columns columnValues) (hlegible : row.Legible)
    (hkeys : KeysApart (row :: t.rows)) :
    (t.find? row.primaryKey ≠ none →
      db.addRow { databaseName, tableName, columnValues } =
        (.error (.execution (.runtimeError "row already exists")), db)) ∧
    (t.find? row.primaryKey = none → ∃ rocks,
      db.addRow { databaseName, tableName, columnValues } =
        (.ok [row.texts], { db with rocks }) ∧
      Represents { db with rocks } databaseName tableName (t.put row)) := by
  have hget := hrep.get_eq h (hrep.apart.clear hkeys)
  have hnumRows := numRows_arrowTable (columns_ne_nil h) (t.find? row.primaryKey).toList
  constructor
  · intro hfind
    obtain ⟨found, hfound⟩ := Option.ne_none_iff_exists'.mp hfind
    rw [hfound] at hget hnumRows
    have hinsert : QueryExecutor.insert db.rocks table (arrowTable table.columns [row]) =
        .error (.runtimeError "row already exists") := by
      unfold QueryExecutor.insert
      rw [hget, Fallible.ok_bind, hnumRows]
      rfl
    unfold DbImpl.addRow Transformer.fromAddRowRequest
    dsimp only
    rw [hrep.table]
    dsimp only
    rw [fromColumnValues_all h hgives]
    dsimp only
    rw [hinsert]
  · intro hfind
    rw [hfind] at hget hnumRows
    obtain ⟨raws, hser⟩ := serialize_row_ok h hserializable row
    have hinsert : QueryExecutor.insert db.rocks table (arrowTable table.columns [row]) =
        .ok (RocksReaderWriter.write db.rocks raws) := by
      unfold QueryExecutor.insert
      rw [hget, Fallible.ok_bind, hnumRows, hser]
      rfl
    have hput := hrep.put h (.insert [row]) rfl hinsert hlegible hkeys
    have hclear := hput.apart.clear (hkeys.subset (RowTable.cons_put_subset h))
    have hget' := hput.get_eq h hclear
    rw [RowTable.find?_put h, if_pos rfl] at hget'
    refine ⟨_, ?_, hput⟩
    unfold DbImpl.addRow Transformer.fromAddRowRequest
    dsimp only
    rw [hrep.table]
    dsimp only
    rw [fromColumnValues_all h hgives]
    dsimp only
    rw [hinsert]
    dsimp only at hget' ⊢
    rw [hget', Fallible.ok_bind, toTableRows_arrowTable h]
    rfl

/-- **Updating a row**: whether there is a row that lets it through is all that is asked. -/
theorem Represents.updateRow (hzero : table.primaryKeyIndex.id = 0)
    (hserializable : Serializable table) {columnValues : List client.ColumnValue}
    (hgives : Transformer.Gives row table.columns columnValues) (updateType : UpdateOptions)
    {condition : Condition}
    (hcondition : (DbImpl.addConditionToCheckWriteLock condition).WellFormed table.columns)
    (hlegible : row.Legible) (hkeys : KeysApart (row :: t.rows)) :
    ((¬ ∃ found ∈ t.rows.take 100000, condition.meets found.named ∧ found.Unlocked) →
      db.updateRow { databaseName, tableName, columnValues, updateType := some updateType,
                     condition } = (.error (.dbError .updateConditionFailed), db)) ∧
    ((∃ found ∈ t.rows.take 100000, condition.meets found.named ∧ found.Unlocked) → ∃ rocks,
      db.updateRow { databaseName, tableName, columnValues, updateType := some updateType,
                     condition } = (.ok (), { db with rocks }) ∧
      Represents { db with rocks } databaseName tableName (t.put row)) := by
  have hadmitted : DbImpl.Admitted t.rows condition ↔
      ∃ found ∈ t.rows.take 100000, condition.meets found.named ∧ found.Unlocked := by
    unfold DbImpl.Admitted
    rw [hrep.apart.scanned_eq h]
  have hcarries : DbImpl.Carries { databaseName, tableName, columnValues,
                                   updateType := some updateType, condition } table
      (arrowTable table.columns [row]) row.primaryKey := by
    refine ⟨fromColumnValues_all h hgives, ?_, ?_⟩
    · rw [positions_arrowTable (columns_ne_nil h)]
      rfl
    · exact mapM_valueOfId h h.names (fun _ hcol => (List.mem_filter.mp hcol).1) rfl
  rw [← hadmitted]
  constructor
  · exact DbImpl.updateRow_of_not_admitted hrep.table h hzero hrep.holds t.sorted hcarries hcondition
  · intro hsome
    obtain ⟨raws, hser⟩ := serialize_row_ok h hserializable row
    obtain ⟨rocks, hupdate⟩ : ∃ rocks, QueryExecutor.update db.rocks table
        (arrowTable table.columns [row]) updateType = .ok rocks :=
      (DbImpl.update_ok_iff db.rocks updateType).mpr ⟨raws, hser⟩
    refine ⟨rocks, ?_, hrep.put h (.update [row] updateType) rfl hupdate hlegible hkeys⟩
    rw [DbImpl.updateRow_of_admitted hrep.table h hzero hrep.holds t.sorted hcarries hcondition hsome]
    dsimp only
    rw [hupdate]

/-- **Getting a row**: its primary key is all that is read of the request. -/
theorem Represents.getRow (hled : ∀ first ∈ table.columns.head?,
      first.id ∈ table.primaryKeyIndex.columnIds) (hzero : table.primaryKeyIndex.id = 0)
    {primaryKeyValues : List (List client.ColumnValue)}
    (hgives : Transformer.Gives row table.primaryKeyColumns primaryKeyValues.flatten)
    (hclear : Clear t.rows row.primaryKey) :
    db.getRow { databaseName, tableName, primaryKeyValues } =
      .ok ((t.find? row.primaryKey).toList.map Row.texts) := by
  obtain ⟨first, rest, hcolumns⟩ := List.exists_cons_of_ne_nil (columns_ne_nil h)
  have hfirst := hled first (by simp [hcolumns])
  have hwritten : table.Written := ⟨h.ids, h.names, h.columnIds, h.ownIndex.columnIds_ne, hzero⟩
  have hsub : table.primaryKeyColumns.Sublist table.columns := List.filter_sublist
  have hfound := found_scan h hrep.holds.stores hclear
  rw [t.lastWritten_eq] at hfound
  have hget : (Transformer.fromGetRowRequest { databaseName, tableName, primaryKeyValues } table >>=
      QueryExecutor.get db.rocks table) =
        .ok (arrowTable table.columns (t.find? row.primaryKey).toList) := by
    unfold Transformer.fromGetRowRequest
    rw [Transformer.fromColumnValues_gives h.ids h.names (columns_ne_nil h) hsub hgives]
    show QueryExecutor.get db.rocks table _ = _
    unfold QueryExecutor.get
    rw [serializePrimaryKeys_given hwritten hcolumns hfirst]
    show deserialize table [db.rocks.scan (rowKey table row.primaryKey)] = _
    rw [deserialize_entries h (.cons hfound .nil)]
    cases t.find? row.primaryKey <;> rfl
  unfold DbImpl.getRow
  dsimp only
  rw [hrep.table]
  dsimp only
  rw [hget, Fallible.ok_bind, toTableRows_arrowTable h]

/-- What a plan for a condition gives, and what it read. -/
theorem Represents.plan_eq (hzero : table.primaryKeyIndex.id = 0) {condition : Condition}
    (hcondition : condition.WellFormed table.columns) :
    ∃ plan, QueryPlanner.plan db.rocks table condition = .ok plan ∧
      plan.source = arrowTable table.columns (t.rows.take 100000) ∧
      QueryPlanner.execute plan = .ok (arrowTable table.columns
        ((t.rows.take 100000).filter fun row => condition.meets row.named)) := by
  have hscan := DbImpl.tableScan_eq h hzero hrep.holds t.sorted
  rw [hrep.apart.scanned_eq h] at hscan
  obtain ⟨expression, hparse, hbinds⟩ := QueryPlanner.wellFormed_iff.mp hcondition
  have hrows := QueryPlanner.execute_rows (columns_ne_nil h) h.names hparse hbinds (t.rows.take 100000)
  unfold QueryPlanner.plan
  rw [hscan, Fallible.ok_bind]
  cases condition with
  | notSet =>
    refine ⟨_, rfl, rfl, ?_⟩
    rw [execute_source h]
    exact congrArg (Except.ok ∘ arrowTable table.columns) (List.filter_true _).symm
  | unary unaryCondition =>
    dsimp only
    rw [hparse]
    exact ⟨_, rfl, rfl, hrows⟩
  | binary c1 c2 op =>
    dsimp only
    rw [hparse]
    exact ⟨_, rfl, rfl, hrows⟩

/-- **Scanning the table.** -/
theorem Represents.scanTable {rechunk : ArrowTable → ArrowTable → ArrowTable}
    (hbatches : InBatches rechunk) (hzero : table.primaryKeyIndex.id = 0) {returnColumns : List String}
    (hknown : ∀ name ∈ returnColumns, (table.getColumnId name).isSome) {condition : Condition}
    (hcondition : condition.WellFormed table.columns) (hfew : t.rows.length ≤ 32768) :
    db.scanTable rechunk { databaseName, tableName, returnColumns, condition } =
      .ok ((t.rows.filter fun row => condition.meets row.named).map Row.texts) := by
  obtain ⟨plan, hplan, hsource, hexecute⟩ := hrep.plan_eq h hzero hcondition
  have hall : t.rows.take 100000 = t.rows := List.take_of_length_le (by omega)
  rw [hall] at hsource hexecute
  have hids : ∃ outputColumns, returnColumns.mapM (DbImpl.outputColumn table) = .ok outputColumns := by
    obtain ⟨outputColumns, hok, -⟩ := Fallible.mapM_exists (l := returnColumns) (P := fun _ => True)
      (f := DbImpl.outputColumn table) fun name hname => by
        obtain ⟨colId, hcolId⟩ := Option.isSome_iff_exists.mp (hknown name hname)
        refine ⟨colId, ?_, trivial⟩
        unfold DbImpl.outputColumn
        rw [hcolId]
        rfl
    exact ⟨outputColumns, hok⟩
  obtain ⟨outputColumns, hids⟩ := hids
  have hnumRows : plan.source.numRows ≤ 32768 := by
    rw [hsource, numRows_arrowTable (columns_ne_nil h)]
    exact hfew
  unfold DbImpl.scanTable
  dsimp only
  rw [hrep.table]
  dsimp only
  rw [hids, Fallible.ok_bind, hplan, Fallible.ok_bind, hexecute, Fallible.ok_bind,
    hbatches.toTableRows_eq _ h hnumRows]

end requests

/-! ## The refinement -/

section refinement

variable {rechunk : ArrowTable → ArrowTable → ArrowTable} {databaseName tableName : String}

/-- **One request** that is admitted is answered as the table says, and leaves the store with it. -/
theorem Represents.serve (hbatches : InBatches rechunk) (h : table.Keyed)
    (hzero : table.primaryKeyIndex.id = 0) (hserializable : Serializable table)
    (hled : ∀ first ∈ table.columns.head?, first.id ∈ table.primaryKeyIndex.columnIds)
    {db : DbImpl} {t : RowTable table} (hrep : Represents db databaseName tableName t)
    {request : RowRequest table} (hadmits : t.Admits request) :
    (DbImpl.serve rechunk databaseName tableName db request).2 = (t.step request).2 ∧
      Represents (DbImpl.serve rechunk databaseName tableName db request).1 databaseName tableName
        (t.step request).1 := by
  cases request with
  | addRow row columnValues gives =>
    obtain ⟨hlegible, hkeys⟩ := hadmits
    obtain ⟨htaken, hfree⟩ := hrep.addRow h hserializable gives hlegible hkeys
    unfold DbImpl.serve RowTable.step
    dsimp only
    cases hfind : t.find? row.primaryKey with
    | some found =>
      rw [htaken (by rw [hfind]; exact Option.some_ne_none _)]
      exact ⟨rfl, hrep⟩
    | none =>
      obtain ⟨rocks, hadd, hput⟩ := hfree hfind
      rw [hadd]
      exact ⟨rfl, hput⟩
  | updateRow row columnValues gives updateType condition wellFormed =>
    obtain ⟨hlegible, hkeys⟩ := hadmits
    obtain ⟨hrefused, hthrough⟩ :=
      hrep.updateRow h hzero hserializable gives updateType wellFormed hlegible hkeys
    unfold DbImpl.serve RowTable.step
    dsimp only
    split
    · rename_i hsome
      obtain ⟨rocks, hupdate, hput⟩ := hthrough hsome
      rw [hupdate]
      exact ⟨rfl, hput⟩
    · rename_i hnone
      rw [hrefused hnone]
      exact ⟨rfl, hrep⟩
  | getRow row primaryKeyValues gives =>
    have hclear : Clear t.rows row.primaryKey :=
      ⟨hadmits, fun other hother _ => hrep.apart.legible other hother⟩
    exact ⟨hrep.getRow h hled hzero gives hclear, hrep⟩
  | scanTable returnColumns known condition wellFormed =>
    exact ⟨hrep.scanTable h hbatches hzero known wellFormed hadmits, hrep⟩

end refinement

end ReplicatedCounter.MyDb
