import ReplicatedCounter.MyDb.RequestedColumns

/-!
# Getting the rows that were added

`getRow` looks for the key of a row and puts together what it finds under it. Two things can go wrong.
The request is turned into a table whose first column says how many rows it has; a table with another
first column than one of its primary key has none. And the key may not lead to the row, or not
only to it: the keys of a row whose primary key cannot be parsed are all passed over, and a
key of a secondary index, whose id is that of the primary one, may begin with the key of the row.
-/

set_option autoImplicit false

namespace ReplicatedCounter.MyDb

open KeySerializer RowSerializer

variable {table : Table}

/-! ## Reading a table of cells -/

/-- A table of a client to which a row could be written. -/
structure Table.Written (table : Table) : Prop where
  ids : (table.columns.map (·.id)).Pairwise (· < ·)
  names : (table.columns.map (·.name)).Nodup
  columnIds : table.primaryKeyIndex.columnIds = table.primaryKeyColumns.map (·.id)
  columnIds_ne : table.primaryKeyIndex.columnIds ≠ []
  zero : table.primaryKeyIndex.id = 0

theorem Table.Written.nodup_ids (h : table.Written) : (table.columns.map (·.id)).Nodup :=
  h.ids.imp fun hlt => hlt.ne

/-- The texts of a row. -/
def Row.texts (row : Row table) : List Bytes := table.columns.map fun col => (row.value col.id).toString

/-- A cell has the type of its column. -/
theorem readCell_typed (hids : (table.columns.map (·.id)).Nodup) {col : Column}
    (hcol : col ∈ table.columns) {entry : Bytes × Bytes} {value : ColumnValue}
    (h : readCell table entry = .ok (some (col.id, value))) : value.columnType = col.columnType := by
  obtain ⟨htype, -⟩ := readCell_eq_some h
  exact Option.some.inj (htype.symm.trans (getColumnType_of_nodup hids hcol))

/-- **A table of arrays holds exactly a row** if the first column has one value, and the first value
of every column is the row's. -/
theorem toTableRows_eq_iff (h : table.Written) {first : Column} {rest : List Column}
    (hcolumns : table.columns = first :: rest) {arrays : UInt32 → List ColumnValue}
    (htyped : ∀ col ∈ table.columns, ∀ value ∈ arrays col.id, value.columnType = col.columnType)
    {row : Row table} :
    Transformer.toTableRows table (requestTable table arrays) = .ok [row.texts] ↔
      (arrays first.id).length = 1 ∧
        ∀ col ∈ table.columns, (arrays col.id).head? = some (row.value col.id) := by
  have hvalue : ∀ col ∈ table.columns, ∀ value, (requestTable table arrays).value col 0 0 = .ok value ↔
      (arrays col.id).head? = some value := by
    intro col hcol value
    rw [List.head?_eq_getElem?, value_requestTable_iff h.names hcol]
    exact and_iff_left_of_imp fun hvalue => htyped col hcol value (List.mem_of_getElem? hvalue)
  have hrow : (table.columns.mapM fun col => do
      let value ← (requestTable table arrays).value col 0 0
      return value.toString) = .ok row.texts ↔
        ∀ col ∈ table.columns, (arrays col.id).head? = some (row.value col.id) := by
    unfold Row.texts
    rw [Fallible.mapM_eq_ok, List.forall₂_map_right_iff, List.forall₂_same]
    refine forall₂_congr fun col hcol => ?_
    rw [Fallible.bind_eq_ok]
    constructor
    · rintro ⟨value, hread, htext⟩
      have hhead := (hvalue col hcol value).mp hread
      have htype := htyped col hcol value (List.mem_of_mem_head? hhead)
      rw [hhead, toString_inj (htype.trans (row.typed col hcol).symm) (Except.ok.inj htext)]
    · intro hhead
      exact ⟨_, (hvalue col hcol _).mpr hhead, rfl⟩
  unfold Transformer.toTableRows
  rw [positions_requestTable hcolumns]
  constructor
  · intro hrows
    have hlen := (Fallible.forall₂_of_mapM hrows).length_eq
    rw [List.length_map, List.length_range, List.length_singleton] at hlen
    rw [hlen] at hrows
    refine ⟨hlen, hrow.mp ?_⟩
    exact (List.forall₂_cons.mp (Fallible.forall₂_of_mapM hrows)).1
  · rintro ⟨hlen, hvalues⟩
    rw [hlen]
    exact Fallible.mapM_eq_ok.mpr (.cons (hrow.mpr hvalues) .nil)

/-! ## What is stored under a key -/

/-- What is stored under the primary key of the row shows the row. -/
structure Row.Shown (row : Row table) (rocks : Rocks) : Prop where
  /-- Every key that begins with the primary key can be read. -/
  readable : ∀ entry ∈ rocks.scan (rowKey table row.primaryKey),
    ∃ cell, readCell table entry = .ok cell
  /-- One of them at most is read as one of the first column. -/
  single : ∀ first ∈ table.columns.head?, ∀ entry ∈ rocks.scan (rowKey table row.primaryKey),
    ∀ entry' ∈ rocks.scan (rowKey table row.primaryKey), ∀ value value',
      readCell table entry = .ok (some (first.id, value)) →
        readCell table entry' = .ok (some (first.id, value')) → entry = entry'
  /-- The first of them that is read as one of a column has the row's value. -/
  values : ∀ col ∈ table.columns, ∃ entry ∈ rocks.scan (rowKey table row.primaryKey),
    readCell table entry = .ok (some (col.id, row.value col.id)) ∧
      ∀ entry' ∈ rocks.scan (rowKey table row.primaryKey), ∀ value,
        readCell table entry' = .ok (some (col.id, value)) → entry.1 ≤ entry'.1

/-- The cell of a column that an entry is read as. -/
def cellAt (table : Table) (colId : UInt32) (entry : Bytes × Bytes) : Option ColumnValue :=
  match readCell table entry with
  | .ok (some cell) => if cell.1 = colId then some cell.2 else none
  | _ => none

theorem cellAt_eq_some_iff {colId : UInt32} {entry : Bytes × Bytes} {value : ColumnValue} :
    cellAt table colId entry = some value ↔ readCell table entry = .ok (some (colId, value)) := by
  unfold cellAt
  cases readCell table entry with
  | error error => simp
  | ok cell =>
    cases cell with
    | none => simp
    | some cell =>
      obtain ⟨colId', value'⟩ := cell
      dsimp only
      by_cases hid : colId' = colId
      · rw [if_pos hid, hid]
        simp
      · rw [if_neg hid]
        simp [hid]

theorem cellsOf_mapM {entries : List (Bytes × Bytes)} {cells : List (Option (UInt32 × ColumnValue))}
    (h : entries.mapM (readCell table) = .ok cells) (colId : UInt32) :
    cellsOf cells colId = entries.filterMap (cellAt table colId) := by
  have hcalls := Fallible.forall₂_of_mapM h
  clear h
  unfold cellsOf
  induction hcalls with
  | nil => rfl
  | @cons entry cell entries cells hhead _ ih =>
    cases cell with
    | none =>
      have hnone : cellAt table colId entry = none := by
        unfold cellAt
        rw [hhead]
      rw [List.filterMap_cons_none hnone, List.reduceOption_cons_of_none]
      exact ih
    | some cell =>
      have hcell : cellAt table colId entry = if cell.1 = colId then some cell.2 else none := by
        unfold cellAt
        rw [hhead]
      rw [List.reduceOption_cons_of_some, List.filter_cons]
      by_cases hid : cell.1 = colId
      · rw [if_pos hid] at hcell
        rw [if_pos (by simpa using hid), List.map_cons, List.filterMap_cons_some hcell, ih]
      · rw [if_neg hid] at hcell
        rw [if_neg (by simpa using hid), List.filterMap_cons_none hcell]
        exact ih

theorem sorted_scan (rocks : Rocks) (key : Bytes) : (rocks.scan key).Pairwise (·.1 < ·.1) := by
  rw [SortedMap.scan_eq_filter]
  exact rocks.sorted.filter _

/-- **A row is shown** exactly if the cells under its key are its. -/
theorem shown_iff_cells {first : Column} {rest : List Column} (hcolumns : table.columns = first :: rest)
    {row : Row table} {rocks : Rocks} :
    row.Shown rocks ↔ ∃ cells,
      (rocks.scan (rowKey table row.primaryKey)).mapM (readCell table) = .ok cells ∧
      (cellsOf cells first.id).length = 1 ∧
      ∀ col ∈ table.columns, (cellsOf cells col.id).head? = some (row.value col.id) := by
  have hsorted := sorted_scan rocks (rowKey table row.primaryKey)
  have hsome : ∀ {colId : UInt32} {entry : Bytes × Bytes}, cellAt table colId entry ≠ none ↔
      ∃ value, readCell table entry = .ok (some (colId, value)) := by
    intro colId entry
    rw [Option.ne_none_iff_exists']
    exact exists_congr fun value => cellAt_eq_some_iff
  have hhead : ∀ colId value, ((rocks.scan (rowKey table row.primaryKey)).filterMap
      (cellAt table colId)).head? = some value ↔
        ∃ entry ∈ rocks.scan (rowKey table row.primaryKey),
          readCell table entry = .ok (some (colId, value)) ∧
          ∀ entry' ∈ rocks.scan (rowKey table row.primaryKey), ∀ value',
            readCell table entry' = .ok (some (colId, value')) → entry.1 ≤ entry'.1 := by
    intro colId value
    rw [SortedMap.head?_filterMap_iff hsorted]
    simp only [cellAt_eq_some_iff, hsome, forall_exists_index]
  have hlength := SortedMap.length_filterMap_le_one_iff (g := cellAt table first.id) hsorted
  simp only [hsome, forall_exists_index] at hlength
  constructor
  · intro h
    obtain ⟨cells, hcells, -⟩ := Fallible.mapM_exists (P := fun _ => True) fun entry hentry => by
      obtain ⟨cell, hcell⟩ := h.readable entry hentry
      exact ⟨cell, hcell, trivial⟩
    refine ⟨cells, hcells, ?_, ?_⟩
    · rw [cellsOf_mapM hcells]
      refine le_antisymm (hlength.mpr fun entry hentry entry' hentry' value hvalue value' hvalue' => ?_) ?_
      · exact h.single first (by simp [hcolumns]) entry hentry entry' hentry' value value' hvalue hvalue'
      · obtain ⟨entry, hentry, hread, -⟩ := h.values first (by simp [hcolumns])
        exact List.length_pos_of_mem
          (List.mem_filterMap.mpr ⟨entry, hentry, cellAt_eq_some_iff.mpr hread⟩)
    · intro col hcol
      rw [cellsOf_mapM hcells, hhead]
      exact h.values col hcol
  · rintro ⟨cells, hcells, hone, hvalues⟩
    refine ⟨fun entry hentry => ?_, fun first' hfirst => ?_, fun col hcol => ?_⟩
    · obtain ⟨cell, -, hcell⟩ := Fallible.exists_of_mem_mapM_left hcells hentry
      exact ⟨cell, hcell⟩
    · obtain rfl : first = first' := by simpa [hcolumns] using hfirst
      rw [cellsOf_mapM hcells] at hone
      intro entry hentry entry' hentry' value value' hvalue hvalue'
      exact hlength.mp hone.le entry hentry entry' hentry' value hvalue value' hvalue'
    · rw [← hhead, ← cellsOf_mapM hcells]
      exact hvalues col hcol

/-! ## The request -/

/-- A request for the values of the primary key of a row, and no others. -/
def Asks (request : client.GetRowRequest) (row : Row table) : Prop :=
  Transformer.Gives row table.primaryKeyColumns request.primaryKeyValues.flatten

/-- The key that is looked for. -/
theorem serializePrimaryKeys_given (h : table.Written) {first : Column} {rest : List Column}
    (hcolumns : table.columns = first :: rest) (hfirst : first.id ∈ table.primaryKeyIndex.columnIds)
    {row : Row table} :
    serializePrimaryKeys table (requestTable table fun colId =>
      if colId ∈ table.primaryKeyColumns.map (·.id) then [row.value colId] else []) =
        .ok [rowKey table row.primaryKey] := by
  have hvalues : table.primaryKeyIndex.columnIds.mapM (valueOfId table (requestTable table fun colId =>
      if colId ∈ table.primaryKeyColumns.map (·.id) then [row.value colId] else []) 0 0) =
        .ok row.primaryKey := by
    refine mapM_valueOfId_of h.nodup_ids h.columnIds fun col hcol => ?_
    have hmem : col ∈ table.columns := (List.mem_filter.mp hcol).1
    refine (value_requestTable_iff h.names hmem).mpr ⟨?_, row.typed col hmem⟩
    rw [if_pos (List.mem_map_of_mem hcol)]
    rfl
  unfold serializePrimaryKeys
  rw [positions_requestTable hcolumns, if_pos (h.columnIds ▸ hfirst)]
  refine Fallible.mapM_eq_ok.mpr (.cons ?_ .nil)
  dsimp only
  rw [hvalues]
  exact primaryKey_eq row

/-- **A request for a row gets it** exactly if it is shown, where the first column is in the primary
key. -/
theorem DbImpl.getRow_iff_shown (h : table.Written) {first : Column} {rest : List Column}
    (hcolumns : table.columns = first :: rest) (hfirst : first.id ∈ table.primaryKeyIndex.columnIds)
    {db : DbImpl} {request : client.GetRowRequest}
    (htable : db.schemaStore.getTable request.databaseName request.tableName = some table)
    {row : Row table} (hasks : Asks request row) :
    db.getRow request = .ok [row.texts] ↔ row.Shown db.rocks := by
  have hne : table.columns ≠ [] := by
    rw [hcolumns]
    exact List.cons_ne_nil _ _
  have hget : (Transformer.fromGetRowRequest request table >>= QueryExecutor.get db.rocks table) =
      deserialize table [db.rocks.scan (rowKey table row.primaryKey)] := by
    unfold Transformer.fromGetRowRequest
    have hsub : table.primaryKeyColumns.Sublist table.columns := List.filter_sublist
    rw [Transformer.fromColumnValues_gives h.ids h.names hne hsub hasks]
    show QueryExecutor.get db.rocks table _ = _
    unfold QueryExecutor.get
    rw [serializePrimaryKeys_given h hcolumns hfirst]
    rfl
  have hrows : db.getRow request = .ok [row.texts] ↔
      (deserialize table [db.rocks.scan (rowKey table row.primaryKey)] >>=
        Transformer.toTableRows table) = .ok [row.texts] := by
    unfold DbImpl.getRow
    rw [htable]
    dsimp only
    rw [hget]
    cases deserialize table [db.rocks.scan (rowKey table row.primaryKey)] >>=
      Transformer.toTableRows table with
    | error error => simp
    | ok tableRows => simp
  have htyped : ∀ cells, (db.rocks.scan (rowKey table row.primaryKey)).mapM (readCell table) =
      .ok cells → ∀ col ∈ table.columns, ∀ value ∈ cellsOf cells col.id,
        value.columnType = col.columnType := by
    intro cells hcells col hcol value hvalue
    rw [cellsOf_mapM hcells] at hvalue
    obtain ⟨entry, -, hentry⟩ := List.mem_filterMap.mp hvalue
    exact readCell_typed h.nodup_ids hcol (cellAt_eq_some_iff.mp hentry)
  rw [hrows, shown_iff_cells hcolumns, Fallible.bind_eq_ok]
  constructor
  · rintro ⟨result, hread, htexts⟩
    obtain ⟨-, cells, hcells, rfl⟩ := (deserialize_ok_iff h.nodup_ids).mp hread
    rw [List.flatten_singleton] at hcells
    rw [requestTable_of_sorted h.ids] at htexts
    exact ⟨cells, hcells, (toTableRows_eq_iff h hcolumns (htyped cells hcells)).mp htexts⟩
  · rintro ⟨cells, hcells, hvalues⟩
    refine ⟨requestTable table (cellsOf cells), (deserialize_ok_iff h.nodup_ids).mpr ⟨hne, cells, ?_, ?_⟩, ?_⟩
    · rw [List.flatten_singleton]
      exact hcells
    · exact (requestTable_of_sorted h.ids _).symm
    · exact (toTableRows_eq_iff h hcolumns (htyped cells hcells)).mpr hvalues

/-- **A request that gives the first column nothing gets nothing.** -/
theorem DbImpl.getRow_eq_nil (hids : (table.columns.map (·.id)).Pairwise (· < ·)) {first : Column}
    {rest : List Column} (hcolumns : table.columns = first :: rest) {db : DbImpl}
    {request : client.GetRowRequest}
    (htable : db.schemaStore.getTable request.databaseName request.tableName = some table)
    (hnone : ∀ columnValue ∈ request.primaryKeyValues.flatten,
      table.getColumnId columnValue.name ≠ some first.id) {tableRows : List (List Bytes)}
    (hget : db.getRow request = .ok tableRows) : tableRows = [] := by
  have hpositions : ∀ arrowTable : ArrowTable, arrowTable.numRows = 0 → arrowTable.positions = [] := by
    intro arrowTable hrows
    unfold ArrowTable.positions
    rw [hrows]
    rfl
  unfold DbImpl.getRow at hget
  rw [htable] at hget
  dsimp only at hget
  cases hrows : Transformer.fromGetRowRequest request table >>= QueryExecutor.get db.rocks table >>=
      Transformer.toTableRows table with
  | error error =>
    rw [hrows] at hget
    cases hget
  | ok found =>
    rw [hrows] at hget
    cases hget
    obtain ⟨result, hresult, htexts⟩ := Fallible.bind_eq_ok.mp hrows
    obtain ⟨given, hgiven, hfound⟩ := Fallible.bind_eq_ok.mp hresult
    have hzero := hpositions _ (Transformer.numRows_eq_zero hcolumns hids hgiven hnone)
    -- no key is looked for, and no cell is read
    have hempty : deserialize table [] = .ok result := by
      unfold QueryExecutor.get serializePrimaryKeys at hfound
      rw [hzero] at hfound
      exact hfound
    obtain ⟨-, cells, hcells, rfl⟩ :=
      (deserialize_ok_iff (hids.imp fun hlt => hlt.ne)).mp hempty
    obtain rfl : cells = [] := (Except.ok.inj hcells).symm
    have hrows : (requestTable table (cellsOf [])).numRows = 0 := numRows_requestTable hcolumns _
    rw [requestTable_of_sorted hids] at htexts
    unfold Transformer.toTableRows at htexts
    rw [hpositions _ hrows] at htexts
    exact (Except.ok.inj htexts).symm

/-! ## What else is stored under a key -/

/-- The keys of the row lead to it, and nothing else that begins with its primary key is in the way. -/
structure Row.Undisturbed (row : Row table) (rocks : Rocks) : Prop where
  /-- No value of the primary key is empty, or slashes only. -/
  legible : row.Legible
  /-- What is not the row's own can be read. It is not read as one of the first column, and as one of
  another only behind the row's own, unless that has the same text. -/
  harmless : ∀ entry ∈ rocks.scan (rowKey table row.primaryKey), entry ∉ row.entries →
    ∃ cell, readCell table entry = .ok cell ∧ ∀ c ∈ cell,
      (∀ first ∈ table.columns.head?, c.1 ≠ first.id) ∧
        (columnKey (rowKey table row.primaryKey) c.1 < entry.1 ∨ row.value c.1 = .string null)

section own

variable (h : table.Written) (row : Row table)

include h in
theorem Table.Written.rowKey_eq : rowKey table row.primaryKey =
    minimumIndexKey table 0 ++ keyParts table.primaryKeyIndex.columnIds row.primaryKey := by
  unfold rowKey
  rw [h.zero]

theorem length_primaryKey : row.primaryKey.length = table.primaryKeyIndex.columnIds.length :=
  List.length_map _

include h in
/-- The own keys of a row are read as its columns, if its primary key can be parsed. -/
theorem readCell_own (hlegible : row.Legible) {col : Column} (hcol : col ∈ table.columns) :
    readCell table (columnKey (rowKey table row.primaryKey) col.id, (row.value col.id).toString) =
      .ok (some (col.id, row.value col.id)) := by
  rw [readCell_columnKey h.nodup_ids h.columnIds_ne h.zero row hcol, if_pos hlegible]

include h in
/-- If it cannot be parsed, they are passed over. -/
theorem readCell_illegible (hillegible : ¬ row.Legible) {entry : Bytes × Bytes}
    (hentry : entry ∈ row.entries) : readCell table entry = .ok none := by
  rcases List.mem_cons.mp hentry with rfl | hentry
  · exact readCell_rowKey h.zero row
  · obtain ⟨col, hcol, rfl⟩ := List.mem_map.mp hentry
    rw [readCell_columnKey h.nodup_ids h.columnIds_ne h.zero row hcol,
      if_neg hillegible]

include h in
/-- An own entry that is read as one of a column is the column's. -/
theorem eq_of_readCell_own (hlegible : row.Legible) {entry : Bytes × Bytes}
    (hentry : entry ∈ row.entries) {c : UInt32 × ColumnValue}
    (hread : readCell table entry = .ok (some c)) :
    entry = (columnKey (rowKey table row.primaryKey) c.1, (row.value c.1).toString) ∧
      c.2 = row.value c.1 := by
  rcases List.mem_cons.mp hentry with rfl | hentry
  · rw [readCell_rowKey h.zero row] at hread
    cases hread
  · obtain ⟨col, hcol, rfl⟩ := List.mem_map.mp hentry
    rw [readCell_own h row hlegible hcol] at hread
    cases hread
    exact ⟨rfl, rfl⟩

end own

section undisturbed

variable (h : table.Written) {row : Row table} {rocks : Rocks}
  (hown : ∀ entry ∈ row.entries, entry ∈ rocks.scan (rowKey table row.primaryKey))
  (hothers : ∀ entry ∈ rocks.scan (rowKey table row.primaryKey), entry ∉ row.entries → entry.2 = null)

theorem mem_entries_column (row : Row table) {col : Column} (hcol : col ∈ table.columns) :
    (columnKey (rowKey table row.primaryKey) col.id, (row.value col.id).toString) ∈ row.entries :=
  List.mem_cons_of_mem _ (List.mem_map.mpr ⟨col, hcol, rfl⟩)

include hothers in
/-- What is not the row's own has no value to show. -/
theorem readCell_other {entry : Bytes × Bytes}
    (hentry : entry ∈ rocks.scan (rowKey table row.primaryKey)) (hother : entry ∉ row.entries)
    {c : UInt32 × ColumnValue} (hread : readCell table entry = .ok (some c)) : c.2 = .string null := by
  obtain ⟨key, value⟩ := entry
  obtain rfl : value = null := hothers _ hentry hother
  exact readCell_null hread

include h hothers in
/-- So a row that is shown is shown by its own keys. -/
theorem Row.Shown.legible (hshown : row.Shown rocks) {lock : Column} (hlock : lock ∈ table.columns)
    (htype : lock.columnType = .int64) : row.Legible := by
  by_contra hillegible
  obtain ⟨entry, hentry, hread, -⟩ := hshown.values lock hlock
  by_cases hmem : entry ∈ row.entries
  · rw [readCell_illegible h row hillegible hmem] at hread
    cases hread
  · -- nothing else is read as a number
    have hnull : row.value lock.id = .string null := readCell_other hothers hentry hmem hread
    have htyped := row.typed lock hlock
    rw [hnull, htype] at htyped
    cases htyped

include h hown hothers in
theorem Row.Shown.undisturbed (hshown : row.Shown rocks) {lock : Column}
    (hlock : lock ∈ table.columns) (htype : lock.columnType = .int64) : row.Undisturbed rocks := by
  have hlegible := hshown.legible h hothers hlock htype
  refine ⟨hlegible, fun entry hentry hother => ?_⟩
  obtain ⟨cell, hcell⟩ := hshown.readable entry hentry
  refine ⟨cell, hcell, fun c hc => ?_⟩
  obtain rfl : cell = some c := hc
  obtain ⟨col, hcol, hid⟩ := List.mem_map.mp (readCell_mem hcell)
  obtain ⟨colId, value⟩ := c
  obtain rfl : col.id = colId := hid
  have hmine := mem_entries_column row hcol
  refine ⟨fun first hfirst heq => hother ?_, ?_⟩
  · have hread := readCell_own h row hlegible hcol
    dsimp only at heq
    rw [hshown.single first hfirst entry hentry _ (hown _ hmine) value (row.value col.id)
      (heq ▸ hcell) (heq ▸ hread)]
    exact hmine
  · by_contra hnot
    obtain ⟨hbehind, hnull⟩ := not_or.mp hnot
    obtain ⟨least, hleast, hread, hle⟩ := hshown.values col hcol
    by_cases hmem : least ∈ row.entries
    · -- the own entry is the first, and has the key of this one
      obtain ⟨rfl, -⟩ := eq_of_readCell_own h row hlegible hmem hread
      have hkey := le_antisymm (hle entry hentry value hcell) (not_lt.mp hbehind)
      obtain ⟨key, text⟩ := entry
      obtain rfl : columnKey (rowKey table row.primaryKey) col.id = key := hkey
      have hfound := SortedMap.mem_scan.mp hentry
      have hfound' := SortedMap.mem_scan.mp (hown _ hmine)
      rw [hfound'.2] at hfound
      exact hother (Option.some.inj hfound.2 ▸ hmine)
    · exact hnull (readCell_other hothers hleast hmem hread)

include h hown hothers in
/-- And a row that nothing disturbs is shown. -/
theorem Row.Undisturbed.shown (hrow : row.Undisturbed rocks) : row.Shown rocks := by
  have hfirst : ∀ first ∈ table.columns.head?, ∀ entry ∈ rocks.scan (rowKey table row.primaryKey),
      ∀ value, readCell table entry = .ok (some (first.id, value)) →
        entry = (columnKey (rowKey table row.primaryKey) first.id, (row.value first.id).toString) := by
    intro first hfirst entry hentry value hread
    by_cases hmem : entry ∈ row.entries
    · exact (eq_of_readCell_own h row hrow.legible hmem hread).1
    · obtain ⟨cell, hcell, hharmless⟩ := hrow.harmless entry hentry hmem
      obtain rfl := Except.ok.inj (hread.symm.trans hcell)
      exact absurd rfl ((hharmless _ rfl).1 first hfirst)
  refine ⟨fun entry hentry => ?_, fun first hhead entry hentry entry' hentry' value value' hread hread' => ?_,
    fun col hcol => ?_⟩
  · by_cases hmem : entry ∈ row.entries
    · rcases List.mem_cons.mp hmem with rfl | hmem
      · exact ⟨_, readCell_rowKey h.zero row⟩
      · obtain ⟨col, hcol, rfl⟩ := List.mem_map.mp hmem
        exact ⟨_, readCell_own h row hrow.legible hcol⟩
    · obtain ⟨cell, hcell, -⟩ := hrow.harmless entry hentry hmem
      exact ⟨cell, hcell⟩
  · rw [hfirst first hhead entry hentry value hread, hfirst first hhead entry' hentry' value' hread']
  · -- some entry is the first that is read as one of the column
    have hread := readCell_own h row hrow.legible hcol
    have hmine := hown _ (mem_entries_column row hcol)
    have hsome : ((rocks.scan (rowKey table row.primaryKey)).filterMap
        (cellAt table col.id)).head? ≠ none := by
      rw [ne_eq, List.head?_eq_none_iff, List.filterMap_eq_nil_iff]
      intro hnone
      exact absurd ((hnone _ hmine).symm.trans (cellAt_eq_some_iff.mpr hread)) (by simp)
    obtain ⟨value, hvalue⟩ := Option.ne_none_iff_exists'.mp hsome
    obtain ⟨least, hleast, hcell, hle⟩ :=
      (SortedMap.head?_filterMap_iff (sorted_scan rocks _)).mp hvalue
    have hcell' := cellAt_eq_some_iff.mp hcell
    have hle' : ∀ entry ∈ rocks.scan (rowKey table row.primaryKey), ∀ value,
        readCell table entry = .ok (some (col.id, value)) → least.1 ≤ entry.1 := by
      intro entry hentry value' hread'
      refine hle entry hentry ?_
      rw [cellAt_eq_some_iff.mpr hread']
      exact Option.some_ne_none _
    refine ⟨least, hleast, ?_, hle'⟩
    rw [hcell']
    by_cases hmem : least ∈ row.entries
    · have hvalue : value = row.value col.id := (eq_of_readCell_own h row hrow.legible hmem hcell').2
      rw [hvalue]
    · obtain ⟨cell, hother, hharmless⟩ := hrow.harmless least hleast hmem
      obtain rfl := Except.ok.inj (hcell'.symm.trans hother)
      have hnull : value = .string null := readCell_other hothers hleast hmem hcell'
      rcases (hharmless _ rfl).2 with hbehind | heq
      · exact absurd hbehind (not_lt.mpr (hle' _ hmine _ hread))
      · rw [hnull, ← heq]

include h hown hothers in
/-- **Where everything else under the key of a row has the value `NULL`**, the row is shown exactly if
nothing disturbs it. -/
theorem shown_iff_undisturbed {lock : Column} (hlock : lock ∈ table.columns)
    (htype : lock.columnType = .int64) : row.Shown rocks ↔ row.Undisturbed rocks :=
  ⟨fun hshown => hshown.undisturbed h hown hothers hlock htype,
    fun hrow => hrow.shown h hown hothers⟩

end undisturbed

end ReplicatedCounter.MyDb
