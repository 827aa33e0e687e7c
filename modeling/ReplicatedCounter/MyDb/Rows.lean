import ReplicatedCounter.Lib.Fallible
import ReplicatedCounter.MyDb.RowSerializer

/-!
# Rows, and what the serializers make of them

A `Row` has a value for every column of its table, of the column's type. `arrowTable` is the table
that holds some rows, in one chunk. Over schemas that are `Keyed` the two serializers and the
deserializer come down to three facts: what `serialize` writes for a row (`serialize_arrowTable`),
which key `serializePrimaryKeys` looks for (`serializePrimaryKeys_arrowTable`), and that the entries
of rows come back as the rows (`deserialize_entries`).
-/

set_option autoImplicit false

namespace ReplicatedCounter.MyDb

open KeySerializer RowSerializer

/-- A value for every column of the table. -/
structure Row (table : Table) where
  value : UInt32 → ColumnValue
  typed : ∀ col ∈ table.columns, (value col.id).columnType = col.columnType

/-- The table with some columns of some rows, in one chunk. -/
def arrowTable {table : Table} (columns : List Column) (rows : List (Row table)) : ArrowTable where
  fields := columns.map (·.name)
  columns := columns.map fun col => [rows.map fun row => row.value col.id]

/-- The columns of the primary key. -/
def Table.primaryKeyColumns (table : Table) : List Column :=
  table.columns.filter fun col => table.isPrimaryKeyColumn col.id

/-- What a schema must keep to.

* The columns are listed in the order of their ids. The reader puts arrays in the order of the ids
  under names in the order of the columns.
* No two columns have one name: Arrow finds neither of them.
* The primary key lists its columns in the order of the table. The writer takes the values of a key
  in that order, the reader in the order of the index.
* The primary key has a column, and its index is not a secondary one as well. -/
structure Table.Keyed (table : Table) : Prop where
  ids : (table.columns.map (·.id)).Pairwise (· < ·)
  names : (table.columns.map (·.name)).Nodup
  columnIds : table.primaryKeyIndex.columnIds = table.primaryKeyColumns.map (·.id)
  ownIndex : OwnIndex table

namespace Row

variable {table : Table}

/-- The values of the primary key. -/
def primaryKey (row : Row table) : List ColumnValue := table.primaryKeyIndex.columnIds.map row.value

end Row

/-- The key of a row with these values in its primary key. -/
def rowKey (table : Table) (values : List ColumnValue) : Bytes :=
  minimumIndexKey table table.primaryKeyIndex.id ++ keyParts table.primaryKeyIndex.columnIds values

/-- The entries of a row that are not those of a secondary index. -/
def Row.entries {table : Table} (row : Row table) : List (Bytes × Bytes) :=
  (rowKey table row.primaryKey, null) :: table.columns.map fun col =>
    (columnKey (rowKey table row.primaryKey) col.id, (row.value col.id).toString)

variable {table : Table}

theorem primaryKey_eq (row : Row table) :
    KeySerializer.primaryKey table row.primaryKey = .ok (rowKey table row.primaryKey) := by
  unfold KeySerializer.primaryKey
  rw [if_pos (by simp [Row.primaryKey])]
  rfl

/-! ## Columns -/

theorem getColumn_of_nodup (hids : (table.columns.map (·.id)).Nodup) {col : Column}
    (hcol : col ∈ table.columns) : table.getColumn col.id = some col := by
  unfold Table.getColumn
  cases hfind : table.columns.reverse.find? (·.id = col.id) with
  | none =>
    rw [List.find?_eq_none] at hfind
    exact absurd (decide_eq_true rfl) (hfind col (List.mem_reverse.mpr hcol))
  | some col' =>
    have hid : col'.id = col.id := by simpa using List.find?_some hfind
    have hcol' := List.mem_reverse.mp (List.mem_of_find?_eq_some hfind)
    rw [List.inj_on_of_nodup_map hids hcol' hcol hid]

theorem getColumn_eq (h : table.Keyed) {col : Column} (hcol : col ∈ table.columns) :
    table.getColumn col.id = some col :=
  getColumn_of_nodup (h.ids.imp fun hlt => hlt.ne) hcol

theorem getColumnType_of_nodup (hids : (table.columns.map (·.id)).Nodup) {col : Column}
    (hcol : col ∈ table.columns) : table.getColumnType col.id = some col.columnType := by
  unfold Table.getColumnType
  rw [getColumn_of_nodup hids hcol, Option.map_some]

/-- Only the ids of columns have a type. -/
theorem mem_of_getColumnType {colId : UInt32} {columnType : ColumnType}
    (h : table.getColumnType colId = some columnType) : colId ∈ table.columns.map (·.id) := by
  unfold Table.getColumnType Table.getColumn at h
  obtain ⟨col, hfind, -⟩ := Option.map_eq_some_iff.mp h
  have hid : col.id = colId := by simpa using List.find?_some hfind
  exact List.mem_map.mpr ⟨col, List.mem_reverse.mp (List.mem_of_find?_eq_some hfind), hid⟩

theorem columns_ne_nil (h : table.Keyed) : table.columns ≠ [] := by
  intro hnil
  refine h.ownIndex.columnIds_ne ?_
  rw [h.columnIds, Table.primaryKeyColumns, hnil]
  rfl

/-- The entry of a list under a name that only it has. -/
theorem filter_name {α β : Type} [DecidableEq β] {l : List α} {name : α → β} (hnames : (l.map name).Nodup) {a : α}
    (ha : a ∈ l) : l.filter (name · = name a) = [a] := by
  induction l with
  | nil => exact absurd ha List.not_mem_nil
  | cons c l ih =>
    obtain ⟨hnot, hrest⟩ := List.nodup_cons.mp hnames
    rcases List.mem_cons.mp ha with rfl | ha
    · rw [List.filter_cons, if_pos (by simp), List.filter_eq_nil_iff.mpr]
      intro c' hc' heq
      exact hnot (List.mem_map.mpr ⟨c', hc', by simpa using heq⟩)
    · have hne : name c ≠ name a := fun heq => hnot (List.mem_map.mpr ⟨a, ha, heq.symm⟩)
      rw [List.filter_cons, if_neg (by simpa using hne), ih hrest ha]

/-- A column under a name that only it has. -/
theorem getColumnByName_map {columns : List Column} (hnames : (columns.map (·.name)).Nodup)
    {col : Column} (hcol : col ∈ columns) (arrays : Column → ChunkedArray) :
    ({ fields := columns.map (·.name), columns := columns.map arrays } :
      ArrowTable).getColumnByName col.name = some (arrays col) := by
  unfold ArrowTable.getColumnByName
  dsimp only
  rw [List.zip_map', List.filter_map]
  have hfilter : columns.filter ((fun e : String × ChunkedArray => decide (e.1 = col.name)) ∘
      fun c => (c.name, arrays c)) = [col] := filter_name hnames hcol
  rw [hfilter]
  rfl

theorem getColumnByName_arrowTable {columns : List Column} (hnames : (columns.map (·.name)).Nodup)
    {col : Column} (hcol : col ∈ columns) (rows : List (Row table)) :
    (arrowTable columns rows).getColumnByName col.name =
      some [rows.map fun row => row.value col.id] :=
  getColumnByName_map hnames hcol _

theorem value_arrowTable {columns : List Column} (hnames : (columns.map (·.name)).Nodup)
    {col : Column} (hcol : col ∈ columns) (hcol' : col ∈ table.columns) {rows : List (Row table)}
    {rowIdx : Nat} {row : Row table} (hrow : rows[rowIdx]? = some row) :
    (arrowTable columns rows).value col 0 rowIdx = .ok (row.value col.id) := by
  unfold ArrowTable.value
  rw [getColumnByName_arrowTable hnames hcol]
  dsimp only
  rw [List.getElem?_cons_zero]
  dsimp only
  rw [List.getElem?_map, hrow, Option.map_some]
  exact if_pos (row.typed col hcol')

theorem numRows_arrowTable {columns : List Column} (hne : columns ≠ []) (rows : List (Row table)) :
    (arrowTable columns rows).numRows = rows.length := by
  obtain ⟨col, columns, rfl⟩ := List.exists_cons_of_ne_nil hne
  simp [ArrowTable.numRows, arrowTable]

theorem positions_arrowTable {columns : List Column} (hne : columns ≠ []) (rows : List (Row table)) :
    (arrowTable columns rows).positions = (List.range rows.length).map fun rowIdx => (rowIdx, 0) := by
  have hchunks : (arrowTable columns rows).numChunks = 1 := by
    obtain ⟨col, columns, rfl⟩ := List.exists_cons_of_ne_nil hne
    rfl
  unfold ArrowTable.positions
  rw [numRows_arrowTable hne, hchunks, List.map_eq_flatMap]
  rfl

/-- A loop over the positions is a loop over the rows. -/
theorem mapM_positions {β : Type} {columns : List Column} (hne : columns ≠ [])
    {rows : List (Row table)} {f : Nat × Nat → Except ExecutionError β}
    {g : Row table → Except ExecutionError β}
    (h : ∀ rowIdx row, rows[rowIdx]? = some row → f (rowIdx, 0) = g row) :
    (arrowTable columns rows).positions.mapM f = rows.mapM g := by
  rw [positions_arrowTable hne]
  refine Fallible.mapM_congr (List.forall₂_iff_get.mpr ⟨by simp, fun i hi hi' => ?_⟩)
  refine Eq.trans (congrArg f ?_) (h i _ (List.getElem?_eq_getElem hi'))
  simp

/-! ## Writing -/

theorem primaryIdxValues_eq (h : table.Keyed) (row : Row table) :
    primaryIdxValues table (table.columns.map fun col => (col, row.value col.id)) =
      row.primaryKey := by
  unfold primaryIdxValues Row.primaryKey
  rw [h.columnIds, List.filter_map, List.map_map, List.map_map]
  rfl

theorem find?_emplace {colValues : SortedMap UInt32 ColumnValue} {colId k : UInt32}
    {value : ColumnValue} :
    (emplace colValues colId value).find? k =
      (colValues.find? k).or (if k = colId then some value else none) := by
  unfold emplace
  cases hfind : colValues.find? colId with
  | some old =>
    by_cases hk : k = colId
    · rw [hk, hfind]
      rfl
    · simp [hk]
  | none =>
    dsimp only
    rw [SortedMap.find?_insert]
    by_cases hk : k = colId
    · rw [if_pos hk, hk, hfind, if_pos rfl]
      rfl
    · simp [hk]

theorem find?_foldl_emplace {values : List (Column × ColumnValue)}
    {colValues : SortedMap UInt32 ColumnValue} {k : UInt32} :
    (values.foldl (fun m v => emplace m v.1.id v.2) colValues).find? k =
      (colValues.find? k).or ((values.find? (·.1.id = k)).map (·.2)) := by
  induction values generalizing colValues with
  | nil => simp
  | cons v values ih =>
    rw [List.foldl_cons, ih, find?_emplace, Option.or_assoc, List.find?_cons]
    by_cases hk : k = v.1.id
    · simp [hk]
    · simp [hk, Ne.symm hk]

/-- `colValues`, one entry after the other. -/
theorem entries_emplace (h : table.Keyed) (g : Column → ColumnValue) :
    ((table.columns.map fun col => (col, g col)).foldl (fun m v => emplace m v.1.id v.2)
      .empty).entries = table.columns.map fun col => (col.id, g col) := by
  have hsorted : (table.columns.map fun col => (col.id, g col)).Pairwise (·.1 < ·.1) :=
    List.pairwise_map.mpr (List.pairwise_map.mp h.ids)
  have hmap : (table.columns.map fun col => (col, g col)).foldl (fun m v => emplace m v.1.id v.2)
      .empty = ⟨_, hsorted⟩ := by
    refine SortedMap.ext_find? fun k => ?_
    rw [find?_foldl_emplace, SortedMap.find?_empty, Option.none_or]
    unfold SortedMap.find?
    rw [List.find?_map, List.find?_map, Option.map_map, Option.map_map]
    rfl
  rw [hmap]

/-- The key of a secondary index begins with the id of the index. -/
theorem secondaryIndexKey_ok {idxId : UInt32} {values primaryValues : List ColumnValue} {key : Bytes}
    (hkey : secondaryIndexKey table idxId values primaryValues = .ok key) :
    ∃ index ∈ table.secondaryIndex, ∃ r, Separated r ∧ key = minimumIndexKey table index.id ++ r := by
  obtain ⟨index, hfind, -, rfl⟩ := secondaryIndexKey_eq_ok hkey
  have hid : index.id = idxId := by simpa using List.find?_some hfind
  have hprimary := separated_keyParts table.primaryKeyIndex.columnIds primaryValues separated_nil
  rw [List.append_nil] at hprimary
  exact ⟨index, List.mem_of_find?_eq_some hfind, _, separated_keyParts _ _ hprimary, by rw [hid]⟩

/-- **The entries of a row**, before those of the secondary indexes. -/
theorem rawTableRow_eq (h : table.Keyed) {row : Row table} {raw : RawTableRow}
    (hraw : rawTableRow table (table.columns.map fun col => (col, row.value col.id)) = .ok raw) :
    ∃ secondaryKeys : List Bytes, raw = row.entries ++ secondaryKeys.map (fun key => (key, null)) ∧
      ∀ key ∈ secondaryKeys, ∃ index ∈ table.secondaryIndex, ∃ r, Separated r ∧
        key = minimumIndexKey table index.id ++ r := by
  unfold rawTableRow at hraw
  dsimp only at hraw
  rw [primaryIdxValues_eq h, primaryKey_eq, entries_emplace h] at hraw
  generalize hids : (List.flatMap (fun v : Column × ColumnValue => table.indexIds v.1.id)
    (table.columns.map fun col => (col, row.value col.id))).dedup = idxIds at hraw
  cases hkeys : idxIds.mapM fun idxId => secondaryIndexKey table idxId
      (secondaryIdxValues table (table.columns.map fun col => (col, row.value col.id)) idxId)
      row.primaryKey with
  | error e =>
    simp only [hkeys] at hraw
    cases hraw
  | ok secondaryKeys =>
    simp only [hkeys] at hraw
    cases hraw
    refine ⟨secondaryKeys, ?_, fun key hmem => ?_⟩
    · simp [Row.entries]
    · obtain ⟨idxId, -, hkey⟩ := Fallible.exists_of_mem_mapM hkeys hmem
      exact secondaryIndexKey_ok hkey

theorem serialize_arrowTable (h : table.Keyed) (rows : List (Row table)) :
    serialize table (arrowTable table.columns rows) =
      rows.mapM fun row =>
        rawTableRow table (table.columns.map fun col => (col, row.value col.id)) := by
  refine mapM_positions (columns_ne_nil h) fun rowIdx row hrow => ?_
  dsimp only
  rw [Fallible.mapM_ok (k := fun col => (col, row.value col.id))]
  · rfl
  · intro col hcol
    rw [value_arrowTable h.names hcol hcol hrow]
    rfl

/-! ## Looking -/

/-- The values of the primary key, column by column. -/
theorem mapM_valueOfId_of (hids : (table.columns.map (·.id)).Nodup)
    (hcolumnIds : table.primaryKeyIndex.columnIds = table.primaryKeyColumns.map (·.id))
    {arrowTable : ArrowTable} {chunkIdx rowIdx : Nat} {row : Row table}
    (hrow : ∀ col ∈ table.primaryKeyColumns,
      arrowTable.value col chunkIdx rowIdx = .ok (row.value col.id)) :
    table.primaryKeyIndex.columnIds.mapM (valueOfId table arrowTable chunkIdx rowIdx) =
      .ok row.primaryKey := by
  refine Fallible.mapM_ok fun colId hcolId => ?_
  rw [hcolumnIds] at hcolId
  obtain ⟨col, hcol, rfl⟩ := List.mem_map.mp hcolId
  unfold valueOfId
  rw [getColumn_of_nodup hids (List.mem_filter.mp hcol).1]
  exact hrow col hcol

theorem mapM_valueOfId (h : table.Keyed) {columns : List Column}
    (hnames : (columns.map (·.name)).Nodup) (hcolumns : ∀ col ∈ table.primaryKeyColumns, col ∈ columns)
    {rows : List (Row table)} {rowIdx : Nat} {row : Row table} (hrow : rows[rowIdx]? = some row) :
    table.primaryKeyIndex.columnIds.mapM (valueOfId table (arrowTable columns rows) 0 rowIdx) =
      .ok row.primaryKey :=
  mapM_valueOfId_of (h.ids.imp fun hlt => hlt.ne) h.columnIds fun col hcol =>
    value_arrowTable hnames (hcolumns col hcol) (List.mem_filter.mp hcol).1 hrow

theorem serializePrimaryKeys_arrowTable (h : table.Keyed) {columns : List Column}
    (hnames : (columns.map (·.name)).Nodup) (hcolumns : ∀ col ∈ table.primaryKeyColumns, col ∈ columns)
    (rows : List (Row table)) :
    serializePrimaryKeys table (arrowTable columns rows) =
      .ok (rows.map fun row => rowKey table row.primaryKey) := by
  have hne : columns ≠ [] := by
    intro hnil
    refine h.ownIndex.columnIds_ne ?_
    rw [h.columnIds, List.map_eq_nil_iff, List.eq_nil_iff_forall_not_mem]
    intro col hcol
    rw [hnil] at hcolumns
    exact absurd (hcolumns col hcol) List.not_mem_nil
  unfold serializePrimaryKeys
  rw [mapM_positions (g := fun row => .ok (rowKey table row.primaryKey)) hne]
  · exact Fallible.mapM_ok fun _ _ => rfl
  · intro rowIdx row hrow
    dsimp only
    rw [mapM_valueOfId h hnames hcolumns hrow]
    exact primaryKey_eq row

/-! ## Reading -/

/-- A row whose primary key the parser finds its way through. -/
def Row.Legible (row : Row table) : Prop :=
  ∀ value ∈ row.primaryKey, KeySerializer.Legible value.toString

instance (row : Row table) : Decidable row.Legible :=
  inferInstanceAs (Decidable (∀ value ∈ row.primaryKey, KeySerializer.Legible value.toString))

theorem appendEntry_rowKey (h : table.Keyed) {row : Row table} (hrow : row.Legible)
    (colBuilder : SortedMap UInt32 (List ColumnValue)) (value : Bytes) :
    appendEntry table colBuilder (rowKey table row.primaryKey, value) = .ok colBuilder := by
  obtain ⟨fragments, hparse, hcolId⟩ :=
    parseKey_primaryKey h.ownIndex (primaryKey_eq row) hrow
  simp only [appendEntry, hparse, bind, Except.bind, hcolId]
  rfl

theorem appendEntry_columnKey (h : table.Keyed) {row : Row table} (hrow : row.Legible)
    (colBuilder : SortedMap UInt32 (List ColumnValue)) {col : Column} (hcol : col ∈ table.columns) :
    appendEntry table colBuilder
        (columnKey (rowKey table row.primaryKey) col.id, (row.value col.id).toString) =
      .ok (append colBuilder col.id (row.value col.id)) := by
  obtain ⟨fragments, hparse, hcolId⟩ :=
    parseKey_columnKey h.ownIndex (primaryKey_eq row) hrow col.id
  have htype := getColumnType_of_nodup (h.ids.imp fun hlt => hlt.ne) hcol
  have htyped := row.typed col hcol
  simp only [appendEntry, hparse, bind, Except.bind, hcolId]
  rw [htype, ← htyped]
  cases row.value col.id with
  | int64 value =>
    show (do return append colBuilder col.id (.int64 (← toInt64 (ColumnValue.int64 value).toString))) = _
    rw [toInt64_toString]
    rfl
  | string value => rfl

theorem find?_append {colBuilder : SortedMap UInt32 (List ColumnValue)} {colId : UInt32}
    {values : List ColumnValue} (hfind : colBuilder.find? colId = some values) (value : ColumnValue)
    (k : UInt32) :
    (append colBuilder colId value).find? k =
      if k = colId then some (values ++ [value]) else colBuilder.find? k := by
  unfold append
  rw [SortedMap.find?_insert, hfind, Option.getD_some]

/-- Some of the entries of a row: every column whose entry is there gets its value. -/
theorem foldlM_appendEntry (h : table.Keyed) {row : Row table} (hrow : row.Legible)
    {entries : List (Bytes × Bytes)} (hentries : ∀ e ∈ entries, e ∈ row.entries)
    (hnodup : (entries.map (·.1)).Nodup) {colBuilder : SortedMap UInt32 (List ColumnValue)}
    (hbuilder : ∀ col ∈ table.columns, ∃ values, colBuilder.find? col.id = some values) :
    ∃ colBuilder', entries.foldlM (appendEntry table) colBuilder = .ok colBuilder' ∧
      ∀ k, colBuilder'.find? k = (colBuilder.find? k).map fun values => values ++
        if columnKey (rowKey table row.primaryKey) k ∈ entries.map (·.1) then [row.value k] else [] := by
  induction entries generalizing colBuilder with
  | nil =>
    refine ⟨colBuilder, rfl, fun k => ?_⟩
    cases colBuilder.find? k <;> simp
  | cons e entries ih =>
    obtain ⟨hnot, hrest⟩ := List.nodup_cons.mp hnodup
    have hlater : ∀ e ∈ entries, e ∈ row.entries := fun e he => hentries e (List.mem_cons_of_mem _ he)
    rcases List.mem_cons.mp (hentries e List.mem_cons_self) with rfl | hmem
    · -- the entry of the key itself adds nothing, and no column has its key
      obtain ⟨colBuilder', hfold, hfind⟩ := ih hlater hrest hbuilder
      refine ⟨colBuilder', ?_, fun k => ?_⟩
      · rw [List.foldlM_cons, appendEntry_rowKey h hrow]
        exact hfold
      · have hne : columnKey (rowKey table row.primaryKey) k ≠ rowKey table row.primaryKey := by
          unfold columnKey
          simp
        rw [hfind k]
        simp only [List.map_cons, List.mem_cons, hne, false_or]
    · obtain ⟨col, hcol, rfl⟩ := List.mem_map.mp hmem
      obtain ⟨values, hvalues⟩ := hbuilder col hcol
      have happend := find?_append hvalues (row.value col.id)
      have hbuilder' : ∀ col' ∈ table.columns, ∃ values,
          (append colBuilder col.id (row.value col.id)).find? col'.id = some values := by
        intro col' hcol'
        rw [happend]
        split
        · exact ⟨_, rfl⟩
        · exact hbuilder col' hcol'
      obtain ⟨colBuilder', hfold, hfind⟩ := ih hlater hrest hbuilder'
      refine ⟨colBuilder', ?_, fun k => ?_⟩
      · rw [List.foldlM_cons, appendEntry_columnKey h hrow colBuilder hcol]
        exact hfold
      · rw [hfind k, happend, List.map_cons]
        by_cases hk : k = col.id
        · subst hk
          rw [if_pos rfl, hvalues, Option.map_some, Option.map_some, if_neg hnot,
            if_pos List.mem_cons_self, List.append_nil]
        · have hne : columnKey (rowKey table row.primaryKey) k ≠
              columnKey (rowKey table row.primaryKey) col.id := by
            unfold columnKey
            simpa using fun hpad => hk (pad_injective hpad)
          rw [if_neg hk]
          simp only [List.mem_cons, hne, false_or]

/-- The entries that were found for a row, or for none. -/
def Found (entries : List (Bytes × Bytes)) : Option (Row table) → Prop
  | none => entries = []
  | some row => row.Legible ∧ (entries.map (·.1)).Nodup ∧ ∀ e, e ∈ entries ↔ e ∈ row.entries

/-- The builders after some rows. -/
def Built (colBuilder : SortedMap UInt32 (List ColumnValue)) (rows : List (Row table)) : Prop :=
  ∀ k, colBuilder.find? k =
    if k ∈ table.columns.map (·.id) then some (rows.map fun row => row.value k) else none

theorem Built.append (h : table.Keyed) {colBuilder : SortedMap UInt32 (List ColumnValue)}
    {rows : List (Row table)} (hbuilt : Built colBuilder rows) {entries : List (Bytes × Bytes)}
    {found : Option (Row table)} (hfound : Found entries found) :
    ∃ colBuilder', entries.foldlM (appendEntry table) colBuilder = .ok colBuilder' ∧
      Built colBuilder' (rows ++ found.toList) := by
  cases found with
  | none =>
    cases hfound
    refine ⟨colBuilder, rfl, ?_⟩
    rw [Option.toList_none, List.append_nil]
    exact hbuilt
  | some row =>
    obtain ⟨hrow, hnodup, hmem⟩ := hfound
    have hbuilder : ∀ col ∈ table.columns, ∃ values, colBuilder.find? col.id = some values :=
      fun col hcol => ⟨_, (hbuilt col.id).trans (if_pos (List.mem_map_of_mem hcol))⟩
    obtain ⟨colBuilder', hfold, hfind⟩ :=
      foldlM_appendEntry h hrow (fun e he => (hmem e).mp he) hnodup hbuilder
    refine ⟨colBuilder', hfold, fun k => ?_⟩
    rw [hfind k, hbuilt k]
    by_cases hk : k ∈ table.columns.map (·.id)
    · rw [if_pos hk, if_pos hk]
      obtain ⟨col, hcol, rfl⟩ := List.mem_map.mp hk
      have hentry : columnKey (rowKey table row.primaryKey) col.id ∈ entries.map (·.1) :=
        List.mem_map.mpr ⟨(columnKey (rowKey table row.primaryKey) col.id, _),
          (hmem _).mpr (List.mem_cons_of_mem _ (List.mem_map.mpr ⟨col, hcol, rfl⟩)), rfl⟩
      simp [hentry]
    · rw [if_neg hk, if_neg hk]
      rfl

theorem Built.appendAll (h : table.Keyed) {groups : List RawTableRow}
    {found : List (Option (Row table))} (hfound : List.Forall₂ Found groups found)
    {colBuilder : SortedMap UInt32 (List ColumnValue)} {rows : List (Row table)}
    (hbuilt : Built colBuilder rows) :
    ∃ colBuilder', groups.flatten.foldlM (appendEntry table) colBuilder = .ok colBuilder' ∧
      Built colBuilder' (rows ++ found.filterMap id) := by
  induction hfound generalizing colBuilder rows with
  | nil =>
    refine ⟨colBuilder, rfl, ?_⟩
    rw [List.filterMap_nil, List.append_nil]
    exact hbuilt
  | @cons entries row groups found hhead _ ih =>
    obtain ⟨colBuilder₁, hfold, hbuilt₁⟩ := hbuilt.append h hhead
    obtain ⟨colBuilder', hfold', hbuilt'⟩ := ih hbuilt₁
    refine ⟨colBuilder', ?_, ?_⟩
    · rw [List.flatten_cons, List.foldlM_append, hfold]
      exact hfold'
    · have hrows : (row :: found).filterMap id = row.toList ++ found.filterMap id := by
        cases row <;> rfl
      rw [hrows, ← List.append_assoc]
      exact hbuilt'

theorem built_getHeader : Built (getHeader table) ([] : List (Row table)) := by
  have hfold : ∀ (columns : List Column) (colBuilder : SortedMap UInt32 (List ColumnValue))
      (k : UInt32),
      (columns.foldl (fun m col => m.insert col.id []) colBuilder).find? k =
        if k ∈ columns.map (·.id) then some [] else colBuilder.find? k := by
    intro columns
    induction columns with
    | nil => intro colBuilder k; simp
    | cons col columns ih =>
      intro colBuilder k
      rw [List.foldl_cons, ih, SortedMap.find?_insert]
      by_cases hk : k = col.id <;> simp [hk]
  intro k
  unfold getHeader
  rw [hfold]
  rfl

/-- The builders, in the order of their ids. -/
theorem Built.entries_eq (h : table.Keyed) {colBuilder : SortedMap UInt32 (List ColumnValue)}
    {rows : List (Row table)} (hbuilt : Built colBuilder rows) :
    colBuilder.entries =
      table.columns.map fun col => (col.id, rows.map fun row => row.value col.id) := by
  have hsorted : (table.columns.map fun col =>
      (col.id, rows.map fun row => row.value col.id)).Pairwise (·.1 < ·.1) :=
    List.pairwise_map.mpr (List.pairwise_map.mp h.ids)
  have hmap : colBuilder = ⟨_, hsorted⟩ := by
    refine SortedMap.ext_find? fun k => ?_
    rw [hbuilt k]
    unfold SortedMap.find?
    rw [List.find?_map, Option.map_map]
    split
    · rename_i hk
      obtain ⟨col, hcol, rfl⟩ := List.mem_map.mp hk
      cases hfind : table.columns.find? ((fun e : UInt32 × List ColumnValue => decide (e.1 = col.id)) ∘
          fun col => (col.id, rows.map fun row => row.value col.id)) with
      | none => exact absurd (decide_eq_true rfl) (List.find?_eq_none.mp hfind col hcol)
      | some col' =>
        have hid : col'.id = col.id := by simpa using List.find?_some hfind
        simp [hid]
    · rename_i hk
      rw [List.find?_eq_none.mpr]
      · rfl
      · intro col hcol heq
        exact hk (List.mem_map.mpr ⟨col, hcol, by simpa using heq⟩)
  rw [hmap]

/-- The arrays, under the names of the columns. -/
theorem Built.arrowTable_eq (h : table.Keyed) {colBuilder : SortedMap UInt32 (List ColumnValue)}
    {rows : List (Row table)} (hbuilt : Built colBuilder rows) :
    (if colBuilder.entries.map (·.2) = [] ∨
        (colBuilder.entries.map (·.2)).length < table.columns.length then
      throw .undefinedBehaviour
    else
      return { fields := table.columns.map (·.name)
               columns := (colBuilder.entries.map (·.2)).map ([·]) } :
      Except ExecutionError ArrowTable) = .ok (arrowTable table.columns rows) := by
  have harrays : colBuilder.entries.map (·.2) =
      table.columns.map fun col => rows.map fun row => row.value col.id := by
    rw [hbuilt.entries_eq h, List.map_map]
    rfl
  have hguard : ¬ (colBuilder.entries.map (·.2) = [] ∨
      (colBuilder.entries.map (·.2)).length < table.columns.length) := by
    rw [harrays]
    simp [columns_ne_nil h]
  rw [if_neg hguard, harrays, List.map_map]
  rfl

/-- **The entries of rows come back as the rows.** -/
theorem deserialize_entries (h : table.Keyed) {groups : List RawTableRow}
    {found : List (Option (Row table))} (hfound : List.Forall₂ Found groups found) :
    deserialize table groups = .ok (arrowTable table.columns (found.filterMap id)) := by
  obtain ⟨colBuilder, hfold, hbuilt⟩ := Built.appendAll h hfound built_getHeader
  unfold deserialize
  rw [hfold]
  exact hbuilt.arrowTable_eq h

/-! ## What is found is counted -/

theorem find?_append_ne_none {colBuilder : SortedMap UInt32 (List ColumnValue)} {colId k : UInt32}
    {value : ColumnValue} (hfind : (append colBuilder colId value).find? k ≠ none) :
    k = colId ∨ colBuilder.find? k ≠ none := by
  unfold append at hfind
  rw [SortedMap.find?_insert] at hfind
  by_cases hk : k = colId
  · exact .inl hk
  · rw [if_neg hk] at hfind
    exact .inr hfind

/-- A column with an array that is not empty. -/
def Filled (colBuilder : SortedMap UInt32 (List ColumnValue)) (colId : UInt32) : Prop :=
  ∃ values, colBuilder.find? colId = some values ∧ values ≠ []

theorem filled_append (colBuilder : SortedMap UInt32 (List ColumnValue)) (colId : UInt32)
    (value : ColumnValue) : Filled (append colBuilder colId value) colId := by
  refine ⟨(colBuilder.find? colId).getD [] ++ [value], ?_, by simp⟩
  unfold append
  rw [SortedMap.find?_insert, if_pos rfl]

theorem Filled.append {colBuilder : SortedMap UInt32 (List ColumnValue)} {k : UInt32}
    (hfilled : Filled colBuilder k) (colId : UInt32) (value : ColumnValue) :
    Filled (RowSerializer.append colBuilder colId value) k := by
  by_cases hk : k = colId
  · subst hk
    exact filled_append colBuilder k value
  · obtain ⟨values, hfind, hne⟩ := hfilled
    refine ⟨values, ?_, hne⟩
    unfold RowSerializer.append
    rw [SortedMap.find?_insert, if_neg hk, hfind]

/-- An entry adds nothing, or a value to a column of the table. -/
theorem appendEntry_ok {colBuilder colBuilder' : SortedMap UInt32 (List ColumnValue)}
    {e : Bytes × Bytes} (h : appendEntry table colBuilder e = .ok colBuilder') :
    ∃ fragments, parseKey table e.1 = .ok fragments ∧
      match fragments.colId with
      | none => colBuilder' = colBuilder
      | some colId => colId ∈ table.columns.map (·.id) ∧
          ∃ value, colBuilder' = append colBuilder colId value := by
  unfold appendEntry at h
  obtain ⟨fragments, hparse, h⟩ := Fallible.bind_eq_ok.mp h
  refine ⟨fragments, hparse, ?_⟩
  cases hcolId : fragments.colId with
  | none =>
    rw [hcolId] at h
    cases h
    rfl
  | some colId =>
    rw [hcolId] at h
    dsimp only at h
    cases htype : table.getColumnType colId with
    | none =>
      rw [htype] at h
      cases h
    | some columnType =>
      refine ⟨mem_of_getColumnType htype, ?_⟩
      rw [htype] at h
      cases columnType with
      | int64 =>
        obtain ⟨value, -, h⟩ := Fallible.bind_eq_ok.mp h
        cases h
        exact ⟨_, rfl⟩
      | string =>
        cases h
        exact ⟨_, rfl⟩

/-- Columns stay columns of the table, and filled if they are. -/
theorem foldlM_appendEntry_ok {entries : List (Bytes × Bytes)}
    {colBuilder colBuilder' : SortedMap UInt32 (List ColumnValue)}
    (h : entries.foldlM (appendEntry table) colBuilder = .ok colBuilder')
    (hkeys : ∀ k, colBuilder.find? k ≠ none → k ∈ table.columns.map (·.id)) :
    (∀ k, colBuilder'.find? k ≠ none → k ∈ table.columns.map (·.id)) ∧
      ∀ colId, (Filled colBuilder colId ∨ ∃ e ∈ entries, ∃ fragments,
          parseKey table e.1 = .ok fragments ∧ fragments.colId = some colId) →
        Filled colBuilder' colId := by
  induction entries generalizing colBuilder with
  | nil =>
    cases h
    refine ⟨hkeys, fun colId hfilled => ?_⟩
    rcases hfilled with hfilled | ⟨e, he, -⟩
    · exact hfilled
    · exact absurd he List.not_mem_nil
  | cons e entries ih =>
    rw [List.foldlM_cons] at h
    obtain ⟨colBuilder₁, hhead, hrest⟩ := Fallible.bind_eq_ok.mp h
    obtain ⟨fragments, hparse, hcolId⟩ := appendEntry_ok hhead
    have hkeys₁ : ∀ k, colBuilder₁.find? k ≠ none → k ∈ table.columns.map (·.id) := by
      intro k hk
      cases hfragment : fragments.colId with
      | none =>
        rw [hfragment] at hcolId
        exact hkeys k (hcolId ▸ hk)
      | some colId =>
        rw [hfragment] at hcolId
        obtain ⟨hmem, value, rfl⟩ := hcolId
        rcases find?_append_ne_none hk with rfl | hk
        · exact hmem
        · exact hkeys k hk
    have hfilled₁ : ∀ colId, Filled colBuilder colId ∨ fragments.colId = some colId →
        Filled colBuilder₁ colId := by
      intro colId hfilled
      cases hfragment : fragments.colId with
      | none =>
        rw [hfragment] at hcolId hfilled
        rcases hfilled with hfilled | heq
        · exact hcolId ▸ hfilled
        · cases heq
      | some colId' =>
        rw [hfragment] at hcolId hfilled
        obtain ⟨-, value, rfl⟩ := hcolId
        rcases hfilled with hfilled | heq
        · exact hfilled.append colId' value
        · cases heq
          exact filled_append colBuilder colId value
    obtain ⟨hkeys', hfilled'⟩ := ih hrest hkeys₁
    refine ⟨hkeys', fun colId hfilled => hfilled' colId ?_⟩
    rcases hfilled with hfilled | ⟨e', he', fragments', hparse', hcolId'⟩
    · exact .inl (hfilled₁ colId (.inl hfilled))
    · rcases List.mem_cons.mp he' with rfl | he'
      · obtain rfl : fragments = fragments' := Except.ok.inj (hparse.symm.trans hparse')
        exact .inl (hfilled₁ colId (.inr hcolId'))
      · exact .inr ⟨e', he', fragments', hparse', hcolId'⟩

/-- **An entry of the first column is counted as a row.** -/
theorem numRows_ne_zero (h : table.Keyed) {col : Column} {columns : List Column}
    (hcolumns : table.columns = col :: columns) {row : Row table} (hrow : row.Legible)
    {groups : List RawTableRow} {value : Bytes}
    (hmem : (columnKey (rowKey table row.primaryKey) col.id, value) ∈ groups.flatten)
    {result : ArrowTable} (hresult : deserialize table groups = .ok result) : result.numRows ≠ 0 := by
  unfold deserialize at hresult
  obtain ⟨colBuilder, hfold, hresult⟩ := Fallible.bind_eq_ok.mp hresult
  have hbuilt : Built (getHeader table) ([] : List (Row table)) := built_getHeader
  have hheader : ∀ k, (getHeader table).find? k ≠ none → k ∈ table.columns.map (·.id) := by
    intro k hk
    by_contra hnot
    exact hk ((hbuilt k).trans (if_neg hnot))
  obtain ⟨hkeys, hfilled⟩ := foldlM_appendEntry_ok hfold hheader
  obtain ⟨fragments, hparse, hcolId⟩ :=
    parseKey_columnKey h.ownIndex (primaryKey_eq row) hrow col.id
  obtain ⟨values, hfind, hne⟩ := hfilled col.id (.inr ⟨_, hmem, fragments, hparse, hcolId⟩)
  have hentry : (col.id, values) ∈ colBuilder.entries := SortedMap.find?_eq_some.mp hfind
  -- no column has a smaller id
  have hleast : ∀ k ∈ table.columns.map (·.id), ¬ k < col.id := by
    intro k hk
    have hids := h.ids
    rw [hcolumns] at hids hk
    rcases List.mem_cons.mp hk with rfl | hk
    · exact lt_irrefl _
    · exact not_lt_of_gt ((List.pairwise_cons.mp hids).1 k hk)
  cases hentries : colBuilder.entries with
  | nil =>
    rw [hentries] at hentry
    exact absurd hentry List.not_mem_nil
  | cons first rest =>
    have hfirst : first = (col.id, values) := by
      have hsorted := colBuilder.sorted
      rw [hentries] at hsorted hentry
      rcases List.mem_cons.mp hentry with heq | hlater
      · exact heq.symm
      · have hlt : first.1 < col.id := (List.pairwise_cons.mp hsorted).1 _ hlater
        have hhas : colBuilder.find? first.1 = some first.2 :=
          SortedMap.find?_eq_some.mpr (hentries ▸ List.mem_cons_self)
        refine absurd hlt (hleast first.1 (hkeys first.1 ?_))
        rw [hhas]
        exact Option.some_ne_none _
    rw [hentries, hfirst] at hresult
    dsimp only at hresult
    split at hresult
    · cases hresult
    · cases hresult
      simpa [ArrowTable.numRows] using hne

end ReplicatedCounter.MyDb
