import ReplicatedCounter.MyDb.RowMap

/-!
# Secondary indexes

A row is in a secondary index under a key with the values it has there. An update writes the keys of
the new values and, if it is to replace, deletes them first: what it deletes it writes again, and
the keys of the old values it does not know. So **an entry stays for every value that a row has ever
had in an index**, and the indexes agree with the rows only as long as no row comes back with other
values (`indexes_consistent_iff`).
-/

set_option autoImplicit false

namespace ReplicatedCounter.MyDb

open KeySerializer RowSerializer QueryExecutor

variable {table : Table}

/-! ## What a row has in an index -/

namespace Row

/-- The row as the writer goes through it. -/
def cells (row : Row table) : List (Column × ColumnValue) :=
  table.columns.map fun col => (col, row.value col.id)

/-- The values of the primary key, in the order of the columns. -/
def primaryValues (row : Row table) : List ColumnValue := primaryIdxValues table row.cells

/-- The values in an index, in the order of the columns. -/
def indexValues (row : Row table) (index : Index) : List ColumnValue :=
  secondaryIdxValues table row.cells index.id

/-- The key of the row in an index. -/
def indexKey (row : Row table) (index : Index) : Except ExecutionError Bytes :=
  secondaryIndexKey table index.id (row.indexValues index) row.primaryValues

end Row

/-- A key of a secondary index of the table. -/
def InSecondaryIndex (table : Table) (key : Bytes) : Prop :=
  ∃ index ∈ table.secondaryIndex, ∃ r, Separated r ∧ key = minimumIndexKey table index.id ++ r

/-- Two values of one type with one text are the same. -/
theorem toString_inj {value value' : ColumnValue} (htype : value.columnType = value'.columnType)
    (htext : value.toString = value'.toString) : value = value' := by
  cases value with
  | int64 n =>
    cases value' with
    | int64 n' =>
      have hrepr : n.toInt.repr = n'.toInt.repr := String.toList_injective htext
      rw [Int64.toInt_inj.mp (Decimal.intRepr_injective hrepr)]
    | string s => cases htype
  | string s =>
    cases value' with
    | int64 n => cases htype
    | string s' => exact congrArg ColumnValue.string htext

/-- The values of some columns. -/
theorem cells_filter (row : Row table) (p : UInt32 → Bool) :
    (row.cells.filter fun v => p v.1.id).map (·.2) =
      (table.columns.filter fun col => p col.id).map fun col => row.value col.id := by
  unfold Row.cells
  rw [List.filter_map, List.map_map]
  rfl

/-- What two rows have in some columns is the same if its text is. -/
theorem cells_filter_inj {row row' : Row table} {p : UInt32 → Bool}
    (h : ((row.cells.filter fun v => p v.1.id).map (·.2)).map ColumnValue.toString =
      ((row'.cells.filter fun v => p v.1.id).map (·.2)).map ColumnValue.toString) :
    (row.cells.filter fun v => p v.1.id).map (·.2) =
      (row'.cells.filter fun v => p v.1.id).map (·.2) := by
  rw [cells_filter, cells_filter, List.map_map, List.map_map, List.map_inj_left] at h
  rw [cells_filter, cells_filter, List.map_inj_left]
  intro col hcol
  have hmem : col ∈ table.columns := (List.mem_filter.mp hcol).1
  exact toString_inj ((row.typed col hmem).trans (row'.typed col hmem).symm) (h col hcol)

theorem find?_index (hids : (table.secondaryIndex.map (·.id)).Nodup) {index : Index}
    (hindex : index ∈ table.secondaryIndex) :
    table.secondaryIndex.find? (·.id = index.id) = some index := by
  cases hfind : table.secondaryIndex.find? (·.id = index.id) with
  | none => exact absurd (decide_eq_true rfl) (List.find?_eq_none.mp hfind index hindex)
  | some other =>
    have hid : other.id = index.id := by simpa using List.find?_some hfind
    rw [List.inj_on_of_nodup_map hids (List.mem_of_find?_eq_some hfind) hindex hid]

/-- The key of a row in an index, if the row has a value for every column of it. -/
theorem indexKey_ok (hids : (table.secondaryIndex.map (·.id)).Nodup) {index : Index}
    (hindex : index ∈ table.secondaryIndex) {row : Row table} {key : Bytes}
    (h : row.indexKey index = .ok key) :
    (row.indexValues index).length = index.columnIds.length ∧
      key = minimumIndexKey table index.id ++ (keyParts index.columnIds (row.indexValues index) ++
        keyParts table.primaryKeyIndex.columnIds row.primaryValues) := by
  obtain ⟨other, hfind, hlen, hkey⟩ := secondaryIndexKey_eq_ok h
  rw [find?_index hids hindex] at hfind
  cases hfind
  exact ⟨hlen, hkey⟩

theorem separated_indexParts (index : Index) (row : Row table) :
    Separated (keyParts index.columnIds (row.indexValues index) ++
      keyParts table.primaryKeyIndex.columnIds row.primaryValues) := by
  have hprimary := separated_keyParts table.primaryKeyIndex.columnIds row.primaryValues separated_nil
  rw [List.append_nil] at hprimary
  exact separated_keyParts _ _ hprimary

/-- A row that could be written has a value for every column of the primary key. -/
def Keyable (row : Row table) : Prop :=
  row.primaryValues.length = table.primaryKeyIndex.columnIds.length

/-- **The key in an index tells the index, the values there, and the primary key.** -/
theorem indexKey_inj (hids : (table.secondaryIndex.map (·.id)).Nodup) {index index' : Index}
    (hindex : index ∈ table.secondaryIndex) (hindex' : index' ∈ table.secondaryIndex)
    {row row' : Row table} (hrow : Keyable row) (hrow' : Keyable row') {key : Bytes}
    (h : row.indexKey index = .ok key) (h' : row'.indexKey index' = .ok key) :
    index = index' ∧ row.indexValues index = row'.indexValues index ∧
      row.primaryValues = row'.primaryValues := by
  obtain ⟨hlen, hkey⟩ := indexKey_ok hids hindex h
  obtain ⟨hlen', hkey'⟩ := indexKey_ok hids hindex' h'
  obtain ⟨-, -, hid, hparts⟩ := minimumIndexKey_append_inj (separated_indexParts index row)
    (separated_indexParts index' row') (hkey.symm.trans hkey')
  obtain rfl : index = index' := List.inj_on_of_nodup_map hids hindex hindex' hid
  have hsep : ∀ row : Row table,
      Separated (keyParts table.primaryKeyIndex.columnIds row.primaryValues) := by
    intro row
    have := separated_keyParts table.primaryKeyIndex.columnIds row.primaryValues separated_nil
    rwa [List.append_nil] at this
  obtain ⟨hvalues, hprimary⟩ := keyParts_append_inj hlen hlen' (hsep row) (hsep row') hparts
  have hend : keyParts table.primaryKeyIndex.columnIds row.primaryValues ++ [] =
      keyParts table.primaryKeyIndex.columnIds row'.primaryValues ++ [] := by
    rw [List.append_nil, List.append_nil, hprimary]
  obtain ⟨hprimary, -⟩ := keyParts_append_inj hrow hrow' separated_nil separated_nil hend
  exact ⟨rfl, cells_filter_inj (p := fun colId => decide (index.id ∈ table.indexIds colId)) hvalues,
    cells_filter_inj (p := table.isPrimaryKeyColumn) hprimary⟩

/-- A padded number ends at the first escape character. -/
theorem pad_append_cons_inj {num num' : UInt32} {r r' : Bytes}
    (h : pad num ++ defaultEscapeCharacter :: r = pad num' ++ defaultEscapeCharacter :: r') :
    num = num' ∧ r = r' := by
  have htake : ∀ (num : UInt32) (r : Bytes),
      (pad num ++ defaultEscapeCharacter :: r).takeWhile (· ≠ defaultEscapeCharacter) = pad num := by
    intro num r
    rw [List.takeWhile_append_of_pos, List.takeWhile_cons_of_neg, List.append_nil]
    · simp
    · intro c hc
      have hne : c ≠ defaultEscapeCharacter := fun heq => escape_not_mem_pad (heq ▸ hc)
      simpa using hne
  have hpad : pad num = pad num' := by
    rw [← htake num r, h, htake num' r']
  rw [hpad] at h
  exact ⟨pad_injective hpad, (List.cons.inj (List.append_cancel_left h)).2⟩

/-- A list of parts is not a list of parts and a column id. -/
theorem keyParts_ne_columnKey {columnIds columnIds' : List UInt32} {values values' : List ColumnValue}
    (hlen : values.length = columnIds.length) (hlen' : values'.length = columnIds'.length)
    (colId : UInt32) :
    keyParts columnIds values ≠ keyParts columnIds' values' ++ defaultEscapeCharacter :: pad colId := by
  have hsep : Separated (defaultEscapeCharacter :: pad colId) :=
    separated_of_not_mem escape_not_mem_pad
  induction columnIds generalizing values columnIds' values' with
  | nil =>
    intro h
    rw [keyParts] at h
    · simp at h
    · simp
  | cons id columnIds ih =>
    obtain ⟨value, values, rfl⟩ := List.exists_cons_of_length_eq_add_one hlen
    intro h
    cases columnIds' with
    | nil =>
      -- the id of the first part would be the column id, with nothing behind it
      have hpad : pad id ++ defaultEscapeCharacter :: (escapeString value.toString ++
          keyParts columnIds values) = pad colId := by
        simpa [keyParts] using h
      have hmem : defaultEscapeCharacter ∈ pad colId := by
        rw [← hpad]
        exact List.mem_append_right _ List.mem_cons_self
      exact escape_not_mem_pad hmem
    | cons id' columnIds' =>
      obtain ⟨value', values', rfl⟩ := List.exists_cons_of_length_eq_add_one hlen'
      have htexts : pad id ++ defaultEscapeCharacter :: (escapeString value.toString ++
          keyParts columnIds values) = pad id' ++ defaultEscapeCharacter ::
            (escapeString value'.toString ++
              (keyParts columnIds' values' ++ defaultEscapeCharacter :: pad colId)) := by
        simpa [keyParts] using h
      obtain ⟨-, hrest⟩ := pad_append_cons_inj htexts
      have hparts := separated_keyParts columnIds values separated_nil
      rw [List.append_nil] at hparts
      obtain ⟨-, hkeys⟩ := escapeString_append_inj hparts
        (separated_keyParts columnIds' values' hsep) hrest
      exact ih (Nat.succ.inj hlen) (Nat.succ.inj hlen') hkeys

/-! ## What is written for a row -/

/-- What can be read of a row is the row. -/
theorem value_arrowTable_eq {columns : List Column} {col : Column} (hcol : col ∈ columns)
    {rows : List (Row table)} {rowIdx : Nat} {row : Row table} (hrow : rows[rowIdx]? = some row)
    {value : ColumnValue} (h : (arrowTable columns rows).value col 0 rowIdx = .ok value) :
    value = row.value col.id := by
  unfold ArrowTable.value at h
  cases hname : (arrowTable columns rows).getColumnByName col.name with
  | none =>
    rw [hname] at h
    cases h
  | some column =>
    rw [hname] at h
    dsimp only at h
    -- the column is among those of its name, so if there is one it is this
    have hcolumn : column = [rows.map fun row => row.value col.id] := by
      unfold ArrowTable.getColumnByName arrowTable at hname
      dsimp only at hname
      rw [List.zip_map'] at hname
      have hmem : (col.name, [rows.map fun row => row.value col.id]) ∈
          (columns.map fun c => (c.name, [rows.map fun row => row.value c.id])).filter
            (·.1 = col.name) :=
        List.mem_filter.mpr ⟨List.mem_map.mpr ⟨col, hcol, rfl⟩, by simp⟩
      split at hname
      · rename_i name found hfilter
        rw [hfilter] at hmem
        cases hname
        exact (Prod.mk.inj (List.mem_singleton.mp hmem)).2.symm
      · cases hname
    subst hcolumn
    rw [List.getElem?_cons_zero] at h
    dsimp only at h
    rw [List.getElem?_map, hrow, Option.map_some] at h
    dsimp only at h
    split at h
    · exact (Except.ok.inj h).symm
    · cases h

/-- **What is serialized are the rows**, one after the other. -/
theorem serialize_rows (hcolumns : table.columns ≠ []) {rows : List (Row table)}
    {raws : List RawTableRow} (hser : serialize table (arrowTable table.columns rows) = .ok raws) :
    List.Forall₂ (fun row raw => rawTableRow table row.cells = .ok raw) rows raws := by
  unfold serialize at hser
  rw [positions_arrowTable hcolumns] at hser
  obtain ⟨hlen, hcalls⟩ := List.forall₂_iff_get.mp (Fallible.forall₂_of_mapM hser)
  rw [List.length_map, List.length_range] at hlen
  refine List.forall₂_iff_get.mpr ⟨hlen, fun i hi hi' => ?_⟩
  have hcall := hcalls i (by rwa [List.length_map, List.length_range]) hi'
  simp only [List.get_eq_getElem, List.getElem_map, List.getElem_range] at hcall
  obtain ⟨values, hvalues, hraw⟩ := Fallible.bind_eq_ok.mp hcall
  have hcells : values = (rows.get ⟨i, hi⟩).cells := by
    refine Fallible.eq_map_of_mapM hvalues fun col hcol cell hcell => ?_
    obtain ⟨value, hvalue, hcell⟩ := Fallible.bind_eq_ok.mp hcell
    cases hcell
    rw [value_arrowTable_eq hcol (List.getElem?_eq_getElem hi) hvalue]
    rfl
  rw [← hcells]
  exact hraw

/-- **The keys that are written for a row**: in the primary index, and in the secondary indexes that
have a column of the table. -/
theorem rawTableRow_keys {row : Row table} {raw : RawTableRow}
    (h : rawTableRow table row.cells = .ok raw) :
    Keyable row ∧ ∃ (colIds : List UInt32) (secondaryKeys : List Bytes),
      (table.columns ≠ [] → colIds ≠ []) ∧
      (table.columns.flatMap fun col => table.indexIds col.id).dedup.mapM (fun idxId =>
        secondaryIndexKey table idxId (secondaryIdxValues table row.cells idxId) row.primaryValues) =
          .ok secondaryKeys ∧
      raw.map (·.1) = rowKey table row.primaryValues ::
        (colIds.map (columnKey (rowKey table row.primaryValues)) ++ secondaryKeys) := by
  unfold rawTableRow at h
  dsimp only at h
  obtain ⟨key, hkey, h⟩ := Fallible.bind_eq_ok.mp h
  obtain ⟨secondaryKeys, hsecondary, h⟩ := Fallible.bind_eq_ok.mp h
  cases h
  have hids : (row.cells.flatMap fun v => table.indexIds v.1.id) =
      table.columns.flatMap fun col => table.indexIds col.id := by
    unfold Row.cells
    rw [List.flatMap_map]
  rw [hids] at hsecondary
  unfold primaryKey at hkey
  split at hkey
  · rename_i hlen
    cases hkey
    refine ⟨hlen.symm, (row.cells.foldl (fun m v => emplace m v.1.id v.2) .empty).entries.map (·.1),
      secondaryKeys, ?_, hsecondary, ?_⟩
    · intro hcolumns hnil
      obtain ⟨col, columns, hcons⟩ := List.exists_cons_of_ne_nil hcolumns
      have hfind : (row.cells.foldl (fun m v => emplace m v.1.id v.2) .empty).find? col.id =
          some (row.value col.id) := by
        rw [find?_foldl_emplace, SortedMap.find?_empty, Option.none_or]
        unfold Row.cells
        rw [hcons, List.map_cons, List.find?_cons_of_pos (by simp)]
        rfl
      have hmem := List.mem_map_of_mem (f := (·.1)) (SortedMap.find?_eq_some.mp hfind)
      rw [hnil] at hmem
      exact absurd hmem List.not_mem_nil
    · simp only [List.map_cons, List.map_append, List.map_map, List.cons_append]
      congr 1
      congr 1
      exact List.map_id _
  · cases hkey

/-- A key of the primary index is in no secondary one. -/
theorem not_inSecondaryIndex
    (hapart : ∀ index ∈ table.secondaryIndex, index.id ≠ table.primaryKeyIndex.id) {r : Bytes}
    (hr : Separated r) :
    ¬ InSecondaryIndex table (minimumIndexKey table table.primaryKeyIndex.id ++ r) := by
  rintro ⟨index, hindex, r', hr', heq⟩
  exact hapart index hindex (minimumIndexKey_append_inj hr hr' heq).2.2.1.symm

theorem separated_primaryParts (row : Row table) {r : Bytes} (hr : Separated r) :
    Separated (keyParts table.primaryKeyIndex.columnIds row.primaryValues ++ r) :=
  separated_keyParts _ _ hr

/-- The ids of the indexes of a column are those of the indexes that have it. -/
theorem mem_indexIds {colId idxId : UInt32} :
    idxId ∈ table.indexIds colId ↔
      ∃ index ∈ table.secondaryIndex, colId ∈ index.columnIds ∧ index.id = idxId := by
  unfold Table.indexIds
  rw [List.mem_dedup, List.mem_map]
  simp only [List.mem_filter, decide_eq_true_eq, and_assoc]

/-- A row has a value in an index exactly if the index has a column of the table. -/
theorem indexValues_ne_nil {row : Row table} {index : Index} :
    row.indexValues index ≠ [] ↔
      index.id ∈ (table.columns.flatMap fun col => table.indexIds col.id).dedup := by
  unfold Row.indexValues secondaryIdxValues
  rw [cells_filter row fun colId => decide (index.id ∈ table.indexIds colId), List.mem_dedup,
    List.mem_flatMap, ne_eq, List.map_eq_nil_iff, List.filter_eq_nil_iff]
  simp

/-- Of the keys that are written for a row, those of an index are its keys there. -/
theorem indexKey_of_written (hids : (table.secondaryIndex.map (·.id)).Nodup) {row : Row table}
    {raw : RawTableRow} (h : rawTableRow table row.cells = .ok raw) {index : Index}
    (hindex : index ∈ table.secondaryIndex) (hvalues : row.indexValues index ≠ []) :
    ∃ key ∈ raw.map (·.1), row.indexKey index = .ok key ∧ InSecondaryIndex table key := by
  obtain ⟨-, colIds, secondaryKeys, -, hsecondary, hkeys⟩ := rawTableRow_keys h
  obtain ⟨key, hmem, hkey⟩ := Fallible.exists_of_mem_mapM_left hsecondary
    (indexValues_ne_nil.mp hvalues)
  refine ⟨key, ?_, hkey, index, hindex, _, separated_indexParts index row,
    (indexKey_ok hids hindex hkey).2⟩
  rw [hkeys]
  exact List.mem_cons_of_mem _ (List.mem_append_right _ hmem)

/-- A key of a secondary index that is written for a row is its key there. -/
theorem indexKey_of_mem
    (hapart : ∀ index ∈ table.secondaryIndex, index.id ≠ table.primaryKeyIndex.id) {row : Row table}
    {raw : RawTableRow} (h : rawTableRow table row.cells = .ok raw) {key : Bytes}
    (hkey : key ∈ raw.map (·.1)) (hin : InSecondaryIndex table key) :
    ∃ index ∈ table.secondaryIndex, row.indexValues index ≠ [] ∧ row.indexKey index = .ok key := by
  obtain ⟨-, colIds, secondaryKeys, -, hsecondary, hkeys⟩ := rawTableRow_keys h
  rw [hkeys] at hkey
  rcases List.mem_cons.mp hkey with rfl | hkey
  · refine absurd hin ?_
    have := not_inSecondaryIndex hapart (separated_primaryParts row separated_nil)
    rwa [List.append_nil] at this
  · rcases List.mem_append.mp hkey with hkey | hkey
    · obtain ⟨colId, -, rfl⟩ := List.mem_map.mp hkey
      refine absurd hin ?_
      unfold columnKey rowKey
      rw [List.append_assoc]
      exact not_inSecondaryIndex hapart
        (separated_primaryParts row (separated_of_not_mem escape_not_mem_pad))
    · obtain ⟨idxId, hidx, hkey⟩ := Fallible.exists_of_mem_mapM hsecondary hkey
      obtain ⟨col, hcol, hmem⟩ := List.mem_flatMap.mp (List.mem_dedup.mp hidx)
      obtain ⟨index, hindex, -, rfl⟩ := mem_indexIds.mp hmem
      exact ⟨index, hindex, indexValues_ne_nil.mpr hidx, hkey⟩

/-! ## Calls -/

/-- A store, and the rows that were written to it. A call that fails has written nothing. -/
def Call.step (s : Rocks × List (Row table)) (call : Call table) : Rocks × List (Row table) :=
  match call.run s.1 with
  | .ok rocks => (rocks, s.2 ++ call.rows)
  | .error _ => s

/-- The store has the keys of these rows, and no others. An Arrow table without columns has no
rows. -/
structure Wrote (rocks : Rocks) (rows : List (Row table)) : Prop where
  writable : table.columns ≠ [] → ∀ row ∈ rows, ∃ raw, rawTableRow table row.cells = .ok raw
  keys : ∀ key, rocks.find? key ≠ none ↔ table.columns ≠ [] ∧
    ∃ row ∈ rows, ∃ raw, rawTableRow table row.cells = .ok raw ∧ key ∈ raw.map (·.1)

theorem find?_write_raws {rocks : Rocks} {raws : List RawTableRow} {key : Bytes} :
    (RocksReaderWriter.write rocks raws).find? key ≠ none ↔
      rocks.find? key ≠ none ∨ ∃ raw ∈ raws, key ∈ raw.map (·.1) := by
  rw [RocksReaderWriter.find?_write_ne_none_iff, or_comm, List.map_flatten, List.mem_flatten]
  simp only [List.mem_map, exists_exists_and_eq_and]

theorem Wrote.step {s : Rocks × List (Row table)} (h : Wrote s.1 s.2) (call : Call table) :
    Wrote (call.step s).1 (call.step s).2 := by
  unfold Call.step
  cases hrun : call.run s.1 with
  | error e => exact h
  | ok rocks =>
    obtain ⟨raws, hser, rfl⟩ := Call.run_ok hrun
    by_cases hcolumns : table.columns = []
    · -- there is nothing to serialize
      have hraws : raws = [] := by
        have hpositions : (arrowTable table.columns call.rows).positions = [] := by
          rw [hcolumns]
          rfl
        unfold serialize at hser
        rw [hpositions] at hser
        cases hser
        rfl
      refine ⟨fun hne => absurd hcolumns hne, fun key => ?_⟩
      rw [find?_write_raws, h.keys key, hraws]
      simp [hcolumns]
    · have hrows := serialize_rows hcolumns hser
      refine ⟨fun _ row hrow => ?_, fun key => ?_⟩
      · rcases List.mem_append.mp hrow with hrow | hrow
        · exact h.writable hcolumns row hrow
        · obtain ⟨raw, -, hraw⟩ := Fallible.exists_of_forall₂_left hrows hrow
          exact ⟨raw, hraw⟩
      · rw [find?_write_raws, h.keys key]
        constructor
        · rintro (⟨-, row, hrow, hkey⟩ | ⟨raw, hmem, hkey⟩)
          · exact ⟨hcolumns, row, List.mem_append_left _ hrow, hkey⟩
          · obtain ⟨row, hrow, hraw⟩ := Fallible.exists_of_forall₂_right hrows hmem
            exact ⟨hcolumns, row, List.mem_append_right _ hrow, raw, hraw, hkey⟩
        · rintro ⟨-, row, hrow, raw, hraw, hkey⟩
          rcases List.mem_append.mp hrow with hrow | hrow
          · exact .inl ⟨hcolumns, row, hrow, raw, hraw, hkey⟩
          · obtain ⟨raw', hmem, hraw'⟩ := Fallible.exists_of_forall₂_left hrows hrow
            obtain rfl : raw = raw' := Except.ok.inj (hraw.symm.trans hraw')
            exact .inr ⟨raw, hmem, hkey⟩

theorem Wrote.runAll {s : Rocks × List (Row table)} (h : Wrote s.1 s.2) (calls : List (Call table)) :
    Wrote (calls.foldl Call.step s).1 (calls.foldl Call.step s).2 := by
  induction calls generalizing s with
  | nil => exact h
  | cons call calls ih => exact ih (h.step call)

theorem wrote_empty : Wrote (.empty : Rocks) ([] : List (Row table)) where
  writable _ _ hrow := absurd hrow List.not_mem_nil
  keys _ := iff_of_false (fun h => h rfl) fun ⟨_, _, hrow, _⟩ => absurd hrow List.not_mem_nil

/-! ## Indexes and rows -/

/-- The row that is there now: the last one that was written under its primary key. -/
def Stored (rows : List (Row table)) (row : Row table) : Prop :=
  rows.reverse.find? (·.primaryValues = row.primaryValues) = some row

theorem Stored.mem {rows : List (Row table)} {row : Row table} (h : Stored rows row) : row ∈ rows :=
  List.mem_reverse.mp (List.mem_of_find?_eq_some h)

theorem exists_stored {rows : List (Row table)} {row : Row table} (hrow : row ∈ rows) :
    ∃ last, Stored rows last ∧ last.primaryValues = row.primaryValues := by
  cases hfind : rows.reverse.find? (·.primaryValues = row.primaryValues) with
  | none =>
    exact absurd (decide_eq_true rfl) (List.find?_eq_none.mp hfind row (List.mem_reverse.mpr hrow))
  | some last =>
    have hkey : last.primaryValues = row.primaryValues := by simpa using List.find?_some hfind
    refine ⟨last, ?_, hkey⟩
    unfold Stored
    rw [hkey]
    exact hfind

theorem Stored.eq {rows : List (Row table)} {row row' : Row table} (h : Stored rows row)
    (h' : Stored rows row') (hkey : row.primaryValues = row'.primaryValues) : row = row' := by
  unfold Stored at h h'
  rw [hkey] at h
  exact Option.some.inj (h.symm.trans h')

/-- **The keys in the secondary indexes are those of the rows that are there.** -/
def Consistent (rocks : Rocks) (rows : List (Row table)) : Prop :=
  ∀ key, InSecondaryIndex table key ∧ rocks.find? key ≠ none ↔
    ∃ index ∈ table.secondaryIndex, ∃ row, Stored rows row ∧ row.indexKey index = .ok key

/-- No row has come back with other values in an index. That an index has a column, and that it is
not the index of the primary key, goes with it. -/
def Steady (rows : List (Row table)) : Prop :=
  ∀ row ∈ rows, ∀ index ∈ table.secondaryIndex,
    index.columnIds ≠ [] ∧ (table.columns ≠ [] → index.id ≠ table.primaryKeyIndex.id) ∧
      ∀ row' ∈ rows, row'.primaryValues = row.primaryValues →
        row'.indexValues index = row.indexValues index

instance (rows : List (Row table)) : Decidable (Steady rows) :=
  inferInstanceAs (Decidable (∀ row ∈ rows, ∀ index ∈ table.secondaryIndex, _ ∧ _ ∧ ∀ row' ∈ rows, _))

theorem Wrote.keyable {rocks : Rocks} {rows : List (Row table)} (h : Wrote rocks rows)
    (hcolumns : table.columns ≠ []) {row : Row table} (hrow : row ∈ rows) : Keyable row := by
  obtain ⟨raw, hraw⟩ := h.writable hcolumns row hrow
  exact (rawTableRow_keys hraw).1

/-- What indexes that agree with the rows say of the schema: the primary key has an index of its
own. -/
theorem Consistent.apart (hids : (table.secondaryIndex.map (·.id)).Nodup) {rocks : Rocks}
    {rows : List (Row table)} (hwrote : Wrote rocks rows) (h : Consistent rocks rows)
    (hcolumns : table.columns ≠ []) {row : Row table} (hrow : row ∈ rows) :
    ∀ index ∈ table.secondaryIndex, index.id ≠ table.primaryKeyIndex.id := by
  intro index hindex hid
  obtain ⟨raw, hraw⟩ := hwrote.writable hcolumns row hrow
  obtain ⟨hkeyable, colIds, secondaryKeys, hcolIds, -, hkeys⟩ := rawTableRow_keys hraw
  obtain ⟨colId, colIds, rfl⟩ := List.exists_cons_of_ne_nil (hcolIds hcolumns)
  -- the key of a column would be one of the index, and has a column id too many
  have hsep : Separated (keyParts table.primaryKeyIndex.columnIds row.primaryValues ++
      defaultEscapeCharacter :: pad colId) :=
    separated_primaryParts row (separated_of_not_mem escape_not_mem_pad)
  have hkey : columnKey (rowKey table row.primaryValues) colId =
      minimumIndexKey table index.id ++ (keyParts table.primaryKeyIndex.columnIds row.primaryValues ++
        defaultEscapeCharacter :: pad colId) := by
    unfold columnKey rowKey
    rw [hid, List.append_assoc]
  have hpresent : rocks.find? (columnKey (rowKey table row.primaryValues) colId) ≠ none := by
    refine (hwrote.keys _).mpr ⟨hcolumns, row, hrow, raw, hraw, ?_⟩
    rw [hkeys]
    exact List.mem_cons_of_mem _ (List.mem_append_left _ List.mem_cons_self)
  obtain ⟨index', hindex', row', hstored, hindexKey⟩ :=
    (h _).mp ⟨⟨index, hindex, _, hsep, hkey⟩, hpresent⟩
  obtain ⟨hlen, hkey'⟩ := indexKey_ok hids hindex' hindexKey
  obtain ⟨-, -, -, hparts⟩ := minimumIndexKey_append_inj (separated_indexParts index' row') hsep
    (hkey'.symm.trans hkey)
  rw [keyParts_append hlen] at hparts
  refine keyParts_ne_columnKey ?_ hkeyable colId hparts
  rw [List.length_append, List.length_append, hlen, hwrote.keyable hcolumns hstored.mem]

/-- The values in an index without columns are none. -/
theorem indexValues_eq_nil (hids : (table.secondaryIndex.map (·.id)).Nodup) {index : Index}
    (hindex : index ∈ table.secondaryIndex) (hnil : index.columnIds = []) (row : Row table) :
    row.indexValues index = [] := by
  by_contra hne
  obtain ⟨col, -, hmem⟩ := List.mem_flatMap.mp (List.mem_dedup.mp (indexValues_ne_nil.mp hne))
  obtain ⟨index', hindex', hcol, hid⟩ := mem_indexIds.mp hmem
  obtain rfl : index' = index := List.inj_on_of_nodup_map hids hindex' hindex hid
  rw [hnil] at hcol
  exact absurd hcol List.not_mem_nil

/-- **Indexes agree with the rows exactly if no row has come back with other values.** -/
theorem consistent_iff (hids : (table.secondaryIndex.map (·.id)).Nodup) {rocks : Rocks}
    {rows : List (Row table)} (hwrote : Wrote rocks rows) : Consistent rocks rows ↔ Steady rows := by
  constructor
  · intro h row hrow index hindex
    have hapart : table.columns ≠ [] →
        ∀ index ∈ table.secondaryIndex, index.id ≠ table.primaryKeyIndex.id :=
      fun hcolumns => h.apart hids hwrote hcolumns hrow
    refine ⟨fun hnil => ?_, fun hcolumns => hapart hcolumns index hindex, fun row' hrow' hsame => ?_⟩
    · -- an index without columns should have a key, and gets none
      obtain ⟨last, hstored, -⟩ := exists_stored hrow
      have hvalues := indexValues_eq_nil hids hindex hnil last
      have hkey : ∃ key, last.indexKey index = .ok key := by
        have hlen : ¬ table.primaryKeyIndex.columnIds.length < last.primaryValues.length := by
          by_cases hcolumns : table.columns = []
          · have hprimary : last.primaryValues = [] := by
              unfold Row.primaryValues primaryIdxValues Row.cells
              rw [hcolumns]
              rfl
            rw [hprimary]
            exact Nat.not_lt_zero _
          · rw [hwrote.keyable hcolumns hstored.mem]
            exact lt_irrefl _
        unfold Row.indexKey secondaryIndexKey
        rw [find?_index hids hindex, hvalues]
        dsimp only
        rw [if_neg (by simp [hnil]), if_neg hlen]
        exact ⟨_, rfl⟩
      obtain ⟨key, hkey⟩ := hkey
      obtain ⟨hin, hpresent⟩ := (h key).mpr ⟨index, hindex, last, hstored, hkey⟩
      obtain ⟨hcolumns, row', hrow', raw, hraw, hmem⟩ := (hwrote.keys key).mp hpresent
      obtain ⟨index', hindex', hne, hkey'⟩ := indexKey_of_mem (hapart hcolumns) hraw hmem hin
      obtain ⟨rfl, hsame, -⟩ := indexKey_inj hids hindex' hindex (hwrote.keyable hcolumns hrow')
        (hwrote.keyable hcolumns hstored.mem) hkey' hkey
      exact hne (hsame.trans hvalues)
    · -- both rows have the values of the row that is there
      obtain ⟨last, hstored, hlast⟩ := exists_stored hrow
      have hvalues : ∀ row' ∈ rows, row'.primaryValues = last.primaryValues →
          row'.indexValues index = last.indexValues index := by
        intro row' hrow' hsame
        by_cases hne : row'.indexValues index = []
        · have hnone := indexValues_ne_nil.not.mp (not_not.mpr hne)
          rw [hne, not_not.mp (indexValues_ne_nil.not.mpr hnone)]
        · have hcolumns : table.columns ≠ [] := by
            intro hnil
            obtain ⟨col, hcol, -⟩ :=
              List.mem_flatMap.mp (List.mem_dedup.mp (indexValues_ne_nil.mp hne))
            rw [hnil] at hcol
            exact absurd hcol List.not_mem_nil
          obtain ⟨raw, hraw⟩ := hwrote.writable hcolumns row' hrow'
          obtain ⟨key, hmem, hkey, hin⟩ := indexKey_of_written hids hraw hindex hne
          have hpresent := (hwrote.keys key).mpr ⟨hcolumns, row', hrow', raw, hraw, hmem⟩
          obtain ⟨index', hindex', other, hother, hkey'⟩ := (h key).mp ⟨hin, hpresent⟩
          obtain ⟨rfl, heq, hprimary⟩ := indexKey_inj hids hindex hindex'
            (hwrote.keyable hcolumns hrow') (hwrote.keyable hcolumns hother.mem) hkey hkey'
          rw [hother.eq hstored (hprimary.symm.trans hsame)] at heq
          exact heq
      rw [hvalues row' hrow' (hsame.trans hlast.symm), hvalues row hrow hlast.symm]
  · intro h key
    constructor
    · rintro ⟨hin, hpresent⟩
      obtain ⟨hcolumns, row, hrow, raw, hraw, hmem⟩ := (hwrote.keys key).mp hpresent
      have hapart : ∀ index ∈ table.secondaryIndex, index.id ≠ table.primaryKeyIndex.id :=
        fun index hindex => (h row hrow index hindex).2.1 hcolumns
      obtain ⟨index, hindex, -, hkey⟩ := indexKey_of_mem hapart hraw hmem hin
      obtain ⟨last, hstored, hlast⟩ := exists_stored hrow
      refine ⟨index, hindex, last, hstored, ?_⟩
      unfold Row.indexKey at hkey ⊢
      rw [hlast, (h row hrow index hindex).2.2 last hstored.mem hlast]
      exact hkey
    · rintro ⟨index, hindex, row, hstored, hkey⟩
      have hne : row.indexValues index ≠ [] := by
        intro hnil
        have hlen := (indexKey_ok hids hindex hkey).1
        rw [hnil, List.length_nil, eq_comm, List.length_eq_zero_iff] at hlen
        exact (h row hstored.mem index hindex).1 hlen
      have hcolumns : table.columns ≠ [] := by
        intro hnil
        obtain ⟨col, hcol, -⟩ := List.mem_flatMap.mp (List.mem_dedup.mp (indexValues_ne_nil.mp hne))
        rw [hnil] at hcol
        exact absurd hcol List.not_mem_nil
      obtain ⟨raw, hraw⟩ := hwrote.writable hcolumns row hstored.mem
      obtain ⟨key', hmem, hkey', hin⟩ := indexKey_of_written hids hraw hindex hne
      obtain rfl : key = key' := Except.ok.inj (hkey.symm.trans hkey')
      exact ⟨hin, (hwrote.keys key).mpr ⟨hcolumns, row, hstored.mem, raw, hraw, hmem⟩⟩

/-- **Secondary indexes stay consistent as long as no row comes back with other values in one.**
After any calls, the keys in the secondary indexes are exactly those of the rows that are there, if
and only if of all rows that were written no two with one primary key differ in the values of an
index. -/
theorem indexes_consistent_iff (hids : (table.secondaryIndex.map (·.id)).Nodup)
    (calls : List (Call table)) :
    Consistent (calls.foldl Call.step (.empty, [])).1 (calls.foldl Call.step (.empty, [])).2 ↔
      Steady (calls.foldl Call.step (.empty, [])).2 :=
  consistent_iff hids (wrote_empty.runAll calls)

theorem indexes_consistent_same_names :
    let calls := [.insert [userRow 1 "a", userRow 2 "a"], .insert [userRow 1 "b"],
      .update [userRow 2 "a"] .replace]
    let s : Rocks × List (Row usersTable) := calls.foldl Call.step (.empty, [])
    s.2.length = 3 ∧ Consistent s.1 s.2 :=
  ⟨by decide +kernel, (indexes_consistent_iff (by decide) _).mpr (by decide +kernel)⟩

/-- **A user who is renamed stays in the index under the old name.** -/
theorem old_name_stays : ∃ key,
    let calls := [.insert [userRow 1 "a"], .update [userRow 1 "c"] .replace]
    let s : Rocks × List (Row usersTable) := calls.foldl Call.step (.empty, [])
    (userRow 1 "a").indexKey ⟨1, [2]⟩ = .ok key ∧ s.1.find? key ≠ none ∧ ¬ Consistent s.1 s.2 := by
  refine ⟨_, rfl, by decide +kernel, fun h => ?_⟩
  exact absurd ((consistent_iff (by decide) (wrote_empty.runAll _)).mp h) (by decide +kernel)

end ReplicatedCounter.MyDb
