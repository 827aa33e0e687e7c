import Mathlib.Data.List.Pairwise
import ReplicatedCounter.MyDb.FailedRequests
import ReplicatedCounter.MyDb.GetRow

/-!
# Rows that were added

A table of a client, some rows added to it one after the other, and then a request for one of them.
Every addition leaves the row's own keys, and a key in the secondary index if the table has one; as no
primary key begins with another, nobody writes over them (`Adds.own`). What else begins with the key of
a row then was there before the first addition, or is a key of the secondary index.
-/

set_option autoImplicit false

namespace ReplicatedCounter.MyDb

open KeySerializer RowSerializer

variable {table : Table}

/-! ## The table -/

namespace Transformer

variable {clientTable : client.Table} {dbId tableId : UInt32}

/-- The names of the columns. -/
theorem names_fromTable (h : fromTable clientTable dbId tableId = .ok table) :
    table.columns.map (·.name) = clientTable.columns.map (·.name) ++ ["__internal__lock_mode"] := by
  have hzip : ∀ (columns : List client.Column) (n : Nat),
      (columns.zipIdx n).map (fun p => p.1.name) = columns.map (·.name) := by
    intro columns n
    calc (columns.zipIdx n).map (fun p => p.1.name)
        = ((columns.zipIdx n).map Prod.fst).map (·.name) := by rw [List.map_map]; rfl
      _ = columns.map (·.name) := by rw [List.zipIdx_map_fst]
  rw [columns_fromTable h, List.map_append, List.map_map]
  exact congrArg (· ++ ["__internal__lock_mode"]) (hzip clientTable.columns 0)

/-- The id that is looked up is that of the column with the name. -/
theorem idLookup_eq (h : fromTable clientTable dbId tableId = .ok table)
    (hnames : (table.columns.map (·.name)).Nodup) {col : Column} (hcol : col ∈ table.columns)
    {colId : UInt32} (hlookup : idLookup clientTable.columns col.name = .ok colId) :
    colId = col.id := by
  unfold idLookup at hlookup
  cases hfind : clientTable.columns.zipIdx.reverse.find? (·.1.name = col.name) with
  | none =>
    rw [hfind] at hlookup
    cases hlookup
  | some found =>
    rw [hfind] at hlookup
    obtain ⟨column, idCounter⟩ := found
    cases hlookup
    have hname : column.name = col.name := by simpa using List.find?_some hfind
    have hmem := List.mem_reverse.mp (List.mem_of_find?_eq_some hfind)
    have hcol' : { id := UInt32.ofNat idCounter, name := column.name,
                   columnType := column.columnType.getD .int64 : Column } ∈ table.columns := by
      rw [columns_fromTable h]
      exact List.mem_append_left _ (List.mem_map.mpr ⟨_, hmem, rfl⟩)
    rw [← List.inj_on_of_nodup_map hnames hcol' hcol hname]

/-- A list that is part of another one without repetitions is picked out of it by its members. -/
theorem filter_mem_eq {α : Type} [DecidableEq α] {l l' : List α} (hl : l.Nodup)
    (hsub : l'.Sublist l) : l.filter (· ∈ l') = l' := by
  induction hsub with
  | slnil => rfl
  | @cons l' l a hsub ih =>
    obtain ⟨hnot, hrest⟩ := List.nodup_cons.mp hl
    rw [List.filter_cons, if_neg (by simpa using fun hmem => hnot (hsub.subset hmem)), ih hrest]
  | @cons_cons l' l a hsub ih =>
    obtain ⟨hnot, hrest⟩ := List.nodup_cons.mp hl
    rw [List.filter_cons, if_pos (by simp)]
    refine congrArg (a :: ·) (Eq.trans (List.filter_congr fun b hb => ?_) (ih hrest))
    have hne : b ≠ a := fun heq => hnot (heq ▸ hb)
    simp [hne]

/-- **A client's table with a key in the order of its columns** keeps to what is needed, as far as its
names and ids do. -/
theorem written_fromTable (h : fromTable clientTable dbId tableId = .ok table)
    (hne : clientTable.primaryKey ≠ [])
    (horder : clientTable.primaryKey.Sublist (clientTable.columns.map (·.name)))
    (hids : (table.columns.map (·.id)).Nodup) (hnames : (table.columns.map (·.name)).Nodup) :
    table.Written := by
  have hsub : clientTable.primaryKey.Sublist (table.columns.map (·.name)) := by
    rw [names_fromTable h]
    exact horder.trans (List.sublist_append_left _ _)
  -- the columns with the names of the key
  obtain ⟨key, hkey⟩ : ∃ key, key = table.columns.filter (·.name ∈ clientTable.primaryKey) := ⟨_, rfl⟩
  have hkeyNames : key.map (·.name) = clientTable.primaryKey := by
    have hfilter := filter_mem_eq hnames hsub
    rw [List.filter_map] at hfilter
    rw [hkey]
    exact hfilter
  have hmem : ∀ col ∈ key, col ∈ table.columns := by
    intro col hcol
    rw [hkey] at hcol
    exact (List.mem_filter.mp hcol).1
  have hkeyIds : table.primaryKeyIndex.columnIds = key.map (·.id) := by
    have hlookup := primaryKey_fromTable h
    rw [← hkeyNames, List.mapM_map] at hlookup
    exact Fallible.eq_map_of_mapM hlookup fun col hcol colId hread =>
      idLookup_eq h hnames (hmem col hcol) hread
  have hkeyColumns : table.primaryKeyColumns = key := by
    unfold Table.primaryKeyColumns Table.isPrimaryKeyColumn
    rw [hkeyIds, hkey]
    refine List.filter_congr fun col hcol => decide_eq_decide.mpr ⟨fun hid => ?_, fun hname => ?_⟩
    · obtain ⟨col', hcol', hid⟩ := List.mem_map.mp hid
      obtain rfl := List.inj_on_of_nodup_map hids (List.mem_filter.mp hcol').1 hcol hid
      simpa using (List.mem_filter.mp hcol').2
    · exact List.mem_map_of_mem (List.mem_filter.mpr ⟨hcol, by simpa using hname⟩)
  refine ⟨sorted_of_nodup h hids, hnames, ?_, ?_, (indexIds_fromTable h).1⟩
  · rw [hkeyColumns, hkeyIds]
  · rw [hkeyIds, ne_eq, List.map_eq_nil_iff]
    rintro rfl
    exact hne hkeyNames.symm

end Transformer

/-! ## An addition -/

namespace DbImpl

variable {db db' : DbImpl} {request : client.AddRowRequest} {tableRows : List (List Bytes)}

/-- What an addition that succeeds has done. -/
theorem addRow_ok
    (htable : db.schemaStore.getTable request.databaseName request.tableName = some table)
    (h : db.addRow request = (.ok tableRows, db')) :
    ∃ internalTable, Transformer.fromAddRowRequest request table = .ok internalTable ∧
      QueryExecutor.insert db.rocks table internalTable = .ok db'.rocks ∧
      db'.schemaStore = db.schemaStore := by
  unfold addRow at h
  rw [htable] at h
  dsimp only at h
  cases hfrom : Transformer.fromAddRowRequest request table with
  | error error =>
    rw [hfrom] at h
    cases h
  | ok internalTable =>
    rw [hfrom] at h
    dsimp only at h
    cases hinsert : QueryExecutor.insert db.rocks table internalTable with
    | error error =>
      rw [hinsert] at h
      cases h
    | ok rocks =>
      rw [hinsert] at h
      dsimp only at h
      cases hget : QueryExecutor.get rocks table internalTable >>= Transformer.toTableRows table with
      | error error =>
        rw [hget] at h
        cases h
      | ok found =>
        rw [hget] at h
        cases h
        exact ⟨internalTable, rfl, hinsert, rfl⟩

/-- No two columns of a table to which something was added have one id. -/
theorem nodup_ids_of_addRow
    (htable : db.schemaStore.getTable request.databaseName request.tableName = some table)
    (h : db.addRow request = (.ok tableRows, db')) : (table.columns.map (·.id)).Nodup := by
  obtain ⟨internalTable, hfrom, -, -⟩ := addRow_ok htable h
  exact (Transformer.fromColumnValues_ok_iff.mp hfrom).2.1

/-- Nor one name, if no later column has the name of the first. -/
theorem nodup_names_of_addRow {first : Column} {rest : List Column}
    (hcolumns : table.columns = first :: rest) (hfirst : first.name ∉ rest.map (·.name))
    (hids : (table.columns.map (·.id)).Pairwise (· < ·)) {row : Row table}
    (hgives : Transformer.Gives row table.columns request.columnValues)
    (htable : db.schemaStore.getTable request.databaseName request.tableName = some table)
    (h : db.addRow request = (.ok tableRows, db')) : (table.columns.map (·.name)).Nodup := by
  obtain ⟨internalTable, hfrom, hinsert, -⟩ := addRow_ok htable h
  obtain ⟨-, -, cells, hcells, rfl⟩ := Transformer.fromColumnValues_ok_iff.mp hfrom
  obtain ⟨-, raws, -, -, hser, -⟩ := QueryExecutor.insert_ok hinsert
  rw [requestTable_of_sorted hids] at hser
  refine nodup_names_of_serialize hser ?_
  -- the first column has been given its value
  have hmem : Transformer.valuesOf cells first.id ≠ [] := by
    obtain ⟨given, hperm, hvalues⟩ := hgives
    obtain ⟨columnValue, hcolumnValue, hname, -⟩ := Fallible.exists_of_forall₂_right hvalues
      (hperm.mem_iff.mpr (hcolumns ▸ List.mem_cons_self : first ∈ table.columns))
    rw [List.flatten_singleton] at hcells
    obtain ⟨cell, hcell, hread⟩ := Fallible.exists_of_mem_mapM_left hcells hcolumnValue
    have hid : table.getColumnId columnValue.name = some first.id := by
      rw [hname]
      unfold Table.getColumnId
      have hnone : rest.reverse.find? (·.name = first.name) = none := by
        rw [List.find?_eq_none]
        intro col hcol heq
        exact hfirst (List.mem_map.mpr ⟨col, List.mem_reverse.mp hcol, by simpa using heq⟩)
      rw [hcolumns, List.reverse_cons, List.find?_append, hnone]
      simp
    have hcellId := (Transformer.readColumnValue_mem hread).1.symm.trans hid
    refine List.ne_nil_of_mem (List.mem_map_of_mem (List.mem_filter.mpr ⟨hcell, ?_⟩))
    simpa using hcellId
  show (requestTable table (Transformer.valuesOf cells)).positions ≠ []
  rw [positions_requestTable hcolumns, ne_eq, List.map_eq_nil_iff, List.range_eq_nil]
  exact fun hzero => hmem (List.length_eq_zero_iff.mp hzero)

/-- **An addition writes the row.** -/
theorem addRow_written (hwritten : table.Written) (hcolumns : table.columns ≠ []) {row : Row table}
    (hgives : Transformer.Gives row table.columns request.columnValues)
    (htable : db.schemaStore.getTable request.databaseName request.tableName = some table)
    (h : db.addRow request = (.ok tableRows, db')) :
    ∃ raw, rawTableRow table row.cells = .ok raw ∧
      db'.rocks = RocksReaderWriter.write db.rocks [raw] ∧ db'.schemaStore = db.schemaStore := by
  obtain ⟨internalTable, hfrom, hinsert, hschema⟩ := addRow_ok htable h
  unfold Transformer.fromAddRowRequest at hfrom
  rw [← List.flatten_singleton (l := request.columnValues)] at hgives
  rw [Transformer.fromColumnValues_gives hwritten.ids hwritten.names hcolumns (.refl _) hgives] at hfrom
  have hrow : internalTable = arrowTable table.columns [row] := by
    rw [← Except.ok.inj hfrom]
    unfold requestTable arrowTable
    congr 1
    refine List.map_congr_left fun col hcol => ?_
    dsimp only
    rw [if_pos (List.mem_map_of_mem hcol)]
    rfl
  obtain ⟨-, raws, -, -, hser, hrocks⟩ := QueryExecutor.insert_ok hinsert
  rw [hrow] at hser
  cases serialize_rows hcolumns hser with
  | cons hraw hrest =>
    cases hrest
    exact ⟨_, hraw, hrocks, hschema⟩

end DbImpl

/-! ## A run of additions -/

/-- Some rows are added to a table one after the other, each by a request that succeeds. -/
inductive Adds (databaseName tableName : String) : DbImpl → List (Row table) → DbImpl → Prop
  | nil (db : DbImpl) : Adds databaseName tableName db [] db
  | cons {db db₁ db₂ : DbImpl} {request : client.AddRowRequest} {row : Row table}
    {rows : List (Row table)} {tableRows : List (List Bytes)}
    (hdatabaseName : request.databaseName = databaseName) (htableName : request.tableName = tableName)
    (hgives : Transformer.Gives row table.columns request.columnValues)
    (hadd : db.addRow request = (.ok tableRows, db₁)) (hrest : Adds databaseName tableName db₁ rows db₂) :
    Adds databaseName tableName db (row :: rows) db₂

/-- The primary keys of two rows do not begin with one another. -/
def PrefixFree (row row' : Row table) : Prop :=
  ¬ rowKey table row.primaryKey <+: rowKey table row'.primaryKey ∧
    ¬ rowKey table row'.primaryKey <+: rowKey table row.primaryKey

instance symmPrefixFree : Std.Symm (@PrefixFree table) := ⟨fun _ _ h => ⟨h.2, h.1⟩⟩

section adds

variable {databaseName tableName : String} {db db' : DbImpl} {rows : List (Row table)}

/-- **A run of additions writes the rows.** -/
theorem Adds.written (h : Adds databaseName tableName db rows db') (hwritten : table.Written)
    (hcolumns : table.columns ≠ [])
    (htable : db.schemaStore.getTable databaseName tableName = some table) :
    ∃ raws, List.Forall₂ (fun row raw => rawTableRow table row.cells = .ok raw) rows raws ∧
      db'.rocks = RocksReaderWriter.write db.rocks raws ∧ db'.schemaStore = db.schemaStore := by
  induction h with
  | nil db => exact ⟨[], .nil, rfl, rfl⟩
  | cons hdatabaseName htableName hgives hadd _ ih =>
    subst hdatabaseName htableName
    obtain ⟨raw, hraw, hrocks, hschema⟩ :=
      DbImpl.addRow_written hwritten hcolumns hgives htable hadd
    obtain ⟨raws, hraws, hrocks', hschema'⟩ := ih (hschema ▸ htable)
    refine ⟨raw :: raws, .cons hraw hraws, ?_, hschema'.trans hschema⟩
    rw [hrocks', hrocks]
    unfold RocksReaderWriter.write SortedMap.insertAll
    rw [List.flatten_singleton, List.flatten_cons, List.foldl_append]

/-- Whatever is found of the table in a run was there before. -/
theorem Adds.schemaStore (h : Adds databaseName tableName db rows db')
    (htable : db.schemaStore.getTable databaseName tableName = some table) :
    db'.schemaStore.getTable databaseName tableName = some table := by
  induction h with
  | nil db => exact htable
  | cons hdatabaseName htableName hgives hadd _ ih =>
    subst hdatabaseName htableName
    obtain ⟨-, -, -, hschema⟩ := DbImpl.addRow_ok htable hadd
    exact ih (hschema ▸ htable)

/-- Every row was added by a request, in a state with the table. -/
theorem Adds.exists_addRow (h : Adds databaseName tableName db rows db')
    (htable : db.schemaStore.getTable databaseName tableName = some table) {row : Row table}
    (hrow : row ∈ rows) : ∃ (db₁ db₂ : DbImpl) (request : client.AddRowRequest)
      (tableRows : List (List Bytes)),
      db₁.schemaStore.getTable request.databaseName request.tableName = some table ∧
      Transformer.Gives row table.columns request.columnValues ∧
      db₁.addRow request = (.ok tableRows, db₂) := by
  induction h with
  | nil db => exact absurd hrow List.not_mem_nil
  | @cons db db₁ db₂ request row' rows tableRows hdatabaseName htableName hgives hadd _ ih =>
    subst hdatabaseName htableName
    rcases List.mem_cons.mp hrow with rfl | hrow
    · exact ⟨db, db₁, request, tableRows, htable, hgives, hadd⟩
    · obtain ⟨-, -, -, hschema⟩ := DbImpl.addRow_ok htable hadd
      exact ih (hschema ▸ htable) hrow

end adds

/-! ## What is stored in the end -/

theorem Table.Written.primaryValues_eq (h : table.Written) (row : Row table) :
    row.primaryValues = row.primaryKey := by
  unfold Row.primaryValues primaryIdxValues Row.cells Row.primaryKey
  rw [h.columnIds, List.filter_map, List.map_map, List.map_map]
  rfl

/-- A row's entries are its own, and those of the secondary indexes. -/
theorem Table.Written.rawTableRow_eq (h : table.Written) {row : Row table} {raw : RawTableRow}
    (hraw : rawTableRow table row.cells = .ok raw) :
    ∃ secondaryKeys : List Bytes, raw = row.entries ++ secondaryKeys.map (fun key => (key, null)) ∧
      ∀ key ∈ secondaryKeys, ∃ idxId columnIds values, values.length = columnIds.length ∧
        key = minimumIndexKey table idxId ++ (keyParts columnIds values ++
          keyParts table.primaryKeyIndex.columnIds row.primaryKey) := by
  obtain ⟨-, secondaryKeys, hsecondary, hraw⟩ := rawTableRow_ok_iff.mp hraw
  rw [h.primaryValues_eq] at hsecondary hraw
  refine ⟨secondaryKeys, ?_, fun key hkey => ?_⟩
  · rw [hraw]
    unfold Row.entries Row.columnEntries
    rw [h.primaryValues_eq, idOrder_of_sorted h.ids, List.map_map]
    rfl
  · obtain ⟨idxId, -, hok⟩ := Fallible.exists_of_mem_mapM hsecondary hkey
    obtain ⟨index, -, hlen, heq⟩ := secondaryIndexKey_eq_ok hok
    exact ⟨idxId, index.columnIds, _, hlen, heq⟩

/-- A key of a secondary index is not one of a column. -/
theorem secondaryKey_ne_columnKey (row row' : Row table) {idxId : UInt32} {columnIds : List UInt32}
    {values : List ColumnValue} (hlen : values.length = columnIds.length) (colId : UInt32) :
    minimumIndexKey table idxId ++ (keyParts columnIds values ++
      keyParts table.primaryKeyIndex.columnIds row'.primaryKey) ≠
        columnKey (rowKey table row.primaryKey) colId := by
  have hcolId : Separated (defaultEscapeCharacter :: pad colId) :=
    separated_of_not_mem escape_not_mem_pad
  have hlen' : (values ++ row'.primaryKey).length =
      (columnIds ++ table.primaryKeyIndex.columnIds).length := by
    rw [List.length_append, List.length_append, hlen, length_primaryKey]
  have hsep := separated_keyParts (columnIds ++ table.primaryKeyIndex.columnIds)
    (values ++ row'.primaryKey) separated_nil
  rw [List.append_nil] at hsep
  intro heq
  unfold columnKey rowKey at heq
  rw [keyParts_append hlen, List.append_assoc] at heq
  obtain ⟨-, -, -, hparts⟩ :=
    minimumIndexKey_append_inj hsep (separated_keyParts _ _ hcolId) heq
  exact keyParts_ne_columnKey hlen' (length_primaryKey row) colId hparts

/-- Of a row's own entries, no two have one key. -/
theorem entries_inj {row : Row table} {entry entry' : Bytes × Bytes} (hentry : entry ∈ row.entries)
    (hentry' : entry' ∈ row.entries) (hkey : entry.1 = entry'.1) : entry = entry' := by
  have hne : ∀ colId, columnKey (rowKey table row.primaryKey) colId ≠ rowKey table row.primaryKey := by
    intro colId
    unfold columnKey
    simp
  rcases List.mem_cons.mp hentry with rfl | hentry
  · rcases List.mem_cons.mp hentry' with rfl | hentry'
    · rfl
    · obtain ⟨col, -, rfl⟩ := List.mem_map.mp hentry'
      exact absurd hkey.symm (hne col.id)
  · obtain ⟨col, -, rfl⟩ := List.mem_map.mp hentry
    rcases List.mem_cons.mp hentry' with rfl | hentry'
    · exact absurd hkey (hne col.id)
    · obtain ⟨col', -, rfl⟩ := List.mem_map.mp hentry'
      have hid : col.id = col'.id := by
        unfold columnKey at hkey
        exact pad_injective (by simpa using hkey)
      rw [hid]

section stored

variable (h : table.Written) {rows : List (Row table)} {raws : List RawTableRow}
  (hraws : List.Forall₂ (fun row raw => rawTableRow table row.cells = .ok raw) rows raws)
  (hapart : rows.Pairwise PrefixFree) {row : Row table} (hrow : row ∈ rows)

include h hraws hapart hrow in
/-- **What was written under the key of a row** is its own, or a key of a secondary index. -/
theorem own_or_secondary {entry : Bytes × Bytes} (hentry : entry ∈ raws.flatten)
    (hbegins : rowKey table row.primaryKey <+: entry.1) : entry ∈ row.entries ∨
      entry.2 = null ∧ ∀ colId, entry.1 ≠ columnKey (rowKey table row.primaryKey) colId := by
  obtain ⟨raw, hraw, hmem⟩ := List.mem_flatten.mp hentry
  obtain ⟨row', hrow', hwrite⟩ := Fallible.exists_of_forall₂_right hraws hraw
  obtain ⟨secondaryKeys, rfl, hsecondary⟩ := h.rawTableRow_eq hwrite
  rcases List.mem_append.mp hmem with hmem | hmem
  · left
    have hprefix := rowKey_prefix_of_mem (List.mem_map_of_mem hmem) hbegins
    by_cases heq : row = row'
    · exact heq ▸ hmem
    · exact absurd hprefix (hapart.forall hrow hrow' heq).1
  · right
    obtain ⟨key, hkey, rfl⟩ := List.mem_map.mp hmem
    obtain ⟨idxId, columnIds, values, hlen, rfl⟩ := hsecondary key hkey
    exact ⟨rfl, secondaryKey_ne_columnKey row row' hlen⟩

include h hraws hapart hrow in
/-- **Nobody writes over a row's own entries.** -/
theorem own_mem_scan {rocks : Rocks} {entry : Bytes × Bytes} (hentry : entry ∈ row.entries) :
    entry ∈ (RocksReaderWriter.write rocks raws).scan (rowKey table row.primaryKey) := by
  obtain ⟨key, value⟩ := entry
  have hbegins : rowKey table row.primaryKey <+: key := by
    rcases List.mem_cons.mp hentry with heq | hentry
    · cases heq
      exact List.prefix_rfl
    · obtain ⟨col, -, heq⟩ := List.mem_map.mp hentry
      cases heq
      exact List.prefix_append _ _
  have hmem : (key, value) ∈ raws.flatten := by
    obtain ⟨raw, hraw, hwrite⟩ := Fallible.exists_of_forall₂_left hraws hrow
    obtain ⟨secondaryKeys, rfl, -⟩ := h.rawTableRow_eq hwrite
    exact List.mem_flatten.mpr ⟨_, hraw, List.mem_append_left _ hentry⟩
  have hall : ∀ entry ∈ raws.flatten, entry.1 = key → entry.2 = value := by
    intro entry hother hkey
    rcases own_or_secondary h hraws hapart hrow hother (hkey ▸ hbegins) with hown | ⟨hnull, hne⟩
    · rw [entries_inj hown hentry hkey]
    · -- only the key of the row itself could be one, and has no value either
      rcases List.mem_cons.mp hentry with heq | hentry
      · cases heq
        exact hnull
      · obtain ⟨col, -, heq⟩ := List.mem_map.mp hentry
        cases heq
        exact absurd hkey (hne col.id)
  rw [SortedMap.mem_scan, RocksReaderWriter.find?_write, SortedMap.lastValue_of_forall hmem hall]
  exact ⟨hbegins, rfl⟩

include h hraws hapart hrow in
/-- And where there was nothing before, everything else has no value. -/
theorem other_eq_null {rocks : Rocks}
    (hempty : ∀ key, minimumIndexKey table 0 <+: key → rocks.find? key = none) {entry : Bytes × Bytes}
    (hentry : entry ∈ (RocksReaderWriter.write rocks raws).scan (rowKey table row.primaryKey))
    (hother : entry ∉ row.entries) : entry.2 = null := by
  obtain ⟨key, value⟩ := entry
  obtain ⟨hbegins, hfind⟩ := SortedMap.mem_scan.mp hentry
  have hbefore : rocks.find? key = none := by
    refine hempty key (List.IsPrefix.trans ?_ hbegins)
    rw [h.rowKey_eq]
    exact List.prefix_append _ _
  rw [RocksReaderWriter.find?_write, hbefore, Option.or_none] at hfind
  have hmem : (key, value) ∈ raws.flatten := SortedMap.mem_of_lastValue hfind
  rcases own_or_secondary h hraws hapart hrow hmem hbegins with hown | ⟨hnull, -⟩
  · exact absurd hown hother
  · exact hnull

end stored

/-! ## Getting them back -/

/-- A request for a row has a row: the table's first column is in the primary key, and no later column
takes its values. -/
def Table.LedByKey (table : Table) : Prop :=
  ∃ first rest, table.columns = first :: rest ∧ first.id ∈ table.primaryKeyIndex.columnIds ∧
    first.name ∉ rest.map (·.name)

namespace DbImpl

/-- Every request for the row returns exactly the row. -/
def Gets (db : DbImpl) (databaseName tableName : String) (row : Row table) : Prop :=
  ∀ request : client.GetRowRequest, request.databaseName = databaseName →
    request.tableName = tableName → Asks request row → db.getRow request = .ok [row.texts]

variable {db db₀ db' : DbImpl} {databaseName tableName : String} {row : Row table}

/-- There is a request for every row. -/
theorem exists_asks (databaseName tableName : String) (row : Row table) :
    ∃ request : client.GetRowRequest, request.databaseName = databaseName ∧
      request.tableName = tableName ∧ Asks request row := by
  refine ⟨{ databaseName, tableName, primaryKeyValues := [table.primaryKeyColumns.map fun col =>
    ⟨col.name, (row.value col.id).toString⟩] }, rfl, rfl, ?_⟩
  unfold Asks
  rw [List.flatten_singleton]
  exact Transformer.gives_toString row fun col hcol => (List.mem_filter.mp hcol).1

/-- Without a value for the first column no row comes back. -/
theorem not_gets (hids : (table.columns.map (·.id)).Pairwise (· < ·)) {first : Column}
    {rest : List Column} (hcolumns : table.columns = first :: rest)
    (htable : db.schemaStore.getTable databaseName tableName = some table)
    (hnone : ∀ col ∈ table.primaryKeyColumns, table.getColumnId col.name ≠ some first.id) :
    ¬ db.Gets databaseName tableName row := by
  intro hgets
  obtain ⟨request, rfl, rfl, hasks⟩ := exists_asks databaseName tableName row
  refine absurd (getRow_eq_nil hids hcolumns htable ?_ (hgets request rfl rfl hasks))
    (List.cons_ne_nil _ _)
  intro columnValue hcolumnValue
  obtain ⟨given, hperm, hvalues⟩ := hasks
  obtain ⟨col, hcol, hname, -⟩ := Fallible.exists_of_forall₂_left hvalues hcolumnValue
  rw [hname]
  exact hnone col (hperm.mem_iff.mp hcol)

/-- **A row comes back** exactly if a request for it has a row, and it is shown. -/
theorem gets_iff_shown (hids : (table.columns.map (·.id)).Pairwise (· < ·)) {first : Column}
    {rest : List Column} (hcolumns : table.columns = first :: rest)
    (hwritten : first.name ∉ rest.map (·.name) → table.Written)
    (htable : db.schemaStore.getTable databaseName tableName = some table) :
    db.Gets databaseName tableName row ↔ table.LedByKey ∧ row.Shown db.rocks := by
  have hled : table.LedByKey ↔
      first.id ∈ table.primaryKeyIndex.columnIds ∧ first.name ∉ rest.map (·.name) := by
    unfold Table.LedByKey
    rw [hcolumns]
    constructor
    · rintro ⟨first', rest', heq, hled⟩
      cases heq
      exact hled
    · exact fun hled => ⟨first, rest, rfl, hled⟩
  rw [hled]
  by_cases hlater : first.name ∈ rest.map (·.name)
  · refine iff_of_false (not_gets hids hcolumns htable fun col _ => ?_) fun h => h.1.2 hlater
    exact Transformer.getColumnId_ne_first (hids.imp fun hlt => hlt.ne) hcolumns hlater col.name
  · have h := hwritten hlater
    by_cases hfirst : first.id ∈ table.primaryKeyIndex.columnIds
    · refine Iff.trans ?_ (and_iff_right ⟨hfirst, hlater⟩).symm
      constructor
      · intro hgets
        obtain ⟨request, rfl, rfl, hasks⟩ := exists_asks databaseName tableName row
        exact (getRow_iff_shown h hcolumns hfirst htable hasks).mp (hgets request rfl rfl hasks)
      · rintro hshown request rfl rfl hasks
        exact (getRow_iff_shown h hcolumns hfirst htable hasks).mpr hshown
    · refine iff_of_false (not_gets hids hcolumns htable fun col hcol hid => ?_)
        fun h => hfirst h.1.1
      -- a column of the key has its own id
      obtain ⟨hmem, hkey⟩ := List.mem_filter.mp hcol
      rw [Transformer.getColumnId_of_nodup h.names hmem] at hid
      unfold Table.isPrimaryKeyColumn at hkey
      rw [Option.some.inj hid] at hkey
      exact hfirst (by simpa using hkey)

/-- **What was added is found** if and only if the table's first column is in the primary key, no later
one has its name, and what is stored under the primary key of the row shows the row. In a table that
was empty when it was made, the row is shown exactly if its primary key has no value that is empty or
slashes only, and no key of the secondary index disturbs it. -/
theorem getRow_finds_added_iff {serializeAsString : client.AddTableRequest → Bytes}
    {request : client.AddTableRequest} {seconds : Int64} {rows : List (Row table)}
    (hcreate : addTable serializeAsString db request seconds = (.ok (), db₀))
    (hne : request.table.primaryKey ≠ [])
    (horder : request.table.primaryKey.Sublist (request.table.columns.map (·.name)))
    (htable : db₀.schemaStore.getTable request.table.db request.table.name = some table)
    (hadds : Adds request.table.db request.table.name db₀ rows db')
    (hapart : rows.Pairwise PrefixFree) (hrow : row ∈ rows) :
    (db'.Gets request.table.db request.table.name row ↔ table.LedByKey ∧ row.Shown db'.rocks) ∧
      ((∀ key, minimumIndexKey table 0 <+: key → db₀.rocks.find? key = none) →
        (db'.Gets request.table.db request.table.name row ↔
          table.LedByKey ∧ row.Undisturbed db'.rocks)) := by
  -- the table is what was made of the client's
  obtain ⟨-, database, -, table', -, -, -, -, hfrom, hregister⟩ := addTable_ok hcreate
  have htable' := (SchemaStore.registerTable_ok hregister).2 request.table.db request.table.name
  rw [if_pos ⟨rfl, rfl⟩] at htable'
  obtain rfl : table' = table := Option.some.inj (htable'.symm.trans htable)
  have hlock : (⟨1001, "__internal__lock_mode", .int64⟩ : Column) ∈ table'.columns := by
    rw [Transformer.columns_fromTable hfrom]
    exact List.mem_append_right _ (List.mem_singleton.mpr rfl)
  have hcolumns := List.ne_nil_of_mem hlock
  obtain ⟨first, rest, hcons⟩ := List.exists_cons_of_ne_nil hcolumns
  -- the row was added to it
  obtain ⟨db₁, db₂, addRowRequest, tableRows, hstore, hgives, hadd⟩ := hadds.exists_addRow htable hrow
  have hids := Transformer.sorted_of_nodup hfrom (nodup_ids_of_addRow hstore hadd)
  have hwritten : first.name ∉ rest.map (·.name) → table'.Written := fun hlater =>
    Transformer.written_fromTable hfrom hne horder (hids.imp fun hlt => hlt.ne)
      (nodup_names_of_addRow hcons hlater hids hgives hstore hadd)
  have hgets : db'.Gets request.table.db request.table.name row ↔
      table'.LedByKey ∧ row.Shown db'.rocks :=
    gets_iff_shown hids hcons hwritten (hadds.schemaStore htable)
  refine ⟨hgets, fun hempty => hgets.trans (and_congr_right fun hled => ?_)⟩
  obtain ⟨first', rest', hcons', -, hlater⟩ := hled
  obtain ⟨rfl, rfl⟩ := List.cons.inj (hcons.symm.trans hcons')
  have h := hwritten hlater
  obtain ⟨raws, hraws, hrocks, -⟩ := hadds.written h hcolumns htable
  rw [hrocks]
  exact shown_iff_undisturbed h (fun entry => own_mem_scan h hraws hapart hrow)
    (fun entry hentry hother => other_eq_null h hraws hapart hrow hempty hentry hother) hlock rfl

/-- A table of pairs, with one of its two columns as the primary key. -/
def pairs (key : String) : client.Table where
  name := "pairs"
  db := "db"
  columns := [⟨"left", some .int64⟩, ⟨"right", some .int64⟩]
  primaryKey := [key]
  secondaryIndex := []

/-- What becomes of it as the first table of the first database. -/
def pairsTable (keyId : UInt32) : Table where
  id := 0
  dbId := 0
  columns := [⟨0, "left", .int64⟩, ⟨1, "right", .int64⟩, ⟨1001, "__internal__lock_mode", .int64⟩]
  primaryKeyIndex := ⟨0, [keyId]⟩
  secondaryIndex := []

/-- The pair of 1 and 2. -/
def oneTwo (keyId : UInt32) : Row (pairsTable keyId) where
  value colId := .int64 (if colId = 0 then 1 else if colId = 1 then 2 else 0)
  typed := by
    intro col hcol
    simp only [pairsTable, List.mem_cons, List.not_mem_nil, or_false] at hcol
    rcases hcol with rfl | rfl | rfl <;> rfl

/-- A database with the empty table, -/
def withPairs (key : String) : DbImpl :=
  (addTable (fun _ => []) (started.addDatabase ⟨"db"⟩ 0).2 ⟨pairs key⟩ 0).2

/-- the request for the pair, -/
def addOneTwo : client.AddRowRequest where
  databaseName := "db"
  tableName := "pairs"
  columnValues := [⟨"left", "1".toList⟩, ⟨"right", "2".toList⟩, ⟨"__internal__lock_mode", "0".toList⟩]

/-- and the database with it. -/
def withOneTwo (key : String) : DbImpl := ((withPairs key).addRow addOneTwo).2

theorem gives_addOneTwo (keyId : UInt32) :
    Transformer.Gives (oneTwo keyId) (pairsTable keyId).columns addOneTwo.columnValues :=
  ⟨_, .refl _, .cons ⟨rfl, rfl⟩ (.cons ⟨rfl, rfl⟩ (.cons ⟨rfl, rfl⟩ .nil))⟩

theorem getRow_finds_added_iff_left :
    (withOneTwo "left").Gets "db" "pairs" (oneTwo 0) := by
  have hadd : (withPairs "left").addRow addOneTwo =
      (.ok [["1".toList, "2".toList, "0".toList]], withOneTwo "left") :=
    Prod.ext (by decide +kernel) rfl
  have hcreate : addTable (fun _ => []) (started.addDatabase ⟨"db"⟩ 0).2 ⟨pairs "left"⟩ 0 =
      (.ok (), withPairs "left") := Prod.ext (by decide +kernel) rfl
  have hentries : ∀ e ∈ (withPairs "left").rocks.entries, ¬ minimumIndexKey (pairsTable 0) 0 <+: e.1 := by
    decide +kernel
  have hown : ∀ e ∈ (withOneTwo "left").rocks.scan (rowKey (pairsTable 0) (oneTwo 0).primaryKey),
      e ∈ (oneTwo 0).entries := by decide +kernel
  refine ((getRow_finds_added_iff hcreate (by decide) (by decide)
    (by decide +kernel) (.cons rfl rfl (gives_addOneTwo 0) hadd (.nil _)) (List.pairwise_singleton _ _)
    List.mem_cons_self).2 ?_).mpr ⟨⟨_, _, rfl, by decide, by decide⟩, ?_, ?_⟩
  · intro key hbegins
    rw [SortedMap.find?_eq_none]
    exact fun value hmem => hentries _ hmem hbegins
  · decide +kernel
  · exact fun entry hentry hother => absurd (hown entry hentry) hother

/-- The request for the pair by its second value. -/
def askRight : client.GetRowRequest where
  databaseName := "db"
  tableName := "pairs"
  primaryKeyValues := [[⟨"right", "2".toList⟩]]

/-- **With the other column as its key the pair is not found.** -/
theorem key_behind_first_column :
    addTable (fun _ => []) (started.addDatabase ⟨"db"⟩ 0).2 ⟨pairs "right"⟩ 0 =
        (.ok (), withPairs "right") ∧
      (withPairs "right").schemaStore.getTable "db" "pairs" = some (pairsTable 1) ∧
      Adds "db" "pairs" (withPairs "right") [oneTwo 1] (withOneTwo "right") ∧
      ¬ (withOneTwo "right").Gets "db" "pairs" (oneTwo 1) := by
  have hadd : (withPairs "right").addRow addOneTwo =
      (.ok [["1".toList, "2".toList, "0".toList]], withOneTwo "right") :=
    Prod.ext (by decide +kernel) rfl
  refine ⟨Prod.ext (by decide +kernel) rfl, by decide +kernel,
    .cons rfl rfl (gives_addOneTwo 1) hadd (.nil _), fun hgets => ?_⟩
  have hasks : Asks askRight (oneTwo 1) :=
    ⟨[⟨1, "right", .int64⟩], .refl _, .cons ⟨rfl, rfl⟩ .nil⟩
  have hnone : (withOneTwo "right").getRow askRight = .ok [] := by decide +kernel
  exact absurd (hnone.symm.trans (hgets _ rfl rfl hasks)) (by simp)

end DbImpl

end ReplicatedCounter.MyDb
