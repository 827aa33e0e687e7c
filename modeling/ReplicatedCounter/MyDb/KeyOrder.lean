import ReplicatedCounter.Lib.Fallible
import ReplicatedCounter.MyDb.RowCodec

/-!
# The writer's primary key and the reader's

`serialize` collects the values of a primary key as it comes to them, in the order of the table's
columns; `serializePrimaryKeys` goes through the columns of the index. Both put the ids of the index
in front, in the order of the index. So the two keys of a row are one if and only if the values in
the two orders have one text, place by place (`firstKeys_iff`), and those of all rows of a schema
only if the index lists its columns in the order of the table (`firstKeys_all_iff`).
-/

set_option autoImplicit false

namespace ReplicatedCounter.MyDb

open KeySerializer RowSerializer

variable {table : Table}

/-- `serializePrimaryKeys` returns the first key of every row that is written. -/
def FirstKeys (table : Table) (arrowTable : ArrowTable) (raws : List RawTableRow) : Prop :=
  ∃ keys, serializePrimaryKeys table arrowTable = .ok keys ∧
    raws.map (fun raw => (raw.map (·.1)).head?) = keys.map some

/-- In a row, the column and the one with this id have values with one text. -/
def SameText (table : Table) (arrowTable : ArrowTable) (chunkIdx rowIdx : Nat) (col : Column)
    (colId : UInt32) : Prop :=
  ∃ value value', arrowTable.value col chunkIdx rowIdx = .ok value ∧
    valueOfId table arrowTable chunkIdx rowIdx colId = .ok value' ∧ value.toString = value'.toString

/-! ## One row -/

theorem head?_rawTableRow {values : List (Column × ColumnValue)} {raw : RawTableRow}
    (h : rawTableRow table values = .ok raw) :
    ∃ key, primaryKey table (primaryIdxValues table values) = .ok key ∧
      (raw.map (·.1)).head? = some key := by
  unfold rawTableRow at h
  obtain ⟨key, hkey, h⟩ := Fallible.bind_eq_ok.mp h
  obtain ⟨secondaryKeys, -, h⟩ := Fallible.bind_eq_ok.mp h
  cases h
  exact ⟨key, hkey, rfl⟩

/-- Only the texts of the values are in a key. -/
theorem keyParts_congr {columnIds : List UInt32} {values values' : List ColumnValue}
    (h : values.map ColumnValue.toString = values'.map ColumnValue.toString) :
    keyParts columnIds values = keyParts columnIds values' := by
  induction columnIds generalizing values values' with
  | nil => rfl
  | cons colId columnIds ih =>
    cases values with
    | nil =>
      rw [List.map_nil, eq_comm, List.map_eq_nil_iff] at h
      rw [h]
    | cons value values =>
      cases values' with
      | nil => cases h
      | cons value' values' =>
        rw [List.map_cons, List.map_cons, List.cons.injEq] at h
        rw [keyParts, keyParts, h.1, ih h.2]

/-- **Two lists of values give one primary key if and only if they have the same texts.** -/
theorem primaryKey_eq_iff {values values' : List ColumnValue} {key : Bytes}
    (h : primaryKey table values = .ok key) :
    primaryKey table values' = .ok key ↔
      values.map ColumnValue.toString = values'.map ColumnValue.toString := by
  unfold primaryKey at h ⊢
  split at h
  · rename_i hlen
    cases h
    constructor
    · intro h'
      split at h'
      · rename_i hlen'
        have hparts := List.append_cancel_left (Except.ok.inj h')
        refine (keyParts_append_inj hlen.symm hlen'.symm separated_nil separated_nil ?_).1
        rw [hparts]
      · cases h'
    · intro htexts
      have hlen' := congrArg List.length htexts
      rw [List.length_map, List.length_map] at hlen'
      rw [if_pos (hlen.trans hlen'), keyParts_congr htexts]
  · cases h

section row

variable {arrowTable : ArrowTable} {chunkIdx rowIdx : Nat} {values : List (Column × ColumnValue)}

/-- The writer has the values of the columns of the primary key. -/
theorem mapM_primaryKeyColumns
    (hvalues : (table.columns.mapM fun col => do
      return (col, ← arrowTable.value col chunkIdx rowIdx)) = .ok values) :
    (table.primaryKeyColumns.mapM fun col => arrowTable.value col chunkIdx rowIdx) =
      .ok (primaryIdxValues table values) := by
  rw [Fallible.mapM_eq_ok] at hvalues ⊢
  unfold Table.primaryKeyColumns primaryIdxValues
  rw [List.forall₂_map_right_iff]
  have hfirst : List.Forall₂ (fun col v => arrowTable.value col chunkIdx rowIdx = .ok v.2 ∧ v.1 = col)
      table.columns values := by
    refine hvalues.imp fun col v hv => ?_
    obtain ⟨value, hvalue, hpair⟩ := Fallible.bind_eq_ok.mp hv
    cases hpair
    exact ⟨hvalue, rfl⟩
  refine (List.rel_filter ?_ hfirst).imp fun col v hv => hv.1
  rintro col v ⟨-, rfl⟩
  rfl

/-- **The two keys of a row.** -/
theorem primaryKeys_eq_iff {key : Bytes}
    (hvalues : (table.columns.mapM fun col => do
      return (col, ← arrowTable.value col chunkIdx rowIdx)) = .ok values)
    (hkey : primaryKey table (primaryIdxValues table values) = .ok key) :
    (table.primaryKeyIndex.columnIds.mapM (valueOfId table arrowTable chunkIdx rowIdx) >>=
        primaryKey table) = .ok key ↔
      List.Forall₂ (SameText table arrowTable chunkIdx rowIdx) table.primaryKeyColumns
        table.primaryKeyIndex.columnIds := by
  rw [Fallible.bind_eq_ok]
  refine Iff.trans ?_ (Fallible.mapM_same_iff (mapM_primaryKeyColumns hvalues))
  exact exists_congr fun values' => and_congr_right fun _ => primaryKey_eq_iff hkey

end row

/-! ## Whole tables -/

/-- **Writer and reader build the same primary keys if and only if, in every row, the values of the
primary key in the order of the table's columns have the texts of those in the order of the
index.** -/
theorem firstKeys_iff {arrowTable : ArrowTable} {raws : List RawTableRow}
    (h : serialize table arrowTable = .ok raws) :
    FirstKeys table arrowTable raws ↔
      ∀ rowIdx chunkIdx, (rowIdx, chunkIdx) ∈ arrowTable.positions →
        List.Forall₂ (SameText table arrowTable chunkIdx rowIdx) table.primaryKeyColumns
          table.primaryKeyIndex.columnIds := by
  unfold FirstKeys serializePrimaryKeys
  rw [Fallible.mapM_same_iff h, List.forall₂_same, Prod.forall]
  refine forall₂_congr fun rowIdx chunkIdx => forall_congr' fun hmem => ?_
  obtain ⟨raw, -, hraw⟩ := Fallible.exists_of_mem_mapM_left h hmem
  dsimp only at hraw ⊢
  obtain ⟨values, hvalues, hrow⟩ := Fallible.bind_eq_ok.mp hraw
  obtain ⟨key, hkey, hfirst⟩ := head?_rawTableRow hrow
  rw [← primaryKeys_eq_iff hvalues hkey]
  constructor
  · rintro ⟨raw', key', hraw', hreader, hsame⟩
    cases hraw.symm.trans hraw'
    rw [hfirst] at hsame
    cases hsame
    exact hreader
  · intro hreader
    exact ⟨raw, key, hraw, hreader, hfirst⟩

/-- Pairs, with the primary key in the other order. -/
def pairsTable : Table where
  id := 1
  dbId := 1
  columns := [⟨1, "left", .int64⟩, ⟨2, "right", .string⟩]
  primaryKeyIndex := ⟨0, [2, 1]⟩
  secondaryIndex := []

def pairRow (left : Int64) (right : String) : ArrowTable where
  fields := ["left", "right"]
  columns := [[[.int64 left]], [[.string right.toList]]]

theorem firstKeys_same_text :
    ∃ raws, serialize pairsTable (pairRow 7 "7") = .ok raws ∧
      FirstKeys pairsTable (pairRow 7 "7") raws := by
  refine ⟨_, rfl, (firstKeys_iff rfl).mpr fun rowIdx chunkIdx hmem => ?_⟩
  obtain ⟨rfl, rfl⟩ : rowIdx = 0 ∧ chunkIdx = 0 := by
    simpa [ArrowTable.positions, ArrowTable.numRows, ArrowTable.numChunks, pairRow] using hmem
  exact .cons ⟨_, _, rfl, rfl, rfl⟩ (.cons ⟨_, _, rfl, rfl, rfl⟩ .nil)

/-- **The writer puts the left one under the id of the right one.** -/
theorem key_columns_swapped :
    (serialize pairsTable (pairRow 1 "b")).map (fun raws => raws.map fun raw => (raw.map (·.1)).head?) =
        .ok [some "0001/0001/0000/0002/1/0001/b".toList] ∧
      serializePrimaryKeys pairsTable (pairRow 1 "b") =
        .ok ["0001/0001/0000/0002/b/0001/1".toList] :=
  ⟨by decide +kernel, by decide +kernel⟩

/-! ## Whole schemas -/

/-- The value of a row under an id of the index. -/
theorem valueOfId_arrowTable (hnames : (table.columns.map (·.name)).Nodup) {rows : List (Row table)}
    {rowIdx : Nat} {row : Row table} (hrow : rows[rowIdx]? = some row) {colId : UInt32}
    {value : ColumnValue}
    (h : valueOfId table (arrowTable table.columns rows) 0 rowIdx colId = .ok value) :
    value = row.value colId := by
  unfold valueOfId at h
  cases hcol : table.getColumn colId with
  | none =>
    rw [hcol] at h
    cases h
  | some col =>
    have hmem := List.mem_reverse.mp (List.mem_of_find?_eq_some hcol)
    have hid : col.id = colId := by simpa using List.find?_some hcol
    rw [hcol] at h
    dsimp only at h
    rw [value_arrowTable hnames hmem hmem hrow] at h
    rw [← Except.ok.inj h, hid]

section schema

variable (hids : (table.columns.map (·.id)).Nodup)

/-- A row that has a mark in one column. -/
def markRow (colId : UInt32) : Row table where
  value k :=
    match table.getColumnType k with
    | some .string => .string (if k = colId then ['1'] else ['0'])
    | _ => .int64 (if k = colId then 1 else 0)
  typed col hcol := by
    rw [getColumnType_of_nodup hids hcol]
    cases col.columnType with
    | int64 => rfl
    | string => rfl

theorem toString_markRow (colId k : UInt32) :
    ((markRow hids colId).value k).toString = if k = colId then ['1'] else ['0'] := by
  unfold markRow
  dsimp only
  split
  · rfl
  · split
    · decide
    · decide

include hids in
/-- **All rows of a schema have one primary key for writer and reader if and only if the index lists
its columns in the order of the table.** -/
theorem firstKeys_all_iff (hcolumns : table.columns ≠ []) (htable : Serializable table) :
    (∀ (rows : List (Row table)) (raws : List RawTableRow),
      serialize table (arrowTable table.columns rows) = .ok raws →
        FirstKeys table (arrowTable table.columns rows) raws) ↔
      table.primaryKeyIndex.columnIds = table.primaryKeyColumns.map (·.id) := by
  constructor
  · intro h
    have hsame : ∀ colId, List.Forall₂
        (SameText table (arrowTable table.columns [markRow hids colId]) 0 0)
          table.primaryKeyColumns table.primaryKeyIndex.columnIds := by
      intro colId
      obtain ⟨raw, hraw⟩ := htable.rawTableRow_ok (markRow hids colId)
      have hserialize : serialize table (arrowTable table.columns [markRow hids colId]) =
          .ok [raw] := by
        refine (serialize_ok_iff hcolumns).mpr ⟨.inr htable.names, ?_⟩
        rw [List.mapM_cons, hraw]
        rfl
      refine (firstKeys_iff hserialize).mp (h _ _ hserialize) 0 0 ?_
      rw [positions_arrowTable hcolumns]
      exact List.mem_cons_self
    -- the mark in the column of either list has to be in the same place of the other one
    have hforall : List.Forall₂ (fun col colId => colId = col.id) table.primaryKeyColumns
        table.primaryKeyIndex.columnIds := by
      rw [List.forall₂_iff_get]
      refine ⟨htable.primaryKey, fun i hi hi' => ?_⟩
      have hcol : table.primaryKeyColumns.get ⟨i, hi⟩ ∈ table.columns :=
        (List.mem_filter.mp (List.get_mem _ _)).1
      obtain ⟨value, value', hvalue, hvalue', htext⟩ :=
        (hsame (table.primaryKeyColumns.get ⟨i, hi⟩).id).get hi hi'
      rw [value_arrowTable htable.names hcol hcol rfl] at hvalue
      rw [← Except.ok.inj hvalue, valueOfId_arrowTable htable.names rfl hvalue', toString_markRow,
        toString_markRow, if_pos rfl] at htext
      by_contra hne
      rw [if_neg hne] at htext
      cases htext
    rw [← List.forall₂_eq_eq_eq, List.forall₂_map_right_iff]
    exact hforall.flip.imp fun colId col hid => hid
  · intro hlisted rows raws hserialize
    refine (firstKeys_iff hserialize).mpr fun rowIdx chunkIdx hmem => ?_
    rw [positions_arrowTable hcolumns, List.mem_map] at hmem
    obtain ⟨_, hrange, hpair⟩ := hmem
    cases hpair
    obtain ⟨row, hrow⟩ : ∃ row, rows[rowIdx]? = some row :=
      ⟨_, List.getElem?_eq_getElem (List.mem_range.mp hrange)⟩
    rw [hlisted, List.forall₂_map_right_iff, List.forall₂_same]
    intro col hcol
    have hcol' : col ∈ table.columns := (List.mem_filter.mp hcol).1
    have hvalue := value_arrowTable htable.names hcol' hcol' hrow
    refine ⟨_, _, hvalue, ?_, rfl⟩
    unfold valueOfId
    rw [getColumn_of_nodup hids hcol']
    exact hvalue

end schema

end ReplicatedCounter.MyDb
