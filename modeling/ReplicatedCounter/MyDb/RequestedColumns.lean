import Mathlib.Data.List.Sort
import ReplicatedCounter.MyDb.DbImpl
import ReplicatedCounter.MyDb.RowCodec
import ReplicatedCounter.MyDb.TableIds

/-!
# The columns of a request

The values of a request go into one array for each column of the table. For a column it does not name
the array stays empty, and the table that comes out has as many rows as the first array has values:
without the first column there is no row, whatever else is there (`numRows_requestTable`). A column
whose name a later one has as well gets nothing either.
-/

set_option autoImplicit false

namespace ReplicatedCounter.MyDb

open RowSerializer

variable {table : Table}

/-! ## Tables of one array for each column -/

/-- A table as it is made of a request. -/
def requestTable (table : Table) (arrays : UInt32 → List ColumnValue) : ArrowTable where
  fields := table.columns.map (·.name)
  columns := table.columns.map fun col => [arrays col.id]

theorem idOrder_of_sorted (hids : (table.columns.map (·.id)).Pairwise (· < ·)) :
    table.idOrder = table.columns.map (·.id) :=
  (perm_idOrder (hids.imp fun hlt => hlt.ne)).eq_of_pairwise' sorted_idOrder hids

/-- With columns in the order of their ids, arrays in that order are the columns' own. -/
theorem requestTable_of_sorted (hids : (table.columns.map (·.id)).Pairwise (· < ·))
    (arrays : UInt32 → List ColumnValue) :
    ({ fields := table.columns.map (·.name)
       columns := table.idOrder.map fun colId => [arrays colId] } : ArrowTable) =
      requestTable table arrays := by
  unfold requestTable
  rw [idOrder_of_sorted hids, List.map_map]
  rfl

section shape

variable {first : Column} {rest : List Column} (hcolumns : table.columns = first :: rest)
  (arrays : UInt32 → List ColumnValue)

include hcolumns in
/-- **The first column says how many rows there are.** -/
theorem numRows_requestTable : (requestTable table arrays).numRows = (arrays first.id).length := by
  unfold ArrowTable.numRows requestTable
  rw [hcolumns]
  simp

include hcolumns in
theorem positions_requestTable : (requestTable table arrays).positions =
    (List.range (arrays first.id).length).map fun rowIdx => (rowIdx, 0) := by
  have hchunks : (requestTable table arrays).numChunks = 1 := by
    unfold ArrowTable.numChunks requestTable
    rw [hcolumns]
    rfl
  unfold ArrowTable.positions
  rw [numRows_requestTable hcolumns, hchunks, List.map_eq_flatMap]
  rfl

end shape

theorem value_requestTable_iff (hnames : (table.columns.map (·.name)).Nodup) {col : Column}
    (hcol : col ∈ table.columns) {arrays : UInt32 → List ColumnValue} {rowIdx : Nat}
    {value : ColumnValue} : (requestTable table arrays).value col 0 rowIdx = .ok value ↔
      (arrays col.id)[rowIdx]? = some value ∧ value.columnType = col.columnType := by
  unfold ArrowTable.value requestTable
  rw [getColumnByName_map hnames hcol]
  dsimp only
  rw [List.getElem?_cons_zero]
  dsimp only
  cases (arrays col.id)[rowIdx]? with
  | none => simp
  | some found =>
    dsimp only
    split
    · rename_i htype
      rw [Except.ok.injEq, Option.some.injEq]
      exact (and_iff_left_of_imp fun heq => heq ▸ htype).symm
    · rename_i htype
      refine iff_of_false (by simp) fun ⟨heq, htype'⟩ => htype ?_
      rw [Option.some.inj heq]
      exact htype'

namespace Transformer

/-! ## What a request gives -/

/-- A value in a request, as a column of the type takes it. -/
def readText (text : Bytes) : ColumnType → Except ExecutionError ColumnValue
  | .int64 => do return .int64 (← toInt64 text)
  | .string => .ok (.string text)

/-- What the body of the loop in `from(columnValues, schema)` appends, and to which column. -/
def readColumnValue (table : Table) (columnValue : client.ColumnValue) :
    Except ExecutionError (UInt32 × ColumnValue) :=
  match table.getColumnId columnValue.name with
  | none => throw .outOfRange
  | some colId =>
    match table.getColumnType colId with
    | none => throw .undefinedBehaviour
    | some columnType => do return (colId, ← readText columnValue.value columnType)

/-- The values among some cells that are those of a column. -/
def valuesOf (cells : List (UInt32 × ColumnValue)) (colId : UInt32) : List ColumnValue :=
  (cells.filter (·.1 = colId)).map (·.2)

theorem appendColumnValue_bind (colBuilder : SortedMap UInt32 (List ColumnValue))
    (columnValue : client.ColumnValue) :
    appendColumnValue table colBuilder columnValue =
      (readColumnValue table columnValue >>= fun cell =>
        .ok ((some cell).elim colBuilder fun c => append colBuilder c.1 c.2)) := by
  unfold appendColumnValue readColumnValue
  cases table.getColumnId columnValue.name with
  | none => rfl
  | some colId =>
    dsimp only
    cases table.getColumnType colId with
    | none => rfl
    | some columnType =>
      cases columnType with
      | string => rfl
      | int64 =>
        unfold readText
        dsimp only
        cases toInt64 columnValue.value <;> rfl

theorem readColumnValue_mem {columnValue : client.ColumnValue} {cell : UInt32 × ColumnValue}
    (h : readColumnValue table columnValue = .ok cell) :
    table.getColumnId columnValue.name = some cell.1 ∧ cell.1 ∈ table.columns.map (·.id) := by
  unfold readColumnValue at h
  cases hcolId : table.getColumnId columnValue.name with
  | none =>
    rw [hcolId] at h
    cases h
  | some colId =>
    rw [hcolId] at h
    dsimp only at h
    cases htype : table.getColumnType colId with
    | none =>
      rw [htype] at h
      cases h
    | some columnType =>
      have hmem := mem_of_getColumnType htype
      rw [htype] at h
      obtain ⟨value, -, h⟩ := Fallible.bind_eq_ok.mp h
      cases h
      exact ⟨rfl, hmem⟩

/-- **A request is read** value by value, and its values sorted into the columns. -/
theorem fromColumnValues_ok_iff {columnValues : List (List client.ColumnValue)}
    {result : ArrowTable} :
    fromColumnValues columnValues table = .ok result ↔
      table.columns ≠ [] ∧ (table.columns.map (·.id)).Nodup ∧
        ∃ cells, columnValues.flatten.mapM (readColumnValue table) = .ok cells ∧ result =
          { fields := table.columns.map (·.name)
            columns := table.idOrder.map fun colId => [valuesOf cells colId] } := by
  have hbuilders : ∀ cells : List (UInt32 × ColumnValue), cells.foldl
      (fun colBuilder cell => (some cell).elim colBuilder fun c => append colBuilder c.1 c.2)
        (getHeader table) = appendCells (getHeader table) (cells.map some) := by
    intro cells
    unfold appendCells
    rw [List.reduceOption, List.filterMap_map]
    simp
  have hentries : ∀ cells, columnValues.flatten.mapM (readColumnValue table) = .ok cells →
      (appendCells (getHeader table) (cells.map some)).entries.map (·.2) =
        table.idOrder.map (valuesOf cells) := by
    intro cells hcells
    have hsome : (cells.map some).reduceOption = cells := by
      rw [List.reduceOption, List.filterMap_map]
      simp
    rw [entries_appendCells]
    · refine List.map_congr_left fun colId _ => ?_
      unfold cellsOf valuesOf
      rw [hsome]
    · intro c hc
      rw [hsome] at hc
      obtain ⟨columnValue, -, hread⟩ := Fallible.exists_of_mem_mapM hcells hc
      exact (readColumnValue_mem hread).2
  unfold fromColumnValues
  constructor
  · intro h
    obtain ⟨colBuilder, hfold, h⟩ := Fallible.bind_eq_ok.mp h
    obtain ⟨cells, hcells, rfl⟩ := (Fallible.foldlM_eq_ok_iff appendColumnValue_bind).mp hfold
    rw [hbuilders, hentries cells hcells] at h
    obtain ⟨hcolumns, hids, hresult⟩ := arrays_ok_iff.mp h
    exact ⟨hcolumns, hids, cells, hcells, hresult⟩
  · rintro ⟨hcolumns, hids, cells, hcells, hresult⟩
    refine Fallible.bind_eq_ok.mpr
      ⟨_, (Fallible.foldlM_eq_ok_iff appendColumnValue_bind).mpr ⟨cells, hcells, rfl⟩, ?_⟩
    rw [hbuilders, hentries cells hcells]
    exact arrays_ok_iff.mpr ⟨hcolumns, hids, hresult⟩

/-! ## Some columns of a row -/

/-- The values of a request for some columns of a row: one for each, in any order, under the name of
its column and with a text that is read as the value. -/
def Gives (row : Row table) (columns : List Column) (columnValues : List client.ColumnValue) : Prop :=
  ∃ given, given.Perm columns ∧ List.Forall₂ (fun columnValue col =>
    columnValue.name = col.name ∧
      readText columnValue.value col.columnType = .ok (row.value col.id)) columnValues given

theorem readText_toString (value : ColumnValue) :
    readText value.toString value.columnType = .ok value := by
  cases value with
  | int64 value =>
    unfold ColumnValue.columnType readText
    dsimp only
    rw [toInt64_toString]
    rfl
  | string value => rfl

/-- There always is such a request. -/
theorem gives_toString (row : Row table) {columns : List Column}
    (hcolumns : ∀ col ∈ columns, col ∈ table.columns) :
    Gives row columns (columns.map fun col => ⟨col.name, (row.value col.id).toString⟩) := by
  refine ⟨columns, .refl _, ?_⟩
  rw [List.forall₂_map_left_iff, List.forall₂_same]
  intro col hcol
  refine ⟨rfl, ?_⟩
  rw [← row.typed col (hcolumns col hcol)]
  exact readText_toString _

theorem readColumnValue_eq (hids : (table.columns.map (·.id)).Nodup) {row : Row table}
    {col : Column} (hcol : col ∈ table.columns) {columnValue : client.ColumnValue}
    (hcolId : table.getColumnId columnValue.name = some col.id)
    (hread : readText columnValue.value col.columnType = .ok (row.value col.id)) :
    readColumnValue table columnValue = .ok (col.id, row.value col.id) := by
  unfold readColumnValue
  rw [hcolId]
  dsimp only
  rw [getColumnType_of_nodup hids hcol]
  dsimp only
  rw [hread]
  rfl

/-- The array of a column that is given has its value, the others have none. -/
theorem valuesOf_given {row : Row table} {given : List Column} (hids : (given.map (·.id)).Nodup)
    (colId : UInt32) : valuesOf (given.map fun col => (col.id, row.value col.id)) colId =
      if colId ∈ given.map (·.id) then [row.value colId] else [] := by
  unfold valuesOf
  rw [List.filter_map, List.map_map]
  split
  · rename_i hmem
    obtain ⟨col, hcol, rfl⟩ := List.mem_map.mp hmem
    have hfilter : given.filter ((fun c : UInt32 × ColumnValue => decide (c.1 = col.id)) ∘
        fun c => (c.id, row.value c.id)) = [col] := filter_name hids hcol
    rw [hfilter]
    rfl
  · rename_i hnot
    rw [List.map_eq_nil_iff, List.filter_eq_nil_iff]
    intro col hcol heq
    refine hnot (List.mem_map.mpr ⟨col, hcol, ?_⟩)
    simpa using heq

/-- **With columns that are told apart by their names**, every given value is in the array of its
column. -/
theorem fromColumnValues_gives (hids : (table.columns.map (·.id)).Pairwise (· < ·))
    (hnames : (table.columns.map (·.name)).Nodup) (hcolumns : table.columns ≠ []) {row : Row table}
    {columns : List Column} (hsub : columns.Sublist table.columns)
    {columnValues : List (List client.ColumnValue)} (hgives : Gives row columns columnValues.flatten) :
    fromColumnValues columnValues table = .ok (requestTable table fun colId =>
      if colId ∈ columns.map (·.id) then [row.value colId] else []) := by
  obtain ⟨given, hperm, hvalues⟩ := hgives
  have hnodup : (table.columns.map (·.id)).Nodup := hids.imp fun hlt => hlt.ne
  have hmem : ∀ col ∈ given, col ∈ table.columns := fun col hcol => hsub.subset (hperm.subset hcol)
  have hcells : columnValues.flatten.mapM (readColumnValue table) =
      .ok (given.map fun col => (col.id, row.value col.id)) := by
    rw [Fallible.mapM_eq_ok, List.forall₂_map_right_iff]
    refine ((List.forall₂_and_left _ _).mpr ⟨hmem, hvalues.flip⟩).flip.imp ?_
    intro columnValue col ⟨hcol, hname, hread⟩
    refine readColumnValue_eq hnodup hcol ?_ hread
    rw [hname]
    exact getColumnId_of_nodup hnames hcol
  have hgivenIds : (given.map (·.id)).Perm (columns.map (·.id)) := hperm.map _
  have hgiven : (given.map (·.id)).Nodup :=
    hgivenIds.nodup_iff.mpr (hnodup.sublist (hsub.map _))
  refine fromColumnValues_ok_iff.mpr ⟨hcolumns, hnodup, _, hcells, ?_⟩
  unfold requestTable
  rw [idOrder_of_sorted hids, List.map_map]
  congr 1
  refine List.map_congr_left fun col _ => ?_
  dsimp only [Function.comp_apply]
  rw [valuesOf_given hgiven]
  simp only [hgivenIds.mem_iff]

/-! ## The first column's name -/

/-- A column with a name that a later one has gets nothing. -/
theorem getColumnId_ne_first (hids : (table.columns.map (·.id)).Nodup) {first : Column}
    {rest : List Column} (hcolumns : table.columns = first :: rest)
    (hlater : first.name ∈ rest.map (·.name)) (name : String) :
    table.getColumnId name ≠ some first.id := by
  rw [hcolumns, List.map_cons] at hids
  obtain ⟨hnot, -⟩ := List.nodup_cons.mp hids
  intro h
  unfold Table.getColumnId at h
  rw [hcolumns, List.reverse_cons, List.find?_append] at h
  obtain ⟨col, hfind, hid⟩ := Option.map_eq_some_iff.mp h
  cases hrest : rest.reverse.find? (·.name = name) with
  | some col' =>
    rw [hrest] at hfind
    cases hfind
    have hcol := List.mem_reverse.mp (List.mem_of_find?_eq_some hrest)
    exact hnot (hid ▸ List.mem_map_of_mem hcol)
  | none =>
    -- it would be the first column itself, which is not the last one of its name
    rw [hrest, Option.none_or] at hfind
    have hfirst : first.name = name := by
      have hname : col.name = name := by simpa using List.find?_some hfind
      obtain rfl := List.mem_singleton.mp (List.mem_of_find?_eq_some hfind)
      exact hname
    obtain ⟨later, hmem, hlater⟩ := List.mem_map.mp hlater
    refine List.find?_eq_none.mp hrest later (List.mem_reverse.mpr hmem) ?_
    simpa using hlater.trans hfirst

/-- **A request that gives the first column nothing** has no row. -/
theorem numRows_eq_zero {first : Column} {rest : List Column}
    (hcolumns : table.columns = first :: rest)
    (hids : (table.columns.map (·.id)).Pairwise (· < ·))
    {columnValues : List (List client.ColumnValue)} {result : ArrowTable}
    (h : fromColumnValues columnValues table = .ok result)
    (hnone : ∀ columnValue ∈ columnValues.flatten,
      table.getColumnId columnValue.name ≠ some first.id) : result.numRows = 0 := by
  obtain ⟨-, -, cells, hcells, rfl⟩ := fromColumnValues_ok_iff.mp h
  have hempty : valuesOf cells first.id = [] := by
    unfold valuesOf
    rw [List.map_eq_nil_iff, List.filter_eq_nil_iff]
    intro cell hcell hid
    obtain ⟨columnValue, hmem, hread⟩ := Fallible.exists_of_mem_mapM hcells hcell
    refine hnone columnValue hmem ?_
    rw [(readColumnValue_mem hread).1]
    simpa using hid
  rw [requestTable_of_sorted hids, numRows_requestTable hcolumns, hempty]
  rfl

end Transformer

end ReplicatedCounter.MyDb
