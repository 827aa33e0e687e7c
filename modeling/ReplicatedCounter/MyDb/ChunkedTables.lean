import Mathlib.Algebra.Order.BigOperators.Group.List
import Mathlib.Algebra.Order.Ring.Nat
import ReplicatedCounter.MyDb.RequestTransformer

/-!
# Tables in several chunks

`Transformer::from(InternalTable)` and `RowSerializer::serialize` go over the rows of the whole table
and, inside, over the chunks, and read every chunk at the index of the row in the table. With one
chunk that is the row. **With two, one of them is shorter than the table, and the last row is read
behind its end.** A table with as many chunks as one likes is read right only if it has no rows.
-/

set_option autoImplicit false

namespace ReplicatedCounter.MyDb

open RowSerializer

namespace ArrowTable

/-- A row of a table: what its columns have there, in whatever chunks. -/
def row (arrowTable : ArrowTable) (rowIdx : Nat) : List ColumnValue :=
  arrowTable.columns.filterMap (·.flatten[rowIdx]?)

/-- Every read of a chunk is at an index that the chunk has. -/
def InBounds (arrowTable : ArrowTable) : Prop :=
  ∀ position ∈ arrowTable.positions, ∀ column ∈ arrowTable.columns,
    ∃ chunk, column[position.2]? = some chunk ∧ position.1 < chunk.length

end ArrowTable

/-- An `InternalTable`: the columns of the Arrow table are those of the schema, and all of them are
cut into chunks of the same lengths. -/
structure SameChunks (table : Table) (arrowTable : ArrowTable) (lengths : List Nat) : Prop where
  fields : arrowTable.fields = table.columns.map (·.name)
  typed : List.Forall₂ (fun col column => ∀ chunk ∈ column, ∀ value ∈ chunk,
    value.columnType = col.columnType) table.columns arrowTable.columns
  lengths : ∀ column ∈ arrowTable.columns, column.map List.length = lengths

/-- The rows come out one by one, in the order of the table, and are read where they are. -/
def RowByRow (table : Table) (arrowTable : ArrowTable) : Prop :=
  Transformer.toTableRows table arrowTable = .ok ((List.range arrowTable.numRows).map fun rowIdx =>
    (arrowTable.row rowIdx).map ColumnValue.toString) ∧
  serialize table arrowTable = (List.range arrowTable.numRows).mapM (fun rowIdx =>
    rawTableRow table (table.columns.zip (arrowTable.row rowIdx))) ∧
  arrowTable.InBounds

variable {table : Table} {arrowTable : ArrowTable} {lengths : List Nat}

/-! ## The loops -/

theorem mem_positions {rowIdx chunkIdx : Nat} : (rowIdx, chunkIdx) ∈ arrowTable.positions ↔
    rowIdx < arrowTable.numRows ∧ chunkIdx < arrowTable.numChunks := by
  unfold ArrowTable.positions
  simp

theorem positions_of_numRows (h : arrowTable.numRows = 0) : arrowTable.positions = [] := by
  unfold ArrowTable.positions
  rw [h]
  rfl

theorem positions_of_numChunks (h : arrowTable.numChunks = 1) :
    arrowTable.positions = (List.range arrowTable.numRows).map fun rowIdx => (rowIdx, 0) := by
  unfold ArrowTable.positions
  rw [h, List.map_eq_flatMap]
  rfl

/-- The first column tells how many chunks there are, and how long they are. -/
theorem SameChunks.numRows_eq (h : SameChunks table arrowTable lengths) {column : ChunkedArray}
    (hcolumn : column ∈ arrowTable.columns) :
    arrowTable.numRows = lengths.sum ∧ arrowTable.numChunks = lengths.length := by
  unfold ArrowTable.numRows ArrowTable.numChunks
  cases hcolumns : arrowTable.columns with
  | nil =>
    rw [hcolumns] at hcolumn
    exact absurd hcolumn List.not_mem_nil
  | cons first columns =>
    have hfirst := h.lengths first (by rw [hcolumns]; exact List.mem_cons_self)
    refine ⟨congrArg List.sum hfirst, ?_⟩
    rw [← hfirst, List.length_map]

/-- **Of several chunks one is read behind its end**, unless all are empty. -/
theorem SameChunks.of_inBounds (h : SameChunks table arrowTable lengths)
    (hbounds : arrowTable.InBounds) : arrowTable.numRows = 0 ∨ arrowTable.numChunks = 1 := by
  rcases Nat.eq_zero_or_pos arrowTable.numRows with hzero | hpos
  · exact .inl hzero
  obtain ⟨column, hcolumn⟩ : ∃ column, column ∈ arrowTable.columns := by
    unfold ArrowTable.numRows at hpos
    cases hcolumns : arrowTable.columns with
    | nil =>
      rw [hcolumns] at hpos
      exact absurd hpos (lt_irrefl _)
    | cons first columns => exact ⟨first, List.mem_cons_self⟩
  obtain ⟨hrows, hchunks⟩ := h.numRows_eq hcolumn
  -- every chunk is as long as the table
  have hlong : ∀ length ∈ lengths, arrowTable.numRows ≤ length := by
    intro length hlength
    rw [← h.lengths column hcolumn] at hlength
    obtain ⟨chunk, hchunk, rfl⟩ := List.mem_map.mp hlength
    obtain ⟨chunkIdx, hlt, rfl⟩ := List.getElem_of_mem hchunk
    have hposition : (arrowTable.numRows - 1, chunkIdx) ∈ arrowTable.positions := by
      rw [mem_positions, hchunks, ← h.lengths column hcolumn, List.length_map]
      exact ⟨Nat.sub_lt hpos Nat.one_pos, hlt⟩
    obtain ⟨chunk, hchunk, hindex⟩ := hbounds _ hposition column hcolumn
    rw [List.getElem?_eq_getElem hlt] at hchunk
    obtain rfl := Option.some.inj hchunk
    exact Nat.le_of_pred_lt hindex
  have hsum : lengths.length * arrowTable.numRows ≤ lengths.sum :=
    List.card_nsmul_le_sum lengths arrowTable.numRows hlong
  rw [← hrows] at hsum
  have hle : lengths.length ≤ 1 := Nat.le_of_mul_le_mul_right (by rwa [Nat.one_mul]) hpos
  have hne : lengths.length ≠ 0 := by
    intro hnil
    rw [List.length_eq_zero_iff] at hnil
    rw [hrows, hnil] at hpos
    exact absurd hpos (lt_irrefl _)
  exact .inr (by omega)

/-! ## One chunk -/

/-- A name that is found is that of one column only. -/
theorem nodup_of_filter {α : Type} {l : List α} {name : α → String}
    (h : ∀ a ∈ l, ∃ b, l.filter (name · = name a) = [b]) : (l.map name).Nodup := by
  rw [List.nodup_iff_count_le_one]
  intro text
  by_cases hmem : text ∈ l.map name
  · obtain ⟨a, ha, rfl⟩ := List.mem_map.mp hmem
    obtain ⟨b, hb⟩ := h a ha
    rw [List.count_eq_countP, List.countP_map, List.countP_eq_length_filter]
    refine le_of_eq (Eq.trans (congrArg List.length (List.filter_congr fun c _ => ?_))
      (congrArg List.length hb))
    exact beq_eq_decide _ _
  · rw [List.count_eq_zero_of_not_mem hmem]
    exact Nat.zero_le _

theorem SameChunks.map_zip (h : SameChunks table arrowTable lengths) :
    (arrowTable.fields.zip arrowTable.columns).map (·.1) = table.columns.map (·.name) := by
  rw [List.map_fst_zip]
  · exact h.fields
  · rw [h.fields, List.length_map, h.typed.length_eq]

/-- A column that can be read has its name for itself. -/
theorem getColumnByName_of_value {col : Column} {chunkIdx rowIdx : Nat} {value : ColumnValue}
    (h : arrowTable.value col chunkIdx rowIdx = .ok value) :
    ∃ entry, (arrowTable.fields.zip arrowTable.columns).filter (·.1 = col.name) = [entry] := by
  unfold ArrowTable.value ArrowTable.getColumnByName at h
  rcases hfilter : (arrowTable.fields.zip arrowTable.columns).filter (·.1 = col.name) with
    _ | ⟨entry, _ | ⟨entry', entries⟩⟩
  · rw [hfilter] at h
    cases h
  · exact ⟨entry, hfilter⟩
  · rw [hfilter] at h
    cases h

/-- **The names of the columns must differ**, if there is a row to be read. -/
theorem SameChunks.names_nodup (h : SameChunks table arrowTable lengths)
    {rows : List (List Bytes)} (hrows : Transformer.toTableRows table arrowTable = .ok rows)
    (hpos : 0 < arrowTable.numRows) (hchunks : arrowTable.numChunks = 1) :
    (table.columns.map (·.name)).Nodup := by
  unfold Transformer.toTableRows at hrows
  have hposition : (0, 0) ∈ arrowTable.positions := by
    rw [mem_positions, hchunks]
    exact ⟨hpos, Nat.one_pos⟩
  obtain ⟨row, -, hrow⟩ := Fallible.exists_of_mem_mapM_left hrows hposition
  rw [← h.map_zip]
  refine nodup_of_filter fun entry hentry => ?_
  have hname := List.mem_map_of_mem (f := (·.1)) hentry
  rw [h.map_zip] at hname
  obtain ⟨col, hcol, hname⟩ := List.mem_map.mp hname
  obtain ⟨text, -, htext⟩ := Fallible.exists_of_mem_mapM_left hrow hcol
  obtain ⟨value, hvalue, -⟩ := Fallible.bind_eq_ok.mp htext
  rw [← hname]
  exact getColumnByName_of_value hvalue

/-- **A table in one chunk is read as it is.** -/
theorem SameChunks.mapM_value (h : SameChunks table arrowTable lengths)
    (hnames : (table.columns.map (·.name)).Nodup) (hchunks : arrowTable.numChunks = 1)
    {rowIdx : Nat} (hrow : rowIdx < arrowTable.numRows) :
    table.columns.mapM (fun col => arrowTable.value col 0 rowIdx) = .ok (arrowTable.row rowIdx) := by
  refine Fallible.mapM_eq_filterMap (List.forall₂_iff_get.mpr ⟨h.typed.length_eq, fun i hi hi' => ?_⟩)
  rw [List.get_eq_getElem, List.get_eq_getElem]
  have hcolumn : arrowTable.columns[i] ∈ arrowTable.columns := List.getElem_mem hi'
  obtain ⟨hnumRows, hnumChunks⟩ := h.numRows_eq hcolumn
  -- the column has one chunk, which is as long as the table
  have hlengths := h.lengths _ hcolumn
  obtain ⟨length, rfl⟩ : ∃ length, lengths = [length] :=
    List.length_eq_one_iff.mp (hnumChunks.symm.trans hchunks)
  obtain ⟨chunk, hchunk, rfl⟩ := List.map_eq_singleton_iff.mp hlengths
  have hlt : rowIdx < chunk.length := by rwa [hnumRows, List.sum_singleton] at hrow
  have hfield : arrowTable.getColumnByName (table.columns[i]).name = some [chunk] := by
    have hi'' : i < (arrowTable.fields.zip arrowTable.columns).length := by
      rw [List.length_zip, h.fields, List.length_map, h.typed.length_eq, Nat.min_self]
      exact hi'
    have hentry : (arrowTable.fields.zip arrowTable.columns)[i] =
        ((table.columns[i]).name, [chunk]) := by
      rw [List.getElem_zip, hchunk]
      simp only [h.fields, List.getElem_map]
    have hmem := List.getElem_mem hi''
    have hfilter := @filter_name _ _ _ (arrowTable.fields.zip arrowTable.columns) (·.1)
      (by rw [h.map_zip]; exact hnames) _ hmem
    rw [hentry] at hfilter
    unfold ArrowTable.getColumnByName
    rw [hfilter]
  have htyped : (chunk[rowIdx]).columnType = (table.columns[i]).columnType := by
    refine (List.forall₂_iff_get.mp h.typed).2 i hi hi' chunk ?_ _ (List.getElem_mem hlt)
    rw [List.get_eq_getElem, hchunk]
    exact List.mem_cons_self
  refine ⟨chunk[rowIdx], ?_, ?_⟩
  · unfold ArrowTable.value
    rw [hfield]
    dsimp only
    rw [List.getElem?_cons_zero]
    dsimp only
    rw [List.getElem?_eq_getElem hlt]
    exact if_pos htyped
  · rw [hchunk, List.flatten_singleton, List.getElem?_eq_getElem hlt]

/-- **Rows come out one by one exactly if** there are none, or the table is in one chunk and its
columns have different names. -/
theorem rowByRow_iff (table : Table) (arrowTable : ArrowTable) (lengths : List Nat)
    (h : SameChunks table arrowTable lengths) :
    RowByRow table arrowTable ↔
      arrowTable.numRows = 0 ∨
        arrowTable.numChunks = 1 ∧ (table.columns.map (·.name)).Nodup := by
  constructor
  · rintro ⟨hrows, -, hbounds⟩
    rcases Nat.eq_zero_or_pos arrowTable.numRows with hzero | hpos
    · exact .inl hzero
    rcases h.of_inBounds hbounds with hzero | hchunks
    · exact .inl hzero
    · exact .inr ⟨hchunks, h.names_nodup hrows hpos hchunks⟩
  · rintro (hzero | ⟨hchunks, hnames⟩)
    · -- nothing is read
      unfold RowByRow Transformer.toTableRows serialize ArrowTable.InBounds
      rw [positions_of_numRows hzero, hzero]
      exact ⟨rfl, rfl, fun _ hposition => absurd hposition List.not_mem_nil⟩
    · have hread : ∀ rowIdx ∈ List.range arrowTable.numRows,
          table.columns.mapM (fun col => arrowTable.value col 0 rowIdx) =
            .ok (arrowTable.row rowIdx) := fun rowIdx hrowIdx =>
        h.mapM_value hnames hchunks (List.mem_range.mp hrowIdx)
      refine ⟨?_, ?_, ?_⟩
      · unfold Transformer.toTableRows
        rw [positions_of_numChunks hchunks, List.mapM_map]
        refine Fallible.mapM_ok fun rowIdx hrowIdx => ?_
        exact Fallible.mapM_bind.mpr ⟨_, hread rowIdx hrowIdx, Fallible.mapM_ok fun _ _ => rfl⟩
      · unfold serialize
        rw [positions_of_numChunks hchunks, List.mapM_map]
        refine Fallible.mapM_congr (List.forall₂_same.mpr fun rowIdx hrowIdx => ?_)
        show (table.columns.mapM _ >>= _) = _
        rw [Fallible.mapM_zip (hread rowIdx hrowIdx)]
        rfl
      · intro position hposition column hcolumn
        obtain ⟨hrow, hchunk⟩ := mem_positions.mp hposition
        obtain ⟨hnumRows, hnumChunks⟩ := h.numRows_eq hcolumn
        have hlengths := h.lengths column hcolumn
        obtain ⟨length, rfl⟩ : ∃ length, lengths = [length] :=
          List.length_eq_one_iff.mp (hnumChunks.symm.trans hchunks)
        obtain ⟨chunk, rfl, rfl⟩ := List.map_eq_singleton_iff.mp hlengths
        rw [hchunks, Nat.lt_one_iff] at hchunk
        rw [hnumRows, List.sum_singleton] at hrow
        exact ⟨chunk, by rw [hchunk]; rfl, hrow⟩

/-- Three rows of two columns, in one chunk. -/
def threeUsers : ArrowTable where
  fields := ["id", "name"]
  columns := [[[.int64 1, .int64 2, .int64 3]],
    [[.string "ada".toList, .string "bob".toList, .string "eve".toList]]]

theorem rowByRow_iff_three_users :
    threeUsers.numRows = 3 ∧
      RowByRow ⟨1, 1, [⟨0, "id", .int64⟩, ⟨1, "name", .string⟩], ⟨0, [0]⟩, []⟩ threeUsers :=
  ⟨rfl, (rowByRow_iff ⟨1, 1, [⟨0, "id", .int64⟩, ⟨1, "name", .string⟩], ⟨0, [0]⟩, []⟩ threeUsers [3]
    { fields := rfl
      typed := .cons (by decide) (.cons (by decide) .nil)
      lengths := by decide }).mpr (.inr ⟨rfl, by decide⟩)⟩

/-- Two rows in a chunk each. Row 1 is read in the chunk that has row 0 only. -/
theorem not_rowByRow_two_chunks :
    SameChunks ⟨1, 1, [⟨0, "id", .int64⟩], ⟨0, [0]⟩, []⟩ ⟨["id"], [[[.int64 1], [.int64 2]]]⟩ [1, 1] ∧
      ¬ RowByRow ⟨1, 1, [⟨0, "id", .int64⟩], ⟨0, [0]⟩, []⟩
        ⟨["id"], [[[.int64 1], [.int64 2]]]⟩ := by
  refine ⟨⟨rfl, .cons (by decide) .nil, by decide⟩, fun ⟨_, _, hbounds⟩ => ?_⟩
  obtain ⟨chunk, hchunk, hlt⟩ := hbounds (1, 0) (by decide) _ List.mem_cons_self
  obtain rfl := Option.some.inj hchunk
  exact absurd hlt (by decide)

end ReplicatedCounter.MyDb
