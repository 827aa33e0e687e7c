import Mathlib.Algebra.Order.BigOperators.Group.List
import Mathlib.Algebra.Order.Ring.Nat
import Mathlib.Data.List.ReduceOption
import ReplicatedCounter.MyDb.KeyTokens
import ReplicatedCounter.MyDb.SecondaryIndexes

/-!
# Rows there and back

`deserialize` reads what `serialize` has written, cell by cell: a key is taken apart, and if there
is a column id at its end, the value goes into the array of that column. So a cell comes back if its
key is read through to the end, whatever the values in it are; and the arrays come back in the order
of the column ids, whatever the order of the columns is. Neither is always so. A key value of
nothing but slashes, the empty string for one, takes the row with it; and columns that are not
listed in the order of their ids come back under one another's names.

`roundTrips_iff` says which tables survive. That a cell too few could be made up for by one too many
is excluded by counting: a cell too many is a `NULL`, and a row that is lost has a value of slashes
in it.
-/

set_option autoImplicit false

namespace ReplicatedCounter.MyDb

open KeySerializer RowSerializer

variable {table : Table}

/-! ## What should come back, and when it does -/

/-- The types of the arrays `getHeader` makes builders for, in the order in which they are built. -/
def RowSerializer.arrayTypes (table : Table) : List ColumnType :=
  (table.columns.foldl (fun colBuilder col => colBuilder.insert col.id col.columnType)
    (.empty : SortedMap UInt32 ColumnType)).entries.map (·.2)

/-- `deserialize(schema, serialize(t))` is `t`, for the table `t` of some rows: the columns, their
names and values, and their types. -/
def RoundTrips (rows : List (Row table)) : Prop :=
  (do
    let raws ← serialize table (arrowTable table.columns rows)
    deserialize table raws) = .ok (arrowTable table.columns rows) ∧
  arrayTypes table = table.columns.map (·.columnType)

/-- The ids of the columns, in the order of the arrays. -/
def Table.idOrder (table : Table) : List UInt32 := (getHeader table).entries.map (·.1)

/-- What `serialize` asks of a schema. -/
structure Serializable (table : Table) : Prop where
  /-- Arrow finds no column under a name that two of them have. -/
  names : (table.columns.map (·.name)).Nodup
  /-- The primary key is over different columns of the table. -/
  primaryKey : table.primaryKeyColumns.length = table.primaryKeyIndex.columnIds.length
  /-- So are the secondary indexes that have a column of the table; of two with one id the first one
  is asked, and both of them count. -/
  secondaryIndex : ∀ col ∈ table.columns, ∀ idxId ∈ table.indexIds col.id,
    ∃ index, table.secondaryIndex.find? (·.id = idxId) = some index ∧
      index.columnIds.length = (table.columns.filter fun col => idxId ∈ table.indexIds col.id).length

/-- The row comes back. -/
structure Row.Survives (row : Row table) : Prop where
  /-- No value of the primary key is empty, or slashes only. -/
  legible : ∀ value ∈ row.primaryValues, KeySerializer.Legible value.toString
  /-- A secondary index with the id 0, which the reader takes for the primary one, has nothing
  else. -/
  hidden : ∀ value ∈ secondaryIdxValues table row.cells 0, ¬ KeySerializer.Legible value.toString
  /-- In the order of the column ids the values are in the order of the columns. -/
  inOrder : table.idOrder.map row.value = table.columns.map fun col => row.value col.id

/-- The table of these rows comes back. -/
def Survive (rows : List (Row table)) : Prop :=
  table.columns ≠ [] ∧ arrayTypes table = table.columns.map (·.columnType) ∧
    (rows = [] ∨ (Serializable table ∧ table.primaryKeyIndex.columnIds ≠ [] ∧
      ∀ row ∈ rows, row.Survives))

instance Serializable.decidable : Decidable (Serializable table) :=
  haveI : ∀ idxId, Decidable (∃ index, table.secondaryIndex.find? (·.id = idxId) = some index ∧
      index.columnIds.length =
        (table.columns.filter fun col => idxId ∈ table.indexIds col.id).length) := fun idxId =>
    match hfind : table.secondaryIndex.find? (·.id = idxId) with
    | none => isFalse fun ⟨_, h, _⟩ => Option.some_ne_none _ (h.symm.trans hfind)
    | some index => decidable_of_iff (index.columnIds.length = _)
        ⟨fun h => ⟨index, hfind, h⟩,
          fun ⟨_, h, hlen⟩ => Option.some.inj (h.symm.trans hfind) ▸ hlen⟩
  haveI : ∀ col : Column, Decidable (∀ idxId ∈ table.indexIds col.id,
      ∃ index, table.secondaryIndex.find? (·.id = idxId) = some index ∧ index.columnIds.length =
        (table.columns.filter fun col => idxId ∈ table.indexIds col.id).length) :=
    -- over the ids in the list, not over all the ids there are
    fun _ => List.decidableBAll _ _
  decidable_of_iff (_ ∧ _ ∧ _) ⟨fun h => ⟨h.1, h.2.1, h.2.2⟩, fun h => ⟨h.1, h.2, h.3⟩⟩

instance Row.Survives.decidable (row : Row table) : Decidable row.Survives :=
  decidable_of_iff (_ ∧ _ ∧ _) ⟨fun h => ⟨h.1, h.2.1, h.2.2⟩, fun h => ⟨h.1, h.2, h.3⟩⟩

instance Survive.decidable (rows : List (Row table)) : Decidable (Survive rows) :=
  inferInstanceAs (Decidable (_ ∧ _ ∧ (_ ∨ _)))

/-! ## The order of the arrays -/

theorem find?_getHeader (k : UInt32) :
    (getHeader table).find? k = if k ∈ table.columns.map (·.id) then some [] else none :=
  (built_getHeader : Built (getHeader table) ([] : List (Row table))) k

theorem mem_idOrder {k : UInt32} : k ∈ table.idOrder ↔ k ∈ table.columns.map (·.id) := by
  have hmem : k ∈ table.idOrder ↔ (getHeader table).find? k ≠ none := by
    unfold Table.idOrder
    rw [ne_eq, SortedMap.find?_eq_none, List.mem_map]
    constructor
    · rintro ⟨e, he, rfl⟩ hnone
      exact hnone e.2 he
    · intro hsome
      by_contra hnot
      exact hsome fun v hv => hnot ⟨(k, v), hv, rfl⟩
  rw [hmem, find?_getHeader]
  split
  · rename_i hk
    exact iff_of_true (by simp) hk
  · rename_i hk
    exact iff_of_false (by simp) hk

theorem sorted_idOrder : table.idOrder.Pairwise (· < ·) :=
  List.pairwise_map.mpr (getHeader table).sorted

theorem nodup_idOrder : table.idOrder.Nodup := sorted_idOrder.imp fun hlt => hlt.ne

theorem perm_idOrder (hids : (table.columns.map (·.id)).Nodup) :
    table.idOrder.Perm (table.columns.map (·.id)) :=
  (List.perm_ext_iff_of_nodup nodup_idOrder hids).mpr fun _ => mem_idOrder

/-! ## Writing -/

/-- The entries of the columns of a row. -/
def Row.columnEntries (row : Row table) : List (Bytes × Bytes) :=
  table.idOrder.map fun colId =>
    (columnKey (rowKey table row.primaryValues) colId, (row.value colId).toString)

/-- The ids of the indexes a key is written for. -/
def Table.writtenIds (table : Table) : List UInt32 :=
  (table.columns.flatMap fun col => table.indexIds col.id).dedup

/-- `colValues`, one entry after the other. -/
theorem entries_colValues (row : Row table) :
    (row.cells.foldl (fun m v => emplace m v.1.id v.2) .empty).entries =
      table.idOrder.map fun colId => (colId, row.value colId) := by
  apply SortedMap.entries_eq_map sorted_idOrder
  intro k
  rw [find?_foldl_emplace, SortedMap.find?_empty, Option.none_or]
  unfold Row.cells
  rw [List.find?_map, Option.map_map]
  by_cases hk : k ∈ table.idOrder
  · rw [if_pos hk]
    obtain ⟨col, hcol, rfl⟩ := List.mem_map.mp (mem_idOrder.mp hk)
    cases hfind : table.columns.find? ((fun v : Column × ColumnValue => decide (v.1.id = col.id)) ∘
        fun col => (col, row.value col.id)) with
    | none =>
      exact absurd (List.find?_eq_none.mp hfind col hcol) (by simp)
    | some found =>
      have hid : found.id = col.id := by simpa using List.find?_some hfind
      show some (row.value found.id) = _
      rw [hid]
  · rw [if_neg hk]
    have hnone : table.columns.find? ((fun v : Column × ColumnValue => decide (v.1.id = k)) ∘
        fun col => (col, row.value col.id)) = none := by
      rw [List.find?_eq_none]
      intro col hcol heq
      exact hk (mem_idOrder.mpr (List.mem_map.mpr ⟨col, hcol, by simpa using heq⟩))
    rw [hnone]
    rfl

/-- **The entries of a row.** -/
theorem rawTableRow_ok_iff {row : Row table} {raw : RawTableRow} :
    rawTableRow table row.cells = .ok raw ↔ Keyable row ∧ ∃ secondaryKeys,
      (table.writtenIds.mapM fun idxId => secondaryIndexKey table idxId
        (secondaryIdxValues table row.cells idxId) row.primaryValues) = .ok secondaryKeys ∧
      raw = (rowKey table row.primaryValues, null) ::
        (row.columnEntries ++ secondaryKeys.map fun key => (key, null)) := by
  have hids : (row.cells.flatMap fun v => table.indexIds v.1.id).dedup = table.writtenIds := by
    unfold Row.cells Table.writtenIds
    rw [List.flatMap_map]
  have hentries : (row.cells.foldl (fun m v => emplace m v.1.id v.2) .empty).entries.map
      (fun e => (columnKey (rowKey table row.primaryValues) e.1, e.2.toString)) =
        row.columnEntries := by
    rw [entries_colValues, List.map_map]
    rfl
  unfold rawTableRow
  dsimp only
  rw [hids]
  constructor
  · intro h
    obtain ⟨key, hkey, h⟩ := Fallible.bind_eq_ok.mp h
    obtain ⟨secondaryKeys, hsecondary, h⟩ := Fallible.bind_eq_ok.mp h
    unfold KeySerializer.primaryKey at hkey
    split at hkey
    · rename_i hlen
      cases hkey
      cases h
      refine ⟨hlen.symm, secondaryKeys, hsecondary, ?_⟩
      rw [← hentries]
      rfl
    · cases hkey
  · rintro ⟨hkeyable, secondaryKeys, hsecondary, rfl⟩
    have hkey : KeySerializer.primaryKey table (primaryIdxValues table row.cells) =
        .ok (rowKey table row.primaryValues) := if_pos hkeyable.symm
    refine Fallible.bind_eq_ok.mpr ⟨_, hkey, Fallible.bind_eq_ok.mpr ⟨_, hsecondary, ?_⟩⟩
    rw [← hentries]
    rfl

/-- A column that Arrow finds is the only one with its name. -/
theorem nodup_names {columns : List Column} (arrays : Column → ChunkedArray)
    (h : ∀ col ∈ columns, ({ fields := columns.map (·.name), columns := columns.map arrays } :
      ArrowTable).getColumnByName col.name ≠ none) : (columns.map (·.name)).Nodup := by
  rw [List.nodup_iff_count_eq_one]
  intro name hname
  obtain ⟨col, hcol, rfl⟩ := List.mem_map.mp hname
  have hfound := h col hcol
  unfold ArrowTable.getColumnByName at hfound
  dsimp only at hfound
  rw [List.zip_map', List.filter_map] at hfound
  have hcount : (columns.map (·.name)).count col.name =
      (columns.filter ((fun e : String × ChunkedArray => decide (e.1 = col.name)) ∘
        fun c => (c.name, arrays c))).length := by
    rw [List.count_eq_countP, List.countP_map, List.countP_eq_length_filter]
    congr 1
  rw [hcount]
  cases hfilter : columns.filter ((fun e : String × ChunkedArray => decide (e.1 = col.name)) ∘
      fun c => (c.name, arrays c)) with
  | nil =>
    rw [hfilter] at hfound
    exact absurd rfl hfound
  | cons first rest =>
    rw [hfilter] at hfound
    cases rest with
    | nil => rfl
    | cons second rest => exact absurd rfl hfound

/-- A table with a row that could be written has every column under a name of its own. -/
theorem nodup_names_of_serialize {arrays : Column → ChunkedArray} {raws : List RawTableRow}
    (h : serialize table { fields := table.columns.map (·.name)
                           columns := table.columns.map arrays } = .ok raws)
    (hpositions : ({ fields := table.columns.map (·.name)
                     columns := table.columns.map arrays } : ArrowTable).positions ≠ []) :
    (table.columns.map (·.name)).Nodup := by
  refine nodup_names arrays fun col hcol hnone => ?_
  -- the first row could not have been read
  obtain ⟨position, hposition⟩ := List.exists_mem_of_ne_nil _ hpositions
  obtain ⟨raw, -, hraw⟩ := Fallible.exists_of_mem_mapM_left h hposition
  obtain ⟨values, hvalues, -⟩ := Fallible.bind_eq_ok.mp hraw
  obtain ⟨value, -, hvalue⟩ := Fallible.exists_of_mem_mapM_left hvalues hcol
  unfold ArrowTable.value at hvalue
  rw [hnone] at hvalue
  cases hvalue

/-- **`serialize` returns** if Arrow finds every column, and every row has its keys. -/
theorem serialize_ok_iff (hcolumns : table.columns ≠ []) {rows : List (Row table)}
    {raws : List RawTableRow} :
    serialize table (arrowTable table.columns rows) = .ok raws ↔
      (rows = [] ∨ (table.columns.map (·.name)).Nodup) ∧
        rows.mapM (fun row => rawTableRow table row.cells) = .ok raws := by
  have hserialize : ∀ rows : List (Row table), (table.columns.map (·.name)).Nodup →
      serialize table (arrowTable table.columns rows) =
        rows.mapM fun row => rawTableRow table row.cells := by
    intro rows hnames
    refine mapM_positions hcolumns fun rowIdx row hrow => ?_
    dsimp only
    rw [Fallible.mapM_ok (k := fun col => (col, row.value col.id))]
    · rfl
    · intro col hcol
      rw [value_arrowTable hnames hcol hcol hrow]
      rfl
  constructor
  · intro h
    cases rows with
    | nil =>
      refine ⟨.inl rfl, ?_⟩
      unfold serialize at h
      rw [positions_arrowTable hcolumns] at h
      exact h
    | cons row rows =>
      have hnames : (table.columns.map (·.name)).Nodup := by
        refine nodup_names_of_serialize h ?_
        show (arrowTable table.columns (row :: rows)).positions ≠ []
        rw [positions_arrowTable hcolumns]
        simp
      rw [hserialize _ hnames] at h
      exact ⟨.inr hnames, h⟩
  · rintro ⟨hnil | hnames, h⟩
    · subst hnil
      unfold serialize
      rw [positions_arrowTable hcolumns]
      exact h
    · rw [hserialize rows hnames]
      exact h

/-! ## Reading, cell by cell -/

/-- What the body of the loop in `deserialize` appends, and to which column. -/
def readCell (table : Table) (entry : Bytes × Bytes) :
    Except ExecutionError (Option (UInt32 × ColumnValue)) := do
  let keyFragments ← parseKey table entry.1
  match keyFragments.colId with
  | none => return none
  | some colId =>
    match table.getColumnType colId with
    | none => throw .assertionFailed
    | some .int64 => return some (colId, .int64 (← toInt64 entry.2))
    | some .string => return some (colId, .string entry.2)

theorem appendEntry_eq (colBuilder : SortedMap UInt32 (List ColumnValue)) (entry : Bytes × Bytes) :
    appendEntry table colBuilder entry = (readCell table entry >>= fun cell =>
      .ok (cell.elim colBuilder fun c => append colBuilder c.1 c.2)) := by
  unfold appendEntry readCell
  cases parseKey table entry.1 with
  | error e => rfl
  | ok keyFragments =>
    simp only [bind, Except.bind]
    cases keyFragments.colId with
    | none => rfl
    | some colId =>
      dsimp only
      cases table.getColumnType colId with
      | none => rfl
      | some columnType =>
        cases columnType with
        | string => rfl
        | int64 =>
          dsimp only
          cases toInt64 entry.2 <;> rfl

/-- The builders after some cells. -/
def appendCells (colBuilder : SortedMap UInt32 (List ColumnValue))
    (cells : List (Option (UInt32 × ColumnValue))) : SortedMap UInt32 (List ColumnValue) :=
  cells.reduceOption.foldl (fun colBuilder c => append colBuilder c.1 c.2) colBuilder

/-- The loop of `deserialize` reads all cells, and appends them. -/
theorem foldlM_appendEntry_iff {entries : List (Bytes × Bytes)}
    {colBuilder colBuilder' : SortedMap UInt32 (List ColumnValue)} :
    entries.foldlM (appendEntry table) colBuilder = .ok colBuilder' ↔
      ∃ cells, entries.mapM (readCell table) = .ok cells ∧
        colBuilder' = appendCells colBuilder cells := by
  have hcells : ∀ cells, cells.foldl (fun colBuilder cell =>
      Option.elim cell colBuilder fun c => append colBuilder c.1 c.2) colBuilder =
        appendCells colBuilder cells := by
    intro cells
    unfold appendCells
    induction cells generalizing colBuilder with
    | nil => rfl
    | cons cell cells ih =>
      rw [List.foldl_cons, ih]
      cases cell <;> rfl
  rw [Fallible.foldlM_eq_ok_iff appendEntry_eq]
  refine exists_congr fun cells => and_congr_right fun _ => ?_
  rw [hcells]

/-- The cells of a column. -/
def cellsOf (cells : List (Option (UInt32 × ColumnValue))) (colId : UInt32) : List ColumnValue :=
  (cells.reduceOption.filter (·.1 = colId)).map (·.2)

/-- **A builder gets the cells of its column.** -/
theorem find?_appendCells {cells : List (Option (UInt32 × ColumnValue))}
    {colBuilder : SortedMap UInt32 (List ColumnValue)}
    (h : ∀ c ∈ cells.reduceOption, colBuilder.find? c.1 ≠ none) (k : UInt32) :
    (appendCells colBuilder cells).find? k =
      (colBuilder.find? k).map (· ++ cellsOf cells k) := by
  unfold appendCells cellsOf
  generalize cells.reduceOption = found at h
  induction found generalizing colBuilder with
  | nil =>
    show colBuilder.find? k = _
    cases colBuilder.find? k <;> simp
  | cons c found ih =>
    obtain ⟨values, hvalues⟩ := Option.ne_none_iff_exists'.mp (h c List.mem_cons_self)
    have happend := find?_append hvalues c.2
    rw [List.foldl_cons, ih, happend, List.filter_cons]
    · by_cases hk : k = c.1
      · subst hk
        rw [if_pos rfl, if_pos (by simp), hvalues]
        simp
      · rw [if_neg hk, if_neg (by simpa using Ne.symm hk)]
    · intro c' hc'
      rw [happend]
      split
      · simp
      · exact h c' (List.mem_cons_of_mem _ hc')

/-- **What a key is read as**: nothing without a column id, else a value of the type of its column. -/
theorem readCell_ok {entry : Bytes × Bytes} {cell : Option (UInt32 × ColumnValue)}
    (h : readCell table entry = .ok cell) :
    ∃ fragments, parseKey table entry.1 = .ok fragments ∧
      (fragments.colId = none ∧ cell = none ∨
        ∃ colId value, fragments.colId = some colId ∧ cell = some (colId, value) ∧
          table.getColumnType colId = some value.columnType ∧
          (value = .string entry.2 ∨ ∃ n, toInt64 entry.2 = .ok n ∧ value = .int64 n)) := by
  unfold readCell at h
  obtain ⟨fragments, hparse, h⟩ := Fallible.bind_eq_ok.mp h
  refine ⟨fragments, hparse, ?_⟩
  cases hcolId : fragments.colId with
  | none =>
    rw [hcolId] at h
    cases h
    exact .inl ⟨rfl, rfl⟩
  | some colId =>
    rw [hcolId] at h
    dsimp only at h
    cases htype : table.getColumnType colId with
    | none =>
      rw [htype] at h
      cases h
    | some columnType =>
      rw [htype] at h
      cases columnType with
      | int64 =>
        obtain ⟨n, hn, h⟩ := Fallible.bind_eq_ok.mp h
        cases h
        exact .inr ⟨colId, .int64 n, rfl, rfl, htype, .inr ⟨n, hn, rfl⟩⟩
      | string =>
        cases h
        exact .inr ⟨colId, .string entry.2, rfl, rfl, htype, .inl rfl⟩

theorem readCell_eq_some {entry : Bytes × Bytes} {c : UInt32 × ColumnValue}
    (h : readCell table entry = .ok (some c)) : table.getColumnType c.1 = some c.2.columnType ∧
      (c.2 = .string entry.2 ∨ ∃ n, toInt64 entry.2 = .ok n ∧ c.2 = .int64 n) := by
  obtain ⟨_, -, ⟨-, hcell⟩ | ⟨colId, value, -, hcell, htype, hvalue⟩⟩ := readCell_ok h
  · cases hcell
  · cases hcell
    exact ⟨htype, hvalue⟩

/-- A cell is one of a column of the table. -/
theorem readCell_mem {entry : Bytes × Bytes} {c : UInt32 × ColumnValue}
    (h : readCell table entry = .ok (some c)) : c.1 ∈ table.columns.map (·.id) :=
  mem_of_getColumnType (readCell_eq_some h).1

/-- The builders after some cells of the table, in the order of the ids. -/
theorem entries_appendCells {cells : List (Option (UInt32 × ColumnValue))}
    (h : ∀ c ∈ cells.reduceOption, c.1 ∈ table.columns.map (·.id)) :
    (appendCells (getHeader table) cells).entries.map (·.2) =
      table.idOrder.map (cellsOf cells) := by
  have hfind : ∀ k, (appendCells (getHeader table) cells).find? k =
      if k ∈ table.idOrder then some (cellsOf cells k) else none := by
    intro k
    rw [find?_appendCells]
    · rw [find?_getHeader]
      by_cases hk : k ∈ table.idOrder
      · rw [if_pos hk, if_pos (mem_idOrder.mp hk)]
        rfl
      · rw [if_neg hk, if_neg fun hmem => hk (mem_idOrder.mpr hmem)]
        rfl
    · intro c hc
      rw [find?_getHeader, if_pos (h c hc)]
      simp
  rw [SortedMap.entries_eq_map sorted_idOrder hfind, List.map_map]
  rfl

/-- There are as many arrays as columns if no two columns have one id. -/
theorem length_idOrder_iff :
    table.columns.length ≤ table.idOrder.length ↔ (table.columns.map (·.id)).Nodup := by
  have hperm : table.idOrder.Perm (table.columns.map (·.id)).dedup := by
    refine (List.perm_ext_iff_of_nodup nodup_idOrder (List.nodup_dedup _)).mpr fun colId => ?_
    rw [mem_idOrder, List.mem_dedup]
  rw [hperm.length_eq]
  constructor
  · intro hle
    rw [← List.length_map (f := (·.id))] at hle
    exact List.dedup_eq_self.mp ((List.dedup_sublist _).eq_of_length_le hle)
  · intro hids
    rw [List.dedup_eq_self.mpr hids, List.length_map]

/-- A table of arrays, one for each id, is made if there are columns, with an id each. -/
theorem arrays_ok_iff {arrays : UInt32 → List ColumnValue} {result : ArrowTable} :
    (if table.idOrder.map arrays = [] ∨ (table.idOrder.map arrays).length < table.columns.length then
        Except.error ExecutionError.undefinedBehaviour
      else .ok { fields := table.columns.map (·.name)
                 columns := (table.idOrder.map arrays).map ([·]) : ArrowTable }) = .ok result ↔
      table.columns ≠ [] ∧ (table.columns.map (·.id)).Nodup ∧ result =
        { fields := table.columns.map (·.name)
          columns := table.idOrder.map fun colId => [arrays colId] } := by
  rw [List.map_map, ← length_idOrder_iff]
  constructor
  · intro h
    split at h
    · cases h
    · rename_i hne
      obtain ⟨hnil, hle⟩ := not_or.mp hne
      rw [List.length_map] at hle
      cases h
      refine ⟨?_, not_lt.mp hle, rfl⟩
      intro hcolumns
      refine hnil (List.map_eq_nil_iff.mpr (List.eq_nil_iff_forall_not_mem.mpr fun colId hmem => ?_))
      have hid := mem_idOrder.mp hmem
      rw [hcolumns] at hid
      exact List.not_mem_nil hid
  · rintro ⟨hcolumns, hle, rfl⟩
    have hpos := List.length_pos_iff.mpr hcolumns
    rw [if_neg]
    · rfl
    · rintro (hnil | hless)
      · rw [List.map_eq_nil_iff.mp hnil, List.length_nil] at hle
        omega
      · rw [List.length_map] at hless
        omega

/-- **`deserialize` returns the cells**, column by column in the order of the ids. -/
theorem deserialize_ok_iff (hids : (table.columns.map (·.id)).Nodup) {raws : List RawTableRow}
    {result : ArrowTable} :
    deserialize table raws = .ok result ↔ table.columns ≠ [] ∧
      ∃ cells, raws.flatten.mapM (readCell table) = .ok cells ∧ result =
        { fields := table.columns.map (·.name)
          columns := table.idOrder.map fun colId => [cellsOf cells colId] } := by
  have hentries : ∀ cells, raws.flatten.mapM (readCell table) = .ok cells →
      (appendCells (getHeader table) cells).entries.map (·.2) =
        table.idOrder.map (cellsOf cells) := by
    intro cells hcells
    refine entries_appendCells fun c hc => ?_
    obtain ⟨entry, -, hentry⟩ :=
      Fallible.exists_of_mem_mapM hcells (List.reduceOption_mem_iff.mp hc)
    exact readCell_mem hentry
  unfold deserialize
  constructor
  · intro h
    obtain ⟨colBuilder, hfold, h⟩ := Fallible.bind_eq_ok.mp h
    obtain ⟨cells, hcells, rfl⟩ := foldlM_appendEntry_iff.mp hfold
    rw [hentries cells hcells] at h
    obtain ⟨hcolumns, -, hresult⟩ := arrays_ok_iff.mp h
    exact ⟨hcolumns, cells, hcells, hresult⟩
  · rintro ⟨hcolumns, cells, hcells, hresult⟩
    refine Fallible.bind_eq_ok.mpr ⟨_, foldlM_appendEntry_iff.mpr ⟨cells, hcells, rfl⟩, ?_⟩
    rw [hentries cells hcells]
    exact arrays_ok_iff.mpr ⟨hcolumns, hids, hresult⟩

/-! ## One row -/

/-- The cells of a row that is written and read. -/
def Row.readBack (row : Row table) :
    Except ExecutionError (List (Option (UInt32 × ColumnValue))) :=
  rawTableRow table row.cells >>= fun raw => raw.mapM (readCell table)

/-- **Back comes what is written and read row by row**, in the order of the arrays. -/
theorem roundTrips_iff_cells (hids : (table.columns.map (·.id)).Nodup) {rows : List (Row table)} :
    RoundTrips rows ↔ table.columns ≠ [] ∧ arrayTypes table = table.columns.map (·.columnType) ∧
      (rows = [] ∨ (table.columns.map (·.name)).Nodup) ∧
      ∃ cells, rows.mapM Row.readBack = .ok cells ∧
        table.idOrder.map (cellsOf cells.flatten) =
          table.columns.map fun col => rows.map fun row => row.value col.id := by
  have harrays : ∀ cells, (arrowTable table.columns rows =
      { fields := table.columns.map (·.name)
        columns := table.idOrder.map fun colId => [cellsOf cells colId] } ↔
      table.idOrder.map (cellsOf cells) =
        table.columns.map fun col => rows.map fun row => row.value col.id) := by
    intro cells
    have hsingle : Function.Injective (List.map fun column : List ColumnValue => [column]) :=
      List.map_injective_iff.mpr fun _ _ heq => List.singleton_injective heq
    unfold arrowTable
    rw [ArrowTable.mk.injEq, and_iff_right rfl, ← hsingle.eq_iff, List.map_map, List.map_map]
    exact eq_comm
  unfold RoundTrips
  rw [Fallible.bind_eq_ok]
  constructor
  · rintro ⟨⟨raws, hser, hde⟩, htypes⟩
    obtain ⟨hcolumns, cells, hcells, hresult⟩ := (deserialize_ok_iff hids).mp hde
    obtain ⟨hnames, hraws⟩ := (serialize_ok_iff hcolumns).mp hser
    obtain ⟨groups, hgroups, rfl⟩ := Fallible.mapM_flatten.mp hcells
    exact ⟨hcolumns, htypes, hnames, groups, Fallible.mapM_bind.mpr ⟨raws, hraws, hgroups⟩,
      (harrays _).mp hresult⟩
  · rintro ⟨hcolumns, htypes, hnames, groups, hread, harray⟩
    obtain ⟨raws, hraws, hgroups⟩ := Fallible.mapM_bind.mp hread
    refine ⟨⟨raws, (serialize_ok_iff hcolumns).mpr ⟨hnames, hraws⟩, ?_⟩, htypes⟩
    exact (deserialize_ok_iff hids).mpr ⟨hcolumns, _, Fallible.mapM_flatten.mpr ⟨groups, hgroups, rfl⟩,
      (harrays _).mpr harray⟩

/-- A key without a column id. -/
theorem readCell_eq_none_iff {key value : Bytes} : readCell table (key, value) = .ok none ↔
    ∃ fragments, parseKey table key = .ok fragments ∧ fragments.colId = none := by
  constructor
  · intro h
    obtain ⟨fragments, hparse, ⟨hcolId, -⟩ | ⟨_, _, -, hcell, -⟩⟩ := readCell_ok h
    · exact ⟨fragments, hparse, hcolId⟩
    · cases hcell
  · rintro ⟨fragments, hparse, hcolId⟩
    refine Fallible.bind_eq_ok.mpr ⟨fragments, hparse, ?_⟩
    rw [hcolId]
    rfl

/-- A key without a value has `NULL` for one. -/
theorem readCell_null {key : Bytes} {c : UInt32 × ColumnValue}
    (h : readCell table (key, null) = .ok (some c)) : c.2 = .string null := by
  have hconversion : toInt64 null = .error .conversionError := by decide
  obtain ⟨-, hvalue | ⟨n, hn, -⟩⟩ := readCell_eq_some h
  · exact hvalue
  · exact nomatch hconversion.symm.trans hn

/-- The key of a column, read with its column id. -/
theorem readCell_of_some (hids : (table.columns.map (·.id)).Nodup) (row : Row table) {colId : UInt32}
    (hmem : colId ∈ table.idOrder) {key : Bytes} {fragments : KeyFragments}
    (hparse : parseKey table key = .ok fragments) (hcolId : fragments.colId = some colId) :
    readCell table (key, (row.value colId).toString) = .ok (some (colId, row.value colId)) := by
  obtain ⟨col, hcol, rfl⟩ := List.mem_map.mp (mem_idOrder.mp hmem)
  have htype : table.getColumnType col.id = some (row.value col.id).columnType := by
    rw [getColumnType_of_nodup hids hcol, row.typed col hcol]
  unfold readCell
  refine Fallible.bind_eq_ok.mpr ⟨fragments, hparse, ?_⟩
  rw [hcolId]
  dsimp only
  rw [htype]
  cases row.value col.id with
  | int64 value =>
    refine Fallible.bind_eq_ok.mpr ⟨value, toInt64_toString value, rfl⟩
  | string value => rfl

/-- The key of a row itself is read as none of a column. -/
theorem readCell_rowKey (hzero : table.primaryKeyIndex.id = 0) (row : Row table) :
    readCell table (rowKey table row.primaryKey, null) = .ok none := by
  unfold rowKey
  rw [readCell_eq_none_iff, hzero]
  exact parseKey_zero_parts (by simp [Row.primaryKey])

/-- And the keys of its columns are read as theirs, if its primary key can be parsed. -/
theorem readCell_columnKey (hids : (table.columns.map (·.id)).Nodup)
    (hne : table.primaryKeyIndex.columnIds ≠ []) (hzero : table.primaryKeyIndex.id = 0)
    (row : Row table) {col : Column} (hcol : col ∈ table.columns) :
    readCell table
        (columnKey (rowKey table row.primaryKey) col.id, (row.value col.id).toString) =
      .ok (if row.Legible then some (col.id, row.value col.id) else none) := by
  have hlen : row.primaryKey.length = table.primaryKeyIndex.columnIds.length := by
    simp [Row.primaryKey]
  unfold rowKey
  rw [hzero]
  split
  · rename_i hlegible
    obtain ⟨fragments, hparse, hcolId⟩ := parseKey_zero_columnKey hne hlen hlegible col.id
    exact readCell_of_some hids row (mem_idOrder.mpr (List.mem_map_of_mem hcol)) hparse hcolId
  · rename_i hlegible
    rw [readCell_eq_none_iff]
    exact parseKey_columnKey_eq_none hlen (.inr hlegible) col.id

/-- A key is written for the indexes that have a value. -/
theorem mem_writtenIds_iff (row : Row table) {idxId : UInt32} :
    idxId ∈ table.writtenIds ↔ secondaryIdxValues table row.cells idxId ≠ [] :=
  (@indexValues_ne_nil table row ⟨idxId, []⟩).symm

/-- The cells of the columns of a row, if the reader gets through its keys. -/
def Row.own (row : Row table) : List (UInt32 × ColumnValue) :=
  if table.primaryKeyIndex.columnIds ≠ [] ∧
      ∀ value ∈ row.primaryValues, KeySerializer.Legible value.toString then
    table.idOrder.map fun colId => (colId, row.value colId)
  else []

/-- **The columns of a row are all read, or none is.** -/
theorem mapM_columnEntries (hids : (table.columns.map (·.id)).Nodup)
    (hzero : table.primaryKeyIndex.id = 0) {row : Row table} (hrow : Keyable row) :
    ∃ cells, row.columnEntries.mapM (readCell table) = .ok cells ∧
      cells.reduceOption = row.own := by
  have hkey : rowKey table row.primaryValues =
      minimumIndexKey table 0 ++ keyParts table.primaryKeyIndex.columnIds row.primaryValues := by
    unfold rowKey
    rw [hzero]
  unfold Row.columnEntries Row.own
  rw [List.mapM_map, hkey]
  split
  · rename_i hread
    refine ⟨_, Fallible.mapM_ok (k := fun colId => some (colId, row.value colId)) ?_, ?_⟩
    · intro colId hmem
      obtain ⟨fragments, hparse, hcolId⟩ := parseKey_zero_columnKey hread.1 hrow hread.2 colId
      exact readCell_of_some hids row hmem hparse hcolId
    · rw [List.reduceOption, List.filterMap_map]
      show List.filterMap (some ∘ fun colId => (colId, row.value colId)) _ = _
      rw [List.filterMap_eq_map]
  · rename_i hread
    refine ⟨_, Fallible.mapM_ok (k := fun _ => none) ?_, ?_⟩
    · intro colId _
      refine readCell_eq_none_iff.mpr (parseKey_columnKey_eq_none hrow ?_ colId)
      rwa [not_and_or, not_not] at hread
    · rw [List.map_const', List.reduceOption_replicate_none]

/-- A row, its cells, and those that are not its own. -/
structure ReadsAs (row : Row table) (cells extras : List (UInt32 × ColumnValue)) : Prop where
  cells_eq : cells = row.own ++ extras
  null : ∀ c ∈ extras, c.2 = .string RowSerializer.null
  /-- There is one too many if an index with the id 0 has a value that can be read. -/
  hidden : table.primaryKeyIndex.columnIds ≠ [] →
    (∀ value ∈ row.primaryValues, KeySerializer.Legible value.toString) → extras = [] →
      ∀ value ∈ secondaryIdxValues table row.cells 0, ¬ KeySerializer.Legible value.toString
  /-- Without a primary key there is none if all values are `NULL`. -/
  unkeyed : table.primaryKeyIndex.columnIds = [] →
    (∀ v ∈ row.cells, v.2 = .string RowSerializer.null) → extras = []

/-- **What comes back of a row.** -/
theorem readsAs_of_readBack (hids : (table.columns.map (·.id)).Nodup)
    (hzero : table.primaryKeyIndex.id = 0) {row : Row table}
    {cells : List (Option (UInt32 × ColumnValue))} (h : row.readBack = .ok cells) :
    ∃ extras, ReadsAs row cells.reduceOption extras := by
  obtain ⟨raw, hraw, hcells⟩ := Fallible.bind_eq_ok.mp h
  obtain ⟨hrow, secondaryKeys, hsecondary, rfl⟩ := rawTableRow_ok_iff.mp hraw
  -- the primary key, the columns, and the secondary indexes
  rw [List.mapM_cons] at hcells
  obtain ⟨first, hfirst, hcells⟩ := Fallible.bind_eq_ok.mp hcells
  obtain ⟨rest, hrest, hcells⟩ := Fallible.bind_eq_ok.mp hcells
  cases hcells
  rw [List.mapM_append] at hrest
  obtain ⟨columnCells, hcolumnCells, hrest⟩ := Fallible.bind_eq_ok.mp hrest
  obtain ⟨secondaryCells, hsecondaryCells, hrest⟩ := Fallible.bind_eq_ok.mp hrest
  cases hrest
  rw [List.mapM_map] at hsecondaryCells
  have hfirst' : readCell table (rowKey table row.primaryValues, null) = .ok none := by
    unfold rowKey
    rw [hzero]
    exact readCell_eq_none_iff.mpr (parseKey_zero_parts hrow)
  obtain rfl := Except.ok.inj (hfirst'.symm.trans hfirst)
  obtain ⟨own, hown, howncells⟩ := mapM_columnEntries hids hzero hrow
  obtain rfl := Except.ok.inj (hown.symm.trans hcolumnCells)
  refine ⟨secondaryCells.reduceOption, ?_, ?_, ?_, ?_⟩
  · rw [List.reduceOption_cons_of_none, List.reduceOption_append, howncells]
  · intro c hc
    obtain ⟨key, -, hkey⟩ :=
      Fallible.exists_of_mem_mapM hsecondaryCells (List.reduceOption_mem_iff.mp hc)
    exact readCell_null hkey
  · intro hne hlegible hnil value hvalue hread
    have hmem : 0 ∈ table.writtenIds := (mem_writtenIds_iff row).mpr (List.ne_nil_of_mem hvalue)
    obtain ⟨key, hkey, hok⟩ := Fallible.exists_of_mem_mapM_left hsecondary hmem
    obtain ⟨index, -, hlen, rfl⟩ := secondaryIndexKey_eq_ok hok
    obtain ⟨cell, hcell, hcellRead⟩ := Fallible.exists_of_mem_mapM_left hsecondaryCells hkey
    cases cell with
    | some c =>
      have hc := List.reduceOption_mem_iff.mpr hcell
      rw [hnil] at hc
      exact List.not_mem_nil hc
    | none =>
      obtain ⟨fragments, hparse, hnone⟩ := readCell_eq_none_iff.mp hcellRead
      exact parseKey_zero_colId_ne_none hlen hrow hne hlegible hvalue hread hparse hnone
  · intro hnil hnulls
    rw [List.eq_nil_iff_forall_not_mem]
    intro c hc
    obtain ⟨key, hkey, hcell⟩ :=
      Fallible.exists_of_mem_mapM hsecondaryCells (List.reduceOption_mem_iff.mp hc)
    obtain ⟨idxId, hidx, hok⟩ := Fallible.exists_of_mem_mapM hsecondary hkey
    obtain ⟨index, hfind, hlen, rfl⟩ := secondaryIndexKey_eq_ok hok
    have hvalues := (mem_writtenIds_iff row).mp hidx
    by_cases hid : idxId = 0
    · -- the first value of the index is taken for a column id
      subst hid
      obtain ⟨value, values, hcons⟩ := List.exists_cons_of_ne_nil hvalues
      have hvalue : value = .string RowSerializer.null := by
        have hmem : value ∈ secondaryIdxValues table row.cells 0 := by simp [hcons]
        obtain ⟨v, hv, rfl⟩ := List.mem_map.mp hmem
        exact hnulls v (List.mem_filter.mp hv).1
      rw [hcons] at hlen hcell
      obtain ⟨colId, columnIds, hcolumns⟩ := List.exists_cons_of_length_eq_add_one hlen.symm
      rw [hcolumns, hnil] at hcell
      have herror := parseKey_zero_null hnil colId columnIds
        (show value.toString = RowSerializer.null by rw [hvalue]; rfl) values
      have hempty : keyParts [] row.primaryValues = [] := by simp [keyParts]
      rw [hempty, List.append_nil] at hcell
      obtain ⟨fragments, hparse, -⟩ := readCell_ok hcell
      exact absurd (herror.symm.trans hparse) (by simp)
    · have hcell' : readCell table (_, null) = .ok (some c) := hcell
      rw [readCell_eq_none_iff.mpr (parseKey_secondary hid hfind hvalues hlen hrow)] at hcell'
      cases hcell'

theorem Serializable.keyable (htable : Serializable table) (row : Row table) : Keyable row := by
  show (primaryIdxValues table row.cells).length = _
  unfold primaryIdxValues
  rw [cells_filter row table.isPrimaryKeyColumn, List.length_map, ← htable.primaryKey]
  rfl

/-- The key of a row in an index that has a value of it. -/
theorem Serializable.secondaryIndexKey_eq (htable : Serializable table) (row : Row table)
    {idxId : UInt32} (hidx : idxId ∈ table.writtenIds) :
    ∃ index, table.secondaryIndex.find? (·.id = idxId) = some index ∧
      (secondaryIdxValues table row.cells idxId).length = index.columnIds.length ∧
      secondaryIndexKey table idxId (secondaryIdxValues table row.cells idxId) row.primaryValues =
        .ok (minimumIndexKey table idxId ++ (keyParts index.columnIds
          (secondaryIdxValues table row.cells idxId) ++
            keyParts table.primaryKeyIndex.columnIds row.primaryValues)) := by
  obtain ⟨col, hcol, hmem⟩ := List.mem_flatMap.mp (List.mem_dedup.mp hidx)
  obtain ⟨index, hfind, hlen⟩ := htable.secondaryIndex col hcol idxId hmem
  have hlen' : (secondaryIdxValues table row.cells idxId).length = index.columnIds.length := by
    unfold secondaryIdxValues
    rw [cells_filter row fun colId => decide (idxId ∈ table.indexIds colId), List.length_map, hlen]
  refine ⟨index, hfind, hlen', ?_⟩
  have hrow : row.primaryValues.length = table.primaryKeyIndex.columnIds.length := htable.keyable row
  unfold secondaryIndexKey
  rw [hfind]
  dsimp only
  rw [if_neg (not_not.mpr hlen'.symm), if_neg (by rw [hrow]; exact lt_irrefl _), List.append_assoc]

/-- Every row of such a schema can be written. -/
theorem Serializable.rawTableRow_ok (htable : Serializable table) (row : Row table) :
    ∃ raw, rawTableRow table row.cells = .ok raw := by
  obtain ⟨secondaryKeys, hsecondary, -⟩ := Fallible.mapM_exists (l := table.writtenIds)
    (P := fun _ => True)
    (f := fun idxId => secondaryIndexKey table idxId (secondaryIdxValues table row.cells idxId)
      row.primaryValues) (by
    intro idxId hidx
    obtain ⟨index, -, -, hkey⟩ := htable.secondaryIndexKey_eq row hidx
    exact ⟨_, hkey, trivial⟩)
  exact ⟨_, rawTableRow_ok_iff.mpr ⟨htable.keyable row, secondaryKeys, hsecondary, rfl⟩⟩

/-- **A row that survives comes back**, and nothing else does. -/
theorem Row.Survives.readBack {row : Row table} (h : row.Survives)
    (hids : (table.columns.map (·.id)).Nodup) (hzero : table.primaryKeyIndex.id = 0)
    (htable : Serializable table) (hne : table.primaryKeyIndex.columnIds ≠ []) :
    ∃ cells, row.readBack = .ok cells ∧
      cells.reduceOption = table.idOrder.map fun colId => (colId, row.value colId) := by
  have hrow := htable.keyable row
  have hown : row.own = table.idOrder.map fun colId => (colId, row.value colId) :=
    if_pos ⟨hne, h.legible⟩
  -- no key of a secondary index has a column id
  obtain ⟨secondaryKeys, hsecondary, hnone⟩ := Fallible.mapM_exists (l := table.writtenIds)
    (P := fun key => readCell table (key, null) = .ok none)
    (f := fun idxId => secondaryIndexKey table idxId (secondaryIdxValues table row.cells idxId)
      row.primaryValues) (by
    intro idxId hidx
    have hvalues := (mem_writtenIds_iff row).mp hidx
    obtain ⟨index, hfind, hlen, hkey⟩ := htable.secondaryIndexKey_eq row hidx
    refine ⟨_, hkey, readCell_eq_none_iff.mpr ?_⟩
    by_cases hid : idxId = 0
    · subst hid
      exact parseKey_zero_eq_none hlen hrow hne h.hidden
    · exact parseKey_secondary hid hfind hvalues hlen hrow)
  obtain ⟨own, hread, hcells⟩ := mapM_columnEntries hids hzero hrow
  have hfirst : readCell table (rowKey table row.primaryValues, null) = .ok none := by
    unfold rowKey
    rw [hzero]
    exact readCell_eq_none_iff.mpr (parseKey_zero_parts hrow)
  refine ⟨none :: (own ++ secondaryKeys.map fun _ => none), ?_, ?_⟩
  · refine Fallible.bind_eq_ok.mpr ⟨_, rawTableRow_ok_iff.mpr ⟨hrow, secondaryKeys, hsecondary, rfl⟩, ?_⟩
    have hsecondaryCells : secondaryKeys.mapM (readCell table ∘ fun key => (key, null)) =
        .ok (secondaryKeys.map fun _ => none) := Fallible.mapM_ok hnone
    rw [List.mapM_cons, hfirst, List.mapM_append, hread, List.mapM_map, hsecondaryCells]
    rfl
  · rw [List.reduceOption_cons_of_none, List.reduceOption_append, hcells, List.map_const',
      List.reduceOption_replicate_none, List.append_nil, hown]

/-! ## Counting cells -/

section counting

variable {α β γ : Type}

/-- A table, counted by its columns, is the same table counted by its rows. -/
theorem countP_flatten_map (columns : List α) (rows : List β) (g : α → β → γ) (q : γ → Bool) :
    (columns.map fun a => rows.map (g a)).flatten.countP q =
      (rows.map fun b => (columns.map fun a => g a b).countP q).sum := by
  induction columns with
  | nil => simp
  | cons a columns ih =>
    rw [List.map_cons, List.flatten_cons, List.countP_append, ih]
    clear ih
    induction rows with
    | nil => rfl
    | cons b rows ih =>
      simp only [List.map_cons, List.countP_cons, List.sum_cons] at ih ⊢
      omega

/-- Cells sorted into columns are still the same number. -/
theorem countP_flatten_filter [DecidableEq α] {keys : List α} (hkeys : keys.Nodup)
    {cells : List (α × γ)} (hmem : ∀ c ∈ cells, c.1 ∈ keys) (q : γ → Bool) :
    (keys.map fun k => (cells.filter (·.1 = k)).map (·.2)).flatten.countP q =
      cells.countP fun c => q c.2 := by
  induction cells with
  | nil => simp
  | cons c cells ih =>
    -- the cell is in the column of its key, and in no other
    have hcons : ∀ keys : List α, keys.Nodup →
        (keys.map fun k => ((c :: cells).filter (·.1 = k)).map (·.2)).flatten.countP q =
          (keys.map fun k => (cells.filter (·.1 = k)).map (·.2)).flatten.countP q +
            if c.1 ∈ keys ∧ q c.2 then 1 else 0 := by
      intro keys hnodup
      induction keys with
      | nil => simp
      | cons k keys ih =>
        obtain ⟨hnot, hrest⟩ := List.nodup_cons.mp hnodup
        rw [List.map_cons, List.flatten_cons, List.countP_append, ih hrest, List.map_cons,
          List.flatten_cons, List.countP_append, List.filter_cons]
        by_cases hk : c.1 = k
        · have hnot' : c.1 ∉ keys := hk ▸ hnot
          by_cases hq : q c.2
          · simp [hk, hq, hnot]
            omega
          · simp [hk, hq]
        · simp only [hk, decide_false, Bool.false_eq_true, if_false, List.mem_cons, false_or]
          omega
    rw [hcons keys hkeys, ih fun c' hc' => hmem c' (List.mem_cons_of_mem _ hc'), List.countP_cons]
    simp [hmem c List.mem_cons_self]

/-- Sums that are equal although no summand is less than the one beside it. -/
theorem eq_of_sum_eq {f g : β → Nat} {rows : List β} (hle : ∀ b ∈ rows, f b ≤ g b)
    (hsum : (rows.map f).sum = (rows.map g).sum) : ∀ b ∈ rows, f b = g b := by
  induction rows with
  | nil => exact fun _ hb => absurd hb List.not_mem_nil
  | cons b rows ih =>
    have hrest : (rows.map f).sum ≤ (rows.map g).sum :=
      List.sum_le_sum fun b' hb' => hle b' (List.mem_cons_of_mem _ hb')
    have hhead := hle b List.mem_cons_self
    rw [List.map_cons, List.map_cons, List.sum_cons, List.sum_cons] at hsum
    refine List.forall_mem_cons.mpr ⟨by omega, ?_⟩
    exact ih (fun b' hb' => hle b' (List.mem_cons_of_mem _ hb')) (by omega)

/-- Two tables are the same if their rows are. -/
theorem map_map_eq_iff {columns : List α} {columns' : List γ} {δ : Type} {f : α → β → δ}
    {g : γ → β → δ} {rows : List β} (hlen : columns.length = columns'.length) :
    (columns.map fun a => rows.map (f a)) = (columns'.map fun c => rows.map (g c)) ↔
      ∀ b ∈ rows, (columns.map fun a => f a b) = columns'.map fun c => g c b := by
  induction columns generalizing columns' with
  | nil =>
    obtain rfl := List.length_eq_zero_iff.mp hlen.symm
    exact iff_of_true rfl fun _ _ => rfl
  | cons a columns ih =>
    obtain ⟨c, columns', rfl⟩ := List.exists_cons_of_length_eq_add_one hlen.symm
    simp only [List.map_cons, List.cons.injEq, List.map_inj_left]
    rw [ih (Nat.succ.inj hlen)]
    constructor
    · rintro ⟨hhead, hrest⟩ b hb
      exact ⟨hhead b hb, hrest b hb⟩
    · intro h
      exact ⟨fun b hb => (h b hb).1, fun b hb => (h b hb).2⟩

end counting

/-! ## All rows -/

/-- What is read of a row, if it could be written. -/
def Row.readCells (row : Row table) : List (UInt32 × ColumnValue) :=
  match row.readBack with
  | .ok cells => cells.reduceOption
  | .error _ => []

theorem readCells_of_readBack {row : Row table} {cells : List (Option (UInt32 × ColumnValue))}
    (h : row.readBack = .ok cells) : row.readCells = cells.reduceOption := by
  unfold Row.readCells
  rw [h]

theorem reduceOption_flatten {rows : List (Row table)}
    {cells : List (List (Option (UInt32 × ColumnValue)))} (h : rows.mapM Row.readBack = .ok cells) :
    cells.flatten.reduceOption = (rows.map Row.readCells).flatten := by
  have hcalls := Fallible.forall₂_of_mapM h
  clear h
  induction hcalls with
  | nil => rfl
  | cons hhead _ ih =>
    rw [List.flatten_cons, List.reduceOption_append, ih, List.map_cons, List.flatten_cons,
      readCells_of_readBack hhead]

/-- If every row comes back as itself, so does every column. -/
theorem cellsOf_own {rows : List (Row table)} {cells : List (Option (UInt32 × ColumnValue))}
    (hcells : cells.reduceOption = (rows.map fun row => table.idOrder.map fun colId =>
      (colId, row.value colId)).flatten) {colId : UInt32} (hmem : colId ∈ table.idOrder) :
    cellsOf cells colId = rows.map fun row => row.value colId := by
  have hrow : ∀ row : Row table, ((table.idOrder.map fun colId => (colId, row.value colId)).filter
      (·.1 = colId)).map (·.2) = [row.value colId] := by
    intro row
    have hfilter : table.idOrder.filter ((fun c : UInt32 × ColumnValue => decide (c.1 = colId)) ∘
        fun colId => (colId, row.value colId)) = [colId] := by
      show table.idOrder.filter (· = colId) = [colId]
      rw [List.filter_eq, List.count_eq_one_of_mem nodup_idOrder hmem]
      rfl
    rw [List.filter_map, hfilter]
    rfl
  unfold cellsOf
  rw [hcells]
  clear hcells
  induction rows with
  | nil => rfl
  | cons row rows ih =>
    rw [List.map_cons, List.flatten_cons, List.filter_append, List.map_append, ih, hrow]
    rfl

/-- The number of values of a row that satisfy `q`. -/
def Row.count (row : Row table) (q : ColumnValue → Bool) : Nat :=
  (table.columns.map fun col => row.value col.id).countP q

theorem count_eq_zero_iff {row : Row table} {q : ColumnValue → Bool} :
    row.count q = 0 ↔ ∀ col ∈ table.columns, q (row.value col.id) = false := by
  unfold Row.count
  rw [List.countP_eq_zero]
  simp

theorem countP_idOrder (hids : (table.columns.map (·.id)).Nodup) (row : Row table)
    (q : ColumnValue → Bool) :
    (table.idOrder.map fun colId => (colId, row.value colId)).countP (fun c => q c.2) =
      row.count q := by
  unfold Row.count
  rw [List.countP_map, (perm_idOrder hids).countP_eq, List.countP_map, List.countP_map]
  rfl

section back

variable {rows : List (Row table)} {cells : List (List (Option (UInt32 × ColumnValue)))}

/-- **As many cells come back as there are**, of every kind. -/
theorem sum_countP_readCells (hread : rows.mapM Row.readBack = .ok cells)
    (harrays : table.idOrder.map (cellsOf cells.flatten) =
      table.columns.map fun col => rows.map fun row => row.value col.id) (q : ColumnValue → Bool) :
    (rows.map fun row => row.readCells.countP fun c => q c.2).sum =
      (rows.map fun row => row.count q).sum := by
  have hmem : ∀ c ∈ cells.flatten.reduceOption, c.1 ∈ table.idOrder := by
    intro c hc
    obtain ⟨group, hgroup, hcell⟩ := List.mem_flatten.mp (List.reduceOption_mem_iff.mp hc)
    obtain ⟨row, -, hrow⟩ := Fallible.exists_of_mem_mapM hread hgroup
    obtain ⟨raw, -, hraw⟩ := Fallible.bind_eq_ok.mp hrow
    obtain ⟨entry, -, hentry⟩ := Fallible.exists_of_mem_mapM hraw hcell
    exact mem_idOrder.mpr (readCell_mem hentry)
  have hcount := congrArg (fun columns => List.countP q columns.flatten) harrays
  rw [countP_flatten_map table.columns rows (fun col row => row.value col.id) q] at hcount
  have hcells := countP_flatten_filter nodup_idOrder hmem q
  rw [reduceOption_flatten hread] at hcells
  show _ = (rows.map fun row => (table.columns.map fun col => row.value col.id).countP q).sum
  rw [← hcount]
  have hcolumns : table.idOrder.map (cellsOf cells.flatten) = table.idOrder.map fun k =>
      (((rows.map Row.readCells).flatten).filter (·.1 = k)).map (·.2) := by
    unfold cellsOf
    rw [reduceOption_flatten hread]
  rw [hcolumns, hcells, List.countP_flatten, List.map_map]
  rfl

theorem countP_own (hids : (table.columns.map (·.id)).Nodup) (row : Row table)
    (q : ColumnValue → Bool) : row.own.countP (fun c => q c.2) =
      if table.primaryKeyIndex.columnIds ≠ [] ∧
          ∀ value ∈ row.primaryValues, KeySerializer.Legible value.toString then row.count q
      else 0 := by
  unfold Row.own
  split
  · exact countP_idOrder hids row q
  · rfl

theorem ReadsAs.countP_eq {row : Row table} {cells extras : List (UInt32 × ColumnValue)}
    (h : ReadsAs row cells extras) (q : ColumnValue → Bool) :
    cells.countP (fun c => q c.2) = row.own.countP (fun c => q c.2) +
      if q (.string RowSerializer.null) then extras.length else 0 := by
  rw [h.cells_eq, List.countP_append]
  congr 1
  split
  · rename_i hq
    rw [List.countP_eq_length]
    intro c hc
    rw [h.null c hc]
    exact hq
  · rename_i hq
    rw [List.countP_eq_zero]
    intro c hc
    rw [h.null c hc]
    exact hq

theorem mem_values_of_mem_primaryValues {row : Row table} {value : ColumnValue}
    (h : value ∈ row.primaryValues) : ∃ col ∈ table.columns, row.value col.id = value := by
  obtain ⟨v, hv, rfl⟩ := List.mem_map.mp h
  obtain ⟨col, hcol, rfl⟩ := List.mem_map.mp (List.mem_filter.mp hv).1
  exact ⟨col, hcol, rfl⟩

variable (hids : (table.columns.map (·.id)).Nodup)
  (hreads : ∀ row ∈ rows, ∃ extras, ReadsAs row row.readCells extras)
  (hsum : ∀ q : ColumnValue → Bool, (rows.map fun row => row.readCells.countP fun c => q c.2).sum =
    (rows.map fun row => row.count q).sum)

include hids hreads hsum in
/-- Of a kind that `NULL` is not of, no row has more than comes back of it. -/
theorem count_eq_countP {q : ColumnValue → Bool} (hq : q (.string RowSerializer.null) = false) :
    ∀ row ∈ rows, row.own.countP (fun c => q c.2) = row.count q := by
  have hcells : ∀ row ∈ rows, row.readCells.countP (fun c => q c.2) =
      row.own.countP fun c => q c.2 := by
    intro row hrow
    obtain ⟨extras, h⟩ := hreads row hrow
    rw [h.countP_eq, hq]
    rfl
  have hle : ∀ row ∈ rows, row.readCells.countP (fun c => q c.2) ≤ row.count q := by
    intro row hrow
    rw [hcells row hrow, countP_own hids]
    split
    · exact le_rfl
    · exact Nat.zero_le _
  intro row hrow
  rw [← hcells row hrow]
  exact eq_of_sum_eq hle (hsum q) row hrow

include hids hreads hsum in
/-- **Without a primary key nothing comes back** but `NULL`, and of a table of `NULL` not that. -/
theorem columnIds_ne_nil_of_back (hcolumns : table.columns ≠ []) (hrows : rows ≠ []) :
    table.primaryKeyIndex.columnIds ≠ [] := by
  intro hnil
  have hown : ∀ row : Row table, row.own = [] := fun row => if_neg fun h => h.1 hnil
  have hnulls : ∀ row ∈ rows, ∀ v ∈ row.cells, v.2 = .string RowSerializer.null := by
    intro row hrow v hv
    have hcount := count_eq_countP hids hreads hsum
      (q := fun value => value ≠ .string RowSerializer.null) (by simp) row hrow
    rw [hown row, List.countP_nil] at hcount
    obtain ⟨col, hcol, rfl⟩ := List.mem_map.mp hv
    simpa using count_eq_zero_iff.mp hcount.symm col hcol
  have hempty : ∀ row ∈ rows, row.readCells = [] := by
    intro row hrow
    obtain ⟨extras, h⟩ := hreads row hrow
    rw [h.cells_eq, hown row, h.unkeyed hnil (hnulls row hrow)]
    rfl
  obtain ⟨row, hrow⟩ := List.exists_mem_of_ne_nil rows hrows
  obtain ⟨col, hcol⟩ := List.exists_mem_of_ne_nil table.columns hcolumns
  have hcount := eq_of_sum_eq (fun row hrow => by
    rw [hempty row hrow]
    exact Nat.zero_le _) (hsum fun _ => true) row hrow
  rw [hempty row hrow, List.countP_nil] at hcount
  exact absurd (count_eq_zero_iff.mp hcount.symm col hcol) (by simp)

include hids hreads hsum in
/-- **No row is lost**: a lost one has a value of slashes, and no other row would make up for it. -/
theorem legible_of_back :
    ∀ row ∈ rows, ∀ value ∈ row.primaryValues, KeySerializer.Legible value.toString := by
  intro row hrow
  by_contra hillegible
  have hcount := count_eq_countP hids hreads hsum
    (q := fun value => ¬ KeySerializer.Legible value.toString) (by decide) row hrow
  rw [countP_own hids row fun value => ¬ KeySerializer.Legible value.toString,
    if_neg fun h => hillegible h.2] at hcount
  refine hillegible ?_
  intro value hvalue
  obtain ⟨col, hcol, rfl⟩ := mem_values_of_mem_primaryValues hvalue
  simpa using count_eq_zero_iff.mp hcount.symm col hcol

include hids hreads hsum in
/-- **And nothing is added.** -/
theorem readCells_of_back (hne : table.primaryKeyIndex.columnIds ≠ []) :
    ∀ row ∈ rows, row.readCells = table.idOrder.map (fun colId => (colId, row.value colId)) ∧
      ∀ value ∈ secondaryIdxValues table row.cells 0, ¬ KeySerializer.Legible value.toString := by
  have hlegible := legible_of_back hids hreads hsum
  have hcount : ∀ row ∈ rows, row.count (fun _ => true) =
      row.readCells.countP fun _ => true := by
    refine eq_of_sum_eq ?_ (hsum fun _ => true).symm
    intro row hrow
    obtain ⟨extras, h⟩ := hreads row hrow
    rw [h.countP_eq fun _ => true, countP_own hids row fun _ => true,
      if_pos ⟨hne, hlegible row hrow⟩]
    exact Nat.le_add_right _ _
  intro row hrow
  obtain ⟨extras, h⟩ := hreads row hrow
  have hlength := hcount row hrow
  rw [h.countP_eq fun _ => true, countP_own hids row fun _ => true,
    if_pos ⟨hne, hlegible row hrow⟩, if_pos rfl] at hlength
  have hnil : extras = [] := List.length_eq_zero_iff.mp (by omega)
  refine ⟨?_, h.hidden hne (hlegible row hrow) hnil⟩
  rw [h.cells_eq, hnil, List.append_nil]
  exact if_pos ⟨hne, hlegible row hrow⟩

end back

/-- A schema by which a row was written. -/
theorem serializable_of_rawTableRow {row : Row table} {raw : RawTableRow}
    (hnames : (table.columns.map (·.name)).Nodup) (hraw : rawTableRow table row.cells = .ok raw) :
    Serializable table := by
  obtain ⟨hrow, secondaryKeys, hsecondary, -⟩ := rawTableRow_ok_iff.mp hraw
  refine ⟨hnames, ?_, ?_⟩
  · have hlen : (primaryIdxValues table row.cells).length =
        table.primaryKeyIndex.columnIds.length := hrow
    unfold primaryIdxValues at hlen
    rw [cells_filter row table.isPrimaryKeyColumn, List.length_map] at hlen
    exact hlen
  · intro col hcol idxId hidx
    have hmem : idxId ∈ table.writtenIds :=
      List.mem_dedup.mpr (List.mem_flatMap.mpr ⟨col, hcol, hidx⟩)
    obtain ⟨key, -, hkey⟩ := Fallible.exists_of_mem_mapM_left hsecondary hmem
    obtain ⟨index, hfind, hlen, -⟩ := secondaryIndexKey_eq_ok hkey
    refine ⟨index, hfind, ?_⟩
    unfold secondaryIdxValues at hlen
    rw [cells_filter row fun colId => decide (idxId ∈ table.indexIds colId), List.length_map] at hlen
    exact hlen.symm

/-- **Which tables come back.** With distinct column ids and the primary key in index 0,
`deserialize` returns the table that was serialized exactly if it has a column, the column types are
in the order of the column ids, and, where there is a row, the schema can be serialized, the primary
key has a column, and every row survives: its key values are not empty or slashes only, its values
are in the order of the column ids, and no second index 0 has anything to read. -/
theorem roundTrips_iff (hids : (table.columns.map (·.id)).Nodup)
    (hzero : table.primaryKeyIndex.id = 0) (rows : List (Row table)) :
    RoundTrips rows ↔ Survive rows := by
  have hlength : table.idOrder.length = table.columns.length := by
    rw [(perm_idOrder hids).length_eq, List.length_map]
  -- if every row comes back as itself, the arrays are the columns if the values are in order
  have harrays : ∀ {cells : List (List (Option (UInt32 × ColumnValue)))},
      cells.flatten.reduceOption = (rows.map fun row => table.idOrder.map fun colId =>
        (colId, row.value colId)).flatten →
      (table.idOrder.map (cellsOf cells.flatten) =
        (table.columns.map fun col => rows.map fun row => row.value col.id) ↔
      ∀ row ∈ rows, table.idOrder.map row.value = table.columns.map fun col => row.value col.id) := by
    intro cells hcells
    have hcolumns : table.idOrder.map (cellsOf cells.flatten) =
        table.idOrder.map fun colId => rows.map fun row => row.value colId :=
      List.map_congr_left fun colId hmem => cellsOf_own hcells hmem
    rw [hcolumns]
    exact map_map_eq_iff hlength
  rw [roundTrips_iff_cells hids]
  unfold Survive
  refine and_congr_right fun hcolumns => and_congr_right fun _ => ?_
  constructor
  · rintro ⟨hnames, cells, hread, hback⟩
    by_cases hrows : rows = []
    · exact .inl hrows
    · right
      have hreads : ∀ row ∈ rows, ∃ extras, ReadsAs row row.readCells extras := by
        intro row hrow
        obtain ⟨group, -, hgroup⟩ := Fallible.exists_of_mem_mapM_left hread hrow
        rw [readCells_of_readBack hgroup]
        exact readsAs_of_readBack hids hzero hgroup
      have hsum := sum_countP_readCells hread hback
      have hne := columnIds_ne_nil_of_back hids hreads hsum hcolumns hrows
      have hown := readCells_of_back hids hreads hsum hne
      have hinOrder := (harrays (by
        rw [reduceOption_flatten hread]
        exact congrArg List.flatten (List.map_congr_left fun row hrow => (hown row hrow).1))).mp hback
      obtain ⟨row, hrow⟩ := List.exists_mem_of_ne_nil rows hrows
      obtain ⟨group, -, hgroup⟩ := Fallible.exists_of_mem_mapM_left hread hrow
      obtain ⟨raw, hraw, -⟩ := Fallible.bind_eq_ok.mp hgroup
      refine ⟨serializable_of_rawTableRow (hnames.resolve_left hrows) hraw, hne, ?_⟩
      intro row hrow
      exact ⟨legible_of_back hids hreads hsum row hrow, (hown row hrow).2, hinOrder row hrow⟩
  · intro hsurvive
    have hrow : ∀ row ∈ rows, ∃ cells, row.readBack = .ok cells ∧
        cells.reduceOption = table.idOrder.map fun colId => (colId, row.value colId) := by
      intro row hrow
      rcases hsurvive with rfl | ⟨htable, hne, hsurvives⟩
      · exact absurd hrow List.not_mem_nil
      · exact (hsurvives row hrow).readBack hids hzero htable hne
    have hinOrder : ∀ row ∈ rows,
        table.idOrder.map row.value = table.columns.map fun col => row.value col.id := by
      intro row hrow
      rcases hsurvive with rfl | ⟨-, -, hsurvives⟩
      · exact absurd hrow List.not_mem_nil
      · exact (hsurvives row hrow).inOrder
    obtain ⟨cells, hread, -⟩ := Fallible.mapM_exists (P := fun _ => True) fun row h => by
      obtain ⟨cells, hcells, -⟩ := hrow row h
      exact ⟨cells, hcells, trivial⟩
    have hown : ∀ row ∈ rows,
        row.readCells = table.idOrder.map fun colId => (colId, row.value colId) := by
      intro row h
      obtain ⟨group, hgroup, hcells⟩ := hrow row h
      rw [readCells_of_readBack hgroup, hcells]
    refine ⟨hsurvive.imp_right fun h => h.1.names, cells, hread, ?_⟩
    refine (harrays ?_).mpr hinOrder
    rw [reduceOption_flatten hread]
    exact congrArg List.flatten (List.map_congr_left hown)

theorem roundTrips_iff_users : RoundTrips [userRow 1 "a/", userRow 2 "", userRow 1 "/"] :=
  (roundTrips_iff (by decide) rfl _).mpr (by decide +kernel)

/-- Tags, which are their own keys. -/
def tagsTable : Table where
  id := 2
  dbId := 1
  columns := [⟨1, "tag", .string⟩]
  primaryKeyIndex := ⟨0, [1]⟩
  secondaryIndex := []

def tagRow (tag : String) : Row tagsTable where
  value _ := .string tag.toList
  typed := by
    intro col hcol
    obtain rfl := List.mem_singleton.mp hcol
    rfl

/-- **The empty tag does not come back**: the reader takes the separators around it for an escaped
slash, and never gets to the column id. -/
theorem empty_key_is_lost :
    (do
      let raws ← serialize tagsTable (arrowTable tagsTable.columns [tagRow "", tagRow "a"])
      deserialize tagsTable raws) = .ok (arrowTable tagsTable.columns [tagRow "a"]) ∧
    ¬ RoundTrips [tagRow "", tagRow "a"] := by
  have hlost : (do
      let raws ← serialize tagsTable (arrowTable tagsTable.columns [tagRow "", tagRow "a"])
      deserialize tagsTable raws) = .ok (arrowTable tagsTable.columns [tagRow "a"]) := by
    decide +kernel
  refine ⟨hlost, ?_⟩
  rintro ⟨hback, -⟩
  rw [hlost] at hback
  exact absurd hback (by decide)

end ReplicatedCounter.MyDb
