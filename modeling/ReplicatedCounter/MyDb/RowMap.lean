import Mathlib.Data.List.Induction
import ReplicatedCounter.MyDb.InsertErrors
import ReplicatedCounter.MyDb.Rows

/-!
# The row store as a map

What a table holds after some calls should be a map from primary keys to rows: `lastWritten`. It is,
as far as one looks for a key that is `Clear`: no other row's key begins with it, and if there is a
row with it the parser can read its key. For integers `1` is not clear of `12`.

The store is compared with the list of all rows that were written, the last one last. `Stores` says
that under the keys of the primary index the store has what the last of them left there; nothing is
said about secondary indexes but that their keys are others.
-/

set_option autoImplicit false

namespace ReplicatedCounter.MyDb

open KeySerializer RowSerializer QueryExecutor

variable {table : Table}

/-! ## Calls -/

/-- A call that writes rows. -/
inductive Call (table : Table) where
  | insert (rows : List (Row table))
  | update (rows : List (Row table)) (option : UpdateOptions)

/-- The rows of a call. -/
def Call.rows : Call table → List (Row table)
  | .insert rows => rows
  | .update rows _ => rows

def Call.run (rocks : Rocks) : Call table → Except ExecutionError Rocks
  | .insert rows => QueryExecutor.insert rocks table (arrowTable table.columns rows)
  | .update rows option => QueryExecutor.update rocks table (arrowTable table.columns rows) option

/-- All rows of some calls. -/
def written (calls : List (Call table)) : List (Row table) := calls.flatMap Call.rows

/-- The row that was written last under a primary key. -/
def lastWritten (rows : List (Row table)) (key : List ColumnValue) : Option (Row table) :=
  rows.reverse.find? (·.primaryKey = key)

/-- A key that can be looked for. -/
structure Clear (rows : List (Row table)) (key : List ColumnValue) : Prop where
  /-- No other row's key begins with it. -/
  apart : ∀ row ∈ rows, rowKey table key <+: rowKey table row.primaryKey → row.primaryKey = key
  legible : ∀ row ∈ rows, row.primaryKey = key → row.Legible

instance (rows : List (Row table)) (key : List ColumnValue) : Decidable (Clear rows key) :=
  decidable_of_iff
    ((∀ row ∈ rows, rowKey table key <+: rowKey table row.primaryKey → row.primaryKey = key) ∧
      ∀ row ∈ rows, row.primaryKey = key → row.Legible)
    ⟨fun h => ⟨h.1, h.2⟩, fun h => ⟨h.apart, h.legible⟩⟩

/-! ## What the store holds -/

/-- A key of the primary index. -/
def InPrimaryIndex (table : Table) (key : Bytes) : Prop :=
  ∃ r, Separated r ∧ key = minimumIndexKey table table.primaryKeyIndex.id ++ r

/-- Under the keys of the primary index the store has what the rows have left. -/
def Stores (rocks : Rocks) (rows : List (Row table)) : Prop :=
  ∀ key, InPrimaryIndex table key →
    rocks.find? key = SortedMap.lastValue (rows.flatMap Row.entries) key

/-- What begins with the key of a row is in the primary index. -/
theorem inPrimaryIndex_of_begins (h : table.Keyed) (row : Row table) {key : Bytes}
    (hkey : rowKey table row.primaryKey <+: key) : InPrimaryIndex table key := by
  obtain ⟨t, rfl⟩ := hkey
  refine ⟨keyParts table.primaryKeyIndex.columnIds row.primaryKey ++ t, ?_, ?_⟩
  · unfold Row.primaryKey
    cases hids : table.primaryKeyIndex.columnIds with
    | nil => exact absurd hids h.ownIndex.columnIds_ne
    | cons colId columnIds =>
      have := separated_pad colId (defaultEscapeCharacter :: escapeString (row.value colId).toString ++
        keyParts columnIds (columnIds.map row.value) ++ t)
      simpa [keyParts] using this
  · unfold rowKey
    rw [List.append_assoc]

theorem not_inPrimaryIndex (h : table.Keyed) {index : Index} (hindex : index ∈ table.secondaryIndex)
    {r : Bytes} (hr : Separated r) : ¬ InPrimaryIndex table (minimumIndexKey table index.id ++ r) := by
  rintro ⟨r', hr', heq⟩
  exact h.ownIndex.id_ne index hindex (minimumIndexKey_append_inj hr hr' heq).2.2.1

/-! ## A call -/

/-- In the primary index, what is written for rows is their entries. -/
theorem lastValue_serialize (h : table.Keyed) {rows : List (Row table)} {raws : List RawTableRow}
    (hser : serialize table (arrowTable table.columns rows) = .ok raws) {key : Bytes}
    (hkey : InPrimaryIndex table key) :
    SortedMap.lastValue raws.flatten key = SortedMap.lastValue (rows.flatMap Row.entries) key := by
  rw [serialize_arrowTable h] at hser
  have hraws := Fallible.forall₂_of_mapM hser
  clear hser
  induction hraws with
  | nil => rfl
  | @cons row raw rows raws hraw _ ih =>
    obtain ⟨secondaryKeys, rfl, hsecondary⟩ := rawTableRow_eq h hraw
    have hnone : SortedMap.lastValue (secondaryKeys.map fun key => (key, null)) key = none := by
      rw [SortedMap.lastValue_eq_none, List.map_map]
      intro hmem
      obtain ⟨key', hkey', rfl⟩ := List.mem_map.mp hmem
      obtain ⟨index, hindex, r, hr, rfl⟩ := hsecondary key' hkey'
      exact not_inPrimaryIndex h hindex hr hkey
    rw [List.flatten_cons, List.flatMap_cons, SortedMap.lastValue_append, SortedMap.lastValue_append,
      SortedMap.lastValue_append, ih, hnone, Option.none_or]

/-- **A call that returns has written its rows over what was there.** -/
theorem Call.run_ok {rocks rocks' : Rocks} {call : Call table} (hrun : call.run rocks = .ok rocks') :
    ∃ raws, serialize table (arrowTable table.columns call.rows) = .ok raws ∧
      rocks' = RocksReaderWriter.write rocks raws := by
  cases call with
  | insert rows =>
    obtain ⟨-, raws, -, -, hser, hwrite⟩ := insert_ok hrun
    exact ⟨raws, hser, hwrite⟩
  | update rows option => exact update_ok hrun

theorem Stores.run (h : table.Keyed) {rocks rocks' : Rocks} {rows : List (Row table)}
    (hstores : Stores rocks rows) {call : Call table} (hrun : call.run rocks = .ok rocks') :
    Stores rocks' (rows ++ call.rows) := by
  obtain ⟨raws, hser, rfl⟩ := Call.run_ok hrun
  intro key hkey
  rw [RocksReaderWriter.find?_write, lastValue_serialize h hser hkey, hstores key hkey,
    List.flatMap_append, SortedMap.lastValue_append]

/-- **After some calls** the store has what all their rows have left. -/
theorem Stores.runAll (h : table.Keyed) {calls : List (Call table)} {rocks rocks' : Rocks}
    {rows : List (Row table)} (hstores : Stores rocks rows)
    (hrun : calls.foldlM Call.run rocks = .ok rocks') : Stores rocks' (rows ++ written calls) := by
  induction calls generalizing rocks rows with
  | nil =>
    cases hrun
    unfold written
    rw [List.flatMap_nil, List.append_nil]
    exact hstores
  | cons call calls ih =>
    rw [List.foldlM_cons] at hrun
    obtain ⟨rocks₁, hcall, hrest⟩ := Fallible.bind_eq_ok.mp hrun
    have := ih (hstores.run h hcall) hrest
    unfold written at this ⊢
    rwa [List.flatMap_cons, ← List.append_assoc]

theorem stores_empty : Stores (.empty : Rocks) ([] : List (Row table)) := fun _ _ => rfl

/-! ## A scan -/

/-- The keys of a row's entries depend on its primary key only. -/
theorem keys_entries (row : Row table) : row.entries.map (·.1) =
    rowKey table row.primaryKey :: table.columns.map fun col =>
      columnKey (rowKey table row.primaryKey) col.id := by
  unfold Row.entries
  rw [List.map_cons, List.map_map]
  rfl

theorem nodup_keys_entries (h : table.Keyed) (row : Row table) : (row.entries.map (·.1)).Nodup := by
  rw [keys_entries, List.nodup_cons]
  constructor
  · intro hmem
    obtain ⟨col, -, heq⟩ := List.mem_map.mp hmem
    unfold columnKey at heq
    simp at heq
  · have hids : (table.columns.map (·.id)).Nodup := h.ids.imp fun hlt => hlt.ne
    have hmap : (table.columns.map fun col => columnKey (rowKey table row.primaryKey) col.id) =
        (table.columns.map (·.id)).map (columnKey (rowKey table row.primaryKey)) := by
      rw [List.map_map]
      rfl
    rw [hmap]
    refine hids.map fun a b hab => ?_
    unfold columnKey at hab
    exact pad_injective (by simpa using hab)

/-- The key of a row that another key begins with begins with it already without the column id. -/
theorem rowKey_prefix_of_mem {row row' : Row table} {key : Bytes} (hkey : key ∈ row'.entries.map (·.1))
    (hbegins : rowKey table row.primaryKey <+: key) :
    rowKey table row.primaryKey <+: rowKey table row'.primaryKey := by
  rw [keys_entries] at hkey
  rcases List.mem_cons.mp hkey with rfl | hkey
  · exact hbegins
  · obtain ⟨col, -, rfl⟩ := List.mem_map.mp hkey
    unfold columnKey rowKey at hbegins
    rw [List.append_assoc, List.prefix_append_right_inj] at hbegins
    unfold rowKey
    rw [List.prefix_append_right_inj]
    exact keyParts_prefix (by simp [Row.primaryKey]) (by simp [Row.primaryKey]) hbegins

theorem lastWritten_concat (rows : List (Row table)) (row : Row table) (key : List ColumnValue) :
    lastWritten (rows ++ [row]) key =
      if row.primaryKey = key then some row else lastWritten rows key := by
  unfold lastWritten
  rw [List.reverse_append, List.reverse_singleton, List.singleton_append, List.find?_cons]
  by_cases hkey : row.primaryKey = key <;> simp [hkey]

/-- **What is left under a key that begins with a clear one** is what the last row with that primary
key has left. -/
theorem lastValue_of_clear {rows : List (Row table)} {query : Row table}
    (hclear : Clear rows query.primaryKey) {key : Bytes}
    (hbegins : rowKey table query.primaryKey <+: key) :
    SortedMap.lastValue (rows.flatMap Row.entries) key =
      (lastWritten rows query.primaryKey).bind fun row => SortedMap.lastValue row.entries key := by
  induction rows using List.reverseRecOn with
  | nil => rfl
  | append_singleton rows row ih =>
    have hrest : Clear rows query.primaryKey :=
      ⟨fun r hr => hclear.apart r (List.mem_append_left _ hr),
        fun r hr => hclear.legible r (List.mem_append_left _ hr)⟩
    rw [List.flatMap_append, SortedMap.lastValue_append, ih hrest, lastWritten_concat,
      List.flatMap_singleton]
    by_cases hkey : row.primaryKey = query.primaryKey
    · rw [if_pos hkey, Option.bind_some]
      cases hvalue : SortedMap.lastValue row.entries key with
      | some value => rfl
      | none =>
        -- an earlier row with the primary key has the same keys
        rw [Option.none_or]
        cases hlast : lastWritten rows query.primaryKey with
        | none => rfl
        | some earlier =>
          have hsame : earlier.primaryKey = query.primaryKey := by
            simpa using List.find?_some hlast
          rw [SortedMap.lastValue_eq_none, keys_entries, hkey] at hvalue
          rw [Option.bind_some, SortedMap.lastValue_eq_none, keys_entries, hsame]
          exact hvalue
    · have hnone : SortedMap.lastValue row.entries key = none := by
        rw [SortedMap.lastValue_eq_none]
        intro hmem
        exact hkey (hclear.apart row (List.mem_append_right _ List.mem_cons_self)
          (rowKey_prefix_of_mem hmem hbegins))
      rw [if_neg hkey, hnone, Option.none_or]

/-- **A scan for a clear key** finds the entries of the row that was written last under it. -/
theorem found_scan (h : table.Keyed) {rocks : Rocks} {rows : List (Row table)}
    (hstores : Stores rocks rows) {query : Row table} (hclear : Clear rows query.primaryKey) :
    Found (rocks.scan (rowKey table query.primaryKey)) (lastWritten rows query.primaryKey) := by
  have hscan : ∀ e, e ∈ rocks.scan (rowKey table query.primaryKey) ↔
      rowKey table query.primaryKey <+: e.1 ∧ ((lastWritten rows query.primaryKey).bind fun row =>
        SortedMap.lastValue row.entries e.1) = some e.2 := by
    rintro ⟨key, value⟩
    rw [SortedMap.mem_scan]
    refine and_congr_right fun hbegins => ?_
    rw [hstores key (inPrimaryIndex_of_begins h query hbegins), lastValue_of_clear hclear hbegins]
  cases hlast : lastWritten rows query.primaryKey with
  | none =>
    show rocks.scan _ = []
    rw [List.eq_nil_iff_forall_not_mem]
    intro e he
    have := ((hscan e).mp he).2
    rw [hlast] at this
    cases this
  | some row =>
    have hmem : row ∈ rows := List.mem_reverse.mp (List.mem_of_find?_eq_some hlast)
    have hkey : row.primaryKey = query.primaryKey := by simpa using List.find?_some hlast
    refine ⟨hclear.legible row hmem hkey, ?_, fun e => ?_⟩
    · have hsorted : (rocks.scan (rowKey table query.primaryKey)).Pairwise (·.1 < ·.1) := by
        rw [SortedMap.scan_eq_filter]
        exact rocks.sorted.filter _
      exact List.pairwise_map.mpr (hsorted.imp fun hlt => hlt.ne)
    · rw [hscan, hlast, Option.bind_some, SortedMap.lastValue_eq_some (nodup_keys_entries h row)]
      refine and_iff_right_of_imp fun he => ?_
      have hkeys : e.1 ∈ row.entries.map (·.1) := List.mem_map_of_mem he
      rw [keys_entries, hkey] at hkeys
      rcases List.mem_cons.mp hkeys with heq | hkeys
      · exact heq ▸ List.prefix_rfl
      · obtain ⟨col, -, heq⟩ := List.mem_map.mp hkeys
        rw [← heq]
        exact List.prefix_append _ _

/-! ## The map -/

/-- **`get`** returns the rows that were written last under the keys it is given, as far as there
are any. -/
theorem get_arrowTable (h : table.Keyed) {rocks : Rocks} {rows : List (Row table)}
    (hstores : Stores rocks rows) {columns : List Column} (hnames : (columns.map (·.name)).Nodup)
    (hcolumns : ∀ col ∈ table.primaryKeyColumns, col ∈ columns) {queries : List (Row table)}
    (hclear : ∀ query ∈ queries, Clear rows query.primaryKey) :
    QueryExecutor.get rocks table (arrowTable columns queries) = .ok (arrowTable table.columns
      (queries.filterMap fun query => lastWritten rows query.primaryKey)) := by
  have hfound : List.Forall₂ Found
      (RocksReaderWriter.read rocks (queries.map fun query => rowKey table query.primaryKey))
      (queries.map fun query => lastWritten rows query.primaryKey) := by
    unfold RocksReaderWriter.read
    rw [List.map_map, List.forall₂_map_left_iff, List.forall₂_map_right_iff, List.forall₂_same]
    exact fun query hquery => found_scan h hstores (hclear query hquery)
  unfold QueryExecutor.get
  rw [serializePrimaryKeys_arrowTable h hnames hcolumns]
  show deserialize table _ = _
  rw [deserialize_entries h hfound, List.filterMap_map]
  rfl

/-- **`insert`** finds a row exactly if one was written under a key it is given. -/
theorem insert_arrowTable (h : table.Keyed) {rocks : Rocks} {rows : List (Row table)}
    (hstores : Stores rocks rows) {queries : List (Row table)}
    (hclear : ∀ query ∈ queries, Clear rows query.primaryKey) :
    QueryExecutor.insert rocks table (arrowTable table.columns queries) =
        .error (.runtimeError "row already exists") ↔
      ∃ query ∈ queries, lastWritten rows query.primaryKey ≠ none := by
  have hget := get_arrowTable h hstores h.names (fun col hcol => (List.mem_filter.mp hcol).1) hclear
  have hrows : (queries.filterMap fun query => lastWritten rows query.primaryKey).length ≠ 0 ↔
      ∃ query ∈ queries, lastWritten rows query.primaryKey ≠ none := by
    rw [ne_eq, List.length_eq_zero_iff, List.filterMap_eq_nil_iff]
    simp
  rw [← hrows, ← numRows_arrowTable (columns_ne_nil h)]
  exact insert_refused_iff.trans (taken_iff hget)

/-- The entries of a row are among those that are written for it. -/
theorem mem_serialize (h : table.Keyed) {row : Row table} {raws : List RawTableRow}
    (hser : serialize table (arrowTable table.columns [row]) = .ok raws) :
    ∀ e ∈ row.entries, e ∈ raws.flatten := by
  intro e he
  rw [serialize_arrowTable h] at hser
  cases Fallible.forall₂_of_mapM hser with
  | cons hraw hrest =>
    cases hrest
    obtain ⟨secondaryKeys, rfl, -⟩ := rawTableRow_eq h hraw
    rw [List.flatten_singleton]
    exact List.mem_append_left _ he

/-- **A row that could be inserted was not there, and is.** -/
theorem insert_fresh (h : table.Keyed) {col : Column} {columns : List Column}
    (hcolumns : table.columns = col :: columns) {row : Row table} (hrow : row.Legible)
    {rocks rocks' : Rocks}
    (hinsert : QueryExecutor.insert rocks table (arrowTable table.columns [row]) = .ok rocks') :
    rocks.find? (columnKey (rowKey table row.primaryKey) col.id) = none ∧
      rocks'.find? (columnKey (rowKey table row.primaryKey) col.id) ≠ none := by
  obtain ⟨result, raws, hget, hzero, hser, rfl⟩ := insert_ok hinsert
  refine ⟨?_, ?_⟩
  · cases hfind : rocks.find? (columnKey (rowKey table row.primaryKey) col.id) with
    | none => rfl
    | some value =>
      -- the scan would have met it
      unfold QueryExecutor.get at hget
      rw [serializePrimaryKeys_arrowTable h h.names (fun _ hcol => (List.mem_filter.mp hcol).1)]
        at hget
      have hmem : (columnKey (rowKey table row.primaryKey) col.id, value) ∈
          (RocksReaderWriter.read rocks [rowKey table row.primaryKey]).flatten := by
        unfold RocksReaderWriter.read
        rw [List.map_singleton, List.flatten_singleton, SortedMap.mem_scan]
        exact ⟨List.prefix_append _ _, hfind⟩
      exact absurd hzero (numRows_ne_zero h hcolumns hrow hmem hget)
  · have hmem : columnKey (rowKey table row.primaryKey) col.id ∈ raws.flatten.map (·.1) := by
      refine List.mem_map.mpr
        ⟨(_, (row.value col.id).toString), mem_serialize h hser _ (List.mem_cons_of_mem _ ?_), rfl⟩
      exact List.mem_map.mpr ⟨col, hcolumns ▸ List.mem_cons_self, rfl⟩
    exact RocksReaderWriter.find?_write_ne_none_iff.mpr (.inl hmem)

/-- **The row store is a map from primary keys to rows**, for keys that are clear. After any calls
that returned, `get` gives back the rows that were written last under its keys and no others, and
`insert` refuses its rows exactly if there is one under one of their keys. -/
theorem row_store_is_map (h : table.Keyed) (calls : List (Call table)) {rocks : Rocks}
    (hrun : calls.foldlM Call.run .empty = .ok rocks) (queries : List (Row table))
    (hclear : ∀ query ∈ queries, Clear (written calls) query.primaryKey) :
    QueryExecutor.get rocks table (arrowTable table.primaryKeyColumns queries) =
        .ok (arrowTable table.columns
          (queries.filterMap fun query => lastWritten (written calls) query.primaryKey)) ∧
      (QueryExecutor.insert rocks table (arrowTable table.columns queries) =
          .error (.runtimeError "row already exists") ↔
        ∃ query ∈ queries, lastWritten (written calls) query.primaryKey ≠ none) := by
  have hstores : Stores rocks (written calls) := stores_empty.runAll h hrun
  have hnames : (table.primaryKeyColumns.map (·.name)).Nodup :=
    h.names.sublist (List.filter_sublist.map _)
  exact ⟨get_arrowTable h hstores hnames (fun _ hcol => hcol) hclear,
    insert_arrowTable h hstores hclear⟩

/-- Users by number, with an index of their names. -/
def usersTable : Table where
  id := 1
  dbId := 1
  columns := [⟨1, "id", .int64⟩, ⟨2, "name", .string⟩]
  primaryKeyIndex := ⟨0, [1]⟩
  secondaryIndex := [⟨1, [2]⟩]

theorem usersTable_keyed : usersTable.Keyed where
  ids := by decide
  names := by decide
  columnIds := by decide
  ownIndex := ⟨by decide, by decide⟩

def userRow (id : Int64) (name : String) : Row usersTable where
  value colId := if colId = 1 then .int64 id else .string name.toList
  typed := by
    intro col hcol
    simp only [usersTable, List.mem_cons, List.not_mem_nil, or_false] at hcol
    rcases hcol with rfl | rfl <;> rfl

def usersCalls : List (Call usersTable) :=
  [.insert [userRow 1 "a", userRow 2 "b/"], .update [userRow 1 "c"] .replace]

theorem row_store_is_map_users :
    ∃ rocks, usersCalls.foldlM Call.run .empty = .ok rocks ∧
      QueryExecutor.get rocks usersTable
          (arrowTable usersTable.primaryKeyColumns [userRow 3 "", userRow 1 ""]) =
        .ok (arrowTable usersTable.columns [userRow 1 "c"]) ∧
      QueryExecutor.insert rocks usersTable
          (arrowTable usersTable.columns [userRow 3 "d", userRow 1 "e"]) =
        .error (.runtimeError "row already exists") := by
  obtain ⟨rocks, hrun⟩ : ∃ rocks, usersCalls.foldlM Call.run .empty = .ok rocks := ⟨_, rfl⟩
  have hget := (row_store_is_map usersTable_keyed usersCalls hrun [userRow 3 "", userRow 1 ""]
    (by decide +kernel)).1
  have hinsert := (row_store_is_map usersTable_keyed usersCalls hrun [userRow 3 "d", userRow 1 "e"]
    (by decide +kernel)).2
  refine ⟨rocks, hrun, hget.trans (by decide +kernel), hinsert.mpr ⟨userRow 1 "e", by simp, ?_⟩⟩
  intro hnone
  cases hnone

/-- **User 12 is found under 1**, and keeps user 1 out. -/
theorem row_found_under_prefix :
    ∃ rocks, [Call.insert [userRow 12 "a"]].foldlM Call.run .empty = .ok rocks ∧
      lastWritten [userRow 12 "a"] (userRow 1 "").primaryKey = none ∧
      QueryExecutor.get rocks usersTable (arrowTable usersTable.primaryKeyColumns [userRow 1 ""]) =
        .ok (arrowTable usersTable.columns [userRow 12 "a"]) ∧
      QueryExecutor.insert rocks usersTable (arrowTable usersTable.columns [userRow 1 "b"]) =
        .error (.runtimeError "row already exists") := by
  refine ⟨_, rfl, rfl, ?_, ?_⟩
  · decide +kernel
  · decide +kernel

end ReplicatedCounter.MyDb
