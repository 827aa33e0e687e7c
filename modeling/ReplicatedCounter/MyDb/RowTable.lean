import ReplicatedCounter.MyDb.ConditionalUpdate
import ReplicatedCounter.MyDb.GetRow
import ReplicatedCounter.MyDb.PagedScan

/-!
# What a table is for

A table has rows, one at most for each primary key, and keeps them in an order. It takes a new row, or
one in the place of an old one, finds a row by its primary key, and gives out those that meet a
condition. `RowTable.step` says so of every request; nothing of it is translated from the source.

Two oddities of the backend are part of it, as its clients cannot do without them. An update asks for
*some* row that meets its condition and is not locked, among the first hundred thousand. And it writes
its row whether there is one with its primary key or not.
-/

set_option autoImplicit false

namespace ReplicatedCounter.MyDb

open KeySerializer RowSerializer

variable {table : Table}

/-- Rows with different keys have different primary keys. -/
theorem primaryKey_eq_of_rowKey_eq (h : table.Keyed) {row row' : Row table}
    (heq : rowKey table row.primaryKey = rowKey table row'.primaryKey) :
    row.primaryKey = row'.primaryKey := by
  unfold rowKey at heq
  rw [List.append_cancel_left_eq] at heq
  have htexts := (keyParts_append_inj (by simp [Row.primaryKey]) (by simp [Row.primaryKey])
    separated_nil separated_nil (congrArg (· ++ []) heq)).1
  unfold Row.primaryKey at htexts ⊢
  rw [h.columnIds, List.map_map, List.map_map, List.map_map, List.map_map, List.map_inj_left] at *
  intro col hcol
  have hmem : col ∈ table.columns := (List.mem_filter.mp hcol).1
  exact toString_inj ((row.typed col hmem).trans (row'.typed col hmem).symm) (htexts col hcol)

theorem KeysApart.subset {rows rows' : List (Row table)} (hkeys : KeysApart rows)
    (hsub : rows' ⊆ rows) : KeysApart rows' :=
  fun a ha b hb => hkeys a (hsub ha) b (hsub hb)

theorem Row.Before.trans {row row' row'' : Row table} (h : row.Before row') (h' : row'.Before row'') :
    row.Before row'' := lt_trans (α := Bytes) h h'

/-- The rows of a table, in the order in which the store has them. -/
structure RowTable (table : Table) where
  rows : List (Row table)
  sorted : rows.Pairwise Row.Before

namespace RowTable

def empty : RowTable table := ⟨[], .nil⟩

/-- The row with a primary key. -/
def find? (t : RowTable table) (key : List ColumnValue) : Option (Row table) :=
  t.rows.find? (·.primaryKey = key)

/-- A row, in the place of the one with its primary key if there is one. -/
def put (t : RowTable table) (row : Row table) : RowTable table where
  rows := t.rows.filter (·.Before row) ++ row :: t.rows.filter (row.Before ·)
  sorted := by
    refine List.pairwise_append.mpr ⟨t.sorted.filter _, List.pairwise_cons.mpr ⟨?_, t.sorted.filter _⟩, ?_⟩
    · intro behind hbehind
      exact of_decide_eq_true (List.mem_filter.mp hbehind).2
    · intro before hbefore behind hbehind
      have hlt : before.Before row := of_decide_eq_true (List.mem_filter.mp hbefore).2
      rcases List.mem_cons.mp hbehind with rfl | hbehind
      · exact hlt
      · exact hlt.trans (of_decide_eq_true (List.mem_filter.mp hbehind).2)

variable {t : RowTable table} {row row' : Row table} {key : List ColumnValue}

theorem mem_put (h : table.Keyed) :
    row' ∈ (t.put row).rows ↔ row' = row ∨ row' ∈ t.rows ∧ row'.primaryKey ≠ row.primaryKey := by
  have hapart : row'.Before row ∨ row.Before row' ↔ row'.primaryKey ≠ row.primaryKey := by
    constructor
    · rintro (hlt | hlt) heq
      · exact hlt.rowKey_ne (congrArg (rowKey table) heq)
      · exact hlt.rowKey_ne (congrArg (rowKey table) heq.symm)
    · intro hne
      rcases lt_trichotomy (columnKey (rowKey table row'.primaryKey) 0)
        (columnKey (rowKey table row.primaryKey) 0) with hlt | heq | hlt
      · exact .inl hlt
      · unfold columnKey at heq
        exact absurd (primaryKey_eq_of_rowKey_eq h (List.append_cancel_right heq)) hne
      · exact .inr hlt
  unfold put
  rw [List.mem_append, List.mem_cons, List.mem_filter, List.mem_filter, decide_eq_true_iff,
    decide_eq_true_iff, ← hapart, and_or_left, or_left_comm]

/-- The table has no rows then that it had not before, but for the one that was put. -/
theorem cons_put_subset (h : table.Keyed) : row :: (t.put row).rows ⊆ row :: t.rows := by
  intro other hother
  rcases List.mem_cons.mp hother with rfl | hother
  · exact List.mem_cons_self
  · rcases (mem_put h).mp hother with rfl | ⟨hold, -⟩
    · exact List.mem_cons_self
    · exact List.mem_cons_of_mem _ hold

theorem find?_eq_some_iff : t.find? key = some row ↔ row ∈ t.rows ∧ row.primaryKey = key := by
  constructor
  · intro hfind
    exact ⟨List.mem_of_find?_eq_some hfind, by simpa using List.find?_some hfind⟩
  · rintro ⟨hrow, rfl⟩
    obtain ⟨found, hfind⟩ : ∃ found, t.find? row.primaryKey = some found :=
      Option.isSome_iff_exists.mp (List.find?_isSome.mpr ⟨row, hrow, decide_eq_true rfl⟩)
    have hkey : found.primaryKey = row.primaryKey := by simpa using List.find?_some hfind
    rw [hfind, eq_of_primaryKey_eq t.sorted (List.mem_of_find?_eq_some hfind) hrow hkey]

/-- **What was written last** under a primary key is the row with it. -/
theorem lastWritten_eq (t : RowTable table) (key : List ColumnValue) :
    lastWritten t.rows key = t.find? key := by
  cases hlast : lastWritten t.rows key with
  | some row =>
    have hmem : row ∈ t.rows := List.mem_reverse.mp (List.mem_of_find?_eq_some hlast)
    exact (find?_eq_some_iff.mpr ⟨hmem, by simpa using List.find?_some hlast⟩).symm
  | none =>
    refine (List.find?_eq_none.mpr fun row hrow => ?_).symm
    exact List.find?_eq_none.mp hlast row (List.mem_reverse.mpr hrow)

/-- **A row that was put is found**, and no other one is lost. -/
theorem find?_put (h : table.Keyed) :
    (t.put row).find? key = if row.primaryKey = key then some row else t.find? key := by
  split
  · rename_i hkey
    exact find?_eq_some_iff.mpr ⟨(mem_put h).mpr (.inl rfl), hkey⟩
  · rename_i hne
    ext found
    rw [find?_eq_some_iff, find?_eq_some_iff, mem_put h]
    constructor
    · rintro ⟨rfl | ⟨hmem, -⟩, hkey⟩
      · exact absurd hkey hne
      · exact ⟨hmem, hkey⟩
    · rintro ⟨hmem, rfl⟩
      exact ⟨.inr ⟨hmem, Ne.symm hne⟩, rfl⟩

end RowTable

/-! ## Requests -/

/-- A request for the rows of a table, with the row that it is about.

Its values are in any order, and in any text that is read as the value. -/
inductive RowRequest (table : Table) where
  | addRow (row : Row table) (columnValues : List client.ColumnValue)
      (gives : Transformer.Gives row table.columns columnValues)
  | updateRow (row : Row table) (columnValues : List client.ColumnValue)
      (gives : Transformer.Gives row table.columns columnValues) (updateType : UpdateOptions)
      (condition : Condition)
      (wellFormed : (DbImpl.addConditionToCheckWriteLock condition).WellFormed table.columns)
  /-- For a row with this primary key. -/
  | getRow (row : Row table) (primaryKeyValues : List (List client.ColumnValue))
      (gives : Transformer.Gives row table.primaryKeyColumns primaryKeyValues.flatten)
  | scanTable (returnColumns : List String)
      (known : ∀ name ∈ returnColumns, (table.getColumnId name).isSome) (condition : Condition)
      (wellFormed : condition.WellFormed table.columns)

namespace RowTable

/-- What a request does, and what it is answered. -/
def step (t : RowTable table) :
    RowRequest table → RowTable table × Except DbImpl.Error (List (List Bytes))
  | .addRow row _ _ =>
    match t.find? row.primaryKey with
    | some _ => (t, .error (.execution (.runtimeError "row already exists")))
    | none => (t.put row, .ok [row.texts])
  | .updateRow row _ _ _ condition _ =>
    if ∃ found ∈ t.rows.take 100000, condition.meets found.named ∧ found.Unlocked then
      (t.put row, .ok [])
    else (t, .error (.dbError .updateConditionFailed))
  | .getRow row _ _ => (t, .ok ((t.find? row.primaryKey).toList.map Row.texts))
  | .scanTable _ _ condition _ =>
    (t, .ok ((t.rows.filter fun row => condition.meets row.named).map Row.texts))

/-- The requests that a table can be asked.

* A row that is written has a key that the parser finds its way through, and that does not begin with
  that of another row, nor the other way round.
* Of a key that is looked for, no key of another row is a continuation.
* What is scanned is no more than Arrow reads at once. -/
def Admits (t : RowTable table) : RowRequest table → Prop
  | .addRow row _ _ => row.Legible ∧ KeysApart (row :: t.rows)
  | .updateRow row _ _ _ _ _ => row.Legible ∧ KeysApart (row :: t.rows)
  | .getRow row _ _ => ∀ other ∈ t.rows,
    rowKey table row.primaryKey <+: rowKey table other.primaryKey →
      other.primaryKey = row.primaryKey
  | .scanTable _ _ _ _ => t.rows.length ≤ 32768

instance (t : RowTable table) : (request : RowRequest table) → Decidable (t.Admits request)
  | .addRow _ _ _ => inferInstanceAs (Decidable (_ ∧ _))
  | .updateRow _ _ _ _ _ _ => inferInstanceAs (Decidable (_ ∧ _))
  | .getRow _ _ _ => inferInstanceAs (Decidable (∀ _ ∈ _, _ → _))
  | .scanTable _ _ _ _ => inferInstanceAs (Decidable (_ ≤ _))

/-- The rows of a table can be told apart by their keys. -/
structure Apart (t : RowTable table) : Prop where
  keysApart : KeysApart t.rows
  legible : ∀ row ∈ t.rows, row.Legible

variable {t : RowTable table} {row : Row table}

theorem Apart.put (hapart : t.Apart) (h : table.Keyed) (hlegible : row.Legible)
    (hkeys : KeysApart (row :: t.rows)) : (t.put row).Apart := by
  refine ⟨(hkeys.subset (cons_put_subset h)).subset (List.subset_cons_self _ _), ?_⟩
  intro other hother
  rcases (mem_put h).mp hother with rfl | ⟨hold, -⟩
  · exact hlegible
  · exact hapart.legible other hold

/-- **The rows stay apart**, whatever is asked that can be. -/
theorem Apart.step (hapart : t.Apart) (h : table.Keyed) {request : RowRequest table}
    (hadmits : t.Admits request) : (t.step request).1.Apart := by
  cases request with
  | addRow row columnValues gives =>
    unfold RowTable.step
    dsimp only
    split
    · exact hapart
    · exact hapart.put h hadmits.1 hadmits.2
  | updateRow row columnValues gives updateType condition wellFormed =>
    unfold RowTable.step
    dsimp only
    split
    · exact hapart.put h hadmits.1 hadmits.2
    · exact hapart
  | getRow row primaryKeyValues gives => exact hapart
  | scanTable returnColumns known condition wellFormed => exact hapart

/-- Each of some requests can be asked when it comes. -/
def AdmitsAll : RowTable table → List (RowRequest table) → Prop
  | _, [] => True
  | t, request :: requests => t.Admits request ∧ AdmitsAll (t.step request).1 requests

instance decidableAdmitsAll : (t : RowTable table) → (requests : List (RowRequest table)) →
    Decidable (t.AdmitsAll requests)
  | _, [] => inferInstanceAs (Decidable True)
  | t, request :: requests =>
    haveI := decidableAdmitsAll (t.step request).1 requests
    inferInstanceAs (Decidable (_ ∧ _))

end RowTable

end ReplicatedCounter.MyDb
