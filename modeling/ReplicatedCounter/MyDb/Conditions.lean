import Mathlib.Data.List.Infix
import ReplicatedCounter.MyDb.QueryPlanner
import ReplicatedCounter.MyDb.Rows

/-!
# What a condition says of a row

A condition is true or false of the values a row has under names. The planner has a meaning for it
if its operations are those there are, of the operations on strings the comparison only, and every
name is that of one column of the right type (`Condition.WellFormed`). That is exactly when it makes
an expression that Arrow can bind (`wellFormed_iff`), and the expression then says of every row what
the condition says (`evaluate_eq`). So a filter lets through the rows of which the condition is true
(`execute_rows`).
-/

set_option autoImplicit false

namespace ReplicatedCounter.MyDb

/-! ## The meaning of a condition -/

def IntOperation.meets (value number : Int64) : IntOperation → Bool
  | .eq => value = number
  | .leq => value ≤ number
  | .lt => value < number
  | .geq => number ≤ value
  | .gt => number < value

/-- A text without regard to case. -/
def lower (text : Bytes) : Bytes := text.map Char.toLower

def StringOperation.meets (text pattern : Bytes) : StringOperation → Bool
  | .eq => text = pattern
  | .hasSubstr => pattern <:+: text
  | .startsWith => pattern <+: text
  | .endsWith => pattern <:+ text
  | .caseInsensitiveEq => lower text = lower pattern
  | .caseInsensitiveHasSubstr => lower pattern <:+: lower text
  | .caseInsensitiveStartsWith => lower pattern <+: lower text
  | .caseInsensitiveEndsWith => lower pattern <:+ lower text

/-- A condition on a value that is not there, or is of another type, is false. -/
def UnaryCondition.meets (field : String → Option ColumnValue) : UnaryCondition → Bool
  | .notSet => false
  | .int condition =>
    match field condition.colName, condition.op with
    | some (.int64 value), some op => op.meets value condition.value
    | _, _ => false
  | .string condition =>
    match field condition.name, condition.op with
    | some (.string text), some op => op.meets text condition.value
    | _, _ => false

def Condition.meets (field : String → Option ColumnValue) : Condition → Bool
  | .notSet => true
  | .unary condition => condition.meets field
  | .binary c1 c2 op =>
    match op with
    | some .and => c1.meets field && c2.meets field
    | some .or => c1.meets field || c2.meets field
    | none => false

/-! ## Conditions that can be planned -/

/-- The name is that of one column, and the column is of the type. -/
def OneColumn (fields : List Column) (name : String) (columnType : ColumnType) : Prop :=
  (fields.filter (·.name = name)).map (·.columnType) = [columnType]

instance (fields : List Column) (name : String) (columnType : ColumnType) :
    Decidable (OneColumn fields name columnType) :=
  inferInstanceAs (Decidable (_ = _))

def UnaryCondition.WellFormed (fields : List Column) : UnaryCondition → Prop
  | .notSet => False
  | .int condition => condition.op ≠ none ∧ OneColumn fields condition.colName .int64
  | .string condition => condition.op = some .eq ∧ OneColumn fields condition.name .string

def Condition.WellFormed (fields : List Column) : Condition → Prop
  | .notSet => True
  | .unary condition => condition.WellFormed fields
  | .binary c1 c2 op => op ≠ none ∧ c1.WellFormed fields ∧ c2.WellFormed fields

instance UnaryCondition.decidableWellFormed (fields : List Column) :
    ∀ condition : UnaryCondition, Decidable (condition.WellFormed fields)
  | .notSet => isFalse id
  | .int _ => inferInstanceAs (Decidable (_ ∧ _))
  | .string _ => inferInstanceAs (Decidable (_ ∧ _))

instance Condition.decidableWellFormed (fields : List Column) :
    ∀ condition : Condition, Decidable (condition.WellFormed fields)
  | .notSet => isTrue trivial
  | .unary condition => condition.decidableWellFormed fields
  | .binary c1 c2 _ =>
    haveI := c1.decidableWellFormed fields
    haveI := c2.decidableWellFormed fields
    inferInstanceAs (Decidable (_ ∧ _ ∧ _))

namespace QueryPlanner

variable {fields : List Column} {field : String → Option ColumnValue}

theorem wellFormed_unary_iff {condition : UnaryCondition} : condition.WellFormed fields ↔
    ∃ expression, parseUnaryCondition condition = .ok expression ∧ expression.binds fields := by
  cases condition with
  | notSet => exact iff_of_false id fun ⟨_, h, _⟩ => nomatch h
  | int condition =>
    obtain ⟨colName, value, op⟩ := condition
    cases op with
    | none => exact iff_of_false (fun h => h.1 rfl) fun ⟨_, h, _⟩ => nomatch h
    | some op =>
      -- whichever function is called, the name and the type are the same
      cases op <;> simp [UnaryCondition.WellFormed, OneColumn, parseUnaryCondition, Expression.binds]
  | string condition =>
    obtain ⟨name, value, op⟩ := condition
    cases op with
    | none => exact iff_of_false (fun h => nomatch h.1) fun ⟨_, h, _⟩ => nomatch h
    | some op =>
      cases op <;> simp [UnaryCondition.WellFormed, OneColumn, parseUnaryCondition, Expression.binds]

/-- **A condition is well formed** exactly if it makes an expression that can be bound. -/
theorem wellFormed_iff {condition : Condition} : condition.WellFormed fields ↔
    ∃ expression, parseCondition condition = .ok expression ∧ expression.binds fields := by
  induction condition with
  | notSet => exact iff_of_true trivial ⟨_, rfl, rfl⟩
  | unary condition => exact wellFormed_unary_iff
  | binary c1 c2 op ih1 ih2 =>
    show op ≠ none ∧ c1.WellFormed fields ∧ c2.WellFormed fields ↔ _
    rw [ih1, ih2]
    constructor
    · rintro ⟨hop, ⟨left, hleft, hbinds⟩, right, hright, hbinds'⟩
      unfold parseCondition
      rw [hleft, hright]
      cases op with
      | none => exact absurd rfl hop
      | some op =>
        cases op with
        | and => exact ⟨.and_ left right, rfl, by simp [Expression.binds, hbinds, hbinds']⟩
        | or => exact ⟨.or_ left right, rfl, by simp [Expression.binds, hbinds, hbinds']⟩
    · rintro ⟨expression, hparse, hbinds⟩
      unfold parseCondition at hparse
      obtain ⟨left, hleft, hparse⟩ := Fallible.bind_eq_ok.mp hparse
      obtain ⟨right, hright, hparse⟩ := Fallible.bind_eq_ok.mp hparse
      cases op with
      | none => cases hparse
      | some op =>
        cases op with
        | and =>
          cases hparse
          obtain ⟨hbinds, hbinds'⟩ := Bool.and_eq_true_iff.mp hbinds
          exact ⟨nofun, ⟨left, hleft, hbinds⟩, right, hright, hbinds'⟩
        | or =>
          cases hparse
          obtain ⟨hbinds, hbinds'⟩ := Bool.and_eq_true_iff.mp hbinds
          exact ⟨nofun, ⟨left, hleft, hbinds⟩, right, hright, hbinds'⟩

/-! ## The expression says what the condition says -/

/-- There is a value of its type under the name of a column. -/
def Typed (fields : List Column) (field : String → Option ColumnValue) : Prop :=
  ∀ name columnType, OneColumn fields name columnType →
    ∃ value, field name = some value ∧ value.columnType = columnType

theorem Typed.int64 (h : Typed fields field) {name : String} (hone : OneColumn fields name .int64) :
    ∃ value, field name = some (.int64 value) := by
  obtain ⟨value, hvalue, htype⟩ := h name .int64 hone
  cases value with
  | int64 value => exact ⟨value, hvalue⟩
  | string text => cases htype

theorem Typed.string (h : Typed fields field) {name : String} (hone : OneColumn fields name .string) :
    ∃ text, field name = some (.string text) := by
  obtain ⟨value, hvalue, htype⟩ := h name .string hone
  cases value with
  | int64 value => cases htype
  | string text => exact ⟨text, hvalue⟩

theorem evaluate_unary_eq (h : Typed fields field) {condition : UnaryCondition}
    {expression : Expression}
    (hparse : parseUnaryCondition condition = .ok expression) (hbinds : expression.binds fields) :
    expression.evaluate field = .ok (condition.meets field) := by
  cases condition with
  | notSet => cases hparse
  | int condition =>
    obtain ⟨colName, value, op⟩ := condition
    have hone : OneColumn fields colName .int64 := (wellFormed_unary_iff.mpr ⟨_, hparse, hbinds⟩).2
    obtain ⟨number, hnumber⟩ := h.int64 hone
    cases op with
    | none => cases hparse
    | some op =>
      cases op <;> cases hparse <;>
        simp [Expression.evaluate, UnaryCondition.meets, IntOperation.meets, CompareFunction.apply,
          hnumber]
  | string condition =>
    obtain ⟨name, value, op⟩ := condition
    obtain ⟨rfl, hone⟩ : op = some .eq ∧ OneColumn fields name .string :=
      wellFormed_unary_iff.mpr ⟨_, hparse, hbinds⟩
    obtain ⟨text, htext⟩ := h.string hone
    cases hparse
    simp [Expression.evaluate, UnaryCondition.meets, StringOperation.meets, htext]

/-- **The expression says of a row what the condition says.** -/
theorem evaluate_eq (h : Typed fields field) {condition : Condition} {expression : Expression}
    (hparse : parseCondition condition = .ok expression) (hbinds : expression.binds fields) :
    expression.evaluate field = .ok (condition.meets field) := by
  induction condition generalizing expression with
  | notSet =>
    cases hparse
    rfl
  | unary condition => exact evaluate_unary_eq h hparse hbinds
  | binary c1 c2 op ih1 ih2 =>
    unfold parseCondition at hparse
    obtain ⟨left, hleft, hparse⟩ := Fallible.bind_eq_ok.mp hparse
    obtain ⟨right, hright, hparse⟩ := Fallible.bind_eq_ok.mp hparse
    cases op with
    | none => cases hparse
    | some op =>
      cases op with
      | and =>
        cases hparse
        obtain ⟨hbinds, hbinds'⟩ := Bool.and_eq_true_iff.mp hbinds
        rw [Expression.evaluate, ih1 hleft hbinds, ih2 hright hbinds']
        rfl
      | or =>
        cases hparse
        obtain ⟨hbinds, hbinds'⟩ := Bool.and_eq_true_iff.mp hbinds
        rw [Expression.evaluate, ih1 hleft hbinds, ih2 hright hbinds']
        rfl

end QueryPlanner

/-! ## Rows -/

/-- The value of a row under a name. -/
def Row.named {table : Table} (row : Row table) (name : String) : Option ColumnValue :=
  (table.columns.find? (·.name = name)).map fun col => row.value col.id

variable {table : Table}

theorem Row.typed_named (row : Row table) : QueryPlanner.Typed table.columns row.named := by
  intro name columnType hone
  unfold OneColumn at hone
  obtain ⟨col, hfilter, htype⟩ := List.map_eq_singleton_iff.mp hone
  have hfind : table.columns.find? (·.name = name) = some col := by
    rw [← List.head?_filter, hfilter]
    rfl
  refine ⟨row.value col.id, ?_, (row.typed col (List.mem_of_find?_eq_some hfind)).trans htype⟩
  unfold Row.named
  rw [hfind]
  rfl

/-- The values Arrow has under the names are those of the row. -/
theorem field_arrowTable (hnames : (table.columns.map (·.name)).Nodup) {rows : List (Row table)}
    {rowIdx : Nat} {row : Row table} (hrow : rows[rowIdx]? = some row) :
    (arrowTable table.columns rows).field rowIdx = row.named := by
  funext name
  unfold ArrowTable.field Row.named
  cases hfind : table.columns.find? (·.name = name) with
  | none =>
    have hfilter : ((arrowTable table.columns rows).fields.zip
        (arrowTable table.columns rows).columns).filter (·.1 = name) = [] := by
      rw [List.filter_eq_nil_iff]
      rintro ⟨field, column⟩ hmem heq
      obtain ⟨col, hcol, hname⟩ := List.mem_map.mp (List.of_mem_zip hmem).1
      exact List.find?_eq_none.mp hfind col hcol (by simpa [hname] using heq)
    unfold ArrowTable.getColumnByName
    rw [hfilter]
    rfl
  | some col =>
    have hname : col.name = name := by simpa using List.find?_some hfind
    rw [← hname, getColumnByName_arrowTable hnames (List.mem_of_find?_eq_some hfind)]
    show ([rows.map fun row => row.value col.id].flatten)[rowIdx]? = some (row.value col.id)
    rw [List.flatten_singleton, List.getElem?_map, hrow]
    rfl

theorem filter_arrowTable (columns : List Column) (rows : List (Row table)) (p : Row table → Bool) :
    (arrowTable columns rows).filter (rows.map p) = arrowTable columns (rows.filter p) := by
  unfold ArrowTable.filter arrowTable
  rw [ArrowTable.mk.injEq, and_iff_right rfl, List.map_map]
  refine List.map_congr_left fun col _ => ?_
  rw [Function.comp_apply, List.flatten_singleton, List.zip_map', List.filter_map, List.map_map]
  rfl

namespace QueryPlanner

/-- **A filter lets through the rows of which the condition is true.** -/
theorem execute_rows (hcolumns : table.columns ≠ []) (hnames : (table.columns.map (·.name)).Nodup)
    {condition : Condition} {expression : Expression}
    (hparse : parseCondition condition = .ok expression) (hbinds : expression.binds table.columns)
    (rows : List (Row table)) :
    execute { schema := table, source := arrowTable table.columns rows, filter := some expression } =
      .ok (arrowTable table.columns (rows.filter fun row => condition.meets row.named)) := by
  have hnumRows := numRows_arrowTable hcolumns rows
  have hragged : ¬ ((arrowTable table.columns rows).columns.any fun column =>
      decide (column.flatten.length < (arrowTable table.columns rows).numRows)) = true := by
    rw [hnumRows, Bool.not_eq_true, List.any_eq_false]
    intro column hcolumn
    obtain ⟨col, -, rfl⟩ := List.mem_map.mp hcolumn
    simp
  have hmask : (List.range rows.length).mapM (fun rowIdx =>
      expression.evaluate ((arrowTable table.columns rows).field rowIdx)) =
        .ok (rows.map fun row => condition.meets row.named) := by
    refine Eq.trans ?_ (Fallible.mapM_ok (f := fun row => .ok (condition.meets row.named))
      fun _ _ => rfl)
    refine Fallible.mapM_congr (List.forall₂_iff_get.mpr ⟨List.length_range, fun i hi hi' => ?_⟩)
    rw [List.get_eq_getElem, List.getElem_range,
      field_arrowTable hnames (List.getElem?_eq_getElem hi')]
    exact evaluate_eq (rows[i].typed_named) hparse hbinds
  unfold execute
  dsimp only [Option.any]
  rw [if_neg (by simp [hbinds]), if_neg hragged, hnumRows, hmask, Fallible.ok_bind, filter_arrowTable]
  rfl

/-- Nothing is executed of a condition that is not well formed. -/
theorem execute_of_not_binds {plan : ExecutableQueryPlan} {expression : Expression}
    (hfilter : plan.filter = some expression) (hbinds : ¬ expression.binds plan.schema.columns) :
    execute plan = .error .assertionFailed := by
  unfold execute
  rw [hfilter]
  simp [hbinds]

end QueryPlanner

end ReplicatedCounter.MyDb
