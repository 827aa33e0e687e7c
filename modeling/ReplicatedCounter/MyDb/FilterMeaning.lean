import ReplicatedCounter.MyDb.Conditions
import ReplicatedCounter.MyDb.DbImpl

/-!
# The filter of a plan, row by row

`Condition.eval` is what a condition says of a row, where it says anything: a name that is not that
of a value of the right type leaves it without a meaning, and so does an operation the planner does
not have. Of the conditions with the operations it has, `plan` makes a filter that gives every row
the value of the condition (`plan_filter`); no filter stands for a condition that is empty. The
condition for updates adds the lock column to it.
-/

set_option autoImplicit false

namespace ReplicatedCounter.MyDb

/-! ## Comparisons -/

/-- The comparisons: every operation on integers, and equality of strings. -/
def UnaryCondition.Comparison : UnaryCondition → Prop
  | .notSet => False
  | .int condition => condition.op ≠ none
  | .string condition => condition.op = some .eq

/-- A condition of comparisons, put together by `AND` and `OR`. Any part of it may be empty. -/
def Condition.Comparisons : Condition → Prop
  | .notSet => True
  | .unary condition => condition.Comparison
  | .binary c1 c2 op => c1.Comparisons ∧ c2.Comparisons ∧ op ≠ none

/-- What a comparison says of a row. -/
def UnaryCondition.eval (field : String → Option ColumnValue) : UnaryCondition → Option Bool
  | .notSet => none
  | .int condition =>
    match field condition.colName, condition.op with
    | some (.int64 number), some op => some (op.meets number condition.value)
    | _, _ => none
  | .string condition =>
    match field condition.name, condition.op with
    | some (.string text), some op => some (op.meets text condition.value)
    | _, _ => none

def LogicalOperator.eval (left right : Bool) : LogicalOperator → Bool
  | .and => left && right
  | .or => left || right

/-- What a condition says of a row; an empty one is true. -/
def Condition.eval (field : String → Option ColumnValue) : Condition → Option Bool
  | .notSet => some true
  | .unary condition => condition.eval field
  | .binary c1 c2 op =>
    match c1.eval field, c2.eval field, op with
    | some left, some right, some op => some (op.eval left right)
    | _, _, _ => none

namespace QueryPlanner

variable {field : String → Option ColumnValue} {fields : List Column}

/-- Where a condition is well formed for the columns, it says of a row what it means. -/
theorem eval_eq_meets (h : Typed fields field) {condition : Condition}
    (hformed : condition.WellFormed fields) : condition.eval field = some (condition.meets field) := by
  induction condition with
  | notSet => rfl
  | unary condition =>
    cases condition with
    | notSet => exact hformed.elim
    | int condition =>
      obtain ⟨hop, hone⟩ := hformed
      obtain ⟨number, hnumber⟩ := h.int64 hone
      obtain ⟨op, hop⟩ := Option.ne_none_iff_exists'.mp hop
      simp only [Condition.eval, UnaryCondition.eval, Condition.meets, UnaryCondition.meets, hnumber,
        hop]
    | string condition =>
      obtain ⟨hop, hone⟩ := hformed
      obtain ⟨text, htext⟩ := h.string hone
      simp only [Condition.eval, UnaryCondition.eval, Condition.meets, UnaryCondition.meets, htext,
        hop]
  | binary c1 c2 op ih1 ih2 =>
    obtain ⟨hop, h1, h2⟩ := hformed
    obtain ⟨op, rfl⟩ := Option.ne_none_iff_exists'.mp hop
    cases op <;> simp only [Condition.eval, Condition.meets, ih1 h1, ih2 h2, LogicalOperator.eval]

/-! ## Expressions -/

/-- A comparison becomes an expression with its value. -/
theorem parseUnaryCondition_eval {condition : UnaryCondition} (h : condition.Comparison) :
    ∃ expression, parseUnaryCondition condition = .ok expression ∧
      ∀ field, (expression.evaluate field).toOption = condition.eval field := by
  cases condition with
  | notSet => exact h.elim
  | int condition =>
    obtain ⟨colName, value, op⟩ := condition
    obtain ⟨op, rfl⟩ := Option.ne_none_iff_exists'.mp h
    have hcompare : ∀ function : CompareFunction,
        (∀ number, function.apply number value = op.meets number value) → ∀ field,
          ((Expression.compare function colName value).evaluate field).toOption =
            (UnaryCondition.int ⟨colName, value, some op⟩).eval field := by
      intro function hfunction field
      unfold Expression.evaluate UnaryCondition.eval
      dsimp only
      rcases field colName with _ | number | text
      · rfl
      · exact congrArg some (hfunction number)
      · rfl
    -- each operation has its function
    cases op with
    | eq => exact ⟨_, rfl, hcompare .equal fun _ => rfl⟩
    | leq => exact ⟨_, rfl, hcompare .lessEqual fun _ => rfl⟩
    | lt => exact ⟨_, rfl, hcompare .less fun _ => rfl⟩
    | geq => exact ⟨_, rfl, hcompare .greaterEqual fun _ => rfl⟩
    | gt => exact ⟨_, rfl, hcompare .greater fun _ => rfl⟩
  | string condition =>
    obtain ⟨name, value, op⟩ := condition
    obtain rfl : op = some .eq := h
    refine ⟨_, rfl, fun field => ?_⟩
    unfold Expression.evaluate UnaryCondition.eval
    dsimp only
    rcases field name with _ | number | text <;> rfl

/-- **A condition becomes an expression with its value**, on every row. -/
theorem parseCondition_eval {condition : Condition} (h : condition.Comparisons) :
    ∃ expression, parseCondition condition = .ok expression ∧
      ∀ field, (expression.evaluate field).toOption = condition.eval field := by
  induction condition with
  | notSet => exact ⟨.literal true, rfl, fun _ => rfl⟩
  | unary condition => exact parseUnaryCondition_eval h
  | binary c1 c2 op ih1 ih2 =>
    obtain ⟨h1, h2, hop⟩ := h
    obtain ⟨op, rfl⟩ := Option.ne_none_iff_exists'.mp hop
    obtain ⟨left, hleft, hvalue1⟩ := ih1 h1
    obtain ⟨right, hright, hvalue2⟩ := ih2 h2
    have hparse : ∀ op, parseCondition (.binary c1 c2 (some op)) = match op with
        | .and => .ok (.and_ left right)
        | .or => .ok (.or_ left right) := by
      intro op
      rw [parseCondition, hleft, hright]
      cases op <;> rfl
    rw [hparse]
    cases op with
    | and =>
      refine ⟨_, rfl, fun field => ?_⟩
      unfold Condition.eval Expression.evaluate
      rw [← hvalue1 field, ← hvalue2 field]
      cases left.evaluate field <;> cases right.evaluate field <;> rfl
    | or =>
      refine ⟨_, rfl, fun field => ?_⟩
      unfold Condition.eval Expression.evaluate
      rw [← hvalue1 field, ← hvalue2 field]
      cases left.evaluate field <;> cases right.evaluate field <;> rfl

/-- What a filter says of a row; without one every row gets through. -/
def accepts (filter : Option Expression) (field : String → Option ColumnValue) : Option Bool :=
  match filter with
  | none => some true
  | some expression => (expression.evaluate field).toOption

/-- The plan for a condition of comparisons: the scan, and a filter with the condition's value. -/
theorem plan_eq (rocks : Rocks) (table : Table) {condition : Condition} (h : condition.Comparisons) :
    ∃ filter, plan rocks table condition =
        (QueryExecutor.tableScan rocks table
          { indexId := table.primaryKeyIndex.id, maxRowsReturnSize := 100000 }).map
            (fun source => { schema := table, source, filter }) ∧
      ∀ field, accepts filter field = condition.eval field := by
  obtain ⟨expression, hparse, hvalue⟩ := parseCondition_eval h
  unfold plan
  cases condition with
  | notSet =>
    refine ⟨none, ?_, fun _ => rfl⟩
    cases QueryExecutor.tableScan rocks table _ <;> rfl
  | unary condition =>
    refine ⟨some expression, ?_, hvalue⟩
    dsimp only
    rw [hparse]
    cases QueryExecutor.tableScan rocks table _ <;> rfl
  | binary c1 c2 op =>
    refine ⟨some expression, ?_, hvalue⟩
    dsimp only
    rw [hparse]
    cases QueryExecutor.tableScan rocks table _ <;> rfl

end QueryPlanner

open DbImpl

/-- The comparison the lock check makes. -/
theorem eval_lock {field : String → Option ColumnValue} :
    (UnaryCondition.int
        { colName := lockModeName, value := LockType.noLock.toInteger, op := some .eq }).eval field =
      some true ↔ field lockModeName = some (.int64 LockType.noLock.toInteger) := by
  unfold UnaryCondition.eval
  dsimp only
  rcases field lockModeName with _ | number | text <;> simp [IntOperation.meets]

/-- Both sides of an `AND` are to hold. -/
theorem eval_and {field : String → Option ColumnValue} {c1 c2 : Condition} :
    (Condition.binary c1 c2 (some .and)).eval field = some true ↔
      c1.eval field = some true ∧ c2.eval field = some true := by
  simp only [Condition.eval]
  rcases c1.eval field with _ | left <;> rcases c2.eval field with _ | right <;>
    simp [LogicalOperator.eval]

/-- The lock check lets through what is not locked. -/
theorem eval_addConditionToCheckWriteLock {field : String → Option ColumnValue}
    {condition : Condition} : (addConditionToCheckWriteLock condition).eval field = some true ↔
      condition.eval field = some true ∧
        field lockModeName = some (.int64 LockType.noLock.toInteger) := by
  rw [addConditionToCheckWriteLock, eval_and]
  exact and_congr_right fun _ => eval_lock

/-- **A plan's filter says of every row what the condition says**, and with the lock check added that
the row is not locked besides. -/
theorem plan_filter (rocks : Rocks) (table : Table) (condition : Condition)
    (h : condition.Comparisons) :
    ∃ filter lockFilter,
      QueryPlanner.plan rocks table condition =
        (QueryExecutor.tableScan rocks table
          { indexId := table.primaryKeyIndex.id, maxRowsReturnSize := 100000 }).map
            (fun source => { schema := table, source, filter }) ∧
      QueryPlanner.plan rocks table (addConditionToCheckWriteLock condition) =
        (QueryExecutor.tableScan rocks table
          { indexId := table.primaryKeyIndex.id, maxRowsReturnSize := 100000 }).map
            (fun source => { schema := table, source, filter := lockFilter }) ∧
      ∀ field : String → Option ColumnValue,
        QueryPlanner.accepts filter field = condition.eval field ∧
        (QueryPlanner.accepts lockFilter field = some true ↔
          condition.eval field = some true ∧
            field lockModeName = some (.int64 LockType.noLock.toInteger)) := by
  have hlock : (addConditionToCheckWriteLock condition).Comparisons := ⟨h, nofun, nofun⟩
  obtain ⟨filter, hplan, haccepts⟩ := QueryPlanner.plan_eq rocks table h
  obtain ⟨lockFilter, hlockPlan, hlockAccepts⟩ := QueryPlanner.plan_eq rocks table hlock
  refine ⟨filter, lockFilter, hplan, hlockPlan, fun field => ⟨haccepts field, ?_⟩⟩
  rw [hlockAccepts, eval_addConditionToCheckWriteLock]

/-- A condition with an empty part. -/
theorem plan_filter_empty_part :
    ∃ filter lockFilter,
      QueryPlanner.plan .empty ⟨1, 1, [⟨0, "id", .int64⟩], ⟨0, [0]⟩, []⟩
          (.binary .notSet (.unary (.int ⟨"id", 3, some .lt⟩)) (some .and)) =
        .ok { schema := ⟨1, 1, [⟨0, "id", .int64⟩], ⟨0, [0]⟩, []⟩
              source := { fields := ["id"], columns := [[[]]] }, filter } ∧
      QueryPlanner.accepts filter (fun _ => some (.int64 2)) = some true ∧
      QueryPlanner.accepts lockFilter (fun _ => some (.int64 2)) ≠ some true := by
  obtain ⟨filter, lockFilter, hplan, -, haccepts⟩ :=
    plan_filter .empty ⟨1, 1, [⟨0, "id", .int64⟩], ⟨0, [0]⟩, []⟩
      (.binary .notSet (.unary (.int ⟨"id", 3, some .lt⟩)) (some .and)) ⟨trivial, nofun, nofun⟩
  obtain ⟨hfilter, hlockFilter⟩ := haccepts fun _ => some (.int64 2)
  refine ⟨filter, lockFilter, hplan, hfilter, fun h => ?_⟩
  exact absurd (hlockFilter.mp h).2 (by decide)

end ReplicatedCounter.MyDb
