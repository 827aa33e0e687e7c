import ReplicatedCounter.MyDb.QueryExecutor

/-!
# `mydb/proto/condition.proto` and `mydb/backend/QueryPlanner.cc`

A plan is a scan of the primary index, of a hundred thousand rows at most, and a filter over what it
has read. The filter is an Arrow expression. Arrow looks its columns up by name when the plan is
executed, wants exactly one of the right type under each, and evaluates it for all rows into a mask.

Of the operations on strings only the comparison makes an expression. The others leave one that was
never set, and the first thing Arrow does with it is to dereference a null pointer.
-/

set_option autoImplicit false

namespace ReplicatedCounter.MyDb

/-! ## `proto/condition.proto`

Enumerations are open: `none` is a number they do not have. -/

inductive LogicalOperator where
  | and
  | or
  deriving DecidableEq, Repr

/-- `IntCondition::Operation`. -/
inductive IntOperation where
  | eq
  | leq
  | lt
  | geq
  | gt
  deriving DecidableEq, Repr

/-- `StringCondition::Operation`. -/
inductive StringOperation where
  | eq
  | hasSubstr
  | startsWith
  | endsWith
  | caseInsensitiveEq
  | caseInsensitiveHasSubstr
  | caseInsensitiveStartsWith
  | caseInsensitiveEndsWith
  deriving DecidableEq, Repr

structure IntCondition where
  colName : String
  value : Int64
  op : Option IntOperation
  deriving DecidableEq, Repr

structure StringCondition where
  name : String
  value : Bytes
  op : Option StringOperation
  deriving DecidableEq, Repr

inductive UnaryCondition where
  | notSet
  | int (intCondition : IntCondition)
  | string (stringCondition : StringCondition)
  deriving DecidableEq, Repr

inductive Condition where
  | notSet
  | unary (unaryCondition : UnaryCondition)
  | binary (c1 c2 : Condition) (op : Option LogicalOperator)
  deriving DecidableEq, Repr

/-! ## Arrow expressions -/

/-- The functions that compare a field with a number. -/
inductive CompareFunction where
  | equal
  | lessEqual
  | less
  | greaterEqual
  | greater
  deriving DecidableEq, Repr

def CompareFunction.apply (value literal : Int64) : CompareFunction → Bool
  | .equal => value = literal
  | .lessEqual => value ≤ literal
  | .less => value < literal
  | .greaterEqual => literal ≤ value
  | .greater => literal < value

/-- `cp::Expression`. -/
inductive Expression where
  | literal (value : Bool)
  /-- A comparison of `field_ref` with a number. -/
  | compare (function : CompareFunction) (colName : String) (value : Int64)
  /-- `equal` of `field_ref` and a string. -/
  | equal (colName : String) (value : Bytes)
  | and_ (left right : Expression)
  | or_ (left right : Expression)
  deriving DecidableEq, Repr

namespace Expression

/-- `Bind`: every reference is to one field, of the type it is compared with. -/
def binds (fields : List Column) : Expression → Bool
  | literal _ => true
  | compare _ colName _ => (fields.filter (·.name = colName)).map (·.columnType) = [.int64]
  | equal colName _ => (fields.filter (·.name = colName)).map (·.columnType) = [.string]
  | and_ left right => left.binds fields && right.binds fields
  | or_ left right => left.binds fields && right.binds fields

/-- The value for one row. -/
def evaluate (field : String → Option ColumnValue) : Expression → Except ExecutionError Bool
  | literal value => .ok value
  | compare function colName value =>
    match field colName with
    | some (.int64 number) => .ok (function.apply number value)
    | _ => .error .undefinedBehaviour
  | equal colName value =>
    match field colName with
    | some (.string text) => .ok (text = value)
    | _ => .error .undefinedBehaviour
  | and_ left right => do
    let left ← left.evaluate field
    let right ← right.evaluate field
    return left && right
  | or_ left right => do
    let left ← left.evaluate field
    let right ← right.evaluate field
    return left || right

end Expression

namespace ArrowTable

/-- The value of a field in one row, in whatever chunk. -/
def field (table : ArrowTable) (rowIdx : Nat) (name : String) : Option ColumnValue :=
  (table.getColumnByName name).bind (·.flatten[rowIdx]?)

/-- The rows a mask selects. How they are chunked is up to Arrow. -/
def filter (table : ArrowTable) (mask : List Bool) : ArrowTable :=
  { table with columns := table.columns.map fun column =>
      [((column.flatten.zip mask).filter (·.2)).map (·.1)] }

end ArrowTable

/-! ## The planner -/

/-- `ExecutableQueryPlan`: a `table_source`, and a `filter` behind it. -/
structure ExecutableQueryPlan where
  schema : Table
  source : ArrowTable
  filter : Option Expression
  deriving DecidableEq, Repr

namespace QueryPlanner

/-- `QueryPlanner::parseUnaryCondition`. -/
def parseUnaryCondition : UnaryCondition → Except ExecutionError Expression
  | .int intCondition =>
    match intCondition.op with
    | some .eq => .ok (.compare .equal intCondition.colName intCondition.value)
    | some .leq => .ok (.compare .lessEqual intCondition.colName intCondition.value)
    | some .lt => .ok (.compare .less intCondition.colName intCondition.value)
    | some .geq => .ok (.compare .greaterEqual intCondition.colName intCondition.value)
    | some .gt => .ok (.compare .greater intCondition.colName intCondition.value)
    | none => .error .assertionFailed
  | .string stringCondition =>
    match stringCondition.op with
    | some .eq => .ok (.equal stringCondition.name stringCondition.value)
    | some _ => .error .undefinedBehaviour
    | none => .error .assertionFailed
  | .notSet => .error .assertionFailed

/-- `QueryPlanner::parseCondition`. -/
def parseCondition : Condition → Except ExecutionError Expression
  | .unary unaryCondition => parseUnaryCondition unaryCondition
  | .binary c1 c2 op => do
    let left ← parseCondition c1
    let right ← parseCondition c2
    match op with
    | some .and => return .and_ left right
    | some .or => return .or_ left right
    | none => throw .assertionFailed
  | .notSet => .ok (.literal true)

/-- `QueryPlanner::plan`. -/
def plan (rocks : Rocks) (table : Table) (condition : Condition) :
    Except ExecutionError ExecutableQueryPlan := do
  let source ← QueryExecutor.tableScan rocks table
    { indexId := table.primaryKeyIndex.id, maxRowsReturnSize := 100000 }
  match condition with
  | .notSet => return { schema := table, source, filter := none }
  | condition => return { schema := table, source, filter := some (← parseCondition condition) }

/-- `QueryPlanner::execute`. A source reads every column as far as the first one goes; the columns
are not asked whether they do. -/
def execute (plan : ExecutableQueryPlan) : Except ExecutionError ArrowTable :=
  if plan.filter.any fun expression => !expression.binds plan.schema.columns then
    .error .assertionFailed
  else if plan.source.columns.any fun column => column.flatten.length < plan.source.numRows then
    .error .undefinedBehaviour
  else
    match plan.filter with
    | none => .ok plan.source
    | some expression => do
      let mask ← (List.range plan.source.numRows).mapM fun rowIdx =>
        expression.evaluate (plan.source.field rowIdx)
      return plan.source.filter mask

end QueryPlanner

end ReplicatedCounter.MyDb
