import ReplicatedCounter.MyDb.RequestTransformer
import ReplicatedCounter.MyDb.RowMap

/-!
# `mydb/backend/DbImpl.cc`

The requests for a database and for a table draw an id, write a row into one of the meta tables, and
register the schema. A failure takes nothing back: an id that was drawn is gone, and a row that was
written stays.

The requests for rows do one call of the query executor each. An update is preceded by a scan of the
whole table for rows that satisfy its condition and are not locked; that there is one is all that is
asked.
-/

set_option autoImplicit false

namespace ReplicatedCounter.MyDb

open KeySerializer QueryExecutor

/-- `ErrorCode`, as far as these requests use it. -/
inductive ErrorCode where
  | updateConditionFailed
  | databaseDoesNotExist
  | databaseAlreadyExists
  | tableAlreadyExists
  deriving DecidableEq, Repr

/-- `DbImpl`; its query executor is the database it works on. -/
structure DbImpl where
  schemaStore : SchemaStore
  rocks : Rocks
  dbIds : UInt32 := 0
  tableIds : UInt32 := 0

namespace DbImpl

/-- How a request fails. -/
inductive Error where
  /-- `DbError`. -/
  | dbError (errorCode : ErrorCode)
  | execution (error : ExecutionError)
  deriving DecidableEq, Repr

/-- `DbImpl::addDatabase`, at a time. -/
def addDatabase (db : DbImpl) (request : client.AddDatabaseRequest) (seconds : Int64) :
    Except Error Unit × DbImpl :=
  match db.schemaStore.getTable "meta" "meta_db" with
  | none => (.error (.execution .assertionFailed), db)
  | some table =>
    let dbId := db.dbIds
    let db := { db with dbIds := dbId + 1 }
    match Transformer.fromAddDatabaseRequest request table dbId seconds >>=
      QueryExecutor.insert db.rocks table with
    | .error error => (.error (.execution error), db)
    | .ok rocks =>
      let db := { db with rocks }
      match db.schemaStore.registerDb request.database { id := dbId, name := request.database } with
      | (false, _) => (.error (.dbError .databaseAlreadyExists), db)
      | (true, schemaStore) => (.ok (), { db with schemaStore })

/-- `DbImpl::addTable`, at a time. -/
def addTable (serializeAsString : client.AddTableRequest → Bytes) (db : DbImpl)
    (request : client.AddTableRequest) (seconds : Int64) : Except Error Unit × DbImpl :=
  match db.schemaStore.getTable "meta" "meta_db_table" with
  | none => (.error (.execution .assertionFailed), db)
  | some metaDbTable =>
    match db.schemaStore.getDatabase request.table.db with
    | none => (.error (.dbError .databaseDoesNotExist), db)
    | some database =>
      match db.schemaStore.getTable request.table.db request.table.name with
      | some _ => (.error (.dbError .tableAlreadyExists), db)
      | none =>
        let tableId := db.tableIds
        let db := { db with tableIds := tableId + 1 }
        match Transformer.fromAddTableRequest serializeAsString request metaDbTable tableId seconds >>=
          QueryExecutor.insert db.rocks metaDbTable with
        | .error error => (.error (.execution error), db)
        | .ok rocks =>
          let db := { db with rocks }
          match Transformer.fromTable request.table database.id tableId with
          | .error error => (.error (.execution error), db)
          | .ok table =>
            match db.schemaStore.registerTable request.table.db request.table.name table with
            | (false, _) => (.error (.execution .assertionFailed), db)
            | (true, schemaStore) => (.ok (), { db with schemaStore })

/-- `DbImpl::addRow`. -/
def addRow (db : DbImpl) (request : client.AddRowRequest) :
    Except Error (List (List Bytes)) × DbImpl :=
  match db.schemaStore.getTable request.databaseName request.tableName with
  | none => (.error (.execution .assertionFailed), db)
  | some table =>
    match Transformer.fromAddRowRequest request table with
    | .error error => (.error (.execution error), db)
    | .ok internalTable =>
      match QueryExecutor.insert db.rocks table internalTable with
      | .error error => (.error (.execution error), db)
      | .ok rocks =>
        let db := { db with rocks }
        match QueryExecutor.get db.rocks table internalTable >>= Transformer.toTableRows table with
        | .error error => (.error (.execution error), db)
        | .ok tableRows => (.ok tableRows, db)

/-- `DbImpl::getRow`. -/
def getRow (db : DbImpl) (request : client.GetRowRequest) : Except Error (List (List Bytes)) :=
  match db.schemaStore.getTable request.databaseName request.tableName with
  | none => .error (.execution .assertionFailed)
  | some table =>
    match Transformer.fromGetRowRequest request table >>= QueryExecutor.get db.rocks table >>=
      Transformer.toTableRows table with
    | .error error => .error (.execution error)
    | .ok tableRows => .ok tableRows

/-- `TableDefaultColumns::LOCK_MODE_NAME`. -/
def lockModeName : String := "__internal__lock_mode"

/-- `LockType`. -/
inductive LockType where
  | noLock
  | writeLock
  | readLock
  deriving DecidableEq, Repr

/-- `enumToInteger`. -/
def LockType.toInteger : LockType → Int64
  | .noLock => 0
  | .writeLock => 1
  | .readLock => 2

/-- `DbImpl::addConditionToCheckWriteLock`. -/
def addConditionToCheckWriteLock (condition : Condition) : Condition :=
  .binary condition
    (.unary (.int { colName := lockModeName, value := LockType.noLock.toInteger, op := some .eq }))
    (some .and)

/-- `DbImpl::updateRow`. -/
def updateRow (db : DbImpl) (request : client.UpdateRowRequest) : Except Error Unit × DbImpl :=
  match db.schemaStore.getTable request.databaseName request.tableName with
  | none => (.error (.execution .assertionFailed), db)
  | some table =>
    match QueryPlanner.plan db.rocks table (addConditionToCheckWriteLock request.condition) >>=
      QueryPlanner.execute with
    | .error error => (.error (.execution error), db)
    | .ok result =>
      if result.numRows = 0 then (.error (.dbError .updateConditionFailed), db)
      else
        match Transformer.fromUpdateRowRequest request table with
        | .error error => (.error (.execution error), db)
        | .ok internalTable =>
          match request.updateType with
          | none => (.error (.execution .assertionFailed), db)
          | some updateOptions =>
            match QueryExecutor.update db.rocks table internalTable updateOptions with
            | .error error => (.error (.execution error), db)
            | .ok rocks => (.ok (), { db with rocks })

/-- `getColumnId`, as a scan asks for it. -/
def outputColumn (table : Table) (colName : String) : Except ExecutionError UInt32 :=
  match table.getColumnId colName with
  | none => throw .outOfRange
  | some colId => return colId

/-- `DbImpl::scanTable`. The table that a plan gives comes in chunks as `rechunk` cuts it, which is
given the source of the plan, and the result in one chunk. -/
def scanTable (rechunk : ArrowTable → ArrowTable → ArrowTable) (db : DbImpl)
    (request : client.ScanTableRequest) : Except Error (List (List Bytes)) :=
  match db.schemaStore.getTable request.databaseName request.tableName with
  | none => .error (.execution .assertionFailed)
  | some table =>
    let tableRows : Except ExecutionError (List (List Bytes)) := do
      -- these ids go into the plan, which does not read them
      let _ ← request.returnColumns.mapM (outputColumn table)
      let plan ← QueryPlanner.plan db.rocks table request.condition
      let result ← QueryPlanner.execute plan
      Transformer.toTableRows table (rechunk plan.source result)
    match tableRows with
    | .error error => .error (.execution error)
    | .ok tableRows => .ok tableRows

/-! ## What a request that succeeds has done -/

variable {serializeAsString : client.AddTableRequest → Bytes} {db db' : DbImpl} {seconds : Int64}

theorem addDatabase_ok {request : client.AddDatabaseRequest}
    (h : db.addDatabase request seconds = (.ok (), db')) :
    ∃ table arrowTable database, db.schemaStore.getTable "meta" "meta_db" = some table ∧
      QueryExecutor.insert db.rocks table arrowTable = .ok db'.rocks ∧
      db.schemaStore.registerDb request.database database = (true, db'.schemaStore) := by
  unfold addDatabase at h
  cases htable : db.schemaStore.getTable "meta" "meta_db" with
  | none =>
    rw [htable] at h
    cases h
  | some table =>
    rw [htable] at h
    dsimp only at h
    cases hinsert : Transformer.fromAddDatabaseRequest request table db.dbIds seconds >>=
        QueryExecutor.insert db.rocks table with
    | error error =>
      rw [hinsert] at h
      cases h
    | ok rocks =>
      rw [hinsert] at h
      dsimp only at h
      obtain ⟨arrowTable, -, hinsert⟩ := Fallible.bind_eq_ok.mp hinsert
      rcases hregister : db.schemaStore.registerDb request.database
        { id := db.dbIds, name := request.database } with ⟨result, schemaStore⟩
      rw [hregister] at h
      cases result with
      | false => cases h
      | true =>
        cases h
        exact ⟨table, arrowTable, _, rfl, hinsert, hregister⟩

theorem addTable_ok {request : client.AddTableRequest}
    (h : addTable serializeAsString db request seconds = (.ok (), db')) :
    ∃ metaDbTable database arrowTable table,
      db.schemaStore.getTable "meta" "meta_db_table" = some metaDbTable ∧
      db.schemaStore.getDatabase request.table.db = some database ∧
      Transformer.fromAddTableRequest serializeAsString request metaDbTable db.tableIds seconds =
        .ok arrowTable ∧
      QueryExecutor.insert db.rocks metaDbTable arrowTable = .ok db'.rocks ∧
      Transformer.fromTable request.table database.id db.tableIds = .ok table ∧
      db.schemaStore.registerTable request.table.db request.table.name table =
        (true, db'.schemaStore) := by
  unfold addTable at h
  cases hmeta : db.schemaStore.getTable "meta" "meta_db_table" with
  | none =>
    rw [hmeta] at h
    cases h
  | some metaDbTable =>
    rw [hmeta] at h
    dsimp only at h
    cases hdatabase : db.schemaStore.getDatabase request.table.db with
    | none =>
      rw [hdatabase] at h
      cases h
    | some database =>
      rw [hdatabase] at h
      dsimp only at h
      cases hlookup : db.schemaStore.getTable request.table.db request.table.name with
      | some old =>
        rw [hlookup] at h
        cases h
      | none =>
        rw [hlookup] at h
        dsimp only at h
        cases hinsert : Transformer.fromAddTableRequest serializeAsString request metaDbTable
            db.tableIds seconds >>= QueryExecutor.insert db.rocks metaDbTable with
        | error error =>
          rw [hinsert] at h
          cases h
        | ok rocks =>
          rw [hinsert] at h
          dsimp only at h
          obtain ⟨arrowTable, hfrom, hinsert⟩ := Fallible.bind_eq_ok.mp hinsert
          cases htable : Transformer.fromTable request.table database.id db.tableIds with
          | error error =>
            rw [htable] at h
            cases h
          | ok table =>
            rw [htable] at h
            dsimp only at h
            rcases hregister : db.schemaStore.registerTable request.table.db request.table.name
              table with ⟨result, schemaStore⟩
            rw [hregister] at h
            cases result with
            | false => cases h
            | true =>
              cases h
              exact ⟨metaDbTable, database, arrowTable, table, rfl, rfl, hfrom, hinsert, htable,
                hregister⟩

end DbImpl

end ReplicatedCounter.MyDb
