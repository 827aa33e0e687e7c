import Mathlib.Logic.Function.Basic
import ReplicatedCounter.MyDb.TableRow

/-!
# `mydb/backend/SchemaStore.h`, `mydb/backend/Bootstrap.h` and its schema files

The schemas by the names of their databases and tables. A table can be registered in a database that
is not there: the database is made up on the way, with the id 0 that a message without an id has.
That is how `meta` comes to be, whose tables say of themselves that their database has the id 1.
-/

set_option autoImplicit false

namespace ReplicatedCounter.MyDb

/-- `internal::Database`. -/
structure Database where
  id : UInt32 := 0
  name : String := ""
  deriving DecidableEq, Repr

/-- `SchemaStore::DatabaseStore`. -/
structure DatabaseStore where
  database : Database := {}
  tableLookup : String → Option Table := fun _ => none

structure SchemaStore where
  lookup : String → Option DatabaseStore := fun _ => none

namespace SchemaStore

def getDatabase (schemaStore : SchemaStore) (dbName : String) : Option Database :=
  (schemaStore.lookup dbName).map (·.database)

def getTable (schemaStore : SchemaStore) (dbName tableName : String) : Option Table :=
  (schemaStore.lookup dbName).bind (·.tableLookup tableName)

def registerDb (schemaStore : SchemaStore) (dbName : String) (database : Database) :
    Bool × SchemaStore :=
  match schemaStore.lookup dbName with
  | some _ => (false, schemaStore)
  | none => (true, { lookup := Function.update schemaStore.lookup dbName (some { database }) })

def registerTable (schemaStore : SchemaStore) (dbName tableName : String) (table : Table) :
    Bool × SchemaStore :=
  match schemaStore.getTable dbName tableName with
  | some _ => (false, schemaStore)
  | none =>
    -- `lookup_[dbName]`
    let dbStore := (schemaStore.lookup dbName).getD {}
    let tableLookup := Function.update dbStore.tableLookup tableName (some table)
    (true, { lookup := Function.update schemaStore.lookup dbName (some { dbStore with tableLookup }) })

variable {schemaStore schemaStore' : SchemaStore} {dbName tableName : String}

/-- A new database has no tables, so it changes no table. -/
theorem registerDb_ok {database : Database}
    (h : schemaStore.registerDb dbName database = (true, schemaStore')) (d t : String) :
    schemaStore'.getTable d t = schemaStore.getTable d t := by
  unfold registerDb at h
  cases hlookup : schemaStore.lookup dbName with
  | some dbStore =>
    rw [hlookup] at h
    cases h
  | none =>
    rw [hlookup] at h
    cases h
    unfold getTable
    by_cases hd : d = dbName
    · subst hd
      simp [hlookup]
    · simp [Function.update_of_ne hd]

/-- **Registering a table** adds it, and it was not there. -/
theorem registerTable_ok {table : Table}
    (h : schemaStore.registerTable dbName tableName table = (true, schemaStore')) :
    schemaStore.getTable dbName tableName = none ∧ ∀ d t, schemaStore'.getTable d t =
      if d = dbName ∧ t = tableName then some table else schemaStore.getTable d t := by
  unfold registerTable at h
  cases hlookup : schemaStore.getTable dbName tableName with
  | some old =>
    rw [hlookup] at h
    cases h
  | none =>
    rw [hlookup] at h
    cases h
    refine ⟨rfl, fun d t => ?_⟩
    unfold getTable
    by_cases hd : d = dbName
    · subst hd
      dsimp only
      rw [Function.update_self, Option.bind_some]
      by_cases ht : t = tableName
      · subst ht
        simp
      · simp only [Function.update_of_ne ht, ht, and_false, if_false]
        -- a database that was made up has no other table
        cases schemaStore.lookup d with
        | none => rfl
        | some dbStore => rfl
    · simp [hd]

end SchemaStore

/-! ## The schemas of the schemas -/

/-- `meta_db_schema.textproto`. -/
def metaDbSchema : Table where
  id := 1
  dbId := 1
  columns := [⟨0, "id", .int64⟩, ⟨1, "name", .string⟩, ⟨2, "created", .int64⟩,
    ⟨3, "modified", .int64⟩]
  primaryKeyIndex := ⟨0, [0]⟩
  secondaryIndex := [⟨1, [1]⟩]

/-- `meta_db_table_schema.textproto`. -/
def metaTableSchema : Table where
  id := 2
  dbId := 1
  columns := [⟨0, "id", .int64⟩, ⟨1, "name", .string⟩, ⟨2, "created", .int64⟩,
    ⟨3, "modified", .int64⟩, ⟨4, "serialized_table_str", .string⟩, ⟨5, "max_id_num", .int64⟩]
  primaryKeyIndex := ⟨0, [0]⟩
  secondaryIndex := [⟨1, [1]⟩]

/-- `bootstrap`, of files that can be read. -/
def bootstrap (schemaStore : SchemaStore) : Bool × SchemaStore :=
  match schemaStore.registerTable "meta" "meta_db" metaDbSchema with
  | (false, schemaStore) => (false, schemaStore)
  | (true, schemaStore) => schemaStore.registerTable "meta" "meta_db_table" metaTableSchema

/-- What a fresh store has after `bootstrap`. -/
theorem getTable_bootstrap {schemaStore : SchemaStore} (h : bootstrap {} = (true, schemaStore))
    (d t : String) : schemaStore.getTable d t =
      if d = "meta" ∧ t = "meta_db_table" then some metaTableSchema
      else if d = "meta" ∧ t = "meta_db" then some metaDbSchema
      else none := by
  unfold bootstrap at h
  rcases hfirst : ({} : SchemaStore).registerTable "meta" "meta_db" metaDbSchema with ⟨result, store⟩
  rw [hfirst] at h
  cases result with
  | false => cases h
  | true =>
    rw [(SchemaStore.registerTable_ok h).2 d t, (SchemaStore.registerTable_ok hfirst).2 d t]
    rfl

end ReplicatedCounter.MyDb
