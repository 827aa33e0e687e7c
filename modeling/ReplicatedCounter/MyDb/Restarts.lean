import ReplicatedCounter.MyDb.FailedRequests
import ReplicatedCounter.MyDb.KeySpaces
import ReplicatedCounter.MyDb.TxnCoordinator

/-!
# A server that is restarted

A restart loses the schemas and sets the counters back to 0; the rows stay. A counter that starts
over finds the row of each table that was ever made, and refuses the table for it, until it comes to
an id that nobody had. So a table that is made after a restart has none of the ids from before, and
the rows of a table that the server has forgotten stay as they are (`rows_kept`).

A crash in the middle of a request is a shorter list of operations, or the request and no answer.
-/

set_option autoImplicit false

namespace ReplicatedCounter.MyDb

open RowSerializer

variable {table : Table} {rocks rocks' : Rocks} {arrowTable : ArrowTable} {key : Bytes}

namespace client

/-- `client::SingleTableOperationResponse`. The rows of an update are never set. -/
inductive SingleTableOperationResponse where
  | notSet
  | addRow (tableRows : List (List Bytes))
  | updateRow
  | getRow (tableRows : List (List Bytes))
  deriving DecidableEq, Repr

end client

namespace DbImpl

/-- The body of the loop in `DbImpl::multiTableOperation`. -/
def singleTableOperation (db : DbImpl) : client.SingleTableOperationRequest →
    Except Error client.SingleTableOperationResponse × DbImpl
  | .addRow request => ((db.addRow request).1.map .addRow, (db.addRow request).2)
  | .updateRow request => ((db.updateRow request).1.map fun _ => .updateRow, (db.updateRow request).2)
  | .getRow request => ((db.getRow request).map .getRow, db)
  | .notSet => (.ok .notSet, db)

/-- `DbImpl::multiTableOperation`. What was done before an error stays done. -/
def multiTableOperation (db : DbImpl) : client.MultiTableOperationRequest →
    Except Error (List client.SingleTableOperationResponse) × DbImpl
  | [] => (.ok [], db)
  | request :: requests =>
    match db.singleTableOperation request with
    | (.error error, db) => (.error error, db)
    | (.ok response, db) =>
      ((db.multiTableOperation requests).1.map (response :: ·), (db.multiTableOperation requests).2)

end DbImpl

/-! ## The keys that are written -/

namespace RowSerializer

theorem keyOf_rawTableRow {values : List (Column × ColumnValue)} {raw : RawTableRow}
    (h : rawTableRow table values = .ok raw) (hkey : key ∈ raw.map (·.1)) : KeyOf table key := by
  unfold rawTableRow at h
  dsimp only at h
  obtain ⟨primaryKey, hprimary, h⟩ := Fallible.bind_eq_ok.mp h
  obtain ⟨secondaryKeys, hsecondary, h⟩ := Fallible.bind_eq_ok.mp h
  cases h
  simp only [List.map_append, List.map_cons, List.map_map, List.mem_append, List.mem_cons,
    List.mem_map, Function.comp_apply] at hkey
  rcases hkey with (rfl | ⟨entry, -, rfl⟩) | ⟨secondaryKey, hmem, rfl⟩
  · exact .primaryKey hprimary
  · exact .columnKey hprimary entry.1
  · obtain ⟨idxId, -, hidx⟩ := Fallible.exists_of_mem_mapM hsecondary hmem
    exact .secondaryIndexKey hidx

/-- **Only keys of the table are written.** -/
theorem keyOf_serialize {raws : List RawTableRow} (h : serialize table arrowTable = .ok raws)
    (hkey : key ∈ raws.flatten.map (·.1)) : KeyOf table key := by
  obtain ⟨entry, hentry, rfl⟩ := List.mem_map.mp hkey
  obtain ⟨raw, hraw, hentry⟩ := List.mem_flatten.mp hentry
  obtain ⟨position, -, hposition⟩ := Fallible.exists_of_mem_mapM h hraw
  obtain ⟨values, -, hrow⟩ := Fallible.bind_eq_ok.mp hposition
  exact keyOf_rawTableRow hrow (List.mem_map_of_mem hentry)

end RowSerializer

/-- A step of the database that is about some tables: no key goes, and only theirs change. -/
structure Confined (tables : Table → Prop) (rocks rocks' : Rocks) : Prop where
  grows : ∀ key, rocks.find? key ≠ none → rocks'.find? key ≠ none
  frame : ∀ key, (∀ table, tables table → ¬ KeyOf table key) → rocks'.find? key = rocks.find? key

namespace Confined

variable {tables tables' : Table → Prop}

theorem refl : Confined tables rocks rocks where
  grows _ h := h
  frame _ _ := rfl

theorem trans {rocks'' : Rocks} (h : Confined tables rocks rocks')
    (h' : Confined tables' rocks' rocks'') :
    Confined (fun table => tables table ∨ tables' table) rocks rocks'' where
  grows key hkey := h'.grows key (h.grows key hkey)
  frame key hkey := by
    rw [h'.frame key fun table htable => hkey table (.inr htable),
      h.frame key fun table htable => hkey table (.inl htable)]

theorem mono (h : Confined tables rocks rocks') (hsub : ∀ table, tables table → tables' table) :
    Confined tables' rocks rocks' where
  grows := h.grows
  frame key hkey := h.frame key fun table htable => hkey table (hsub table htable)

theorem write {raws : List RawTableRow} (h : serialize table arrowTable = .ok raws) :
    Confined (· = table) rocks (RocksReaderWriter.write rocks raws) where
  grows key hkey := RocksReaderWriter.find?_write_ne_none_iff.mpr (.inr hkey)
  frame key hkey := by
    rw [RocksReaderWriter.find?_write, SortedMap.lastValue_eq_none.mpr, Option.none_or]
    intro hmem
    exact hkey table rfl (keyOf_serialize h hmem)

theorem insert (h : QueryExecutor.insert rocks table arrowTable = .ok rocks') :
    Confined (· = table) rocks rocks' := by
  obtain ⟨-, raws, -, -, hser, rfl⟩ := QueryExecutor.insert_ok h
  exact .write hser

theorem update {option : UpdateOptions}
    (h : QueryExecutor.update rocks table arrowTable option = .ok rocks') :
    Confined (· = table) rocks rocks' := by
  obtain ⟨raws, hser, rfl⟩ := QueryExecutor.update_ok h
  exact .write hser

end Confined

namespace DbImpl

variable {db db' : DbImpl}

/-! ## What a request leaves, answered or not -/

/-- The schemas under some names. -/
def TablesNamed (schemaStore : SchemaStore) (names : List (String × String)) (table : Table) : Prop :=
  ∃ name ∈ names, schemaStore.getTable name.1 name.2 = some table

theorem addRow_effect (db : DbImpl) (request : client.AddRowRequest) :
    (db.addRow request).2.schemaStore = db.schemaStore ∧
      Confined (TablesNamed db.schemaStore [(request.databaseName, request.tableName)]) db.rocks
        (db.addRow request).2.rocks := by
  unfold addRow
  cases htable : db.schemaStore.getTable request.databaseName request.tableName with
  | none => exact ⟨rfl, .refl⟩
  | some table =>
    dsimp only
    cases Transformer.fromAddRowRequest request table with
    | error error => exact ⟨rfl, .refl⟩
    | ok internalTable =>
      dsimp only
      cases hinsert : QueryExecutor.insert db.rocks table internalTable with
      | error error => exact ⟨rfl, .refl⟩
      | ok rocks =>
        have hconfined : Confined (TablesNamed db.schemaStore
            [(request.databaseName, request.tableName)]) db.rocks rocks := by
          refine (Confined.insert hinsert).mono ?_
          rintro table' rfl
          exact ⟨_, List.mem_singleton.mpr rfl, htable⟩
        dsimp only
        cases QueryExecutor.get rocks table internalTable >>= Transformer.toTableRows table with
        | error error => exact ⟨rfl, hconfined⟩
        | ok tableRows => exact ⟨rfl, hconfined⟩

theorem updateRow_effect (db : DbImpl) (request : client.UpdateRowRequest) :
    (db.updateRow request).2.schemaStore = db.schemaStore ∧
      Confined (TablesNamed db.schemaStore [(request.databaseName, request.tableName)]) db.rocks
        (db.updateRow request).2.rocks := by
  unfold updateRow
  cases htable : db.schemaStore.getTable request.databaseName request.tableName with
  | none => exact ⟨rfl, .refl⟩
  | some table =>
    dsimp only
    cases QueryPlanner.plan db.rocks table (addConditionToCheckWriteLock request.condition) >>=
        QueryPlanner.execute with
    | error error => exact ⟨rfl, .refl⟩
    | ok result =>
      dsimp only
      split
      · exact ⟨rfl, .refl⟩
      · cases Transformer.fromUpdateRowRequest request table with
        | error error => exact ⟨rfl, .refl⟩
        | ok internalTable =>
          dsimp only
          cases request.updateType with
          | none => exact ⟨rfl, .refl⟩
          | some updateOptions =>
            dsimp only
            cases hupdate : QueryExecutor.update db.rocks table internalTable updateOptions with
            | error error => exact ⟨rfl, .refl⟩
            | ok rocks =>
              refine ⟨rfl, (Confined.update hupdate).mono ?_⟩
              rintro table' rfl
              exact ⟨_, List.mem_singleton.mpr rfl, htable⟩

end DbImpl

/-- The names of the table a request may write. -/
def client.SingleTableOperationRequest.written :
    client.SingleTableOperationRequest → List (String × String)
  | .notSet => []
  | .addRow request => [(request.databaseName, request.tableName)]
  | .updateRow request => [(request.databaseName, request.tableName)]
  | .getRow _ => []

namespace DbImpl

variable {db db' : DbImpl}

theorem singleTableOperation_effect (db : DbImpl) (request : client.SingleTableOperationRequest) :
    (db.singleTableOperation request).2.schemaStore = db.schemaStore ∧
      Confined (TablesNamed db.schemaStore request.written) db.rocks
        (db.singleTableOperation request).2.rocks := by
  cases request with
  | notSet => exact ⟨rfl, .refl⟩
  | addRow request => exact addRow_effect db request
  | updateRow request => exact updateRow_effect db request
  | getRow request => exact ⟨rfl, .refl⟩

/-- **A request of many operations** writes what its operations are about, as far as it comes. -/
theorem multiTableOperation_effect (db : DbImpl) (requests : List client.SingleTableOperationRequest) :
    (db.multiTableOperation requests).2.schemaStore = db.schemaStore ∧
      Confined (TablesNamed db.schemaStore (requests.flatMap (·.written))) db.rocks
        (db.multiTableOperation requests).2.rocks := by
  induction requests generalizing db with
  | nil => exact ⟨rfl, .refl⟩
  | cons request requests ih =>
    obtain ⟨hstore, hconfined⟩ := singleTableOperation_effect db request
    have hfirst : ∀ table, TablesNamed db.schemaStore request.written table →
        TablesNamed db.schemaStore ((request :: requests).flatMap (·.written)) table := by
      rintro table ⟨name, hname, htable⟩
      exact ⟨name, List.mem_append_left _ hname, htable⟩
    unfold multiTableOperation
    rcases hsingle : db.singleTableOperation request with ⟨result, after⟩
    rw [hsingle] at hstore hconfined
    dsimp only at hstore hconfined
    cases result with
    | error error => exact ⟨hstore, hconfined.mono hfirst⟩
    | ok response =>
      obtain ⟨hstore', hconfined'⟩ := ih after
      refine ⟨hstore'.trans hstore, (hconfined.trans hconfined').mono ?_⟩
      rintro table (htable | ⟨name, hname, htable⟩)
      · exact hfirst table htable
      · rw [hstore] at htable
        exact ⟨name, List.mem_append_right _ hname, htable⟩

theorem addDatabase_effect (db : DbImpl) (request : client.AddDatabaseRequest) (seconds : Int64) :
    (∀ d t, (db.addDatabase request seconds).2.schemaStore.getTable d t =
        db.schemaStore.getTable d t) ∧
      Confined (TablesNamed db.schemaStore [("meta", "meta_db")]) db.rocks
        (db.addDatabase request seconds).2.rocks := by
  unfold addDatabase
  cases htable : db.schemaStore.getTable "meta" "meta_db" with
  | none => exact ⟨fun _ _ => rfl, .refl⟩
  | some table =>
    dsimp only
    cases hinsert : Transformer.fromAddDatabaseRequest request table db.dbIds seconds >>=
        QueryExecutor.insert db.rocks table with
    | error error => exact ⟨fun _ _ => rfl, .refl⟩
    | ok rocks =>
      obtain ⟨arrowTable, -, hinsert⟩ := Fallible.bind_eq_ok.mp hinsert
      have hconfined : Confined (TablesNamed db.schemaStore [("meta", "meta_db")]) db.rocks rocks := by
        refine (Confined.insert hinsert).mono ?_
        rintro table' rfl
        exact ⟨_, List.mem_singleton.mpr rfl, htable⟩
      dsimp only
      rcases hregister : db.schemaStore.registerDb request.database
        { id := db.dbIds, name := request.database } with ⟨result, schemaStore⟩
      cases result with
      | false => exact ⟨fun _ _ => rfl, hconfined⟩
      | true => exact ⟨SchemaStore.registerDb_ok hregister, hconfined⟩

/-- A request for a table writes one of the meta tables, and registers nothing unless it is
answered. -/
theorem addTable_effect (db : DbImpl) (serializeAsString : client.AddTableRequest → Bytes)
    (request : client.AddTableRequest) (seconds : Int64) :
    ((addTable serializeAsString db request seconds).1 = .ok () ∨
        (addTable serializeAsString db request seconds).2.schemaStore = db.schemaStore) ∧
      Confined (TablesNamed db.schemaStore [("meta", "meta_db_table")]) db.rocks
        (addTable serializeAsString db request seconds).2.rocks := by
  unfold addTable
  cases hmeta : db.schemaStore.getTable "meta" "meta_db_table" with
  | none => exact ⟨.inr rfl, .refl⟩
  | some metaDbTable =>
    dsimp only
    cases db.schemaStore.getDatabase request.table.db with
    | none => exact ⟨.inr rfl, .refl⟩
    | some database =>
      dsimp only
      cases db.schemaStore.getTable request.table.db request.table.name with
      | some old => exact ⟨.inr rfl, .refl⟩
      | none =>
        dsimp only
        cases hinsert : Transformer.fromAddTableRequest serializeAsString request metaDbTable
            db.tableIds seconds >>= QueryExecutor.insert db.rocks metaDbTable with
        | error error => exact ⟨.inr rfl, .refl⟩
        | ok rocks =>
          obtain ⟨arrowTable, -, hinsert⟩ := Fallible.bind_eq_ok.mp hinsert
          have hconfined : Confined (TablesNamed db.schemaStore [("meta", "meta_db_table")]) db.rocks
              rocks := by
            refine (Confined.insert hinsert).mono ?_
            rintro table' rfl
            exact ⟨_, List.mem_singleton.mpr rfl, hmeta⟩
          dsimp only
          cases Transformer.fromTable request.table database.id db.tableIds with
          | error error => exact ⟨.inr rfl, hconfined⟩
          | ok table =>
            dsimp only
            rcases db.schemaStore.registerTable request.table.db request.table.name table with
              ⟨result, schemaStore⟩
            cases result with
            | false => exact ⟨.inr rfl, hconfined⟩
            | true => exact ⟨.inl rfl, hconfined⟩

/-- What was registered and recorded stays so, if no table comes and no key goes. -/
theorem Registered.of_grows (h : Registered db)
    (htables : ∀ d t, db'.schemaStore.getTable d t = db.schemaStore.getTable d t)
    (hgrows : ∀ key, db.rocks.find? key ≠ none → db'.rocks.find? key ≠ none) : Registered db' where
  metaDb := (htables _ _).trans h.metaDb
  metaTable := (htables _ _).trans h.metaTable
  recorded d t table hadded := hgrows _ (h.recorded d t table ((added_congr htables).mp hadded))
  distinct d t d' t' table other hadded hadded' :=
    h.distinct d t d' t' table other ((added_congr htables).mp hadded)
      ((added_congr htables).mp hadded')

/-! ## The server -/

/-- What happens to a server. -/
inductive Event where
  | mutation (mutation : Mutation)
  | multiTableOperation (request : client.MultiTableOperationRequest)
  | restart
  deriving DecidableEq, Repr

/-- The names of the table that an event may write for a client. -/
def Event.written : Event → List (String × String)
  | .mutation (.addRow request) => [(request.databaseName, request.tableName)]
  | .mutation (.updateRow request) => [(request.databaseName, request.tableName)]
  | .mutation _ => []
  | .multiTableOperation request => request.flatMap (·.written)
  | .restart => []

/-- A server: what it works on, and whether its process is there. -/
structure Server where
  db : DbImpl
  up : Bool := true

namespace Server

/-- A process that was just started, on what is stored. -/
def start (rocks : Rocks) : Server := { db := { schemaStore := (bootstrap {}).2, rocks } }

/-- The server after a request. -/
def after {α : Type} : Except Error α × DbImpl → Server
  | (.ok _, db) => { db }
  | (.error error, db) => { db, up := error.survived }

@[simp] theorem after_db {α : Type} (result : Except Error α × DbImpl) : (after result).db = result.2 := by
  rcases result with ⟨_ | _, _⟩ <;> rfl

/-- One event. A process that ended has to be started again. -/
def step (serializeAsString : client.AddTableRequest → Bytes) (s : Server) : Event → Option Server
  | .mutation mutation => if s.up then some (after (perform serializeAsString s.db mutation)) else none
  | .multiTableOperation request =>
    if s.up then some (after (s.db.multiTableOperation request)) else none
  | .restart => some (start s.db.rocks)

end Server

/-- A table that was added once; of the tables there are now, it is one with a name in `named`. -/
structure Known (table : Table) (named : String × String → Prop) (db : DbImpl) : Prop where
  registered : Registered db
  recorded : db.rocks.find? (metaKey table.id) ≠ none
  named : ∀ d t other, Added db.schemaStore d t other → other.id = table.id → named (d, t)

variable {table : Table} {named : String × String → Prop}

theorem Known.of_grows (h : Known table named db)
    (htables : ∀ d t, db'.schemaStore.getTable d t = db.schemaStore.getTable d t)
    (hgrows : ∀ key, db.rocks.find? key ≠ none → db'.rocks.find? key ≠ none) :
    Known table named db' where
  registered := h.registered.of_grows htables hgrows
  recorded := hgrows _ h.recorded
  named d t other hadded := h.named d t other ((added_congr htables).mp hadded)

theorem step_of_addTable_ok {serializeAsString : client.AddTableRequest → Bytes}
    {request : client.AddTableRequest} {seconds : Int64}
    (h : (addTable serializeAsString db request seconds).1 = .ok ()) :
    step serializeAsString db (.addTable request seconds) =
      some (addTable serializeAsString db request seconds).2 := by
  rcases hcall : addTable serializeAsString db request seconds with ⟨result, after⟩
  rw [hcall] at h
  dsimp only at h
  subst h
  simp only [step, hcall]

theorem Registered.addTable (h : Registered db) (serializeAsString : client.AddTableRequest → Bytes)
    (request : client.AddTableRequest) (seconds : Int64) :
    Registered (addTable serializeAsString db request seconds).2 := by
  obtain ⟨hresult | hstore, hconfined⟩ := addTable_effect db serializeAsString request seconds
  · exact h.step (step_of_addTable_ok hresult)
  · exact h.of_grows (fun d t => by rw [hstore]) hconfined.grows

/-- The id of a table that is made is not one that was drawn before. -/
theorem Known.addTable (h : Known table named db) (serializeAsString : client.AddTableRequest → Bytes)
    (request : client.AddTableRequest) (seconds : Int64) :
    Known table named (addTable serializeAsString db request seconds).2 := by
  obtain ⟨hresult | hstore, hconfined⟩ := addTable_effect db serializeAsString request seconds
  · have hstep := step_of_addTable_ok hresult
    refine ⟨h.registered.step hstep, hconfined.grows _ h.recorded, fun d t other hadded hid => ?_⟩
    obtain ⟨-, ⟨⟨_, _, heq⟩, -⟩ | ⟨request', seconds', database, new, heq, -, -, -, hfresh, -, hnone,
      htables⟩⟩ := h.registered.step_cases hstep
    · cases heq
    · rcases (Registered.added_iff h.registered hnone htables).mp hadded with ⟨-, rfl⟩ | hold
      · rw [hid] at hfresh
        exact absurd hfresh h.recorded
      · exact h.named d t other hold hid
  · exact h.of_grows (fun d t => by rw [hstore]) hconfined.grows

theorem registered_start (rocks : Rocks) : Registered (Server.start rocks).db :=
  (registered_bootstrap rfl rocks).1

/-- **A process that was just started knows no table** but the meta tables. -/
theorem not_added_start (rocks : Rocks) (d t : String) (table : Table) :
    ¬ Added (Server.start rocks).db.schemaStore d t table := by
  rintro ⟨htable, hdb, hmeta⟩
  have hnone : (Server.start rocks).db.schemaStore.getTable d t = none := by
    refine (getTable_bootstrap rfl d t).trans ?_
    rw [if_neg, if_neg]
    · rintro ⟨rfl, rfl⟩
      exact hdb rfl
    · rintro ⟨rfl, rfl⟩
      exact hmeta rfl
  cases hnone.symm.trans htable

theorem known_start {rocks : Rocks} (h : rocks.find? (metaKey table.id) ≠ none) :
    Known table named (Server.start rocks).db where
  registered := registered_start rocks
  recorded := h
  named d t other hadded := absurd hadded (not_added_start rocks d t other)

/-! ## Steps -/

/-- The table does not have the ids of a meta table. -/
def SparedMeta (table : Table) : Prop := table.dbId = 1 → table.id ≠ 1 ∧ table.id ≠ 2

/-- A table that is registered under no name in `named` shares nothing with the known one. -/
theorem Known.apart (h : Known table named db) (hspared : SparedMeta table) {d t : String}
    {other : Table} (hother : db.schemaStore.getTable d t = some other) (hname : ¬ named (d, t)) :
    Apart table other := by
  rw [ReplicatedCounter.MyDb.apart_iff]
  intro hids
  obtain ⟨hdbId, hid⟩ := Prod.mk.inj hids
  by_cases hdb : (d, t) = ("meta", "meta_db")
  · cases hdb
    obtain rfl : other = metaDbSchema := Option.some.inj (hother.symm.trans h.registered.metaDb)
    exact (hspared hdbId).1 hid
  · by_cases hmeta : (d, t) = ("meta", "meta_db_table")
    · cases hmeta
      obtain rfl : other = metaTableSchema :=
        Option.some.inj (hother.symm.trans h.registered.metaTable)
      exact (hspared hdbId).2 hid
    · exact hname (h.named d t other ⟨hother, hdb, hmeta⟩ hid.symm)

/-- **What is about other tables** leaves the keys of the known one alone. -/
theorem Known.frame (h : Known table named db) (hspared : SparedMeta table)
    {names : List (String × String)} {rocks : Rocks}
    (hconfined : Confined (TablesNamed db.schemaStore names) db.rocks rocks)
    (hnames : ∀ name ∈ names, ¬ named name) {indexId : UInt32} {key : Bytes}
    (hkey : KeySerializer.minimumIndexKey table indexId <+: key) :
    rocks.find? key = db.rocks.find? key := by
  refine hconfined.frame key ?_
  rintro other ⟨⟨d, t⟩, hname, hother⟩ hkeyOf
  obtain ⟨indexId', hbegins⟩ := hkeyOf.begins
  obtain ⟨hdbId, hid⟩ := ids_of_begins hkey hbegins
  exact (h.apart hspared hother (hnames _ hname)).ids (by rw [hdbId, hid])

variable {serializeAsString : client.AddTableRequest → Bytes} {s s' : Server} {e : Event}

/-- What an event does, as far as tables go. -/
theorem Server.step_cases (hstep : s.step serializeAsString e = some s') :
    s' = start s.db.rocks ∨
      (∃ request seconds, s'.db = (DbImpl.addTable serializeAsString s.db request seconds).2) ∨
      ((∀ d t, s'.db.schemaStore.getTable d t = s.db.schemaStore.getTable d t) ∧
        Confined (TablesNamed s.db.schemaStore (e.written ++ [("meta", "meta_db")])) s.db.rocks
          s'.db.rocks) := by
  have hsub : ∀ {names names' : List (String × String)} {db' : DbImpl},
      Confined (TablesNamed s.db.schemaStore names) s.db.rocks db'.rocks →
      (∀ name ∈ names, name ∈ names') →
      Confined (TablesNamed s.db.schemaStore names') s.db.rocks db'.rocks := by
    intro names names' db' hconfined hmem
    refine hconfined.mono ?_
    rintro table ⟨name, hname, htable⟩
    exact ⟨name, hmem name hname, htable⟩
  cases e with
  | restart =>
    cases hstep
    exact .inl rfl
  | multiTableOperation request =>
    dsimp only [Server.step] at hstep
    split at hstep
    · cases hstep
      rw [after_db]
      obtain ⟨hstore, hconfined⟩ := multiTableOperation_effect s.db request
      refine .inr (.inr ⟨fun d t => by rw [hstore], hsub hconfined fun name hname => ?_⟩)
      exact List.mem_append_left _ hname
    · cases hstep
  | mutation mutation =>
    dsimp only [Server.step] at hstep
    split at hstep
    · cases hstep
      rw [after_db]
      cases mutation with
      | addDatabase request seconds =>
        obtain ⟨htables, hconfined⟩ := addDatabase_effect s.db request seconds
        exact .inr (.inr ⟨htables, hsub hconfined fun name hname => hname⟩)
      | addTable request seconds => exact .inr (.inl ⟨request, seconds, rfl⟩)
      | addRow request =>
        obtain ⟨hstore, hconfined⟩ := addRow_effect s.db request
        refine .inr (.inr ⟨fun d t => ?_, hsub hconfined fun name hname => ?_⟩)
        · exact congrArg (fun store => SchemaStore.getTable store d t) hstore
        · exact List.mem_append_left _ hname
      | updateRow request =>
        obtain ⟨hstore, hconfined⟩ := updateRow_effect s.db request
        refine .inr (.inr ⟨fun d t => ?_, hsub hconfined fun name hname => ?_⟩)
        · exact congrArg (fun store => SchemaStore.getTable store d t) hstore
        · exact List.mem_append_left _ hname
    · cases hstep

/-- **A table stays known**, whatever happens. -/
theorem Known.step (h : Known table named s.db) (hstep : s.step serializeAsString e = some s') :
    Known table named s'.db := by
  rcases Server.step_cases hstep with rfl | ⟨request, seconds, hdb⟩ | ⟨htables, hconfined⟩
  · exact known_start h.recorded
  · rw [hdb]
    exact h.addTable serializeAsString request seconds
  · exact h.of_grows htables hconfined.grows

theorem Registered.server_step (h : Registered s.db)
    (hstep : s.step serializeAsString e = some s') : Registered s'.db := by
  rcases Server.step_cases hstep with rfl | ⟨request, seconds, hcall⟩ | ⟨htables, hconfined⟩
  · exact registered_start _
  · rw [hcall]
    exact h.addTable serializeAsString request seconds
  · exact h.of_grows htables hconfined.grows

/-- **An event that is not about the table** leaves its keys alone. -/
theorem Known.step_frame (h : Known table named s.db) (hspared : SparedMeta table)
    (hdb : ¬ named ("meta", "meta_db")) (hmeta : ¬ named ("meta", "meta_db_table"))
    (hwritten : ∀ name ∈ e.written, ¬ named name)
    (hstep : s.step serializeAsString e = some s') {indexId : UInt32} {key : Bytes}
    (hkey : KeySerializer.minimumIndexKey table indexId <+: key) :
    s'.db.rocks.find? key = s.db.rocks.find? key := by
  rcases Server.step_cases hstep with rfl | ⟨request, seconds, hcall⟩ | ⟨-, hconfined⟩
  · rfl
  · rw [hcall]
    refine h.frame hspared (addTable_effect _ serializeAsString request seconds).2 (fun name hname => ?_)
      hkey
    obtain rfl := List.mem_singleton.mp hname
    exact hmeta
  · refine h.frame hspared hconfined (fun name hname => ?_) hkey
    rcases List.mem_append.mp hname with hname | hname
    · exact hwritten name hname
    · obtain rfl := List.mem_singleton.mp hname
      exact hdb

/-! ## Runs -/

variable {es es' : List Event} {d t : String}

theorem Known.run (h : Known table named s.db)
    (hrun : Transition.run (Server.step serializeAsString) s es = some s') :
    Known table named s'.db :=
  Transition.run_invariant (P := fun s => Known table named s.db) (fun _ _ _ h hs => h.step hs) hrun h

theorem Known.run_frame (h : Known table named s.db) (hspared : SparedMeta table)
    (hdb : ¬ named ("meta", "meta_db")) (hmeta : ¬ named ("meta", "meta_db_table"))
    (hwritten : ∀ e ∈ es, ∀ name ∈ e.written, ¬ named name)
    (hrun : Transition.run (Server.step serializeAsString) s es = some s') {indexId : UInt32}
    {key : Bytes} (hkey : KeySerializer.minimumIndexKey table indexId <+: key) :
    s'.db.rocks.find? key = s.db.rocks.find? key := by
  induction es generalizing s with
  | nil =>
    cases hrun
    rfl
  | cons e es ih =>
    obtain ⟨u, hstep, hrest⟩ := Transition.run_cons_eq_some.mp hrun
    rw [ih (h.step hstep) (fun e' he' => hwritten e' (List.mem_cons_of_mem e he')) hrest]
    exact h.step_frame hspared hdb hmeta (hwritten e List.mem_cons_self) hstep hkey

theorem registered_run {rocks : Rocks}
    (hrun : Transition.run (Server.step serializeAsString) (Server.start rocks) es = some s) :
    Registered s.db :=
  Transition.run_invariant (P := fun s => Registered s.db) (fun _ _ _ h hs => h.server_step hs) hrun
    (registered_start rocks)

/-- **The rows of a table outlive the server.** Whatever is asked of it and however often it is
restarted, a table that was made shares nothing with one of another name, or with any that is made
after a restart. Its keys change only with requests that name it, and after a restart no more. -/
theorem rows_kept {rocks : Rocks}
    (hrun : Transition.run (Server.step serializeAsString) (Server.start rocks) es = some s)
    (hadded : Added s.db.schemaStore d t table) (hspared : SparedMeta table)
    (hrun' : Transition.run (Server.step serializeAsString) s es' = some s') :
    (∀ d' t' other, Added s'.db.schemaStore d' t' other → (d', t') ≠ (d, t) ∨ .restart ∈ es' →
        Apart table other) ∧
      ((∀ e ∈ es'.takeWhile (· ≠ .restart), (d, t) ∉ e.written) →
        ∀ indexId key, KeySerializer.minimumIndexKey table indexId <+: key →
          s'.db.rocks.find? key = s.db.rocks.find? key) := by
  have hregistered := registered_run hrun
  have hknown : Known table (· = (d, t)) s.db := by
    refine ⟨hregistered, hregistered.recorded d t table hadded, fun d' t' other hother hid => ?_⟩
    by_contra hne
    exact hregistered.distinct d' t' d t other table hother hadded hne hid
  constructor
  · rintro d' t' other hother (hne | hrestart)
    · exact (hknown.run hrun').apart hspared hother.1 hne
    · obtain ⟨before, after, rfl⟩ := List.append_of_mem hrestart
      obtain ⟨u, hbefore, hafter⟩ := Transition.run_append_eq_some.mp hrun'
      obtain ⟨v, hstart, hafter⟩ := Transition.run_cons_eq_some.mp hafter
      cases hstart
      have hnew : Known table (fun _ => False) (Server.start u.db.rocks).db :=
        known_start (hknown.run hbefore).recorded
      exact (hnew.run hafter).apart hspared hother.1 id
  · intro hwritten indexId key hkey
    rw [← List.takeWhile_append_dropWhile (p := fun e => decide (e ≠ Event.restart)) (l := es')]
      at hrun'
    obtain ⟨u, hbefore, hafter⟩ := Transition.run_append_eq_some.mp hrun'
    have hkept : u.db.rocks.find? key = s.db.rocks.find? key := by
      refine hknown.run_frame hspared (fun h => hadded.2.1 h.symm) (fun h => hadded.2.2 h.symm) ?_
        hbefore hkey
      rintro e he name hname rfl
      exact hwritten e he hname
    rw [← hkept]
    cases hrest : es'.dropWhile fun e => decide (e ≠ Event.restart) with
    | nil =>
      rw [hrest] at hafter
      cases hafter
      rfl
    | cons e rest =>
      have he : e = .restart := by
        have hne := List.head_dropWhile_not (fun e => decide (e ≠ Event.restart)) (l := es')
          (by rw [hrest]; nofun)
        simpa only [hrest, List.head_cons, decide_eq_false_iff_not, not_not] using hne
      subst he
      rw [hrest] at hafter
      obtain ⟨v, hstart, hafter⟩ := Transition.run_cons_eq_some.mp hafter
      cases hstart
      have hnew : Known table (fun _ => False) (Server.start u.db.rocks).db :=
        known_start (hknown.run hbefore).recorded
      exact hnew.run_frame hspared id id (fun _ _ _ _ => id) hafter hkey

/-- A database and a table of numbers. -/
def makeNumbers : List Event :=
  [.mutation (.addDatabase ⟨"a"⟩ 1700000000), .mutation (.addTable { table := {
    name := "t"
    db := "a"
    columns := [⟨"number", some .int64⟩]
    primaryKey := ["number"]
    secondaryIndex := [] } } 1700000000)]

/-- A number is added. -/
def addSeven : Event :=
  .multiTableOperation [.addRow ⟨"a", "t", [⟨"number", "7".toList⟩, ⟨lockModeName, "0".toList⟩]⟩]

/-- The server starts again. It is asked twice for the database and twice for the table, and refuses
each of them once. -/
theorem rows_kept_numbers : ∃ s s' first second,
    Transition.run (Server.step serializeShort) (Server.start .empty) (makeNumbers ++ [addSeven]) =
        some s ∧
      Transition.run (Server.step serializeShort) s ([.restart] ++
        makeNumbers.flatMap (fun e => [e, e]) ++ [addSeven]) = some s' ∧
      s.db.schemaStore.getTable "a" "t" = some first ∧
      s'.db.schemaStore.getTable "a" "t" = some second ∧ Apart first second ∧
      ∀ indexId key, KeySerializer.minimumIndexKey first indexId <+: key →
        s'.db.rocks.find? key = s.db.rocks.find? key := by
  obtain ⟨s, hrun⟩ : ∃ s, Transition.run (Server.step serializeShort) (Server.start .empty)
      (makeNumbers ++ [addSeven]) = some s := ⟨_, rfl⟩
  obtain ⟨s', hrun'⟩ : ∃ s', Transition.run (Server.step serializeShort) s ([.restart] ++
      makeNumbers.flatMap (fun e => [e, e]) ++ [addSeven]) = some s' := by
    cases hrun
    exact ⟨_, rfl⟩
  obtain ⟨first, hfirst⟩ : ∃ first, s.db.schemaStore.getTable "a" "t" = some first := by
    cases hrun
    exact ⟨_, rfl⟩
  obtain ⟨second, hsecond⟩ : ∃ second, s'.db.schemaStore.getTable "a" "t" = some second := by
    cases hrun
    cases hrun'
    exact ⟨_, rfl⟩
  have hspared : SparedMeta first := by
    cases hrun
    cases hfirst
    intro hdbId
    exact absurd hdbId (by decide)
  obtain ⟨hapart, hkept⟩ := rows_kept hrun ⟨hfirst, by decide, by decide⟩ hspared hrun'
  exact ⟨s, s', first, second, hrun, hrun', hfirst, hsecond,
    hapart "a" "t" second ⟨hsecond, by decide, by decide⟩ (.inr (by decide)), hkept (by decide)⟩

end DbImpl

end ReplicatedCounter.MyDb
