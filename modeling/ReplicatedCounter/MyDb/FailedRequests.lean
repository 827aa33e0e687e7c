import ReplicatedCounter.Lib.Transition
import ReplicatedCounter.MyDb.DbImpl

/-!
# What a request that is refused leaves behind

A caller is told of a refusal: a `DbError`, or that the row already exists. A request for rows is
refused before it has written anything. A request for a table is refused in three places, and in the
last of them the id has been drawn. A request for a database draws the id first and looks whether
the database is there last, with the row already written.

The other errors of a request for a row can come after its write. None of them is a refusal: reading
rows and answering with them tells nothing.
-/

set_option autoImplicit false

namespace ReplicatedCounter.MyDb

open Fallible

/-! ## The transformer has no error of its own -/

namespace Transformer

theorem tellsNothing_appendColumnValue (table : Table)
    (colBuilder : SortedMap UInt32 (List ColumnValue)) (columnValue : client.ColumnValue) :
    FailsOnly TellsNothing (appendColumnValue table colBuilder columnValue) := by
  unfold appendColumnValue
  split
  · exact failsOnly_error tellsNothing_outOfRange
  · split
    · exact failsOnly_error tellsNothing_undefinedBehaviour
    · exact (tellsNothing_toInt64 _).bind fun _ => failsOnly_ok _
    · exact failsOnly_ok _

theorem tellsNothing_fromColumnValues (columnValues : List (List client.ColumnValue)) (table : Table) :
    FailsOnly TellsNothing (fromColumnValues columnValues table) := by
  unfold fromColumnValues
  refine (failsOnly_foldlM (tellsNothing_appendColumnValue table) _).bind fun colBuilder => ?_
  dsimp only
  split
  · exact failsOnly_error tellsNothing_undefinedBehaviour
  · exact failsOnly_ok _

theorem tellsNothing_idLookup (columns : List client.Column) (name : String) :
    FailsOnly TellsNothing (idLookup columns name) := by
  unfold idLookup
  split
  · exact failsOnly_ok _
  · exact failsOnly_error tellsNothing_outOfRange

theorem tellsNothing_fromTable (clientTable : client.Table) (dbId tableId : UInt32) :
    FailsOnly TellsNothing (fromTable clientTable dbId tableId) := by
  unfold fromTable
  refine (failsOnly_mapM fun p _ => ?_).bind fun columns => ?_
  · dsimp only
    split
    · exact failsOnly_ok _
    · exact failsOnly_error tellsNothing_assertionFailed
  · refine (failsOnly_mapM fun name _ => tellsNothing_idLookup _ name).bind fun primaryKeyIds => ?_
    exact (failsOnly_mapM fun names _ => failsOnly_mapM fun name _ => tellsNothing_idLookup _ name).bind
      fun _ => failsOnly_ok _

theorem tellsNothing_toTableRows (table : Table) (arrowTable : ArrowTable) :
    FailsOnly TellsNothing (toTableRows table arrowTable) :=
  failsOnly_mapM fun _ _ => failsOnly_mapM fun _ _ =>
    (tellsNothing_value _ _ _ _).bind fun _ => failsOnly_ok _

end Transformer

namespace DbImpl

/-! ## Requests that change something -/

/-- A request that writes, with the time it is served at if it asks for that. -/
inductive Mutation where
  | addDatabase (request : client.AddDatabaseRequest) (seconds : Int64)
  | addTable (request : client.AddTableRequest) (seconds : Int64)
  | addRow (request : client.AddRowRequest)
  | updateRow (request : client.UpdateRowRequest)
  deriving DecidableEq, Repr

variable (serializeAsString : client.AddTableRequest → Bytes)

/-- What the request comes to; the rows `addRow` answers with are left out. -/
def perform (db : DbImpl) : Mutation → Except Error Unit × DbImpl
  | .addDatabase request seconds => db.addDatabase request seconds
  | .addTable request seconds => addTable serializeAsString db request seconds
  | .addRow request => ((db.addRow request).1.map fun _ => (), (db.addRow request).2)
  | .updateRow request => db.updateRow request

/-- The errors that a process survives. -/
def Error.survived : Error → Bool
  | .execution .assertionFailed => false
  | .execution .undefinedBehaviour => false
  | _ => true

/-- The state the next request finds, if there is a process for it. -/
def next (db : DbImpl) (mutation : Mutation) : Option DbImpl :=
  match perform serializeAsString db mutation with
  | (.ok _, db') => some db'
  | (.error error, db') => if error.survived then some db' else none

/-- A refusal: a `DbError`, or that the row already exists. -/
def Error.IsRefusal : Error → Prop
  | .dbError _ => True
  | .execution error => error = rowAlreadyExists

/-- If the request is refused, nothing has changed. -/
def RefusedUnchanged (db : DbImpl) (mutation : Mutation) : Prop :=
  ∀ error db', perform serializeAsString db mutation = (.error error, db') → error.IsRefusal → db' = db

/-- The request is not refused after its id was drawn. Its row is new, and it is for a database that
is new as well, unless the row cannot be written. -/
def NotRefusedLate (db : DbImpl) : Mutation → Prop
  | .addDatabase request seconds =>
    ∀ table, db.schemaStore.getTable "meta" "meta_db" = some table →
    ∀ arrowTable, Transformer.fromAddDatabaseRequest request table db.dbIds seconds = .ok arrowTable →
      ¬ Taken db.rocks table arrowTable ∧
        (db.schemaStore.getDatabase request.database = none ∨
          ∀ rocks, QueryExecutor.insert db.rocks table arrowTable ≠ .ok rocks)
  | .addTable request seconds =>
    ∀ metaDbTable, db.schemaStore.getTable "meta" "meta_db_table" = some metaDbTable →
    ∀ arrowTable,
      Transformer.fromAddTableRequest serializeAsString request metaDbTable db.tableIds seconds =
        .ok arrowTable →
      ¬ Taken db.rocks metaDbTable arrowTable ∨
        db.schemaStore.getDatabase request.table.db = none ∨
        db.schemaStore.getTable request.table.db request.table.name ≠ none
  | .addRow _ => True
  | .updateRow _ => True

variable {serializeAsString : client.AddTableRequest → Bytes} {db : DbImpl}

theorem drawn_ne (id : UInt32) : id + 1 ≠ id := by
  intro h
  have hone : (1 : UInt32) = 0 := by rwa [← UInt32.add_right_inj id, UInt32.add_zero]
  exact absurd hone (by decide)

theorem getDatabase_eq_none_iff {schemaStore : SchemaStore} {dbName : String} :
    schemaStore.getDatabase dbName = none ↔ schemaStore.lookup dbName = none :=
  Option.map_eq_none_iff

/-- **`addDatabase`.** Whatever it is refused for, its id has been drawn. -/
theorem addDatabase_refused_iff {request : client.AddDatabaseRequest} {seconds : Int64} :
    RefusedUnchanged serializeAsString db (.addDatabase request seconds) ↔
      NotRefusedLate serializeAsString db (.addDatabase request seconds) := by
  unfold RefusedUnchanged perform addDatabase
  dsimp only [NotRefusedLate]
  cases htable : db.schemaStore.getTable "meta" "meta_db" with
  | none =>
    refine iff_of_true (fun error db' h hrefusal => ?_) (fun table h => nomatch h)
    cases h
    cases hrefusal
  | some table =>
    dsimp only
    cases hfrom : Transformer.fromAddDatabaseRequest request table db.dbIds seconds with
    | error error =>
      refine iff_of_true (fun error' db' h hrefusal => ?_) ?_
      · cases h
        exact absurd hrefusal
          (Transformer.tellsNothing_fromColumnValues _ table error hfrom).ne_rowAlreadyExists
      · intro table' htable' arrowTable harrow
        cases htable'
        exact nomatch hfrom.symm.trans harrow
    | ok arrowTable =>
      rw [ok_bind]
      simp only [Option.some.injEq, forall_eq', hfrom, Except.ok.injEq]
      rw [← insert_refused_iff]
      cases hinsert : QueryExecutor.insert db.rocks table arrowTable with
      | error error =>
        constructor
        · intro h
          refine ⟨fun heq => ?_, .inr nofun⟩
          cases heq
          exact drawn_ne _ (congrArg dbIds (h _ _ rfl rfl))
        · rintro ⟨hne, -⟩ error' db' h hrefusal
          cases h
          exact absurd (congrArg Except.error hrefusal) hne
      | ok rocks =>
        dsimp only
        cases hlookup : db.schemaStore.lookup request.database with
        | some dbStore =>
          have hexists : db.schemaStore.getDatabase request.database ≠ none := by
            rw [ne_eq, getDatabase_eq_none_iff, hlookup]
            nofun
          refine iff_of_false (fun h => ?_) ?_
          · have hregister : db.schemaStore.registerDb request.database
                { id := db.dbIds, name := request.database } = (false, db.schemaStore) := by
              unfold SchemaStore.registerDb
              rw [hlookup]
            rw [hregister] at h
            exact drawn_ne _ (congrArg dbIds (h _ _ rfl trivial))
          · rintro ⟨-, hnone | hno⟩
            · exact hexists hnone
            · exact hno rocks rfl
        | none =>
          refine iff_of_true (fun error db' h hrefusal => ?_) ?_
          · unfold SchemaStore.registerDb at h
            rw [hlookup] at h
            cases h
          · exact ⟨nofun, .inl (getDatabase_eq_none_iff.mpr hlookup)⟩

/-- **`addTable`.** Before its id is drawn it is refused for the database or the table, later only
for the row. -/
theorem addTable_refused_iff {request : client.AddTableRequest} {seconds : Int64} :
    RefusedUnchanged serializeAsString db (.addTable request seconds) ↔
      NotRefusedLate serializeAsString db (.addTable request seconds) := by
  unfold RefusedUnchanged perform addTable
  dsimp only [NotRefusedLate]
  cases hmeta : db.schemaStore.getTable "meta" "meta_db_table" with
  | none =>
    refine iff_of_true (fun error db' h hrefusal => ?_) (fun table h => nomatch h)
    cases h
    cases hrefusal
  | some metaDbTable =>
    dsimp only
    cases hdatabase : db.schemaStore.getDatabase request.table.db with
    | none =>
      refine iff_of_true (fun error db' h hrefusal => ?_) (fun _ _ _ _ => .inr (.inl rfl))
      cases h
      rfl
    | some database =>
      dsimp only
      cases htable : db.schemaStore.getTable request.table.db request.table.name with
      | some table =>
        refine iff_of_true (fun error db' h hrefusal => ?_) (fun _ _ _ _ => .inr (.inr nofun))
        cases h
        rfl
      | none =>
        dsimp only
        cases hfrom : Transformer.fromAddTableRequest serializeAsString request metaDbTable
            db.tableIds seconds with
        | error error =>
          refine iff_of_true (fun error' db' h hrefusal => ?_) ?_
          · cases h
            exact absurd hrefusal
              (Transformer.tellsNothing_fromColumnValues _ _ error hfrom).ne_rowAlreadyExists
          · intro table' htable' arrowTable harrow
            cases htable'
            exact nomatch hfrom.symm.trans harrow
        | ok arrowTable =>
          rw [ok_bind]
          simp only [Option.some.injEq, forall_eq', hfrom, Except.ok.injEq]
          rw [← insert_refused_iff]
          cases hinsert : QueryExecutor.insert db.rocks metaDbTable arrowTable with
          | error error =>
            constructor
            · intro h
              refine .inl fun heq => ?_
              cases heq
              exact drawn_ne _ (congrArg tableIds (h _ _ rfl rfl))
            · rintro (hne | hno | hno) error' db' h hrefusal
              · cases h
                exact absurd (congrArg Except.error hrefusal) hne
              · exact nomatch hno
              · exact absurd rfl hno
          | ok rocks =>
            refine iff_of_true (fun error db' h hrefusal => ?_) (.inl nofun)
            dsimp only at h
            -- the row is written, and what is left either returns or ends the process
            cases hschema : Transformer.fromTable request.table database.id db.tableIds with
            | error error' =>
              rw [hschema] at h
              cases h
              exact absurd hrefusal
                (Transformer.tellsNothing_fromTable _ _ _ error' hschema).ne_rowAlreadyExists
            | ok table =>
              rw [hschema] at h
              dsimp only at h
              rcases hregister : db.schemaStore.registerTable request.table.db request.table.name
                table with ⟨result, schemaStore⟩
              rw [hregister] at h
              cases result with
              | false =>
                cases h
                cases hrefusal
              | true => cases h

/-- **`addRow`** is refused before it writes. -/
theorem addRow_refused_unchanged (request : client.AddRowRequest) :
    RefusedUnchanged serializeAsString db (.addRow request) := by
  unfold RefusedUnchanged perform addRow
  intro error db' h hrefusal
  dsimp only at h
  cases htable : db.schemaStore.getTable request.databaseName request.tableName with
  | none =>
    rw [htable] at h
    cases h
    rfl
  | some table =>
    rw [htable] at h
    dsimp only at h
    cases hfrom : Transformer.fromAddRowRequest request table with
    | error error' =>
      rw [hfrom] at h
      cases h
      rfl
    | ok arrowTable =>
      rw [hfrom] at h
      dsimp only at h
      cases hinsert : QueryExecutor.insert db.rocks table arrowTable with
      | error error' =>
        rw [hinsert] at h
        cases h
        rfl
      | ok rocks =>
        rw [hinsert] at h
        dsimp only at h
        cases hresponse : QueryExecutor.get rocks table arrowTable >>=
            Transformer.toTableRows table with
        | ok tableRows =>
          rw [hresponse] at h
          cases h
        | error error' =>
          rw [hresponse] at h
          cases h
          have hnothing := (tellsNothing_get rocks table arrowTable).bind
            (Transformer.tellsNothing_toTableRows table) error' hresponse
          exact absurd hrefusal hnothing.ne_rowAlreadyExists

/-- **`updateRow`** does nothing after its write. -/
theorem updateRow_error_unchanged {request : client.UpdateRowRequest} {error : Error} {db' : DbImpl}
    (h : db.updateRow request = (.error error, db')) : db' = db := by
  unfold updateRow at h
  cases htable : db.schemaStore.getTable request.databaseName request.tableName with
  | none =>
    rw [htable] at h
    cases h
    rfl
  | some table =>
    rw [htable] at h
    dsimp only at h
    cases hplan : QueryPlanner.plan db.rocks table (addConditionToCheckWriteLock request.condition) >>=
        QueryPlanner.execute with
    | error error' =>
      rw [hplan] at h
      cases h
      rfl
    | ok result =>
      rw [hplan] at h
      dsimp only at h
      split_ifs at h with hrows
      · cases h
        rfl
      · cases hfrom : Transformer.fromUpdateRowRequest request table with
        | error error' =>
          rw [hfrom] at h
          cases h
          rfl
        | ok arrowTable =>
          rw [hfrom] at h
          dsimp only at h
          cases htype : request.updateType with
          | none =>
            rw [htype] at h
            cases h
            rfl
          | some updateOptions =>
            rw [htype] at h
            dsimp only at h
            cases hupdate : QueryExecutor.update db.rocks table arrowTable updateOptions with
            | error error' =>
              rw [hupdate] at h
              cases h
              rfl
            | ok rocks =>
              rw [hupdate] at h
              cases h

/-- **One request.** -/
theorem refusedUnchanged_iff (db : DbImpl) (mutation : Mutation) :
    RefusedUnchanged serializeAsString db mutation ↔ NotRefusedLate serializeAsString db mutation := by
  cases mutation with
  | addDatabase request seconds => exact addDatabase_refused_iff
  | addTable request seconds => exact addTable_refused_iff
  | addRow request => exact iff_of_true (addRow_refused_unchanged request) trivial
  | updateRow request =>
    exact iff_of_true (fun _ _ h _ => updateRow_error_unchanged h) trivial

/-- **Refused requests change nothing** along a run, if and only if none of them is refused after
its id was drawn. -/
theorem refusals_change_nothing_iff (db : DbImpl) (mutations : List Mutation) :
    Transition.Meets (next serializeAsString) (RefusedUnchanged serializeAsString) db mutations ↔
      Transition.Meets (next serializeAsString) (NotRefusedLate serializeAsString) db mutations :=
  Transition.meets_congr (I := fun _ => True) (fun db mutation _ => refusedUnchanged_iff db mutation)
    (fun _ _ _ _ _ _ => trivial) trivial

/-- A `DbImpl` after `bootstrap`, over an empty store. -/
def started : DbImpl := { schemaStore := (bootstrap {}).2, rocks := .empty }

/-- The second request for a database is refused, with another id drawn and another row written. -/
theorem database_refused_late :
    ¬ Transition.Meets (next fun _ => []) (RefusedUnchanged fun _ => []) started
      [.addDatabase ⟨"a"⟩ 1700000000, .addDatabase ⟨"a"⟩ 1700000001] := by
  intro h
  have hfirst : (started.addDatabase ⟨"a"⟩ 1700000000).1 = .ok () := by decide +kernel
  have hnext : next (fun _ => []) started (.addDatabase ⟨"a"⟩ 1700000000) =
      some (started.addDatabase ⟨"a"⟩ 1700000000).2 := by
    unfold next perform
    dsimp only
    split
    · next heq => rw [heq]
    · next heq => exact nomatch hfirst.symm.trans (congrArg Prod.fst heq)
  have hsecond : ((started.addDatabase ⟨"a"⟩ 1700000000).2.addDatabase ⟨"a"⟩ 1700000001).1 =
      .error (.dbError .databaseAlreadyExists) := by decide +kernel
  have hsame := (h.2 _ hnext).1 _ _ (Prod.ext hsecond rfl) trivial
  exact absurd (congrArg dbIds hsame) (by decide +kernel)

end DbImpl

end ReplicatedCounter.MyDb
