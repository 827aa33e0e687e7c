import ReplicatedCounter.Lib.Lockstep
import ReplicatedCounter.MyDb.Restarts
import ReplicatedCounter.MyDb.TableRequests

/-!
# Tables of a server

A server is asked for the rows of one table and for everything else, in any order. As long as it is not
started again and nobody else writes to the table, what it answers to the first is what a `RowTable`
answers that was empty when the table was made (`requests_served`).

Three things make that so. A table that is made has an id that no key in the store has, as every key is
one of a table that `meta_db_table` has a row of (`Accounted`). What is about other tables does not
touch its keys. And a request for its rows does what the table does. The table has to be one without
the pitfalls of schemas (`client.Table.Plain`), and not to have the ids of a meta table.
-/

set_option autoImplicit false

namespace ReplicatedCounter.MyDb

open KeySerializer RowSerializer

variable {table : Table}

/-! ## Tables without pitfalls -/

/-- A table of a client that is stored as it was meant: no column id comes twice, nor a column name,
the primary key is in the order of the columns and has the first of them, and there is no secondary
index. -/
structure client.Table.Plain (clientTable : client.Table) : Prop where
  few : clientTable.columns.length ≤ 1001
  names : (clientTable.columns.map (·.name) ++ [DbImpl.lockModeName]).Nodup
  order : clientTable.primaryKey.Sublist (clientTable.columns.map (·.name))
  led : ∃ name ∈ (clientTable.columns.map (·.name)).head?, name ∈ clientTable.primaryKey
  noIndex : clientTable.secondaryIndex = []

namespace Transformer

variable {clientTable : client.Table} {dbId tableId : UInt32}

theorem secondaryIndex_fromTable (h : fromTable clientTable dbId tableId = .ok table)
    (hnone : clientTable.secondaryIndex = []) : table.secondaryIndex = [] := by
  have hids := (indexIds_fromTable h).2
  rw [hnone] at hids
  exact List.map_eq_nil_iff.mp hids

theorem written_of_plain (h : fromTable clientTable dbId tableId = .ok table)
    (hplain : clientTable.Plain) : table.Written := by
  obtain ⟨name, -, hname⟩ := hplain.led
  refine written_fromTable h (List.ne_nil_of_mem hname) hplain.order ?_ ?_
  · rw [columnIds_fromTable h]
    exact nodup_counted_iff.mpr hplain.few
  · rw [names_fromTable h]
    exact hplain.names

/-- **The schema of a plain table** keeps to what the store needs. -/
theorem keyed_of_plain (h : fromTable clientTable dbId tableId = .ok table)
    (hplain : clientTable.Plain) : table.Keyed := by
  have hwritten := written_of_plain h hplain
  refine ⟨hwritten.ids, hwritten.names, hwritten.columnIds, hwritten.columnIds_ne, ?_⟩
  rw [secondaryIndex_fromTable h hplain.noIndex]
  nofun

theorem serializable_of_plain (h : fromTable clientTable dbId tableId = .ok table)
    (hplain : clientTable.Plain) : Serializable table := by
  have hwritten := written_of_plain h hplain
  refine ⟨hwritten.names, ?_, fun col _ idxId hidx => ?_⟩
  · rw [hwritten.columnIds, List.length_map]
  · unfold Table.indexIds at hidx
    rw [secondaryIndex_fromTable h hplain.noIndex] at hidx
    exact absurd hidx List.not_mem_nil

/-- Its first column is in the primary key. -/
theorem led_of_plain (h : fromTable clientTable dbId tableId = .ok table)
    (hplain : clientTable.Plain) :
    ∀ first ∈ table.columns.head?, first.id ∈ table.primaryKeyIndex.columnIds := by
  have hwritten := written_of_plain h hplain
  intro first hfirst
  obtain ⟨name, hhead, hname⟩ := hplain.led
  have hfirstName : first.name = name := by
    have hnames := congrArg List.head? (names_fromTable h)
    rw [List.head?_map, Option.mem_def.mp hfirst, List.head?_append, Option.mem_def.mp hhead] at hnames
    exact Option.some.inj hnames
  obtain ⟨colId, hcolId, hlookup⟩ := Fallible.exists_of_mem_mapM_left (primaryKey_fromTable h) hname
  rw [← hfirstName] at hlookup
  rwa [← idLookup_eq h hwritten.names (List.mem_of_mem_head? hfirst) hlookup]

end Transformer

/-! ## Whose keys are in the store -/

/-- A key is an index of its table, and what a separator ends or begins with. -/
theorem KeyOf.separated {key : Bytes} (h : KeyOf table key) :
    ∃ indexId r, Separated r ∧ key = minimumIndexKey table indexId ++ r := by
  have hprimary : ∀ {values : List ColumnValue} {key r : Bytes},
      KeySerializer.primaryKey table values = .ok key → Separated r →
      ∃ s, Separated s ∧ key ++ r = minimumIndexKey table table.primaryKeyIndex.id ++ s := by
    intro values key r h hr
    unfold KeySerializer.primaryKey at h
    split at h
    · cases h
      exact ⟨_, separated_keyParts _ _ hr, List.append_assoc _ _ _⟩
    · cases h
  cases h with
  | primaryKey h =>
    obtain ⟨s, hs, heq⟩ := hprimary h separated_nil
    rw [List.append_nil] at heq
    exact ⟨_, s, hs, heq⟩
  | columnKey h colId =>
    obtain ⟨s, hs, heq⟩ := hprimary h (separated_of_not_mem (p := pad colId) escape_not_mem_pad)
    exact ⟨_, s, hs, heq⟩
  | secondaryIndexKey h =>
    obtain ⟨index, -, r, hr, rfl⟩ := secondaryIndexKey_ok h
    exact ⟨index.id, r, hr, rfl⟩

namespace DbImpl

/-- Every key in the store is one of a meta table, or of a table that `meta_db_table` has. -/
def Accounted (rocks : Rocks) : Prop :=
  ∀ key, rocks.find? key ≠ none → ∃ table, KeyOf table key ∧
    (table = metaDbSchema ∨ table = metaTableSchema ∨ rocks.find? (metaKey table.id) ≠ none)

theorem Accounted.written {rocks : Rocks} (h : Accounted rocks) : Written rocks := by
  intro key hkey
  obtain ⟨table, hkeyOf, -⟩ := h key hkey
  obtain ⟨indexId, r, hr, heq⟩ := hkeyOf.separated
  exact ⟨table, indexId, r, hr, heq⟩

variable {db db' : DbImpl}

/-- **Keys stay accounted for** when some tables are written that have a name. -/
theorem Accounted.of_confined (haccounted : Accounted db.rocks) (h : Registered db)
    {names : List (String × String)} {rocks : Rocks}
    (hconfined : Confined (TablesNamed db.schemaStore names) db.rocks rocks) : Accounted rocks := by
  intro key hkey
  by_cases hwritten : ∃ table, TablesNamed db.schemaStore names table ∧ KeyOf table key
  · obtain ⟨table, ⟨⟨d, t⟩, -, htable⟩, hkeyOf⟩ := hwritten
    refine ⟨table, hkeyOf, ?_⟩
    by_cases hdb : (d, t) = ("meta", "meta_db")
    · cases hdb
      exact .inl (Option.some.inj (htable.symm.trans h.metaDb))
    · by_cases hmeta : (d, t) = ("meta", "meta_db_table")
      · cases hmeta
        exact .inr (.inl (Option.some.inj (htable.symm.trans h.metaTable)))
      · exact .inr (.inr (hconfined.grows _ (h.recorded d t table ⟨htable, hdb, hmeta⟩)))
  · have hkept := hconfined.frame key fun table htable hkeyOf => hwritten ⟨table, htable, hkeyOf⟩
    rw [hkept] at hkey
    obtain ⟨table, hkeyOf, hmeta | hmeta | hrecorded⟩ := haccounted key hkey
    · exact ⟨table, hkeyOf, .inl hmeta⟩
    · exact ⟨table, hkeyOf, .inr (.inl hmeta)⟩
    · exact ⟨table, hkeyOf, .inr (.inr (hconfined.grows _ hrecorded))⟩

variable {serializeAsString : client.AddTableRequest → Bytes}

theorem Accounted.step {s s' : Server} {e : Event} (haccounted : Accounted s.db.rocks)
    (h : Registered s.db) (hstep : s.step serializeAsString e = some s') : Accounted s'.db.rocks := by
  rcases Server.step_cases hstep with rfl | ⟨request, seconds, hdb⟩ | ⟨-, hconfined⟩
  · exact haccounted
  · rw [hdb]
    exact haccounted.of_confined h (addTable_effect _ serializeAsString request seconds).2
  · exact haccounted.of_confined h hconfined

/-- **All keys are accounted for** in a database that was empty. -/
theorem accounted_run {s : Server} {es : List Event}
    (hrun : Transition.run (Server.step serializeAsString) (Server.start .empty) es = some s) :
    Accounted s.db.rocks := by
  refine (Transition.run_invariant (P := fun s => Registered s.db ∧ Accounted s.db.rocks) ?_ hrun
    ⟨registered_start _, fun key hkey => absurd rfl hkey⟩).2
  rintro s e s' ⟨hregistered, haccounted⟩ hs
  exact ⟨hregistered.server_step hs, haccounted.step hregistered hs⟩

/-! ## A table that is made is empty -/

/-- A table that has the ids of another one, in a key of both, is no meta table and was not recorded. -/
theorem find?_of_fresh {rocks : Rocks} (haccounted : Accounted rocks) (hspared : SparedMeta table)
    (hfresh : rocks.find? (metaKey table.id) = none) {indexId : UInt32} {key : Bytes}
    (hkey : minimumIndexKey table indexId <+: key) : rocks.find? key = none := by
  by_contra hfind
  obtain ⟨other, hkeyOf, hother⟩ := haccounted key hfind
  obtain ⟨indexId', hbegins⟩ := hkeyOf.begins
  obtain ⟨hdbId, hid⟩ := ids_of_begins hkey hbegins
  rcases hother with rfl | rfl | hrecorded
  · exact (hspared hdbId).1 hid
  · exact (hspared hdbId).2 hid
  · exact hrecorded (hid ▸ hfresh)

theorem not_keyOf_metaTable (hspared : SparedMeta table) {indexId : UInt32} {key : Bytes}
    (hkey : minimumIndexKey table indexId <+: key) : ¬ KeyOf metaTableSchema key := by
  intro hkeyOf
  obtain ⟨indexId', hbegins⟩ := hkeyOf.begins
  obtain ⟨hdbId, hid⟩ := ids_of_begins hkey hbegins
  exact (hspared hdbId).2 hid

/-- **A table that is made** has no row. -/
theorem represents_empty (hregistered : Registered db) (haccounted : Accounted db.rocks)
    {request : client.AddTableRequest} {seconds : Int64}
    (hmade : addTable serializeAsString db request seconds = (.ok (), db'))
    (htable : db'.schemaStore.getTable request.table.db request.table.name = some table)
    (hspared : SparedMeta table) :
    Represents db' request.table.db request.table.name (RowTable.empty : RowTable table) := by
  obtain ⟨metaDbTable, database, arrowTable, new, hmeta, -, hfrom, hinsert, hnew, hregister⟩ :=
    addTable_ok hmade
  obtain rfl : metaDbTable = metaTableSchema := Option.some.inj (hmeta.symm.trans hregistered.metaTable)
  have heq : new = table := by
    rw [(SchemaStore.registerTable_ok hregister).2, if_pos ⟨rfl, rfl⟩] at htable
    exact Option.some.inj htable
  subst heq
  rw [fromAddTableRequest_eq] at hfrom
  cases hfrom
  have hfresh := (metaKey_of_insert hinsert).1
  rw [← (Transformer.fromTable_ids hnew).2] at hfresh
  have hconfined := (addTable_effect db serializeAsString request seconds).2
  rw [hmade] at hconfined
  have hempty : ∀ key, InPrimaryIndex new key → db'.rocks.find? key = none := by
    rintro key ⟨r, -, rfl⟩
    have hbegins := List.prefix_append (minimumIndexKey new new.primaryKeyIndex.id) r
    rw [← find?_of_fresh haccounted hspared hfresh hbegins]
    refine hconfined.frame _ ?_
    rintro other ⟨name, hname, hother⟩
    obtain rfl := List.mem_singleton.mp hname
    obtain rfl := Option.some.inj (hother.symm.trans hregistered.metaTable)
    exact not_keyOf_metaTable hspared hbegins
  exact ⟨htable, ⟨hempty, (haccounted.of_confined hregistered hconfined).written⟩, nofun, nofun⟩

/-! ## The server -/

/-- What happens to a server that has a table: a request for its rows, or something else. -/
inductive TableEvent (table : Table) where
  | own (request : RowRequest table)
  | other (e : Event)

/-- The requests for the rows of the table. -/
def TableEvent.requests (es : List (TableEvent table)) : List (RowRequest table) :=
  es.filterMap fun
    | .own request => some request
    | .other _ => none

/-- Something else does not restart the server, and does not write the table of this name. -/
def TableEvent.Spares (name : String × String) : TableEvent table → Prop
  | .own _ => True
  | .other e => e ≠ .restart ∧ name ∉ e.written

instance (name : String × String) : (e : TableEvent table) → Decidable (e.Spares name)
  | .own _ => inferInstanceAs (Decidable True)
  | .other _ => inferInstanceAs (Decidable (_ ∧ _))

/-- One event; a request is sent to the table of this name. -/
def Server.stepTable (rechunk : ArrowTable → ArrowTable → ArrowTable)
    (serializeAsString : client.AddTableRequest → Bytes) (name : String × String) (s : Server) :
    TableEvent table → Option Server
  | .own request =>
    if s.up then some (after (s.db.serve rechunk name.1 name.2 request).swap) else none
  | .other e => s.step serializeAsString e

/-- Something else than a restart takes no table away. -/
theorem Server.step_getTable {s s' : Server} {e : Event} (hstep : s.step serializeAsString e = some s')
    (hrestart : e ≠ .restart) {d t : String} (htable : s.db.schemaStore.getTable d t = some table) :
    s'.db.schemaStore.getTable d t = some table := by
  cases e with
  | restart => exact absurd rfl hrestart
  | multiTableOperation request =>
    dsimp only [Server.step] at hstep
    split at hstep
    · cases hstep
      rw [after_db, (multiTableOperation_effect s.db request).1]
      exact htable
    · cases hstep
  | mutation mutation =>
    dsimp only [Server.step] at hstep
    split at hstep
    · cases hstep
      rw [after_db]
      cases mutation with
      | addDatabase request seconds =>
        exact ((addDatabase_effect s.db request seconds).1 d t).trans htable
      | addTable request seconds =>
        obtain ⟨hok | hsame, -⟩ := addTable_effect s.db serializeAsString request seconds
        · obtain ⟨_, _, _, _, -, -, -, -, -, hregister⟩ := addTable_ok (Prod.ext hok rfl :
            addTable serializeAsString s.db request seconds = (.ok (), _))
          obtain ⟨hnone, htables⟩ := SchemaStore.registerTable_ok hregister
          show (addTable serializeAsString s.db request seconds).2.schemaStore.getTable d t = _
          rw [htables, if_neg]
          · exact htable
          · rintro ⟨rfl, rfl⟩
            cases hnone.symm.trans htable
        · show (addTable serializeAsString s.db request seconds).2.schemaStore.getTable d t = _
          rw [hsame]
          exact htable
      | addRow request =>
        show (s.db.addRow request).2.schemaStore.getTable d t = _
        rw [(addRow_effect s.db request).1]
        exact htable
      | updateRow request =>
        show (s.db.updateRow request).2.schemaStore.getTable d t = _
        rw [(updateRow_effect s.db request).1]
        exact htable
    · cases hstep

/-- A server on which the table of this name has these rows, and no other table has its id. -/
structure Serves (name : String × String) (t : RowTable table) (db : DbImpl) : Prop where
  represents : Represents db name.1 name.2 t
  known : Known table (· = name) db
  accounted : Accounted db.rocks

/-- A request writes nothing but the table of its name. -/
theorem serve_effect (db : DbImpl) (rechunk : ArrowTable → ArrowTable → ArrowTable)
    (name : String × String) (request : RowRequest table) :
    (db.serve rechunk name.1 name.2 request).1.schemaStore = db.schemaStore ∧
      Confined (TablesNamed db.schemaStore [name]) db.rocks
        (db.serve rechunk name.1 name.2 request).1.rocks := by
  cases request with
  | addRow row columnValues gives =>
    exact addRow_effect db { databaseName := name.1, tableName := name.2, columnValues }
  | updateRow row columnValues gives updateType condition wellFormed =>
    exact updateRow_effect db { databaseName := name.1, tableName := name.2, columnValues,
                                updateType := some updateType, condition }
  | getRow row primaryKeyValues gives => exact ⟨rfl, .refl⟩
  | scanTable returnColumns known condition wellFormed => exact ⟨rfl, .refl⟩

section serves

variable {rechunk : ArrowTable → ArrowTable → ArrowTable} {name : String × String} {t : RowTable table}
  {s s' : Server}

/-- **A request for the rows** is answered as the table says, and leaves the server with it. -/
theorem Serves.own (hserves : Serves name t s.db) (hbatches : InBatches rechunk) (h : table.Keyed)
    (hzero : table.primaryKeyIndex.id = 0) (hserializable : Serializable table)
    (hled : ∀ first ∈ table.columns.head?, first.id ∈ table.primaryKeyIndex.columnIds)
    {request : RowRequest table} (hadmits : t.Admits request)
    (hstep : s.stepTable rechunk serializeAsString name (.own request) = some s') :
    Serves name (t.step request).1 s'.db := by
  unfold Server.stepTable at hstep
  dsimp only at hstep
  split at hstep
  · cases hstep
    rw [Server.after_db]
    obtain ⟨hstore, hconfined⟩ := serve_effect s.db rechunk name request
    refine ⟨(hserves.represents.serve hbatches h hzero hserializable hled hadmits).2, ?_, ?_⟩
    · refine hserves.known.of_grows (fun d t => ?_) hconfined.grows
      exact congrArg (fun store => SchemaStore.getTable store d t) hstore
    · exact hserves.accounted.of_confined hserves.known.registered hconfined
  · cases hstep

/-- **Something else** that spares the table leaves it as it is. -/
theorem Serves.other (hserves : Serves name t s.db) (hspared : SparedMeta table)
    (hdb : name ≠ ("meta", "meta_db")) (hmeta : name ≠ ("meta", "meta_db_table")) {e : Event}
    (hspares : (.other e : TableEvent table).Spares name)
    (hstep : s.step serializeAsString e = some s') : Serves name t s'.db := by
  obtain ⟨hrestart, hwritten⟩ := hspares
  have haccounted := hserves.accounted.step hserves.known.registered hstep
  refine ⟨⟨Server.step_getTable hstep hrestart hserves.represents.table, ⟨?_, haccounted.written⟩,
    hserves.represents.apart⟩, hserves.known.step hstep, haccounted⟩
  rintro key hkey
  obtain ⟨r, -, heq⟩ := id hkey
  rw [← hserves.represents.holds.stores key hkey]
  refine hserves.known.step_frame hspared (fun heq => hdb heq.symm) (fun heq => hmeta heq.symm) ?_
    hstep (heq ▸ List.prefix_append _ r)
  rintro written hname rfl
  exact hwritten hname

/-- **A run** leaves the table as the requests for its rows do. -/
theorem Serves.run (hserves : Serves name t s.db) (hbatches : InBatches rechunk) (h : table.Keyed)
    (hzero : table.primaryKeyIndex.id = 0) (hserializable : Serializable table)
    (hled : ∀ first ∈ table.columns.head?, first.id ∈ table.primaryKeyIndex.columnIds)
    (hspared : SparedMeta table) (hdb : name ≠ ("meta", "meta_db"))
    (hmeta : name ≠ ("meta", "meta_db_table")) {es : List (TableEvent table)}
    (hspares : ∀ e ∈ es, e.Spares name) {request : RowRequest table}
    (hadmits : t.AdmitsAll (TableEvent.requests es ++ [request]))
    (hrun : Transition.run (Server.stepTable rechunk serializeAsString name) s es = some s') :
    Serves name (Lockstep.after RowTable.step t (TableEvent.requests es)) s'.db ∧
      (Lockstep.after RowTable.step t (TableEvent.requests es)).Admits request := by
  induction es generalizing s t with
  | nil =>
    cases hrun
    exact ⟨hserves, hadmits.1⟩
  | cons e es ih =>
    obtain ⟨u, hstep, hrest⟩ := Transition.run_cons_eq_some.mp hrun
    have hspares' : ∀ e ∈ es, e.Spares name := fun e' he' => hspares e' (List.mem_cons_of_mem _ he')
    cases e with
    | own first =>
      obtain ⟨hfirst, hlater⟩ := hadmits
      exact ih (hserves.own hbatches h hzero hserializable hled hfirst hstep) hspares' hlater hrest
    | other e =>
      exact ih (hserves.other hspared hdb hmeta (hspares _ List.mem_cons_self) hstep) hspares' hadmits
        hrest

end serves

/-- **A table that is made** is served from then on, and has no row. -/
theorem serves_of_addTable (hregistered : Registered db) (haccounted : Accounted db.rocks)
    {request : client.AddTableRequest} {seconds : Int64}
    (hmade : addTable serializeAsString db request seconds = (.ok (), db'))
    (htable : db'.schemaStore.getTable request.table.db request.table.name = some table)
    (hspared : SparedMeta table) :
    Added db'.schemaStore request.table.db request.table.name table ∧
      Serves (request.table.db, request.table.name) (RowTable.empty : RowTable table) db' := by
  obtain ⟨_, _, _, _, -, -, -, -, -, hregister⟩ := addTable_ok hmade
  have hnone := (SchemaStore.registerTable_ok hregister).1
  have hregistered' : Registered db' := by
    have := hregistered.addTable serializeAsString request seconds
    rwa [hmade] at this
  have hconfined := (addTable_effect db serializeAsString request seconds).2
  rw [hmade] at hconfined
  have hadded : Added db'.schemaStore request.table.db request.table.name table := by
    refine ⟨htable, fun heq => ?_, fun heq => ?_⟩
    · obtain ⟨hd, ht⟩ := Prod.mk.inj heq
      rw [hd, ht, hregistered.metaDb] at hnone
      cases hnone
    · obtain ⟨hd, ht⟩ := Prod.mk.inj heq
      rw [hd, ht, hregistered.metaTable] at hnone
      cases hnone
  have hrecorded := hregistered'.recorded _ _ table hadded
  refine ⟨hadded, represents_empty hregistered haccounted hmade htable hspared,
    ⟨hregistered', hrecorded, fun d t other hother hid => ?_⟩,
    haccounted.of_confined hregistered hconfined⟩
  by_contra hne
  exact hregistered'.distinct d t _ _ other table hother hadded hne hid

/-- **A table of the server is a table of rows.** A plain table is made, on a server of which anything
was asked before, and which may have failed and been restarted. Then requests for its rows are
answered as those of a table that was empty, whatever else is asked of the server in between. -/
theorem requests_served {rechunk : ArrowTable → ArrowTable → ArrowTable} (hbatches : InBatches rechunk)
    {before : List Event} {s s' : Server} {db : DbImpl}
    (hrun : Transition.run (Server.step serializeAsString) (Server.start .empty) before = some s)
    {request : client.AddTableRequest} {seconds : Int64}
    (hmade : addTable serializeAsString s.db request seconds = (.ok (), db))
    (hplain : request.table.Plain)
    (htable : db.schemaStore.getTable request.table.db request.table.name = some table)
    (hspared : SparedMeta table) {es : List (TableEvent table)}
    (hspares : ∀ e ∈ es, e.Spares (request.table.db, request.table.name))
    (hrun' : Transition.run (Server.stepTable rechunk serializeAsString
      (request.table.db, request.table.name)) { db } es = some s')
    {rowRequest : RowRequest table}
    (hadmits : RowTable.empty.AdmitsAll (TableEvent.requests es ++ [rowRequest])) :
    (s'.db.serve rechunk request.table.db request.table.name rowRequest).2 =
      ((Lockstep.after RowTable.step .empty (TableEvent.requests es)).step rowRequest).2 := by
  obtain ⟨hadded, hserves⟩ :=
    serves_of_addTable (registered_run hrun) (accounted_run hrun) hmade htable hspared
  obtain ⟨_, _, _, new, -, -, -, -, hnew, hregister⟩ := addTable_ok hmade
  obtain rfl : new = table := by
    rw [(SchemaStore.registerTable_ok hregister).2, if_pos ⟨rfl, rfl⟩] at htable
    exact Option.some.inj htable
  have h := Transformer.keyed_of_plain hnew hplain
  have hzero := (Transformer.indexIds_fromTable hnew).1
  have hserializable := Transformer.serializable_of_plain hnew hplain
  have hled := Transformer.led_of_plain hnew hplain
  obtain ⟨hserves', hadmits'⟩ := hserves.run (s := { db }) hbatches h hzero hserializable hled hspared
    hadded.2.1 hadded.2.2 hspares hadmits hrun'
  exact (hserves'.represents.serve hbatches h hzero hserializable hled hadmits').1

/-- The table of numbers that a client has made. -/
def numbersTable : Table where
  id := 0
  dbId := 0
  columns := [⟨0, "number", .int64⟩, ⟨1001, lockModeName, .int64⟩]
  primaryKeyIndex := ⟨0, [0]⟩
  secondaryIndex := []

def number (n : Int64) : Row numbersTable where
  value colId := if colId = 0 then .int64 n else .int64 0
  typed := by
    intro col hcol
    simp only [numbersTable, List.mem_cons, List.not_mem_nil, or_false] at hcol
    rcases hcol with rfl | rfl <;> rfl

/-- Seven is added, and eight is put in if there is a seven. -/
def sevenAndEight : List (TableEvent numbersTable) :=
  [.own (.addRow (number 7) _ (Transformer.gives_toString _ fun _ hcol => hcol)),
    .other (.mutation (.addDatabase ⟨"b"⟩ 1700000000)),
    .own (.updateRow (number 8) _ (Transformer.gives_toString _ fun _ hcol => hcol) .merge
      (.unary (.int { colName := "number", value := 7, op := some .eq })) (by decide))]

/-- One chunk, whatever it was read from. -/
def oneChunk (_source result : ArrowTable) : ArrowTable :=
  { result with columns := result.columns.map fun column => [column.flatten] }

theorem inBatches_oneChunk : InBatches oneChunk where
  fields _ _ := rfl
  values source result := by
    unfold oneChunk
    simp
  one source result _ column hcolumn := by
    obtain ⟨column, -, rfl⟩ := List.mem_map.mp hcolumn
    simp

theorem requests_served_numbers : ∃ s s' db,
    Transition.run (Server.step serializeShort) (Server.start .empty) (makeNumbers.take 1) = some s ∧
      addTable serializeShort s.db { table := {
        name := "t"
        db := "a"
        columns := [⟨"number", some .int64⟩]
        primaryKey := ["number"]
        secondaryIndex := [] } } 1700000000 = (.ok (), db) ∧
      Transition.run (Server.stepTable oneChunk serializeShort ("a", "t")) { db } sevenAndEight =
        some s' ∧
      (s'.db.serve oneChunk "a" "t"
        (.scanTable [] nofun .notSet trivial : RowRequest numbersTable)).2 =
        .ok [["7".toList, "0".toList], ["8".toList, "0".toList]] := by
  obtain ⟨s, hrun⟩ : ∃ s, Transition.run (Server.step serializeShort) (Server.start .empty)
      (makeNumbers.take 1) = some s := ⟨_, rfl⟩
  obtain ⟨db, hmade⟩ : ∃ db, addTable serializeShort s.db { table := {
        name := "t"
        db := "a"
        columns := [⟨"number", some .int64⟩]
        primaryKey := ["number"]
        secondaryIndex := [] } } 1700000000 = (.ok (), db) := by
    cases hrun
    exact ⟨_, rfl⟩
  have htable : db.schemaStore.getTable "a" "t" = some numbersTable := by
    cases hrun
    cases hmade
    rfl
  obtain ⟨s', hrun'⟩ : ∃ s', Transition.run (Server.stepTable oneChunk serializeShort ("a", "t")) { db }
      sevenAndEight = some s' := by
    cases hrun
    cases hmade
    exact ⟨_, rfl⟩
  refine ⟨s, s', db, hrun, hmade, hrun', ?_⟩
  refine (requests_served inBatches_oneChunk hrun hmade ⟨by decide, by decide, by decide,
    ⟨"number", rfl, by decide⟩, rfl⟩ htable (fun hdbId => absurd hdbId (by decide)) (by decide) hrun'
    (by decide +kernel)).trans ?_
  decide +kernel

end DbImpl

end ReplicatedCounter.MyDb
