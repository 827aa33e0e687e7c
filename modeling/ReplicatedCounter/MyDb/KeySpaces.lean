import ReplicatedCounter.Lib.Transition
import ReplicatedCounter.MyDb.DbImpl

/-!
# Key spaces of tables

Every key of a table begins with the id of its database and its own, each with a separator behind
it, so tables with different pairs of ids share nothing (`not_begins`). The ids of tables that were
added never repeat: a counter that has come round finds the row of its last turn in `meta_db_table`.
The two meta tables are not counted. They are tables 1 and 2 of database 1, and the counters know
nothing of it: what is added to the second database that was made, as the second or third table of
all, has the ids of a meta table. `tables_apart_iff` says that nothing else goes wrong.
-/

set_option autoImplicit false

namespace ReplicatedCounter.MyDb

open KeySerializer

/-! ## Keys of two tables -/

/-- The keys that are built for a table. -/
inductive KeyOf (table : Table) : Bytes → Prop where
  | primaryKey {values : List ColumnValue} {key : Bytes} (h : primaryKey table values = .ok key) :
    KeyOf table key
  | columnKey {values : List ColumnValue} {key : Bytes} (h : primaryKey table values = .ok key)
    (colId : UInt32) : KeyOf table (columnKey key colId)
  | secondaryIndexKey {indexId : UInt32} {values primaryValues : List ColumnValue} {key : Bytes}
    (h : secondaryIndexKey table indexId values primaryValues = .ok key) : KeyOf table key

/-- A key begins with the ids of an index of its table. -/
theorem KeyOf.begins {table : Table} {key : Bytes} (h : KeyOf table key) :
    ∃ indexId, minimumIndexKey table indexId <+: key := by
  have hprimary : ∀ {values : List ColumnValue} {key : Bytes},
      KeySerializer.primaryKey table values = .ok key →
      minimumIndexKey table table.primaryKeyIndex.id <+: key := by
    intro values key h
    unfold KeySerializer.primaryKey at h
    split at h
    · cases h
      exact List.prefix_append _ _
    · cases h
  cases h with
  | primaryKey h => exact ⟨_, hprimary h⟩
  | columnKey h colId => exact ⟨_, (hprimary h).trans (List.prefix_append _ _)⟩
  | secondaryIndexKey h =>
    obtain ⟨index, -, r, -, rfl⟩ := secondaryIndexKey_ok h
    exact ⟨index.id, List.prefix_append _ _⟩

/-- **The ids of the database and the table are read off the front of a key.** The id of the index
is not: nothing ends it. -/
theorem ids_of_begins {table other : Table} {indexId indexId' : UInt32} {key : Bytes}
    (h : minimumIndexKey table indexId <+: key) (h' : minimumIndexKey other indexId' <+: key) :
    table.dbId = other.dbId ∧ table.id = other.id := by
  obtain ⟨r, rfl⟩ := h
  obtain ⟨r', h'⟩ := h'
  have hkey : ∀ (table : Table) (indexId : UInt32) (r : Bytes), minimumIndexKey table indexId ++ r =
      pad table.dbId ++ (defaultEscapeCharacter :: pad table.id ++
        (defaultEscapeCharacter :: pad indexId ++ r)) := by
    intro table indexId r
    simp [minimumIndexKey]
  rw [hkey, hkey] at h'
  obtain ⟨hdbId, h'⟩ := pad_append_inj (separated_pad _ _) (separated_pad _ _) h'
  obtain ⟨hid, -⟩ := pad_append_inj (separated_pad _ _) (separated_pad _ _) (List.cons.inj h').2
  exact ⟨hdbId.symm, hid.symm⟩

/-- Two tables that share nothing. -/
structure Apart (table other : Table) : Prop where
  ids : (table.dbId, table.id) ≠ (other.dbId, other.id)
  keys : ∀ key, KeyOf table key → ∀ indexId, ¬ minimumIndexKey other indexId <+: key

theorem apart_iff {table other : Table} :
    Apart table other ↔ (table.dbId, table.id) ≠ (other.dbId, other.id) := by
  constructor
  · exact Apart.ids
  · intro hids
    refine ⟨hids, fun key hkey indexId hbegins => ?_⟩
    obtain ⟨indexId', hbegins'⟩ := hkey.begins
    obtain ⟨hdbId, hid⟩ := ids_of_begins hbegins' hbegins
    exact hids (by rw [hdbId, hid])

namespace DbImpl

/-! ## Requests -/

/-- A request, and the time it comes at. -/
inductive Request where
  | addDatabase (request : client.AddDatabaseRequest) (seconds : Int64)
  | addTable (request : client.AddTableRequest) (seconds : Int64)

/-- A request that succeeds. -/
def step (serializeAsString : client.AddTableRequest → Bytes) (db : DbImpl) :
    Request → Option DbImpl
  | .addDatabase request seconds =>
    match db.addDatabase request seconds with
    | (.ok _, db) => some db
    | (.error _, _) => none
  | .addTable request seconds =>
    match addTable serializeAsString db request seconds with
    | (.ok _, db) => some db
    | (.error _, _) => none

/-- The table does not get the ids of a meta table. -/
def SparesMeta (db : DbImpl) : Request → Prop
  | .addDatabase _ _ => True
  | .addTable request _ => ∀ database ∈ db.schemaStore.getDatabase request.table.db,
      database.id = 1 → db.tableIds ≠ 1 ∧ db.tableIds ≠ 2

/-- No two tables share anything. -/
def TablesApart (schemaStore : SchemaStore) : Prop :=
  ∀ d t d' t' table other, schemaStore.getTable d t = some table →
    schemaStore.getTable d' t' = some other → (d, t) ≠ (d', t') → Apart table other

/-! ## Tables and their rows in `meta_db_table` -/

theorem metaTableSchema_keyed : metaTableSchema.Keyed where
  ids := by decide
  names := by decide
  columnIds := by decide
  ownIndex := ⟨by decide, by decide⟩

/-- The row of a table. -/
def metaRow (tableId : UInt32) (name : Bytes) (seconds : Int64) (serialized : Bytes) :
    Row metaTableSchema where
  value colId :=
    if colId = 0 then .int64 (Int64.ofNat tableId.toNat) else if colId = 1 then .string name
    else if colId = 4 then .string serialized else if colId = 5 then .int64 0 else .int64 seconds
  typed := by
    intro col hcol
    simp only [metaTableSchema, List.mem_cons, List.not_mem_nil, or_false] at hcol
    rcases hcol with rfl | rfl | rfl | rfl | rfl | rfl <;> rfl

theorem toString_eq (num : UInt32) :
    Transformer.toString num = (ColumnValue.int64 (Int64.ofNat num.toNat)).toString := by
  have hlt : num.toNat < 2 ^ 32 := num.toNat_lt
  unfold Transformer.toString ColumnValue.toString
  dsimp only
  rw [Int64.toInt_ofNat_of_lt (by omega)]
  rfl

theorem fromAddTableRequest_eq (serializeAsString : client.AddTableRequest → Bytes)
    (request : client.AddTableRequest) (tableId : UInt32) (seconds : Int64) :
    Transformer.fromAddTableRequest serializeAsString request metaTableSchema tableId seconds =
      .ok (arrowTable metaTableSchema.columns
        [metaRow tableId request.table.name.toList seconds (serializeAsString request)]) := by
  rw [← Transformer.fromColumnValues_row metaTableSchema_keyed]
  unfold Transformer.fromAddTableRequest
  rw [toString_eq]
  rfl

/-- The key of the id in the row of a table. -/
def metaKey (tableId : UInt32) : Bytes :=
  columnKey (rowKey metaTableSchema [.int64 (Int64.ofNat tableId.toNat)]) 0

theorem legible_metaRow (tableId : UInt32) (name : Bytes) (seconds : Int64) (serialized : Bytes) :
    (metaRow tableId name seconds serialized).Legible := by
  intro value hvalue
  obtain rfl : value = .int64 (Int64.ofNat tableId.toNat) := List.mem_singleton.mp hvalue
  rw [← toString_eq]
  unfold Transformer.toString
  -- a number has a first digit
  cases hdigits : tableId.toNat.repr.toList with
  | nil =>
    rw [Nat.toList_repr] at hdigits
    exact absurd hdigits Nat.toDigits_ne_nil
  | cons c digits =>
    have hdigit : c.isDigit = true := by
      refine Decimal.isDigit_of_mem_toDigits (n := tableId.toNat) ?_
      rw [← Nat.toList_repr, hdigits]
      exact List.mem_cons_self
    refine ⟨c, List.mem_cons_self, ?_⟩
    rintro rfl
    exact absurd hdigit (by decide)

/-- **A table id that has been drawn successfully** was not in `meta_db_table`, and is. -/
theorem metaKey_of_insert {rocks rocks' : Rocks} {tableId : UInt32} {name : Bytes} {seconds : Int64}
    {serialized : Bytes}
    (h : QueryExecutor.insert rocks metaTableSchema (arrowTable metaTableSchema.columns
      [metaRow tableId name seconds serialized]) = .ok rocks') :
    rocks.find? (metaKey tableId) = none ∧ rocks'.find? (metaKey tableId) ≠ none :=
  insert_fresh metaTableSchema_keyed rfl (legible_metaRow tableId name seconds serialized) h

/-! ## The invariant -/

/-- A table that was added, not one of the two meta tables. -/
def Added (schemaStore : SchemaStore) (d t : String) (table : Table) : Prop :=
  schemaStore.getTable d t = some table ∧ (d, t) ≠ ("meta", "meta_db") ∧
    (d, t) ≠ ("meta", "meta_db_table")

/-- What is registered, and what `meta_db_table` knows of it. -/
structure Registered (db : DbImpl) : Prop where
  metaDb : db.schemaStore.getTable "meta" "meta_db" = some metaDbSchema
  metaTable : db.schemaStore.getTable "meta" "meta_db_table" = some metaTableSchema
  recorded : ∀ d t table, Added db.schemaStore d t table → db.rocks.find? (metaKey table.id) ≠ none
  distinct : ∀ d t d' t' table other, Added db.schemaStore d t table →
    Added db.schemaStore d' t' other → (d, t) ≠ (d', t') → table.id ≠ other.id

/-- No table that was added has the ids of a meta table. -/
def MetaSpared (schemaStore : SchemaStore) : Prop :=
  ∀ d t table, Added schemaStore d t table → table.dbId = 1 → table.id ≠ 1 ∧ table.id ≠ 2

/-- **The meta tables are all that an added table can run into.** -/
theorem Registered.apart_iff {db : DbImpl} (h : Registered db) :
    TablesApart db.schemaStore ↔ MetaSpared db.schemaStore := by
  constructor
  · intro hapart d t table hadded hdbId
    have hdb := (hapart d t _ _ table _ hadded.1 h.metaDb hadded.2.1).ids
    have htable := (hapart d t _ _ table _ hadded.1 h.metaTable hadded.2.2).ids
    constructor
    · intro hid
      exact hdb (by rw [hdbId, hid]; rfl)
    · intro hid
      exact htable (by rw [hdbId, hid]; rfl)
  · intro hspared
    -- a table is a meta table or was added
    have hcases : ∀ d t table, db.schemaStore.getTable d t = some table →
        ((d, t) = ("meta", "meta_db") ∧ table = metaDbSchema) ∨
          ((d, t) = ("meta", "meta_db_table") ∧ table = metaTableSchema) ∨
          Added db.schemaStore d t table := by
      intro d t table htable
      by_cases hdb : (d, t) = ("meta", "meta_db")
      · cases hdb
        exact .inl ⟨rfl, Option.some.inj (htable.symm.trans h.metaDb)⟩
      · by_cases hmeta : (d, t) = ("meta", "meta_db_table")
        · cases hmeta
          exact .inr (.inl ⟨rfl, Option.some.inj (htable.symm.trans h.metaTable)⟩)
        · exact .inr (.inr ⟨htable, hdb, hmeta⟩)
    have hadded : ∀ d t table, Added db.schemaStore d t table →
        (table.dbId, table.id) ≠ (1, 1) ∧ (table.dbId, table.id) ≠ (1, 2) := by
      intro d t table hadded
      constructor
      · intro heq
        obtain ⟨hdbId, hid⟩ := Prod.mk.inj heq
        exact (hspared d t table hadded hdbId).1 hid
      · intro heq
        obtain ⟨hdbId, hid⟩ := Prod.mk.inj heq
        exact (hspared d t table hadded hdbId).2 hid
    intro d t d' t' table other htable hother hne
    rw [ReplicatedCounter.MyDb.apart_iff]
    rcases hcases d t table htable with ⟨hname, rfl⟩ | ⟨hname, rfl⟩ | hfirst
    · rcases hcases d' t' other hother with ⟨hname', rfl⟩ | ⟨-, rfl⟩ | hsecond
      · exact absurd (hname.trans hname'.symm) hne
      · decide
      · exact (hadded d' t' other hsecond).1.symm
    · rcases hcases d' t' other hother with ⟨-, rfl⟩ | ⟨hname', rfl⟩ | hsecond
      · decide
      · exact absurd (hname.trans hname'.symm) hne
      · exact (hadded d' t' other hsecond).2.symm
    · rcases hcases d' t' other hother with ⟨-, rfl⟩ | ⟨-, rfl⟩ | hsecond
      · exact (hadded d t table hfirst).1
      · exact (hadded d t table hfirst).2
      · intro heq
        exact h.distinct d t d' t' table other hfirst hsecond hne (Prod.mk.inj heq).2

/-! ## Steps -/

variable {serializeAsString : client.AddTableRequest → Bytes} {db db' : DbImpl}

/-- What a step does to the tables: nothing, or it adds one, with an id that `meta_db_table` did not
have. -/
theorem Registered.step_cases (h : Registered db) {request : Request}
    (hstep : step serializeAsString db request = some db') :
    (∀ key, db.rocks.find? key ≠ none → db'.rocks.find? key ≠ none) ∧
      (((∃ addDatabaseRequest seconds, request = .addDatabase addDatabaseRequest seconds) ∧
          ∀ d t, db'.schemaStore.getTable d t = db.schemaStore.getTable d t) ∨
        ∃ addTableRequest seconds database table, request = .addTable addTableRequest seconds ∧
          db.schemaStore.getDatabase addTableRequest.table.db = some database ∧
          table.dbId = database.id ∧ table.id = db.tableIds ∧
          db.rocks.find? (metaKey table.id) = none ∧ db'.rocks.find? (metaKey table.id) ≠ none ∧
          db.schemaStore.getTable addTableRequest.table.db addTableRequest.table.name = none ∧
          ∀ d t, db'.schemaStore.getTable d t =
            if d = addTableRequest.table.db ∧ t = addTableRequest.table.name then some table
            else db.schemaStore.getTable d t) := by
  have hkeeps : ∀ {table : Table} {arrowTable : ArrowTable},
      QueryExecutor.insert db.rocks table arrowTable = .ok db'.rocks →
      ∀ key, db.rocks.find? key ≠ none → db'.rocks.find? key ≠ none := by
    intro table arrowTable hinsert key hkey
    obtain ⟨-, raws, -, -, -, hwrite⟩ := QueryExecutor.insert_ok hinsert
    rw [hwrite]
    exact RocksReaderWriter.find?_write_ne_none_iff.mpr (.inr hkey)
  cases request with
  | addDatabase request seconds =>
    rcases hcall : db.addDatabase request seconds with ⟨result, after⟩
    cases result with
    | error error =>
      simp only [step, hcall] at hstep
      cases hstep
    | ok _ =>
      simp only [step, hcall] at hstep
      cases hstep
      obtain ⟨table, arrowTable, database, -, hinsert, hregister⟩ := addDatabase_ok hcall
      exact ⟨hkeeps hinsert, .inl ⟨⟨request, seconds, rfl⟩, SchemaStore.registerDb_ok hregister⟩⟩
  | addTable request seconds =>
    rcases hcall : addTable serializeAsString db request seconds with ⟨result, after⟩
    cases result with
    | error error =>
      simp only [step, hcall] at hstep
      cases hstep
    | ok _ =>
      simp only [step, hcall] at hstep
      cases hstep
      obtain ⟨metaDbTable, database, arrowTable, table, hmeta, hdatabase, hfrom, hinsert, htable,
        hregister⟩ := addTable_ok hcall
      obtain ⟨hdbId, hid⟩ := Transformer.fromTable_ids htable
      obtain rfl : metaDbTable = metaTableSchema := Option.some.inj (hmeta.symm.trans h.metaTable)
      rw [fromAddTableRequest_eq] at hfrom
      cases hfrom
      obtain ⟨hfresh, hrecorded⟩ := metaKey_of_insert hinsert
      rw [← hid] at hfresh hrecorded
      obtain ⟨hnone, htables⟩ := SchemaStore.registerTable_ok hregister
      exact ⟨hkeeps hinsert, .inr ⟨request, seconds, database, table, rfl, hdatabase, hdbId, hid,
        hfresh, hrecorded, hnone, htables⟩⟩

theorem added_congr {schemaStore schemaStore' : SchemaStore}
    (h : ∀ d t, schemaStore'.getTable d t = schemaStore.getTable d t) {d t : String} {table : Table} :
    Added schemaStore' d t table ↔ Added schemaStore d t table := by
  unfold Added
  rw [h]

/-- After a table was added, the added tables are the ones before and it. -/
theorem Registered.added_iff (h : Registered db) {d₀ t₀ : String} {new : Table}
    (hnone : db.schemaStore.getTable d₀ t₀ = none)
    (htables : ∀ d t, db'.schemaStore.getTable d t =
      if d = d₀ ∧ t = t₀ then some new else db.schemaStore.getTable d t)
    {d t : String} {table : Table} :
    Added db'.schemaStore d t table ↔
      ((d, t) = (d₀, t₀) ∧ table = new) ∨ Added db.schemaStore d t table := by
  unfold Added
  rw [htables]
  by_cases hname : d = d₀ ∧ t = t₀
  · obtain ⟨rfl, rfl⟩ := hname
    rw [if_pos ⟨rfl, rfl⟩, hnone]
    constructor
    · rintro ⟨heq, -⟩
      exact .inl ⟨rfl, (Option.some.inj heq).symm⟩
    · rintro (⟨-, rfl⟩ | ⟨heq, -⟩)
      · refine ⟨rfl, ?_, ?_⟩
        · intro heq
          cases heq
          cases hnone.symm.trans h.metaDb
        · intro heq
          cases heq
          cases hnone.symm.trans h.metaTable
      · cases heq
  · rw [if_neg hname]
    constructor
    · exact .inr
    · rintro (⟨heq, -⟩ | hadded)
      · exact absurd (Prod.mk.inj heq) hname
      · exact hadded

theorem Registered.step (h : Registered db) {request : Request}
    (hstep : DbImpl.step serializeAsString db request = some db') : Registered db' := by
  obtain ⟨hkeeps, ⟨-, htables⟩ | ⟨request, seconds, database, new, rfl, -, -, -, hfresh, hrecorded,
    hnone, htables⟩⟩ := h.step_cases hstep
  · refine ⟨(htables _ _).trans h.metaDb, (htables _ _).trans h.metaTable, ?_, ?_⟩
    · intro d t table hadded
      exact hkeeps _ (h.recorded d t table ((added_congr htables).mp hadded))
    · intro d t d' t' table other hadded hadded' hne
      exact h.distinct d t d' t' table other ((added_congr htables).mp hadded)
        ((added_congr htables).mp hadded') hne
  · have hadded_iff := @Registered.added_iff db db' h _ _ _ hnone htables
    -- the new id is not the id of a table that has a row
    have hnew : ∀ d t table, Added db.schemaStore d t table → table.id ≠ new.id := by
      intro d t table hadded heq
      exact h.recorded d t table hadded (heq ▸ hfresh)
    refine ⟨?_, ?_, ?_, ?_⟩
    · rw [htables, if_neg]
      · exact h.metaDb
      · rintro ⟨hd, ht⟩
        rw [← hd, ← ht, h.metaDb] at hnone
        cases hnone
    · rw [htables, if_neg]
      · exact h.metaTable
      · rintro ⟨hd, ht⟩
        rw [← hd, ← ht, h.metaTable] at hnone
        cases hnone
    · intro d t table hadded
      rcases hadded_iff.mp hadded with ⟨-, rfl⟩ | hadded
      · exact hrecorded
      · exact hkeeps _ (h.recorded d t table hadded)
    · intro d t d' t' table other hadded hadded' hne
      rcases hadded_iff.mp hadded with ⟨hname, rfl⟩ | hadded
      · rcases hadded_iff.mp hadded' with ⟨hname', rfl⟩ | hadded'
        · exact absurd (hname.trans hname'.symm) hne
        · exact (hnew d' t' other hadded').symm
      · rcases hadded_iff.mp hadded' with ⟨-, rfl⟩ | hadded'
        · exact hnew d t table hadded
        · exact h.distinct d t d' t' table other hadded hadded' hne

/-- **A step spares the meta tables exactly if its table does.** -/
theorem Registered.metaSpared_step (h : Registered db) {request : Request}
    (hstep : DbImpl.step serializeAsString db request = some db') :
    MetaSpared db'.schemaStore ↔ MetaSpared db.schemaStore ∧ SparesMeta db request := by
  obtain ⟨-, ⟨⟨_, _, rfl⟩, htables⟩ | ⟨request, seconds, database, new, rfl, hdatabase, hdbId, hid, -,
    -, hnone, htables⟩⟩ := h.step_cases hstep
  · unfold MetaSpared
    simp only [added_congr htables]
    exact (and_iff_left trivial).symm
  · have hadded_iff := @Registered.added_iff db db' h _ _ _ hnone htables
    constructor
    · intro hspared
      refine ⟨fun d t table hadded => hspared d t table (hadded_iff.mpr (.inr hadded)), ?_⟩
      intro database' hdatabase' hone
      obtain rfl : database = database' := Option.some.inj (hdatabase.symm.trans hdatabase')
      rw [← hid]
      exact hspared _ _ new (hadded_iff.mpr (.inl ⟨rfl, rfl⟩)) (hdbId.trans hone)
    · rintro ⟨hspared, hspares⟩ d t table hadded hone
      rcases hadded_iff.mp hadded with ⟨-, rfl⟩ | hadded
      · rw [hid]
        exact hspares database hdatabase (hdbId.symm.trans hone)
      · exact hspared d t table hadded hone

/-! ## Runs -/

theorem registered_bootstrap {schemaStore : SchemaStore} (h : bootstrap {} = (true, schemaStore))
    (rocks : Rocks) : Registered { schemaStore, rocks } ∧ MetaSpared schemaStore := by
  have hadded : ∀ d t table, ¬ Added schemaStore d t table := by
    rintro d t table ⟨htable, hdb, hmeta⟩
    rw [getTable_bootstrap h, if_neg, if_neg] at htable
    · cases htable
    · rintro ⟨rfl, rfl⟩
      exact hdb rfl
    · rintro ⟨rfl, rfl⟩
      exact hmeta rfl
  refine ⟨⟨?_, ?_, ?_, ?_⟩, ?_⟩
  · rw [getTable_bootstrap h]
    rfl
  · rw [getTable_bootstrap h]
    rfl
  · intro d t table h
    exact absurd h (hadded d t table)
  · intro d t _ _ table _ h
    exact absurd h (hadded d t table)
  · intro d t table h
    exact absurd h (hadded d t table)

/-- **Tables share nothing, as long as nothing is added to database 1 as table 1 or 2.** After any
requests that succeeded, whatever the database held at the start, any two tables have different
pairs of ids and no key of one begins with the ids of an index of the other, exactly if no table was
given the ids of a meta table. -/
theorem tables_apart_iff {schemaStore : SchemaStore} (hbootstrap : bootstrap {} = (true, schemaStore))
    (rocks : Rocks) {requests : List Request}
    (hrun : Transition.run (step serializeAsString) { schemaStore, rocks } requests = some db) :
    TablesApart db.schemaStore ↔
      Transition.Meets (step serializeAsString) SparesMeta { schemaStore, rocks } requests := by
  obtain ⟨hregistered, hspared⟩ := registered_bootstrap hbootstrap rocks
  have hend : Registered db :=
    Transition.run_invariant (fun _ _ _ h hs => Registered.step h hs) hrun hregistered
  rw [hend.apart_iff, Transition.run_iff_meets (P := fun db => MetaSpared db.schemaStore)
    (fun _ _ _ h hs => Registered.step h hs) (fun _ _ _ h hs => h.metaSpared_step hs) hrun hregistered]
  exact and_iff_right hspared

instance (db : DbImpl) (request : Request) : Decidable (SparesMeta db request) :=
  match request with
  | .addDatabase _ _ => .isTrue trivial
  | .addTable request _ => inferInstanceAs (Decidable (∀ database ∈
      db.schemaStore.getDatabase request.table.db,
      database.id = 1 → db.tableIds ≠ 1 ∧ db.tableIds ≠ 2))

/-- A field with a length, below 128, in front. -/
def lengthDelimited (field : Nat) (content : Bytes) : Bytes :=
  Char.ofNat (8 * field + 2) :: Char.ofNat content.length :: content

/-- `SerializeAsString` of a request in which no name is empty and nothing is longer than 127
bytes. -/
def serializeShort (request : client.AddTableRequest) : Bytes :=
  let name (name : String) := lengthDelimited 1 name.toList
  lengthDelimited 1 (lengthDelimited 1 (name request.table.name) ++
    lengthDelimited 2 (name request.table.db) ++
    request.table.columns.flatMap (fun column => lengthDelimited 3 (lengthDelimited 1 (name column.name) ++
      if column.columnType = some .string then [Char.ofNat 16, Char.ofNat 1] else [])) ++
    lengthDelimited 4 (request.table.primaryKey.flatMap fun column => lengthDelimited 2 (name column)) ++
    request.table.secondaryIndex.flatMap fun columns =>
      lengthDelimited 5 (columns.flatMap fun column => lengthDelimited 2 (name column)))

/-- Adds `t`, a table of numbers. -/
def addNumbers (db : String) : Request :=
  .addTable { table := {
    name := "t"
    db
    columns := [⟨"number", some .int64⟩]
    primaryKey := ["number"]
    secondaryIndex := [] } } 1700000000

theorem tables_apart_one_table : ∃ schemaStore db, bootstrap {} = (true, schemaStore) ∧
    Transition.run (step serializeShort) { schemaStore, rocks := .empty }
      [.addDatabase ⟨"a"⟩ 1700000000, addNumbers "a"] = some db ∧ TablesApart db.schemaStore := by
  obtain ⟨db, hrun⟩ : ∃ db, Transition.run (step serializeShort)
      { schemaStore := (bootstrap {}).2, rocks := .empty }
      [.addDatabase ⟨"a"⟩ 1700000000, addNumbers "a"] = some db := ⟨_, rfl⟩
  refine ⟨_, db, rfl, hrun, (tables_apart_iff rfl .empty hrun).mpr ?_⟩
  decide +kernel

/-- **The second table, in the second database, is `meta_db`.** -/
theorem table_in_meta_space : ∃ schemaStore db, bootstrap {} = (true, schemaStore) ∧
    Transition.run (step serializeShort) { schemaStore, rocks := .empty }
      [.addDatabase ⟨"a"⟩ 1700000000, .addDatabase ⟨"b"⟩ 1700000000, addNumbers "a",
        addNumbers "b"] = some db ∧ ¬ TablesApart db.schemaStore := by
  refine ⟨_, _, rfl, rfl, fun hapart => ?_⟩
  exact (hapart "b" "t" "meta" "meta_db" _ metaDbSchema rfl rfl (by decide)).ids rfl

end DbImpl

end ReplicatedCounter.MyDb
