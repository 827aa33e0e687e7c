import ReplicatedCounter.Log.SealCut
import ReplicatedCounter.Log.Trim

/-!
# `ReplicaImpl` with Rocks nanologs

All nanologs of a replica write to one store, each under the keys of its version. A restart throws
the nanologs away and keeps the store; the first `append` or `seal` of a version makes its nanolog
again.
**Making one is not opening one**: `init` writes the start index over the end index and `FALSE` over
the seal.

`Leaves` is the frame of a call: it touches the keys of its own version, and these are not those of
another.
-/

set_option autoImplicit false

namespace ReplicatedCounter.Log

open Metadata

namespace RocksNanoLog

variable {α κ : Type} [KVStoreLite κ String] {versionId : String} {kv : κ}

/-! ## What a call leaves alone -/

/-- The nanolog is that of the version, and what is no key of the version is as in `kv`. -/
def Leaves (versionId : String) (kv : κ) (nanoLog : RocksNanoLog α κ) : Prop :=
  nanoLog.versionId = versionId ∧
    ∀ key, ¬ IsKeyOf versionId key → KVStoreLite.get nanoLog.kvStore key = KVStoreLite.get kv key

theorem keeps_complete (f : OrderedCompletionQueue α → OrderedCompletionQueue α × List (Int × α)) :
    Coro.Keeps (Leaves versionId kv) (complete f : RocksM α κ _) := fun _ h => h

section leaves

variable [LawfulKVStoreLite κ String]

theorem keeps_kvPut {key : String} (hkey : IsKeyOf versionId key) (value : String) :
    Coro.Keeps (Leaves versionId kv) (kvPut key value : RocksM α κ Bool) := by
  intro nanoLog h
  rw [exec_kvPut]
  refine ⟨h.1, fun key' hkey' => ?_⟩
  rw [LawfulKVStoreLite.get_put, if_neg (by rintro rfl; exact hkey' hkey)]
  exact h.2 key' hkey'

theorem keeps_kvPutIfNotExists {key : String} (hkey : IsKeyOf versionId key) (value : String) :
    Coro.Keeps (Leaves versionId kv) (kvPutIfNotExists key value : RocksM α κ Bool) := by
  intro nanoLog h
  have hput : Leaves versionId kv (Coro.exec (kvPut key value) nanoLog).2 :=
    keeps_kvPut hkey value nanoLog h
  unfold kvPutIfNotExists
  rw [exec_onStore]
  unfold KVStoreLite.putIfNotExists
  cases KVStoreLite.get nanoLog.kvStore key with
  | some old => exact h
  | none => exact hput

variable [FlushingKVStoreLite κ String]

omit [LawfulKVStoreLite κ String] in
theorem keeps_kvFlushWal : Coro.Keeps (Leaves versionId kv) (kvFlushWal : RocksM α κ Bool) := by
  intro nanoLog h
  rw [exec_kvFlushWal]
  refine ⟨h.1, fun key hkey => ?_⟩
  rw [FlushingKVStoreLite.get_flushWal]
  exact h.2 key hkey

theorem keeps_setEndIndex (endIndex : Int) :
    Coro.Keeps (Leaves versionId kv) (setEndIndex endIndex : RocksM α κ Bool) := by
  unfold setEndIndex
  refine Coro.Keeps.getThe_bind fun nanoLog h => ?_
  refine Coro.Keeps.bind (Coro.keeps_modify fun _ h => h) fun _ => ?_
  refine (keeps_kvPut (h.1 ▸ .inr (by simp [ownKeys])) _).bind fun _ => ?_
  refine keeps_kvFlushWal.bind fun fsyncResult => ?_
  dsimp only
  split
  · refine Coro.Keeps.bind (Coro.keeps_modify fun _ h => h) fun _ => Coro.keeps_pure _
  · exact (Coro.keeps_throw _).bind fun _ => Coro.keeps_pure _

theorem keeps_seal : Coro.Keeps (Leaves versionId kv) («seal» : RocksM α κ Int) := by
  have hset : Coro.Keeps (Leaves versionId kv) (setSeal : RocksM α κ Bool) := by
    unfold setSeal
    refine Coro.Keeps.getThe_bind fun nanoLog h => ?_
    refine Coro.Keeps.bind (Coro.keeps_modify fun _ h => h) fun _ => ?_
    refine (keeps_kvPut (h.1 ▸ .inr (by simp [ownKeys])) _).bind fun _ => ?_
    refine keeps_kvFlushWal.bind fun fsyncResult => ?_
    dsimp only
    split
    · refine Coro.Keeps.bind (Coro.keeps_modify fun _ h => h) fun _ => ?_
      exact Coro.keeps_return_getThe fun nanoLog => _
    · exact Coro.keeps_return_getThe fun nanoLog => _
  unfold RocksNanoLog.seal
  refine hset.bind fun isSet => ?_
  cases isSet with
  | true => exact Coro.keeps_return_getThe _
  | false => exact Coro.keeps_pure _

theorem keeps_append (globalCommitIndex : Option Int) (logId : Int) (payload : String)
    (skipSeal : Bool) (promise : α) : Coro.Keeps (Leaves versionId kv)
      (append globalCommitIndex logId payload skipSeal promise : RocksM α κ _) := by
  unfold append
  refine (keeps_isSealed fun _ _ _ h => h).bind fun isSealed =>
    Coro.Keeps.getThe_bind fun nanoLog h => ?_
  dsimp only
  split
  · exact Coro.keeps_throw _
  refine (keeps_kvPutIfNotExists (h.1 ▸ .inl ⟨_, rfl⟩) _).bind fun stored => ?_
  cases stored with
  | false => exact Coro.keeps_throw _
  | true =>
    cases globalCommitIndex with
    | some index =>
      exact (keeps_complete _).bind fun _ => (keeps_complete _).bind fun _ =>
        (keeps_setEndIndex _).bind fun _ => Coro.keeps_pure _
    | none =>
      refine (keeps_complete _).bind fun _ => Coro.Keeps.getThe_bind fun nanoLog' _ => ?_
      split
      · exact (keeps_setEndIndex _).bind fun _ => keeps_complete _
      · exact Coro.keeps_pure _

omit [FlushingKVStoreLite κ String] in
theorem leaves_makeNanoLog (startIndex endIndex : Int) (isSealed : Bool) (kvStore : κ) :
    Leaves versionId kvStore
      (makeNanoLog versionId startIndex endIndex isSealed kvStore : RocksNanoLog α κ) := by
  have hinit : Coro.Keeps (Leaves versionId kvStore) (init : RocksM α κ Unit) := by
    unfold init
    refine Coro.Keeps.getThe_bind fun nanoLog h => ?_
    refine (keeps_kvPut (h.1 ▸ .inr (by simp [ownKeys])) _).bind fun _ => ?_
    refine (keeps_kvPut (h.1 ▸ .inr (by simp [ownKeys])) _).bind fun _ => ?_
    exact (keeps_kvPut (h.1 ▸ .inr (by simp [ownKeys])) _).bind fun _ => Coro.keeps_pure _
  exact hinit _ ⟨rfl, fun _ _ => rfl⟩

end leaves

omit [KVStoreLite κ String] in
/-- **No key is that of two versions.** -/
theorem IsKeyOf.version_eq {v v' : Int} {key : String} (h : IsKeyOf v.repr key)
    (h' : IsKeyOf v'.repr key) : v = v' := by
  obtain ⟨rest, -, hrest⟩ := h.toList_eq
  obtain ⟨rest', -, hrest'⟩ := h'.toList_eq
  rw [hrest, List.append_cancel_left_eq] at hrest'
  have htake := congrArg (List.takeWhile (· ≠ '|')) hrest'
  rw [takeWhile_bar (bar_not_mem_repr v), takeWhile_bar (bar_not_mem_repr v')] at htake
  have hread := congrArg toLogId (String.toList_injective htake)
  rw [toLogId_repr, toLogId_repr] at hread
  exact Option.some.inj hread

/-! ## A nanolog in use -/

/-- A nanolog over the store, whose version is sealed there or not. -/
structure Usable (kvStore : κ) (v : Int) (nanoLog : RocksNanoLog α κ) (isSealed : Bool) : Prop where
  versionId : nanoLog.versionId = v.repr
  holds : ∃ logs endIndex, Holds kvStore v.repr logs endIndex isSealed
  sealed_eq : nanoLog.sealDirty = false → nanoLog.sealed = isSealed

variable {v : Int} {nanoLog : RocksNanoLog α κ} {isSealed : Bool}

/-- Only the keys of the version matter. -/
theorem Usable.congr {kv' : κ} (h : Usable kv v nanoLog isSealed)
    (hkeys : ∀ key, IsKeyOf v.repr key → KVStoreLite.get kv' key = KVStoreLite.get kv key) :
    Usable kv' v nanoLog isSealed := by
  obtain ⟨logs, endIndex, hholds⟩ := h.holds
  refine ⟨h.versionId, ⟨logs, endIndex, fun l => ?_, ?_, ?_⟩, h.sealed_eq⟩
  · rw [hkeys _ (.inl ⟨l, rfl⟩), hholds.logs]
  · rw [hkeys _ (.inr (by simp [ownKeys])), hholds.endIndex]
  · rw [hkeys _ (.inr (by simp [ownKeys])), hholds.isSealed]

section calls

variable [LawfulKVStoreLite κ String]

/-- A nanolog that was just made is open, whatever the store said. -/
theorem usable_makeNanoLog (v startIndex endIndex : Int) (kvStore : κ) :
    Usable (makeNanoLog v.repr startIndex endIndex false kvStore : RocksNanoLog α κ).kvStore v
      (makeNanoLog v.repr startIndex endIndex false kvStore : RocksNanoLog α κ) false := by
  obtain ⟨kv, hmake, hholds⟩ := holds_makeNanoLog_of (α := α) v.repr startIndex endIndex false kvStore
  rw [hmake]
  exact ⟨rfl, ⟨_, _, hholds⟩, (fun hdirty => nomatch hdirty)⟩

variable [FlushingKVStoreLite κ String]

/-- An append changes nothing about the seal. -/
theorem Usable.append (h : Usable nanoLog.kvStore v nanoLog isSealed) (globalCommitIndex : Option Int)
    (logId : Int) (payload : String) (skipSeal : Bool) (promise : α) :
    Usable (Coro.exec (append globalCommitIndex logId payload skipSeal promise) nanoLog).2.kvStore v
      (Coro.exec (append globalCommitIndex logId payload skipSeal promise) nanoLog).2 isSealed := by
  obtain ⟨logs, endIndex, hholds⟩ := h.holds
  rw [← h.versionId] at hholds
  rcases exec_append_cases globalCommitIndex logId payload skipSeal promise hholds h.sealed_eq with
    ⟨-, e, hexec⟩ | ⟨-, cached, endIndexDirty, kvStore, stored, hexec, hholds', -⟩
  · rw [hexec]
    exact ⟨h.versionId, ⟨logs, endIndex, h.versionId ▸ hholds⟩, fun _ => rfl⟩
  · rw [hexec]
    exact ⟨h.versionId, ⟨_, stored, h.versionId ▸ hholds'⟩, fun _ => rfl⟩

/-- `seal` returns the end index that the nanolog has in memory. -/
theorem Usable.seal (h : Usable nanoLog.kvStore v nanoLog isSealed) :
    ∃ kvStore, Coro.exec «seal» nanoLog =
        (.ok nanoLog.endIndex, { nanoLog with sealed := true, sealDirty := false, kvStore }) ∧
      Usable kvStore v { nanoLog with sealed := true, sealDirty := false, kvStore } true := by
  obtain ⟨logs, endIndex, hholds⟩ := h.holds
  rw [← h.versionId] at hholds
  obtain ⟨kvStore, hexec, hholds'⟩ := exec_seal hholds
  exact ⟨kvStore, hexec, h.versionId, ⟨logs, endIndex, h.versionId ▸ hholds'⟩, fun _ => rfl⟩

end calls

end RocksNanoLog

/-! ## The replica -/

/-- `ReplicaImpl` with `NanoLogType::Rocks`: its `NanoLogStoreImpl`, and the store of all
nanologs. -/
structure RocksReplica (α κ : Type) where
  nanoLogStore : Int → Option (RocksNanoLog α κ) := fun _ => none
  kvStore : κ

namespace RocksReplica

variable {α κ : Type} [KVStoreLite κ String]

/-- `nanoLogStore_->getNanoLog`, with the store as it is now. -/
def getNanoLog (replica : RocksReplica α κ) (versionId : Int) : Option (RocksNanoLog α κ) :=
  (replica.nanoLogStore versionId).map fun nanoLog => { nanoLog with kvStore := replica.kvStore }

/-- `nanoLogFactory_->makeNanoLog`, with the end index that `append` and `seal` pass. -/
def makeNanoLog (replica : RocksReplica α κ) (versionId : Int) (config : MetadataConfig) :
    RocksNanoLog α κ :=
  RocksNanoLog.makeNanoLog versionId.repr config.startIndex highestNonExistingLogId false
    replica.kvStore

/-- A call of a nanolog, which `nanoLogStore_` has or gets. -/
def call {ρ : Type} (replica : RocksReplica α κ) (versionId : Int) (nanoLog : RocksNanoLog α κ)
    (body : RocksNanoLog.RocksM α κ ρ) : RocksReplica α κ × Except RocksNanoLogError ρ :=
  let (result, nanoLog) := Coro.exec body nanoLog
  ({ nanoLogStore := Function.update replica.nanoLogStore versionId (some nanoLog)
     kvStore := nanoLog.kvStore }, result)

/-- `ReplicaImpl::append`, until it waits for `promise`. -/
def append (replica : RocksReplica α κ) (metadataStore : InMemoryMetadataStore)
    (globalCommitIndex : Option Int) (versionId logId : Int) (logEntryPayload : String)
    (skipSeal : Bool) (promise : α) :
    RocksReplica α κ × Except RocksNanoLogError (List (Int × α)) :=
  let append := RocksNanoLog.append globalCommitIndex logId logEntryPayload skipSeal promise
  match replica.getNanoLog versionId with
  | some nanoLog => replica.call versionId nanoLog append
  | none =>
    match metadataStore.getConfig versionId with
    | none => (replica, .error (.nanoLog .metadataBlockNotFound))
    | some config => replica.call versionId (replica.makeNanoLog versionId config) append

/-- `ReplicaImpl::seal`. -/
def «seal» (replica : RocksReplica α κ) (metadataStore : InMemoryMetadataStore) (versionId : Int) :
    RocksReplica α κ × Except RocksNanoLogError Int :=
  match metadataStore.getConfig versionId with
  | none => (replica, .error (.nanoLog .metadataBlockNotFound))
  | some config =>
    let nanoLog := (replica.getNanoLog versionId).getD (replica.makeNanoLog versionId config)
    replica.call versionId nanoLog RocksNanoLog.seal

/-- The process dies, and is there again. -/
def restart (replica : RocksReplica α κ) : RocksReplica α κ := { kvStore := replica.kvStore }

/-- The nanolog a call of the version is made on: the one there is, or a new one. -/
def Opens (replica : RocksReplica α κ) (metadataStore : InMemoryMetadataStore) (versionId : Int)
    (nanoLog : RocksNanoLog α κ) : Prop :=
  replica.getNanoLog versionId = some nanoLog ∨
    (replica.nanoLogStore versionId = none ∧ ∃ config,
      metadataStore.getConfig versionId = some config ∧
        nanoLog = replica.makeNanoLog versionId config)

variable {replica : RocksReplica α κ} {metadataStore : InMemoryMetadataStore} {v : Int}

/-- **What an append is.** -/
theorem append_cases (replica : RocksReplica α κ) (metadataStore : InMemoryMetadataStore)
    (globalCommitIndex : Option Int) (v logId : Int) (payload : String) (skipSeal : Bool)
    (promise : α) :
    (∃ e, replica.append metadataStore globalCommitIndex v logId payload skipSeal promise =
      (replica, .error e)) ∨
    ∃ nanoLog, replica.Opens metadataStore v nanoLog ∧
      replica.append metadataStore globalCommitIndex v logId payload skipSeal promise =
        replica.call v nanoLog
          (RocksNanoLog.append globalCommitIndex logId payload skipSeal promise) := by
  unfold append
  cases hget : replica.getNanoLog v with
  | some nanoLog => exact .inr ⟨nanoLog, .inl hget, rfl⟩
  | none =>
    have hnone : replica.nanoLogStore v = none := Option.map_eq_none_iff.mp hget
    cases hconfig : metadataStore.getConfig v with
    | none => exact .inl ⟨_, rfl⟩
    | some config => exact .inr ⟨_, .inr ⟨hnone, config, hconfig, rfl⟩, rfl⟩

/-- **What a seal is.** -/
theorem seal_cases (replica : RocksReplica α κ) (metadataStore : InMemoryMetadataStore) (v : Int) :
    (∃ e, replica.seal metadataStore v = (replica, .error e)) ∨
    ∃ nanoLog, replica.Opens metadataStore v nanoLog ∧
      replica.seal metadataStore v = replica.call v nanoLog RocksNanoLog.seal := by
  unfold RocksReplica.seal
  cases hconfig : metadataStore.getConfig v with
  | none => exact .inl ⟨_, rfl⟩
  | some config =>
    refine .inr ⟨_, ?_, rfl⟩
    cases hget : replica.getNanoLog v with
    | some nanoLog => exact .inl hget
    | none => exact .inr ⟨Option.map_eq_none_iff.mp hget, config, hconfig, rfl⟩

omit [KVStoreLite κ String] in
theorem call_self {ρ : Type} (nanoLog : RocksNanoLog α κ) (body : RocksNanoLog.RocksM α κ ρ) :
    (replica.call v nanoLog body).1.nanoLogStore v = some (Coro.exec body nanoLog).2 :=
  Function.update_self ..

omit [KVStoreLite κ String] in
theorem call_of_ne {ρ : Type} {nanoLog : RocksNanoLog α κ} {body : RocksNanoLog.RocksM α κ ρ} {u : Int}
    (hu : u ≠ v) : (replica.call v nanoLog body).1.nanoLogStore u = replica.nanoLogStore u :=
  Function.update_of_ne hu ..

omit [KVStoreLite κ String] in
theorem call_result {ρ : Type} (nanoLog : RocksNanoLog α κ) (body : RocksNanoLog.RocksM α κ ρ) :
    (replica.call v nanoLog body).2 = (Coro.exec body nanoLog).1 := rfl

omit [KVStoreLite κ String] in
theorem call_kvStore {ρ : Type} (nanoLog : RocksNanoLog α κ) (body : RocksNanoLog.RocksM α κ ρ) :
    (replica.call v nanoLog body).1.kvStore = (Coro.exec body nanoLog).2.kvStore := rfl

/-! ### What holds of every nanolog -/

/-- Every nanolog of the replica can be used. -/
def Sound (replica : RocksReplica α κ) : Prop :=
  ∀ v nanoLog, replica.nanoLogStore v = some nanoLog →
    ∃ isSealed, RocksNanoLog.Usable replica.kvStore v nanoLog isSealed

theorem Sound.restart (replica : RocksReplica α κ) : replica.restart.Sound :=
  fun _ _ h => nomatch h

/-- What leaves the keys of other versions alone leaves their nanologs alone. -/
theorem usable_of_leaves {nanoLog other : RocksNanoLog α κ} {kvStore : κ} {u : Int} {isSealed : Bool}
    (hleaves : RocksNanoLog.Leaves v.repr kvStore nanoLog) (hu : u ≠ v)
    (h : RocksNanoLog.Usable kvStore u other isSealed) :
    RocksNanoLog.Usable nanoLog.kvStore u other isSealed :=
  h.congr fun key hkey => hleaves.2 key fun hkey' => hu (hkey.version_eq hkey')

variable [LawfulKVStoreLite κ String] {nanoLog : RocksNanoLog α κ}

/-- The nanolog a call is made on can be used, and nothing has happened to the others. -/
theorem Sound.opens (h : replica.Sound) (hopens : replica.Opens metadataStore v nanoLog) :
    (∃ isSealed, RocksNanoLog.Usable nanoLog.kvStore v nanoLog isSealed) ∧
      RocksNanoLog.Leaves v.repr replica.kvStore nanoLog := by
  rcases hopens with hget | ⟨-, config, -, rfl⟩
  · obtain ⟨found, hfound, rfl⟩ := Option.map_eq_some_iff.mp hget
    obtain ⟨isSealed, husable⟩ := h v found hfound
    exact ⟨⟨isSealed, husable.versionId, husable.holds, husable.sealed_eq⟩, husable.versionId,
      fun _ _ => rfl⟩
  · exact ⟨⟨false, RocksNanoLog.usable_makeNanoLog ..⟩, RocksNanoLog.leaves_makeNanoLog ..⟩

omit [LawfulKVStoreLite κ String] in
/-- **A call keeps every nanolog usable** if it keeps its own so. -/
theorem Sound.call {ρ : Type} {body : RocksNanoLog.RocksM α κ ρ} (h : replica.Sound)
    (hleaves : RocksNanoLog.Leaves v.repr replica.kvStore nanoLog)
    (hbody : Coro.Keeps (RocksNanoLog.Leaves v.repr replica.kvStore) body) (isSealed : Bool)
    (husable : RocksNanoLog.Usable (Coro.exec body nanoLog).2.kvStore v (Coro.exec body nanoLog).2
      isSealed) : (replica.call v nanoLog body).1.Sound := by
  intro u found hfound
  by_cases hu : u = v
  · subst hu
    rw [call_self, Option.some.injEq] at hfound
    exact ⟨isSealed, hfound ▸ husable⟩
  · rw [call_of_ne hu] at hfound
    obtain ⟨isSealed', hother⟩ := h u found hfound
    exact ⟨isSealed', usable_of_leaves (hbody nanoLog hleaves) hu hother⟩

variable [FlushingKVStoreLite κ String]

theorem Sound.append (h : replica.Sound) (metadataStore : InMemoryMetadataStore)
    (globalCommitIndex : Option Int) (v logId : Int) (payload : String) (skipSeal : Bool)
    (promise : α) : (replica.append metadataStore globalCommitIndex v logId payload skipSeal
      promise).1.Sound := by
  rcases replica.append_cases metadataStore globalCommitIndex v logId payload skipSeal promise with
    ⟨e, heq⟩ | ⟨nanoLog, hopens, heq⟩
  · rw [heq]
    exact h
  · rw [heq]
    obtain ⟨⟨isSealed, husable⟩, hleaves⟩ := h.opens hopens
    exact h.call hleaves (RocksNanoLog.keeps_append _ _ _ _ _) isSealed (husable.append ..)

theorem Sound.seal (h : replica.Sound) (metadataStore : InMemoryMetadataStore) (v : Int) :
    (replica.seal metadataStore v).1.Sound := by
  rcases replica.seal_cases metadataStore v with ⟨e, heq⟩ | ⟨nanoLog, hopens, heq⟩
  · rw [heq]
    exact h
  · rw [heq]
    obtain ⟨⟨isSealed, husable⟩, hleaves⟩ := h.opens hopens
    obtain ⟨kvStore, hexec, husable'⟩ := husable.seal
    refine h.call hleaves RocksNanoLog.keeps_seal true ?_
    rw [hexec]
    exact husable'

end RocksReplica

end ReplicatedCounter.Log
