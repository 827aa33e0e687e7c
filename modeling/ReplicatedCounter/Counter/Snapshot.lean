import Mathlib.Data.List.Basic
import ReplicatedCounter.Counter.CounterApp
import ReplicatedCounter.Lib.Transition
import ReplicatedCounter.StateMachine.Pipeline

/-!
# Restarting from a snapshot

A node that restarts should restore its snapshot and go on behind it. The position to go on from has
a long way: `SingleLogEntry.id`, `lastAppliedEntry_`, the snapshot's `log_id`, and the id the state
machine starts to fetch at. It is lost at both ends. Nobody sets `SingleLogEntry.id`, so a snapshot
says 0 whatever has been applied; and `makeStateMachineStack` builds its `VirtualLogStateMachine`
with the default `lastAppliedLogId`, whatever the snapshot says. **The restored node applies the log
from entry 1, on top of the snapshot**, and everything the snapshot covers counts twice
(`valueAt_of_restored`).
-/

set_option autoImplicit false

namespace ReplicatedCounter.Counter

open StateMachine

variable {entriesCodec : Codec CounterLogEntries String}
  {snapshotCodec : Codec CounterAppSnapshot String}
  {logTrimApplicator : LogTrimEntry → Except String Unit} {app app' : CounterApp}
  {log : List (List Operation)} {m : VirtualLogStateMachine CounterApp LogEntry ReturnType}

/-! ## A node over a fixed log -/

/-- A log of counter entries; ids start at 1. -/
def entryAt (entriesCodec : Codec CounterLogEntries String) (log : List (List Operation))
    (logId : Int) : Option LogEntry :=
  if 1 ≤ logId then
    log[(logId - 1).toNat]?.map fun ops =>
      CounterAppStateMachine.logEntry entriesCodec (CounterApp.serialize ops)
  else
    none

/-- `makeStateMachineStack` over the log, with the application above it, has come to `m`. Its
callers and loops may have done what they like; what a fetch found is what is in the log. -/
def Drives (entriesCodec : Codec CounterLogEntries String)
    (logTrimApplicator : LogTrimEntry → Except String Unit) (log : List (List Operation))
    (app : CounterApp) (m : VirtualLogStateMachine CounterApp LogEntry ReturnType) : Prop :=
  ∃ es, Transition.run (VirtualLogStateMachine.step
      (LogTrimStateMachine.apply entriesCodec logTrimApplicator)) (.make app) es = some m ∧
    ∀ l t, .fetched l (some t) ∈ es → entryAt entriesCodec log l = some t

/-- The application after some batches. -/
def replayed (entriesCodec : Codec CounterLogEntries String)
    (logTrimApplicator : LogTrimEntry → Except String Unit) (app : CounterApp)
    (batches : List (List Operation)) : CounterApp :=
  VirtualLogStateMachine.replay (LogTrimStateMachine.apply entriesCodec logTrimApplicator) app
    (batches.map fun ops =>
      CounterAppStateMachine.logEntry entriesCodec (CounterApp.serialize ops))

theorem filterMap_entryAt (n : Nat) :
    (Int.range 1 (n + 1)).filterMap (entryAt entriesCodec log) = (log.take n).map fun ops =>
      CounterAppStateMachine.logEntry entriesCodec (CounterApp.serialize ops) := by
  induction n with
  | zero => rfl
  | succ n ih =>
    have hentry : entryAt entriesCodec log ((n : Int) + 1) = log[n]?.map fun ops =>
        CounterAppStateMachine.logEntry entriesCodec (CounterApp.serialize ops) := by
      unfold entryAt
      rw [if_pos (by omega)]
      congr 2
      omega
    have hcast : ((n + 1 : Nat) : Int) = (n : Int) + 1 := rfl
    rw [hcast, Int.range_concat (by omega), List.filterMap_append, ih, List.take_add_one,
      List.map_append]
    congr 1
    rw [List.filterMap_cons, hentry]
    cases log[n]? with
    | none => rfl
    | some ops => rfl

/-- What one machine run keeps, with every fetch from the log. -/
structure Driven (entriesCodec : Codec CounterLogEntries String)
    (logTrimApplicator : LogTrimEntry → Except String Unit) (log : List (List Operation))
    (app : CounterApp) (m : VirtualLogStateMachine CounterApp LogEntry ReturnType) : Prop where
  ordered : m.Ordered
  sourced : m.Sourced fun l t => entryAt entriesCodec log l = some t
  replayed : m.Replayed (LogTrimStateMachine.apply entriesCodec logTrimApplicator) app

theorem Drives.driven (h : Drives entriesCodec logTrimApplicator log app m) :
    Driven entriesCodec logTrimApplicator log app m := by
  obtain ⟨es, hrun, hfetched⟩ := h
  have hmeets : Transition.Meets (VirtualLogStateMachine.step
      (LogTrimStateMachine.apply entriesCodec logTrimApplicator))
      (fun _ e => ∀ l t, e = .fetched l (some t) → entryAt entriesCodec log l = some t)
      (.make app) es :=
    Transition.meets_of_mem fun e he _ l t heq => hfetched l t (heq ▸ he)
  refine Transition.meets_invariant (P := Driven entriesCodec logTrimApplicator log app)
    (fun m e m' hm hok hs => ?_) hrun hmeets
    ⟨VirtualLogStateMachine.ordered_make _, VirtualLogStateMachine.sourced_make _,
      VirtualLogStateMachine.replayed_make⟩
  obtain ⟨halive, hstep⟩ := VirtualLogStateMachine.step_spec hs
  exact ⟨hm.ordered.step halive hstep, hm.sourced.step hstep hok, hm.replayed.step hstep⟩

theorem isCounterEntry_of_entryAt {l : Int} {t : LogEntry}
    (h : entryAt entriesCodec log l = some t) :
    ∃ ops, t = CounterAppStateMachine.logEntry entriesCodec (CounterApp.serialize ops) := by
  unfold entryAt at h
  split at h
  · obtain ⟨ops, -, rfl⟩ := Option.map_eq_some_iff.mp h
    exact ⟨ops, rfl⟩
  · exact absurd h (by simp)

theorem Drives.answered (h : Drives entriesCodec logTrimApplicator log app m) :
    m.Answered (LogTrimStateMachine.apply entriesCodec logTrimApplicator) app := by
  obtain ⟨es, hrun, -⟩ := h
  refine Transition.run_invariant (fun m e m' hm hs => ?_) hrun VirtualLogStateMachine.answered_make
  exact hm.step (VirtualLogStateMachine.step_spec hs).2

/-- A node has applied the first `lastAppliedLogId_` entries of the log, in their order. -/
theorem Drives.applied_eq (h : Drives entriesCodec logTrimApplicator log app m) :
    0 ≤ m.lastAppliedLogId ∧ m.applied.map (·.logId) = Int.range 1 (m.lastAppliedLogId + 1) ∧
      m.applied.map (·.log) = (log.take m.lastAppliedLogId.toNat).map fun ops =>
        CounterAppStateMachine.logEntry entriesCodec (CounterApp.serialize ops) := by
  obtain ⟨hordered, hsourced, hreplayed⟩ := h.driven
  have hsuccessful : m.Successful := hreplayed.successful fun u a ha => by
    obtain ⟨ops, hops⟩ := isCounterEntry_of_entryAt (hsourced.applied a ha)
    obtain ⟨app', counterValues, happly, -⟩ :=
      apply_logEntry entriesCodec logTrimApplicator u ops
    rw [hops, happly]
    exact ⟨_, rfl⟩
  obtain ⟨k, j, hcuts⟩ := hordered
  have hids : m.applied.map (·.logId) = Int.range 1 (m.lastAppliedLogId + 1) := by
    rw [hcuts.applied, ← (hcuts.upToDate hsuccessful).1]
  have hlogs : m.applied.map (·.log) =
      (m.applied.map (·.logId)).filterMap (entryAt entriesCodec log) := by
    rw [List.filterMap_map, ← List.filterMap_eq_map]
    refine List.filterMap_congr fun a ha => ?_
    exact (hsourced.applied a ha).symm
  refine ⟨hcuts.nonneg, hids, ?_⟩
  rw [hlogs, hids, ← filterMap_entryAt, Int.toNat_of_nonneg hcuts.nonneg]

/-- **A node is what its entries have made of it**: the first `lastAppliedLogId_` entries of the
log, on top of the application it was built with. -/
theorem Drives.upstream (h : Drives entriesCodec logTrimApplicator log app m) :
    0 ≤ m.lastAppliedLogId ∧ m.upstream = replayed entriesCodec logTrimApplicator app
      (log.take m.lastAppliedLogId.toNat) := by
  obtain ⟨hnonneg, -, hlogs⟩ := h.applied_eq
  refine ⟨hnonneg, ?_⟩
  rw [h.driven.replayed.upstream, hlogs]
  rfl

/-! ## What replaying does -/

/-- The state after some batches: the totals are added to what was there, and a node that has
applied anything says that it is at entry 0. -/
theorem replayed_spec (app : CounterApp) (batches : List (List Operation)) :
    (∀ key, CounterApp.valueAt (replayed entriesCodec logTrimApplicator app batches).lookup key =
      CounterApp.valueAt app.lookup key + total key batches.flatten) ∧
    (replayed entriesCodec logTrimApplicator app batches).kvStore = app.kvStore ∧
    (app.lastAppliedEntry = 0 →
      (replayed entriesCodec logTrimApplicator app batches).lastAppliedEntry = 0) := by
  induction batches generalizing app with
  | nil => exact ⟨fun key => (Int64.add_zero _).symm, rfl, id⟩
  | cons ops batches ih =>
    obtain ⟨app', counterValues, happly, hentry, hstore, -, hvalues⟩ :=
      apply_logEntry entriesCodec logTrimApplicator app ops
    have hcons : replayed entriesCodec logTrimApplicator app (ops :: batches) =
        replayed entriesCodec logTrimApplicator app' batches := by
      unfold replayed VirtualLogStateMachine.replay
      rw [List.map_cons, List.foldl_cons, happly]
    obtain ⟨hvalues', hstore', hentry'⟩ := ih app'
    rw [hcons]
    refine ⟨fun key => ?_, hstore'.trans hstore, fun _ => hentry' hentry⟩
    rw [hvalues', hvalues, List.flatten_cons, total_append, Int64.add_assoc]

/-- The map depends on the map alone. -/
theorem replayed_lookup (h : app.lookup = app'.lookup) (batches : List (List Operation)) :
    (replayed entriesCodec logTrimApplicator app batches).lookup =
      (replayed entriesCodec logTrimApplicator app' batches).lookup := by
  induction batches generalizing app app' with
  | nil => exact h
  | cons ops batches ih =>
    obtain ⟨app₁, counterValues, happly, -, -, hlookup, -⟩ :=
      apply_logEntry entriesCodec logTrimApplicator app ops
    obtain ⟨app₁', counterValues', happly', -, -, hlookup', -⟩ :=
      apply_logEntry entriesCodec logTrimApplicator app' ops
    unfold replayed VirtualLogStateMachine.replay at ih ⊢
    rw [List.map_cons, List.foldl_cons, List.foldl_cons, happly, happly']
    rw [h, hlookup'] at hlookup
    exact ih (congrArg Prod.fst hlookup).symm

/-! ## Snapshots -/

theorem snapshot_spec {snapshotDirectory : String} {snapshot : CounterAppSnapshot}
    {checkpoint : Checkpoint}
    (h : (app.snapshot snapshotCodec snapshotDirectory).2 = .ok (snapshot, checkpoint)) :
    snapshot = { logId := app.lastAppliedEntry, values := app.lookup } ∧
      checkpoint.kvStore.get "COUNTER_APP_SNAPSHOT" = some (snapshotCodec.serialize snapshot) := by
  obtain ⟨rfl, rfl⟩ := Prod.mk.inj (Except.ok.inj h)
  exact ⟨rfl, by simp [RocksStore.get]⟩

theorem restore_spec {kvStore : RocksStore String} {snapshot : CounterAppSnapshot}
    (h : kvStore.get "COUNTER_APP_SNAPSHOT" = some (snapshotCodec.serialize snapshot)) :
    ((freshApp kvStore).restoreFromSnapshot snapshotCodec).1 =
      { kvStore, lookup := snapshot.values } := by
  unfold CounterApp.restoreFromSnapshot freshApp
  dsimp only
  rw [h]
  dsimp only
  rw [snapshotCodec.parse_serialize]

section Restart

variable {n : Int} {kvStore kvStore' : RocksStore String}
  {first restored once : VirtualLogStateMachine CounterApp LogEntry ReturnType}
  {snapshotDirectory : String} {snapshot : CounterAppSnapshot} {checkpoint : Checkpoint}

/-- **What the snapshot covers counts twice.** -/
theorem valueAt_of_restored
    (hfirst : Drives entriesCodec logTrimApplicator log (freshApp kvStore) first)
    (hsnapshot : (first.upstream.snapshot snapshotCodec snapshotDirectory).2 =
      .ok (snapshot, checkpoint))
    (hrestored : Drives entriesCodec logTrimApplicator log
      ((freshApp checkpoint.kvStore).restoreFromSnapshot snapshotCodec).1 restored)
    (key : String) :
    CounterApp.valueAt restored.upstream.lookup key =
      total key (log.take first.lastAppliedLogId.toNat).flatten +
        total key (log.take restored.lastAppliedLogId.toNat).flatten := by
  obtain ⟨rfl, hget⟩ := snapshot_spec hsnapshot
  rw [restore_spec hget] at hrestored
  rw [hrestored.upstream.2, (replayed_spec _ _).1]
  dsimp only
  rw [hfirst.upstream.2, (replayed_spec _ _).1]
  congr 1
  exact Int64.zero_add _

/-- **Snapshot plus replay equals full replay exactly for the empty snapshot.** A node applies the
entries `1, …, n` and takes a snapshot; another one restores it and is driven over the same log up
to some `m`. The snapshot's `log_id` is `n` and the restored node has the values of one that has
applied `1, …, m` once, if and only if `n = 0`. -/
theorem snapshot_replay_iff
    (hfirst : Drives entriesCodec logTrimApplicator log (freshApp kvStore) first)
    (hn : first.lastAppliedLogId = n)
    (hsnapshot : (first.upstream.snapshot snapshotCodec snapshotDirectory).2 =
      .ok (snapshot, checkpoint))
    (hrestored : Drives entriesCodec logTrimApplicator log
      ((freshApp checkpoint.kvStore).restoreFromSnapshot snapshotCodec).1 restored)
    (honce : Drives entriesCodec logTrimApplicator log (freshApp kvStore') once)
    (hm : restored.lastAppliedLogId = once.lastAppliedLogId) :
    (snapshot.logId = n ∧ restored.upstream.getValues = once.upstream.getValues) ↔ n = 0 := by
  obtain ⟨rfl, hget⟩ := snapshot_spec hsnapshot
  have hzero : first.upstream.lastAppliedEntry = 0 := by
    rw [hfirst.upstream.2]
    exact (replayed_spec _ _).2.2 rfl
  constructor
  · rintro ⟨hlogId, -⟩
    exact hlogId.symm.trans hzero
  · rintro rfl
    refine ⟨hzero, ?_⟩
    -- nothing had been applied, so the restored map is empty like that of a new node
    have hempty : first.upstream.lookup = .empty := by
      rw [hfirst.upstream.2, hn]
      rfl
    rw [restore_spec hget] at hrestored
    unfold CounterApp.getValues
    rw [hrestored.upstream.2, honce.upstream.2, hm]
    exact replayed_lookup hempty _

end Restart

/-! ## One entry -/

/-- A log with one entry, which adds 5 to `k`. -/
def oneIncrement : List (List Operation) := [[.incr "k" 5]]

/-- Its entry, as it is fetched. -/
def oneIncrementEntry : LogEntry :=
  CounterAppStateMachine.logEntry (wireCodec _) (CounterApp.serialize [.incr "k" 5])

/-- A caller waits for entry 1, which is fetched and applied. -/
def applyFirst : List (Event LogEntry) :=
  [.appended 0 1, .wake, .enqueue, .fetched 1 (some oneIncrementEntry), .consume, .apply]

/-- A node that has applied entry 1. -/
def afterFirst (app : CounterApp) : VirtualLogStateMachine CounterApp LogEntry ReturnType :=
  (Transition.run (VirtualLogStateMachine.step
    (LogTrimStateMachine.apply (wireCodec _) fun _ => .ok ())) (.make app) applyFirst).getD
      (.make app)

theorem drives_afterFirst (app : CounterApp) :
    Drives (wireCodec _) (fun _ => .ok ()) oneIncrement app (afterFirst app) := by
  refine ⟨applyFirst, rfl, fun l t ht => ?_⟩
  simp only [applyFirst, List.mem_cons, reduceCtorEq, Event.fetched.injEq, Option.some.injEq,
    List.not_mem_nil, or_false, false_or] at ht
  obtain ⟨rfl, rfl⟩ := ht
  rfl

/-- The store of a new node. -/
def newStore : RocksStore String := .provideSharedPtr true

/-- A snapshot of a node that has applied nothing. -/
theorem snapshot_replay_iff_empty :
    ∃ snapshot checkpoint,
      ((freshApp newStore).snapshot (wireCodec _) "/tmp").2 = .ok (snapshot, checkpoint) ∧
      snapshot.logId = 0 ∧
      (afterFirst ((freshApp checkpoint.kvStore).restoreFromSnapshot
        (wireCodec _)).1).upstream.getValues =
          (afterFirst (freshApp newStore)).upstream.getValues := by
  have hfirst : Drives (wireCodec _) (fun _ => .ok ()) oneIncrement (freshApp newStore)
      (.make (freshApp newStore)) := ⟨[], rfl, fun _ _ ht => absurd ht List.not_mem_nil⟩
  have h : ∀ snapshot checkpoint,
      ((freshApp newStore).snapshot (wireCodec _) "/tmp").2 = .ok (snapshot, checkpoint) → _ ∧ _ :=
    fun snapshot checkpoint hsnapshot =>
      (snapshot_replay_iff hfirst rfl hsnapshot (drives_afterFirst _)
        (drives_afterFirst (freshApp newStore)) rfl).mpr rfl
  exact ⟨_, _, rfl, h _ _ rfl⟩

/-- A node applies the one entry of the log and takes a snapshot. The snapshot says that it is at
entry 0; the node that restores it applies the entry again, and has 10 where 5 was added. -/
theorem not_snapshot_replay_one_increment :
    Drives (wireCodec _) (fun _ => .ok ()) oneIncrement (freshApp newStore)
      (afterFirst (freshApp newStore)) ∧
    (afterFirst (freshApp newStore)).lastAppliedLogId = 1 ∧
    ∃ snapshot checkpoint,
      ((afterFirst (freshApp newStore)).upstream.snapshot (wireCodec _) "/tmp").2 =
        .ok (snapshot, checkpoint) ∧
      snapshot.logId = 0 ∧
      Drives (wireCodec _) (fun _ => .ok ()) oneIncrement
        ((freshApp checkpoint.kvStore).restoreFromSnapshot (wireCodec _)).1
        (afterFirst ((freshApp checkpoint.kvStore).restoreFromSnapshot (wireCodec _)).1) ∧
      (afterFirst ((freshApp checkpoint.kvStore).restoreFromSnapshot
        (wireCodec _)).1).upstream.getValues.entries = [("k", 10)] ∧
      (afterFirst (freshApp newStore)).upstream.getValues.entries = [("k", 5)] :=
  ⟨drives_afterFirst _, rfl, _, _, rfl, rfl, drives_afterFirst _, by rfl, by rfl⟩

end ReplicatedCounter.Counter
