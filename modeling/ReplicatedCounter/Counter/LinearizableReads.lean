import ReplicatedCounter.Counter.Snapshot
import ReplicatedCounter.StateMachine.SequencedLog

/-!
# Whether `getValue` sees what has been done

`getValue` calls `sync`, which waits until the node has applied everything that had been appended
when it was called, and then reads the map. Three layers have to agree on what a position is:

* `InMemoryFakeVirtualLog::sync` returns the next free id, and `VirtualLogStateMachine::sync` takes
  one off: the last used id. With it every read is up to date.
* `SequencerImpl::latestAppendPosition` has taken one off already. The state machine takes off
  another, and waits for the last but one id only. **An increment that is the last thing that
  happened to the log is not seen on another node** (`staleRead`).

The results hold for any number of nodes and any interleaving, and say what the value is made of.
-/

set_option autoImplicit false

namespace ReplicatedCounter.Counter

open StateMachine

variable {log : VirtualLog} {ι : Type} {ls₀ : log.State} {codec : Codec LogEntry String}
  {entriesCodec : Codec CounterLogEntries String}
  {logTrimApplicator : LogTrimEntry → Except String Unit}

/-- Counter nodes over a log. -/
abbrev CounterCluster (log : VirtualLog) (ι : Type) := Cluster log ι CounterApp LogEntry ReturnType

/-- An entry that a counter node appends. -/
def FromCounter (entriesCodec : Codec CounterLogEntries String) (t : LogEntry) : Prop :=
  ∃ ops, t = CounterAppStateMachine.logEntry entriesCodec (CounterApp.serialize ops)

/-- Node `i` of `s` is up to date with `before`: it has applied every id that had been acknowledged
then, and its values are the totals of the entries `1, …, lastAppliedLogId_` of the log. -/
structure Reflects (hlog : log.AppendOnly ls₀) (codec : Codec LogEntry String)
    (entriesCodec : Codec CounterLogEntries String) (before s : CounterCluster log ι) (i : ι) :
    Prop where
  applied : ∀ q l, log.acknowledged before.virtualLog q l = true →
    1 ≤ l ∧ l ≤ (s.nodes i).lastAppliedLogId
  values : ∃ batches : List (Int × List Operation),
    batches.map (·.1) = Int.range 1 ((s.nodes i).lastAppliedLogId + 1) ∧
    (∀ l ops, (l, ops) ∈ batches → hlog.entry codec s.virtualLog l =
      some (CounterAppStateMachine.logEntry entriesCodec (CounterApp.serialize ops))) ∧
    ∀ key, ((s.nodes i).upstream.getValue key).2 = total key (batches.map (·.2)).flatten

theorem exists_batches {entries : List (Int × LogEntry)}
    (h : ∀ e ∈ entries, FromCounter entriesCodec e.2) :
    ∃ batches : List (Int × List Operation), entries = batches.map fun batch =>
      (batch.1, CounterAppStateMachine.logEntry entriesCodec (CounterApp.serialize batch.2)) := by
  induction entries with
  | nil => exact ⟨[], rfl⟩
  | cons e entries ih =>
    obtain ⟨batches, rfl⟩ := ih fun e' he' => h e' (List.mem_cons_of_mem _ he')
    obtain ⟨ops, hops⟩ := h e List.mem_cons_self
    exact ⟨(e.1, ops) :: batches, by rw [List.map_cons, ← hops]⟩

theorem apply_ok (app : CounterApp) {t : LogEntry} (h : FromCounter entriesCodec t) :
    ∃ result, (LogTrimStateMachine.apply entriesCodec logTrimApplicator app t).2 = .ok result := by
  obtain ⟨ops, rfl⟩ := h
  obtain ⟨app', counterValues, happly, -⟩ :=
    apply_logEntry entriesCodec logTrimApplicator app ops
  rw [happly]
  exact ⟨_, rfl⟩

section Runs

variable [DecidableEq ι] {hlog : log.AppendOnly ls₀} {kvStore : ι → RocksStore String}
  {before s : CounterCluster log ι} {i : ι}

omit [DecidableEq ι] in
/-- **What a node has applied is what its values are made of.** -/
theorem reflects_of_applying
    (h : s.Applying hlog (LogTrimStateMachine.apply entriesCodec logTrimApplicator) codec
      (fun i => freshApp (kvStore i)) (FromCounter entriesCodec))
    (happlied : ∀ q l, log.acknowledged before.virtualLog q l = true →
      1 ≤ l ∧ l ≤ (s.nodes i).lastAppliedLogId) :
    Reflects hlog codec entriesCodec before s i := by
  have hgood : ∀ e ∈ s.entries i, FromCounter entriesCodec e.2 := by
    intro e he
    obtain ⟨a, ha, rfl⟩ := List.mem_map.mp he
    exact h.good _ _ ((h.sourced i).applied a ha)
  obtain ⟨batches, hbatches⟩ := exists_batches hgood
  have hids : (s.entries i).map (·.1) = (s.nodes i).applied.map (·.logId) := by
    unfold Cluster.entries
    rw [List.map_map]
    rfl
  have hlogs : (s.entries i).map (·.2) = (s.nodes i).applied.map (·.log) := by
    unfold Cluster.entries
    rw [List.map_map]
    rfl
  refine ⟨happlied, batches, ?_, fun l ops hmem => ?_, fun key => ?_⟩
  · rw [← (h.upToDate (fun u t ht => apply_ok u ht) i).2, ← hids, hbatches, List.map_map]
    rfl
  · have hentry : (l, CounterAppStateMachine.logEntry entriesCodec (CounterApp.serialize ops)) ∈
        s.entries i := by
      rw [hbatches]
      exact List.mem_map.mpr ⟨(l, ops), hmem, rfl⟩
    obtain ⟨a, ha, heq⟩ := List.mem_map.mp hentry
    obtain ⟨rfl, hlog'⟩ := Prod.mk.inj heq
    rw [← hlog']
    exact (h.sourced i).applied a ha
  · have hupstream : (s.nodes i).upstream = replayed entriesCodec logTrimApplicator
        (freshApp (kvStore i)) (batches.map (·.2)) := by
      rw [(h.replayed i).upstream, ← hlogs, hbatches]
      unfold replayed
      rw [List.map_map, List.map_map]
      rfl
    unfold CounterApp.getValue
    dsimp only
    rw [hupstream, (replayed_spec _ _).1]
    exact Int64.zero_add _

/-- **`sync` gives up-to-date reads** over a log, when it is called in a state that satisfies
`Ok`: once it has returned, the node reflects every append that had been acknowledged before the
call. The nodes append counter entries only. -/
def SyncReflects (ι : Type) [DecidableEq ι] (hlog : log.AppendOnly ls₀)
    (codec : Codec LogEntry String) (entriesCodec : Codec CounterLogEntries String)
    (logTrimApplicator : LogTrimEntry → Except String Unit)
    (Ok : CounterCluster log ι → ι → Prop) : Prop :=
  ∀ (kvStore : ι → RocksStore String) (es₁ es₂ : List (ClusterEvent log ι LogEntry))
    (before called s : CounterCluster log ι) (i : ι) (c : Waiter) (q : log.Sequencer)
    (r : Option ReturnType),
    Transition.run (Cluster.step (LogTrimStateMachine.apply entriesCodec logTrimApplicator) codec)
      (Cluster.start ls₀ fun i => freshApp (kvStore i)) es₁ = some before →
    Cluster.step (LogTrimStateMachine.apply entriesCodec logTrimApplicator) codec before
      (.sync i c q) = some called →
    Transition.run (Cluster.step (LogTrimStateMachine.apply entriesCodec logTrimApplicator) codec)
      called es₂ = some s →
    (c, r) ∈ (s.nodes i).returned →
    (∀ q t, .append q t ∈ es₁ ++ es₂ → FromCounter entriesCodec t) →
    Ok before i → Reflects hlog codec entriesCodec before s i

/-- It does if everything acknowledged is below the position the log reports, or has been applied on
the node. -/
theorem syncReflects_of_position {Ok : CounterCluster log ι → ι → Prop}
    (hOk : ∀ (before : CounterCluster log ι) (i : ι) (q : log.Sequencer), Ok before i →
      hlog.Inv before.virtualLog → ∀ position, log.sync before.virtualLog q = some position →
      ∀ q' l, log.acknowledged before.virtualLog q' l = true →
        l ≤ position - 1 ∨ l ≤ (before.nodes i).lastAppliedLogId) :
    SyncReflects ι hlog codec entriesCodec logTrimApplicator Ok := by
  intro kvStore es₁ es₂ before called s i c q r h₁ hsync h₂ hreturned hcounter hok
  have hmeets : ∀ es : List (ClusterEvent log ι LogEntry), (∀ e ∈ es, e ∈ es₁ ++ es₂) →
      ∀ t : CounterCluster log ι, Transition.Meets
        (Cluster.step (LogTrimStateMachine.apply entriesCodec logTrimApplicator) codec)
        (Cluster.Appends (FromCounter entriesCodec)) t es := by
    intro es hes t
    refine Transition.meets_of_mem fun e he t => ?_
    cases e with
    | append q t => exact hcounter q t (hes _ he)
    | _ => trivial
  have hbefore := Cluster.run_applying hlog h₁
    (hmeets es₁ (fun e he => List.mem_append_left _ he) _)
  have happlying := Transition.meets_invariant (fun _ _ _ hs hok hstep => hs.step hok hstep) h₂
    (hmeets es₂ (fun e he => List.mem_append_right _ he) _)
    (hbefore.step (e := .sync i c q) trivial hsync)
  refine reflects_of_applying happlying fun q' l hack => ⟨?_, ?_⟩
  · obtain ⟨payload, hcontents⟩ := hlog.acknowledged hbefore.log hack
    exact hlog.one_le hbefore.log hcontents
  · cases Cluster.step_spec hsync with
    | sync _ _ _ position _ _ hposition =>
      rcases hOk before i q hok hbefore.log position hposition q' l hack with hle | hle
      · exact hle.trans (Cluster.sync_covers h₁ hsync hposition h₂ hreturned)
      · exact hle.trans ((Cluster.run_keeps h₂).2 i)
    | node _ _ _ _ hhears _ _ => nomatch hhears

/-- The condition over `VirtualLogImpl`: every acknowledged id has been followed by another one that
the sequencer has handed out, or has been applied on the node. -/
def FollowedOrApplied {N : Nat} (s : CounterCluster (sequencedLog N) ι) (i : ι) : Prop :=
  ∀ sequencer, s.virtualLog.sequencers 1 = some sequencer → ∀ l,
    s.virtualLog.isAcknowledged 1 l = true →
      l + 1 < sequencer.sequenceNum ∨ l ≤ (s.nodes i).lastAppliedLogId

/-- **Reads are up to date over `VirtualLogImpl` if nothing acknowledged is the last id handed out,
and over `InMemoryFakeVirtualLog` always.** -/
theorem getValue_linearizable {N : Nat} {b : Log.Bootstrap} (hb : 1 ≤ b.config.startIndex) :
    SyncReflects ι (sequencedLog.appendOnly N b hb) codec entriesCodec logTrimApplicator
      FollowedOrApplied ∧
    SyncReflects ι inMemoryFakeVirtualLog.appendOnly codec entriesCodec logTrimApplicator
      fun _ _ => True := by
  constructor
  · refine syncReflects_of_position fun before i q hok _ position hposition q' l hack => ?_
    obtain ⟨sequencer, hsequencer, rfl⟩ := Option.map_eq_some_iff.mp hposition
    refine (hok sequencer hsequencer l hack).imp_left fun hlt => ?_
    unfold Log.SequencerImpl.latestAppendPosition
    omega
  · refine syncReflects_of_position fun before i q _ hinv position hposition q' l hack => .inl ?_
    obtain rfl := Option.some.inj hposition
    obtain ⟨payload, hfind⟩ := Option.isSome_iff_exists.mp hack
    exact Int.le_sub_one_of_lt (hinv.2 l payload hfind).2

end Runs

/-! ## Two nodes and three replicas -/

/-- Two counter nodes over the log of `makeVirtualLog`. -/
def twoCounters : CounterCluster (sequencedLog 3) (Fin 2) :=
  Cluster.start (Log.LogSystem.initial 3 (some Log.LogSystem.makeVirtualLog)) fun _ =>
    freshApp newStore

/-- A step of them. -/
def twoCountersStep : CounterCluster (sequencedLog 3) (Fin 2) →
    ClusterEvent (sequencedLog 3) (Fin 2) LogEntry → Option (CounterCluster (sequencedLog 3) (Fin 2)) :=
  Cluster.step (LogTrimStateMachine.apply (wireCodec _) fun _ => .ok ()) (wireCodec _)

/-- The request for id 1. -/
def incrementRequest (r : Fin 3) : Log.Request 3 :=
  ⟨r, .sequencer, some 1, 1, 1, (wireCodec LogEntry).serialize oneIncrementEntry⟩

/-- `k` is incremented by 5: id 1 is stored on two replicas and acknowledged. -/
def incremented : List (ClusterEvent (sequencedLog 3) (Fin 2) LogEntry) :=
  [.append () oneIncrementEntry, .log (.send 1), .log (.send 1), .log (.send 1),
    .log (.arrive (incrementRequest 0)), .log (.execute (incrementRequest 0)),
    .log (.arrive (incrementRequest 1)), .log (.execute (incrementRequest 1)),
    .log (.receive ⟨0, .sequencer, 1, 1, .ok ()⟩), .log (.receive ⟨1, .sequencer, 1, 1, .ok ()⟩),
    .log (.acknowledge 1)]

/-- Node `i` fetches entry 1 by call `c` and applies it. -/
def applyOn (i : Fin 2) (c : Log.CallId) : List (ClusterEvent (sequencedLog 3) (Fin 2) LogEntry) :=
  [.wake i, .enqueue i, .log (.getLogEntry c 1), .log (.probe c), .fetched i 1 (some c),
    .consume i, .apply i]

/-- Id 2 has been handed out when node 1 is read. -/
theorem getValue_linearizable_followed :
    ∃ before called s,
      Transition.run twoCountersStep twoCounters (incremented ++ [.append () oneIncrementEntry]) =
        some before ∧
      twoCountersStep before (.sync 1 0 ()) = some called ∧
      Transition.run twoCountersStep called (.synced 1 0 :: applyOn 1 0) = some s ∧
      (s.nodes 1).lastAppliedLogId = 1 ∧ ((s.nodes 1).upstream.getValue "k").2 = 5 ∧
      Reflects (sequencedLog.appendOnly 3 Log.LogSystem.makeVirtualLog (by decide)) (wireCodec _)
        (wireCodec _) before s 1 := by
  have hcounter : ∀ q t, .append q t ∈ (incremented ++ [.append () oneIncrementEntry]) ++
      (.synced 1 0 :: applyOn 1 0) → FromCounter (wireCodec _) t := by
    intro q t ht
    refine ⟨[.incr "k" 5], ?_⟩
    simp only [incremented, applyOn, List.mem_append, List.mem_cons, reduceCtorEq,
      ClusterEvent.append.injEq, List.not_mem_nil, or_false] at ht
    rcases ht with ⟨-, rfl⟩ | ⟨-, rfl⟩
    · rfl
    · rfl
  have h : ∀ before called s,
      Transition.run twoCountersStep twoCounters (incremented ++ [.append () oneIncrementEntry]) =
        some before →
      twoCountersStep before (.sync 1 0 ()) = some called →
      Transition.run twoCountersStep called (.synced 1 0 :: applyOn 1 0) = some s →
      (0, some (.values [⟨"k", 5⟩])) ∈ (s.nodes 1).returned → FollowedOrApplied before 1 →
      Reflects (sequencedLog.appendOnly 3 Log.LogSystem.makeVirtualLog (by decide)) (wireCodec _)
        (wireCodec _) before s 1 :=
    fun before called s h₁ hsync h₂ hreturned hok =>
      (getValue_linearizable (by decide)).1 _ _ _ before called s 1 0 () _ h₁ hsync h₂ hreturned
        hcounter hok
  -- ids 1 and 2 have been handed out, and 2 has not been acknowledged
  have hok : ∀ before : CounterCluster (sequencedLog 3) (Fin 2),
      Transition.run twoCountersStep twoCounters (incremented ++ [.append () oneIncrementEntry]) =
        some before →
      before.virtualLog.sequencers 1 = some ⟨3, 1⟩ → before.virtualLog.isAcknowledged 1 2 = false →
      FollowedOrApplied before 1 := by
    intro before h₁ hsequencer hpending sequencer hsequencer' l hack
    obtain rfl := Option.some.inj (hsequencer.symm.trans hsequencer')
    have hmeets : Transition.Meets twoCountersStep (Cluster.Appends fun _ => True) twoCounters
        (incremented ++ [.append () oneIncrementEntry]) :=
      Transition.meets_of_mem fun e _ _ => by cases e <;> trivial
    have hvalid := (Cluster.run_applying
      (sequencedLog.appendOnly 3 Log.LogSystem.makeVirtualLog (by decide)) h₁ hmeets).log
    have hbounds := OneVersion.bounds_of_acknowledged hvalid hack hsequencer
    have hle : (1 : Int) ≤ l := hbounds.1
    have hlt : l < 3 := hbounds.2
    obtain rfl | rfl : l = 1 ∨ l = 2 := by omega
    · exact .inl (by decide)
    · exact absurd (hpending.symm.trans hack) (by decide)
  exact ⟨_, _, _, rfl, rfl, rfl, rfl, rfl,
    h _ _ _ rfl rfl rfl List.mem_cons_self (hok _ rfl rfl rfl)⟩

/-- Node 0 increments `k` and returns. Then node 1 is read: the position of the log is 1, and `sync`
waits for nothing. -/
def staleRead : List (ClusterEvent (sequencedLog 3) (Fin 2) LogEntry) :=
  incremented ++ [.appended 0 0 () 1] ++ applyOn 0 0

theorem not_reflects_stale_read :
    ∃ before called s, Transition.run twoCountersStep twoCounters staleRead = some before ∧
      (0, some (.values [⟨"k", 5⟩])) ∈ (before.nodes 0).returned ∧
      before.virtualLog.isAcknowledged 1 1 = true ∧
      twoCountersStep before (.sync 1 0 ()) = some called ∧
      Transition.run twoCountersStep called [.synced 1 0] = some s ∧
      (0, none) ∈ (s.nodes 1).returned ∧ (s.nodes 1).lastAppliedLogId = 0 ∧
      ((s.nodes 1).upstream.getValue "k").2 = 0 :=
  ⟨_, _, _, rfl, List.mem_cons_self, rfl, rfl, rfl, List.mem_cons_self, rfl, rfl⟩

end ReplicatedCounter.Counter
