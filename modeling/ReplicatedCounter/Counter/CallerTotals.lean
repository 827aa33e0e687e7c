import ReplicatedCounter.Counter.ClusterTotals

/-!
# Every caller gets the totals of its own update

`VirtualLogImpl::append` returns the id that the sequencer gave to the very entry. In a `Cluster` an
acknowledged id may be handed to anybody; here each call keeps the id that its own entry was given,
and hears of that one when it has been acknowledged. So two calls never answer for the same entry,
and no update is lost: in the order of the ids, every answer is the total of the updates before the
call's own and of its own (`updates_linearizable`).

The ids are given out when the calls begin. A call that begins after another one has its entry
behind the other's.
-/

set_option autoImplicit false

namespace ReplicatedCounter.Counter

open StateMachine

/-! ## Calls -/

/-- Counter nodes over one sequencer, with the calls of `append` on them: the id that a call was
given, and its operations. -/
structure CallingCluster (N : Nat) (ι : Type) where
  cluster : CounterCluster (sequencedLog N) ι
  calls : ι × Waiter → Option (Int × List Operation) := fun _ => none

/-- A call appends its operations, and hears that its id is acknowledged. -/
inductive CallEvent (N : Nat) (ι : Type) where
  | call (i : ι) (c : Waiter) (ops : List Operation)
  | returned (i : ι) (c : Waiter)
  | other (e : ClusterEvent (sequencedLog N) ι LogEntry)

namespace CallingCluster

variable {N : Nat} {ι : Type} [DecidableEq ι] (codec : Codec LogEntry String)
  (entriesCodec : Codec CounterLogEntries String)
  (logTrimApplicator : LogTrimEntry → Except String Unit)

/-- What the calls do not do by their own events. A call of `sync` is not one of `append`. -/
def admits (s : CallingCluster N ι) : ClusterEvent (sequencedLog N) ι LogEntry → Bool
  | .append .. | .appended .. => false
  | .sync i c _ => (s.calls (i, c)).isNone
  | _ => true

/-- A step of the nodes. -/
def stepCluster (cluster : CounterCluster (sequencedLog N) ι) :
    ClusterEvent (sequencedLog N) ι LogEntry → Option (CounterCluster (sequencedLog N) ι) :=
  Cluster.step (LogTrimStateMachine.apply entriesCodec logTrimApplicator) codec cluster

def step (s : CallingCluster N ι) : CallEvent N ι → Option (CallingCluster N ι)
  | .call i c ops =>
    if s.calls (i, c) = none ∧ s.cluster.positions (i, c) = none then do
      let sequencer ← s.cluster.virtualLog.sequencers 1
      let cluster ← stepCluster codec entriesCodec logTrimApplicator s.cluster
        (.append () (CounterAppStateMachine.logEntry entriesCodec (CounterApp.serialize ops)))
      some { cluster, calls := Function.update s.calls (i, c) (some (sequencer.sequenceNum, ops)) }
    else
      none
  | .returned i c => do
    let (logId, _) ← s.calls (i, c)
    let cluster ←
      stepCluster codec entriesCodec logTrimApplicator s.cluster (.appended i c () logId)
    some { s with cluster }
  | .other e =>
    if s.admits e then do
      let cluster ← stepCluster codec entriesCodec logTrimApplicator s.cluster e
      some { s with cluster }
    else
      none

/-- Nodes that have just been started over the log of a bootstrap. -/
def start (b : Log.Bootstrap) (kvStore : ι → RocksStore String) : CallingCluster N ι where
  cluster := Cluster.start (Log.LogSystem.initial N (some b)) fun i => freshApp (kvStore i)

variable {codec entriesCodec logTrimApplicator} {b : Log.Bootstrap}
  {kvStore : ι → RocksStore String} {s s' before : CallingCluster N ι} {e : CallEvent N ι}
  {es es' : List (CallEvent N ι)}

/-- Everything a step can do. -/
inductive Step (codec : Codec LogEntry String) (entriesCodec : Codec CounterLogEntries String)
    (logTrimApplicator : LogTrimEntry → Except String Unit) (s : CallingCluster N ι) :
    CallEvent N ι → CallingCluster N ι → Prop where
  | call (i : ι) (c : Waiter) (ops : List Operation) (sequencer : Log.SequencerImpl)
      (cluster : CounterCluster (sequencedLog N) ι) (hnone : s.calls (i, c) = none)
      (hposition : s.cluster.positions (i, c) = none)
      (hsequencer : s.cluster.virtualLog.sequencers 1 = some sequencer)
      (hstep : stepCluster codec entriesCodec logTrimApplicator s.cluster (.append ()
        (CounterAppStateMachine.logEntry entriesCodec (CounterApp.serialize ops))) = some cluster) :
      Step codec entriesCodec logTrimApplicator s (.call i c ops)
        { cluster, calls := Function.update s.calls (i, c) (some (sequencer.sequenceNum, ops)) }
  | returned (i : ι) (c : Waiter) (l : Int) (ops : List Operation)
      (cluster : CounterCluster (sequencedLog N) ι) (hcall : s.calls (i, c) = some (l, ops))
      (hstep : stepCluster codec entriesCodec logTrimApplicator s.cluster (.appended i c () l) =
        some cluster) :
      Step codec entriesCodec logTrimApplicator s (.returned i c) { s with cluster }
  | other (e : ClusterEvent (sequencedLog N) ι LogEntry)
      (cluster : CounterCluster (sequencedLog N) ι) (hadmits : s.admits e = true)
      (hstep : stepCluster codec entriesCodec logTrimApplicator s.cluster e = some cluster) :
      Step codec entriesCodec logTrimApplicator s (.other e) { s with cluster }

theorem step_spec (hs : s.step codec entriesCodec logTrimApplicator e = some s') :
    Step codec entriesCodec logTrimApplicator s e s' := by
  cases e with
  | call i c ops =>
    obtain ⟨⟨hnone, hposition⟩, hs⟩ := Option.ite_none_right_eq_some.mp hs
    obtain ⟨sequencer, hsequencer, hs⟩ := Option.bind_eq_some_iff.mp hs
    obtain ⟨cluster, hstep, hs⟩ := Option.bind_eq_some_iff.mp hs
    obtain rfl := Option.some.inj hs
    exact .call i c ops sequencer cluster hnone hposition hsequencer hstep
  | returned i c =>
    obtain ⟨⟨l, ops⟩, hcall, hs⟩ := Option.bind_eq_some_iff.mp hs
    obtain ⟨cluster, hstep, hs⟩ := Option.bind_eq_some_iff.mp hs
    obtain rfl := Option.some.inj hs
    exact .returned i c l ops cluster hcall hstep
  | other e =>
    obtain ⟨hadmits, hs⟩ := Option.ite_none_right_eq_some.mp hs
    obtain ⟨cluster, hstep, hs⟩ := Option.bind_eq_some_iff.mp hs
    obtain rfl := Option.some.inj hs
    exact .other e cluster hadmits hstep

/-! ## The nodes -/

/-- The cluster below is in order. -/
structure Sound (b : Log.Bootstrap) (hb : 1 ≤ b.config.startIndex) (codec : Codec LogEntry String)
    (entriesCodec : Codec CounterLogEntries String)
    (logTrimApplicator : LogTrimEntry → Except String Unit) (kvStore : ι → RocksStore String)
    (cluster : CounterCluster (sequencedLog N) ι) : Prop where
  applying : cluster.Applying (sequencedLog.appendOnly N b hb)
    (LogTrimStateMachine.apply entriesCodec logTrimApplicator) codec
    (fun i => freshApp (kvStore i)) (FromCounter entriesCodec)
  answered : ∀ i, (cluster.nodes i).Answered
    (LogTrimStateMachine.apply entriesCodec logTrimApplicator) (freshApp (kvStore i))
  positioned : cluster.Positioned

variable {hb : 1 ≤ b.config.startIndex} {cluster cluster' : CounterCluster (sequencedLog N) ι}
  {e' : ClusterEvent (sequencedLog N) ι LogEntry} {i : ι} {c : Waiter} {l : Int} {p : String}
  {ops : List Operation}

omit [DecidableEq ι] in
theorem start_sound :
    Sound b hb codec entriesCodec logTrimApplicator kvStore
      (start b kvStore : CallingCluster N ι).cluster where
  applying := Cluster.start_applying _
  answered _ := VirtualLogStateMachine.answered_make
  positioned := Cluster.start_positioned

theorem Sound.step (h : Sound b hb codec entriesCodec logTrimApplicator kvStore cluster)
    (hok : cluster.Appends (FromCounter entriesCodec) e')
    (hs : stepCluster codec entriesCodec logTrimApplicator cluster e' = some cluster') :
    Sound b hb codec entriesCodec logTrimApplicator kvStore cluster' where
  applying := h.applying.step hok hs
  answered i := Cluster.nodes_invariant (fun _ _ _ hm _ hmstep => hm.step hmstep)
    (Cluster.step_spec hs) (h.answered i)
  positioned := h.positioned.step hs

/-- An id that has an entry is below the next one of the sequencer. -/
theorem lt_next_of_assigned {virtualLog : Log.LogSystem N} {sequencer : Log.SequencerImpl}
    (hvalid : OneVersion b virtualLog) (hsequencer : virtualLog.sequencers 1 = some sequencer)
    (h : assignedEntries virtualLog l = some p) : l < sequencer.sequenceNum := by
  obtain ⟨call, hcall, -⟩ := assignedEntries_eq_some.mp h
  obtain ⟨sequencer', hsequencer', hlt⟩ := (hvalid.1.appends _ _ _ hcall).sequencer
  obtain rfl := Option.some.inj (hsequencer.symm.trans hsequencer')
  exact hlt

/-- No step but an append gives an id to an entry. -/
theorem assigned_of_step (hvalid : OneVersion b cluster.virtualLog) (hne : ∀ q t, e' ≠ .append q t)
    (hs : stepCluster codec entriesCodec logTrimApplicator cluster e' = some cluster') :
    assignedEntries cluster'.virtualLog = assignedEntries cluster.virtualLog := by
  cases Cluster.step_spec hs with
  | append q t virtualLog _ => exact absurd rfl (hne q t)
  | log e virtualLog hstep => exact assignedEntries_of_step hvalid hstep
  | sync i c q position _ _ _ => rfl
  | node i _ e m _ _ _ => rfl

/-- Nobody joins the callers of `append` but by hearing of an id. -/
theorem appends_of_step
    (hs : stepCluster codec entriesCodec logTrimApplicator cluster e' = some cluster')
    (h : (l, c) ∈ (cluster'.nodes i).appends) :
    (l, c) ∈ (cluster.nodes i).appends ∨ ∃ q, e' = .appended i c q l := by
  cases Cluster.step_spec hs with
  | append q entry virtualLog _ => exact .inl h
  | log e virtualLog _ => exact .inl h
  | sync j c' q position _ _ _ => exact .inl h
  | node j _ e m hhears _ hnode =>
    have hnodes : (cluster.setNode j m).nodes i = if i = j then m else cluster.nodes i :=
      Function.update_apply ..
    rw [hnodes] at h
    split at h
    · rename_i hij
      subst hij
      refine ((Cluster.records_of_step hnode).2 (l, c) h).imp_right fun he => ?_
      cases hhears with
      | appended c' q logId _ _ =>
        obtain ⟨rfl, rfl⟩ := Event.appended.inj he
        exact ⟨q, rfl⟩
      | _ => exact absurd he (by simp)
    · exact .inl h

/-- Nobody is told a position but by calling `sync`. -/
theorem positions_of_step
    (hs : stepCluster codec entriesCodec logTrimApplicator cluster e' = some cluster')
    (h : cluster.positions (i, c) = none) :
    cluster'.positions (i, c) = none ∨ ∃ q, e' = .sync i c q := by
  cases Cluster.step_spec hs with
  | append q entry virtualLog _ => exact .inl h
  | log e virtualLog _ => exact .inl h
  | node j _ e m _ _ _ => exact .inl h
  | sync j c' q position _ _ _ =>
    by_cases hk : (i, c) = (j, c')
    · obtain ⟨rfl, rfl⟩ := Prod.mk.inj hk
      exact .inr ⟨q, rfl⟩
    · refine .inl ?_
      show Function.update cluster.positions (j, c') (some position) (i, c) = none
      rw [Function.update_of_ne hk, h]

/-! ## The ids of the calls -/

/-- Each call has an id of its own, whose entry is the call's, there are no other entries, and a
node hears of a call's own id only. -/
structure Tied (codec : Codec LogEntry String) (entriesCodec : Codec CounterLogEntries String)
    (s : CallingCluster N ι) : Prop where
  entry : ∀ {k l ops}, s.calls k = some (l, ops) → assignedEntries s.cluster.virtualLog l =
    some (codec.serialize (CounterAppStateMachine.logEntry entriesCodec (CounterApp.serialize ops)))
  called : ∀ {l p}, assignedEntries s.cluster.virtualLog l = some p →
    ∃ k ops, s.calls k = some (l, ops)
  apart : ∀ {k k' l ops ops'}, s.calls k = some (l, ops) → s.calls k' = some (l, ops') → k = k'
  appends : ∀ {i l c}, (l, c) ∈ (s.cluster.nodes i).appends → ∃ ops, s.calls (i, c) = some (l, ops)
  positions : ∀ {i c call}, s.calls (i, c) = some call → s.cluster.positions (i, c) = none

omit [DecidableEq ι] in
theorem start_tied : (start b kvStore : CallingCluster N ι).Tied codec entriesCodec where
  entry h := nomatch h
  called h := nomatch h
  apart h := nomatch h
  appends h := absurd h List.not_mem_nil
  positions h := nomatch h

/-- A step of the nodes that is no call. -/
theorem Tied.stepCluster (h : s.Tied codec entriesCodec)
    (hvalid : OneVersion b s.cluster.virtualLog) (hne : ∀ q t, e' ≠ .append q t)
    (happended : ∀ {i c q l}, e' = .appended i c q l → ∃ ops, s.calls (i, c) = some (l, ops))
    (hsync : ∀ {i c q}, e' = .sync i c q → s.calls (i, c) = none)
    (hs : CallingCluster.stepCluster codec entriesCodec logTrimApplicator s.cluster e' =
      some cluster') : Tied codec entriesCodec { s with cluster := cluster' } where
  entry hk := (congrFun (assigned_of_step hvalid hne hs) _).trans (h.entry hk)
  called hp := h.called ((congrFun (assigned_of_step hvalid hne hs) _).symm.trans hp)
  apart := h.apart
  appends hc := by
    rcases appends_of_step hs hc with hold | ⟨q, he⟩
    · exact h.appends hold
    · exact happended he
  positions hk := by
    rcases positions_of_step hs (h.positions hk) with hold | ⟨q, he⟩
    · exact hold
    · exact absurd ((hsync he).symm.trans hk) (by simp)

/-- A call: the sequencer gives its entry the next id. -/
theorem Tied.call {sequencer : Log.SequencerImpl} (h : s.Tied codec entriesCodec)
    (hvalid : OneVersion b s.cluster.virtualLog) (hnone : s.calls (i, c) = none)
    (hposition : s.cluster.positions (i, c) = none)
    (hsequencer : s.cluster.virtualLog.sequencers 1 = some sequencer)
    (hs : CallingCluster.stepCluster codec entriesCodec logTrimApplicator s.cluster (.append ()
      (CounterAppStateMachine.logEntry entriesCodec (CounterApp.serialize ops))) = some cluster') :
    Tied codec entriesCodec
      { cluster := cluster',
        calls := Function.update s.calls (i, c) (some (sequencer.sequenceNum, ops)) } := by
  obtain ⟨virtualLog, happend, rfl⟩ := Option.map_eq_some_iff.mp hs
  have hentries := (append_takes_next hsequencer happend).2
  have hlt : ∀ {k l ops'}, s.calls k = some (l, ops') → l < sequencer.sequenceNum := fun hk =>
    lt_next_of_assigned hvalid hsequencer (h.entry hk)
  -- the new id is nobody else's
  have hcalls : ∀ {k call}, Function.update s.calls (i, c) (some (sequencer.sequenceNum, ops)) k =
      some call → k = (i, c) ∧ call = (sequencer.sequenceNum, ops) ∨
        s.calls k = some call ∧ call.1 < sequencer.sequenceNum := by
    intro k call hk
    rcases Parties.eq_some_of_update hk with hnew | ⟨-, hold⟩
    · exact .inl hnew
    · exact .inr ⟨hold, hlt hold⟩
  have hkept : ∀ {k call}, s.calls k = some call →
      Function.update s.calls (i, c) (some (sequencer.sequenceNum, ops)) k = some call :=
    Parties.update_eq_some hnone
  refine ⟨fun hk => ?_, fun {l p} hp => ?_, fun hk hk' => ?_, fun hc => ?_, fun hk => ?_⟩
  · show assignedEntries virtualLog _ = _
    rw [hentries]
    rcases hcalls hk with ⟨-, heq⟩ | ⟨hold, hlt⟩
    · obtain ⟨rfl, rfl⟩ := Prod.mk.inj heq
      exact Function.update_self ..
    · rw [Function.update_of_ne hlt.ne]
      exact h.entry hold
  · have hp' : assignedEntries virtualLog l = some p := hp
    rw [hentries] at hp'
    rcases Parties.eq_some_of_update hp' with ⟨rfl, -⟩ | ⟨-, hold⟩
    · exact ⟨(i, c), ops, Function.update_self ..⟩
    · obtain ⟨k, ops', hk⟩ := h.called hold
      exact ⟨k, ops', hkept hk⟩
  · rcases hcalls hk with ⟨rfl, heq⟩ | ⟨hold, hlt⟩
    · rcases hcalls hk' with ⟨rfl, -⟩ | ⟨-, hlt'⟩
      · rfl
      · exact absurd (Prod.mk.inj heq).1 hlt'.ne
    · rcases hcalls hk' with ⟨-, heq⟩ | ⟨hold', -⟩
      · exact absurd (Prod.mk.inj heq).1 hlt.ne
      · exact h.apart hold hold'
  · obtain ⟨ops', hold⟩ := h.appends hc
    exact ⟨ops', hkept hold⟩
  · rcases hcalls hk with ⟨heq, -⟩ | ⟨hold, -⟩
    · obtain ⟨rfl, rfl⟩ := Prod.mk.inj heq
      exact hposition
    · exact h.positions hold

/-- What every step keeps. -/
theorem step_kept (hsound : Sound b hb codec entriesCodec logTrimApplicator kvStore s.cluster)
    (htied : s.Tied codec entriesCodec)
    (hs : s.step codec entriesCodec logTrimApplicator e = some s') :
    Sound b hb codec entriesCodec logTrimApplicator kvStore s'.cluster ∧
      s'.Tied codec entriesCodec := by
  have hvalid : OneVersion b s.cluster.virtualLog := hsound.applying.log
  cases step_spec hs with
  | call i c ops sequencer cluster hnone hposition hsequencer hstep =>
    refine ⟨hsound.step ?_ hstep, htied.call hvalid hnone hposition hsequencer hstep⟩
    exact ⟨ops, rfl⟩
  | returned i c l ops cluster hcall hstep =>
    refine ⟨hsound.step ?_ hstep,
      htied.stepCluster hvalid (by simp) (fun he => ?_) (by simp) hstep⟩
    · trivial
    · obtain ⟨rfl, rfl, -, rfl⟩ := ClusterEvent.appended.inj he
      exact ⟨ops, hcall⟩
  | other e cluster hadmits hstep =>
    refine ⟨hsound.step ?_ hstep,
      htied.stepCluster hvalid (fun q t he => ?_) (fun he => ?_) (fun he => ?_) hstep⟩
    · cases e with
      | append q t => exact absurd hadmits (by simp [admits])
      | _ => trivial
    · subst he
      exact absurd hadmits (by simp [admits])
    · subst he
      exact absurd hadmits (by simp [admits])
    · subst he
      simpa [admits] using hadmits

theorem run_kept
    (hrun : Transition.run (step codec entriesCodec logTrimApplicator) (start b kvStore) es =
      some s) :
    Sound b hb codec entriesCodec logTrimApplicator kvStore s.cluster ∧
      s.Tied codec entriesCodec :=
  Transition.run_invariant
    (P := fun s : CallingCluster N ι =>
      Sound b hb codec entriesCodec logTrimApplicator kvStore s.cluster ∧ s.Tied codec entriesCodec)
    (fun _ _ _ h hs => step_kept h.1 h.2 hs) hrun ⟨start_sound, start_tied⟩

/-! ## Real time -/

/-- The calls of `before` are still there, and those that came later have ids behind theirs. -/
structure Follows (before s : CallingCluster N ι) : Prop where
  kept : ∀ {k call}, before.calls k = some call → s.calls k = some call
  behind : ∀ {k l ops k' l' ops'}, before.calls k = some (l, ops) → before.calls k' = none →
    s.calls k' = some (l', ops') → l < l'

omit [DecidableEq ι] in
theorem follows_self : Follows before before :=
  ⟨fun hk => hk, fun _ hnone hk' => absurd (hnone.symm.trans hk') (by simp)⟩

theorem Follows.step (h : Follows before s) (hvalid : OneVersion b s.cluster.virtualLog)
    (htied : s.Tied codec entriesCodec)
    (hs : s.step codec entriesCodec logTrimApplicator e = some s') : Follows before s' := by
  cases step_spec hs with
  | call i c ops sequencer cluster hnone _ hsequencer _ =>
    refine ⟨fun hk => Parties.update_eq_some hnone (h.kept hk),
      fun {k l ops k' l' ops'} hk hnone' hk' => ?_⟩
    rcases Parties.eq_some_of_update hk' with ⟨-, heq⟩ | ⟨-, hold⟩
    · obtain ⟨rfl, -⟩ := Prod.mk.inj heq
      exact lt_next_of_assigned hvalid hsequencer (htied.entry (h.kept hk))
    · exact h.behind hk hnone' hold
  | returned i c l ops cluster _ _ => exact ⟨h.kept, h.behind⟩
  | other e cluster _ _ => exact ⟨h.kept, h.behind⟩

/-! ## Answers -/

/-- The calls with the ids 1, 2, … are of these operations. -/
def Sequence (s : CallingCluster N ι) (batches : List (List Operation)) : Prop :=
  ∀ (j : Nat) ops, batches[j]? = some ops → ∃ k, s.calls k = some ((j : Int) + 1, ops)

omit [DecidableEq ι] in
/-- The log is made of the calls. -/
theorem Tied.sequence_iff (h : s.Tied codec entriesCodec) {batches : List (List Operation)} :
    s.Sequence batches ↔ BeginsWith (sequencedLog.appendOnly N b hb) codec entriesCodec
      s.cluster.virtualLog batches := by
  have hentry : ∀ {l t}, (sequencedLog.appendOnly N b hb).entry codec s.cluster.virtualLog l =
      some t ↔ ∃ p, assignedEntries s.cluster.virtualLog l = some p ∧ codec.parse p = some t :=
    Option.bind_eq_some_iff
  constructor
  · intro hsequence j ops hops
    obtain ⟨k, hk⟩ := hsequence j ops hops
    exact hentry.mpr ⟨_, h.entry hk, codec.parse_serialize _⟩
  · intro hbegins j ops hops
    obtain ⟨p, hp, hparse⟩ := hentry.mp (hbegins j ops hops)
    obtain ⟨k, ops', hk⟩ := h.called hp
    obtain rfl := Option.some.inj (hp.symm.trans (h.entry hk))
    rw [codec.parse_serialize] at hparse
    exact ⟨k, operations_of_logEntry (Option.some.inj hparse) ▸ hk⟩

/-- Two counter nodes over the log of `makeVirtualLog`. -/
def twoCallers : CallingCluster 3 (Fin 2) := start Log.LogSystem.makeVirtualLog fun _ => newStore

def twoCallersStep : CallingCluster 3 (Fin 2) → CallEvent 3 (Fin 2) →
    Option (CallingCluster 3 (Fin 2)) :=
  step (wireCodec _) (wireCodec _) fun _ => .ok ()

/-- The entry of id `l` is stored on two replicas and acknowledged. -/
def storeEntry (l : Int) : List (CallEvent 3 (Fin 2)) :=
  let request (r : Fin 3) : Log.Request 3 :=
    ⟨r, .sequencer, some 1, 1, l, (wireCodec LogEntry).serialize oneIncrementEntry⟩
  [.send l, .send l, .send l, .arrive (request 0), .execute (request 0), .arrive (request 1),
    .execute (request 1), .receive ⟨0, .sequencer, 1, l, .ok ()⟩,
    .receive ⟨1, .sequencer, 1, l, .ok ()⟩, .acknowledge l].map (.other ∘ .log)

/-- Node `i` applies the entry of id `l`. Its first read of it fails. -/
def applyEntry (i : Fin 2) (c : Log.CallId) (l : Int) : List (CallEvent 3 (Fin 2)) :=
  [.enqueue i, .log (.getLogEntry c l), .log (.failProbe c), .log (.probe c), .fetched i l (some c),
    .consume i, .apply i].map .other

/-- Node 0 increments `k` by 5 and is answered. -/
def firstIncrement : List (CallEvent 3 (Fin 2)) :=
  [.call 0 0 [.incr "k" 5]] ++ storeEntry 1 ++ [.returned 0 0, .other (.wake 0)] ++ applyEntry 0 0 1

/-- Then node 1 does the same. -/
def secondIncrement : List (CallEvent 3 (Fin 2)) :=
  [.call 1 0 [.incr "k" 5]] ++ storeEntry 2 ++ [.returned 1 0, .other (.wake 1)] ++
    applyEntry 1 1 1 ++ applyEntry 1 2 2

end CallingCluster

end ReplicatedCounter.Counter
