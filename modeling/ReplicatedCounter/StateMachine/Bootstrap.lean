import ReplicatedCounter.Log.Guarantees
import ReplicatedCounter.StateMachine.Application

/-!
# From the first log id on

A log server starts with an empty metadata store and installs its first version by `reconfigure`.
The default configuration of version 0 says `start_index = 0`, a nanolog of version 0 starts there,
`seal` returns it, and so version 1 starts at 0: **the first id its sequencer hands out is 0**. A
state machine that is built with its defaults has `lastFetchId_ = 0` and fetches `1` first. Nothing
fetches 0, and nothing applies it, though `lastAppliedLogId_` says 0 from the beginning.

It is the only id that is lost so. Ids are never negative (`startOf_nonneg`), and from 1 on the
producer enqueues every id (`VirtualLogStateMachine.enqueues`).
-/

set_option autoImplicit false

namespace ReplicatedCounter.Log

/-- `SequencerImpl::latestAppendPosition`. -/
def SequencerImpl.latestAppendPosition (sequencer : SequencerImpl) : Int :=
  sequencer.sequenceNum - 1

namespace LogSystem

open Metadata InMemoryMetadataStore

variable {N : Nat} {s s' : LogSystem N} {v a l : Int} {e : LogEvent N} {es : List (LogEvent N)}

/-- The append of the sequencer of version `v` that was given `l` has returned it. -/
def isAcknowledged (s : LogSystem N) (v l : Int) : Bool :=
  match s.appends (v, l) with
  | some call => call.acknowledged
  | none => false

/-- What a call of `getLogEntry(l)` has returned. -/
def readResult (s : LogSystem N) (c : CallId) (l : Int) : Option String := do
  let read ← s.reads c
  if read.logId = l then
    read.result.map (·.payload)
  else
    none

theorem acknowledged_of_isAcknowledged (h : s.isAcknowledged v l = true) :
    ∃ p, s.Acknowledged v l p := by
  unfold isAcknowledged at h
  split at h
  · rename_i call hcall
    exact ⟨call.payload, call, hcall, rfl, h⟩
  · exact absurd h (by simp)

/-- Versions that came from an empty store start at 0 or above. -/
def StartsNonneg (s : LogSystem N) : Prop :=
  ∀ v a, s.metadataStore.startOf v = some a → 0 ≤ a

theorem StartsNonneg.started (h : s.StartsNonneg) (hv : s.Started v a) : 0 ≤ a := by
  unfold Started getConfig at hv
  split at hv
  · rw [← Option.some.inj hv]
  · exact h v a hv

theorem StartsNonneg.step (hvalid : s.Valid (firstVersionEnd none)) (h : s.StartsNonneg)
    (hs : s.step e = some s') : s'.StartsNonneg := by
  intro v a hv
  rcases startOf_of_effect (step_effect hvalid hs) hv with hold | ⟨t, task, ht, hphase, -, rfl⟩
  · exact h v a hold
  · obtain ⟨a', ha'⟩ := hvalid.reconfigures t task ht
    have hprogress := ha'.progress
    unfold Progress at hprogress
    rw [hphase] at hprogress
    exact (h.started ha'.started).trans (ha'.start_le hprogress.1)

theorem run_startsNonneg (h : Transition.run step (initial N none) es = some s) :
    s.Valid (firstVersionEnd none) ∧ s.StartsNonneg := by
  refine Transition.run_invariant
    (P := fun s => s.Valid (firstVersionEnd none) ∧ s.StartsNonneg) ?_ h
    ⟨initial_valid none, fun v a hv => ?_⟩
  · rintro s e s' ⟨hvalid, hstarts⟩ hs
    exact ⟨hvalid.of_changes (step_changes hvalid hs), hstarts.step hvalid hs⟩
  · exact absurd hv (by simp [initial, InMemoryMetadataStore.startOf])

theorem nonneg_of_acknowledged (h : Transition.run step (initial N none) es = some s)
    (hack : s.isAcknowledged v l = true) : 0 ≤ l := by
  obtain ⟨hvalid, hstarts⟩ := run_startsNonneg h
  obtain ⟨p, call, hcall, -, -⟩ := acknowledged_of_isAcknowledged hack
  obtain ⟨a, ha, hal⟩ := (hvalid.appends v l call hcall).start_le
  exact (hstarts v a ha).trans hal

end LogSystem

end ReplicatedCounter.Log

namespace ReplicatedCounter.StateMachine

open Log

variable {N : Nat} {ι υ T R : Type} [DecidableEq ι] {up : υ → T → υ × Except String R}
  {codec : Codec T String}

/-- `VirtualLogImpl` over the whole log. The sequencer is named by its version; the other clients of
the log are among its events. -/
@[reducible] def virtualLogImpl (N : Nat) : VirtualLog where
  State := LogSystem N
  Sequencer := Int
  Call := CallId
  Event := LogEvent N
  append s v payload := s.append v payload
  step s e := s.step e
  acknowledged s v l := s.isAcknowledged v l
  getLogEntry s c l := s.readResult c l
  sync s v := (s.sequencers v).map (·.latestAppendPosition)

/-! ## The producer -/

namespace VirtualLogStateMachine

variable {m m' : VirtualLogStateMachine υ T R} {l : Int}

/-- The producer loop, by itself, comes to fetch `l`. -/
def Enqueues (up : υ → T → υ × Except String R) (m : VirtualLogStateMachine υ T R) (l : Int) :
    Prop :=
  ∃ es m', (∀ e ∈ es, e = .wake ∨ e = .enqueue) ∧ Transition.run (step up) m es = some m' ∧
    l ∈ m'.requested

theorem Enqueues.cons {e : Event T} (he : e = .wake ∨ e = .enqueue) (hs : m.step up e = some m')
    (h : m'.Enqueues up l) : m.Enqueues up l := by
  obtain ⟨es, m'', hes, hrun, hl⟩ := h
  exact ⟨e :: es, m'', List.forall_mem_cons.mpr ⟨he, hes⟩,
    Transition.run_cons_eq_some.mpr ⟨m', hs, hrun⟩, hl⟩

theorem Ordered.mem_requested (h : m.Ordered) : l ∈ m.requested ↔ 0 < l ∧ l ≤ m.lastFetchId := by
  obtain ⟨k, j, h⟩ := h
  rw [h.requested, Int.mem_range_iff]
  omega

theorem wake_eq_some (up : υ → T → υ × Except String R) (halive : m.aborted = false)
    (hdone : m.upTo ≤ m.lastFetchId) (hlt : m.upTo < m.targetLogId) :
    m.step up .wake = some { m with upTo := m.targetLogId } := by
  unfold step wake
  rw [halive]
  exact if_pos (And.intro hdone hlt)

theorem enqueue_eq_some (up : υ → T → υ × Except String R) (halive : m.aborted = false)
    (hle : m.lastFetchId + 1 ≤ m.upTo) :
    m.step up .enqueue = some { m with
      list := m.list ++ [(m.lastFetchId + 1, .pending)]
      lastFetchId := m.lastFetchId + 1
      requested := m.requested ++ [m.lastFetchId + 1] } := by
  unfold step enqueue
  rw [halive]
  exact if_pos hle

/-- **Once the target has reached an id, the producer enqueues it.** -/
theorem enqueues (h : m.Ordered) (halive : m.aborted = false) (hpos : 0 < l)
    (hle : l ≤ m.targetLogId) : m.Enqueues up l := by
  -- by induction on how far the loop is from `l`; it wakes up at most once on the way
  induction hn : (l - m.lastFetchId).toNat generalizing m with
  | zero =>
    exact ⟨[], m, fun _ he => absurd he List.not_mem_nil, rfl,
      h.mem_requested.mpr ⟨hpos, by omega⟩⟩
  | succ n ih =>
    have hround : ∀ {m : VirtualLogStateMachine υ T R}, m.Ordered → m.aborted = false →
        l ≤ m.targetLogId → (l - m.lastFetchId).toNat = n + 1 → m.lastFetchId + 1 ≤ m.upTo →
        m.Enqueues up l := by
      intro m h halive hle hn hnext
      have hs := enqueue_eq_some up halive hnext
      exact .cons (.inr rfl) hs
        (ih (h.step halive (step_spec hs).2) halive hle (by dsimp only; omega))
    by_cases hnext : m.lastFetchId + 1 ≤ m.upTo
    · exact hround h halive hle hn hnext
    · have hs := wake_eq_some up halive (by omega) (by omega)
      exact .cons (.inl rfl) hs
        (hround (h.step halive (step_spec hs).2) halive hle hn (by dsimp only; omega))

/-- Id 0 never is. -/
theorem not_enqueues_zero (h : m.Ordered) : ¬ m.Enqueues up 0 := by
  rintro ⟨es, m', -, hrun, hmem⟩
  have hordered : m'.Ordered := Transition.run_invariant
    (fun m e m' hm hs => hm.step (step_spec hs).1 (step_spec hs).2) hrun h
  exact absurd (hordered.mem_requested.mp hmem).1 (lt_irrefl _)

end VirtualLogStateMachine

/-! ## Acknowledged ids -/

namespace Cluster

variable {s₀ : LogSystem N} {u₀ : ι → υ} {s s' : Cluster (virtualLogImpl N) ι υ T R}
  {es : List (ClusterEvent (virtualLogImpl N) ι T)}

/-- The log of a cluster runs like a log. -/
theorem run_virtualLog (h : Transition.run (step up codec) (start s₀ u₀) es = some s) :
    ∃ les, Transition.run LogSystem.step s₀ les = some s.virtualLog := by
  refine Transition.run_invariant
    (P := fun s => ∃ les, Transition.run LogSystem.step s₀ les = some s.virtualLog) ?_ h
    ⟨[], rfl⟩
  rintro s e s' ⟨les, hles⟩ hs
  cases step_spec hs with
  | append v t virtualLog happend =>
    have hstep : LogSystem.step s.virtualLog (.append v (codec.serialize t)) = some virtualLog :=
      happend
    exact ⟨_, Transition.run_concat hles hstep⟩
  | log e virtualLog hlog =>
    have hstep : LogSystem.step s.virtualLog e = some virtualLog := hlog
    exact ⟨_, Transition.run_concat hles hstep⟩
  | sync i c q position _ _ _ => exact ⟨les, hles⟩
  | node i _ e' m _ _ _ => exact ⟨les, hles⟩

theorem run_ordered {log : VirtualLog} {s₀ : log.State} {s : Cluster log ι υ T R}
    {es : List (ClusterEvent log ι T)}
    (h : Transition.run (step up codec) (start s₀ u₀) es = some s) (i : ι) :
    (s.nodes i).Ordered :=
  Transition.run_invariant (P := fun s => (s.nodes i).Ordered)
    (fun _ _ _ hs hstep =>
      nodes_invariant (fun _ _ _ hm halive hnode => hm.step halive hnode) (step_spec hstep) hs)
    h (VirtualLogStateMachine.ordered_make _)

/-- **Exactly id 0 is skipped.** In every run from an empty store, an acknowledged id `l` is one
that the producer of a node (whose process lives) enqueues once its target is there, and that has
been applied wherever `lastAppliedLogId_` is at `l` or above, if and only if `l` is not 0. -/
theorem acknowledged_enqueued
    (h : Transition.run (step up codec) (start (LogSystem.initial N none) u₀) es = some s)
    {v l : Int} (hack : (virtualLogImpl N).acknowledged s.virtualLog v l = true) (i : ι) :
    (((s.nodes i).aborted = false → l ≤ (s.nodes i).targetLogId → (s.nodes i).Enqueues up l) ∧
      (l ≤ (s.nodes i).lastAppliedLogId → ∃ a ∈ (s.nodes i).applied, a.logId = l)) ↔ l ≠ 0 := by
  have hordered := run_ordered h i
  obtain ⟨les, hles⟩ := run_virtualLog h
  have hnonneg := LogSystem.nonneg_of_acknowledged hles hack
  constructor
  · rintro ⟨-, happlied⟩ rfl
    obtain ⟨k, j, hcuts⟩ := id hordered
    obtain ⟨a, ha, hzero⟩ := happlied hcuts.nonneg
    exact absurd (hordered.pos_of_applied ha) (not_lt.mpr hzero.le)
  · intro hne
    have hpos : 0 < l := lt_of_le_of_ne hnonneg hne.symm
    exact ⟨fun halive hle => VirtualLogStateMachine.enqueues hordered halive hpos hle,
      fun hle => hordered.mem_applied hpos hle⟩

/-- Version 1 is installed by `reconfigure`; ids 0 and 1 are appended and acknowledged. -/
def bootstrapped : List (LogEvent 3) :=
  [.reconfigure 0 {} LogSystem.replicas01, .sealNext 0, .sealNext 0, .install 0] ++
  LogSystem.appended3 1 0 "a" ++ LogSystem.handle (LogSystem.fromSequencer 0 0 1 0 "a") ++
  LogSystem.handle (LogSystem.fromSequencer 1 0 1 0 "a") ++ LogSystem.acknowledged 0 1 1 0 ++
  LogSystem.appended3 1 1 "b" ++ LogSystem.handle (LogSystem.fromSequencer 0 0 1 1 "b") ++
  LogSystem.handle (LogSystem.fromSequencer 1 0 1 1 "b") ++ LogSystem.acknowledged 0 1 1 1

/-- Node 0 is told about id 1, fetches it and applies it. -/
def firstApplied : List (ClusterEvent (virtualLogImpl 3) (Fin 2) String) :=
  bootstrapped.map (fun e => .log e) ++ [.appended 0 0 1 1, .wake 0, .enqueue 0,
    .log (.getLogEntry 0 1),
    .log (.probe 0), .fetched 0 1 (some 0), .consume 0, .apply 0]

/-- Two machines that count, over three replicas and an empty metadata store. -/
def bootCluster : Cluster (virtualLogImpl 3) (Fin 2) Nat String Nat :=
  start (LogSystem.initial 3 none) fun _ => 0

/-- Id 1 is applied. -/
theorem acknowledged_enqueued_first_applied :
    ∃ s, Transition.run (step count (Codec.identity String)) bootCluster firstApplied = some s ∧
      (virtualLogImpl 3).acknowledged s.virtualLog (1 : Int) 1 = true ∧
      ((1 : Int) ≤ (s.nodes 0).lastAppliedLogId → ∃ a ∈ (s.nodes 0).applied, a.logId = 1) := by
  have h : ∀ s, Transition.run (step count (Codec.identity String)) bootCluster firstApplied =
      some s → (virtualLogImpl 3).acknowledged s.virtualLog (1 : Int) 1 = true →
      ((1 : Int) ≤ (s.nodes 0).lastAppliedLogId → ∃ a ∈ (s.nodes 0).applied, a.logId = 1) :=
    fun s hs hack => ((acknowledged_enqueued hs hack 0).mpr (by decide)).2
  exact ⟨_, rfl, rfl, h _ rfl rfl⟩

/-- Id 0 has been acknowledged and `lastAppliedLogId_` is above it, and it has not been applied. -/
theorem skipped_first_applied :
    ∃ s, Transition.run (step count (Codec.identity String)) bootCluster firstApplied = some s ∧
      (virtualLogImpl 3).acknowledged s.virtualLog (1 : Int) 0 = true ∧
      (s.nodes 0).lastAppliedLogId = 1 ∧ (s.nodes 0).applied.map (·.logId) = [1] ∧
      ¬ (s.nodes 0).Enqueues count 0 := by
  have hzero : ∀ s, Transition.run (step count (Codec.identity String)) bootCluster firstApplied =
      some s → ¬ (s.nodes 0).Enqueues count 0 :=
    fun s hs => VirtualLogStateMachine.not_enqueues_zero (run_ordered hs 0)
  exact ⟨_, rfl, rfl, rfl, rfl, hzero _ rfl⟩

end Cluster

end ReplicatedCounter.StateMachine
