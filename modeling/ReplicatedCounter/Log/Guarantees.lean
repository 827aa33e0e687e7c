import ReplicatedCounter.Log.Effects

/-!
# What the commit index, a seal and a reconfiguration guarantee

Two results about every run, each a consequence of the invariant.

* `replicated_below_globalCommitIndex`: a replica may skip its holes up to the commit index it is
  sent, because everything below it is on a quorum.
* `reconfigure_complete`: a reconfiguration finds every entry it has to copy, ends above everything
  acknowledged before it began to seal, and installs the next version only when the old one is
  complete.

Neither says that an append is *refused* after a seal: what had passed the seal check of some
replica before may still be acknowledged later. What a sealed majority does keep out is the subject
of `ReplicatedCounter.Log.SealedMajority`, and what all that does to the log that of
`ReplicatedCounter.Log.Durability`.
-/

set_option autoImplicit false

namespace ReplicatedCounter.Log.LogSystem

open Metadata InMemoryMetadataStore

variable {N : Nat} {s s' : LogSystem N} {firstEnd v l j a : Int} {p : String} {r : Fin N}
  {b : Option Bootstrap} {e : LogEvent N} {es es' : List (LogEvent N)} {t : CallId}
  {task : Reconfigure N}

/-! ## Three replicas, to run the results on -/

/-- The first configuration of `makeVirtualLog`. -/
def makeVirtualLog : Bootstrap where
  config := { versionId := 1, previousVersionId := 0, startIndex := 1, endIndex := 1000 }
  versionId_eq := rfl
  previousVersionId_eq := rfl
  lowest_le := by decide
  le_highest := by decide
  endIndex_le := by decide

/-- The sequencer's request to a replica. -/
def fromSequencer (r : Fin 3) (commit v l : Int) (p : String) : Request 3 :=
  ⟨r, .sequencer, some commit, v, l, p⟩

/-- An append that is sent to all three replicas. -/
def appended3 (v l : Int) (p : String) : List (LogEvent 3) :=
  [.append v p, .send v l, .send v l, .send v l]

/-- A replica handles a request. -/
def handle (m : Request 3) : List (LogEvent 3) := [.arrive m, .execute m]

/-- The answers of two replicas reach the sequencer, and it acknowledges. -/
def acknowledged (r r' : Fin 3) (v l : Int) : List (LogEvent 3) :=
  [.receive ⟨r, .sequencer, v, l, .ok ()⟩, .receive ⟨r', .sequencer, v, l, .ok ()⟩,
    .acknowledge v l]

/-! ## The commit index -/

/-- **Everything below the commit index is on a quorum**, with the payload the sequencer assigned
to it, from the id the sequencer was started with. -/
theorem replicated_below_globalCommitIndex
    (h : Transition.run step (initial N b) es = some s) {sequencer : SequencerImpl}
    (hseq : s.sequencers v = some sequencer) {seed : Int} (hseed : s.Started v seed)
    (hj : seed ≤ j) (hj' : j < sequencer.globalCommitIndex) :
    ∃ p, s.Assigned v j p ∧ SequencerImpl.quorumSize N ≤
      (Finset.univ.filter fun r => s.entry r v j = some p).card := by
  have hvalid := run_valid h
  obtain ⟨a, ha⟩ := hvalid.sequencers v sequencer hseq
  obtain rfl := (Started.of_startOf hvalid ha.startOf).unique hseed
  exact ha.covered j hj hj'

/-- Replica 2 misses ids 1 and 2. It holds id 3 back until a request with commit index 3 comes, and
then acknowledges ids 3 and 4. -/
def skippedHoles : List (LogEvent 3) :=
  appended3 1 1 "a" ++ appended3 1 2 "b" ++ appended3 1 3 "c" ++
  handle (fromSequencer 0 1 1 1 "a") ++ handle (fromSequencer 1 1 1 1 "a") ++
  handle (fromSequencer 0 1 1 2 "b") ++ handle (fromSequencer 1 1 1 2 "b") ++
  handle (fromSequencer 0 1 1 3 "c") ++ handle (fromSequencer 1 1 1 3 "c") ++
  handle (fromSequencer 2 1 1 3 "c") ++
  acknowledged 0 1 1 3 ++ appended3 1 4 "d" ++
  handle (fromSequencer 2 3 1 4 "d") ++ handle (fromSequencer 0 3 1 4 "d") ++
  acknowledged 0 2 1 4

theorem replicated_below_globalCommitIndex_skipped_holes :
    ∃ s sequencer, Transition.run step (initial 3 (some makeVirtualLog)) skippedHoles = some s ∧
      s.sequencers 1 = some sequencer ∧ sequencer.globalCommitIndex = 4 ∧
      s.entry 2 1 2 = none ∧ ∃ p, s.Assigned 1 2 p ∧ SequencerImpl.quorumSize 3 ≤
        (Finset.univ.filter fun r => s.entry r 1 2 = some p).card := by
  have h : ∀ s sequencer, Transition.run step (initial 3 (some makeVirtualLog)) skippedHoles =
      some s → s.sequencers 1 = some sequencer → s.Started 1 1 →
      2 < sequencer.globalCommitIndex → _ :=
    fun s sequencer hrun hseq hseed hlt =>
      replicated_below_globalCommitIndex hrun hseq hseed (j := 2) (by decide) hlt
  exact ⟨_, _, rfl, rfl, rfl, rfl, h _ _ rfl rfl rfl (by decide)⟩

/-! ## Acknowledgements and seals -/

/-- **An acknowledgement rests on a majority that fulfilled the promise.** -/
theorem Valid.majority_of_acknowledged (h : s.Valid firstEnd) (hack : s.Acknowledged v l p) :
    ∃ Q : Finset (Fin N), Voting.Majority Q ∧
      ∀ r ∈ Q, .completed .sequencer r v l ∈ s.trace := by
  obtain ⟨call, hcall, -, hack⟩ := hack
  have hok := h.appends v l call hcall
  exact ⟨_, quorum_majority (AnyNSuccessful.card_of_promise (hok.acknowledged hack)),
    fun r hr => hok.results r (Finset.mem_filter.mp hr).2⟩

theorem Grows.isSealed (g : s.Grows s') (h : (s.replicas r).isSealed v = true) :
    (s'.replicas r).isSealed v = true := by
  unfold ReplicaImpl.isSealed at h ⊢
  cases hnl : (s.replicas r).nanoLogStore v with
  | none =>
    rw [hnl] at h
    exact absurd h (by simp)
  | some nl =>
    rw [hnl] at h
    obtain ⟨nl', hnl', hext⟩ := g.nanoLog hnl
    unfold nanoLog? at hnl'
    rw [hnl']
    exact hext.sealed h

/-! ## A reconfiguration -/

/-- At the replicas a call has sealed, everything that satisfies `C` lies below its `maxLogId`. -/
def Bounded (s : LogSystem N) (C : Fin N → Int → Int → Prop) (t : CallId) : Prop :=
  ∀ task, s.reconfigures t = some task → ∀ r, task.HasSealed r → ∀ l, C r task.versionId l →
    l < task.maxLogId

/-- **Sealing a replica puts the bound above what the replica has moved past.** -/
theorem Bounded.step {C : Fin N → Int → Int → Prop} (h : s.Valid firstEnd)
    (hC : ∀ r v l, C r v l → .completed .sequencer r v l ∈ s.trace)
    (hb : s.Bounded C t) (hs : s.step e = some s') : s'.Bounded C t := by
  intro task' ht r hr l hl
  rcases reconfigure_of_effect (step_effect h hs) ht with ⟨task, htask, hsame⟩ | ⟨-, hsealed⟩ |
    ⟨task, r', remaining, nl, htask, htoSeal, hnl, hsame⟩
  · rw [hsame.versionId] at hl
    rw [hsame.maxLogId]
    exact hb task htask r (hsame.hasSealed hr) l hl
  · exact absurd hr.1 (hsealed ▸ hr.2)
  · obtain ⟨a, ha⟩ := h.reconfigures t task htask
    rw [hsame.versionId] at hl
    rw [hsame.maxLogId]
    rcases (hasSealed_collect ha.suffix htoSeal _ r).mp (hsame.hasSealed hr) with rfl | hold
    · -- the promise was fulfilled before, so the index `seal` returned is above it
      obtain ⟨nl₀, hnl₀, -, hlt⟩ := CompletedOk.nanoLog (h.trace _ (hC _ _ _ hl))
      obtain ⟨nl', hnl', hext⟩ := (step_changes h hs).grows.nanoLog hnl₀
      obtain rfl : nl = nl' := Option.some.inj (hnl.symm.trans hnl')
      exact (hlt.trans_le hext.index_le).trans_le (le_max_right ..)
    · exact (hb task htask r hold l hl).trans_le (le_max_left ..)

/-- The replicas a call chooses to seal are a majority. -/
theorem majority_toFinset (M : MajoritySet N) : Voting.Majority M.replicas.toFinset := by
  refine quorum_majority ?_
  rw [List.toFinset_card_of_nodup M.nodup, M.length_eq]
  exact le_refl _

/-- **A bound on what is acknowledged**: a majority fulfilled the promise, a majority was sealed. -/
theorem Bounded.lt_of_majority {C : Fin N → Int → Int → Prop} (hb : s.Bounded C t)
    (ht : s.reconfigures t = some task) (hsealed : task.toSeal = []) {Q : Finset (Fin N)}
    (hQ : Voting.Majority Q) (hC : ∀ r ∈ Q, C r task.versionId l) : l < task.maxLogId := by
  obtain ⟨r, hrQ, hrM⟩ := hQ.inter (majority_toFinset task.replicaSet)
  exact hb task ht r ⟨List.mem_toFinset.mp hrM, by simp [hsealed]⟩ l (hC r hrQ)

/-- What is acknowledged before a call seals its first replica lies below its `maxLogId`. -/
theorem acknowledged_lt_maxLogId (h : s.Valid firstEnd)
    (hunsealed : ∀ task₀, s.reconfigures t = some task₀ →
      task₀.toSeal = task₀.replicaSet.replicas)
    (h' : Transition.run step s es = some s') (ht : s'.reconfigures t = some task)
    (hsealed : task.toSeal = []) (hack : s.Acknowledged task.versionId l p) :
    l < task.maxLogId := by
  have hinv : (s.Grows s' ∧ s'.Valid firstEnd) ∧
      s'.Bounded (fun r v l => .completed .sequencer r v l ∈ s.trace) t := by
    refine Transition.run_invariant (P := fun u => (s.Grows u ∧ u.Valid firstEnd) ∧
      u.Bounded (fun r v l => .completed .sequencer r v l ∈ s.trace) t) ?_ h' ⟨⟨.refl s, h⟩, ?_⟩
    · rintro u e u' ⟨⟨hg, hvalid⟩, hb⟩ hs
      have hchanges := step_changes hvalid hs
      exact ⟨⟨hg.trans hchanges.grows, hvalid.of_changes hchanges⟩,
        hb.step hvalid (fun _ _ _ hl => hg.trace hl) hs⟩
    · intro task₀ ht₀ r hr
      exact absurd hr.1 (hunsealed task₀ ht₀ ▸ hr.2)
  obtain ⟨Q, hQ, hdone⟩ := h.majority_of_acknowledged hack
  exact hinv.2.lt_of_majority ht hsealed hQ hdone

/-- **Re-replication is complete.** For a call that has sealed its majority: every id between its
bounds can be read from one of the replicas it sealed; whatever was acknowledged before its first
seal lies below `maxLogId`; and when it is about to install the next version, every id of the old
one below `maxLogId` is stored on a quorum with the payload it was assigned. -/
theorem reconfigure_complete (h : Transition.run step (initial N b) es = some s)
    (ht : s.reconfigures t = some task) (hsealed : task.toSeal = [])
    (ha : s.Started task.versionId a) :
    (∀ l, task.minLogId ≤ l → l < task.maxLogId →
      ∃ r ∈ task.replicaSet.replicas, ∃ p,
        (s.replicas r).getLogEntry task.versionId l = .ok ⟨l, p⟩) ∧
    (∀ es₀ es₁ s₀, es = es₀ ++ es₁ → Transition.run step (initial N b) es₀ = some s₀ →
      (∀ task₀, s₀.reconfigures t = some task₀ → task₀.toSeal = task₀.replicaSet.replicas) →
      ∀ l p, s₀.Acknowledged task.versionId l p → l < task.maxLogId) ∧
    (task.phase = .installing → ∀ l, a ≤ l → l < task.maxLogId →
      ∃ p, s.Assigned task.versionId l p ∧ s.OnQuorum task.versionId l p) := by
  have hvalid := run_valid h
  obtain ⟨a', ha'⟩ := hvalid.reconfigures t task ht
  obtain rfl := ha'.started.unique ha
  refine ⟨fun l hl hl' => ?_, fun es₀ es₁ s₀ hes h₀ hunsealed l p hack => ?_, fun hphase => ?_⟩
  · have hrange : ∃ r ∈ task.replicaSet.replicas, ∃ p, s.entry r task.versionId l = some p := by
      rcases ha'.max_attained with hlowest | ⟨r, nl, hr, hnl, hle⟩
      · have hlow : lowestNonExistingLogId ≤ a' := (hvalid.started_bounded ha).1
        have := ha'.start_le_min
        omega
      · rcases hvalid.stored_or_replicated hnl ha (ha'.start_le_min.trans hl)
          (hl'.trans_le hle) with hp | ⟨p, -, hquorum⟩
        · exact ⟨r, hr.1, hp⟩
        · obtain ⟨r', hr', hrM⟩ := (quorum_majority hquorum).inter
            (majority_toFinset task.replicaSet)
          exact ⟨r', List.mem_toFinset.mp hrM, p, (Finset.mem_filter.mp hr').2⟩
    obtain ⟨r, hr, p, hp⟩ := hrange
    exact ⟨r, hr, p, getLogEntry_of_entry hp⟩
  · obtain ⟨s₁, h₁, h₂⟩ := Transition.run_append_eq_some.mp (hes ▸ h)
    obtain rfl : s₀ = s₁ := Option.some.inj (h₀.symm.trans h₁)
    exact acknowledged_lt_maxLogId (run_valid h₀) hunsealed h₂ ht hsealed hack
  · have hprogress := ha'.progress
    unfold Progress at hprogress
    rw [hphase] at hprogress
    exact hprogress.2

/-- A reconfiguration's request to a replica. -/
def fromReconfigure (r : Fin 3) (t : CallId) (v l : Int) (p : String) : Request 3 :=
  ⟨r, .reconfigure t, none, v, l, p⟩

/-- A replica's answer to a reconfiguration. -/
def toReconfigure (r : Fin 3) (t : CallId) (v l : Int) : LogEvent 3 :=
  .receive ⟨r, .reconfigure t, v, l, .ok ()⟩

/-- The majority of replicas 0 and 1. -/
def replicas01 : MajoritySet 3 := ⟨[0, 1], by decide, by decide⟩

/-- Id 1 is acknowledged, id 2 is on replica 0 only. -/
def unevenReplicas : List (LogEvent 3) :=
  appended3 1 1 "a" ++ appended3 1 2 "b" ++
  handle (fromSequencer 0 1 1 1 "a") ++ handle (fromSequencer 1 1 1 1 "a") ++
  acknowledged 0 1 1 1 ++ handle (fromSequencer 0 1 1 2 "b")

/-- Replicas 0 and 1 are sealed at 3 and 2, and id 2 is copied. -/
def evenedOut : List (LogEvent 3) :=
  [.reconfigure 0 {} replicas01, .sealNext 0, .sealNext 0, .readEntry 0 0] ++
  handle (fromReconfigure 0 0 1 2 "b") ++ handle (fromReconfigure 1 0 1 2 "b") ++
  [toReconfigure 0 0 1 2, toReconfigure 1 0 1 2]

theorem reconfigure_complete_uneven_replicas :
    ∃ s task, Transition.run step (initial 3 (some makeVirtualLog)) (unevenReplicas ++ evenedOut) =
        some s ∧ s.reconfigures 0 = some task ∧ task.minLogId = 2 ∧ task.maxLogId = 3 ∧
      (∃ r ∈ task.replicaSet.replicas, ∃ p,
        (s.replicas r).getLogEntry task.versionId 2 = .ok ⟨2, p⟩) ∧
      1 < task.maxLogId ∧
      ∃ p, s.Assigned task.versionId 2 p ∧ s.OnQuorum task.versionId 2 p := by
  have h : ∀ s s₀ task, Transition.run step (initial 3 (some makeVirtualLog))
      (unevenReplicas ++ evenedOut) = some s → s.reconfigures 0 = some task →
      task.toSeal = [] → s.Started task.versionId 1 → task.phase = .installing →
      task.minLogId ≤ 2 → 2 < task.maxLogId →
      Transition.run step (initial 3 (some makeVirtualLog)) unevenReplicas = some s₀ →
      s₀.reconfigures 0 = none → s₀.Acknowledged task.versionId 1 "a" → _ ∧ _ ∧ _ :=
    fun s s₀ task hrun ht hsealed hstart hphase hmin hmax h₀ hnone hack =>
      have hcomplete := reconfigure_complete hrun ht hsealed hstart
      ⟨hcomplete.1 2 hmin hmax,
        hcomplete.2.1 unevenReplicas evenedOut s₀ rfl h₀
          (fun task₀ ht₀ => absurd (hnone.symm.trans ht₀) (by simp)) 1 "a" hack,
        hcomplete.2.2 hphase 2 (by decide) hmax⟩
  exact ⟨_, _, rfl, rfl, rfl, rfl,
    h _ _ _ rfl rfl rfl rfl rfl (by decide) (by decide) rfl rfl ⟨_, rfl, rfl, rfl⟩⟩

end ReplicatedCounter.Log.LogSystem
