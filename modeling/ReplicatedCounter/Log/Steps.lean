import ReplicatedCounter.Log.Invariant

/-!
# Appending keeps everything in order

One inversion lemma says what an operation needs and what it leaves behind; one `_changes` lemma
says why what it leaves behind is in order. This file has the operations an append goes through,
from the sequencer to the replicas and back.

The step with content is `execute`: the queue of the nanolog moves, and for each index it moves
past there is a reason to give (`NanoLogOk.append`). The others hand facts from one kind of thing
to the next: the sequencer's commit index to a request, a fulfilled promise to a reply, a reply to
an append, `n` replies to the commit index (`covered_of_promise`).
-/

set_option autoImplicit false

namespace ReplicatedCounter.Log

namespace LogSystem

open Metadata InMemoryMetadataStore

variable {N : Nat} {s s' : LogSystem N} {firstEnd v l j a : Int} {p : String}
  {r : Fin N} {nl nl' : InMemoryNanoLog Origin}

/-! ## Updates -/

theorem Assigned.setAppend {call : SequencerAppend N} (h : s.Assigned v l p) {v' : Int}
    {l' : Int} (hcall : ∀ old, s.appends (v', l') = some old → call.payload = old.payload) :
    (s.setAppend v' l' call).Assigned v l p := by
  obtain ⟨old, hold, rfl⟩ := h
  by_cases hk : (v, l) = (v', l')
  · refine ⟨call, ?_, hcall old (hk ▸ hold)⟩
    unfold LogSystem.setAppend
    rw [hk]
    exact Function.update_self ..
  · exact ⟨old, (Function.update_of_ne hk ..).trans hold, rfl⟩

theorem Acknowledged.setAppend {call : SequencerAppend N} (h : s.Acknowledged v l p) {v' : Int}
    {l' : Int} (hcall : ∀ old, s.appends (v', l') = some old → call.payload = old.payload ∧
      (old.acknowledged = true → call.acknowledged = true)) :
    (s.setAppend v' l' call).Acknowledged v l p := by
  obtain ⟨old, hold, rfl, hack⟩ := h
  by_cases hk : (v, l) = (v', l')
  · obtain ⟨hpayload, hkeep⟩ := hcall old (hk ▸ hold)
    refine ⟨call, ?_, hpayload, hkeep hack⟩
    unfold LogSystem.setAppend
    rw [hk]
    exact Function.update_self ..
  · exact ⟨old, (Function.update_of_ne hk ..).trans hold, rfl, hack⟩

theorem nanoLog?_setReplica {r' : Fin N} {v' : Int} :
    (s.setReplica r ((s.replicas r).add v nl)).nanoLog? r' v' =
      if r' = r ∧ v' = v then some nl else s.nanoLog? r' v' := by
  unfold nanoLog? setReplica
  dsimp only
  by_cases hr : r' = r
  · subst hr
    rw [Function.update_self]
    by_cases hv : v' = v
    · subst hv
      rw [if_pos ⟨rfl, rfl⟩, ReplicaImpl.add_self]
    · rw [if_neg (fun h => hv h.2), ReplicaImpl.add_of_ne _ _ hv]
  · rw [if_neg (fun h => hr h.1), Function.update_of_ne hr]

/-- A nanolog that has moved on is the only thing that changed on the replicas. -/
theorem nanoLog_of_setReplica (hnl : ∀ old, s.nanoLog? r v = some old → old.Extends nl)
    {r' : Fin N} {v' : Int} {old : InMemoryNanoLog Origin} (h : s.nanoLog? r' v' = some old) :
    ∃ nl', (s.setReplica r ((s.replicas r).add v nl)).nanoLog? r' v' = some nl' ∧
      old.Extends nl' := by
  rw [nanoLog?_setReplica]
  split
  · rename_i heq
    obtain ⟨rfl, rfl⟩ := heq
    exact ⟨nl, rfl, hnl old h⟩
  · exact ⟨old, h, .refl old⟩

theorem nanoLogOk_of_setReplica (hnl : s'.NanoLogOk r v nl) {r' : Fin N} {v' : Int}
    {nl' : InMemoryNanoLog Origin}
    (h : (s.setReplica r ((s.replicas r).add v nl)).nanoLog? r' v' = some nl') :
    s.nanoLog? r' v' = some nl' ∨ s'.NanoLogOk r' v' nl' := by
  rw [nanoLog?_setReplica] at h
  split at h
  · rename_i heq
    obtain ⟨rfl, rfl⟩ := heq
    obtain rfl := Option.some.inj h
    exact .inr hnl
  · exact .inl h

/-! ## Quorums -/

theorem quorum_nonempty {Q : Finset (Fin N)} (hQ : SequencerImpl.quorumSize N ≤ Q.card) :
    Q.Nonempty := by
  have : 0 < SequencerImpl.quorumSize N := Nat.succ_pos _
  exact Finset.card_pos.mp (this.trans_le hQ)

theorem quorum_majority {Q : Finset (Fin N)} (hQ : SequencerImpl.quorumSize N ≤ Q.card) :
    Voting.Majority Q := by
  refine Voting.majority_of_le ?_
  rw [Fintype.card_fin]
  exact hQ

/-- What a replica stores is what was assigned. -/
theorem Valid.assigned_of_entry (h : s.Valid firstEnd) (hp : s.entry r v l = some p) :
    s.Assigned v l p := by
  obtain ⟨nl, hnl, hl⟩ := entry_eq_some.mp hp
  exact (h.nanoLogs r v nl hnl).assigned hl

/-- **If every member of a quorum stores the entry or knows that a quorum does, a quorum does.** -/
theorem Valid.replicated_of_quorum (h : s.Valid firstEnd) {Q : Finset (Fin N)}
    (hQ : SequencerImpl.quorumSize N ≤ Q.card)
    (hall : ∀ r ∈ Q, (∃ p, s.entry r v j = some p) ∨ s.Replicated v j) : s.Replicated v j := by
  by_cases hrep : s.Replicated v j
  · exact hrep
  · have hstored : ∀ r ∈ Q, ∃ p, s.entry r v j = some p := fun r hr =>
      (hall r hr).resolve_right hrep
    obtain ⟨r₀, hr₀⟩ := quorum_nonempty hQ
    obtain ⟨p, hp⟩ := hstored r₀ hr₀
    refine ⟨p, h.assigned_of_entry hp, hQ.trans (Finset.card_le_card fun r hr => ?_)⟩
    obtain ⟨p', hp'⟩ := hstored r hr
    rw [Finset.mem_filter, hp',
      (h.assigned_of_entry hp').unique (h.assigned_of_entry hp)]
    exact ⟨Finset.mem_univ r, rfl⟩

/-- A replica past an index stores it, or a quorum does. -/
theorem Valid.stored_or_replicated (h : s.Valid firstEnd) (hnl : s.nanoLog? r v = some nl)
    (ha : s.Started v a) (hj : a ≤ j) (hj' : j < nl.getLocalCommitIndex) :
    (∃ p, s.entry r v j = some p) ∨ s.Replicated v j := by
  have hok := h.nanoLogs r v nl hnl
  rcases hok.filled j (hok.started.unique ha ▸ hj) hj' with ⟨p, hp⟩ | hrep
  · exact .inl ⟨p, entry_eq_some.mpr ⟨nl, hnl, hp⟩⟩
  · exact .inr hrep

theorem Valid.started_bounded (h : s.Valid firstEnd) (ha : s.Started v a) :
    lowestNonExistingLogId ≤ a ∧ a ≤ highestNonExistingLogId := by
  obtain ⟨config, hconfig, rfl⟩ := Option.map_eq_some_iff.mp ha
  exact h.store.getConfig_bounded hconfig

theorem Started.of_startOf (h : s.Valid firstEnd) (ha : s.metadataStore.startOf v = some a) :
    s.Started v a := by
  have hv : v ≠ 0 := by
    have := h.store.chain.one_le v a ha
    omega
  unfold Started getConfig
  rw [if_neg hv]
  exact ha

/-- **A quorum of fulfilled promises for `l`** makes `l` and everything before it replicated. -/
theorem Valid.covered_of_promise (h : s.Valid firstEnd) {call : SequencerAppend N}
    (hcall : s.appends (v, l) = some call) (hp : call.futures.promise = some (.ok ()))
    (ha : s.metadataStore.startOf v = some a) : s.Covered v a (l + 1) := by
  intro j hj hj'
  refine h.replicated_of_quorum (AnyNSuccessful.card_of_promise hp) fun r hr => ?_
  have hdone := (h.appends v l call hcall).results r (Finset.mem_filter.mp hr).2
  obtain ⟨nl, hnl, -, hlt⟩ := CompletedOk.nanoLog (h.trace _ hdone)
  exact h.stored_or_replicated hnl (.of_startOf h ha) hj (by omega)

/-! ## Appending -/

theorem append_eq_some (hs : s.append v p = some s') :
    ∃ q, s.sequencers v = some q ∧ q.sequenceNum < highestNonExistingLogId ∧
      s' = (s.setSequencer v { q with sequenceNum := q.sequenceNum + 1 }).setAppend v
        q.sequenceNum { payload := p } := by
  obtain ⟨q, hq, hs⟩ := Option.bind_eq_some_iff.mp hs
  dsimp only [SequencerImpl.next] at hs
  split at hs
  · rename_i hlt
    exact ⟨q, hq, hlt, (Option.some.inj hs).symm⟩
  · exact absurd hs (by simp)

theorem append_changes (h : s.Valid firstEnd) (hs : s.append v p = some s') :
    s.Changes firstEnd s' := by
  obtain ⟨q, hq, hlt, rfl⟩ := append_eq_some hs
  obtain ⟨a, hq'⟩ := h.sequencers v q hq
  have hfresh : ∀ old, s.appends (v, q.sequenceNum) = some old → False := by
    intro old hold
    obtain ⟨q₁, hq₁, hlt₁⟩ := (h.appends _ _ _ hold).sequencer
    obtain rfl : q = q₁ := Option.some.inj (hq.symm.trans hq₁)
    exact lt_irrefl _ hlt₁
  have grows : s.Grows ((s.setSequencer v { q with sequenceNum := q.sequenceNum + 1 }).setAppend v
      q.sequenceNum { payload := p }) :=
    { Grows.refl s with
      assigned := fun hp => Assigned.setAppend (s := s.setSequencer v _) hp
        fun old hold => (hfresh old hold).elim
      acknowledged := fun hp => Acknowledged.setAppend (s := s.setSequencer v _) hp
        fun old hold => (hfresh old hold).elim
      sequencer := fun {v' q'} hv' => by
        by_cases hv : v' = v
        · subst hv
          obtain rfl : q = q' := Option.some.inj (hq.symm.trans hv')
          exact ⟨_, Function.update_self .., (Int.lt_succ _).le⟩
        · exact ⟨q', (Function.update_of_ne hv ..).trans hv', le_refl _⟩ }
  refine { Accounted.refl _ s with
    grows
    sequencers := fun v' q' hq'' => ?_
    appends := fun v' l' call hcall => ?_ }
  · rcases Parties.eq_some_of_update hq'' with ⟨rfl, rfl⟩ | ⟨-, hold⟩
    · exact .inr ⟨a, hq'.startOf, hq'.start_le.trans (Int.lt_succ _).le, Int.add_one_le_of_lt hlt,
        hq'.commit_le_highest, hq'.covered.mono grows⟩
    · exact .inl hold
  · rcases Parties.eq_some_of_update hcall with ⟨hk, rfl⟩ | ⟨-, hold⟩
    · obtain ⟨rfl, rfl⟩ := Prod.mk.inj hk
      refine .inr ⟨⟨_, Function.update_self .., Int.lt_succ _⟩, ⟨a, hq'.startOf, hq'.start_le⟩,
        fun r hr => absurd hr (by simp [AnyNSuccessful.make]), fun hack => absurd hack (by simp)⟩
    · exact .inl hold

/-- Changing an append keeps what was assigned. -/
theorem setAppend_grows {call : SequencerAppend N} (call' : SequencerAppend N)
    (hcall : s.appends (v, l) = some call) (hp : call'.payload = call.payload)
    (hack : call.acknowledged = true → call'.acknowledged = true) :
    s.Grows (s.setAppend v l call') :=
  { Grows.refl s with
    assigned := fun h => h.setAppend fun old hold => by
      rw [Option.some.inj (hold.symm.trans hcall)]
      exact hp
    acknowledged := fun h => h.setAppend fun old hold => by
      rw [Option.some.inj (hold.symm.trans hcall)]
      exact ⟨hp, hack⟩ }

theorem send_eq_some (hs : s.send v l = some s') :
    ∃ q call, s.sequencers v = some q ∧ s.appends (v, l) = some call ∧
      ∃ h : call.sentTo < N, s' =
        { s.setAppend v l { call with sentTo := call.sentTo + 1 } with
          requests := ⟨⟨call.sentTo, h⟩, .sequencer, some q.globalCommitIndex, v, l, call.payload⟩ ::
            s.requests } := by
  obtain ⟨q, hq, hs⟩ := Option.bind_eq_some_iff.mp hs
  obtain ⟨call, hcall, hs⟩ := Option.bind_eq_some_iff.mp hs
  split at hs
  · rename_i hlt
    exact ⟨q, call, hq, hcall, hlt, (Option.some.inj hs).symm⟩
  · exact absurd hs (by simp)

theorem send_changes (h : s.Valid firstEnd) (hs : s.send v l = some s') :
    s.Changes firstEnd s' := by
  obtain ⟨q, call, hq, hcall, hlt, rfl⟩ := send_eq_some hs
  obtain ⟨a, hq'⟩ := h.sequencers v q hq
  have grows := setAppend_grows { call with sentTo := call.sentTo + 1 } hcall rfl id
  have grows' : s.Grows { s.setAppend v l { call with sentTo := call.sentTo + 1 } with
      requests := ⟨⟨call.sentTo, hlt⟩, .sequencer, some q.globalCommitIndex, v, l, call.payload⟩ ::
        s.requests } := { grows with }
  refine { Accounted.refl _ s with
    grows := grows'
    requests := fun m hm => ?_
    appends := fun v' l' call' hcall' => ?_ }
  · rcases List.mem_cons.mp hm with rfl | hm
    · refine .inr ⟨grows.assigned ⟨call, hcall, rfl⟩, a,
        grows'.started (.of_startOf h hq'.startOf), ?_⟩
      rintro g hg
      obtain rfl := Option.some.inj hg
      exact ⟨hq'.commit_le_highest, hq'.covered.mono grows'⟩
    · exact .inl hm
  · rcases Parties.eq_some_of_update hcall' with ⟨hk, rfl⟩ | ⟨-, hold⟩
    · obtain ⟨rfl, rfl⟩ := Prod.mk.inj hk
      have hok := h.appends _ _ call hcall
      exact .inr ⟨hok.sequencer, hok.start_le, hok.results, hok.acknowledged⟩
    · exact .inl hold

theorem acknowledge_eq_some (hs : s.acknowledge v l = some s') :
    ∃ q call, s.sequencers v = some q ∧ s.appends (v, l) = some call ∧
      call.futures.promise = some (.ok ()) ∧
      s' = (s.setSequencer v (q.commit l)).setAppend v l { call with acknowledged := true } := by
  obtain ⟨q, hq, hs⟩ := Option.bind_eq_some_iff.mp hs
  obtain ⟨call, hcall, hs⟩ := Option.bind_eq_some_iff.mp hs
  split at hs
  · rename_i hp
    exact ⟨q, call, hq, hcall, hp, (Option.some.inj hs).symm⟩
  · exact absurd hs (by simp)

/-- **The commit index only moves to where everything below is replicated.** -/
theorem acknowledge_changes (h : s.Valid firstEnd) (hs : s.acknowledge v l = some s') :
    s.Changes firstEnd s' := by
  obtain ⟨q, call, hq, hcall, hp, rfl⟩ := acknowledge_eq_some hs
  obtain ⟨a, hq'⟩ := h.sequencers v q hq
  have hok := h.appends v l call hcall
  have hseq : (q.commit l).sequenceNum = q.sequenceNum := by
    unfold SequencerImpl.commit
    split <;> rfl
  have grows : s.Grows ((s.setSequencer v (q.commit l)).setAppend v l
      { call with acknowledged := true }) :=
    { Grows.refl s with
      assigned := fun hp => Assigned.setAppend (s := s.setSequencer v _) hp fun old hold => by
        rw [Option.some.inj (hold.symm.trans hcall)]
      acknowledged := fun hp => Acknowledged.setAppend (s := s.setSequencer v _) hp
        fun old hold => by
          rw [Option.some.inj (hold.symm.trans hcall)]
          exact ⟨rfl, fun _ => rfl⟩
      sequencer := fun {v' q'} hv' => by
        by_cases hv : v' = v
        · subst hv
          obtain rfl : q = q' := Option.some.inj (hq.symm.trans hv')
          exact ⟨_, Function.update_self .., hseq.ge⟩
        · exact ⟨q', (Function.update_of_ne hv ..).trans hv', le_refl _⟩ }
  refine { Accounted.refl _ s with
    grows
    sequencers := fun v' q'' hq'' => ?_
    appends := fun v' l' call' hcall' => ?_ }
  · rcases Parties.eq_some_of_update hq'' with ⟨rfl, rfl⟩ | ⟨-, hold⟩
    · refine .inr ⟨a, hq'.startOf, hseq ▸ hq'.start_le, hseq ▸ hq'.le_highest, ?_, ?_⟩
      · obtain ⟨q₁, hq₁, hlt⟩ := hok.sequencer
        obtain rfl : q = q₁ := Option.some.inj (hq.symm.trans hq₁)
        have := hq'.le_highest
        have := hq'.commit_le_highest
        unfold SequencerImpl.commit
        split
        · dsimp only
          omega
        · assumption
      · have hcovered := h.covered_of_promise hcall hp hq'.startOf
        intro j hj hj'
        unfold SequencerImpl.commit at hj'
        split at hj'
        · exact grows.replicated (hcovered j hj (by dsimp only at hj'; omega))
        · exact grows.replicated (hq'.covered j hj hj')
    · exact .inl hold
  · rcases Parties.eq_some_of_update hcall' with ⟨hk, rfl⟩ | ⟨-, hold⟩
    · obtain ⟨rfl, rfl⟩ := Prod.mk.inj hk
      have hok' := hok.mono grows
      exact .inr ⟨hok'.sequencer, hok'.start_le, hok'.results, fun _ => hp⟩
    · exact .inl hold

/-! ## Answers -/

theorem setReconfigure_changes {t : CallId} {task : Reconfigure N} (hok : s.ReconfigureOk task) :
    s.Changes firstEnd (s.setReconfigure t task) := by
  have grows : s.Grows (s.setReconfigure t task) := { Grows.refl s with }
  refine { Accounted.refl _ s with grows, reconfigures := fun t' task' ht' => ?_ }
  rcases Parties.eq_some_of_update ht' with ⟨-, rfl⟩ | ⟨-, hold⟩
  · exact .inr (hok.mono grows)
  · exact .inl hold

/-- A reconfiguration that is only at another point of its code keeps its bounds. -/
theorem ReconfigureFrom.withPhase {task : Reconfigure N} {phase : Phase N}
    (h : s.ReconfigureFrom task a) (hp : s.Progress { task with phase } a) :
    s.ReconfigureFrom { task with phase } a :=
  ⟨h.started, h.suffix, h.start_le_min, h.sealed, h.start_le_max, h.lowest_le_max,
    h.max_le_highest, h.max_attained, hp⟩

/-- At the head of the loop, with everything below the loop variable replicated. -/
theorem ReconfigureFrom.loop {task : Reconfigure N} (h : s.ReconfigureFrom task a)
    (hsealed : task.toSeal = []) (hl : a ≤ l) (hcovered : s.Covered task.versionId a l) :
    s.ReconfigureFrom (task.loop l) a := by
  refine h.withPhase ?_
  unfold Progress
  split_ifs with hlt
  · exact ⟨hsealed, hl, hlt, hcovered⟩
  · exact ⟨hsealed, fun j hj hj' => hcovered j hj (by dsimp only at hj'; omega)⟩

theorem deliver_eq_some {m : Reply N} (hs : s.deliver m = some s') :
    (∃ call futures, m.origin = .sequencer ∧ s.appends (m.versionId, m.logId) = some call ∧
      call.futures.complete m.replica m.result = some futures ∧
      s' = s.setAppend m.versionId m.logId { call with futures }) ∨
    ∃ t task futures futures', m.origin = .reconfigure t ∧ s.reconfigures t = some task ∧
      task.phase = .appending m.logId futures ∧ m.versionId = task.versionId ∧
      futures.complete m.replica m.result = some futures' ∧
      s' = s.setReconfigure t (task.afterAppend m.logId futures') := by
  unfold deliver at hs
  split at hs
  · rename_i horigin
    obtain ⟨call, hcall, hs⟩ := Option.bind_eq_some_iff.mp hs
    obtain ⟨futures, hfutures, hs⟩ := Option.bind_eq_some_iff.mp hs
    split at hs
    · exact .inl ⟨call, futures, horigin, hcall, hfutures, (Option.some.inj hs).symm⟩
    · exact absurd hs (by simp)
  · rename_i t horigin
    obtain ⟨task, htask, hs⟩ := Option.bind_eq_some_iff.mp hs
    split at hs
    · rename_i logId futures hphase
      split at hs
      · rename_i heq
        obtain ⟨hv, rfl⟩ := heq
        obtain ⟨futures', hfutures', hs⟩ := Option.bind_eq_some_iff.mp hs
        exact .inr ⟨t, task, futures, futures', horigin, htask, hphase, hv, hfutures',
          (Option.some.inj hs).symm⟩
      · exact absurd hs (by simp)
    · exact absurd hs (by simp)

theorem ReconfigureFrom.afterAppend (h : s.Valid firstEnd) {task : Reconfigure N}
    {futures futures' : AnyNSuccessful N (N / 2 + 1)} {result : TryUnit}
    (ha : s.ReconfigureFrom task a) (hphase : task.phase = .appending l futures)
    (hcomplete : futures.complete r result = some futures')
    (hstored : hasValue (some result) → ∃ p, s.entry r task.versionId l = some p) :
    s.ReconfigureFrom (task.afterAppend l futures') a := by
  have hprogress := ha.progress
  unfold Progress at hprogress
  rw [hphase] at hprogress
  obtain ⟨hsealed, hl, hcovered, hresults⟩ := hprogress
  have hresults' : ∀ i, hasValue (futures'.results i) →
      ∃ p, s.entry i task.versionId l = some p := by
    intro i hi
    rcases AnyNSuccessful.hasValue_of_complete hcomplete hi with hold | ⟨rfl, hnew⟩
    · exact hresults i hold
    · exact hstored hnew
  unfold Reconfigure.afterAppend
  split
  · exact ha.withPhase ⟨hsealed, hl, hcovered, hresults'⟩
  · rename_i hp
    refine ha.loop hsealed (by omega) fun j hj hj' => ?_
    by_cases heq : j = l
    · subst heq
      exact h.replicated_of_quorum (AnyNSuccessful.card_of_promise hp) fun i hi =>
        .inl (hresults' i (Finset.mem_filter.mp hi).2)
    · exact hcovered j hj (by omega)
  · exact ha.withPhase trivial

theorem deliver_changes (h : s.Valid firstEnd) {m : Reply N} (hm : s.ReplyOk m)
    (hs : s.deliver m = some s') : s.Changes firstEnd s' := by
  rcases deliver_eq_some hs with ⟨call, futures, horigin, hcall, hfutures, rfl⟩ |
    ⟨t, task, futures, futures', -, htask, hphase, hv, hfutures', rfl⟩
  · have grows := setAppend_grows { call with futures } hcall rfl id
    refine { Accounted.refl _ s with grows, appends := fun v' l' call' hcall' => ?_ }
    rcases Parties.eq_some_of_update hcall' with ⟨hk, rfl⟩ | ⟨-, hold⟩
    · obtain ⟨rfl, rfl⟩ := Prod.mk.inj hk
      have hok := h.appends _ _ call hcall
      refine .inr ⟨hok.sequencer, hok.start_le, fun r hr => ?_, fun hack => ?_⟩
      · rcases AnyNSuccessful.hasValue_of_complete hfutures hr with hold | ⟨rfl, hnew⟩
        · exact hok.results r hold
        · exact hm.completed hnew horigin
      · exact AnyNSuccessful.promise_of_complete hfutures (hok.acknowledged hack)
    · exact .inl hold
  · obtain ⟨a, ha⟩ := h.reconfigures t task htask
    exact setReconfigure_changes
      ⟨a, ha.afterAppend h hphase hfutures' fun hr => hv ▸ hm.stored hr⟩

theorem Changes.trans {s'' : LogSystem N} (h : s.Changes firstEnd s') (h' : s'.Changes firstEnd s'') :
    s.Changes firstEnd s'' where
  grows := h.grows.trans h'.grows
  store := by
    rcases h'.store with heq | hok
    · rw [heq]
      exact h.store
    · exact .inr hok
  requests m hm := by
    rcases h'.requests m hm with hm | hok
    · exact (h.requests m hm).imp_right fun hok => hok.mono h'.grows
    · exact .inr hok
  admitted m hm := by
    rcases h'.admitted m hm with hm | hok
    · exact (h.admitted m hm).imp_right fun hok => hok.mono h'.grows
    · exact .inr hok
  replies m hm := by
    rcases h'.replies m hm with hm | hok
    · exact (h.replies m hm).imp_right fun hok => hok.mono h'.grows
    · exact .inr hok
  trace o ho := by
    rcases h'.trace o ho with ho | hok
    · exact (h.trace o ho).imp_right fun hok => hok.mono h'.grows
    · exact .inr hok
  nanoLogs r v nl hnl := by
    rcases h'.nanoLogs r v nl hnl with hnl | hok
    · exact (h.nanoLogs r v nl hnl).imp_right fun hok => hok.mono h'.grows
    · exact .inr hok
  sequencers v q hq := by
    rcases h'.sequencers v q hq with hq | hok
    · exact (h.sequencers v q hq).imp_right fun hok => hok.mono h'.grows
    · exact .inr hok
  appends v l call hcall := by
    rcases h'.appends v l call hcall with hcall | hok
    · exact (h.appends v l call hcall).imp_right fun hok => hok.mono h'.grows
    · exact .inr hok
  reconfigures t task ht := by
    rcases h'.reconfigures t task ht with ht | hok
    · exact (h.reconfigures t task ht).imp_right fun hok => hok.mono h'.grows
    · exact .inr hok
  reads c read hr := by
    rcases h'.reads c read hr with hr | hok
    · exact (h.reads c read hr).imp_right fun hok => hok.mono h'.grows
    · exact .inr hok

theorem receive_eq_some {m : Reply N} (hs : s.receive m = some s') :
    m ∈ s.replies ∧
      ({ s with replies := s.replies.erase m } : LogSystem N).deliver m = some s' := by
  unfold receive at hs
  split at hs
  · rename_i hmem
    exact ⟨hmem, hs⟩
  · exact absurd hs (by simp)

theorem receive_changes (h : s.Valid firstEnd) {m : Reply N} (hs : s.receive m = some s') :
    s.Changes firstEnd s' := by
  obtain ⟨hmem, hs⟩ := receive_eq_some hs
  have herase : s.Changes firstEnd { s with replies := s.replies.erase m } :=
    { Accounted.refl _ s with
      grows := { Grows.refl s with }
      replies := fun m' hm' => .inl (List.mem_of_mem_erase hm') }
  exact herase.trans
    (deliver_changes (h.of_changes herase) ((h.replies m hmem).mono herase.grows) hs)

theorem timeout_changes (h : s.Valid firstEnd) {origin : Origin}
    (hs : s.deliver ⟨r, origin, v, l, .error .nonRecoverable⟩ = some s') :
    s.Changes firstEnd s' :=
  deliver_changes h ⟨fun hr => absurd hr (by simp [hasValue]), fun hr => absurd hr (by simp [hasValue])⟩
    hs

/-! ## At a replica -/

theorem setReplica_self : s.setReplica r (s.replicas r) = s := by
  unfold setReplica
  rw [Function.update_eq_self]

/-- A nanolog that is in order may take the place of the one before it. -/
theorem setNanoLog_changes (hext : ∀ old, s.nanoLog? r v = some old → old.Extends nl)
    (hok : s.NanoLogOk r v nl) :
    s.Changes firstEnd (s.setReplica r ((s.replicas r).add v nl)) := by
  have grows : s.Grows (s.setReplica r ((s.replicas r).add v nl)) :=
    { Grows.refl s with nanoLog := fun h => nanoLog_of_setReplica hext h }
  exact { Accounted.refl _ s with
    grows
    nanoLogs := fun r' v' nl' h => nanoLogOk_of_setReplica (hok.mono grows) h }

/-- A new nanolog starts where its version does, and has moved past nothing. -/
theorem Valid.makeNanoLog_ok (h : s.Valid firstEnd) {config : MetadataConfig}
    (hconfig : s.metadataStore.getConfig v = some config) :
    s.NanoLogOk r v (ReplicaImpl.makeNanoLog v config) where
  started := by
    unfold Started
    rw [hconfig]
    rfl
  start_le := le_refl _
  le_highest := (h.store.getConfig_bounded hconfig).2
  assigned hl := absurd hl (by simp [ReplicaImpl.makeNanoLog])
  filled j hj hj' := absurd hj (not_le.mpr hj')
  parked hk := absurd hk List.not_mem_nil

theorem beginAppend_changes (h : s.Valid firstEnd) (r : Fin N) (v : Int) (skipSeal : Bool) :
    s.Changes firstEnd
      (s.setReplica r ((s.replicas r).beginAppend s.metadataStore v skipSeal).1) := by
  rcases ReplicaImpl.beginAppend_replica (s.replicas r) s.metadataStore v skipSeal with
    heq | ⟨hnone, config, hconfig, heq⟩
  · rw [heq, setReplica_self]
    exact .refl s
  · rw [heq]
    refine setNanoLog_changes (fun old hold => ?_) (h.makeNanoLog_ok hconfig)
    exact absurd (hnone.symm.trans hold) (by simp)

/-- What `arrive` does, with `s₁` the state in which the nanolog exists. -/
theorem arrive_eq_some {m : Request N} (hs : s.arrive m = some s') :
    m ∈ s.requests ∧ ∃ s₁, s₁ = s.setReplica m.replica
        ((s.replicas m.replica).beginAppend s.metadataStore m.versionId m.origin.skipSeal).1 ∧
      ((∃ e, s' = { s₁ with
          requests := s.requests.erase m, replies := m.reply (.error e) :: s.replies }) ∨
        (((s.replicas m.replica).beginAppend s.metadataStore m.versionId m.origin.skipSeal).2 = .ok () ∧
          s' = { s₁ with
            requests := s.requests.erase m
            admitted := m :: s.admitted
            trace := .accepted m.origin m.replica m.versionId m.logId :: s.trace })) := by
  unfold arrive at hs
  split at hs
  · rename_i hmem
    refine ⟨hmem, _, rfl, ?_⟩
    dsimp only at hs
    split at hs
    · rename_i e heq
      exact .inl ⟨e, (Option.some.inj hs).symm⟩
    · rename_i heq
      exact .inr ⟨heq, (Option.some.inj hs).symm⟩
  · exact absurd hs (by simp)

theorem arrive_changes (h : s.Valid firstEnd) {m : Request N} (hs : s.arrive m = some s') :
    s.Changes firstEnd s' := by
  obtain ⟨hmem, s₁, hs₁, hs'⟩ := arrive_eq_some hs
  have hbegin : s.Changes firstEnd s₁ := hs₁ ▸ beginAppend_changes h _ _ _
  have hlists : s₁.requests = s.requests ∧ s₁.admitted = s.admitted ∧ s₁.replies = s.replies ∧
      s₁.trace = s.trace := by
    rw [hs₁]
    exact ⟨rfl, rfl, rfl, rfl⟩
  have herase : ∀ m' ∈ s.requests.erase m, m' ∈ s₁.requests := fun m' hm' =>
    hlists.1 ▸ List.mem_of_mem_erase hm'
  refine hbegin.trans ?_
  rcases hs' with ⟨e, rfl⟩ | ⟨hok, rfl⟩
  · refine { Accounted.refl _ s₁ with
      grows := { Grows.refl s₁ with }
      requests := fun m' hm' => .inl (herase m' hm')
      replies := fun m' hm' => ?_ }
    rcases List.mem_cons.mp hm' with rfl | hm'
    · exact .inr ⟨fun hr => absurd hr (by simp [Request.reply, hasValue]),
        fun hr => absurd hr (by simp [Request.reply, hasValue])⟩
    · exact .inl (hlists.2.2.1 ▸ hm')
  · have grows : s₁.Grows { s₁ with
        requests := s.requests.erase m
        admitted := m :: s.admitted
        trace := .accepted m.origin m.replica m.versionId m.logId :: s.trace } :=
      { Grows.refl s₁ with trace := fun ho => List.mem_cons_of_mem _ (hlists.2.2.2 ▸ ho) }
    refine { Accounted.refl _ s₁ with
      grows
      requests := fun m' hm' => .inl (herase m' hm')
      admitted := fun m' hm' => ?_
      trace := fun o ho => ?_ }
    · rcases List.mem_cons.mp hm' with rfl | hm'
      · refine .inr ⟨((h.requests m' hmem).mono hbegin.grows).mono grows, List.mem_cons_self, ?_⟩
        obtain ⟨nl, hnl⟩ := (ReplicaImpl.beginAppend_ok hok).1
        refine ⟨nl, ?_⟩
        rw [← hnl, hs₁]
        unfold nanoLog? setReplica
        dsimp only
        rw [Function.update_self]
      · exact .inl (hlists.2.1 ▸ hm')
    · rcases List.mem_cons.mp ho with rfl | ho
      · exact .inr trivial
      · exact .inl (hlists.2.2.2 ▸ ho)

/-! ## Under the nanolog's lock -/

/-- The locked section for a request. -/
def appended (nl : InMemoryNanoLog Origin) (m : Request N) : Appended Origin :=
  nl.appendLocked m.globalCommitIndex m.logId m.payload m.origin.skipSeal m.origin

theorem execute_eq_some {m : Request N} (hs : s.execute m = some s') :
    m ∈ s.admitted ∧ ∃ nl, s.nanoLog? m.replica m.versionId = some nl ∧
      s' = { s.setReplica m.replica
          ((s.replicas m.replica).add m.versionId (appended nl m).nanoLog) with
        admitted := s.admitted.erase m
        replies := answers m (appended nl m) ++ s.replies
        trace := completions m (appended nl m) ++ s.trace } := by
  unfold execute at hs
  split at hs
  · rename_i hmem
    obtain ⟨nl, hnl, hs⟩ := Option.bind_eq_some_iff.mp hs
    exact ⟨hmem, nl, hnl, (Option.some.inj hs).symm⟩
  · exact absurd hs (by simp)

/-- Whatever is parked when the request has been added is stored, and was accepted. -/
theorem parked_after_insert {m : Request N} (hm : s.AdmittedOk m)
    (hok : s.NanoLogOk m.replica m.versionId nl) {k : Int} {origin : Origin}
    (hk : (k, origin) ∈ (nl.completionQueue.promises.insert m.logId m.origin).entries) :
    (∃ p, (nl.logs.insert m.logId m.payload).find? k = some p) ∧
      .accepted origin m.replica m.versionId k ∈ s.trace := by
  rw [SortedMap.find?_insert]
  rcases SortedMap.mem_insert.mp hk with ⟨rfl, rfl⟩ | ⟨hne, hold⟩
  · exact ⟨⟨m.payload, if_pos rfl⟩, hm.accepted⟩
  · obtain ⟨⟨p, hp⟩, haccepted⟩ := hok.parked hold
    exact ⟨⟨p, (if_neg hne).trans hp⟩, haccepted⟩

/-- An id that was assigned is below the last one. -/
theorem Valid.lt_highest_of_assigned (h : s.Valid firstEnd) (hl : s.Assigned v l p) :
    l < highestNonExistingLogId := by
  obtain ⟨call, hcall, -⟩ := hl
  obtain ⟨q, hq, hlt⟩ := (h.appends v l call hcall).sequencer
  obtain ⟨a, ha⟩ := h.sequencers v q hq
  exact hlt.trans_le ha.le_highest

/-- **The step the invariant is about.** The queue moves past an index because it is parked, and
then it is stored here, or because the request's commit index covers it. -/
theorem NanoLogOk.append (h : s.Valid firstEnd) {m : Request N} (hm : s.AdmittedOk m)
    (hok : s.NanoLogOk m.replica m.versionId nl) :
    s.NanoLogOk m.replica m.versionId (appended nl m).nanoLog := by
  unfold appended
  cases hfind : nl.logs.find? m.logId with
  | some p =>
    rw [InMemoryNanoLog.appendLocked_of_occupied hfind]
    exact hok
  | none =>
    have hextends : nl.Extends (appended nl m).nanoLog := InMemoryNanoLog.appendLocked_extends
    unfold appended at hextends
    rw [InMemoryNanoLog.appendLocked_of_vacant hfind] at hextends ⊢
    have hcompletes := InMemoryNanoLog.park_completes nl.completionQueue m.globalCommitIndex
      m.logId m.origin
    obtain ⟨a, ha, hvouched⟩ := hm.request.vouched
    obtain rfl : nl.startIndex = a := hok.started.unique ha
    have hassigned : ∀ {k p}, (nl.logs.insert m.logId m.payload).find? k = some p →
        s.Assigned m.versionId k p := by
      intro k p hk
      rw [SortedMap.find?_insert] at hk
      split at hk
      · rename_i heq
        rw [heq, ← Option.some.inj hk]
        exact hm.request.assigned
      · exact hok.assigned hk
    have hmoved : ∀ j, nl.getLocalCommitIndex ≤ j →
        j < (InMemoryNanoLog.park nl.completionQueue m.globalCommitIndex m.logId
          m.origin).1.currentIndex →
        InMemoryNanoLog.Vouched m.globalCommitIndex j ∨
          ∃ p, (nl.logs.insert m.logId m.payload).find? j = some p := by
      intro j hj hj'
      rcases hcompletes.filled j hj hj' with hvouched | ⟨origin, hparked⟩
      · exact .inl hvouched
      · exact .inr (parked_after_insert hm hok hparked).1
    refine ⟨hok.started, hok.start_le.trans hextends.index_le, ?_, hassigned, fun j hj hj' => ?_,
      fun hk => parked_after_insert hm hok (hcompletes.rest_mem _ hk)⟩
    · unfold InMemoryNanoLog.getLocalCommitIndex
      by_contra hgt
      have hle := hok.le_highest
      rcases hmoved highestNonExistingLogId hle (not_le.mp hgt) with ⟨g, hg, hlt⟩ | ⟨p, hp⟩
      · exact absurd (hvouched g hg).1 (not_le.mpr hlt)
      · exact lt_irrefl _ (h.lt_highest_of_assigned (hassigned hp))
    · by_cases hold : j < nl.getLocalCommitIndex
      · exact (hok.filled j hj hold).imp_left fun ⟨p, hp⟩ => ⟨p, hextends.logs hp⟩
      · rcases hmoved j (not_lt.mp hold) hj' with ⟨g, hg, hlt⟩ | hstored
        · exact .inr ((hvouched g hg).2 j hj hlt)
        · exact .inl hstored

/-- A fulfilled promise was accepted, is stored, and lies below the new index. -/
theorem completed_spec {m : Request N} (hm : s.AdmittedOk m)
    (hok : s.NanoLogOk m.replica m.versionId nl) {k : Int} {origin : Origin}
    (hk : (k, origin) ∈ (appended nl m).completed) :
    .accepted origin m.replica m.versionId k ∈ s.trace ∧
      (∃ p, (appended nl m).nanoLog.logs.find? k = some p) ∧
      k < (appended nl m).nanoLog.getLocalCommitIndex := by
  unfold appended at hk ⊢
  cases hfind : nl.logs.find? m.logId with
  | some p =>
    rw [InMemoryNanoLog.appendLocked_of_occupied hfind] at hk
    exact absurd hk List.not_mem_nil
  | none =>
    rw [InMemoryNanoLog.appendLocked_of_vacant hfind] at hk ⊢
    have hcompletes := InMemoryNanoLog.park_completes nl.completionQueue m.globalCommitIndex
      m.logId m.origin
    obtain ⟨hstored, haccepted⟩ := parked_after_insert hm hok (hcompletes.done_mem _ hk)
    exact ⟨haccepted, hstored, hcompletes.done_lt _ hk⟩

/-- An answer given at once: failure, or a seal-skipping append to an occupied position. -/
theorem answer_spec {m : Request N} {answer : Except ReplicaException Int}
    (ha : answer ∈ (appended nl m).answer.toList)
    (hr : hasValue (some (answer.map fun _ => ()))) :
    m.origin ≠ .sequencer ∧ ∃ p, (appended nl m).nanoLog.logs.find? m.logId = some p := by
  unfold appended at ha ⊢
  cases hfind : nl.logs.find? m.logId with
  | some p =>
    rw [InMemoryNanoLog.appendLocked_of_occupied hfind] at ha ⊢
    simp only [Option.toList_some, List.mem_singleton] at ha
    refine ⟨fun horigin => ?_, p, hfind⟩
    rw [ha, horigin] at hr
    exact absurd hr (by simp [Origin.skipSeal, Except.map, hasValue])
  | none =>
    rw [InMemoryNanoLog.appendLocked_of_vacant hfind] at ha
    exact absurd ha List.not_mem_nil

theorem execute_changes (h : s.Valid firstEnd) {m : Request N} (hs : s.execute m = some s') :
    s.Changes firstEnd s' := by
  obtain ⟨hmem, nl, hnl, rfl⟩ := execute_eq_some hs
  have hm := h.admitted m hmem
  have hok := h.nanoLogs _ _ nl hnl
  have grows : s.Grows { s.setReplica m.replica
      ((s.replicas m.replica).add m.versionId (appended nl m).nanoLog) with
        admitted := s.admitted.erase m
        replies := answers m (appended nl m) ++ s.replies
        trace := completions m (appended nl m) ++ s.trace } :=
    { Grows.refl s with
      nanoLog := fun hold => nanoLog_of_setReplica (fun old hold => by
        rw [Option.some.inj (hold.symm.trans hnl)]
        exact InMemoryNanoLog.appendLocked_extends) hold
      trace := fun ho => List.mem_append_right _ ho }
  have hnew : ({ s.setReplica m.replica
      ((s.replicas m.replica).add m.versionId (appended nl m).nanoLog) with
        admitted := s.admitted.erase m
        replies := answers m (appended nl m) ++ s.replies
        trace := completions m (appended nl m) ++ s.trace } : LogSystem N).nanoLog? m.replica
          m.versionId = some (appended nl m).nanoLog :=
    (nanoLog?_setReplica (s := s)).trans (if_pos ⟨rfl, rfl⟩)
  refine { Accounted.refl _ s with
    grows
    admitted := fun m' hm' => .inl (List.mem_of_mem_erase hm')
    replies := fun m' hm' => ?_
    trace := fun o ho => ?_
    nanoLogs := fun r' v' nl' hnl' => nanoLogOk_of_setReplica ((hok.append h hm).mono grows) hnl' }
  · rcases List.mem_append.mp hm' with hm' | hm'
    · refine .inr ?_
      rcases List.mem_append.mp hm' with hm' | hm'
      · obtain ⟨answer, hanswer, rfl⟩ := List.mem_map.mp hm'
        refine ⟨fun hr => ?_, fun hr horigin => ?_⟩
        · exact (answer_spec hanswer hr).2.imp fun p hp => entry_eq_some.mpr ⟨_, hnew, hp⟩
        · exact absurd horigin (answer_spec hanswer hr).1
      · obtain ⟨⟨k, origin⟩, hk, rfl⟩ := List.mem_map.mp hm'
        refine ⟨fun _ => ?_, fun _ horigin => ?_⟩
        · exact (completed_spec hm hok hk).2.1.imp fun p hp => entry_eq_some.mpr ⟨_, hnew, hp⟩
        · refine List.mem_append_left _ (List.mem_map.mpr ⟨(k, origin), hk, ?_⟩)
          exact congrArg (Observation.completed · m.replica m.versionId k) horigin
    · exact .inl hm'
  · rcases List.mem_append.mp ho with ho | ho
    · obtain ⟨⟨k, origin⟩, hk, rfl⟩ := List.mem_map.mp ho
      obtain ⟨haccepted, hstored, hlt⟩ := completed_spec hm hok hk
      exact .inr ⟨grows.trace haccepted, _, hnew, hstored, hlt⟩
    · exact .inl ho

end LogSystem

end ReplicatedCounter.Log
