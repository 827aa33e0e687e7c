import ReplicatedCounter.Log.Steps

/-!
# Reconfiguring keeps everything in order

The rest of the operations, in the manner of the file before: sealing, re-replicating, installing a
version, reading. `step_changes` collects all of them, and `run_valid` and `run_grows` are the two
facts about runs that the rest of the development uses.

A reconfiguration starts its loop at the smallest index it was told. What lies below that index
every replica of a majority has moved past, so a quorum stores it (`ReconfigureFrom.covered_min`);
the loop takes care of the rest, and so the new version starts where the old one is complete.
-/

set_option autoImplicit false

namespace ReplicatedCounter.Log.LogSystem

open Metadata InMemoryMetadataStore

variable {N : Nat} {s s' : LogSystem N} {firstEnd v l j a : Int} {p : String} {r : Fin N}
  {nl : InMemoryNanoLog Origin}

/-! ## Sealing -/

theorem sealReplica_eq_some {endLogId : Int} (hs : s.sealReplica r v = some (s', endLogId)) :
    ∃ config nl, s.metadataStore.getConfig v = some config ∧
      (s.nanoLog? r v = some nl ∨
        (s.nanoLog? r v = none ∧ nl = ReplicaImpl.makeNanoLog v config)) ∧
      s' = s.setReplica r ((s.replicas r).add v { nl with sealed := true }) ∧
      endLogId = nl.getLocalCommitIndex := by
  unfold sealReplica at hs
  split at hs
  · exact absurd hs (by simp)
  · rename_i replica endLogId' hseal
    obtain ⟨config, nl, hconfig, hnl, hreplica, hend⟩ := ReplicaImpl.seal_eq_ok hseal
    obtain ⟨rfl, rfl⟩ := Prod.mk.inj (Option.some.inj hs)
    exact ⟨config, nl, hconfig, hnl, by rw [hreplica], hend⟩

/-- Sealing leaves a sealed nanolog whose index is the answer. -/
theorem sealReplica_changes (h : s.Valid firstEnd) {endLogId : Int}
    (hs : s.sealReplica r v = some (s', endLogId)) :
    s.Changes firstEnd s' ∧ ∃ nl, s'.nanoLog? r v = some nl ∧ nl.sealed = true ∧
      nl.getLocalCommitIndex = endLogId := by
  obtain ⟨config, nl, hconfig, hnl, rfl, rfl⟩ := sealReplica_eq_some hs
  have hok : s.NanoLogOk r v nl := by
    rcases hnl with hnl | ⟨-, rfl⟩
    · exact h.nanoLogs r v nl hnl
    · exact h.makeNanoLog_ok hconfig
  refine ⟨setNanoLog_changes (fun old hold => ?_) ?_, _,
    nanoLog?_setReplica.trans (if_pos ⟨rfl, rfl⟩), rfl, rfl⟩
  · rcases hnl with hnl | ⟨hnone, -⟩
    · rw [Option.some.inj (hold.symm.trans hnl)]
      exact nl.seal_extends
    · exact absurd (hnone.symm.trans hold) (by simp)
  · exact ⟨hok.started, hok.start_le, hok.le_highest, hok.assigned, hok.filled, hok.parked⟩

theorem sealNext_eq_some {t : CallId} (hs : s.sealNext t = some s') :
    ∃ task r remaining s₁ endLogId, s.reconfigures t = some task ∧ task.phase = .sealing ∧
      task.toSeal = r :: remaining ∧ s.sealReplica r task.versionId = some (s₁, endLogId) ∧
      s' = s₁.setReconfigure t (task.afterSeal endLogId remaining) := by
  obtain ⟨task, htask, hs⟩ := Option.bind_eq_some_iff.mp hs
  split at hs
  · rename_i r remaining hphase htoSeal
    obtain ⟨⟨s₁, endLogId⟩, hseal, hs⟩ := Option.bind_eq_some_iff.mp hs
    exact ⟨task, r, remaining, s₁, endLogId, htask, hphase, htoSeal, hseal,
      (Option.some.inj hs).symm⟩
  · exact absurd hs (by simp)

/-- One more replica is sealed. -/
theorem hasSealed_collect {task : Reconfigure N} {remaining : List (Fin N)}
    (hsuffix : ∃ front, task.replicaSet.replicas = front ++ task.toSeal)
    (htoSeal : task.toSeal = r :: remaining) (endLogId : Int) (r' : Fin N) :
    (task.collect endLogId remaining).HasSealed r' ↔ r' = r ∨ task.HasSealed r' := by
  obtain ⟨front, hfront⟩ := hsuffix
  have hnodup := task.replicaSet.nodup
  rw [hfront, htoSeal] at hnodup
  have hr : r ∉ remaining := (List.nodup_cons.mp (List.nodup_append.mp hnodup).2.1).1
  have hmem : r ∈ task.replicaSet.replicas := by
    rw [hfront, htoSeal]
    exact List.mem_append_right _ List.mem_cons_self
  unfold Reconfigure.HasSealed Reconfigure.collect
  rw [htoSeal]
  dsimp only
  constructor
  · rintro ⟨hin, hout⟩
    by_cases heq : r' = r
    · exact .inl heq
    · exact .inr ⟨hin, List.not_mem_cons_of_ne_of_not_mem heq hout⟩
  · rintro (rfl | ⟨hin, hout⟩)
    · exact ⟨hmem, hr⟩
    · exact ⟨hin, fun h => hout (List.mem_cons_of_mem r h)⟩

theorem ReconfigureFrom.collect (h : s.Valid firstEnd) {task : Reconfigure N}
    {remaining : List (Fin N)} (ha : s.ReconfigureFrom task a) (hphase : task.phase = .sealing)
    (htoSeal : task.toSeal = r :: remaining) (hnl : s.nanoLog? r task.versionId = some nl)
    (hsealed : nl.sealed = true) :
    s.ReconfigureFrom (task.collect nl.getLocalCommitIndex remaining) a := by
  have hok := h.nanoLogs r _ nl hnl
  have hstart : a ≤ nl.getLocalCommitIndex := by
    rw [← hok.started.unique ha.started]
    exact hok.start_le
  have hiff := hasSealed_collect ha.suffix htoSeal nl.getLocalCommitIndex
  refine ⟨ha.started, ?_, le_min ha.start_le_min hstart, fun r' hr' => ?_, fun r' _ => ?_,
    ha.lowest_le_max.trans (le_max_left ..), max_le ha.max_le_highest hok.le_highest, ?_, ?_⟩
  · obtain ⟨front, hfront⟩ := ha.suffix
    refine ⟨front ++ [r], ?_⟩
    rw [List.append_assoc]
    exact hfront.trans (by rw [htoSeal]; rfl)
  · rcases (hiff r').mp hr' with rfl | hr'
    · exact ⟨nl, hnl, hsealed, min_le_right ..⟩
    · obtain ⟨nl', hnl', hsealed', hle⟩ := ha.sealed r' hr'
      exact ⟨nl', hnl', hsealed', (min_le_left ..).trans hle⟩
  · exact hstart.trans (le_max_right ..)
  · rcases le_total nl.getLocalCommitIndex task.maxLogId with hle | hle
    · have hmax : (task.collect nl.getLocalCommitIndex remaining).maxLogId = task.maxLogId :=
        max_eq_left hle
      rw [hmax]
      refine ha.max_attained.imp_right ?_
      rintro ⟨r', nl', hr', hnl', hle'⟩
      exact ⟨r', nl', (hiff r').mpr (.inr hr'), hnl', hle'⟩
    · exact .inr ⟨r, nl, (hiff r).mpr (.inl rfl), hnl, (max_eq_right hle).le⟩
  · unfold Progress Reconfigure.collect
    rw [hphase]
    trivial

/-- **What all sealed replicas have moved past is on a quorum.** -/
theorem ReconfigureFrom.covered_min (h : s.Valid firstEnd) {task : Reconfigure N}
    (ha : s.ReconfigureFrom task a) (htoSeal : task.toSeal = []) :
    s.Covered task.versionId a task.minLogId := by
  intro j hj hj'
  have hcard : task.replicaSet.replicas.toFinset.card = N / 2 + 1 := by
    rw [List.toFinset_card_of_nodup task.replicaSet.nodup, task.replicaSet.length_eq]
  refine h.replicated_of_quorum hcard.ge fun r hr => ?_
  obtain ⟨nl, hnl, -, hle⟩ := ha.sealed r ⟨List.mem_toFinset.mp hr, by simp [htoSeal]⟩
  exact h.stored_or_replicated hnl ha.started hj (hj'.trans_le hle)

theorem sealNext_changes (h : s.Valid firstEnd) {t : CallId} (hs : s.sealNext t = some s') :
    s.Changes firstEnd s' := by
  obtain ⟨task, r, remaining, s₁, endLogId, htask, hphase, htoSeal, hseal, rfl⟩ :=
    sealNext_eq_some hs
  obtain ⟨hchanges, nl, hnl, hsealed, rfl⟩ := sealReplica_changes h hseal
  have h₁ := h.of_changes hchanges
  obtain ⟨a, ha⟩ := (h.reconfigures t task htask).mono hchanges.grows
  have hcollect := ha.collect h₁ hphase htoSeal hnl hsealed
  refine hchanges.trans (setReconfigure_changes ⟨a, ?_⟩)
  cases remaining with
  | nil => exact hcollect.loop rfl hcollect.start_le_min (hcollect.covered_min h₁ rfl)
  | cons r' rest => exact hcollect

/-! ## The other steps of a reconfiguration -/

theorem reconfigure_eq_some {t : CallId} {target : MetadataConfig} {replicaSet : MajoritySet N}
    (hs : s.reconfigure t target replicaSet = some s') :
    s.reconfigures t = none ∧ s' = s.setReconfigure t
      { versionId := s.metadataStore.getCurrentVersionId
        targetMetadataConfig := target
        replicaSet } := by
  unfold reconfigure at hs
  split at hs
  · exact absurd hs (by simp)
  · rename_i hnone
    exact ⟨hnone, (Option.some.inj hs).symm⟩

theorem reconfigure_changes (h : s.Valid firstEnd) {t : CallId} {target : MetadataConfig}
    {replicaSet : MajoritySet N} (hs : s.reconfigure t target replicaSet = some s') :
    s.Changes firstEnd s' := by
  obtain ⟨-, rfl⟩ := reconfigure_eq_some hs
  obtain ⟨config, hconfig⟩ := s.metadataStore.getConfig_currentVersion
  have hnone : ∀ r, ¬ Reconfigure.HasSealed
      { versionId := s.metadataStore.getCurrentVersionId, targetMetadataConfig := target,
        replicaSet } r := fun r hr => hr.2 hr.1
  refine setReconfigure_changes ⟨config.startIndex, ?_, ⟨[], rfl⟩,
    (h.store.getConfig_bounded hconfig).2, fun r hr => absurd hr (hnone r),
    fun r hr => absurd hr (hnone r), le_refl _, lowest_le_highest, .inl rfl, trivial⟩
  unfold Started
  rw [hconfig]
  rfl

theorem getLogEntry_eq_ok {entry : LogEntry}
    (h : (s.replicas r).getLogEntry v l = .ok entry) :
    ∃ p, s.entry r v l = some p ∧ entry = ⟨l, p⟩ := by
  unfold ReplicaImpl.getLogEntry at h
  split at h
  · exact absurd h (by simp)
  · rename_i nl hnl
    unfold InMemoryNanoLog.getLogEntry at h
    split at h
    · rename_i p hp
      exact ⟨p, entry_eq_some.mpr ⟨nl, hnl, hp⟩, (Except.ok.inj h).symm⟩
    · exact absurd h (by simp)

theorem getLogEntry_of_entry (h : s.entry r v l = some p) :
    (s.replicas r).getLogEntry v l = .ok ⟨l, p⟩ := by
  obtain ⟨nl, hnl, hp⟩ := entry_eq_some.mp h
  unfold nanoLog? at hnl
  unfold ReplicaImpl.getLogEntry
  rw [hnl]
  dsimp only [InMemoryNanoLog.getLogEntry]
  rw [hp]

theorem readEntry_eq_some {t : CallId} (hs : s.readEntry t r = some s') :
    ∃ task l p, s.reconfigures t = some task ∧ task.phase = .reading l ∧
      s.entry r task.versionId l = some p ∧
      s' = { s.setReconfigure t { task with phase := .appending l .make } with
        requests := (List.finRange N).map (fun i =>
          ⟨i, .reconfigure t, none, task.versionId, l, p⟩) ++ s.requests } := by
  obtain ⟨task, htask, hs⟩ := Option.bind_eq_some_iff.mp hs
  split at hs
  · rename_i l hphase
    split at hs
    · split at hs
      · exact absurd hs (by simp)
      · rename_i entry hentry
        obtain ⟨p, hp, rfl⟩ := getLogEntry_eq_ok hentry
        exact ⟨task, l, p, htask, hphase, hp, (Option.some.inj hs).symm⟩
    · exact absurd hs (by simp)
  · exact absurd hs (by simp)

theorem readEntry_changes (h : s.Valid firstEnd) {t : CallId} (hs : s.readEntry t r = some s') :
    s.Changes firstEnd s' := by
  obtain ⟨task, l, p, htask, hphase, hentry, rfl⟩ := readEntry_eq_some hs
  obtain ⟨a, ha⟩ := h.reconfigures t task htask
  have hprogress := ha.progress
  unfold Progress at hprogress
  rw [hphase] at hprogress
  obtain ⟨hsealed, hl, -, hcovered⟩ := hprogress
  have htask' : s.ReconfigureFrom { task with phase := .appending l .make } a :=
    ha.withPhase ⟨hsealed, hl, hcovered, fun i hi => absurd hi (by simp [AnyNSuccessful.make])⟩
  refine (setReconfigure_changes (t := t) ⟨a, htask'⟩).trans
    { Accounted.refl _ (s.setReconfigure t _) with
    grows := { Grows.refl (s.setReconfigure t _) with }
    requests := fun m hm => ?_ }
  rcases List.mem_append.mp hm with hm | hm
  · obtain ⟨i, -, rfl⟩ := List.mem_map.mp hm
    exact .inr ⟨h.assigned_of_entry hentry, a, ha.started, fun g hg => absurd hg (by simp)⟩
  · exact .inl hm

/-- The call is over. -/
def returned (s : LogSystem N) (t : CallId) (task : Reconfigure N) : LogSystem N :=
  s.setReconfigure t { task with phase := .returned }

theorem abort_eq_some {t : CallId} (hs : s.abort t = some s') :
    ∃ task, s.reconfigures t = some task ∧ s' = s.returned t task := by
  obtain ⟨task, htask, hs⟩ := Option.bind_eq_some_iff.mp hs
  split at hs
  · exact absurd hs (by simp)
  · exact ⟨task, htask, (Option.some.inj hs).symm⟩

theorem returned_changes (h : s.Valid firstEnd) {t : CallId} {task : Reconfigure N}
    (htask : s.reconfigures t = some task) : s.Changes firstEnd (s.returned t task) := by
  obtain ⟨a, ha⟩ := h.reconfigures t task htask
  exact setReconfigure_changes ⟨a, ha.withPhase trivial⟩

theorem abort_changes (h : s.Valid firstEnd) {t : CallId} (hs : s.abort t = some s') :
    s.Changes firstEnd s' := by
  obtain ⟨task, htask, rfl⟩ := abort_eq_some hs
  exact returned_changes h htask

/-! ## Installing a version -/

theorem install_eq_some {t : CallId} (hs : s.install t = some s') :
    ∃ task, s.reconfigures t = some task ∧ task.phase = .installing ∧
      (s' = s.returned t task ∨
        ∃ m, s.metadataStore.compareAndAppendRange task.newConfig = .ok m ∧
          s' = ({ s.returned t task with metadataStore := m } : LogSystem N).setSequencer
            (task.versionId + 1) (.start task.maxLogId)) := by
  obtain ⟨task, htask, hs⟩ := Option.bind_eq_some_iff.mp hs
  split at hs
  · rename_i hphase
    refine ⟨task, htask, hphase, ?_⟩
    dsimp only at hs
    split at hs
    · exact .inl (Option.some.inj hs).symm
    · split at hs
      · exact .inl (Option.some.inj hs).symm
      · rename_i m hcar
        exact .inr ⟨m, hcar, (Option.some.inj hs).symm⟩
  · exact absurd hs (by simp)

/-- A reconfiguration that is done sealing has a bound at or above the start of its version. -/
theorem ReconfigureFrom.start_le {task : Reconfigure N} (ha : s.ReconfigureFrom task a)
    (htoSeal : task.toSeal = []) : a ≤ task.maxLogId := by
  have hlength := task.replicaSet.length_eq
  cases hreplicas : task.replicaSet.replicas with
  | nil =>
    rw [hreplicas] at hlength
    exact absurd hlength (by simp)
  | cons r rest =>
    refine ha.start_le_max r ⟨?_, by simp [htoSeal]⟩
    rw [hreplicas]
    exact List.mem_cons_self

theorem StoreOk.append {m m' : InMemoryMetadataStore} {task : Reconfigure N}
    (h : StoreOk firstEnd m) (hcar : m.compareAndAppendRange task.newConfig = .ok m')
    (hstart : ∀ a, m.startOf task.versionId = some a → a ≤ task.maxLogId)
    (hbounded : lowestNonExistingLogId ≤ task.maxLogId ∧
      task.maxLogId ≤ highestNonExistingLogId) : StoreOk firstEnd m' := by
  have hprev : task.versionId = m.getCurrentVersionId :=
    previousVersionId_of_compareAndAppendRange hcar
  have hnonneg := h.chain.current_nonneg
  have hnew : m'.startOf (task.versionId + 1) = some task.maxLogId :=
    (startOf_of_compareAndAppendRange hcar).trans (if_pos rfl)
  refine ⟨h.chain.append hcar rfl hstart ?_, fun v a hv => ?_, fun hzero => ?_⟩
  · change highestNonExistingLogId = if task.versionId + 1 = 1 then _ else _
    split
    · exact (h.first (by omega)).symm
    · rfl
  · rw [startOf_of_compareAndAppendRange hcar] at hv
    split at hv
    · rw [← Option.some.inj hv]
      exact hbounded
    · exact h.bounded v a hv
  · have := le_getCurrentVersionId hnew
    omega

theorem install_changes (h : s.Valid firstEnd) {t : CallId} (hs : s.install t = some s') :
    s.Changes firstEnd s' := by
  obtain ⟨task, htask, hphase, hs'⟩ := install_eq_some hs
  obtain ⟨a, ha⟩ := h.reconfigures t task htask
  have hreturned : s.Changes firstEnd (s.returned t task) := returned_changes h htask
  rcases hs' with rfl | ⟨m, hcar, rfl⟩
  · exact hreturned
  · have hprogress := ha.progress
    unfold Progress at hprogress
    rw [hphase] at hprogress
    have hprev : task.versionId = s.metadataStore.getCurrentVersionId :=
      previousVersionId_of_compareAndAppendRange hcar
    have hfresh : ∀ {w b}, s.metadataStore.startOf w = some b → w ≠ task.versionId + 1 := by
      intro w b hw
      have := le_getCurrentVersionId hw
      omega
    have hkeep : ∀ {w b}, s.metadataStore.startOf w = some b → m.startOf w = some b := fun hw =>
      ((startOf_of_compareAndAppendRange hcar).trans (if_neg (hfresh hw))).trans hw
    have hnew : m.startOf (task.versionId + 1) = some task.maxLogId :=
      (startOf_of_compareAndAppendRange hcar).trans (if_pos rfl)
    have grows : (s.returned t task).Grows (({ s.returned t task with metadataStore := m } :
        LogSystem N).setSequencer (task.versionId + 1) (.start task.maxLogId)) := by
      refine { Grows.refl (s.returned t task) with
        started := fun {w b} hw => ?_
        startOf := hkeep
        sequencer := fun {w q} hq => ?_ }
      · unfold Started getConfig at hw ⊢
        split at hw
        · rename_i hzero
          rw [if_pos hzero]
          exact hw
        · rename_i hzero
          rw [if_neg hzero]
          exact hkeep hw
      · obtain ⟨b, hb⟩ := h.sequencers w q hq
        exact ⟨q, (Function.update_of_ne (hfresh hb.startOf) ..).trans hq, le_refl _⟩
    have hstore : StoreOk firstEnd m := by
      refine h.store.append hcar (fun b hb => ?_) ⟨ha.lowest_le_max, ha.max_le_highest⟩
      rw [(Started.of_startOf h hb).unique ha.started]
      exact ha.start_le hprogress.1
    refine hreturned.trans { (.refl _ (s.returned t task) : Accounted firstEnd _ _ _) with
      grows
      store := .inr hstore
      sequencers := fun w q hq => ?_ }
    rcases Parties.eq_some_of_update hq with ⟨rfl, rfl⟩ | ⟨-, hold⟩
    · exact .inr ⟨task.maxLogId, hnew, le_refl _, ha.max_le_highest, ha.max_le_highest,
        fun j hj hj' => absurd hj (not_le.mpr hj')⟩
    · exact .inl hold

/-! ## Reading -/

theorem setRead_reads (s : LogSystem N) (c : CallId) (read : Read) :
    (s.setRead c read).reads c = some read :=
  Function.update_self ..

/-- A read goes on with the id and the version it was begun with. -/
theorem setRead_changes {c : CallId} {read : Read}
    (hsame : ∀ old, s.reads c = some old → read.logId = old.logId ∧ read.versionId = old.versionId)
    (hok : s.ReadOk read) : s.Changes firstEnd (s.setRead c read) := by
  have grows : s.Grows (s.setRead c read) :=
    { Grows.refl s with
      read := fun {c' old} hold => by
        by_cases hc : c' = c
        · subst hc
          exact ⟨read, Function.update_self .., hsame old hold⟩
        · exact ⟨old, (Function.update_of_ne hc ..).trans hold, rfl, rfl⟩ }
  refine { Accounted.refl _ s with grows, reads := fun c' read' hr => ?_ }
  rcases Parties.eq_some_of_update hr with ⟨-, rfl⟩ | ⟨-, hold⟩
  · exact .inr hok
  · exact .inl hold

theorem getLogEntry_eq_some {c : CallId} (hs : s.getLogEntry c l = some s') :
    s.reads c = none ∧ ∃ config, s.metadataStore.getConfigUsingLogId l = some config ∧
      s' = s.setRead c { logId := l, versionId := config.versionId } := by
  unfold getLogEntry at hs
  split at hs
  · exact absurd hs (by simp)
  · rename_i hnone
    obtain ⟨config, hconfig, hs⟩ := Option.bind_eq_some_iff.mp hs
    exact ⟨hnone, config, hconfig, (Option.some.inj hs).symm⟩

theorem probe_eq_some {c : CallId} (hs : s.probe c = some s') :
    ∃ read, s.reads c = some read ∧ read.result = none ∧
      (s' = s.setRead c { read with retryAttempt := read.retryAttempt + 1 } ∨
        ∃ r p, s.entry r read.versionId read.logId = some p ∧
          s' = s.setRead c { read with result := some ⟨read.logId, p⟩ }) := by
  obtain ⟨read, hread, hs⟩ := Option.bind_eq_some_iff.mp hs
  split at hs
  · exact absurd hs (by simp)
  · rename_i hresult
    refine ⟨read, hread, hresult, ?_⟩
    split at hs
    · rename_i hlt
      split at hs
      · exact .inl (Option.some.inj hs).symm
      · rename_i entry hentry
        obtain ⟨p, hp, rfl⟩ := getLogEntry_eq_ok hentry
        exact .inr ⟨⟨read.retryAttempt, hlt⟩, p, hp, (Option.some.inj hs).symm⟩
    · exact absurd hs (by simp)

/-- Another attempt changes nothing about what the read is after. -/
theorem retry_changes (h : s.Valid firstEnd) {c : CallId} {read : Read}
    (hread : s.reads c = some read) : s.Changes firstEnd
      (s.setRead c { read with retryAttempt := read.retryAttempt + 1 }) := by
  refine setRead_changes (fun old hold => ?_) (h.reads c read hread)
  rw [Option.some.inj (hold.symm.trans hread)]
  exact ⟨rfl, rfl⟩

theorem failProbe_eq_some {c : CallId} (hs : s.failProbe c = some s') :
    ∃ read, s.reads c = some read ∧
      s' = s.setRead c { read with retryAttempt := read.retryAttempt + 1 } := by
  obtain ⟨read, hread, hs⟩ := Option.bind_eq_some_iff.mp hs
  split at hs
  · exact absurd hs (by simp)
  · split at hs
    · exact ⟨read, hread, (Option.some.inj hs).symm⟩
    · exact absurd hs (by simp)

theorem failProbe_changes (h : s.Valid firstEnd) {c : CallId} (hs : s.failProbe c = some s') :
    s.Changes firstEnd s' := by
  obtain ⟨read, hread, rfl⟩ := failProbe_eq_some hs
  exact retry_changes h hread

theorem probe_changes (h : s.Valid firstEnd) {c : CallId} (hs : s.probe c = some s') :
    s.Changes firstEnd s' := by
  obtain ⟨read, hread, hresult, rfl | ⟨r, p, hp, rfl⟩⟩ := probe_eq_some hs
  · exact retry_changes h hread
  · refine setRead_changes (fun old hold => ?_) fun e he => ?_
    · rw [Option.some.inj (hold.symm.trans hread)]
      exact ⟨rfl, rfl⟩
    · obtain rfl := Option.some.inj he
      exact h.assigned_of_entry hp

/-! ## Runs -/

/-- **What a step does to a state in order.** -/
theorem step_changes (h : s.Valid firstEnd) {e : LogEvent N} (hs : s.step e = some s') :
    s.Changes firstEnd s' := by
  cases e with
  | append v payload => exact append_changes h hs
  | send v l => exact send_changes h hs
  | arrive m => exact arrive_changes h hs
  | execute m => exact execute_changes h hs
  | receive m => exact receive_changes h hs
  | timeout r origin v l => exact timeout_changes h hs
  | acknowledge v l => exact acknowledge_changes h hs
  | «seal» r v =>
    obtain ⟨⟨s₁, endLogId⟩, hseal, rfl⟩ := Option.map_eq_some_iff.mp hs
    exact (sealReplica_changes h hseal).1
  | reconfigure t target replicaSet => exact reconfigure_changes h hs
  | sealNext t => exact sealNext_changes h hs
  | readEntry t r => exact readEntry_changes h hs
  | install t => exact install_changes h hs
  | abort t => exact abort_changes h hs
  | getLogEntry c l =>
    obtain ⟨hnone, config, -, rfl⟩ := getLogEntry_eq_some hs
    exact setRead_changes (fun old hold => absurd (hnone.symm.trans hold) (by simp))
      fun e he => absurd he (by simp)
  | probe c => exact probe_changes h hs
  | failProbe c => exact failProbe_changes h hs

/-- Where the first version ends, as far as lookups are concerned. -/
def firstVersionEnd : Option Bootstrap → Int
  | none => highestNonExistingLogId
  | some b => b.config.endIndex

theorem initial_valid (b : Option Bootstrap) : (initial N b).Valid (firstVersionEnd b) := by
  cases b with
  | none =>
    refine ⟨⟨.empty, fun v a hv => absurd hv (by simp [initial, InMemoryMetadataStore.startOf]),
      fun _ => rfl⟩, ?_, ?_, ?_, ?_, ?_, ?_, ?_, ?_, ?_⟩
    all_goals simp [initial, nanoLog?]
  | some b =>
    have hstore : (initial N (some b)).metadataStore = b.metadataStore := rfl
    have hcar := b.compareAndAppendRange
    have hstart : b.metadataStore.startOf 1 = some b.config.startIndex := by
      rw [startOf_of_compareAndAppendRange hcar, b.versionId_eq, if_pos rfl]
    refine ⟨hstore ▸ ⟨ConfigChain.empty.append hcar ?_ ?_ ?_, fun v a hv => ?_, fun hzero => ?_⟩,
      ?_, ?_, ?_, ?_, ?_, fun v q hq => ?_, ?_, ?_, ?_⟩
    · rw [b.versionId_eq, b.previousVersionId_eq]
      rfl
    · exact fun a ha => absurd ha (by simp [InMemoryMetadataStore.startOf])
    · rw [if_pos b.versionId_eq]
      rfl
    · rw [startOf_of_compareAndAppendRange hcar] at hv
      split at hv
      · rw [← Option.some.inj hv]
        exact ⟨b.lowest_le, b.le_highest⟩
      · exact absurd hv (by simp [InMemoryMetadataStore.startOf])
    · have := le_getCurrentVersionId hstart
      omega
    case refine_11 =>
      rcases Parties.eq_some_of_update hq with ⟨rfl, rfl⟩ | ⟨-, hold⟩
      · refine ⟨b.config.startIndex, ?_, le_refl _, b.le_highest, b.le_highest,
          fun j hj hj' => absurd hj (not_le.mpr hj')⟩
        rw [b.versionId_eq]
        exact hstart
      · exact absurd hold (by simp)
    all_goals simp [initial, setSequencer, nanoLog?]

variable {es : List (LogEvent N)}

/-- **Every reachable state is in order.** -/
theorem run_valid {b : Option Bootstrap} (h : Transition.run step (initial N b) es = some s) :
    s.Valid (firstVersionEnd b) :=
  Transition.run_invariant (fun _ _ _ hv hs => hv.of_changes (step_changes hv hs)) h
    (initial_valid b)

/-- **Nothing is ever taken back.** -/
theorem run_grows (h : s.Valid firstEnd) (hrun : Transition.run step s es = some s') :
    s.Grows s' ∧ s'.Valid firstEnd := by
  refine Transition.run_invariant (P := fun t => s.Grows t ∧ t.Valid firstEnd) ?_ hrun ⟨.refl s, h⟩
  rintro t e t' ⟨hg, hv⟩ hs
  have hc := step_changes hv hs
  exact ⟨hg.trans hc.grows, hv.of_changes hc⟩

end ReplicatedCounter.Log.LogSystem
