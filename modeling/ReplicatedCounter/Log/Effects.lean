import ReplicatedCounter.Log.Reachable

/-!
# What a step can do

`step_changes` says that a step keeps the state in order. Arguments about whole runs also need to
know what a step does *not* do. For them the events fall into six kinds (`Effect`): most change
nothing an observer cares about; one assigns an id, one records an accepted request, one records
fulfilled promises, one moves a reconfiguration, and one installs a version. `step_effect` is the
only case analysis over all events; what follows it are the four questions asked about a step.
-/

set_option autoImplicit false

namespace ReplicatedCounter.Log.LogSystem

open Metadata InMemoryMetadataStore

variable {N : Nat} {s s' : LogSystem N} {firstEnd v l : Int} {p : String} {r : Fin N}
  {e : LogEvent N} {t t' : CallId} {task task' task'' : Reconfigure N}

/-! ## Reconfigurations -/

/-- The same call with the same bounds, perhaps at another point of its code. -/
structure SameBounds (task task' : Reconfigure N) : Prop where
  versionId : task'.versionId = task.versionId
  replicaSet : task'.replicaSet = task.replicaSet
  toSeal : task'.toSeal = task.toSeal
  maxLogId : task'.maxLogId = task.maxLogId

theorem SameBounds.refl (task : Reconfigure N) : SameBounds task task := ⟨rfl, rfl, rfl, rfl⟩

theorem SameBounds.hasSealed (h : SameBounds task task') (hr : task'.HasSealed r) :
    task.HasSealed r := by
  unfold Reconfigure.HasSealed at hr ⊢
  rw [h.replicaSet, h.toSeal] at hr
  exact hr

theorem SameBounds.withPhase (task : Reconfigure N) (phase : Phase N) :
    SameBounds task { task with phase } :=
  ⟨rfl, rfl, rfl, rfl⟩

theorem SameBounds.afterAppend (task : Reconfigure N) (l : Int)
    (futures : AnyNSuccessful N (N / 2 + 1)) : SameBounds task (task.afterAppend l futures) := by
  unfold Reconfigure.afterAppend
  split
  · exact .withPhase ..
  · exact .withPhase ..
  · exact .withPhase ..

theorem SameBounds.afterSeal (task : Reconfigure N) (endLogId : Int) (remaining : List (Fin N)) :
    SameBounds (task.collect endLogId remaining) (task.afterSeal endLogId remaining) := by
  unfold Reconfigure.afterSeal
  cases remaining with
  | nil => exact .withPhase ..
  | cons r rest => exact .refl _

/-- What a step may do to a call of `reconfigure`: nothing to its bounds, begin it, or let it seal
one more replica. -/
inductive ReconfigureStep (s s' : LogSystem N) (t : CallId) (task' : Reconfigure N) : Prop where
  | same (task : Reconfigure N) (htask : s.reconfigures t = some task)
      (hsame : SameBounds task task')
  | begun (hnone : s.reconfigures t = none) (hsealed : task'.toSeal = task'.replicaSet.replicas)
  | sealed (task : Reconfigure N) (r : Fin N) (remaining : List (Fin N))
      (nl : InMemoryNanoLog Origin) (htask : s.reconfigures t = some task)
      (htoSeal : task.toSeal = r :: remaining) (hnl : s'.nanoLog? r task.versionId = some nl)
      (hsame : SameBounds (task.collect nl.getLocalCommitIndex remaining) task')

/-! ## Effects -/

/-- Nothing happens to the versions, the record, the assigned ids and the reconfigurations. -/
structure Unchanged (s s' : LogSystem N) : Prop where
  store : s'.metadataStore = s.metadataStore
  trace : s'.trace = s.trace
  assigned : ∀ {v l p}, s'.Assigned v l p → s.Assigned v l p
  reconfigures : s'.reconfigures = s.reconfigures

theorem Unchanged.refl (s : LogSystem N) : s.Unchanged s := ⟨rfl, rfl, id, rfl⟩

/-- The kinds of steps. What a step changes is put back before the rest is said to be unchanged. -/
inductive Effect (s : LogSystem N) (e : LogEvent N) (s' : LogSystem N) : Prop where
  | quiet (h : s.Unchanged s')
  | assign (v : Int) (p : String) (q : SequencerImpl) (he : e = .append v p)
      (hq : s.sequencers v = some q)
      (hassigned : ∀ {v' l p'}, s'.Assigned v' l p' →
        s.Assigned v' l p' ∨ (v' = v ∧ l = q.sequenceNum))
      (h : s.Unchanged { s' with appends := s.appends })
  | accept (m : Request N) (he : e = .arrive m)
      (hok : ((s.replicas m.replica).beginAppend s.metadataStore m.versionId m.origin.skipSeal).2 =
        .ok ())
      (htrace : s'.trace = .accepted m.origin m.replica m.versionId m.logId :: s.trace)
      (h : s.Unchanged { s' with trace := s.trace })
  | complete (m : Request N) (nl : InMemoryNanoLog Origin) (he : e = .execute m)
      (hnl : s.nanoLog? m.replica m.versionId = some nl)
      (htrace : s'.trace = completions m (appended nl m) ++ s.trace)
      (h : s.Unchanged { s' with trace := s.trace })
  | move (t : CallId) (task' : Reconfigure N)
      (htasks : s'.reconfigures = Function.update s.reconfigures t (some task'))
      (hstep : s.ReconfigureStep s' t task')
      (h : s.Unchanged { s' with reconfigures := s.reconfigures })
  | install (t : CallId) (task : Reconfigure N) (he : e = .install t)
      (htask : s.reconfigures t = some task) (hphase : task.phase = .installing)
      (htasks : s'.reconfigures =
        Function.update s.reconfigures t (some { task with phase := .returned }))
      (hcar : s.metadataStore.compareAndAppendRange task.newConfig = .ok s'.metadataStore)
      (h : s.Unchanged { s' with metadataStore := s.metadataStore, reconfigures := s.reconfigures })

/-- An append that keeps its payload is assigned as before. -/
theorem assigned_of_setAppend {call call' : SequencerAppend N} {v' l' : Int}
    (hcall : s.appends (v', l') = some call) (hp : call'.payload = call.payload)
    (h : (s.setAppend v' l' call').Assigned v l p) : s.Assigned v l p := by
  obtain ⟨c, hc, rfl⟩ := h
  rcases Parties.eq_some_of_update hc with ⟨hk, rfl⟩ | ⟨-, hold⟩
  · exact ⟨call, hk ▸ hcall, hp.symm⟩
  · exact ⟨c, hold, rfl⟩

theorem deliver_effect {m : Reply N} {replies : List (Reply N)}
    (hs : ({ s with replies } : LogSystem N).deliver m = some s') : s.Effect e s' := by
  rcases deliver_eq_some hs with ⟨call, futures, -, hcall, -, rfl⟩ |
    ⟨t, task, _, _, -, htask, -, -, -, rfl⟩
  · exact .quiet { Unchanged.refl s with assigned := assigned_of_setAppend hcall rfl }
  · exact .move t _ rfl (.same task htask (.afterAppend ..)) { Unchanged.refl s with }

theorem sealReplica_unchanged {endLogId : Int} (hs : s.sealReplica r v = some (s', endLogId)) :
    s.Unchanged s' := by
  obtain ⟨_, _, -, -, rfl, -⟩ := sealReplica_eq_some hs
  exact { Unchanged.refl s with }

/-- **Every step is of one of the six kinds.** -/
theorem step_effect (h : s.Valid firstEnd) (hs : s.step e = some s') : s.Effect e s' := by
  cases e with
  | append v payload =>
    obtain ⟨q, hq, -, rfl⟩ := append_eq_some hs
    refine .assign v payload q rfl hq (fun {v' l p'} hl => ?_) { Unchanged.refl s with }
    obtain ⟨call, hcall, rfl⟩ := hl
    rcases Parties.eq_some_of_update hcall with ⟨hk, -⟩ | ⟨-, hold⟩
    · exact .inr (Prod.mk.inj hk)
    · exact .inl ⟨call, hold, rfl⟩
  | send v l =>
    obtain ⟨q, call, -, hcall, hlt, rfl⟩ := send_eq_some hs
    exact .quiet { Unchanged.refl s with assigned := assigned_of_setAppend hcall rfl }
  | arrive m =>
    obtain ⟨-, s₁, rfl, ⟨e, rfl⟩ | ⟨hok, rfl⟩⟩ := arrive_eq_some hs
    · exact .quiet { Unchanged.refl s with }
    · exact .accept m rfl hok rfl { Unchanged.refl s with }
  | execute m =>
    obtain ⟨-, nl, hnl, rfl⟩ := execute_eq_some hs
    exact .complete m nl rfl hnl rfl { Unchanged.refl s with }
  | receive m =>
    obtain ⟨-, hs⟩ := receive_eq_some hs
    exact deliver_effect hs
  | timeout r origin v l => exact deliver_effect hs
  | acknowledge v l =>
    obtain ⟨q, call, -, hcall, -, rfl⟩ := acknowledge_eq_some hs
    exact .quiet { Unchanged.refl s with
      assigned := assigned_of_setAppend (s := s.setSequencer v _) hcall rfl }
  | «seal» r v =>
    obtain ⟨⟨s₁, endLogId⟩, hseal, rfl⟩ := Option.map_eq_some_iff.mp hs
    exact .quiet (sealReplica_unchanged hseal)
  | reconfigure t target replicaSet =>
    obtain ⟨hnone, rfl⟩ := reconfigure_eq_some hs
    exact .move t _ rfl (.begun hnone rfl) { Unchanged.refl s with }
  | sealNext t =>
    obtain ⟨task, r, remaining, s₁, endLogId, htask, -, htoSeal, hseal, rfl⟩ := sealNext_eq_some hs
    obtain ⟨-, nl, hnl, -, rfl⟩ := sealReplica_changes h hseal
    have hsame := sealReplica_unchanged hseal
    refine .move t (task.afterSeal nl.getLocalCommitIndex remaining) ?_
      (.sealed task r remaining nl htask htoSeal hnl (.afterSeal ..))
      ⟨hsame.store, hsame.trace, hsame.assigned, rfl⟩
    rw [← hsame.reconfigures]
    rfl
  | readEntry t r =>
    obtain ⟨task, _, _, htask, -, -, rfl⟩ := readEntry_eq_some hs
    exact .move t _ rfl (.same task htask (.withPhase ..)) { Unchanged.refl s with }
  | install t =>
    obtain ⟨task, htask, hphase, rfl | ⟨m, hcar, rfl⟩⟩ := install_eq_some hs
    · exact .move t _ rfl (.same task htask (.withPhase ..)) { Unchanged.refl s with }
    · exact .install t task rfl htask hphase rfl hcar { Unchanged.refl s with }
  | abort t =>
    obtain ⟨task, htask, rfl⟩ := abort_eq_some hs
    exact .move t _ rfl (.same task htask (.withPhase ..)) { Unchanged.refl s with }
  | getLogEntry c l =>
    obtain ⟨-, _, -, rfl⟩ := getLogEntry_eq_some hs
    exact .quiet { Unchanged.refl s with }
  | probe c =>
    obtain ⟨_, -, -, rfl | ⟨_, _, -, rfl⟩⟩ := probe_eq_some hs <;> exact .quiet { Unchanged.refl s with }
  | failProbe c =>
    obtain ⟨_, -, rfl⟩ := failProbe_eq_some hs
    exact .quiet { Unchanged.refl s with }

/-! ## What a step puts on record -/

/-- A sequencer's append is only let through a replica that is not sealed. -/
theorem accepted_of_effect (he : s.Effect e s') (h : .accepted .sequencer r v l ∈ s'.trace) :
    .accepted .sequencer r v l ∈ s.trace ∨ (s.replicas r).isSealed v = false := by
  cases he with
  | quiet hu => exact .inl (hu.trace ▸ h)
  | assign _ _ _ _ _ _ hu => exact .inl (hu.trace ▸ h)
  | accept m _ hok htrace _ =>
    rw [htrace] at h
    rcases List.mem_cons.mp h with hnew | hold
    · obtain ⟨horigin, rfl, rfl, -⟩ := Observation.accepted.inj hnew
      exact .inr ((ReplicaImpl.beginAppend_ok hok).2 (by rw [← horigin]; rfl))
    · exact .inl hold
  | complete m nl _ _ htrace _ =>
    rw [htrace] at h
    rcases List.mem_append.mp h with hnew | hold
    · obtain ⟨_, -, hne⟩ := List.mem_map.mp hnew
      exact absurd hne (by simp)
    · exact .inl hold
  | move _ _ _ _ hu => exact .inl (hu.trace ▸ h)
  | install _ _ _ _ _ _ _ hu => exact .inl (hu.trace ▸ h)

/-- A promise is fulfilled by the locked section of an append to its replica. -/
theorem completed_of_effect (he : s.Effect e s') {origin : Origin}
    (h : .completed origin r v l ∈ s'.trace) :
    .completed origin r v l ∈ s.trace ∨ ∃ m nl, e = .execute m ∧ m.replica = r ∧ m.versionId = v ∧
      s.nanoLog? m.replica m.versionId = some nl ∧ (l, origin) ∈ (appended nl m).completed ∧
      s'.reconfigures = s.reconfigures := by
  cases he with
  | quiet hu => exact .inl (hu.trace ▸ h)
  | assign _ _ _ _ _ _ hu => exact .inl (hu.trace ▸ h)
  | accept m _ _ htrace _ =>
    rw [htrace] at h
    rcases List.mem_cons.mp h with hnew | hold
    · exact absurd hnew (by simp)
    · exact .inl hold
  | complete m nl he hnl htrace hu =>
    rw [htrace] at h
    rcases List.mem_append.mp h with hnew | hold
    · obtain ⟨⟨k, o⟩, hk, heq⟩ := List.mem_map.mp hnew
      obtain ⟨rfl, hr, hv, rfl⟩ := Observation.completed.inj heq
      exact .inr ⟨m, nl, he, hr, hv, hnl, hk, hu.reconfigures⟩
    · exact .inl hold
  | move _ _ _ _ hu => exact .inl (hu.trace ▸ h)
  | install _ _ _ _ _ _ _ hu => exact .inl (hu.trace ▸ h)

/-! ## What it does to reconfigurations, ids and versions -/

theorem reconfigure_of_update (hstep : s.ReconfigureStep s' t' task')
    (h : Function.update s.reconfigures t' (some task') t = some task'') :
    s.ReconfigureStep s' t task'' := by
  rcases Parties.eq_some_of_update h with ⟨rfl, rfl⟩ | ⟨-, hold⟩
  · exact hstep
  · exact .same task'' hold (.refl _)

theorem reconfigure_of_effect (he : s.Effect e s') (ht : s'.reconfigures t = some task') :
    s.ReconfigureStep s' t task' := by
  have hkeep : s'.reconfigures = s.reconfigures → s.ReconfigureStep s' t task' := fun heq =>
    .same task' (heq ▸ ht) (.refl _)
  cases he with
  | quiet hu => exact hkeep hu.reconfigures
  | assign _ _ _ _ _ _ hu => exact hkeep hu.reconfigures
  | accept _ _ _ _ hu => exact hkeep hu.reconfigures
  | complete _ _ _ _ _ hu => exact hkeep hu.reconfigures
  | move t' task htasks hstep _ => exact reconfigure_of_update hstep (htasks ▸ ht)
  | install t' task _ htask _ htasks _ _ =>
    exact reconfigure_of_update (.same task htask (.withPhase ..)) (htasks ▸ ht)

/-- A call that has sealed all its replicas keeps its bounds for good. -/
theorem reconfigure_stays (he : s.Effect e s') (ht : s.reconfigures t = some task)
    (hsealed : task.toSeal = []) : ∃ task', s'.reconfigures t = some task' ∧
      SameBounds task task' := by
  have hsome : ∃ task', s'.reconfigures t = some task' := by
    have hupdate : ∀ (t' : CallId) (x : Reconfigure N),
        ∃ task', Function.update s.reconfigures t' (some x) t = some task' := by
      intro t' x
      by_cases heq : t = t'
      · subst heq
        exact ⟨x, Function.update_self ..⟩
      · exact ⟨task, (Function.update_of_ne heq ..).trans ht⟩
    cases he with
    | quiet hu => exact ⟨task, hu.reconfigures ▸ ht⟩
    | assign _ _ _ _ _ _ hu => exact ⟨task, hu.reconfigures ▸ ht⟩
    | accept _ _ _ _ hu => exact ⟨task, hu.reconfigures ▸ ht⟩
    | complete _ _ _ _ _ hu => exact ⟨task, hu.reconfigures ▸ ht⟩
    | move t' x htasks _ _ => exact htasks ▸ hupdate t' x
    | install t' _ _ _ _ htasks _ _ => exact htasks ▸ hupdate t' _
  obtain ⟨task', ht'⟩ := hsome
  refine ⟨task', ht', ?_⟩
  rcases reconfigure_of_effect he ht' with ⟨task₀, ht₀, hsame⟩ | ⟨hnone, -⟩ |
    ⟨task₀, r, remaining, nl, ht₀, htoSeal, -, -⟩
  · rw [Option.some.inj (ht.symm.trans ht₀)]
    exact hsame
  · exact absurd (ht.symm.trans hnone) (by simp)
  · obtain rfl := Option.some.inj (ht.symm.trans ht₀)
    exact absurd (hsealed.symm.trans htoSeal) (by simp)

theorem assigned_of_effect (he : s.Effect e s') (h : s'.Assigned v l p) :
    s.Assigned v l p ∨ ∃ p' q, e = .append v p' ∧ s.sequencers v = some q ∧ l = q.sequenceNum := by
  cases he with
  | quiet hu => exact .inl (hu.assigned h)
  | assign v' p' q he hq hassigned _ =>
    rcases hassigned h with hold | ⟨rfl, hl⟩
    · exact .inl hold
    · exact .inr ⟨p', q, he, hq, hl⟩
  | accept _ _ _ _ hu => exact .inl (hu.assigned h)
  | complete _ _ _ _ _ hu => exact .inl (hu.assigned h)
  | move _ _ _ _ hu => exact .inl (hu.assigned h)
  | install _ _ _ _ _ _ _ hu => exact .inl (hu.assigned h)

/-- Only an `install` touches the store. -/
theorem metadataStore_of_effect (he : s.Effect e s') (hne : ∀ t, e ≠ .install t) :
    s'.metadataStore = s.metadataStore := by
  cases he with
  | quiet hu => exact hu.store
  | assign _ _ _ _ _ _ hu => exact hu.store
  | accept _ _ _ _ hu => exact hu.store
  | complete _ _ _ _ _ hu => exact hu.store
  | move _ _ _ _ hu => exact hu.store
  | install t _ heq _ _ _ _ _ => exact absurd heq (hne t)

theorem startOf_of_effect (he : s.Effect e s') {a : Int}
    (h : s'.metadataStore.startOf v = some a) :
    s.metadataStore.startOf v = some a ∨ ∃ t task, s.reconfigures t = some task ∧
      task.phase = .installing ∧ v = task.versionId + 1 ∧ a = task.maxLogId := by
  cases he with
  | quiet hu => exact .inl (hu.store ▸ h)
  | assign _ _ _ _ _ _ hu => exact .inl (hu.store ▸ h)
  | accept _ _ _ _ hu => exact .inl (hu.store ▸ h)
  | complete _ _ _ _ _ hu => exact .inl (hu.store ▸ h)
  | move _ _ _ _ hu => exact .inl (hu.store ▸ h)
  | install t task _ htask hphase _ hcar _ =>
    rw [startOf_of_compareAndAppendRange hcar] at h
    split at h
    · rename_i heq
      exact .inr ⟨t, task, htask, hphase, heq, (Option.some.inj h).symm⟩
    · exact .inl h

end ReplicatedCounter.Log.LogSystem
