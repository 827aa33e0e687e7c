import ReplicatedCounter.Log.Guarantees

/-!
# What a sealed majority lets through

Once a majority of the replicas has executed `seal`, the sequencer of that version should be shut
out: what none of them has taken by then is never acknowledged. `InMemoryNanoLog::append` looks at
`sealed_` before it takes the lock, though, and not again under it. An append that was past the
check when `seal` came takes its position all the same, and is acknowledged
(`acknowledged_past_seal`).

`KeepsSeal` is the condition that no replica of the majority does that. Under it they fence the
sequencer (`sealed_majority_fences`), whatever reconfigurers copy and however late messages come.
-/

set_option autoImplicit false

namespace ReplicatedCounter.Log.LogSystem

variable {N : Nat} {s s' : LogSystem N} {firstEnd v l : Int} {p : String} {r : Fin N}
  {M : Finset (Fin N)} {nl : InMemoryNanoLog Origin} {b : Option Bootstrap} {e : LogEvent N}
  {es es' : List (LogEvent N)}

/-! ## Taking an append -/

/-- The step is the locked section in which the replica takes the sequencer's append of `l`: its
position is vacant. -/
def Takes (s : LogSystem N) (r : Fin N) (v l : Int) : LogEvent N → Prop
  | .execute m => m.origin = .sequencer ∧ m.replica = r ∧ m.versionId = v ∧ m.logId = l ∧
      ∃ nl, s.nanoLog? r v = some nl ∧ nl.logs.find? l = none
  | _ => False

/-- No replica of `M` takes it. -/
def Untaken (M : Finset (Fin N)) (v l : Int) (s : LogSystem N) (e : LogEvent N) : Prop :=
  ∀ r ∈ M, ¬ s.Takes r v l e

/-- The step keeps the seals of `M`: no replica of it that has sealed `v` takes an append of the
sequencer, which must have passed the check before. -/
def KeepsSeal (M : Finset (Fin N)) (v : Int) (s : LogSystem N) (e : LogEvent N) : Prop :=
  ∀ r ∈ M, ∀ l, s.Takes r v l e → (s.replicas r).isSealed v = false

/-- The sequencer's append of `l` waits at the replica. -/
def Parked (s : LogSystem N) (r : Fin N) (v l : Int) : Prop :=
  ∃ nl, s.nanoLog? r v = some nl ∧ (l, .sequencer) ∈ nl.completionQueue.promises.entries

theorem Parked.congr (h : s'.Parked r v l) (hreplicas : s'.replicas = s.replicas) :
    s.Parked r v l := by
  obtain ⟨nl, hnl, hmem⟩ := h
  refine ⟨nl, ?_, hmem⟩
  unfold nanoLog? at hnl ⊢
  rwa [← hreplicas]

theorem parked_of_setReplica {r' : Fin N} {v' : Int}
    (h : (s.setReplica r' ((s.replicas r').add v' nl)).Parked r v l) :
    s.Parked r v l ∨
      r = r' ∧ v = v' ∧ (l, .sequencer) ∈ nl.completionQueue.promises.entries := by
  obtain ⟨nl', hnl', hmem⟩ := h
  rw [nanoLog?_setReplica] at hnl'
  split at hnl'
  · rename_i heq
    obtain rfl := Option.some.inj hnl'
    exact .inr ⟨heq.1, heq.2, hmem⟩
  · exact .inl ⟨nl', hnl', hmem⟩

/-- Nothing waits at a new nanolog. -/
theorem not_parked_makeNanoLog (v : Int) {config : Metadata.MetadataConfig} {k : Int}
    {origin : Origin} :
    (k, origin) ∉ (ReplicaImpl.makeNanoLog v config).completionQueue.promises.entries :=
  List.not_mem_nil

/-- What waits after the locked section of `m`, or has been fulfilled by it, waited before, or is
`m` itself. -/
theorem waits_of_appended {m : Request N} {k : Int} {origin : Origin}
    (h : (k, origin) ∈ (appended nl m).nanoLog.completionQueue.promises.entries ∨
      (k, origin) ∈ (appended nl m).completed) :
    (k, origin) ∈ nl.completionQueue.promises.entries ∨
      nl.logs.find? m.logId = none ∧ k = m.logId ∧ origin = m.origin := by
  unfold appended at h
  cases hfind : nl.logs.find? m.logId with
  | some p =>
    rw [InMemoryNanoLog.appendLocked_of_occupied hfind] at h
    exact .inl (h.resolve_right List.not_mem_nil)
  | none =>
    rw [InMemoryNanoLog.appendLocked_of_vacant hfind] at h
    have hcompletes := InMemoryNanoLog.park_completes nl.completionQueue m.globalCommitIndex
      m.logId m.origin
    rcases SortedMap.mem_insert.mp (h.elim (hcompletes.rest_mem _) (hcompletes.done_mem _)) with
      ⟨hk, horigin⟩ | ⟨-, hold⟩
    · exact .inr ⟨rfl, hk, horigin⟩
    · exact .inl hold

/-! ## Where it can be after a step -/

theorem parked_of_sealReplica {r' : Fin N} {v' endLogId : Int}
    (hs : s.sealReplica r' v' = some (s', endLogId)) (h : s'.Parked r v l) : s.Parked r v l := by
  obtain ⟨config, nl, -, hnl, rfl, -⟩ := sealReplica_eq_some hs
  rcases parked_of_setReplica h with hold | ⟨rfl, rfl, hmem⟩
  · exact hold
  · rcases hnl with hnl | ⟨-, rfl⟩
    · exact ⟨nl, hnl, hmem⟩
    · exact absurd hmem (not_parked_makeNanoLog v)

theorem parked_of_arrive {m : Request N} (hs : s.arrive m = some s') (h : s'.Parked r v l) :
    s.Parked r v l := by
  obtain ⟨-, s₁, hs₁, hs'⟩ := arrive_eq_some hs
  have hbegin : s₁.Parked r v l := by
    rcases hs' with ⟨_, rfl⟩ | ⟨-, rfl⟩
    · exact h.congr rfl
    · exact h.congr rfl
  rw [hs₁] at hbegin
  rcases ReplicaImpl.beginAppend_replica (s.replicas m.replica) s.metadataStore m.versionId
    m.origin.skipSeal with hsame | ⟨-, config, -, hnew⟩
  · rw [hsame] at hbegin
    exact hbegin.congr (Function.update_eq_self ..)
  · rw [hnew] at hbegin
    exact (parked_of_setReplica hbegin).resolve_right fun hmem =>
      absurd hmem.2.2 (not_parked_makeNanoLog _)

theorem parked_of_execute {m : Request N} (hs : s.execute m = some s') (h : s'.Parked r v l) :
    s.Parked r v l ∨ s.Takes r v l (.execute m) := by
  obtain ⟨-, nl, hnl, rfl⟩ := execute_eq_some hs
  rcases parked_of_setReplica (h.congr (s := s.setReplica m.replica _) rfl) with
    hold | ⟨rfl, rfl, hmem⟩
  · exact .inl hold
  · rcases waits_of_appended (.inl hmem) with hold | ⟨hvacant, rfl, horigin⟩
    · exact .inl ⟨nl, hnl, hold⟩
    · exact .inr ⟨horigin.symm, rfl, rfl, rfl, nl, hnl, hvacant⟩

/-- **What waits at a replica was taken there.** -/
theorem parked_of_step (hs : s.step e = some s') (h : s'.Parked r v l) :
    s.Parked r v l ∨ s.Takes r v l e := by
  cases e with
  | append v payload =>
    obtain ⟨_, -, -, rfl⟩ := append_eq_some hs
    exact .inl (h.congr rfl)
  | send v l =>
    obtain ⟨_, _, -, -, _, rfl⟩ := send_eq_some hs
    exact .inl (h.congr rfl)
  | arrive m => exact .inl (parked_of_arrive hs h)
  | execute m => exact parked_of_execute hs h
  | receive m =>
    obtain ⟨-, hs⟩ := receive_eq_some hs
    rcases deliver_eq_some hs with ⟨_, _, -, -, -, rfl⟩ | ⟨_, _, _, _, -, -, -, -, -, rfl⟩
    · exact .inl (h.congr rfl)
    · exact .inl (h.congr rfl)
  | timeout r origin v l =>
    rcases deliver_eq_some hs with ⟨_, _, -, -, -, rfl⟩ | ⟨_, _, _, _, -, -, -, -, -, rfl⟩
    · exact .inl (h.congr rfl)
    · exact .inl (h.congr rfl)
  | acknowledge v l =>
    obtain ⟨_, _, -, -, -, rfl⟩ := acknowledge_eq_some hs
    exact .inl (h.congr rfl)
  | «seal» r v =>
    obtain ⟨⟨s₁, endLogId⟩, hseal, rfl⟩ := Option.map_eq_some_iff.mp hs
    exact .inl (parked_of_sealReplica hseal h)
  | reconfigure t target replicaSet =>
    obtain ⟨-, rfl⟩ := reconfigure_eq_some hs
    exact .inl (h.congr rfl)
  | sealNext t =>
    obtain ⟨_, _, _, s₁, _, -, -, -, hseal, rfl⟩ := sealNext_eq_some hs
    exact .inl (parked_of_sealReplica hseal (h.congr rfl))
  | readEntry t r =>
    obtain ⟨_, _, _, -, -, -, rfl⟩ := readEntry_eq_some hs
    exact .inl (h.congr rfl)
  | install t =>
    obtain ⟨_, -, -, rfl | ⟨_, -, rfl⟩⟩ := install_eq_some hs
    · exact .inl (h.congr rfl)
    · exact .inl (h.congr rfl)
  | abort t =>
    obtain ⟨_, -, rfl⟩ := abort_eq_some hs
    exact .inl (h.congr rfl)
  | getLogEntry c l =>
    obtain ⟨-, _, -, rfl⟩ := getLogEntry_eq_some hs
    exact .inl (h.congr rfl)
  | probe c =>
    obtain ⟨_, -, -, rfl | ⟨_, _, -, rfl⟩⟩ := probe_eq_some hs
    · exact .inl (h.congr rfl)
    · exact .inl (h.congr rfl)
  | failProbe c =>
    obtain ⟨_, -, rfl⟩ := failProbe_eq_some hs
    exact .inl (h.congr rfl)

/-! ## Runs -/

/-- None of the replicas has taken the append. -/
structure Fresh (s : LogSystem N) (M : Finset (Fin N)) (v l : Int) : Prop where
  parked : ∀ r ∈ M, ¬ s.Parked r v l
  completed : ∀ r ∈ M, .completed .sequencer r v l ∉ s.trace

theorem Fresh.step (h : s.Fresh M v l) (hvalid : s.Valid firstEnd) (hok : Untaken M v l s e)
    (hs : s.step e = some s') : s'.Fresh M v l where
  parked r hr hparked := (parked_of_step hs hparked).elim (h.parked r hr) (hok r hr)
  completed r hr hdone := by
    rcases completed_of_effect (step_effect hvalid hs) hdone with
      hold | ⟨m, nl, rfl, rfl, rfl, hnl, hmem, -⟩
    · exact h.completed _ hr hold
    · -- the promise was parked here, or it is that of the append itself
      rcases waits_of_appended (.inr hmem) with hold | ⟨hvacant, rfl, horigin⟩
      · exact h.parked _ hr ⟨nl, hnl, hold⟩
      · exact hok _ hr ⟨horigin.symm, rfl, rfl, rfl, nl, hnl, hvacant⟩

theorem Fresh.run (h : s.Fresh M v l) (hvalid : s.Valid firstEnd)
    (hrun : Transition.run LogSystem.step s es = some s')
    (hok : Transition.Meets LogSystem.step (Untaken M v l) s es) : s'.Fresh M v l :=
  (Transition.meets_invariant (P := fun t => t.Valid firstEnd ∧ t.Fresh M v l)
    (fun _ _ _ ht hok hs => ⟨ht.1.of_changes (step_changes ht.1 hs), ht.2.step ht.1 hok hs⟩) hrun
    hok ⟨hvalid, h⟩).2

theorem initial_fresh (b : Option Bootstrap) : (initial N b).Fresh M v l where
  parked r _ hparked := by
    obtain ⟨nl, hnl, -⟩ := hparked
    cases b with
    | none => cases hnl
    | some b => cases hnl
  completed r _ hdone := by
    cases b with
    | none => exact absurd hdone List.not_mem_nil
    | some b => exact absurd hdone List.not_mem_nil

theorem Fresh.not_acknowledged (h : s.Fresh M v l) (hvalid : s.Valid firstEnd)
    (hM : Voting.Majority M) : ¬ s.Acknowledged v l p := by
  intro hack
  obtain ⟨Q, hQ, hdone⟩ := hvalid.majority_of_acknowledged hack
  obtain ⟨r, hrQ, hrM⟩ := hQ.inter hM
  exact h.completed r hrM (hdone r hrQ)

/-- **A sealed majority fences the sequencer**, as long as no sealed replica takes an append that
was past the check. In any run in which a majority has executed `seal(v)`, an append that none of
them had taken before is not acknowledged at any later time. -/
theorem sealed_majority_fences (h : Transition.run step (initial N b) es = some s)
    (hM : Voting.Majority M) (hsealed : ∀ r ∈ M, (s.replicas r).isSealed v = true)
    (hfresh : Transition.Meets step (Untaken M v l) (initial N b) es)
    (h' : Transition.run step s es' = some s') (hkeeps : Transition.Meets step (KeepsSeal M v) s es') :
    ¬ s'.Acknowledged v l p := by
  have hvalid := run_valid h
  have hbefore := (initial_fresh b).run (initial_valid b) h hfresh
  have hinv : s'.Valid (firstVersionEnd b) ∧ (∀ r ∈ M, (s'.replicas r).isSealed v = true) ∧
      s'.Fresh M v l := by
    refine Transition.meets_invariant (P := fun t => t.Valid (firstVersionEnd b) ∧
      (∀ r ∈ M, (t.replicas r).isSealed v = true) ∧ t.Fresh M v l) ?_ h' hkeeps
      ⟨hvalid, hsealed, hbefore⟩
    rintro t e t' ⟨hvalid, hsealed, hfresh⟩ hok hs
    have hchanges := step_changes hvalid hs
    have huntaken : Untaken M v l t e := by
      intro r hr htakes
      exact absurd ((hok r hr l htakes).symm.trans (hsealed r hr)) (by simp)
    exact ⟨hvalid.of_changes hchanges, fun r hr => hchanges.grows.isSealed (hsealed r hr),
      hfresh.step hvalid huntaken hs⟩
  exact hinv.2.2.not_acknowledged hinv.1 hM

/-- Id 1 is stored on replicas 0 and 1 and acknowledged; then both are sealed. -/
def sealedPair : List (LogEvent 3) :=
  appended3 1 1 "a" ++ appended3 1 2 "b" ++
  handle (fromSequencer 0 1 1 1 "a") ++ handle (fromSequencer 1 1 1 1 "a") ++
  acknowledged 0 1 1 1 ++ [.seal 0 1, .seal 1 1]

/-- Id 2 reaches all three replicas after that. -/
def lateAppend : List (LogEvent 3) :=
  handle (fromSequencer 2 1 1 2 "b") ++
  [.arrive (fromSequencer 0 1 1 2 "b"), .arrive (fromSequencer 1 1 1 2 "b")]

theorem sealed_majority_fences_late_append :
    ∃ s s', Transition.run step (initial 3 (some makeVirtualLog)) sealedPair = some s ∧
      Transition.run step s lateAppend = some s' ∧ s'.entry 2 1 2 = some "b" ∧
      ¬ s'.Acknowledged 1 2 "b" := by
  have hfresh : Transition.Meets step (Untaken {0, 1} 1 2) (initial 3 (some makeVirtualLog))
      sealedPair := by
    refine Transition.meets_of_mem fun e he t r _ htakes => ?_
    cases e with
    | execute m =>
      obtain ⟨-, -, -, hl, -⟩ := htakes
      simp only [sealedPair, appended3, handle, acknowledged, List.mem_append, List.mem_cons,
        List.not_mem_nil, reduceCtorEq, LogEvent.execute.injEq, or_false, false_or] at he
      rcases he with rfl | rfl
      · exact absurd hl (by decide)
      · exact absurd hl (by decide)
    | _ => exact htakes
  have h : ∀ s s', Transition.run step (initial 3 (some makeVirtualLog)) sealedPair = some s →
      (∀ r ∈ ({0, 1} : Finset (Fin 3)), (s.replicas r).isSealed 1 = true) →
      Transition.run step s lateAppend = some s' →
      Transition.Meets step (KeepsSeal {0, 1} 1) s lateAppend → ¬ s'.Acknowledged 1 2 "b" :=
    fun s s' hrun hsealed hrun' hkeeps =>
      sealed_majority_fences hrun (M := {0, 1}) (by decide) hsealed hfresh hrun' hkeeps
  refine ⟨_, _, rfl, rfl, rfl, h _ _ rfl (by decide) rfl ?_⟩
  refine .cons (fun _ _ _ h => h.elim) rfl (.cons ?_ rfl (.cons (fun _ _ _ h => h.elim) rfl
    (.cons (fun _ _ _ h => h.elim) rfl trivial)))
  -- the one replica that takes it has not been sealed
  rintro r - l ⟨-, rfl, -, rfl, -⟩
  rfl

/-- Id 1 is past the check on replicas 0 and 1 when they are sealed. -/
def pastTheCheck : List (LogEvent 3) :=
  appended3 1 1 "a" ++ [.arrive (fromSequencer 0 1 1 1 "a"), .arrive (fromSequencer 1 1 1 1 "a"),
    .seal 0 1, .seal 1 1]

/-- Then they take it. -/
def takenLate : List (LogEvent 3) :=
  [.execute (fromSequencer 0 1 1 1 "a"), .execute (fromSequencer 1 1 1 1 "a")] ++
    acknowledged 0 1 1 1

/-- **An append that no sealed replica had taken is acknowledged.** -/
theorem acknowledged_past_seal :
    ∃ s s', Transition.run step (initial 3 (some makeVirtualLog)) pastTheCheck = some s ∧
      Transition.Meets step (Untaken {0, 1} 1 1) (initial 3 (some makeVirtualLog)) pastTheCheck ∧
      Voting.Majority ({0, 1} : Finset (Fin 3)) ∧
      (∀ r ∈ ({0, 1} : Finset (Fin 3)), (s.replicas r).isSealed 1 = true) ∧
      Transition.run step s takenLate = some s' ∧ s'.Acknowledged 1 1 "a" := by
  refine ⟨_, _, rfl, ?_, by decide, by decide, rfl, _, rfl, rfl, rfl⟩
  refine Transition.meets_of_mem fun e he t r _ htakes => ?_
  cases e with
  | execute m => exact absurd he (by simp [pastTheCheck, appended3])
  | _ => exact htakes

end ReplicatedCounter.Log.LogSystem
