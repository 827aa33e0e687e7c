import ReplicatedCounter.Log.Durability

/-!
# The order of the appends

To a client the log is one object with one operation: `append(p)` takes a while and returns an id.
What the id promises is an order. **If one append has returned before another is given its id, the
first id is the smaller one**, whichever versions the two went to and whatever was reconfigured in
between. With no id returned twice, putting the acknowledged appends in the order of their ids is
therefore a linearization: every append takes effect at one moment between its call and its return,
as if there were one counter.

Within a version the sequencer counts. From an older version to a newer one it is the fence of
`Durability.lean`: the newer version starts above what was acknowledged. The third case is the one a
client can run into by itself: it may still hold the sequencer of an older version. That append gets
a small id, but it is never acknowledged, since a majority has been sealed before the newer version
was installed.
-/

set_option autoImplicit false

namespace ReplicatedCounter.Log.LogSystem

open Metadata InMemoryMetadataStore

variable {N : Nat} {s s' : LogSystem N} {firstEnd v w l k : Int} {p p' : String} {r : Fin N}
  {b : Option Bootstrap} {e : LogEvent N} {es es' : List (LogEvent N)} {M : Finset (Fin N)}

/-! ## What a replica has let through has an id -/

/-- Only an append that has been given its id gets past the seal check of a replica. -/
def AcceptsAssigned (s : LogSystem N) : Prop :=
  ∀ origin r v l, .accepted origin r v l ∈ s.trace → ∃ p, s.Assigned v l p

theorem AcceptsAssigned.mono (h : s.AcceptsAssigned) (g : s.Grows s') (htrace : s'.trace = s.trace) :
    s'.AcceptsAssigned := fun origin r v l hl =>
  (h origin r v l (htrace ▸ hl)).imp fun _ hp => g.assigned hp

theorem AcceptsAssigned.step (h : s.AcceptsAssigned) (hvalid : s.Valid firstEnd)
    (hs : s.step e = some s') : s'.AcceptsAssigned := by
  have g := (step_changes hvalid hs).grows
  cases step_effect hvalid hs with
  | quiet hu => exact h.mono g hu.trace
  | assign _ _ _ _ _ _ hu => exact h.mono g hu.trace
  | accept m he _ htrace _ =>
    intro origin r v l hl
    rw [htrace] at hl
    rcases List.mem_cons.mp hl with hnew | hold
    · obtain ⟨rfl, rfl, rfl, rfl⟩ := Observation.accepted.inj hnew
      subst he
      -- the request that is let through carries what its sequencer assigned
      have hmem : m ∈ s.requests := (arrive_eq_some hs).1
      exact ⟨m.payload, g.assigned (hvalid.requests m hmem).assigned⟩
    · exact (h origin r v l hold).imp fun _ hp => g.assigned hp
  | complete m nl _ _ htrace _ =>
    intro origin r v l hl
    rw [htrace] at hl
    rcases List.mem_append.mp hl with hnew | hold
    · obtain ⟨_, -, hne⟩ := List.mem_map.mp hnew
      exact absurd hne (by simp)
    · exact (h origin r v l hold).imp fun _ hp => g.assigned hp
  | move _ _ _ _ hu => exact h.mono g hu.trace
  | install _ _ _ _ _ _ _ hu => exact h.mono g hu.trace

theorem initial_acceptsAssigned (b : Option Bootstrap) : (initial N b).AcceptsAssigned := by
  intro origin r v l hl
  cases b with
  | none => exact absurd hl List.not_mem_nil
  | some b => exact absurd hl List.not_mem_nil

theorem run_acceptsAssigned (h : Transition.run step (initial N b) es = some s) :
    s.AcceptsAssigned :=
  (Transition.run_invariant
    (P := fun t => t.Valid (firstVersionEnd b) ∧ t.AcceptsAssigned)
    (fun _ _ _ ht hs => ⟨ht.1.of_changes (step_changes ht.1 hs), ht.2.step ht.1 hs⟩) h
    ⟨initial_valid b, initial_acceptsAssigned b⟩).2

/-- The next id of a sequencer has not been seen by any replica. -/
theorem next_not_accepted (h : Transition.run step (initial N b) es = some s) {q : SequencerImpl}
    (hq : s.sequencers w = some q) (origin : Origin) (r : Fin N) :
    .accepted origin r w q.sequenceNum ∉ s.trace := by
  intro haccepted
  obtain ⟨p, call, hcall, -⟩ := run_acceptsAssigned h origin r w _ haccepted
  obtain ⟨q', hq', hlt⟩ := ((run_valid h).appends w _ call hcall).sequencer
  obtain rfl := Option.some.inj (hq.symm.trans hq')
  exact absurd hlt (lt_irrefl _)

/-! ## A sequencer of an old version -/

/-- Every replica of `M` is sealed in version `v` and has not let `l` through. -/
structure ShutOut (s : LogSystem N) (M : Finset (Fin N)) (v l : Int) : Prop where
  isSealed : ∀ r ∈ M, (s.replicas r).isSealed v = true
  notAccepted : ∀ r ∈ M, .accepted .sequencer r v l ∉ s.trace

theorem ShutOut.step (h : s.ShutOut M v l) (hvalid : s.Valid firstEnd) (hs : s.step e = some s') :
    s'.ShutOut M v l where
  isSealed r hr := (step_changes hvalid hs).grows.isSealed (h.isSealed r hr)
  notAccepted r hr haccepted := by
    rcases accepted_of_effect (step_effect hvalid hs) haccepted with hold | hopen
    · exact h.notAccepted r hr hold
    · exact absurd ((h.isSealed r hr).symm.trans hopen) (by simp)

theorem ShutOut.run (h : s.ShutOut M v l) (hvalid : s.Valid firstEnd)
    (hrun : Transition.run LogSystem.step s es = some s') : s'.ShutOut M v l :=
  (Transition.run_invariant (P := fun t => t.Valid firstEnd ∧ t.ShutOut M v l)
    (fun _ _ _ ht hs => ⟨ht.1.of_changes (step_changes ht.1 hs), ht.2.step ht.1 hs⟩) hrun
    ⟨hvalid, h⟩).2

theorem ShutOut.not_acknowledged (h : s.ShutOut M v l) (hvalid : s.Valid firstEnd)
    (hM : Voting.Majority M) : ¬ s.Acknowledged v l p := by
  intro hack
  obtain ⟨Q, hQ, hdone⟩ := hvalid.majority_of_acknowledged hack
  obtain ⟨r, hrQ, hrM⟩ := hQ.inter hM
  exact h.notAccepted r hrM (CompletedOk.accepted (hvalid.trace _ (hdone r hrQ)))

/-- **A version that has a successor has lost a majority of its replicas.** -/
theorem Fenced.sealed_majority (h : s.Fenced b) {a : Int} (hw : 1 ≤ w) (hwv : w < v)
    (ha : s.metadataStore.startOf v = some a) :
    ∃ M : Finset (Fin N), Voting.Majority M ∧ ∀ r ∈ M, (s.replicas r).isSealed w = true := by
  have hcurrent := le_getCurrentVersionId ha
  obtain ⟨a₁, ha₁⟩ := h.valid.store.chain.installed (w + 1) (by omega) (by omega)
  obtain ⟨t, task, ht, rfl, hsealed, rfl⟩ := h.installed w a₁ hw ha₁
  refine ⟨_, majority_toFinset task.replicaSet, fun r hr => ?_⟩
  obtain ⟨a₀, ha₀⟩ := h.valid.reconfigures t task ht
  have hhas : task.HasSealed r := ⟨List.mem_toFinset.mp hr, by simp [hsealed]⟩
  obtain ⟨nl, hnl, hnlSealed, -⟩ := ha₀.sealed r hhas
  unfold nanoLog? at hnl
  unfold ReplicaImpl.isSealed
  rw [hnl]
  exact hnlSealed

/-! ## Real time -/

/-- In the run `es`, `append` had returned `l` from version `v` when another call was given `k` by
the sequencer of version `w`. -/
def Precedes (b : Option Bootstrap) (es : List (LogEvent N)) (v l w k : Int) : Prop :=
  ∃ es₀ es₁ s₀ p p' q, es = es₀ ++ .append w p' :: es₁ ∧
    Transition.run step (initial N b) es₀ = some s₀ ∧ s₀.Acknowledged v l p ∧
    s₀.sequencers w = some q ∧ q.sequenceNum = k

end ReplicatedCounter.Log.LogSystem
