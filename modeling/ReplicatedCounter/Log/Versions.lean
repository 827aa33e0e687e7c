import ReplicatedCounter.Lib.IntRange
import ReplicatedCounter.Log.Guarantees

/-!
# The chain of configurations, with any number of reconfigurers

A log that starts with an empty metadata store gets its versions from `reconfigure` alone. Each call
seals a majority of its own choosing, computes its own bounds and offers its own successor to the
version it began with; `compareAndAppendRange` takes the first and turns the others away.

**Whoever wins, the versions are `1, …, k`, each is installed by one call, and each starts where its
predecessor ends.** That start indices never decrease is not checked anywhere. It comes from the
replicas: a nanolog's index is never below the start of its version, however the nanolog was made.
-/

set_option autoImplicit false

namespace ReplicatedCounter.Log.LogSystem

open Metadata InMemoryMetadataStore

variable {N : Nat} {s s' : LogSystem N} {firstEnd : Int} {e : LogEvent N} {es : List (LogEvent N)}
  {t : CallId}

/-- The call that installs a version in this step, and the configuration it has built. It is the
one `co_return newConfig` of `reconfigure`; a call that is turned away returns what it finds in the
store. -/
def installs (s : LogSystem N) : LogEvent N → Option (CallId × MetadataConfig)
  | .install t => do
    let task ← s.reconfigures t
    match task.phase with
    | .installing => do
      let _ ← s.metadataStore.getConfig task.versionId
      match s.metadataStore.compareAndAppendRange task.newConfig with
      | .ok _ => some (t, task.newConfig)
      | .error _ => none
    | _ => none
  | _ => none

theorem install_installs (hs : s.install t = some s') :
    (s.installs (.install t) = none ∧ s'.metadataStore = s.metadataStore) ∨
    ∃ task : Reconfigure N, s.installs (.install t) = some (t, task.newConfig) ∧
      s.metadataStore.compareAndAppendRange task.newConfig = .ok s'.metadataStore := by
  obtain ⟨task, htask, hs⟩ := Option.bind_eq_some_iff.mp hs
  dsimp only [installs]
  rw [htask]
  split at hs
  · rename_i hphase
    dsimp only [Option.bind_eq_bind, Option.bind_some, setReconfigure] at hs ⊢
    rw [hphase]
    split at hs
    · rename_i hnone
      rw [hnone, ← Option.some.inj hs]
      exact .inl ⟨rfl, rfl⟩
    · rename_i hsome
      split at hs
      · rename_i herr
        rw [hsome, herr, ← Option.some.inj hs]
        exact .inl ⟨rfl, rfl⟩
      · rename_i m hok
        rw [hsome, hok, ← Option.some.inj hs]
        exact .inr ⟨task, rfl, hok⟩
  · exact absurd hs (by simp)

/-- Only a winning `install` touches the store. -/
theorem step_installs (h : s.Valid firstEnd) (hs : s.step e = some s') :
    (s.installs e = none ∧ s'.metadataStore = s.metadataStore) ∨
    ∃ (t : CallId) (task : Reconfigure N), s.installs e = some (t, task.newConfig) ∧
      s.metadataStore.compareAndAppendRange task.newConfig = .ok s'.metadataStore := by
  by_cases he : ∃ t, e = .install t
  · obtain ⟨t, rfl⟩ := he
    exact (install_installs hs).imp_right fun ⟨task, h⟩ => ⟨t, task, h⟩
  · refine .inl ⟨?_, ?_⟩
    · cases e with
      | install t => exact absurd ⟨t, rfl⟩ he
      | _ => rfl
    · exact metadataStore_of_effect (step_effect h hs) fun t heq => he ⟨t, heq⟩

/-- What a run from the empty store has led to, with the calls that have installed a version. -/
structure Chained (s : LogSystem N) (installed : List (CallId × MetadataConfig)) : Prop where
  valid : s.Valid (firstVersionEnd none)
  linked : Linked s.metadataStore
  installed : installed.map (·.2.versionId) =
    Int.range 1 (s.metadataStore.getCurrentVersionId + 1)

theorem initial_chained : (initial N none).Chained [] :=
  ⟨initial_valid none, .empty, rfl⟩

theorem Chained.step {installed : List (CallId × MetadataConfig)} (h : s.Chained installed)
    (hs : s.step e = some s') : s'.Chained (installed ++ (s.installs e).toList) := by
  have hvalid := h.valid.of_changes (step_changes h.valid hs)
  rcases step_installs h.valid hs with ⟨hnone, hstore⟩ | ⟨t, task, hsome, hcar⟩
  · refine ⟨hvalid, hstore ▸ h.linked, ?_⟩
    rw [hnone, hstore]
    exact (congrArg _ (List.append_nil _)).trans h.installed
  · refine ⟨hvalid, h.linked.append hcar rfl rfl, ?_⟩
    have hprev : task.versionId = s.metadataStore.getCurrentVersionId :=
      previousVersionId_of_compareAndAppendRange hcar
    have hcurrent : s'.metadataStore.getCurrentVersionId = task.versionId + 1 := by
      refine getCurrentVersionId_eq (a := task.maxLogId) ?_ fun w b hw => ?_
      · exact (startOf_of_compareAndAppendRange hcar).trans (if_pos rfl)
      · rw [startOf_of_compareAndAppendRange hcar] at hw
        split at hw
        · rename_i heq
          exact heq.le
        · have := le_getCurrentVersionId hw
          omega
    have hnonneg := h.valid.store.chain.current_nonneg
    rw [hsome, List.map_append, h.installed, hcurrent, hprev]
    have hrange : (1 : Int) ≤ s.metadataStore.getCurrentVersionId + 1 := by omega
    rw [Int.range_concat hrange]
    show _ ++ [task.versionId + 1] = _
    rw [hprev]

/-- **The configuration chain.** Whatever the calls of `reconfigure` and `append` are and however
they interleave, the store holds the versions `1, …, k`; each names its predecessor, starts no
earlier than it and where it ends; and the calls that return the configuration they built are one
for each version. -/
theorem config_chain (h : Transition.run step (initial N none) es = some s) :
    ∃ k : Nat,
      (∀ v, (∃ c, s.metadataStore.configs.find? v = some c) ↔ 1 ≤ v ∧ v ≤ k) ∧
      (∀ v c, s.metadataStore.configs.find? v = some c → 1 < v → c.previousVersionId = v - 1) ∧
      (∀ v c d, s.metadataStore.configs.find? v = some c →
        s.metadataStore.configs.find? (v + 1) = some d →
          c.startIndex ≤ d.startIndex ∧ c.endIndex = d.startIndex ∧
            d.previousVersionEndIndex = d.startIndex) ∧
      (Transition.observed step installs (initial N none) es).map (·.2.versionId) =
        Int.range 1 (k + 1) := by
  have hchained : s.Chained (Transition.observed step installs (initial N none) es) :=
    Transition.observed_invariant (fun _ _ _ _ hP hs => hP.step hs) h initial_chained
  have hchain := hchained.valid.store.chain
  have hstart : ∀ {v c}, s.metadataStore.configs.find? v = some c →
      s.metadataStore.startOf v = some c.startIndex := by
    intro v c hc
    unfold startOf
    rw [hc]
    rfl
  refine ⟨s.metadataStore.getCurrentVersionId.toNat, fun v => ⟨?_, ?_⟩,
    fun v c hc _ => hchained.linked.previous v c hc, fun v c d hc hd => ⟨?_, ?_, ?_⟩,
    ?_⟩
  · rintro ⟨c, hc⟩
    rw [Int.toNat_of_nonneg hchain.current_nonneg]
    exact ⟨hchain.one_le v _ (hstart hc), le_getCurrentVersionId (hstart hc)⟩
  · rintro ⟨hone, hle⟩
    rw [Int.toNat_of_nonneg hchain.current_nonneg] at hle
    obtain ⟨a, ha⟩ := hchain.installed v hone hle
    obtain ⟨c, hc, -⟩ := Option.map_eq_some_iff.mp ha
    exact ⟨c, hc⟩
  · exact hchain.mono v (v + 1) _ _ (by omega) (hstart hc) (hstart hd)
  · exact hchained.linked.endIndex v c d hc hd
  · exact hchained.linked.previousEnd _ d hd
  · rw [Int.toNat_of_nonneg hchain.current_nonneg]
    exact hchained.installed

/-- Two calls race to follow version 0. Call 0 wins; call 1 is turned away, and installs version 2
when it is called again as call 2. -/
def racingReconfigurers : List (LogEvent 3) :=
  [.reconfigure 0 {} replicas01, .reconfigure 1 {} replicas01, .sealNext 0, .sealNext 1,
    .sealNext 1, .sealNext 0, .install 0, .install 1,
    .reconfigure 2 {} replicas01, .sealNext 2, .sealNext 2, .install 2]

theorem config_chain_racing_reconfigurers :
    ∃ s, Transition.run step (initial 3 none) racingReconfigurers = some s ∧
      s.metadataStore.getCurrentVersionId = 2 ∧
      ∃ k : Nat, (∀ v, (∃ c, s.metadataStore.configs.find? v = some c) ↔ 1 ≤ v ∧ v ≤ k) ∧
        (Transition.observed step installs (initial 3 none) racingReconfigurers).map
          (·.2.versionId) = Int.range 1 (k + 1) := by
  have h : ∀ s, Transition.run step (initial 3 none) racingReconfigurers = some s →
      ∃ k : Nat, (∀ v, (∃ c, s.metadataStore.configs.find? v = some c) ↔ 1 ≤ v ∧ v ≤ k) ∧
        (Transition.observed step installs (initial 3 none) racingReconfigurers).map
          (·.2.versionId) = Int.range 1 (k + 1) :=
    fun s hs =>
      have ⟨k, hversions, _, _, hinstalled⟩ := config_chain hs
      ⟨k, hversions, hinstalled⟩
  exact ⟨_, rfl, rfl, h _ rfl⟩

end ReplicatedCounter.Log.LogSystem
