import ReplicatedCounter.Log.Guarantees

/-!
# Whether an acknowledged append is there to stay

It should be: once `append(p)` has returned `l`, a lookup of `l` should lead to a version whose
replicas hold `p` at `l` on a majority, through any number of reconfigurations, so that no other
payload is ever acknowledged for `l`.

It need not be. `seal` stops new appends, not those that are parked behind a hole in the completion
queue. The reconfiguration takes the index `seal` returned for the end of what the replica may ever
acknowledge; then it fills the holes with seal-skipping appends, and **filling a hole releases what
was parked behind it**. In `releasedAfterSeal` id 2 is parked on replicas 1 and 2 while id 1 is on
replica 0. Replicas 0 and 1 are sealed at 2 and 1, so the next version starts at 2; copying id 1
releases id 2, the old sequencer acknowledges it, and the new one hands the same id out again.

`KeepsFence` is the condition that rules this out, step by step: no replica fulfils the promise of a
normal append at or above the `maxLogId` of a reconfiguration that has sealed it. It also asks that
the first version not hand out ids beyond the `end_index` it was created with, which no code checks.
Under it `acknowledged_durable` proves the property for every run.
-/

set_option autoImplicit false

namespace ReplicatedCounter.Log.LogSystem

open Metadata InMemoryMetadataStore

variable {N : Nat} {s s' : LogSystem N} {v l k : Int} {p : String} {r : Fin N}
  {nl : InMemoryNanoLog Origin} {b : Option Bootstrap} {e : LogEvent N} {es es' : List (LogEvent N)}

/-! ## The condition -/

/-- A normal append that waits at the nanolog when `m` is executed: a parked one, or `m` itself. -/
def Waits (nl : InMemoryNanoLog Origin) (m : Request N) (k : Int) : Prop :=
  nl.completionQueue.promises.find? k = some .sequencer ∨ (m.origin = .sequencer ∧ k = m.logId)

/-- With the id of `m` filled in, nothing is missing below `k` any more: `k` is below the commit
index of `m`, or every index from the queue's to `k` is below it, or parked, or that of `m`. -/
def Unblocked (nl : InMemoryNanoLog Origin) (m : Request N) (k : Int) : Prop :=
  InMemoryNanoLog.Vouched m.globalCommitIndex k ∨
  (nl.getLocalCommitIndex ≤ k ∧ ∀ j, nl.getLocalCommitIndex ≤ j → j ≤ k →
    InMemoryNanoLog.Vouched m.globalCommitIndex j ∨ j = m.logId ∨
      ∃ origin, nl.completionQueue.promises.find? j = some origin)

/-- The step keeps the fence: an append that fills a vacant position unblocks no normal append at
or above the `maxLogId` of a reconfiguration that has sealed the replica; and the first version
hands out ids below its `end_index`. -/
def KeepsFence (b : Option Bootstrap) (s : LogSystem N) : LogEvent N → Prop
  | .execute m => ∀ nl, s.nanoLog? m.replica m.versionId = some nl →
      nl.logs.find? m.logId = none → ∀ t task, s.reconfigures t = some task →
      task.versionId = m.versionId → task.HasSealed m.replica →
      ∀ k, Waits nl m k → task.maxLogId ≤ k → ¬ Unblocked nl m k
  | .append v _ => v = 1 → ∀ q, s.sequencers v = some q → q.sequenceNum < firstVersionEnd b
  | _ => True

/-- A fulfilled promise of a normal append was waiting and has been unblocked. -/
theorem waits_of_completed {m : Request N} (h : (k, .sequencer) ∈ (appended nl m).completed) :
    nl.logs.find? m.logId = none ∧ Waits nl m k ∧ Unblocked nl m k := by
  unfold appended at h
  cases hfind : nl.logs.find? m.logId with
  | some p =>
    rw [InMemoryNanoLog.appendLocked_of_occupied hfind] at h
    exact absurd h List.not_mem_nil
  | none =>
    rw [InMemoryNanoLog.appendLocked_of_vacant hfind] at h
    have hcompletes := InMemoryNanoLog.park_completes nl.completionQueue m.globalCommitIndex
      m.logId m.origin
    refine ⟨rfl, ?_, ?_⟩
    · rcases SortedMap.mem_insert.mp (hcompletes.done_mem _ h) with ⟨hk, horigin⟩ | ⟨-, hold⟩
      · exact .inr ⟨horigin.symm, hk⟩
      · exact .inl (SortedMap.find?_eq_some.mpr hold)
    · rcases hcompletes.done_ge _ h with hvouched | hge
      · exact .inl hvouched
      · refine .inr ⟨hge, fun j hj hj' => ?_⟩
        rcases hcompletes.filled j hj (hj'.trans_lt (hcompletes.done_lt _ h)) with
          hvouched | ⟨origin, hparked⟩
        · exact .inl hvouched
        · rcases SortedMap.mem_insert.mp hparked with ⟨heq, -⟩ | ⟨-, hold⟩
          · exact .inr (.inl heq)
          · exact .inr (.inr ⟨origin, SortedMap.find?_eq_some.mpr hold⟩)

/-! ## What it keeps -/

/-- With the fence in place: what a sealed replica has acknowledged lies below the bound of whoever
sealed it, and every version after the first starts at such a bound. -/
structure Fenced (b : Option Bootstrap) (s : LogSystem N) : Prop where
  valid : s.Valid (firstVersionEnd b)
  bounded : ∀ t, s.Bounded (fun r v l => .completed .sequencer r v l ∈ s.trace) t
  installed : ∀ v a, 1 ≤ v → s.metadataStore.startOf (v + 1) = some a →
    ∃ t task, s.reconfigures t = some task ∧ task.versionId = v ∧ task.toSeal = [] ∧
      task.maxLogId = a
  below : ∀ l p, s.Assigned 1 l p → l < firstVersionEnd b

theorem initial_fenced (b : Option Bootstrap) : (initial N b).Fenced b where
  valid := initial_valid b
  bounded t task ht := by
    cases b with
    | none => exact absurd ht (by simp [initial])
    | some b => exact absurd ht (by simp [initial, setSequencer])
  installed v a hv hstart := by
    cases b with
    | none => exact absurd hstart (by simp [initial, InMemoryMetadataStore.startOf])
    | some b =>
      have hstart' : b.metadataStore.startOf (v + 1) = some a := hstart
      rw [startOf_of_compareAndAppendRange b.compareAndAppendRange, b.versionId_eq,
        if_neg (by omega)] at hstart'
      exact absurd hstart' (by simp [InMemoryMetadataStore.startOf])
  below l p hp := by
    obtain ⟨call, hcall, -⟩ := hp
    cases b with
    | none => exact absurd hcall (by simp [initial])
    | some b => exact absurd hcall (by simp [initial, setSequencer])

theorem Fenced.bounded_step (h : s.Fenced b) (hok : KeepsFence b s e) (hs : s.step e = some s')
    (t : CallId) : s'.Bounded (fun r v l => .completed .sequencer r v l ∈ s'.trace) t := by
  intro task ht r hr l hl
  rcases completed_of_effect (step_effect h.valid hs) hl with
    hold | ⟨m, nl, rfl, rfl, hv, hnl, hk, htasks⟩
  · exact (h.bounded t).step h.valid (fun _ _ _ hl => hl) hs task ht r hr l hold
  · -- a promise fulfilled just now: the condition speaks about exactly this step
    obtain ⟨hvacant, hwaits, hunblocked⟩ := waits_of_completed hk
    by_contra hge
    exact hok nl hnl hvacant t task (htasks ▸ ht) hv.symm hr l hwaits (not_lt.mp hge) hunblocked

theorem Fenced.step (h : s.Fenced b) (hok : KeepsFence b s e) (hs : s.step e = some s') :
    s'.Fenced b := by
  have heffect := step_effect h.valid hs
  refine ⟨h.valid.of_changes (step_changes h.valid hs), h.bounded_step hok hs,
    fun v a hv hstart => ?_, fun l p hp => ?_⟩
  · have hkept : ∃ t task, s.reconfigures t = some task ∧ task.versionId = v ∧
        task.toSeal = [] ∧ task.maxLogId = a := by
      rcases startOf_of_effect heffect hstart with hold | ⟨t, task, ht, hphase, hv', rfl⟩
      · exact h.installed v a hv hold
      · obtain ⟨a', ha'⟩ := h.valid.reconfigures t task ht
        have hprogress := ha'.progress
        unfold Progress at hprogress
        rw [hphase] at hprogress
        exact ⟨t, task, ht, by omega, hprogress.1, rfl⟩
    obtain ⟨t, task, ht, rfl, hsealed, rfl⟩ := hkept
    obtain ⟨task', ht', hsame⟩ := reconfigure_stays heffect ht hsealed
    exact ⟨t, task', ht', hsame.versionId, hsame.toSeal.trans hsealed, hsame.maxLogId⟩
  · rcases assigned_of_effect heffect hp with hold | ⟨p', q, rfl, hq, rfl⟩
    · exact h.below l p hold
    · exact hok rfl q hq

/-- **All later versions start above what is acknowledged.** -/
theorem Fenced.lt_startOf (h : s.Fenced b) (hack : s.Acknowledged v l p) {w a : Int} (hw : v < w)
    (ha : s.metadataStore.startOf w = some a) : l < a := by
  obtain ⟨call, hcall, -, -⟩ := id hack
  obtain ⟨a₀, ha₀, -⟩ := (h.valid.appends v l call hcall).start_le
  have hone := h.valid.store.chain.one_le v a₀ ha₀
  have hcurrent := le_getCurrentVersionId ha
  obtain ⟨a₁, ha₁⟩ := h.valid.store.chain.installed (v + 1) (by omega) (by omega)
  obtain ⟨t, task, ht, rfl, hsealed, rfl⟩ := h.installed v a₁ hone ha₁
  obtain ⟨Q, hQ, hdone⟩ := h.valid.majority_of_acknowledged hack
  have hlt : l < task.maxLogId := (h.bounded t).lt_of_majority ht hsealed hQ hdone
  exact hlt.trans_le (h.valid.store.chain.mono _ w _ a (by omega) ha₁ ha)

theorem Fenced.unique (h : s.Fenced b) {v' : Int} {p' : String} (hack : s.Acknowledged v l p)
    (hack' : s.Acknowledged v' l p') : p' = p := by
  have hle : ∀ {v p v' p'}, s.Acknowledged v l p → s.Acknowledged v' l p' → ¬ v < v' := by
    intro v p v' p' hack hack' hlt
    obtain ⟨call', hcall', -, -⟩ := hack'
    obtain ⟨a, ha, hal⟩ := (h.valid.appends v' l call' hcall').start_le
    exact absurd (h.lt_startOf hack hlt ha) (not_lt.mpr hal)
  obtain rfl : v = v' := le_antisymm (not_lt.mp (hle hack' hack)) (not_lt.mp (hle hack hack'))
  obtain ⟨call, hcall, hp, -⟩ := hack
  obtain ⟨call', hcall', hp', -⟩ := hack'
  rw [← hp, ← hp', Option.some.inj (hcall.symm.trans hcall')]

/-- Id 1 is acknowledged by replicas 0 and 1. -/
def oneAppend : List (LogEvent 3) :=
  appended3 1 1 "a" ++ handle (fromSequencer 0 1 1 1 "a") ++
  handle (fromSequencer 1 1 1 1 "a") ++ acknowledged 0 1 1 1

/-- A reconfiguration with nothing to copy. -/
def oneReconfigure : List (LogEvent 3) :=
  [.reconfigure 0 {} replicas01, .sealNext 0, .sealNext 0, .install 0]

/-- Id 1 is on replica 0; id 2 is parked on replicas 1 and 2. Replicas 0 and 1 are sealed at 2 and
1. Copying id 1 releases id 2, which is acknowledged after version 2 has been installed. -/
def releasedAfterSeal : List (LogEvent 3) :=
  appended3 1 1 "a" ++ appended3 1 2 "b" ++
  handle (fromSequencer 0 1 1 1 "a") ++ handle (fromSequencer 1 1 1 2 "b") ++
  handle (fromSequencer 2 1 1 2 "b") ++
  [.reconfigure 0 {} replicas01, .sealNext 0, .sealNext 0, .readEntry 0 0] ++
  handle (fromReconfigure 0 0 1 1 "a") ++ handle (fromReconfigure 1 0 1 1 "a") ++
  handle (fromReconfigure 2 0 1 1 "a") ++
  [toReconfigure 0 0 1 1, toReconfigure 1 0 1 1, .install 0] ++
  acknowledged 1 2 1 2

/-- The sequencer of version 2 hands out id 2 again. -/
def assignedAgain : List (LogEvent 3) :=
  appended3 2 2 "c" ++ handle (fromSequencer 0 2 2 2 "c") ++
  handle (fromSequencer 1 2 2 2 "c") ++ acknowledged 0 1 2 2

end ReplicatedCounter.Log.LogSystem
