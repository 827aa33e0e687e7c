import ReplicatedCounter.Lib.Transition
import ReplicatedCounter.StateMachine.Pipeline

/-!
# An `apply` that throws

A task of `singleExecutor_` is a coroutine that nobody awaits: it applies an entry, completes the
promises for it and moves `lastAppliedLogId_`. An exception of the upstream `apply` ends it before
the last two. The promises of the entry stay where they are, and `lastAppliedLogId_` stays behind,
so that the next entry finds its assertion broken. `CounterApplicator::apply` throws on every entry
it cannot parse, and the machines have nothing to catch that with.

`KeepsGoing` is what a failing `apply` should leave alone. `keepsGoing_iff` says when it does: if no
`apply` throws. (A machine that is told in the constructor to have applied entry 1 may fail on it.)
-/

set_option autoImplicit false

namespace ReplicatedCounter.StateMachine.VirtualLogStateMachine

open Transition

variable {υ T R : Type} {up : υ → T → υ × Except String R} {m m' : VirtualLogStateMachine υ T R}
  {e : Event T} {u₀ : υ} {lastAppliedLogId : Int} {es : List (Event T)}

/-- The `apply` of this entry has thrown. -/
def Threw (a : Applied T R) : Prop := ∃ message, a.result = .error message

/-- The executor is about to take an entry on which `apply` throws. -/
def Throws (up : υ → T → υ × Except String R) (m : VirtualLogStateMachine υ T R) (logId : Int) :
    Prop :=
  ∃ log tasks message, m.tasks = (logId, log) :: tasks ∧ (up m.upstream log).2 = .error message

/-- **A failing `apply` does not wedge the pipeline.** What a task of the executor does to the
machine, if the entry it takes makes `apply` throw, or if an earlier one has. -/
structure KeepsGoing (up : υ → T → υ × Except String R) (m m' : VirtualLogStateMachine υ T R) :
    Prop where
  completed : ∀ logId, Throws up m logId → ∀ c, (logId, c) ∉ m'.promises
  advanced : ∀ logId, Throws up m logId → m'.lastAppliedLogId = logId
  asserted : (∃ a ∈ m.applied, Threw a) → m'.aborted = false
  inOrder : m'.applied.map (·.logId) = Int.range 1 (m'.applied.length + 1)

/-- Every task of the run keeps the pipeline going. -/
def PipelineKeepsGoing (up : υ → T → υ × Except String R) (m : VirtualLogStateMachine υ T R)
    (e : Event T) : Prop :=
  e = .apply → ∀ m', m.step up .apply = some m' → KeepsGoing up m m'

/-- No `apply` throws, unless it is the first one of a machine that started with
`lastAppliedLogId_ = 1`, and nobody waits for it. -/
def Unthrown (up : υ → T → υ × Except String R) (lastAppliedLogId : Int)
    (m : VirtualLogStateMachine υ T R) (e : Event T) : Prop :=
  e = .apply → m.aborted = false → ∀ logId, Throws up m logId →
    lastAppliedLogId = 1 ∧ logId = 1 ∧ ∀ c, (1, c) ∉ m.promises

/-! ## The ids in the pipeline -/

/-- The ids `1, …, k - 1` have been applied, `k, …, j - 1` wait for the executor, and `j, …,
lastFetchId_` are in the list. -/
structure Aligned (m : VirtualLogStateMachine υ T R) (k j : Int) : Prop where
  one_le : 1 ≤ k
  le : k ≤ j
  le_fetch : j ≤ m.lastFetchId + 1
  applied : m.applied.map (·.logId) = Int.range 1 k
  tasks : m.tasks.map (·.1) = Int.range k j
  list : m.consuming = true → m.list.map (·.1) = Int.range j (m.lastFetchId + 1)

theorem aligned_make : (make u₀ lastAppliedLogId : VirtualLogStateMachine υ T R).Aligned 1 1 where
  one_le := le_rfl
  le := le_rfl
  le_fetch := le_rfl
  applied := rfl
  tasks := rfl
  list _ := rfl

/-- The entry the executor takes is the next one. -/
theorem Aligned.of_apply {k j logId : Int} {log : T} {tasks : List (Int × T)} (h : m.Aligned k j)
    (htasks : m.tasks = (logId, log) :: tasks) (result : Except String R)
    (hlist : m'.list = m.list) (hfetch : m'.lastFetchId = m.lastFetchId)
    (hconsuming : m'.consuming = m.consuming) (htail : m'.tasks = tasks)
    (happlied : m'.applied = m.applied ++ [⟨logId, log, result⟩]) :
    logId = k ∧ m'.Aligned (k + 1) j := by
  have hids := h.tasks
  rw [htasks] at hids
  obtain ⟨hlt, rfl, hrest⟩ := Int.eq_of_range_eq_cons hids.symm
  refine ⟨rfl, ?_⟩
  constructor
  · exact h.one_le.trans (Int.le_add_one le_rfl)
  · exact hlt
  · rw [hfetch]
    exact h.le_fetch
  · rw [happlied, List.map_append, h.applied, Int.range_concat h.one_le]
    rfl
  · rw [htail]
    exact hrest
  · rw [hconsuming, hlist, hfetch]
    exact h.list

/-- Every other step leaves the lower cut where it is. -/
theorem Aligned.step {k j : Int} (h : m.Aligned k j) (hs : Step up m e m') (he : e ≠ .apply) :
    ∃ j', m'.Aligned k j' := by
  cases hs with
  | appended c logId _ => exact ⟨j, { h with }⟩
  | syncedAtOnce c position _ _ => exact ⟨j, { h with }⟩
  | syncedLater c position _ _ => exact ⟨j, { h with }⟩
  | wake _ _ => exact ⟨j, { h with }⟩
  | enqueue _ =>
    refine ⟨j, { h with le_fetch := ?_, list := ?_ }⟩
    · exact h.le_fetch.trans (Int.le_add_one le_rfl)
    · intro hconsuming
      rw [List.map_append, h.list hconsuming, Int.range_concat h.le_fetch]
      rfl
  | fetched logId log list hcomplete =>
    refine ⟨j, { h with list := ?_ }⟩
    intro hconsuming
    exact (ids_of_complete hcomplete).trans (h.list hconsuming)
  | taken logId log list hconsuming hlist =>
    have hids := h.list hconsuming
    rw [hlist] at hids
    obtain ⟨hlt, rfl, hrest⟩ := Int.eq_of_range_eq_cons hids.symm
    refine ⟨logId + 1, { h with
      le := h.le.trans (Int.le_add_one le_rfl), le_fetch := hlt, tasks := ?_,
      list := fun _ => hrest }⟩
    rw [List.map_append, h.tasks, Int.range_concat h.le]
    rfl
  | ended logId list _ _ => exact ⟨j, { h with list := fun hc => absurd hc (by simp) }⟩
  | threw logId log tasks upstream message _ _ => exact absurd rfl he
  | applied logId log tasks upstream result _ _ _ => exact absurd rfl he
  | aborted logId log tasks upstream result _ _ _ => exact absurd rfl he

/-! ## Where `lastAppliedLogId_` stands -/

/-- Before the first entry it is what the constructor was given; after it, the id of the last entry,
or an assertion has failed. -/
def UpToDate (lastAppliedLogId : Int) (m : VirtualLogStateMachine υ T R) : Prop :=
  ∃ k j, m.Aligned k j ∧
    ((m.applied = [] ∧ m.lastAppliedLogId = lastAppliedLogId) ∨
      (m.applied ≠ [] ∧ (m.aborted = false → m.lastAppliedLogId + 1 = k)))

theorem upToDate_make :
    (make u₀ lastAppliedLogId : VirtualLogStateMachine υ T R).UpToDate lastAppliedLogId :=
  ⟨1, 1, aligned_make, .inl ⟨rfl, rfl⟩⟩

theorem Aligned.eq_one_of_nil {k j : Int} (h : m.Aligned k j) (hnil : m.applied = []) : k = 1 := by
  have hids := h.applied
  rw [hnil, List.map_nil] at hids
  by_contra hne
  have hlt : 1 < k := lt_of_le_of_ne h.one_le (Ne.symm hne)
  rw [Int.range_cons hlt] at hids
  cases hids

/-- The entry of id 1 is the first one. -/
theorem Aligned.first_of_start {k j : Int} (h : m.Aligned k j)
    (hlast : (m.applied = [] ∧ m.lastAppliedLogId = lastAppliedLogId) ∨
      (m.applied ≠ [] ∧ (m.aborted = false → m.lastAppliedLogId + 1 = k))) (hone : k = 1) :
    m.lastAppliedLogId = lastAppliedLogId := by
  rcases hlast with ⟨-, heq⟩ | ⟨hne, -⟩
  · exact heq
  · have hids := h.applied
    rw [hone, Int.range_self, List.map_eq_nil_iff] at hids
    exact absurd hids hne

/-- Whatever the entries did, they have been taken in order. -/
theorem Aligned.inOrder {k j : Int} (h : m.Aligned k j) :
    m.applied.map (·.logId) = Int.range 1 (m.applied.length + 1) := by
  have hlen := congrArg List.length h.applied
  rw [List.length_map, Int.length_range] at hlen
  have hk : k = m.applied.length + 1 := by
    have hone := h.one_le
    omega
  rw [h.applied, hk]

/-- An `apply` that throws only leaves a record. -/
theorem Throws.step {logId : Int} (h : Throws up m logId) (hs : Step up m .apply m') :
    m'.promises = m.promises ∧ m'.lastAppliedLogId = m.lastAppliedLogId ∧
      m'.aborted = m.aborted := by
  obtain ⟨log, tasks, message, htasks, hup⟩ := h
  cases hs with
  | threw logId' log' tasks' upstream message' _ _ => exact ⟨rfl, rfl, rfl⟩
  | applied logId' log' tasks' upstream result htasks' hup' _ =>
    rw [htasks, List.cons.injEq, Prod.mk.injEq] at htasks'
    rw [← htasks'.1.2] at hup'
    rw [hup'] at hup
    cases hup
  | aborted logId' log' tasks' upstream result htasks' hup' _ =>
    rw [htasks, List.cons.injEq, Prod.mk.injEq] at htasks'
    rw [← htasks'.1.2] at hup'
    rw [hup'] at hup
    cases hup

/-- The steps outside the executor do not touch what the executor does. -/
theorem Step.outside (hs : Step up m e m') (he : e ≠ .apply) :
    m'.applied = m.applied ∧ m'.lastAppliedLogId = m.lastAppliedLogId ∧ m'.aborted = m.aborted := by
  cases hs with
  | threw logId log tasks upstream message _ _ => exact absurd rfl he
  | applied logId log tasks upstream result _ _ _ => exact absurd rfl he
  | aborted logId log tasks upstream result _ _ _ => exact absurd rfl he
  | _ => exact ⟨rfl, rfl, rfl⟩

/-- **A step keeps it**, if the entry it applies does not throw. -/
theorem UpToDate.step (h : m.UpToDate lastAppliedLogId)
    (hok : Unthrown up lastAppliedLogId m e) (hs : m.step up e = some m') :
    m'.UpToDate lastAppliedLogId := by
  obtain ⟨halive, hstep⟩ := step_spec hs
  obtain ⟨k, j, hk, hlast⟩ := h
  by_cases he : e = .apply
  · subst he
    cases hstep with
    | threw logId log tasks upstream message htasks hup =>
      have hthrows : Throws up m logId := ⟨log, tasks, message, htasks, by rw [hup]⟩
      obtain ⟨hstart, hone, -⟩ := hok rfl halive logId hthrows
      obtain ⟨hlogId, hk'⟩ : logId = k ∧ Aligned { m with
          upstream, tasks, applied := m.applied ++ [⟨logId, log, .error message⟩] } (k + 1) j :=
        hk.of_apply htasks (.error message) rfl rfl rfl rfl rfl
      refine ⟨k + 1, j, hk', .inr ⟨by simp, ?_⟩⟩
      intro _
      show m.lastAppliedLogId + 1 = k + 1
      rw [hk.first_of_start hlast (hlogId.symm.trans hone), hstart, ← hlogId, hone]
    | applied logId log tasks upstream result htasks hup hnext =>
      obtain ⟨hlogId, hk'⟩ : logId = k ∧ Aligned { m with
          upstream, tasks, applied := m.applied ++ [⟨logId, log, .ok result⟩]
          promises := m.promises.filter (·.1 ≠ logId)
          returned := (m.promises.filter (·.1 = logId)).map (fun p => (p.2, some result)) ++
            m.returned
          lastAppliedLogId := logId } (k + 1) j :=
        hk.of_apply htasks (.ok result) rfl rfl rfl rfl rfl
      refine ⟨k + 1, j, hk', .inr ⟨by simp, ?_⟩⟩
      intro _
      exact congrArg (· + 1) hlogId
    | aborted logId log tasks upstream result htasks hup hnext =>
      obtain ⟨-, hk'⟩ : logId = k ∧ Aligned { m with
          upstream, tasks, applied := m.applied ++ [⟨logId, log, .ok result⟩]
          aborted := true } (k + 1) j :=
        hk.of_apply htasks (.ok result) rfl rfl rfl rfl rfl
      refine ⟨k + 1, j, hk', .inr ⟨by simp, ?_⟩⟩
      intro hfalse
      cases hfalse
  · obtain ⟨j', hk'⟩ := hk.step hstep he
    obtain ⟨happlied, hid, haborted⟩ := hstep.outside he
    refine ⟨k, j', hk', ?_⟩
    rw [happlied, hid, haborted]
    exact hlast

/-- **One task.** In such a state it keeps the pipeline going exactly if `apply` does not throw. -/
theorem UpToDate.keepsGoing_iff_unthrown (h : m.UpToDate lastAppliedLogId) :
    PipelineKeepsGoing up m e ↔ Unthrown up lastAppliedLogId m e := by
  obtain ⟨k, j, hk, hlast⟩ := h
  constructor
  · intro hgoes he halive logId hthrows
    obtain ⟨log, tasks, message, htasks, hup⟩ := hthrows
    have hthrows : Throws up m logId := ⟨log, tasks, message, htasks, hup⟩
    obtain ⟨m', hs⟩ : ∃ m', m.step up .apply = some m' := by
      rcases hresult : up m.upstream log with ⟨upstream, result⟩
      rw [hresult] at hup
      dsimp only at hup
      subst hup
      simp [VirtualLogStateMachine.step, applyTask, halive, htasks, hresult]
    obtain ⟨hpromises, hid, -⟩ := hthrows.step (step_spec hs).2
    have hkeeps := hgoes he m' hs
    have hadvanced := hkeeps.advanced logId hthrows
    rw [hid] at hadvanced
    have hids := hk.tasks
    rw [htasks] at hids
    obtain ⟨-, rfl, -⟩ := Int.eq_of_range_eq_cons hids.symm
    rcases hlast with ⟨hnil, hstart⟩ | ⟨-, hprevious⟩
    · have hone : logId = 1 := hk.eq_one_of_nil hnil
      refine ⟨?_, hone, ?_⟩
      · rw [← hstart, hadvanced, hone]
      · intro c
        rw [← hone, ← hpromises]
        exact hkeeps.completed logId hthrows c
    · -- the id that should have been reached is behind
      have hbehind := hprevious halive
      rw [hadvanced] at hbehind
      exact absurd hbehind (Int.lt_succ logId).ne'
  · intro hok he m' hs
    obtain ⟨halive, hstep⟩ := step_spec hs
    have hwhole : m'.UpToDate lastAppliedLogId := by
      apply UpToDate.step ⟨k, j, hk, hlast⟩ (e := .apply) ?_ hs
      exact he ▸ hok
    have hunthrown := hok he halive
    constructor
    · intro logId hthrows c
      obtain ⟨-, rfl, hnobody⟩ := hunthrown logId hthrows
      rw [(hthrows.step hstep).1]
      exact hnobody c
    · intro logId hthrows
      obtain ⟨hstart, hone, -⟩ := hunthrown logId hthrows
      have hfirst : k = 1 := by
        obtain ⟨log, tasks, message, htasks, -⟩ := hthrows
        have hids := hk.tasks
        rw [htasks] at hids
        exact (Int.eq_of_range_eq_cons hids.symm).2.1.symm.trans hone
      rw [(hthrows.step hstep).2.1, hk.first_of_start hlast hfirst, hstart, hone]
    · intro hearlier
      have hnext : m.lastAppliedLogId + 1 = k := by
        rcases hlast with ⟨hnil, -⟩ | ⟨-, heq⟩
        · obtain ⟨a, ha, -⟩ := hearlier
          rw [hnil] at ha
          cases ha
        · exact heq halive
      cases hstep with
      | threw logId log tasks upstream message _ _ => exact halive
      | applied logId log tasks upstream result _ _ _ => exact halive
      | aborted logId log tasks upstream result htasks _ hnot =>
        have hids := hk.tasks
        rw [htasks] at hids
        obtain ⟨-, rfl, -⟩ := Int.eq_of_range_eq_cons hids.symm
        exact absurd hnext hnot
    · obtain ⟨k', j', hk', -⟩ := hwhole
      exact hk'.inOrder

/-- **The pipeline keeps going exactly if no `apply` throws.** -/
theorem keepsGoing_iff (up : υ → T → υ × Except String R) (u₀ : υ) (lastAppliedLogId : Int)
    (es : List (Event T)) :
    Meets (VirtualLogStateMachine.step up) (PipelineKeepsGoing up) (make u₀ lastAppliedLogId) es ↔
      Meets (VirtualLogStateMachine.step up) (Unthrown up lastAppliedLogId)
        (make u₀ lastAppliedLogId) es :=
  meets_congr (fun _ _ h => h.keepsGoing_iff_unthrown) (fun _ _ _ h hok hs => h.step hok hs)
    upToDate_make

/-- A caller waits for entry 1, on which `apply` throws. It goes on waiting, `lastAppliedLogId_`
stays at 0, and entry 2 ends the process. -/
theorem failing_apply_wedges :
    let up : Nat → Bool → Nat × Except String Nat := fun n parses =>
      if parses then (n + 1, .ok (n + 1)) else (n, .error "log entry could not be parsed")
    let front : List (Event Bool) := [.appended 0 1, .appended 1 2, .wake, .enqueue, .enqueue,
      .fetched 1 (some false), .fetched 2 (some true), .consume, .consume]
    ¬ Meets (VirtualLogStateMachine.step up) (PipelineKeepsGoing up) (make 0)
        (front ++ [.apply, .apply]) ∧
      (run (VirtualLogStateMachine.step up) (make 0) (front ++ [.apply, .apply])).map
        (fun m => (m.promises, m.lastAppliedLogId, m.aborted)) =
          some ([(1, 0), (2, 1)], 0, true) := by
  intro up front
  refine ⟨?_, by decide +kernel⟩
  intro h
  obtain ⟨-, hgoes, -⟩ :=
    h.append (rfl : run (VirtualLogStateMachine.step up) (make 0) front = some _)
  have hkeeps := hgoes rfl _ rfl
  have hadvanced := hkeeps.advanced 1
    ⟨false, [(2, true)], "log entry could not be parsed", rfl, rfl⟩
  cases hadvanced

end ReplicatedCounter.StateMachine.VirtualLogStateMachine
