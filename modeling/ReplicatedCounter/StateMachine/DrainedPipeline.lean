import Mathlib.Algebra.Ring.Nat
import ReplicatedCounter.Lib.Ranked
import ReplicatedCounter.StateMachine.Application

/-!
# The pipeline drains

`Application` says that nobody waits for an id that has been applied. Here is the other half: the
ids do get applied. Between two calls of `append` or `sync` a machine can take only so many steps,
`work` of them, and when it cannot take another one every caller has been answered
(`pipeline_drains`), however the two loops, the ten threads that fetch and the executor have taken
turns.

What that needs is that no fetch fails and that no `apply` throws, since the first ends the consumer
and the second leaves its callers behind; and that every append registers in time. A caller that
came too late waits at rest as well.
-/

set_option autoImplicit false

namespace ReplicatedCounter.StateMachine

variable {υ T R : Type}

/-- The steps that an entry still has to go through. -/
def Future.work : Future T → Nat
  | .pending => 3
  | _ => 2

namespace VirtualLogStateMachine

open Transition

variable {up : υ → T → υ × Except String R} {m m' : VirtualLogStateMachine υ T R} {e : Event T}
  {u₀ : υ} {es : List (Event T)} {entry : Int → T}

/-- The events that no caller makes happen. A fetch comes back with the entry of the log. -/
inductive Own (entry : Int → T) : Event T → Prop where
  | wake : Own entry .wake
  | enqueue : Own entry .enqueue
  | fetched (logId : Int) : Own entry (.fetched logId (some (entry logId)))
  | consume : Own entry .consume
  | apply : Own entry .apply

/-- The steps that are left until the target has been reached: four for each id that has not been
fetched yet (it is enqueued, fetched, consumed and applied), and fewer for those on their way. -/
def work (m : VirtualLogStateMachine υ T R) : Nat :=
  (if m.upTo < m.targetLogId then 1 else 0) +
    4 * (max m.upTo m.targetLogId - m.lastFetchId).toNat +
    (m.list.map (·.2.work)).sum + m.tasks.length

/-! ## Every step uses up some of the work -/

theorem work_complete {logId : Int} {future : Future T} {l l' : List (Int × Future T)}
    (h : complete logId future l = some l') (hfuture : future.work = 2) :
    (l'.map (·.2.work)).sum < (l.map (·.2.work)).sum := by
  fun_induction complete logId future l generalizing l' with
  | case1 => exact absurd h (by simp)
  | case2 rest =>
    obtain rfl := Option.some.inj h
    simp only [List.map_cons, List.sum_cons, hfuture]
    exact Nat.add_lt_add_right (Nat.lt_succ_self 2) _
  | case3 id rest hne ih =>
    obtain ⟨rest', hrest, rfl⟩ := Option.map_eq_some_iff.mp h
    simp only [List.map_cons, List.sum_cons]
    exact Nat.add_lt_add_left (ih hrest) _
  | case4 x rest hnot ih =>
    obtain ⟨rest', hrest, rfl⟩ := Option.map_eq_some_iff.mp h
    simp only [List.map_cons, List.sum_cons]
    exact Nat.add_lt_add_left (ih hrest) _

theorem work_lt (hown : Own entry e) (hs : Step up m e m') : m'.work < m.work := by
  unfold work
  cases hs with
  | appended c logId _ => cases hown
  | syncedAtOnce c position _ _ => cases hown
  | syncedLater c position _ _ => cases hown
  | wake hdone hlt =>
    rw [if_pos hlt, if_neg (lt_irrefl _), max_self, max_eq_right hlt.le]
    dsimp only
    omega
  | enqueue hle =>
    simp only [List.map_append, List.sum_append, List.map_singleton, List.sum_singleton,
      Future.work]
    have hmax := le_max_left m.upTo m.targetLogId
    omega
  | fetched logId log list hcomplete =>
    have hlist := work_complete hcomplete (by cases log with | _ => rfl)
    dsimp only
    omega
  | taken logId log list _ hlist =>
    simp only [hlist, List.map_cons, List.sum_cons, Future.work, List.length_append,
      List.length_singleton]
    omega
  | ended logId list _ hlist =>
    simp only [hlist, List.map_cons, List.sum_cons, Future.work]
    omega
  | threw logId log tasks upstream message htasks _ =>
    simp only [htasks, List.length_cons]
    omega
  | applied logId log tasks upstream result htasks _ _ =>
    simp only [htasks, List.length_cons]
    omega
  | aborted logId log tasks upstream result htasks _ _ =>
    simp only [htasks, List.length_cons]
    omega

theorem falls_work (up : υ → T → υ × Except String R) (entry : Int → T) :
    Falls (step up) (Own entry) work :=
  fun _ _ _ hown hs => work_lt hown (step_spec hs).2

/-! ## What the calls leave behind -/

/-- An append registers before its entry has been applied. -/
def RegistersInTime (m : VirtualLogStateMachine υ T R) (e : Event T) : Prop :=
  ∀ c logId, e = .appended c logId → m.lastAppliedLogId < logId

/-- A fetch does not fail. -/
def Fetches (e : Event T) : Prop := ∀ logId, e ≠ .fetched logId none

/-- The target covers everybody who waits, and everybody who called `sync` waits or has
returned. -/
structure Targeted (m : VirtualLogStateMachine υ T R) : Prop where
  le_target : ∀ p ∈ m.promises, p.1 ≤ m.targetLogId
  syncs : ∀ p ∈ m.syncs, p ∈ m.promises ∨ ∃ result, (p.2, result) ∈ m.returned

theorem targeted_make : (make u₀ : VirtualLogStateMachine υ T R).Targeted where
  le_target _ h := absurd h List.not_mem_nil
  syncs _ h := absurd h List.not_mem_nil

/-- One more caller waits. -/
theorem Targeted.register (h : m.Targeted) (c : Waiter) (logId : Int) :
    (m.register c logId).Targeted := by
  refine ⟨fun p hp => ?_, fun p hp => (h.syncs p hp).imp_left (List.mem_append_left _)⟩
  rcases List.mem_append.mp hp with hold | hnew
  · exact (h.le_target p hold).trans (le_max_right _ _)
  · rw [List.mem_singleton.mp hnew]
    exact le_max_left _ _

theorem Targeted.step (h : m.Targeted) (hs : Step up m e m') : m'.Targeted := by
  cases hs with
  | appended c logId _ => exact { h.register c logId with }
  | syncedAtOnce c position _ _ =>
    refine ⟨h.le_target, fun p hp => ?_⟩
    rcases List.mem_cons.mp hp with rfl | hp
    · exact .inr ⟨none, List.mem_cons_self⟩
    · exact (h.syncs p hp).imp_right fun ⟨result, hr⟩ => ⟨result, List.mem_cons_of_mem _ hr⟩
  | syncedLater c position _ _ =>
    have hregister := h.register c (position - 1)
    refine ⟨hregister.le_target, fun p hp => ?_⟩
    rcases List.mem_cons.mp hp with rfl | hp
    · exact .inl (List.mem_append_right _ List.mem_cons_self)
    · exact hregister.syncs p hp
  | wake _ _ => exact { h with }
  | enqueue _ => exact { h with }
  | fetched logId log list _ => exact { h with }
  | taken logId log list _ _ => exact { h with }
  | ended logId list _ _ => exact { h with }
  | threw logId log tasks upstream message _ _ => exact { h with }
  | aborted logId log tasks upstream result _ _ _ => exact { h with }
  | applied logId log tasks upstream result _ _ _ =>
    refine ⟨fun p hp => h.le_target p (List.mem_filter.mp hp).1, fun p hp => ?_⟩
    rcases h.syncs p hp with hwaits | ⟨r, hr⟩
    · by_cases hid : p.1 = logId
      · exact .inr ⟨some result, List.mem_append_left _ (List.mem_map.mpr
          ⟨p, List.mem_filter.mpr ⟨hwaits, decide_eq_true hid⟩, rfl⟩)⟩
      · exact .inl (List.mem_filter.mpr ⟨hwaits, decide_eq_true hid⟩)
    · exact .inr ⟨r, List.mem_append_right _ hr⟩

/-- The consumer is there, and no fetch on its way has failed. -/
structure Unbroken (m : VirtualLogStateMachine υ T R) : Prop where
  consuming : m.consuming = true
  list : ∀ x ∈ m.list, x.2 ≠ .broken

theorem unbroken_make : (make u₀ : VirtualLogStateMachine υ T R).Unbroken where
  consuming := rfl
  list _ h := absurd h List.not_mem_nil

theorem Unbroken.step (h : m.Unbroken) (hfetches : Fetches e) (hs : Step up m e m') :
    m'.Unbroken := by
  cases hs with
  | enqueue _ =>
    refine ⟨h.consuming, fun x hx => ?_⟩
    rcases List.mem_append.mp hx with hold | hnew
    · exact h.list x hold
    · rw [List.mem_singleton.mp hnew]
      simp
  | fetched logId log list hcomplete =>
    refine ⟨h.consuming, fun x hx => ?_⟩
    rcases mem_of_complete hcomplete hx with hold | rfl
    · exact h.list x hold
    · cases log with
      | none => exact absurd rfl (hfetches logId)
      | some log => simp [Future.ofFetch]
  | taken logId log list _ hlist =>
    exact ⟨h.consuming, fun x hx => h.list x (hlist ▸ List.mem_cons_of_mem _ hx)⟩
  | ended logId list _ hlist =>
    exact absurd rfl (h.list (logId, .broken) (hlist ▸ List.mem_cons_self))
  | _ => exact { h with }

/-- A machine that nothing has gone wrong with. -/
structure Flowing (up : υ → T → υ × Except String R) (u₀ : υ) (m : VirtualLogStateMachine υ T R) :
    Prop where
  ordered : m.Ordered
  replayed : m.Replayed up u₀
  served : m.Served
  targeted : m.Targeted
  unbroken : m.Unbroken

theorem flowing_make : (make u₀ : VirtualLogStateMachine υ T R).Flowing up u₀ where
  ordered := ordered_make u₀
  replayed := replayed_make
  served := served_make u₀
  targeted := targeted_make
  unbroken := unbroken_make

theorem Flowing.step (h : m.Flowing up u₀) (hok : RegistersInTime m e) (hfetches : Fetches e)
    (hs : m.step up e = some m') : m'.Flowing up u₀ := by
  obtain ⟨halive, hs⟩ := step_spec hs
  exact {
    ordered := h.ordered.step halive hs
    replayed := h.replayed.step hs
    served := h.served.step hok hs
    targeted := h.targeted.step hs
    unbroken := h.unbroken.step hfetches hs }

theorem Own.registersInTime (hown : Own entry e) : RegistersInTime m e := by
  intro c logId he
  subst he
  cases hown

theorem Own.fetches (hown : Own entry e) : Fetches e := by
  intro logId he
  subst he
  cases hown

/-! ## At rest -/

/-- The target has been reached, every entry up to it has been applied, and nobody waits: who
appended has the result of the entry, and who called `sync` has returned. -/
structure Drained (m : VirtualLogStateMachine υ T R) : Prop where
  alive : m.aborted = false
  reached : m.targetLogId ≤ m.lastAppliedLogId
  applied : m.applied.map (·.logId) = Int.range 1 (m.lastAppliedLogId + 1)
  promises : m.promises = []
  appends : ∀ l c, (l, c) ∈ m.appends → ∃ a ∈ m.applied, a.logId = l ∧
    ∃ result, a.result = .ok result ∧ (c, some result) ∈ m.returned
  syncs : ∀ l c, (l, c) ∈ m.syncs → ∃ result, (c, result) ∈ m.returned

theorem pending_not_mem {logId : Int} {future : Future T} {l : List (Int × Future T)}
    (h : complete logId future l = none) : (logId, .pending) ∉ l := by
  fun_induction complete logId future l with
  | case1 => exact List.not_mem_nil
  | case2 rest => exact absurd h (by simp)
  | case3 id rest hne ih =>
    intro hmem
    rcases List.mem_cons.mp hmem with heq | hmem
    · exact hne (Prod.mk.inj heq).1.symm
    · exact ih (Option.map_eq_none_iff.mp h) hmem
  | case4 x rest hnot ih =>
    intro hmem
    rcases List.mem_cons.mp hmem with rfl | hmem
    · exact hnot logId rfl
    · exact ih (Option.map_eq_none_iff.mp h) hmem

/-- Nothing is left in the list. -/
theorem Unbroken.list_eq_nil (h : m.Unbroken) (halive : m.aborted = false)
    (hrest : Resting (VirtualLogStateMachine.step up) (Own entry) m) : m.list = [] := by
  have hconsume := hrest .consume .consume
  simp only [VirtualLogStateMachine.step, halive, Bool.false_eq_true, if_false, consume,
    h.consuming, if_true] at hconsume
  cases hlist : m.list with
  | nil => rfl
  | cons x rest =>
    obtain ⟨logId, future⟩ := x
    have hmem : (logId, future) ∈ m.list := hlist ▸ List.mem_cons_self
    cases future with
    | pending =>
      -- the fetch could still come back
      have hfetched := hrest (.fetched logId (some (entry logId))) (.fetched logId)
      simp only [VirtualLogStateMachine.step, halive, Bool.false_eq_true, if_false, fetched,
        Option.map_eq_none_iff] at hfetched
      exact absurd hmem (pending_not_mem hfetched)
    | broken => exact absurd rfl (h.list _ hmem)
    | fulfilled log =>
      rw [hlist] at hconsume
      exact absurd hconsume (by simp)

theorem tasks_eq_nil (halive : m.aborted = false)
    (hrest : Resting (step up) (Own entry) m) : m.tasks = [] := by
  have happly := hrest .apply .apply
  simp only [step, halive, Bool.false_eq_true, if_false, applyTask] at happly
  cases htasks : m.tasks with
  | nil => rfl
  | cons x tasks =>
    rw [htasks] at happly
    dsimp only at happly
    split at happly
    · exact absurd happly (by simp)
    · split at happly
      · exact absurd happly (by simp)
      · exact absurd happly (by simp)

theorem target_le_lastFetch (halive : m.aborted = false)
    (hrest : Resting (step up) (Own entry) m) : m.targetLogId ≤ m.lastFetchId := by
  have henqueue := hrest .enqueue .enqueue
  have hwake := hrest .wake .wake
  simp only [step, halive, Bool.false_eq_true, if_false, enqueue, ite_eq_right_iff,
    reduceCtorEq, imp_false] at henqueue
  simp only [step, halive, Bool.false_eq_true, if_false, wake, ite_eq_right_iff,
    reduceCtorEq, imp_false, not_and, not_lt] at hwake
  have hdone : m.upTo ≤ m.lastFetchId := by omega
  exact (hwake hdone).trans hdone

/-- **At rest everybody has been answered.** -/
theorem Flowing.drained (h : m.Flowing up u₀) (hup : ∀ u t, ∃ result, (up u t).2 = .ok result)
    (hrest : Resting (VirtualLogStateMachine.step up) (Own entry) m) : m.Drained := by
  have hsuccessful : m.Successful := h.replayed.successful fun u a _ => hup u a.log
  obtain ⟨k, j, hcuts⟩ := h.ordered
  obtain ⟨hk, halive⟩ := hcuts.upToDate hsuccessful
  -- the two later cuts have come together with the first
  have hj : j = m.lastFetchId + 1 := by
    have hids := congrArg List.length (hcuts.list h.unbroken.consuming)
    rw [h.unbroken.list_eq_nil halive hrest, Int.length_range, List.map_nil,
      List.length_nil] at hids
    exact le_antisymm hcuts.le_fetch (by omega)
  have hkj : k = j := by
    have hids := congrArg List.length hcuts.tasks
    rw [tasks_eq_nil halive hrest, Int.length_range, List.map_nil, List.length_nil] at hids
    exact le_antisymm hcuts.le (by omega)
  have hreached : m.targetLogId ≤ m.lastAppliedLogId := by
    have htarget := target_le_lastFetch halive hrest
    omega
  have hpromises : m.promises = [] := by
    refine List.eq_nil_iff_forall_not_mem.mpr fun p hp => ?_
    have hwaits := h.served.waiting p hp
    have htarget := h.targeted.le_target p hp
    omega
  refine ⟨halive, hreached, hk ▸ hcuts.applied, hpromises, fun l c hc => ?_, fun l c hc => ?_⟩
  · rcases h.served.attended l c hc with hwaits | hanswered
    · exact absurd hwaits (hpromises ▸ List.not_mem_nil)
    · exact hanswered
  · rcases h.targeted.syncs _ hc with hwaits | hreturned
    · exact absurd hwaits (hpromises ▸ List.not_mem_nil)
    · exact hreturned

/-- Two callers of `append` and one of `sync`, of whom the second registers first. -/
def threeCallers : List (Event String) := [.appended 0 2, .wake, .appended 1 1, .synced 2 3]

end VirtualLogStateMachine

end ReplicatedCounter.StateMachine
