import Mathlib.Data.List.Basic
import ReplicatedCounter.StateMachine.Cluster

/-!
# Ordered application, and the waiters it wakes

Two properties of `VirtualLogStateMachine`, for any number of machines over one log and any
interleaving of their loops and callers.

**Every machine applies the entries `1, 2, …` of the log, each once** (`applied_in_order`). The
parallel fetches and the callers that raise the target do not matter: the ids go through the
pipeline in the order in which they were started. A fetch that fails ends the consumer, and the
machine stays where it is.

**Whoever waits for an applied entry has been answered** (`no_stranded_waiters`), *if* every append
registers its promise before its entry is applied. `sync` looks at `lastAppliedLogId_` under the
lock before it registers; `append` does not. It gets its id first and registers later, and in
between a caller with a higher id may have the pipeline apply both (`strandedAppend`).
-/

set_option autoImplicit false

namespace ReplicatedCounter.StateMachine

variable {log : VirtualLog} {ι υ T R : Type} [DecidableEq ι] {s₀ : log.State} {u₀ : ι → υ}
  {up : υ → T → υ × Except String R} {codec : Codec T String} {s s' : Cluster log ι υ T R}
  {e : ClusterEvent log ι T} {es : List (ClusterEvent log ι T)} {Good : T → Prop}

/-- The entry of an id. -/
def VirtualLog.AppendOnly.entry (hlog : log.AppendOnly s₀) (codec : Codec T String)
    (s : log.State) (logId : Int) : Option T :=
  (hlog.contents s logId).bind codec.parse

namespace Cluster

/-! ## Ordered application -/

/-- Every machine is in order, and what is in it comes from the log, which holds nothing but `Good`
entries. -/
structure Applying (hlog : log.AppendOnly s₀) (up : υ → T → υ × Except String R)
    (codec : Codec T String) (u₀ : ι → υ) (Good : T → Prop) (s : Cluster log ι υ T R) : Prop where
  log : hlog.Inv s.virtualLog
  good : ∀ l t, hlog.entry codec s.virtualLog l = some t → Good t
  ordered : ∀ i, (s.nodes i).Ordered
  replayed : ∀ i, (s.nodes i).Replayed up (u₀ i)
  sourced : ∀ i, (s.nodes i).Sourced fun l t => hlog.entry codec s.virtualLog l = some t

omit [DecidableEq ι] in
theorem start_applying (hlog : log.AppendOnly s₀) :
    (start s₀ u₀ : Cluster log ι υ T R).Applying hlog up codec u₀ Good where
  log := hlog.init
  good l t hl := by
    unfold VirtualLog.AppendOnly.entry at hl
    rw [show hlog.contents (start s₀ u₀ : Cluster log ι υ T R).virtualLog l = none from
      hlog.empty l] at hl
    exact absurd hl (by simp)
  ordered i := VirtualLogStateMachine.ordered_make _
  replayed i := VirtualLogStateMachine.replayed_make
  sourced i := VirtualLogStateMachine.sourced_make _

/-- What is appended is `Good`. -/
def Appends (Good : T → Prop) (_ : Cluster log ι υ T R) : ClusterEvent log ι T → Prop
  | .append _ t => Good t
  | _ => True

omit [DecidableEq ι] in
theorem fetch_eq_some {hlog : log.AppendOnly s₀} (h : hlog.Inv s.virtualLog)
    {call : Option log.Call} {l : Int} {t : T} (hfetch : s.fetch codec call l = some t) :
    hlog.entry codec s.virtualLog l = some t := by
  obtain ⟨call, -, hfetch⟩ := Option.bind_eq_some_iff.mp hfetch
  obtain ⟨payload, hget, hparse⟩ := Option.bind_eq_some_iff.mp hfetch
  unfold VirtualLog.AppendOnly.entry
  rw [hlog.getLogEntry h hget]
  exact hparse

theorem Applying.step {hlog : log.AppendOnly s₀} (h : s.Applying hlog up codec u₀ Good)
    (hok : s.Appends Good e) (hs : s.step up codec e = some s') :
    s'.Applying hlog up codec u₀ Good := by
  have hspec := step_spec hs
  have hordered : ∀ i, (s'.nodes i).Ordered := fun i =>
    nodes_invariant (fun m e' m' hm halive hstep => hm.step halive hstep) hspec (h.ordered i)
  have hreplayed : ∀ i, (s'.nodes i).Replayed up (u₀ i) := fun i =>
    nodes_invariant (fun m e' m' hm _ hstep => hm.step hstep) hspec (h.replayed i)
  cases hspec with
  | append q t virtualLog happend =>
    obtain ⟨hinv, l₀, hnone, hcontents⟩ := hlog.append h.log happend
    -- the new entry is parsed back to what was serialised; the others are as before
    have hentry : ∀ l, hlog.entry codec virtualLog l =
        if l = l₀ then some t else hlog.entry codec s.virtualLog l := by
      intro l
      unfold VirtualLog.AppendOnly.entry
      rw [hcontents, Function.update_apply]
      split
      · exact codec.parse_serialize t
      · rfl
    refine ⟨hinv, fun l t' hl => ?_, hordered, hreplayed, fun i => ?_⟩
    · rw [show hlog.entry codec _ l = _ from hentry l] at hl
      split at hl
      · exact Option.some.inj hl ▸ hok
      · exact h.good l t' hl
    · refine (h.sourced i).mono fun l t' hl => ?_
      show hlog.entry codec virtualLog l = some t'
      rw [hentry, if_neg]
      · exact hl
      · rintro rfl
        unfold VirtualLog.AppendOnly.entry at hl
        rw [hnone] at hl
        exact absurd hl (by simp)
  | log e virtualLog hstep =>
    obtain ⟨hinv, hcontents⟩ := hlog.step h.log hstep
    have hentry : hlog.entry codec virtualLog = hlog.entry codec s.virtualLog := by
      funext l
      unfold VirtualLog.AppendOnly.entry
      rw [hcontents]
    refine ⟨hinv, fun l t hl => h.good l t (hentry ▸ hl), hordered, hreplayed, fun i => ?_⟩
    exact (h.sourced i).mono fun l t hl => (congrFun hentry l).trans hl
  | sync i c q position _ _ _ => exact ⟨h.log, h.good, hordered, hreplayed, h.sourced⟩
  | node i _ e' m hhears halive hnode =>
    refine ⟨h.log, h.good, hordered, hreplayed, fun j => ?_⟩
    by_cases hj : j = i
    · subst hj
      show (Function.update s.nodes j m j).Sourced _
      rw [Function.update_self]
      refine (h.sourced j).step hnode fun l t he => ?_
      cases hhears with
      | fetched logId call =>
        obtain ⟨rfl, hfetch⟩ := Event.fetched.inj he
        exact fetch_eq_some h.log hfetch
      | _ => exact absurd he (by simp)
    · show (Function.update s.nodes i m j).Sourced _
      rw [Function.update_of_ne hj]
      exact h.sourced j

theorem run_applying (hlog : log.AppendOnly s₀)
    (h : Transition.run (step up codec) (start s₀ u₀) es = some s)
    (hgood : Transition.Meets (step up codec) (Appends Good) (start s₀ u₀) es) :
    s.Applying hlog up codec u₀ Good :=
  Transition.meets_invariant (fun _ _ _ hs hok hstep => hs.step hok hstep) h hgood
    (start_applying hlog)

omit [DecidableEq ι] in
/-- With entries that `apply` can take, a machine is up to date with what it has applied. -/
theorem Applying.upToDate {hlog : log.AppendOnly s₀} (h : s.Applying hlog up codec u₀ Good)
    (hup : ∀ u t, Good t → ∃ result, (up u t).2 = .ok result) (i : ι) :
    (s.nodes i).aborted = false ∧
    (s.nodes i).applied.map (·.logId) = Int.range 1 ((s.nodes i).lastAppliedLogId + 1) := by
  have hsuccessful : (s.nodes i).Successful := (h.replayed i).successful fun u a ha =>
    hup u a.log (h.good _ _ ((h.sourced i).applied a ha))
  obtain ⟨k, j, hcuts⟩ := h.ordered i
  obtain ⟨hk, halive⟩ := hcuts.upToDate hsuccessful
  exact ⟨halive, hk ▸ hcuts.applied⟩

/-- The entries a machine has passed to the upstream `apply`, with their ids. -/
def entries (s : Cluster log ι υ T R) (i : ι) : List (Int × T) :=
  (s.nodes i).applied.map fun a => (a.logId, a.log)

omit [DecidableEq ι] in
/-- What a machine has applied is determined by the ids. -/
theorem Applying.entries_eq {hlog : log.AppendOnly s₀} (h : s.Applying hlog up codec u₀ Good)
    (i : ι) : s.entries i = ((s.nodes i).applied.map (·.logId)).filterMap fun l =>
      (hlog.entry codec s.virtualLog l).map fun t => (l, t) := by
  unfold entries
  rw [List.filterMap_map, ← List.filterMap_eq_map]
  refine List.filterMap_congr fun a ha => ?_
  simp only [Function.comp_apply, (h.sourced i).applied a ha, Option.map_some]

theorem prefix_or_of_ordered {m m' : VirtualLogStateMachine υ T R} (h : m.Ordered)
    (h' : m'.Ordered) : m.applied.map (·.logId) <+: m'.applied.map (·.logId) ∨
      m'.applied.map (·.logId) <+: m.applied.map (·.logId) := by
  obtain ⟨k, j, h⟩ := h
  obtain ⟨k', j', h'⟩ := h'
  rw [h.applied, h'.applied]
  rcases le_total k k' with hle | hle
  · exact .inl (Int.range_prefix h.one_le hle)
  · exact .inr (Int.range_prefix h'.one_le hle)

/-- **Ordered exactly-once application.** In every reachable state the entries a machine has passed
to its upstream `apply` are the log's entries `1, …, lastAppliedLogId_`, in that order; the
assertion has not failed; and of two machines one has applied a prefix of what the other has. -/
theorem applied_in_order (hlog : log.AppendOnly s₀)
    (hup : ∀ u t, ∃ result, (up u t).2 = .ok result)
    (h : Transition.run (step up codec) (start s₀ u₀) es = some s) :
    (∀ i, (s.nodes i).aborted = false ∧
      (s.nodes i).applied.map (·.logId) = Int.range 1 ((s.nodes i).lastAppliedLogId + 1) ∧
      ∀ a ∈ (s.nodes i).applied, hlog.entry codec s.virtualLog a.logId = some a.log) ∧
    ∀ i j, s.entries i <+: s.entries j ∨ s.entries j <+: s.entries i := by
  have hany : ∀ e ∈ es, ∀ t : Cluster log ι υ T R, t.Appends (fun _ => True) e := by
    intro e _ t
    cases e with
    | _ => trivial
  have happlying := run_applying hlog h (Transition.meets_of_mem hany)
  refine ⟨fun i => ?_, fun i j => ?_⟩
  · obtain ⟨halive, hids⟩ := happlying.upToDate (fun u t _ => hup u t) i
    exact ⟨halive, hids, (happlying.sourced i).applied⟩
  · rw [happlying.entries_eq i, happlying.entries_eq j]
    exact (prefix_or_of_ordered (happlying.ordered i) (happlying.ordered j)).imp
      (fun hp => hp.filterMap _) (fun hp => hp.filterMap _)

/-- An upstream state machine that counts, and returns its count. -/
def count (n : Nat) (_ : String) : Nat × Except String Nat := (n + 1, .ok n)

/-- Two such machines over an empty `InMemoryFakeVirtualLog`. -/
def fakeCluster : Cluster inMemoryFakeVirtualLog (Fin 2) Nat String Nat :=
  start ({} : InMemoryFakeVirtualLog) fun _ => 0

/-- Two entries are appended by node 0 and applied there; the fetches end in the other order. Node 1
learns of the first entry from `sync`, and applies it. -/
def twoNodes : List (ClusterEvent inMemoryFakeVirtualLog (Fin 2) String) :=
  [.append () "a", .appended 0 0 () 1, .sync 1 0 (), .append () "b", .appended 0 1 () 2,
    .wake 0, .enqueue 0, .enqueue 0, .fetched 0 2 (some ()), .fetched 0 1 (some ()),
    .consume 0, .consume 0, .apply 0, .apply 0,
    .synced 1 0, .wake 1, .enqueue 1, .fetched 1 1 (some ()), .consume 1, .apply 1]

theorem applied_in_order_two_nodes :
    ∃ s, Transition.run (step count (Codec.identity String)) fakeCluster twoNodes =
        some s ∧
      s.entries 0 = [(1, "a"), (2, "b")] ∧ s.entries 1 = [(1, "a")] ∧
      (∀ i, (s.nodes i).aborted = false ∧
        (s.nodes i).applied.map (·.logId) = Int.range 1 ((s.nodes i).lastAppliedLogId + 1)) ∧
      (s.entries 0 <+: s.entries 1 ∨ s.entries 1 <+: s.entries 0) := by
  have h : ∀ s, Transition.run (step count (Codec.identity String)) fakeCluster
      twoNodes = some s → _ ∧ _ :=
    fun s hs => applied_in_order inMemoryFakeVirtualLog.appendOnly (fun u t => ⟨u, rfl⟩) hs
  refine ⟨_, rfl, rfl, rfl, fun i => ?_, (h _ rfl).2 0 1⟩
  exact ⟨((h _ rfl).1 i).1, ((h _ rfl).1 i).2.1⟩

end Cluster

/-! ## Waiters -/

/-- A caller of `append` waits, or has been given the result of its entry. -/
def VirtualLogStateMachine.Attended (m : VirtualLogStateMachine υ T R) (l : Int) (c : Waiter) :
    Prop :=
  (l, c) ∈ m.promises ∨
    ∃ a ∈ m.applied, a.logId = l ∧ ∃ result, a.result = .ok result ∧ (c, some result) ∈ m.returned

/-- Nobody waits for an id that has been applied, and nobody is forgotten. -/
structure VirtualLogStateMachine.Served (m : VirtualLogStateMachine υ T R) : Prop where
  waiting : ∀ p ∈ m.promises, m.lastAppliedLogId < p.1
  attended : ∀ l c, (l, c) ∈ m.appends → m.Attended l c

namespace VirtualLogStateMachine

variable {m m' : VirtualLogStateMachine υ T R} {e' : Event T}

theorem served_make (u : υ) : (make u : VirtualLogStateMachine υ T R).Served :=
  ⟨fun _ h => absurd h List.not_mem_nil, fun _ _ h => absurd h List.not_mem_nil⟩

theorem Attended.mono {l : Int} {c : Waiter} (h : m.Attended l c)
    (hpromises : m.promises ⊆ m'.promises) (happlied : m.applied ⊆ m'.applied)
    (hreturned : m.returned ⊆ m'.returned) : m'.Attended l c := by
  refine Or.imp (fun hp => hpromises hp) ?_ h
  rintro ⟨a, ha, hl, result, hresult, hreturn⟩
  exact ⟨a, happlied ha, hl, result, hresult, hreturned hreturn⟩

theorem Served.step (h : m.Served)
    (hok : ∀ c l, e' = .appended c l → m.lastAppliedLogId < l) (hs : Step up m e' m') :
    m'.Served := by
  cases hs with
  | appended c logId _ =>
    refine ⟨fun p hp => ?_, fun l c' hc => ?_⟩
    · rcases List.mem_append.mp hp with hold | hnew
      · exact h.waiting p hold
      · rw [List.mem_singleton.mp hnew]
        exact hok c logId rfl
    · rcases List.mem_cons.mp hc with hnew | hold
      · exact .inl (List.mem_append_right _ (List.mem_singleton.mpr hnew))
      · exact (h.attended l c' hold).mono (List.subset_append_left _ _) (List.Subset.refl _)
          (List.Subset.refl _)
  | syncedAtOnce c position _ _ =>
    exact ⟨h.waiting, fun l c' hc => (h.attended l c' hc).mono (List.Subset.refl _)
      (List.Subset.refl _) (List.subset_cons_self _ _)⟩
  | syncedLater c position _ hlt =>
    refine ⟨fun p hp => ?_, fun l c' hc => ?_⟩
    · rcases List.mem_append.mp hp with hold | hnew
      · exact h.waiting p hold
      · rw [List.mem_singleton.mp hnew]
        exact hlt
    · exact (h.attended l c' hc).mono (List.subset_append_left _ _) (List.Subset.refl _)
        (List.Subset.refl _)
  | wake _ _ => exact { h with }
  | enqueue _ => exact { h with }
  | fetched logId log list _ => exact { h with }
  | taken logId log list _ _ => exact { h with }
  | ended logId list _ _ => exact { h with }
  | threw logId log tasks upstream message _ _ =>
    exact ⟨h.waiting, fun l c hc => (h.attended l c hc).mono (List.Subset.refl _)
      (List.subset_append_left _ _) (List.Subset.refl _)⟩
  | aborted logId log tasks upstream result _ _ _ =>
    exact ⟨h.waiting, fun l c hc => (h.attended l c hc).mono (List.Subset.refl _)
      (List.subset_append_left _ _) (List.Subset.refl _)⟩
  | applied logId log tasks upstream result _ _ hnext =>
    refine ⟨fun p hp => ?_, fun l c hc => ?_⟩
    · obtain ⟨hp, hne⟩ := List.mem_filter.mp hp
      have hlt := h.waiting p hp
      have hne' : p.1 ≠ logId := of_decide_eq_true hne
      show logId < p.1
      omega
    · rcases h.attended l c hc with hp | ⟨a, ha, hl, r, hr, hreturn⟩
      · by_cases hid : l = logId
        · exact .inr ⟨_, List.mem_append_right _ List.mem_cons_self, hid.symm, result, rfl,
            List.mem_append_left _ (List.mem_map.mpr
              ⟨(l, c), List.mem_filter.mpr ⟨hp, decide_eq_true hid⟩, rfl⟩)⟩
        · exact .inl (List.mem_filter.mpr ⟨hp, decide_eq_true hid⟩)
      · exact .inr ⟨a, List.mem_append_left _ ha, hl, r, hr, List.mem_append_right _ hreturn⟩

end VirtualLogStateMachine

namespace Cluster

/-- The condition: an append takes the lock before its entry has been applied. -/
def RegistersInTime (s : Cluster log ι υ T R) : ClusterEvent log ι T → Prop
  | .appended i _ _ logId => (s.nodes i).lastAppliedLogId < logId
  | _ => True

/-- **No stranded waiters**, in every run in which the appends register in time: nobody waits for an
id up to `lastAppliedLogId_`, and whoever appended such an id has been given the result of its
entry. -/
theorem no_stranded_waiters
    (h : Transition.run (step up codec) (start s₀ u₀) es = some s)
    (hok : Transition.Meets (step up codec) RegistersInTime (start s₀ u₀) es) (i : ι) :
    (∀ p ∈ (s.nodes i).promises, (s.nodes i).lastAppliedLogId < p.1) ∧
    ∀ l c, (l, c) ∈ (s.nodes i).appends → l ≤ (s.nodes i).lastAppliedLogId →
      ∃ a ∈ (s.nodes i).applied, a.logId = l ∧
        ∃ result, a.result = .ok result ∧ (c, some result) ∈ (s.nodes i).returned := by
  have hserved : ∀ j, (s.nodes j).Served := by
    refine Transition.meets_invariant (P := fun s => ∀ j, (s.nodes j).Served) ?_ h hok
      fun j => VirtualLogStateMachine.served_make _
    intro s e s' hs hok hstep j
    cases step_spec hstep with
    | append q t virtualLog _ => exact hs j
    | log e virtualLog _ => exact hs j
    | sync k c q position _ _ _ => exact hs j
    | node k _ e' m hhears _ hnode =>
      by_cases hj : j = k
      · subst hj
        show (Function.update s.nodes j m j).Served
        rw [Function.update_self]
        refine (hs j).step (fun c l he => ?_) hnode
        cases hhears with
        | appended c' q logId _ _ =>
          obtain ⟨-, rfl⟩ := Event.appended.inj he
          exact hok
        | _ => exact absurd he (by simp)
      · show (Function.update s.nodes k m j).Served
        rw [Function.update_of_ne hj]
        exact hs j
  refine ⟨(hserved i).waiting, fun l c hc hle => ?_⟩
  rcases (hserved i).attended l c hc with hp | hanswered
  · exact absurd ((hserved i).waiting _ hp) (not_lt.mpr hle)
  · exact hanswered

/-- One append, registered in time. -/
def servedAppend : List (ClusterEvent inMemoryFakeVirtualLog (Fin 2) String) :=
  [.append () "a", .appended 0 7 () 1, .wake 0, .enqueue 0, .fetched 0 1 (some ()), .consume 0,
    .apply 0]

theorem no_stranded_waiters_served_append :
    ∃ s, Transition.run (step count (Codec.identity String)) fakeCluster servedAppend =
        some s ∧ (s.nodes 0).lastAppliedLogId = 1 ∧
      ∃ a ∈ (s.nodes 0).applied, a.logId = 1 ∧
        ∃ result, a.result = .ok result ∧ (7, some result) ∈ (s.nodes 0).returned := by
  have hok : Transition.Meets (step count (Codec.identity String)) RegistersInTime
      fakeCluster servedAppend :=
    .cons trivial rfl (.cons (show (0 : Int) < 1 by decide) rfl (.cons trivial rfl
      (.cons trivial rfl (.cons trivial rfl (.cons trivial rfl (.cons trivial rfl trivial))))))
  have h : ∀ s, Transition.run (step count (Codec.identity String)) fakeCluster
      servedAppend = some s → _ ∧ _ := fun s hs => no_stranded_waiters hs hok 0
  exact ⟨_, rfl, rfl, (h _ rfl).2 1 7 List.mem_cons_self (le_refl _)⟩

/-- Caller 0 is given id 1, caller 1 is given id 2 and registers first. The pipeline applies both
entries; then caller 0 registers. -/
def strandedAppend : List (ClusterEvent inMemoryFakeVirtualLog (Fin 2) String) :=
  [.append () "a", .append () "b", .appended 0 1 () 2, .wake 0, .enqueue 0, .enqueue 0,
    .fetched 0 1 (some ()), .fetched 0 2 (some ()), .consume 0, .consume 0, .apply 0, .apply 0,
    .appended 0 0 () 1]

/-- Entry 1 has been applied, and its caller waits for it. -/
theorem stranded_stranded_append :
    ∃ s, Transition.run (step count (Codec.identity String)) fakeCluster
        strandedAppend = some s ∧
      (s.nodes 0).lastAppliedLogId = 2 ∧ (1, 0) ∈ (s.nodes 0).promises ∧
      (1, 0) ∈ (s.nodes 0).appends ∧ (s.nodes 0).returned = [(1, some 1)] :=
  ⟨_, rfl, rfl, List.mem_cons_self, List.mem_cons_self, rfl⟩

end Cluster

end ReplicatedCounter.StateMachine
