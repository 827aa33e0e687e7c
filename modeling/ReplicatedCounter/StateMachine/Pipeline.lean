import ReplicatedCounter.StateMachine.VirtualLogStateMachine

/-!
# What holds of one machine, whatever it is told

`Step` is the inversion of `VirtualLogStateMachine.step`; no proof after it unfolds a definition of
the source.

The ids that have been fetched are `1, …, lastFetchId_`, and they are cut into three consecutive
pieces: those that have been applied, those that wait for the executor, and those whose futures are
still in the list of the flat map. **Each step moves one cut by one** (`Cuts.step`), so no id is
skipped and none is taken twice, however the fetches end. When a fetch fails the third piece is
lost, and nothing is taken from it any more.
-/

set_option autoImplicit false

namespace ReplicatedCounter.StateMachine.VirtualLogStateMachine

variable {υ T R : Type} {up : υ → T → υ × Except String R} {m m' : VirtualLogStateMachine υ T R}
  {e : Event T} {u₀ : υ}

/-- Everything a step can do. -/
inductive Step (up : υ → T → υ × Except String R) (m : VirtualLogStateMachine υ T R) :
    Event T → VirtualLogStateMachine υ T R → Prop where
  | appended (c : Waiter) (logId : Int) (hfresh : m.Fresh c) :
      Step up m (.appended c logId) (m.appended c logId)
  | syncedAtOnce (c : Waiter) (position : Int) (hfresh : m.Fresh c)
      (hle : position - 1 ≤ m.lastAppliedLogId) :
      Step up m (.synced c position)
        { m with syncs := (position - 1, c) :: m.syncs, returned := (c, none) :: m.returned }
  | syncedLater (c : Waiter) (position : Int) (hfresh : m.Fresh c)
      (hlt : m.lastAppliedLogId < position - 1) :
      Step up m (.synced c position)
        ({ m with syncs := (position - 1, c) :: m.syncs }.register c (position - 1))
  | wake (hdone : m.upTo ≤ m.lastFetchId) (hlt : m.upTo < m.targetLogId) :
      Step up m .wake { m with upTo := m.targetLogId }
  | enqueue (hle : m.lastFetchId + 1 ≤ m.upTo) :
      Step up m .enqueue { m with
        list := m.list ++ [(m.lastFetchId + 1, .pending)]
        lastFetchId := m.lastFetchId + 1
        requested := m.requested ++ [m.lastFetchId + 1] }
  | fetched (logId : Int) (log : Option T) (list : List (Int × Future T))
      (hcomplete : complete logId (.ofFetch log) m.list = some list) :
      Step up m (.fetched logId log) { m with list }
  | taken (logId : Int) (log : T) (list : List (Int × Future T)) (hconsuming : m.consuming = true)
      (hlist : m.list = (logId, .fulfilled log) :: list) :
      Step up m .consume { m with list, tasks := m.tasks ++ [(logId, log)] }
  | ended (logId : Int) (list : List (Int × Future T)) (hconsuming : m.consuming = true)
      (hlist : m.list = (logId, .broken) :: list) :
      Step up m .consume { m with list, consuming := false }
  | threw (logId : Int) (log : T) (tasks : List (Int × T)) (upstream : υ) (message : String)
      (htasks : m.tasks = (logId, log) :: tasks)
      (hup : up m.upstream log = (upstream, .error message)) :
      Step up m .apply { m with
        upstream, tasks, applied := m.applied ++ [⟨logId, log, .error message⟩] }
  | applied (logId : Int) (log : T) (tasks : List (Int × T)) (upstream : υ) (result : R)
      (htasks : m.tasks = (logId, log) :: tasks)
      (hup : up m.upstream log = (upstream, .ok result)) (hnext : m.lastAppliedLogId + 1 = logId) :
      Step up m .apply { m with
        upstream, tasks, applied := m.applied ++ [⟨logId, log, .ok result⟩]
        promises := m.promises.filter (·.1 ≠ logId)
        returned := (m.promises.filter (·.1 = logId)).map (fun p => (p.2, some result)) ++
          m.returned
        lastAppliedLogId := logId }
  | aborted (logId : Int) (log : T) (tasks : List (Int × T)) (upstream : υ) (result : R)
      (htasks : m.tasks = (logId, log) :: tasks)
      (hup : up m.upstream log = (upstream, .ok result)) (hnext : m.lastAppliedLogId + 1 ≠ logId) :
      Step up m .apply { m with
        upstream, tasks, applied := m.applied ++ [⟨logId, log, .ok result⟩], aborted := true }

theorem step_synced {c : Waiter} {position : Int} (hfresh : m.Fresh c) :
    Step up m (.synced c position) (m.synced c position) := by
  unfold synced
  dsimp only
  split
  · rename_i hle
    exact .syncedAtOnce c position hfresh hle
  · rename_i hlt
    exact .syncedLater c position hfresh (not_le.mp hlt)

theorem step_apply (hs : m.applyTask up = some m') : Step up m .apply m' := by
  unfold applyTask at hs
  split at hs
  · exact absurd hs (by simp)
  · rename_i logId log tasks htasks
    rcases hup : up m.upstream log with ⟨upstream, result⟩
    rw [hup] at hs
    cases result with
    | error message =>
      obtain rfl := Option.some.inj hs
      exact .threw logId log tasks upstream message htasks hup
    | ok result =>
      dsimp only at hs
      split at hs
      · rename_i hnext
        obtain rfl := Option.some.inj hs
        exact .applied logId log tasks upstream result htasks hup hnext
      · rename_i hnext
        obtain rfl := Option.some.inj hs
        exact .aborted logId log tasks upstream result htasks hup hnext

theorem step_consume (hs : m.consume = some m') : Step up m .consume m' := by
  unfold consume at hs
  split at hs
  · rename_i hconsuming
    split at hs
    · rename_i logId log list hlist
      obtain rfl := Option.some.inj hs
      exact .taken logId log list hconsuming hlist
    · rename_i logId list hlist
      obtain rfl := Option.some.inj hs
      exact .ended logId list hconsuming hlist
    · exact absurd hs (by simp)
  · exact absurd hs (by simp)

/-- **The inversion of `step`.** -/
theorem step_spec (hs : m.step up e = some m') : m.aborted = false ∧ Step up m e m' := by
  unfold step at hs
  split at hs
  · exact absurd hs (by simp)
  · rename_i halive
    refine ⟨by simpa using halive, ?_⟩
    cases e with
    | appended c logId =>
      obtain ⟨hfresh, hs⟩ := Option.ite_none_right_eq_some.mp hs
      exact Option.some.inj hs ▸ .appended c logId hfresh
    | synced c position =>
      obtain ⟨hfresh, hs⟩ := Option.ite_none_right_eq_some.mp hs
      exact Option.some.inj hs ▸ step_synced hfresh
    | wake =>
      obtain ⟨⟨hdone, hlt⟩, hs⟩ := Option.ite_none_right_eq_some.mp hs
      exact Option.some.inj hs ▸ .wake hdone hlt
    | enqueue =>
      obtain ⟨hle, hs⟩ := Option.ite_none_right_eq_some.mp hs
      exact Option.some.inj hs ▸ .enqueue hle
    | fetched logId log =>
      obtain ⟨list, hcomplete, rfl⟩ := Option.map_eq_some_iff.mp hs
      exact .fetched logId log list hcomplete
    | consume => exact step_consume hs
    | apply => exact step_apply hs

/-! ## Futures -/

/-- Completing a future changes no id. -/
theorem ids_of_complete {logId : Int} {future : Future T} {l l' : List (Int × Future T)}
    (h : complete logId future l = some l') : l'.map (·.1) = l.map (·.1) := by
  fun_induction complete logId future l generalizing l' with
  | case1 => exact absurd h (by simp)
  | case2 rest =>
    obtain rfl := Option.some.inj h
    rfl
  | case3 id rest hne ih =>
    obtain ⟨rest', hrest, rfl⟩ := Option.map_eq_some_iff.mp h
    exact congrArg (id :: ·) (ih hrest)
  | case4 e rest hnot ih =>
    obtain ⟨rest', hrest, rfl⟩ := Option.map_eq_some_iff.mp h
    exact congrArg (e.1 :: ·) (ih hrest)

/-- A future is one of the old ones or the one just completed. -/
theorem mem_of_complete {logId : Int} {future : Future T} {l l' : List (Int × Future T)}
    (h : complete logId future l = some l') {x : Int × Future T} (hx : x ∈ l') :
    x ∈ l ∨ x = (logId, future) := by
  fun_induction complete logId future l generalizing l' with
  | case1 => exact absurd h (by simp)
  | case2 rest =>
    obtain rfl := Option.some.inj h
    rcases List.mem_cons.mp hx with rfl | hx
    · exact .inr rfl
    · exact .inl (List.mem_cons_of_mem _ hx)
  | case3 id rest hne ih =>
    obtain ⟨rest', hrest, rfl⟩ := Option.map_eq_some_iff.mp h
    rcases List.mem_cons.mp hx with rfl | hx
    · exact .inl List.mem_cons_self
    · exact (ih hrest hx).imp_left (List.mem_cons_of_mem _)
  | case4 e rest hnot ih =>
    obtain ⟨rest', hrest, rfl⟩ := Option.map_eq_some_iff.mp h
    rcases List.mem_cons.mp hx with rfl | hx
    · exact .inl List.mem_cons_self
    · exact (ih hrest hx).imp_left (List.mem_cons_of_mem _)

/-! ## The order of application -/

/-- No call of the upstream `apply` has thrown. -/
def Successful (m : VirtualLogStateMachine υ T R) : Prop :=
  ∀ a ∈ m.applied, ∃ result, a.result = .ok result

/-- The cuts: `1, …, k - 1` have been applied, `k, …, j - 1` wait for the executor, and
`j, …, lastFetchId_` are in the list. -/
structure Cuts (m : VirtualLogStateMachine υ T R) (k j : Int) : Prop where
  one_le : 1 ≤ k
  le : k ≤ j
  le_fetch : j ≤ m.lastFetchId + 1
  applied : m.applied.map (·.logId) = Int.range 1 k
  tasks : m.tasks.map (·.1) = Int.range k j
  list : m.consuming = true → m.list.map (·.1) = Int.range j (m.lastFetchId + 1)
  requested : m.requested = Int.range 1 (m.lastFetchId + 1)
  nonneg : 0 ≤ m.lastAppliedLogId
  lt : m.lastAppliedLogId < k
  upToDate : m.Successful → m.lastAppliedLogId + 1 = k ∧ m.aborted = false

/-- The fetched ids are in order. -/
def Ordered (m : VirtualLogStateMachine υ T R) : Prop := ∃ k j, m.Cuts k j

theorem ordered_make (u : υ) : (make u : VirtualLogStateMachine υ T R).Ordered :=
  ⟨1, 1, {
    one_le := le_refl _
    le := le_refl _
    le_fetch := le_refl _
    applied := rfl
    tasks := rfl
    list _ := rfl
    requested := rfl
    nonneg := le_refl _
    lt := zero_lt_one
    upToDate _ := ⟨rfl, rfl⟩ }⟩

/-- The executor takes its next task: the lower cut moves. -/
theorem Cuts.of_apply {k j logId : Int} {log : T} {tasks : List (Int × T)} (h : m.Cuts k j)
    (htasks : m.tasks = (logId, log) :: tasks) (result : Except String R) :
    logId = k ∧ k + 1 ≤ j ∧ tasks.map (·.1) = Int.range (k + 1) j ∧
      (m.applied ++ [(⟨logId, log, result⟩ : Applied T R)]).map (·.logId) =
        Int.range 1 (k + 1) := by
  have hids := h.tasks
  rw [htasks] at hids
  obtain ⟨hlt, rfl, hrest⟩ := Int.eq_of_range_eq_cons hids.symm
  refine ⟨rfl, hlt, hrest, ?_⟩
  rw [List.map_append, h.applied, Int.range_concat h.one_le]
  rfl

theorem Successful.of_append {a : Applied T R} (h : m'.Successful)
    (happlied : m'.applied = m.applied ++ [a]) :
    m.Successful ∧ ∃ result, a.result = .ok result := by
  unfold Successful at h
  rw [happlied] at h
  exact ⟨fun b hb => h b (List.mem_append_left _ hb), h a (by simp)⟩

/-- **A step moves one cut.** -/
theorem Ordered.step (h : m.Ordered) (halive : m.aborted = false) (hs : Step up m e m') :
    m'.Ordered := by
  obtain ⟨k, j, h⟩ := h
  cases hs with
  | appended c logId _ => exact ⟨k, j, { h with }⟩
  | syncedAtOnce c position _ _ => exact ⟨k, j, { h with }⟩
  | syncedLater c position _ _ => exact ⟨k, j, { h with }⟩
  | wake _ _ => exact ⟨k, j, { h with }⟩
  | enqueue _ =>
    have hlist : ∀ n : Int, n ≤ m.lastFetchId + 1 →
        Int.range n (m.lastFetchId + 1 + 1) = Int.range n (m.lastFetchId + 1) ++
          [m.lastFetchId + 1] := fun n hn => Int.range_concat hn
    have hone : (1 : Int) ≤ m.lastFetchId + 1 := (h.one_le.trans h.le).trans h.le_fetch
    refine ⟨k, j, { h with le_fetch := ?_, list := fun hc => ?_, requested := ?_ }⟩
    · exact h.le_fetch.trans (Int.le_add_one (le_refl _))
    · rw [List.map_append, h.list hc, hlist j h.le_fetch]
      rfl
    · rw [h.requested, hlist 1 hone]
  | fetched logId log list hcomplete =>
    exact ⟨k, j, { h with list := fun hc => (ids_of_complete hcomplete).trans (h.list hc) }⟩
  | taken logId log list hconsuming hlist =>
    have hids := h.list hconsuming
    rw [hlist] at hids
    obtain ⟨hlt, rfl, hrest⟩ := Int.eq_of_range_eq_cons hids.symm
    refine ⟨k, logId + 1, { h with
      le := h.le.trans (Int.le_add_one (le_refl _)), le_fetch := hlt, tasks := ?_,
      list := fun _ => hrest }⟩
    rw [List.map_append, h.tasks, Int.range_concat h.le]
    rfl
  | ended logId list _ _ =>
    exact ⟨k, j, { h with list := fun hc => absurd hc (by simp) }⟩
  | threw logId log tasks upstream message htasks _ =>
    obtain ⟨rfl, hle, hrest, happlied⟩ := h.of_apply htasks (.error message)
    refine ⟨logId + 1, j, { h with
      one_le := h.one_le.trans (Int.le_add_one (le_refl _)), le := hle, applied := happlied,
      tasks := hrest, lt := h.lt.trans (Int.lt_succ _), upToDate := fun hsuccessful => ?_ }⟩
    obtain ⟨-, result, hresult⟩ := hsuccessful.of_append rfl
    exact absurd hresult (by simp)
  | applied logId log tasks upstream result htasks _ hnext =>
    obtain ⟨rfl, hle, hrest, happlied⟩ := h.of_apply htasks (.ok result)
    exact ⟨logId + 1, j, { h with
      one_le := h.one_le.trans (Int.le_add_one (le_refl _)), le := hle, applied := happlied,
      tasks := hrest, nonneg := zero_le_one.trans h.one_le, lt := Int.lt_succ _,
      upToDate := fun _ => ⟨rfl, halive⟩ }⟩
  | aborted logId log tasks upstream result htasks _ hnext =>
    obtain ⟨rfl, hle, hrest, happlied⟩ := h.of_apply htasks (.ok result)
    refine ⟨logId + 1, j, { h with
      one_le := h.one_le.trans (Int.le_add_one (le_refl _)), le := hle, applied := happlied,
      tasks := hrest, lt := h.lt.trans (Int.lt_succ _), upToDate := fun hsuccessful => ?_ }⟩
    -- the assertion only fails after an `apply` that threw
    exact absurd (h.upToDate (hsuccessful.of_append rfl).1).1 hnext

/-- Every id up to `lastAppliedLogId_` has been applied. -/
theorem Ordered.mem_applied {l : Int} (h : m.Ordered) (hpos : 0 < l)
    (hle : l ≤ m.lastAppliedLogId) : ∃ a ∈ m.applied, a.logId = l := by
  obtain ⟨k, j, h⟩ := h
  have hmem : l ∈ m.applied.map (·.logId) := by
    rw [h.applied, Int.mem_range_iff]
    exact ⟨hpos, hle.trans_lt h.lt⟩
  exact List.mem_map.mp hmem

theorem Ordered.pos_of_applied {a : Applied T R} (h : m.Ordered) (ha : a ∈ m.applied) :
    0 < a.logId := by
  obtain ⟨k, j, h⟩ := h
  have hmem := List.mem_map_of_mem (f := (·.logId)) ha
  rw [h.applied, Int.mem_range_iff] at hmem
  exact hmem.1

/-! ## What is applied -/

/-- Everything on its way through the pipeline satisfies `Q`. -/
structure Sourced (Q : Int → T → Prop) (m : VirtualLogStateMachine υ T R) : Prop where
  list : ∀ logId log, (logId, .fulfilled log) ∈ m.list → Q logId log
  tasks : ∀ logId log, (logId, log) ∈ m.tasks → Q logId log
  applied : ∀ a ∈ m.applied, Q a.logId a.log

variable {Q Q' : Int → T → Prop}

theorem sourced_make (u : υ) : (make u : VirtualLogStateMachine υ T R).Sourced Q :=
  ⟨fun _ _ h => absurd h List.not_mem_nil, fun _ _ h => absurd h List.not_mem_nil,
    fun _ h => absurd h List.not_mem_nil⟩

theorem Sourced.mono (h : m.Sourced Q) (hQ : ∀ logId log, Q logId log → Q' logId log) :
    m.Sourced Q' :=
  ⟨fun l t hl => hQ l t (h.list l t hl), fun l t hl => hQ l t (h.tasks l t hl),
    fun a ha => hQ _ _ (h.applied a ha)⟩

theorem Sourced.of_apply {logId : Int} {log : T} {tasks : List (Int × T)} (h : m.Sourced Q)
    (htasks : m.tasks = (logId, log) :: tasks) (result : Except String R) :
    (∀ l t, (l, t) ∈ tasks → Q l t) ∧
      ∀ a ∈ m.applied ++ [⟨logId, log, result⟩], Q a.logId a.log := by
  refine ⟨fun l t hl => h.tasks l t (htasks ▸ List.mem_cons_of_mem _ hl), fun a ha => ?_⟩
  rcases List.mem_append.mp ha with hold | hnew
  · exact h.applied a hold
  · rw [List.mem_singleton.mp hnew]
    exact h.tasks logId log (htasks ▸ List.mem_cons_self)

theorem Sourced.step (h : m.Sourced Q) (hs : Step up m e m')
    (hfetched : ∀ logId log, e = .fetched logId (some log) → Q logId log) : m'.Sourced Q := by
  cases hs with
  | appended c logId _ => exact { h with }
  | syncedAtOnce c position _ _ => exact { h with }
  | syncedLater c position _ _ => exact { h with }
  | wake _ _ => exact { h with }
  | enqueue _ =>
    refine { h with list := fun l t hl => ?_ }
    rcases List.mem_append.mp hl with hold | hnew
    · exact h.list l t hold
    · exact absurd (congrArg Prod.snd (List.mem_singleton.mp hnew)) (by simp)
  | fetched logId log list hcomplete =>
    refine { h with list := fun l t hl => ?_ }
    rcases mem_of_complete hcomplete hl with hold | hnew
    · exact h.list l t hold
    · cases log with
      | none => exact absurd (congrArg Prod.snd hnew) (by simp [Future.ofFetch])
      | some log =>
        simp only [Future.ofFetch, Prod.mk.injEq, Future.fulfilled.injEq] at hnew
        obtain ⟨rfl, rfl⟩ := hnew
        exact hfetched l t rfl
  | taken logId log list _ hlist =>
    refine { h with list := fun l t hl => ?_, tasks := fun l t hl => ?_ }
    · exact h.list l t (hlist ▸ List.mem_cons_of_mem _ hl)
    · rcases List.mem_append.mp hl with hold | hnew
      · exact h.tasks l t hold
      · obtain ⟨rfl, rfl⟩ := Prod.mk.inj (List.mem_singleton.mp hnew)
        exact h.list l t (hlist ▸ List.mem_cons_self)
  | ended logId list _ hlist =>
    exact { h with list := fun l t hl => h.list l t (hlist ▸ List.mem_cons_of_mem _ hl) }
  | threw logId log tasks upstream message htasks _ =>
    obtain ⟨hrest, happlied⟩ := h.of_apply htasks (.error message)
    exact ⟨h.list, hrest, happlied⟩
  | applied logId log tasks upstream result htasks _ _ =>
    obtain ⟨hrest, happlied⟩ := h.of_apply htasks (.ok result)
    exact ⟨h.list, hrest, happlied⟩
  | aborted logId log tasks upstream result htasks _ _ =>
    obtain ⟨hrest, happlied⟩ := h.of_apply htasks (.ok result)
    exact ⟨h.list, hrest, happlied⟩

/-- The upstream state after some entries. -/
def replay (up : υ → T → υ × Except String R) (u : υ) (logs : List T) : υ :=
  logs.foldl (fun u log => (up u log).1) u

/-- The upstream state is what the applied entries have made of it, and if no entry on its way can
make `apply` throw, none has thrown. -/
structure Replayed (up : υ → T → υ × Except String R) (u₀ : υ) (m : VirtualLogStateMachine υ T R) :
    Prop where
  upstream : m.upstream = replay up u₀ (m.applied.map (·.log))
  successful : (∀ u, ∀ a ∈ m.applied, ∃ result, (up u a.log).2 = .ok result) → m.Successful

theorem replayed_make : (make u₀ : VirtualLogStateMachine υ T R).Replayed up u₀ :=
  ⟨rfl, fun _ _ h => absurd h List.not_mem_nil⟩

theorem Replayed.of_apply {logId : Int} {log : T} {upstream : υ} {result : Except String R}
    (h : m.Replayed up u₀) (hup : up m.upstream log = (upstream, result))
    (happlied : m'.applied = m.applied ++ [⟨logId, log, result⟩])
    (hupstream : m'.upstream = upstream) : m'.Replayed up u₀ := by
  refine ⟨?_, fun hgood a ha => ?_⟩
  · rw [hupstream, happlied, List.map_append]
    unfold replay
    rw [List.foldl_append]
    have hold := h.upstream
    unfold replay at hold
    rw [← hold, List.map_singleton, List.foldl_cons, hup, List.foldl_nil]
  · rw [happlied] at ha hgood
    rcases List.mem_append.mp ha with hold | hnew
    · exact h.successful (fun u b hb => hgood u b (List.mem_append_left _ hb)) a hold
    · obtain rfl := List.mem_singleton.mp hnew
      have hok := hgood m.upstream _ ha
      rw [hup] at hok
      exact hok

theorem Replayed.step (h : m.Replayed up u₀) (hs : Step up m e m') : m'.Replayed up u₀ := by
  cases hs with
  | appended c logId _ => exact { h with }
  | syncedAtOnce c position _ _ => exact { h with }
  | syncedLater c position _ _ => exact { h with }
  | wake _ _ => exact { h with }
  | enqueue _ => exact { h with }
  | fetched logId log list _ => exact { h with }
  | taken logId log list _ _ => exact { h with }
  | ended logId list _ _ => exact { h with }
  | threw logId log tasks upstream message _ hup => exact h.of_apply hup rfl rfl
  | applied logId log tasks upstream result _ hup _ => exact h.of_apply hup rfl rfl
  | aborted logId log tasks upstream result _ hup _ => exact h.of_apply hup rfl rfl

/-! ## Who waits -/

/-- `lastAppliedLogId_` never goes back. -/
theorem lastApplied_mono (hs : Step up m e m') :
    m.lastAppliedLogId ≤ m'.lastAppliedLogId := by
  cases hs with
  | applied logId log tasks upstream result _ _ hnext =>
    rw [← hnext]
    exact Int.le_add_one (le_refl _)
  | _ => exact le_refl _

/-- Whoever waits has made a call, and whoever has returned waited for an id that has been
applied. -/
structure Recorded (m : VirtualLogStateMachine υ T R) : Prop where
  promises : ∀ p ∈ m.promises, p ∈ m.appends ∨ p ∈ m.syncs
  returned : ∀ c r, (c, r) ∈ m.returned →
    ∃ l ≤ m.lastAppliedLogId, (l, c) ∈ m.appends ∨ (l, c) ∈ m.syncs

theorem recorded_make (u : υ) : (make u : VirtualLogStateMachine υ T R).Recorded :=
  ⟨fun _ h => absurd h List.not_mem_nil, fun _ _ h => absurd h List.not_mem_nil⟩

theorem Recorded.step (h : m.Recorded) (hs : Step up m e m') : m'.Recorded := by
  cases hs with
  | appended c logId _ =>
    refine ⟨fun p hp => ?_, fun c' r hr => ?_⟩
    · rcases List.mem_append.mp hp with hold | hnew
      · exact (h.promises p hold).imp_left (List.mem_cons_of_mem _)
      · exact .inl (List.mem_singleton.mp hnew ▸ List.mem_cons_self)
    · obtain ⟨l, hle, hl⟩ := h.returned c' r hr
      exact ⟨l, hle, hl.imp_left (List.mem_cons_of_mem _)⟩
  | syncedAtOnce c position _ hle =>
    refine ⟨fun p hp => (h.promises p hp).imp_right (List.mem_cons_of_mem _), fun c' r hr => ?_⟩
    rcases List.mem_cons.mp hr with hnew | hold
    · obtain ⟨rfl, -⟩ := Prod.mk.inj hnew
      exact ⟨position - 1, hle, .inr List.mem_cons_self⟩
    · obtain ⟨l, hle', hl⟩ := h.returned c' r hold
      exact ⟨l, hle', hl.imp_right (List.mem_cons_of_mem _)⟩
  | syncedLater c position _ _ =>
    refine ⟨fun p hp => ?_, fun c' r hr => ?_⟩
    · rcases List.mem_append.mp hp with hold | hnew
      · exact (h.promises p hold).imp_right (List.mem_cons_of_mem _)
      · exact .inr (List.mem_singleton.mp hnew ▸ List.mem_cons_self)
    · obtain ⟨l, hle, hl⟩ := h.returned c' r hr
      exact ⟨l, hle, hl.imp_right (List.mem_cons_of_mem _)⟩
  | wake _ _ => exact { h with }
  | enqueue _ => exact { h with }
  | fetched logId log list _ => exact { h with }
  | taken logId log list _ _ => exact { h with }
  | ended logId list _ _ => exact { h with }
  | threw logId log tasks upstream message _ _ => exact { h with }
  | aborted logId log tasks upstream result _ _ _ => exact { h with }
  | applied logId log tasks upstream result _ _ hnext =>
    refine ⟨fun p hp => h.promises p (List.mem_filter.mp hp).1, fun c r hr => ?_⟩
    rcases List.mem_append.mp hr with hnew | hold
    · obtain ⟨p, hp, heq⟩ := List.mem_map.mp hnew
      obtain ⟨hp, hid⟩ := List.mem_filter.mp hp
      obtain ⟨rfl, -⟩ := Prod.mk.inj heq
      exact ⟨p.1, (of_decide_eq_true hid).le, h.promises p hp⟩
    · obtain ⟨l, hle, hl⟩ := h.returned c r hold
      exact ⟨l, hle.trans (by rw [← hnext]; exact Int.le_add_one (le_refl _)), hl⟩

/-! ## What comes back -/

/-- Every result is what the upstream `apply` made of the entry in its turn, and whoever has returned
with a result waited for an entry with this result. -/
structure Answered (up : υ → T → υ × Except String R) (u₀ : υ) (m : VirtualLogStateMachine υ T R) :
    Prop where
  upstream : m.upstream = replay up u₀ (m.applied.map (·.log))
  results : ∀ i a, m.applied[i]? = some a →
    a.result = (up (replay up u₀ ((m.applied.take i).map (·.log))) a.log).2
  promises : ∀ p ∈ m.promises, p ∈ m.appends ∨ p ∈ m.syncs
  returned : ∀ c r, (c, some r) ∈ m.returned → ∃ a ∈ m.applied, a.result = .ok r ∧
    ((a.logId, c) ∈ m.appends ∨ (a.logId, c) ∈ m.syncs)

theorem answered_make : (make u₀ : VirtualLogStateMachine υ T R).Answered up u₀ where
  upstream := rfl
  results _ _ h := nomatch h
  promises _ h := nomatch h
  returned _ _ h := nomatch h

theorem Answered.of_apply {upstream : υ} {b : Applied T R} (h : m.Answered up u₀)
    (hup : up m.upstream b.log = (upstream, b.result)) :
    upstream = replay up u₀ ((m.applied ++ [b]).map (·.log)) ∧
      ∀ i a, (m.applied ++ [b])[i]? = some a →
        a.result = (up (replay up u₀ (((m.applied ++ [b]).take i).map (·.log))) a.log).2 := by
  refine ⟨?_, fun i a ha => ?_⟩
  · have hold := h.upstream
    unfold replay at hold ⊢
    rw [List.map_append, List.foldl_append, ← hold, List.map_singleton, List.foldl_cons, hup,
      List.foldl_nil]
  · rcases lt_or_ge i m.applied.length with hlt | hge
    · rw [List.getElem?_append_left hlt] at ha
      rw [List.take_append_of_le_length hlt.le]
      exact h.results i a ha
    · -- the entry itself
      rw [List.getElem?_append_right hge] at ha
      obtain ⟨hlt, rfl⟩ := List.getElem?_eq_some_iff.mp ha
      obtain rfl : i = m.applied.length := by
        rw [List.length_singleton] at hlt
        omega
      rw [List.take_left, ← h.upstream, List.getElem_singleton, hup]

theorem Answered.step (h : m.Answered up u₀) (hs : Step up m e m') : m'.Answered up u₀ := by
  cases hs with
  | appended c logId _ =>
    refine { h with promises := fun p hp => ?_, returned := fun c' r hr => ?_ }
    · rcases List.mem_append.mp hp with hold | hnew
      · exact (h.promises p hold).imp_left (List.mem_cons_of_mem _)
      · exact .inl (List.mem_singleton.mp hnew ▸ List.mem_cons_self)
    · obtain ⟨a, ha, hresult, hcall⟩ := h.returned c' r hr
      exact ⟨a, ha, hresult, hcall.imp_left (List.mem_cons_of_mem _)⟩
  | syncedAtOnce c position _ _ =>
    refine { h with
      promises := fun p hp => (h.promises p hp).imp_right (List.mem_cons_of_mem _)
      returned := fun c' r hr => ?_ }
    rcases List.mem_cons.mp hr with hnew | hold
    · exact absurd (congrArg Prod.snd hnew) (by simp)
    · obtain ⟨a, ha, hresult, hcall⟩ := h.returned c' r hold
      exact ⟨a, ha, hresult, hcall.imp_right (List.mem_cons_of_mem _)⟩
  | syncedLater c position _ _ =>
    refine { h with promises := fun p hp => ?_, returned := fun c' r hr => ?_ }
    · rcases List.mem_append.mp hp with hold | hnew
      · exact (h.promises p hold).imp_right (List.mem_cons_of_mem _)
      · exact .inr (List.mem_singleton.mp hnew ▸ List.mem_cons_self)
    · obtain ⟨a, ha, hresult, hcall⟩ := h.returned c' r hr
      exact ⟨a, ha, hresult, hcall.imp_right (List.mem_cons_of_mem _)⟩
  | wake _ _ => exact { h with }
  | enqueue _ => exact { h with }
  | fetched logId log list _ => exact { h with }
  | taken logId log list _ _ => exact { h with }
  | ended logId list _ _ => exact { h with }
  | threw logId log tasks upstream message _ hup =>
    obtain ⟨hupstream, hresults⟩ := h.of_apply (b := ⟨logId, log, .error message⟩) hup
    refine ⟨hupstream, hresults, h.promises, fun c r hr => ?_⟩
    obtain ⟨a, ha, hanswer⟩ := h.returned c r hr
    exact ⟨a, List.mem_append_left _ ha, hanswer⟩
  | aborted logId log tasks upstream result _ hup _ =>
    obtain ⟨hupstream, hresults⟩ := h.of_apply (b := ⟨logId, log, .ok result⟩) hup
    refine ⟨hupstream, hresults, h.promises, fun c r hr => ?_⟩
    obtain ⟨a, ha, hanswer⟩ := h.returned c r hr
    exact ⟨a, List.mem_append_left _ ha, hanswer⟩
  | applied logId log tasks upstream result _ hup _ =>
    obtain ⟨hupstream, hresults⟩ := h.of_apply (b := ⟨logId, log, .ok result⟩) hup
    refine ⟨hupstream, hresults, fun p hp => h.promises p (List.mem_filter.mp hp).1, fun c r hr => ?_⟩
    rcases List.mem_append.mp hr with hnew | hold
    · obtain ⟨p, hp, heq⟩ := List.mem_map.mp hnew
      obtain ⟨hwaits, hid⟩ := List.mem_filter.mp hp
      obtain ⟨rfl, hresult⟩ := Prod.mk.inj heq
      obtain rfl := Option.some.inj hresult
      obtain rfl : p.1 = logId := of_decide_eq_true hid
      exact ⟨_, List.mem_append_right _ List.mem_cons_self, rfl, h.promises p hwaits⟩
    · obtain ⟨a, ha, hanswer⟩ := h.returned c r hold
      exact ⟨a, List.mem_append_left _ ha, hanswer⟩

end ReplicatedCounter.StateMachine.VirtualLogStateMachine
