import Mathlib.Data.List.Count
import Mathlib.Data.List.Perm.Subperm
import ReplicatedCounter.MyDb.Experimental.LockRun

/-!
# Whether there is a transaction to wait for

`add` asserts that somebody in the queue of a locked resource is not waited for yet. Every request for
a resource puts a transaction into its queue, and every request that waits takes the place of one
there. So as long as only this resource is asked for, there is one place left for each request that
was granted at once. **But a transaction may be waited for because of another resource**, and its one
place is taken in every queue it is in. `SlotLeft` counts these.
-/

set_option autoImplicit false

namespace ReplicatedCounter.MyDb.Experimental.LockRun

open WaitForGraph

variable {s t : LockRun} {txnId w x : String} {element : Element} {elements resources : List Element}
  {name : String} {events : List LockEvent}

/-! ## Places taken and left -/

/-- The requests for a resource that were granted at once. -/
def grantedAtOnce (s : LockRun) (name : String) : Nat :=
  s.locks.countP fun l => l.name = name ∧ l.waitsFor = none

/-- The transactions in the queue of a resource that are waited for because of another one. -/
def takenElsewhere (s : LockRun) (name : String) : Nat :=
  s.locks.countP fun l => l.name ≠ name ∧ ∃ w ∈ l.waitsFor, w ∈ s.graph.queue name

/-- How the queues and the links come from the requests. -/
structure Slots (s : LockRun) : Prop where
  length_eq : ∀ name, (s.graph.queue name).length = s.locks.countP (·.name = name)
  waited_iff : ∀ w, s.graph.next w ≠ none ↔ w ∈ s.locks.filterMap (·.waitsFor)
  nodup : (s.locks.filterMap (·.waitsFor)).Nodup
  mem_queue : ∀ l ∈ s.locks, ∀ w ∈ l.waitsFor, w ∈ s.graph.queue l.name

theorem length_filter_filterMap {α β : Type} (f : α → Option β) (p : β → Prop) [DecidablePred p]
    (l : List α) :
    ((l.filterMap f).filter (p ·)).length = l.countP fun a => ∃ b ∈ f a, p b := by
  induction l with
  | nil => rfl
  | cons a l ih =>
    rw [List.countP_cons, ← ih]
    cases hf : f a with
    | none => simp [hf]
    | some b =>
      by_cases hb : p b
      · simp [hf, hb]
      · simp [hf, hb]

/-- Among some requests, the places in a queue that are taken, and what the requests for its resource
came to. -/
theorem count_places {queue : List String} (locks : List Lock)
    (hmem : ∀ l ∈ locks, l.name = name → ∀ w ∈ l.waitsFor, w ∈ queue) :
    locks.countP (fun l => ∃ w ∈ l.waitsFor, w ∈ queue) +
        locks.countP (fun l => l.name = name ∧ l.waitsFor = none) =
      locks.countP (·.name = name) +
        locks.countP (fun l => l.name ≠ name ∧ ∃ w ∈ l.waitsFor, w ∈ queue) := by
  induction locks with
  | nil => rfl
  | cons l locks ih =>
    have hrest := ih fun l' hl' => hmem l' (List.mem_cons_of_mem l hl')
    simp only [List.countP_cons]
    generalize locks.countP (fun l => ∃ w ∈ l.waitsFor, w ∈ queue) = taken at hrest ⊢
    generalize locks.countP (fun l => l.name = name ∧ l.waitsFor = none) = granted at hrest ⊢
    generalize locks.countP (·.name = name) = requests at hrest ⊢
    generalize locks.countP (fun l => l.name ≠ name ∧ ∃ w ∈ l.waitsFor, w ∈ queue) = elsewhere
      at hrest ⊢
    by_cases hname : l.name = name
    · cases hw : l.waitsFor with
      | none =>
        simp [hname]
        omega
      | some w =>
        have hin : w ∈ queue := hmem l List.mem_cons_self hname w hw
        simp [hname, hin]
        omega
    · simp [hname]
      omega

/-- The places of a queue that are taken: by requests for the resource, and by others. -/
theorem Slots.taken_eq (h : s.Slots) (name : String) :
    ((s.locks.filterMap (·.waitsFor)).filter (· ∈ s.graph.queue name)).length + s.grantedAtOnce name =
      (s.graph.queue name).length + s.takenElsewhere name := by
  rw [length_filter_filterMap, h.length_eq]
  refine count_places s.locks ?_
  intro l hl hname w hw
  exact hname ▸ h.mem_queue l hl w hw

/-- **Everybody in a queue is waited for** exactly if as many are because of other resources as
requests were granted at once. -/
theorem Slots.all_waited_iff (h : s.Slots) (name : String) :
    (∀ x ∈ s.graph.queue name, s.graph.next x ≠ none) ↔
      s.grantedAtOnce name ≤ s.takenElsewhere name := by
  obtain ⟨taken, htaken⟩ : ∃ taken, taken =
      (s.locks.filterMap (·.waitsFor)).filter (· ∈ s.graph.queue name) := ⟨_, rfl⟩
  have hcount := h.taken_eq name
  rw [← htaken] at hcount
  have hnodup : taken.Nodup := htaken ▸ h.nodup.filter _
  have hmem : ∀ x, x ∈ taken ↔ s.graph.next x ≠ none ∧ x ∈ s.graph.queue name := by
    intro x
    rw [htaken, List.mem_filter, decide_eq_true_iff, h.waited_iff]
  have hsub : taken.Subperm (s.graph.queue name) :=
    List.subperm_of_subset hnodup fun x hx => ((hmem x).mp hx).2
  constructor
  · intro hall
    have hle := (List.subperm_of_subset (s.graph.nodup_queue name) fun x hx =>
      (hmem x).mpr ⟨hall x hx, hx⟩).length_le
    omega
  · intro hle x hx
    have hperm := hsub.perm_of_length_le (by omega)
    exact ((hmem x).mp (hperm.mem_iff.mpr hx)).1

/-! ## What every turn keeps -/

theorem nodup_queue_length {graph : WaitForGraph} (hnot : txnId ∉ graph.queue element.name) :
    ((graph.enqueue txnId element).queue name).length =
      (graph.queue name).length + if name = element.name then 1 else 0 := by
  by_cases hname : name = element.name
  · have hperm : ((graph.enqueue txnId element).queue name).Perm (txnId :: graph.queue name) := by
      refine (List.perm_ext_iff_of_nodup (nodup_queue _ _) ?_).mpr fun x => ?_
      · rw [List.nodup_cons]
        exact ⟨hname ▸ hnot, nodup_queue _ _⟩
      · rw [mem_queue_enqueue, List.mem_cons, or_comm]
        simp [hname]
    rw [hperm.length_eq, if_pos hname]
    rfl
  · rw [if_neg hname, Nat.add_zero, queue_congr]
    rw [resource_enqueue, if_neg hname]

theorem waitsFor_of_not {graph : WaitForGraph} (h : ¬ graph.MustWait name) :
    waitsFor graph name = none :=
  if_neg h

theorem waitsFor_of_first {graph : WaitForGraph} (h : graph.MustWait name)
    (hfirst : firstNotWaitedFor graph.transactionManager (graph.queue name) = .ok (some w)) :
    waitsFor graph name = some w := by
  unfold waitsFor
  rw [if_pos h, hfirst]
  rfl

/-- A turn with a new request. -/
theorem Slots.turn (h : s.Slots) (hqueues : QueuesRegistered s.graph)
    (hnot : txnId ∉ s.graph.queue element.name) (hturn : turn s (txnId, element) = some t) :
    t.Slots := by
  obtain ⟨hadd, -, hlocks⟩ := turn_eq_some hturn
  have hlength : ∀ graph : WaitForGraph, (∀ name, graph.resource name = s.graph.resource name) →
      ∀ name, ((graph.enqueue txnId element).queue name).length =
        t.locks.countP (·.name = name) := by
    intro graph hresource name
    have hnot' : txnId ∉ graph.queue element.name := by
      rw [queue_congr (hresource element.name)]
      exact hnot
    rw [nodup_queue_length hnot', queue_congr (hresource name), h.length_eq, hlocks,
      List.countP_append]
    simp [List.countP_cons, eq_comm]
  rcases addElement_cases (hqueues element.name) hadd with
    ⟨hmust, heq⟩ | ⟨hmust, w, hw, hfree, hfirst, heq⟩
  · rw [waitsFor_of_not hmust] at hlocks
    have hwaits : t.locks.filterMap (·.waitsFor) = s.locks.filterMap (·.waitsFor) := by
      rw [hlocks, List.filterMap_append]
      exact List.append_nil _
    refine ⟨?_, ?_, ?_, ?_⟩
    · rw [heq]
      exact hlength s.graph fun _ => rfl
    · rw [hwaits, heq]
      exact h.waited_iff
    · rw [hwaits]
      exact h.nodup
    · intro l hl w hw
      rw [heq, mem_queue_enqueue]
      rw [hlocks] at hl
      rcases List.mem_append.mp hl with hl | hl
      · exact .inl (h.mem_queue l hl w hw)
      · rw [List.mem_singleton.mp hl] at hw
        cases hw
  · rw [waitsFor_of_first hmust hfirst] at hlocks
    have hwaits : t.locks.filterMap (·.waitsFor) = s.locks.filterMap (·.waitsFor) ++ [w] := by
      rw [hlocks, List.filterMap_append]
      rfl
    refine ⟨?_, ?_, ?_, ?_⟩
    · rw [heq]
      exact hlength (s.graph.waitFor txnId w) fun _ => rfl
    · intro x
      rw [hwaits, heq, next_enqueue, next_waitFor (hqueues element.name w hw), List.mem_append,
        ← h.waited_iff, List.mem_singleton]
      by_cases hx : x = w
      · simp [hx]
      · simp [hx]
    · rw [hwaits, List.nodup_append]
      refine ⟨h.nodup, by simp, ?_⟩
      rintro x hx y hy rfl
      obtain rfl := List.mem_singleton.mp hy
      exact (h.waited_iff x).mpr hx hfree
    · intro l hl x hx
      rw [heq, mem_queue_enqueue]
      rw [hlocks] at hl
      rcases List.mem_append.mp hl with hl | hl
      · exact .inl (h.mem_queue l hl x hx)
      · rw [List.mem_singleton.mp hl] at hx ⊢
        obtain rfl := Option.some.inj hx
        exact .inl hw

/-! ## When there is a transaction to wait for -/

/-- A turn that has to wait finds a transaction to wait for, which is not the requester, and goes on
past the assertion. -/
def FindsSomebody (s : LockRun) (request : String × Element) : Prop :=
  s.graph.MustWait request.2.name →
    (∃ graph w, s.graph.getTransactionToWaitFor request.2 = .ok (graph, some w) ∧ w ≠ request.1) ∧
    ∃ graph, s.graph.addElement request.1 request.2 = .ok graph

/-- Where a turn has to wait, fewer transactions in the queue are waited for because of other
resources than requests for this one were granted at once. -/
def SlotLeft (s : LockRun) (request : String × Element) : Prop :=
  s.graph.MustWait request.2.name →
    s.takenElsewhere request.2.name < s.grantedAtOnce request.2.name

/-- What every turn of a call satisfies, in the state the loop has come to. -/
def EveryTurn (P : LockRun → String × Element → Prop) (s : LockRun) : LockEvent → Prop
  | .register _ => True
  | .add txnId resources => s.graph.Registered txnId →
      Transition.Meets turn P (s.call txnId resources) (s.turns txnId resources)

theorem getTransactionToWaitFor_eq (graph : WaitForGraph) (element : Element) :
    ∃ graph', graph.getTransactionToWaitFor element =
      (firstNotWaitedFor graph.transactionManager (graph.queue element.name)).map
        fun w => (graph', w) := by
  obtain ⟨resourceManager, hget, -, -⟩ := graph.getOrAddResource_eq element
  refine ⟨{ graph with resourceManager }, ?_⟩
  unfold getTransactionToWaitFor queue
  rw [hget]
  rfl

theorem findsSomebody_iff (h : s.Slots) (hqueues : QueuesRegistered s.graph)
    (hnot : txnId ∉ s.graph.queue element.name) :
    FindsSomebody s (txnId, element) ↔ SlotLeft s (txnId, element) := by
  refine forall_congr' fun hmust => ?_
  rw [← not_le, ← h.all_waited_iff]
  obtain ⟨graph', hget⟩ := getTransactionToWaitFor_eq s.graph element
  constructor
  · intro hfinds hall
    obtain ⟨graph, hadd⟩ := hfinds.2
    rw [(addElement_eq_error (hqueues element.name)).mpr ⟨rfl, hmust, hall⟩] at hadd
    cases hadd
  · intro hsome
    rcases firstNotWaitedFor_eq (hqueues element.name) with ⟨w, hw, hfree, hfirst⟩ | ⟨hall, -⟩
    · refine ⟨⟨graph', w, ?_, ?_⟩, ?_⟩
      · dsimp only
        rw [hget, hfirst]
        rfl
      · rintro rfl
        exact hnot hw
      · dsimp only
        rw [addElement_eq, if_pos hmust, hfirst]
        exact ⟨_, rfl⟩
    · exact absurd hall hsome

/-- Along the turns of one call. -/
theorem meets_turns_iff (h : s.Slots) (hqueues : QueuesRegistered s.graph)
    (htxn : s.graph.Registered txnId) (hnodup : (elements.map (·.name)).Nodup)
    (hnot : ∀ e ∈ elements, txnId ∉ s.graph.queue e.name) :
    (Transition.Meets turn FindsSomebody s (elements.map (txnId, ·)) ↔
        Transition.Meets turn SlotLeft s (elements.map (txnId, ·))) ∧
      ∀ t, Transition.run turn s (elements.map (txnId, ·)) = some t → t.Slots := by
  induction elements generalizing s with
  | nil => exact ⟨Iff.rfl, fun t ht => Option.some.inj ht ▸ h⟩
  | cons element elements ih =>
    rw [List.map_cons, List.nodup_cons] at hnodup
    have hhead := hnot element List.mem_cons_self
    have hnext : ∀ u, turn s (txnId, element) = some u →
        (Transition.Meets turn FindsSomebody u (elements.map (txnId, ·)) ↔
          Transition.Meets turn SlotLeft u (elements.map (txnId, ·))) ∧
        ∀ t, Transition.run turn u (elements.map (txnId, ·)) = some t → t.Slots := by
      intro u hu
      have hlocked := locked_of_turn hqueues hu
      refine ih (h.turn hqueues hhead hu) (hlocked.queuesRegistered hqueues htxn)
        (hlocked.registered.mpr htxn) hnodup.2 fun e he hmem => ?_
      rcases (hlocked.mem_queue e.name txnId).mp hmem with hmem | ⟨-, e', he', heq⟩
      · exact hnot e (List.mem_cons_of_mem _ he) hmem
      · rw [List.mem_singleton.mp he'] at heq
        exact hnodup.1 (heq ▸ List.mem_map_of_mem he)
    rw [List.map_cons]
    refine ⟨and_congr (findsSomebody_iff h hqueues hhead) ?_, fun t ht => ?_⟩
    · exact forall_congr' fun u => forall_congr' fun hu => (hnext u hu).1
    · obtain ⟨u, hu, hrest⟩ := Transition.run_cons_eq_some.mp ht
      exact (hnext u hu).2 t hrest

/-- A call that comes to its loop. -/
theorem Slots.call (h : s.Slots) : (s.call txnId resources).Slots where
  length_eq name := (congrArg List.length queue_takeElements).trans (h.length_eq name)
  waited_iff w := (not_congr (Eq.congr_left next_takeElements)).trans (h.waited_iff w)
  nodup := h.nodup
  mem_queue l hl w hw := queue_takeElements.symm ▸ h.mem_queue l hl w hw

theorem everyTurn_iff {event : LockEvent} (hconsistent : s.Consistent) (h : s.Slots) :
    (EveryTurn FindsSomebody s event ↔ EveryTurn SlotLeft s event) ∧
      ∀ t, step s event = some t → t.Slots := by
  cases event with
  | register txnId =>
    refine ⟨Iff.rfl, fun t ht => ?_⟩
    obtain ⟨-, hlocks, hresource, hnext, -⟩ := step_register ht
    have hqueue : ∀ name, t.graph.queue name = s.graph.queue name :=
      fun name => queue_congr (hresource name)
    refine ⟨fun name => ?_, fun w => ?_, ?_, ?_⟩
    · rw [hqueue, hlocks]
      exact h.length_eq name
    · rw [hnext, hlocks]
      exact h.waited_iff w
    · rw [hlocks]
      exact h.nodup
    · rw [hlocks]
      intro l hl w hw
      rw [hqueue]
      exact h.mem_queue l hl w hw
  | add txnId resources =>
    by_cases htxn : s.graph.Registered txnId
    · obtain ⟨txn, hget⟩ := Option.ne_none_iff_exists'.mp htxn
      obtain ⟨hnodup, hnames, -, -⟩ := s.graph.takeElements_spec resources hget
      have hqueues : QueuesRegistered (s.call txnId resources).graph := by
        intro name x hx
        exact registered_takeElements.mpr
          (hconsistent.queuesRegistered name x (queue_takeElements ▸ hx))
      obtain ⟨hiff, hslots⟩ := meets_turns_iff h.call hqueues (registered_takeElements.mpr htxn)
        hnodup fun e he hmem => by
          -- an element that is new was not asked for
          have hnew := ((hnames e.name).mp ⟨e, he, rfl⟩).1
          have hmem' : txnId ∈ s.graph.queue e.name := queue_takeElements ▸ hmem
          exact (hconsistent.elements_iff txnId txn hget e.name).mpr
            ((hconsistent.queue_iff e.name txnId).mp hmem') hnew
      refine ⟨forall_congr' fun _ => hiff, fun t ht => hslots t ?_⟩
      unfold step at ht
      dsimp only at ht
      rw [if_pos htxn] at ht
      exact ht
    · refine ⟨iff_of_true (fun h => absurd h htxn) fun h => absurd h htxn, fun t ht => ?_⟩
      unfold step at ht
      dsimp only at ht
      rw [if_neg htxn] at ht
      cases ht

theorem slots_empty : Slots {} where
  length_eq _ := rfl
  waited_iff _ := by simp [next, TransactionManager.getTransaction]
  nodup := List.nodup_nil
  mem_queue _ h := absurd h List.not_mem_nil

/-- **When there is a transaction to wait for.** Transactions register and call `add` in any order.
Every turn that has to wait finds a transaction to wait for, other than the requester, if and only if
every turn that has to wait has a place left. -/
theorem finds_somebody_iff (events : List LockEvent) :
    Transition.Meets step (EveryTurn FindsSomebody) {} events ↔
      Transition.Meets step (EveryTurn SlotLeft) {} events :=
  Transition.meets_congr (I := fun s => s.Consistent ∧ s.Slots)
    (fun _ _ h => (everyTurn_iff h.1 h.2).1)
    (fun _ _ _ h _ hs => ⟨h.1.step hs, (everyTurn_iff h.1 h.2).2 _ hs⟩)
    ⟨consistent_empty, slots_empty⟩

/-- **Nobody left to wait for.** Transaction 1 writes A and B. Transaction 2 waits for it because of
A, so 3 finds its place taken in the queue of B. -/
theorem nobody_to_wait_for :
    ∃ s, Transition.run step {} [.register "1", .register "2", .register "3",
        .add "1" [⟨"A", .write⟩, ⟨"B", .write⟩], .add "2" [⟨"A", .write⟩]] = some s ∧
      s.graph.add "3" [⟨"B", .write⟩] = .error .noTransactionToWaitFor := by
  refine ⟨_, rfl, ?_⟩
  decide +kernel

end ReplicatedCounter.MyDb.Experimental.LockRun
