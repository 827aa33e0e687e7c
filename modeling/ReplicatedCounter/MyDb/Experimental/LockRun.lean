import ReplicatedCounter.MyDb.Experimental.WaitForGraph

/-!
# Transactions that ask for locks

Transactions register and call `add`, in any order. A run keeps, beside the graph, everything that was
asked for, with the elements a transaction has already and `add` passes over, and what came of every
turn of the loop. `Locked` is what the loop of one call makes of a graph; a call asks for a resource
at most once, so every turn finds its resource as it was before the call.
-/

set_option autoImplicit false

namespace ReplicatedCounter.MyDb.Experimental

namespace WaitForGraph

variable {graph graph' graph'' : WaitForGraph} {txnId w x : String} {element : Element}
  {elements : List Element} {name : String}

/-! ## The loop of one call -/

/-- The loop of a call of `txnId` for `elements` leads from `graph` to `graph'`. -/
structure Locked (txnId : String) (elements : List Element) (graph graph' : WaitForGraph) :
    Prop where
  elements_eq : ∀ x, (graph'.transactionManager.getTransaction x).map (·.elements) =
    (graph.transactionManager.getTransaction x).map (·.elements)
  mem_queue : ∀ name x, x ∈ graph'.queue name ↔
    x ∈ graph.queue name ∨ x = txnId ∧ ∃ element ∈ elements, element.name = name
  resource_of_not : ∀ name, (∀ element ∈ elements, element.name ≠ name) →
    graph'.resource name = graph.resource name
  resource_of_mem : ∀ element ∈ elements,
    graph'.resource element.name = enqueued (graph.resource element.name) txnId element
  extends_next : Links.Extends graph.next graph'.next
  new_link : ∀ x y, Links.Linked graph'.next x y → Links.Linked graph.next x y ∨ y = txnId
  waits : ∀ element ∈ elements, graph.MustWait element.name →
    ∃ w ∈ graph.queue element.name, graph.next w = none ∧ Links.Linked graph'.next w txnId
  new_waits : ∀ w, Links.Linked graph'.next w txnId → ¬ Links.Linked graph.next w txnId →
    ∃ element ∈ elements, graph.MustWait element.name ∧ w ∈ graph.queue element.name

theorem Locked.registered (h : Locked txnId elements graph graph') :
    graph'.Registered x ↔ graph.Registered x := by
  have helements := h.elements_eq x
  unfold Registered
  cases hget : graph.transactionManager.getTransaction x with
  | none =>
    rw [hget, Option.map_none, Option.map_eq_none_iff] at helements
    simp [helements]
  | some txn =>
    rw [hget] at helements
    cases hget' : graph'.transactionManager.getTransaction x with
    | none =>
      rw [hget'] at helements
      cases helements
    | some txn' => simp

theorem locked_nil : Locked txnId [] graph graph where
  elements_eq _ := rfl
  mem_queue _ _ := by simp
  resource_of_not _ _ := rfl
  resource_of_mem _ h := absurd h List.not_mem_nil
  extends_next _ _ h := h
  new_link _ _ h := .inl h
  waits _ h := absurd h List.not_mem_nil
  new_waits _ h h' := absurd h h'

theorem mem_queue_enqueue_singleton :
    x ∈ (graph.enqueue txnId element).queue name ↔
      x ∈ graph.queue name ∨ x = txnId ∧ ∃ e ∈ [element], e.name = name := by
  rw [mem_queue_enqueue]
  simp [eq_comm]

theorem locked_granted (hmust : ¬ graph.MustWait element.name) :
    Locked txnId [element] graph (graph.enqueue txnId element) where
  elements_eq _ := rfl
  mem_queue _ _ := mem_queue_enqueue_singleton
  resource_of_not name h := by
    rw [resource_enqueue, if_neg]
    exact (h element List.mem_cons_self).symm
  resource_of_mem e he := by
    obtain rfl := List.mem_singleton.mp he
    rw [resource_enqueue, if_pos rfl]
  extends_next _ _ h := h
  new_link _ _ h := .inl h
  waits e he hwait := by
    obtain rfl := List.mem_singleton.mp he
    exact absurd hwait hmust
  new_waits _ h h' := absurd h h'

theorem locked_waiting (hmust : graph.MustWait element.name) (hw : w ∈ graph.queue element.name)
    (hregistered : graph.Registered w) (hfree : graph.next w = none) :
    Locked txnId [element] graph ((graph.waitFor txnId w).enqueue txnId element) := by
  have hnext : ∀ x, ((graph.waitFor txnId w).enqueue txnId element).next x =
      if x = w then some txnId else graph.next x := fun x => by
    rw [next_enqueue]
    exact next_waitFor hregistered
  refine ⟨?_, fun _ _ => mem_queue_enqueue_singleton, ?_, ?_, ?_, ?_, ?_, ?_⟩
  · intro x
    unfold enqueue waitFor
    dsimp only
    rw [TransactionManager.getTransaction_update]
    split
    · rename_i hx
      rw [hx, Option.map_map]
      rfl
    · rfl
  · intro name h
    rw [resource_enqueue, if_neg (h element List.mem_cons_self).symm]
    rfl
  · intro e he
    obtain rfl := List.mem_singleton.mp he
    rw [resource_enqueue, if_pos rfl]
    rfl
  · intro x y hxy
    unfold Links.Linked at hxy ⊢
    rw [hnext, if_neg]
    · exact hxy
    · rintro rfl
      rw [hfree] at hxy
      cases hxy
  · intro x y hxy
    unfold Links.Linked at hxy ⊢
    rw [hnext] at hxy
    split at hxy
    · exact .inr (Option.some.inj hxy).symm
    · exact .inl hxy
  · intro e he _
    obtain rfl := List.mem_singleton.mp he
    refine ⟨w, hw, hfree, ?_⟩
    unfold Links.Linked
    rw [hnext, if_pos rfl]
  · intro x hx hnot
    refine ⟨element, List.mem_cons_self, hmust, ?_⟩
    unfold Links.Linked at hx hnot
    rw [hnext] at hx
    split at hx
    · rename_i heq
      rw [heq]
      exact hw
    · exact absurd hx hnot

theorem mustWait_congr (h : graph'.resource name = graph.resource name) :
    graph'.MustWait name ↔ graph.MustWait name := by
  unfold MustWait
  rw [h]

theorem queue_congr (h : graph'.resource name = graph.resource name) :
    graph'.queue name = graph.queue name := by
  unfold queue
  rw [h]

/-- One turn, and then the others. -/
theorem Locked.cons (h : Locked txnId [element] graph graph')
    (h' : Locked txnId elements graph' graph'')
    (hnames : ∀ e ∈ elements, e.name ≠ element.name) :
    Locked txnId (element :: elements) graph graph'' := by
  have hsame : ∀ e ∈ elements, graph'.resource e.name = graph.resource e.name := by
    intro e he
    refine h.resource_of_not e.name ?_
    rintro e' he' heq
    obtain rfl := List.mem_singleton.mp he'
    exact hnames e he heq.symm
  refine ⟨fun x => (h'.elements_eq x).trans (h.elements_eq x), ?_, ?_, ?_,
    fun x y hxy => h'.extends_next x y (h.extends_next x y hxy), ?_, ?_, ?_⟩
  · intro name x
    rw [h'.mem_queue, h.mem_queue]
    simp only [List.mem_cons, List.not_mem_nil, or_false, exists_eq_left, exists_eq_or_imp]
    tauto
  · intro name hname
    rw [h'.resource_of_not name fun e he => hname e (List.mem_cons_of_mem _ he)]
    refine h.resource_of_not name fun e he => ?_
    obtain rfl := List.mem_singleton.mp he
    exact hname e List.mem_cons_self
  · intro e he
    rcases List.mem_cons.mp he with rfl | he
    · rw [h'.resource_of_not e.name hnames]
      exact h.resource_of_mem e List.mem_cons_self
    · rw [h'.resource_of_mem e he, hsame e he]
  · intro x y hxy
    rcases h'.new_link x y hxy with hxy | rfl
    · exact h.new_link x y hxy
    · exact .inr rfl
  · intro e he hmust
    rcases List.mem_cons.mp he with rfl | he
    · obtain ⟨w, hw, hfree, hlink⟩ := h.waits e List.mem_cons_self hmust
      exact ⟨w, hw, hfree, h'.extends_next w txnId hlink⟩
    · obtain ⟨w, hw, hfree, hlink⟩ := h'.waits e he ((mustWait_congr (hsame e he)).mpr hmust)
      rw [queue_congr (hsame e he)] at hw
      refine ⟨w, hw, ?_, hlink⟩
      -- what nobody waits for afterwards, nobody waited for before
      rw [Option.eq_none_iff_forall_ne_some]
      intro y hy
      exact absurd ((h.extends_next w y hy).symm.trans hfree) (by simp)
  · intro x hx hnot
    by_cases hmid : Links.Linked graph'.next x txnId
    · obtain ⟨e, he, hmust, hmem⟩ := h.new_waits x hmid hnot
      obtain rfl := List.mem_singleton.mp he
      exact ⟨e, List.mem_cons_self, hmust, hmem⟩
    · obtain ⟨e, he, hmust, hmem⟩ := h'.new_waits x hx hmid
      rw [mustWait_congr (hsame e he)] at hmust
      rw [queue_congr (hsame e he)] at hmem
      exact ⟨e, List.mem_cons_of_mem _ he, hmust, hmem⟩

/-- A queue holds registered transactions. -/
def QueuesRegistered (graph : WaitForGraph) : Prop :=
  ∀ name, ∀ x ∈ graph.queue name, graph.Registered x

theorem Locked.queuesRegistered (h : Locked txnId elements graph graph')
    (hqueues : QueuesRegistered graph) (htxn : graph.Registered txnId) :
    QueuesRegistered graph' := by
  intro name x hx
  rw [h.registered]
  rcases (h.mem_queue name x).mp hx with hx | ⟨rfl, -⟩
  · exact hqueues name x hx
  · exact htxn

/-! ## The elements of one call -/

/-- A call goes on with the first element for every resource the transaction has not asked for. -/
theorem getNewlyAddedResource_spec (elements : SortedMap String LockMode)
    (resources : List Element) :
    ((getNewlyAddedResource elements resources).2.map (·.name)).Nodup ∧
      (∀ name, (∃ e ∈ (getNewlyAddedResource elements resources).2, e.name = name) ↔
        elements.find? name = none ∧ ∃ e ∈ resources, e.name = name) ∧
      (∀ e ∈ (getNewlyAddedResource elements resources).2, e ∈ resources) ∧
      ∀ name, (getNewlyAddedResource elements resources).1.find? name ≠ none ↔
        elements.find? name ≠ none ∨ ∃ e ∈ resources, e.name = name := by
  induction resources generalizing elements with
  | nil => simp [getNewlyAddedResource]
  | cons resource resources ih =>
    unfold getNewlyAddedResource
    cases hfind : elements.find? resource.name with
    | some mode =>
      obtain ⟨hnodup, hnames, hsub, hfinds⟩ := ih elements
      refine ⟨hnodup, fun name => ?_, fun e he => List.mem_cons_of_mem _ (hsub e he), fun name => ?_⟩
      · rw [hnames, List.exists_mem_cons_iff]
        refine and_congr_right fun hnone => ⟨.inr, fun h => h.resolve_left ?_⟩
        rintro rfl
        rw [hfind] at hnone
        cases hnone
      · rw [hfinds, List.exists_mem_cons_iff]
        constructor
        · rintro (h | h)
          · exact .inl h
          · exact .inr (.inr h)
        · rintro (h | rfl | h)
          · exact .inl h
          · exact .inl (by simp [hfind])
          · exact .inr h
    | none =>
      obtain ⟨hnodup, hnames, hsub, hfinds⟩ :=
        ih (elements.insert resource.name resource.lockModeRequired)
      simp only [SortedMap.find?_insert] at hnames hfinds
      dsimp only
      refine ⟨?_, fun name => ?_, ?_, fun name => ?_⟩
      · rw [List.map_cons, List.nodup_cons]
        refine ⟨?_, hnodup⟩
        intro hmem
        obtain ⟨e, he, hname⟩ := List.mem_map.mp hmem
        have := ((hnames resource.name).mp ⟨e, he, hname⟩).1
        simp at this
      · rw [List.exists_mem_cons_iff, List.exists_mem_cons_iff, hnames]
        by_cases hname : name = resource.name
        · simp [hname, hfind]
        · simp [hname, Ne.symm hname]
      · intro e he
        rcases List.mem_cons.mp he with rfl | he
        · exact List.mem_cons_self
        · exact List.mem_cons_of_mem _ (hsub e he)
      · rw [hfinds, List.exists_mem_cons_iff]
        by_cases hname : name = resource.name
        · simp [hname]
        · simp [hname, Ne.symm hname]

/-- What a call goes on with is what it asks for and the transaction does not have. -/
theorem takeElements_spec (graph : WaitForGraph) (resources : List Element) {txn : Transaction}
    (htxn : graph.transactionManager.getTransaction txnId = some txn) :
    ((graph.takeElements txnId resources).2.map (·.name)).Nodup ∧
      (∀ name, (∃ e ∈ (graph.takeElements txnId resources).2, e.name = name) ↔
        txn.elements.find? name = none ∧ ∃ e ∈ resources, e.name = name) ∧
      (∀ e ∈ (graph.takeElements txnId resources).2, e ∈ resources) ∧
      ∀ x txn', (graph.takeElements txnId resources).1.transactionManager.getTransaction x =
          some txn' → ∀ name, txn'.elements.find? name ≠ none ↔
        (∃ old, graph.transactionManager.getTransaction x = some old ∧
          old.elements.find? name ≠ none) ∨ x = txnId ∧ ∃ e ∈ resources, e.name = name := by
  obtain ⟨hnodup, hnames, hsub, hfinds⟩ := getNewlyAddedResource_spec txn.elements resources
  unfold takeElements
  rw [htxn]
  refine ⟨hnodup, hnames, hsub, ?_⟩
  intro x txn' hget name
  dsimp only at hget
  rw [TransactionManager.getTransaction_update] at hget
  by_cases hx : x = txnId
  · rw [if_pos hx, htxn] at hget
    obtain rfl := Option.some.inj hget
    rw [hx, htxn]
    dsimp only
    rw [hfinds]
    simp
  · rw [if_neg hx] at hget
    rw [hget]
    simp [hx]

@[simp] theorem resource_takeElements {resources : List Element} :
    (graph.takeElements txnId resources).1.resource name = graph.resource name := by
  unfold takeElements
  split
  · rfl
  · rfl

@[simp] theorem queue_takeElements {resources : List Element} :
    (graph.takeElements txnId resources).1.queue name = graph.queue name :=
  queue_congr resource_takeElements

@[simp] theorem mustWait_takeElements {resources : List Element} :
    (graph.takeElements txnId resources).1.MustWait name ↔ graph.MustWait name :=
  mustWait_congr resource_takeElements

@[simp] theorem next_takeElements {resources : List Element} :
    (graph.takeElements txnId resources).1.next x = graph.next x := by
  unfold takeElements next
  split
  · rfl
  · rename_i txn htxn
    dsimp only
    rw [TransactionManager.getTransaction_update]
    split
    · rename_i hx
      rw [hx, htxn]
      rfl
    · rfl

@[simp] theorem registered_takeElements {resources : List Element} :
    (graph.takeElements txnId resources).1.Registered x ↔ graph.Registered x := by
  unfold takeElements Registered
  split
  · exact Iff.rfl
  · rename_i txn htxn
    dsimp only
    rw [TransactionManager.getTransaction_update]
    split
    · rename_i hx
      simp [hx, htxn]
    · exact Iff.rfl

end WaitForGraph

/-! ## Runs -/

/-- What came of a request for a resource: whom it waits for. -/
structure Lock where
  name : String
  waitsFor : Option String
  deriving DecidableEq, Repr

/-- A graph, with what was asked for and what came of it. -/
structure LockRun where
  graph : WaitForGraph := {}
  /-- Every element of every call, in order. -/
  requests : List (String × Element) := []
  locks : List Lock := []

inductive LockEvent where
  /-- A new transaction is given to the transaction manager. -/
  | register (txnId : String)
  | add (txnId : String) (resources : List Element)
  deriving DecidableEq, Repr

namespace LockRun

open WaitForGraph

/-- Whom a request for a resource waits for. -/
def waitsFor (graph : WaitForGraph) (name : String) : Option String :=
  if graph.MustWait name then
    (firstNotWaitedFor graph.transactionManager (graph.queue name)).toOption.join
  else
    none

/-- One turn of the loop in `add`; an assertion that fails ends everything. -/
def turn (s : LockRun) (request : String × Element) : Option LockRun :=
  match s.graph.addElement request.1 request.2 with
  | .error _ => none
  | .ok graph => some { s with
      graph
      locks := s.locks ++ [⟨request.2.name, waitsFor s.graph request.2.name⟩] }

/-- A call has come to its loop. -/
def call (s : LockRun) (txnId : String) (resources : List Element) : LockRun :=
  { s with
    graph := (s.graph.takeElements txnId resources).1
    requests := s.requests ++ resources.map (txnId, ·) }

/-- The turns of a call. -/
def turns (s : LockRun) (txnId : String) (resources : List Element) : List (String × Element) :=
  (s.graph.takeElements txnId resources).2.map (txnId, ·)

/-- A transaction registers, or a registered one calls `add`. -/
def step (s : LockRun) : LockEvent → Option LockRun
  | .register txnId => some { s with
      graph := { s.graph with
        transactionManager := (s.graph.transactionManager.add { id := txnId }).1 } }
  | .add txnId resources =>
    if s.graph.Registered txnId then
      Transition.run turn (s.call txnId resources) (s.turns txnId resources)
    else
      none

variable {s t : LockRun} {txnId x y : String} {element : Element} {elements resources : List Element}
  {name : String}

/-- The turns of a call make of the graph what the loop makes of it. -/
theorem graph_run_turn :
    (Transition.run turn s (elements.map (txnId, ·))).map (·.graph) =
      (s.graph.addElements txnId elements).toOption := by
  induction elements generalizing s with
  | nil => rfl
  | cons element elements ih =>
    rw [List.map_cons, Transition.run_cons]
    unfold addElements turn
    dsimp only
    cases s.graph.addElement txnId element with
    | error e => rfl
    | ok graph => exact ih

/-- **A step of a run is a call of `add`.** -/
theorem graph_step_add (h : s.graph.Registered txnId) :
    (step s (.add txnId resources)).map (·.graph) = (s.graph.add txnId resources).toOption := by
  unfold step
  dsimp only
  rw [if_pos h]
  exact graph_run_turn

theorem turn_eq_some (h : turn s (txnId, element) = some t) :
    s.graph.addElement txnId element = .ok t.graph ∧ t.requests = s.requests ∧
      t.locks = s.locks ++ [⟨element.name, waitsFor s.graph element.name⟩] := by
  unfold turn at h
  dsimp only at h
  cases hadd : s.graph.addElement txnId element with
  | error e =>
    rw [hadd] at h
    cases h
  | ok graph =>
    rw [hadd] at h
    obtain rfl := Option.some.inj h
    exact ⟨rfl, rfl, rfl⟩

theorem locked_of_turn (hqueues : QueuesRegistered s.graph)
    (h : turn s (txnId, element) = some t) : Locked txnId [element] s.graph t.graph := by
  rcases addElement_cases (hqueues element.name) (turn_eq_some h).1 with
    ⟨hmust, heq⟩ | ⟨hmust, w, hw, hfree, -, heq⟩
  · rw [heq]
    exact locked_granted hmust
  · rw [heq]
    exact locked_waiting hmust hw (hqueues element.name w hw) hfree

/-- **The loop of one call.** -/
theorem locked_of_run (hqueues : QueuesRegistered s.graph) (htxn : s.graph.Registered txnId)
    (hnodup : (elements.map (·.name)).Nodup)
    (hrun : Transition.run turn s (elements.map (txnId, ·)) = some t) :
    Locked txnId elements s.graph t.graph ∧ t.requests = s.requests := by
  induction elements generalizing s with
  | nil =>
    obtain rfl := Option.some.inj hrun
    exact ⟨locked_nil, rfl⟩
  | cons element elements ih =>
    rw [List.map_cons, List.nodup_cons] at hnodup
    obtain ⟨u, hturn, hrest⟩ := Transition.run_cons_eq_some.mp hrun
    have hlocked := locked_of_turn hqueues hturn
    obtain ⟨hrest, hrequests⟩ :=
      ih (hlocked.queuesRegistered hqueues htxn) (hlocked.registered.mpr htxn) hnodup.2 hrest
    refine ⟨hlocked.cons hrest ?_, hrequests.trans (turn_eq_some hturn).2.1⟩
    intro e he heq
    exact hnodup.1 (heq ▸ List.mem_map_of_mem he)

/-! ## What a call does -/

/-- A call asks for a resource. -/
def Asks (resources : List Element) (name : String) : Prop :=
  ∃ element ∈ resources, element.name = name

/-- A transaction has asked for a resource. -/
def Requested (s : LockRun) (txnId name : String) : Prop :=
  ∃ mode, (txnId, ⟨name, mode⟩) ∈ s.requests

/-- A transaction has asked to write a resource, whatever else it has asked for. -/
def AskedToWrite (s : LockRun) (txnId name : String) : Prop :=
  (txnId, ⟨name, .write⟩) ∈ s.requests

/-- A call has to wait for a resource. -/
def Waits (s : LockRun) (txnId : String) (resources : List Element) (name : String) : Prop :=
  Asks resources name ∧ txnId ∉ s.graph.queue name ∧ s.graph.MustWait name

/-- Where a run has come to, between two calls: who has asked for a resource is in its queue and has
an element for it, and a resource is write-locked or counts a writer only if somebody has asked to
write it. -/
structure Consistent (s : LockRun) : Prop where
  queue_iff : ∀ name x, x ∈ s.graph.queue name ↔ s.Requested x name
  elements_iff : ∀ x txn, s.graph.transactionManager.getTransaction x = some txn →
    ∀ name, txn.elements.find? name ≠ none ↔ s.Requested x name
  queuesRegistered : QueuesRegistered s.graph
  writer : ∀ name, (s.graph.resource name).lockMode = .write ∨
    (s.graph.resource name).writersWaitingCount ≠ 0 → ∃ x, s.AskedToWrite x name

theorem AskedToWrite.requested (h : s.AskedToWrite x name) : s.Requested x name := ⟨.write, h⟩

/-- A request only has to wait where somebody has asked to write. -/
theorem Consistent.exists_writer (h : s.Consistent) (hmust : s.graph.MustWait name) :
    ∃ x ∈ s.graph.queue name, s.AskedToWrite x name := by
  have hwriter : ∃ x, s.AskedToWrite x name := by
    refine h.writer name ?_
    rcases hmust with hmode | ⟨-, hawaiting⟩
    · exact .inl hmode
    · refine .inr ?_
      unfold Resource.isWriterAwaiting at hawaiting
      rintro hzero
      rw [hzero] at hawaiting
      exact absurd hawaiting (by decide)
  obtain ⟨x, hx⟩ := hwriter
  exact ⟨x, (h.queue_iff name x).mpr hx.requested, hx⟩

/-- A call of `txnId` for `resources` leads from `s` to `t`. -/
structure Called (txnId : String) (resources : List Element) (s t : LockRun) : Prop where
  requests_eq : t.requests = s.requests ++ resources.map (txnId, ·)
  mem_queue : ∀ name x, x ∈ t.graph.queue name ↔
    x ∈ s.graph.queue name ∨ x = txnId ∧ Asks resources name
  elements_iff : ∀ x txn, t.graph.transactionManager.getTransaction x = some txn →
    ∀ name, txn.elements.find? name ≠ none ↔
      (∃ old, s.graph.transactionManager.getTransaction x = some old ∧
        old.elements.find? name ≠ none) ∨ x = txnId ∧ Asks resources name
  queuesRegistered : QueuesRegistered t.graph
  resource_eq : ∀ name, t.graph.resource name = s.graph.resource name ∨
    ∃ element ∈ resources, element.name = name ∧
      t.graph.resource name = enqueued (s.graph.resource name) txnId element
  extends_next : Links.Extends s.graph.next t.graph.next
  new_link : ∀ x y, Links.Linked t.graph.next x y → Links.Linked s.graph.next x y ∨ y = txnId
  waits : ∀ name, Waits s txnId resources name →
    ∃ w ∈ s.graph.queue name, s.graph.next w = none ∧ Links.Linked t.graph.next w txnId
  new_waits : ∀ w, Links.Linked t.graph.next w txnId → ¬ Links.Linked s.graph.next w txnId →
    ∃ name, Waits s txnId resources name ∧ w ∈ s.graph.queue name

theorem Consistent.called (h : s.Consistent) (hs : step s (.add txnId resources) = some t) :
    Called txnId resources s t := by
  unfold step at hs
  dsimp only at hs
  split at hs
  · rename_i hregistered
    obtain ⟨txn, htxn⟩ := Option.ne_none_iff_exists'.mp hregistered
    obtain ⟨hnodup, hnames, hsub, helements⟩ := s.graph.takeElements_spec resources htxn
    have hqueues : QueuesRegistered (s.call txnId resources).graph := by
      intro name x hx
      unfold call at hx ⊢
      rw [queue_takeElements] at hx
      exact registered_takeElements.mpr (h.queuesRegistered name x hx)
    have hstill : (s.call txnId resources).graph.Registered txnId :=
      registered_takeElements.mpr hregistered
    obtain ⟨hlocked, hrequests⟩ := locked_of_run hqueues hstill hnodup hs
    -- what the transaction does not have yet, it is not in the queue for
    have hnew : ∀ name, (∃ e ∈ (s.graph.takeElements txnId resources).2, e.name = name) ↔
        txnId ∉ s.graph.queue name ∧ Asks resources name := by
      intro name
      rw [hnames, h.queue_iff, ← h.elements_iff txnId txn htxn, not_not]
      rfl
    have hwaits : ∀ name, Waits s txnId resources name ↔
        ∃ e ∈ (s.graph.takeElements txnId resources).2, e.name = name ∧
          (s.call txnId resources).graph.MustWait e.name := by
      intro name
      have hmust : (s.call txnId resources).graph.MustWait name ↔ s.graph.MustWait name :=
        mustWait_takeElements
      constructor
      · intro hwait
        obtain ⟨e, he, rfl⟩ := (hnew name).mpr ⟨hwait.2.1, hwait.1⟩
        exact ⟨e, he, rfl, hmust.mpr hwait.2.2⟩
      · intro hwait
        obtain ⟨e, he, rfl, hwait⟩ := hwait
        obtain ⟨hnot, hasks⟩ := (hnew e.name).mp ⟨e, he, rfl⟩
        exact ⟨hasks, hnot, hmust.mp hwait⟩
    refine ⟨hrequests, ?_, ?_, hlocked.queuesRegistered hqueues hstill, ?_, ?_, ?_, ?_, ?_⟩
    · intro name x
      rw [hlocked.mem_queue, hnew]
      show x ∈ (s.call txnId resources).graph.queue name ∨ _ ↔ _
      have hqueue : (s.call txnId resources).graph.queue name = s.graph.queue name :=
        queue_takeElements
      rw [hqueue]
      by_cases hin : txnId ∈ s.graph.queue name
      · constructor
        · exact fun hx => .inl (hx.resolve_right fun hx => hx.2.1 hin)
        · rintro (hx | ⟨rfl, -⟩)
          · exact .inl hx
          · exact .inl hin
      · simp [hin]
    · intro x txn' hget name
      have hsame := hlocked.elements_eq x
      rw [hget, Option.map_some] at hsame
      obtain ⟨old, hold, heq⟩ := Option.map_eq_some_iff.mp hsame.symm
      rw [← heq]
      exact helements x old hold name
    · intro name
      by_cases hmem : ∃ e ∈ (s.graph.takeElements txnId resources).2, e.name = name
      · obtain ⟨e, he, rfl⟩ := hmem
        refine .inr ⟨e, hsub e he, rfl, ?_⟩
        rw [hlocked.resource_of_mem e he]
        exact congrArg (enqueued · txnId e) resource_takeElements
      · refine .inl ((hlocked.resource_of_not name ?_).trans resource_takeElements)
        exact fun e he heq => hmem ⟨e, he, heq⟩
    · intro x y hxy
      exact hlocked.extends_next x y (next_takeElements.trans hxy)
    · intro x y hxy
      exact (hlocked.new_link x y hxy).imp_left fun h => next_takeElements.symm.trans h
    · intro name hwait
      obtain ⟨e, he, rfl, hmust⟩ := (hwaits name).mp hwait
      obtain ⟨w, hw, hfree, hlink⟩ := hlocked.waits e he hmust
      rw [show (s.call txnId resources).graph.queue e.name = s.graph.queue e.name from
        queue_takeElements] at hw
      exact ⟨w, hw, next_takeElements.symm.trans hfree, hlink⟩
    · intro w hlink hnot
      obtain ⟨e, he, hmust, hw⟩ := hlocked.new_waits w hlink fun h =>
        hnot (next_takeElements.symm.trans h)
      rw [show (s.call txnId resources).graph.queue e.name = s.graph.queue e.name from
        queue_takeElements] at hw
      exact ⟨e.name, (hwaits e.name).mpr ⟨e, he, rfl, hmust⟩, hw⟩
  · cases hs

/-! ## What every step keeps -/

theorem Called.requested (h : Called txnId resources s t) :
    t.Requested x name ↔ s.Requested x name ∨ x = txnId ∧ Asks resources name := by
  unfold Requested Asks
  rw [h.requests_eq]
  simp only [List.mem_append, List.mem_map, exists_or]
  refine or_congr_right ⟨?_, ?_⟩
  · intro hmem
    obtain ⟨mode, e, he, heq⟩ := hmem
    obtain ⟨rfl, rfl⟩ := Prod.mk.inj heq
    exact ⟨rfl, _, he, rfl⟩
  · intro hmem
    obtain ⟨rfl, e, he, rfl⟩ := hmem
    exact ⟨e.lockModeRequired, e, he, rfl⟩

theorem Called.askedToWrite (h : Called txnId resources s t) :
    t.AskedToWrite x name ↔ s.AskedToWrite x name ∨ x = txnId ∧ ⟨name, .write⟩ ∈ resources := by
  unfold AskedToWrite
  rw [h.requests_eq]
  simp [and_comm, eq_comm]

theorem Called.writer (h : Called txnId resources s t) (hconsistent : s.Consistent)
    (hwriter : (t.graph.resource name).lockMode = .write ∨
      (t.graph.resource name).writersWaitingCount ≠ 0) : ∃ x, t.AskedToWrite x name := by
  have hold : (∃ x, s.AskedToWrite x name) → ∃ x, t.AskedToWrite x name := fun hx =>
    hx.imp fun x hx => h.askedToWrite.mpr (.inl hx)
  rcases h.resource_eq name with heq | ⟨e, he, rfl, heq⟩
  · rw [heq] at hwriter
    exact hold (hconsistent.writer name hwriter)
  · by_cases hwrite : e.lockModeRequired = .write
    · refine ⟨txnId, h.askedToWrite.mpr (.inr ⟨rfl, ?_⟩)⟩
      rw [← hwrite]
      exact he
    · rw [heq] at hwriter
      unfold enqueued at hwriter
      dsimp only at hwriter
      rw [if_neg hwrite] at hwriter
      refine hold (hconsistent.writer e.name ?_)
      rcases hwriter with hmode | hcount
      · split at hmode
        · exact absurd hmode hwrite
        · exact .inl hmode
      · exact .inr hcount

theorem Called.consistent (h : Called txnId resources s t) (hconsistent : s.Consistent) :
    t.Consistent where
  queue_iff name x := by rw [h.mem_queue, h.requested, hconsistent.queue_iff]
  elements_iff x txn htxn name := by
    rw [h.elements_iff x txn htxn, h.requested]
    refine or_congr_left ⟨?_, ?_⟩
    · intro hold
      obtain ⟨old, hget, hfind⟩ := hold
      exact (hconsistent.elements_iff x old hget name).mp hfind
    · intro hrequested
      have hregistered := hconsistent.queuesRegistered name x
        ((hconsistent.queue_iff name x).mpr hrequested)
      obtain ⟨old, hget⟩ := Option.ne_none_iff_exists'.mp hregistered
      exact ⟨old, hget, (hconsistent.elements_iff x old hget name).mpr hrequested⟩
  queuesRegistered := h.queuesRegistered
  writer _ hwriter := h.writer hconsistent hwriter

/-- A new transaction has no elements, and nobody waits for it. -/
theorem getTransaction_register :
    (s.graph.transactionManager.add { id := txnId }).1.getTransaction x =
        s.graph.transactionManager.getTransaction x ∨
      s.graph.transactionManager.getTransaction x = none ∧
        (s.graph.transactionManager.add { id := txnId }).1.getTransaction x =
          some { id := txnId } := by
  unfold TransactionManager.add TransactionManager.getTransaction
  dsimp only
  cases hfind : s.graph.transactionManager.lookup.find? txnId with
  | some txn => exact .inl rfl
  | none =>
    dsimp only
    rw [SortedMap.find?_insert]
    split
    · rename_i hx
      rw [hx]
      exact .inr ⟨hfind, rfl⟩
    · exact .inl rfl

theorem step_register (hs : step s (.register txnId) = some t) :
    t.requests = s.requests ∧ t.locks = s.locks ∧
      (∀ name, t.graph.resource name = s.graph.resource name) ∧
      (∀ x, t.graph.next x = s.graph.next x) ∧
      ∀ x txn, t.graph.transactionManager.getTransaction x = some txn →
        s.graph.transactionManager.getTransaction x = some txn ∨
          s.graph.transactionManager.getTransaction x = none ∧ txn = { id := txnId } := by
  obtain rfl := Option.some.inj hs
  refine ⟨rfl, rfl, fun _ => rfl, ?_, ?_⟩
  · intro x
    unfold next
    dsimp only
    rcases getTransaction_register with heq | ⟨hnone, heq⟩
    · rw [heq]
    · rw [heq, hnone]
      rfl
  · intro x txn htxn
    rcases getTransaction_register with heq | ⟨hnone, heq⟩
    · exact .inl (heq.symm.trans htxn)
    · exact .inr ⟨hnone, (Option.some.inj (heq.symm.trans htxn)).symm⟩

theorem Consistent.register (h : s.Consistent) (hs : step s (.register txnId) = some t) :
    t.Consistent := by
  obtain ⟨hrequests, -, hresource, -, htransactions⟩ := step_register hs
  have hrequested : ∀ x name, t.Requested x name ↔ s.Requested x name := by
    intro x name
    unfold Requested
    rw [hrequests]
  refine ⟨?_, ?_, ?_, ?_⟩
  · intro name x
    rw [queue_congr (hresource name), hrequested]
    exact h.queue_iff name x
  · intro x txn htxn name
    rw [hrequested]
    rcases htransactions x txn htxn with hold | ⟨hnone, rfl⟩
    · exact h.elements_iff x txn hold name
    · refine iff_of_false (fun hne => hne rfl) fun hx => ?_
      exact h.queuesRegistered name x ((h.queue_iff name x).mpr hx) hnone
  · intro name x hx
    rw [queue_congr (hresource name)] at hx
    obtain rfl := Option.some.inj hs
    obtain ⟨txn, htxn⟩ := Option.ne_none_iff_exists'.mp (h.queuesRegistered name x hx)
    unfold Registered
    dsimp only
    rcases getTransaction_register with heq | ⟨hnone, -⟩
    · rw [heq, htxn]
      simp
    · exact absurd (htxn.symm.trans hnone) (by simp)
  · intro name hwriter
    rw [hresource] at hwriter
    unfold AskedToWrite
    rw [hrequests]
    exact h.writer name hwriter

theorem consistent_empty : Consistent {} where
  queue_iff _ _ := by
    refine iff_of_false List.not_mem_nil fun h => ?_
    obtain ⟨mode, hmem⟩ := h
    exact List.not_mem_nil hmem
  elements_iff _ _ h := by cases h
  queuesRegistered _ _ h := absurd h List.not_mem_nil
  writer _ h := by
    rcases h with h | h
    · cases h
    · exact absurd rfl h

theorem Consistent.step {event : LockEvent} (h : s.Consistent) (hs : step s event = some t) :
    t.Consistent := by
  cases event with
  | register txnId => exact h.register hs
  | add txnId resources => exact (h.called hs).consistent h

end LockRun

end ReplicatedCounter.MyDb.Experimental
