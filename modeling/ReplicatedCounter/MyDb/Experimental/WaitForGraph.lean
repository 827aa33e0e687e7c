import ReplicatedCounter.Lib.Transition
import ReplicatedCounter.MyDb.Experimental.Models

/-!
# `mydb/experimental/WaitForGraph.cc`

A transaction asks for locks on resources. Where it cannot have one at once it waits for a
transaction in the queue of the resource: the first, by its id, that nobody waits for yet. A
transaction has one place for whoever waits for it, whatever the resource, and the queue of a resource
holds everybody who has asked for it, with or without success.

`addElement_eq` says what one turn of the loop in `add` does, and is all that is used of it.
-/

set_option autoImplicit false

namespace ReplicatedCounter.MyDb.Experimental

/-- The assertions of `WaitForGraph`. -/
inductive WaitForGraphError where
  /-- `"the resource is locked and should have a transaction to wait for"`. -/
  | noTransactionToWaitFor
  /-- `"txn should exist in manager"`. -/
  | txnNotInManager
  /-- `"resource should be present"`. -/
  | resourceNotPresent
  deriving DecidableEq, Repr

structure WaitForGraph where
  resourceManager : ResourceManager := {}
  transactionManager : TransactionManager := {}
  deriving DecidableEq

namespace WaitForGraph

/-- `WaitForGraph::getOrAddResource`. -/
def getOrAddResource (graph : WaitForGraph) (element : Element) :
    Except WaitForGraphError (WaitForGraph × Resource) :=
  match graph.resourceManager.getResource element.name with
  | some resource => .ok (graph, resource)
  | none =>
    let graph := { graph with
      resourceManager := (graph.resourceManager.registerResource element.name).1 }
    match graph.resourceManager.getResource element.name with
    | some resource => .ok (graph, resource)
    | none => .error .resourceNotPresent

/-- The loop of `getTransactionToWaitFor` over a queue. -/
def firstNotWaitedFor (transactions : TransactionManager) :
    List String → Except WaitForGraphError (Option String)
  | [] => .ok none
  | txnId :: rest =>
    match transactions.getTransaction txnId with
    | none => .error .txnNotInManager
    | some txn =>
      if txn.waitedBy.isNone then
        .ok (some txnId)
      else
        firstNotWaitedFor transactions rest

/-- `WaitForGraph::getTransactionToWaitFor`. -/
def getTransactionToWaitFor (graph : WaitForGraph) (element : Element) :
    Except WaitForGraphError (WaitForGraph × Option String) := do
  let (graph, resource) ← graph.getOrAddResource element
  let waitFor ← firstNotWaitedFor graph.transactionManager (resource.txnsQ.entries.map (·.1))
  return (graph, waitFor)

/-- `WaitForGraph::getNewlyAddedResource`, with the elements the transaction has then. -/
def getNewlyAddedResource (elements : SortedMap String LockMode) :
    List Element → SortedMap String LockMode × List Element
  | [] => (elements, [])
  | resource :: resources =>
    match elements.find? resource.name with
    | some _ => getNewlyAddedResource elements resources
    | none =>
      let (elements, output) := getNewlyAddedResource
        (elements.insert resource.name resource.lockModeRequired) resources
      (elements, resource :: output)

/-- The branches of `WaitForGraph::add`, with the lock mode the resource has then. -/
def lockOrWait (graph : WaitForGraph) (resource : Resource) (txnId : String) (element : Element) :
    Except WaitForGraphError (WaitForGraph × LockMode) :=
  if resource.lockMode = .none then
    .ok (graph, element.lockModeRequired)
  else if resource.lockMode = .read ∧ resource.isWriterAwaiting = false then
    .ok (graph, .read)
  else if resource.lockMode = .write ∨
      (resource.lockMode = .read ∧ resource.isWriterAwaiting = true) then
    match graph.getTransactionToWaitFor element with
    | .error e => .error e
    | .ok (_, none) => .error .noTransactionToWaitFor
    | .ok (graph, some waitFor) =>
      let transactionManager := graph.transactionManager.update waitFor
        ({ · with waitedBy := some txnId })
      .ok ({ graph with transactionManager }, resource.lockMode)
  else
    .ok (graph, resource.lockMode)

/-- One turn of the loop in `WaitForGraph::add`. -/
def addElement (graph : WaitForGraph) (txnId : String) (element : Element) :
    Except WaitForGraphError WaitForGraph := do
  let (graph, resource) ← graph.getOrAddResource element
  let (graph, lockMode) ← graph.lockOrWait resource txnId element
  let resource := { resource with
    lockMode
    writersWaitingCount := if element.lockModeRequired = .write then
        resource.writersWaitingCount + 1
      else
        resource.writersWaitingCount
    txnsQ := resource.txnsQ.insert txnId () }
  return { graph with resourceManager := graph.resourceManager.set element.name resource }

/-- The loop in `WaitForGraph::add`. -/
def addElements (graph : WaitForGraph) (txnId : String) :
    List Element → Except WaitForGraphError WaitForGraph
  | [] => .ok graph
  | element :: elements => do
    let graph ← graph.addElement txnId element
    graph.addElements txnId elements

/-- What `add` does to the transaction, and the elements it goes on with. -/
def takeElements (graph : WaitForGraph) (txnId : String) (resources : List Element) :
    WaitForGraph × List Element :=
  match graph.transactionManager.getTransaction txnId with
  | none => (graph, [])
  | some txn =>
    let (elements, output) := getNewlyAddedResource txn.elements resources
    ({ graph with
        transactionManager := graph.transactionManager.update txnId ({ · with elements }) }, output)

/-- `WaitForGraph::add`, for a registered transaction. -/
def add (graph : WaitForGraph) (txnId : String) (resources : List Element) :
    Except WaitForGraphError WaitForGraph :=
  let (graph, elements) := graph.takeElements txnId resources
  graph.addElements txnId elements

/-! ## What can be seen of a graph -/

variable {graph graph' : WaitForGraph} {txnId w : String} {element : Element} {name : String}

/-- A resource; one that is not there yet is as it will be registered. -/
def resource (graph : WaitForGraph) (name : String) : Resource :=
  (graph.resourceManager.getResource name).getD { id := name }

/-- The queue of a resource, in the order of the ids. -/
def queue (graph : WaitForGraph) (name : String) : List String :=
  (graph.resource name).txnsQ.entries.map (·.1)

/-- Who waits for a transaction. -/
def next (graph : WaitForGraph) (txnId : String) : Option String :=
  (graph.transactionManager.getTransaction txnId).bind (·.waitedBy)

/-- A request for a resource does not get it at once. -/
def MustWait (graph : WaitForGraph) (name : String) : Prop :=
  (graph.resource name).lockMode = .write ∨
    ((graph.resource name).lockMode = .read ∧ (graph.resource name).isWriterAwaiting = true)

instance (graph : WaitForGraph) (name : String) : Decidable (graph.MustWait name) :=
  inferInstanceAs (Decidable (_ ∨ _))

/-- A resource with one more request. -/
def enqueued (resource : Resource) (txnId : String) (element : Element) : Resource where
  id := resource.id
  lockMode := if resource.lockMode = .none then element.lockModeRequired else resource.lockMode
  writersWaitingCount := if element.lockModeRequired = .write then resource.writersWaitingCount + 1
    else resource.writersWaitingCount
  txnsQ := resource.txnsQ.insert txnId ()

/-- A graph with one more request. -/
def enqueue (graph : WaitForGraph) (txnId : String) (element : Element) : WaitForGraph :=
  { graph with
    resourceManager := graph.resourceManager.set element.name
      (enqueued (graph.resource element.name) txnId element) }

/-- A graph in which `txnId` waits for `w`. -/
def waitFor (graph : WaitForGraph) (txnId w : String) : WaitForGraph :=
  { graph with
    transactionManager := graph.transactionManager.update w ({ · with waitedBy := some txnId }) }

theorem set_set {resources : ResourceManager} {r r' : Resource} :
    (resources.set name r).set name r' = resources.set name r' := by
  unfold ResourceManager.set
  congr 1
  apply SortedMap.ext_find?
  intro k
  simp only [SortedMap.find?_insert]
  split
  · rfl
  · rfl

theorem getOrAddResource_eq (graph : WaitForGraph) (element : Element) :
    ∃ resourceManager, graph.getOrAddResource element =
        .ok ({ graph with resourceManager }, graph.resource element.name) ∧
      resourceManager.getResource element.name = some (graph.resource element.name) ∧
      ∀ r, resourceManager.set element.name r = graph.resourceManager.set element.name r := by
  unfold getOrAddResource resource
  cases hget : graph.resourceManager.getResource element.name with
  | some r => exact ⟨_, rfl, hget, fun _ => rfl⟩
  | none =>
    have hregister : (graph.resourceManager.registerResource element.name).1 =
        graph.resourceManager.set element.name { id := element.name } := by
      unfold ResourceManager.registerResource
      unfold ResourceManager.getResource at hget
      rw [hget]
      rfl
    have hfind : (graph.resourceManager.set element.name { id := element.name }).getResource
        element.name = some { id := element.name } := by
      unfold ResourceManager.getResource ResourceManager.set
      rw [SortedMap.find?_insert, if_pos rfl]
    refine ⟨_, ?_, hfind, fun _ => set_set⟩
    dsimp only
    rw [hregister, hfind]
    rfl

/-- The branches of a request, in a graph where its resource has been registered. -/
theorem lockOrWait_eq {resourceManager : ResourceManager}
    (hget : resourceManager.getResource element.name = some (graph.resource element.name)) :
    ({ graph with resourceManager } : WaitForGraph).lockOrWait (graph.resource element.name) txnId
        element =
      if graph.MustWait element.name then
        match firstNotWaitedFor graph.transactionManager (graph.queue element.name) with
        | .error e => .error e
        | .ok none => .error .noTransactionToWaitFor
        | .ok (some w) => .ok ({ graph.waitFor txnId w with resourceManager },
            (graph.resource element.name).lockMode)
      else
        .ok ({ graph with resourceManager },
          (enqueued (graph.resource element.name) txnId element).lockMode) := by
  have hwait : ({ graph with resourceManager } : WaitForGraph).getTransactionToWaitFor element =
      (firstNotWaitedFor graph.transactionManager (graph.queue element.name)).map
        fun w => ({ graph with resourceManager }, w) := by
    unfold getTransactionToWaitFor getOrAddResource queue
    dsimp only
    rw [hget]
    rfl
  unfold lockOrWait MustWait enqueued
  rw [hwait]
  have hmodes : (graph.resource element.name).lockMode = .none ∨
      (graph.resource element.name).lockMode = .read ∨
      (graph.resource element.name).lockMode = .write := by
    cases (graph.resource element.name).lockMode with
    | _ => simp
  rcases hmodes with hmode | hmode | hmode
  · simp [hmode]
  · by_cases hawaiting : (graph.resource element.name).isWriterAwaiting = true
    · simp only [hmode, hawaiting, reduceCtorEq, if_false, and_false, and_true, or_true, if_true]
      cases firstNotWaitedFor graph.transactionManager (graph.queue element.name) with
      | error e => rfl
      | ok w => cases w with
        | none => rfl
        | some w => rfl
    · simp [hmode, hawaiting]
  · simp only [hmode, reduceCtorEq, if_false, false_and, true_or, if_true]
    cases firstNotWaitedFor graph.transactionManager (graph.queue element.name) with
    | error e => rfl
    | ok w => cases w with
      | none => rfl
      | some w => rfl

/-- **One turn of the loop.** A request that has to wait takes the place of the first transaction in
the queue that has one left; either way the request is put into the queue. -/
theorem addElement_eq (graph : WaitForGraph) (txnId : String) (element : Element) :
    graph.addElement txnId element =
      if graph.MustWait element.name then
        match firstNotWaitedFor graph.transactionManager (graph.queue element.name) with
        | .error e => .error e
        | .ok none => .error .noTransactionToWaitFor
        | .ok (some w) => .ok ((graph.waitFor txnId w).enqueue txnId element)
      else
        .ok (graph.enqueue txnId element) := by
  obtain ⟨resourceManager, hgetOrAdd, hget, hset⟩ := graph.getOrAddResource_eq element
  unfold addElement
  rw [hgetOrAdd]
  show (Except.bind (lockOrWait _ _ _ _) _) = _
  rw [lockOrWait_eq hget]
  by_cases hmust : graph.MustWait element.name
  · rw [if_pos hmust, if_pos hmust]
    cases firstNotWaitedFor graph.transactionManager (graph.queue element.name) with
    | error e => rfl
    | ok w => cases w with
      | none => rfl
      | some w =>
        have hmode : (enqueued (graph.resource element.name) txnId element).lockMode =
            (graph.resource element.name).lockMode := by
          unfold enqueued
          rw [if_neg]
          intro hnone
          unfold MustWait at hmust
          rw [hnone] at hmust
          simp at hmust
        simp only [Except.bind]
        rw [← hmode]
        show Except.ok _ = Except.ok _
        rw [hset]
        rfl
  · rw [if_neg hmust, if_neg hmust]
    unfold enqueue
    rw [← hset]
    rfl

/-! ## What a turn changes -/

/-- A transaction is registered. -/
def Registered (graph : WaitForGraph) (txnId : String) : Prop :=
  graph.transactionManager.getTransaction txnId ≠ none

instance (graph : WaitForGraph) (txnId : String) : Decidable (graph.Registered txnId) :=
  inferInstanceAs (Decidable (_ ≠ _))

theorem mem_queue : txnId ∈ graph.queue name ↔ (graph.resource name).txnsQ.find? txnId ≠ none := by
  unfold queue
  rw [List.mem_map, Option.ne_none_iff_exists']
  constructor
  · intro h
    obtain ⟨e, he, rfl⟩ := h
    exact ⟨e.2, SortedMap.find?_eq_some.mpr he⟩
  · intro h
    obtain ⟨u, hu⟩ := h
    exact ⟨(txnId, u), SortedMap.find?_eq_some.mp hu, rfl⟩

theorem nodup_queue (graph : WaitForGraph) (name : String) : (graph.queue name).Nodup := by
  unfold queue
  exact List.pairwise_map.mpr ((graph.resource name).txnsQ.sorted.imp fun h => h.ne)

theorem resource_enqueue :
    (graph.enqueue txnId element).resource name =
      if name = element.name then enqueued (graph.resource name) txnId element
      else graph.resource name := by
  unfold resource enqueue ResourceManager.set ResourceManager.getResource
  dsimp only
  rw [SortedMap.find?_insert]
  split
  · rename_i heq
    rw [heq]
    rfl
  · rfl

@[simp] theorem next_enqueue : (graph.enqueue txnId element).next w = graph.next w := rfl

@[simp] theorem resource_waitFor : (graph.waitFor txnId w).resource name = graph.resource name := rfl

theorem mem_queue_enqueue {x : String} :
    x ∈ (graph.enqueue txnId element).queue name ↔
      x ∈ graph.queue name ∨ (x = txnId ∧ name = element.name) := by
  rw [mem_queue, mem_queue, resource_enqueue]
  by_cases hname : name = element.name
  · rw [if_pos hname]
    unfold enqueued
    dsimp only
    rw [SortedMap.find?_insert]
    by_cases hx : x = txnId
    · simp [hx, hname]
    · simp [hx]
  · simp [hname]

theorem next_waitFor (hw : graph.Registered w) {x : String} :
    (graph.waitFor txnId w).next x = if x = w then some txnId else graph.next x := by
  obtain ⟨txn, htxn⟩ := Option.ne_none_iff_exists'.mp hw
  unfold next waitFor
  dsimp only
  rw [TransactionManager.getTransaction_update]
  split
  · rw [htxn]
    rfl
  · rfl

/-- What the loop over a queue comes to. -/
theorem firstNotWaitedFor_eq {ids : List String} (h : ∀ x ∈ ids, graph.Registered x) :
    (∃ w ∈ ids, graph.next w = none ∧
        firstNotWaitedFor graph.transactionManager ids = .ok (some w)) ∨
      (∀ x ∈ ids, graph.next x ≠ none) ∧
        firstNotWaitedFor graph.transactionManager ids = .ok none := by
  induction ids with
  | nil => exact .inr ⟨fun x hx => absurd hx List.not_mem_nil, rfl⟩
  | cons x ids ih =>
    obtain ⟨txn, htxn⟩ := Option.ne_none_iff_exists'.mp (h x List.mem_cons_self)
    have hnext : graph.next x = txn.waitedBy := by
      unfold next
      rw [htxn]
      rfl
    unfold firstNotWaitedFor
    rw [htxn]
    dsimp only
    cases hwaitedBy : txn.waitedBy with
    | none => exact .inl ⟨x, List.mem_cons_self, hnext.trans hwaitedBy, rfl⟩
    | some y =>
      rcases ih fun x' hx' => h x' (List.mem_cons_of_mem x hx') with ⟨w, hw, hfree, heq⟩ | ⟨hall, heq⟩
      · exact .inl ⟨w, List.mem_cons_of_mem x hw, hfree, heq⟩
      · refine .inr ⟨?_, heq⟩
        intro x' hx'
        rcases List.mem_cons.mp hx' with rfl | hx'
        · rw [hnext, hwaitedBy]
          simp
        · exact hall x' hx'

/-- **What one turn of the loop does**, where the queue holds registered transactions: the request
is put into the queue, and if it had to wait a transaction in the queue that nobody waited for is
waited for. -/
theorem addElement_cases (h : ∀ x ∈ graph.queue element.name, graph.Registered x)
    (hadd : graph.addElement txnId element = .ok graph') :
    (¬ graph.MustWait element.name ∧ graph' = graph.enqueue txnId element) ∨
      graph.MustWait element.name ∧ ∃ w ∈ graph.queue element.name, graph.next w = none ∧
        firstNotWaitedFor graph.transactionManager (graph.queue element.name) = .ok (some w) ∧
        graph' = (graph.waitFor txnId w).enqueue txnId element := by
  rw [addElement_eq] at hadd
  by_cases hmust : graph.MustWait element.name
  · rw [if_pos hmust] at hadd
    rcases firstNotWaitedFor_eq h with ⟨w, hw, hfree, heq⟩ | ⟨-, heq⟩
    · rw [heq] at hadd
      exact .inr ⟨hmust, w, hw, hfree, heq, (Except.ok.inj hadd).symm⟩
    · rw [heq] at hadd
      cases hadd
  · rw [if_neg hmust] at hadd
    exact .inl ⟨hmust, (Except.ok.inj hadd).symm⟩

/-- The assertion fails exactly where a request has to wait and everybody in the queue is waited
for. -/
theorem addElement_eq_error (h : ∀ x ∈ graph.queue element.name, graph.Registered x)
    {e : WaitForGraphError} :
    graph.addElement txnId element = .error e ↔ e = .noTransactionToWaitFor ∧
      graph.MustWait element.name ∧ ∀ x ∈ graph.queue element.name, graph.next x ≠ none := by
  rw [addElement_eq]
  by_cases hmust : graph.MustWait element.name
  · rw [if_pos hmust]
    rcases firstNotWaitedFor_eq h with ⟨w, hw, hfree, heq⟩ | ⟨hall, heq⟩
    · rw [heq]
      simp only [reduceCtorEq, false_iff, not_and]
      exact fun _ _ hall => hall w hw hfree
    · rw [heq]
      simp only [Except.error.injEq]
      exact ⟨fun he => ⟨he.symm, hmust, hall⟩, fun he => he.1.symm⟩
  · rw [if_neg hmust]
    simp [hmust]

end WaitForGraph

end ReplicatedCounter.MyDb.Experimental
