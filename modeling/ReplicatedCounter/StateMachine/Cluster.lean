import ReplicatedCounter.Lib.Parties
import ReplicatedCounter.Lib.SortedMap
import ReplicatedCounter.Lib.Transition
import ReplicatedCounter.Persistence.KVStoreLite
import ReplicatedCounter.StateMachine.Pipeline

/-!
# State machines over one log

`VirtualLog` is what the state machines use of `log/include/VirtualLog.h`, as a system of its own:
an `append` begins, the log does whatever it does, and at some point it can be seen to have returned
an id, an entry or a position. A `Cluster` is such a log with a `VirtualLogStateMachine` on each
node.

`AppendOnly` says what a log is supposed to be: each id has at most one entry, which never changes,
ids start at 1, and a read returns the entry of its id. `InMemoryFakeVirtualLog` is one.

An acknowledged id may be handed to any caller here, also to several; the log does not say whose
append it was.
-/

set_option autoImplicit false

namespace ReplicatedCounter.StateMachine

/-! ## Logs -/

/-- `durable_log::VirtualLog`. A `Sequencer` is what a client's `append` and `sync` go to, a `Call`
is a call of `getLogEntry`. -/
structure VirtualLog where
  State : Type
  Sequencer : Type
  Call : Type
  Event : Type
  append : State → Sequencer → String → Option State
  step : State → Event → Option State
  /-- An append at this sequencer has returned this id. -/
  acknowledged : State → Sequencer → Int → Bool
  getLogEntry : State → Call → Int → Option String
  sync : State → Sequencer → Option Int

/-- A log whose ids start at 1 and whose entries stay. -/
structure VirtualLog.AppendOnly (log : VirtualLog) (s₀ : log.State) where
  contents : log.State → Int → Option String
  Inv : log.State → Prop
  init : Inv s₀
  empty : ∀ l, contents s₀ l = none
  append : ∀ {s q payload s'}, Inv s → log.append s q payload = some s' →
    Inv s' ∧ ∃ l, contents s l = none ∧ contents s' = Function.update (contents s) l (some payload)
  step : ∀ {s e s'}, Inv s → log.step s e = some s' → Inv s' ∧ contents s' = contents s
  getLogEntry : ∀ {s c l payload}, Inv s → log.getLogEntry s c l = some payload →
    contents s l = some payload
  acknowledged : ∀ {s q l}, Inv s → log.acknowledged s q l = true →
    ∃ payload, contents s l = some payload
  one_le : ∀ {s l payload}, Inv s → contents s l = some payload → 1 ≤ l

/-! ## `applications/counter/test/InMemoryFakeVirtualLog.h` -/

/-- `InMemoryFakeVirtualLog`. -/
structure InMemoryFakeVirtualLog where
  logEntries : SortedMap Int String := .empty
  logId : Int := 1

namespace InMemoryFakeVirtualLog

def append (s : InMemoryFakeVirtualLog) (logEntryPayload : String) : InMemoryFakeVirtualLog where
  logEntries := s.logEntries.insert s.logId logEntryPayload
  logId := s.logId + 1

def getLogEntry (s : InMemoryFakeVirtualLog) (logId : Int) : Option String :=
  s.logEntries.find? logId

def sync (s : InMemoryFakeVirtualLog) : Int := s.logId

end InMemoryFakeVirtualLog

/-- Its calls return at once, so an id has been acknowledged as soon as its entry is there. -/
def inMemoryFakeVirtualLog : VirtualLog where
  State := InMemoryFakeVirtualLog
  Sequencer := Unit
  Call := Unit
  Event := Empty
  append s _ payload := some (s.append payload)
  step _ e := nomatch e
  acknowledged s _ l := (s.logEntries.find? l).isSome
  getLogEntry s _ l := s.getLogEntry l
  sync s _ := some s.sync

def inMemoryFakeVirtualLog.appendOnly :
    inMemoryFakeVirtualLog.AppendOnly ({} : InMemoryFakeVirtualLog) where
  contents s := s.logEntries.find?
  Inv s := 1 ≤ s.logId ∧ ∀ l payload, s.logEntries.find? l = some payload → 1 ≤ l ∧ l < s.logId
  init := ⟨le_refl _, fun l payload h => absurd h (by simp)⟩
  empty l := rfl
  append {s q payload s'} h hs := by
    obtain rfl := Option.some.inj hs
    have hfind : ∀ l, (InMemoryFakeVirtualLog.append s payload).logEntries.find? l =
        Function.update s.logEntries.find? s.logId (some payload) l := by
      intro l
      rw [Function.update_apply]
      exact SortedMap.find?_insert
    refine ⟨⟨h.1.trans (Int.le_add_one (le_refl _)), fun l p hl => ?_⟩, s.logId, ?_, funext hfind⟩
    · rw [hfind, Function.update_apply] at hl
      split at hl
      · rename_i heq
        exact ⟨heq ▸ h.1, heq ▸ Int.lt_succ _⟩
      · exact ⟨(h.2 l p hl).1, (h.2 l p hl).2.trans (Int.lt_succ _)⟩
    · cases hold : s.logEntries.find? s.logId with
      | none => rfl
      | some p => exact absurd (h.2 _ p hold).2 (lt_irrefl _)
  step {s e s'} := nomatch e
  getLogEntry _ h := h
  acknowledged _ h := Option.isSome_iff_exists.mp h
  one_le h hl := (h.2 _ _ hl).1

/-! ## Clusters -/

/-- A log, the nodes, and the position that the log has told a call of `sync`. -/
structure Cluster (log : VirtualLog) (ι υ T R : Type) where
  virtualLog : log.State
  nodes : ι → VirtualLogStateMachine υ T R
  positions : ι × Waiter → Option Int := fun _ => none

/-- What can happen. A fetch without a call is one that failed. -/
inductive ClusterEvent (log : VirtualLog) (ι T : Type) where
  | append (q : log.Sequencer) (t : T)
  | log (e : log.Event)
  | appended (i : ι) (c : Waiter) (q : log.Sequencer) (logId : Int)
  | sync (i : ι) (c : Waiter) (q : log.Sequencer)
  | synced (i : ι) (c : Waiter)
  | wake (i : ι)
  | enqueue (i : ι)
  | fetched (i : ι) (logId : Int) (call : Option log.Call)
  | consume (i : ι)
  | apply (i : ι)

namespace Cluster

variable {log : VirtualLog} {ι υ T R : Type} [DecidableEq ι]

/-- Machines built with the default `lastAppliedLogId`. -/
def start (virtualLog : log.State) (upstream : ι → υ) : Cluster log ι υ T R where
  virtualLog
  nodes i := .make (upstream i)

def setNode (s : Cluster log ι υ T R) (i : ι) (m : VirtualLogStateMachine υ T R) :
    Cluster log ι υ T R :=
  { s with nodes := Function.update s.nodes i m }

/-- A node moves. -/
def move (up : υ → T → υ × Except String R) (s : Cluster log ι υ T R) (i : ι) (e : Event T) :
    Option (Cluster log ι υ T R) :=
  ((s.nodes i).step up e).map (s.setNode i)

/-- What a fetch comes back with: the entry, if there is one and it can be parsed. -/
def fetch (codec : Codec T String) (s : Cluster log ι υ T R) (call : Option log.Call)
    (logId : Int) : Option T := do
  let call ← call
  let payload ← log.getLogEntry s.virtualLog call logId
  codec.parse payload

def step (up : υ → T → υ × Except String R) (codec : Codec T String) (s : Cluster log ι υ T R) :
    ClusterEvent log ι T → Option (Cluster log ι υ T R)
  | .append q t =>
    (log.append s.virtualLog q (codec.serialize t)).map fun virtualLog => { s with virtualLog }
  | .log e => (log.step s.virtualLog e).map fun virtualLog => { s with virtualLog }
  | .appended i c q logId =>
    if log.acknowledged s.virtualLog q logId ∧ s.positions (i, c) = none then
      s.move up i (.appended c logId)
    else
      none
  | .sync i c q =>
    if (s.nodes i).Fresh c ∧ s.positions (i, c) = none then
      (log.sync s.virtualLog q).map fun position =>
        { s with positions := Function.update s.positions (i, c) (some position) }
    else
      none
  | .synced i c => (s.positions (i, c)).bind fun position => s.move up i (.synced c position)
  | .wake i => s.move up i .wake
  | .enqueue i => s.move up i .enqueue
  | .fetched i logId call => s.move up i (.fetched logId (s.fetch codec call logId))
  | .consume i => s.move up i .consume
  | .apply i => s.move up i .apply

variable {up : υ → T → υ × Except String R} {codec : Codec T String} {s s' : Cluster log ι υ T R}
  {e : ClusterEvent log ι T} {es : List (ClusterEvent log ι T)}

/-- What a node may be told in a state of the cluster. -/
inductive Hears (codec : Codec T String) (s : Cluster log ι υ T R) (i : ι) :
    ClusterEvent log ι T → Event T → Prop where
  | appended (c : Waiter) (q : log.Sequencer) (logId : Int)
      (hack : log.acknowledged s.virtualLog q logId = true) (hnone : s.positions (i, c) = none) :
      Hears codec s i (.appended i c q logId) (.appended c logId)
  | synced (c : Waiter) (position : Int) (hposition : s.positions (i, c) = some position) :
      Hears codec s i (.synced i c) (.synced c position)
  | wake : Hears codec s i (.wake i) .wake
  | enqueue : Hears codec s i (.enqueue i) .enqueue
  | fetched (logId : Int) (call : Option log.Call) :
      Hears codec s i (.fetched i logId call) (.fetched logId (s.fetch codec call logId))
  | consume : Hears codec s i (.consume i) .consume
  | apply : Hears codec s i (.apply i) .apply

/-- Everything a step of the cluster can do. -/
inductive Step (up : υ → T → υ × Except String R) (codec : Codec T String)
    (s : Cluster log ι υ T R) : ClusterEvent log ι T → Cluster log ι υ T R → Prop where
  | append (q : log.Sequencer) (t : T) (virtualLog : log.State)
      (happend : log.append s.virtualLog q (codec.serialize t) = some virtualLog) :
      Step up codec s (.append q t) { s with virtualLog }
  | log (e : log.Event) (virtualLog : log.State) (hlog : log.step s.virtualLog e = some virtualLog) :
      Step up codec s (.log e) { s with virtualLog }
  | sync (i : ι) (c : Waiter) (q : log.Sequencer) (position : Int) (hfresh : (s.nodes i).Fresh c)
      (hnone : s.positions (i, c) = none) (hsync : log.sync s.virtualLog q = some position) :
      Step up codec s (.sync i c q)
        { s with positions := Function.update s.positions (i, c) (some position) }
  | node (i : ι) (e : ClusterEvent log ι T) (e' : Event T) (m : VirtualLogStateMachine υ T R)
      (hhears : s.Hears codec i e e') (halive : (s.nodes i).aborted = false)
      (hnode : VirtualLogStateMachine.Step up (s.nodes i) e' m) :
      Step up codec s e (s.setNode i m)

theorem step_of_move {i : ι} {e' : Event T} (hhears : s.Hears codec i e e')
    (hs : s.move up i e' = some s') : Step up codec s e s' := by
  obtain ⟨m, hm, rfl⟩ := Option.map_eq_some_iff.mp hs
  obtain ⟨halive, hnode⟩ := VirtualLogStateMachine.step_spec hm
  exact .node i e e' m hhears halive hnode

/-- **The inversion of `step`.** -/
theorem step_spec (hs : s.step up codec e = some s') : Step up codec s e s' := by
  cases e with
  | append q t =>
    obtain ⟨virtualLog, happend, rfl⟩ := Option.map_eq_some_iff.mp hs
    exact .append q t virtualLog happend
  | log e =>
    obtain ⟨virtualLog, hlog, rfl⟩ := Option.map_eq_some_iff.mp hs
    exact .log e virtualLog hlog
  | appended i c q logId =>
    obtain ⟨⟨hack, hnone⟩, hs⟩ := Option.ite_none_right_eq_some.mp hs
    exact step_of_move (.appended c q logId hack hnone) hs
  | sync i c q =>
    obtain ⟨⟨hfresh, hnone⟩, hs⟩ := Option.ite_none_right_eq_some.mp hs
    obtain ⟨position, hsync, rfl⟩ := Option.map_eq_some_iff.mp hs
    exact .sync i c q position hfresh hnone hsync
  | synced i c =>
    obtain ⟨position, hposition, hs⟩ := Option.bind_eq_some_iff.mp hs
    exact step_of_move (.synced c position hposition) hs
  | wake i => exact step_of_move .wake hs
  | enqueue i => exact step_of_move .enqueue hs
  | fetched i logId call => exact step_of_move (.fetched logId call) hs
  | consume i => exact step_of_move .consume hs
  | apply i => exact step_of_move .apply hs

/-- **What every step of a machine keeps, the cluster keeps on every node.** -/
theorem nodes_invariant {P : VirtualLogStateMachine υ T R → Prop} {i : ι}
    (hstep : ∀ m e' m', P m → m.aborted = false → VirtualLogStateMachine.Step up m e' m' → P m')
    (hs : Step up codec s e s') (h : P (s.nodes i)) : P (s'.nodes i) := by
  cases hs with
  | append q t virtualLog _ => exact h
  | log e virtualLog _ => exact h
  | sync j c q position _ _ _ => exact h
  | node j _ e' m hhears halive hnode =>
    by_cases hj : i = j
    · subst hj
      show P (Function.update s.nodes i m i)
      rw [Function.update_self]
      exact hstep _ e' m h halive hnode
    · show P (Function.update s.nodes j m i)
      rw [Function.update_of_ne hj]
      exact h

end Cluster

end ReplicatedCounter.StateMachine
