import ReplicatedCounter.Lib.Lockstep
import ReplicatedCounter.Paxos.Register

/-!
# `PaxosWriteOnceRegister` against `InMemoryWriteOnceRegister`

Both implement `wor/include/WriteOnceRegister.h`, and one test suite is run on both. Here they are
called one call after the other, with any lock ids and payloads. The Paxos register has a
`ProposerImpl` with `majoritySize = N` over `N` acceptors that always answer, so each call of the
register is run to its end: it is a coroutine over the register and the stores of its acceptors.

The two do not agree on every sequence of calls. A lock id is a ballot number for the one and has
to be the current one for the other:

* before the first `lock()` the in-memory register is at lock id 0, and `write(0, …)` succeeds;
* an acceptor takes any ballot that is not below its promise, so a `write` with an id above the last
  lock is accepted, committed, and stands in the way of the next `lock()`;
* a second `write` under the lock id that committed is accepted once more. It answers `false`, and
  **it replaces the committed value**.

`WithinLocks` excludes these. Apart from them the registers give the same answers to everything
(`paxos_refines_inMemory`): all acceptors always hold the same instance, and that instance is the
in-memory register.
-/

set_option autoImplicit false

namespace ReplicatedCounter.Paxos

/-! ## `wor/include/WriteOnceRegister.h` -/

/-- `WriteOnceRegister::ReadError`. -/
inductive ReadError where
  | unknown
  | notWritten
  deriving DecidableEq, Repr

/-- A call of a register. -/
inductive RegisterCall where
  | lock
  | write (lockId : Int) (payload : String)
  | read
  deriving DecidableEq, Repr

/-- What it returns. -/
inductive RegisterAnswer where
  | locked (lockId : Option Int)
  | written (result : Bool)
  | value (value : Except ReadError String)
  deriving DecidableEq

/-! ## `wor/inmemory/InMemoryWriteOnceRegister.h` -/

structure InMemoryWriteOnceRegister where
  lockId : Int := 0
  committed : Bool := false
  payload : String := ""
  deriving DecidableEq, Repr

namespace InMemoryWriteOnceRegister

def lock (m : InMemoryWriteOnceRegister) : InMemoryWriteOnceRegister × Option Int :=
  ({ m with lockId := m.lockId + 1 }, some (m.lockId + 1))

def write (m : InMemoryWriteOnceRegister) (lockId : Int) (payload : String) :
    InMemoryWriteOnceRegister × Bool :=
  if !m.committed ∧ lockId = m.lockId then
    ({ m with payload := payload, committed := true }, true)
  else
    (m, false)

def read (m : InMemoryWriteOnceRegister) : Except ReadError String :=
  if m.committed then .ok m.payload else .error .notWritten

def step (m : InMemoryWriteOnceRegister) :
    RegisterCall → InMemoryWriteOnceRegister × Except AcceptorError RegisterAnswer
  | .lock => let (m, lockId) := m.lock; (m, .ok (.locked lockId))
  | .write lockId payload => let (m, result) := m.write lockId payload; (m, .ok (.written result))
  | .read => (m, .ok (.value m.read))

end InMemoryWriteOnceRegister

/-! ## `wor/paxos/PaxosWriteOnceRegister.h` -/

/-- A register, its proposer, and the stores of its acceptors. -/
structure PaxosWriteOnceRegister (A κ : Type) where
  majorId : Int
  lockId : Int := 0
  proposer : ProposerImpl A
  stores : A → κ

variable {A κ β α : Type} [DecidableEq A] [KVStoreLite κ β]

/-- `ProposerImpl` with `majoritySize = N` over the `N` acceptors. -/
def PaxosWriteOnceRegister.make (registerId : Int) (acceptors : List A) (stores : A → κ) :
    PaxosWriteOnceRegister A κ where
  majorId := registerId
  proposer := { majority := acceptors.length, prepareAcceptors := acceptors }
  stores

/-- A coroutine of the register. -/
abbrev RegisterM (A κ : Type) := Coro AcceptorError (PaxosWriteOnceRegister A κ)

/-- A call of one acceptor. -/
def call (a : A) (m : AcceptorM κ α) : RegisterM A κ α := do
  let s ← getThe (PaxosWriteOnceRegister A κ)
  let (result, kv) := Coro.exec m (s.stores a)
  set { s with stores := Function.update s.stores a kv }
  match result with
  | .ok x => return x
  | .error e => throw e

/-- The same call of each of some acceptors. -/
def callEach (m : AcceptorM κ α) : List A → RegisterM A κ (List α)
  | [] => return []
  | a :: acceptors => do
    let x ← call a m
    let xs ← callEach m acceptors
    return x :: xs

/-- Replace the proposer. -/
def setProposer (proposer : ProposerImpl A) : RegisterM A κ Unit :=
  modify fun s => { s with proposer }

namespace ProposerImpl

variable (codec : Codec PaxosInstance β)

/-- `ProposerImpl::prepare`; nobody times out. -/
def prepare (paxosInstanceId : String) (ballotId : BallotId) : RegisterM A κ Bool := do
  let s ← getThe (PaxosWriteOnceRegister A κ)
  let p := { s.proposer with proposeAcceptors := [] }
  setProposer p
  let prepares ← callEach (LocalAcceptor.prepare codec paxosInstanceId ballotId) p.prepareAcceptors
  let (p, result) := p.finishPrepare (prepares.map some)
  setProposer p
  return result

/-- `ProposerImpl::propose`. -/
def propose (paxosInstanceId : String) (ballotId : BallotId) (value : String) :
    RegisterM A κ Bool := do
  let s ← getThe (PaxosWriteOnceRegister A κ)
  let proposal : Proposal := { ballotId, value := s.proposer.proposalValue value }
  let accepts ← callEach (LocalAcceptor.accept codec paxosInstanceId proposal)
    s.proposer.proposeAcceptors
  if accepts.count true < s.proposer.majority then
    return false
  let commits ← callEach (LocalAcceptor.commit codec paxosInstanceId ballotId)
    s.proposer.proposeAcceptors
  return commits.any id

/-- The loop of `ProposerImpl::getCommittedValue`. -/
def firstCommitted (paxosInstanceId : String) : List A → RegisterM A κ (Option String)
  | [] => return none
  | a :: acceptors => do
    match ← call a (LocalAcceptor.getCommittedValue codec paxosInstanceId) with
    | some committedValue => return some committedValue
    | none => firstCommitted paxosInstanceId acceptors

end ProposerImpl

namespace PaxosWriteOnceRegister

variable (codec : Codec PaxosInstance β)

def lock : RegisterM A κ (Option Int) := do
  modify fun s => { s with lockId := s.lockId + 1 }
  let s ← getThe (PaxosWriteOnceRegister A κ)
  let result ← ProposerImpl.prepare codec (instanceId s.majorId) ⟨s.majorId, s.lockId⟩
  if !result then
    return none
  return some s.lockId

def write (lockId : Int) (payload : String) : RegisterM A κ Bool := do
  let s ← getThe (PaxosWriteOnceRegister A κ)
  ProposerImpl.propose codec (instanceId s.majorId) ⟨s.majorId, lockId⟩ payload

def read : RegisterM A κ (Except ReadError String) := do
  let s ← getThe (PaxosWriteOnceRegister A κ)
  match ← ProposerImpl.firstCommitted codec (instanceId s.majorId) s.proposer.prepareAcceptors with
  | some committedValue => return .ok committedValue
  | none => return .error .notWritten

/-- A call, run to its end. -/
def step (s : PaxosWriteOnceRegister A κ) (c : RegisterCall) :
    PaxosWriteOnceRegister A κ × Except AcceptorError RegisterAnswer :=
  let answer : RegisterM A κ RegisterAnswer :=
    match c with
    | .lock => do return .locked (← lock codec)
    | .write lockId payload => do return .written (← write codec lockId payload)
    | .read => do return .value (← read codec)
  ((Coro.exec answer s).2, (Coro.exec answer s).1)

end PaxosWriteOnceRegister

/-! ## Acceptors that agree -/

open LocalAcceptor

/-- These acceptors all hold the instance `i`. -/
def AllHold (codec : Codec PaxosInstance β) (registerId : String) (stores : A → κ) (acceptors : List A)
    (i : PaxosInstance) : Prop :=
  ∀ a ∈ acceptors, WellFormed codec (stores a) ∧ instanceOf codec (stores a) registerId = i

/-- Every other register is where it was, whoever the acceptor. -/
def OthersKept (codec : Codec PaxosInstance β) (registerId : String) (stores stores' : A → κ) : Prop :=
  ∀ a id, id ≠ registerId → instanceOf codec (stores' a) id = instanceOf codec (stores a) id

variable {codec : Codec PaxosInstance β} {registerId : String} {s : PaxosWriteOnceRegister A κ}
  {acceptors : List A} {i i' : PaxosInstance} {b : BallotId}

omit [DecidableEq A] in
theorem OthersKept.refl (stores : A → κ) : OthersKept codec registerId stores stores :=
  fun _ _ _ => rfl

omit [DecidableEq A] in
theorem OthersKept.trans {stores stores' stores'' : A → κ}
    (h : OthersKept codec registerId stores stores')
    (h' : OthersKept codec registerId stores' stores'') :
    OthersKept codec registerId stores stores'' :=
  fun a id hne => (h' a id hne).trans (h a id hne)

theorem OthersKept.update {stores : A → κ} {a : A} {kv : κ}
    (h : Updates codec (stores a) kv registerId i) :
    OthersKept codec registerId stores (Function.update stores a kv) := by
  intro a' id hne
  by_cases heq : a' = a
  · rw [heq, Function.update_self]
    exact h.other id hne
  · rw [Function.update_of_ne heq]

omit [DecidableEq A] in
/-- What the acceptors hold for one register, after a call of another. -/
theorem AllHold.kept {id : String} {stores stores' : A → κ}
    (h : AllHold codec id stores acceptors i) (h' : AllHold codec registerId stores' acceptors i')
    (hkept : OthersKept codec registerId stores stores') (hne : id ≠ registerId) :
    AllHold codec id stores' acceptors i := by
  intro a ha
  refine ⟨(h' a ha).1, ?_⟩
  rw [hkept a id hne]
  exact (h a ha).2

theorem exec_call (a : A) (m : AcceptorM κ α) (s : PaxosWriteOnceRegister A κ) :
    Coro.exec (call a m) s = ((Coro.exec m (s.stores a)).1,
      { s with stores := Function.update s.stores a (Coro.exec m (s.stores a)).2 }) := by
  unfold call
  rw [Coro.exec_bind_ok (Coro.exec_getThe _)]
  rcases Coro.exec m (s.stores a) with ⟨result, kv⟩
  cases result with
  | ok x => rfl
  | error e => rfl

/-- A call that takes `i` to `i'` and answers `x`, made of each of them. -/
theorem exec_callEach {m : AcceptorM κ α} {x : α}
    (hm : ∀ kv, WellFormed codec kv → instanceOf codec kv registerId = i →
      ∃ kv', Coro.exec m kv = (.ok x, kv') ∧ Updates codec kv kv' registerId i')
    (hnodup : acceptors.Nodup) (hall : AllHold codec registerId s.stores acceptors i) :
    ∃ stores, Coro.exec (callEach m acceptors) s =
        (.ok (acceptors.map fun _ => x), { s with stores }) ∧
      AllHold codec registerId stores acceptors i' ∧ OthersKept codec registerId s.stores stores ∧
      ∀ a ∉ acceptors, stores a = s.stores a := by
  induction acceptors generalizing s with
  | nil => exact ⟨s.stores, rfl, fun a ha => absurd ha List.not_mem_nil, .refl _, fun _ _ => rfl⟩
  | cons a acceptors ih =>
    obtain ⟨hnot, hnodup⟩ := List.nodup_cons.mp hnodup
    obtain ⟨hwell, hinstance⟩ := hall a List.mem_cons_self
    obtain ⟨kv', hexec, hupdates⟩ := hm _ hwell hinstance
    have hcall : Coro.exec (call a m) s =
        (.ok x, { s with stores := Function.update s.stores a kv' }) := by
      rw [exec_call, hexec]
    -- the first acceptor is not called again, and the others have not been called yet
    have hrest : AllHold codec registerId (Function.update s.stores a kv') acceptors i := by
      intro a' ha'
      have hne : a' ≠ a := fun heq => hnot (heq ▸ ha')
      rw [Function.update_of_ne hne]
      exact hall a' (List.mem_cons_of_mem _ ha')
    obtain ⟨stores, heach, hhold, hkept, hother⟩ :=
      ih (s := { s with stores := Function.update s.stores a kv' }) hnodup hrest
    refine ⟨stores, ?_, fun a' ha' => ?_, (OthersKept.update hupdates).trans hkept,
      fun a' ha' => ?_⟩
    · unfold callEach
      rw [Coro.exec_bind_ok hcall, Coro.exec_bind_ok heach]
      rfl
    · rcases List.mem_cons.mp ha' with rfl | ha'
      · rw [hother a' hnot]
        dsimp only
        rw [Function.update_self]
        exact ⟨hupdates.wellFormed, hupdates.same⟩
      · exact hhold a' ha'
    · have hne : a' ≠ a := fun heq => ha' (heq ▸ List.mem_cons_self)
      rw [hother a' fun h => ha' (List.mem_cons_of_mem _ h)]
      exact Function.update_of_ne hne ..

/-! ## One spec per call of the proposer -/

section

omit [DecidableEq A]

theorem promisesOf_const (acceptors : List A) (promise : Promise) :
    promisesOf acceptors ((acceptors.map fun _ => PrepareResponse.promise promise).map some) =
      acceptors.map fun a => (a, promise) := by
  induction acceptors with
  | nil => rfl
  | cons a acceptors ih =>
    unfold promisesOf at ih ⊢
    rw [List.map_cons, List.map_cons, List.zip_cons_cons, List.filterMap_cons, ih]
    rfl

theorem proposalsOf_const (acceptors : List A) (promise : Promise) :
    proposalsOf (acceptors.map fun a => (a, promise)) =
      match promise.value with
      | none => []
      | some value => acceptors.map fun _ => { ballotId := promise.ballotId.getD {}, value } := by
  unfold proposalsOf
  rw [List.filterMap_map]
  cases hvalue : promise.value with
  | none =>
    rw [List.filterMap_eq_nil_iff]
    intro a _
    simp [hvalue]
  | some value =>
    dsimp only
    rw [← List.filterMap_eq_map]
    refine congrArg (List.filterMap · acceptors) (funext fun a => ?_)
    simp [hvalue]

theorem selectProposal_const {p : Proposal} (hne : acceptors ≠ []) :
    selectProposal (acceptors.map fun _ => p) = some p := by
  cases hselect : selectProposal (acceptors.map fun _ => p) with
  | none => exact absurd (List.map_eq_nil_iff.mp (selectProposal_eq_none hselect)) hne
  | some q =>
    obtain ⟨a, -, rfl⟩ := List.mem_map.mp (selectProposal_eq_some hselect).1
    rfl

/-- The proposal that a promise of `i` carries. -/
def carried (i : PaxosInstance) : Option Proposal :=
  match i.accepted with
  | none => none
  | some promise => promise.value.map fun value => { ballotId := promise.ballotId.getD {}, value }

/-- All promise, and all carry what `i` has accepted. -/
theorem finishPrepare_const {p : ProposerImpl A} (hmajority : p.majority = p.prepareAcceptors.length)
    (hne : p.prepareAcceptors ≠ []) (i : PaxosInstance) (b : BallotId) :
    p.finishPrepare ((p.prepareAcceptors.map fun _ =>
        PrepareResponse.promise (i.accepted.getD { ballotId := some b })).map some) =
      ({ p with proposeAcceptors := p.prepareAcceptors, selectedProposal := carried i }, true) := by
  have hselected : selectProposal (proposalsOf (p.prepareAcceptors.map fun a =>
      (a, i.accepted.getD { ballotId := some b }))) = carried i := by
    rw [proposalsOf_const]
    unfold carried
    cases i.accepted with
    | none => rfl
    | some promise =>
      dsimp only [Option.getD_some]
      cases promise.value with
      | none => rfl
      | some value => exact selectProposal_const hne
  have hacceptors : p.prepareAcceptors.map ((·.1) ∘ fun a =>
      (a, i.accepted.getD { ballotId := some b })) = p.prepareAcceptors := List.map_id _
  unfold ProposerImpl.finishPrepare
  dsimp only
  rw [promisesOf_const, List.length_map, hmajority, if_neg (Nat.lt_irrefl _), hselected,
    List.map_map, hacceptors]

end

variable [LawfulKVStoreLite κ β]

/-- **`prepare`** above the promise: everybody promises, and what they had accepted is selected. -/
theorem exec_prepare (hmajority : s.proposer.majority = s.proposer.prepareAcceptors.length)
    (hne : s.proposer.prepareAcceptors ≠ []) (hnodup : s.proposer.prepareAcceptors.Nodup)
    (hall : AllHold codec registerId s.stores s.proposer.prepareAcceptors i)
    (hlt : i.promisedBallotId < b) :
    ∃ stores, Coro.exec (ProposerImpl.prepare codec registerId b) s =
        (.ok true, { s with
          proposer := { s.proposer with
            proposeAcceptors := s.proposer.prepareAcceptors, selectedProposal := carried i }
          stores }) ∧
      AllHold codec registerId stores s.proposer.prepareAcceptors { i with promisedBallotId := b } ∧
      OthersKept codec registerId s.stores stores := by
  have hm : ∀ kv : κ, WellFormed codec kv → instanceOf codec kv registerId = i → ∃ kv',
      Coro.exec (LocalAcceptor.prepare codec registerId b) kv =
        (.ok (.promise (i.accepted.getD { ballotId := some b })), kv') ∧
      Updates codec kv kv' registerId { i with promisedBallotId := b } := by
    rintro kv hwell rfl
    obtain ⟨response, kv', hexec, ⟨hle, -⟩ | ⟨-, rfl, hupdates⟩⟩ := prepare_spec hwell registerId b
    · exact absurd hlt (not_lt.mpr hle)
    · exact ⟨kv', hexec, hupdates⟩
  obtain ⟨stores, heach, hhold, hkept, -⟩ := exec_callEach
    (s := { s with proposer := { s.proposer with proposeAcceptors := [] } }) hm hnodup hall
  refine ⟨stores, ?_, hhold, hkept⟩
  have hclear : Coro.exec (setProposer { s.proposer with proposeAcceptors := [] } :
      RegisterM A κ Unit) s =
        (.ok (), { s with proposer := { s.proposer with proposeAcceptors := [] } }) := rfl
  unfold ProposerImpl.prepare
  rw [Coro.exec_bind_ok (Coro.exec_getThe _)]
  dsimp only
  rw [Coro.exec_bind_ok hclear, Coro.exec_bind_ok heach]
  have hfinish := finishPrepare_const
    (p := { s.proposer with proposeAcceptors := [] }) hmajority hne i b
  dsimp only at hfinish
  rw [hfinish]
  rfl

/-- **`prepare`** at or below the promise: nobody promises, and what was selected before stays. -/
theorem exec_prepare_refused (hmajority : 0 < s.proposer.majority)
    (hnodup : s.proposer.prepareAcceptors.Nodup)
    (hall : AllHold codec registerId s.stores s.proposer.prepareAcceptors i)
    (hle : b ≤ i.promisedBallotId) :
    ∃ stores, Coro.exec (ProposerImpl.prepare codec registerId b) s =
        (.ok false, { s with proposer := { s.proposer with proposeAcceptors := [] }, stores }) ∧
      AllHold codec registerId stores s.proposer.prepareAcceptors i ∧
      OthersKept codec registerId s.stores stores := by
  have hm : ∀ kv : κ, WellFormed codec kv → instanceOf codec kv registerId = i → ∃ kv',
      Coro.exec (LocalAcceptor.prepare codec registerId b) kv = (.ok .rejected, kv') ∧
      Updates codec kv kv' registerId i := by
    intro kv hwell hinstance
    subst hinstance
    obtain ⟨response, kv', hexec, ⟨-, rfl, hupdates⟩ | ⟨hlt, -⟩⟩ := prepare_spec hwell registerId b
    · exact ⟨kv', hexec, hupdates⟩
    · exact absurd hle (not_le.mpr hlt)
  obtain ⟨stores, heach, hhold, hkept, -⟩ := exec_callEach
    (s := { s with proposer := { s.proposer with proposeAcceptors := [] } }) hm hnodup hall
  refine ⟨stores, ?_, hhold, hkept⟩
  have hclear : Coro.exec (setProposer { s.proposer with proposeAcceptors := [] } :
      RegisterM A κ Unit) s =
        (.ok (), { s with proposer := { s.proposer with proposeAcceptors := [] } }) := rfl
  have hnobody : ∀ acceptors : List A, promisesOf acceptors
      ((acceptors.map fun _ => PrepareResponse.rejected).map some) = [] := by
    intro acceptors
    induction acceptors with
    | nil => rfl
    | cons a acceptors ih => exact ih
  have hfinish : ProposerImpl.finishPrepare { s.proposer with proposeAcceptors := [] }
      ((s.proposer.prepareAcceptors.map fun _ => PrepareResponse.rejected).map some) =
        ({ s.proposer with proposeAcceptors := [] }, false) := by
    unfold ProposerImpl.finishPrepare
    dsimp only
    rw [hnobody, List.length_nil, if_pos hmajority]
    rfl
  unfold ProposerImpl.prepare
  rw [Coro.exec_bind_ok (Coro.exec_getThe _)]
  dsimp only
  rw [Coro.exec_bind_ok hclear, Coro.exec_bind_ok heach, hfinish]
  rfl

/-- **`lock()`** above the promise. -/
theorem exec_lock (hmajority : s.proposer.majority = s.proposer.prepareAcceptors.length)
    (hne : s.proposer.prepareAcceptors ≠ []) (hnodup : s.proposer.prepareAcceptors.Nodup)
    (hall : AllHold codec (instanceId s.majorId) s.stores s.proposer.prepareAcceptors i)
    (hlt : i.promisedBallotId < ⟨s.majorId, s.lockId + 1⟩) :
    ∃ stores, Coro.exec (PaxosWriteOnceRegister.lock codec) s = (.ok (some (s.lockId + 1)), { s with
          lockId := s.lockId + 1
          proposer := { s.proposer with
            proposeAcceptors := s.proposer.prepareAcceptors, selectedProposal := carried i }
          stores }) ∧
      AllHold codec (instanceId s.majorId) stores s.proposer.prepareAcceptors
        { i with promisedBallotId := ⟨s.majorId, s.lockId + 1⟩ } ∧
      OthersKept codec (instanceId s.majorId) s.stores stores := by
  obtain ⟨stores, hexec, hhold, hkept⟩ := exec_prepare (s := { s with lockId := s.lockId + 1 })
    (b := ⟨s.majorId, s.lockId + 1⟩) hmajority hne hnodup hall hlt
  refine ⟨stores, ?_, hhold, hkept⟩
  have hmodify : Coro.exec (modify fun s => { s with lockId := s.lockId + 1 } :
      RegisterM A κ PUnit) s = (.ok (), { s with lockId := s.lockId + 1 }) := rfl
  unfold PaxosWriteOnceRegister.lock
  rw [Coro.exec_bind_ok hmodify, Coro.exec_bind_ok (Coro.exec_getThe _)]
  dsimp only
  rw [Coro.exec_bind_ok hexec]
  rfl

/-- **`lock()`** at or below the promise. The lock id is used up. -/
theorem exec_lock_refused (hmajority : 0 < s.proposer.majority)
    (hnodup : s.proposer.prepareAcceptors.Nodup)
    (hall : AllHold codec (instanceId s.majorId) s.stores s.proposer.prepareAcceptors i)
    (hle : ⟨s.majorId, s.lockId + 1⟩ ≤ i.promisedBallotId) :
    ∃ stores, Coro.exec (PaxosWriteOnceRegister.lock codec) s = (.ok none, { s with
          lockId := s.lockId + 1
          proposer := { s.proposer with proposeAcceptors := [] }
          stores }) ∧
      AllHold codec (instanceId s.majorId) stores s.proposer.prepareAcceptors i ∧
      OthersKept codec (instanceId s.majorId) s.stores stores := by
  obtain ⟨stores, hexec, hhold, hkept⟩ := exec_prepare_refused
    (s := { s with lockId := s.lockId + 1 }) hmajority hnodup hall hle
  refine ⟨stores, ?_, hhold, hkept⟩
  have hmodify : Coro.exec (modify fun s => { s with lockId := s.lockId + 1 } :
      RegisterM A κ PUnit) s = (.ok (), { s with lockId := s.lockId + 1 }) := rfl
  unfold PaxosWriteOnceRegister.lock
  rw [Coro.exec_bind_ok hmodify, Coro.exec_bind_ok (Coro.exec_getThe _)]
  dsimp only
  rw [Coro.exec_bind_ok hexec]
  rfl

/-- **`propose`** below the promise: everybody refuses, and nothing changes. -/
theorem exec_propose_refused (value : String)
    (hmajority : s.proposer.majority = s.proposer.proposeAcceptors.length)
    (hne : s.proposer.proposeAcceptors ≠ []) (hnodup : s.proposer.proposeAcceptors.Nodup)
    (hall : AllHold codec registerId s.stores s.proposer.proposeAcceptors i)
    (hlt : b < i.promisedBallotId) :
    ∃ stores, Coro.exec (ProposerImpl.propose codec registerId b value) s =
        (.ok false, { s with stores }) ∧
      AllHold codec registerId stores s.proposer.proposeAcceptors i ∧
      OthersKept codec registerId s.stores stores := by
  have hm : ∀ kv : κ, WellFormed codec kv → instanceOf codec kv registerId = i → ∃ kv',
      Coro.exec (LocalAcceptor.accept codec registerId
        { ballotId := b, value := s.proposer.proposalValue value }) kv = (.ok false, kv') ∧
      Updates codec kv kv' registerId i := by
    rintro kv hwell rfl
    obtain ⟨result, kv', hexec, ⟨-, rfl, hupdates⟩ | ⟨hle, -⟩⟩ := accept_spec hwell registerId
      { ballotId := b, value := s.proposer.proposalValue value }
    · exact ⟨kv', hexec, hupdates⟩
    · exact absurd hlt (not_lt.mpr hle)
  obtain ⟨stores, heach, hhold, hkept, -⟩ := exec_callEach hm hnodup hall
  refine ⟨stores, ?_, hhold, hkept⟩
  have hcount : (s.proposer.proposeAcceptors.map fun _ => false).count true = 0 := by
    simp [List.count_eq_zero]
  unfold ProposerImpl.propose
  rw [Coro.exec_bind_ok (Coro.exec_getThe _)]
  dsimp only
  rw [Coro.exec_bind_ok heach, hcount, hmajority, if_pos (List.length_pos_iff.mpr hne)]
  rfl

/-- **`propose`** at or above the promise: everybody accepts, then commits. -/
theorem exec_propose_accepted (value : String)
    (hmajority : s.proposer.majority = s.proposer.proposeAcceptors.length)
    (hne : s.proposer.proposeAcceptors ≠ []) (hnodup : s.proposer.proposeAcceptors.Nodup)
    (hall : AllHold codec registerId s.stores s.proposer.proposeAcceptors i)
    (hle : i.promisedBallotId ≤ b) :
    ∃ stores, Coro.exec (ProposerImpl.propose codec registerId b value) s =
        (.ok !i.committed, { s with stores }) ∧
      AllHold codec registerId stores s.proposer.proposeAcceptors
        { i with
          promisedBallotId := b
          accepted := some { ballotId := some b, value := some (s.proposer.proposalValue value) }
          committed := true } ∧
      OthersKept codec registerId s.stores stores := by
  have haccept : ∀ kv : κ, WellFormed codec kv → instanceOf codec kv registerId = i → ∃ kv',
      Coro.exec (LocalAcceptor.accept codec registerId
        { ballotId := b, value := s.proposer.proposalValue value }) kv = (.ok true, kv') ∧
      Updates codec kv kv' registerId { i with
        promisedBallotId := b
        accepted := some { ballotId := some b, value := some (s.proposer.proposalValue value) } } := by
    rintro kv hwell rfl
    obtain ⟨result, kv', hexec, ⟨hlt, -⟩ | ⟨-, rfl, hupdates⟩⟩ := accept_spec hwell registerId
      { ballotId := b, value := s.proposer.proposalValue value }
    · exact absurd hlt (not_lt.mpr hle)
    · exact ⟨kv', hexec, hupdates⟩
  obtain ⟨stores, haccepts, hhold, hkept, -⟩ := exec_callEach haccept hnodup hall
  have hcommit : ∀ kv : κ, WellFormed codec kv → instanceOf codec kv registerId = { i with
        promisedBallotId := b
        accepted := some { ballotId := some b, value := some (s.proposer.proposalValue value) } } →
      ∃ kv', Coro.exec (LocalAcceptor.commit codec registerId b) kv = (.ok !i.committed, kv') ∧
        Updates codec kv kv' registerId { i with
          promisedBallotId := b
          accepted := some { ballotId := some b, value := some (s.proposer.proposalValue value) }
          committed := true } := by
    intro kv hwell hinstance
    obtain ⟨kv', hexec, hupdates⟩ := commit_spec hwell registerId b
    rw [hinstance] at hexec hupdates
    exact ⟨kv', hexec, hupdates⟩
  obtain ⟨stores', hcommits, hhold', hkept', -⟩ :=
    exec_callEach (s := { s with stores }) hcommit hnodup hhold
  refine ⟨stores', ?_, hhold', hkept.trans hkept'⟩
  have hcount : (s.proposer.proposeAcceptors.map fun _ => true).count true =
      s.proposer.proposeAcceptors.length := by
    simp [List.map_const']
  have hany : (s.proposer.proposeAcceptors.map fun _ => !i.committed).any id = !i.committed := by
    obtain ⟨a, acceptors, hcons⟩ := List.exists_cons_of_ne_nil hne
    rw [hcons]
    cases i.committed <;> simp
  unfold ProposerImpl.propose
  rw [Coro.exec_bind_ok (Coro.exec_getThe _)]
  dsimp only
  rw [Coro.exec_bind_ok haccepts, hcount, hmajority, if_neg (Nat.lt_irrefl _),
    Coro.exec_bind_ok hcommits, hany]
  rfl

omit [LawfulKVStoreLite κ β] in
/-- **`propose`** before any `prepare`: nobody to ask. -/
theorem exec_propose_nobody {value : String} (hmajority : 0 < s.proposer.majority)
    (hnone : s.proposer.proposeAcceptors = []) :
    Coro.exec (ProposerImpl.propose codec registerId b value) s = (.ok false, s) := by
  have haccepts : Coro.exec (callEach (LocalAcceptor.accept codec registerId
      { ballotId := b, value := s.proposer.proposalValue value })
      s.proposer.proposeAcceptors) s = (.ok [], s) := by
    rw [hnone]
    rfl
  unfold ProposerImpl.propose
  rw [Coro.exec_bind_ok (Coro.exec_getThe _)]
  dsimp only
  rw [Coro.exec_bind_ok haccepts, List.count_nil, if_pos hmajority]
  rfl

/-- **`getCommittedValue`** answers what the common instance says, whoever is asked. -/
theorem exec_firstCommitted {rest : List A} (hsub : rest ⊆ acceptors)
    (hlast : rest = [] → committedValue i = none)
    (hall : AllHold codec registerId s.stores acceptors i) :
    ∃ stores, Coro.exec (ProposerImpl.firstCommitted codec registerId rest) s =
        (.ok (committedValue i), { s with stores }) ∧
      AllHold codec registerId stores acceptors i ∧
      OthersKept codec registerId s.stores stores := by
  induction rest generalizing s with
  | nil =>
    rw [hlast rfl]
    exact ⟨s.stores, rfl, hall, .refl _⟩
  | cons a rest ih =>
    obtain ⟨hwell, hinstance⟩ := hall a (hsub List.mem_cons_self)
    obtain ⟨kv', hexec, hupdates⟩ := getCommittedValue_spec hwell registerId
    rw [hinstance] at hexec hupdates
    have hcall : Coro.exec (call a (LocalAcceptor.getCommittedValue codec registerId)) s =
        (.ok (committedValue i), { s with stores := Function.update s.stores a kv' }) := by
      rw [exec_call, hexec]
    have hall' : AllHold codec registerId (Function.update s.stores a kv') acceptors i := by
      intro a' ha'
      by_cases heq : a' = a
      · rw [heq, Function.update_self]
        exact ⟨hupdates.wellFormed, hupdates.same⟩
      · rw [Function.update_of_ne heq]
        exact hall a' ha'
    unfold ProposerImpl.firstCommitted
    rw [Coro.exec_bind_ok hcall]
    cases hvalue : committedValue i with
    | some v => exact ⟨_, rfl, hall', .update hupdates⟩
    | none =>
      obtain ⟨stores, hrest, hhold, hkept⟩ := ih (s := { s with stores := Function.update s.stores a kv' })
        (fun a' ha' => hsub (List.mem_cons_of_mem _ ha')) (fun _ => hvalue) hall'
      rw [hvalue] at hrest
      exact ⟨stores, hrest, hhold, (OthersKept.update hupdates).trans hkept⟩

/-! ## The simulation -/

/-- What a call must respect for the two registers to agree on it.

* Before the first `lock()`, `write` is not called with the initial lock id 0.
* After it, `write` is not called with an id above the last one `lock()` has returned.
* The lock id that committed is not written again with another payload, unless `lock()` has been
  called since. -/
def WithinLocks (s : PaxosWriteOnceRegister A κ) (m : InMemoryWriteOnceRegister) :
    RegisterCall → Prop
  | .lock => True
  | .write lockId payload =>
    (m.lockId = 0 → lockId ≠ 0) ∧ (m.lockId ≠ 0 → lockId ≤ m.lockId) ∧
      (m.committed = true → lockId = m.lockId → s.proposer.selectedProposal = none →
        payload = m.payload)
  | .read => True

instance (s : PaxosWriteOnceRegister A κ) (m : InMemoryWriteOnceRegister) (c : RegisterCall) :
    Decidable (WithinLocks s m c) :=
  match c with
  | .lock => inferInstanceAs (Decidable True)
  | .write _ _ => inferInstanceAs (Decidable (_ ∧ _ ∧ _))
  | .read => inferInstanceAs (Decidable True)

/-- All acceptors hold one instance `i`, and `i` says the same as the in-memory register. -/
structure Agrees (codec : Codec PaxosInstance β) (s : PaxosWriteOnceRegister A κ)
    (m : InMemoryWriteOnceRegister) (i : PaxosInstance) : Prop where
  majorId : -1 ≤ s.majorId
  majority : s.proposer.majority = s.proposer.prepareAcceptors.length
  nonempty : s.proposer.prepareAcceptors ≠ []
  nodup : s.proposer.prepareAcceptors.Nodup
  lockId : s.lockId = m.lockId
  nonneg : 0 ≤ m.lockId
  holds : AllHold codec (instanceId s.majorId) s.stores s.proposer.prepareAcceptors i
  committed : i.committed = m.committed
  written : m.committed = true → ∃ b, i.accepted = some ⟨some b, some m.payload⟩
  unwritten : m.committed = false → i.accepted = none
  unlocked : m.lockId = 0 →
    s.proposer.proposeAcceptors = [] ∧ i.promisedBallotId = ⟨-1, -1⟩ ∧ m.committed = false
  locked : m.lockId ≠ 0 → s.proposer.proposeAcceptors = s.proposer.prepareAcceptors ∧
    i.promisedBallotId = ⟨s.majorId, m.lockId⟩
  selected : ∀ p, s.proposer.selectedProposal = some p → m.committed = true ∧ p.value = m.payload

variable {m : InMemoryWriteOnceRegister}

omit [DecidableEq A] [LawfulKVStoreLite κ β] in
/-- `lock()` is always above the promise. -/
theorem Agrees.promised_lt (h : Agrees codec s m i) :
    i.promisedBallotId < ⟨s.majorId, m.lockId + 1⟩ := by
  by_cases hzero : m.lockId = 0
  · have hmajor := h.majorId
    rw [(h.unlocked hzero).2.1, BallotId.lt_def, hzero]
    dsimp only
    split <;> omega
  · rw [(h.locked hzero).2, BallotId.mk_lt_mk]
    omega

omit [DecidableEq A] [LawfulKVStoreLite κ β] in
theorem Agrees.committedValue (h : Agrees codec s m i) :
    committedValue i = if m.committed then some m.payload else none := by
  unfold LocalAcceptor.committedValue
  rw [h.committed]
  cases hcommitted : m.committed with
  | false => rfl
  | true =>
    obtain ⟨b, haccepted⟩ := h.written hcommitted
    rw [haccepted]
    rfl

omit [DecidableEq A] [LawfulKVStoreLite κ β] in
/-- What the next `prepare` selects. -/
theorem Agrees.carried (h : Agrees codec s m i) {p : Proposal} (hp : carried i = some p) :
    m.committed = true ∧ p.value = m.payload := by
  unfold Paxos.carried at hp
  cases hcommitted : m.committed with
  | false =>
    rw [h.unwritten hcommitted] at hp
    exact absurd hp (by simp)
  | true =>
    obtain ⟨b, haccepted⟩ := h.written hcommitted
    rw [haccepted] at hp
    cases hp
    exact ⟨rfl, rfl⟩

/-- `lock()` keeps the registers in agreement. -/
theorem Agrees.lock (h : Agrees codec s m i) :
    ((s.step codec .lock).2 = (m.step .lock).2) ∧
      ∃ i', Agrees codec (s.step codec .lock).1 (m.step .lock).1 i' := by
  obtain ⟨stores, hlock, hhold, -⟩ :=
    exec_lock h.majority h.nonempty h.nodup h.holds (h.lockId ▸ h.promised_lt)
  have hstep : s.step codec .lock = ({ s with
      lockId := s.lockId + 1
      proposer := { s.proposer with
        proposeAcceptors := s.proposer.prepareAcceptors, selectedProposal := Paxos.carried i }
      stores }, .ok (.locked (some (s.lockId + 1)))) := by
    unfold PaxosWriteOnceRegister.step
    dsimp only
    rw [Coro.exec_bind_ok hlock]
    rfl
  rw [hstep]
  have hne : m.lockId + 1 ≠ 0 := by
    have hnonneg := h.nonneg
    omega
  refine ⟨?_, _, {
    majorId := h.majorId, majority := h.majority, nonempty := h.nonempty, nodup := h.nodup
    lockId := ?_, nonneg := ?_, holds := hhold, committed := h.committed, written := h.written
    unwritten := h.unwritten, unlocked := fun hzero => absurd hzero hne
    locked := fun _ => ⟨rfl, ?_⟩, selected := fun p hp => h.carried hp }⟩
  · show _ = Except.ok (RegisterAnswer.locked (some (m.lockId + 1)))
    rw [h.lockId]
  · show s.lockId + 1 = m.lockId + 1
    rw [h.lockId]
  · show 0 ≤ m.lockId + 1
    have hnonneg := h.nonneg
    omega
  · show (⟨s.majorId, s.lockId + 1⟩ : BallotId) = ⟨s.majorId, m.lockId + 1⟩
    rw [h.lockId]

/-- `read()` keeps the registers in agreement. -/
theorem Agrees.read (h : Agrees codec s m i) :
    ((s.step codec .read).2 = (m.step .read).2) ∧
      ∃ i', Agrees codec (s.step codec .read).1 (m.step .read).1 i' := by
  obtain ⟨stores, hexec, hhold, -⟩ := exec_firstCommitted (List.Subset.refl _)
    (fun hnil => absurd hnil h.nonempty) h.holds
  have hread : Coro.exec (PaxosWriteOnceRegister.read codec) s = (.ok m.read, { s with stores }) := by
    unfold PaxosWriteOnceRegister.read InMemoryWriteOnceRegister.read
    rw [Coro.exec_bind_ok (Coro.exec_getThe _), Coro.exec_bind_ok hexec, h.committedValue]
    cases m.committed <;> rfl
  have hstep : s.step codec .read = ({ s with stores }, .ok (.value m.read)) := by
    unfold PaxosWriteOnceRegister.step
    dsimp only
    rw [Coro.exec_bind_ok hread]
    rfl
  rw [hstep]
  exact ⟨rfl, i, { h with holds := hhold }⟩

omit [LawfulKVStoreLite κ β] in
theorem step_write {lockId : Int} {payload : String} {result : Bool}
    {s' : PaxosWriteOnceRegister A κ}
    (h : Coro.exec (ProposerImpl.propose codec (instanceId s.majorId) ⟨s.majorId, lockId⟩ payload) s =
      (.ok result, s')) :
    s.step codec (.write lockId payload) = (s', .ok (.written result)) := by
  have hwrite : Coro.exec (PaxosWriteOnceRegister.write codec lockId payload) s =
      (.ok result, s') := by
    unfold PaxosWriteOnceRegister.write
    rw [Coro.exec_bind_ok (Coro.exec_getThe _), h]
  unfold PaxosWriteOnceRegister.step
  dsimp only
  rw [Coro.exec_bind_ok hwrite]
  rfl

/-- A `write` that the in-memory register refuses and nobody accepts. -/
theorem Agrees.write_refused (h : Agrees codec s m i) {lockId : Int} (payload : String)
    (hne : lockId ≠ m.lockId) (hle : m.lockId ≠ 0 → lockId ≤ m.lockId) :
    ((s.step codec (.write lockId payload)).2 = (m.step (.write lockId payload)).2) ∧
      ∃ i', Agrees codec (s.step codec (.write lockId payload)).1
        (m.step (.write lockId payload)).1 i' := by
  have hm : m.step (.write lockId payload) = (m, .ok (.written false)) := by
    simp [InMemoryWriteOnceRegister.step, InMemoryWriteOnceRegister.write, hne]
  rw [hm]
  by_cases hzero : m.lockId = 0
  · have hmajority : 0 < s.proposer.majority := by
      rw [h.majority]
      exact List.length_pos_iff.mpr h.nonempty
    rw [step_write (exec_propose_nobody hmajority (h.unlocked hzero).1)]
    exact ⟨rfl, i, h⟩
  · obtain ⟨hacceptors, hpromised⟩ := h.locked hzero
    have hlt : (⟨s.majorId, lockId⟩ : BallotId) < i.promisedBallotId := by
      rw [hpromised, BallotId.mk_lt_mk]
      have hbelow := hle hzero
      omega
    have hmajority := h.majority
    have hnonempty := h.nonempty
    have hnodup := h.nodup
    have hholds := h.holds
    rw [← hacceptors] at hmajority hnonempty hnodup hholds
    obtain ⟨stores, hexec, hhold, -⟩ :=
      exec_propose_refused payload hmajority hnonempty hnodup hholds hlt
    rw [step_write hexec]
    rw [hacceptors] at hhold
    exact ⟨rfl, i, { h with holds := hhold }⟩

/-- A `write` under the current lock id. All accept it; if it is not the first, it repeats the
committed value, either because `prepare` has selected that or because the caller does. -/
theorem Agrees.write_current (h : Agrees codec s m i) (payload : String) (hzero : m.lockId ≠ 0)
    (hrepeat : m.committed = true → s.proposer.selectedProposal = none → payload = m.payload) :
    ((s.step codec (.write m.lockId payload)).2 = (m.step (.write m.lockId payload)).2) ∧
      ∃ i', Agrees codec (s.step codec (.write m.lockId payload)).1
        (m.step (.write m.lockId payload)).1 i' := by
  obtain ⟨hacceptors, hpromised⟩ := h.locked hzero
  have hmajority := h.majority
  have hnonempty := h.nonempty
  have hnodup := h.nodup
  have hholds := h.holds
  rw [← hacceptors] at hmajority hnonempty hnodup hholds
  obtain ⟨stores, hexec, hhold, -⟩ := exec_propose_accepted payload hmajority hnonempty
    hnodup hholds (le_of_eq hpromised)
  rw [step_write hexec]
  rw [hacceptors] at hhold
  cases hcommitted : m.committed with
  | false =>
    have hm : m.step (.write m.lockId payload) =
        ({ m with payload, committed := true }, .ok (.written true)) := by
      simp [InMemoryWriteOnceRegister.step, InMemoryWriteOnceRegister.write, hcommitted]
    have hvalue : s.proposer.proposalValue payload = payload := by
      unfold ProposerImpl.proposalValue
      cases hselected : s.proposer.selectedProposal with
      | none => rfl
      | some p => exact absurd (h.selected p hselected).1 (by simp [hcommitted])
    rw [hm, h.committed, hcommitted]
    refine ⟨rfl, _, {
      majorId := h.majorId, majority := h.majority, nonempty := h.nonempty, nodup := h.nodup
      lockId := h.lockId, nonneg := h.nonneg, holds := hhold, committed := rfl
      written := fun _ => ⟨⟨s.majorId, m.lockId⟩, ?_⟩, unwritten := fun hfalse => absurd hfalse (by simp)
      unlocked := fun heq => absurd heq hzero, locked := fun _ => ⟨hacceptors, rfl⟩
      selected := fun p hp => absurd (h.selected p hp).1 (by simp [hcommitted]) }⟩
    rw [hvalue]
  | true =>
    have hm : m.step (.write m.lockId payload) = (m, .ok (.written false)) := by
      simp [InMemoryWriteOnceRegister.step, InMemoryWriteOnceRegister.write, hcommitted]
    have hvalue : s.proposer.proposalValue payload = m.payload := by
      unfold ProposerImpl.proposalValue
      cases hselected : s.proposer.selectedProposal with
      | none => exact hrepeat hcommitted hselected
      | some p => exact (h.selected p hselected).2
    rw [hm, h.committed, hcommitted]
    refine ⟨rfl, _, {
      majorId := h.majorId, majority := h.majority, nonempty := h.nonempty, nodup := h.nodup
      lockId := h.lockId, nonneg := h.nonneg, holds := hhold, committed := hcommitted.symm
      written := fun _ => ⟨⟨s.majorId, m.lockId⟩, ?_⟩
      unwritten := fun hfalse => absurd hfalse (by simp [hcommitted])
      unlocked := fun heq => absurd heq hzero, locked := fun _ => ⟨hacceptors, rfl⟩
      selected := h.selected }⟩
    rw [hvalue]

/-- **One call** keeps the registers in agreement. -/
theorem Agrees.step (h : Agrees codec s m i) {c : RegisterCall} (hc : WithinLocks s m c) :
    ((s.step codec c).2 = (m.step c).2) ∧
      ∃ i', Agrees codec (s.step codec c).1 (m.step c).1 i' := by
  cases c with
  | lock => exact h.lock
  | read => exact h.read
  | write lockId payload =>
    obtain ⟨hunlocked, hle, hrepeat⟩ := hc
    by_cases heq : lockId = m.lockId
    · subst heq
      exact h.write_current payload (fun hzero => hunlocked hzero hzero) fun hcommitted =>
        hrepeat hcommitted rfl
    · exact h.write_refused payload heq hle

omit [DecidableEq A] [LawfulKVStoreLite κ β] in
theorem agrees_make {registerId : Int} (hid : -1 ≤ registerId) (hne : acceptors ≠ [])
    (hnodup : acceptors.Nodup) {stores : A → κ}
    (hfresh : ∀ a ∈ acceptors, ∀ id, KVStoreLite.get (stores a) (keyFormat id) = none) :
    Agrees codec (.make registerId acceptors stores) {} (freshInstance (instanceId registerId)) where
  majorId := hid
  majority := rfl
  nonempty := hne
  nodup := hnodup
  lockId := rfl
  nonneg := Int.le_refl 0
  holds a ha := ⟨wellFormed_of_empty (hfresh a ha), instanceOf_of_empty (hfresh a ha) _⟩
  committed := rfl
  written hcommitted := absurd hcommitted (by simp)
  unwritten _ := rfl
  unlocked _ := ⟨rfl, rfl, rfl⟩
  locked hne := absurd rfl hne
  selected p hp := absurd hp (by simp [PaxosWriteOnceRegister.make])

/-- A register that is committed stays so, with its payload. -/
theorem InMemoryWriteOnceRegister.committed_after {m : InMemoryWriteOnceRegister} {payload : String}
    (hcommitted : m.committed = true) (hpayload : m.payload = payload) (calls : List RegisterCall) :
    (Lockstep.after InMemoryWriteOnceRegister.step m calls).committed = true ∧
      (Lockstep.after InMemoryWriteOnceRegister.step m calls).payload = payload := by
  induction calls generalizing m with
  | nil => exact ⟨hcommitted, hpayload⟩
  | cons c calls ih =>
    have hstep : (m.step c).1.committed = true ∧ (m.step c).1.payload = payload := by
      cases c with
      | lock => exact ⟨hcommitted, hpayload⟩
      | read => exact ⟨hcommitted, hpayload⟩
      | write lockId payload' =>
        have hrefused : m.write lockId payload' = (m, false) := by
          simp [InMemoryWriteOnceRegister.write, hcommitted]
        simp only [InMemoryWriteOnceRegister.step, hrefused]
        exact ⟨hcommitted, hpayload⟩
    exact ih hstep.1 hstep.2

/-- A `write` that answers `true` has committed its payload. -/
theorem InMemoryWriteOnceRegister.committed_of_written {m : InMemoryWriteOnceRegister} {lockId : Int}
    {payload : String} (h : (m.step (.write lockId payload)).2 = .ok (.written true)) :
    (m.step (.write lockId payload)).1.committed = true ∧
      (m.step (.write lockId payload)).1.payload = payload := by
  unfold InMemoryWriteOnceRegister.step InMemoryWriteOnceRegister.write at h ⊢
  by_cases hcurrent : !m.committed ∧ lockId = m.lockId
  · dsimp only
    rw [if_pos hcurrent]
    exact ⟨rfl, rfl⟩
  · dsimp only at h
    rw [if_neg hcurrent] at h
    simp at h

/-- **`PaxosWriteOnceRegister` refines `InMemoryWriteOnceRegister`** on every sequence of calls that
is `WithinLocks`, for any number of acceptors with nothing stored: every call answers the same. And
once a `write` has answered `true`, every later `read` answers its payload. -/
theorem paxos_refines_inMemory (codec : Codec PaxosInstance β) {registerId : Int}
    (hid : -1 ≤ registerId) (hne : acceptors ≠ []) (hnodup : acceptors.Nodup) {stores : A → κ}
    (hfresh : ∀ a ∈ acceptors, ∀ id, KVStoreLite.get (stores a) (keyFormat id) = none)
    {calls : List RegisterCall}
    (hcalls : Lockstep.Along (PaxosWriteOnceRegister.step codec) InMemoryWriteOnceRegister.step
      WithinLocks (.make registerId acceptors stores) {} calls) :
    Lockstep.answers (PaxosWriteOnceRegister.step codec) (.make registerId acceptors stores) calls =
        Lockstep.answers InMemoryWriteOnceRegister.step {} calls ∧
      ∀ before lockId payload between later,
        calls = before ++ .write lockId payload :: (between ++ .read :: later) →
        ((Lockstep.after (PaxosWriteOnceRegister.step codec) (.make registerId acceptors stores)
          before).step codec (.write lockId payload)).2 = .ok (.written true) →
        ((Lockstep.after (PaxosWriteOnceRegister.step codec) (.make registerId acceptors stores)
          (before ++ .write lockId payload :: between)).step codec .read).2 =
            .ok (.value (.ok payload)) := by
  have hstep : ∀ (s : PaxosWriteOnceRegister A κ) m c, (∃ i, Agrees codec s m i) →
      WithinLocks s m c → (s.step codec c).2 = (m.step c).2 ∧
        ∃ i, Agrees codec (s.step codec c).1 (m.step c).1 i :=
    fun s m c ⟨i, h⟩ hc => h.step hc
  have hmake : ∃ i, Agrees codec (.make registerId acceptors stores) {} i :=
    ⟨_, agrees_make hid hne hnodup hfresh⟩
  refine ⟨Lockstep.answers_eq hstep hmake hcalls, ?_⟩
  rintro before lockId payload between later rfl hwritten
  -- the in-memory register has answered `true` as well, and is committed from then on
  obtain ⟨hbefore, hwrite, -⟩ := hcalls.append
  obtain ⟨hsame, -⟩ := hstep _ _ _ (Lockstep.related_after hstep hmake hbefore) hwrite
  rw [hsame] at hwritten
  obtain ⟨hcommitted, hpayload⟩ := InMemoryWriteOnceRegister.committed_of_written hwritten
  obtain ⟨hstays, hvalue⟩ :=
    InMemoryWriteOnceRegister.committed_after hcommitted hpayload between
  change (Lockstep.after InMemoryWriteOnceRegister.step _
    (.write lockId payload :: between)).committed = true at hstays
  change (Lockstep.after InMemoryWriteOnceRegister.step _
    (.write lockId payload :: between)).payload = payload at hvalue
  -- the read finds the registers in agreement
  have hread := hcalls
  rw [← List.cons_append, ← List.append_assoc] at hread
  obtain ⟨hbetween, -⟩ := hread.append
  obtain ⟨hanswer, -⟩ := hstep _ _ .read (Lockstep.related_after hstep hmake hbetween) trivial
  rw [hanswer, Lockstep.after_append]
  show Except.ok (RegisterAnswer.value (InMemoryWriteOnceRegister.read _)) = _
  unfold InMemoryWriteOnceRegister.read
  rw [if_pos hstays, hvalue]

/-- Two acceptors; a stale write, a write under the current lock, its repetition, and a read. -/
theorem paxos_refines_inMemory_two :
    Lockstep.answers (PaxosWriteOnceRegister.step (Codec.identity PaxosInstance))
        (.make 7 [false, true] fun _ => RocksStore.provideSharedPtr true)
        [.lock, .lock, .write 1 "a", .write 2 "b", .write 2 "b", .lock, .write 3 "c", .read] =
      Lockstep.answers InMemoryWriteOnceRegister.step {}
        [.lock, .lock, .write 1 "a", .write 2 "b", .write 2 "b", .lock, .write 3 "c", .read] := by
  refine (paxos_refines_inMemory (Codec.identity PaxosInstance) (by decide) (by decide) (by decide)
    (fun _ _ _ => rfl) ?_).1
  decide +kernel

/-- Under one lock, `write "a"` commits and a second `write "b"` answers `false`; the next `read` of
the Paxos register answers `"b"`. -/
theorem paxos_write_replaced_after_commit :
    Lockstep.answers (PaxosWriteOnceRegister.step (Codec.identity PaxosInstance))
        (.make 7 [()] fun _ => RocksStore.provideSharedPtr true)
        [.lock, .write 1 "a", .write 1 "b", .read] =
      [.ok (.locked (some 1)), .ok (.written true), .ok (.written false), .ok (.value (.ok "b"))] ∧
    Lockstep.answers InMemoryWriteOnceRegister.step {}
        [.lock, .write 1 "a", .write 1 "b", .read] =
      [.ok (.locked (some 1)), .ok (.written true), .ok (.written false),
        .ok (.value (.ok "a"))] := by
  decide +kernel

end ReplicatedCounter.Paxos
