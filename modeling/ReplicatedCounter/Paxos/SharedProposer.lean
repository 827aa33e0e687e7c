import ReplicatedCounter.Paxos.RegisterChain
import ReplicatedCounter.Paxos.WriteOnceRegister

/-!
# `makeChainUsingPaxosWor`: one proposer for all registers

The registers of the chain that `makeChainUsingPaxosWor` makes are given the same `ProposerImpl`,
and that object has a memory: `lock()` leaves the acceptors that promised and the proposal it has
selected in it, and `write` takes both from there. Neither says which register it is of. So a
`write` goes out with whatever the last `lock()` of *any* register has left.

`PaxosChain` keeps the proposers under keys. With one key for all registers it is the code's chain,
with a key for each it is the chain the code is meant to be, and `independent_iff` says on which
sequences of calls the two cannot be told apart.

Between the two lies `UnanimousRegister`. All acceptors always answer and always hold the same, so a
register is a lock id, its proposer and one instance, and its calls are functions of these.
-/

set_option autoImplicit false

namespace ReplicatedCounter.Paxos

open LocalAcceptor

/-! ## A register whose acceptors are of one mind -/

/-- What a `write` of `payload` goes out with: nothing if nobody has promised. -/
def ProposerImpl.sends {A : Type} (p : ProposerImpl A) (payload : String) : Option String :=
  if p.proposeAcceptors.isEmpty then none else some (p.proposalValue payload)

/-- An instance that has accepted and committed a value. -/
def PaxosInstance.written (i : PaxosInstance) (b : BallotId) (value : String) : PaxosInstance :=
  { i with
    promisedBallotId := b
    accepted := some { ballotId := some b, value := some value }
    committed := true }

/-- A register, its proposer, and the instance all of its acceptors hold. -/
structure UnanimousRegister (A : Type) where
  lockId : Int := 0
  proposer : ProposerImpl A
  held : PaxosInstance

namespace UnanimousRegister

variable {A : Type}

/-- `lock()`. -/
def lock (majorId : Int) (u : UnanimousRegister A) : UnanimousRegister A × Option Int :=
  if u.held.promisedBallotId < ⟨majorId, u.lockId + 1⟩ then
    ({ lockId := u.lockId + 1
       proposer := { u.proposer with
         proposeAcceptors := u.proposer.prepareAcceptors, selectedProposal := carried u.held }
       held := { u.held with promisedBallotId := ⟨majorId, u.lockId + 1⟩ } }, some (u.lockId + 1))
  else
    ({ u with
       lockId := u.lockId + 1
       proposer := { u.proposer with proposeAcceptors := [] } }, none)

/-- A `write` that goes out with `sent`. -/
def write (majorId lockId : Int) (sent : Option String) (u : UnanimousRegister A) :
    UnanimousRegister A × Bool :=
  match sent with
  | none => (u, false)
  | some value =>
    if ⟨majorId, lockId⟩ < u.held.promisedBallotId then
      (u, false)
    else
      ({ u with held := u.held.written ⟨majorId, lockId⟩ value }, !u.held.committed)

/-- `read()`. -/
def read (u : UnanimousRegister A) : Except ReadError String :=
  match committedValue u.held with
  | some value => .ok value
  | none => .error .notWritten

/-- A call. -/
def step (majorId : Int) (u : UnanimousRegister A) :
    RegisterCall → UnanimousRegister A × RegisterAnswer
  | .lock => let (u, lockId) := u.lock majorId; (u, .locked lockId)
  | .write lockId payload =>
    let (u, result) := u.write majorId lockId (u.proposer.sends payload)
    (u, .written result)
  | .read => (u, .value u.read)

variable {u : UnanimousRegister A} {majorId lockId : Int} {value payload : String}

theorem step_lock : u.step majorId .lock = ((u.lock majorId).1, .locked (u.lock majorId).2) := rfl

theorem step_write : u.step majorId (.write lockId payload) =
    ((u.write majorId lockId (u.proposer.sends payload)).1,
      .written (u.write majorId lockId (u.proposer.sends payload)).2) := rfl

theorem write_refused (h : (⟨majorId, lockId⟩ : BallotId) < u.held.promisedBallotId) :
    u.write majorId lockId (some value) = (u, false) := if_pos h

theorem write_accepted (h : ¬ (⟨majorId, lockId⟩ : BallotId) < u.held.promisedBallotId) :
    u.write majorId lockId (some value) =
      ({ u with held := u.held.written ⟨majorId, lockId⟩ value }, !u.held.committed) := if_neg h

/-- Whatever it goes out with, it is refused. -/
theorem write_stale (h : (⟨majorId, lockId⟩ : BallotId) < u.held.promisedBallotId)
    (sent : Option String) : u.write majorId lockId sent = (u, false) := by
  cases sent with
  | none => rfl
  | some value => exact write_refused h

/-- `write` leaves the proposer as it was. -/
theorem write_proposer (sent : Option String) :
    (u.write majorId lockId sent).1.proposer = u.proposer := by
  by_cases hlt : (⟨majorId, lockId⟩ : BallotId) < u.held.promisedBallotId
  · rw [write_stale hlt]
  · cases sent with
    | none => rfl
    | some value => rw [write_accepted hlt]

theorem write_lockId (sent : Option String) :
    (u.write majorId lockId sent).1.lockId = u.lockId := by
  by_cases hlt : (⟨majorId, lockId⟩ : BallotId) < u.held.promisedBallotId
  · rw [write_stale hlt]
  · cases sent with
    | none => rfl
    | some value => rw [write_accepted hlt]

end UnanimousRegister

variable {A κ β : Type} [DecidableEq A] [KVStoreLite κ β]

/-- A proposer over these acceptors. It has the promises of all or of none. -/
structure Unanimous (acceptors : List A) (p : ProposerImpl A) : Prop where
  majority : p.majority = acceptors.length
  prepareAcceptors : p.prepareAcceptors = acceptors
  proposeAcceptors : p.proposeAcceptors = [] ∨ p.proposeAcceptors = acceptors

/-- The register `u`, over these stores. -/
def UnanimousRegister.over (u : UnanimousRegister A) (majorId : Int) (stores : A → κ) :
    PaxosWriteOnceRegister A κ :=
  { majorId, lockId := u.lockId, proposer := u.proposer, stores }

/-- A call of the register is the call of `u`, and leaves the other registers alone. -/
def Refines (codec : Codec PaxosInstance β) (acceptors : List A) (u : UnanimousRegister A)
    (majorId : Int) (stores : A → κ) (c : RegisterCall) : Prop :=
  ∃ stores', (u.over majorId stores).step codec c =
      ((u.step majorId c).1.over majorId stores', .ok (u.step majorId c).2) ∧
    AllHold codec (instanceId majorId) stores' acceptors (u.step majorId c).1.held ∧
    OthersKept codec (instanceId majorId) stores stores'

section register

variable {codec : Codec PaxosInstance β} {acceptors : List A}
  {u : UnanimousRegister A} {majorId : Int} {stores : A → κ}

omit [DecidableEq A] in
theorem Unanimous.step (h : Unanimous acceptors u.proposer) (c : RegisterCall) :
    Unanimous acceptors (u.step majorId c).1.proposer := by
  cases c with
  | lock =>
    unfold UnanimousRegister.step UnanimousRegister.lock
    by_cases hlt : u.held.promisedBallotId < ⟨majorId, u.lockId + 1⟩
    · rw [if_pos hlt]
      exact ⟨h.majority, h.prepareAcceptors, .inr h.prepareAcceptors⟩
    · rw [if_neg hlt]
      exact ⟨h.majority, h.prepareAcceptors, .inl rfl⟩
  | write lockId payload =>
    show Unanimous acceptors (u.write majorId lockId _).1.proposer
    rw [UnanimousRegister.write_proposer]
    exact h
  | read => exact h

variable [LawfulKVStoreLite κ β]

theorem refines_lock (h : Unanimous acceptors u.proposer) (hne : acceptors ≠ [])
    (hnodup : acceptors.Nodup) (hall : AllHold codec (instanceId majorId) stores acceptors u.held) :
    Refines codec acceptors u majorId stores .lock := by
  obtain ⟨hmajority, rfl, -⟩ := h
  unfold Refines UnanimousRegister.step UnanimousRegister.lock PaxosWriteOnceRegister.step
  dsimp only
  by_cases hlt : u.held.promisedBallotId < ⟨majorId, u.lockId + 1⟩
  · rw [if_pos hlt]
    obtain ⟨stores', hexec, hhold, hkept⟩ :=
      exec_lock (s := u.over majorId stores) hmajority hne hnodup hall hlt
    refine ⟨stores', ?_, hhold, hkept⟩
    rw [Coro.exec_bind_ok hexec]
    rfl
  · rw [if_neg hlt]
    have hpos : 0 < u.proposer.majority := by
      rw [hmajority]
      exact List.length_pos_iff.mpr hne
    obtain ⟨stores', hexec, hhold, hkept⟩ :=
      exec_lock_refused (s := u.over majorId stores) hpos hnodup hall (not_lt.mp hlt)
    refine ⟨stores', ?_, hhold, hkept⟩
    rw [Coro.exec_bind_ok hexec]
    rfl

theorem refines_write (h : Unanimous acceptors u.proposer) (hne : acceptors ≠ [])
    (hnodup : acceptors.Nodup) (hall : AllHold codec (instanceId majorId) stores acceptors u.held)
    (lockId : Int) (payload : String) :
    Refines codec acceptors u majorId stores (.write lockId payload) := by
  obtain ⟨hmajority, -, hpropose⟩ := h
  unfold Refines UnanimousRegister.step
  dsimp only
  rcases hpropose with hnobody | heverybody
  · have hpos : 0 < u.proposer.majority := by
      rw [hmajority]
      exact List.length_pos_iff.mpr hne
    have hsends : u.proposer.sends payload = none := by
      unfold ProposerImpl.sends
      rw [hnobody]
      rfl
    rw [hsends]
    exact ⟨stores, step_write (exec_propose_nobody (s := u.over majorId stores) hpos hnobody), hall,
      .refl _⟩
  · subst heverybody
    have hsends : u.proposer.sends payload = some (u.proposer.proposalValue payload) := by
      unfold ProposerImpl.sends
      rw [if_neg (by simpa using hne)]
    rw [hsends]
    by_cases hlt : (⟨majorId, lockId⟩ : BallotId) < u.held.promisedBallotId
    · obtain ⟨stores', hexec, hhold, hkept⟩ := exec_propose_refused (s := u.over majorId stores)
        payload hmajority hne hnodup hall hlt
      rw [UnanimousRegister.write_refused hlt]
      exact ⟨stores', step_write hexec, hhold, hkept⟩
    · obtain ⟨stores', hexec, hhold, hkept⟩ := exec_propose_accepted (s := u.over majorId stores)
        payload hmajority hne hnodup hall (not_lt.mp hlt)
      rw [UnanimousRegister.write_accepted hlt]
      exact ⟨stores', step_write hexec, hhold, hkept⟩

theorem refines_read (h : Unanimous acceptors u.proposer) (hne : acceptors ≠ [])
    (hall : AllHold codec (instanceId majorId) stores acceptors u.held) :
    Refines codec acceptors u majorId stores .read := by
  obtain ⟨-, rfl, -⟩ := h
  obtain ⟨stores', hexec, hhold, hkept⟩ := exec_firstCommitted (s := u.over majorId stores)
    (List.Subset.refl _) (fun hnil => absurd hnil hne) hall
  refine ⟨stores', ?_, hhold, hkept⟩
  have hread : Coro.exec (PaxosWriteOnceRegister.read codec) (u.over majorId stores) =
      (.ok u.read, u.over majorId stores') := by
    unfold PaxosWriteOnceRegister.read UnanimousRegister.read
    rw [Coro.exec_bind_ok (Coro.exec_getThe _)]
    refine (Coro.exec_bind_ok hexec).trans ?_
    cases committedValue u.held with
    | none => rfl
    | some value => rfl
  unfold PaxosWriteOnceRegister.step
  dsimp only
  rw [Coro.exec_bind_ok hread]
  rfl

/-- **The register is `u`**, whatever is called. -/
theorem refines_step (h : Unanimous acceptors u.proposer) (hne : acceptors ≠ [])
    (hnodup : acceptors.Nodup) (hall : AllHold codec (instanceId majorId) stores acceptors u.held)
    (c : RegisterCall) : Refines codec acceptors u majorId stores c := by
  cases c with
  | lock => exact refines_lock h hne hnodup hall
  | write lockId payload => exact refines_write h hne hnodup hall lockId payload
  | read => exact refines_read h hne hall

end register

/-! ## `wor/WORFactory.cc` -/

/-- A call of a chain, or of the register that `get(worId)` finds in it. -/
inductive ChainCall where
  | append
  | register (worId : Int) (c : RegisterCall)
  deriving DecidableEq, Repr

/-- What it returns; `notFound` if there is no such register. -/
inductive ChainAnswer where
  | appended (worId : Option Int)
  | notFound
  | answered (answer : Except AcceptorError RegisterAnswer)
  deriving DecidableEq

/-- A chain of Paxos registers over the same acceptors. A register is its `lockId_` here: its
`majorId_` is the id it is found under, and its `proposer_` is that of its key. -/
structure PaxosChain (K A κ : Type) where
  registers : WriteOnceRegisterChainImpl Int := {}
  proposers : K → ProposerImpl A
  stores : A → κ

namespace PaxosChain

variable {K : Type} [DecidableEq K]

/-- The register of an id. -/
def register (key : Int → K) (s : PaxosChain K A κ) (worId lockId : Int) :
    PaxosWriteOnceRegister A κ :=
  { majorId := worId, lockId, proposer := s.proposers (key worId), stores := s.stores }

/-- A call, run to its end. -/
def step (key : Int → K) (codec : Codec PaxosInstance β) (s : PaxosChain K A κ) :
    ChainCall → PaxosChain K A κ × ChainAnswer
  | .append =>
    let (registers, worId) := s.registers.append fun _ => 0
    ({ s with registers }, .appended worId)
  | .register worId c =>
    match s.registers.get worId with
    | none => (s, .notFound)
    | some lockId =>
      let (r, answer) := (s.register key worId lockId).step codec c
      ({ registers := s.registers.onRegister worId fun _ => r.lockId
         proposers := Function.update s.proposers (key worId) r.proposer
         stores := r.stores }, .answered answer)

/-- An empty chain, with one `ProposerImpl` for each key. -/
def make (acceptors : List A) (stores : A → κ) : PaxosChain K A κ where
  proposers _ := { majority := acceptors.length, prepareAcceptors := acceptors }
  stores

/-- `makeChainUsingPaxosWor`: five acceptors, each with a new database, and one proposer. -/
def makeChainUsingPaxosWor : PaxosChain Unit (Fin 5) (RocksStore β) :=
  make (List.finRange 5) fun _ => RocksStore.provideSharedPtr false

/-- The same acceptors, and a proposer for each register. -/
def makeChainWithOwnProposers : PaxosChain Int (Fin 5) (RocksStore β) :=
  make (List.finRange 5) fun _ => RocksStore.provideSharedPtr false

/-- A call of a chain whose registers share their proposer. -/
def sharedStep (codec : Codec PaxosInstance β) (s : PaxosChain Unit A κ) (c : ChainCall) :
    PaxosChain Unit A κ × ChainAnswer := s.step (fun _ => ()) codec c

/-- A call of a chain whose registers have their own. -/
def ownStep (codec : Codec PaxosInstance β) (t : PaxosChain Int A κ) (c : ChainCall) :
    PaxosChain Int A κ × ChainAnswer := t.step id codec c

/-- The acceptors hold the same for every register. -/
def SameContents {K' : Type} (codec : Codec PaxosInstance β) (s : PaxosChain K A κ)
    (t : PaxosChain K' A κ) : Prop :=
  ∀ a (worId : Int), instanceOf codec (s.stores a) (instanceId worId) =
    instanceOf codec (t.stores a) (instanceId worId)

/-- **The registers are independent** on these calls: each returns what it would return, and writes
what it would write, if every register had its own proposer. -/
def Independent (codec : Codec PaxosInstance β) (calls : List ChainCall) : Prop :=
  Lockstep.Along (sharedStep codec) (ownStep codec)
    (fun s t c => (sharedStep codec s c).2 = (ownStep codec t c).2 ∧
      SameContents codec (sharedStep codec s c).1 (ownStep codec t c).1)
    makeChainUsingPaxosWor makeChainWithOwnProposers calls

/-- What `lock()` leaves in the proposer, noted under the register it was called on. -/
def noteLock (codec : Codec PaxosInstance β) (s : PaxosChain Unit A κ)
    (left : Int → ProposerImpl A) : ChainCall → Int → ProposerImpl A
  | .register worId .lock =>
    if (s.registers.get worId).isSome then
      Function.update left worId ((sharedStep codec s (.register worId .lock)).1.proposers ())
    else left
  | _ => left

/-- A call that is the same for the proposer as the last `lock()` of the register has left it
(`left`), and as the last `lock()` of any register has. That is every call but a `write`. A `write`
is so if

* its lock id is below what the acceptors have promised for the register, or
* nobody has promised either time, or it goes out with the same value both times, or
* it repeats what the register holds, under the ballot it holds it. -/
def Harmless (codec : Codec PaxosInstance β) (s : PaxosChain Unit A κ)
    (left : Int → ProposerImpl A) : ChainCall → Prop
  | .register worId (.write lockId payload) =>
    (s.registers.get worId).isSome → ∀ a,
      let i := instanceOf codec (s.stores a) (instanceId worId)
      ⟨worId, lockId⟩ < i.promisedBallotId ∨
        (s.proposers ()).sends payload = (left worId).sends payload ∨
        ∀ value, (s.proposers ()).sends payload = some value ∨
          (left worId).sends payload = some value → i = i.written ⟨worId, lockId⟩ value
  | _ => True

/-- Every call is harmless where it is made. -/
def Undisturbed (codec : Codec PaxosInstance β) :
    PaxosChain Unit A κ → (Int → ProposerImpl A) → List ChainCall → Prop
  | _, _, [] => True
  | s, left, c :: cs =>
    Harmless codec s left c ∧
      Undisturbed codec (sharedStep codec s c).1 (noteLock codec s left c) cs

/-! ## A chain whose acceptors are of one mind -/

variable {codec : Codec PaxosInstance β} {acceptors : List A}

/-- All acceptors hold `held worId` for every register. -/
structure Uniform (codec : Codec PaxosInstance β) (acceptors : List A) (s : PaxosChain K A κ)
    (held : Int → PaxosInstance) : Prop where
  unanimous : ∀ k, Unanimous acceptors (s.proposers k)
  holds : ∀ worId, AllHold codec (instanceId worId) s.stores acceptors (held worId)

/-- A register of such a chain. -/
def view (key : Int → K) (s : PaxosChain K A κ) (held : Int → PaxosInstance) (worId lockId : Int) :
    UnanimousRegister A :=
  { lockId, proposer := s.proposers (key worId), held := held worId }

variable {key : Int → K} {s : PaxosChain K A κ} {held : Int → PaxosInstance} {worId lockId : Int}

/-- **One call** of one register. -/
theorem step_register [LawfulKVStoreLite κ β] (key : Int → K) (h : Uniform codec acceptors s held)
    (hne : acceptors ≠ []) (hnodup : acceptors.Nodup)
    (hget : s.registers.get worId = some lockId) (c : RegisterCall) :
    ∃ s', s.step key codec (.register worId c) =
        (s', .answered (.ok ((s.view key held worId lockId).step worId c).2)) ∧
      s'.registers = s.registers.onRegister worId
        (fun _ => ((s.view key held worId lockId).step worId c).1.lockId) ∧
      s'.proposers = Function.update s.proposers (key worId)
        ((s.view key held worId lockId).step worId c).1.proposer ∧
      Uniform codec acceptors s'
        (Function.update held worId ((s.view key held worId lockId).step worId c).1.held) := by
  obtain ⟨stores', hstep, hhold, hkept⟩ := refines_step
    (u := s.view key held worId lockId) (h.unanimous (key worId)) hne hnodup (h.holds worId) c
  refine ⟨{
    registers := s.registers.onRegister worId
      fun _ => ((s.view key held worId lockId).step worId c).1.lockId
    proposers := Function.update s.proposers (key worId)
      ((s.view key held worId lockId).step worId c).1.proposer
    stores := stores' }, ?_, rfl, rfl, ?_, ?_⟩
  · have hview : s.register key worId lockId = (s.view key held worId lockId).over worId s.stores :=
      rfl
    unfold step
    dsimp only
    rw [hget]
    dsimp only
    rw [hview, hstep]
    rfl
  · intro k
    dsimp only
    by_cases hk : k = key worId
    · rw [hk, Function.update_self]
      exact (h.unanimous (key worId)).step c
    · rw [Function.update_of_ne hk]
      exact h.unanimous k
  · intro worId'
    dsimp only
    by_cases hid : worId' = worId
    · rw [hid, Function.update_self]
      exact hhold
    · rw [Function.update_of_ne hid]
      exact AllHold.kept (h.holds worId') hhold hkept fun heq => hid (instanceId_injective heq)

omit [DecidableEq A] [DecidableEq K] in
/-- Chains over the same acceptors hold the same exactly if all their registers do. -/
theorem sameContents_iff {K' : Type} {t : PaxosChain K' A κ} {held' : Int → PaxosInstance}
    (hs : Uniform codec acceptors s held) (ht : Uniform codec acceptors t held')
    (hall : ∀ a, a ∈ acceptors) (hne : acceptors ≠ []) :
    SameContents codec s t ↔ held = held' := by
  constructor
  · intro hsame
    funext worId
    obtain ⟨a, ha⟩ := List.exists_mem_of_ne_nil acceptors hne
    rw [← (hs.holds worId a ha).2, ← (ht.holds worId a ha).2]
    exact hsame a worId
  · intro heq a worId
    rw [(hs.holds worId a (hall a)).2, (ht.holds worId a (hall a)).2, heq]

/-! ## The two chains side by side -/

theorem written_inj {i : PaxosInstance} {b : BallotId} {value value' : String}
    (h : i.written b value = i.written b value') : value = value' := by
  unfold PaxosInstance.written at h
  simpa using h

omit [DecidableEq A] in
/-- Two registers that hold the same, of which one writes `x` and the other `y`, under the same
ballot. -/
theorem write_alike_iff {u v : UnanimousRegister A} (hheld : u.held = v.held) (majorId lockId : Int)
    (x y : Option String) :
    ((u.write majorId lockId x).2 = (v.write majorId lockId y).2 ∧
        (u.write majorId lockId x).1.held = (v.write majorId lockId y).1.held) ↔
      ⟨majorId, lockId⟩ < u.held.promisedBallotId ∨ x = y ∨
        ∀ value, x = some value ∨ y = some value →
          u.held = u.held.written ⟨majorId, lockId⟩ value := by
  by_cases hlt : (⟨majorId, lockId⟩ : BallotId) < u.held.promisedBallotId
  · rw [UnanimousRegister.write_stale hlt, UnanimousRegister.write_stale (hheld ▸ hlt)]
    exact ⟨fun _ => .inl hlt, fun _ => ⟨rfl, hheld⟩⟩
  · have hlt' : ¬ (⟨majorId, lockId⟩ : BallotId) < v.held.promisedBallotId := hheld ▸ hlt
    have hcommitted : ∀ value, u.held = u.held.written ⟨majorId, lockId⟩ value →
        u.held.committed = true := by
      intro value hwritten
      rw [hwritten]
      rfl
    cases x with
    | none =>
      cases y with
      | none => exact ⟨fun _ => .inr (.inl rfl), fun _ => ⟨rfl, hheld⟩⟩
      | some value =>
        rw [UnanimousRegister.write_accepted hlt', ← hheld]
        constructor
        · rintro ⟨-, hsame⟩
          refine .inr (.inr ?_)
          intro value' h
          rcases h with h | h
          · cases h
          · cases h
            exact hsame
        · intro h
          rcases h with h | h | h
          · exact absurd h hlt
          · cases h
          · have hwritten := h value (.inr rfl)
            refine ⟨?_, hwritten⟩
            rw [hcommitted value hwritten]
            rfl
    | some value =>
      rw [UnanimousRegister.write_accepted hlt]
      cases y with
      | none =>
        constructor
        · rintro ⟨-, hsame⟩
          refine .inr (.inr ?_)
          intro value' h
          rcases h with h | h
          · cases h
            rw [hheld]
            exact hsame.symm.trans (by rw [hheld])
          · cases h
        · intro h
          rcases h with h | h | h
          · exact absurd h hlt
          · cases h
          · have hwritten := h value (.inl rfl)
            refine ⟨?_, hwritten.symm.trans hheld⟩
            rw [hcommitted value hwritten]
            rfl
      | some value' =>
        rw [UnanimousRegister.write_accepted hlt', ← hheld]
        constructor
        · rintro ⟨-, hsame⟩
          exact .inr (.inl (congrArg some (written_inj hsame)))
        · intro h
          rcases h with h | h | h
          · exact absurd h hlt
          · cases h
            exact ⟨rfl, rfl⟩
          · have hwritten := (h value (.inl rfl)).symm.trans (h value' (.inr rfl))
            rw [written_inj hwritten]
            exact ⟨rfl, rfl⟩

omit [DecidableEq A] in
/-- `lock()` asks nothing of the proposer, and leaves it as it leaves any other. -/
theorem lock_alike {u v : UnanimousRegister A} (hlockId : u.lockId = v.lockId)
    (hheld : u.held = v.held)
    (hprepare : u.proposer.prepareAcceptors = v.proposer.prepareAcceptors) (majorId : Int) :
    (u.lock majorId).2 = (v.lock majorId).2 ∧
      (u.lock majorId).1.held = (v.lock majorId).1.held ∧
      (u.lock majorId).1.lockId = (v.lock majorId).1.lockId ∧
      (u.lock majorId).1.proposer.sends = (v.lock majorId).1.proposer.sends := by
  unfold UnanimousRegister.lock
  rw [hlockId, hheld, hprepare]
  by_cases hlt : v.held.promisedBallotId < ⟨majorId, v.lockId + 1⟩
  · rw [if_pos hlt, if_pos hlt]
    exact ⟨rfl, rfl, rfl, rfl⟩
  · rw [if_neg hlt, if_neg hlt]
    exact ⟨rfl, rfl, rfl, rfl⟩

/-- The chains hold the same, and each own proposer would send what the shared one would have sent
after the last `lock()` of its register. -/
structure Alike (codec : Codec PaxosInstance β) (acceptors : List A) (s : PaxosChain Unit A κ)
    (t : PaxosChain Int A κ) (left : Int → ProposerImpl A) (held : Int → PaxosInstance) : Prop where
  registers : s.registers = t.registers
  shared : Uniform codec acceptors s held
  own : Uniform codec acceptors t held
  sends : ∀ worId, (t.proposers worId).sends = (left worId).sends

section alike

variable [LawfulKVStoreLite κ β] {s : PaxosChain Unit A κ} {t : PaxosChain Int A κ}
  {left : Int → ProposerImpl A} {c : RegisterCall}

/-- A call of a register that is the same for both views of it. -/
theorem Alike.register (h : Alike codec acceptors s t left held) (hne : acceptors ≠ [])
    (hnodup : acceptors.Nodup) (hget : s.registers.get worId = some lockId)
    {u u' : UnanimousRegister A} {answer answer' : RegisterAnswer}
    (hu : (s.view (fun _ => ()) held worId lockId).step worId c = (u, answer))
    (hu' : (t.view id held worId lockId).step worId c = (u', answer')) (hanswer : answer = answer')
    (hheld : u.held = u'.held) (hlockId : u.lockId = u'.lockId)
    (hsends : u'.proposer.sends = (noteLock codec s left (.register worId c) worId).sends) :
    (sharedStep codec s (.register worId c)).2 = (ownStep codec t (.register worId c)).2 ∧
      ∃ held', Alike codec acceptors (sharedStep codec s (.register worId c)).1
        (ownStep codec t (.register worId c)).1 (noteLock codec s left (.register worId c)) held' := by
  obtain ⟨s', hs, hsregisters, -, huniform⟩ := step_register (fun _ => ()) h.shared hne hnodup
    hget c
  obtain ⟨t', ht, htregisters, htproposers, huniform'⟩ := step_register id h.own hne hnodup
    (h.registers ▸ hget) c
  have hother : ∀ worId', worId' ≠ worId →
      noteLock codec s left (.register worId c) worId' = left worId' := by
    intro worId' hid
    unfold noteLock
    cases c with
    | lock =>
      dsimp only
      split
      · exact Function.update_of_ne hid ..
      · rfl
    | write lockId payload => rfl
    | read => rfl
  rw [hu] at hs hsregisters huniform
  rw [hu'] at ht htregisters htproposers huniform'
  dsimp only at hs ht hsregisters htregisters htproposers huniform huniform'
  unfold sharedStep ownStep
  rw [hs, ht]
  refine ⟨congrArg (fun answer => ChainAnswer.answered (.ok answer)) hanswer, _, ?_, huniform,
    hheld ▸ huniform', ?_⟩
  · dsimp only
    rw [hsregisters, htregisters, h.registers, hlockId]
  · intro worId'
    dsimp only
    rw [htproposers]
    by_cases hid : worId' = worId
    · subst hid
      rw [id_eq, Function.update_self]
      exact hsends
    · have hne' : worId' ≠ id worId := hid
      rw [Function.update_of_ne hne', hother worId' hid]
      exact h.sends worId'

omit [LawfulKVStoreLite κ β] in
/-- `chain_->append()`. -/
theorem Alike.append (h : Alike codec acceptors s t left held) :
    (sharedStep codec s .append).2 = (ownStep codec t .append).2 ∧
      Alike codec acceptors (sharedStep codec s .append).1 (ownStep codec t .append).1 left held := by
  obtain ⟨hregisters, ⟨hunanimous, hholds⟩, ⟨hunanimous', hholds'⟩, hsends⟩ := h
  unfold sharedStep ownStep step
  dsimp only
  rw [hregisters]
  exact ⟨rfl, rfl, ⟨hunanimous, hholds⟩, ⟨hunanimous', hholds'⟩, hsends⟩

omit [LawfulKVStoreLite κ β] in
/-- A register that is not there. -/
theorem Alike.notFound (h : Alike codec acceptors s t left held)
    (hget : s.registers.get worId = none) :
    (sharedStep codec s (.register worId c)).2 = (ownStep codec t (.register worId c)).2 ∧
      Alike codec acceptors (sharedStep codec s (.register worId c)).1
        (ownStep codec t (.register worId c)).1 (noteLock codec s left (.register worId c)) held := by
  have hget' : t.registers.get worId = none := h.registers ▸ hget
  have hleft : noteLock codec s left (.register worId c) = left := by
    unfold noteLock
    cases c with
    | lock =>
      dsimp only
      rw [hget]
      rfl
    | write lockId payload => rfl
    | read => rfl
  rw [hleft]
  unfold sharedStep ownStep step
  dsimp only
  rw [hget, hget']
  exact ⟨rfl, h⟩

theorem Alike.lock (h : Alike codec acceptors s t left held) (hne : acceptors ≠ [])
    (hnodup : acceptors.Nodup) (hget : s.registers.get worId = some lockId) :
    (sharedStep codec s (.register worId .lock)).2 = (ownStep codec t (.register worId .lock)).2 ∧
      ∃ held', Alike codec acceptors (sharedStep codec s (.register worId .lock)).1
        (ownStep codec t (.register worId .lock)).1
        (noteLock codec s left (.register worId .lock)) held' := by
  have hprepare : (s.proposers ()).prepareAcceptors = (t.proposers worId).prepareAcceptors := by
    rw [(h.shared.unanimous ()).prepareAcceptors, (h.own.unanimous worId).prepareAcceptors]
  obtain ⟨hanswer, hheld, hlockId, hsends⟩ := lock_alike
    (u := s.view (fun _ => ()) held worId lockId) (v := t.view id held worId lockId) rfl rfl
    hprepare worId
  refine h.register hne hnodup hget UnanimousRegister.step_lock UnanimousRegister.step_lock
    (congrArg _ hanswer) hheld hlockId ?_
  · -- what this `lock()` leaves is noted
    obtain ⟨s', hs, -, hsproposers, -⟩ := step_register (fun _ => ()) h.shared hne hnodup
      hget .lock
    unfold noteLock
    dsimp only
    rw [hget]
    unfold sharedStep
    rw [hs]
    dsimp only
    rw [if_pos Option.isSome_some, Function.update_self, hsproposers, Function.update_self]
    exact hsends.symm

theorem Alike.read (h : Alike codec acceptors s t left held) (hne : acceptors ≠ [])
    (hnodup : acceptors.Nodup) (hget : s.registers.get worId = some lockId) :
    (sharedStep codec s (.register worId .read)).2 = (ownStep codec t (.register worId .read)).2 ∧
      ∃ held', Alike codec acceptors (sharedStep codec s (.register worId .read)).1
        (ownStep codec t (.register worId .read)).1
        (noteLock codec s left (.register worId .read)) held' :=
  h.register hne hnodup hget rfl rfl rfl rfl rfl (h.sends worId)

/-- **A `write`** is the same exactly if it is harmless. -/
theorem Alike.write (h : Alike codec acceptors s t left held) (hne : acceptors ≠ [])
    (hnodup : acceptors.Nodup) (hall : ∀ a, a ∈ acceptors)
    (hget : s.registers.get worId = some lockId) (lockId' : Int) (payload : String) :
    ((sharedStep codec s (.register worId (.write lockId' payload))).2 =
          (ownStep codec t (.register worId (.write lockId' payload))).2 ∧
        SameContents codec (sharedStep codec s (.register worId (.write lockId' payload))).1
          (ownStep codec t (.register worId (.write lockId' payload))).1) ↔
      Harmless codec s left (.register worId (.write lockId' payload)) := by
  obtain ⟨s', hs, -, -, huniform⟩ := step_register (fun _ => ()) h.shared hne hnodup hget
    (.write lockId' payload)
  obtain ⟨t', ht, -, -, huniform'⟩ := step_register id h.own hne hnodup
    (h.registers ▸ hget) (.write lockId' payload)
  have halike := write_alike_iff (u := s.view (fun _ => ()) held worId lockId)
    (v := t.view id held worId lockId) rfl worId lockId' ((s.proposers ()).sends payload)
    ((t.proposers worId).sends payload)
  unfold sharedStep ownStep
  rw [hs, ht]
  dsimp only
  rw [sameContents_iff huniform huniform' hall hne, (Function.update_injective held worId).eq_iff]
  rw [UnanimousRegister.step_write, UnanimousRegister.step_write, ChainAnswer.answered.injEq,
    Except.ok.injEq, RegisterAnswer.written.injEq]
  refine halike.trans ?_
  rw [h.sends worId]
  unfold Harmless
  constructor
  · intro hcond _ a
    rw [(h.shared.holds worId a (hall a)).2]
    exact hcond
  · intro hharmless
    obtain ⟨a, ha⟩ := List.exists_mem_of_ne_nil acceptors hne
    have hcond := hharmless (by rw [hget]; rfl) a
    rw [(h.shared.holds worId a ha).2] at hcond
    exact hcond

/-- The chains stay alike under a harmless `write`. -/
theorem Alike.write_harmless (h : Alike codec acceptors s t left held) (hne : acceptors ≠ [])
    (hnodup : acceptors.Nodup)
    (hget : s.registers.get worId = some lockId) {lockId' : Int} {payload : String}
    (hharmless : Harmless codec s left (.register worId (.write lockId' payload))) :
    ∃ held', Alike codec acceptors (sharedStep codec s (.register worId (.write lockId' payload))).1
      (ownStep codec t (.register worId (.write lockId' payload))).1 left held' := by
  have hcond := hharmless (by rw [hget]; rfl)
  obtain ⟨a, ha⟩ := List.exists_mem_of_ne_nil acceptors hne
  have hcond := hcond a
  dsimp only at hcond
  rw [(h.shared.holds worId a ha).2, ← h.sends worId] at hcond
  obtain ⟨hanswer, hheld⟩ := (write_alike_iff (u := s.view (fun _ => ()) held worId lockId)
    (v := t.view id held worId lockId) rfl worId lockId' _ _).mpr hcond
  have hboth := h.register hne hnodup hget UnanimousRegister.step_write UnanimousRegister.step_write
    (congrArg _ hanswer) hheld ?_ ?_
  · exact hboth.2
  · rw [UnanimousRegister.write_lockId, UnanimousRegister.write_lockId]
    rfl
  · rw [UnanimousRegister.write_proposer]
    exact h.sends worId

/-- **One call** of both chains: they do the same exactly if it is harmless, and then they are
alike again. -/
theorem Alike.step (h : Alike codec acceptors s t left held) (hne : acceptors ≠ [])
    (hnodup : acceptors.Nodup) (hall : ∀ a, a ∈ acceptors) (c : ChainCall) :
    (((sharedStep codec s c).2 = (ownStep codec t c).2 ∧
        SameContents codec (sharedStep codec s c).1 (ownStep codec t c).1) ↔ Harmless codec s left c) ∧
      (Harmless codec s left c → ∃ held', Alike codec acceptors (sharedStep codec s c).1
        (ownStep codec t c).1 (noteLock codec s left c) held') := by
  have hsame : ∀ {s : PaxosChain Unit A κ} {t : PaxosChain Int A κ} {left held},
      Alike codec acceptors s t left held → SameContents codec s t :=
    fun h => (sameContents_iff h.shared h.own hall hne).mpr rfl
  cases c with
  | append =>
    obtain ⟨hanswer, halike⟩ := h.append
    exact ⟨⟨fun _ => trivial, fun _ => ⟨hanswer, hsame halike⟩⟩, fun _ => ⟨held, halike⟩⟩
  | register worId c =>
    cases hget : s.registers.get worId with
    | none =>
      obtain ⟨hanswer, halike⟩ := h.notFound (c := c) hget
      have hharmless : Harmless codec s left (.register worId c) := by
        cases c with
        | lock => exact trivial
        | write lockId payload =>
          intro hsome
          rw [hget] at hsome
          cases hsome
        | read => exact trivial
      exact ⟨⟨fun _ => hharmless, fun _ => ⟨hanswer, hsame halike⟩⟩, fun _ => ⟨held, halike⟩⟩
    | some lockId =>
      cases c with
      | lock =>
        obtain ⟨hanswer, held', halike⟩ := h.lock hne hnodup hget
        exact ⟨⟨fun _ => trivial, fun _ => ⟨hanswer, hsame halike⟩⟩, fun _ => ⟨held', halike⟩⟩
      | read =>
        obtain ⟨hanswer, held', halike⟩ := h.read hne hnodup hget
        exact ⟨⟨fun _ => trivial, fun _ => ⟨hanswer, hsame halike⟩⟩, fun _ => ⟨held', halike⟩⟩
      | write lockId' payload =>
        exact ⟨h.write hne hnodup hall hget lockId' payload,
          fun hharmless => h.write_harmless hne hnodup hget hharmless⟩

/-- **All calls.** -/
theorem Alike.along_iff (h : Alike codec acceptors s t left held) (hne : acceptors ≠ [])
    (hnodup : acceptors.Nodup) (hall : ∀ a, a ∈ acceptors) (calls : List ChainCall) :
    Lockstep.Along (sharedStep codec) (ownStep codec)
        (fun s t c => (sharedStep codec s c).2 = (ownStep codec t c).2 ∧
          SameContents codec (sharedStep codec s c).1 (ownStep codec t c).1) s t calls ↔
      Undisturbed codec s left calls := by
  induction calls generalizing s t left held with
  | nil => exact Iff.rfl
  | cons c calls ih =>
    obtain ⟨hiff, hnext⟩ := h.step hne hnodup hall c
    constructor
    · intro ⟨hsame, hrest⟩
      have hharmless := hiff.mp hsame
      obtain ⟨held', halike⟩ := hnext hharmless
      exact ⟨hharmless, (ih halike).mp hrest⟩
    · intro ⟨hharmless, hrest⟩
      obtain ⟨held', halike⟩ := hnext hharmless
      exact ⟨hiff.mpr hharmless, (ih halike).mpr hrest⟩

end alike

/-! ## The registers of `makeChainUsingPaxosWor` -/

omit [DecidableEq A] [DecidableEq K] in
theorem uniform_make {stores : A → κ}
    (hfresh : ∀ a ∈ acceptors, ∀ id, KVStoreLite.get (stores a) (keyFormat id) = none) :
    Uniform codec acceptors (make acceptors stores : PaxosChain K A κ)
      fun worId => freshInstance (instanceId worId) where
  unanimous _ := ⟨rfl, rfl, .inl rfl⟩
  holds _ a ha := ⟨wellFormed_of_empty (hfresh a ha), instanceOf_of_empty (hfresh a ha) _⟩

/-- The proposer before any `lock()`. -/
def unlocked : ProposerImpl (Fin 5) :=
  { majority := 5, prepareAcceptors := List.finRange 5 }

/-- **The registers are independent** exactly if no `write` goes out with what a `lock()` of another
register has left. -/
theorem independent_iff (codec : Codec PaxosInstance β) (calls : List ChainCall) :
    Independent codec calls ↔ Undisturbed codec makeChainUsingPaxosWor (fun _ => unlocked) calls := by
  have hfresh : ∀ a ∈ List.finRange 5, ∀ id, KVStoreLite.get
      ((fun _ => RocksStore.provideSharedPtr false : Fin 5 → RocksStore β) a) (keyFormat id) = none :=
    fun _ _ _ => rfl
  have hstart : Alike codec (List.finRange 5) makeChainUsingPaxosWor makeChainWithOwnProposers
      (fun _ => unlocked) fun worId => freshInstance (instanceId worId) :=
    ⟨rfl, uniform_make hfresh, uniform_make hfresh, fun _ => rfl⟩
  exact hstart.along_iff (by decide) (List.nodup_finRange 5) List.mem_finRange calls

theorem Independent.answers_eq {codec : Codec PaxosInstance β} {calls : List ChainCall}
    (h : Independent codec calls) :
    Lockstep.answers (sharedStep codec) makeChainUsingPaxosWor calls =
      Lockstep.answers (ownStep codec) makeChainWithOwnProposers calls :=
  Lockstep.answers_eq (R := fun _ _ => True) (fun _ _ _ _ hok => ⟨hok.1, trivial⟩) trivial h

/-- **The value of one register is written into another.** Register 1 holds "a". Register 2 is
locked; register 1 is locked once more, which selects "a"; and then "b" is written to register 2.
The write answers `true`, and register 2 holds "a". -/
theorem value_crosses_registers :
    ¬ Independent (Codec.identity PaxosInstance) [.append, .append, .register 1 .lock,
      .register 1 (.write 1 "a"), .register 2 .lock, .register 1 .lock,
      .register 2 (.write 1 "b"), .register 2 .read] := by
  intro h
  have hanswers := h.answers_eq
  revert hanswers
  decide +kernel

end PaxosChain

end ReplicatedCounter.Paxos
