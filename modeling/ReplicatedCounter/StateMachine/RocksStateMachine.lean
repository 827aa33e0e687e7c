import ReplicatedCounter.Lib.Fallible
import ReplicatedCounter.Lib.IntRange
import ReplicatedCounter.Paxos.ChainAppender
import ReplicatedCounter.StateMachine.RocksTxnApplicator

/-!
# `statemachine/RocksStateMachine.h`

A transaction is appended to a chain of registers, and before it is applied, so is everything in
front of it. `lastAppliedWorId_` is to say where to begin, but nothing ever moves it: each append
applies the chain from register 1 on, over a database that has most of it already.

That does no harm (`replay_harmless`). What a database has was written by a beginning of the chain,
and writing the whole chain leaves nothing of that to see.
-/

set_option autoImplicit false

namespace ReplicatedCounter.StateMachine

open Transition
open Paxos (InMemoryChain ChainAppender InMemoryWriteOnceRegister WriteOnceRegisterChainImpl)

/-! ## The appender, alone -/

/-- `appender_->append(payload)`, while nobody else is at work on the chain: two calls of the chain
and two of the register. -/
def appendAlone (chain : InMemoryChain) (payload : String) : Option (InMemoryChain × Int) :=
  let s := ChainAppender.after payload [] { chain, maxNumberOfAttempts := 2147483647 } 4
  match s.phase with
  | .returned worId => some (s.chain, worId)
  | _ => none

/-- The register the appender leaves behind. -/
def written (payload : String) : InMemoryWriteOnceRegister where
  lockId := 1
  committed := true
  payload

theorem worId_onRegister {R : Type} {chain : WriteOnceRegisterChainImpl R} {id : Int} {f : R → R} :
    (chain.onRegister id f).worId = chain.worId := by
  unfold WriteOnceRegisterChainImpl.onRegister
  split <;> rfl

/-- What the appender has done after its calls: it has made a register, and locked it and written to
it. -/
def claimed (chain : InMemoryChain) (payload : String) : InMemoryChain :=
  let chain₁ := (chain.append fun _ => {}).1
  let chain₂ := chain₁.onRegister (chain.worId + 1) fun _ => { lockId := 1 }
  chain₂.onRegister (chain.worId + 1) fun _ => written payload

theorem get_claimed (chain : InMemoryChain) (payload : String) (id : Int) :
    (claimed chain payload).get id =
      if id = chain.worId + 1 then some (written payload) else chain.get id := by
  unfold claimed
  dsimp only
  simp only [WriteOnceRegisterChainImpl.get_onRegister, WriteOnceRegisterChainImpl.get_append, if_true]
  split <;> rfl

theorem worId_claimed (chain : InMemoryChain) (payload : String) :
    (claimed chain payload).worId = chain.worId + 1 := by
  unfold claimed
  rw [worId_onRegister, worId_onRegister]
  rfl

/-- **Alone, the appender takes the next register.** -/
theorem appendAlone_eq (chain : InMemoryChain) (payload : String) :
    appendAlone chain payload = some (claimed chain payload, chain.worId + 1) := by
  have hnew : ((chain.append fun _ => ({} : InMemoryWriteOnceRegister)).1).get (chain.worId + 1) =
      some {} := by
    rw [WriteOnceRegisterChainImpl.get_append, if_pos rfl]
  have hlocked : (((chain.append fun _ => ({} : InMemoryWriteOnceRegister)).1).onRegister
      (chain.worId + 1) fun _ => { lockId := 1 }).get (chain.worId + 1) = some { lockId := 1 } := by
    rw [WriteOnceRegisterChainImpl.get_onRegister, if_pos rfl, hnew]
    rfl
  have happending : ChainAppender.call payload { chain, maxNumberOfAttempts := 2147483647 } =
      { chain := (chain.append fun _ => {}).1, maxNumberOfAttempts := 2147483647
        phase := .getting (chain.worId + 1) } := rfl
  have hgetting : ChainAppender.call payload
      { chain := (chain.append fun _ => {}).1, maxNumberOfAttempts := 2147483647
        phase := .getting (chain.worId + 1) } =
      { chain := (chain.append fun _ => {}).1, maxNumberOfAttempts := 2147483647 - 1
        phase := .locking (chain.worId + 1), tried := [chain.worId + 1] } := by
    unfold ChainAppender.call
    dsimp only
    rw [hnew]
  have hlocking : ChainAppender.call payload
      { chain := (chain.append fun _ => {}).1, maxNumberOfAttempts := 2147483647 - 1
        phase := .locking (chain.worId + 1), tried := [chain.worId + 1] } =
      { chain := (chain.append fun _ => {}).1.onRegister (chain.worId + 1) fun _ => { lockId := 1 }
        maxNumberOfAttempts := 2147483647 - 1
        phase := .writing (chain.worId + 1) 1, tried := [chain.worId + 1] } := by
    unfold ChainAppender.call
    dsimp only
    rw [hnew]
    rfl
  have hwriting : ChainAppender.call payload
      { chain := (chain.append fun _ => {}).1.onRegister (chain.worId + 1) fun _ => { lockId := 1 }
        maxNumberOfAttempts := 2147483647 - 1
        phase := .writing (chain.worId + 1) 1, tried := [chain.worId + 1] } =
      { chain := claimed chain payload
        maxNumberOfAttempts := 2147483647 - 1
        phase := .returned (chain.worId + 1), tried := [chain.worId + 1] } := by
    unfold ChainAppender.call
    dsimp only
    rw [hlocked]
    rfl
  have hafter : ChainAppender.after payload [] { chain, maxNumberOfAttempts := 2147483647 } 4 =
      { chain := claimed chain payload
        maxNumberOfAttempts := 2147483647 - 1
        phase := .returned (chain.worId + 1), tried := [chain.worId + 1] } := by
    show ChainAppender.call payload (ChainAppender.call payload (ChainAppender.call payload
      (ChainAppender.call payload { chain, maxNumberOfAttempts := 2147483647 }))) = _
    rw [happending, hgetting, hlocking, hwriting]
  unfold appendAlone
  rw [hafter]

/-! ## `RocksStateMachine` -/

/-- `RocksStateMachine`, with its applicator. The chain is shared. -/
structure RocksStateMachine where
  lastAppliedWorId : Int := 0
  applicator : RocksTxnApplicator := {}

/-- The database of a machine. -/
abbrev RocksStateMachine.rocks (m : RocksStateMachine) : SortedMap String String := m.applicator.rocks

/-- `std::get<std::string>` of what is read from a register of the chain. Nothing if the register is
not there, which is an assertion, or not written, which throws. -/
def readPayload (chain : InMemoryChain) (id : Int) : Option String :=
  match chain.get id with
  | none => none
  | some wor => wor.read.toOption

/-- The body of the loop in `RocksStateMachine::append`. The payload comes back without a log id. -/
def replay (codec : Codec RocksTxn1 String) (chain : InMemoryChain) (applicator : RocksTxnApplicator)
    (i : Int) : Option RocksTxnApplicator := do
  let serializedPayload ← readPayload chain i
  let (_, applicator) ← applicator.apply codec { serializedPayload } true
  return applicator

/-- `RocksStateMachine::append` behind the appender: the loop over the registers before `toWorId`,
and the transaction itself. The databases do what they are told. -/
def RocksStateMachine.applyUpTo (codec : Codec RocksTxn1 String) (chain : InMemoryChain) (toWorId : Int)
    (m : RocksStateMachine) (txn : RocksTxn) : Option (RocksTxnResult × RocksStateMachine) := do
  let applicator ← (Int.range (m.lastAppliedWorId + 1) toWorId).foldlM (replay codec chain) m.applicator
  let (result, applicator) ← applicator.apply codec txn true
  return (result, { m with applicator })

/-- Machines over one chain of registers in memory. -/
structure RocksCluster (ν : Type) where
  chain : InMemoryChain := {}
  machines : ν → RocksStateMachine

namespace RocksCluster

variable {ν : Type} [DecidableEq ν]

/-- `RocksStateMachine::append` of one of the machines, from its call to its return. -/
def append (codec : Codec RocksTxn1 String) (s : RocksCluster ν) (i : ν) (txn : RocksTxn) :
    Option (Int × RocksTxnResult × RocksCluster ν) := do
  let (chain, toWorId) ← appendAlone s.chain txn.serializedPayload
  let (result, m) ← (s.machines i).applyUpTo codec chain toWorId txn
  return (toWorId, result, { chain, machines := Function.update s.machines i m })

/-- An append that throws ends the run: its payload does not parse, and stays in the chain, where
every later append throws at it. -/
def step (codec : Codec RocksTxn1 String) (s : RocksCluster ν) (e : ν × RocksTxn) :
    Option (RocksCluster ν) :=
  (s.append codec e.1 e.2).map (·.2.2)

end RocksCluster

/-- The write sets of registers `1, …, n`, in order: puts, then deletes, of each. -/
def writeSets (codec : Codec RocksTxn1 String) (chain : InMemoryChain) :
    Nat → Option (WriteBatch String String)
  | 0 => some []
  | n + 1 => do
    let batch ← writeSets codec chain n
    let serializedPayload ← readPayload chain (n + 1)
    let rockTxn1 ← codec.parse serializedPayload
    return batch ++ rockTxn1.batch

/-! ## Replaying the chain -/

variable {codec : Codec RocksTxn1 String} {chain chain' : InMemoryChain} {n m : Nat}
  {batch : WriteBatch String String} {applicator : RocksTxnApplicator} {txn : RocksTxn}

theorem writeSets_succ : writeSets codec chain (n + 1) = some batch ↔
    ∃ front payload rockTxn1, writeSets codec chain n = some front ∧
      readPayload chain (n + 1) = some payload ∧ codec.parse payload = some rockTxn1 ∧
      batch = front ++ rockTxn1.batch := by
  constructor
  · intro h
    rw [writeSets] at h
    obtain ⟨front, hfront, h⟩ := Option.bind_eq_some_iff.mp h
    obtain ⟨payload, hpayload, h⟩ := Option.bind_eq_some_iff.mp h
    obtain ⟨rockTxn1, hparse, h⟩ := Option.bind_eq_some_iff.mp h
    cases h
    exact ⟨front, payload, rockTxn1, hfront, hpayload, hparse, rfl⟩
  · rintro ⟨front, payload, rockTxn1, hfront, hpayload, hparse, rfl⟩
    rw [writeSets]
    refine Option.bind_eq_some_iff.mpr ⟨front, hfront, ?_⟩
    refine Option.bind_eq_some_iff.mpr ⟨payload, hpayload, ?_⟩
    exact Option.bind_eq_some_iff.mpr ⟨rockTxn1, hparse, rfl⟩

/-- What the first registers hold is the beginning of what they all hold. -/
theorem writeSets_prefix (h : writeSets codec chain n = some batch) (hm : m ≤ n) :
    ∃ front, writeSets codec chain m = some front ∧ front <+: batch := by
  induction n generalizing batch with
  | zero =>
    obtain rfl := Nat.le_zero.mp hm
    exact ⟨batch, h, List.prefix_rfl⟩
  | succ n ih =>
    rcases Nat.le_succ_iff.mp hm with hle | rfl
    · obtain ⟨front, -, rockTxn1, hfront, -, -, rfl⟩ := writeSets_succ.mp h
      obtain ⟨front', hfront', hbegins⟩ := ih hfront hle
      exact ⟨front', hfront', hbegins.trans (List.prefix_append _ _)⟩
    · exact ⟨batch, h, List.prefix_rfl⟩

theorem writeSets_congr (h : ∀ i : Int, 1 ≤ i → i ≤ n → readPayload chain' i = readPayload chain i) :
    writeSets codec chain' n = writeSets codec chain n := by
  induction n with
  | zero => rfl
  | succ n ih =>
    unfold writeSets
    rw [ih fun i hi hle => h i hi (by omega), h (n + 1) (by omega) (by omega)]

/-- A transaction without a speculative execution writes its write set, if its payload parses. -/
theorem apply_eq (codec : Codec RocksTxn1 String) (applicator : RocksTxnApplicator) {txn : RocksTxn}
    (hexec : txn.speculativeExecution = none) :
    (applicator.apply codec txn true = none ∧ codec.parse txn.serializedPayload = none) ∨
    ∃ rockTxn1 result applicator', codec.parse txn.serializedPayload = some rockTxn1 ∧
      applicator.apply codec txn true = some (result, applicator') ∧
      applicator'.rocks = WriteBatch.write applicator.rocks rockTxn1.batch := by
  unfold RocksTxnApplicator.apply
  rw [hexec]
  dsimp only
  unfold RocksTxnApplicator.reexecute
  cases hparse : codec.parse txn.serializedPayload with
  | none => exact .inl ⟨rfl, rfl⟩
  | some rockTxn1 => exact .inr ⟨rockTxn1, _, _, rfl, rfl, rfl⟩

/-- **The loop writes what the registers hold**, over whatever is there. -/
theorem foldlM_replay (applicator : RocksTxnApplicator) (h : writeSets codec chain n = some batch) :
    ∃ applicator', (Int.range 1 (n + 1)).foldlM (replay codec chain) applicator = some applicator' ∧
      applicator'.rocks = WriteBatch.write applicator.rocks batch := by
  induction n generalizing batch with
  | zero =>
    cases h
    exact ⟨applicator, by rw [Int.natCast_zero, Int.zero_add, Int.range_self]; rfl, rfl⟩
  | succ n ih =>
    obtain ⟨front, payload, rockTxn1, hfront, hpayload, hparse, rfl⟩ := writeSets_succ.mp h
    obtain ⟨middle, hloop, hmiddle⟩ := ih hfront
    have hexec : ({ serializedPayload := payload } : RocksTxn).speculativeExecution = none := rfl
    rcases apply_eq codec middle hexec with
      ⟨-, hnone⟩ | ⟨rockTxn1', result, last, hparse', happly, hlast⟩
    · rw [hparse] at hnone
      cases hnone
    · obtain rfl : rockTxn1 = rockTxn1' := Option.some.inj (hparse.symm.trans hparse')
      refine ⟨last, ?_, ?_⟩
      · rw [Int.range_concat (by omega), List.foldlM_append, Int.natCast_succ, hloop]
        show (List.foldlM (replay codec chain) middle [_] : Option _) = _
        unfold replay
        simp [hpayload, happly]
      · rw [hlast, hmiddle, WriteBatch.write_append]

/-! ## A run of appends -/

namespace RocksCluster

variable {ν : Type} {s₀ s : RocksCluster ν} {i : ν} {es : List (ν × RocksTxn)}

/-- A chain without registers, and machines that have applied nothing. -/
structure Fresh (s₀ : RocksCluster ν) : Prop where
  chain : s₀.chain = {}
  machines : ∀ i, (s₀.machines i).lastAppliedWorId = 0

/-- All registers are written, and each database is what a beginning of them has made of it. -/
structure Replayed (codec : Codec RocksTxn1 String) (s₀ s : RocksCluster ν) (n : Nat) : Prop where
  worId : s.chain.worId = n
  written : ∃ batch, writeSets codec s.chain n = some batch
  lastAppliedWorId : ∀ i, (s.machines i).lastAppliedWorId = 0
  machines : ∀ i, ∃ m batch, m ≤ n ∧ writeSets codec s.chain m = some batch ∧
    (s.machines i).rocks = WriteBatch.write (s₀.machines i).rocks batch

theorem Fresh.replayed (h : s₀.Fresh) : Replayed codec s₀ s₀ 0 where
  worId := by
    rw [h.chain]
    rfl
  written := ⟨[], rfl⟩
  lastAppliedWorId := h.machines
  machines _ := ⟨0, [], le_rfl, rfl, rfl⟩

theorem readPayload_claimed (payload : String) {id : Int} (h : id ≤ chain.worId) :
    readPayload (claimed chain payload) id = readPayload chain id := by
  unfold readPayload
  rw [get_claimed, if_neg (by omega)]

variable [DecidableEq ν]

/-- **One append**, of any machine. It returns if the payload parses, with the whole chain applied
to the database of the machine. -/
theorem Replayed.after_append (h : Replayed codec s₀ s n) (i : ν)
    (hexec : txn.speculativeExecution = none) :
    (s.append codec i txn = none ∧ codec.parse txn.serializedPayload = none) ∨
    ∃ result s' batch, s.append codec i txn = some (((n + 1 : Nat) : Int), result, s') ∧
      (codec.parse txn.serializedPayload).isSome = true ∧
      readPayload s'.chain (n + 1 : Nat) = some txn.serializedPayload ∧
      writeSets codec s'.chain (n + 1) = some batch ∧
      (s'.machines i).rocks = WriteBatch.write (s₀.machines i).rocks batch ∧
      Replayed codec s₀ s' (n + 1) := by
  obtain ⟨front, hfront⟩ := h.written
  obtain ⟨m, old, hm, hold, hrocks⟩ := h.machines i
  have hclaimed : ∀ {k : Nat}, k ≤ n →
      writeSets codec (claimed s.chain txn.serializedPayload) k = writeSets codec s.chain k := by
    intro k hk
    refine writeSets_congr fun j _ hj => readPayload_claimed _ ?_
    rw [h.worId]
    omega
  have hlast : readPayload (claimed s.chain txn.serializedPayload) (n + 1 : Nat) =
      some txn.serializedPayload := by
    unfold readPayload
    rw [get_claimed, if_pos (by rw [h.worId]; omega)]
    rfl
  obtain ⟨middle, hloop, hmiddle⟩ :=
    foldlM_replay (s.machines i).applicator ((hclaimed le_rfl).trans hfront)
  -- what the database has is a part of what the loop writes
  have habsorbed : middle.rocks = WriteBatch.write (s₀.machines i).rocks front := by
    obtain ⟨front', hfront', hbegins⟩ := writeSets_prefix hfront hm
    obtain rfl : old = front' := Option.some.inj (hold.symm.trans hfront')
    rw [hmiddle]
    show WriteBatch.write (s.machines i).rocks front = _
    rw [hrocks]
    exact WriteBatch.write_write_of_subset (hbegins.sublist.map _).subset
  have happend : s.append codec i txn =
      ((middle.apply codec txn true).map fun (result, applicator) =>
        (((n + 1 : Nat) : Int), result,
          { chain := claimed s.chain txn.serializedPayload
            machines := Function.update s.machines i { applicator } })) := by
    unfold RocksCluster.append RocksStateMachine.applyUpTo
    rw [appendAlone_eq, h.lastAppliedWorId i, h.worId]
    simp only [Option.bind_eq_bind, Option.bind_some, Int.zero_add, hloop]
    cases middle.apply codec txn true with
    | none => rfl
    | some next => rfl
  rcases apply_eq codec middle hexec with
    ⟨hnone, hparse⟩ | ⟨rockTxn1, result, applicator', hparse, happly, hwrite⟩
  · exact .inl ⟨by rw [happend, hnone]; rfl, hparse⟩
  · have hall : writeSets codec (claimed s.chain txn.serializedPayload) (n + 1) =
        some (front ++ rockTxn1.batch) :=
      writeSets_succ.mpr ⟨front, _, rockTxn1, (hclaimed le_rfl).trans hfront, hlast, hparse, rfl⟩
    have hdatabase : applicator'.rocks =
        WriteBatch.write (s₀.machines i).rocks (front ++ rockTxn1.batch) := by
      rw [hwrite, habsorbed, WriteBatch.write_append]
    rw [happend, happly]
    refine .inr ⟨result, _, _, rfl, by rw [hparse]; rfl, hlast, hall, ?_, ?_⟩
    · dsimp only
      rw [Function.update_self]
      exact hdatabase
    · refine ⟨?_, ⟨_, hall⟩, fun j => ?_, fun j => ?_⟩
      · dsimp only
        rw [worId_claimed, h.worId]
        rfl
      · dsimp only
        by_cases hj : j = i
        · subst hj
          rw [Function.update_self]
        · rw [Function.update_of_ne hj]
          exact h.lastAppliedWorId j
      · dsimp only
        by_cases hj : j = i
        · subst hj
          rw [Function.update_self]
          exact ⟨n + 1, _, le_rfl, hall, hdatabase⟩
        · rw [Function.update_of_ne hj]
          obtain ⟨m', batch', hm', hbatch', hrocks'⟩ := h.machines j
          exact ⟨m', batch', by omega, (hclaimed hm').trans hbatch', hrocks'⟩

/-- After any appends. -/
theorem Fresh.run (h : s₀.Fresh) (hexec : ∀ e ∈ es, e.2.speculativeExecution = none)
    (hrun : run (step codec) s₀ es = some s) : ∃ n, Replayed codec s₀ s n := by
  have hmeets : Meets (step codec) (fun _ e => e.2.speculativeExecution = none) s₀ es :=
    meets_of_mem fun e he _ => hexec e he
  refine meets_invariant (P := fun s => ∃ n, Replayed codec s₀ s n) ?_ hrun hmeets ⟨0, h.replayed⟩
  rintro s ⟨i, txn⟩ s' ⟨n, hs⟩ hnone hstep
  unfold step at hstep
  rcases hs.after_append i hnone with ⟨happend, -⟩ | ⟨result, t, batch, happend, -, -, -, -, ht⟩
  · rw [happend] at hstep
    cases hstep
  · rw [happend] at hstep
    cases hstep
    exact ⟨n + 1, ht⟩

end RocksCluster

end ReplicatedCounter.StateMachine
