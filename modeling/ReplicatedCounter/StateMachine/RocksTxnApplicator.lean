import Mathlib.Data.String.Basic
import ReplicatedCounter.Lib.Transition
import ReplicatedCounter.Lib.Wire
import ReplicatedCounter.Lib.WriteBatch
import ReplicatedCounter.Persistence.KVStoreLite

/-!
# `statemachine/ConflictDetector.h` and `statemachine/RocksTxnApplicator.h`

A transaction may come with the writes of an execution that was made ahead of time, against the
state after some log id. If no transaction behind that id has touched the keys it used, its writes
go straight to the database; otherwise it is executed again, from its payload.

The detector is told the keys of a transaction under its log id, and keeps them by `emplace`: the
keys of a second transaction with the same log id are dropped. On the fast path it is told the
`keySet` of the execution, whatever keys the batch writes. `sound_iff` says how much of this can
happen without harm.
-/

set_option autoImplicit false

namespace ReplicatedCounter.StateMachine

/-! ## `statemachine/Common.h` and `statemachine/proto/RocksTxn.proto` -/

structure SpeculativeTxnResult where
  conflictDetected : Bool
  txnSucceeded : Bool
  deriving DecidableEq, Repr

structure RocksTxnResult where
  txnSucceeded : Bool
  speculativeTxnResult : SpeculativeTxnResult
  deriving DecidableEq, Repr

structure SpeculativeExecution where
  keySet : List String
  batch : WriteBatch String String
  logId : Int

structure RocksTxn where
  txnId : Int := 0
  speculativeExecution : Option SpeculativeExecution := none
  serializedPayload : String
  logId : Int := 0

structure KeyValue where
  key : String
  value : String
  deriving DecidableEq, Repr

/-- `RocksTxn_1`. -/
structure RocksTxn1 where
  id : String := ""
  readSet : List String := []
  writeSet : List KeyValue := []
  deleteSet : List String := []
  deriving DecidableEq, Repr

instance : Wire KeyValue := .ofEquiv (fun k => (k.key, k.value)) (fun p => ⟨p.1, p.2⟩) fun _ => rfl

instance : Wire RocksTxn1 :=
  .ofEquiv (fun t => (t.id, t.readSet, t.writeSet, t.deleteSet))
    (fun p => ⟨p.1, p.2.1, p.2.2.1, p.2.2.2⟩) fun _ => rfl

/-- A codec that can be run. -/
def RocksTxn1.wireCodec : Codec RocksTxn1 String where
  serialize := Wire.serialize
  parse := Wire.parse
  parse_serialize := Wire.parse_serialize

/-! ## `ConflictDetector` -/

structure ConflictDetector where
  keysModifiedSet : SortedMap Int (List String) := .empty

namespace ConflictDetector

/-- `ConflictDetector::addKeySet`. What is there under the log id stays. -/
def addKeySet (detector : ConflictDetector) (logId : Int) (keys : List String) : ConflictDetector :=
  match detector.keysModifiedSet.find? logId with
  | some _ => detector
  | none => { keysModifiedSet := detector.keysModifiedSet.insert logId keys }

/-- `ConflictDetector::conflicted`, from `upper_bound` on. -/
def conflicted (detector : ConflictDetector) (speculativeExecution : SpeculativeExecution) : Bool :=
  (detector.keysModifiedSet.entries.dropWhile (·.1 ≤ speculativeExecution.logId)).any fun entry =>
    speculativeExecution.keySet.any (· ∈ entry.2)

end ConflictDetector

/-! ## `RocksTxnApplicator` -/

/-- `RocksTxnApplicator`, with the database it writes to. -/
structure RocksTxnApplicator where
  conflictDetector : ConflictDetector := {}
  rocks : SortedMap String String := .empty

/-- What a transaction is executed to: its puts, then its deletes. -/
def RocksTxn1.batch (txn : RocksTxn1) : WriteBatch String String :=
  txn.writeSet.map (fun k => (k.key, some k.value)) ++ txn.deleteSet.map fun k => (k, none)

namespace RocksTxnApplicator

/-- `rocks_->Write`: what is left of a batch, given whether its status is `ok`. -/
def write (s : RocksTxnApplicator) (ok : Bool) (batch : WriteBatch String String) :
    SortedMap String String :=
  if ok then WriteBatch.write s.rocks batch else s.rocks

/-- The re-execution in `RocksTxnApplicator::apply`; nothing if the payload does not parse, which is
an assertion. -/
def reexecute (codec : Codec RocksTxn1 String) (s : RocksTxnApplicator) (txn : RocksTxn) (ok : Bool) :
    Option (RocksTxnResult × RocksTxnApplicator) :=
  match codec.parse txn.serializedPayload with
  | none => none
  | some rockTxn1 =>
    let rocks := s.write ok rockTxn1.batch
    if ok then
      some (⟨true, ⟨false, false⟩⟩,
        { conflictDetector := s.conflictDetector.addKeySet txn.logId rockTxn1.batch.keys, rocks })
    else
      some (⟨false, ⟨false, false⟩⟩, { s with rocks })

/-- `RocksTxnApplicator::apply`, where the database answers a write with the status `ok` or not. -/
def apply (codec : Codec RocksTxn1 String) (s : RocksTxnApplicator) (txn : RocksTxn) (ok : Bool) :
    Option (RocksTxnResult × RocksTxnApplicator) :=
  match txn.speculativeExecution with
  | none => reexecute codec s txn ok
  | some speculativeExecution =>
    if s.conflictDetector.conflicted speculativeExecution then reexecute codec s txn ok
    else
      let rocks := s.write ok speculativeExecution.batch
      if ok then
        some (⟨false, ⟨false, true⟩⟩,
          { conflictDetector :=
              s.conflictDetector.addKeySet txn.logId speculativeExecution.keySet
            rocks })
      else
        some (⟨false, ⟨true, false⟩⟩, { s with rocks })

/-- `apply` finds no conflict, so it writes the batch it was given. -/
def fastPath (s : RocksTxnApplicator) (txn : RocksTxn) : Option SpeculativeExecution :=
  txn.speculativeExecution.filter fun e => !s.conflictDetector.conflicted e

/-- The keys a transaction writes or deletes. -/
def modified (codec : Codec RocksTxn1 String) (s : RocksTxnApplicator) (txn : RocksTxn) : List String :=
  match s.fastPath txn with
  | some speculativeExecution => speculativeExecution.batch.keys
  | none => ((codec.parse txn.serializedPayload).map (·.batch.keys)).getD []

/-- The keys the detector is told of. -/
def told (codec : Codec RocksTxn1 String) (s : RocksTxnApplicator) (txn : RocksTxn) : List String :=
  match s.fastPath txn with
  | some speculativeExecution => speculativeExecution.keySet
  | none => ((codec.parse txn.serializedPayload).map (·.batch.keys)).getD []

variable {codec : Codec RocksTxn1 String} {s s' : RocksTxnApplicator} {txn : RocksTxn} {ok : Bool}
  {result : RocksTxnResult}

theorem apply_of_fastPath {speculativeExecution : SpeculativeExecution}
    (h : s.fastPath txn = some speculativeExecution) :
    apply codec s txn ok =
      if ok then
        some (⟨false, ⟨false, true⟩⟩,
          { conflictDetector :=
              s.conflictDetector.addKeySet txn.logId speculativeExecution.keySet
            rocks := s.write ok speculativeExecution.batch })
      else
        some (⟨false, ⟨true, false⟩⟩, { s with rocks := s.write ok speculativeExecution.batch }) := by
  obtain ⟨hsome, hclear⟩ := Option.filter_eq_some_iff.mp h
  unfold apply
  rw [hsome]
  dsimp only
  rw [if_neg (by simpa using hclear)]

theorem apply_of_slowPath (h : s.fastPath txn = none) :
    apply codec s txn ok = reexecute codec s txn ok := by
  unfold apply
  cases hexec : txn.speculativeExecution with
  | none => rfl
  | some e =>
    have hconflict : s.conflictDetector.conflicted e = true := by
      have := Option.filter_eq_none_iff.mp h e hexec
      simpa using this
    dsimp only
    rw [if_pos hconflict]

/-- **What `apply` does to the detector.** -/
theorem apply_detector (h : apply codec s txn ok = some (result, s')) :
    s'.conflictDetector =
      if ok then s.conflictDetector.addKeySet txn.logId (s.told codec txn) else s.conflictDetector := by
  unfold told
  cases hpath : s.fastPath txn with
  | some e =>
    rw [apply_of_fastPath hpath] at h
    cases ok with
    | false =>
      cases h
      rfl
    | true =>
      cases h
      rfl
  | none =>
    rw [apply_of_slowPath hpath] at h
    unfold reexecute at h
    cases hparse : codec.parse txn.serializedPayload with
    | none =>
      rw [hparse] at h
      cases h
    | some rockTxn1 =>
      rw [hparse] at h
      cases ok with
      | false =>
        cases h
        rfl
      | true =>
        cases h
        rfl

end RocksTxnApplicator

/-! ## What the detector knows -/

namespace ConflictDetector

/-- A log id behind this one has the key. -/
def Knows (detector : ConflictDetector) (logId : Int) (key : String) : Prop :=
  ∃ logId' keys, detector.keysModifiedSet.find? logId' = some keys ∧ logId < logId' ∧ key ∈ keys

variable {detector : ConflictDetector} {logId logId' : Int} {key : String} {keys : List String}

/-- What is left of a sorted list by `upper_bound` are the entries behind. -/
theorem mem_dropWhile {entry : Int × List String} :
    entry ∈ detector.keysModifiedSet.entries.dropWhile (·.1 ≤ logId) ↔
      entry ∈ detector.keysModifiedSet.entries ∧ logId < entry.1 := by
  have hsorted := detector.keysModifiedSet.sorted
  generalize detector.keysModifiedSet.entries = entries at hsorted
  induction entries with
  | nil => simp
  | cons e entries ih =>
    obtain ⟨hhead, hrest⟩ := List.pairwise_cons.mp hsorted
    rw [List.dropWhile_cons]
    by_cases hle : e.1 ≤ logId
    · rw [if_pos (decide_eq_true hle), List.mem_cons]
      refine (ih hrest).trans (and_congr_left fun hlt => ⟨.inr, ?_⟩)
      rintro (rfl | hmem)
      · exact absurd hlt (not_lt.mpr hle)
      · exact hmem
    · rw [if_neg (by simpa using hle)]
      refine (and_iff_left_of_imp fun hmem => ?_).symm
      rcases List.mem_cons.mp hmem with rfl | hmem
      · exact not_le.mp hle
      · exact lt_trans (not_le.mp hle) (hhead entry hmem)

/-- **An execution is in conflict with what the detector knows.** -/
theorem conflicted_iff {speculativeExecution : SpeculativeExecution} :
    detector.conflicted speculativeExecution = true ↔
      ∃ key ∈ speculativeExecution.keySet, detector.Knows speculativeExecution.logId key := by
  unfold conflicted Knows
  rw [List.any_eq_true]
  constructor
  · rintro ⟨⟨logId', keys⟩, hmem, hany⟩
    obtain ⟨hmem, hlt⟩ := mem_dropWhile.mp hmem
    obtain ⟨key, hkey, hin⟩ := List.any_eq_true.mp hany
    exact ⟨key, hkey, logId', keys, SortedMap.find?_eq_some.mpr hmem, hlt, of_decide_eq_true hin⟩
  · rintro ⟨key, hkey, logId', keys, hfind, hlt, hin⟩
    exact ⟨(logId', keys), mem_dropWhile.mpr ⟨SortedMap.find?_eq_some.mp hfind, hlt⟩,
      List.any_eq_true.mpr ⟨key, hkey, decide_eq_true hin⟩⟩

theorem Knows.mono (h : detector.Knows logId key) (hle : logId' ≤ logId) :
    detector.Knows logId' key := by
  obtain ⟨l, keys, hfind, hlt, hin⟩ := h
  exact ⟨l, keys, hfind, hle.trans_lt hlt, hin⟩

/-- **A key set is learned if its log id is new.** -/
theorem knows_addKeySet {logId₀ : Int} :
    (detector.addKeySet logId₀ keys).Knows logId key ↔ detector.Knows logId key ∨
      (logId < logId₀ ∧ detector.keysModifiedSet.find? logId₀ = none ∧ key ∈ keys) := by
  unfold addKeySet Knows
  cases hfind : detector.keysModifiedSet.find? logId₀ with
  | some old => simp
  | none =>
    dsimp only
    constructor
    · rintro ⟨l, keys', hget, hlt, hin⟩
      rw [SortedMap.find?_insert] at hget
      split at hget
      · rename_i heq
        cases hget
        exact .inr ⟨heq ▸ hlt, rfl, hin⟩
      · exact .inl ⟨l, keys', hget, hlt, hin⟩
    · rintro (⟨l, keys', hget, hlt, hin⟩ | ⟨hlt, -, hin⟩)
      · refine ⟨l, keys', ?_, hlt, hin⟩
        rw [SortedMap.find?_insert, if_neg]
        · exact hget
        · rintro rfl
          rw [hfind] at hget
          cases hget
      · exact ⟨logId₀, keys, SortedMap.find?_insert.trans (if_pos rfl), hlt, hin⟩

end ConflictDetector

/-! ## A sequence of transactions -/

/-- An applicator, and the record of the transactions whose writes went through: their log ids and
the keys they wrote or deleted. -/
structure AppliedTxns where
  applicator : RocksTxnApplicator := {}
  applied : List (Int × List String) := []

namespace AppliedTxns

open Transition

/-- A transaction is applied, and the database says whether its write went through. -/
def step (codec : Codec RocksTxn1 String) (s : AppliedTxns) : RocksTxn × Bool → Option AppliedTxns
  | (txn, ok) =>
    (s.applicator.apply codec txn ok).map fun (_, applicator) =>
      { applicator
        applied :=
          if ok then s.applied ++ [(txn.logId, s.applicator.modified codec txn)] else s.applied }

/-- A transaction behind this log id has written or deleted the key. -/
def Modified (s : AppliedTxns) (logId : Int) (key : String) : Prop :=
  ∃ txn ∈ s.applied, logId < txn.1 ∧ key ∈ txn.2

/-- **Conflict detection is sound**, and complete. -/
def Sound (s : AppliedTxns) : Prop :=
  ∀ speculativeExecution : SpeculativeExecution,
    s.applicator.conflictDetector.conflicted speculativeExecution = true ↔
      ∃ key ∈ speculativeExecution.keySet, s.Modified speculativeExecution.logId key

def SoundAfter (codec : Codec RocksTxn1 String) (s : AppliedTxns) (e : RocksTxn × Bool) : Prop :=
  ∀ s', s.step codec e = some s' → s'.Sound

/-- The detector is told what it does not know. A key that it has under no log id from this one on
is modified by the transaction exactly if it is among the keys the detector is told of, and the log
id is new. -/
def Tells (codec : Codec RocksTxn1 String) (s : AppliedTxns) : RocksTxn × Bool → Prop
  | (txn, ok) =>
    ok = true → (s.applicator.apply codec txn ok).isSome = true →
      ∀ key ∈ s.applicator.modified codec txn ++ s.applicator.told codec txn,
        (∀ entry ∈ s.applicator.conflictDetector.keysModifiedSet.entries,
          txn.logId ≤ entry.1 → key ∉ entry.2) →
        (key ∈ s.applicator.modified codec txn ↔
          s.applicator.conflictDetector.keysModifiedSet.find? txn.logId = none ∧
            key ∈ s.applicator.told codec txn)

instance (codec : Codec RocksTxn1 String) (s : AppliedTxns) (e : RocksTxn × Bool) :
    Decidable (Tells codec s e) :=
  inferInstanceAs (Decidable (_ → _ → ∀ key ∈ _, (∀ entry ∈ _, _ → _) → (_ ↔ _)))

variable {codec : Codec RocksTxn1 String} {s s' : AppliedTxns}

theorem sound_iff_knows : s.Sound ↔ ∀ logId key,
    s.applicator.conflictDetector.Knows logId key ↔ s.Modified logId key := by
  constructor
  · intro h logId key
    have := h { keySet := [key], batch := [], logId }
    rw [ConflictDetector.conflicted_iff] at this
    simpa using this
  · intro h speculativeExecution
    rw [ConflictDetector.conflicted_iff]
    exact exists_congr fun key => and_congr_right fun _ => h speculativeExecution.logId key

theorem knows_iff_mem {detector : ConflictDetector} {logId : Int} {key : String} :
    detector.Knows (logId - 1) key ↔
      ∃ entry ∈ detector.keysModifiedSet.entries, logId ≤ entry.1 ∧ key ∈ entry.2 := by
  unfold ConflictDetector.Knows
  constructor
  · rintro ⟨l, keys, hfind, hlt, hin⟩
    exact ⟨(l, keys), SortedMap.find?_eq_some.mp hfind, by omega, hin⟩
  · rintro ⟨⟨l, keys⟩, hmem, hle, hin⟩
    exact ⟨l, keys, SortedMap.find?_eq_some.mpr hmem, by omega, hin⟩

/-- **A step keeps the detection sound exactly if it tells the detector.** -/
theorem soundAfter_iff (hs : s.Sound) (e : RocksTxn × Bool) :
    SoundAfter codec s e ↔ Tells codec s e := by
  obtain ⟨txn, ok⟩ := e
  rw [sound_iff_knows] at hs
  cases happly : s.applicator.apply codec txn ok with
  | none =>
    refine iff_of_true (fun s' hstep => ?_) fun _ hsome => ?_
    · unfold step at hstep
      dsimp only at hstep
      rw [happly] at hstep
      cases hstep
    · rw [happly] at hsome
      cases hsome
  | some next =>
    obtain ⟨result, applicator⟩ := next
    have hdetector := RocksTxnApplicator.apply_detector happly
    have hstep : s.step codec (txn, ok) = some
        { applicator
          applied := if ok then s.applied ++ [(txn.logId, s.applicator.modified codec txn)]
            else s.applied } := by
      unfold step
      dsimp only
      rw [happly]
      rfl
    unfold SoundAfter
    simp only [hstep, Option.some.injEq, forall_eq', sound_iff_knows]
    cases ok with
    | false =>
      refine iff_of_true (fun logId key => ?_) nofun
      rw [hdetector]
      exact hs logId key
    | true =>
      have hknows : ∀ logId key, applicator.conflictDetector.Knows logId key ↔
          s.Modified logId key ∨ (logId < txn.logId ∧
            s.applicator.conflictDetector.keysModifiedSet.find? txn.logId = none ∧
            key ∈ s.applicator.told codec txn) := by
        intro logId key
        rw [hdetector, if_pos rfl, ConflictDetector.knows_addKeySet, hs logId key]
      have hmodified : ∀ logId key,
          Modified { applicator, applied := s.applied ++ [(txn.logId, s.applicator.modified codec txn)] }
            logId key ↔
          s.Modified logId key ∨
            (logId < txn.logId ∧ key ∈ s.applicator.modified codec txn) := by
        intro logId key
        unfold Modified
        simp [or_and_right, exists_or]
      rw [if_pos rfl]
      constructor
      · intro h _ _ key _ hnot
        have hunknown : ¬ s.Modified (txn.logId - 1) key := by
          rw [← hs, knows_iff_mem]
          rintro ⟨entry, hentry, hle, hin⟩
          exact hnot entry hentry hle hin
        have hkey := h (txn.logId - 1) key
        rw [hknows, hmodified] at hkey
        have hlt : txn.logId - 1 < txn.logId := by omega
        simp only [hunknown, hlt, true_and, false_or] at hkey
        exact hkey.symm
      · intro h logId key
        rw [hknows, hmodified]
        refine or_congr_right' fun hunknown => and_congr_right fun hlt => ?_
        by_cases hmem : key ∈ s.applicator.modified codec txn ++ s.applicator.told codec txn
        · have hnot : ∀ entry ∈ s.applicator.conflictDetector.keysModifiedSet.entries,
              txn.logId ≤ entry.1 → key ∉ entry.2 := by
            intro entry hentry hle hin
            refine hunknown ((hs logId key).mp ?_)
            exact (knows_iff_mem.mpr ⟨entry, hentry, hle, hin⟩).mono (by omega)
          exact (h rfl (by rw [happly]; rfl) key hmem hnot).symm
        · rw [List.mem_append, not_or] at hmem
          exact iff_of_false (fun hin => hmem.2 hin.2) hmem.1

theorem sound_empty : Sound {} :=
  sound_iff_knows.mpr (by simp [ConflictDetector.Knows, Modified])

/-- **Conflicts are detected exactly as long as the detector is told of them.** In every state that
a sequence of transactions leads to, an execution is in conflict exactly if a transaction behind its
log id has modified one of its keys, if and only if every transaction tells the detector. -/
theorem sound_iff (codec : Codec RocksTxn1 String) (es : List (RocksTxn × Bool)) :
    Meets (step codec) (SoundAfter codec) {} es ↔ Meets (step codec) (Tells codec) {} es := by
  apply meets_congr (I := Sound)
  · intro s e hs
    exact soundAfter_iff hs e
  · intro s e s' hs htells hstep
    exact (soundAfter_iff hs e).mpr htells s' hstep
  · exact sound_empty

/-- A transaction without a speculative execution that puts one key. -/
def putTxn (key value : String) (logId : Int) : RocksTxn where
  serializedPayload := RocksTxn1.wireCodec.serialize { writeSet := [⟨key, value⟩] }
  logId

/-- **The second key set of a log id is dropped.** An execution that was made before both
transactions finds no conflict, and its write goes over a newer one. -/
theorem stale_write_goes_through :
    let txns := [(putTxn "a" "1" 1, true), (putTxn "b" "2" 1, true)]
    let stale : RocksTxn :=
      { putTxn "b" "0" 2 with
        speculativeExecution := some { keySet := ["b"], batch := [("b", some "0")], logId := 0 } }
    ¬ Meets (step RocksTxn1.wireCodec) (SoundAfter RocksTxn1.wireCodec) {} txns ∧
      (run (step RocksTxn1.wireCodec) {} (txns ++ [(stale, true)])).map
        (fun s => (s.applied.map (·.1), s.applicator.rocks.find? "b")) =
          some ([1, 1, 2], some "0") := by
  intro txns stale
  refine ⟨fun h => ?_, by decide +kernel⟩
  obtain ⟨s, hrun⟩ : ∃ s, run (step RocksTxn1.wireCodec) {} txns = some s := ⟨_, rfl⟩
  have hsound : s.Sound :=
    meets_invariant (fun _ _ s' _ hafter hstep => hafter s' hstep) hrun h sound_empty
  have hmodified : s.Modified 0 "b" := by
    cases hrun
    exact ⟨(1, ["b"]), by decide +kernel, by decide, by decide⟩
  have hconflict := (hsound { keySet := ["b"], batch := [], logId := 0 }).mpr
    ⟨"b", List.mem_singleton.mpr rfl, hmodified⟩
  cases hrun
  exact absurd hconflict (by decide +kernel)

end AppliedTxns

end ReplicatedCounter.StateMachine
