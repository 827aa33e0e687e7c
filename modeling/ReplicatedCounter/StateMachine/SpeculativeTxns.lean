import ReplicatedCounter.Lib.Programs
import ReplicatedCounter.StateMachine.RocksTxnApplicator

/-!
# Speculative executions are serializable

What the detector is for. A client runs its transaction ahead of time, against the database as it
was after some log id, and sends along what came out. `RocksTxnApplicator` takes the transactions in
the order of the log, and writes the outcome of such an execution without running it again unless
the detector objects.

The log ids grow here, which is what the detector counts on (see `RocksTxnApplicator` for what
happens otherwise), and an execution names every key it has been at. Then the database is always
what the same transactions leave behind if each is run when its turn comes
(`speculation_serializable`): there is no lost update and no write skew, however old the state was
that a client had looked at.

A transaction that meets a conflict is not run again. Its payload holds writes, and these are made,
whatever they were computed from; so this is the program of such a transaction here.
-/

set_option autoImplicit false

namespace ReplicatedCounter.StateMachine

open Transition

/-- A transaction on its way: its payload and its log id, whether the database will take its write,
and the program that has been run ahead of time, with the number of transactions that were applied
since the state it was run against. -/
structure SpeculativeRequest where
  serializedPayload : String
  logId : Int
  speculation : Option (Program String String × Nat) := none
  ok : Bool := true

/-- An applicator, with the databases that clients may have looked at, the newest first, each with
the last log id that is in it; and the programs whose writes were made. -/
structure SpeculativeTxns where
  applicator : RocksTxnApplicator
  snapshots : List (Int × SortedMap String String)
  history : List (Program String String) := []

namespace SpeculativeTxns

/-- A database, and the last log id in it. -/
def start (rocks : SortedMap String String) (logId : Int) : SpeculativeTxns where
  applicator := { rocks }
  snapshots := [(logId, rocks)]

/-- What a client makes of its program. -/
def execute (program : Program String String) (snapshot : Int × SortedMap String String) :
    SpeculativeExecution where
  keySet := program.keys snapshot.2
  batch := program.run snapshot.2
  logId := snapshot.1

/-- The transaction that a client sends. -/
def txn (s : SpeculativeTxns) (r : SpeculativeRequest) : Option RocksTxn :=
  match r.speculation with
  | none => some { serializedPayload := r.serializedPayload, logId := r.logId }
  | some (program, age) =>
    s.snapshots[age]?.map fun snapshot =>
      { serializedPayload := r.serializedPayload, logId := r.logId
        speculativeExecution := some (execute program snapshot) }

/-- The program whose writes were made, if any, as the answer tells. -/
def performed (codec : Codec RocksTxn1 String) (r : SpeculativeRequest) (result : RocksTxnResult) :
    List (Program String String) :=
  if result.speculativeTxnResult.txnSucceeded then
    (r.speculation.map (·.1)).toList
  else if result.txnSucceeded then
    ((codec.parse r.serializedPayload).map fun rockTxn1 => Program.ofBatch rockTxn1.batch).toList
  else
    []

/-- The next transaction of the log is applied. -/
def step (codec : Codec RocksTxn1 String) (s : SpeculativeTxns) (r : SpeculativeRequest) :
    Option SpeculativeTxns :=
  if ∀ snapshot ∈ s.snapshots, snapshot.1 < r.logId then do
    let txn ← s.txn r
    let (result, applicator) ← s.applicator.apply codec txn r.ok
    return {
      applicator
      snapshots := (r.logId, applicator.rocks) :: s.snapshots
      history := s.history ++ performed codec r result }
  else
    none

variable {codec : Codec RocksTxn1 String} {s s' : SpeculativeTxns} {r : SpeculativeRequest}
  {rocks₀ : SortedMap String String} {logId₀ : Int} {es : List SpeculativeRequest}

/-! ## What one transaction does -/

/-- Everything a step can do: the write of the transaction fails, or the detector is told of its
keys and its program is performed. -/
inductive Step (codec : Codec RocksTxn1 String) (s : SpeculativeTxns) (logId : Int) :
    SpeculativeTxns → Prop where
  | failed : Step codec s logId { s with snapshots := (logId, s.applicator.rocks) :: s.snapshots }
  | speculated (program : Program String String) (snapshot : Int × SortedMap String String)
      (hsnapshot : snapshot ∈ s.snapshots)
      (hclear : s.applicator.conflictDetector.conflicted (execute program snapshot) = false) :
      Step codec s logId {
        applicator := {
          conflictDetector :=
            s.applicator.conflictDetector.addKeySet logId (program.keys snapshot.2)
          rocks := WriteBatch.write s.applicator.rocks (program.run snapshot.2) }
        snapshots :=
          (logId, WriteBatch.write s.applicator.rocks (program.run snapshot.2)) :: s.snapshots
        history := s.history ++ [program] }
  | reexecuted (batch : WriteBatch String String) :
      Step codec s logId {
        applicator := {
          conflictDetector := s.applicator.conflictDetector.addKeySet logId batch.keys
          rocks := WriteBatch.write s.applicator.rocks batch }
        snapshots := (logId, WriteBatch.write s.applicator.rocks batch) :: s.snapshots
        history := s.history ++ [Program.ofBatch batch] }

/-- The payload is what gets written. -/
theorem step_reexecute {t : RocksTxn} {result : RocksTxnResult} {applicator : RocksTxnApplicator}
    (hpayload : t.serializedPayload = r.serializedPayload) (hlogId : t.logId = r.logId)
    (h : s.applicator.reexecute codec t r.ok = some (result, applicator)) :
    Step codec s r.logId {
      applicator
      snapshots := (r.logId, applicator.rocks) :: s.snapshots
      history := s.history ++ performed codec r result } := by
  unfold RocksTxnApplicator.reexecute at h
  rw [hpayload, hlogId] at h
  cases hparse : codec.parse r.serializedPayload with
  | none =>
    rw [hparse] at h
    cases h
  | some rockTxn1 =>
    rw [hparse] at h
    cases hok : r.ok with
    | false =>
      rw [hok] at h
      cases h
      simpa [performed, RocksTxnApplicator.write] using Step.failed
    | true =>
      rw [hok] at h
      cases h
      simpa [performed, RocksTxnApplicator.write, hparse] using Step.reexecuted rockTxn1.batch

/-- **The inversion of `step`.** -/
theorem step_spec (h : s.step codec r = some s') :
    (∀ snapshot ∈ s.snapshots, snapshot.1 < r.logId) ∧ Step codec s r.logId s' := by
  unfold step at h
  obtain ⟨hnew, h⟩ := Option.ite_none_right_eq_some.mp h
  refine ⟨hnew, ?_⟩
  obtain ⟨t, ht, h⟩ := Option.bind_eq_some_iff.mp h
  obtain ⟨⟨result, applicator⟩, happly, h⟩ := Option.bind_eq_some_iff.mp h
  cases h
  unfold txn at ht
  cases hspeculation : r.speculation with
  | none =>
    rw [hspeculation] at ht
    cases ht
    exact step_reexecute rfl rfl happly
  | some speculation =>
    obtain ⟨program, age⟩ := speculation
    rw [hspeculation] at ht
    obtain ⟨snapshot, hsnapshot, rfl⟩ := Option.map_eq_some_iff.mp ht
    have hmem : snapshot ∈ s.snapshots := List.mem_of_getElem? hsnapshot
    unfold RocksTxnApplicator.apply at happly
    dsimp only at happly
    split at happly
    · exact step_reexecute rfl rfl happly
    · rename_i hclear
      cases hok : r.ok with
      | false =>
        rw [hok] at happly
        cases happly
        simpa [performed, RocksTxnApplicator.write] using Step.failed
      | true =>
        rw [hok] at happly
        cases happly
        have hstep : Step codec s r.logId _ :=
          .speculated program snapshot hmem (by simpa using hclear)
        simpa [performed, RocksTxnApplicator.write, hspeculation, execute] using hstep

/-! ## What the detector vouches for -/

/-- The database is what the programs have made of the first one, and a key that the detector does
not know behind a log id has the value it had then. -/
structure Serial (rocks₀ : SortedMap String String) (s : SpeculativeTxns) : Prop where
  rocks : s.applicator.rocks = Program.serially rocks₀ s.history
  unchanged : ∀ snapshot ∈ s.snapshots, ∀ key,
    ¬ s.applicator.conflictDetector.Knows snapshot.1 key →
      s.applicator.rocks.find? key = snapshot.2.find? key
  told : ∀ logId keys, s.applicator.conflictDetector.keysModifiedSet.find? logId = some keys →
    ∃ snapshot ∈ s.snapshots, logId ≤ snapshot.1

theorem serial_start : (start rocks₀ logId₀).Serial rocks₀ where
  rocks := rfl
  unchanged snapshot h key _ := by
    rw [List.mem_singleton.mp h]
    rfl
  told _ _ h := nomatch h

/-- Writes under a new log id, of which the detector is told. -/
theorem Serial.write (h : s.Serial rocks₀) {logId : Int} {keys : List String}
    {batch : WriteBatch String String} {program : Program String String}
    (hnew : ∀ snapshot ∈ s.snapshots, snapshot.1 < logId) (hkeys : batch.keys ⊆ keys)
    (hprogram : Program.exec s.applicator.rocks program =
      WriteBatch.write s.applicator.rocks batch) :
    Serial rocks₀ {
      applicator := {
        conflictDetector := s.applicator.conflictDetector.addKeySet logId keys
        rocks := WriteBatch.write s.applicator.rocks batch }
      snapshots := (logId, WriteBatch.write s.applicator.rocks batch) :: s.snapshots
      history := s.history ++ [program] } := by
  have hfresh : s.applicator.conflictDetector.keysModifiedSet.find? logId = none := by
    cases hfind : s.applicator.conflictDetector.keysModifiedSet.find? logId with
    | none => rfl
    | some keys' =>
      obtain ⟨snapshot, hsnapshot, hle⟩ := h.told logId keys' hfind
      exact absurd (hnew snapshot hsnapshot) (not_lt.mpr hle)
  constructor
  · dsimp only
    rw [Program.serially_concat, ← h.rocks, hprogram]
  · intro snapshot hsnapshot key hunknown
    rcases List.mem_cons.mp hsnapshot with rfl | hsnapshot
    · rfl
    · dsimp only at hunknown ⊢
      rw [ConflictDetector.knows_addKeySet, not_or] at hunknown
      have hkey : key ∉ batch.keys := fun hin =>
        hunknown.2 ⟨hnew snapshot hsnapshot, hfresh, hkeys hin⟩
      rw [WriteBatch.find?_write_of_not_mem hkey]
      exact h.unchanged snapshot hsnapshot key hunknown.1
  · intro logId' keys' hfind
    unfold ConflictDetector.addKeySet at hfind
    rw [hfresh] at hfind
    dsimp only at hfind
    rw [SortedMap.find?_insert] at hfind
    split at hfind
    · rename_i heq
      exact ⟨_, List.mem_cons_self, heq.le⟩
    · obtain ⟨snapshot, hsnapshot, hle⟩ := h.told logId' keys' hfind
      exact ⟨snapshot, List.mem_cons_of_mem _ hsnapshot, hle⟩

/-- **A program that meets no conflict would do now what it did then.** -/
theorem Serial.exec_eq (h : s.Serial rocks₀) {program : Program String String}
    {snapshot : Int × SortedMap String String} (hsnapshot : snapshot ∈ s.snapshots)
    (hclear : s.applicator.conflictDetector.conflicted (execute program snapshot) = false) :
    Program.exec s.applicator.rocks program =
      WriteBatch.write s.applicator.rocks (program.run snapshot.2) := by
  refine Program.exec_eq fun key hkey => h.unchanged snapshot hsnapshot key fun hknows => ?_
  have hconflict : s.applicator.conflictDetector.conflicted (execute program snapshot) = true :=
    ConflictDetector.conflicted_iff.mpr ⟨key, hkey, hknows⟩
  rw [hclear] at hconflict
  cases hconflict

theorem Serial.step (h : s.Serial rocks₀) (hs : s.step codec r = some s') : s'.Serial rocks₀ := by
  obtain ⟨hnew, hs⟩ := step_spec hs
  cases hs with
  | failed =>
    refine ⟨h.rocks, fun snapshot hsnapshot key hunknown => ?_, fun logId keys hfind => ?_⟩
    · rcases List.mem_cons.mp hsnapshot with rfl | hsnapshot
      · rfl
      · exact h.unchanged snapshot hsnapshot key hunknown
    · obtain ⟨snapshot, hsnapshot, hle⟩ := h.told logId keys hfind
      exact ⟨snapshot, List.mem_cons_of_mem _ hsnapshot, hle⟩
  | speculated program snapshot hsnapshot hclear =>
    exact h.write hnew (program.writes snapshot.2) (h.exec_eq hsnapshot hclear)
  | reexecuted batch => exact h.write hnew (List.Subset.refl _) (Program.exec_ofBatch batch)

/-- **Speculative executions are serializable.** Whatever the transactions are, and whichever states
their clients had looked at: the database is what the programs that have been performed leave behind
if they are run one after the other, in the order of the log. -/
theorem speculation_serializable (codec : Codec RocksTxn1 String)
    (h : run (step codec) (start rocks₀ logId₀) es = some s) :
    s.applicator.rocks = Program.serially rocks₀ s.history :=
  (run_invariant (P := Serial rocks₀) (fun _ _ _ hs hstep => hs.step hstep) h serial_start).rocks

/-- Copies the value of a key to another, if there is one. -/
def copy (source target : String) : Program String String where
  keys _ := [source, target]
  run m := [(target, m.find? source)]
  run_eq m m' h := by rw [h source List.mem_cons_self]
  writes _ := List.subset_cons_self _ _

/-- Two keys are swapped by two clients who both look at the first state. The second one meets a
conflict, and its payload is written instead. -/
def crossed : List SpeculativeRequest :=
  [{ serializedPayload := RocksTxn1.wireCodec.serialize { writeSet := [⟨"b", "0"⟩] }, logId := 1
     speculation := some (copy "a" "b", 0) },
   { serializedPayload := RocksTxn1.wireCodec.serialize { writeSet := [⟨"c", "1"⟩] }, logId := 2
     speculation := some (copy "d" "c", 1) },
   { serializedPayload := RocksTxn1.wireCodec.serialize { writeSet := [⟨"a", "2"⟩] }, logId := 3
     speculation := some (copy "b" "a", 2) }]

/-- The database the two have looked at. -/
def twoKeys : SortedMap String String := (SortedMap.empty.insert "a" "x").insert "b" "y"

theorem speculation_serializable_crossed :
    ∃ s, run (step RocksTxn1.wireCodec) (start twoKeys 0) crossed = some s ∧
      s.history.length = 3 ∧
      s.applicator.rocks = Program.serially twoKeys s.history ∧
      (s.applicator.rocks.find? "a", s.applicator.rocks.find? "b") = (some "2", some "x") := by
  have hrun : (run (step RocksTxn1.wireCodec) (start twoKeys 0) crossed).map (fun s =>
      (s.history.length, s.applicator.rocks.find? "a", s.applicator.rocks.find? "b")) =
      some (3, some "2", some "x") := by
    decide +kernel
  obtain ⟨s, hs, hvalues⟩ := Option.map_eq_some_iff.mp hrun
  obtain ⟨hlength, hvalues⟩ := Prod.mk.inj hvalues
  exact ⟨s, hs, hlength, speculation_serializable RocksTxn1.wireCodec hs, hvalues⟩

end SpeculativeTxns

end ReplicatedCounter.StateMachine
