import ReplicatedCounter.Lib.Lockstep
import ReplicatedCounter.Log.RocksNanoLog

/-!
# The two nanologs under the same calls

`NanoLogFactory` makes either of them, and one test suite is run on both. Here they get the same
calls, one after the other, and answer with what they return or throw and with the promises they
complete. They do not always agree:

* a seal-skipping append to an occupied position succeeds in memory and throws over Rocks;
* an append with a commit index sets the Rocks end index to the one behind it, while the queue may
  be somewhere else. A commit index from the past makes the end index go backwards;
* `seal` over Rocks returns the cached end index, which before it is first read or written is what
  the constructor was given.

`SameWay` excludes these, and then they agree on everything (`rocks_agrees_inMemory`).
-/

set_option autoImplicit false

namespace ReplicatedCounter.Log

variable {α κ : Type}

/-- A call of a nanolog; an append comes with who waits for it. -/
inductive NanoLogCall (α : Type) where
  | append (globalCommitIndex : Option Int) (logId : Int) (logEntryPayload : String)
      (skipSeal : Bool) (promise : α)
  | getLogEntry (logId : Int)
  | seal
  | getLocalCommitIndex

/-- What a call returns. An append returns a log id at once or waits, and has completed promises. -/
inductive NanoLogAnswer (α : Type) where
  | appended (returned : Option Int) (completed : List (Int × α))
  | entry (result : Except LogReadError LogEntry)
  | sealed (endIndex : Int)
  | localCommitIndex (index : Int)
  deriving DecidableEq

/-- A call of `InMemoryNanoLog`. -/
def InMemoryNanoLog.step (nanoLog : InMemoryNanoLog α) :
    NanoLogCall α → InMemoryNanoLog α × Except RocksNanoLogError (NanoLogAnswer α)
  | .append globalCommitIndex logId payload skipSeal promise =>
    match nanoLog.checkSealed skipSeal with
    | .error e => (nanoLog, .error (.nanoLog e))
    | .ok () =>
      let appended := nanoLog.appendLocked globalCommitIndex logId payload skipSeal promise
      (appended.nanoLog,
        match appended.answer with
        | some (.error e) => .error (.nanoLog e)
        | some (.ok returned) => .ok (.appended (some returned) appended.completed)
        | none => .ok (.appended none appended.completed))
  | .getLogEntry logId => (nanoLog, .ok (.entry (nanoLog.getLogEntry logId)))
  | .seal => (nanoLog.seal.1, .ok (.sealed nanoLog.seal.2))
  | .getLocalCommitIndex => (nanoLog, .ok (.localCommitIndex nanoLog.getLocalCommitIndex))

variable [KVStoreLite κ String]

/-- A call of `RocksNanoLog`. -/
def RocksNanoLog.step (nanoLog : RocksNanoLog α κ) (c : NanoLogCall α) :
    RocksNanoLog α κ × Except RocksNanoLogError (NanoLogAnswer α) :=
  let answer : RocksNanoLog.RocksM α κ (NanoLogAnswer α) :=
    match c with
    | .append globalCommitIndex logId payload skipSeal promise => do
      return .appended none
        (← RocksNanoLog.append globalCommitIndex logId payload skipSeal promise)
    | .getLogEntry logId => do return .entry (← RocksNanoLog.getLogEntry logId)
    | .seal => do return .sealed (← RocksNanoLog.seal)
    | .getLocalCommitIndex => do return .localCommitIndex (← RocksNanoLog.getLocalCommitIndex)
  ((Coro.exec answer nanoLog).2, (Coro.exec answer nanoLog).1)

/-! ## What they agree on -/

/-- With `logId` in the queue, the index stops right behind `index`: it gets to `index`, which is
parked, and the next one is not; or it is there already and does not move. -/
def OrderedCompletionQueue.StopsBehind (q : OrderedCompletionQueue α) (logId index : Int) : Prop :=
  (q.currentIndex ≤ index ∧ (index = logId ∨ q.Parked index) ∧
      ¬ (index + 1 = logId ∨ q.Parked (index + 1))) ∨
    (index + 1 = q.currentIndex ∧
      ((index = logId ∨ q.Parked index) ∨ ¬ (index + 1 = logId ∨ q.Parked (index + 1))))

instance (q : OrderedCompletionQueue α) (logId index : Int) : Decidable (q.StopsBehind logId index) :=
  inferInstanceAs (Decidable (_ ∨ _))

/-- What a call must respect for the two nanologs to agree on it.

* A seal-skipping append goes to a free position.
* The commit index of an append that is stored is the last index the local log gets to with it.
* `seal` comes after the end index was read or written once, unless the constructor was given the
  start index for it. -/
def SameWay (s : RocksNanoLog α κ) (m : InMemoryNanoLog α) : NanoLogCall α → Prop
  | .append globalCommitIndex logId _ skipSeal _ =>
    (skipSeal = true → m.logs.find? logId = none) ∧
      (skipSeal = true ∨ m.sealed = false → m.logs.find? logId = none →
        ∀ index ∈ globalCommitIndex, m.completionQueue.StopsBehind logId index)
  | .getLogEntry _ => True
  | .seal => s.endIndexDirty = true → s.endIndex = s.startIndex
  | .getLocalCommitIndex => True

instance (s : RocksNanoLog α κ) (m : InMemoryNanoLog α) (c : NanoLogCall α) :
    Decidable (SameWay s m c) :=
  match c with
  | .append .. => inferInstanceAs (Decidable (_ ∧ _))
  | .getLogEntry _ => inferInstanceAs (Decidable True)
  | .seal => inferInstanceAs (Decidable (_ → _))
  | .getLocalCommitIndex => inferInstanceAs (Decidable True)

/-- **Where the index stops.** -/
theorem OrderedCompletionQueue.StopsBehind.index_eq {q : OrderedCompletionQueue α} {logId index : Int}
    (h : q.StopsBehind logId index) (promise : α) :
    (InMemoryNanoLog.park q (some index) logId promise).1.currentIndex = index + 1 := by
  have hparked : ∀ j, (q.addIncomplete logId promise).Parked j ↔ j = logId ∨ q.Parked j :=
    fun j => OrderedCompletionQueue.parked_addIncomplete
  have hcompletes := InMemoryNanoLog.park_completes q (some index) logId promise
  -- nothing is passed that is neither parked nor below the commit index
  have hupper : ¬ (index + 1 = logId ∨ q.Parked (index + 1)) → q.currentIndex ≤ index + 1 →
      (InMemoryNanoLog.park q (some index) logId promise).1.currentIndex ≤ index + 1 := by
    intro hnot hle
    by_contra hgt
    rcases hcompletes.filled (index + 1) hle (by omega) with ⟨j, hj, hlt⟩ | hmem
    · cases hj
      omega
    · exact hnot ((hparked _).mp (OrderedCompletionQueue.parked_iff.mpr hmem))
  have hlower : q.currentIndex ≤
      (InMemoryNanoLog.park q (some index) logId promise).1.currentIndex := hcompletes.index_le
  rcases h with ⟨hle, hpark, hnot⟩ | ⟨heq, hpark | hnot⟩
  · -- the commit index is parked: the first check passes it, or the second one starts at it
    have hpassed : index < (InMemoryNanoLog.park q (some index) logId promise).1.currentIndex := by
      show index < ((q.add logId promise).1.completeAllBelow index).1.currentIndex
      rcases OrderedCompletionQueue.check_parked ((hparked index).mpr hpark) with hlt | hstays
      · exact lt_of_lt_of_le hlt (OrderedCompletionQueue.completeAllBelow_completes _ index).index_le
      · exact OrderedCompletionQueue.lt_completeAllBelow hstays
    have := hupper hnot (by omega)
    omega
  · -- a promise below the index is in the way, before and after
    have hbelow : (q.addIncomplete logId promise).Parked index := (hparked index).mpr hpark
    have hadd : q.add logId promise = (q.addIncomplete logId promise, []) :=
      OrderedCompletionQueue.check_of_parked_below hbelow (by
        show index < q.currentIndex
        omega)
    show ((q.add logId promise).1.completeAllBelow index).1.currentIndex = index + 1
    rw [hadd]
    dsimp only
    generalize hq : q.addIncomplete logId promise = q' at hbelow
    have hcurrent : q'.currentIndex = index + 1 := by
      rw [← hq, heq]
      rfl
    unfold OrderedCompletionQueue.completeAllBelow
    dsimp only
    rw [if_neg (by omega), OrderedCompletionQueue.check_of_parked_below (j := index)]
    · exact hcurrent
    · unfold OrderedCompletionQueue.Parked at hbelow ⊢
      rw [SortedMap.find?_eraseAll, if_neg]
      · exact hbelow
      · intro hmem
        obtain ⟨e, he, hkey⟩ := List.mem_map.mp hmem
        have := List.mem_takeWhile_imp he
        simp [hkey] at this
    · show index < q'.currentIndex
      omega
  · have := hupper hnot (by omega)
    omega

/-! ## In step -/

/-- The two nanologs in step: the same queue, the entries of one stored by the other, and the end
index and the seal where their caches are not dirty. A dirty end index is one no index was
completed under. -/
structure Agrees (s : RocksNanoLog α κ) (m : InMemoryNanoLog α) : Prop where
  versionId : s.versionId = m.metadataVersionId
  startIndex : s.startIndex = m.startIndex
  completionQueue : s.completionQueue = m.completionQueue
  holds : RocksNanoLog.Holds s.kvStore s.versionId m.logs.find? m.getLocalCommitIndex m.sealed
  sealed : s.sealDirty = false → s.sealed = m.sealed
  endIndex : s.endIndexDirty = false → s.endIndex = m.getLocalCommitIndex
  unread : s.endIndexDirty = true → m.getLocalCommitIndex = m.startIndex

variable {s : RocksNanoLog α κ} {m : InMemoryNanoLog α}

theorem RocksNanoLog.step_append (s : RocksNanoLog α κ) (globalCommitIndex : Option Int) (logId : Int)
    (payload : String) (skipSeal : Bool) (promise : α) :
    s.step (.append globalCommitIndex logId payload skipSeal promise) =
      ((Coro.exec (append globalCommitIndex logId payload skipSeal promise) s).2,
        (Coro.exec (append globalCommitIndex logId payload skipSeal promise) s).1.map
          (.appended none)) := by
  unfold RocksNanoLog.step
  dsimp only
  rw [Coro.exec_map]

/-- A look at the seal changes nothing the two agree on. -/
theorem Agrees.readSeal (h : Agrees s m) :
    Agrees { s with sealed := m.sealed, sealDirty := false } m where
  versionId := h.versionId
  startIndex := h.startIndex
  completionQueue := h.completionQueue
  holds := h.holds
  sealed _ := rfl
  endIndex := h.endIndex
  unread := h.unread

theorem getLogEntry_agrees (h : Agrees s m) (logId : Int) :
    (s.step (.getLogEntry logId)).2 = (m.step (.getLogEntry logId)).2 ∧
      Agrees (s.step (.getLogEntry logId)).1 (m.step (.getLogEntry logId)).1 := by
  have hread : Coro.exec (RocksNanoLog.getLogEntry logId) s = (.ok (m.getLogEntry logId), s) := by
    have hget : Coro.exec (RocksNanoLog.kvGet (RocksNanoLog.logKey s.versionId logId)) s =
        (.ok (m.logs.find? logId), s) := by
      rw [RocksNanoLog.exec_kvGet, h.holds.logs]
    unfold RocksNanoLog.getLogEntry InMemoryNanoLog.getLogEntry
    rw [Coro.exec_bind_ok (Coro.exec_getThe _), Coro.exec_bind_ok hget]
    cases m.logs.find? logId <;> rfl
  have hstep : s.step (.getLogEntry logId) = (s, .ok (.entry (m.getLogEntry logId))) := by
    unfold RocksNanoLog.step
    dsimp only
    rw [Coro.exec_bind_ok hread]
    rfl
  rw [hstep]
  exact ⟨rfl, h⟩

theorem getLocalCommitIndex_agrees (h : Agrees s m) :
    (s.step .getLocalCommitIndex).2 = (m.step .getLocalCommitIndex).2 ∧
      Agrees (s.step .getLocalCommitIndex).1 (m.step .getLocalCommitIndex).1 := by
  have hstep : s.step .getLocalCommitIndex =
      ({ s with endIndex := m.getLocalCommitIndex, endIndexDirty := false },
        .ok (.localCommitIndex m.getLocalCommitIndex)) := by
    unfold RocksNanoLog.step RocksNanoLog.getLocalCommitIndex
    dsimp only
    rw [Coro.exec_bind_ok (RocksNanoLog.exec_getEndIndex h.holds h.endIndex)]
    rfl
  rw [hstep]
  refine ⟨rfl, h.versionId, h.startIndex, h.completionQueue, h.holds, h.sealed, fun _ => rfl, ?_⟩
  intro hdirty
  cases hdirty

variable [LawfulKVStoreLite κ String] [FlushingKVStoreLite κ String]

theorem seal_agrees (h : Agrees s m) (hok : SameWay s m .seal) :
    (s.step .seal).2 = (m.step .seal).2 ∧ Agrees (s.step .seal).1 (m.step .seal).1 := by
  obtain ⟨kvStore, hexec, hholds⟩ := RocksNanoLog.exec_seal h.holds
  have hcached : s.endIndex = m.getLocalCommitIndex := by
    cases hdirty : s.endIndexDirty with
    | false => exact h.endIndex hdirty
    | true =>
      calc s.endIndex = s.startIndex := hok hdirty
        _ = m.startIndex := h.startIndex
        _ = m.getLocalCommitIndex := (h.unread hdirty).symm
  have hstep : s.step .seal = ({ s with sealed := true, sealDirty := false, kvStore },
      .ok (.sealed s.endIndex)) := by
    unfold RocksNanoLog.step
    dsimp only
    rw [Coro.exec_bind_ok hexec]
    rfl
  rw [hstep]
  refine ⟨?_, h.versionId, h.startIndex, h.completionQueue, hholds, fun _ => rfl, h.endIndex, h.unread⟩
  show Except.ok (NanoLogAnswer.sealed s.endIndex) = .ok (.sealed m.getLocalCommitIndex)
  rw [hcached]

section append

variable {globalCommitIndex : Option Int} {logId : Int} {payload : String} {skipSeal : Bool}
  {promise : α}

/-- The in-memory append to a free position. -/
theorem InMemoryNanoLog.step_append (hadmitted : (!skipSeal && m.sealed) = false)
    (hvacant : m.logs.find? logId = none) :
    m.step (.append globalCommitIndex logId payload skipSeal promise) =
      ({ m with
          logs := m.logs.insert logId payload
          completionQueue := (park m.completionQueue globalCommitIndex logId promise).1 },
        .ok (.appended none (park m.completionQueue globalCommitIndex logId promise).2)) := by
  unfold InMemoryNanoLog.step InMemoryNanoLog.checkSealed
  dsimp only
  rw [if_neg (by simp [hadmitted]), InMemoryNanoLog.appendLocked_of_vacant hvacant]

omit [LawfulKVStoreLite κ String] [FlushingKVStoreLite κ String] in
/-- Both have parked the promise and stored the entry. What is left to see is the end index:
`stored` is the one under its key. -/
theorem Agrees.appended (h : Agrees s m) {completionQueue : OrderedCompletionQueue α}
    {endIndex stored : Int} {endIndexDirty : Bool} {kvStore : κ}
    (hholds : RocksNanoLog.Holds kvStore s.versionId
      (fun l => if l = logId then some payload else m.logs.find? l) stored m.sealed)
    (hindex : stored = completionQueue.currentIndex)
    (hcache : endIndexDirty = false → endIndex = stored)
    (hunread : endIndexDirty = true → stored = m.startIndex) :
    Agrees
      { s with sealed := m.sealed, sealDirty := false, endIndex, endIndexDirty, completionQueue, kvStore }
      { m with logs := m.logs.insert logId payload, completionQueue } := by
  have hlogs : (fun l => if l = logId then some payload else m.logs.find? l) =
      (m.logs.insert logId payload).find? := by
    funext l
    rw [SortedMap.find?_insert]
  rw [hlogs, hindex] at hholds
  rw [hindex] at hcache hunread
  exact ⟨h.versionId, h.startIndex, rfl, hholds, fun _ => rfl, hcache, hunread⟩

/-- **An append.** -/
theorem append_agrees (h : Agrees s m)
    (hok : SameWay s m (.append globalCommitIndex logId payload skipSeal promise)) :
    (s.step (.append globalCommitIndex logId payload skipSeal promise)).2 =
        (m.step (.append globalCommitIndex logId payload skipSeal promise)).2 ∧
      Agrees (s.step (.append globalCommitIndex logId payload skipSeal promise)).1
        (m.step (.append globalCommitIndex logId payload skipSeal promise)).1 := by
  obtain ⟨hfree, hcommit⟩ := hok
  rw [RocksNanoLog.step_append]
  cases hadmitted : !skipSeal && m.sealed with
  | true =>
    have hm : m.step (.append globalCommitIndex logId payload skipSeal promise) =
        (m, .error (.nanoLog (.nanoLogSealed m.metadataVersionId))) := by
      unfold InMemoryNanoLog.step InMemoryNanoLog.checkSealed
      dsimp only
      rw [if_pos hadmitted]
    rw [RocksNanoLog.exec_append_sealed h.holds h.sealed hadmitted, hm, ← h.versionId]
    exact ⟨rfl, h.readSeal⟩
  | false =>
    cases hlookup : m.logs.find? logId with
    | some old =>
      -- only an append that respects the seal gets here
      have hskip : skipSeal = false := by
        by_contra hne
        have hnone := hfree (by simpa using hne)
        rw [hlookup] at hnone
        cases hnone
      have hm : m.step (.append globalCommitIndex logId payload skipSeal promise) =
          (m, .error (.nanoLog .nanoLogLogPositionAlreadyOccupied)) := by
        unfold InMemoryNanoLog.step InMemoryNanoLog.checkSealed
        dsimp only
        rw [if_neg (by simp [hadmitted]), InMemoryNanoLog.appendLocked_of_occupied hlookup, hskip]
        rfl
      rw [RocksNanoLog.exec_append_occupied h.holds h.sealed hadmitted hlookup, hm]
      exact ⟨rfl, h.readSeal⟩
    | none =>
      rw [InMemoryNanoLog.step_append hadmitted hlookup]
      cases globalCommitIndex with
      | some index =>
        obtain ⟨kvStore, hexec, hholds⟩ := RocksNanoLog.exec_append_commit payload promise
          h.holds h.sealed hadmitted hlookup index
        rw [hexec, h.completionQueue]
        have hstops : m.completionQueue.StopsBehind logId index := by
          refine hcommit ?_ hlookup index rfl
          cases hskip : skipSeal with
          | true => exact .inl rfl
          | false => exact .inr (by simpa [hskip] using hadmitted)
        exact ⟨rfl, h.appended hholds (hstops.index_eq promise).symm (fun _ => rfl)
          (fun hdirty => nomatch hdirty)⟩
      | none =>
        obtain ⟨endIndex, endIndexDirty, kvStore, stored, hexec, hholds, hend⟩ :=
          RocksNanoLog.exec_append_none payload promise h.holds h.sealed
            hadmitted hlookup
        rw [hexec, h.completionQueue]
        rw [h.completionQueue] at hend
        refine ⟨rfl, h.appended hholds ?_ ?_ ?_⟩
        · rcases hend with ⟨hstays, -, -, hstored⟩ | ⟨-, -, -, hstored⟩
          · exact hstored.trans hstays.symm
          · exact hstored
        · intro hdirty
          rcases hend with ⟨-, hindex, hdirty', hstored⟩ | ⟨-, hindex, -, hstored⟩
          · rw [hindex, hstored]
            exact h.endIndex (hdirty' ▸ hdirty)
          · rw [hindex, hstored]
        · intro hdirty
          rcases hend with ⟨-, -, hdirty', hstored⟩ | ⟨-, -, hclean, -⟩
          · rw [hstored]
            exact h.unread (hdirty' ▸ hdirty)
          · rw [hclean] at hdirty
            cases hdirty

end append

/-- **One call.** -/
theorem step_agrees (s : RocksNanoLog α κ) (m : InMemoryNanoLog α) (c : NanoLogCall α)
    (h : Agrees s m) (hok : SameWay s m c) :
    (s.step c).2 = (m.step c).2 ∧ Agrees (s.step c).1 (m.step c).1 := by
  cases c with
  | append globalCommitIndex logId payload skipSeal promise => exact append_agrees h hok
  | getLogEntry logId => exact getLogEntry_agrees h logId
  | «seal» => exact seal_agrees h hok
  | getLocalCommitIndex => exact getLocalCommitIndex_agrees h

omit [FlushingKVStoreLite κ String] in
/-- What the factory makes. -/
theorem makeNanoLog_agrees (versionId : String) (startIndex endIndex : Int) (isSealed : Bool) (kv : κ)
    (hempty : ∀ l, KVStoreLite.get kv (RocksNanoLog.logKey versionId l) = none) :
    Agrees (RocksNanoLog.makeNanoLog versionId startIndex endIndex isSealed kv : RocksNanoLog α κ)
      { metadataVersionId := versionId, startIndex, sealed := isSealed } := by
  obtain ⟨kvStore, hmade, hholds⟩ :=
    RocksNanoLog.holds_makeNanoLog (α := α) startIndex endIndex isSealed hempty
  rw [hmade]
  refine ⟨rfl, rfl, rfl, hholds, fun _ => rfl, ?_, fun _ => rfl⟩
  intro hclean
  cases hclean

/-- **The two nanologs agree** on every list of calls that go the same way: the same results, the
same exceptions, and the same promises completed by the same call. -/
theorem rocks_agrees_inMemory (versionId : String) (startIndex endIndex : Int) (isSealed : Bool)
    (kv : κ) (hempty : ∀ l, KVStoreLite.get kv (RocksNanoLog.logKey versionId l) = none)
    (calls : List (NanoLogCall α))
    (hsame : Lockstep.Along RocksNanoLog.step InMemoryNanoLog.step SameWay
      (RocksNanoLog.makeNanoLog versionId startIndex endIndex isSealed kv)
      { metadataVersionId := versionId, startIndex, sealed := isSealed } calls) :
    Lockstep.answers RocksNanoLog.step
        (RocksNanoLog.makeNanoLog versionId startIndex endIndex isSealed kv : RocksNanoLog α κ) calls =
      Lockstep.answers InMemoryNanoLog.step
        { metadataVersionId := versionId, startIndex, sealed := isSealed } calls :=
  Lockstep.answers_eq step_agrees
    (makeNanoLog_agrees versionId startIndex endIndex isSealed kv hempty) hsame

/-- Two appends out of order, the second with a commit index; reads, a seal, and appends after
it. -/
def inOrderCalls : List (NanoLogCall Nat) :=
  [.append none 5 "b" false 0, .append (some 5) 4 "a" false 1, .getLocalCommitIndex, .getLogEntry 4,
    .append none 4 "c" false 2, .seal, .append none 6 "d" false 3, .append none 6 "e" true 4,
    .getLogEntry 7, .getLocalCommitIndex]

theorem rocks_agrees_inMemory_inOrderCalls :
    Lockstep.answers RocksNanoLog.step
        (RocksNanoLog.makeNanoLog "v" 4 40 false (RocksStore.provideSharedPtr false)) inOrderCalls =
      [.ok (.appended none []), .ok (.appended none [(4, 1), (5, 0)]), .ok (.localCommitIndex 6),
        .ok (.entry (.ok ⟨4, "a"⟩)), .error (.nanoLog .nanoLogLogPositionAlreadyOccupied),
        .ok (.sealed 6), .error (.nanoLog (.nanoLogSealed "v")), .ok (.appended none [(6, 4)]),
        .ok (.entry (.error .notFound)), .ok (.localCommitIndex 7)] :=
  (rocks_agrees_inMemory "v" 4 40 false (RocksStore.provideSharedPtr false) (fun _ => rfl)
    inOrderCalls (by decide +kernel)).trans (by decide +kernel)

/-- A seal before the end index was read, a commit index from the past, and an entry that is brought
a second time. -/
def otherCalls : List (NanoLogCall Nat) :=
  [.seal, .append none 4 "a" true 0, .append (some 3) 5 "b" true 1, .getLocalCommitIndex,
    .append none 4 "a" true 2]

/-- **They do not agree on everything.** -/
theorem rocks_disagrees_inMemory :
    Lockstep.answers RocksNanoLog.step
        (RocksNanoLog.makeNanoLog "v" 4 40 false (RocksStore.provideSharedPtr false)) otherCalls =
      [.ok (.sealed 40), .ok (.appended none [(4, 0)]), .ok (.appended none [(5, 1)]),
        .ok (.localCommitIndex 4), .error (.nanoLog .nanoLogLogPositionAlreadyOccupied)] ∧
    Lockstep.answers InMemoryNanoLog.step
        { metadataVersionId := "v", startIndex := 4, sealed := false } otherCalls =
      [.ok (.sealed 4), .ok (.appended none [(4, 0)]), .ok (.appended none [(5, 1)]),
        .ok (.localCommitIndex 6), .ok (.appended (some 4) [])] := by
  constructor <;> decide +kernel

end ReplicatedCounter.Log
