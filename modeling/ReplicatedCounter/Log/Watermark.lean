import ReplicatedCounter.Lib.Transition
import ReplicatedCounter.Log.RocksNanoLog
import ReplicatedCounter.Log.SealCut

/-!
# The end index of a `RocksNanoLog` as a watermark

A reconfiguration takes the end index that `seal` returns for the first log id the nanolog knows
nothing of: everything acknowledged is below it, everything below it is stored here or committed,
and it does not go down. `Watermark` says this of a value.

Two places break it. **An append with a commit index sets the end index to the one behind the commit
index**, wherever it was, so a commit index from the past takes it back below entries that were
acknowledged; and the seed of the sequencer, which commits nothing, takes it past the first entry.
**`seal` returns the cached end index**, and before the first append that is what the constructor
was given, the largest log id there is. `Upholds` excludes both.
-/

set_option autoImplicit false

namespace ReplicatedCounter.Log

variable {κ : Type} [KVStoreLite κ String]

/-- A nanolog over a store, with what its callers have seen. -/
structure WatermarkRun (κ : Type) where
  nanoLog : RocksNanoLog AppendRequest κ
  /-- The commit indices that came with appends. -/
  received : List Int := []
  acknowledged : List AppendRequest := []
  /-- What `seal` and `getLocalCommitIndex` have returned. -/
  returned : List Int := []

inductive WatermarkCall where
  | append (request : AppendRequest)
  | «seal»
  | getLocalCommitIndex
  deriving DecidableEq, Repr

namespace WatermarkRun

/-- What `NanoLogFactory` makes. -/
def make (versionId : String) (startIndex endIndex : Int) (isSealed : Bool) (kvStore : κ) :
    WatermarkRun κ where
  nanoLog := RocksNanoLog.makeNanoLog versionId startIndex endIndex isSealed kvStore

/-- One call. -/
def step (s : WatermarkRun κ) : WatermarkCall → Option (WatermarkRun κ)
  | .append request =>
    let (result, nanoLog) := Coro.exec (RocksNanoLog.append request.globalCommitIndex request.logId
      request.logEntryPayload request.skipSeal request) s.nanoLog
    some { s with
      nanoLog
      received := s.received ++ request.globalCommitIndex.toList
      acknowledged := s.acknowledged ++ (match result with
        | .ok completed => completed.map (·.2)
        | .error _ => []) }
  | .seal =>
    let (result, nanoLog) := Coro.exec RocksNanoLog.seal s.nanoLog
    some { s with nanoLog, returned := s.returned ++ result.toOption.toList }
  | .getLocalCommitIndex =>
    let (result, nanoLog) := Coro.exec RocksNanoLog.getLocalCommitIndex s.nanoLog
    some { s with nanoLog, returned := s.returned ++ result.toOption.toList }

/-- An entry is stored. -/
def Stored (s : WatermarkRun κ) (logId : Int) : Prop :=
  KVStoreLite.get s.nanoLog.kvStore (RocksNanoLog.logKey s.nanoLog.versionId logId) ≠ none

/-- A commit index was received that covers an id. The seed of the sequencer, which is the start
index, covers nothing. -/
def Committed (s : WatermarkRun κ) (logId : Int) : Prop :=
  ∃ index ∈ s.received, s.nanoLog.startIndex < index ∧ logId ≤ index

/-- A value that covers every acknowledged entry and nothing that is not there. -/
structure Watermark (s : WatermarkRun κ) (value : Int) : Prop where
  start_le : s.nanoLog.startIndex ≤ value
  acknowledged_lt : ∀ r ∈ s.acknowledged, r.skipSeal = false → r.logId < value
  returned_le : ∀ v ∈ s.returned, v ≤ value
  covered : ∀ j, s.nanoLog.startIndex ≤ j → j < value → s.Stored j ∨ s.Committed j

/-- An append is let past the seal and finds its position free. -/
def Admits (s : WatermarkRun κ) (request : AppendRequest) : Prop :=
  (request.skipSeal = true ∨ (Coro.exec RocksNanoLog.isSealed s.nanoLog).1 = .ok false) ∧
    ¬ s.Stored request.logId

/-- What a call must respect.

* The index behind the commit index of an append that is stored is not below the start index, a
  value returned before, or the id of an append without `skipSeal` that was acknowledged before or
  is reached by this one. If the commit index is the start index, the first entry is stored, or this
  one, or committed.
* `seal` comes after the end index was read or written once, unless the constructor was given the
  start index for it. -/
def Upholds (s : WatermarkRun κ) : WatermarkCall → Prop
  | .append request => s.Admits request → ∀ index ∈ request.globalCommitIndex,
      s.nanoLog.startIndex ≤ index + 1 ∧ (∀ v ∈ s.returned, v ≤ index + 1) ∧
      (∀ r ∈ s.acknowledged, r.skipSeal = false → r.logId ≤ index) ∧
      (∀ e ∈ (s.nanoLog.completionQueue.promises.insert request.logId request).entries,
        e.2.skipSeal = false → InMemoryNanoLog.Reaches s.nanoLog.completionQueue (some index)
          request.logId e.1 → e.1 ≤ index) ∧
      (index = s.nanoLog.startIndex → request.logId = index ∨ s.Stored index ∨ s.Committed index)
  | .seal => s.nanoLog.endIndexDirty = true → s.nanoLog.endIndex = s.nanoLog.startIndex
  | .getLocalCommitIndex => True

instance (s : WatermarkRun κ) (logId : Int) : Decidable (s.Stored logId) :=
  inferInstanceAs (Decidable (_ ≠ none))

instance (s : WatermarkRun κ) (logId : Int) : Decidable (s.Committed logId) :=
  inferInstanceAs (Decidable (∃ _ ∈ s.received, _))

instance (s : WatermarkRun κ) (request : AppendRequest) : Decidable (s.Admits request) :=
  inferInstanceAs (Decidable ((_ ∨ _ = Except.ok false) ∧ ¬ _))

instance (s : WatermarkRun κ) : ∀ call, Decidable (s.Upholds call)
  | .append request => inferInstanceAs (Decidable (_ → ∀ _ ∈ request.globalCommitIndex,
      _ ∧ (∀ _ ∈ s.returned, _) ∧ (∀ _ ∈ s.acknowledged, _) ∧ (∀ _ ∈ (_ : List _), _) ∧ (_ → _)))
  | .seal => inferInstanceAs (Decidable (_ → _))
  | .getLocalCommitIndex => isTrue trivial

/-! ## What every call keeps -/

/-- The state of a nanolog whose end index is a watermark. -/
structure Sound (s : WatermarkRun κ) (logs : Int → Option String) (endIndex : Int)
    (isSealed : Bool) : Prop where
  holds : RocksNanoLog.Holds s.nanoLog.kvStore s.nanoLog.versionId logs endIndex isSealed
  sealed_eq : s.nanoLog.sealDirty = false → s.nanoLog.sealed = isSealed
  endIndex_eq : s.nanoLog.endIndexDirty = false → s.nanoLog.endIndex = endIndex
  /-- Until the end index is read or written, nothing has happened to it. -/
  endIndex_dirty : s.nanoLog.endIndexDirty = true → endIndex = s.nanoLog.startIndex
  watermark : s.Watermark endIndex
  start_le : s.nanoLog.startIndex ≤ s.nanoLog.completionQueue.currentIndex
  endIndex_le : endIndex ≤ s.nanoLog.completionQueue.currentIndex + 1
  passed : ∀ j, s.nanoLog.startIndex ≤ j → j < s.nanoLog.completionQueue.currentIndex →
    s.Stored j ∨ s.Committed j
  parked : ∀ e ∈ s.nanoLog.completionQueue.promises.entries, e.2.logId = e.1 ∧ s.Stored e.1

section Sound

variable {s t : WatermarkRun κ} {logs logs' : Int → Option String} {endIndex endIndex' : Int}
  {isSealed isSealed' : Bool}

theorem Sound.stored_iff (h : s.Sound logs endIndex isSealed) {j : Int} :
    s.Stored j ↔ logs j ≠ none := by
  unfold Stored
  rw [h.holds.logs]

theorem stored_iff_of_holds
    (h : RocksNanoLog.Holds t.nanoLog.kvStore t.nanoLog.versionId logs endIndex isSealed) {j : Int} :
    t.Stored j ↔ logs j ≠ none := by
  unfold Stored
  rw [h.logs]

/-- What is stored or committed is so after more appends. -/
theorem covered_mono (s t : WatermarkRun κ) (hstart : t.nanoLog.startIndex = s.nanoLog.startIndex)
    (hstored : ∀ j, s.Stored j → t.Stored j) (hreceived : s.received ⊆ t.received) {j : Int}
    (h : s.Stored j ∨ s.Committed j) : t.Stored j ∨ t.Committed j := by
  rcases h with h | ⟨index, hindex, hlt, hle⟩
  · exact .inl (hstored j h)
  · exact .inr ⟨index, hreceived hindex, hstart ▸ hlt, hle⟩

/-- Whether an append is admitted. -/
theorem Sound.admits_iff (h : s.Sound logs endIndex isSealed) {request : AppendRequest} :
    s.Admits request ↔ (!request.skipSeal && isSealed) = false ∧ logs request.logId = none := by
  unfold Admits
  rw [h.stored_iff, RocksNanoLog.exec_isSealed h.holds h.sealed_eq, not_not]
  refine and_congr_left fun _ => ?_
  cases request.skipSeal <;> cases isSealed <;> simp

/-- The run after an append. -/
def appended (s : WatermarkRun κ) (request : AppendRequest) (nanoLog : RocksNanoLog AppendRequest κ)
    (done : List (Int × AppendRequest)) : WatermarkRun κ where
  nanoLog
  received := s.received ++ request.globalCommitIndex.toList
  acknowledged := s.acknowledged ++ done.map (·.2)
  returned := s.returned

/-- An append that is turned away reads the seal and leaves everything else alone. -/
theorem Sound.refused (h : s.Sound logs endIndex isSealed) (request : AppendRequest) :
    (s.appended request { s.nanoLog with sealed := isSealed, sealDirty := false } []).Sound logs
      endIndex isSealed := by
  have hcovered : ∀ j, s.Stored j ∨ s.Committed j →
      (s.appended request { s.nanoLog with sealed := isSealed, sealDirty := false } []).Stored j ∨
      (s.appended request { s.nanoLog with sealed := isSealed, sealDirty := false } []).Committed j :=
    fun j hj => covered_mono s (s.appended request { s.nanoLog with
      sealed := isSealed, sealDirty := false } []) rfl (fun _ hj => hj) (List.subset_append_left _ _) hj
  refine ⟨h.holds, fun _ => rfl, h.endIndex_eq, h.endIndex_dirty, ⟨h.watermark.start_le, ?_,
    h.watermark.returned_le, fun j hj hj' => hcovered j (h.watermark.covered j hj hj')⟩,
    h.start_le, h.endIndex_le, fun j hj hj' => hcovered j (h.passed j hj hj'), h.parked⟩
  intro r hr
  exact h.watermark.acknowledged_lt r (by simpa [appended] using hr)

/-- **An append that is stored.** The queue has gone from that of `s`, with the new promise in it,
to `queue`, and has completed `done`; the end index is now `endIndex'`. -/
theorem Sound.stored (h : s.Sound logs endIndex isSealed) {request : AppendRequest}
    {queue : OrderedCompletionQueue AppendRequest} {done : List (Int × AppendRequest)}
    (hcompletes : ({ s.nanoLog.completionQueue with
      promises := s.nanoLog.completionQueue.promises.insert request.logId request } :
        OrderedCompletionQueue AppendRequest).Completes
          (InMemoryNanoLog.Vouched request.globalCommitIndex) queue done)
    {kvStore : κ} {endIndexDirty : Bool} {cached : Int}
    (hholds : RocksNanoLog.Holds kvStore s.nanoLog.versionId
      (fun l => if l = request.logId then some request.logEntryPayload else logs l) endIndex' isSealed)
    (hcached : endIndexDirty = false → cached = endIndex')
    (hdirty : endIndexDirty = true → endIndex' = s.nanoLog.startIndex)
    (hge : s.nanoLog.startIndex ≤ endIndex') (hreturned : ∀ v ∈ s.returned, v ≤ endIndex')
    (hacknowledged : ∀ r ∈ s.acknowledged, r.skipSeal = false → r.logId < endIndex')
    (hdone : ∀ e ∈ done, e.2.skipSeal = false → e.1 < endIndex')
    (hle : endIndex' ≤ queue.currentIndex + 1)
    (hcovered : ∀ j, queue.currentIndex ≤ j → s.nanoLog.startIndex ≤ j → j < endIndex' →
      (s.Stored j ∨ s.Committed j) ∨ j = request.logId ∨
        ∃ index ∈ request.globalCommitIndex, s.nanoLog.startIndex < index ∧ j ≤ index) :
    (s.appended request { s.nanoLog with
        sealed := isSealed, sealDirty := false, endIndex := cached, endIndexDirty,
        completionQueue := queue, kvStore } done).Sound
      (fun l => if l = request.logId then some request.logEntryPayload else logs l) endIndex'
      isSealed := by
  obtain ⟨t, ht⟩ : ∃ t, s.appended request { s.nanoLog with
        sealed := isSealed, sealDirty := false, endIndex := cached, endIndexDirty,
        completionQueue := queue, kvStore } done = t := ⟨_, rfl⟩
  have hstored : ∀ j, t.Stored j ↔
      (if j = request.logId then some request.logEntryPayload else logs j) ≠ none := by
    intro j
    rw [← ht]
    exact stored_iff_of_holds (t := s.appended request { s.nanoLog with
        sealed := isSealed, sealDirty := false, endIndex := cached, endIndexDirty,
        completionQueue := queue, kvStore } done) hholds
  have hnew : t.Stored request.logId := by
    rw [hstored, if_pos rfl]
    simp
  have hold : ∀ j, s.Stored j → t.Stored j := by
    intro j hj
    rw [hstored]
    split
    · simp
    · exact h.stored_iff.mp hj
  have hmore : ∀ j, (s.Stored j ∨ s.Committed j) ∨ j = request.logId ∨
      (∃ index ∈ request.globalCommitIndex, s.nanoLog.startIndex < index ∧ j ≤ index) →
      t.Stored j ∨ t.Committed j := by
    rintro j (hj | rfl | ⟨index, hindex, hlt, hji⟩)
    · exact covered_mono s t (ht ▸ rfl) hold (ht ▸ List.subset_append_left _ _) hj
    · exact .inl hnew
    · refine .inr ⟨index, ?_, ht ▸ hlt, hji⟩
      rw [← ht]
      exact List.mem_append_right _ (Option.mem_toList.mpr hindex)
  have hentry : ∀ e ∈ (s.nanoLog.completionQueue.promises.insert request.logId request).entries,
      e.2.logId = e.1 ∧ t.Stored e.1 := by
    rintro ⟨k, r⟩ he
    rcases SortedMap.mem_insert.mp he with ⟨rfl, rfl⟩ | ⟨-, he⟩
    · exact ⟨rfl, hnew⟩
    · exact ⟨(h.parked _ he).1, hold _ (h.parked _ he).2⟩
  -- what the queue has passed was there, is parked, or is below the commit index
  have hpassed : ∀ j, s.nanoLog.startIndex ≤ j → j < queue.currentIndex →
      t.Stored j ∨ t.Committed j := by
    intro j hj hj'
    by_cases hbefore : j < s.nanoLog.completionQueue.currentIndex
    · exact hmore j (.inl (h.passed j hj hbefore))
    · rcases hcompletes.filled j (not_lt.mp hbefore) hj' with ⟨index, hindex, hlt⟩ | ⟨a, ha⟩
      · exact hmore j (.inr (.inr ⟨index, hindex, hj.trans_lt hlt, hlt.le⟩))
      · exact .inl (hentry _ ha).2
  rw [ht]
  have hnanoLog : t.nanoLog = { s.nanoLog with
      sealed := isSealed, sealDirty := false, endIndex := cached, endIndexDirty,
      completionQueue := queue, kvStore } := ht ▸ rfl
  refine ⟨?_, ?_, ?_, ?_, ⟨?_, ?_, ?_, ?_⟩, ?_, ?_, ?_, ?_⟩
  · rw [hnanoLog]
    exact hholds
  · rw [hnanoLog]
    exact fun _ => rfl
  · rw [hnanoLog]
    exact hcached
  · rw [hnanoLog]
    exact hdirty
  · rw [hnanoLog]
    exact hge
  · intro r hr hskip
    rw [← ht] at hr
    rcases List.mem_append.mp hr with hr | hr
    · exact hacknowledged r hr hskip
    · obtain ⟨e, he, rfl⟩ := List.mem_map.mp hr
      rw [(hentry e (hcompletes.done_mem e he)).1]
      exact hdone e he hskip
  · rw [← ht]
    exact hreturned
  · intro j hj hj'
    rw [hnanoLog] at hj
    by_cases hlt : j < queue.currentIndex
    · exact hpassed j hj hlt
    · exact hmore j (hcovered j (not_lt.mp hlt) hj hj')
  · rw [hnanoLog]
    exact h.start_le.trans hcompletes.index_le
  · rw [hnanoLog]
    exact hle
  · rw [hnanoLog]
    exact hpassed
  · rw [hnanoLog]
    exact fun e he => hentry e (hcompletes.rest_mem e he)

variable [LawfulKVStoreLite κ String]

theorem sound_make (versionId : String) (startIndex endIndex : Int) (isSealed : Bool) (kvStore : κ) :
    ∃ logs, (make versionId startIndex endIndex isSealed kvStore).Sound logs startIndex isSealed := by
  obtain ⟨kv, hmake, hholds⟩ := RocksNanoLog.holds_makeNanoLog_of (α := AppendRequest)
    versionId startIndex endIndex isSealed kvStore
  refine ⟨fun l => KVStoreLite.get kvStore (RocksNanoLog.logKey versionId l), ?_⟩
  unfold make
  rw [hmake]
  exact ⟨hholds, (fun hdirty => nomatch hdirty), (fun hdirty => nomatch hdirty), fun _ => rfl,
    ⟨le_rfl, fun r hr => absurd hr List.not_mem_nil, fun v hv => absurd hv List.not_mem_nil,
      fun j hj hj' => absurd hj (not_le.mpr hj')⟩, le_rfl, (Int.lt_succ _).le,
    fun j hj hj' => absurd hj (not_le.mpr hj'), fun e he => absurd he List.not_mem_nil⟩

variable [FlushingKVStoreLite κ String]

/-- **An append.** -/
theorem Sound.append (h : s.Sound logs endIndex isSealed) {request : AppendRequest}
    (hok : s.Upholds (.append request)) (hs : s.step (.append request) = some t) :
    ∃ logs' endIndex', t.Sound logs' endIndex' isSealed := by
  have hcompletes := InMemoryNanoLog.park_completes s.nanoLog.completionQueue
    request.globalCommitIndex request.logId request
  rcases RocksNanoLog.exec_append_cases request.globalCommitIndex request.logId
      request.logEntryPayload request.skipSeal request h.holds h.sealed_eq with
    ⟨-, e, hexec⟩ | ⟨hadmitted, cached, endIndexDirty, kvStore, stored, hexec, hholds, hend⟩
  · simp only [step, hexec] at hs
    exact ⟨logs, endIndex, Option.some.inj hs ▸ h.refused request⟩
  · simp only [step, hexec] at hs
    obtain rfl := Option.some.inj hs
    rcases hend with ⟨index, hindex, rfl, rfl, rfl⟩ | ⟨hnone, hstays, rfl, rfl, rfl⟩ |
      ⟨hnone, hmoves, rfl, rfl, rfl⟩
    · obtain ⟨hge, hreturned, hacknowledged, hreached, hseed⟩ :=
        hok (h.admits_iff.mpr hadmitted) index hindex
      have hle : index ≤ (InMemoryNanoLog.park s.nanoLog.completionQueue request.globalCommitIndex
          request.logId request).1.currentIndex := by
        rw [Option.mem_def.mp hindex]
        exact OrderedCompletionQueue.le_completeAllBelow _ index
      refine ⟨_, index + 1, h.stored hcompletes hholds (fun _ => rfl)
        (fun hdirty => nomatch hdirty) hge hreturned
        (fun r hr hskip => Int.lt_add_one_of_le (hacknowledged r hr hskip)) ?_
        (Int.add_le_add_right hle 1) ?_⟩
      · intro e he hskip
        obtain ⟨hmem, hreach⟩ := InMemoryNanoLog.mem_park_iff.mp he
        rw [Option.mem_def.mp hindex] at hreach
        exact Int.lt_add_one_of_le (hreached e hmem hskip hreach)
      · intro j hj hj' hlt
        by_cases hbehind : s.nanoLog.startIndex < index
        · exact .inr (.inr ⟨index, hindex, hbehind, Int.lt_add_one_iff.mp hlt⟩)
        · -- only the first entry is left, and the commit index is the seed
          obtain rfl : j = index := by omega
          rcases hseed (by omega) with hown | hstored | hcommitted
          · exact .inr (.inl hown.symm)
          · exact .inl (.inl hstored)
          · exact .inl (.inr hcommitted)
    · refine ⟨_, stored, h.stored hcompletes hholds h.endIndex_eq h.endIndex_dirty
        h.watermark.start_le h.watermark.returned_le h.watermark.acknowledged_lt ?_ ?_ ?_⟩
      · intro e he hskip
        have hlt := hcompletes.done_lt e he
        have hge : s.nanoLog.completionQueue.currentIndex ≤ e.1 :=
          (hcompletes.done_ge e he).resolve_left (by simp [InMemoryNanoLog.Vouched, hnone])
        omega
      · rw [hstays]
        exact h.endIndex_le
      · intro j hj hj' hlt
        exact .inl (h.watermark.covered j hj' hlt)
    · refine ⟨_, _, h.stored hcompletes hholds (fun _ => rfl) (fun hdirty => nomatch hdirty)
        (h.start_le.trans hmoves.le) ?_ ?_ ?_ (Int.lt_succ _).le ?_⟩
      · intro v hv
        have := h.watermark.returned_le v hv
        have := h.endIndex_le
        omega
      · intro r hr hskip
        have := h.watermark.acknowledged_lt r hr hskip
        have := h.endIndex_le
        omega
      · exact fun e he _ => hcompletes.done_lt e he
      · exact fun j hj _ hlt => absurd hlt (not_lt.mpr hj)

omit [LawfulKVStoreLite κ String] [FlushingKVStoreLite κ String] in
/-- A call that returns the end index, and changes the store and the caches only. -/
theorem Sound.returning (h : s.Sound logs endIndex isSealed) (nanoLog : RocksNanoLog AppendRequest κ)
    (hstart : nanoLog.startIndex = s.nanoLog.startIndex)
    (hqueue : nanoLog.completionQueue = s.nanoLog.completionQueue)
    (hholds : RocksNanoLog.Holds nanoLog.kvStore nanoLog.versionId logs endIndex isSealed')
    (hsealed : nanoLog.sealDirty = false → nanoLog.sealed = isSealed')
    (hcached : nanoLog.endIndexDirty = false → nanoLog.endIndex = endIndex)
    (hdirty : nanoLog.endIndexDirty = true → endIndex = s.nanoLog.startIndex) :
    ({ s with nanoLog, returned := s.returned ++ [endIndex] } : WatermarkRun κ).Sound logs endIndex
      isSealed' := by
  have hstored : ∀ j, s.Stored j →
      ({ s with nanoLog, returned := s.returned ++ [endIndex] } : WatermarkRun κ).Stored j :=
    fun j hj => (stored_iff_of_holds (t := { s with nanoLog, returned := s.returned ++ [endIndex] })
      hholds).mpr (h.stored_iff.mp hj)
  have hcovered : ∀ j, s.Stored j ∨ s.Committed j → _ ∨ _ := fun j =>
    covered_mono s { s with nanoLog, returned := s.returned ++ [endIndex] } hstart hstored
      (List.Subset.refl _)
  refine ⟨hholds, hsealed, hcached, fun hd => (hdirty hd).trans hstart.symm, ⟨?_, ?_, ?_, ?_⟩,
    ?_, ?_, ?_, ?_⟩
  · exact hstart.trans_le h.watermark.start_le
  · exact h.watermark.acknowledged_lt
  · intro v hv
    rcases List.mem_append.mp hv with hv | hv
    · exact h.watermark.returned_le v hv
    · exact (List.mem_singleton.mp hv).le
  · exact fun j hj hj' => hcovered j (h.watermark.covered j (hstart.symm.trans_le hj) hj')
  · dsimp only
    rw [hstart, hqueue]
    exact h.start_le
  · dsimp only
    rw [hqueue]
    exact h.endIndex_le
  · intro j hj hj'
    dsimp only at hj hj'
    rw [hqueue] at hj'
    exact hcovered j (h.passed j (hstart.symm.trans_le hj) hj')
  · intro e he
    dsimp only at he
    rw [hqueue] at he
    exact ⟨(h.parked e he).1, hstored _ (h.parked e he).2⟩

/-- **`seal` and `getLocalCommitIndex`** return the end index. -/
theorem Sound.query (h : s.Sound logs endIndex isSealed) {query : WatermarkCall}
    (hquery : query = .seal ∨ query = .getLocalCommitIndex) (hok : s.Upholds query) :
    ∃ t isSealed', s.step query = some t ∧ t.returned = s.returned ++ [endIndex] ∧
      t.Sound logs endIndex isSealed' := by
  rcases hquery with rfl | rfl
  · have hcached : s.nanoLog.endIndex = endIndex := by
      cases hdirty : s.nanoLog.endIndexDirty with
      | false => exact h.endIndex_eq hdirty
      | true => exact (hok hdirty).trans (h.endIndex_dirty hdirty).symm
    obtain ⟨kvStore, hexec, hholds⟩ := RocksNanoLog.exec_seal h.holds
    rw [hcached] at hexec
    refine ⟨_, true, by rw [step, hexec], rfl, ?_⟩
    exact h.returning { s.nanoLog with
      endIndex := endIndex, sealed := true, sealDirty := false, kvStore } rfl rfl hholds
      (fun _ => rfl) (fun _ => rfl) h.endIndex_dirty
  · have hexec := RocksNanoLog.exec_getEndIndex h.holds h.endIndex_eq
    refine ⟨_, isSealed, by rw [step, RocksNanoLog.getLocalCommitIndex, hexec], rfl, ?_⟩
    exact h.returning { s.nanoLog with endIndex, endIndexDirty := false } rfl rfl h.holds
      h.sealed_eq (fun _ => rfl) (fun hdirty => nomatch hdirty)

end Sound

section Run

variable [LawfulKVStoreLite κ String] [FlushingKVStoreLite κ String] {s t : WatermarkRun κ}

/-- **Every call** that upholds the watermark keeps it. -/
theorem Sound.step {call : WatermarkCall}
    (h : ∃ logs endIndex isSealed, s.Sound logs endIndex isSealed) (hok : s.Upholds call)
    (hs : s.step call = some t) : ∃ logs endIndex isSealed, t.Sound logs endIndex isSealed := by
  obtain ⟨logs, endIndex, isSealed, h⟩ := h
  have hquery : call = .seal ∨ call = .getLocalCommitIndex →
      ∃ logs endIndex isSealed, t.Sound logs endIndex isSealed := by
    intro hcall
    obtain ⟨u, isSealed', hu, -, hsound⟩ := h.query hcall hok
    obtain rfl := Option.some.inj (hu.symm.trans hs)
    exact ⟨logs, endIndex, isSealed', hsound⟩
  cases call with
  | append request =>
    obtain ⟨logs', endIndex', hsound⟩ := h.append hok hs
    exact ⟨logs', endIndex', isSealed, hsound⟩
  | «seal» => exact hquery (.inl rfl)
  | getLocalCommitIndex => exact hquery (.inr rfl)

/-- **The end index is a watermark.** After any run of a new nanolog whose calls all uphold it,
`seal` and `getLocalCommitIndex` return a value that is not below the start index, above every
acknowledged append without `skipSeal`, not below any value returned before, and covers only what is
stored or committed. -/
theorem watermark_of_upholds {versionId : String} {startIndex endIndex : Int} {isSealed : Bool}
    {kvStore : κ} {calls : List WatermarkCall}
    (hrun : Transition.run step (make versionId startIndex endIndex isSealed kvStore) calls = some s)
    (hok : Transition.Meets step Upholds (make versionId startIndex endIndex isSealed kvStore) calls) :
    ∀ query, query = .seal ∨ query = .getLocalCommitIndex → s.Upholds query →
      ∃ t value, s.step query = some t ∧ t.returned = s.returned ++ [value] ∧ s.Watermark value := by
  obtain ⟨logs, hmake⟩ := sound_make versionId startIndex endIndex isSealed kvStore
  obtain ⟨logs, endIndex, isSealed, hsound⟩ := Transition.meets_invariant
    (P := fun s : WatermarkRun κ => ∃ logs endIndex isSealed, s.Sound logs endIndex isSealed)
    (fun _ _ _ h hok hs => Sound.step h hok hs) hrun hok ⟨logs, startIndex, isSealed, hmake⟩
  intro query hquery hupholds
  obtain ⟨t, -, ht, hreturned, -⟩ := hsound.query hquery hupholds
  exact ⟨t, endIndex, ht, hreturned, hsound.watermark⟩

end Run

/-- Two appends without a commit index, and one with the commit index of a hole in front of it. -/
def overHole : List WatermarkCall :=
  [.append { logId := 1 }, .append { logId := 2 },
    .append { logId := 4, globalCommitIndex := some 3 }]

def newNanoLog : WatermarkRun (RocksStore String) :=
  make "1" 1 highestNonExistingLogId false (.provideSharedPtr true)

/-- Entry 3 is not here, but committed. -/
theorem watermark_of_upholds_over_hole :
    ∃ s t value, Transition.run step newNanoLog overHole = some s ∧
      s.step .seal = some t ∧ t.returned = [4] ∧ t.returned = s.returned ++ [value] ∧
      s.Watermark value := by
  have hrun : Transition.run step newNanoLog overHole =
      some ((Transition.run step newNanoLog overHole).getD newNanoLog) := rfl
  have hok : Transition.Meets step Upholds newNanoLog overHole := by decide +kernel
  obtain ⟨t, value, ht, hreturned, hwatermark⟩ :=
    watermark_of_upholds hrun hok .seal (.inl rfl) (by decide +kernel)
  refine ⟨_, t, value, hrun, ht, ?_, hreturned, hwatermark⟩
  obtain rfl := Option.some.inj ht
  rfl

/-- The first two appends of a sequencer that starts at 1. Its commit index is 1 for both. -/
def twoAppends : List WatermarkCall :=
  [.append { logId := 1, globalCommitIndex := some 1 },
    .append { logId := 2, globalCommitIndex := some 1 }]

/-- **Append 2 is acknowledged, and the end index is 2.** -/
theorem not_watermark_two_appends :
    ∃ s t, Transition.run step newNanoLog twoAppends = some s ∧
      s.step .seal = some t ∧ t.returned = [2] ∧
      { logId := 2, globalCommitIndex := some 1 } ∈ s.acknowledged ∧ ¬ s.Watermark 2 := by
  have hrun : Transition.run step newNanoLog twoAppends =
      some ((Transition.run step newNanoLog twoAppends).getD newNanoLog) := rfl
  have hmem : ({ logId := 2, globalCommitIndex := some 1 } : AppendRequest) ∈
      ((Transition.run step newNanoLog twoAppends).getD newNanoLog).acknowledged := by
    decide +kernel
  refine ⟨_, _, hrun, rfl, rfl, hmem, fun h => ?_⟩
  exact absurd (h.acknowledged_lt _ hmem rfl) (lt_irrefl _)

end WatermarkRun

end ReplicatedCounter.Log
