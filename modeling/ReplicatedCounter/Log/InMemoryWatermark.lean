import ReplicatedCounter.Log.SealCut

/-!
# The local commit index of an `InMemoryNanoLog` as a watermark

An append is answered on one of three ways: its own `add` closes the hole in front of it, the `add`
of another entry does, or a commit index that came with another append is past it. Whichever it was,
the local commit index has moved past it too. `Watermark` says so of a nanolog and its callers, and
that what the local commit index has moved past is stored or was declared committed by somebody.

A `skipSeal` append to an occupied position is answered at once and says nothing about the local
commit index.
-/

set_option autoImplicit false

namespace ReplicatedCounter.Log

namespace InMemoryNanoLog

variable {α : Type} {nanoLog : InMemoryNanoLog α} {logId : Int} {entry : LogEntry}

/-- An entry is stored. -/
def Stored (nanoLog : InMemoryNanoLog α) (logId : Int) : Prop :=
  ∃ entry, nanoLog.getLogEntry logId = .ok entry

theorem getLogEntry_eq_ok :
    nanoLog.getLogEntry logId = .ok entry ↔
      entry.logId = logId ∧ nanoLog.logs.find? logId = some entry.payload := by
  unfold getLogEntry
  cases nanoLog.logs.find? logId with
  | none => simp
  | some payload =>
    rw [Except.ok.injEq]
    constructor
    · rintro rfl
      exact ⟨rfl, rfl⟩
    · intro h
      obtain ⟨rfl, hpayload⟩ := h
      rw [Option.some.inj hpayload]

theorem stored_iff : nanoLog.Stored logId ↔ ∃ payload, nanoLog.logs.find? logId = some payload := by
  constructor
  · intro h
    obtain ⟨entry, hentry⟩ := h
    exact ⟨entry.payload, (getLogEntry_eq_ok.mp hentry).2⟩
  · intro h
    obtain ⟨payload, hpayload⟩ := h
    exact ⟨⟨logId, payload⟩, getLogEntry_eq_ok.mpr ⟨rfl, hpayload⟩⟩

/-- A stored payload is read back for good. -/
theorem Extends.getLogEntry {nanoLog' : InMemoryNanoLog α} (h : nanoLog.Extends nanoLog')
    (hentry : nanoLog.getLogEntry logId = .ok entry) : nanoLog'.getLogEntry logId = .ok entry := by
  obtain ⟨hid, hpayload⟩ := getLogEntry_eq_ok.mp hentry
  exact getLogEntry_eq_ok.mpr ⟨hid, h.logs hpayload⟩

theorem Extends.stored {nanoLog' : InMemoryNanoLog α} (h : nanoLog.Extends nanoLog')
    (hstored : nanoLog.Stored logId) : nanoLog'.Stored logId := by
  obtain ⟨entry, hentry⟩ := hstored
  exact ⟨entry, h.getLogEntry hentry⟩

end InMemoryNanoLog

namespace NanoLogRun

variable {s t : NanoLogRun} {event : NanoLogEvent} {es es' : List NanoLogEvent}
  {request : AppendRequest} {vouched : Int → Prop} {metadataVersionId : String} {startIndex : Int}
  {«sealed» : Bool}

/-- The local commit index covers every append that was acknowledged, and from the start index on
nothing but what is stored or vouched for. -/
structure Watermark (vouched : Int → Prop) (s : NanoLogRun) : Prop where
  keyed : s.Keyed
  parked_stored : ∀ e ∈ s.nanoLog.completionQueue.promises.entries, s.nanoLog.Stored e.1
  start_le : s.nanoLog.startIndex ≤ s.nanoLog.getLocalCommitIndex
  acknowledged_lt : ∀ r ∈ s.acknowledged,
    r.skipSeal = false → r.logId < s.nanoLog.getLocalCommitIndex
  covered : ∀ j, s.nanoLog.startIndex ≤ j → j < s.nanoLog.getLocalCommitIndex →
    s.nanoLog.Stored j ∨ vouched j

theorem watermark_make : Watermark vouched (make metadataVersionId startIndex «sealed») where
  keyed := keyed_make _ _ _
  parked_stored _ he := absurd he List.not_mem_nil
  start_le := le_rfl
  acknowledged_lt _ hr := absurd hr List.not_mem_nil
  covered _ hj hj' := absurd hj' (not_lt.mpr hj)

/-! ### A step -/

theorem step_append_eq_some (hs : step s (.append request) = some t) :
    t = {
      nanoLog := (s.nanoLog.appendLocked request.globalCommitIndex request.logId
        request.logEntryPayload request.skipSeal request).nanoLog
      waiting := s.waiting.erase request
      acknowledged := s.acknowledged ++ acknowledges s.nanoLog request } := by
  simp only [step] at hs
  split at hs
  · exact (Option.some.inj hs).symm
  · exact absurd hs (by simp)

/-- What is not an append of somebody leaves the queue, the entries and the answers as they are. -/
theorem step_quiet (h : ∀ request, event ≠ .append request) (hs : step s event = some t) :
    t.nanoLog.completionQueue = s.nanoLog.completionQueue ∧ t.nanoLog.logs = s.nanoLog.logs ∧
      t.nanoLog.startIndex = s.nanoLog.startIndex ∧ t.acknowledged = s.acknowledged := by
  cases event with
  | submit request =>
    simp only [step] at hs
    split at hs
    · obtain rfl := Option.some.inj hs
      exact ⟨rfl, rfl, rfl, rfl⟩
    · obtain rfl := Option.some.inj hs
      exact ⟨rfl, rfl, rfl, rfl⟩
  | append request => exact absurd rfl (h request)
  | «seal» =>
    obtain rfl := Option.some.inj hs
    exact ⟨rfl, rfl, rfl, rfl⟩
  | getLogEntry logId =>
    obtain rfl := Option.some.inj hs
    exact ⟨rfl, rfl, rfl, rfl⟩

/-- Nothing a step does to the nanolog takes anything back. -/
theorem step_extends (hs : step s event = some t) : s.nanoLog.Extends t.nanoLog := by
  cases event with
  | submit request =>
    simp only [step] at hs
    split at hs
    · obtain rfl := Option.some.inj hs
      exact .refl s.nanoLog
    · obtain rfl := Option.some.inj hs
      exact .refl s.nanoLog
  | append request =>
    rw [step_append_eq_some hs]
    exact InMemoryNanoLog.appendLocked_extends
  | «seal» =>
    obtain rfl := Option.some.inj hs
    exact s.nanoLog.seal_extends
  | getLogEntry logId =>
    obtain rfl := Option.some.inj hs
    exact .refl s.nanoLog

/-- An append to an occupied position is refused or, for a repair, succeeds; the nanolog does not
change. -/
theorem Watermark.append_occupied (h : Watermark vouched s) {p : String}
    (hfind : s.nanoLog.logs.find? request.logId = some p)
    (hs : step s (.append request) = some t) : Watermark vouched t := by
  have hkeyed := h.keyed.step hs
  obtain rfl := step_append_eq_some hs
  have hanswers : ∀ r ∈ acknowledges s.nanoLog request, r.skipSeal = true := by
    intro r hr
    unfold acknowledges at hr
    rw [InMemoryNanoLog.appendLocked_of_occupied hfind] at hr
    cases hskip : request.skipSeal with
    | false => simp [hskip] at hr
    | true =>
      obtain rfl : r = request := by simpa [hskip] using hr
      exact hskip
  rw [InMemoryNanoLog.appendLocked_of_occupied hfind] at hkeyed ⊢
  refine ⟨hkeyed, h.parked_stored, h.start_le, ?_, h.covered⟩
  intro r hr hskip
  rcases List.mem_append.mp hr with hr | hr
  · exact h.acknowledged_lt r hr hskip
  · exact absurd (hanswers r hr) (by simp [hskip])

/-- **An append to a vacant position.** The completion queue accounts for the index and for the
answers: `Completes.filled` says what the index has moved past, `Completes.done_lt` that it has
moved past every append it answers. -/
theorem Watermark.append_vacant (h : Watermark vouched s)
    (hfind : s.nanoLog.logs.find? request.logId = none)
    (hvouched : ∀ j, InMemoryNanoLog.Vouched request.globalCommitIndex j → vouched j)
    (hs : step s (.append request) = some t) : Watermark vouched t := by
  have hkeyed := h.keyed.step hs
  have hextends := step_extends hs
  have hinsert := h.keyed.insert request
  have hcompletes := InMemoryNanoLog.park_completes s.nanoLog.completionQueue
    request.globalCommitIndex request.logId request
  obtain rfl := step_append_eq_some hs
  -- the parked appends of before, and this one
  have hstored : ∀ e ∈ (s.nanoLog.completionQueue.promises.insert request.logId request).entries,
      (s.nanoLog.appendLocked request.globalCommitIndex request.logId request.logEntryPayload
        request.skipSeal request).nanoLog.Stored e.1 := by
    intro e he
    rcases SortedMap.mem_insert.mp he with ⟨hid, -⟩ | ⟨-, he⟩
    · rw [hid, InMemoryNanoLog.stored_iff, InMemoryNanoLog.appendLocked_of_vacant hfind]
      exact ⟨request.logEntryPayload, by rw [SortedMap.find?_insert, if_pos rfl]⟩
    · exact hextends.stored (h.parked_stored e he)
  refine ⟨hkeyed, ?_, ?_, ?_, ?_⟩
  · intro e he
    refine hstored e (hcompletes.rest_mem e ?_)
    rw [InMemoryNanoLog.appendLocked_of_vacant hfind] at he
    exact he
  · rw [hextends.startIndex]
    exact h.start_le.trans hextends.index_le
  · intro r hr hskip
    rcases List.mem_append.mp hr with hr | hr
    · exact (h.acknowledged_lt r hr hskip).trans_le hextends.index_le
    · unfold acknowledges at hr
      rw [InMemoryNanoLog.appendLocked_of_vacant hfind] at hr ⊢
      obtain ⟨e, he, rfl⟩ := List.mem_map.mp hr
      rw [hinsert e (hcompletes.done_mem e he)]
      exact hcompletes.done_lt e he
  · intro j hj hj'
    rw [hextends.startIndex] at hj
    by_cases hbefore : j < s.nanoLog.getLocalCommitIndex
    · exact (h.covered j hj hbefore).imp_left hextends.stored
    · have hlt : j < (InMemoryNanoLog.park s.nanoLog.completionQueue request.globalCommitIndex
          request.logId request).1.currentIndex := by
        rw [InMemoryNanoLog.appendLocked_of_vacant hfind] at hj'
        exact hj'
      rcases hcompletes.filled j (not_lt.mp hbefore) hlt with hv | ⟨r, hr⟩
      · exact .inr (hvouched j hv)
      · exact .inl (hstored (j, r) hr)

/-- What the commit index of an append covers is vouched for. -/
def Vouches (vouched : Int → Prop) : NanoLogEvent → Prop
  | .append request => ∀ j, InMemoryNanoLog.Vouched request.globalCommitIndex j → vouched j
  | _ => True

theorem Watermark.step (h : Watermark vouched s) (hvouches : Vouches vouched event)
    (hs : step s event = some t) : Watermark vouched t := by
  by_cases happend : ∃ request, event = .append request
  · obtain ⟨request, rfl⟩ := happend
    cases hfind : s.nanoLog.logs.find? request.logId with
    | some p => exact h.append_occupied hfind hs
    | none => exact h.append_vacant hfind hvouches hs
  · obtain ⟨hqueue, hlogs, hstart, hacknowledged⟩ :=
      step_quiet (fun request he => happend ⟨request, he⟩) hs
    have hextends := step_extends hs
    have hindex : t.nanoLog.getLocalCommitIndex = s.nanoLog.getLocalCommitIndex := by
      unfold InMemoryNanoLog.getLocalCommitIndex
      rw [hqueue]
    refine ⟨h.keyed.step hs, ?_, ?_, ?_, ?_⟩
    · rw [hqueue]
      exact fun e he => hextends.stored (h.parked_stored e he)
    · rw [hindex, hstart]
      exact h.start_le
    · rw [hindex, hacknowledged]
      exact h.acknowledged_lt
    · rw [hindex, hstart]
      exact fun j hj hj' => (h.covered j hj hj').imp_left hextends.stored

/-! ### A run -/

theorem run_extends (hrun : Transition.run step s es = some t) : s.nanoLog.Extends t.nanoLog :=
  Transition.run_relation (R := fun s t : NanoLogRun => s.nanoLog.Extends t.nanoLog)
    (fun s => .refl s.nanoLog) (fun _ _ _ _ h hs => h.trans (step_extends hs)) hrun

/-- Somebody has sent a commit index above `j`. -/
def Received (es : List NanoLogEvent) (j : Int) : Prop :=
  ∃ request, NanoLogEvent.append request ∈ es ∧ ∃ index ∈ request.globalCommitIndex, j < index

theorem vouches_of_mem (h : event ∈ es) : Vouches (Received es) event := by
  cases event with
  | append request =>
    intro j hj
    obtain ⟨index, hindex, hlt⟩ := hj
    exact ⟨request, h, index, hindex, hlt⟩
  | _ => trivial

theorem run_watermark
    (hrun : Transition.run step (make metadataVersionId startIndex «sealed») es = some s) :
    Watermark (Received es) s :=
  Transition.meets_invariant (fun _ _ _ h hok hs => h.step hok hs) hrun
    (Transition.meets_of_mem fun _ he _ => vouches_of_mem he) watermark_make

/-- **The local commit index is a watermark.** A nanolog is run from `startIndex` to `s`, and on to
`t`. The index does not go down; it is past everything acknowledged without `skipSeal`, and so is
what a later seal returns; whatever it is past is stored, or some append has brought a commit index
above it; and what was written stays. -/
theorem localCommitIndex_watermark
    (hrun : Transition.run step (make metadataVersionId startIndex «sealed») es = some s)
    (hrun' : Transition.run step s es' = some t) :
    s.nanoLog.getLocalCommitIndex ≤ t.nanoLog.getLocalCommitIndex ∧
      (∀ r ∈ s.acknowledged, r.skipSeal = false → startIndex ≤ r.logId →
        r.logId < s.nanoLog.getLocalCommitIndex ∧ r.logId < t.nanoLog.seal.2) ∧
      (∀ j, startIndex ≤ j → j < s.nanoLog.getLocalCommitIndex →
        s.nanoLog.Stored j ∨ Received es j) ∧
      ∀ logId entry, s.nanoLog.getLogEntry logId = .ok entry →
        t.nanoLog.getLogEntry logId = .ok entry := by
  have hwatermark := run_watermark hrun
  have hextends := run_extends hrun'
  have hstart : s.nanoLog.startIndex = startIndex := (run_extends hrun).startIndex
  refine ⟨hextends.index_le, ?_, ?_, ?_⟩
  · intro r hr hskip _
    have hlt := hwatermark.acknowledged_lt r hr hskip
    exact ⟨hlt, hlt.trans_le hextends.index_le⟩
  · rw [← hstart]
    exact hwatermark.covered
  · intro logId entry hentry
    exact hextends.getLogEntry hentry

/-- The second append closes the hole in front of the first one, and both are answered; the third
is answered by its own commit index. -/
def unorderedAppends : List NanoLogEvent :=
  [.submit { logId := 2 }, .append { logId := 2 }, .submit { logId := 1 }, .append { logId := 1 },
    .submit { logId := 5, globalCommitIndex := some 7 },
    .append { logId := 5, globalCommitIndex := some 7 }]

theorem localCommitIndex_watermark_unordered :
    ∃ s t, Transition.run step (make "1" 1 false) unorderedAppends = some s ∧
      Transition.run step s [.seal] = some t ∧ s.acknowledged.map (·.logId) = [1, 2, 5] ∧
      ∀ r ∈ s.acknowledged, r.skipSeal = false → 1 ≤ r.logId →
        r.logId < s.nanoLog.getLocalCommitIndex ∧ r.logId < t.nanoLog.seal.2 := by
  refine ⟨_, _, rfl, rfl, rfl, ?_⟩
  have hrun : Transition.run step (make "1" 1 false) unorderedAppends = some _ := rfl
  exact (localCommitIndex_watermark hrun
    (rfl : Transition.run step _ [.seal] = some _)).2.1

/-- The index stays among the log ids unless somebody stores an entry at
`HighestNonExistingLogId`. -/
theorem localCommitIndex_le_highest
    (hrun : Transition.run step (make metadataVersionId startIndex «sealed») es = some s)
    (hstart : startIndex ≤ highestNonExistingLogId)
    (hreceived : ∀ request, NanoLogEvent.append request ∈ es →
      ∀ index ∈ request.globalCommitIndex, index ≤ highestNonExistingLogId)
    (hstored : ¬ s.nanoLog.Stored highestNonExistingLogId) :
    s.nanoLog.getLocalCommitIndex ≤ highestNonExistingLogId := by
  have hwatermark := run_watermark hrun
  by_contra hlt
  have hstartIndex : s.nanoLog.startIndex = startIndex := (run_extends hrun).startIndex
  rcases hwatermark.covered _ (hstartIndex ▸ hstart) (not_le.mp hlt) with h | h
  · exact hstored h
  · obtain ⟨request, hmem, index, hindex, habove⟩ := h
    exact absurd (hreceived request hmem index hindex) (not_le.mpr habove)

end NanoLogRun

end ReplicatedCounter.Log
