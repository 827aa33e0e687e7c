import ReplicatedCounter.Lib.IntRange
import ReplicatedCounter.Lib.Transition
import ReplicatedCounter.Log.Replica

/-!
# What a seal of a nanolog cuts off

A sealed nanolog turns new appends away, all but those that skip the seal. It does nothing about the
appends that are parked in its completion queue, and the appends that skip the seal move that queue:
**a repair at the local commit index acknowledges what is parked right behind it**, whoever sent it
and whatever the seal has returned. `mem_park_iff` says which parked appends an append completes,
and with it `seal_cuts_off_iff` says which repairs are harmless.

An append looks at the seal before it takes the mutex. One that has looked is in `waiting`.
-/

set_option autoImplicit false

namespace ReplicatedCounter.Log

/-! ## Which parked appends an append completes -/

namespace InMemoryNanoLog

variable {α : Type} {queue : OrderedCompletionQueue α} {globalCommitIndex : Option Int}
  {logId : Int} {promise : α}

/-- An append at `logId` completes what is parked at `p`, or itself if that is `p`: it is below the
commit index of the append, or from the local commit index up to it there is no hole that the commit
index does not cover, and no leftover in front of them. -/
def Reaches (queue : OrderedCompletionQueue α) (globalCommitIndex : Option Int) (logId p : Int) :
    Prop :=
  Vouched globalCommitIndex p ∨
    ((∀ k, queue.Parked k ∨ k = logId → ¬ Vouched globalCommitIndex k → queue.currentIndex ≤ k) ∧
      ∀ j, queue.currentIndex ≤ j → j ≤ p → ¬ Vouched globalCommitIndex j →
        queue.Parked j ∨ j = logId) ∧ queue.currentIndex ≤ p

instance (globalCommitIndex : Option Int) (j : Int) : Decidable (Vouched globalCommitIndex j) :=
  decidable_of_iff (∃ index ∈ globalCommitIndex, j < index) Iff.rfl

/-- Nothing stays in front of the local commit index. -/
theorem front_iff {front : Int → Prop} :
    (∀ k ∈ logId :: queue.promises.entries.map (·.1), front k) ↔
      ∀ k, queue.Parked k ∨ k = logId → front k := by
  refine forall_congr' fun k => ?_
  rw [List.mem_cons, List.mem_map, OrderedCompletionQueue.parked_iff, or_comm]
  simp

instance (queue : OrderedCompletionQueue α) (globalCommitIndex : Option Int) (logId p : Int) :
    Decidable (Reaches queue globalCommitIndex logId p) :=
  haveI : Decidable (∀ k, queue.Parked k ∨ k = logId → ¬ Vouched globalCommitIndex k →
      queue.currentIndex ≤ k) := decidable_of_iff _ front_iff
  inferInstanceAs (Decidable (_ ∨ (_ ∧ ∀ _, _ → _ → _ → _) ∧ _))

theorem parked_insert {j : Int} :
    ({ queue with promises := queue.promises.insert logId promise } :
      OrderedCompletionQueue α).Parked j ↔ queue.Parked j ∨ j = logId := by
  unfold OrderedCompletionQueue.Parked
  dsimp only
  rw [SortedMap.find?_insert]
  by_cases hj : j = logId
  · simp [hj]
  · simp [hj]

/-- **The promises an append completes.** -/
theorem mem_park_iff {e : Int × α} :
    e ∈ (park queue globalCommitIndex logId promise).2 ↔
      e ∈ (queue.promises.insert logId promise).entries ∧
        Reaches queue globalCommitIndex logId e.1 := by
  cases globalCommitIndex with
  | none =>
    show e ∈ (queue.add logId promise).2 ↔ _
    unfold OrderedCompletionQueue.add
    rw [OrderedCompletionQueue.mem_check_iff]
    simp only [parked_insert, Reaches, Vouched, reduceCtorEq, false_and, exists_false, false_or,
      not_false_eq_true, forall_const]
    refine and_congr_right fun he => ⟨fun h => ⟨h, h.1 e.1 ?_⟩, fun h => h.1⟩
    exact parked_insert.mp (OrderedCompletionQueue.parked_iff.mpr ⟨e.2, he⟩)
  | some index =>
    show e ∈ (queue.add logId promise).2 ++ ((queue.add logId promise).1.completeAllBelow index).2 ↔ _
    unfold OrderedCompletionQueue.add
    rw [OrderedCompletionQueue.mem_check_completeAllBelow]
    simp only [parked_insert, Reaches, Vouched, Option.some.injEq, exists_eq_left', not_lt]
    refine and_congr_right fun _ => or_congr_right (and_congr_left fun _ => and_congr_right fun _ => ?_)
    exact ⟨fun h j hj hp hv => h j hj hv hp, fun h j hj hv hp => h j hj hp hv⟩

/-- What an append reaches without a commit index is behind the local commit index afterwards. -/
theorem lt_of_reaches (promise : α) {p : Int} (h : Reaches queue none logId p) :
    p < (park queue none logId promise).1.currentIndex := by
  have hreach := h.resolve_left (by simp [Vouched])
  have hparked := hreach.1.2 p hreach.2 le_rfl (by simp [Vouched])
  obtain ⟨a, ha⟩ := OrderedCompletionQueue.parked_iff.mp (parked_insert.mpr hparked)
  exact (park_completes queue none logId promise).done_lt (p, a) (mem_park_iff.mpr ⟨ha, h⟩)

/-- If the local commit index moves, the append has reached it. -/
theorem reaches_of_lt (promise : α)
    (h : queue.currentIndex < (park queue none logId promise).1.currentIndex) :
    Reaches queue none logId queue.currentIndex := by
  have hfilled := (park_completes queue none logId promise).filled _ le_rfl h
  obtain ⟨a, ha⟩ := hfilled.resolve_left (by simp [Vouched])
  have hparked := parked_insert.mp (OrderedCompletionQueue.parked_iff.mpr ⟨a, ha⟩)
  refine .inr ⟨⟨fun k hk _ => ?_, fun j hj hj' _ => ?_⟩, le_rfl⟩
  · by_contra hlt
    -- a leftover in front would have stopped it
    have hstop : park queue none logId promise =
        ({ queue with promises := queue.promises.insert logId promise }, []) :=
      OrderedCompletionQueue.check_of_parked_below (parked_insert.mpr hk) (not_le.mp hlt)
    rw [hstop] at h
    exact lt_irrefl _ h
  · rw [le_antisymm hj' hj]
    exact hparked

end InMemoryNanoLog

/-! ## One nanolog under appends, seals and reads -/

/-- An append, as it was submitted. -/
structure AppendRequest where
  globalCommitIndex : Option Int := none
  logId : Int
  logEntryPayload : String := ""
  skipSeal : Bool := false
  deriving DecidableEq, Repr

/-- A nanolog and its callers. -/
structure NanoLogRun where
  nanoLog : InMemoryNanoLog AppendRequest
  /-- They were let past the seal and have not taken the mutex. -/
  waiting : List AppendRequest := []
  /-- The appends that have returned an id, in the order they did. -/
  acknowledged : List AppendRequest := []

inductive NanoLogEvent where
  | submit (request : AppendRequest)
  | append (request : AppendRequest)
  | «seal»
  | getLogEntry (logId : Int)
  deriving DecidableEq, Repr

namespace NanoLogRun

/-- The constructor of `InMemoryNanoLog`. -/
def make (metadataVersionId : String) (startIndex : Int) («sealed» : Bool) : NanoLogRun where
  nanoLog := { metadataVersionId, startIndex, «sealed» }

/-- What an append under the lock acknowledges. -/
def acknowledges (nanoLog : InMemoryNanoLog AppendRequest) (request : AppendRequest) :
    List AppendRequest :=
  let appended := nanoLog.appendLocked request.globalCommitIndex request.logId
    request.logEntryPayload request.skipSeal request
  (match appended.answer with
    | some (.ok _) => [request]
    | _ => []) ++ appended.completed.map (·.2)

/-- One step of somebody. -/
def step (s : NanoLogRun) : NanoLogEvent → Option NanoLogRun
  | .submit request =>
    match s.nanoLog.checkSealed request.skipSeal with
    | .error _ => some s
    | .ok () => some { s with waiting := request :: s.waiting }
  | .append request =>
    if request ∈ s.waiting then
      some {
        nanoLog := (s.nanoLog.appendLocked request.globalCommitIndex request.logId
          request.logEntryPayload request.skipSeal request).nanoLog
        waiting := s.waiting.erase request
        acknowledged := s.acknowledged ++ acknowledges s.nanoLog request }
    else
      none
  | .seal => some { s with nanoLog := s.nanoLog.seal.1 }
  | .getLogEntry _ => some s

/-- The step completes no append that came without `skipSeal` for `endIndex` or behind it: of those
that are parked, with the one that is made, it reaches none. -/
def Harmless (endIndex : Int) (s : NanoLogRun) : NanoLogEvent → Prop
  | .append request => s.nanoLog.logs.find? request.logId = none →
      ∀ e ∈ (s.nanoLog.completionQueue.promises.insert request.logId request).entries,
        e.2.skipSeal = false → endIndex ≤ e.1 → ¬ InMemoryNanoLog.Reaches
          s.nanoLog.completionQueue request.globalCommitIndex request.logId e.1
  | _ => True

instance (endIndex : Int) (s : NanoLogRun) : ∀ event, Decidable (Harmless endIndex s event)
  | .submit _ => isTrue trivial
  | .append _ => inferInstanceAs (Decidable (_ → ∀ e ∈ (_ : List _), _))
  | .seal => isTrue trivial
  | .getLogEntry _ => isTrue trivial

/-! ### What a step acknowledges -/

/-- Appends are parked at their log ids. -/
def Keyed (s : NanoLogRun) : Prop :=
  ∀ e ∈ s.nanoLog.completionQueue.promises.entries, e.2.logId = e.1

variable {s s' t : NanoLogRun} {event : NanoLogEvent} {endIndex : Int} {request : AppendRequest}

theorem keyed_make (metadataVersionId : String) (startIndex : Int) («sealed» : Bool) :
    (make metadataVersionId startIndex «sealed»).Keyed :=
  fun _ he => absurd he List.not_mem_nil

theorem Keyed.insert (h : s.Keyed) (request : AppendRequest) :
    ∀ e ∈ (s.nanoLog.completionQueue.promises.insert request.logId request).entries,
      e.2.logId = e.1 := by
  rintro ⟨k, r⟩ he
  rcases SortedMap.mem_insert.mp he with ⟨rfl, rfl⟩ | ⟨-, he⟩
  · rfl
  · exact h _ he

theorem Keyed.step (h : s.Keyed) (hs : step s event = some t) : t.Keyed := by
  cases event with
  | submit request =>
    simp only [NanoLogRun.step] at hs
    split at hs
    · exact Option.some.inj hs ▸ h
    · exact Option.some.inj hs ▸ h
  | append request =>
    simp only [NanoLogRun.step] at hs
    split at hs
    · obtain rfl := Option.some.inj hs
      intro e he
      cases hfind : s.nanoLog.logs.find? request.logId with
      | some p =>
        rw [InMemoryNanoLog.appendLocked_of_occupied hfind] at he
        exact h e he
      | none =>
        rw [InMemoryNanoLog.appendLocked_of_vacant hfind] at he
        exact h.insert request e ((InMemoryNanoLog.park_completes ..).rest_mem e he)
    · exact absurd hs (by simp)
  | «seal» => exact Option.some.inj hs ▸ h
  | getLogEntry logId => exact Option.some.inj hs ▸ h

/-- An append at a vacant position acknowledges what it reaches. -/
theorem mem_acknowledges_iff (h : s.Keyed) (hvacant : s.nanoLog.logs.find? request.logId = none)
    {r : AppendRequest} :
    r ∈ acknowledges s.nanoLog request ↔
      (r.logId, r) ∈ (s.nanoLog.completionQueue.promises.insert request.logId request).entries ∧
        InMemoryNanoLog.Reaches s.nanoLog.completionQueue request.globalCommitIndex request.logId
          r.logId := by
  unfold acknowledges
  rw [InMemoryNanoLog.appendLocked_of_vacant hvacant]
  show r ∈ List.map _ _ ↔ _
  constructor
  · intro hr
    obtain ⟨e, he, rfl⟩ := List.mem_map.mp hr
    obtain ⟨hmem, hreach⟩ := InMemoryNanoLog.mem_park_iff.mp he
    rw [h.insert request e hmem]
    exact ⟨hmem, hreach⟩
  · intro hr
    exact List.mem_map.mpr ⟨(r.logId, r), InMemoryNanoLog.mem_park_iff.mpr hr, rfl⟩

/-- **What one step acknowledges.** -/
theorem step_acknowledged (endIndex : Int) (h : s.Keyed) (hs : step s event = some t) :
    ∃ new, t.acknowledged = s.acknowledged ++ new ∧
      ((∀ r ∈ new, r.skipSeal = false → r.logId < endIndex) ↔ Harmless endIndex s event) := by
  cases event with
  | submit request =>
    refine ⟨[], ?_, by simp [Harmless]⟩
    simp only [step] at hs
    split at hs
    · exact Option.some.inj hs ▸ (List.append_nil _).symm
    · exact Option.some.inj hs ▸ (List.append_nil _).symm
  | append request =>
    simp only [step] at hs
    split at hs
    · obtain rfl := Option.some.inj hs
      refine ⟨acknowledges s.nanoLog request, rfl, ?_⟩
      cases hfind : s.nanoLog.logs.find? request.logId with
      | some p =>
        -- only a repair gets an answer here
        simp only [Harmless, hfind, reduceCtorEq, IsEmpty.forall_iff, iff_true]
        intro r hr hskip
        unfold acknowledges at hr
        rw [InMemoryNanoLog.appendLocked_of_occupied hfind] at hr
        cases hrequest : request.skipSeal with
        | false => simp [hrequest] at hr
        | true =>
          obtain rfl : r = request := by simpa [hrequest] using hr
          rw [hrequest] at hskip
          cases hskip
      | none =>
        simp only [Harmless, hfind, forall_const]
        constructor
        · intro hlt e he hskip hge hreach
          have hkey := h.insert request e he
          rw [← hkey] at hreach hge
          have hmem : (e.2.logId, e.2) ∈
              (s.nanoLog.completionQueue.promises.insert request.logId request).entries := by
            rw [hkey]
            exact he
          exact absurd (hlt e.2 ((mem_acknowledges_iff h hfind).mpr ⟨hmem, hreach⟩) hskip)
            (not_lt.mpr hge)
        · intro hharmless r hr hskip
          obtain ⟨hmem, hreach⟩ := (mem_acknowledges_iff h hfind).mp hr
          exact not_le.mp fun hge => hharmless _ hmem hskip hge hreach
    · exact absurd hs (by simp)
  | «seal» =>
    refine ⟨[], ?_, by simp [Harmless]⟩
    exact Option.some.inj hs ▸ (List.append_nil _).symm
  | getLogEntry logId =>
    refine ⟨[], ?_, by simp [Harmless]⟩
    exact Option.some.inj hs ▸ (List.append_nil _).symm

theorem run_acknowledged {es : List NanoLogEvent} (endIndex : Int) (h : s.Keyed)
    (hrun : Transition.run step s es = some t) :
    ∃ new, t.acknowledged = s.acknowledged ++ new ∧
      ((∀ r ∈ new, r.skipSeal = false → r.logId < endIndex) ↔
        Transition.Meets step (Harmless endIndex) s es) := by
  induction es generalizing s with
  | nil =>
    obtain rfl := Option.some.inj hrun
    exact ⟨[], (List.append_nil _).symm, by simp [Transition.Meets]⟩
  | cons event es ih =>
    obtain ⟨u, hs, hrest⟩ := Transition.run_cons_eq_some.mp hrun
    obtain ⟨new, hnew, hharmless⟩ := step_acknowledged endIndex h hs
    obtain ⟨new', hnew', hmeets⟩ := ih (h.step hs) hrest
    refine ⟨new ++ new', by rw [hnew', hnew, List.append_assoc], ?_⟩
    simp only [List.mem_append, or_imp, forall_and, hharmless, hmeets, Transition.Meets, hs,
      Option.some.injEq, forall_eq']

/-- **A seal cuts off exactly if everything after it is harmless.** A nanolog has come to `s` and is
sealed, and `seal` returns the local commit index of `s`. Whatever comes then, no append without
`skipSeal` is acknowledged at that index or behind it, if and only if no step reaches one. -/
theorem seal_cuts_off_iff {metadataVersionId : String} {startIndex : Int} {«sealed» : Bool}
    {es es' : List NanoLogEvent}
    (hrun : Transition.run step (make metadataVersionId startIndex «sealed») es = some s)
    (hseal : step s .seal = some s') (hrun' : Transition.run step s' es' = some t) :
    (∀ r ∈ t.acknowledged.drop s.acknowledged.length,
        r.skipSeal = false → r.logId < s.nanoLog.seal.2) ↔
      Transition.Meets step (Harmless s.nanoLog.seal.2) s' es' := by
  have hkeyed : s.Keyed :=
    Transition.run_invariant (P := Keyed) (fun _ _ _ h hs => h.step hs) hrun
      (keyed_make _ _ _)
  obtain ⟨new, hnew, hmeets⟩ := run_acknowledged s.nanoLog.seal.2 (hkeyed.step hseal) hrun'
  have hacknowledged : s'.acknowledged = s.acknowledged :=
    Option.some.inj hseal ▸ rfl
  rw [← hmeets, hnew, hacknowledged, List.drop_left]

/-- What re-replication sends for the first entry. -/
def repairFirst : List NanoLogEvent :=
  [.submit { logId := 1, skipSeal := true }, .append { logId := 1, skipSeal := true }]

/-- Append 3 is parked behind two holes. -/
def behindTwoHoles : NanoLogRun :=
  (Transition.run step (make "1" 1 false) [.submit { logId := 3 }, .append { logId := 3 }]).getD
    (make "1" 1 false)

/-- The repair of the first hole does not get to it. -/
theorem seal_cuts_off_iff_two_holes :
    ∃ s' t, step behindTwoHoles .seal = some s' ∧ Transition.run step s' repairFirst = some t ∧
      t.acknowledged = [{ logId := 1, skipSeal := true }] ∧
      ∀ r ∈ t.acknowledged.drop behindTwoHoles.acknowledged.length,
        r.skipSeal = false → r.logId < behindTwoHoles.nanoLog.seal.2 := by
  have hrun : Transition.run step (make "1" 1 false)
      [.submit { logId := 3 }, .append { logId := 3 }] = some behindTwoHoles := rfl
  refine ⟨_, _, rfl, rfl, rfl, (seal_cuts_off_iff hrun rfl
    (rfl : Transition.run step _ repairFirst = some _)).mpr ?_⟩
  decide +kernel

/-- **A repair acknowledges a parked append behind the seal.** -/
theorem acknowledged_behind_seal :
    ∃ s s' t, Transition.run step (make "1" 1 false)
        [.submit { logId := 2 }, .append { logId := 2 }] = some s ∧
      step s .seal = some s' ∧ s.nanoLog.seal.2 = 1 ∧
      Transition.run step s' repairFirst = some t ∧
      t.acknowledged.drop s.acknowledged.length =
        [{ logId := 1, skipSeal := true }, { logId := 2 }] :=
  ⟨_, _, _, rfl, rfl, rfl, rfl, rfl⟩

end NanoLogRun

end ReplicatedCounter.Log
