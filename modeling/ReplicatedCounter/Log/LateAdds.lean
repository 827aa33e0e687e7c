import Mathlib.Data.List.Induction
import ReplicatedCounter.Lib.Lockstep
import ReplicatedCounter.Log.OrderedCompletionQueue

/-!
# A promise added below the index of its queue

The index of an `OrderedCompletionQueue` says that everything below it has been completed, and the
loop that completes promises relies on it: it walks the parked promises from the lowest key on and
stops at the first that is not the index. Every call leaves the queue `Clear`, as long as promises
are added at or above the index.

Nothing in `add` sees to that. A promise added below the index is parked there, is not the index,
and is then what the loop meets first on every later call, until some `completeAllBelow` sweeps it
away. `completesBelow_iff_noLateAdd`: the queue keeps its promise in a run of calls exactly if no
`add` of the run comes late.
-/

set_option autoImplicit false

namespace ReplicatedCounter.Log

namespace OrderedCompletionQueue

variable {α : Type}

/-- A call of the queue. -/
inductive Call (α : Type) where
  | add (index : Int) (promise : α)
  | completeAllBelow (index : Int)
  deriving DecidableEq

/-- What a call does, with the promises it completes. -/
def call (q : OrderedCompletionQueue α) : Call α → OrderedCompletionQueue α × List (Int × α)
  | .add index promise => q.add index promise
  | .completeAllBelow index => q.completeAllBelow index

/-- No promise waits below the index, nor at it. -/
def Clear (q : OrderedCompletionQueue α) : Prop := ∀ j, q.Parked j → q.currentIndex < j

/-- What a call is supposed to do: leave the queue clear, and complete a late promise at once. -/
structure CompletesBelow (q : OrderedCompletionQueue α) (c : Call α) : Prop where
  clear : (q.call c).1.Clear
  late : ∀ index promise, c = .add index promise → index < q.currentIndex →
    (index, promise) ∈ (q.call c).2

/-- The state of a queue that started at `startIndex`. -/
def after (startIndex : Int) (calls : List (Call α)) : OrderedCompletionQueue α :=
  Lockstep.after call { currentIndex := startIndex } calls

/-- Every call of the list does what it is supposed to do. -/
def CompletesBelowAlong (startIndex : Int) (calls : List (Call α)) : Prop :=
  ∀ front c back, calls = front ++ c :: back → CompletesBelow (after startIndex front) c

/-- Every promise of the list is added at or above the index of the queue. -/
def NoLateAdd (startIndex : Int) (calls : List (Call α)) : Prop :=
  ∀ front index promise back, calls = front ++ .add index promise :: back →
    (after startIndex front).currentIndex ≤ index

variable {q : OrderedCompletionQueue α} {startIndex : Int} {calls front : List (Call α)} {c : Call α}

theorem after_concat : after startIndex (front ++ [c]) = ((after startIndex front).call c).1 := by
  unfold after
  rw [Lockstep.after_append]
  rfl

/-! ## One call -/

/-- The check clears a queue in which nothing waits below the index. -/
theorem check_clear (h : ∀ j, q.Parked j → q.currentIndex ≤ j) :
    q.checkAndCompleteAfterCurrentIndex.1.Clear := by
  intro j hj
  have hcheck := q.check_completes
  obtain ⟨promise, hmem⟩ := parked_iff.mp hj
  obtain ⟨hbefore, hnot⟩ := mem_check_rest.mp hmem
  have hge : q.currentIndex ≤ j := h j (parked_iff.mpr ⟨promise, hbefore⟩)
  by_contra hle
  apply hnot
  apply mem_check_iff.mpr
  refine ⟨hbefore, h, ?_⟩
  intro i hi hij
  -- up to `j` the loop has met a key at every index
  rcases hij.lt_or_eq with hlt | heq
  · have hpassed := hcheck.filled i hi (hlt.trans_le (not_lt.mp hle))
    exact parked_iff.mpr (hpassed.resolve_left id)
  · show q.Parked i
    rw [show i = j from heq]
    exact parked_iff.mpr ⟨promise, hbefore⟩

theorem add_clear (hq : q.Clear) {index : Int} (promise : α) (hindex : q.currentIndex ≤ index) :
    (q.add index promise).1.Clear := by
  apply check_clear
  intro j hj
  show q.currentIndex ≤ j
  rcases parked_addIncomplete.mp hj with rfl | hj
  · exact hindex
  · exact (hq j hj).le

theorem completeAllBelow_clear (hq : q.Clear) (index : Int) :
    (q.completeAllBelow index).1.Clear := by
  unfold completeAllBelow
  apply check_clear
  intro j hj
  obtain ⟨promise, hmem⟩ := parked_iff.mp hj
  dsimp only at hmem ⊢
  rw [entries_below] at hmem
  have hbefore := hq j (parked_iff.mpr ⟨promise, (List.dropWhile_sublist _).mem hmem⟩)
  split
  · -- what was below the index has been swept away
    by_contra hlt
    have hkept := SortedMap.mem_of_mem_eraseAll (by rwa [entries_below] :
      (j, promise) ∈ (q.promises.eraseAll ((q.promises.entries.takeWhile (·.1 < index)).map
        (·.1))).entries)
    have hswept := (mem_takeWhile_iff q.promises.sorted).mpr ⟨hkept.1, not_le.mp hlt⟩
    exact hkept.2 (List.mem_map_of_mem (f := fun e : Int × α => e.1) hswept)
  · exact hbefore.le

/-- **A late promise stays**, and in the way of all others. -/
theorem add_late {index : Int} (promise : α) (hlate : index < q.currentIndex) :
    (q.add index promise).1.Parked index ∧ (q.add index promise).1.currentIndex = q.currentIndex ∧
      (q.add index promise).2 = [] := by
  have hparked : (q.addIncomplete index promise).Parked index := parked_addIncomplete.mpr (.inl rfl)
  have hstuck : q.add index promise = (q.addIncomplete index promise, []) :=
    check_of_parked_below hparked hlate
  rw [hstuck]
  exact ⟨hparked, rfl, rfl⟩

/-! ## A run of calls -/

/-- **The queue is clear as long as nothing is added late.** -/
theorem after_clear (h : NoLateAdd startIndex calls) :
    ∀ front back, calls = front ++ back → (after startIndex front).Clear := by
  intro front
  induction front using List.reverseRecOn with
  | nil =>
    intro back _ j hj
    exact absurd hj (by simp [after, Lockstep.after, Parked])
  | append_singleton front c ih =>
    intro back hcalls
    rw [List.append_assoc, List.singleton_append] at hcalls
    have hclear := ih _ hcalls
    rw [after_concat]
    cases c with
    | add index promise => exact add_clear hclear promise (h front index promise back hcalls)
    | completeAllBelow index => exact completeAllBelow_clear hclear index

/-- **Below the index everything is completed, if and only if no promise comes late.** -/
theorem completesBelow_iff_noLateAdd (startIndex : Int) (calls : List (Call α)) :
    CompletesBelowAlong startIndex calls ↔ NoLateAdd startIndex calls := by
  constructor
  · intro h front index promise back hcalls
    have hclear := (h front _ back hcalls).clear
    by_contra hlate
    obtain ⟨hparked, hindex, -⟩ :=
      add_late (q := after startIndex front) promise (not_le.mp hlate)
    have habove := hclear index hparked
    rw [show ((after startIndex front).call (.add index promise)).1.currentIndex =
      (after startIndex front).currentIndex from hindex] at habove
    exact hlate habove.le
  · intro h front c back hcalls
    constructor
    · rw [← after_concat]
      apply after_clear h _ back
      rw [hcalls, List.append_assoc, List.singleton_append]
    · intro index promise hc hlate
      rw [hc] at hcalls
      exact absurd hlate (not_lt.mpr (h front index promise back hcalls))

/-- Entry 3 is written again after the index has skipped it: it is not completed, and neither is
entry 5, at whose turn the queue is. -/
theorem late_add_blocks :
    let calls : List (Call Nat) := [.completeAllBelow 5, .add 3 0, .add 5 1]
    ¬ CompletesBelowAlong 1 calls ∧ (after 1 calls).currentIndex = 5 ∧ (after 1 calls).Parked 3 ∧
      (after 1 calls).Parked 5 := by
  intro calls
  refine ⟨?_, by decide, by decide, by decide⟩
  intro h
  have hclear := (h [.completeAllBelow 5, .add 3 0] (.add 5 1) [] rfl).clear
  exact absurd (hclear 5 (by decide)) (by decide)

end OrderedCompletionQueue

end ReplicatedCounter.Log
