import Mathlib.Data.Finset.Card
import Mathlib.Data.Fintype.Basic
import ReplicatedCounter.Log.Replica

/-!
# `log/utils/FutureUtils.h` and `log/impl/SequencerImpl.cc`

A sequencer hands out log ids and sends each entry to every replica; `anyNSuccessful` turns the
replicas' futures into one. The global commit index is the highest id acknowledged so far, not the
end of a gapless prefix.

The callback of a future runs once, so `complete` is defined on a future that has no result yet;
the two counters are then what they count, and the structure says so.
-/

set_option autoImplicit false

namespace ReplicatedCounter.Log

/-! ## `anyNSuccessful` -/

/-- `folly::Try<folly::Unit>`. -/
abbrev TryUnit := Except ReplicaException Unit

/-- `result.hasValue()`. -/
def hasValue : Option TryUnit → Bool
  | some (.ok _) => true
  | _ => false

@[simp] theorem hasValue_none : hasValue none = false := rfl

/-- The state shared by the callbacks of `anyNSuccessful(futures, n)` on `N` futures. -/
structure AnyNSuccessful (N n : Nat) where
  results : Fin N → Option TryUnit
  successCounter : Nat
  failureCounter : Nat
  multipleExceptions : List (Fin N × ReplicaException)
  promise : Option (Except (List (Fin N × ReplicaException)) Unit)
  successCounter_eq : successCounter = (Finset.univ.filter fun i => hasValue (results i)).card
  le_of_promise : promise = some (.ok ()) → n ≤ successCounter

namespace AnyNSuccessful

variable {N n : Nat}

def make : AnyNSuccessful N n where
  results _ := none
  successCounter := 0
  failureCounter := 0
  multipleExceptions := []
  promise := none
  successCounter_eq := by simp
  le_of_promise := by simp

/-- `MultipleExceptions::add`. -/
def addException (exceptions : List (Fin N × ReplicaException)) (index : Fin N) :
    TryUnit → List (Fin N × ReplicaException)
  | .ok _ => exceptions
  | .error e => exceptions ++ [(index, e)]

/-- The promise after a callback that leaves the counters at `successes` and `failures`. Setting a
promise again throws inside the callback, which nobody listens to. -/
def settle (n successes failures : Nat) (exceptions : List (Fin N × ReplicaException))
    (promise : Option (Except (List (Fin N × ReplicaException)) Unit)) :
    Option (Except (List (Fin N × ReplicaException)) Unit) :=
  if successes = n then
    promise <|> some (.ok ())
  else if successes + failures = N then
    promise <|> some (.error exceptions)
  else
    promise

theorem settle_eq_ok {n successes failures : Nat} {exceptions : List (Fin N × ReplicaException)}
    {promise : Option (Except (List (Fin N × ReplicaException)) Unit)}
    (h : settle n successes failures exceptions promise = some (.ok ())) :
    successes = n ∨ promise = some (.ok ()) := by
  unfold settle at h
  split at h
  · rename_i hn
    exact .inl hn
  · refine .inr ?_
    split at h
    · cases promise with
      | none => exact absurd h (by simp)
      | some r => exact h
    · exact h

theorem successCounter_update {results : Fin N → Option TryUnit} {index : Fin N}
    (h : results index = none) (result : TryUnit) :
    (Finset.univ.filter fun i => hasValue (Function.update results index (some result) i)).card =
      (Finset.univ.filter fun i => hasValue (results i)).card +
        if hasValue (some result) then 1 else 0 := by
  have hnot : index ∉ Finset.univ.filter fun i => hasValue (results i) := by
    simp [h]
  by_cases hr : hasValue (some result) = true
  · rw [if_pos hr, ← Finset.card_insert_of_notMem hnot]
    congr 1
    ext i
    by_cases hi : i = index
    · subst hi
      simp [hr]
    · simp [hi]
  · rw [if_neg hr, Nat.add_zero]
    congr 1
    ext i
    by_cases hi : i = index
    · subst hi
      simp [h, hr]
    · simp [hi]

/-- The callback of the future at `index`; `none` if that future has a result already. -/
def complete (a : AnyNSuccessful N n) (index : Fin N) (result : TryUnit) :
    Option (AnyNSuccessful N n) :=
  if h : a.results index = none then
    let successes := a.successCounter + if hasValue (some result) then 1 else 0
    let failures := a.failureCounter + if hasValue (some result) then 0 else 1
    let exceptions := addException a.multipleExceptions index result
    some {
      results := Function.update a.results index (some result)
      successCounter := successes
      failureCounter := failures
      multipleExceptions := exceptions
      promise := settle n successes failures exceptions a.promise
      successCounter_eq := by
        rw [successCounter_update h, ← a.successCounter_eq]
      le_of_promise hp := by
        rcases settle_eq_ok hp with hn | hold
        · exact hn.ge
        · exact (a.le_of_promise hold).trans (Nat.le_add_right _ _) }
  else
    none

variable {a a' : AnyNSuccessful N n} {index i : Fin N} {result : TryUnit}

theorem results_of_complete (h : a.complete index result = some a') :
    a'.results = Function.update a.results index (some result) := by
  unfold complete at h
  split at h
  · obtain rfl := Option.some.inj h
    rfl
  · exact absurd h (by simp)

/-- A result of the new state is the one just delivered or an old one. -/
theorem hasValue_of_complete (h : a.complete index result = some a')
    (hi : hasValue (a'.results i)) :
    hasValue (a.results i) ∨ (i = index ∧ hasValue (some result)) := by
  rw [results_of_complete h] at hi
  by_cases heq : i = index
  · subst heq
    rw [Function.update_self] at hi
    exact .inr ⟨rfl, hi⟩
  · rw [Function.update_of_ne heq] at hi
    exact .inl hi

/-- A promise is set once. -/
theorem promise_of_complete (h : a.complete index result = some a')
    (hp : a.promise = some (.ok ())) : a'.promise = some (.ok ()) := by
  unfold complete at h
  split at h
  · obtain rfl := Option.some.inj h
    dsimp only [settle]
    rw [hp]
    split_ifs <;> rfl
  · exact absurd h (by simp)

/-- **A fulfilled promise means `n` successful futures.** -/
theorem card_of_promise (h : a.promise = some (.ok ())) :
    n ≤ (Finset.univ.filter fun i => hasValue (a.results i)).card :=
  (a.le_of_promise h).trans a.successCounter_eq.le

end AnyNSuccessful

/-! ## `SequencerImpl` -/

/-- `SequencerImpl`, for one version. -/
structure SequencerImpl where
  sequenceNum : Int
  globalCommitIndex : Int

namespace SequencerImpl

/-- `quorumSize_`. -/
def quorumSize (N : Nat) : Nat := N / 2 + 1

/-- `SequencerImpl::start`, and the constructor. -/
def start (sequenceNum : Int) : SequencerImpl where
  sequenceNum := sequenceNum
  globalCommitIndex := sequenceNum

/-- `sequenceNum_++`. -/
def next (sequencer : SequencerImpl) : Int × SequencerImpl :=
  (sequencer.sequenceNum, { sequencer with sequenceNum := sequencer.sequenceNum + 1 })

/-- The end of `SequencerImpl::append`, once a quorum has stored the entry. -/
def commit (sequencer : SequencerImpl) (logId : Int) : SequencerImpl :=
  if sequencer.globalCommitIndex < logId then
    { sequencer with globalCommitIndex := logId }
  else
    sequencer

end SequencerImpl

/-- One call of `SequencerImpl::append`: its entry, how many replicas it has been sent to, what
came back, and whether the caller has been given the id. -/
structure SequencerAppend (N : Nat) where
  payload : String
  sentTo : Nat := 0
  futures : AnyNSuccessful N (SequencerImpl.quorumSize N) := .make
  acknowledged : Bool := false

end ReplicatedCounter.Log
