import Mathlib.Algebra.Group.Nat.Defs
import Mathlib.Data.List.Perm.Basic
import Mathlib.Data.List.TakeDrop
import ReplicatedCounter.Log.Sequencer

/-!
# The wait of `log/utils/FutureUtils.h`

Each future's callback counts its result and looks at both counters; whatever the order of the
callbacks, the promise is kept at the `n`-th success, or broken at the last callback.

The counters have 32 bits, while the number of futures is a `size_t`. There is one for each replica
of a repeated field, so there are fewer than `2 ^ 31`; with more the sum of the counters would never
be their number (`settlesOnTime_iff`).
-/

set_option autoImplicit false

namespace ReplicatedCounter.Log

/-- What the callbacks of one call of `anyNSuccessful` share. An index and what `exception_ptr`
points to make one entry of `MultipleExceptions`. -/
structure QuorumWait (ε : Type) where
  successCounter : Int32 := 0
  failureCounter : Int32 := 0
  multipleExceptions : List (Nat × ε) := []
  promise : Option (Except (List (Nat × ε)) Unit) := none

namespace QuorumWait

variable {T ε : Type}

/-- `MultipleExceptions::add`. -/
def add (s : QuorumWait ε) (index : Nat) (exception : ε) : QuorumWait ε :=
  { s with multipleExceptions := s.multipleExceptions ++ [(index, exception)] }

/-- `promise->setValue()`. A promise that is satisfied throws, inside a callback whose result nobody
uses. -/
def setValue (s : QuorumWait ε) : QuorumWait ε :=
  { s with promise := s.promise <|> some (.ok ()) }

/-- `promise->setException(*multipleExceptions)`. -/
def setException (s : QuorumWait ε) : QuorumWait ε :=
  { s with promise := s.promise <|> some (.error s.multipleExceptions) }

/-- The counting in the callback of the future at an index. -/
def count (s : QuorumWait ε) : Except ε T × Nat → QuorumWait ε
  | (.ok _, _) => { s with successCounter := s.successCounter + 1 }
  | (.error exception, index) =>
    let s := s.add index exception
    { s with failureCounter := s.failureCounter + 1 }

/-- The callback of the future at an index, for `n` of `totalPromises`. The sum is an `int`: should
it be negative, it is as a `size_t` more than any vector holds. -/
def callback (n : Int32) (totalPromises : Nat) (s : QuorumWait ε) (result : Except ε T × Nat) :
    QuorumWait ε :=
  let s := s.count result
  if s.successCounter = n then
    s.setValue
  else if (s.successCounter + s.failureCounter).toInt = totalPromises then
    s.setException
  else
    s

/-- `anyNSuccessful(futures, n)`, once the callbacks of these futures have run. -/
def after (n : Int32) (totalPromises : Nat) (callbacks : List (Except ε T × Nat)) : QuorumWait ε :=
  callbacks.foldl (callback n totalPromises) {}

/-! ## What a beginning of the callbacks leaves -/

/-- The successes among some results. -/
def successes (results : List (Except ε T × Nat)) : Nat := results.countP (·.1.isOk)

/-- What `add` gets of some results. -/
def exceptions (results : List (Except ε T × Nat)) : List (Nat × ε) :=
  results.filterMap fun
    | (.ok _, _) => none
    | (.error exception, index) => some (index, exception)

variable {n : Int32} {N : Nat} {results callbacks : List (Except ε T × Nat)}

theorem successes_add_exceptions :
    successes results + (exceptions results).length = results.length := by
  induction results with
  | nil => rfl
  | cons result results ih =>
    unfold successes at ih ⊢
    obtain ⟨future, index⟩ := result
    cases future with
    | ok value =>
      rw [List.countP_cons_of_pos rfl]
      show List.countP _ results + 1 + (exceptions results).length = results.length + 1
      omega
    | error exception =>
      rw [List.countP_cons_of_neg Bool.false_ne_true]
      show List.countP _ results + ((exceptions results).length + 1) = results.length + 1
      omega

theorem successes_concat (results : List (Except ε T × Nat)) (result : Except ε T × Nat) :
    successes (results ++ [result]) = successes results + if result.1.isOk then 1 else 0 := by
  unfold successes
  rw [List.countP_append, List.countP_singleton]

theorem after_concat (results : List (Except ε T × Nat)) (result : Except ε T × Nat) :
    after n N (results ++ [result]) = callback n N (after n N results) result :=
  List.foldl_concat _ _ _ _

/-- A callback that sets the promise leaves the rest. -/
theorem callback_count (s : QuorumWait ε) (result : Except ε T × Nat) :
    ∃ promise, callback n N s result = { s.count result with promise } := by
  unfold callback
  dsimp only
  split_ifs
  · exact ⟨_, rfl⟩
  · exact ⟨_, rfl⟩
  · exact ⟨_, rfl⟩

/-- What a callback does to the promise. -/
theorem promise_callback (s : QuorumWait ε) (result : Except ε T × Nat) :
    (callback n N s result).promise =
      if (callback n N s result).successCounter = n then
        s.promise <|> some (.ok ())
      else if ((callback n N s result).successCounter + (callback n N s result).failureCounter).toInt = N then
        s.promise <|> some (.error (callback n N s result).multipleExceptions)
      else
        s.promise := by
  have hpromise : (s.count result).promise = s.promise := by
    obtain ⟨future, index⟩ := result
    cases future with
    | ok value => rfl
    | error exception => rfl
  obtain ⟨promise, hcallback⟩ := callback_count (n := n) (N := N) s result
  rw [hcallback]
  dsimp only
  rw [← hpromise]
  have hset : (callback n N s result).promise = promise := by rw [hcallback]
  rw [← hset]
  unfold callback
  dsimp only
  split_ifs
  · rfl
  · rfl
  · rfl

/-- The counters and the exceptions, after any callbacks. -/
theorem counted (n : Int32) (N : Nat) (results : List (Except ε T × Nat)) :
    (after n N results).successCounter = Int32.ofNat (successes results) ∧
    (after n N results).failureCounter = Int32.ofNat (exceptions results).length ∧
    (after n N results).multipleExceptions = exceptions results := by
  induction results using List.reverseRecOn with
  | nil => exact ⟨rfl, rfl, rfl⟩
  | append_singleton results result ih =>
    obtain ⟨hsuccess, hfailure, hexceptions⟩ := ih
    obtain ⟨promise, hcallback⟩ := callback_count (n := n) (N := N) (after n N results) result
    rw [after_concat, hcallback, successes_concat]
    obtain ⟨future, index⟩ := result
    cases future with
    | ok value =>
      have hnone : exceptions (results ++ [(.ok value, index)]) = exceptions results := by
        simp [exceptions]
      rw [hnone]
      refine ⟨?_, hfailure, hexceptions⟩
      show (after n N results).successCounter + 1 = _
      rw [hsuccess]
      exact (Int32.ofNat_add _ _).symm
    | error exception =>
      have hone : exceptions (results ++ [(.error exception, index)]) =
          exceptions results ++ [(index, exception)] := by
        simp [exceptions]
      rw [hone, List.length_append]
      refine ⟨hsuccess, ?_, ?_⟩
      · show (after n N results).failureCounter + 1 = _
        rw [hfailure]
        exact (Int32.ofNat_add _ _).symm
      · show (after n N results).multipleExceptions ++ [(index, exception)] = _
        rw [hexceptions]

/-- The sum of the counters is the number of futures at the last callback, if that number is an
`int`. -/
theorem sum_eq_iff (h : results.length ≤ N) :
    ((after n N results).successCounter + (after n N results).failureCounter).toInt = N ↔
      results.length = N ∧ N < 2 ^ 31 := by
  rw [(counted n N results).1, (counted n N results).2.1, ← Int32.ofNat_add, successes_add_exceptions]
  constructor
  · intro heq
    have hlt := Int32.toInt_lt (Int32.ofNat results.length)
    rw [heq] at hlt
    have hN : N < 2 ^ 31 := by omega
    rw [Int32.toInt_ofNat_of_lt (h.trans_lt hN)] at heq
    exact ⟨Int.ofNat.inj heq, hN⟩
  · rintro ⟨rfl, hN⟩
    exact Int32.toInt_ofNat_of_lt hN

/-- The success counter meets `n` at the `n`-th success, and not before. -/
theorem successCounter_eq_iff (h : (successes results : Int) ≤ n.toInt) :
    (after n N results).successCounter = n ↔ n.toInt ≤ successes results := by
  have hlt := Int32.toInt_lt n
  rw [(counted n N results).1, ← Int32.toInt_inj, Int32.toInt_ofNat_of_lt (by omega)]
  omega

/-- **The promise after any callbacks.** -/
theorem promise_after (hn : 1 ≤ n.toInt) (hlength : results.length ≤ N) (hN : 0 < N) :
    (after n N results).promise =
      if n.toInt ≤ successes results then
        some (.ok ())
      else if results.length = N ∧ N < 2 ^ 31 then
        some (.error (exceptions results))
      else
        none := by
  induction results using List.reverseRecOn with
  | nil =>
    have hsuccesses : ¬ n.toInt ≤ (successes ([] : List (Except ε T × Nat)) : Nat) := by
      show ¬ n.toInt ≤ 0
      omega
    rw [if_neg hsuccesses, if_neg fun h => hN.ne h.1]
    rfl
  | append_singleton results result ih =>
    have hlt : results.length < N := by
      rw [List.length_append] at hlength
      exact hlength
    have hcount := successes_concat results result
    rw [after_concat, promise_callback, ← after_concat, ih hlt.le,
      (counted n N (results ++ [result])).2.2]
    by_cases hold : n.toInt ≤ successes results
    · -- the promise is kept already
      have hnew : n.toInt ≤ successes (results ++ [result]) := by
        rw [hcount]
        omega
      rw [if_pos hold, if_pos hnew]
      split_ifs
      · rfl
      · rfl
      · rfl
    · have hle : (successes (results ++ [result]) : Int) ≤ n.toInt := by
        rw [hcount]
        split_ifs
        · omega
        · omega
      have hnotLast : ¬ (results.length = N ∧ N < 2 ^ 31) := fun h => hlt.ne h.1
      simp only [if_neg hold, if_neg hnotLast, successCounter_eq_iff hle, sum_eq_iff hlength]
      rfl

/-! ## The order of the callbacks -/

/-- The promise is kept exactly at the `n`-th success, and broken exactly at the last callback,
should there be fewer, with one exception for each future that failed. -/
def SettlesOnTime (n : Int32) (futures : List (Except ε T))
    (callbacks : List (Except ε T × Nat)) : Prop :=
  ∀ k ≤ futures.length,
    ((after n futures.length (callbacks.take k)).promise = some (.ok ()) ↔
      n.toInt ≤ successes (callbacks.take k)) ∧
    ((∃ recorded, (after n futures.length (callbacks.take k)).promise = some (.error recorded)) ↔
      k = futures.length ∧ successes callbacks < n.toInt) ∧
    ∀ recorded, (after n futures.length (callbacks.take k)).promise = some (.error recorded) →
      recorded.Perm (exceptions futures.zipIdx)

variable {futures : List (Except ε T)}

theorem length_callbacks (horder : callbacks.Perm futures.zipIdx) :
    callbacks.length = futures.length := by
  rw [horder.length_eq, List.length_zipIdx]

theorem take_callbacks (horder : callbacks.Perm futures.zipIdx) :
    callbacks.take futures.length = callbacks := by
  rw [← length_callbacks horder, List.take_length]

theorem successes_callbacks (horder : callbacks.Perm futures.zipIdx) :
    successes callbacks = futures.countP (·.isOk) := by
  unfold successes
  rw [horder.countP_eq]
  conv_rhs => rw [← List.zipIdx_map_fst 0 futures]
  rw [List.countP_map]
  rfl

/-- Too few successes, and a number of futures that no `int` is equal to: the last callback does not
notice that it is the last. -/
theorem not_settlesOnTime (hn : 1 ≤ n.toInt) (horder : callbacks.Perm futures.zipIdx)
    (hpos : 0 < futures.length) (hfew : (futures.countP (·.isOk) : Int) < n.toInt)
    (hmany : ¬ futures.length < 2 ^ 31) : ¬ SettlesOnTime n futures callbacks := by
  intro h
  have hlast := (h futures.length le_rfl).2.1
  rw [take_callbacks horder, successes_callbacks horder] at hlast
  obtain ⟨recorded, hrecorded⟩ := hlast.mpr ⟨rfl, hfew⟩
  rw [promise_after hn (length_callbacks horder).le hpos, successes_callbacks horder,
    if_neg (by omega), if_neg fun h => hmany h.2] at hrecorded
  cases hrecorded

/-- **The wait does not depend on the order.** In whatever order the callbacks run, the promise is
settled on time, if and only if `n` futures succeed or there are fewer than `2 ^ 31`. -/
theorem settlesOnTime_iff (hn : 1 ≤ n.toInt) (hle : n.toInt ≤ futures.length)
    (horder : callbacks.Perm futures.zipIdx) :
    SettlesOnTime n futures callbacks ↔
      n.toInt ≤ futures.countP (·.isOk) ∨ futures.length < 2 ^ 31 := by
  have hall := take_callbacks horder
  have hpromise : ∀ {k : Nat}, k ≤ futures.length →
      (after n futures.length (callbacks.take k)).promise =
        if n.toInt ≤ successes (callbacks.take k) then some (.ok ())
        else if k = futures.length ∧ futures.length < 2 ^ 31 then
          some (.error (exceptions (callbacks.take k)))
        else none := by
    intro k hk
    have htake : (callbacks.take k).length = k := by
      rw [List.length_take, length_callbacks horder, Nat.min_eq_left hk]
    rw [promise_after hn (by omega) (by omega), htake]
  constructor
  · intro h
    by_contra hnot
    rw [not_or] at hnot
    exact not_settlesOnTime hn horder (by omega) (by omega) hnot.2 h
  · rw [← successes_callbacks horder]
    intro h k hk
    rw [hpromise hk]
    have hmono : successes (callbacks.take k) ≤ successes callbacks :=
      (List.take_sublist k callbacks).countP_le
    by_cases hkept : n.toInt ≤ successes (callbacks.take k)
    · rw [if_pos hkept]
      refine ⟨iff_of_true rfl hkept, iff_of_false nofun fun hlast => ?_, nofun⟩
      omega
    · rw [if_neg hkept]
      by_cases hlast : k = futures.length
      · subst hlast
        rw [hall] at hkept ⊢
        have hint : futures.length < 2 ^ 31 := h.resolve_left hkept
        rw [if_pos ⟨rfl, hint⟩]
        refine ⟨iff_of_false nofun hkept, iff_of_true ⟨_, rfl⟩ ⟨rfl, by omega⟩, ?_⟩
        intro recorded heq
        cases heq
        exact horder.filterMap _
      · rw [if_neg fun h => hlast h.1]
        exact ⟨iff_of_false nofun hkept, iff_of_false nofun fun h => hlast h.1, nofun⟩

/-- **The wait for a quorum is settled on time**, whatever the futures are, however many of them it
waits for and in whatever order they are done, when there are fewer than `2 ^ 31` of them. -/
theorem quorum_settles_on_time (hn : 1 ≤ n.toInt) (hle : n.toInt ≤ futures.length)
    (hint : futures.length < 2 ^ 31) (horder : callbacks.Perm futures.zipIdx) :
    SettlesOnTime n futures callbacks :=
  (settlesOnTime_iff hn hle horder).mpr (.inr hint)

/-- Two of three futures, the second one failed. -/
theorem quorum_settles_on_time_two :
    let futures : List (Except String Unit) := [.ok (), .error "timeout", .ok ()]
    SettlesOnTime 2 futures futures.zipIdx.reverse :=
  quorum_settles_on_time (by decide) (by decide) (by decide) (List.reverse_perm _)

end QuorumWait

end ReplicatedCounter.Log
