import Mathlib.Data.Int.Order.Basic
import Mathlib.Data.List.TakeWhile
import ReplicatedCounter.Lib.SortedMap

/-!
# `log/utils/OrderedCompletionQueue.h`

Promises waiting for their turn. A promise added at an index is kept until every index from
`currentIndex` up to it has been added too, or until somebody declares everything below some
index complete. The type of the promises is a parameter: it says who is waiting, and completing a
promise is handing it back.

`Completes q vouched q' done` is the only thing the users of the queue need to know. Between two
states of a queue the index has moved up, the promises in `done` were parked and are now below the
index, and **every index the queue has moved past was either parked or vouched for**. That last
field is what makes the index say something about what a log holds.
-/

set_option autoImplicit false

namespace ReplicatedCounter.Log

/-- `OrderedCompletionQueue<T>`, with `α` the promises. -/
structure OrderedCompletionQueue (α : Type) where
  currentIndex : Int
  promises : SortedMap Int α := .empty

namespace OrderedCompletionQueue

variable {α : Type}

/-- The entries a loop from `startIndex` on completes: those with consecutive keys. -/
def consecutive (startIndex : Int) : List (Int × α) → List (Int × α)
  | [] => []
  | e :: rest => if e.1 = startIndex then e :: consecutive (startIndex + 1) rest else []

/-- `OrderedCompletionQueue::checkAndCompleteAfterCurrentIndex`, with the completed promises. -/
def checkAndCompleteAfterCurrentIndex (q : OrderedCompletionQueue α) :
    OrderedCompletionQueue α × List (Int × α) :=
  let completed := consecutive q.currentIndex q.promises.entries
  ({ currentIndex := q.currentIndex + completed.length
     promises := q.promises.eraseAll (completed.map (·.1)) },
   completed)

/-- `OrderedCompletionQueue::completeAllBelow`. -/
def completeAllBelow (q : OrderedCompletionQueue α) (index : Int) :
    OrderedCompletionQueue α × List (Int × α) :=
  let below := q.promises.entries.takeWhile (·.1 < index)
  let (q', completed) := checkAndCompleteAfterCurrentIndex
    { currentIndex := if index > q.currentIndex then index else q.currentIndex
      promises := q.promises.eraseAll (below.map (·.1)) }
  (q', below ++ completed)

/-- `OrderedCompletionQueue::add` with `complete = true`. -/
def add (q : OrderedCompletionQueue α) (index : Int) (promise : α) :
    OrderedCompletionQueue α × List (Int × α) :=
  checkAndCompleteAfterCurrentIndex { q with promises := q.promises.insert index promise }

/-- `OrderedCompletionQueue::add` with `complete = false`. -/
def addIncomplete (q : OrderedCompletionQueue α) (index : Int) (promise : α) :
    OrderedCompletionQueue α :=
  { q with promises := q.promises.insert index promise }

/-- `OrderedCompletionQueue::getRangeEligibleForCompletion`. -/
def getRangeEligibleForCompletion (q : OrderedCompletionQueue α) : Int × Int :=
  (q.currentIndex, q.currentIndex + (consecutive q.currentIndex q.promises.entries).length)

/-! ## What completing does -/

/-- The queue goes from `q` to `q'`, handing back the promises in `done`; somebody vouches for the
indices in `vouched`. -/
structure Completes (q : OrderedCompletionQueue α) (vouched : Int → Prop)
    (q' : OrderedCompletionQueue α) (done : List (Int × α)) : Prop where
  index_le : q.currentIndex ≤ q'.currentIndex
  done_mem : ∀ e ∈ done, e ∈ q.promises.entries
  done_lt : ∀ e ∈ done, e.1 < q'.currentIndex
  done_ge : ∀ e ∈ done, vouched e.1 ∨ q.currentIndex ≤ e.1
  rest_mem : ∀ e ∈ q'.promises.entries, e ∈ q.promises.entries
  filled : ∀ j, q.currentIndex ≤ j → j < q'.currentIndex →
    vouched j ∨ ∃ a, (j, a) ∈ q.promises.entries

variable {q q' q'' : OrderedCompletionQueue α} {vouched vouched' : Int → Prop}
  {done done' : List (Int × α)}

theorem Completes.trans (h : q.Completes vouched q' done) (h' : q'.Completes vouched' q'' done') :
    q.Completes (fun j => vouched j ∨ vouched' j) q'' (done ++ done') where
  index_le := h.index_le.trans h'.index_le
  done_mem e he := by
    rcases List.mem_append.mp he with he | he
    · exact h.done_mem e he
    · exact h.rest_mem e (h'.done_mem e he)
  done_lt e he := by
    rcases List.mem_append.mp he with he | he
    · exact (h.done_lt e he).trans_le h'.index_le
    · exact h'.done_lt e he
  done_ge e he := by
    rcases List.mem_append.mp he with he | he
    · exact (h.done_ge e he).imp_left .inl
    · rcases h'.done_ge e he with hv | hle
      · exact .inl (.inr hv)
      · exact .inr (h.index_le.trans hle)
  rest_mem e he := h.rest_mem e (h'.rest_mem e he)
  filled j hj hj' := by
    by_cases hmid : j < q'.currentIndex
    · exact (h.filled j hj hmid).imp_left .inl
    · rcases h'.filled j (not_lt.mp hmid) hj' with hv | ⟨a, ha⟩
      · exact .inl (.inr hv)
      · exact .inr ⟨a, h.rest_mem _ ha⟩

theorem consecutive_sublist {startIndex : Int} {entries : List (Int × α)} :
    (consecutive startIndex entries).Sublist entries := by
  induction entries generalizing startIndex with
  | nil => exact .slnil
  | cons e rest ih =>
    unfold consecutive
    split
    · exact ih.cons_cons e
    · exact List.nil_sublist _

theorem lt_of_mem_consecutive {startIndex : Int} {entries : List (Int × α)} {e : Int × α}
    (h : e ∈ consecutive startIndex entries) :
    e.1 < startIndex + (consecutive startIndex entries).length := by
  induction entries generalizing startIndex with
  | nil => exact absurd h List.not_mem_nil
  | cons e' rest ih =>
    unfold consecutive at h ⊢
    split at h
    · rename_i heq
      rw [if_pos heq, List.length_cons]
      rcases List.mem_cons.mp h with rfl | h
      · omega
      · have := ih h
        omega
    · exact absurd h List.not_mem_nil

theorem le_of_mem_consecutive {startIndex : Int} {entries : List (Int × α)} {e : Int × α}
    (h : e ∈ consecutive startIndex entries) : startIndex ≤ e.1 := by
  induction entries generalizing startIndex with
  | nil => exact absurd h List.not_mem_nil
  | cons e' rest ih =>
    unfold consecutive at h
    split at h
    · rename_i heq
      rcases List.mem_cons.mp h with rfl | h
      · exact heq.ge
      · exact (Int.lt_succ _).le.trans (ih h)
    · exact absurd h List.not_mem_nil

/-- Every index in the run is the key of an entry. -/
theorem mem_consecutive {startIndex j : Int} {entries : List (Int × α)} (hj : startIndex ≤ j)
    (hj' : j < startIndex + (consecutive startIndex entries).length) :
    ∃ a, (j, a) ∈ entries := by
  induction entries generalizing startIndex with
  | nil =>
    simp only [consecutive, List.length_nil, Int.ofNat_zero, Int.add_zero] at hj'
    omega
  | cons e rest ih =>
    unfold consecutive at hj'
    split at hj'
    · rename_i heq
      rw [List.length_cons] at hj'
      by_cases h : j = startIndex
      · exact ⟨e.2, by rw [h, ← heq]; exact List.mem_cons_self⟩
      · have hnext : startIndex + 1 ≤ j := by omega
        obtain ⟨a, ha⟩ := ih hnext (by omega)
        exact ⟨a, List.mem_cons_of_mem e ha⟩
    · simp only [List.length_nil, Int.ofNat_zero, Int.add_zero] at hj'
      omega

/-- The check only moves past what is parked. -/
theorem check_completes (q : OrderedCompletionQueue α) :
    q.Completes (fun _ => False) q.checkAndCompleteAfterCurrentIndex.1
      q.checkAndCompleteAfterCurrentIndex.2 where
  index_le := by
    unfold checkAndCompleteAfterCurrentIndex
    dsimp only
    omega
  done_mem e he := consecutive_sublist.mem he
  done_lt e he := lt_of_mem_consecutive he
  done_ge e he := .inr (le_of_mem_consecutive he)
  rest_mem e he := (SortedMap.mem_of_mem_eraseAll he).1
  filled j hj hj' := .inr (mem_consecutive hj hj')

/-- **Adding a promise** moves the index past nothing but parked promises and the new one. -/
theorem add_completes (q : OrderedCompletionQueue α) (index : Int) (promise : α) :
    ({ q with promises := q.promises.insert index promise } : OrderedCompletionQueue α).Completes
      (fun _ => False) (q.add index promise).1 (q.add index promise).2 :=
  check_completes _

/-- **Completing below an index** moves past everything below it, parked or not. -/
theorem completeAllBelow_completes (q : OrderedCompletionQueue α) (index : Int) :
    q.Completes (· < index) (q.completeAllBelow index).1 (q.completeAllBelow index).2 := by
  obtain ⟨q₁, hq₁⟩ : ∃ q₁ : OrderedCompletionQueue α, q₁ =
      { currentIndex := if index > q.currentIndex then index else q.currentIndex
        promises := q.promises.eraseAll
          ((q.promises.entries.takeWhile (·.1 < index)).map (·.1)) } := ⟨_, rfl⟩
  have hindex : q.currentIndex ≤ q₁.currentIndex ∧ index ≤ q₁.currentIndex ∧
      (q₁.currentIndex = index ∨ q₁.currentIndex = q.currentIndex) := by
    rw [hq₁]
    dsimp only
    split <;> omega
  have hcheck := check_completes q₁
  have hfst : (q.completeAllBelow index).1 = q₁.checkAndCompleteAfterCurrentIndex.1 := by
    rw [hq₁]
    rfl
  have hsnd : (q.completeAllBelow index).2 = q.promises.entries.takeWhile (·.1 < index) ++
      q₁.checkAndCompleteAfterCurrentIndex.2 := by
    rw [hq₁]
    rfl
  have hrest : ∀ e ∈ q₁.promises.entries, e ∈ q.promises.entries := by
    rw [hq₁]
    exact fun e he => (SortedMap.mem_of_mem_eraseAll he).1
  rw [hfst, hsnd]
  have hbelow : ∀ e ∈ q.promises.entries.takeWhile (·.1 < index), e.1 < index := fun e he => by
    simpa using List.mem_takeWhile_imp he
  refine ⟨hindex.1.trans hcheck.index_le, fun e he => ?_, fun e he => ?_, fun e he => ?_,
    fun e he => hrest e (hcheck.rest_mem e he), fun j hj hj' => ?_⟩
  · rcases List.mem_append.mp he with he | he
    · exact (List.takeWhile_prefix _).subset he
    · exact hrest e (hcheck.done_mem e he)
  · rcases List.mem_append.mp he with he | he
    · exact ((hbelow e he).trans_le hindex.2.1).trans_le hcheck.index_le
    · exact hcheck.done_lt e he
  · rcases List.mem_append.mp he with he | he
    · exact .inl (hbelow e he)
    · exact .inr (hindex.1.trans ((hcheck.done_ge e he).resolve_left id))
  · by_cases hlt : j < index
    · exact .inl hlt
    · have hcur : q₁.currentIndex ≤ j := by
        rcases hindex.2.2 with h | h <;> omega
      obtain ⟨a, ha⟩ := (hcheck.filled j hcur hj').resolve_left id
      exact .inr ⟨a, hrest _ ha⟩

/-! ## Completing the eligible range -/

theorem consecutive_cons {startIndex : Int} {e : Int × α} {entries : List (Int × α)}
    (h : e.1 = startIndex) :
    consecutive startIndex (e :: entries) = e :: consecutive (startIndex + 1) entries := if_pos h

/-- A run is followed by something else than its continuation. -/
theorem consecutive_append (startIndex : Int) (entries : List (Int × α)) :
    ∃ rest, entries = consecutive startIndex entries ++ rest ∧
      consecutive (startIndex + (consecutive startIndex entries).length) rest = [] := by
  induction entries generalizing startIndex with
  | nil => exact ⟨[], rfl, rfl⟩
  | cons e entries ih =>
    by_cases he : e.1 = startIndex
    · obtain ⟨rest, happend, hstop⟩ := ih (startIndex + 1)
      rw [consecutive_cons he]
      refine ⟨rest, by rw [List.cons_append, ← happend], ?_⟩
      have hindex : startIndex + ((e :: consecutive (startIndex + 1) entries).length : Nat) =
          startIndex + 1 + (consecutive (startIndex + 1) entries).length := by
        rw [List.length_cons]
        omega
      rw [hindex]
      exact hstop
    · have hnil : consecutive startIndex (e :: entries) = [] := if_neg he
      rw [hnil]
      exact ⟨e :: entries, rfl, by simpa using hnil⟩

/-- The keys of a run that ends with `e`. -/
theorem consecutive_eq_concat {startIndex : Int} {entries front : List (Int × α)} {e : Int × α}
    (h : consecutive startIndex entries = front ++ [e]) :
    e.1 = startIndex + front.length ∧ ∀ e' ∈ front, e'.1 < e.1 := by
  induction entries generalizing startIndex front with
  | nil => simp [consecutive] at h
  | cons e₀ entries ih =>
    by_cases he₀ : e₀.1 = startIndex
    · rw [consecutive_cons he₀] at h
      cases front with
      | nil =>
        simp only [List.nil_append, List.cons.injEq] at h
        exact ⟨by rw [← h.1, he₀]; simp, fun e' he' => absurd he' List.not_mem_nil⟩
      | cons e₁ front =>
        simp only [List.cons_append, List.cons.injEq] at h
        obtain ⟨rfl, hrest⟩ := h
        obtain ⟨hkey, hlt⟩ := ih hrest
        rw [List.length_cons]
        refine ⟨by omega, fun e' he' => ?_⟩
        rcases List.mem_cons.mp he' with rfl | he'
        · omega
        · exact hlt e' he'
    · have hnil : consecutive startIndex (e₀ :: entries) = [] := if_neg he₀
      rw [hnil] at h
      simp at h

theorem check_of_consecutive_nil (h : consecutive q.currentIndex q.promises.entries = []) :
    q.checkAndCompleteAfterCurrentIndex = (q, []) := by
  unfold checkAndCompleteAfterCurrentIndex
  dsimp only
  rw [h]
  simp [SortedMap.eraseAll]

/-- Nothing is eligible where the check does nothing. -/
theorem check_of_range_empty
    (h : ¬ q.getRangeEligibleForCompletion.1 < q.getRangeEligibleForCompletion.2) :
    q.checkAndCompleteAfterCurrentIndex = (q, []) := by
  apply check_of_consecutive_nil
  unfold getRangeEligibleForCompletion at h
  dsimp only at h
  rw [← List.length_eq_zero_iff]
  omega

/-- **Completing below the last eligible index completes the eligible range.** -/
theorem completeAllBelow_range (q : OrderedCompletionQueue α)
    (h : q.getRangeEligibleForCompletion.1 < q.getRangeEligibleForCompletion.2) :
    q.completeAllBelow (q.getRangeEligibleForCompletion.2 - 1) =
      q.checkAndCompleteAfterCurrentIndex := by
  have hne : consecutive q.currentIndex q.promises.entries ≠ [] := by
    intro hnil
    simp [getRangeEligibleForCompletion, hnil] at h
  obtain ⟨front, e, hrun⟩ := (List.eq_nil_or_concat _).resolve_left hne
  rw [List.concat_eq_append] at hrun
  obtain ⟨hkey, hfront⟩ := consecutive_eq_concat hrun
  obtain ⟨rest, happend, hstop⟩ := consecutive_append q.currentIndex q.promises.entries
  have hindex : q.getRangeEligibleForCompletion.2 - 1 = e.1 := by
    unfold getRangeEligibleForCompletion
    rw [hrun, List.length_append, List.length_singleton, hkey]
    omega
  rw [hrun] at happend hstop
  rw [hindex]
  -- what is completed first is the range without its last entry
  have hbelow : q.promises.entries.takeWhile (·.1 < e.1) = front := by
    rw [happend, List.append_assoc, List.takeWhile_append_of_pos fun e' he' => by
      simpa using hfront e' he']
    simp
  have hrest : (q.promises.eraseAll (front.map (·.1))).entries = e :: rest :=
    SortedMap.entries_eraseAll_of_append (by rw [happend]; simp)
  have hcurrent : (if e.1 > q.currentIndex then e.1 else q.currentIndex) = e.1 := by
    split <;> omega
  have hlast : consecutive e.1 (e :: rest) = [e] := by
    rw [consecutive_cons rfl]
    have hnext : q.currentIndex + ((front ++ [e]).length : Nat) = e.1 + 1 := by
      rw [List.length_append, List.length_singleton, hkey]
      omega
    rw [hnext] at hstop
    rw [hstop]
  unfold completeAllBelow
  dsimp only
  rw [hbelow, hcurrent]
  unfold checkAndCompleteAfterCurrentIndex
  dsimp only
  rw [hrest, hlast, hrun]
  simp only [List.map_append, SortedMap.eraseAll_append, List.length_append, List.length_cons,
    List.length_nil, List.map_cons, List.map_nil, Prod.mk.injEq, and_true]
  rw [hkey]
  congr 1
  push_cast
  omega

/-! ## Where the index stops -/

/-- A promise waits at an index. -/
def Parked (q : OrderedCompletionQueue α) (index : Int) : Prop :=
  (q.promises.find? index).isSome

instance (q : OrderedCompletionQueue α) (index : Int) : Decidable (q.Parked index) :=
  inferInstanceAs (Decidable (_ = true))

theorem parked_iff {index : Int} : q.Parked index ↔ ∃ a, (index, a) ∈ q.promises.entries := by
  unfold Parked
  rw [Option.isSome_iff_exists]
  exact exists_congr fun a => SortedMap.find?_eq_some

theorem parked_addIncomplete {index j : Int} {promise : α} :
    (q.addIncomplete index promise).Parked j ↔ j = index ∨ q.Parked j := by
  unfold Parked addIncomplete
  dsimp only
  rw [SortedMap.find?_insert]
  by_cases h : j = index <;> simp [h]

/-- What is parked is passed by the check or stays parked. -/
theorem check_parked {j : Int} (h : q.Parked j) :
    j < q.checkAndCompleteAfterCurrentIndex.1.currentIndex ∨
      q.checkAndCompleteAfterCurrentIndex.1.Parked j := by
  by_cases hdone : j ∈ (consecutive q.currentIndex q.promises.entries).map (·.1)
  · obtain ⟨e, he, rfl⟩ := List.mem_map.mp hdone
    exact .inl (lt_of_mem_consecutive he)
  · refine .inr ?_
    unfold Parked checkAndCompleteAfterCurrentIndex at *
    dsimp only
    rw [SortedMap.find?_eraseAll, if_neg hdone]
    exact h

/-- A promise below the index is in the way of all others. -/
theorem check_of_parked_below {j : Int} (h : q.Parked j) (hlt : j < q.currentIndex) :
    q.checkAndCompleteAfterCurrentIndex = (q, []) := by
  apply check_of_consecutive_nil
  obtain ⟨a, ha⟩ := parked_iff.mp h
  have hsorted := q.promises.sorted
  cases hentries : q.promises.entries with
  | nil => rfl
  | cons e rest =>
    rw [hentries] at ha hsorted
    refine if_neg fun heq => ?_
    rcases List.mem_cons.mp ha with rfl | ha
    · exact absurd heq hlt.ne
    · have := (List.pairwise_cons.mp hsorted).1 _ ha
      dsimp only at this
      omega

/-- The entries that completing below an index leaves for the check. -/
theorem entries_below (q : OrderedCompletionQueue α) (index : Int) :
    (q.promises.eraseAll ((q.promises.entries.takeWhile (·.1 < index)).map (·.1))).entries =
      q.promises.entries.dropWhile (·.1 < index) :=
  SortedMap.entries_eraseAll_of_append List.takeWhile_append_dropWhile.symm

/-- Completing below an index gets there. -/
theorem le_completeAllBelow (q : OrderedCompletionQueue α) (index : Int) :
    index ≤ (q.completeAllBelow index).1.currentIndex := by
  unfold completeAllBelow checkAndCompleteAfterCurrentIndex
  dsimp only
  split <;> omega

/-- **Completing below a parked index passes it.** -/
theorem lt_completeAllBelow {index : Int} (h : q.Parked index) :
    index < (q.completeAllBelow index).1.currentIndex := by
  by_cases hlt : index < q.currentIndex
  · exact hlt.trans_le (q.completeAllBelow_completes index).index_le
  -- the parked promise is the first one left, and the check starts at it
  obtain ⟨a, ha⟩ := parked_iff.mp h
  have hcurrent : (if index > q.currentIndex then index else q.currentIndex) = index := by
    split <;> omega
  have hmem : (index, a) ∈ q.promises.entries.dropWhile (·.1 < index) := by
    rw [← List.takeWhile_append_dropWhile (p := fun e : Int × α => decide (e.1 < index))
      (l := q.promises.entries), List.mem_append] at ha
    rcases ha with ha | ha
    · have := List.mem_takeWhile_imp ha
      simp at this
    · exact ha
  have hsorted : (q.promises.entries.dropWhile (·.1 < index)).Pairwise (·.1 < ·.1) :=
    q.promises.sorted.sublist (List.dropWhile_sublist _)
  unfold completeAllBelow checkAndCompleteAfterCurrentIndex
  dsimp only
  rw [entries_below, hcurrent]
  cases hdrop : q.promises.entries.dropWhile (·.1 < index) with
  | nil =>
    rw [hdrop] at hmem
    exact absurd hmem List.not_mem_nil
  | cons e rest =>
    have hhead : ¬ e.1 < index := by
      have hne : q.promises.entries.dropWhile (·.1 < index) ≠ [] := by simp [hdrop]
      have hfails := List.head_dropWhile_not _ hne
      simpa [hdrop] using hfails
    rw [hdrop] at hmem hsorted
    have heq : e.1 = index := by
      rcases List.mem_cons.mp hmem with rfl | hmem
      · rfl
      · have := (List.pairwise_cons.mp hsorted).1 _ hmem
        dsimp only at this
        omega
    rw [consecutive_cons heq, List.length_cons]
    omega

/-! ## Which promises are completed -/

/-- A run of consecutive keys starts only if nothing is in front of it. -/
theorem mem_consecutive_iff {startIndex : Int} {entries : List (Int × α)}
    (h : entries.Pairwise (·.1 < ·.1)) {e : Int × α} :
    e ∈ consecutive startIndex entries ↔ e ∈ entries ∧ (∀ e' ∈ entries, startIndex ≤ e'.1) ∧
      ∀ j, startIndex ≤ j → j ≤ e.1 → ∃ a, (j, a) ∈ entries := by
  induction entries generalizing startIndex with
  | nil => simp [consecutive]
  | cons e₀ entries ih =>
    obtain ⟨hfirst, hrest⟩ := List.pairwise_cons.mp h
    by_cases he₀ : e₀.1 = startIndex
    · rw [consecutive_cons he₀, List.mem_cons, ih hrest, List.mem_cons]
      constructor
      · rintro (rfl | ⟨he, -, hrun⟩)
        · refine ⟨.inl rfl, fun e' he' => ?_, fun j hj hj' => ⟨e.2, ?_⟩⟩
          · rcases List.mem_cons.mp he' with rfl | he'
            · exact he₀.ge
            · exact (he₀.symm.le).trans (hfirst e' he').le
          · obtain rfl : j = e.1 := by omega
            exact List.mem_cons_self
        · refine ⟨.inr he, fun e' he' => ?_, fun j hj hj' => ?_⟩
          · rcases List.mem_cons.mp he' with rfl | he'
            · exact he₀.ge
            · exact (he₀.symm.le).trans (hfirst e' he').le
          · by_cases hstart : j = startIndex
            · exact ⟨e₀.2, by rw [hstart, ← he₀]; exact List.mem_cons_self⟩
            · obtain ⟨a, ha⟩ := hrun j (by omega) hj'
              exact ⟨a, List.mem_cons_of_mem _ ha⟩
      · rintro ⟨rfl | he, -, hrun⟩
        · exact .inl rfl
        · refine .inr ⟨he, fun e' he' => ?_, fun j hj hj' => ?_⟩
          · have := hfirst e' he'
            omega
          · obtain ⟨a, ha⟩ := hrun j (by omega) hj'
            rcases List.mem_cons.mp ha with rfl | ha
            · dsimp only at he₀
              omega
            · exact ⟨a, ha⟩
    · have hnil : consecutive startIndex (e₀ :: entries) = [] := if_neg he₀
      rw [hnil]
      refine ⟨fun he => absurd he List.not_mem_nil, fun ⟨he, hge, hrun⟩ => ?_⟩
      -- the first key is behind the start, so the start is no key
      have hlt : startIndex < e₀.1 := lt_of_le_of_ne (hge e₀ List.mem_cons_self) (Ne.symm he₀)
      obtain ⟨a, ha⟩ := hrun startIndex le_rfl (hge e he)
      rcases List.mem_cons.mp ha with rfl | ha
      · exact absurd hlt (lt_irrefl _)
      · exact absurd (hlt.trans (hfirst _ ha)) (lt_irrefl _)

/-- The check completes a promise if every index from the current one up to it is parked, and none
below. -/
theorem mem_check_iff {e : Int × α} :
    e ∈ q.checkAndCompleteAfterCurrentIndex.2 ↔ e ∈ q.promises.entries ∧
      (∀ k, q.Parked k → q.currentIndex ≤ k) ∧
      ∀ j, q.currentIndex ≤ j → j ≤ e.1 → q.Parked j := by
  unfold checkAndCompleteAfterCurrentIndex
  dsimp only
  rw [mem_consecutive_iff q.promises.sorted]
  simp only [parked_iff]
  refine and_congr_right fun _ => and_congr_left fun _ => ⟨?_, ?_⟩
  · rintro hge k ⟨a, ha⟩
    exact hge _ ha
  · intro hge e' he'
    exact hge e'.1 ⟨e'.2, he'⟩

/-- What the check has not completed is still there. -/
theorem mem_check_rest {e : Int × α} :
    e ∈ q.checkAndCompleteAfterCurrentIndex.1.promises.entries ↔
      e ∈ q.promises.entries ∧ e ∉ q.checkAndCompleteAfterCurrentIndex.2 := by
  unfold checkAndCompleteAfterCurrentIndex
  dsimp only
  rw [SortedMap.entries_eraseAll, List.mem_filter, decide_eq_true_iff]
  refine and_congr_right fun he => not_congr ⟨fun hkey => ?_, fun h => List.mem_map_of_mem h⟩
  obtain ⟨e', he', hkeys⟩ := List.mem_map.mp hkey
  have hfind := SortedMap.find?_eq_some.mpr (consecutive_sublist.mem he' : (e'.1, e'.2) ∈ _)
  have hfind' := SortedMap.find?_eq_some.mpr (he : (e.1, e.2) ∈ q.promises.entries)
  rw [hkeys, hfind'] at hfind
  obtain rfl : e = e' := Prod.ext hkeys.symm (Option.some.inj hfind)
  exact he'

/-- Keys below an index come first. -/
theorem mem_takeWhile_iff {index : Int} {entries : List (Int × α)}
    (h : entries.Pairwise (·.1 < ·.1)) {e : Int × α} :
    e ∈ entries.takeWhile (·.1 < index) ↔ e ∈ entries ∧ e.1 < index := by
  induction entries with
  | nil => simp
  | cons e₀ entries ih =>
    obtain ⟨hfirst, hrest⟩ := List.pairwise_cons.mp h
    by_cases he₀ : e₀.1 < index
    · rw [List.takeWhile_cons_of_pos (by simpa using he₀), List.mem_cons, List.mem_cons, ih hrest]
      constructor
      · rintro (rfl | ⟨he, hlt⟩)
        · exact ⟨.inl rfl, he₀⟩
        · exact ⟨.inr he, hlt⟩
      · rintro ⟨rfl | he, hlt⟩
        · exact .inl rfl
        · exact .inr ⟨he, hlt⟩
    · rw [List.takeWhile_cons_of_neg (by simpa using he₀)]
      refine ⟨fun he => absurd he List.not_mem_nil, fun ⟨he, hlt⟩ => absurd hlt ?_⟩
      rcases List.mem_cons.mp he with rfl | he
      · exact he₀
      · exact fun hlt => he₀ ((hfirst e he).trans hlt)

/-- The promises that completing below an index hands to the check. -/
theorem mem_completeAllBelow {index : Int} {e : Int × α} :
    e ∈ (q.completeAllBelow index).2 ↔ e ∈ q.promises.entries ∧ (e.1 < index ∨
      ((∀ k, q.Parked k → ¬ k < index → q.currentIndex ≤ k) ∧
        ∀ j, q.currentIndex ≤ j → index ≤ j → j ≤ e.1 → q.Parked j) ∧ q.currentIndex ≤ e.1) := by
  obtain ⟨q₁, hq₁⟩ : ∃ q₁ : OrderedCompletionQueue α, q₁ =
      { currentIndex := if index > q.currentIndex then index else q.currentIndex
        promises := q.promises.eraseAll
          ((q.promises.entries.takeWhile (·.1 < index)).map (·.1)) } := ⟨_, rfl⟩
  have hbelow : (q.completeAllBelow index).2 = q.promises.entries.takeWhile (·.1 < index) ++
      q₁.checkAndCompleteAfterCurrentIndex.2 := by
    rw [hq₁]
    rfl
  have hindex : ∀ j, q₁.currentIndex ≤ j ↔ index ≤ j ∧ q.currentIndex ≤ j := by
    intro j
    rw [hq₁]
    dsimp only
    split <;> omega
  have hentries : ∀ e, e ∈ q₁.promises.entries ↔ e ∈ q.promises.entries ∧ ¬ e.1 < index := by
    intro e
    rw [hq₁, SortedMap.entries_eraseAll, List.mem_filter, decide_eq_true_iff]
    refine and_congr_right fun he => not_congr ⟨fun hkey => ?_, fun hlt => ?_⟩
    · obtain ⟨e', he', hkeys⟩ := List.mem_map.mp hkey
      exact hkeys ▸ ((mem_takeWhile_iff q.promises.sorted).mp he').2
    · exact List.mem_map_of_mem ((mem_takeWhile_iff q.promises.sorted).mpr ⟨he, hlt⟩)
  have hparked : ∀ k, q₁.Parked k ↔ q.Parked k ∧ ¬ k < index := by
    intro k
    rw [parked_iff, parked_iff]
    simp only [hentries, exists_and_right]
  rw [hbelow, List.mem_append, mem_takeWhile_iff q.promises.sorted, mem_check_iff, hentries]
  simp only [hparked, hindex]
  constructor
  · rintro (⟨he, hlt⟩ | ⟨⟨he, hge⟩, hfront, hrun⟩)
    · exact ⟨he, .inl hlt⟩
    · have hcur := hfront e.1 ⟨parked_iff.mpr ⟨e.2, he⟩, hge⟩
      refine ⟨he, .inr ⟨⟨fun k hk hk' => (hfront k ⟨hk, hk'⟩).2, fun j hj hj' hje => ?_⟩, hcur.2⟩⟩
      exact (hrun j ⟨hj', hj⟩ hje).1
  · rintro ⟨he, hlt | ⟨⟨hfront, hrun⟩, hcur⟩⟩
    · exact .inl ⟨he, hlt⟩
    · by_cases hlt : e.1 < index
      · exact .inl ⟨he, hlt⟩
      · refine .inr ⟨⟨he, hlt⟩, fun k hk => ⟨by omega, hfront k hk.1 hk.2⟩, fun j hj hje => ?_⟩
        exact ⟨hrun j hj.2 hj.1 hje, by omega⟩

/-- What the index has moved past was completed. -/
theorem mem_check_of_lt {e : Int × α} (he : e ∈ q.promises.entries) (hge : q.currentIndex ≤ e.1)
    (hlt : e.1 < q.checkAndCompleteAfterCurrentIndex.1.currentIndex) :
    e ∈ q.checkAndCompleteAfterCurrentIndex.2 := by
  have hcheck := q.check_completes
  have hne : q.checkAndCompleteAfterCurrentIndex.2 ≠ [] := by
    intro hnil
    have hindex : q.checkAndCompleteAfterCurrentIndex.1.currentIndex =
        q.currentIndex + q.checkAndCompleteAfterCurrentIndex.2.length := rfl
    rw [hnil] at hindex
    simp at hindex
    omega
  obtain ⟨e₀, he₀⟩ := List.exists_mem_of_ne_nil _ hne
  refine mem_check_iff.mpr ⟨he, (mem_check_iff.mp he₀).2.1, fun j hj hje => ?_⟩
  exact parked_iff.mpr ((hcheck.filled j hj (hje.trans_lt hlt)).resolve_left id)

/-- **A check, and then everything below an index.** A promise is completed if it is below the
index, or if from the current index up to it there is no hole at or above the index, and nothing
parked in front of them that stays there. -/
theorem mem_check_completeAllBelow {index : Int} {e : Int × α} :
    e ∈ q.checkAndCompleteAfterCurrentIndex.2 ++
        (q.checkAndCompleteAfterCurrentIndex.1.completeAllBelow index).2 ↔
      e ∈ q.promises.entries ∧ (e.1 < index ∨
        ((∀ k, q.Parked k → ¬ k < index → q.currentIndex ≤ k) ∧
          ∀ j, q.currentIndex ≤ j → index ≤ j → j ≤ e.1 → q.Parked j) ∧ q.currentIndex ≤ e.1) := by
  have hcheck := q.check_completes
  have hrest : ∀ k, q.checkAndCompleteAfterCurrentIndex.1.Parked k →
      q.Parked k ∧ (q.currentIndex ≤ k → q.checkAndCompleteAfterCurrentIndex.1.currentIndex ≤ k) := by
    intro k hk
    obtain ⟨a, ha⟩ := parked_iff.mp hk
    obtain ⟨hmem, hnot⟩ := mem_check_rest.mp ha
    refine ⟨parked_iff.mpr ⟨a, hmem⟩, fun hge => not_lt.mp fun hlt => hnot ?_⟩
    exact mem_check_of_lt hmem hge hlt
  rw [List.mem_append, mem_completeAllBelow, mem_check_rest]
  constructor
  · rintro (he | ⟨⟨he, hnot⟩, hlt | ⟨⟨hfront, hrun⟩, hcur⟩⟩)
    · obtain ⟨hmem, hfront, hrun⟩ := mem_check_iff.mp he
      refine ⟨hmem, .inr ⟨⟨fun k hk _ => hfront k hk, fun j hj _ hje => hrun j hj hje⟩, ?_⟩⟩
      exact hfront e.1 (parked_iff.mpr ⟨e.2, hmem⟩)
    · exact ⟨he, .inl hlt⟩
    · refine ⟨he, .inr ⟨⟨fun k hk hk' => ?_, fun j hj hj' hje => ?_⟩, hcheck.index_le.trans hcur⟩⟩
      · by_contra hbelow
        -- a leftover stops the check, and is in front of everything afterwards too
        rw [check_of_parked_below hk (not_le.mp hbelow)] at hfront
        exact hbelow (hfront k hk hk')
      · by_cases hlt : j < q.checkAndCompleteAfterCurrentIndex.1.currentIndex
        · exact parked_iff.mpr ((hcheck.filled j hj hlt).resolve_left id)
        · exact (hrest j (hrun j (not_lt.mp hlt) hj' hje)).1
  · rintro ⟨he, hreach⟩
    by_cases hdone : e ∈ q.checkAndCompleteAfterCurrentIndex.2
    · exact .inl hdone
    refine .inr ⟨⟨he, hdone⟩, ?_⟩
    rcases hreach with hlt | ⟨⟨hfront, hrun⟩, hcur⟩
    · exact .inl hlt
    · have hstays := parked_iff.mpr ⟨e.2, mem_check_rest.mpr ⟨he, hdone⟩⟩
      refine .inr ⟨⟨fun k hk hk' => ?_, fun j hj hj' hje => ?_⟩, (hrest e.1 hstays).2 hcur⟩
      · obtain ⟨hparked, hpast⟩ := hrest k hk
        exact hpast (hfront k hparked hk')
      · have hparked := hrun j (hcheck.index_le.trans hj) hj' hje
        exact (check_parked hparked).resolve_left (not_lt.mpr hj)

end OrderedCompletionQueue

end ReplicatedCounter.Log
