import Mathlib.Data.List.Nodup
import Mathlib.Order.Bounds.Basic
import Mathlib.Order.MinMax
import ReplicatedCounter.Log.LateAdds

/-!
# What the completion queue completes

Two things are told to an `OrderedCompletionQueue`: which indices were added, and below which one
everything is complete. Its state is a function of the two. The index is the first one that neither
of them covers, the promises below it are completed, each of them once, and the others wait: `Exact`.
In which order the indices came makes no difference (`after_adds_of_perm`), and neither does the
detour that `RocksNanoLog::append` takes without a commit index (`addRange_eq_add`).

None of this holds once a promise comes late, which is why the calls of a run are `NoLateAdd`.
-/

set_option autoImplicit false

namespace ReplicatedCounter.Log

/-- `OrderedCompletionQueue<T>::PromiseState`. -/
structure PromiseState (P T : Type) where
  promise : P
  result : T
  deriving DecidableEq, Repr

/-- `value->promise.setValue(value->result)`. -/
def PromiseState.setValue {P T : Type} (value : PromiseState P T) : P × T :=
  (value.promise, value.result)

namespace OrderedCompletionQueue

variable {α : Type}

/-- What a call adds. -/
def Call.entry? : Call α → Option (Int × α)
  | .add index promise => some (index, promise)
  | .completeAllBelow _ => none

/-- The index below which a call declares everything complete. -/
def Call.bound? : Call α → Option Int
  | .add _ _ => none
  | .completeAllBelow index => some index

/-- The promises that some calls add. -/
def added (calls : List (Call α)) : List (Int × α) := calls.filterMap Call.entry?

/-- The largest argument of `completeAllBelow`, if it is above the start. -/
def declared (startIndex : Int) (calls : List (Call α)) : Int :=
  (calls.filterMap Call.bound?).foldl max startIndex

/-- The promises that some calls complete. -/
def completed (startIndex : Int) (calls : List (Call α)) : List (Int × α) :=
  (Lockstep.answers call { currentIndex := startIndex } calls).flatten

/-- Nothing but adds. -/
def adds (entries : List (Int × α)) : List (Call α) := entries.map fun e => .add e.1 e.2

/-- `add` with `complete = false`, and what `RocksNanoLog::append` does then. -/
def addRange (q : OrderedCompletionQueue α) (index : Int) (promise : α) :
    OrderedCompletionQueue α × List (Int × α) :=
  let q := q.addIncomplete index promise
  let range := q.getRangeEligibleForCompletion
  if range.1 < range.2 then q.completeAllBelow (range.2 - 1) else (q, [])

/-- The queue that the added promises and the declared index call for, with the promises that are
completed. -/
structure Exact (added : List (Int × α)) (declared : Int) (q : OrderedCompletionQueue α)
    (completed : List (Int × α)) : Prop where
  least : IsLeast {j | declared ≤ j ∧ j ∉ added.map (·.1)} q.currentIndex
  mem_promises : ∀ e, e ∈ q.promises.entries ↔ e ∈ added ∧ q.currentIndex ≤ e.1
  perm : completed.Perm (added.filter (·.1 < q.currentIndex))

/-- The same before the check: the index may stand at a promise. -/
structure Unchecked (added : List (Int × α)) (declared : Int) (q : OrderedCompletionQueue α)
    (completed : List (Int × α)) : Prop where
  declared_le : declared ≤ q.currentIndex
  filled : ∀ j, declared ≤ j → j < q.currentIndex → j ∈ added.map (·.1)
  mem_promises : ∀ e, e ∈ q.promises.entries ↔ e ∈ added ∧ q.currentIndex ≤ e.1
  perm : completed.Perm (added.filter (·.1 < q.currentIndex))

variable {q : OrderedCompletionQueue α} {entries entries' done done' : List (Int × α)}
  {bound startIndex index : Int} {promise : α} {calls : List (Call α)} {c : Call α}

/-! ## One call -/

/-- What was completed before, and what is completed now. -/
theorem perm_append (hdistinct : (entries.map (·.1)).Nodup) {i j : Int} (hij : i ≤ j)
    (hdone : done.Perm (entries.filter (·.1 < i))) (hnodup : done'.Nodup)
    (hdone' : ∀ e, e ∈ done' ↔ e ∈ entries ∧ i ≤ e.1 ∧ e.1 < j) :
    (done ++ done').Perm (entries.filter (·.1 < j)) := by
  have hentries : entries.Nodup := hdistinct.of_map _
  have hmem : ∀ e, e ∈ done ↔ e ∈ entries ∧ e.1 < i := by
    intro e
    rw [hdone.mem_iff, List.mem_filter, decide_eq_true_iff]
  have happend : (done ++ done').Nodup := by
    refine List.nodup_append.mpr ⟨hdone.nodup_iff.mpr (hentries.filter _), hnodup, ?_⟩
    rintro e he e' he' rfl
    exact absurd ((hmem e).mp he).2 (not_lt.mpr ((hdone' e).mp he').2.1)
  refine (List.perm_ext_iff_of_nodup happend (hentries.filter _)).mpr fun e => ?_
  rw [List.mem_append, hmem, hdone', List.mem_filter, decide_eq_true_iff]
  constructor
  · rintro (⟨he, hlt⟩ | ⟨he, -, hlt⟩)
    · exact ⟨he, hlt.trans_le hij⟩
    · exact ⟨he, hlt⟩
  · rintro ⟨he, hlt⟩
    by_cases hbefore : e.1 < i
    · exact .inl ⟨he, hbefore⟩
    · exact .inr ⟨he, not_lt.mp hbefore, hlt⟩

/-- **The check** takes the index to where it belongs. -/
theorem Unchecked.check (h : Unchecked entries bound q done)
    (hdistinct : (entries.map (·.1)).Nodup) :
    Exact entries bound q.checkAndCompleteAfterCurrentIndex.1
      (done ++ q.checkAndCompleteAfterCurrentIndex.2) := by
  have hcheck := q.check_completes
  have hge : ∀ k, q.Parked k → q.currentIndex ≤ k := by
    intro k hk
    obtain ⟨a, ha⟩ := parked_iff.mp hk
    exact ((h.mem_promises _).mp ha).2
  have hclear := check_clear hge
  have hmem : ∀ e, e ∈ q.checkAndCompleteAfterCurrentIndex.2 ↔
      e ∈ entries ∧ q.currentIndex ≤ e.1 ∧
        e.1 < q.checkAndCompleteAfterCurrentIndex.1.currentIndex := by
    intro e
    constructor
    · intro he
      obtain ⟨hentry, hle⟩ := (h.mem_promises e).mp (hcheck.done_mem e he)
      exact ⟨hentry, hle, hcheck.done_lt e he⟩
    · rintro ⟨hentry, hle, hlt⟩
      exact mem_check_of_lt ((h.mem_promises e).mpr ⟨hentry, hle⟩) hle hlt
  refine ⟨⟨⟨h.declared_le.trans hcheck.index_le, ?_⟩, ?_⟩, fun e => ?_, ?_⟩
  · -- a promise at the new index would have been completed, or would wait at it
    intro hkey
    obtain ⟨e, he, hindex⟩ := List.mem_map.mp hkey
    have hparked := (h.mem_promises e).mpr ⟨he, hindex ▸ hcheck.index_le⟩
    rcases check_parked (parked_iff.mpr ⟨e.2, hparked⟩) with hlt | hstays
    · exact absurd hindex hlt.ne
    · exact absurd hindex (hclear e.1 hstays).ne'
  · rintro j ⟨hbound, hvacant⟩
    by_contra hlt
    apply hvacant
    by_cases hbefore : j < q.currentIndex
    · exact h.filled j hbound hbefore
    · obtain ⟨a, ha⟩ := (hcheck.filled j (not_lt.mp hbefore) (not_le.mp hlt)).resolve_left id
      exact List.mem_map.mpr ⟨(j, a), ((h.mem_promises _).mp ha).1, rfl⟩
  · rw [mem_check_rest, hmem, h.mem_promises]
    constructor
    · rintro ⟨⟨he, hle⟩, hnot⟩
      exact ⟨he, not_lt.mp fun hlt => hnot ⟨he, hle, hlt⟩⟩
    · rintro ⟨he, hle⟩
      exact ⟨⟨he, hcheck.index_le.trans hle⟩, fun hdone => absurd hdone.2.2 (not_lt.mpr hle)⟩
  · refine perm_append hdistinct hcheck.index_le h.perm ?_ hmem
    have hsub : (consecutive q.currentIndex q.promises.entries).Sublist q.promises.entries :=
      consecutive_sublist
    exact (q.promises.sorted.sublist hsub).imp fun hlt heq => absurd (congrArg Prod.fst heq) hlt.ne

/-- **Adding a promise** that is not late. -/
theorem Exact.add (h : Exact entries bound q done)
    (hdistinct : ((entries ++ [(index, promise)]).map (·.1)).Nodup) (hindex : q.currentIndex ≤ index) :
    Exact (entries ++ [(index, promise)]) bound (q.add index promise).1
      (done ++ (q.add index promise).2) := by
  refine Unchecked.check (q := q.addIncomplete index promise) ⟨h.least.1.1, ?_, ?_, ?_⟩ hdistinct
  · intro j hbound hlt
    rw [List.map_append]
    refine List.mem_append_left _ ?_
    by_contra hvacant
    exact absurd (h.least.2 ⟨hbound, hvacant⟩) (not_le.mpr hlt)
  · rintro ⟨k, a⟩
    have hnew : (index, a) ∉ entries := by
      intro hmem
      rw [List.map_append, List.nodup_append] at hdistinct
      exact hdistinct.2.2 _ (List.mem_map_of_mem hmem) index (by simp) rfl
    show (k, a) ∈ (q.promises.insert index promise).entries ↔ _ ∧ q.currentIndex ≤ k
    rw [SortedMap.mem_insert, h.mem_promises, List.mem_append, List.mem_singleton, Prod.mk.injEq]
    constructor
    · rintro (⟨rfl, rfl⟩ | ⟨-, hmem, hle⟩)
      · exact ⟨.inr ⟨rfl, rfl⟩, hindex⟩
      · exact ⟨.inl hmem, hle⟩
    · rintro ⟨hmem | hsame, hle⟩
      · refine .inr ⟨?_, hmem, hle⟩
        rintro rfl
        exact hnew hmem
      · exact .inl hsame
  · have hlate : ¬ index < q.currentIndex := not_lt.mpr hindex
    show done.Perm ((entries ++ [(index, promise)]).filter (·.1 < q.currentIndex))
    rw [List.filter_append, List.filter_cons_of_neg (by simpa using hlate), List.filter_nil,
      List.append_nil]
    exact h.perm

/-- **Completing below an index.** -/
theorem Exact.completeAllBelow (h : Exact entries bound q done)
    (hdistinct : (entries.map (·.1)).Nodup) (index : Int) :
    Exact entries (max bound index) (q.completeAllBelow index).1
      (done ++ (q.completeAllBelow index).2) := by
  have hcurrent : (if index > q.currentIndex then index else q.currentIndex) =
      max q.currentIndex index := by
    split
    · rename_i hgt
      exact (max_eq_right hgt.le).symm
    · rename_i hle
      exact (max_eq_left (not_lt.mp hle)).symm
  have hbelow : ∀ e, e ∈ q.promises.entries.takeWhile (·.1 < index) ↔
      e ∈ entries ∧ q.currentIndex ≤ e.1 ∧ e.1 < max q.currentIndex index := by
    intro e
    rw [mem_takeWhile_iff q.promises.sorted, h.mem_promises, and_assoc]
    refine and_congr_right fun _ => and_congr_right fun hle => ?_
    rw [lt_max_iff]
    exact (or_iff_right (not_lt.mpr hle)).symm
  unfold OrderedCompletionQueue.completeAllBelow
  dsimp only
  rw [hcurrent, ← List.append_assoc]
  refine Unchecked.check ⟨max_le_max h.least.1.1 le_rfl, ?_, fun e => ?_, ?_⟩ hdistinct
  · intro j hbound hlt
    obtain ⟨hj, hindex⟩ := max_le_iff.mp hbound
    by_contra hvacant
    rcases lt_max_iff.mp hlt with hlt | hlt
    · exact absurd (h.least.2 ⟨hj, hvacant⟩) (not_le.mpr hlt)
    · exact absurd hindex (not_le.mpr hlt)
  · dsimp only
    rw [SortedMap.entries_eraseAll, List.mem_filter, decide_eq_true_iff, h.mem_promises, and_assoc]
    refine and_congr_right fun he => ?_
    rw [max_le_iff]
    refine and_congr_right fun hle => ?_
    constructor
    · intro hkept
      by_contra hlt
      exact hkept (List.mem_map_of_mem ((hbelow e).mpr
        ⟨he, hle, lt_max_of_lt_right (not_le.mp hlt)⟩))
    · intro hindex hswept
      obtain ⟨e', he', hkeys⟩ := List.mem_map.mp hswept
      have hlt := ((hbelow e').mp he').2.2
      rw [hkeys] at hlt
      exact absurd hlt (not_lt.mpr (max_le hle hindex))
  · refine perm_append hdistinct (le_max_left _ _) h.perm ?_ hbelow
    have hsorted := q.promises.sorted.sublist (List.takeWhile_sublist (·.1 < index))
    exact hsorted.imp fun hlt heq => absurd (congrArg Prod.fst heq) hlt.ne

/-! ## A run of calls -/

theorem exact_start (startIndex : Int) :
    Exact ([] : List (Int × α)) startIndex { currentIndex := startIndex } [] where
  least := ⟨⟨le_rfl, List.not_mem_nil⟩, fun _ hj => hj.1⟩
  mem_promises _ := iff_of_false List.not_mem_nil fun h => List.not_mem_nil h.1
  perm := .refl []

theorem added_concat : added (calls ++ [c]) = added calls ++ c.entry?.toList := by
  unfold added
  rw [List.filterMap_append]
  cases c <;> rfl

theorem declared_concat : declared startIndex (calls ++ [c]) =
    c.bound?.elim (declared startIndex calls) (max (declared startIndex calls)) := by
  unfold declared
  rw [List.filterMap_append, List.foldl_append]
  cases c <;> rfl

theorem completed_concat : completed startIndex (calls ++ [c]) =
    completed startIndex calls ++ ((after startIndex calls).call c).2 := by
  unfold completed
  rw [Lockstep.answers_append, List.flatten_append]
  exact congrArg _ (List.append_nil _)

/-- One more call is not late if its promise is not. -/
theorem noLateAdd_concat : NoLateAdd startIndex (calls ++ [c]) ↔ NoLateAdd startIndex calls ∧
    ∀ index promise, c = .add index promise → (after startIndex calls).currentIndex ≤ index := by
  constructor
  · intro h
    constructor
    · rintro front index promise back rfl
      exact h front index promise (back ++ [c]) (by simp)
    · rintro index promise rfl
      exact h calls index promise [] rfl
  · rintro ⟨h, hlast⟩ front index promise back hcalls
    rcases List.eq_nil_or_concat back with rfl | ⟨back, c', rfl⟩
    · obtain ⟨rfl, hc⟩ := List.append_inj' hcalls rfl
      exact hlast index promise (List.singleton_inj.mp hc)
    · rw [List.concat_eq_append, ← List.cons_append, ← List.append_assoc] at hcalls
      exact h front index promise back (List.append_inj' hcalls rfl).1

/-- **The queue completes exactly what it should**, after every run. -/
theorem exact_after (hdistinct : ((added calls).map (·.1)).Nodup)
    (hlate : NoLateAdd startIndex calls) :
    Exact (added calls) (declared startIndex calls) (after startIndex calls)
      (completed startIndex calls) := by
  induction calls using List.reverseRecOn with
  | nil => exact exact_start startIndex
  | append_singleton calls c ih =>
    obtain ⟨hbefore, hlast⟩ := noLateAdd_concat.mp hlate
    rw [added_concat] at hdistinct
    have hrest : ((added calls).map (·.1)).Nodup := by
      rw [List.map_append] at hdistinct
      exact hdistinct.of_append_left
    have hexact := ih hrest hbefore
    rw [added_concat, declared_concat, completed_concat, after_concat]
    cases c with
    | add index promise => exact hexact.add hdistinct (hlast index promise rfl)
    | completeAllBelow index =>
      rw [Call.entry?, Option.toList_none, List.append_nil]
      exact hexact.completeAllBelow hrest index

/-! ## Nothing but adds -/

theorem added_adds (entries : List (Int × α)) : added (adds entries) = entries := by
  unfold added adds
  rw [List.filterMap_map]
  exact List.filterMap_some

theorem declared_adds (startIndex : Int) (entries : List (Int × α)) :
    declared startIndex (adds entries) = startIndex := by
  have hnone : (adds entries).filterMap Call.bound? = [] := by
    unfold adds
    rw [List.filterMap_map]
    exact List.filterMap_none entries
  unfold declared
  rw [hnone, List.foldl_nil]

/-- A promise is late only if its index was added before. -/
theorem noLateAdd_adds (hdistinct : (entries.map (·.1)).Nodup)
    (hstart : ∀ e ∈ entries, startIndex ≤ e.1) : NoLateAdd startIndex (adds entries) := by
  induction entries using List.reverseRecOn with
  | nil =>
    rintro front index promise back hcalls
    exact absurd hcalls.symm (by simp [adds])
  | append_singleton entries e ih =>
    have hadds : adds (entries ++ [e]) = adds entries ++ [.add e.1 e.2] := List.map_append
    rw [List.map_append, List.nodup_append] at hdistinct
    have hbefore := ih hdistinct.1 fun e' he' => hstart e' (List.mem_append_left _ he')
    rw [hadds, noLateAdd_concat]
    refine ⟨hbefore, ?_⟩
    rintro index promise ⟨⟩
    have hexact := exact_after (by rw [added_adds]; exact hdistinct.1) hbefore
    rw [added_adds, declared_adds] at hexact
    refine hexact.least.2 ⟨hstart e (by simp), fun hmem => ?_⟩
    exact hdistinct.2.2 _ hmem e.1 (by simp) rfl

/-- Two exact queues over the same promises. -/
theorem Exact.eq_of_perm {q' : OrderedCompletionQueue α} (h : Exact entries bound q done)
    (h' : Exact entries' bound q' done') (hperm : entries.Perm entries') :
    q = q' ∧ done.Perm done' := by
  have hindex : q.currentIndex = q'.currentIndex := by
    refine h.least.unique ?_
    have hsame : {j | bound ≤ j ∧ j ∉ entries.map (·.1)} =
        {j | bound ≤ j ∧ j ∉ entries'.map (·.1)} := by
      ext j
      exact and_congr_right fun _ => not_congr (hperm.map _).mem_iff
    rw [hsame]
    exact h'.least
  have hpromises : q.promises = q'.promises := by
    refine SortedMap.ext_find? fun k => Option.ext fun a => ?_
    rw [SortedMap.find?_eq_some, SortedMap.find?_eq_some, h.mem_promises, h'.mem_promises,
      hperm.mem_iff, hindex]
  constructor
  · cases q
    cases q'
    dsimp only at hindex hpromises
    rw [hindex, hpromises]
  · refine h.perm.trans (List.Perm.trans ?_ h'.perm.symm)
    rw [hindex]
    exact hperm.filter _

/-- **The order of the adds makes no difference.** -/
theorem after_adds_of_perm (hperm : entries.Perm entries') (hdistinct : (entries.map (·.1)).Nodup)
    (hstart : ∀ e ∈ entries, startIndex ≤ e.1) :
    after startIndex (adds entries) = after startIndex (adds entries') ∧
      (completed startIndex (adds entries)).Perm (completed startIndex (adds entries')) := by
  have hexact : ∀ {entries : List (Int × α)}, (entries.map (·.1)).Nodup →
      (∀ e ∈ entries, startIndex ≤ e.1) →
      Exact entries startIndex (after startIndex (adds entries))
        (completed startIndex (adds entries)) := by
    intro entries hdistinct hstart
    have := exact_after (by rw [added_adds]; exact hdistinct) (noLateAdd_adds hdistinct hstart)
    rwa [added_adds, declared_adds] at this
  exact (hexact hdistinct hstart).eq_of_perm
    (hexact ((hperm.map _).nodup_iff.mp hdistinct) fun e he => hstart e (hperm.mem_iff.mpr he)) hperm

/-! ## The range -/

/-- **Adding, and then completing the eligible range, is adding.** -/
theorem addRange_eq_add (q : OrderedCompletionQueue α) (index : Int) (promise : α) :
    q.addRange index promise = q.add index promise := by
  unfold addRange
  dsimp only
  split
  · rename_i hrange
    exact completeAllBelow_range _ hrange
  · rename_i hrange
    exact (check_of_range_empty hrange).symm

/-! ## Promises with results -/

section results

variable {P T : Type}

/-- The values that were set. -/
def values (startIndex : Int) (calls : List (Call (PromiseState P T))) : List (P × T) :=
  (completed startIndex calls).map fun e => e.2.setValue

/-- **The completion queue is exact, and does not depend on the order.** -/
theorem completion_exact (startIndex : Int) :
    (∀ calls : List (Call (PromiseState P T)), ((added calls).map (·.1)).Nodup →
      NoLateAdd startIndex calls → ∀ front, front <+: calls →
        (values startIndex front).Perm
            (((added front).filter (·.1 < (after startIndex front).currentIndex)).map fun e =>
              (e.2.promise, e.2.result)) ∧
          IsLeast {j | declared startIndex front ≤ j ∧ j ∉ (added front).map (·.1)}
            (after startIndex front).currentIndex) ∧
      (∀ entries entries' : List (Int × PromiseState P T), entries.Perm entries' →
        (entries.map (·.1)).Nodup → (∀ e ∈ entries, startIndex ≤ e.1) →
          after startIndex (adds entries) = after startIndex (adds entries') ∧
            (values startIndex (adds entries)).Perm (values startIndex (adds entries'))) ∧
      ∀ (q : OrderedCompletionQueue (PromiseState P T)) index promise,
        q.addRange index promise = q.add index promise := by
  refine ⟨?_, ?_, addRange_eq_add⟩
  · rintro calls hdistinct hlate front ⟨back, rfl⟩
    have hadded : added (front ++ back) = added front ++ added back := List.filterMap_append
    rw [hadded, List.map_append] at hdistinct
    have hfront : NoLateAdd startIndex front := by
      rintro front' index promise back' rfl
      exact hlate front' index promise (back' ++ back) (by simp)
    have hexact := exact_after hdistinct.of_append_left hfront
    exact ⟨hexact.perm.map _, hexact.least⟩
  · intro entries entries' hperm hdistinct hstart
    obtain ⟨hstate, hcompleted⟩ := after_adds_of_perm hperm hdistinct hstart
    exact ⟨hstate, hcompleted.map _⟩

/-- Entries 1 and 3 wait for entry 0, until everything below 2 is declared complete. -/
theorem completion_exact_hole :
    let entries : List (Int × PromiseState String Nat) := [(1, ⟨"one", 10⟩), (3, ⟨"three", 30⟩)]
    (values 0 (adds entries ++ [.completeAllBelow 2])).Perm [("one", 10)] ∧
      after 0 (adds entries) = after 0 (adds entries.reverse) := by
  intro entries
  obtain ⟨hexact, horder, -⟩ := completion_exact (P := String) (T := Nat) 0
  have hdistinct : (entries.map (·.1)).Nodup := by decide
  have hstart : ∀ e ∈ entries, 0 ≤ e.1 := by decide
  constructor
  · refine (hexact _ (by decide) ?_ _ List.prefix_rfl).1
    rw [noLateAdd_concat]
    exact ⟨noLateAdd_adds hdistinct hstart, fun _ _ hcall => nomatch hcall⟩
  · exact (horder entries entries.reverse (List.reverse_perm entries).symm hdistinct hstart).1

end results

end OrderedCompletionQueue

end ReplicatedCounter.Log
