import Mathlib.Data.List.TakeWhile
import ReplicatedCounter.Lib.PrefixScan

/-!
# Runs of keys with a common beginning

A list of entries in the order of their keys falls into runs: the first key, and the keys that begin
with it; then the next key, and so on. A run starts with a key that begins with no other one
(`Starts`), so the run an entry is in is found by counting: `flatten_take_runs`.
-/

set_option autoImplicit false

namespace PrefixRuns

variable {α V : Type*} [LinearOrder α]

/-- The runs of some entries. -/
def runs : List (List α × V) → List (List (List α × V))
  | [] => []
  | e :: rest =>
    (e :: rest.takeWhile fun e' => e.1.isPrefixOf e'.1) ::
      runs (rest.dropWhile fun e' => e.1.isPrefixOf e'.1)
termination_by entries => entries.length
decreasing_by
  have hle := (List.dropWhile_sublist (l := rest) fun e' => e.1.isPrefixOf e'.1).length_le
  simp only [List.length_cons]
  omega

theorem runs_nil : runs ([] : List (List α × V)) = [] := by rw [runs]

theorem runs_cons (e : List α × V) (rest : List (List α × V)) : runs (e :: rest) =
    (e :: rest.takeWhile fun e' => e.1.isPrefixOf e'.1) ::
      runs (rest.dropWhile fun e' => e.1.isPrefixOf e'.1) := by
  rw [runs]

/-- A key that begins with no other one. -/
def Starts (keys : List (List α)) (start : List α) : Prop := ∀ k ∈ keys, k <+: start → k = start

instance (keys : List (List α)) (start : List α) : Decidable (Starts keys start) :=
  inferInstanceAs (Decidable (∀ k ∈ keys, k <+: start → k = start))

/-- How many runs have started when the scan has come to `k`. -/
def started (keys : List (List α)) (k : List α) : Nat :=
  keys.countP fun start => ¬ k < start ∧ Starts keys start

/-- The order of the keys makes no difference. -/
theorem started_of_perm {keys keys' : List (List α)} (h : keys.Perm keys') (k : List α) :
    started keys k = started keys' k := by
  unfold started
  rw [h.countP_eq]
  refine List.countP_congr fun start _ => ?_
  rw [decide_eq_true_iff, decide_eq_true_iff]
  exact and_congr_right fun _ => forall_congr' fun k => by rw [h.mem_iff]

/-- No run starts between a key and one that begins with it. -/
theorem started_eq_of_begins {keys : List (List α)} {k k' : List α} (hk : k ∈ keys) (h : k <+: k') :
    started keys k' = started keys k := by
  unfold started
  refine List.countP_congr fun start _ => ?_
  rw [decide_eq_true_iff, decide_eq_true_iff]
  refine and_congr_left fun hstarts => not_congr ⟨?_, fun hlt => ?_⟩
  · intro hlt
    exact lt_of_le_of_lt (not_lt.mp (PrefixScan.not_lt_of_prefix h)) hlt
  · by_contra hge
    have hbegins : k <+: start := by
      rcases lt_or_eq_of_le (not_lt.mp hge) with hlt' | heq
      · exact PrefixScan.prefix_of_between hlt.not_gt hlt' h
      · rwa [heq]
    exact hlt.ne (hstarts k hk hbegins)

variable {e : List α × V} {rest : List (List α × V)}

theorem prefix_of_mem_takeWhile {e' : List α × V}
    (he' : e' ∈ rest.takeWhile fun e' => e.1.isPrefixOf e'.1) : e.1 <+: e'.1 :=
  List.isPrefixOf_iff_prefix.mp
    (List.mem_takeWhile_imp (p := fun e' : List α × V => e.1.isPrefixOf e'.1) he')

/-- What comes behind a run does not begin with its first key. -/
theorem not_prefix_of_mem_dropWhile (hsorted : (e :: rest).Pairwise (·.1 < ·.1)) {e' : List α × V}
    (he' : e' ∈ rest.dropWhile fun e' => e.1.isPrefixOf e'.1) : ¬ e.1 <+: e'.1 := by
  obtain ⟨hhead, hrest⟩ := List.pairwise_cons.mp hsorted
  clear hsorted
  induction rest with
  | nil => exact absurd he' List.not_mem_nil
  | cons first rest ih =>
    obtain ⟨hfirst, hsorted⟩ := List.pairwise_cons.mp hrest
    rw [List.dropWhile_cons] at he'
    by_cases hbegins : e.1 <+: first.1
    · rw [if_pos (List.isPrefixOf_iff_prefix.mpr hbegins)] at he'
      exact ih he' (fun e'' h => hhead e'' (List.mem_cons_of_mem _ h)) hsorted
    · rw [if_neg fun h => hbegins (List.isPrefixOf_iff_prefix.mp h)] at he'
      rcases List.mem_cons.mp he' with rfl | he'
      · exact hbegins
      · intro h
        have hge : ¬ first.1 < e.1 := (hhead first List.mem_cons_self).not_gt
        exact hbegins (PrefixScan.prefix_of_between hge (hfirst e' he') h)

/-- The first key starts a run. -/
theorem starts_head (hsorted : (e :: rest).Pairwise (·.1 < ·.1)) :
    Starts ((e :: rest).map (·.1)) e.1 := by
  intro k hk hbegin
  obtain ⟨e', he', rfl⟩ := List.mem_map.mp hk
  rcases List.mem_cons.mp he' with rfl | he'
  · rfl
  · exact absurd (List.rel_of_pairwise_cons hsorted he') (PrefixScan.not_lt_of_prefix hbegin)

/-- In the first run no other one has started. -/
theorem started_of_prefix (hsorted : (e :: rest).Pairwise (·.1 < ·.1)) {e' : List α × V}
    (hbegin : e.1 <+: e'.1) :
    started ((e :: rest).map (·.1)) e'.1 = 1 := by
  rw [started_eq_of_begins (by simp) hbegin]
  unfold started
  have hfirst : ¬ e.1 < e.1 ∧ Starts ((e :: rest).map (·.1)) e.1 :=
    ⟨lt_irrefl e.1, starts_head hsorted⟩
  rw [List.map_cons, List.countP_cons_of_pos (by simpa using hfirst), Nat.add_eq_right,
    List.countP_eq_zero]
  intro start hstart hcounted
  obtain ⟨e'', he'', rfl⟩ := List.mem_map.mp hstart
  exact (of_decide_eq_true hcounted).1 (List.rel_of_pairwise_cons hsorted he'')

/-- Behind the first run one run more has started than without it. -/
theorem started_of_mem_dropWhile (hsorted : (e :: rest).Pairwise (·.1 < ·.1)) {e' : List α × V}
    (he' : e' ∈ rest.dropWhile fun e' => e.1.isPrefixOf e'.1) :
    started ((e :: rest).map (·.1)) e'.1 =
      started ((rest.dropWhile fun e' => e.1.isPrefixOf e'.1).map (·.1)) e'.1 + 1 := by
  have hlt : e.1 < e'.1 :=
    List.rel_of_pairwise_cons hsorted ((List.dropWhile_sublist _).subset he')
  have hdropped : ∀ {e''}, e'' ∈ rest.dropWhile (fun e' => e.1.isPrefixOf e'.1) → ¬ e.1 <+: e''.1 :=
    fun h => not_prefix_of_mem_dropWhile hsorted h
  have hfirst : ¬ e'.1 < e.1 ∧ Starts ((e :: rest).map (·.1)) e.1 :=
    ⟨hlt.not_gt, starts_head hsorted⟩
  unfold started
  rw [List.map_cons, List.countP_cons_of_pos (by simpa using hfirst), Nat.add_right_cancel_iff]
  have hsplit : rest.map (·.1) = (rest.takeWhile fun e' => e.1.isPrefixOf e'.1).map (·.1) ++
      (rest.dropWhile fun e' => e.1.isPrefixOf e'.1).map (·.1) := by
    rw [← List.map_append, List.takeWhile_append_dropWhile]
  have htaken : ∀ k ∈ (rest.takeWhile fun e' => e.1.isPrefixOf e'.1).map (·.1), e.1 <+: k := by
    intro k hk
    obtain ⟨e'', he'', rfl⟩ := List.mem_map.mp hk
    exact prefix_of_mem_takeWhile he''
  have hstarts : ∀ start ∈ (rest.dropWhile fun e' => e.1.isPrefixOf e'.1).map (·.1),
      (Starts ((e :: rest).map (·.1)) start ↔
        Starts ((rest.dropWhile fun e' => e.1.isPrefixOf e'.1).map (·.1)) start) := by
    intro start hstart
    obtain ⟨e'', he'', rfl⟩ := List.mem_map.mp hstart
    refine ⟨fun h k hk => h k ?_, fun h k hk hbegin => ?_⟩
    · rw [List.map_cons, hsplit]
      exact List.mem_cons_of_mem _ (List.mem_append_right _ hk)
    · rw [List.map_cons, hsplit] at hk
      rcases List.mem_cons.mp hk with rfl | hk
      · exact absurd hbegin (hdropped he'')
      · rcases List.mem_append.mp hk with hk | hk
        · exact absurd ((htaken k hk).trans hbegin) (hdropped he'')
        · exact h k hk hbegin
  rw [hsplit, List.countP_append, Nat.add_eq_right.mpr]
  · refine List.countP_congr fun start hstart => ?_
    rw [← hsplit, ← List.map_cons, decide_eq_true_iff, decide_eq_true_iff, hstarts start hstart]
  · rw [List.countP_eq_zero]
    intro start hstart hcounted
    have heq := (of_decide_eq_true hcounted).2 e.1 List.mem_cons_self (htaken start hstart)
    obtain ⟨e'', he'', rfl⟩ := List.mem_map.mp hstart
    exact (List.rel_of_pairwise_cons hsorted ((List.takeWhile_sublist _).subset he'')).ne heq

/-- **The first runs are the entries up to which so many have started.** -/
theorem flatten_take_runs {entries : List (List α × V)} (hsorted : entries.Pairwise (·.1 < ·.1))
    (m : Nat) : ((runs entries).take m).flatten =
      entries.filter fun e => started (entries.map (·.1)) e.1 ≤ m := by
  induction hlength : entries.length using Nat.strong_induction_on generalizing entries m with
  | _ n ih =>
    cases entries with
    | nil =>
      rw [runs_nil]
      simp
    | cons e rest =>
      have hdrop := List.dropWhile_sublist (l := rest) fun e' => e.1.isPrefixOf e'.1
      have hfirst : started ((e :: rest).map (·.1)) e.1 = 1 :=
        started_of_prefix hsorted List.prefix_rfl
      have htaken : ∀ e' ∈ rest.takeWhile (fun e' => e.1.isPrefixOf e'.1),
          started ((e :: rest).map (·.1)) e'.1 = 1 := fun e' he' =>
        started_of_prefix hsorted (prefix_of_mem_takeWhile he')
      have hdropped : ∀ e' ∈ rest.dropWhile (fun e' => e.1.isPrefixOf e'.1), _ := fun e' he' =>
        started_of_mem_dropWhile hsorted he'
      have hfilter : (e :: rest).filter (fun e' => started ((e :: rest).map (·.1)) e'.1 ≤ m) =
          (e :: rest.takeWhile fun e' => e.1.isPrefixOf e'.1).filter
              (fun e' => started ((e :: rest).map (·.1)) e'.1 ≤ m) ++
            (rest.dropWhile fun e' => e.1.isPrefixOf e'.1).filter
              (fun e' => started ((e :: rest).map (·.1)) e'.1 ≤ m) := by
        rw [← List.filter_append, List.cons_append, List.takeWhile_append_dropWhile]
      rw [hfilter, runs_cons]
      cases m with
      | zero =>
        rw [List.filter_eq_nil_iff.mpr, List.filter_eq_nil_iff.mpr]
        · rfl
        · intro e' he'
          rw [hdropped e' he']
          simp
        · intro e' he'
          rcases List.mem_cons.mp he' with rfl | he'
          · rw [hfirst]
            simp
          · rw [htaken e' he']
            simp
      | succ m =>
        rw [List.take_succ_cons, List.flatten_cons,
          ih _ (by rw [← hlength]; exact Nat.lt_succ_of_le hdrop.length_le)
            ((List.pairwise_cons.mp hsorted).2.sublist hdrop) m rfl]
        congr 1
        · rw [eq_comm, List.filter_eq_self]
          intro e' he'
          rcases List.mem_cons.mp he' with rfl | he'
          · rw [hfirst]
            simp
          · rw [htaken e' he']
            simp
        · refine List.filter_congr fun e' he' => ?_
          rw [hdropped e' he']
          exact decide_eq_decide.mpr Nat.add_le_add_iff_right.symm

end PrefixRuns
