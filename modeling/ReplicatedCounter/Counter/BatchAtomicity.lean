import ReplicatedCounter.Counter.ReplicaState

/-!
# Batches that fail

`CounterApp::apply` works on `lookup_` itself, entry by entry, and an entry with an unknown command
makes it throw where it stands. **What the entries in front of it have added stays, and so do the
keys that they and the failing entry have made** (`find?_applyEntries`). A batch that fails leaves
the map as it was only where that cannot be seen: every key had been there, and what was added to it
comes to nothing.
-/

set_option autoImplicit false

namespace ReplicatedCounter.Counter

/-- The commands that `apply` knows. -/
def CommandType.known : CommandType → Bool
  | .incr => true
  | .decr => true
  | .unknown _ => false

/-- What an entry adds to its key. -/
def CounterLogEntry.delta (entry : CounterLogEntry) : Int64 :=
  match entry.commandType with
  | .incr => entry.val
  | .decr => -entry.val
  | .unknown _ => 0

/-- What a batch adds to a key, up to the entry that makes `apply` throw. -/
def added (key : String) : CounterLogEntries → Int64
  | [] => 0
  | entry :: entries =>
    match entry.commandType with
    | .unknown _ => 0
    | _ => (if entry.key = key then entry.delta else 0) + added key entries

namespace CounterApp

/-- The map with an entry added. -/
def addEntry (lookup : SortedMap String Int64) (entry : CounterLogEntry) : SortedMap String Int64 :=
  lookup.insert entry.key (valueAt lookup entry.key + entry.delta)

variable {lookup : SortedMap String Int64} {entry : CounterLogEntry} {entries : CounterLogEntries}
  {app : CounterApp} {logId : Int}

/-- The loop of `apply`, by whether it knows the command. -/
theorem applyEntries_cons :
    applyEntries lookup (entry :: entries) =
      if entry.commandType.known then
        ((applyEntries (addEntry lookup entry) entries).1,
          (applyEntries (addEntry lookup entry) entries).2.map
            (⟨entry.key, valueAt lookup entry.key + entry.delta⟩ :: ·))
      else
        (lookup.insert entry.key (valueAt lookup entry.key),
          .error "Unknown Command. This is a non-recoverable error.") := by
  unfold addEntry CounterLogEntry.delta
  rw [applyEntries]
  unfold applyEntry
  cases hcommand : entry.commandType with
  | incr => rfl
  | decr =>
    dsimp only
    rw [Int64.sub_eq_add_neg]
    rfl
  | unknown value => rfl

theorem touched_cons : touched (entry :: entries) =
    if entry.commandType.known then entry.key :: touched entries else [entry.key] := by
  rw [touched]
  cases entry.commandType <;> rfl

theorem added_cons {key : String} : added key (entry :: entries) =
    if entry.commandType.known then
      (if entry.key = key then entry.delta else 0) + added key entries
    else 0 := by
  rw [added]
  cases entry.commandType <;> rfl

/-- Nothing is added to a key that is not touched. -/
theorem added_eq_zero {key : String} (h : key ∉ touched entries) : added key entries = 0 := by
  induction entries with
  | nil => rfl
  | cons entry entries ih =>
    rw [touched_cons] at h
    rw [added_cons]
    cases hknown : entry.commandType.known with
    | false => rfl
    | true =>
      rw [hknown, if_pos rfl, List.mem_cons, not_or] at h
      rw [if_pos rfl, if_neg (Ne.symm h.1), ih h.2, Int64.zero_add]

/-- **What a batch leaves under a key**, whether it throws or not. -/
theorem find?_applyEntries (lookup : SortedMap String Int64) (entries : CounterLogEntries)
    (key : String) :
    (applyEntries lookup entries).1.find? key =
      if key ∈ touched entries then some (valueAt lookup key + added key entries)
      else lookup.find? key := by
  induction entries generalizing lookup with
  | nil => rfl
  | cons entry entries ih =>
    rw [applyEntries_cons, touched_cons, added_cons]
    cases hknown : entry.commandType.known with
    | false =>
      rw [if_neg Bool.false_ne_true, if_neg Bool.false_ne_true, if_neg Bool.false_ne_true,
        SortedMap.find?_insert, Int64.add_zero]
      by_cases hkey : key = entry.key
      · rw [if_pos hkey, if_pos (List.mem_singleton.mpr hkey), hkey]
      · rw [if_neg hkey, if_neg (fun hmem => hkey (List.mem_singleton.mp hmem))]
    | true =>
      rw [if_pos rfl, if_pos rfl, if_pos rfl]
      dsimp only
      have hvalue : valueAt (addEntry lookup entry) key =
          valueAt lookup key + if entry.key = key then entry.delta else 0 :=
        valueAt_insert_add lookup entry.key key entry.delta
      rw [ih, hvalue, Int64.add_assoc]
      by_cases hmem : key ∈ touched entries
      · rw [if_pos hmem, if_pos (List.mem_cons_of_mem _ hmem)]
      · rw [if_neg hmem, added_eq_zero hmem, Int64.add_zero]
        unfold addEntry
        rw [SortedMap.find?_insert]
        by_cases hkey : key = entry.key
        · rw [if_pos hkey, if_pos (hkey ▸ List.mem_cons_self), if_pos hkey.symm, hkey]
        · rw [if_neg hkey, if_neg (fun h => (List.mem_cons.mp h).elim hkey hmem)]

/-- **A batch without unknown commands** adds all its entries and answers each with its key. -/
theorem applyEntries_of_known (lookup : SortedMap String Int64)
    (h : ∀ entry ∈ entries, entry.commandType.known) :
    ∃ counterValues,
      applyEntries lookup entries = (entries.foldl addEntry lookup, .ok counterValues) ∧
      counterValues.map (·.key) = entries.map (·.key) := by
  induction entries generalizing lookup with
  | nil => exact ⟨[], rfl, rfl⟩
  | cons entry entries ih =>
    obtain ⟨hentry, hentries⟩ := List.forall_mem_cons.mp h
    obtain ⟨counterValues, happly, hkeys⟩ := ih (addEntry lookup entry) hentries
    refine ⟨⟨entry.key, valueAt lookup entry.key + entry.delta⟩ :: counterValues, ?_, ?_⟩
    · rw [applyEntries_cons, if_pos hentry, happly]
      rfl
    · rw [List.map_cons, List.map_cons, hkeys]

/-- A batch with an unknown command throws. -/
theorem applyEntries_of_unknown (lookup : SortedMap String Int64)
    (h : ¬ ∀ entry ∈ entries, entry.commandType.known) :
    (applyEntries lookup entries).2 =
      .error "Unknown Command. This is a non-recoverable error." := by
  induction entries generalizing lookup with
  | nil => exact absurd (fun _ hmem => absurd hmem List.not_mem_nil) h
  | cons entry entries ih =>
    rw [applyEntries_cons]
    cases hknown : entry.commandType.known with
    | false => rfl
    | true =>
      have hentries : ¬ ∀ entry ∈ entries, entry.commandType.known := fun hall =>
        h (List.forall_mem_cons.mpr ⟨hknown, hall⟩)
      rw [if_pos rfl, ih _ hentries]
      rfl

/-! ## All or nothing -/

/-- The batch is applied, every entry of it, and each has a result; or `apply` throws and the app is
as before. -/
def AllOrNothing (app : CounterApp) (counterLogEntries : CounterLogEntries) (logId : Int) : Prop :=
  match app.apply counterLogEntries logId with
  | (app', .ok counterValues) =>
    app'.lookup = counterLogEntries.foldl addEntry app.lookup ∧ app'.lastAppliedEntry = logId ∧
      counterValues.map (·.key) = counterLogEntries.map (·.key)
  | (app', .error _) => app'.lookup = app.lookup ∧ app'.lastAppliedEntry = app.lastAppliedEntry

/-- A batch that throws has changed nothing exactly if nothing was to be seen of it. -/
theorem applyEntries_eq_iff : (applyEntries lookup entries).1 = lookup ↔
    ∀ key ∈ touched entries, lookup.find? key ≠ none ∧ added key entries = 0 := by
  constructor
  · intro h key hkey
    have hfind := find?_applyEntries lookup entries key
    rw [h, if_pos hkey] at hfind
    refine ⟨fun hnone => ?_, ?_⟩
    · rw [hnone] at hfind
      cases hfind
    · have hvalue : valueAt lookup key = valueAt lookup key + added key entries := by
        conv_lhs => unfold valueAt
        rw [hfind]
        rfl
      exact Int64.add_eq_left.mp hvalue.symm
  · intro h
    refine SortedMap.ext_find? fun key => ?_
    rw [find?_applyEntries]
    by_cases hkey : key ∈ touched entries
    · obtain ⟨hsome, hzero⟩ := h key hkey
      rw [if_pos hkey, hzero, Int64.add_zero]
      unfold valueAt
      cases hfind : lookup.find? key with
      | none => exact absurd hfind hsome
      | some value => rfl
    · rw [if_neg hkey]

/-- **A batch is atomic exactly if** it has no unknown command, or every key it touches up to the
first one was there and has nothing added to it. -/
theorem apply_allOrNothing_iff (app : CounterApp) (counterLogEntries : CounterLogEntries)
    (logId : Int) :
    app.AllOrNothing counterLogEntries logId ↔
      (∀ entry ∈ counterLogEntries, entry.commandType.known) ∨
      ∀ key ∈ touched counterLogEntries,
        app.lookup.find? key ≠ none ∧ added key counterLogEntries = 0 := by
  unfold AllOrNothing apply
  by_cases hknown : ∀ entry ∈ counterLogEntries, entry.commandType.known
  · obtain ⟨counterValues, happly, hkeys⟩ := applyEntries_of_known app.lookup hknown
    rw [happly]
    exact iff_of_true ⟨rfl, rfl, hkeys⟩ (.inl hknown)
  · have herror := applyEntries_of_unknown app.lookup hknown
    have heq : (applyEntries app.lookup counterLogEntries).1 = app.lookup ↔ _ := applyEntries_eq_iff
    rcases happly : applyEntries app.lookup counterLogEntries with ⟨lookup, result⟩
    rw [happly] at herror heq
    dsimp only at herror heq ⊢
    rw [herror]
    dsimp only
    rw [eq_self, and_true, heq, or_iff_right hknown]

/-- Two keys, with an unknown command for the second: the first one has been credited, and the batch
has failed. -/
theorem failed_batch_stays :
    ¬ CounterApp.AllOrNothing (freshApp newStore)
      [{ key := "a", val := 5 }, { key := "b", val := 5, commandType := .unknown 2 }] 1 := by
  rintro ⟨hlookup, -⟩
  -- `a` is there, with 5, and so is `b`
  have hentries := congrArg SortedMap.entries hlookup
  exact absurd hentries (List.cons_ne_nil _ _)

end CounterApp

end ReplicatedCounter.Counter
