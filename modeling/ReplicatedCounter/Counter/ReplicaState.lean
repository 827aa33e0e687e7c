import Mathlib.Data.List.Induction
import ReplicatedCounter.Counter.Snapshot

/-!
# Two nodes that have applied the same batches

What a counter node holds should be a function of the batches it has applied, whatever it was asked
in between. The values are. The keys are not: `getValue` reads through `lookup_[key]`, which creates
the key. So a node holds the keys its batches have touched, and **the keys it was asked for**
(`extends_runAll`); two nodes with the same batches hold the same map exactly if they were asked for
the same untouched keys.
-/

set_option autoImplicit false

namespace ReplicatedCounter.Counter

variable {codec : Codec CounterAppSnapshot String} {app app' : CounterApp}

/-! ## Calls -/

/-- A call of one node. -/
inductive AppCall where
  | apply (counterLogEntries : CounterLogEntries) (logId : Int)
  | getValue (key : String)
  | getValues
  | snapshot (snapshotDirectory : String)
  deriving DecidableEq, Repr

/-- The node after a call. -/
def AppCall.run (codec : Codec CounterAppSnapshot String) (app : CounterApp) : AppCall → CounterApp
  | .apply counterLogEntries logId => (app.apply counterLogEntries logId).1
  | .getValue key => (app.getValue key).1
  | .getValues => app
  | .snapshot snapshotDirectory => (app.snapshot codec snapshotDirectory).1

/-- The node after some calls. -/
def runAll (codec : Codec CounterAppSnapshot String) (app : CounterApp) (calls : List AppCall) :
    CounterApp :=
  calls.foldl (AppCall.run codec) app

/-- The batches that were applied. -/
def applied (calls : List AppCall) : List CounterLogEntries :=
  calls.filterMap fun
    | .apply counterLogEntries _ => some counterLogEntries
    | _ => none

/-- The keys that `getValue` was asked for. -/
def asked (calls : List AppCall) : List String :=
  calls.filterMap fun
    | .getValue key => some key
    | _ => none

/-- The keys a batch touches: those of its entries, up to the one that makes `apply` throw. -/
def touched : CounterLogEntries → List String
  | [] => []
  | entry :: entries =>
    match entry.commandType with
    | .unknown _ => [entry.key]
    | _ => entry.key :: touched entries

/-- The values map in the store behind a node, once it has taken a snapshot. -/
def storedValues (codec : Codec CounterAppSnapshot String) (app : CounterApp)
    (snapshotDirectory : String) : Option (SortedMap String Int64) :=
  ((app.snapshot codec snapshotDirectory).1.kvStore.get "COUNTER_APP_SNAPSHOT").bind fun value =>
    (codec.parse value).map (·.values)

theorem storedValues_eq (app : CounterApp) (snapshotDirectory : String) :
    storedValues codec app snapshotDirectory = some app.lookup := by
  have hget : (app.snapshot codec snapshotDirectory).1.kvStore.get "COUNTER_APP_SNAPSHOT" =
      some (codec.serialize { logId := app.lastAppliedEntry, values := app.lookup }) := by
    simp [CounterApp.snapshot, RocksStore.put, RocksStore.flushWal, RocksStore.get]
  unfold storedValues
  rw [hget, Option.bind_some, codec.parse_serialize]
  rfl

/-! ## The batches alone -/

/-- The map that the batches alone make. -/
def replayBatches (batches : List CounterLogEntries) : SortedMap String Int64 :=
  batches.foldl (fun lookup entries => (CounterApp.applyEntries lookup entries).1) .empty

theorem replayBatches_concat (batches : List CounterLogEntries) (entries : CounterLogEntries) :
    replayBatches (batches ++ [entries]) =
      (CounterApp.applyEntries (replayBatches batches) entries).1 := by
  unfold replayBatches
  rw [List.foldl_append]
  rfl

theorem apply_lookup (app : CounterApp) (entries : CounterLogEntries) (logId : Int) :
    (app.apply entries logId).1.lookup = (CounterApp.applyEntries app.lookup entries).1 := by
  unfold CounterApp.apply
  rcases CounterApp.applyEntries app.lookup entries with ⟨lookup, _ | _⟩ <;> rfl

/-- `lookup` is `base` with some keys more, all at 0 where `base` has none. -/
def Extends (lookup base : SortedMap String Int64) (keys : List String) : Prop :=
  ∀ key, lookup.find? key =
    if key ∈ keys then some (CounterApp.valueAt base key) else base.find? key

section Extends

variable {lookup base : SortedMap String Int64} {keys : List String}

theorem Extends.valueAt (h : Extends lookup base keys) (key : String) :
    CounterApp.valueAt lookup key = CounterApp.valueAt base key := by
  unfold CounterApp.valueAt
  rw [h key]
  by_cases hkey : key ∈ keys
  · rw [if_pos hkey]
    rfl
  · rw [if_neg hkey]

theorem Extends.insert (h : Extends lookup base keys) (key : String) (val : Int64) :
    Extends (lookup.insert key val) (base.insert key val) keys := by
  intro k
  unfold CounterApp.valueAt
  rw [SortedMap.find?_insert, SortedMap.find?_insert]
  by_cases hk : k = key
  · rw [if_pos hk, if_pos hk]
    simp
  · rw [if_neg hk, if_neg hk]
    exact h k

/-- An entry adds to both maps what it adds, and throws on both or on neither. -/
theorem Extends.applyEntry (h : Extends lookup base keys) (entry : CounterLogEntry) :
    Extends (CounterApp.applyEntry lookup entry).1 (CounterApp.applyEntry base entry).1 keys ∧
      (CounterApp.applyEntry lookup entry).2 = (CounterApp.applyEntry base entry).2 := by
  unfold CounterApp.applyEntry
  dsimp only
  rw [h.valueAt entry.key]
  cases entry.commandType with
  | incr => exact ⟨h.insert _ _, rfl⟩
  | decr => exact ⟨h.insert _ _, rfl⟩
  | unknown value => exact ⟨h.insert _ _, rfl⟩

theorem Extends.applyEntries (h : Extends lookup base keys) (entries : CounterLogEntries) :
    Extends (CounterApp.applyEntries lookup entries).1 (CounterApp.applyEntries base entries).1
      keys := by
  induction entries generalizing lookup base with
  | nil => exact h
  | cons entry entries ih =>
    obtain ⟨hlookup, hanswer⟩ := h.applyEntry entry
    unfold CounterApp.applyEntries
    rcases hl : CounterApp.applyEntry lookup entry with ⟨lookup', answer⟩
    rcases hb : CounterApp.applyEntry base entry with ⟨base', answer'⟩
    rw [hl, hb] at hlookup hanswer
    dsimp only at hlookup hanswer
    subst hanswer
    cases answer with
    | error e => exact hlookup
    | ok counterValue => exact ih hlookup

/-- `lookup_[key]`. -/
theorem Extends.getValue (h : Extends lookup base keys) (key : String) :
    Extends (lookup.insert key (CounterApp.valueAt lookup key)) base (keys ++ [key]) := by
  intro k
  rw [SortedMap.find?_insert, h.valueAt key]
  by_cases hk : k = key
  · rw [if_pos hk, if_pos (by simp [hk]), hk]
  · rw [if_neg hk, h k]
    simp [hk]

end Extends

/-- **What a node holds**: what its batches have made, and the keys it was asked for. -/
theorem extends_runAll (codec : Codec CounterAppSnapshot String) (kvStore : RocksStore String)
    (calls : List AppCall) :
    Extends (runAll codec (freshApp kvStore) calls).lookup (replayBatches (applied calls))
      (asked calls) := by
  induction calls using List.reverseRecOn with
  | nil =>
    intro key
    simp [runAll, applied, asked, replayBatches, freshApp]
  | append_singleton calls call ih =>
    have hrun : runAll codec (freshApp kvStore) (calls ++ [call]) =
        call.run codec (runAll codec (freshApp kvStore) calls) := by
      unfold runAll
      rw [List.foldl_append]
      rfl
    rw [hrun]
    unfold applied asked at *
    rw [List.filterMap_append, List.filterMap_append]
    cases call with
    | apply entries logId =>
      show Extends (CounterApp.apply _ entries logId).1.lookup (replayBatches (_ ++ [entries]))
        (_ ++ [])
      rw [apply_lookup, replayBatches_concat, List.append_nil]
      exact ih.applyEntries entries
    | getValue key =>
      show Extends (SortedMap.insert _ key _) (replayBatches (_ ++ [])) (_ ++ [key])
      rw [List.append_nil]
      exact ih.getValue key
    | getValues =>
      show Extends _ (replayBatches (_ ++ [])) (_ ++ [])
      rw [List.append_nil, List.append_nil]
      exact ih
    | snapshot snapshotDirectory =>
      show Extends _ (replayBatches (_ ++ [])) (_ ++ [])
      rw [List.append_nil, List.append_nil]
      exact ih

/-! ## Which keys the batches make -/

theorem find?_applyEntry_eq_none {lookup : SortedMap String Int64} {entry : CounterLogEntry}
    {key : String} :
    (CounterApp.applyEntry lookup entry).1.find? key = none ↔
      lookup.find? key = none ∧ key ≠ entry.key := by
  have hinsert : ∀ val, (lookup.insert entry.key val).find? key = none ↔
      lookup.find? key = none ∧ key ≠ entry.key := by
    intro val
    rw [SortedMap.find?_insert]
    by_cases hkey : key = entry.key
    · simp [hkey]
    · simp [hkey]
  unfold CounterApp.applyEntry
  cases entry.commandType with
  | incr => exact hinsert _
  | decr => exact hinsert _
  | unknown value => exact hinsert _

theorem find?_applyEntries_eq_none {lookup : SortedMap String Int64} {entries : CounterLogEntries}
    {key : String} :
    (CounterApp.applyEntries lookup entries).1.find? key = none ↔
      lookup.find? key = none ∧ key ∉ touched entries := by
  induction entries generalizing lookup with
  | nil => simp [CounterApp.applyEntries, touched]
  | cons entry entries ih =>
    have hentry := @find?_applyEntry_eq_none lookup entry key
    unfold CounterApp.applyEntries touched
    -- only an unknown command ends the batch here
    cases hcommand : entry.commandType with
    | unknown value =>
      simp only [CounterApp.applyEntry, hcommand] at hentry ⊢
      rw [hentry, List.mem_singleton]
    | incr =>
      simp only [CounterApp.applyEntry, hcommand] at hentry ⊢
      rw [ih, hentry, List.mem_cons, not_or, and_assoc]
    | decr =>
      simp only [CounterApp.applyEntry, hcommand] at hentry ⊢
      rw [ih, hentry, List.mem_cons, not_or, and_assoc]

theorem find?_replayBatches_eq_none {batches : List CounterLogEntries} {key : String} :
    (replayBatches batches).find? key = none ↔ ∀ batch ∈ batches, key ∉ touched batch := by
  induction batches using List.reverseRecOn with
  | nil => simp [replayBatches]
  | append_singleton batches batch ih =>
    rw [replayBatches_concat, find?_applyEntries_eq_none, ih]
    simp only [List.mem_append, List.mem_singleton, or_imp, forall_and, forall_eq]

/-! ## Two nodes -/

/-- Two maps over the same base are equal exactly if they have the same keys more. -/
theorem Extends.eq_iff {lookup lookup' base : SortedMap String Int64} {keys keys' : List String}
    (h : Extends lookup base keys) (h' : Extends lookup' base keys') :
    lookup = lookup' ↔ ∀ key, base.find? key = none → (key ∈ keys ↔ key ∈ keys') := by
  constructor
  · rintro rfl key hnone
    have hfind := (h key).symm.trans (h' key)
    rw [hnone] at hfind
    by_cases hkey : key ∈ keys <;> by_cases hkey' : key ∈ keys' <;> simp_all
  · intro hkeys
    apply SortedMap.ext_find?
    intro key
    rw [h key, h' key]
    cases hbase : base.find? key with
    | none => simp only [hkeys key hbase]
    | some val => simp [CounterApp.valueAt, hbase]

/-- **Two nodes that have applied the same batches hold the same map exactly if they were asked for
the same untouched keys**: what `getValues` answers, and what a snapshot leaves in the store. -/
theorem getValues_eq_iff (kvStore kvStore' : RocksStore String) (calls calls' : List AppCall)
    (hsame : applied calls = applied calls') :
    ((runAll codec (freshApp kvStore) calls).getValues =
        (runAll codec (freshApp kvStore') calls').getValues ∧
      ∀ snapshotDirectory snapshotDirectory',
        storedValues codec (runAll codec (freshApp kvStore) calls) snapshotDirectory =
          storedValues codec (runAll codec (freshApp kvStore') calls') snapshotDirectory') ↔
      ∀ key, (∀ batch ∈ applied calls, key ∉ touched batch) →
        (key ∈ asked calls ↔ key ∈ asked calls') := by
  have h := extends_runAll codec kvStore calls
  have h' := extends_runAll codec kvStore' calls'
  rw [← hsame] at h'
  simp only [storedValues_eq, CounterApp.getValues, Option.some.injEq, forall_const, and_self]
  rw [h.eq_iff h']
  simp only [find?_replayBatches_eq_none]

/-- Two nodes that were asked for a key before and after it was written. -/
theorem getValues_eq_iff_written :
    (runAll (wireCodec _) (freshApp newStore)
        [.getValue "k", .apply (CounterApp.serialize [.incr "k" 5]) 0]).getValues =
      (runAll (wireCodec _) (freshApp newStore)
        [.apply (CounterApp.serialize [.incr "k" 5]) 0, .snapshot "/tmp"]).getValues := by
  refine ((getValues_eq_iff newStore newStore _ _ rfl).mpr fun key hkey => ?_).1
  have hne : key ≠ "k" := by
    have := hkey (CounterApp.serialize [.incr "k" 5]) (List.mem_singleton_self _)
    simpa [touched, CounterApp.serialize, CounterApp.toEntry] using this
  simp [asked, hne]

/-- **Asking for a key is enough to tell two nodes apart.** Neither has applied anything. -/
theorem getValues_ne_asked :
    applied [.getValue "k"] = applied [] ∧
      (runAll (wireCodec _) (freshApp newStore) [.getValue "k"]).getValues.entries = [("k", 0)] ∧
      (runAll (wireCodec _) (freshApp newStore) []).getValues.entries = [] ∧
      storedValues (wireCodec _) (runAll (wireCodec _) (freshApp newStore) [.getValue "k"]) "/tmp" ≠
        storedValues (wireCodec _) (runAll (wireCodec _) (freshApp newStore) []) "/tmp" := by
  refine ⟨rfl, rfl, rfl, ?_⟩
  rw [storedValues_eq, storedValues_eq]
  intro h
  have hentries := congrArg SortedMap.entries (Option.some.inj h)
  exact absurd hentries (List.cons_ne_nil _ _)

end ReplicatedCounter.Counter
