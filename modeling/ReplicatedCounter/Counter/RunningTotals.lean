import Mathlib.Algebra.BigOperators.Group.List.Basic
import Mathlib.Algebra.Ring.Int.Defs
import ReplicatedCounter.Counter.Snapshot

/-!
# The values that come back

As long as no counter leaves the range of `int64`, the value that comes back for an operation is what
the key had at first and everything that has been added to it since, up to and including this
operation, as integers. It makes no difference how the operations are cut into batches, so a batch
returns what its operations return when they are called one by one.

`Totals` says this of some operations, and `Totals.append` puts two such runs together; a batch is
made of its operations by it, and a run of its batches.
-/

set_option autoImplicit false

namespace ReplicatedCounter.Counter

/-! ## Operations on integers -/

def Operation.key : Operation → String
  | .incr key _ => key
  | .decr key _ => key

/-- What an operation adds to its key, as an integer. -/
def Operation.amount : Operation → Int
  | .incr _ incrBy => incrBy.toInt
  | .decr _ decrBy => -decrBy.toInt

/-- What some operations add to a key, as an integer. -/
def runningTotal (key : String) (ops : List Operation) : Int :=
  ((ops.filter (·.key = key)).map Operation.amount).sum

theorem runningTotal_append (key : String) (ops ops' : List Operation) :
    runningTotal key (ops ++ ops') = runningTotal key ops + runningTotal key ops' := by
  unfold runningTotal
  rw [List.filter_append, List.map_append, List.sum_append]

theorem runningTotal_singleton (key : String) (op : Operation) :
    runningTotal key [op] = if op.key = key then op.amount else 0 := by
  unfold runningTotal
  by_cases hkey : op.key = key <;> simp [hkey]

/-- No running total leaves the range of `int64`. -/
def InRange (lookup : SortedMap String Int64) (ops : List Operation) : Prop :=
  ∀ i op, ops[i]? = some op →
    -2 ^ 63 ≤ (CounterApp.valueAt lookup op.key).toInt + runningTotal op.key (ops.take (i + 1)) ∧
      (CounterApp.valueAt lookup op.key).toInt + runningTotal op.key (ops.take (i + 1)) < 2 ^ 63

/-- Some operations take `lookup` to `lookup'` and answer `values`, in their order: each key with its
running total. -/
structure Totals (lookup : SortedMap String Int64) (ops : List Operation)
    (lookup' : SortedMap String Int64) (values : List CounterKeyValue) : Prop where
  keys : values.map (·.key) = ops.map Operation.key
  running : ∀ i value, values[i]? = some value → value.val.toInt =
    (CounterApp.valueAt lookup value.key).toInt + runningTotal value.key (ops.take (i + 1))
  total : ∀ key, (CounterApp.valueAt lookup' key).toInt =
    (CounterApp.valueAt lookup key).toInt + runningTotal key ops
  created : ∀ key, lookup'.find? key = none ↔ lookup.find? key = none ∧ key ∉ ops.map Operation.key

variable {lookup lookup₁ lookup₂ : SortedMap String Int64} {ops ops' : List Operation}
  {values values' : List CounterKeyValue}

theorem totals_nil : Totals lookup [] lookup [] where
  keys := rfl
  running _ _ h := nomatch h
  total _ := (Int.add_zero _).symm
  created _ := (and_iff_left List.not_mem_nil).symm

theorem Totals.length_eq (h : Totals lookup ops lookup₁ values) : values.length = ops.length := by
  have := congrArg List.length h.keys
  rwa [List.length_map, List.length_map] at this

/-- **Two runs one after the other.** -/
theorem Totals.append (h : Totals lookup ops lookup₁ values) (h' : Totals lookup₁ ops' lookup₂ values') :
    Totals lookup (ops ++ ops') lookup₂ (values ++ values') where
  keys := by rw [List.map_append, List.map_append, h.keys, h'.keys]
  running i value hvalue := by
    rcases lt_or_ge i values.length with hlt | hge
    · rw [List.getElem?_append_left hlt] at hvalue
      rw [List.take_append_of_le_length (by rw [← h.length_eq]; exact hlt)]
      exact h.running i value hvalue
    · rw [List.getElem?_append_right hge] at hvalue
      have htake : (ops ++ ops').take (i + 1) = ops ++ ops'.take (i - values.length + 1) := by
        rw [List.take_append, List.take_of_length_le (by rw [← h.length_eq]; omega), ← h.length_eq,
          Nat.sub_add_comm hge]
      rw [h'.running _ value hvalue, h.total, htake, runningTotal_append, Int.add_assoc]
  total key := by rw [h'.total, h.total, runningTotal_append, Int.add_assoc]
  created key := by
    rw [h'.created, h.created, List.map_append, List.mem_append, not_or, and_assoc]

/-- What is in range stays so when some of it is done. -/
theorem InRange.drop (hrange : InRange lookup (ops ++ ops')) (h : Totals lookup ops lookup₁ values) :
    InRange lookup₁ ops' := by
  intro i op hop
  have hindex : (ops ++ ops')[ops.length + i]? = some op := by
    rw [List.getElem?_append_right (Nat.le_add_right _ _), Nat.add_sub_cancel_left]
    exact hop
  have hbounds := hrange _ op hindex
  rwa [Nat.add_assoc, List.take_length_add_append, runningTotal_append, ← Int.add_assoc, ← h.total]
    at hbounds

theorem InRange.take (hrange : InRange lookup (ops ++ ops')) : InRange lookup ops := by
  intro i op hop
  have hlt : i < ops.length := (List.getElem?_eq_some_iff.mp hop).1
  have hbounds := hrange i op (by rw [List.getElem?_append_left hlt]; exact hop)
  rwa [List.take_append_of_le_length hlt] at hbounds

/-! ## One operation, one batch, many batches -/

theorem totals_insert (op : Operation) {val : Int64}
    (h : val.toInt = (CounterApp.valueAt lookup op.key).toInt + op.amount) :
    Totals lookup [op] (lookup.insert op.key val) [⟨op.key, val⟩] where
  keys := rfl
  running i value hvalue := by
    cases i with
    | zero =>
      obtain rfl := Option.some.inj hvalue
      show val.toInt = (CounterApp.valueAt lookup op.key).toInt + runningTotal op.key [op]
      rw [h, runningTotal_singleton, if_pos rfl]
    | succ i => cases hvalue
  total key := by
    rw [runningTotal_singleton]
    by_cases hkey : op.key = key
    · subst hkey
      rw [if_pos rfl, ← h]
      unfold CounterApp.valueAt
      rw [SortedMap.find?_insert, if_pos rfl]
      rfl
    · rw [if_neg hkey, Int.add_zero]
      unfold CounterApp.valueAt
      rw [SortedMap.find?_insert, if_neg (Ne.symm hkey)]
  created key := by
    rw [SortedMap.find?_insert, List.map_singleton, List.mem_singleton]
    by_cases hkey : key = op.key <;> simp [hkey]

theorem applyEntry_totals {op : Operation} (hrange : InRange lookup [op]) :
    ∃ lookup' value, CounterApp.applyEntry lookup (CounterApp.toEntry op) = (lookup', .ok value) ∧
      Totals lookup [op] lookup' [value] := by
  have hop := hrange 0 op rfl
  rw [List.take_of_length_le (le_refl 1), runningTotal_singleton, if_pos rfl] at hop
  obtain ⟨hlower, hupper⟩ := hop
  cases op with
  | incr key incrBy =>
    refine ⟨_, _, rfl, totals_insert (.incr key incrBy) ?_⟩
    change -2 ^ 63 ≤ (CounterApp.valueAt lookup key).toInt + incrBy.toInt at hlower
    change (CounterApp.valueAt lookup key).toInt + incrBy.toInt < 2 ^ 63 at hupper
    show (CounterApp.valueAt lookup key + incrBy).toInt = _
    rw [Int64.toInt_add]
    exact Int.bmod_eq_of_le (by omega) (by omega)
  | decr key decrBy =>
    refine ⟨_, _, rfl, totals_insert (.decr key decrBy) ?_⟩
    change -2 ^ 63 ≤ (CounterApp.valueAt lookup key).toInt + -decrBy.toInt at hlower
    change (CounterApp.valueAt lookup key).toInt + -decrBy.toInt < 2 ^ 63 at hupper
    show (CounterApp.valueAt lookup key - decrBy).toInt = _
    rw [Int64.toInt_sub]
    exact Int.bmod_eq_of_le (by omega) (by omega)

/-- **A batch is its operations, one after the other.** -/
theorem applyEntries_totals (hrange : InRange lookup ops) :
    ∃ lookup' values,
      CounterApp.applyEntries lookup (CounterApp.serialize ops) = (lookup', .ok values) ∧
      Totals lookup ops lookup' values := by
  induction ops generalizing lookup with
  | nil => exact ⟨lookup, [], rfl, totals_nil⟩
  | cons op ops ih =>
    have hsplit : InRange lookup ([op] ++ ops) := hrange
    obtain ⟨lookup₁, value, hentry, htotals⟩ := applyEntry_totals hsplit.take
    obtain ⟨lookup₂, values, hentries, htotals'⟩ := ih (hsplit.drop htotals)
    refine ⟨lookup₂, value :: values, ?_, htotals.append htotals'⟩
    unfold CounterApp.serialize at hentries ⊢
    rw [List.map_cons, CounterApp.applyEntries, hentry]
    dsimp only
    rw [hentries]
    rfl

theorem applyEntries_append {entries entries' : CounterLogEntries}
    (h : CounterApp.applyEntries lookup entries = (lookup₁, .ok values)) :
    CounterApp.applyEntries lookup (entries ++ entries') =
      ((CounterApp.applyEntries lookup₁ entries').1,
        (CounterApp.applyEntries lookup₁ entries').2.map (values ++ ·)) := by
  induction entries generalizing lookup values with
  | nil =>
    obtain ⟨rfl, hvalues⟩ := Prod.mk.inj h
    obtain rfl := Except.ok.inj hvalues
    rw [List.nil_append]
    rcases CounterApp.applyEntries lookup entries' with ⟨_, _ | _⟩ <;> rfl
  | cons entry entries ih =>
    rw [CounterApp.applyEntries] at h
    rw [List.cons_append, CounterApp.applyEntries]
    rcases hentry : CounterApp.applyEntry lookup entry with ⟨lookup', message | value⟩
    · rw [hentry] at h
      cases h
    · rw [hentry] at h
      dsimp only at h ⊢
      rcases hentries : CounterApp.applyEntries lookup' entries with ⟨lookup'', message | values'⟩
      · rw [hentries] at h
        cases h
      · rw [hentries] at h
        obtain ⟨rfl, hvalues⟩ := Prod.mk.inj h
        obtain rfl := Except.ok.inj hvalues
        rw [ih hentries]
        rcases CounterApp.applyEntries lookup'' entries' with ⟨_, _ | _⟩ <;> rfl

variable {entriesCodec : Codec CounterLogEntries String}
  {logTrimApplicator : LogTrimEntry → Except String Unit} {app : CounterApp}

/-- What a call of `append` does with operations: they are applied, and their values come back. -/
theorem append_serialize {lookup' : SortedMap String Int64}
    (h : CounterApp.applyEntries app.lookup (CounterApp.serialize ops) = (lookup', .ok values)) :
    CounterAppStateMachine.append entriesCodec logTrimApplicator app (CounterApp.serialize ops) =
      ({ app with lookup := lookup', lastAppliedEntry := 0 }, .ok values) := by
  unfold CounterAppStateMachine.append LogTrimStateMachine.apply CounterAppStateMachine.logEntry
    CounterApplicator.apply
  dsimp only
  rw [entriesCodec.parse_serialize]
  unfold CounterApp.apply
  dsimp only
  rw [h]
  rfl

namespace CounterApp

/-- Batches, one after the other. -/
def batchUpdates (entriesCodec : Codec CounterLogEntries String)
    (logTrimApplicator : LogTrimEntry → Except String Unit) (app : CounterApp) :
    List (List Operation) → CounterApp × List (Except String (List CounterKeyValue))
  | [] => (app, [])
  | operations :: batches =>
    let (app, result) := app.batchUpdate entriesCodec logTrimApplicator operations
    let (app, results) := batchUpdates entriesCodec logTrimApplicator app batches
    (app, result :: results)

/-- `incrementAndGet` or `decrementAndGet`. -/
def updateAndGet (entriesCodec : Codec CounterLogEntries String)
    (logTrimApplicator : LogTrimEntry → Except String Unit) (app : CounterApp) :
    Operation → CounterApp × Except String Int64
  | .incr key incrBy => app.incrementAndGet entriesCodec logTrimApplicator key incrBy
  | .decr key decrBy => app.decrementAndGet entriesCodec logTrimApplicator key decrBy

/-- Operations, one after the other. -/
def updateAndGets (entriesCodec : Codec CounterLogEntries String)
    (logTrimApplicator : LogTrimEntry → Except String Unit) (app : CounterApp) :
    List Operation → CounterApp × List (Except String Int64)
  | [] => (app, [])
  | op :: ops =>
    let (app, result) := app.updateAndGet entriesCodec logTrimApplicator op
    let (app, results) := updateAndGets entriesCodec logTrimApplicator app ops
    (app, result :: results)

end CounterApp

variable (entriesCodec logTrimApplicator) in
theorem updateAndGet_totals {op : Operation} (hrange : InRange app.lookup [op]) :
    ∃ app' value, app.updateAndGet entriesCodec logTrimApplicator op = (app', .ok value.val) ∧
      CounterApp.applyEntry app.lookup (CounterApp.toEntry op) = (app'.lookup, .ok value) ∧
      Totals app.lookup [op] app'.lookup [value] := by
  obtain ⟨lookup', value, hentry, htotals⟩ := applyEntry_totals hrange
  have happly : CounterApp.applyEntries app.lookup (CounterApp.serialize [op]) =
      (lookup', .ok [value]) := by
    unfold CounterApp.serialize
    rw [List.map_singleton, CounterApp.applyEntries, hentry]
    rfl
  refine ⟨{ app with lookup := lookup', lastAppliedEntry := 0 }, value, ?_, hentry, htotals⟩
  cases op with
  | incr key incrBy =>
    unfold CounterApp.updateAndGet CounterApp.incrementAndGet
    dsimp only
    rw [append_serialize happly]
    rfl
  | decr key decrBy =>
    unfold CounterApp.updateAndGet CounterApp.decrementAndGet
    dsimp only
    rw [append_serialize happly]
    rfl

variable (entriesCodec logTrimApplicator) in
/-- **One by one, operations return what they return in a batch.** -/
theorem updateAndGets_totals (hrange : InRange app.lookup ops) :
    ∃ app' values,
      CounterApp.applyEntries app.lookup (CounterApp.serialize ops) = (app'.lookup, .ok values) ∧
      app.updateAndGets entriesCodec logTrimApplicator ops =
        (app', values.map fun value => .ok value.val) := by
  induction ops generalizing app with
  | nil => exact ⟨app, [], rfl, rfl⟩
  | cons op ops ih =>
    have hsplit : InRange app.lookup ([op] ++ ops) := hrange
    obtain ⟨app₁, value, hupdate, hentry, htotals⟩ :=
      updateAndGet_totals entriesCodec logTrimApplicator hsplit.take
    obtain ⟨app₂, values, hentries, hupdates⟩ := ih (hsplit.drop htotals)
    refine ⟨app₂, value :: values, ?_, ?_⟩
    · unfold CounterApp.serialize at hentries ⊢
      rw [List.map_cons, CounterApp.applyEntries, hentry]
      dsimp only
      rw [hentries]
      rfl
    · unfold CounterApp.updateAndGets
      rw [hupdate]
      dsimp only
      rw [hupdates]
      rfl

/-- What batches return and leave behind: each operation's key with its running total, in the order
of the operations, and every key's total in the map. -/
structure BatchTotals (lookup : SortedMap String Int64) (batches : List (List Operation))
    (lookup' : SortedMap String Int64) (results : List (List CounterKeyValue)) : Prop where
  keys : results.map (·.map (·.key)) = batches.map (·.map Operation.key)
  running : ∀ j ops values, batches[j]? = some ops → results[j]? = some values →
    ∀ i value, values[i]? = some value → value.val.toInt =
      (CounterApp.valueAt lookup value.key).toInt +
        runningTotal value.key ((batches.take j).flatten ++ ops.take (i + 1))
  total : ∀ key, (CounterApp.valueAt lookup' key).toInt =
    (CounterApp.valueAt lookup key).toInt + runningTotal key batches.flatten
  created : ∀ key, lookup'.find? key = none ↔
    lookup.find? key = none ∧ key ∉ batches.flatten.map Operation.key

theorem Totals.cons {batches : List (List Operation)} {results : List (List CounterKeyValue)}
    (h : Totals lookup ops lookup₁ values) (h' : BatchTotals lookup₁ batches lookup₂ results) :
    BatchTotals lookup (ops :: batches) lookup₂ (values :: results) where
  keys := by rw [List.map_cons, List.map_cons, h.keys, h'.keys]
  running j ops' values' hops hvalues i value hvalue := by
    cases j with
    | zero =>
      obtain rfl := Option.some.inj hops
      obtain rfl := Option.some.inj hvalues
      exact h.running i value hvalue
    | succ j =>
      rw [h'.running j ops' values' hops hvalues i value hvalue, h.total, List.take_succ_cons,
        List.flatten_cons, List.append_assoc, runningTotal_append _ ops, Int.add_assoc]
  total key := by rw [h'.total, h.total, List.flatten_cons, runningTotal_append, Int.add_assoc]
  created key := by
    rw [h'.created, h.created, List.flatten_cons, List.map_append, List.mem_append, not_or, and_assoc]

theorem batchUpdates_totals {batches : List (List Operation)}
    (hrange : InRange app.lookup batches.flatten) :
    ∃ app' results,
      app.batchUpdates entriesCodec logTrimApplicator batches = (app', results.map .ok) ∧
      BatchTotals app.lookup batches app'.lookup results ∧
      CounterApp.applyEntries app.lookup (CounterApp.serialize batches.flatten) =
        (app'.lookup, .ok results.flatten) := by
  induction batches generalizing app with
  | nil =>
    refine ⟨app, [], rfl, { keys := rfl, running := ?_, total := ?_, created := ?_ }, rfl⟩
    · intro j ops values hops
      cases hops
    · intro key
      exact (Int.add_zero _).symm
    · intro key
      exact (and_iff_left List.not_mem_nil).symm
  | cons ops batches ih =>
    rw [List.flatten_cons] at hrange
    obtain ⟨lookup₁, values, happly, htotals⟩ := applyEntries_totals hrange.take
    obtain ⟨app₂, results, hupdates, hbatches, hentries⟩ :=
      @ih { app with lookup := lookup₁, lastAppliedEntry := 0 } (hrange.drop htotals)
    refine ⟨app₂, values :: results, ?_, htotals.cons hbatches, ?_⟩
    · unfold CounterApp.batchUpdates CounterApp.batchUpdate
      rw [append_serialize happly]
      dsimp only
      rw [hupdates]
      rfl
    · unfold CounterApp.serialize at happly hentries ⊢
      rw [List.flatten_cons, List.map_append, applyEntries_append happly, hentries]
      rfl

/-- **Counters return running totals**, in batches or one by one. -/
theorem batchUpdates_running_totals (entriesCodec : Codec CounterLogEntries String)
    (logTrimApplicator : LogTrimEntry → Except String Unit) (app : CounterApp)
    (batches : List (List Operation)) (hrange : InRange app.lookup batches.flatten) :
    ∃ app' results,
      app.batchUpdates entriesCodec logTrimApplicator batches = (app', results.map .ok) ∧
      BatchTotals app.lookup batches app'.lookup results ∧
      (app.updateAndGets entriesCodec logTrimApplicator batches.flatten).2 =
        results.flatten.map (fun value => .ok value.val) ∧
      (app.updateAndGets entriesCodec logTrimApplicator batches.flatten).1.lookup = app'.lookup := by
  obtain ⟨app', results, hupdates, htotals, hentries⟩ := batchUpdates_totals hrange
  obtain ⟨app'', values, hentries', hone⟩ := updateAndGets_totals entriesCodec
    logTrimApplicator hrange
  rw [hentries] at hentries'
  obtain ⟨hlookup, hvalues⟩ := Prod.mk.inj hentries'
  obtain rfl := Except.ok.inj hvalues
  rw [hone]
  exact ⟨app', results, hupdates, htotals, rfl, hlookup.symm⟩

/-- Two keys, in two batches. -/
theorem batchUpdates_running_totals_two_keys :
    ∃ app' results,
      (freshApp newStore).batchUpdates (wireCodec _) (fun _ => .ok ())
        [[.incr "a" 5, .decr "a" 8], [.incr "b" 1]] = (app', results.map .ok) ∧
      BatchTotals .empty [[.incr "a" 5, .decr "a" 8], [.incr "b" 1]] app'.lookup results ∧
      ((freshApp newStore).updateAndGets (wireCodec _) (fun _ => .ok ())
        [.incr "a" 5, .decr "a" 8, .incr "b" 1]).2 =
          results.flatten.map (fun value => .ok value.val) ∧
      ((freshApp newStore).updateAndGets (wireCodec _) (fun _ => .ok ())
        [.incr "a" 5, .decr "a" 8, .incr "b" 1]).1.lookup = app'.lookup := by
  refine batchUpdates_running_totals (wireCodec _) (fun _ => .ok ()) (freshApp newStore)
    [[.incr "a" 5, .decr "a" 8], [.incr "b" 1]] fun i op hop => ?_
  match i, hop with
  | 0, hop =>
    obtain rfl := Option.some.inj hop
    decide
  | 1, hop =>
    obtain rfl := Option.some.inj hop
    decide
  | 2, hop =>
    obtain rfl := Option.some.inj hop
    decide

/-! ## Through the log -/

/-- The values of some operations behind others: each key with its running total. -/
def AreTotals (lookup : SortedMap String Int64) (before ops : List Operation)
    (values : List CounterKeyValue) : Prop :=
  values.map (·.key) = ops.map Operation.key ∧
    ∀ k value, values[k]? = some value → value.val.toInt =
      (CounterApp.valueAt lookup value.key).toInt +
        runningTotal value.key (before ++ ops.take (k + 1))

variable (entriesCodec logTrimApplicator) in
/-- A batch in the middle of others: what `append` makes of it on top of those in front. -/
theorem areTotals_of_replayed {log : List (List Operation)} {i : Nat}
    (hrange : InRange app.lookup log.flatten) (hops : log[i]? = some ops) :
    ∃ app' values, LogTrimStateMachine.apply entriesCodec logTrimApplicator
        (replayed entriesCodec logTrimApplicator app (log.take i))
        (CounterAppStateMachine.logEntry entriesCodec (CounterApp.serialize ops)) =
          (app', .ok (.values values)) ∧
      AreTotals app.lookup (log.take i).flatten ops values := by
  induction log generalizing app i with
  | nil => cases hops
  | cons ops₀ log ih =>
    rw [List.flatten_cons] at hrange
    obtain ⟨lookup₁, values₁, happly₁, htotals⟩ := applyEntries_totals hrange.take
    obtain ⟨app₁, values, hentry, -, -, hlookup, -⟩ :=
      apply_logEntry entriesCodec logTrimApplicator app ops₀
    rw [happly₁] at hlookup
    obtain ⟨rfl, hvalues⟩ := Prod.mk.inj hlookup
    obtain rfl := Except.ok.inj hvalues
    cases i with
    | zero =>
      obtain rfl := Option.some.inj hops
      exact ⟨app₁, values₁, hentry, htotals.keys, htotals.running⟩
    | succ i =>
      obtain ⟨app', values, happly, hkeys, hrunning⟩ := ih (hrange.drop htotals) hops
      refine ⟨app', values, ?_, hkeys, fun k value hvalue => ?_⟩
      · rw [← happly]
        unfold replayed StateMachine.VirtualLogStateMachine.replay
        rw [List.take_succ_cons, List.map_cons, List.foldl_cons, hentry]
      · rw [hrunning k value hvalue, htotals.total, List.take_succ_cons, List.flatten_cons,
          List.append_assoc, runningTotal_append _ ops₀, Int.add_assoc]

/-- **What a caller gets back**, whoever else appends and however the loops of the node run: the
values of its entry of the log, which are the running totals up to it. -/
theorem Drives.returned_totals {log : List (List Operation)}
    {m : StateMachine.VirtualLogStateMachine CounterApp LogEntry ReturnType}
    (h : Drives entriesCodec logTrimApplicator log app m)
    (hrange : InRange app.lookup log.flatten) {c : StateMachine.Waiter} {result : ReturnType}
    (hresult : (c, some result) ∈ m.returned) :
    ∃ (i : Nat) (ops : List Operation) (values : List CounterKeyValue),
      ((i + 1 : Int), c) ∈ m.appends ++ m.syncs ∧ log[i]? = some ops ∧ result = .values values ∧
      AreTotals app.lookup (log.take i).flatten ops values := by
  obtain ⟨-, hids, hlogs⟩ := h.applied_eq
  obtain ⟨a, ha, haresult, hcall⟩ := h.answered.returned c result hresult
  obtain ⟨i, hlt, rfl⟩ := List.getElem_of_mem ha
  have hget := List.getElem?_eq_getElem hlt
  -- the entry is the one at its place in the log
  have hid : (m.applied[i]).logId = (i : Int) + 1 := by
    have hmap : (m.applied.map (·.logId))[i]? = some (m.applied[i]).logId := by
      rw [List.getElem?_map, hget]
      rfl
    rw [hids] at hmap
    unfold Int.range at hmap
    rw [List.getElem?_map] at hmap
    obtain ⟨j, hj, heq⟩ := Option.map_eq_some_iff.mp hmap
    obtain ⟨hj, rfl⟩ := List.getElem?_eq_some_iff.mp hj
    rw [← heq, List.getElem_range]
    exact Int.add_comm _ _
  have hlog : ((log.take m.lastAppliedLogId.toNat).map fun ops =>
      CounterAppStateMachine.logEntry entriesCodec (CounterApp.serialize ops))[i]? =
        some (m.applied[i]).log := by
    rw [← hlogs, List.getElem?_map, hget]
    rfl
  rw [List.getElem?_map] at hlog
  obtain ⟨ops, hops, hentry⟩ := Option.map_eq_some_iff.mp hlog
  have hbound : i < m.lastAppliedLogId.toNat := by
    have := (List.getElem?_eq_some_iff.mp hops).1
    rw [List.length_take] at this
    omega
  rw [List.getElem?_take_of_lt hbound] at hops
  obtain ⟨app', values, happly, htotals⟩ := areTotals_of_replayed entriesCodec logTrimApplicator
    hrange hops
  have hanswer := h.answered.results i _ hget
  have hreplay : StateMachine.VirtualLogStateMachine.replay
      (LogTrimStateMachine.apply entriesCodec logTrimApplicator) app
      ((m.applied.take i).map (·.log)) =
        replayed entriesCodec logTrimApplicator app (log.take i) := by
    rw [List.map_take, hlogs, ← List.map_take, List.take_take, Nat.min_eq_left hbound.le]
    rfl
  rw [hreplay, ← hentry, happly] at hanswer
  rw [haresult] at hanswer
  obtain rfl := Except.ok.inj hanswer
  rw [hid] at hcall
  exact ⟨i, ops, values, List.mem_append.mpr hcall, hops, rfl, htotals⟩

end ReplicatedCounter.Counter
