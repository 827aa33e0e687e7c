import ReplicatedCounter.Counter.LinearizableReads
import ReplicatedCounter.Counter.RunningTotals

/-!
# What a cluster answers

A call of `incrementAndGet` on some node appends an entry, waits until the node has applied it, and
returns the value that came of it. The entries are ordered by the log, and every node applies them
from the first one on; so all nodes answer from one and the same sequence of updates, and the answer
is the running total up to the entry the call waited for (`answer_totals`).

Whose entry that is, the log does not say here (`Cluster`); that is the subject of `CallerTotals`.
-/

set_option autoImplicit false

namespace ReplicatedCounter.Counter

open StateMachine

variable {log : VirtualLog} {ι : Type} {ls₀ : log.State} {codec : Codec LogEntry String}
  {entriesCodec : Codec CounterLogEntries String}
  {logTrimApplicator : LogTrimEntry → Except String Unit} {hlog : log.AppendOnly ls₀}

/-! ## One node -/

/-- The log begins with these batches. -/
def BeginsWith (hlog : log.AppendOnly ls₀) (codec : Codec LogEntry String)
    (entriesCodec : Codec CounterLogEntries String) (state : log.State)
    (batches : List (List Operation)) : Prop :=
  ∀ (k : Nat) ops, batches[k]? = some ops → hlog.entry codec state (k + 1) =
    some (CounterAppStateMachine.logEntry entriesCodec (CounterApp.serialize ops))

theorem BeginsWith.take {state : log.State} {batches : List (List Operation)}
    (h : BeginsWith hlog codec entriesCodec state batches) (n : Nat) :
    BeginsWith hlog codec entriesCodec state (batches.take n) := by
  intro k ops hops
  rw [List.getElem?_take] at hops
  split at hops
  · exact h k ops hops
  · cases hops

/-- An entry says which operations it is made of. -/
theorem operations_of_logEntry {ops ops' : List Operation}
    (h : CounterAppStateMachine.logEntry entriesCodec (CounterApp.serialize ops) =
      CounterAppStateMachine.logEntry entriesCodec (CounterApp.serialize ops')) : ops = ops' := by
  unfold CounterAppStateMachine.logEntry at h
  have hpayload : entriesCodec.serialize (CounterApp.serialize ops) =
      entriesCodec.serialize (CounterApp.serialize ops') := by simpa using h
  have hentries : CounterApp.serialize ops = CounterApp.serialize ops' := by
    have hparse := congrArg entriesCodec.parse hpayload
    rwa [entriesCodec.parse_serialize, entriesCodec.parse_serialize, Option.some.injEq] at hparse
  refine List.map_injective_iff.mpr (fun op op' hop => ?_) hentries
  cases op <;> cases op' <;> simp_all [CounterApp.toEntry]

/-- **The log begins in one way only.** -/
theorem BeginsWith.prefix {state : log.State} {batches batches' : List (List Operation)}
    (h : BeginsWith hlog codec entriesCodec state batches)
    (h' : BeginsWith hlog codec entriesCodec state batches')
    (hend : hlog.entry codec state (batches'.length + 1) = none) : batches <+: batches' := by
  have hlen : batches.length ≤ batches'.length := by
    by_contra hlt
    push Not at hlt
    rw [h _ _ (List.getElem?_eq_getElem hlt)] at hend
    cases hend
  rw [List.prefix_iff_eq_take]
  refine List.ext_getElem (by simp [hlen]) fun k hk hk' => ?_
  rw [List.getElem_take]
  have hk'' : k < batches'.length := hk.trans_le hlen
  have heq := (h k _ (List.getElem?_eq_getElem hk)).symm.trans
    (h' k _ (List.getElem?_eq_getElem hk''))
  exact operations_of_logEntry (Option.some.inj heq)

variable {kvStore : ι → RocksStore String} {s : CounterCluster log ι} {i : ι}

/-- What a node has applied is the beginning of the log, in batches. -/
theorem exists_batches_applied
    (h : s.Applying hlog (LogTrimStateMachine.apply entriesCodec logTrimApplicator) codec
      (fun i => freshApp (kvStore i)) (FromCounter entriesCodec)) (i : ι) :
    ∃ batches : List (List Operation),
      (s.nodes i).applied.map (·.log) = batches.map (fun ops =>
        CounterAppStateMachine.logEntry entriesCodec (CounterApp.serialize ops)) ∧
      (∀ (k : Nat) (a : Applied LogEntry ReturnType), (s.nodes i).applied[k]? = some a →
        a.logId = k + 1) ∧
      BeginsWith hlog codec entriesCodec s.virtualLog batches := by
  have hids := (h.upToDate (fun u t ht => apply_ok u ht) i).2
  have hplace : ∀ (k : Nat) (a : Applied LogEntry ReturnType),
      (s.nodes i).applied[k]? = some a → a.logId = k + 1 := by
    intro k a ha
    have hmap : ((s.nodes i).applied.map (·.logId))[k]? = some a.logId := by
      rw [List.getElem?_map, ha]
      rfl
    rw [hids] at hmap
    unfold Int.range at hmap
    rw [List.getElem?_map] at hmap
    obtain ⟨j, hj, heq⟩ := Option.map_eq_some_iff.mp hmap
    obtain ⟨hj, rfl⟩ := List.getElem?_eq_some_iff.mp hj
    rw [← heq, List.getElem_range]
    exact Int.add_comm _ _
  have hgood : ∀ e ∈ s.entries i, FromCounter entriesCodec e.2 := by
    intro e he
    obtain ⟨a, ha, rfl⟩ := List.mem_map.mp he
    exact h.good _ _ ((h.sourced i).applied a ha)
  obtain ⟨batches, hbatches⟩ := exists_batches hgood
  have hlogs : (s.nodes i).applied.map (·.log) = (batches.map (·.2)).map fun ops =>
      CounterAppStateMachine.logEntry entriesCodec (CounterApp.serialize ops) := by
    have hentries := congrArg (List.map (·.2)) hbatches
    unfold Cluster.entries at hentries
    rw [List.map_map, List.map_map] at hentries
    rw [List.map_map]
    exact hentries
  refine ⟨batches.map (·.2), hlogs, hplace, fun k ops hops => ?_⟩
  -- the entry with this place is the one the node has applied
  have hget : ((s.nodes i).applied.map (·.log))[k]? = _ := congrArg (·[k]?) hlogs
  rw [List.getElem?_map, List.getElem?_map, hops, Option.map_some] at hget
  obtain ⟨a, ha, hlog'⟩ := Option.map_eq_some_iff.mp hget
  rw [← hplace k a ha, ← hlog']
  exact (h.sourced i).applied a (List.mem_of_getElem? ha)

/-- **What a caller gets back from a node**: the running totals up to the entry it waited for, of the
batches the log begins with. -/
theorem answer_totals
    (h : s.Applying hlog (LogTrimStateMachine.apply entriesCodec logTrimApplicator) codec
      (fun i => freshApp (kvStore i)) (FromCounter entriesCodec))
    (hanswered : (s.nodes i).Answered (LogTrimStateMachine.apply entriesCodec logTrimApplicator)
      (freshApp (kvStore i)))
    (hrange : ∀ batches, BeginsWith hlog codec entriesCodec s.virtualLog batches →
      InRange .empty batches.flatten)
    {c : Waiter} {result : ReturnType} (hresult : (c, some result) ∈ (s.nodes i).returned) :
    ∃ earlier ops values, BeginsWith hlog codec entriesCodec s.virtualLog (earlier ++ [ops]) ∧
      ((earlier.length : Int) + 1, c) ∈ (s.nodes i).appends ++ (s.nodes i).syncs ∧
      result = .values values ∧ AreTotals .empty earlier.flatten ops values := by
  obtain ⟨batches, hlogs, hplace, hbegins⟩ := exists_batches_applied h i
  obtain ⟨a, ha, haresult, hcall⟩ := hanswered.returned c result hresult
  obtain ⟨k, hk⟩ := List.getElem?_of_mem ha
  have hlog' : (batches.map fun ops =>
      CounterAppStateMachine.logEntry entriesCodec (CounterApp.serialize ops))[k]? = some a.log := by
    rw [← hlogs, List.getElem?_map, hk]
    rfl
  rw [List.getElem?_map] at hlog'
  obtain ⟨ops, hops, hentry⟩ := Option.map_eq_some_iff.mp hlog'
  have hlt : k < batches.length := (List.getElem?_eq_some_iff.mp hops).1
  have hfresh : InRange (freshApp (kvStore i)).lookup batches.flatten := hrange batches hbegins
  obtain ⟨app', values, happly, htotals⟩ :=
    areTotals_of_replayed entriesCodec logTrimApplicator hfresh hops
  have hanswer := hanswered.results k a hk
  have hreplay : VirtualLogStateMachine.replay
      (LogTrimStateMachine.apply entriesCodec logTrimApplicator) (freshApp (kvStore i))
      (((s.nodes i).applied.take k).map (·.log)) =
        replayed entriesCodec logTrimApplicator (freshApp (kvStore i)) (batches.take k) := by
    rw [List.map_take, hlogs, ← List.map_take]
    rfl
  rw [hreplay, ← hentry, happly, haresult] at hanswer
  refine ⟨batches.take k, ops, values, ?_, ?_, Except.ok.inj hanswer, htotals⟩
  · have htake : batches.take k ++ [ops] = batches.take (k + 1) := by
      rw [List.take_add_one, hops]
      rfl
    rw [htake]
    exact hbegins.take (k + 1)
  · rw [List.length_take, Nat.min_eq_left hlt.le, ← hplace k a hk]
    exact List.mem_append.mpr hcall

end ReplicatedCounter.Counter
