import ReplicatedCounter.Lib.Voting
import ReplicatedCounter.Log.System
import ReplicatedCounter.Metadata.ConfigChain

/-!
# What holds of everything in the system

The argument behind the log is one sentence: **an index a replica's completion queue has moved past
is stored there, or on a quorum.** A queue moves past an index for one of two reasons. Either the
entry is parked there, hence stored; or a commit index came along with a request, and then the
sequencer had counted a quorum of replicas past a later id. Those replicas had each moved past this
one, so each of them either stores it or knows, in the same way, that a quorum does.

The sentence speaks about sequencers, replicas, messages and reconfigurations at once, so it is
split into one predicate for each kind of thing the state holds: `RequestOk`, `NanoLogOk`,
`SequencerOk` and so on. Every predicate says something that stays true when the state grows
(`Grows`), and `Valid` says that all of them hold of everything there is. A step then only has to
account for what it adds or changes (`Changes`).
-/

set_option autoImplicit false

namespace ReplicatedCounter.Log.LogSystem

open Metadata InMemoryMetadataStore

variable {N : Nat}

/-! ## What the state says -/

def nanoLog? (s : LogSystem N) (r : Fin N) (v : Int) : Option (InMemoryNanoLog Origin) :=
  (s.replicas r).nanoLogStore v

/-- What replica `r` holds at `l` in version `v`. -/
def entry (s : LogSystem N) (r : Fin N) (v : Int) (l : Int) : Option String :=
  (s.nanoLog? r v).bind fun nanoLog => nanoLog.logs.find? l

/-- Version `v` starts at `a`. -/
def Started (s : LogSystem N) (v : Int) (a : Int) : Prop :=
  (s.metadataStore.getConfig v).map (·.startIndex) = some a

/-- The sequencer of version `v` gave `l` to `p`. -/
def Assigned (s : LogSystem N) (v : Int) (l : Int) (p : String) : Prop :=
  ∃ call, s.appends (v, l) = some call ∧ call.payload = p

/-- `p` is stored at `l` on as many replicas as an acknowledgement takes. -/
def OnQuorum (s : LogSystem N) (v : Int) (l : Int) (p : String) : Prop :=
  SequencerImpl.quorumSize N ≤ (Finset.univ.filter fun r => s.entry r v l = some p).card

instance (s : LogSystem N) (v : Int) (l : Int) (p : String) :
    Decidable (s.OnQuorum v l p) :=
  inferInstanceAs (Decidable (_ ≤ _))

/-- A quorum stores what the sequencer assigned to `l`. -/
def Replicated (s : LogSystem N) (v : Int) (l : Int) : Prop :=
  ∃ p, s.Assigned v l p ∧ s.OnQuorum v l p

/-- `append(p)` on version `v` has returned `l`. -/
def Acknowledged (s : LogSystem N) (v : Int) (l : Int) (p : String) : Prop :=
  ∃ call, s.appends (v, l) = some call ∧ call.payload = p ∧ call.acknowledged = true

variable {s s' s'' : LogSystem N} {v : Int} {l j a : Int} {p p' : String} {r : Fin N}
  {nl : InMemoryNanoLog Origin}

theorem Started.unique {b : Int} (h : s.Started v a) (h' : s.Started v b) : a = b :=
  Option.some.inj (h.symm.trans h')

theorem Assigned.unique (h : s.Assigned v l p) (h' : s.Assigned v l p') : p = p' := by
  obtain ⟨call, hcall, rfl⟩ := h
  obtain ⟨call', hcall', rfl⟩ := h'
  rw [hcall] at hcall'
  rw [Option.some.inj hcall']

theorem entry_eq_some :
    s.entry r v l = some p ↔ ∃ nl, s.nanoLog? r v = some nl ∧ nl.logs.find? l = some p :=
  Option.bind_eq_some_iff

/-! ## Growing -/

/-- `s'` comes after `s`: nothing assigned, stored, sealed or observed is taken back. -/
structure Grows (s s' : LogSystem N) : Prop where
  started : ∀ {v a}, s.Started v a → s'.Started v a
  startOf : ∀ {v a}, s.metadataStore.startOf v = some a → s'.metadataStore.startOf v = some a
  assigned : ∀ {v l p}, s.Assigned v l p → s'.Assigned v l p
  acknowledged : ∀ {v l p}, s.Acknowledged v l p → s'.Acknowledged v l p
  nanoLog : ∀ {r v nl}, s.nanoLog? r v = some nl →
    ∃ nl', s'.nanoLog? r v = some nl' ∧ nl.Extends nl'
  sequencer : ∀ {v q}, s.sequencers v = some q →
    ∃ q', s'.sequencers v = some q' ∧ q.sequenceNum ≤ q'.sequenceNum
  trace : ∀ {o}, o ∈ s.trace → o ∈ s'.trace
  read : ∀ {c read}, s.reads c = some read → ∃ read', s'.reads c = some read' ∧
    read'.logId = read.logId ∧ read'.versionId = read.versionId

namespace Grows

/-- A step that leaves a field alone takes that field's part from here. -/
theorem refl (s : LogSystem N) : s.Grows s where
  started h := h
  startOf h := h
  assigned h := h
  acknowledged h := h
  nanoLog h := ⟨_, h, .refl _⟩
  sequencer h := ⟨_, h, le_refl _⟩
  trace h := h
  read h := ⟨_, h, rfl, rfl⟩

theorem trans (g : s.Grows s') (g' : s'.Grows s'') : s.Grows s'' where
  started h := g'.started (g.started h)
  startOf h := g'.startOf (g.startOf h)
  assigned h := g'.assigned (g.assigned h)
  acknowledged h := g'.acknowledged (g.acknowledged h)
  nanoLog h := by
    obtain ⟨nl', hnl', hext⟩ := g.nanoLog h
    obtain ⟨nl'', hnl'', hext'⟩ := g'.nanoLog hnl'
    exact ⟨nl'', hnl'', hext.trans hext'⟩
  sequencer h := by
    obtain ⟨q', hq', hle⟩ := g.sequencer h
    obtain ⟨q'', hq'', hle'⟩ := g'.sequencer hq'
    exact ⟨q'', hq'', hle.trans hle'⟩
  trace h := g'.trace (g.trace h)
  read h := by
    obtain ⟨read', hread', hl, hv⟩ := g.read h
    obtain ⟨read'', hread'', hl', hv'⟩ := g'.read hread'
    exact ⟨read'', hread'', hl'.trans hl, hv'.trans hv⟩

theorem entry (g : s.Grows s') (h : s.entry r v l = some p) : s'.entry r v l = some p := by
  obtain ⟨nl, hnl, hl⟩ := entry_eq_some.mp h
  obtain ⟨nl', hnl', hext⟩ := g.nanoLog hnl
  exact entry_eq_some.mpr ⟨nl', hnl', hext.logs hl⟩

theorem onQuorum (g : s.Grows s') (h : s.OnQuorum v l p) : s'.OnQuorum v l p := by
  refine h.trans (Finset.card_le_card fun r hr => ?_)
  rw [Finset.mem_filter] at hr ⊢
  exact ⟨hr.1, g.entry hr.2⟩

theorem replicated (g : s.Grows s') (h : s.Replicated v l) : s'.Replicated v l := by
  obtain ⟨p, hp, hq⟩ := h
  exact ⟨p, g.assigned hp, g.onQuorum hq⟩

end Grows

/-! ## One predicate for each kind of thing -/

/-- Everything from the start of version `v` up to `g` is on a quorum. -/
def Covered (s : LogSystem N) (v : Int) (a g : Int) : Prop :=
  ∀ j, a ≤ j → j < g → s.Replicated v j

/-- A request carries what was assigned, and a commit index that is covered. -/
structure RequestOk (s : LogSystem N) (m : Request N) : Prop where
  assigned : s.Assigned m.versionId m.logId m.payload
  vouched : ∃ a, s.Started m.versionId a ∧
    ∀ g, m.globalCommitIndex = some g → g ≤ highestNonExistingLogId ∧ s.Covered m.versionId a g

/-- A request past the seal check has been seen passing it, at a nanolog. -/
structure AdmittedOk (s : LogSystem N) (m : Request N) : Prop where
  request : s.RequestOk m
  accepted : .accepted m.origin m.replica m.versionId m.logId ∈ s.trace
  nanoLog : ∃ nl, s.nanoLog? m.replica m.versionId = some nl

/-- A successful reply means that the entry is stored; to a sequencer it is a fulfilled promise. -/
structure ReplyOk (s : LogSystem N) (m : Reply N) : Prop where
  stored : hasValue (some m.result) → ∃ p, s.entry m.replica m.versionId m.logId = some p
  completed : hasValue (some m.result) → m.origin = .sequencer →
    .completed .sequencer m.replica m.versionId m.logId ∈ s.trace

/-- A promise is fulfilled when the append had passed the seal check, its entry is stored and the
queue has moved past it. -/
structure CompletedOk (s : LogSystem N) (origin : Origin) (r : Fin N) (v : Int) (l : Int) :
    Prop where
  accepted : .accepted origin r v l ∈ s.trace
  nanoLog : ∃ nl, s.nanoLog? r v = some nl ∧ (∃ p, nl.logs.find? l = some p) ∧
    l < nl.getLocalCommitIndex

def ObservationOk (s : LogSystem N) : Observation N → Prop
  | .accepted .. => True
  | .completed origin r v l => s.CompletedOk origin r v l

/-- **An index the queue has moved past is stored here, or on a quorum.** -/
structure NanoLogOk (s : LogSystem N) (r : Fin N) (v : Int) (nl : InMemoryNanoLog Origin) :
    Prop where
  started : s.Started v nl.startIndex
  start_le : nl.startIndex ≤ nl.getLocalCommitIndex
  le_highest : nl.getLocalCommitIndex ≤ highestNonExistingLogId
  assigned : ∀ {l p}, nl.logs.find? l = some p → s.Assigned v l p
  filled : ∀ j, nl.startIndex ≤ j → j < nl.getLocalCommitIndex →
    (∃ p, nl.logs.find? j = some p) ∨ s.Replicated v j
  parked : ∀ {k origin}, (k, origin) ∈ nl.completionQueue.promises.entries →
    (∃ p, nl.logs.find? k = some p) ∧ .accepted origin r v k ∈ s.trace

/-- What a sequencer has handed out and what it calls committed, from the start of its version. -/
structure SequencerFrom (s : LogSystem N) (v : Int) (q : SequencerImpl) (a : Int) :
    Prop where
  startOf : s.metadataStore.startOf v = some a
  start_le : a ≤ q.sequenceNum
  le_highest : q.sequenceNum ≤ highestNonExistingLogId
  commit_le_highest : q.globalCommitIndex ≤ highestNonExistingLogId
  covered : s.Covered v a q.globalCommitIndex

def SequencerOk (s : LogSystem N) (v : Int) (q : SequencerImpl) : Prop :=
  ∃ a, s.SequencerFrom v q a

/-- An append has an id of its version, and counts replicas that fulfilled its promise. -/
structure AppendOk (s : LogSystem N) (v : Int) (l : Int) (call : SequencerAppend N) :
    Prop where
  sequencer : ∃ q, s.sequencers v = some q ∧ l < q.sequenceNum
  start_le : ∃ a, s.metadataStore.startOf v = some a ∧ a ≤ l
  results : ∀ r, hasValue (call.futures.results r) →
    .completed .sequencer r v l ∈ s.trace
  acknowledged : call.acknowledged = true → call.futures.promise = some (.ok ())

/-- How far a reconfiguration has got: everything below its loop variable is on a quorum. -/
def Progress (s : LogSystem N) (task : Reconfigure N) (a : Int) : Prop :=
  match task.phase with
  | .sealing => True
  | .reading l => task.toSeal = [] ∧ a ≤ l ∧ l < task.maxLogId ∧ s.Covered task.versionId a l
  | .appending l futures => task.toSeal = [] ∧ a ≤ l ∧ s.Covered task.versionId a l ∧
      ∀ r, hasValue (futures.results r) → ∃ p, s.entry r task.versionId l = some p
  | .installing => task.toSeal = [] ∧ s.Covered task.versionId a task.maxLogId
  | .returned => True

/-- The bounds a reconfiguration has collected: `minLogId` is below the index of every replica it
has sealed, `maxLogId` is that of one of them. -/
structure ReconfigureFrom (s : LogSystem N) (task : Reconfigure N) (a : Int) : Prop where
  started : s.Started task.versionId a
  suffix : ∃ front, task.replicaSet.replicas = front ++ task.toSeal
  start_le_min : a ≤ task.minLogId
  sealed : ∀ r, task.HasSealed r → ∃ nl, s.nanoLog? r task.versionId = some nl ∧
    nl.sealed = true ∧ task.minLogId ≤ nl.getLocalCommitIndex
  start_le_max : ∀ r, task.HasSealed r → a ≤ task.maxLogId
  lowest_le_max : lowestNonExistingLogId ≤ task.maxLogId
  max_le_highest : task.maxLogId ≤ highestNonExistingLogId
  max_attained : task.maxLogId = lowestNonExistingLogId ∨ ∃ r nl, task.HasSealed r ∧
    s.nanoLog? r task.versionId = some nl ∧ task.maxLogId ≤ nl.getLocalCommitIndex
  progress : s.Progress task a

def ReconfigureOk (s : LogSystem N) (task : Reconfigure N) : Prop := ∃ a, s.ReconfigureFrom task a

/-- What a read returns was assigned in the version it was routed to. -/
def ReadOk (s : LogSystem N) (read : Read) : Prop :=
  ∀ entry, read.result = some entry → s.Assigned read.versionId read.logId entry.payload

/-- The configurations form a chain of versions with 64-bit start indices. -/
structure StoreOk (firstEnd : Int) (m : InMemoryMetadataStore) : Prop where
  chain : ConfigChain firstEnd highestNonExistingLogId m
  bounded : ∀ v a, m.startOf v = some a →
    lowestNonExistingLogId ≤ a ∧ a ≤ highestNonExistingLogId
  -- whoever installs version 1 decides where it ends
  first : m.getCurrentVersionId = 0 → firstEnd = highestNonExistingLogId

theorem StoreOk.getConfig_bounded {firstEnd : Int} {m : InMemoryMetadataStore}
    {config : MetadataConfig} (h : StoreOk firstEnd m) (hconfig : m.getConfig v = some config) :
    lowestNonExistingLogId ≤ config.startIndex ∧
      config.startIndex ≤ highestNonExistingLogId := by
  unfold getConfig at hconfig
  split at hconfig
  · rw [← Option.some.inj hconfig]
    decide
  · refine h.bounded v config.startIndex ?_
    unfold InMemoryMetadataStore.startOf
    rw [hconfig]
    rfl

/-! ## They stay true -/

theorem Covered.mono {g : Int} (hg : s.Grows s') (h : s.Covered v a g) : s'.Covered v a g :=
  fun j hj hj' => hg.replicated (h j hj hj')

theorem RequestOk.mono {m : Request N} (g : s.Grows s') (h : s.RequestOk m) : s'.RequestOk m := by
  obtain ⟨a, ha, hv⟩ := h.vouched
  exact ⟨g.assigned h.assigned, a, g.started ha, fun i hi => ⟨(hv i hi).1, (hv i hi).2.mono g⟩⟩

theorem AdmittedOk.mono {m : Request N} (g : s.Grows s') (h : s.AdmittedOk m) :
    s'.AdmittedOk m := by
  obtain ⟨nl, hnl⟩ := h.nanoLog
  obtain ⟨nl', hnl', -⟩ := g.nanoLog hnl
  exact ⟨h.request.mono g, g.trace h.accepted, nl', hnl'⟩

theorem ReplyOk.mono {m : Reply N} (g : s.Grows s') (h : s.ReplyOk m) : s'.ReplyOk m where
  stored hm := (h.stored hm).imp fun _ hp => g.entry hp
  completed hm ho := g.trace (h.completed hm ho)

theorem ObservationOk.mono {o : Observation N} (g : s.Grows s') (h : s.ObservationOk o) :
    s'.ObservationOk o := by
  cases o with
  | accepted => trivial
  | completed origin r v l =>
    obtain ⟨nl, hnl, ⟨p, hp⟩, hlt⟩ := CompletedOk.nanoLog h
    obtain ⟨nl', hnl', hext⟩ := g.nanoLog hnl
    exact ⟨g.trace (CompletedOk.accepted h), nl', hnl', ⟨p, hext.logs hp⟩,
      hlt.trans_le hext.index_le⟩

theorem NanoLogOk.mono (g : s.Grows s') (h : s.NanoLogOk r v nl) : s'.NanoLogOk r v nl where
  started := g.started h.started
  start_le := h.start_le
  le_highest := h.le_highest
  assigned hl := g.assigned (h.assigned hl)
  filled j hj hj' := (h.filled j hj hj').imp_right g.replicated
  parked hk := ⟨(h.parked hk).1, g.trace (h.parked hk).2⟩

theorem SequencerOk.mono {q : SequencerImpl} (g : s.Grows s') (h : s.SequencerOk v q) :
    s'.SequencerOk v q := by
  obtain ⟨a, ha⟩ := h
  exact ⟨a, g.startOf ha.startOf, ha.start_le, ha.le_highest, ha.commit_le_highest,
    ha.covered.mono g⟩

theorem AppendOk.mono {call : SequencerAppend N} (g : s.Grows s') (h : s.AppendOk v l call) :
    s'.AppendOk v l call := by
  obtain ⟨q, hq, hlt⟩ := h.sequencer
  obtain ⟨q', hq', hle⟩ := g.sequencer hq
  obtain ⟨a, ha, hal⟩ := h.start_le
  exact ⟨⟨q', hq', hlt.trans_le hle⟩, ⟨a, g.startOf ha, hal⟩,
    fun r hr => g.trace (h.results r hr), h.acknowledged⟩

theorem Progress.mono {task : Reconfigure N} (g : s.Grows s') (h : s.Progress task a) :
    s'.Progress task a := by
  unfold Progress at h ⊢
  cases hphase : task.phase <;> rw [hphase] at h
  case sealing => trivial
  case reading l => exact ⟨h.1, h.2.1, h.2.2.1, h.2.2.2.mono g⟩
  case appending l futures =>
    exact ⟨h.1, h.2.1, h.2.2.1.mono g, fun r hr => (h.2.2.2 r hr).imp fun _ hp => g.entry hp⟩
  case installing => exact ⟨h.1, h.2.mono g⟩
  case returned => trivial

theorem ReconfigureOk.mono {task : Reconfigure N} (g : s.Grows s') (h : s.ReconfigureOk task) :
    s'.ReconfigureOk task := by
  obtain ⟨a, ha⟩ := h
  refine ⟨a, g.started ha.started, ha.suffix, ha.start_le_min, fun r hr => ?_, ha.start_le_max,
    ha.lowest_le_max, ha.max_le_highest, ?_, ha.progress.mono g⟩
  · obtain ⟨nl, hnl, hsealed, hle⟩ := ha.sealed r hr
    obtain ⟨nl', hnl', hext⟩ := g.nanoLog hnl
    exact ⟨nl', hnl', hext.sealed hsealed, hle.trans hext.index_le⟩
  · refine ha.max_attained.imp_right ?_
    rintro ⟨r, nl, hr, hnl, hle⟩
    obtain ⟨nl', hnl', hext⟩ := g.nanoLog hnl
    exact ⟨r, nl', hr, hnl', hle.trans hext.index_le⟩

theorem ReadOk.mono {read : Read} (g : s.Grows s') (h : s.ReadOk read) : s'.ReadOk read :=
  fun e he => g.assigned (h e he)

/-! ## All of them -/

/-- Every part of the state is in order. -/
structure Valid (firstEnd : Int) (s : LogSystem N) : Prop where
  store : StoreOk firstEnd s.metadataStore
  requests : ∀ m ∈ s.requests, s.RequestOk m
  admitted : ∀ m ∈ s.admitted, s.AdmittedOk m
  replies : ∀ m ∈ s.replies, s.ReplyOk m
  trace : ∀ o ∈ s.trace, s.ObservationOk o
  nanoLogs : ∀ r v nl, s.nanoLog? r v = some nl → s.NanoLogOk r v nl
  sequencers : ∀ v q, s.sequencers v = some q → s.SequencerOk v q
  appends : ∀ v l call, s.appends (v, l) = some call → s.AppendOk v l call
  reconfigures : ∀ t task, s.reconfigures t = some task → s.ReconfigureOk task
  reads : ∀ c read, s.reads c = some read → s.ReadOk read

/-- Everything in `s'` was there in `s`, or is in order in `t`. -/
structure Accounted (firstEnd : Int) (t s s' : LogSystem N) : Prop where
  store : s'.metadataStore = s.metadataStore ∨ StoreOk firstEnd s'.metadataStore
  requests : ∀ m ∈ s'.requests, m ∈ s.requests ∨ t.RequestOk m
  admitted : ∀ m ∈ s'.admitted, m ∈ s.admitted ∨ t.AdmittedOk m
  replies : ∀ m ∈ s'.replies, m ∈ s.replies ∨ t.ReplyOk m
  trace : ∀ o ∈ s'.trace, o ∈ s.trace ∨ t.ObservationOk o
  nanoLogs : ∀ r v nl, s'.nanoLog? r v = some nl → s.nanoLog? r v = some nl ∨ t.NanoLogOk r v nl
  sequencers : ∀ v q, s'.sequencers v = some q → s.sequencers v = some q ∨ t.SequencerOk v q
  appends : ∀ v l call, s'.appends (v, l) = some call →
    s.appends (v, l) = some call ∨ t.AppendOk v l call
  reconfigures : ∀ c task, s'.reconfigures c = some task →
    s.reconfigures c = some task ∨ t.ReconfigureOk task
  reads : ∀ c read, s'.reads c = some read → s.reads c = some read ∨ t.ReadOk read

/-- What a step has to account for: what is new is in order afterwards, and nothing is lost. -/
structure Changes (firstEnd : Int) (s s' : LogSystem N) : Prop
    extends Accounted firstEnd s' s s' where
  grows : s.Grows s'

variable {firstEnd : Int}

theorem Accounted.refl (t s : LogSystem N) : Accounted firstEnd t s s where
  store := .inl rfl
  requests _ h := .inl h
  admitted _ h := .inl h
  replies _ h := .inl h
  trace _ h := .inl h
  nanoLogs _ _ _ h := .inl h
  sequencers _ _ h := .inl h
  appends _ _ _ h := .inl h
  reconfigures _ _ h := .inl h
  reads _ _ h := .inl h

theorem Changes.refl (s : LogSystem N) : s.Changes firstEnd s :=
  { Accounted.refl s s with grows := .refl s }

/-- **A step that accounts for its changes keeps everything in order.** -/
theorem Valid.of_changes (h : s.Valid firstEnd) (hc : s.Changes firstEnd s') :
    s'.Valid firstEnd where
  store := hc.store.elim (fun heq => heq ▸ h.store) id
  requests m hm := (hc.requests m hm).elim (fun hm => (h.requests m hm).mono hc.grows) id
  admitted m hm := (hc.admitted m hm).elim (fun hm => (h.admitted m hm).mono hc.grows) id
  replies m hm := (hc.replies m hm).elim (fun hm => (h.replies m hm).mono hc.grows) id
  trace o ho := (hc.trace o ho).elim (fun ho => (h.trace o ho).mono hc.grows) id
  nanoLogs r v nl hnl :=
    (hc.nanoLogs r v nl hnl).elim (fun hnl => (h.nanoLogs r v nl hnl).mono hc.grows) id
  sequencers v q hq := (hc.sequencers v q hq).elim (fun hq => (h.sequencers v q hq).mono hc.grows) id
  appends v l call hcall :=
    (hc.appends v l call hcall).elim (fun hcall => (h.appends v l call hcall).mono hc.grows) id
  reconfigures t task ht :=
    (hc.reconfigures t task ht).elim (fun ht => (h.reconfigures t task ht).mono hc.grows) id
  reads c read hr := (hc.reads c read hr).elim (fun hr => (h.reads c read hr).mono hc.grows) id

end ReplicatedCounter.Log.LogSystem
