import ReplicatedCounter.StateMachine.Bootstrap

/-!
# `VirtualLogImpl` with one sequencer, and what `sync` can promise

As long as nobody reconfigures, `VirtualLogImpl` with its `SequencerImpl` is an append-only log
(`sequencedLog.appendOnly`): the entry of an id is what the sequencer gave the id to, and a read
that returns anything returns that.

`sync` asks the log for its position, subtracts one, and waits until that id has been applied
(`sync_covers`). What this is worth depends on what the log calls its position.
-/

set_option autoImplicit false

namespace ReplicatedCounter.StateMachine

open Log Metadata InMemoryMetadataStore

/-! ## One sequencer -/

/-- What happens in a log that is not reconfigured, between an `append` and its end. -/
inductive DataPath (N : Nat) where
  | send (l : Int)
  | arrive (m : Request N)
  | execute (m : Request N)
  | receive (m : Reply N)
  | timeout (r : Fin N) (l : Int)
  | acknowledge (l : Int)
  | getLogEntry (c : CallId) (l : Int)
  | probe (c : CallId)
  | failProbe (c : CallId)

def DataPath.event {N : Nat} : DataPath N → LogEvent N
  | .send l => .send 1 l
  | .arrive m => .arrive m
  | .execute m => .execute m
  | .receive m => .receive m
  | .timeout r l => .timeout r .sequencer 1 l
  | .acknowledge l => .acknowledge 1 l
  | .getLogEntry c l => .getLogEntry c l
  | .probe c => .probe c
  | .failProbe c => .failProbe c

/-- `VirtualLogImpl` over the `SequencerImpl` of version 1. -/
@[reducible] def sequencedLog (N : Nat) : VirtualLog where
  State := LogSystem N
  Sequencer := Unit
  Call := CallId
  Event := DataPath N
  append s _ payload := s.append 1 payload
  step s e := s.step e.event
  acknowledged s _ l := s.isAcknowledged 1 l
  getLogEntry s c l := s.readResult c l
  sync s _ := (s.sequencers 1).map (·.latestAppendPosition)

variable {N : Nat} {b : Bootstrap} {s s' : LogSystem N} {l : Int} {p : String}

/-- The entries of version 1. -/
def assignedEntries (s : LogSystem N) (l : Int) : Option String :=
  (s.appends (1, l)).map (·.payload)

theorem assignedEntries_eq_some : assignedEntries s l = some p ↔ s.Assigned 1 l p :=
  Option.map_eq_some_iff

theorem startOf_bootstrap {v a : Int} (h : b.metadataStore.startOf v = some a) :
    v = 1 ∧ a = b.config.startIndex := by
  rw [startOf_of_compareAndAppendRange b.compareAndAppendRange, b.versionId_eq] at h
  split at h
  · rename_i hv
    exact ⟨hv, (Option.some.inj h).symm⟩
  · exact absurd h (by simp [InMemoryMetadataStore.startOf])

/-- The state is in order, and version 1 is the only one. -/
def OneVersion (b : Bootstrap) (s : LogSystem N) : Prop :=
  s.Valid (LogSystem.firstVersionEnd (some b)) ∧ s.metadataStore = b.metadataStore

theorem OneVersion.step {e : LogEvent N} (h : OneVersion b s) (hs : s.step e = some s')
    (hne : ∀ t, e ≠ .install t) : OneVersion b s' :=
  ⟨h.1.of_changes (LogSystem.step_changes h.1 hs),
    (LogSystem.metadataStore_of_effect (LogSystem.step_effect h.1 hs) hne).trans h.2⟩

/-- Whatever is read or acknowledged was given its id in version 1. -/
theorem OneVersion.version_eq {v : Int} (h : OneVersion b s) (hassigned : s.Assigned v l p) :
    v = 1 ∧ b.config.startIndex ≤ l := by
  obtain ⟨call, hcall, -⟩ := hassigned
  obtain ⟨a, ha, hal⟩ := (h.1.appends v l call hcall).start_le
  rw [h.2] at ha
  obtain ⟨hv, rfl⟩ := startOf_bootstrap ha
  exact ⟨hv, hal⟩

theorem OneVersion.bounds_of_acknowledged {q : SequencerImpl} (h : OneVersion b s)
    (hack : s.isAcknowledged 1 l = true) (hq : s.sequencers 1 = some q) :
    b.config.startIndex ≤ l ∧ l < q.sequenceNum := by
  obtain ⟨p, call, hcall, hp, -⟩ := LogSystem.acknowledged_of_isAcknowledged hack
  obtain ⟨q', hq', hlt⟩ := (h.1.appends _ _ _ hcall).sequencer
  obtain rfl := Option.some.inj (hq.symm.trans hq')
  exact ⟨(h.version_eq ⟨call, hcall, hp⟩).2, hlt⟩

/-- An append is given the next id of the sequencer. -/
theorem append_takes_next {q : SequencerImpl} (hq : s.sequencers 1 = some q)
    (hs : s.append 1 p = some s') :
    s'.sequencers 1 = some { q with sequenceNum := q.sequenceNum + 1 } ∧
      assignedEntries s' = Function.update (assignedEntries s) q.sequenceNum (some p) := by
  obtain ⟨q', hq', -, rfl⟩ := LogSystem.append_eq_some hs
  obtain rfl := Option.some.inj (hq.symm.trans hq')
  refine ⟨by simp [LogSystem.setAppend, LogSystem.setSequencer], funext fun l => ?_⟩
  rw [Function.update_apply]
  unfold assignedEntries LogSystem.setAppend LogSystem.setSequencer
  dsimp only
  rw [Function.update_apply]
  simp only [Prod.mk.injEq, true_and]
  split
  · rfl
  · rfl

theorem assignedEntries_of_append (h : OneVersion b s) (hs : s.append 1 p = some s') :
    ∃ l, assignedEntries s l = none ∧
      assignedEntries s' = Function.update (assignedEntries s) l (some p) := by
  obtain ⟨q, hq, -, -⟩ := LogSystem.append_eq_some hs
  refine ⟨q.sequenceNum, ?_, (append_takes_next hq hs).2⟩
  cases hold : assignedEntries s q.sequenceNum with
  | none => rfl
  | some p' =>
    obtain ⟨call, hcall, -⟩ := assignedEntries_eq_some.mp hold
    obtain ⟨q', hq', hlt⟩ := (h.1.appends _ _ _ hcall).sequencer
    obtain rfl := Option.some.inj (hq.symm.trans hq')
    exact absurd hlt (lt_irrefl _)

theorem assignedEntries_of_step {e : DataPath N} (h : OneVersion b s)
    (hs : s.step e.event = some s') : assignedEntries s' = assignedEntries s := by
  have heffect := LogSystem.step_effect h.1 hs
  have hgrows := (LogSystem.step_changes h.1 hs).grows
  funext l
  refine Option.ext fun p => ?_
  rw [assignedEntries_eq_some, assignedEntries_eq_some]
  refine ⟨fun hp => ?_, hgrows.assigned⟩
  rcases LogSystem.assigned_of_effect heffect hp with hold | ⟨p', q, he, -⟩
  · exact hold
  · cases e with
    | _ => exact absurd he (by simp [DataPath.event])

/-- **Without reconfigurations `VirtualLogImpl` is an append-only log**, if its version starts at 1
or above. -/
def sequencedLog.appendOnly (N : Nat) (b : Bootstrap) (hb : 1 ≤ b.config.startIndex) :
    (sequencedLog N).AppendOnly (LogSystem.initial N (some b)) where
  contents := assignedEntries
  Inv := OneVersion b
  init := ⟨LogSystem.initial_valid (some b), rfl⟩
  empty l := rfl
  append {s q payload s'} h hs :=
    ⟨h.step (e := .append 1 payload) hs (by simp), assignedEntries_of_append h hs⟩
  step {s e s'} h hs := by
    refine ⟨h.step hs fun t he => ?_, assignedEntries_of_step h hs⟩
    cases e with
    | _ => exact absurd he (by simp [DataPath.event])
  getLogEntry {s c l payload} h hl := by
    obtain ⟨read, hread, hread'⟩ := Option.bind_eq_some_iff.mp hl
    obtain ⟨rfl, hpayload⟩ := Option.ite_none_right_eq_some.mp hread'
    obtain ⟨entry, hresult, rfl⟩ := Option.map_eq_some_iff.mp hpayload
    have hassigned := h.1.reads c read hread entry hresult
    exact assignedEntries_eq_some.mpr ((h.version_eq hassigned).1 ▸ hassigned)
  acknowledged {s q l} h hack := by
    obtain ⟨p, call, hcall, hp, -⟩ := LogSystem.acknowledged_of_isAcknowledged hack
    exact ⟨p, assignedEntries_eq_some.mpr ⟨call, hcall, hp⟩⟩
  one_le {s l payload} h hl := hb.trans (h.version_eq (assignedEntries_eq_some.mp hl)).2

/-! ## `sync` -/

namespace Cluster

variable {log : VirtualLog} {ι υ T R : Type} [DecidableEq ι] {ls₀ : log.State} {u₀ : ι → υ}
  {up : υ → T → υ × Except String R} {codec : Codec T String} {s s' s₁ s₂ : Cluster log ι υ T R}
  {e : ClusterEvent log ι T} {es es₁ es₂ : List (ClusterEvent log ι T)} {i : ι} {c : Waiter}
  {position : Int}

/-- The calls of `sync` that have taken the lock were told a position before, and the calls of
`append` were not. -/
structure Positioned (s : Cluster log ι υ T R) : Prop where
  recorded : ∀ i, (s.nodes i).Recorded
  syncs : ∀ i l c, (l, c) ∈ (s.nodes i).syncs → s.positions (i, c) = some (l + 1)
  appends : ∀ i l c, (l, c) ∈ (s.nodes i).appends → s.positions (i, c) = none

omit [DecidableEq ι] in
theorem start_positioned : (start ls₀ u₀ : Cluster log ι υ T R).Positioned :=
  ⟨fun _ => VirtualLogStateMachine.recorded_make _,
    fun _ _ _ h => absurd h List.not_mem_nil, fun _ _ _ h => absurd h List.not_mem_nil⟩

/-- Who is in the records after a step of a machine. -/
theorem records_of_step {m m' : VirtualLogStateMachine υ T R} {e' : Event T}
    (hs : VirtualLogStateMachine.Step up m e' m') :
    (∀ p ∈ m'.syncs, p ∈ m.syncs ∨ e' = .synced p.2 (p.1 + 1)) ∧
    ∀ p ∈ m'.appends, p ∈ m.appends ∨ e' = .appended p.2 p.1 := by
  cases hs with
  | appended c logId _ =>
    refine ⟨fun p hp => .inl hp, fun p hp => ?_⟩
    rcases List.mem_cons.mp hp with rfl | hold
    · exact .inr rfl
    · exact .inl hold
  | syncedAtOnce c position _ _ =>
    refine ⟨fun p hp => ?_, fun p hp => .inl hp⟩
    rcases List.mem_cons.mp hp with rfl | hold
    · exact .inr (by simp)
    · exact .inl hold
  | syncedLater c position _ _ =>
    refine ⟨fun p hp => ?_, fun p hp => .inl hp⟩
    rcases List.mem_cons.mp hp with rfl | hold
    · exact .inr (by simp)
    · exact .inl hold
  | _ => exact ⟨fun p hp => .inl hp, fun p hp => .inl hp⟩

theorem Positioned.step (h : s.Positioned) (hs : s.step up codec e = some s') :
    s'.Positioned := by
  have hspec := step_spec hs
  have hrecorded : ∀ i, (s'.nodes i).Recorded := fun i =>
    nodes_invariant (fun _ _ _ hm _ hstep => hm.step hstep) hspec (h.recorded i)
  cases hspec with
  | append q t virtualLog _ => exact ⟨hrecorded, h.syncs, h.appends⟩
  | log e virtualLog _ => exact ⟨hrecorded, h.syncs, h.appends⟩
  | sync i c q position hfresh hnone _ =>
    refine ⟨hrecorded, fun j l c' hc => Parties.update_eq_some hnone (h.syncs j l c' hc),
      fun j l c' hc => ?_⟩
    · show Function.update s.positions (i, c) _ (j, c') = _
      rw [Function.update_of_ne]
      · exact h.appends j l c' hc
      · rintro ⟨rfl, rfl⟩
        exact hfresh.1 (List.mem_map.mpr ⟨_, hc, rfl⟩)
  | node i _ e' m hhears _ hnode =>
    obtain ⟨hsyncs, happends⟩ := records_of_step hnode
    have hnode_eq : ∀ j, (s.setNode i m).nodes j = if j = i then m else s.nodes j := fun j =>
      Function.update_apply ..
    refine ⟨hrecorded, fun j l c hc => ?_, fun j l c hc => ?_⟩
    · rw [hnode_eq] at hc
      split at hc
      · rename_i hj
        subst hj
        rcases hsyncs _ hc with hold | rfl
        · exact h.syncs j l c hold
        · cases hhears with
          | synced _ _ hposition => exact hposition
      · exact h.syncs j l c hc
    · rw [hnode_eq] at hc
      split at hc
      · rename_i hj
        subst hj
        rcases happends _ hc with hold | rfl
        · exact h.appends j l c hold
        · cases hhears with
          | appended _ _ _ _ hnone => exact hnone
      · exact h.appends j l c hc

theorem run_positioned (h : Transition.run (step up codec) (start ls₀ u₀) es = some s) :
    s.Positioned :=
  Transition.run_invariant (fun _ _ _ hs hstep => hs.step hstep) h start_positioned

/-- What later states keep of earlier ones: positions, and how far a node has got. -/
theorem run_keeps (h : Transition.run (step up codec) s es = some s') :
    (∀ k p, s.positions k = some p → s'.positions k = some p) ∧
    ∀ i, (s.nodes i).lastAppliedLogId ≤ (s'.nodes i).lastAppliedLogId := by
  refine Transition.run_relation
    (R := fun s s' : Cluster log ι υ T R => (∀ k p, s.positions k = some p →
      s'.positions k = some p) ∧ ∀ i, (s.nodes i).lastAppliedLogId ≤ (s'.nodes i).lastAppliedLogId)
    (fun s => ⟨fun _ _ hp => hp, fun _ => le_refl _⟩) ?_ h
  rintro s t e t' ⟨hpositions, hlast⟩ hstep
  have hspec := step_spec hstep
  refine ⟨fun k p hp => ?_, fun i => (hlast i).trans ?_⟩
  · have hold := hpositions k p hp
    cases hspec with
    | append q t virtualLog _ => exact hold
    | log e virtualLog _ => exact hold
    | sync i c q position _ hnone _ => exact Parties.update_eq_some hnone hold
    | node i _ e' m _ _ _ => exact hold
  · exact nodes_invariant (P := fun m => (t.nodes i).lastAppliedLogId ≤ m.lastAppliedLogId)
      (fun m _ m' hm _ hs => hm.trans (VirtualLogStateMachine.lastApplied_mono hs)) hspec
      (le_refl _)

/-- **When `sync` returns, everything below the position it was told has been applied.** -/
theorem sync_covers (h₁ : Transition.run (step up codec) (start ls₀ u₀) es₁ = some s₁)
    {q : log.Sequencer} (hsync : s₁.step up codec (.sync i c q) = some s)
    (hposition : log.sync s₁.virtualLog q = some position)
    (h₂ : Transition.run (step up codec) s es₂ = some s₂) {r : Option R}
    (hreturned : (c, r) ∈ (s₂.nodes i).returned) :
    position - 1 ≤ (s₂.nodes i).lastAppliedLogId := by
  have hpositioned : s₂.Positioned :=
    Transition.run_invariant (fun _ _ _ hs hstep => hs.step hstep) h₂
      ((run_positioned h₁).step hsync)
  have htold : s.positions (i, c) = some position := by
    cases step_spec hsync with
    | sync _ _ _ position' _ _ hsync' =>
      obtain rfl := Option.some.inj (hposition.symm.trans hsync')
      exact Function.update_self ..
    | node _ _ _ _ hhears _ _ => nomatch hhears
  have hlater := (run_keeps h₂).1 _ _ htold
  obtain ⟨l, hle, happended | hsynced⟩ := (hpositioned.recorded i).returned c r hreturned
  · exact absurd (hlater.symm.trans (hpositioned.appends i l c happended)) (by simp)
  · have hl := Option.some.inj (hlater.symm.trans (hpositioned.syncs i l c hsynced))
    omega

end Cluster

end ReplicatedCounter.StateMachine
