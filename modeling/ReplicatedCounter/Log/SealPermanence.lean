import ReplicatedCounter.Lib.Transition
import ReplicatedCounter.Log.RocksReplica

/-!
# A seal, across restarts

Once `seal(v)` has returned, version `v` is closed for appends without `skipSeal`, and a later
`seal(v)` returns no less. A nanolog in memory keeps to the first half as far as it turns new
appends away, and the seal in the store would keep to it across a restart. **Whoever makes the
nanolog again takes the seal off.** If that is `seal` it puts it back; if it is an append, the
version is open.

`Upholds` says what must not happen to `v` after the seal.
-/

set_option autoImplicit false

namespace ReplicatedCounter.Log

open Metadata

variable {κ : Type} [KVStoreLite κ String]

/-- A replica, with what its callers have seen. -/
structure SealRun (κ : Type) where
  replica : RocksReplica AppendRequest κ
  /-- The appends that have succeeded, with their versions. -/
  acknowledged : List (Int × AppendRequest) := []
  /-- What `seal` has returned, with the versions. -/
  returned : List (Int × Int) := []

inductive ReplicaCall where
  | append (versionId : Int) (request : AppendRequest)
  | «seal» (versionId : Int)
  | restart
  deriving DecidableEq, Repr

namespace SealRun

/-- A replica that has just started, on whatever is in the store. -/
def start (kvStore : κ) : SealRun κ where
  replica := { kvStore }

/-- One call, or a restart. -/
def step (metadataStore : InMemoryMetadataStore) (s : SealRun κ) : ReplicaCall → Option (SealRun κ)
  | .append versionId request =>
    let (replica, result) := s.replica.append metadataStore request.globalCommitIndex versionId
      request.logId request.logEntryPayload request.skipSeal request
    some { s with
      replica
      acknowledged := s.acknowledged ++ (match result with
        | .ok completed => completed.map fun e => (versionId, e.2)
        | .error _ => []) }
  | .seal versionId =>
    let (replica, result) := s.replica.seal metadataStore versionId
    some { s with replica, returned := s.returned ++ result.toOption.toList.map (versionId, ·) }
  | .restart => some { s with replica := s.replica.restart }

/-- An append that skips the seal of the nanolog leaves it at `endLogId` or behind, and completes no
parked append that does not skip it. -/
def Respects (nanoLog : RocksNanoLog AppendRequest κ) (endLogId : Int) (request : AppendRequest) :
    Prop :=
  (∀ e ∈ (nanoLog.completionQueue.promises.insert request.logId request).entries,
    e.2.skipSeal = false → ¬ InMemoryNanoLog.Reaches nanoLog.completionQueue
      request.globalCommitIndex request.logId e.1) ∧
  (∀ index ∈ request.globalCommitIndex, endLogId ≤ index + 1) ∧
  (request.globalCommitIndex = none →
    InMemoryNanoLog.Reaches nanoLog.completionQueue none request.logId
      nanoLog.completionQueue.currentIndex →
    nanoLog.completionQueue.currentIndex < endLogId →
    InMemoryNanoLog.Reaches nanoLog.completionQueue none request.logId (endLogId - 1))

/-- What must not happen to a version after its seal has returned `endLogId`.

* An append finds a nanolog, that is, it is not the first call of the version after a restart. One
  that skips the seal and finds its position free respects what was returned.
* If `seal` is the first call after a restart, what was returned is a log id: it is not above the
  largest there is. -/
def Upholds (v endLogId : Int) (s : SealRun κ) : ReplicaCall → Prop
  | .append versionId request => versionId = v →
      ∃ nanoLog ∈ s.replica.nanoLogStore v, request.skipSeal = true →
        KVStoreLite.get s.replica.kvStore (RocksNanoLog.logKey v.repr request.logId) = none →
        Respects nanoLog endLogId request
  | .seal versionId => versionId = v → s.replica.nanoLogStore v = none →
      endLogId ≤ highestNonExistingLogId
  | .restart => True

instance (nanoLog : RocksNanoLog AppendRequest κ) (endLogId : Int) (request : AppendRequest) :
    Decidable (Respects nanoLog endLogId request) :=
  inferInstanceAs (Decidable ((∀ _ ∈ (_ : List _), _) ∧ (∀ _ ∈ request.globalCommitIndex, _) ∧
    (_ → _ → _ → _)))

instance (v endLogId : Int) (s : SealRun κ) : ∀ call, Decidable (Upholds v endLogId s call)
  | .append _ _ =>
    inferInstanceAs (Decidable (_ → ∃ _ ∈ s.replica.nanoLogStore v, _ → _ → Respects _ _ _))
  | .seal _ =>
    haveI : Decidable (s.replica.nanoLogStore v = none) := decidable_of_iff _ Option.isNone_iff_eq_none
    inferInstanceAs (Decidable (_ → _ → _ ≤ _))
  | .restart => isTrue trivial

/-! ## A closed version -/

/-- The nanolog of the version, if there is one, is sealed, and at `endLogId` or behind. -/
def Closed (v endLogId : Int) (replica : RocksReplica AppendRequest κ) : Prop :=
  ∀ nanoLog, replica.nanoLogStore v = some nanoLog →
    RocksNanoLog.Usable replica.kvStore v nanoLog true ∧ endLogId ≤ nanoLog.endIndex

variable [LawfulKVStoreLite κ String] [FlushingKVStoreLite κ String]
  {replica : RocksReplica AppendRequest κ} {metadataStore : InMemoryMetadataStore}
  {v u endLogId : Int} {request : AppendRequest} {s t : SealRun κ} {call : ReplicaCall}

/-- **An append to a sealed nanolog.** -/
theorem append_of_sealed (nanoLog : RocksNanoLog AppendRequest κ)
    (husable : RocksNanoLog.Usable nanoLog.kvStore v nanoLog true)
    (hle : endLogId ≤ nanoLog.endIndex)
    (hok : request.skipSeal = true →
      KVStoreLite.get nanoLog.kvStore (RocksNanoLog.logKey v.repr request.logId) = none →
      Respects nanoLog endLogId request) :
    ∃ result nanoLog', Coro.exec (RocksNanoLog.append request.globalCommitIndex request.logId
        request.logEntryPayload request.skipSeal request) nanoLog = (result, nanoLog') ∧
      endLogId ≤ nanoLog'.endIndex ∧
      ∀ done, result = .ok done → ∀ e ∈ done, e.2.skipSeal = true := by
  obtain ⟨logs, endIndex, hholds⟩ := husable.holds
  have hvacant := hholds.logs request.logId
  rw [← husable.versionId] at hholds
  rcases RocksNanoLog.exec_append_cases request.globalCommitIndex request.logId
      request.logEntryPayload request.skipSeal request hholds husable.sealed_eq with
    ⟨-, e, hexec⟩ | ⟨⟨hskip, hlookup⟩, cached, endIndexDirty, kvStore, stored, hexec, -, hend⟩
  · exact ⟨_, _, hexec, hle, (fun done hdone => nomatch hdone)⟩
  · have hskips : request.skipSeal = true := by simpa using hskip
    obtain ⟨hreached, hindex, hmoves⟩ := hok hskips (hvacant.trans hlookup)
    refine ⟨_, _, hexec, ?_, ?_⟩
    · dsimp only
      rcases hend with ⟨index, hsome, rfl, -, -⟩ | ⟨-, -, rfl, -, -⟩ | ⟨hnone, hlt, rfl, -, -⟩
      · exact hindex index hsome
      · exact hle
      · -- the local commit index has moved, and is the end index now
        rw [hnone] at hlt ⊢
        by_cases hbefore : nanoLog.completionQueue.currentIndex < endLogId
        · have hreach := hmoves hnone (InMemoryNanoLog.reaches_of_lt request hlt) hbefore
          have := InMemoryNanoLog.lt_of_reaches request hreach
          omega
        · exact (not_lt.mp hbefore).trans hlt.le
    · intro done hdone e he
      obtain rfl := Except.ok.inj hdone
      obtain ⟨hmem, hreach⟩ := InMemoryNanoLog.mem_park_iff.mp he
      by_contra hnot
      exact hreached e hmem (Bool.eq_false_iff.mpr hnot) hreach

omit [FlushingKVStoreLite κ String] [LawfulKVStoreLite κ String] in
/-- A call of another version leaves a closed one closed. -/
theorem Closed.of_other {ρ : Type} {nanoLog : RocksNanoLog AppendRequest κ}
    {body : RocksNanoLog.RocksM AppendRequest κ ρ} (h : Closed v endLogId replica)
    (hleaves : RocksNanoLog.Leaves u.repr replica.kvStore nanoLog)
    (hbody : Coro.Keeps (RocksNanoLog.Leaves u.repr replica.kvStore) body) (hu : u ≠ v) :
    Closed v endLogId (replica.call u nanoLog body).1 := by
  intro found hfound
  rw [RocksReplica.call_of_ne hu.symm] at hfound
  obtain ⟨husable, hle⟩ := h found hfound
  exact ⟨RocksReplica.usable_of_leaves (hbody nanoLog hleaves) hu.symm husable, hle⟩

omit [FlushingKVStoreLite κ String] [LawfulKVStoreLite κ String] in
/-- A call of the version itself leaves it closed if the nanolog is sealed afterwards. -/
theorem closed_of_self {ρ : Type} {nanoLog nanoLog' : RocksNanoLog AppendRequest κ}
    {body : RocksNanoLog.RocksM AppendRequest κ ρ} {result : Except RocksNanoLogError ρ}
    (hexec : Coro.exec body nanoLog = (result, nanoLog'))
    (husable : RocksNanoLog.Usable nanoLog'.kvStore v nanoLog' true)
    (hle : endLogId ≤ nanoLog'.endIndex) : Closed v endLogId (replica.call v nanoLog body).1 := by
  intro found hfound
  rw [RocksReplica.call_self, Option.some.injEq, hexec] at hfound
  rw [RocksReplica.call_kvStore, hexec, ← hfound]
  exact ⟨husable, hle⟩

theorem Closed.append (h : Closed v endLogId replica) (hsound : replica.Sound)
    (metadataStore : InMemoryMetadataStore)
    (hok : u = v → ∃ nanoLog ∈ replica.nanoLogStore v, request.skipSeal = true →
      KVStoreLite.get replica.kvStore (RocksNanoLog.logKey v.repr request.logId) = none →
      Respects nanoLog endLogId request) :
    Closed v endLogId (replica.append metadataStore request.globalCommitIndex u request.logId
        request.logEntryPayload request.skipSeal request).1 ∧
      ∀ done, (replica.append metadataStore request.globalCommitIndex u request.logId
        request.logEntryPayload request.skipSeal request).2 = .ok done → u = v →
          ∀ e ∈ done, e.2.skipSeal = true := by
  rcases replica.append_cases metadataStore request.globalCommitIndex u request.logId
    request.logEntryPayload request.skipSeal request with ⟨e, heq⟩ | ⟨nanoLog, hopens, heq⟩
  · rw [heq]
    exact ⟨h, (fun done hdone => nomatch hdone)⟩
  · rw [heq]
    by_cases hu : u = v
    · subst hu
      obtain ⟨found, hfound, hrespects⟩ := hok rfl
      -- it is there, so it is not made again
      have hget : { found with kvStore := replica.kvStore } = nanoLog := by
        rcases hopens with hget | ⟨hnone, -⟩
        · unfold RocksReplica.getNanoLog at hget
          rw [Option.mem_def.mp hfound] at hget
          exact Option.some.inj hget
        · rw [Option.mem_def.mp hfound] at hnone
          cases hnone
      obtain ⟨husable, hle⟩ := h found hfound
      have husable' : RocksNanoLog.Usable nanoLog.kvStore u nanoLog true :=
        hget ▸ ⟨husable.versionId, husable.holds, husable.sealed_eq⟩
      have hle' : endLogId ≤ nanoLog.endIndex := by
        rw [← hget]
        exact hle
      have hrespects' : request.skipSeal = true →
          KVStoreLite.get nanoLog.kvStore (RocksNanoLog.logKey u.repr request.logId) = none →
          Respects nanoLog endLogId request := by
        rw [← hget]
        exact hrespects
      obtain ⟨result, nanoLog', hexec, hend, hdone⟩ :=
        append_of_sealed nanoLog husable' hle' hrespects'
      have hclosed := husable'.append request.globalCommitIndex request.logId request.logEntryPayload
        request.skipSeal request
      rw [hexec] at hclosed
      refine ⟨closed_of_self hexec hclosed hend, fun done hresult _ => hdone done ?_⟩
      rw [RocksReplica.call_result, hexec] at hresult
      exact hresult
    · obtain ⟨-, hleaves⟩ := hsound.opens hopens
      exact ⟨h.of_other hleaves (RocksNanoLog.keeps_append _ _ _ _ _) hu,
        fun _ _ heq => absurd heq hu⟩

theorem Closed.seal (h : Closed v endLogId replica) (hsound : replica.Sound)
    (metadataStore : InMemoryMetadataStore)
    (hok : u = v → replica.nanoLogStore v = none → endLogId ≤ highestNonExistingLogId) :
    Closed v endLogId (replica.seal metadataStore u).1 ∧
      ∀ w, (replica.seal metadataStore u).2 = .ok w → u = v → endLogId ≤ w := by
  rcases replica.seal_cases metadataStore u with ⟨e, heq⟩ | ⟨nanoLog, hopens, heq⟩
  · rw [heq]
    exact ⟨h, (fun w hw => nomatch hw)⟩
  · rw [heq]
    obtain ⟨⟨isSealed, husable⟩, hleaves⟩ := hsound.opens hopens
    by_cases hu : u = v
    · subst hu
      have hle : endLogId ≤ nanoLog.endIndex := by
        rcases hopens with hget | ⟨hnone, config, -, rfl⟩
        · obtain ⟨found, hfound, rfl⟩ := Option.map_eq_some_iff.mp hget
          exact (h found hfound).2
        · -- a new nanolog is at the largest log id
          exact hok rfl hnone
      obtain ⟨kvStore, hexec, hsealed⟩ := husable.seal
      refine ⟨closed_of_self hexec hsealed hle, fun w hw _ => ?_⟩
      rw [RocksReplica.call_result, hexec] at hw
      exact Except.ok.inj hw ▸ hle
    · exact ⟨h.of_other hleaves RocksNanoLog.keeps_seal hu, fun _ _ heq => absurd heq hu⟩

/-! ## Runs -/

/-- Since the callers had seen `acknowledged` and `returned`, the version has been closed. -/
structure Permanent (v endLogId : Int) (acknowledged : List (Int × AppendRequest))
    (returned : List (Int × Int)) (s : SealRun κ) : Prop where
  sound : s.replica.Sound
  closed : Closed v endLogId s.replica
  acknowledged : ∃ new, s.acknowledged = acknowledged ++ new ∧
    ∀ r, (v, r) ∈ new → r.skipSeal = true
  returned : ∃ new, s.returned = returned ++ new ∧ ∀ w, (v, w) ∈ new → endLogId ≤ w

theorem sound_step (h : s.replica.Sound) (hs : step metadataStore s call = some t) :
    t.replica.Sound := by
  cases call with
  | append versionId request =>
    obtain rfl := Option.some.inj hs
    exact h.append _ _ _ _ _ _ _
  | «seal» versionId =>
    obtain rfl := Option.some.inj hs
    exact h.seal _ _
  | restart =>
    obtain rfl := Option.some.inj hs
    exact .restart _

theorem Permanent.step {acknowledged : List (Int × AppendRequest)} {returned : List (Int × Int)}
    (h : Permanent v endLogId acknowledged returned s) (hok : Upholds v endLogId s call)
    (hs : step metadataStore s call = some t) : Permanent v endLogId acknowledged returned t := by
  have hsound := sound_step h.sound hs
  obtain ⟨acks, hacks, hskips⟩ := h.acknowledged
  obtain ⟨values, hvalues, hge⟩ := h.returned
  cases call with
  | append versionId request =>
    obtain ⟨hclosed, hdone⟩ := h.closed.append h.sound metadataStore hok
    rcases hcall : s.replica.append metadataStore request.globalCommitIndex versionId request.logId
      request.logEntryPayload request.skipSeal request with ⟨replica', result⟩
    rw [hcall] at hclosed hdone
    simp only [SealRun.step, hcall] at hs
    obtain rfl := Option.some.inj hs
    refine ⟨hsound, hclosed, ⟨acks ++ _, by rw [hacks, List.append_assoc], fun r hr => ?_⟩,
      ⟨values, hvalues, hge⟩⟩
    rcases List.mem_append.mp hr with hr | hr
    · exact hskips r hr
    · cases result with
      | error e => exact absurd hr List.not_mem_nil
      | ok done =>
        obtain ⟨e, he, heq⟩ := List.mem_map.mp hr
        obtain ⟨rfl, rfl⟩ := Prod.mk.inj heq
        exact hdone done rfl rfl e he
  | «seal» versionId =>
    obtain ⟨hclosed, hreturns⟩ := h.closed.seal h.sound metadataStore hok
    rcases hcall : s.replica.seal metadataStore versionId with ⟨replica', result⟩
    rw [hcall] at hclosed hreturns
    simp only [SealRun.step, hcall] at hs
    obtain rfl := Option.some.inj hs
    refine ⟨hsound, hclosed, ⟨acks, hacks, hskips⟩,
      ⟨values ++ _, by rw [hvalues, List.append_assoc], fun w hw => ?_⟩⟩
    rcases List.mem_append.mp hw with hw | hw
    · exact hge w hw
    · cases result with
      | error e => exact absurd hw List.not_mem_nil
      | ok value =>
        obtain ⟨rfl, rfl⟩ := Prod.mk.inj (List.mem_singleton.mp hw)
        exact hreturns w rfl rfl
  | restart =>
    obtain rfl := Option.some.inj hs
    exact ⟨hsound, (fun _ hfound => nomatch hfound), ⟨acks, hacks, hskips⟩, ⟨values, hvalues, hge⟩⟩

/-- **A seal is permanent as long as the calls of its version uphold it.** A replica has come to
`s`, whatever the store held when it was first started and however often it has been restarted, and
`seal(v)` returns `endLogId`. In a run from there, whose steps all uphold the seal, no append of the
version succeeds that does not skip it, and no `seal(v)` returns less. -/
theorem seal_permanent {kvStore : κ} {calls calls' : List ReplicaCall} {s' : SealRun κ}
    (hrun : Transition.run (SealRun.step metadataStore) (start kvStore) calls = some s)
    (hseal : SealRun.step metadataStore s (.seal v) = some s')
    (hreturned : s'.returned = s.returned ++ [(v, endLogId)])
    (hrun' : Transition.run (SealRun.step metadataStore) s' calls' = some t)
    (hok : Transition.Meets (SealRun.step metadataStore) (Upholds v endLogId) s' calls') :
    (∀ r, (v, r) ∈ t.acknowledged.drop s'.acknowledged.length → r.skipSeal = true) ∧
      ∀ w, (v, w) ∈ t.returned.drop s'.returned.length → endLogId ≤ w := by
  have hsound : s.replica.Sound :=
    Transition.run_invariant (P := fun s => s.replica.Sound) (fun _ _ _ h hs => sound_step h hs) hrun
      (fun _ _ h => nomatch h)
  have hclosed : Closed v endLogId s'.replica := by
    rcases s.replica.seal_cases metadataStore v with ⟨e, heq⟩ | ⟨nanoLog, hopens, heq⟩
    · simp only [SealRun.step, heq] at hseal
      obtain rfl := Option.some.inj hseal
      simp [Except.toOption] at hreturned
    · obtain ⟨⟨isSealed, husable⟩, -⟩ := hsound.opens hopens
      obtain ⟨kvStore', hexec, hsealed⟩ := husable.seal
      have hvalue : (s.replica.call v nanoLog RocksNanoLog.seal).2 = .ok nanoLog.endIndex := by
        rw [RocksReplica.call_result, hexec]
      simp only [SealRun.step, heq, hvalue] at hseal
      obtain rfl := Option.some.inj hseal
      have hend : nanoLog.endIndex = endLogId := by
        simpa [Except.toOption] using hreturned
      exact closed_of_self hexec hsealed hend.ge
  have hpermanent : Permanent v endLogId s'.acknowledged s'.returned t :=
    Transition.meets_invariant (fun _ _ _ h hok hs => h.step hok hs) hrun' hok
      ⟨sound_step hsound hseal, hclosed, ⟨[], by simp⟩, ⟨[], by simp⟩⟩
  obtain ⟨new, hnew, hskips⟩ := hpermanent.acknowledged
  obtain ⟨values, hvalues, hge⟩ := hpermanent.returned
  rw [hnew, hvalues, List.drop_left, List.drop_left]
  exact ⟨hskips, hge⟩

/-- One configuration, for version 1. -/
def oneVersion : InMemoryMetadataStore where
  configs := SortedMap.empty.insert 1 { versionId := 1, startIndex := 1 }

/-- Entry 1 is appended to version 1, and the version is sealed. -/
def sealedOnce : SealRun (RocksStore String) :=
  (Transition.run (step oneVersion) (start (.provideSharedPtr true))
    [.append 1 { logId := 1 }]).getD (start (.provideSharedPtr true))

/-- After a restart the version is sealed again before anything else. -/
def sealAgain : List ReplicaCall :=
  [.append 1 { logId := 2 }, .append 1 { logId := 2, skipSeal := true }, .restart, .seal 1,
    .append 1 { logId := 3 }]

theorem seal_permanent_seal_again :
    ∃ s' t, step oneVersion sealedOnce (.seal 1) = some s' ∧
      Transition.run (step oneVersion) s' sealAgain = some t ∧
      t.acknowledged = [(1, { logId := 1 }), (1, { logId := 2, skipSeal := true })] ∧
      t.returned = [(1, 2), (1, highestNonExistingLogId)] ∧
      (∀ r, (1, r) ∈ t.acknowledged.drop s'.acknowledged.length → r.skipSeal = true) ∧
      ∀ w, (1, w) ∈ t.returned.drop s'.returned.length → 2 ≤ w := by
  have hrun : Transition.run (step oneVersion) (start (.provideSharedPtr true))
      [.append 1 { logId := 1 }] = some sealedOnce := rfl
  have hseal : step oneVersion sealedOnce (.seal 1) =
      some ((step oneVersion sealedOnce (.seal 1)).getD sealedOnce) := rfl
  have hok : Transition.Meets (step oneVersion) (Upholds 1 2)
      ((step oneVersion sealedOnce (.seal 1)).getD sealedOnce) sealAgain := by decide +kernel
  exact ⟨_, _, hseal, rfl, rfl, rfl, seal_permanent hrun hseal rfl rfl hok⟩

/-- **After a restart an append opens the sealed version again**, and the next seal returns less. -/
theorem append_after_seal :
    ∃ s s' t, Transition.run (step oneVersion) (start (κ := RocksStore String)
        (.provideSharedPtr true)) [] = some s ∧
      step oneVersion s (.seal 1) = some s' ∧
      s'.returned = s.returned ++ [(1, highestNonExistingLogId)] ∧
      Transition.run (step oneVersion) s' [.restart, .append 1 { logId := 1 }, .seal 1] = some t ∧
      t.acknowledged.drop s'.acknowledged.length = [(1, { logId := 1 })] ∧
      t.returned.drop s'.returned.length = [(1, 2)] :=
  ⟨_, _, _, rfl, rfl, rfl, rfl, rfl, rfl⟩

end SealRun

end ReplicatedCounter.Log
