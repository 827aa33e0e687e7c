import ReplicatedCounter.Lib.Parties
import ReplicatedCounter.Lib.Transition
import ReplicatedCounter.Metadata.TwoIndexes

/-!
# The acceptors a node asks next

After every register value it applies, a node replaces `currentConfig_` by what the supplier finds:
the configuration of the current version. The replica set of that is who decides the next register.
Whether the value was accepted makes no difference to the supplier, and usually need not.

It does as long as nothing has been accepted. The current version is 0 then, and `getConfig(0)` is
the empty message, whatever the node was bootstrapped with; one rejected value, and the node has no
acceptors left. A configuration that is accepted with version 0 is hidden by the same special case.
`keepsAcceptors_iff` says that these are the only ways to lose them.
-/

set_option autoImplicit false

namespace ReplicatedCounter.Metadata

open Paxos Transition

variable {A ν κ β : Type} [DecidableEq A] [DecidableEq ν] [KVStoreLite κ β]

/-- The last configuration the store has accepted, or the one the node was started with. -/
def lastAccepted (bootstrapConfig : MetadataConfig) (store : InMemoryMetadataStore) :
    MetadataConfig :=
  match store.configs.last? with
  | none => bootstrapConfig
  | some (_, config) => config

/-- **The acceptors of the next register** are those of the last accepted configuration. -/
def KeepsAcceptors (bootstrapConfig : MetadataConfig) (node : MetadataStoreStateMachine) : Prop :=
  node.currentConfig.replicaSetConfig =
    (lastAccepted bootstrapConfig node.delegate).replicaSetConfig

instance (bootstrapConfig : MetadataConfig) (node : MetadataStoreStateMachine) :
    Decidable (KeepsAcceptors bootstrapConfig node) := inferInstanceAs (Decidable (_ = _))

/-- What a store must find when it is given a value: the value is accepted with another version
than 0, or it is rejected in favour of a version that is not 0. (A configuration without replicas
may have version 0.) -/
def FindsAcceptors (store : InMemoryMetadataStore) (config : MetadataConfig) : Prop :=
  match store.compareAndAppendRange config with
  | .ok _ => config.versionId ≠ 0 ∨ config.replicaSetConfig = []
  | .error _ =>
    match store.configs.last? with
    | none => False
    | some (versionId, last) => versionId ≠ 0 ∨ last.replicaSetConfig = []

instance (store : InMemoryMetadataStore) (config : MetadataConfig) :
    Decidable (FindsAcceptors store config) :=
  match happend : store.compareAndAppendRange config with
  | .ok _ =>
    decidable_of_iff (config.versionId ≠ 0 ∨ config.replicaSetConfig = [])
      (by simp [FindsAcceptors, happend])
  | .error _ =>
    match hlast : store.configs.last? with
    | none => .isFalse (by simp [FindsAcceptors, happend, hlast])
    | some (versionId, last) =>
      decidable_of_iff (versionId ≠ 0 ∨ last.replicaSetConfig = [])
        (by simp [FindsAcceptors, happend, hlast])

namespace System

variable (codec : Codec PaxosInstance β) (configCodec : Codec MetadataConfig String)

/-- The value that an event makes a node read from its register and apply. -/
def appliedValue (s : System A ν κ) (n : ν) : SystemEvent A ν → Option MetadataConfig
  | .progress e =>
    if e.IsCall = false ∧ e.owner = some n ∧ (s.nodes n).operation.isSome then
      match s.world.step codec e with
      | some (_, some (.readReturned (some worValue))) => configCodec.parse worValue
      | _ => none
    else none
  | _ => none

end System

section statement

variable (codec : Codec PaxosInstance β) (configCodec : Codec MetadataConfig String)
  (registry : String → A) (bootstrapConfig : MetadataConfig) (n : ν)

/-- After the event, if it can happen, the node has the acceptors it should have. -/
def KeepsAcceptorsAfter (s : System A ν κ) (e : SystemEvent A ν) : Prop :=
  ∀ s', s.next codec configCodec registry e = some s' → KeepsAcceptors bootstrapConfig (s'.nodes n)

instance (s : System A ν κ) (e : SystemEvent A ν) :
    Decidable (KeepsAcceptorsAfter codec configCodec registry bootstrapConfig n s e) :=
  match hnext : s.next codec configCodec registry e with
  | none => .isTrue (by simp [KeepsAcceptorsAfter, hnext])
  | some s' =>
    decidable_of_iff (KeepsAcceptors bootstrapConfig (s'.nodes n))
      (by simp [KeepsAcceptorsAfter, hnext])

/-- The event does not make the node apply a value for which its store finds no acceptors. -/
def AppliesFindable (s : System A ν κ) (e : SystemEvent A ν) : Prop :=
  ∀ config ∈ s.appliedValue codec configCodec n e,
    (s.next codec configCodec registry e).isSome → FindsAcceptors (s.nodes n).delegate config

instance (s : System A ν κ) (e : SystemEvent A ν) :
    Decidable (AppliesFindable codec configCodec registry n s e) :=
  match happlied : s.appliedValue codec configCodec n e with
  | none => .isTrue (by simp [AppliesFindable, happlied])
  | some config =>
    decidable_of_iff ((s.next codec configCodec registry e).isSome →
      FindsAcceptors (s.nodes n).delegate config) (by simp [AppliesFindable, happlied])

end statement

variable {codec : Codec PaxosInstance β} {configCodec : Codec MetadataConfig String}
  {registry : String → A} {bootstrapConfig config : MetadataConfig} {n m : ν}
  {s s' : System A ν κ} {node node' : MetadataStoreStateMachine} {w w' : World A ν κ}
  {e : SystemEvent A ν} {out : Option (SystemOutput ν)}

/-! ## The store and its supplier -/

/-- The last accepted configuration, for a store that was replayed. -/
theorem lastAccepted_replay (bootstrapConfig : MetadataConfig) (log : List MetadataConfig) :
    lastAccepted bootstrapConfig (replay log) =
      (InMemoryMetadataStore.accepted {} log).getLast?.getD bootstrapConfig := by
  unfold lastAccepted
  rw [(InMemoryMetadataStore.indexed_replay log).last?_eq]
  cases (InMemoryMetadataStore.accepted {} log).getLast? with
  | none => rfl
  | some config => rfl

/-- What the supplier finds. -/
theorem currentConfigSupplier_eq (store : InMemoryMetadataStore) :
    currentConfigSupplier store = some (match store.configs.last? with
      | none => {}
      | some (versionId, last) => if versionId = 0 then {} else last) := by
  unfold currentConfigSupplier InMemoryMetadataStore.getConfig
    InMemoryMetadataStore.getCurrentVersionId
  cases hlast : store.configs.last? with
  | none => rfl
  | some entry =>
    obtain ⟨versionId, last⟩ := entry
    dsimp only
    split
    · rfl
    · rw [SortedMap.find?_of_last? hlast]

/-- **Applying a value** leaves the right acceptors exactly if the store finds them. -/
theorem keepsAcceptors_of_apply (hbootstrap : bootstrapConfig.replicaSetConfig ≠ [])
    (hdelegate : node'.delegate = (MetadataStoreApplicator.apply node.delegate config).1)
    (hcurrent : currentConfigSupplier node'.delegate = some node'.currentConfig) :
    KeepsAcceptors bootstrapConfig node' ↔ FindsAcceptors node.delegate config := by
  have hkeeps : KeepsAcceptors bootstrapConfig node' ↔
      match node'.delegate.configs.last? with
      | none => False
      | some (versionId, last) => versionId ≠ 0 ∨ last.replicaSetConfig = [] := by
    unfold KeepsAcceptors lastAccepted
    rw [currentConfigSupplier_eq, Option.some.injEq] at hcurrent
    rw [← hcurrent]
    cases node'.delegate.configs.last? with
    | none =>
      constructor
      · intro h
        exact hbootstrap h.symm
      · intro h
        cases h
    | some entry =>
      obtain ⟨versionId, last⟩ := entry
      dsimp only
      by_cases hzero : versionId = 0
      · rw [if_pos hzero]
        constructor
        · intro h
          exact .inr h.symm
        · intro h
          exact (h.resolve_left (not_not.mpr hzero)).symm
      · rw [if_neg hzero]
        exact ⟨fun _ => .inl hzero, fun _ => rfl⟩
  rw [hkeeps]
  unfold FindsAcceptors
  unfold MetadataStoreApplicator.apply at hdelegate
  cases happend : node.delegate.compareAndAppendRange config with
  | ok store =>
    rw [happend] at hdelegate
    rw [hdelegate, InMemoryMetadataStore.last?_of_compareAndAppendRange happend]
  | error e =>
    rw [happend] at hdelegate
    rw [hdelegate]

/-! ## What an event does to a node -/

/-- The store and the configuration in force are the same. -/
def SameConfig (node node' : MetadataStoreStateMachine) : Prop :=
  node'.delegate = node.delegate ∧ node'.currentConfig = node.currentConfig

/-- The node has applied a value. -/
def HasApplied (config : MetadataConfig) (node node' : MetadataStoreStateMachine) : Prop :=
  node'.delegate = (MetadataStoreApplicator.apply node.delegate config).1 ∧
    currentConfigSupplier node'.delegate = some node'.currentConfig

theorem hasApplied_of_applyWorValue {result : Option ApplicationResult}
    (h : System.applyWorValue node config = (node', result)) : HasApplied config node node' := by
  obtain ⟨currentConfig, hsupplier, heq⟩ := applyWorValue_spec node config
  rw [heq] at h
  obtain ⟨rfl, -⟩ := Prod.mk.inj h
  exact ⟨rfl, hsupplier⟩

/-- The value a register call returned, if it is one to be applied. -/
def valueOf (configCodec : Codec MetadataConfig String) : Output → Option MetadataConfig
  | .readReturned (some worValue) => configCodec.parse worValue
  | _ => none

/-- A node that goes on has applied what was read, or nothing. -/
def Went (configCodec : Codec MetadataConfig String) (output : Output)
    (node node' : MetadataStoreStateMachine) : Prop :=
  match valueOf configCodec output with
  | none => SameConfig node node'
  | some config => HasApplied config node node'

theorem went_resumeAppend {successfullyWritten : Bool} {output : Output}
    (hs : System.resumeAppend codec configCodec registry w n node config successfullyWritten
      output = some (w', node', out)) : Went configCodec output node node' := by
  unfold System.resumeAppend at hs
  unfold Went valueOf
  split at hs
  · simp only [bind, pure, Option.bind_eq_some_iff, Option.some.injEq, Prod.mk.injEq] at hs
    obtain ⟨_, _, _, rfl, -⟩ := hs
    exact ⟨rfl, rfl⟩
  · simp only [bind, pure, Option.bind_eq_some_iff, Option.some.injEq, Prod.mk.injEq] at hs
    obtain ⟨_, _, _, rfl, -⟩ := hs
    exact ⟨rfl, rfl⟩
  · simp only [bind, pure, Option.bind_eq_some_iff, Option.some.injEq, Prod.mk.injEq] at hs
    obtain ⟨_, _, _, rfl, -⟩ := hs
    exact ⟨rfl, rfl⟩
  · simp only [bind, pure, Option.bind_eq_some_iff, Option.some.injEq, Prod.mk.injEq] at hs
    obtain ⟨_, _, _, rfl, -⟩ := hs
    exact ⟨rfl, rfl⟩
  · rename_i worValue
    dsimp only
    cases hparse : configCodec.parse worValue with
    | none =>
      simp only [hparse, Option.some.injEq, Prod.mk.injEq] at hs
      obtain ⟨-, rfl, -⟩ := hs
      exact ⟨rfl, rfl⟩
    | some metadataConfig =>
      simp only [hparse] at hs
      rcases happly : System.applyWorValue node metadataConfig with ⟨node₁, result⟩
      have happlied := hasApplied_of_applyWorValue happly
      simp only [happly] at hs
      cases result with
      | none =>
        simp only [Option.some.injEq, Prod.mk.injEq] at hs
        obtain ⟨-, rfl, -⟩ := hs
        exact happlied
      | some result =>
        dsimp only at hs
        split at hs
        · simp only [Option.some.injEq, Prod.mk.injEq] at hs
          obtain ⟨-, rfl, -⟩ := hs
          exact happlied
        · simp only [bind, pure, Option.bind_eq_some_iff, Option.some.injEq, Prod.mk.injEq] at hs
          obtain ⟨_, _, _, rfl, -⟩ := hs
          exact happlied
  · simp only [Option.some.injEq, Prod.mk.injEq] at hs
    obtain ⟨-, rfl, -⟩ := hs
    exact ⟨rfl, rfl⟩

theorem went_resumeSync {output : Output}
    (hs : System.resumeSync codec configCodec registry w n node output = some (w', node', out)) :
    Went configCodec output node node' := by
  unfold System.resumeSync at hs
  unfold Went valueOf
  split at hs
  · simp only [Option.some.injEq, Prod.mk.injEq] at hs
    obtain ⟨-, rfl, -⟩ := hs
    exact ⟨rfl, rfl⟩
  · rename_i worValue
    dsimp only
    cases hparse : configCodec.parse worValue with
    | none =>
      simp only [hparse, Option.some.injEq, Prod.mk.injEq] at hs
      obtain ⟨-, rfl, -⟩ := hs
      exact ⟨rfl, rfl⟩
    | some metadataConfig =>
      simp only [hparse] at hs
      rcases happly : System.applyWorValue node metadataConfig with ⟨node₁, result⟩
      have happlied := hasApplied_of_applyWorValue happly
      simp only [happly] at hs
      cases result with
      | none =>
        simp only [Option.some.injEq, Prod.mk.injEq] at hs
        obtain ⟨-, rfl, -⟩ := hs
        exact happlied
      | some result =>
        simp only [bind, pure, Option.bind_eq_some_iff, Option.some.injEq, Prod.mk.injEq] at hs
        obtain ⟨_, _, _, rfl, -⟩ := hs
        exact happlied
  · simp only [Option.some.injEq, Prod.mk.injEq] at hs
    obtain ⟨-, rfl, -⟩ := hs
    exact ⟨rfl, rfl⟩
  · cases hs
  · cases hs

theorem went_resume {output : Output}
    (hs : System.resume codec configCodec registry w n node output = some (w', node', out)) :
    node.operation.isSome ∧ Went configCodec output node node' := by
  unfold System.resume at hs
  cases hoperation : node.operation with
  | none =>
    rw [hoperation] at hs
    cases hs
  | some operation =>
    rw [hoperation] at hs
    refine ⟨rfl, ?_⟩
    cases operation with
    | append config successfullyWritten => exact went_resumeAppend hs
    | sync => exact went_resumeSync hs

omit [DecidableEq A] in
theorem sameConfig_setNode {operation : Option Operation} :
    SameConfig (s.nodes n)
      ((s.setNode w m { s.nodes m with operation := operation }).nodes n) := by
  unfold System.setNode
  by_cases hn : n = m
  · subst hn
    dsimp only
    rw [Function.update_self]
    exact ⟨rfl, rfl⟩
  · dsimp only
    rw [Function.update_of_ne hn]
    exact ⟨rfl, rfl⟩

/-- What the event did to the node. -/
def Moved (codec : Codec PaxosInstance β) (configCodec : Codec MetadataConfig String) (n : ν)
    (s s' : System A ν κ) (e : SystemEvent A ν) : Prop :=
  match s.appliedValue codec configCodec n e with
  | none => SameConfig (s.nodes n) (s'.nodes n)
  | some config => HasApplied config (s.nodes n) (s'.nodes n)

theorem moved_of_eq_none (happlied : s.appliedValue codec configCodec n e = none)
    (h : SameConfig (s.nodes n) (s'.nodes n)) : Moved codec configCodec n s s' e := by
  unfold Moved
  rw [happlied]
  exact h

/-- A register call that goes on by itself. -/
theorem moved_progress {e : Paxos.Event A ν}
    (hs : s.step codec configCodec registry (.progress e) = some (s', out)) :
    Moved codec configCodec n s s' (.progress e) := by
  obtain ⟨he, w, output, hstep, ⟨m, output, w', node', howner, rfl, hresume, rfl⟩ |
    ⟨hnone, rfl, -⟩⟩ := System.step_progress_cases hs
  · obtain ⟨hoperation, hwent⟩ := went_resume hresume
    by_cases hn : n = m
    · subst hn
      have happlied : s.appliedValue codec configCodec n (.progress e) =
          valueOf configCodec output := by
        unfold System.appliedValue valueOf
        dsimp only
        rw [if_pos ⟨he, howner, hoperation⟩, hstep]
        cases output with
        | readReturned value => cases value <;> rfl
        | lockReturned lockId => rfl
        | writeReturned result => rfl
        | threw error => rfl
      have hnode : (s.setNode w' n node').nodes n = node' := Function.update_self ..
      unfold Moved
      rw [happlied, hnode]
      exact hwent
    · -- somebody else's call
      have hnode : (s.setNode w' m node').nodes n = s.nodes n := Function.update_of_ne hn ..
      apply moved_of_eq_none
      · simp [System.appliedValue, howner, Ne.symm hn]
      · rw [hnode]
        exact ⟨rfl, rfl⟩
  · refine moved_of_eq_none ?_ ⟨rfl, rfl⟩
    rcases hnone with howner | rfl
    · simp [System.appliedValue, howner]
    · simp [System.appliedValue, hstep]

/-- **An event** makes a node apply a value, or leaves its store and its configuration alone. -/
theorem moved_of_next (hs : s.next codec configCodec registry e = some s') :
    Moved codec configCodec n s s' e := by
  unfold System.next at hs
  rw [Option.map_eq_some_iff] at hs
  obtain ⟨⟨s', out⟩, hs, rfl⟩ := hs
  cases e with
  | append m config =>
    obtain ⟨_, _, rfl, -⟩ := System.step_append_cases hs
    exact moved_of_eq_none rfl sameConfig_setNode
  | sync m =>
    obtain ⟨_, _, rfl, -⟩ := System.step_sync_cases hs
    exact moved_of_eq_none rfl sameConfig_setNode
  | progress e => exact moved_progress hs

theorem KeepsAcceptors.congr (h : SameConfig node node') :
    KeepsAcceptors bootstrapConfig node' ↔ KeepsAcceptors bootstrapConfig node := by
  unfold KeepsAcceptors
  rw [h.1, h.2]

/-! ## A run -/

/-- **One event** leaves the node with the right acceptors exactly if it does not make it apply a
value for which its store finds none. -/
theorem keepsAcceptorsAfter_iff (hbootstrap : bootstrapConfig.replicaSetConfig ≠ [])
    (hs : KeepsAcceptors bootstrapConfig (s.nodes n)) :
    KeepsAcceptorsAfter codec configCodec registry bootstrapConfig n s e ↔
      AppliesFindable codec configCodec registry n s e := by
  constructor
  · intro h config happlied henabled
    obtain ⟨s', hnext⟩ := Option.isSome_iff_exists.mp henabled
    have hmoved := moved_of_next (n := n) hnext
    unfold Moved at hmoved
    rw [happlied] at hmoved
    exact (keepsAcceptors_of_apply hbootstrap hmoved.1 hmoved.2).mp (h s' hnext)
  · intro h s' hnext
    have hmoved := moved_of_next (n := n) hnext
    unfold Moved at hmoved
    cases happlied : s.appliedValue codec configCodec n e with
    | none =>
      rw [happlied] at hmoved
      exact (KeepsAcceptors.congr hmoved).mpr hs
    | some config =>
      rw [happlied] at hmoved
      apply (keepsAcceptors_of_apply hbootstrap hmoved.1 hmoved.2).mpr
      exact h config happlied (Option.isSome_iff_exists.mpr ⟨s', hnext⟩)

/-- **A node always asks the acceptors of the last accepted configuration, exactly if it never
applies a value for which its store finds none.** -/
theorem keepsAcceptors_iff (hinit : System.Initial bootstrapConfig s)
    (hbootstrap : bootstrapConfig.replicaSetConfig ≠ []) (n : ν) (es : List (SystemEvent A ν)) :
    Meets (System.next codec configCodec registry)
        (KeepsAcceptorsAfter codec configCodec registry bootstrapConfig n) s es ↔
      Meets (System.next codec configCodec registry)
        (AppliesFindable codec configCodec registry n) s es := by
  apply meets_congr (I := fun s => KeepsAcceptors bootstrapConfig (s.nodes n))
  · intro s e hs
    exact keepsAcceptorsAfter_iff hbootstrap hs
  · intro s e s' hs hok hnext
    exact (keepsAcceptorsAfter_iff hbootstrap hs).mpr hok s' hnext
  · rw [hinit.nodes n]
    rfl

/-- A configuration is accepted, and the node moves on to its acceptor. -/
theorem keepsAcceptors_append_then_sync :
    Meets (System.next (Codec.identity PaxosInstance) MetadataConfig.wireCodec id)
      (KeepsAcceptorsAfter (Codec.identity PaxosInstance) MetadataConfig.wireCodec id
        { replicaSetConfig := [{ id := "a" }] } 0) twoNodes appendThenSync := by
  have hinit : System.Initial { replicaSetConfig := [{ id := "a" }] } twoNodes :=
    ⟨⟨fun _ _ => rfl, fun _ => rfl, rfl, rfl⟩, fun _ => rfl⟩
  apply (keepsAcceptors_iff hinit (by decide) 0 appendThenSync).mpr
  decide +kernel

/-- The first value is rejected. `compareAndAppendRange` throws, as it should, and the node is left
without acceptors. -/
theorem rejected_config_loses_acceptors :
    let es : List (SystemEvent String (Fin 2)) :=
      [.append 0 { versionId := 5, previousVersionId := 4, replicaSetConfig := [{ id := "b" }] },
        .progress (.prepare 0 0 false), .progress (.lockDone 0), .progress (.accept 0),
        .progress (.acceptDone 0), .progress (.commit 0), .progress (.commitDone 0),
        .progress (.readNext 0)]
    ((run (System.next (Codec.identity PaxosInstance) MetadataConfig.wireCodec id)
      twoNodes es).map fun s => ((s.nodes 0).operation, (s.nodes 0).delegate.configs.entries,
        (s.nodes 0).currentConfig.replicaSetConfig)) = some (none, [], []) ∧
    ¬ Meets (System.next (Codec.identity PaxosInstance) MetadataConfig.wireCodec id)
      (KeepsAcceptorsAfter (Codec.identity PaxosInstance) MetadataConfig.wireCodec id
        { replicaSetConfig := [{ id := "a" }] } 0) twoNodes es := by
  decide +kernel

end ReplicatedCounter.Metadata
