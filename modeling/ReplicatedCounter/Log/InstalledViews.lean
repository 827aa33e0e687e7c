import ReplicatedCounter.Log.FailureDetector

/-!
# The versions that nodes have installed

The invariant of `FailureDetector.lean` when the two loops of a node keep out of each other's way.
A version is *read* from the store before anything is installed, and what is read is never above
the current version; so all there is to show is that a call finds the state of its
`VirtualLogImpl` as it was when it began.
-/

set_option autoImplicit false

namespace ReplicatedCounter.Log

open Metadata InMemoryMetadataStore

/-! ## What may be read from the store -/

/-- The store has been built by `compareAndAppendRange`, from version 1 on. -/
structure Grown (store : InMemoryMetadataStore) : Prop where
  reachable : Reachable store
  one_le : ∀ v c, store.configs.find? v = some c → 1 ≤ v

/-- The version has been the current one. -/
structure WasCurrent (store : InMemoryMetadataStore) (v : Int) : Prop where
  nonneg : 0 ≤ v
  le : v ≤ store.getCurrentVersionId
  there : (store.getConfig v).isSome

/-- The configuration was stored under its version; since then it may have been told its end. -/
structure WasInstalled (store : InMemoryMetadataStore) (c : MetadataConfig) : Prop where
  one_le : 1 ≤ c.versionId
  stored : ∃ d, store.configs.find? c.versionId = some d ∧ d = { c with endIndex := d.endIndex }

variable {store store' : InMemoryMetadataStore} {c d : MetadataConfig} {v : Int}

theorem startOf_of_find? (h : store.configs.find? v = some c) :
    store.startOf v = some c.startIndex := by
  unfold startOf
  rw [h]
  rfl

theorem Grown.nonneg (h : Grown store) : 0 ≤ store.getCurrentVersionId := by
  unfold getCurrentVersionId
  cases hlast : store.configs.last? with
  | none => exact le_rfl
  | some entry =>
    have := h.one_le entry.1 entry.2 (SortedMap.find?_of_last? hlast)
    exact (show (0 : Int) ≤ 1 by decide).trans this

theorem Grown.wasCurrent (h : Grown store) : WasCurrent store store.getCurrentVersionId := by
  obtain ⟨c, hc⟩ := getConfig_currentVersion store
  exact ⟨h.nonneg, le_rfl, by rw [hc]; rfl⟩

theorem getCurrentVersionId_append (h : store.compareAndAppendRange c = .ok store')
    (hnext : c.versionId = c.previousVersionId + 1) :
    store'.getCurrentVersionId = c.versionId := by
  have hprev := previousVersionId_of_compareAndAppendRange h
  apply getCurrentVersionId_eq (startOf_of_find? (find?_of_compareAndAppendRange h))
  intro w b hw
  rw [startOf_of_compareAndAppendRange h] at hw
  split at hw
  · rename_i heq
    exact heq.le
  · have := le_getCurrentVersionId hw
    omega

theorem Grown.append (h : Grown store) (happend : store.compareAndAppendRange c = .ok store')
    (hone : 1 ≤ c.versionId) : Grown store' := by
  refine ⟨.append h.reachable happend, ?_⟩
  intro v d hd
  rcases configs_of_compareAndAppendRange happend hd with ⟨rfl, -⟩ | ⟨-, -, last, hlast, -⟩ |
    ⟨-, -, hold⟩
  · exact hone
  · exact h.one_le v last hlast
  · exact h.one_le v d hold

theorem WasCurrent.append (h : WasCurrent store v)
    (happend : store.compareAndAppendRange c = .ok store')
    (hnext : c.versionId = c.previousVersionId + 1) : WasCurrent store' v := by
  have hprev := previousVersionId_of_compareAndAppendRange happend
  have hle := h.le
  refine ⟨h.nonneg, ?_, isSome_getConfig_of_compareAndAppendRange happend h.there⟩
  rw [getCurrentVersionId_append happend hnext]
  omega

theorem WasInstalled.le (h : WasInstalled store c) : c.versionId ≤ store.getCurrentVersionId := by
  obtain ⟨d, hd, -⟩ := h.stored
  exact le_getCurrentVersionId (startOf_of_find? hd)

theorem WasInstalled.append (h : WasInstalled store c) (happend : store.compareAndAppendRange d = .ok store')
    (hnext : d.versionId = d.previousVersionId + 1) : WasInstalled store' c := by
  obtain ⟨e, he, heq⟩ := h.stored
  have hprev := previousVersionId_of_compareAndAppendRange happend
  have hle := h.le
  have hstart := startOf_of_compareAndAppendRange (v := c.versionId) happend
  rw [if_neg (by omega), startOf_of_find? he] at hstart
  obtain ⟨e', he', -⟩ := Option.map_eq_some_iff.mp hstart
  refine ⟨h.one_le, e', he', ?_⟩
  rcases configs_of_compareAndAppendRange happend he' with ⟨hv, -⟩ | ⟨-, -, last, hlast, rfl⟩ |
    ⟨-, -, hold⟩
  · omega
  · obtain rfl : e = last := Option.some.inj (he.symm.trans hlast)
    rw [heq]
  · obtain rfl : e = e' := Option.some.inj (he.symm.trans hold)
    exact heq

/-- What the store has just accepted. -/
theorem WasInstalled.new (h : store.compareAndAppendRange c = .ok store') (hone : 1 ≤ c.versionId) :
    WasInstalled store' c :=
  ⟨hone, c, find?_of_compareAndAppendRange h, rfl⟩

/-- What is read under a version other than 0 was stored there. -/
theorem Grown.wasInstalled_of_getConfig (h : Grown store) (hone : 1 ≤ v)
    (hc : store.getConfig v = some c) : WasInstalled store c ∧ c.versionId = v := by
  unfold getConfig at hc
  rw [if_neg (by omega)] at hc
  have hv := h.reachable.versionId_eq hc
  refine ⟨⟨hv ▸ hone, c, hv ▸ hc, rfl⟩, hv⟩

/-- Two readings of one version differ in the end only. -/
theorem WasInstalled.eq (h : WasInstalled store c) (h' : store.configs.find? c.versionId = some d) :
    d.startIndex = c.startIndex ∧ d.sequencerConfig = c.sequencerConfig := by
  obtain ⟨e, he, heq⟩ := h.stored
  obtain rfl : e = d := Option.some.inj (he.symm.trans h')
  rw [heq]
  exact ⟨rfl, rfl⟩

/-- A proposal is refused only when there is a version. -/
theorem Grown.one_le_of_error (h : Grown store) {e : MetadataError} (hv : WasCurrent store v)
    (hprev : c.previousVersionId = v) (herror : store.compareAndAppendRange c = .error e) :
    1 ≤ store.getCurrentVersionId := by
  have hle := hv.le
  have hnonneg := hv.nonneg
  unfold compareAndAppendRange at herror
  cases hlast : store.configs.last? with
  | none =>
    have hzero : store.getCurrentVersionId = 0 := by
      unfold getCurrentVersionId
      rw [hlast]
    simp only [hlast] at herror
    rw [if_neg (by omega)] at herror
    cases herror
  | some entry =>
    have hone := h.one_le entry.1 entry.2 (SortedMap.find?_of_last? hlast)
    unfold getCurrentVersionId
    rw [hlast]
    exact hone

/-! ## A call that is alone on its node -/

section

variable {ι σ : Type} (registry : ι → RegistryImpl σ)

/-- Every node has a sequencer of this id. -/
def Resolves (id : String) : Prop := ∀ n, ∃ sequencer, (registry n).sequencer id = some sequencer

/-- What the rest of the call relies on, after a `setState` of version `v`. -/
def AfterSetState.Fits (store : InMemoryMetadataStore) (v : Int) : AfterSetState → Prop
  | .refreshed => True
  | .start newConfig => WasInstalled store newConfig ∧ newConfig.versionId = v
  | .getConfig versionId => versionId = v

/-- A call with what it has read, when version `installed` is installed on its node. -/
def CallPhase.Fits (store : InMemoryMetadataStore) (installed : Int) : CallPhase → Prop
  | .refreshConfiguration => True
  | .refreshing versionId => WasCurrent store versionId ∧ installed ≤ versionId
  | .reconfigure target => Resolves registry target.sequencerConfig.id
  | .replicating versionId target => WasCurrent store versionId ∧ installed ≤ versionId ∧
    Resolves registry target.sequencerConfig.id
  | .overtaken => 1 ≤ store.getCurrentVersionId
  | .setState versionId next => 1 ≤ versionId ∧ WasCurrent store versionId ∧
    installed ≤ versionId ∧ next.Fits store versionId
  | .installing config next => WasInstalled store config ∧ installed ≤ config.versionId ∧
    next.Fits store config.versionId
  | .starting newConfig => WasInstalled store newConfig ∧ installed = newConfig.versionId
  | .returning _ => True

/-- What a `VirtualLogImpl` has installed: nothing yet, or a version with its sequencer. -/
def VirtualLogImpl.Current (store : InMemoryMetadataStore) (log : VirtualLogImpl σ) : Prop :=
  (log.metadataConfig = {} ∧ log.sequencer = none) ∨
  (WasInstalled store log.metadataConfig ∧
    log.registry.sequencer log.metadataConfig.sequencerConfig.id = log.sequencer ∧
    log.sequencer ≠ none)

/-- One node, with one call at most. -/
structure SoundNode (store : InMemoryMetadataStore) (n : ι) (node : EnsembleNode σ) : Prop where
  registered : node.virtualLog.registry = registry n
  target : Resolves registry node.logServerConfig.sequencerId
  alive : node.crashed = false
  current : node.virtualLog.Current store
  alone : ∀ loop loop', node.calls loop ≠ none → node.calls loop' ≠ none → loop = loop'
  fits : ∀ loop call, node.calls loop = some call →
    call.Fits registry store node.virtualLog.metadataConfig.versionId

variable {registry} {n : ι} {node : EnsembleNode σ} {loop : Loop} {call : CallPhase}
  {next : AfterSetState} {installed : Int} {log : VirtualLogImpl σ}

/-! ## The store grows -/

theorem AfterSetState.Fits.append (h : next.Fits store v)
    (happend : store.compareAndAppendRange d = .ok store')
    (hnext : d.versionId = d.previousVersionId + 1) : next.Fits store' v := by
  cases next with
  | refreshed => trivial
  | start newConfig => exact ⟨h.1.append happend hnext, h.2⟩
  | getConfig versionId => exact h

theorem CallPhase.Fits.append (h : call.Fits registry store installed)
    (happend : store.compareAndAppendRange d = .ok store')
    (hnext : d.versionId = d.previousVersionId + 1) :
    call.Fits registry store' installed := by
  cases call with
  | refreshConfiguration => trivial
  | refreshing versionId => exact ⟨h.1.append happend hnext, h.2⟩
  | reconfigure target => exact h
  | replicating versionId target => exact ⟨h.1.append happend hnext, h.2⟩
  | overtaken =>
    have hold : 1 ≤ store.getCurrentVersionId := h
    have hprev := previousVersionId_of_compareAndAppendRange happend
    show 1 ≤ store'.getCurrentVersionId
    rw [getCurrentVersionId_append happend hnext]
    omega
  | setState versionId next =>
    obtain ⟨hone, hwas, hle, hfits⟩ := h
    exact ⟨hone, hwas.append happend hnext, hle, hfits.append happend hnext⟩
  | installing config next =>
    obtain ⟨hwas, hle, hfits⟩ := h
    exact ⟨hwas.append happend hnext, hle, hfits.append happend hnext⟩
  | starting newConfig => exact ⟨h.1.append happend hnext, h.2⟩
  | returning versionId => trivial

theorem VirtualLogImpl.Current.append (h : log.Current store)
    (happend : store.compareAndAppendRange d = .ok store')
    (hnext : d.versionId = d.previousVersionId + 1) : log.Current store' := by
  rcases h with hempty | ⟨hwas, hsequencer⟩
  · exact .inl hempty
  · exact .inr ⟨hwas.append happend hnext, hsequencer⟩

theorem SoundNode.append (h : SoundNode registry store n node)
    (happend : store.compareAndAppendRange d = .ok store')
    (hnext : d.versionId = d.previousVersionId + 1) : SoundNode registry store' n node :=
  ⟨h.registered, h.target, h.alive, h.current.append happend hnext, h.alone,
    fun loop call hcall => (h.fits loop call hcall).append happend hnext⟩

/-! ## A call goes on -/

theorem VirtualLogImpl.Current.nonneg (h : log.Current store) : 0 ≤ log.metadataConfig.versionId := by
  rcases h with ⟨hempty, -⟩ | ⟨hwas, -⟩
  · rw [hempty]
  · exact (show (0 : Int) ≤ 1 by decide).trans hwas.one_le

theorem VirtualLogImpl.Current.le (h : log.Current store) (hgrown : Grown store) :
    log.metadataConfig.versionId ≤ store.getCurrentVersionId := by
  rcases h with ⟨hempty, -⟩ | ⟨hwas, -⟩
  · rw [hempty]
    exact hgrown.nonneg
  · exact hwas.le

/-- The call that is under way has moved. -/
theorem SoundNode.moved (h : SoundNode registry store n node) {node' : EnsembleNode σ}
    {next : Option CallPhase} (halone : ∀ loop', node.calls loop' ≠ none → loop' = loop)
    (hregistry : node'.virtualLog.registry = node.virtualLog.registry)
    (hconfig : node'.logServerConfig = node.logServerConfig) (halive : node'.crashed = false)
    (hcurrent : node'.virtualLog.Current store)
    (hcalls : node'.calls = Function.update node.calls loop next)
    (hfits : ∀ call, next = some call →
      call.Fits registry store node'.virtualLog.metadataConfig.versionId) :
    SoundNode registry store n node' := by
  have hbusy : ∀ loop', node'.calls loop' ≠ none → loop' = loop := by
    intro loop' hbusy
    by_cases heq : loop' = loop
    · exact heq
    · rw [hcalls, Function.update_of_ne heq] at hbusy
      exact halone loop' hbusy
  refine ⟨hregistry.trans h.registered, hconfig ▸ h.target, halive, hcurrent, ?_, ?_⟩
  · intro loop₁ loop₂ hbusy₁ hbusy₂
    exact (hbusy loop₁ hbusy₁).trans (hbusy loop₂ hbusy₂).symm
  · intro loop' call hcall
    obtain rfl : loop' = loop := hbusy loop' (by rw [hcall]; exact Option.some_ne_none call)
    rw [hcalls, Function.update_self] at hcall
    exact hfits call hcall

theorem SoundNode.setCall (h : SoundNode registry store n node) {next : Option CallPhase}
    (halone : ∀ loop', node.calls loop' ≠ none → loop' = loop)
    (hfits : ∀ call, next = some call →
      call.Fits registry store node.virtualLog.metadataConfig.versionId) :
    SoundNode registry store n (node.setCall loop next) :=
  h.moved halone rfl rfl h.alive h.current rfl hfits

/-- Nothing has moved. -/
theorem SoundNode.kept (h : SoundNode registry store n node) {node' : EnsembleNode σ}
    (hlog : node'.virtualLog = node.virtualLog)
    (hconfig : node'.logServerConfig = node.logServerConfig) (halive : node'.crashed = false)
    (hcalls : node'.calls = node.calls) : SoundNode registry store n node' :=
  ⟨hlog ▸ h.registered, hconfig ▸ h.target, halive, hlog ▸ h.current, hcalls ▸ h.alone,
    hlog ▸ hcalls ▸ h.fits⟩

theorem SoundNode.healthCheck (h : SoundNode registry store n node) {result : Bool}
    (hidle : node.calls .healthCheck = none)
    (halone : (node.healthCheck result).ensembleAlive = true ∨ node.calls .reconcile = none) :
    SoundNode registry store n (node.healthCheck result) := by
  unfold EnsembleNode.healthCheck at halone ⊢
  dsimp only at halone ⊢
  generalize (node.healthCheckRecords ++ [result]).drop 1 = records at halone ⊢
  cases hany : records.any id with
  | true =>
    refine h.kept rfl rfl h.alive ?_
    show Function.update node.calls .healthCheck none = node.calls
    rw [← hidle, Function.update_eq_self]
  | false =>
    have hbusy : ∀ loop', node.calls loop' ≠ none → loop' = .healthCheck := by
      intro loop' hbusy
      cases loop' with
      | healthCheck => rfl
      | reconcile =>
        rcases halone with halive | hnone
        · exact absurd (hany.symm.trans halive) (by simp)
        · exact absurd hnone hbusy
    refine h.moved hbusy rfl rfl h.alive h.current rfl ?_
    intro call hnext
    obtain rfl := Option.some.inj hnext
    trivial

theorem SoundNode.reconcile (h : SoundNode registry store n node)
    (halone : node.ensembleAlive = true ∨ node.calls .healthCheck = none) :
    SoundNode registry store n node.reconcile := by
  unfold EnsembleNode.reconcile
  split
  · exact h
  · rename_i hdead
    have hbusy : ∀ loop', node.calls loop' ≠ none → loop' = .reconcile := by
      intro loop' hbusy
      cases loop' with
      | reconcile => rfl
      | healthCheck =>
        rcases halone with halive | hnone
        · exact absurd halive hdead
        · exact absurd hnone hbusy
    apply h.setCall hbusy
    intro call hnext
    obtain rfl := Option.some.inj hnext
    exact h.target

theorem SoundNode.alone_of (h : SoundNode registry store n node)
    (hcall : node.calls loop = some call) : ∀ loop', node.calls loop' ≠ none → loop' = loop := by
  intro loop' hbusy
  exact h.alone loop' loop hbusy (by rw [hcall]; exact Option.some_ne_none call)

/-- **`setState` finds the sequencer**, and installs what it has read. -/
theorem SoundNode.install (h : SoundNode registry store n node) {config : MetadataConfig}
    (hcall : node.calls loop = some (.installing config next))
    (hresolves : Resolves registry config.sequencerConfig.id) :
    SoundNode registry store n (node.install loop config next) ∧
      (node.install loop config next).virtualLog.metadataConfig = config ∧
      (node.install loop config next).calls = Function.update node.calls loop next.call := by
  obtain ⟨hwas, -, hfits⟩ := h.fits loop _ hcall
  obtain ⟨sequencer, hsequencer⟩ := hresolves n
  rw [← h.registered] at hsequencer
  have hinstall : node.install loop config next =
      ({ node with
          virtualLog :=
            { node.virtualLog with metadataConfig := config, sequencer := some sequencer }
        } : EnsembleNode σ).setCall loop next.call := by
    unfold EnsembleNode.install
    rw [hsequencer]
  rw [hinstall]
  refine ⟨?_, rfl, rfl⟩
  refine h.moved (h.alone_of hcall) rfl rfl h.alive
    (.inr ⟨hwas, hsequencer, Option.some_ne_none sequencer⟩) rfl ?_
  intro call hnext
  cases next with
  | refreshed => cases hnext
  | start newConfig =>
    obtain rfl := Option.some.inj hnext
    exact ⟨hfits.1, hfits.2.symm⟩
  | getConfig versionId =>
    obtain rfl := Option.some.inj hnext
    trivial

end

/-! ## The whole ensemble -/

namespace Ensemble

variable {ι σ : Type} [DecidableEq ι]

/-- The event begins a call on a node that has none. -/
def Alone (s : Ensemble ι σ) : Event ι → Prop
  | .healthCheck n result =>
    ((s.nodes n).healthCheck result).ensembleAlive = true ∨ (s.nodes n).calls .reconcile = none
  | .reconcile n => (s.nodes n).ensembleAlive = true ∨ (s.nodes n).calls .healthCheck = none
  | .proceed _ _ | .propose _ _ _ | .fail _ _ => True

instance (s : Ensemble ι σ) (e : Event ι) : Decidable (s.Alone e) := by
  unfold Alone
  split <;> infer_instance

variable (registry : ι → RegistryImpl σ)

/-- **Everything is in order** on every node. -/
structure Sound (s : Ensemble ι σ) : Prop where
  grown : Grown s.metadataStore
  resolves : ∀ v c, s.metadataStore.configs.find? v = some c →
    Resolves registry c.sequencerConfig.id
  nodes : ∀ n, SoundNode registry s.metadataStore n (s.nodes n)

variable {registry} {s s' : Ensemble ι σ} {n : ι} {loop : Loop} {e : Event ι}
  {call : CallPhase} {node : EnsembleNode σ} {es : List (Event ι)}

theorem Sound.setNode (h : Sound registry s)
    (hnode : SoundNode registry s.metadataStore n node) : Sound registry (s.setNode n node) := by
  refine ⟨h.grown, h.resolves, ?_⟩
  intro m
  by_cases heq : m = n
  · subst heq
    rw [setNode_self]
    exact hnode
  · rw [setNode_other s node heq]
    exact h.nodes m

omit [DecidableEq ι] in
theorem Sound.resolves_of (h : Sound registry s) {c : MetadataConfig}
    (hwas : WasInstalled s.metadataStore c) : Resolves registry c.sequencerConfig.id := by
  obtain ⟨d, hd, -⟩ := id hwas.stored
  rw [← (hwas.eq hd).2]
  exact h.resolves _ d hd

/-- **A call that goes on.** -/
theorem Sound.proceed (h : Sound registry s) (hcall : (s.nodes n).calls loop = some call)
    (hs : s.proceed n loop call = some s') : Sound registry s' := by
  have hnode := h.nodes n
  have halone := hnode.alone_of hcall
  have hfits := hnode.fits loop call hcall
  cases call with
  | refreshConfiguration =>
    obtain rfl := Option.some.inj hs
    apply h.setNode
    apply hnode.setCall halone
    intro call hnext
    obtain rfl := Option.some.inj hnext
    exact ⟨h.grown.wasCurrent, hnode.current.le h.grown⟩
  | refreshing versionId =>
    obtain ⟨hwas, hle⟩ := hfits
    unfold Ensemble.proceed at hs
    dsimp only at hs
    rw [if_pos hle] at hs
    obtain rfl := Option.some.inj hs
    apply h.setNode
    apply hnode.setCall halone
    intro call hnext
    split at hnext
    · rename_i hlt
      obtain rfl := Option.some.inj hnext
      have := hnode.current.nonneg
      exact ⟨by omega, hwas, hle, trivial⟩
    · cases hnext
  | reconfigure target =>
    obtain rfl := Option.some.inj hs
    apply h.setNode
    apply hnode.setCall halone
    intro call hnext
    obtain rfl := Option.some.inj hnext
    exact ⟨h.grown.wasCurrent, hnode.current.le h.grown, hfits⟩
  | replicating versionId target => cases hs
  | overtaken =>
    obtain rfl := Option.some.inj hs
    apply h.setNode
    apply hnode.setCall halone
    intro call hnext
    obtain rfl := Option.some.inj hnext
    exact ⟨hfits, h.grown.wasCurrent, hnode.current.le h.grown, rfl⟩
  | setState versionId next =>
    obtain ⟨hone, hwas, hle, hnext⟩ := hfits
    obtain ⟨config, hconfig⟩ := Option.isSome_iff_exists.mp hwas.there
    unfold Ensemble.proceed at hs
    dsimp only at hs
    rw [hconfig] at hs
    obtain rfl := Option.some.inj hs
    apply h.setNode
    apply hnode.setCall halone
    intro call hcall'
    obtain rfl := Option.some.inj hcall'
    obtain ⟨hinstalled, hv⟩ := h.grown.wasInstalled_of_getConfig hone hconfig
    exact ⟨hinstalled, hv ▸ hle, hv ▸ hnext⟩
  | installing config next =>
    obtain rfl := Option.some.inj hs
    exact h.setNode (hnode.install hcall (h.resolves_of hfits.1)).1
  | starting newConfig =>
    have hidle : Sound registry (s.setNode n ((s.nodes n).setCall loop none)) := by
      apply h.setNode
      exact hnode.setCall halone fun _ hnone => by cases hnone
    unfold Ensemble.proceed at hs
    dsimp only at hs
    split at hs
    · exact Option.some.inj hs ▸ hidle
    · obtain rfl := Option.some.inj hs
      exact ⟨hidle.grown, hidle.resolves, hidle.nodes⟩
  | returning versionId =>
    obtain rfl := Option.some.inj hs
    apply h.setNode
    exact hnode.setCall halone fun _ hnone => by cases hnone

/-- **A configuration is proposed.** -/
theorem Sound.propose (h : Sound registry s) (hcall : (s.nodes n).calls loop = some call)
    {maxLogId : Int} (hs : s.propose n loop maxLogId call = some s') : Sound registry s' := by
  have hnode := h.nodes n
  have halone := hnode.alone_of hcall
  have hfits := hnode.fits loop call hcall
  obtain ⟨versionId, target, rfl, ⟨rfl, hrefused⟩ | ⟨metadataStore, happend, rfl⟩⟩ :=
    propose_cases hs
  · obtain ⟨hwas, -, -⟩ := hfits
    apply h.setNode
    apply hnode.setCall halone
    intro call hnext
    obtain rfl := Option.some.inj hnext
    rcases hrefused with hnone | ⟨e, herror⟩
    · exact absurd hwas.there (by simp [hnone])
    · exact h.grown.one_le_of_error hwas rfl herror
  · obtain ⟨hwas, hle, hresolves⟩ := hfits
    have hnonneg := hwas.nonneg
    have hone : 1 ≤ versionId + 1 := by omega
    have hgrown := h.grown.append happend hone
    have hinstalled := WasInstalled.new happend hone
    refine ⟨hgrown, ?_, ?_⟩
    · intro v c hc
      rcases configs_of_compareAndAppendRange happend hc with ⟨-, rfl⟩ |
        ⟨-, -, last, hlast, rfl⟩ | ⟨-, -, hold⟩
      · exact hresolves
      · exact h.resolves v last hlast
      · exact h.resolves v c hold
    · have hidle : ∀ m, SoundNode registry metadataStore m (s.nodes m) :=
        fun m => (h.nodes m).append happend rfl
      intro m
      dsimp only
      by_cases heq : m = n
      · subst heq
        rw [setNode_self]
        apply (hidle m).setCall halone
        intro call hnext
        obtain rfl := Option.some.inj hnext
        have hnow := hgrown.wasCurrent
        rw [getCurrentVersionId_append happend rfl] at hnow
        exact ⟨hone, hnow, by omega, hinstalled, rfl⟩
      · rw [setNode_other s _ heq]
        exact hidle m

theorem Sound.step (h : Sound registry s) (halone : s.Alone e) (hs : s.step e = some s') :
    Sound registry s' := by
  cases e with
  | healthCheck n result =>
    obtain ⟨⟨-, hidle⟩, hs⟩ := Option.ite_none_right_eq_some.mp hs
    obtain rfl := Option.some.inj hs
    exact h.setNode ((h.nodes n).healthCheck hidle halone)
  | reconcile n =>
    obtain ⟨-, hs⟩ := Option.ite_none_right_eq_some.mp hs
    obtain rfl := Option.some.inj hs
    exact h.setNode ((h.nodes n).reconcile halone)
  | proceed n loop =>
    obtain ⟨call, hcall, hs⟩ := Option.bind_eq_some_iff.mp hs
    exact h.proceed hcall hs
  | propose n loop maxLogId =>
    obtain ⟨call, hcall, hs⟩ := Option.bind_eq_some_iff.mp hs
    exact h.propose hcall hs
  | fail n loop =>
    obtain ⟨call, hcall, rfl⟩ := Option.map_eq_some_iff.mp hs
    apply h.setNode
    exact (h.nodes n).setCall ((h.nodes n).alone_of hcall) fun _ hnone => by cases hnone

end Ensemble

end ReplicatedCounter.Log
