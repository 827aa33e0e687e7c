import ReplicatedCounter.Log.InstalledViews

/-!
# Starting the sequencers of new versions

Whoever has installed a version starts its sequencer, which it takes from its own state. When the
loops of a node are not in each other's way that is the sequencer of the version, it is started in
that version and with its first id, and nobody starts it again for the same version. Nor does a view
go back: a refresh that is done has installed at least the version that was current when it began.

`overlapping_calls` is what happens otherwise.
-/

set_option autoImplicit false

namespace ReplicatedCounter.Log

open Metadata InMemoryMetadataStore

namespace Ensemble

variable {ι σ : Type} [DecidableEq ι] {registry : ι → RegistryImpl σ} {s s' : Ensemble ι σ} {n : ι}
  {loop : Loop} {e : Event ι} {call : CallPhase} {node : EnsembleNode σ} {es : List (Event ι)}

/-! ## Each version is started once -/

/-- The version whose sequencer a call is going to start. -/
def toStart : CallPhase → Option Int
  | .setState _ (.start newConfig) | .installing _ (.start newConfig) | .starting newConfig =>
    some newConfig.versionId
  | _ => none

/-- The same of a loop of a node. -/
def pending (s : Ensemble ι σ) (n : ι) (loop : Loop) : Option Int :=
  ((s.nodes n).calls loop).bind toStart

variable (registry) in
/-- **Each version is started once**, by whoever has installed it, with its own sequencer and its
first id. -/
structure Starts (s : Ensemble ι σ) : Prop where
  pending_le : ∀ n loop v, s.pending n loop = some v → v ≤ s.metadataStore.getCurrentVersionId
  started_le : ∀ v ∈ s.started.map (·.2.1), v ≤ s.metadataStore.getCurrentVersionId
  pending_new : ∀ n loop v, s.pending n loop = some v → v ∉ s.started.map (·.2.1)
  apart : ∀ n loop m loop' v, s.pending n loop = some v → s.pending m loop' = some v →
    n = m ∧ loop = loop'
  nodup : (s.started.map (·.2.1)).Nodup
  right : ∀ sequencer v l, (sequencer, v, l) ∈ s.started → ∃ n c,
    WasInstalled s.metadataStore c ∧ c.versionId = v ∧ c.startIndex = l ∧
      (registry n).sequencer c.sequencerConfig.id = some sequencer

theorem pending_setCall (s : Ensemble ι σ) (n m : ι) (loop loop' : Loop)
    (next : Option CallPhase) :
    (s.setNode n ((s.nodes n).setCall loop next)).pending m loop' =
      if m = n ∧ loop' = loop then next.bind toStart else s.pending m loop' := by
  unfold pending
  by_cases hm : m = n
  · subst hm
    rw [setNode_self]
    by_cases hloop : loop' = loop
    · rw [if_pos ⟨rfl, hloop⟩, hloop]
      rw [EnsembleNode.setCall_calls_self]
    · rw [if_neg fun h => hloop h.2]
      rw [EnsembleNode.setCall_calls_other _ _ hloop]
  · rw [if_neg fun h => hm h.1, setNode_other s _ hm]

omit [DecidableEq ι] in
/-- Nothing new is going to be started. -/
theorem Starts.kept (h : Starts registry s) (hstore : s'.metadataStore = s.metadataStore)
    (hstarted : s'.started = s.started)
    (hpending : ∀ n loop v, s'.pending n loop = some v → s.pending n loop = some v) :
    Starts registry s' := by
  refine ⟨?_, ?_, ?_, ?_, ?_, ?_⟩
  · intro n loop v hv
    rw [hstore]
    exact h.pending_le n loop v (hpending n loop v hv)
  · rw [hstarted, hstore]
    exact h.started_le
  · intro n loop v hv
    rw [hstarted]
    exact h.pending_new n loop v (hpending n loop v hv)
  · intro n loop m loop' v hv hv'
    exact h.apart n loop m loop' v (hpending n loop v hv) (hpending m loop' v hv')
  · rw [hstarted]
    exact h.nodup
  · rw [hstarted, hstore]
    exact h.right

theorem Starts.setCall (h : Starts registry s) {next : Option CallPhase}
    (hnext : ∀ v, next.bind toStart = some v → s.pending n loop = some v) :
    Starts registry (s.setNode n ((s.nodes n).setCall loop next)) := by
  refine h.kept rfl rfl ?_
  intro m loop' v hv
  rw [pending_setCall] at hv
  split at hv
  · rename_i heq
    obtain ⟨rfl, rfl⟩ := heq
    exact hnext v hv
  · exact hv

/-- A node that only forgets its calls, or keeps them. -/
theorem Starts.setNode (h : Starts registry s)
    (hcalls : ∀ loop call, node.calls loop = some call →
      (s.nodes n).calls loop = some call ∨ toStart call = none) :
    Starts registry (s.setNode n node) := by
  refine h.kept rfl rfl ?_
  intro m loop v hv
  unfold pending at hv ⊢
  by_cases hm : m = n
  · subst hm
    rw [setNode_self] at hv
    obtain ⟨call, hcall, hstart⟩ := Option.bind_eq_some_iff.mp hv
    rcases hcalls loop call hcall with hold | hnone
    · rw [hold]
      exact hstart
    · rw [hnone] at hstart
      cases hstart
  · rw [setNode_other s _ hm] at hv
    exact hv

/-- **The sequencer of the version is started**, and not another. -/
theorem Starts.starting (h : Starts registry s) (hsound : Sound registry s)
    {newConfig : MetadataConfig} (hcall : (s.nodes n).calls loop = some (.starting newConfig))
    (hs : s.proceed n loop (.starting newConfig) = some s') : Starts registry s' := by
  have hidle : Starts registry (s.setNode n ((s.nodes n).setCall loop none)) :=
    h.setCall fun v hnone => by cases hnone
  have hpending : s.pending n loop = some newConfig.versionId := by
    unfold pending
    rw [hcall]
    rfl
  have hnode := hsound.nodes n
  obtain ⟨hwas, hversion⟩ := hnode.fits loop _ hcall
  unfold Ensemble.proceed at hs
  dsimp only at hs
  split at hs
  · exact Option.some.inj hs ▸ hidle
  · rename_i sequencer hsequencer
    obtain rfl := Option.some.inj hs
    refine ⟨hidle.pending_le, ?_, ?_, hidle.apart, ?_, ?_⟩
    · intro v hv
      rcases List.mem_cons.mp hv with rfl | hv
      · exact hwas.le
      · exact hidle.started_le v hv
    · intro m loop' v hv
      rw [List.map_cons, List.mem_cons, not_or]
      refine ⟨?_, hidle.pending_new m loop' v hv⟩
      -- it was pending here, so it is pending nowhere else
      rintro rfl
      have hv' : (s.setNode n ((s.nodes n).setCall loop none)).pending m loop' =
        some newConfig.versionId := hv
      rw [pending_setCall] at hv'
      split at hv'
      · cases hv'
      · rename_i hne
        obtain ⟨rfl, rfl⟩ := h.apart n loop m loop' _ hpending hv'
        exact hne ⟨rfl, rfl⟩
    · exact List.nodup_cons.mpr ⟨h.pending_new n loop _ hpending, h.nodup⟩
    · intro q v l hmem
      rcases List.mem_cons.mp hmem with heq | hmem
      · obtain ⟨rfl, rfl, rfl⟩ : q = sequencer ∧ v = newConfig.versionId ∧
            l = newConfig.startIndex := by simpa using heq
        rcases hnode.current with ⟨-, hnone⟩ | ⟨hinstalled, hregistered, -⟩
        · rw [hnone] at hsequencer
          cases hsequencer
        · refine ⟨n, newConfig, hwas, rfl, rfl, ?_⟩
          -- the version that is installed and the one to be started are the same entry
          obtain ⟨d, hd, -⟩ := id hwas.stored
          rw [← (hwas.eq hd).2, (hinstalled.eq (hversion ▸ hd)).2, ← hnode.registered,
            hregistered]
          exact hsequencer
      · exact hidle.right q v l hmem

theorem Starts.proceed (h : Starts registry s) (hsound : Sound registry s)
    (hcall : (s.nodes n).calls loop = some call) (hs : s.proceed n loop call = some s') :
    Starts registry s' := by
  have hpending : ∀ v, toStart call = some v → s.pending n loop = some v := by
    intro v hv
    unfold pending
    rw [hcall]
    exact hv
  cases call with
  | starting newConfig => exact h.starting hsound hcall hs
  | refreshConfiguration | reconfigure target | overtaken | returning versionId =>
    obtain rfl := Option.some.inj hs
    exact h.setCall fun v hnone => by cases hnone
  | replicating versionId target => cases hs
  | refreshing versionId =>
    unfold Ensemble.proceed at hs
    dsimp only at hs
    split at hs
    · obtain rfl := Option.some.inj hs
      apply h.setCall
      intro v hv
      split at hv
      · cases hv
      · cases hv
    · obtain rfl := Option.some.inj hs
      exact h.setNode fun loop call hcall => by cases hcall
  | setState versionId next =>
    unfold Ensemble.proceed at hs
    dsimp only at hs
    split at hs
    · obtain rfl := Option.some.inj hs
      exact h.setNode fun loop call hcall => by cases hcall
    · obtain rfl := Option.some.inj hs
      apply h.setCall
      intro v hv
      apply hpending
      cases next with
      | refreshed => cases hv
      | start newConfig => exact hv
      | getConfig versionId => cases hv
  | installing config next =>
    obtain rfl := Option.some.inj hs
    have hfits := (hsound.nodes n).fits loop _ hcall
    have hcalls := ((hsound.nodes n).install hcall (hsound.resolves_of hfits.1)).2.2
    refine h.kept rfl rfl ?_
    intro m loop' v hv
    -- the calls are those of a `setCall`
    have hsame : (s.setNode n ((s.nodes n).install loop config next)).pending m loop' =
        (s.setNode n ((s.nodes n).setCall loop next.call)).pending m loop' := by
      unfold pending
      by_cases hm : m = n
      · subst hm
        rw [setNode_self, setNode_self, hcalls]
        rfl
      · rw [setNode_other s _ hm, setNode_other s _ hm]
    rw [hsame, pending_setCall] at hv
    split at hv
    · rename_i heq
      obtain ⟨rfl, rfl⟩ := heq
      apply hpending
      cases next with
      | refreshed => cases hv
      | start newConfig => exact hv
      | getConfig versionId => cases hv
    · exact hv

theorem Starts.propose (h : Starts registry s) {maxLogId : Int}
    (hs : s.propose n loop maxLogId call = some s') : Starts registry s' := by
  obtain ⟨versionId, target, rfl, ⟨rfl, -⟩ | ⟨metadataStore, happend, rfl⟩⟩ := propose_cases hs
  · exact h.setCall fun v hnone => by cases hnone
  · have hprev := previousVersionId_of_compareAndAppendRange happend
    have hcurrent := getCurrentVersionId_append happend rfl
    have hlt : s.metadataStore.getCurrentVersionId < metadataStore.getCurrentVersionId := by
      rw [hcurrent, ← hprev]
      show versionId < versionId + 1
      omega
    -- the new version is above all that have been started or are going to be
    have hcases : ∀ m loop' v, (s.setNode n ((s.nodes n).setCall loop (some (.setState
        (versionId + 1) (.start (VirtualLogImpl.newConfig versionId maxLogId target)))))).pending
          m loop' = some v →
        (m = n ∧ loop' = loop ∧ v = metadataStore.getCurrentVersionId) ∨
          s.pending m loop' = some v := by
      intro m loop' v hv
      rw [pending_setCall] at hv
      split at hv
      · rename_i heq
        exact .inl ⟨heq.1, heq.2, (Option.some.inj hv).symm.trans hcurrent.symm⟩
      · exact .inr hv
    refine ⟨?_, ?_, ?_, ?_, h.nodup, ?_⟩
    · intro m loop' v hv
      rcases hcases m loop' v hv with ⟨-, -, rfl⟩ | hold
      · exact le_rfl
      · exact (h.pending_le m loop' v hold).trans hlt.le
    · intro v hv
      exact (h.started_le v hv).trans hlt.le
    · intro m loop' v hv hstarted
      rcases hcases m loop' v hv with ⟨-, -, rfl⟩ | hold
      · exact absurd (h.started_le _ hstarted) (not_le.mpr hlt)
      · exact h.pending_new m loop' v hold hstarted
    · intro m loop₁ m' loop₂ v hv hv'
      rcases hcases m loop₁ v hv with ⟨rfl, rfl, rfl⟩ | hold
      · rcases hcases m' loop₂ _ hv' with ⟨rfl, rfl, -⟩ | hold'
        · exact ⟨rfl, rfl⟩
        · exact absurd (h.pending_le m' loop₂ _ hold') (not_le.mpr hlt)
      · rcases hcases m' loop₂ v hv' with ⟨rfl, rfl, rfl⟩ | hold'
        · exact absurd (h.pending_le m loop₁ _ hold) (not_le.mpr hlt)
        · exact h.apart m loop₁ m' loop₂ v hold hold'
    · intro q v l hmem
      obtain ⟨m, c, hwas, hrest⟩ := h.right q v l hmem
      exact ⟨m, c, hwas.append happend rfl, hrest⟩

theorem Starts.step (h : Starts registry s) (hsound : Sound registry s)
    (hs : s.step e = some s') : Starts registry s' := by
  cases e with
  | healthCheck n result =>
    obtain ⟨-, hs⟩ := Option.ite_none_right_eq_some.mp hs
    obtain rfl := Option.some.inj hs
    apply h.setNode
    intro loop call hcall
    unfold EnsembleNode.healthCheck at hcall
    by_cases hloop : loop = .healthCheck
    · rw [hloop, EnsembleNode.setCall_calls_self] at hcall
      split at hcall
      · cases hcall
      · obtain rfl := Option.some.inj hcall
        exact .inr rfl
    · rw [EnsembleNode.setCall_calls_other _ _ hloop] at hcall
      exact .inl hcall
  | reconcile n =>
    obtain ⟨-, hs⟩ := Option.ite_none_right_eq_some.mp hs
    obtain rfl := Option.some.inj hs
    apply h.setNode
    intro loop call hcall
    unfold EnsembleNode.reconcile at hcall
    split at hcall
    · exact .inl hcall
    · by_cases hloop : loop = .reconcile
      · rw [hloop, EnsembleNode.setCall_calls_self] at hcall
        obtain rfl := Option.some.inj hcall
        exact .inr rfl
      · rw [EnsembleNode.setCall_calls_other _ _ hloop] at hcall
        exact .inl hcall
  | proceed n loop =>
    obtain ⟨call, hcall, hs⟩ := Option.bind_eq_some_iff.mp hs
    exact h.proceed hsound hcall hs
  | propose n loop maxLogId =>
    obtain ⟨call, -, hs⟩ := Option.bind_eq_some_iff.mp hs
    exact h.propose hs
  | fail n loop =>
    obtain ⟨call, -, rfl⟩ := Option.map_eq_some_iff.mp hs
    exact h.setCall fun v hnone => by cases hnone

/-! ## Views do not go back -/

/-- What happens on a node is not seen on the others. -/
theorem step_other {m : ι} (hs : s.step e = some s') (hm : m ≠ e.node) :
    s'.nodes m = s.nodes m := by
  cases e with
  | healthCheck n result =>
    obtain ⟨-, hs⟩ := Option.ite_none_right_eq_some.mp hs
    obtain rfl := Option.some.inj hs
    exact setNode_other s _ hm
  | reconcile n =>
    obtain ⟨-, hs⟩ := Option.ite_none_right_eq_some.mp hs
    obtain rfl := Option.some.inj hs
    exact setNode_other s _ hm
  | proceed n loop =>
    obtain ⟨call, -, hs⟩ := Option.bind_eq_some_iff.mp hs
    obtain ⟨-, node, hnodes, -⟩ := proceed_frame hs
    rw [hnodes]
    exact setNode_other s _ hm
  | propose n loop maxLogId =>
    obtain ⟨call, -, hs⟩ := Option.bind_eq_some_iff.mp hs
    obtain ⟨versionId, target, -, ⟨rfl, -⟩ | ⟨metadataStore, -, rfl⟩⟩ := propose_cases hs
    · exact setNode_other s _ hm
    · exact setNode_other s _ hm
  | fail n loop =>
    obtain ⟨call, -, rfl⟩ := Option.map_eq_some_iff.mp hs
    exact setNode_other s _ hm

/-- The version installed on a node. -/
def installed (s : Ensemble ι σ) (n : ι) : Int := (s.nodes n).virtualLog.metadataConfig.versionId

theorem installed_setCall (s : Ensemble ι σ) (n m : ι) (loop : Loop) (next : Option CallPhase) :
    (s.setNode n ((s.nodes n).setCall loop next)).installed m = s.installed m := by
  unfold installed
  by_cases hm : m = n
  · rw [hm, setNode_self]
    rfl
  · rw [setNode_other s _ hm]

/-- **A call installs what it was going to install**, or nothing. -/
theorem Sound.installed_proceed (h : Sound registry s)
    (hcall : (s.nodes n).calls loop = some call) (hs : s.proceed n loop call = some s') :
    s'.installed n = match call with
      | .installing config _ => config.versionId
      | _ => s.installed n := by
  have hfits := (h.nodes n).fits loop call hcall
  cases call with
  | refreshConfiguration | reconfigure target | overtaken | returning versionId =>
    obtain rfl := Option.some.inj hs
    exact installed_setCall s n n loop _
  | replicating versionId target => cases hs
  | refreshing versionId =>
    unfold Ensemble.proceed at hs
    dsimp only at hs
    rw [if_pos hfits.2] at hs
    obtain rfl := Option.some.inj hs
    exact installed_setCall s n n loop _
  | setState versionId next =>
    obtain ⟨config, hconfig⟩ := Option.isSome_iff_exists.mp hfits.2.1.there
    unfold Ensemble.proceed at hs
    dsimp only at hs
    rw [hconfig] at hs
    obtain rfl := Option.some.inj hs
    exact installed_setCall s n n loop _
  | installing config next =>
    obtain rfl := Option.some.inj hs
    unfold installed
    rw [setNode_self, ((h.nodes n).install hcall (h.resolves_of hfits.1)).2.1]
  | starting newConfig =>
    unfold Ensemble.proceed at hs
    dsimp only at hs
    split at hs
    · exact Option.some.inj hs ▸ installed_setCall s n n loop _
    · exact Option.some.inj hs ▸ installed_setCall s n n loop _

/-- **A version is not replaced by an older one.** -/
theorem Sound.installed_mono (h : Sound registry s) (hs : s.step e = some s') (m : ι) :
    s.installed m ≤ s'.installed m := by
  by_cases hm : m = e.node
  · subst hm
    cases e with
    | healthCheck n result =>
      obtain ⟨-, hs⟩ := Option.ite_none_right_eq_some.mp hs
      obtain rfl := Option.some.inj hs
      show s.installed n ≤ (s.setNode n ((s.nodes n).healthCheck result)).installed n
      unfold installed
      rw [setNode_self]
      exact le_rfl
    | reconcile n =>
      obtain ⟨-, hs⟩ := Option.ite_none_right_eq_some.mp hs
      obtain rfl := Option.some.inj hs
      show s.installed n ≤ (s.setNode n (s.nodes n).reconcile).installed n
      unfold installed
      rw [setNode_self, EnsembleNode.reconcile_virtualLog]
    | proceed n loop =>
      obtain ⟨call, hcall, hs⟩ := Option.bind_eq_some_iff.mp hs
      have hinstalled := h.installed_proceed hcall hs
      cases call with
      | installing config next => exact ((h.nodes n).fits loop _ hcall).2.1.trans hinstalled.ge
      | _ => exact hinstalled.ge
    | propose n loop maxLogId =>
      obtain ⟨call, -, hs⟩ := Option.bind_eq_some_iff.mp hs
      obtain ⟨versionId, target, -, ⟨rfl, -⟩ | ⟨metadataStore, -, rfl⟩⟩ := propose_cases hs
      · exact (installed_setCall s n n loop _).ge
      · exact (installed_setCall s n n loop _).ge
    | fail n loop =>
      obtain ⟨call, -, rfl⟩ := Option.map_eq_some_iff.mp hs
      exact (installed_setCall s n n loop _).ge
  · unfold installed
    rw [step_other hs hm]

/-- A refresh that will not install less than version `v`. -/
def Refreshes (v : Int) : CallPhase → Prop
  | .refreshConfiguration => True
  | .refreshing versionId => v ≤ versionId
  | .setState versionId next => v ≤ versionId ∧ next = .refreshed
  | .installing config next => v ≤ config.versionId ∧ next = .refreshed
  | _ => False

/-- The node has installed version `v` or a later one, or is about to. -/
def Reaches (v : Int) (s : Ensemble ι σ) (n : ι) : Prop :=
  v ≤ s.installed n ∨ ∃ call, (s.nodes n).calls .healthCheck = some call ∧ Refreshes v call

/-- The refresh goes on. -/
theorem Sound.reaches_proceed (h : Sound registry s) {v : Int}
    (hcurrent : v ≤ s.metadataStore.getCurrentVersionId)
    (hcall : (s.nodes n).calls .healthCheck = some call) (hrefreshes : Refreshes v call)
    (hs : s.proceed n .healthCheck call = some s') : Reaches v s' n := by
  have hinstalled := h.installed_proceed hcall hs
  have hfits := (h.nodes n).fits .healthCheck call hcall
  have hnext : ∀ {next}, s' = s.setNode n ((s.nodes n).setCall .healthCheck (some next)) →
      Refreshes v next → Reaches v s' n := by
    rintro next rfl hnext
    refine .inr ⟨next, ?_, hnext⟩
    rw [setNode_self, EnsembleNode.setCall_calls_self]
  cases call with
  | refreshConfiguration => exact hnext (Option.some.inj hs).symm hcurrent
  | refreshing versionId =>
    unfold Ensemble.proceed at hs
    dsimp only at hs
    rw [if_pos hfits.2] at hs
    by_cases hlt : (s.nodes n).virtualLog.metadataConfig.versionId < versionId
    · rw [if_pos hlt] at hs
      exact hnext (Option.some.inj hs).symm ⟨hrefreshes, rfl⟩
    · -- this version is installed already
      left
      rw [hinstalled]
      show v ≤ (s.nodes n).virtualLog.metadataConfig.versionId
      exact le_trans hrefreshes (not_lt.mp hlt)
  | setState versionId next =>
    obtain ⟨config, hconfig⟩ := Option.isSome_iff_exists.mp hfits.2.1.there
    unfold Ensemble.proceed at hs
    dsimp only at hs
    rw [hconfig] at hs
    have hv := (h.grown.wasInstalled_of_getConfig hfits.1 hconfig).2
    exact hnext (Option.some.inj hs).symm ⟨hv ▸ hrefreshes.1, hrefreshes.2⟩
  | installing config next =>
    left
    rw [hinstalled]
    exact hrefreshes.1
  | reconfigure _ | replicating _ _ | overtaken | starting _ | returning _ => exact hrefreshes.elim

theorem Sound.reaches_step (h : Sound registry s) {v : Int} {m : ι}
    (hcurrent : v ≤ s.metadataStore.getCurrentVersionId) (hreaches : Reaches v s m)
    (hfail : e ≠ .fail m .healthCheck) (hs : s.step e = some s') : Reaches v s' m := by
  rcases hreaches with hinstalled | ⟨call, hcall, hrefreshes⟩
  · exact .inl (hinstalled.trans (h.installed_mono hs m))
  · by_cases hm : m = e.node
    · subst hm
      -- nothing else is going on there
      have halone : ∀ loop call', (s.nodes e.node).calls loop = some call' →
          loop = .healthCheck ∧ call' = call := by
        intro loop call' hcall'
        obtain rfl := (h.nodes e.node).alone_of hcall loop
          (by rw [hcall']; exact Option.some_ne_none call')
        exact ⟨rfl, Option.some.inj (hcall'.symm.trans hcall)⟩
      cases e with
      | healthCheck n result =>
        obtain ⟨⟨-, hidle⟩, -⟩ := Option.ite_none_right_eq_some.mp hs
        exact absurd (hidle.symm.trans hcall) (by simp)
      | reconcile n =>
        obtain ⟨-, hs⟩ := Option.ite_none_right_eq_some.mp hs
        obtain rfl := Option.some.inj hs
        refine .inr ⟨call, ?_, hrefreshes⟩
        show ((s.setNode n (s.nodes n).reconcile).nodes n).calls .healthCheck = some call
        rw [setNode_self]
        unfold EnsembleNode.reconcile
        split
        · exact hcall
        · rw [EnsembleNode.setCall_calls_other _ _ (by decide)]
          exact hcall
      | proceed n loop =>
        obtain ⟨call', hcall', hs⟩ := Option.bind_eq_some_iff.mp hs
        obtain ⟨rfl, rfl⟩ := halone loop call' hcall'
        exact h.reaches_proceed hcurrent hcall' hrefreshes hs
      | propose n loop maxLogId =>
        obtain ⟨call', hcall', hs⟩ := Option.bind_eq_some_iff.mp hs
        obtain ⟨rfl, rfl⟩ := halone loop call' hcall'
        obtain ⟨versionId, target, rfl, -⟩ := propose_cases hs
        exact hrefreshes.elim
      | fail n loop =>
        obtain ⟨call', hcall', -⟩ := Option.map_eq_some_iff.mp hs
        obtain ⟨rfl, -⟩ := halone loop call' hcall'
        exact absurd rfl hfail
    · right
      rw [step_other hs hm]
      exact ⟨call, hcall, hrefreshes⟩

theorem current_mono (hs : s.step e = some s') :
    s.metadataStore.getCurrentVersionId ≤ s'.metadataStore.getCurrentVersionId := by
  cases e with
  | healthCheck n result | reconcile n =>
    obtain ⟨-, hs⟩ := Option.ite_none_right_eq_some.mp hs
    obtain rfl := Option.some.inj hs
    exact le_rfl
  | proceed n loop =>
    obtain ⟨call, -, hs⟩ := Option.bind_eq_some_iff.mp hs
    rw [(proceed_frame hs).1]
  | propose n loop maxLogId =>
    obtain ⟨call, -, hs⟩ := Option.bind_eq_some_iff.mp hs
    obtain ⟨versionId, target, -, ⟨rfl, -⟩ | ⟨metadataStore, happend, rfl⟩⟩ := propose_cases hs
    · exact le_rfl
    · have hprev := previousVersionId_of_compareAndAppendRange happend
      dsimp only
      rw [getCurrentVersionId_append happend rfl]
      exact hprev.ge.trans (Int.le_add_one le_rfl)
  | fail n loop =>
    obtain ⟨call, -, rfl⟩ := Option.map_eq_some_iff.mp hs
    exact le_rfl

/-- A refresh is carried through a run. -/
theorem Sound.reaches_run (h : Sound registry s) {v : Int}
    (hcurrent : v ≤ s.metadataStore.getCurrentVersionId) (hreaches : Reaches v s n)
    (hrun : Transition.run Ensemble.step s es = some s')
    (halone : Transition.Meets Ensemble.step Alone s es) (hfail : .fail n .healthCheck ∉ es) :
    Reaches v s' n := by
  have hfails : Transition.Meets Ensemble.step (fun _ e => e ≠ .fail n .healthCheck) s es :=
    Transition.meets_of_mem fun e he _ heq => hfail (heq ▸ he)
  refine (Transition.meets_invariant
    (P := fun t => Sound registry t ∧ v ≤ t.metadataStore.getCurrentVersionId ∧ Reaches v t n) ?_
    hrun (halone.and hfails) ⟨h, hcurrent, hreaches⟩).2.2
  rintro t e t' ⟨ht, hle, hreaches⟩ ⟨halone, hne⟩ hs
  exact ⟨ht.step halone hs, hle.trans (current_mono hs), ht.reaches_step hle hreaches hne hs⟩

/-! ## Runs -/

/-- Nodes that have just been started, over a store with a first configuration or none. -/
def initial (b : Option Bootstrap) (registry : ι → RegistryImpl σ) (config : ι → ServerConfig) :
    Ensemble ι σ where
  metadataStore := b.elim {} Bootstrap.metadataStore
  nodes n := { virtualLog := { registry := registry n }, logServerConfig := config n }

theorem grown_initial (b : Option Bootstrap) : Grown (b.elim {} Bootstrap.metadataStore) := by
  have hempty : Grown {} := ⟨.new, fun v c h => absurd h (by simp)⟩
  cases b with
  | none => exact hempty
  | some b => exact hempty.append b.compareAndAppendRange b.versionId_eq.ge

omit [DecidableEq ι] in
theorem sound_initial {b : Option Bootstrap} {config : ι → ServerConfig}
    (hboot : ∀ b', b = some b' → Resolves registry b'.config.sequencerConfig.id)
    (htarget : ∀ n, Resolves registry (config n).sequencerId) :
    Sound registry (initial b registry config) := by
  refine ⟨grown_initial b, ?_, ?_⟩
  · intro v c hc
    cases b with
    | none => exact absurd hc (by simp [initial])
    | some b =>
      rcases configs_of_compareAndAppendRange b.compareAndAppendRange hc with ⟨-, rfl⟩ |
        ⟨-, -, last, hlast, -⟩ | ⟨-, -, hold⟩
      · exact hboot b rfl
      · exact absurd hlast (by simp)
      · exact absurd hold (by simp)
  · intro n
    exact ⟨rfl, htarget n, rfl, .inl ⟨rfl, rfl⟩, fun _ _ hbusy => absurd rfl hbusy,
      fun _ _ hcall => by cases hcall⟩

omit [DecidableEq ι] in
theorem starts_initial (b : Option Bootstrap) (config : ι → ServerConfig) :
    Starts registry (initial b registry config) := by
  have hpending : ∀ n loop, (initial b registry config).pending n loop = none := fun _ _ => rfl
  refine ⟨?_, ?_, ?_, ?_, List.nodup_nil, ?_⟩
  · intro n loop v hv
    rw [hpending] at hv
    cases hv
  · intro v hv
    exact absurd hv List.not_mem_nil
  · intro n loop v hv
    rw [hpending] at hv
    cases hv
  · intro n loop m loop' v hv
    rw [hpending] at hv
    cases hv
  · intro q v l hmem
    exact absurd hmem List.not_mem_nil

theorem Sound.run (h : Sound registry s) (hrun : Transition.run Ensemble.step s es = some s')
    (halone : Transition.Meets Ensemble.step Alone s es) : Sound registry s' :=
  Transition.meets_invariant (P := Sound registry) (fun _ _ _ h halone hs => h.step halone hs)
    hrun halone h

/-- **What nodes have installed.** Any number of nodes, with their failure detectors, over one
metadata store: when no node refreshes and reconfigures at the same time, no `CHECK` fails, every
node has a configuration that was installed, together with its sequencer, and each sequencer that
was started was started for a version of its own, with the first id of the version, and once for
each version. -/
theorem views_installed {b : Option Bootstrap} {config : ι → ServerConfig}
    (hboot : ∀ b', b = some b' → Resolves registry b'.config.sequencerConfig.id)
    (htarget : ∀ n, Resolves registry (config n).sequencerId)
    (hrun : Transition.run step (initial b registry config) es = some s)
    (halone : Transition.Meets step Alone (initial b registry config) es) :
    (∀ n, (s.nodes n).crashed = false ∧ (s.nodes n).virtualLog.Current s.metadataStore) ∧
      (s.started.map (·.2.1)).Nodup ∧
      ∀ sequencer v l, (sequencer, v, l) ∈ s.started → ∃ n c,
        WasInstalled s.metadataStore c ∧ c.versionId = v ∧ c.startIndex = l ∧
          (registry n).sequencer c.sequencerConfig.id = some sequencer := by
  have hinv : Sound registry s ∧ Starts registry s := by
    refine Transition.meets_invariant (P := fun t => Sound registry t ∧ Starts registry t) ?_ hrun
      halone ⟨sound_initial hboot htarget, starts_initial b config⟩
    rintro t e t' ⟨hsound, hstarts⟩ halone hs
    exact ⟨hsound.step halone hs, hstarts.step hsound hs⟩
  obtain ⟨hsound, hstarts⟩ := hinv
  exact ⟨fun n => ⟨(hsound.nodes n).alive, (hsound.nodes n).current⟩, hstarts.nodup, hstarts.right⟩

/-- Two nodes that know each other's sequencers. -/
def bothSequencers : Bool → RegistryImpl String := fun _ =>
  (({} : RegistryImpl String).registerSequencer "a" "a").registerSequencer "b" "b"

/-- Each of them wants to have its own. -/
def ownSequencer : Bool → ServerConfig
  | true => { sequencerId := "a" }
  | false => { sequencerId := "b" }

/-- A reconfiguration that is not disturbed. -/
def reconfigured (n : Bool) (maxLogId : Int) : List (Event Bool) :=
  [.reconcile n, .proceed n .reconcile, .propose n .reconcile maxLogId, .proceed n .reconcile,
    .proceed n .reconcile, .proceed n .reconcile]

/-- A refresh that finds a new version. -/
def refreshed (n : Bool) : List (Event Bool) :=
  [.healthCheck n false, .proceed n .healthCheck, .proceed n .healthCheck, .proceed n .healthCheck,
    .proceed n .healthCheck]

theorem resolves_both (n : Bool) : Resolves bothSequencers (ownSequencer n).sequencerId := by
  intro m
  cases n with
  | false => exact ⟨"b", rfl⟩
  | true => exact ⟨"a", rfl⟩

/-- One node installs the first version, and the other the second. -/
theorem views_installed_two_nodes :
    ∃ s : Ensemble Bool String, Transition.run step (initial none bothSequencers ownSequencer)
        (reconfigured true 5 ++ refreshed false ++ reconfigured false 9) = some s ∧
      s.started = [("b", 2, 9), ("a", 1, 5)] ∧ (s.started.map (·.2.1)).Nodup := by
  obtain ⟨s, hrun⟩ : ∃ s, Transition.run step (initial none bothSequencers ownSequencer)
      (reconfigured true 5 ++ refreshed false ++ reconfigured false 9) = some s := ⟨_, rfl⟩
  have hstarted : s.started = [("b", 2, 9), ("a", 1, 5)] := by
    cases hrun
    rfl
  exact ⟨s, hrun, hstarted,
    (views_installed (fun _ h => by cases h) resolves_both hrun (by decide +kernel)).2.1⟩

/-- **Both loops of a node at once.** A refresh finds a newer version installed than it has read,
and the `CHECK` fails; or it puts an older version back, and then the newer one is started with the
older one's sequencer. -/
theorem overlapping_calls :
    (∃ (es : List (Event Bool)) (s : Ensemble Bool String),
      Transition.run step (initial none bothSequencers ownSequencer) es = some s ∧
        (s.nodes true).crashed = true) ∧
    ∃ (es : List (Event Bool)) (s : Ensemble Bool String) (c : MetadataConfig),
      Transition.run step (initial none bothSequencers ownSequencer) es = some s ∧
        s.metadataStore.getConfig 2 = some c ∧ c.sequencerConfig.id = "a" ∧
        ("b", 2, 7) ∈ s.started ∧ s.installed true = 1 := by
  refine ⟨⟨[.healthCheck true false, .proceed true .healthCheck] ++ reconfigured true 5 ++
      [.proceed true .healthCheck], _, rfl, by decide +kernel⟩,
    reconfigured false 1 ++ [.healthCheck true false, .proceed true .healthCheck,
      .proceed true .healthCheck, .proceed true .healthCheck, .reconcile true,
      .proceed true .reconcile, .propose true .reconcile 7, .proceed true .reconcile,
      .proceed true .reconcile, .proceed true .healthCheck, .proceed true .reconcile],
    _, _, rfl, rfl, rfl, ?_, rfl⟩
  exact List.mem_cons_self

/-- **Views do not go back, and a refresh brings a node up to date.** -/
theorem refreshed_views_current {b : Option Bootstrap} {config : ι → ServerConfig}
    {es₁ es₂ : List (Event ι)} {s₁ s₂ : Ensemble ι σ}
    (hboot : ∀ b', b = some b' → Resolves registry b'.config.sequencerConfig.id)
    (htarget : ∀ n, Resolves registry (config n).sequencerId)
    (hrun₁ : Transition.run step (initial b registry config) es₁ = some s₁)
    (hrun₂ : Transition.run step s₁ es₂ = some s₂)
    (halone : Transition.Meets step Alone (initial b registry config) (es₁ ++ es₂)) :
    (∀ n, s₁.installed n ≤ s₂.installed n ∧
        s₂.installed n ≤ s₂.metadataStore.getCurrentVersionId) ∧
      ∀ n, (s₁.nodes n).calls .healthCheck = some .refreshConfiguration →
        .fail n .healthCheck ∉ es₂ → (s₂.nodes n).calls .healthCheck = none →
        s₁.metadataStore.getCurrentVersionId ≤ s₂.installed n := by
  obtain ⟨halone₁, halone₂⟩ := halone.append hrun₁
  have hsound₁ : Sound registry s₁ := (sound_initial hboot htarget).run hrun₁ halone₁
  have hsound₂ : Sound registry s₂ := hsound₁.run hrun₂ halone₂
  refine ⟨?_, ?_⟩
  · intro n
    refine ⟨?_, ((hsound₂.nodes n).current).le hsound₂.grown⟩
    refine (Transition.meets_invariant
      (P := fun t => Sound registry t ∧ s₁.installed n ≤ t.installed n) ?_ hrun₂ halone₂
      ⟨hsound₁, le_rfl⟩).2
    rintro t e t' ⟨ht, hle⟩ halone hs
    exact ⟨ht.step halone hs, hle.trans (ht.installed_mono hs n)⟩
  · intro n hbegin hfail hidle
    have hreaches : Reaches s₁.metadataStore.getCurrentVersionId s₁ n :=
      .inr ⟨_, hbegin, trivial⟩
    rcases hsound₁.reaches_run le_rfl hreaches hrun₂ halone₂ hfail with hdone | ⟨call, hcall, -⟩
    · exact hdone
    · rw [hidle] at hcall
      cases hcall

/-- The refresh of the second node, which begins when version 1 is installed. -/
theorem refreshed_views_current_two_nodes :
    ∃ s : Ensemble Bool String, Transition.run step (initial none bothSequencers ownSequencer)
        (reconfigured true 5 ++ refreshed false) = some s ∧ 1 ≤ s.installed false := by
  obtain ⟨s₁, hrun₁⟩ : ∃ s₁, Transition.run step (initial none bothSequencers ownSequencer)
      (reconfigured true 5 ++ [.healthCheck false false]) = some s₁ := ⟨_, rfl⟩
  obtain ⟨s₂, hrun₂⟩ : ∃ s₂, Transition.run step s₁ (refreshed false).tail = some s₂ := by
    cases hrun₁
    exact ⟨_, rfl⟩
  have hrun := Transition.run_append_eq_some.mpr ⟨s₁, hrun₁, hrun₂⟩
  have hbegin : (s₁.nodes false).calls .healthCheck = some .refreshConfiguration := by
    cases hrun₁
    rfl
  have hversion : s₁.metadataStore.getCurrentVersionId = 1 := by
    cases hrun₁
    rfl
  have hend : (s₂.nodes false).calls .healthCheck = none := by
    cases hrun₁
    cases hrun₂
    rfl
  have hcurrent := (refreshed_views_current (fun _ h => by cases h) resolves_both hrun₁ hrun₂
    (by decide +kernel)).2 false hbegin (by decide) hend
  rw [hversion] at hcurrent
  exact ⟨s₂, hrun, hcurrent⟩

/-! ## When a node takes action -/

/-- What a health check of a node has found. -/
def Event.check (n : ι) : Event ι → Option Bool
  | .healthCheck m result => if m = n then some result else none
  | _ => none

/-- What its health checks have found along a run. -/
def checksOf (n : ι) (s : Ensemble ι σ) (es : List (Event ι)) : List Bool :=
  Transition.observed step (fun _ e => e.check n) s es

/-- The last five, or all there were. -/
def lastFive (checks : List Bool) : List Bool := checks.drop (checks.length - 5)

/-- The node has a record of its last five checks. -/
structure Records (node : EnsembleNode σ) (checks : List Bool) : Prop where
  records : node.healthCheckRecords = (List.replicate 5 false ++ checks).drop checks.length
  alive : node.ensembleAlive = node.healthCheckRecords.any id

/-- At the beginning the five records are there without a check, and they are failures. -/
theorem Records.ensembleAlive_iff {checks : List Bool} (h : Records node checks) :
    node.ensembleAlive = false ↔ ∀ result ∈ lastFive checks, result = false := by
  have hany : node.ensembleAlive = (lastFive checks).any id := by
    rw [h.alive, h.records, List.drop_append, List.any_append, List.drop_replicate,
      List.any_replicate, List.length_replicate]
    split
    · exact Bool.false_or _
    · exact Bool.false_or _
  rw [hany, List.any_eq_false]
  simp

theorem Records.healthCheck {checks : List Bool} (h : Records node checks) (result : Bool) :
    Records (node.healthCheck result) (checks ++ [result]) := by
  refine ⟨?_, rfl⟩
  show (node.healthCheckRecords ++ [result]).drop 1 = _
  have hle : checks.length ≤ (List.replicate 5 false ++ checks).length := by
    rw [List.length_append]
    omega
  rw [h.records, ← List.drop_append_of_le_length hle, List.drop_drop, List.append_assoc,
    List.length_append]
  rfl

theorem Records.same {checks : List Bool} {node' : EnsembleNode σ} (h : Records node checks)
    (hsame : node'.SameHealth node) : Records node' checks :=
  ⟨hsame.1.trans h.records, by rw [hsame.2, hsame.1]; exact h.alive⟩

theorem Records.step {checks : List Bool} (h : Records (s.nodes n) checks)
    (hs : s.step e = some s') : Records (s'.nodes n) (checks ++ (e.check n).toList) := by
  by_cases hn : n = e.node
  · subst hn
    cases e with
    | healthCheck m result =>
      obtain ⟨-, hs⟩ := Option.ite_none_right_eq_some.mp hs
      obtain rfl := Option.some.inj hs
      have hcheck : (Event.healthCheck m result).check m = some result := if_pos rfl
      show Records ((s.setNode m ((s.nodes m).healthCheck result)).nodes m)
        (checks ++ ((Event.healthCheck m result).check m).toList)
      rw [setNode_self, hcheck]
      exact h.healthCheck result
    | reconcile m =>
      obtain ⟨-, hs⟩ := Option.ite_none_right_eq_some.mp hs
      obtain rfl := Option.some.inj hs
      show Records ((s.setNode m (s.nodes m).reconcile).nodes m) (checks ++ [])
      rw [setNode_self, List.append_nil]
      apply h.same
      unfold EnsembleNode.reconcile
      split
      · exact ⟨rfl, rfl⟩
      · exact ⟨rfl, rfl⟩
    | proceed m loop =>
      obtain ⟨call, -, hs⟩ := Option.bind_eq_some_iff.mp hs
      obtain ⟨-, node, hnodes, hsame⟩ := proceed_frame hs
      show Records (s'.nodes m) (checks ++ [])
      rw [hnodes, setNode_self, List.append_nil]
      exact h.same hsame
    | propose m loop maxLogId =>
      obtain ⟨call, -, hs⟩ := Option.bind_eq_some_iff.mp hs
      show Records (s'.nodes m) (checks ++ [])
      rw [List.append_nil]
      obtain ⟨versionId, target, -, ⟨rfl, -⟩ | ⟨metadataStore, -, rfl⟩⟩ := propose_cases hs
      · rw [setNode_self]
        exact h.same ⟨rfl, rfl⟩
      · dsimp only
        rw [setNode_self]
        exact h.same ⟨rfl, rfl⟩
    | fail m loop =>
      obtain ⟨call, -, rfl⟩ := Option.map_eq_some_iff.mp hs
      show Records ((s.setNode m ((s.nodes m).setCall loop none)).nodes m) (checks ++ [])
      rw [setNode_self, List.append_nil]
      exact h.same ⟨rfl, rfl⟩
  · have hcheck : e.check n = none := by
      cases e with
      | healthCheck m result => exact if_neg (Ne.symm hn)
      | _ => rfl
    rw [step_other hs hn, hcheck]
    exact (List.append_nil checks).symm ▸ h

theorem run_records {b : Option Bootstrap} {config : ι → ServerConfig}
    (hrun : Transition.run step (initial b registry config) es = some s) (n : ι) :
    Records (s.nodes n) (checksOf n (initial b registry config) es) :=
  Transition.observed_invariant (P := fun t checks => Records (t.nodes n) checks)
    (fun _ _ _ _ h hs => h.step hs) hrun ⟨rfl, rfl⟩

/-- A node that has found the ensemble alive once, long ago. -/
def longAgo : List (Event Bool) :=
  .healthCheck true true :: List.replicate 4 (.healthCheck true false)

end Ensemble

end ReplicatedCounter.Log
