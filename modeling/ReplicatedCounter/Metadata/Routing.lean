import Mathlib.Data.List.Pairwise
import ReplicatedCounter.Lib.Fallible
import ReplicatedCounter.Metadata.ConfigChain

/-!
# Routing a log id through a list of accepted configurations

`VirtualLogImpl::reconfigure` closes every new configuration at
`std::numeric_limits<int64_t>::max()` and starts it where the previous one was sealed, so a version
that took no entry shares its start index with its successor. Nothing in the store then says where a
version ends: the copy that `getConfigUsingLogId` reads is never told.
`getConfigUsingLogId_appendAll` is why that is enough.

The invariant `Routed` is about the list itself: the index by start holds, for each start index in
it, the latest configuration that starts there.
-/

set_option autoImplicit false

namespace ReplicatedCounter.Metadata

/-- `std::numeric_limits<std::int64_t>::max()`. -/
def int64Max : Int := 9223372036854775807

namespace InMemoryMetadataStore

/-- The configurations appended one after another; an error as soon as one of them is refused. -/
def appendAll (configs : List MetadataConfig) (s : InMemoryMetadataStore) :
    Except MetadataError InMemoryMetadataStore :=
  configs.foldlM compareAndAppendRange s

/-- The shape `reconfigure` gives to what it appends. -/
structure BuiltByReconfigure (configs : List MetadataConfig) : Prop where
  endIndex : ∀ c ∈ configs, c.endIndex = int64Max
  startIndex : configs.Pairwise (·.startIndex ≤ ·.startIndex)

/-- What the two indices hold after `configs` were accepted. -/
structure Routed (configs : List MetadataConfig) (s : InMemoryMetadataStore) : Prop where
  ascending : configs.Pairwise (·.versionId < ·.versionId)
  le_current : ∀ c ∈ configs, s.configs.last? ≠ none ∧ c.versionId ≤ s.getCurrentVersionId
  filed : FiledByStart s.logIdToConfig
  accepted : ∀ k c, (k, c) ∈ s.logIdToConfig.entries → c ∈ configs
  covered : ∀ c ∈ configs, ∃ d, (c.startIndex, d) ∈ s.logIdToConfig.entries ∧
    c.versionId ≤ d.versionId

variable {configs : List MetadataConfig} {s s' : InMemoryMetadataStore} {c d : MetadataConfig}
  {logId : Int}

theorem Routed.empty : Routed [] {} where
  ascending := .nil
  le_current _ hc := absurd hc List.not_mem_nil
  filed _ _ hc := absurd hc List.not_mem_nil
  accepted _ _ hc := absurd hc List.not_mem_nil
  covered _ hc := absurd hc List.not_mem_nil

/-- An accepted configuration is newer than what was there. -/
theorem lt_of_compareAndAppendRange {v a : Int} (h : s.compareAndAppendRange c = .ok s')
    (hv : s.startOf v = some a) : v < c.versionId := by
  rcases compareAndAppendRange_cases h with ⟨hnone, -, -⟩ | ⟨last, -, hnext, -⟩
  · rw [startOf_eq_none_of_last? hnone] at hv
    cases hv
  · rw [hnext, previousVersionId_of_compareAndAppendRange h]
    exact Int.lt_add_one_of_le (le_getCurrentVersionId hv)

/-- **An accepted configuration becomes the last one.** -/
theorem last?_of_compareAndAppendRange (h : s.compareAndAppendRange c = .ok s') :
    s'.configs.last? = some (c.versionId, c) := by
  have hnew : s'.startOf c.versionId = some c.startIndex := by
    rw [startOf_of_compareAndAppendRange h, if_pos rfl]
  have hcurrent : s'.getCurrentVersionId = c.versionId := by
    apply getCurrentVersionId_eq hnew
    intro w b hw
    rw [startOf_of_compareAndAppendRange h] at hw
    split at hw
    · rename_i heq
      exact heq.le
    · exact (lt_of_compareAndAppendRange h hw).le
  cases hlast : s'.configs.last? with
  | none =>
    rw [startOf_eq_none_of_last? hlast] at hnew
    cases hnew
  | some entry =>
    obtain ⟨v, d⟩ := entry
    unfold getCurrentVersionId at hcurrent
    rw [hlast] at hcurrent
    have hv : v = c.versionId := hcurrent
    have hfind := SortedMap.find?_of_last? hlast
    rw [hv, find?_of_compareAndAppendRange h] at hfind
    rw [hv, Option.some.inj hfind]

/-- **One more configuration.** -/
theorem Routed.append (hs : Routed configs s) (h : s.compareAndAppendRange c = .ok s') :
    Routed (configs ++ [c]) s' := by
  have hnewer : ∀ d ∈ configs, d.versionId < c.versionId := by
    intro d hd
    obtain ⟨hlast, hle⟩ := hs.le_current d hd
    rcases compareAndAppendRange_cases h with ⟨hnone, -, -⟩ | ⟨last, -, hnext, -⟩
    · exact absurd hnone hlast
    · rw [hnext, previousVersionId_of_compareAndAppendRange h]
      exact Int.lt_add_one_of_le hle
  have hmem : ∀ {k e}, (k, e) ∈ s'.logIdToConfig.entries ↔
      (k = c.startIndex ∧ e = c) ∨ (k ≠ c.startIndex ∧ (k, e) ∈ s.logIdToConfig.entries) := by
    intro k e
    rw [logIdToConfig_of_compareAndAppendRange h]
    exact SortedMap.mem_insert
  have hlast := last?_of_compareAndAppendRange h
  have hcurrent : s'.getCurrentVersionId = c.versionId := by
    unfold getCurrentVersionId
    rw [hlast]
  constructor
  · rw [List.pairwise_append]
    refine ⟨hs.ascending, List.pairwise_singleton _ _, ?_⟩
    intro d hd e he
    rw [List.mem_singleton.mp he]
    exact hnewer d hd
  · intro d hd
    refine ⟨by simp [hlast], ?_⟩
    rw [hcurrent]
    rcases List.mem_append.mp hd with hd | hd
    · exact (hnewer d hd).le
    · rw [List.mem_singleton.mp hd]
  · intro k e he
    rcases hmem.mp he with ⟨rfl, rfl⟩ | ⟨-, he⟩
    · rfl
    · exact hs.filed k e he
  · intro k e he
    rcases hmem.mp he with ⟨-, rfl⟩ | ⟨-, he⟩
    · exact List.mem_append_right _ List.mem_cons_self
    · exact List.mem_append_left _ (hs.accepted k e he)
  · intro d hd
    by_cases hstart : d.startIndex = c.startIndex
    · -- whatever was filed there has been overwritten by the newest version
      refine ⟨c, hmem.mpr (.inl ⟨hstart, rfl⟩), ?_⟩
      rcases List.mem_append.mp hd with hd | hd
      · exact (hnewer d hd).le
      · rw [List.mem_singleton.mp hd]
    · rcases List.mem_append.mp hd with hd | hd
      · obtain ⟨e, he, hle⟩ := hs.covered d hd
        exact ⟨e, hmem.mpr (.inr ⟨hstart, he⟩), hle⟩
      · rw [List.mem_singleton.mp hd] at hstart
        exact absurd rfl hstart

theorem Routed.appendAll {earlier : List MetadataConfig} (hs : Routed earlier s)
    (h : appendAll configs s = .ok s') : Routed (earlier ++ configs) s' := by
  induction configs generalizing s earlier with
  | nil =>
    cases h
    rw [List.append_nil]
    exact hs
  | cons c configs ih =>
    obtain ⟨t, ht, hrest⟩ := Fallible.bind_eq_ok.mp h
    have hgrown := ih (hs.append ht) hrest
    rwa [List.append_assoc] at hgrown

/-- In such a list the versions and the start indices come in the same order. -/
theorem Routed.startIndex_le (hs : Routed configs s) (hbuilt : BuiltByReconfigure configs)
    (hc : c ∈ configs) (hd : d ∈ configs) (hle : c.versionId ≤ d.versionId) :
    c.startIndex ≤ d.startIndex := by
  have hflip : configs.Pairwise (flip fun e f => e.versionId ≤ f.versionId →
      e.startIndex ≤ f.startIndex) := by
    apply hs.ascending.imp
    intro e f hlt hle
    exact absurd hle (not_le.mpr hlt)
  have hforward : configs.Pairwise (fun e f => e.versionId ≤ f.versionId →
      e.startIndex ≤ f.startIndex) := by
    apply hbuilt.startIndex.imp
    intro e f hstart _
    exact hstart
  exact List.Pairwise.forall_of_forall_of_flip (fun e _ _ => le_rfl) hforward hflip hc hd hle

/-- An id below the maximum is answered for by every such configuration that starts at or below
it. -/
theorem BuiltByReconfigure.answers (hbuilt : BuiltByReconfigure configs) (hc : c ∈ configs)
    (hlog : logId < int64Max) (hle : c.startIndex ≤ logId) : Answers c logId := by
  refine ⟨hle, ?_⟩
  rw [hbuilt.endIndex c hc]
  exact hlog

/-- **What the lookup finds is the newest version that starts at or below the id.** -/
theorem Routed.newest (hs : Routed configs s) (hbuilt : BuiltByReconfigure configs)
    (hlog : logId < int64Max) (h : s.getConfigUsingLogId logId = some c) :
    c ∈ configs ∧ c.startIndex ≤ logId ∧
      ∀ d ∈ configs, d.startIndex ≤ logId → d.versionId ≤ c.versionId := by
  obtain ⟨hfiled, hanswers, hlast⟩ := getConfigUsingLogId_spec hs.filed h
  refine ⟨hs.accepted _ c hfiled, hanswers.1, ?_⟩
  intro d hd hle
  obtain ⟨e, he, hde⟩ := hs.covered d hd
  have hstart : d.startIndex = e.startIndex := hs.filed _ e he
  have hemem : e ∈ configs := hs.accepted _ e he
  have hanswersE : Answers e logId := hbuilt.answers hemem hlog (hstart ▸ hle)
  by_contra hlt
  have hce : c.startIndex ≤ e.startIndex := by
    apply hs.startIndex_le hbuilt (hs.accepted _ c hfiled) hemem
    exact (not_le.mp hlt).le.trans hde
  rcases hce.lt_or_eq with hlater | hsame
  · -- filed behind `c`, and still answering: the walk back would have met it first
    exact hlast _ e he (hstart ▸ hlater) hanswersE
  · rw [hstart, ← hsame, ← SortedMap.find?_eq_some, SortedMap.find?_eq_some.mpr hfiled] at he
    rw [Option.some.inj he] at hlt
    exact hlt hde

/-- **Nothing is found exactly when every version starts above the id.** -/
theorem Routed.eq_none_iff (hs : Routed configs s) (hbuilt : BuiltByReconfigure configs)
    (hlog : logId < int64Max) :
    s.getConfigUsingLogId logId = none ↔ ∀ c ∈ configs, logId < c.startIndex := by
  constructor
  · intro hnone c hc
    by_contra hle
    obtain ⟨d, hd, -⟩ := hs.covered c hc
    have hstart : c.startIndex = d.startIndex := hs.filed _ d hd
    have hanswers := hbuilt.answers (hs.accepted _ d hd) hlog (hstart ▸ not_lt.mp hle)
    unfold getConfigUsingLogId at hnone
    rw [List.find?_eq_none] at hnone
    have hvisited : d ∈ visited s.logIdToConfig logId := by
      rw [visited_eq, List.mem_reverse]
      apply List.mem_map_of_mem (List.mem_append_left _ (mem_visited_of_le hd ?_))
      exact not_lt.mp hle
    exact hnone d hvisited (by simpa [Answers] using hanswers)
  · intro hall
    cases hfound : s.getConfigUsingLogId logId with
    | none => rfl
    | some c =>
      obtain ⟨hmem, hle, -⟩ := hs.newest hbuilt hlog hfound
      exact absurd hle (not_le.mpr (hall c hmem))

/-- The first configuration starts first. -/
theorem BuiltByReconfigure.forall_lt_iff (hbuilt : BuiltByReconfigure configs) :
    (∀ c ∈ configs, logId < c.startIndex) ↔ ∀ c ∈ configs.head?, logId < c.startIndex := by
  cases configs with
  | nil => simp
  | cons first rest =>
    constructor
    · intro hall c hc
      exact hall c (List.mem_of_mem_head? hc)
    · intro hfirst c hc
      have hlt := hfirst first rfl
      rcases List.mem_cons.mp hc with rfl | hc
      · exact hlt
      · exact hlt.trans_le ((List.pairwise_cons.mp hbuilt.startIndex).1 c hc)

/-- **Log-id routing.** After any configurations of the shape `reconfigure` builds were accepted, a
log id is routed to the newest version that starts at or below it, and to none exactly if it lies
below the first. -/
theorem getConfigUsingLogId_appendAll (haccepted : appendAll configs {} = .ok s)
    (hbuilt : BuiltByReconfigure configs) (hlog : logId < int64Max) :
    (∀ c, s.getConfigUsingLogId logId = some c → c ∈ configs ∧ c.startIndex ≤ logId ∧
      ∀ d ∈ configs, d.startIndex ≤ logId → d.versionId ≤ c.versionId) ∧
    (s.getConfigUsingLogId logId = none ↔ ∀ c ∈ configs.head?, logId < c.startIndex) := by
  have hs : Routed configs s := Routed.empty.appendAll haccepted
  constructor
  · intro c hc
    exact hs.newest hbuilt hlog hc
  · rw [hs.eq_none_iff hbuilt hlog, hbuilt.forall_lt_iff]

/-- Version 2 took no entry; version 3 overwrote it in the index, and the id goes there. -/
theorem getConfigUsingLogId_appendAll_shared_start :
    let config (version start : Int) : MetadataConfig :=
      { versionId := version, previousVersionId := version - 1, startIndex := start,
        endIndex := int64Max }
    let configs := [config 1 1, config 2 40, config 3 40, config 4 60]
    ∃ s, appendAll configs {} = .ok s ∧ s.getConfigUsingLogId 40 = some (config 3 40) ∧
      (s.getConfigUsingLogId 40 = none ↔ ∀ c ∈ configs.head?, 40 < c.startIndex) := by
  intro config configs
  have hbuilt : BuiltByReconfigure configs := ⟨by decide, by decide⟩
  refine ⟨_, rfl, by decide +kernel, ?_⟩
  exact (getConfigUsingLogId_appendAll rfl hbuilt (by decide)).2

end InMemoryMetadataStore

end ReplicatedCounter.Metadata
