import Mathlib.Data.List.TakeWhile
import Mathlib.Data.List.TakeDrop
import ReplicatedCounter.Metadata.InMemoryMetadataStore

/-!
# The chain of versions, and where a log id is routed

`compareAndAppendRange` only ever installs the successor of the last version. When in addition no
version starts below its predecessor, and every version but the first claims everything up to
`top`, the two indices of the store together route a log id to the **last version that starts at
or below it**. That is `ConfigChain`, and `ConfigChain.routes` is what it is for.

Only the copy of a configuration that is stored by version learns where its successor starts.
Lookups use the other copy, so a version is never found to have ended; what hides it is that its
successors come later in the order of start indices.
-/

set_option autoImplicit false

namespace ReplicatedCounter.Metadata

namespace InMemoryMetadataStore

/-! ## The lookup -/

/-- Whether a configuration answers for `logId`. -/
def Answers (c : MetadataConfig) (logId : Int) : Prop := c.startIndex ≤ logId ∧ logId < c.endIndex

/-- Every configuration is filed under its own start index. -/
def FiledByStart (m : SortedMap Int MetadataConfig) : Prop :=
  ∀ k c, (k, c) ∈ m.entries → k = c.startIndex

variable {m : SortedMap Int MetadataConfig} {s : InMemoryMetadataStore} {c : MetadataConfig}
  {logId : Int}

theorem visited_eq : visited m logId = ((m.entries.takeWhile (·.1 ≤ logId) ++
    (m.entries.dropWhile (·.1 ≤ logId)).take 1).map (·.2)).reverse := by
  unfold visited
  rw [List.span_eq_takeWhile_dropWhile]

theorem visited_prefix (m : SortedMap Int MetadataConfig) (logId : Int) :
    (m.entries.takeWhile (·.1 ≤ logId) ++
    (m.entries.dropWhile (·.1 ≤ logId)).take 1) <+: m.entries := by
  refine ⟨(m.entries.dropWhile (·.1 ≤ logId)).drop 1, ?_⟩
  rw [List.append_assoc, List.take_append_drop, List.takeWhile_append_dropWhile]

/-- Everything that starts at or below the id is visited. -/
theorem mem_visited_of_le {k : Int} (hmem : (k, c) ∈ m.entries) (hk : k ≤ logId) :
    (k, c) ∈ m.entries.takeWhile (·.1 ≤ logId) := by
  have hsorted := m.sorted
  generalize m.entries = l at hmem hsorted
  induction l with
  | nil => exact absurd hmem List.not_mem_nil
  | cons e rest ih =>
    obtain ⟨hhead, hrest⟩ := List.pairwise_cons.mp hsorted
    have he : e.1 ≤ logId := by
      rcases List.mem_cons.mp hmem with rfl | hmem
      · exact hk
      · exact (hhead _ hmem).le.trans hk
    rw [List.takeWhile_cons_of_pos (by simpa using he)]
    rcases List.mem_cons.mp hmem with rfl | hmem
    · exact List.mem_cons_self
    · exact List.mem_cons_of_mem _ (ih hmem hrest)

/-- What the lookup returns answers for the id, and nothing filed after it does. -/
theorem getConfigUsingLogId_spec (hfiled : FiledByStart s.logIdToConfig)
    (h : s.getConfigUsingLogId logId = some c) :
    (c.startIndex, c) ∈ s.logIdToConfig.entries ∧ Answers c logId ∧
      ∀ k d, (k, d) ∈ s.logIdToConfig.entries → c.startIndex < k → ¬ Answers d logId := by
  unfold getConfigUsingLogId at h
  rw [visited_eq, List.find?_eq_some_iff_append] at h
  obtain ⟨hc, later, earlier, hsplit, hlater⟩ := h
  have hanswers : Answers c logId := by simpa [Answers] using hc
  rw [List.reverse_eq_iff, List.reverse_append, List.reverse_cons, List.append_assoc,
    List.map_eq_append_iff] at hsplit
  obtain ⟨front, back, hvisited, -, hback⟩ := hsplit
  obtain ⟨e, back', rfl, rfl, hback'⟩ := List.map_eq_cons_iff.mp hback
  obtain ⟨k, c⟩ := e
  obtain ⟨unvisited, hentries⟩ := visited_prefix s.logIdToConfig logId
  rw [hvisited] at hentries
  have hmem : (k, c) ∈ s.logIdToConfig.entries := by
    rw [← hentries]
    simp
  obtain rfl : k = c.startIndex := hfiled k c hmem
  refine ⟨hmem, hanswers, fun k' d hd hlt hd' => ?_⟩
  have hle : k' ≤ logId := (hfiled k' d hd).trans_le hd'.1
  have hd'' : (k', d) ∈ front ++ (c.startIndex, c) :: back' := by
    rw [← hvisited]
    exact List.mem_append_left _ (mem_visited_of_le hd hle)
  have hsorted : (front ++ (c.startIndex, c) :: back').Pairwise (·.1 < ·.1) := by
    have := s.logIdToConfig.sorted
    rw [← hentries] at this
    exact (List.pairwise_append.mp this).1
  rcases List.mem_append.mp hd'' with hfront | hrest
  · have := (List.pairwise_append.mp hsorted).2.2 _ hfront _ List.mem_cons_self
    exact absurd this (not_lt.mpr hlt.le)
  · rcases List.mem_cons.mp hrest with heq | hrest
    · exact absurd (Prod.mk.inj heq).1 hlt.ne'
    · have hdl : d ∈ later := by
        have hmap := List.mem_map_of_mem (f := Prod.snd) hrest
        rw [hback'] at hmap
        simpa using hmap
      simpa [Answers, hd'.1, hd'.2] using hlater d hdl

/-- **The lookup, by its specification.** -/
theorem getConfigUsingLogId_eq_some (hfiled : FiledByStart s.logIdToConfig)
    (hmem : (c.startIndex, c) ∈ s.logIdToConfig.entries) (hc : Answers c logId)
    (hlast : ∀ k d, (k, d) ∈ s.logIdToConfig.entries → c.startIndex < k → ¬ Answers d logId) :
    s.getConfigUsingLogId logId = some c := by
  cases h : s.getConfigUsingLogId logId with
  | none =>
    unfold getConfigUsingLogId at h
    rw [List.find?_eq_none] at h
    have hvisited : c ∈ visited s.logIdToConfig logId := by
      rw [visited_eq, List.mem_reverse]
      exact List.mem_map_of_mem (List.mem_append_left _ (mem_visited_of_le hmem hc.1))
    exact absurd (h c hvisited) (by simpa [Answers] using hc)
  | some d =>
    obtain ⟨hd, hd', hdlast⟩ := getConfigUsingLogId_spec hfiled h
    rcases lt_trichotomy c.startIndex d.startIndex with hlt | heq | hlt
    · exact absurd hd' (hlast _ d hd hlt)
    · rw [← heq, ← SortedMap.find?_eq_some, SortedMap.find?_eq_some.mpr hmem] at hd
      rw [Option.some.inj hd]
    · exact absurd hc (hdlast _ c hmem hlt)

/-! ## Start indices by version -/

/-- Where a version starts, if it has been installed. -/
def startOf (s : InMemoryMetadataStore) (v : Int) : Option Int :=
  (s.configs.find? v).map (·.startIndex)

variable {s' : InMemoryMetadataStore} {v w a b : Int}

theorem startOf_eq_none_of_last? (h : s.configs.last? = none) : s.startOf v = none := by
  have hempty := SortedMap.last?_eq_none.mp h
  have hfind : s.configs.find? v = none :=
    SortedMap.find?_eq_none.mpr fun c hc => by rw [hempty] at hc; exact absurd hc List.not_mem_nil
  unfold startOf
  rw [hfind]
  rfl

/-- **An append adds one version** and moves no start index. -/
theorem startOf_of_compareAndAppendRange (h : s.compareAndAppendRange c = .ok s') :
    s'.startOf v = if v = c.versionId then some c.startIndex else s.startOf v := by
  unfold startOf
  rcases compareAndAppendRange_cases h with ⟨-, -, rfl⟩ | ⟨last, hlast, -, rfl⟩
  · unfold appendFirst
    rw [SortedMap.find?_insert]
    split <;> rfl
  · unfold appendAfter
    rw [SortedMap.find?_insert, SortedMap.find?_insert]
    split
    · rfl
    · split
      · -- the predecessor is told its end, and keeps its start
        rename_i hprev
        rw [hprev, SortedMap.find?_of_last? hlast]
        rfl
      · rfl

theorem logIdToConfig_of_compareAndAppendRange (h : s.compareAndAppendRange c = .ok s') :
    s'.logIdToConfig = s.logIdToConfig.insert c.startIndex c := by
  rcases compareAndAppendRange_cases h with ⟨-, -, rfl⟩ | ⟨last, -, -, rfl⟩ <;> rfl

/-- Where a version is installed there is a last one. -/
theorem exists_last_of_startOf (h : s.startOf v = some a) :
    ∃ w d, s.configs.last? = some (w, d) ∧ v ≤ w := by
  obtain ⟨c, hfind, -⟩ := Option.map_eq_some_iff.mp h
  have hmem := SortedMap.find?_eq_some.mp hfind
  cases hlast : s.configs.last? with
  | none =>
    rw [SortedMap.last?_eq_none.mp hlast] at hmem
    exact absurd hmem List.not_mem_nil
  | some entry => exact ⟨entry.1, entry.2, rfl, SortedMap.le_of_last? hlast hmem⟩

theorem le_getCurrentVersionId (h : s.startOf v = some a) : v ≤ s.getCurrentVersionId := by
  obtain ⟨w, d, hlast, hle⟩ := exists_last_of_startOf h
  unfold getCurrentVersionId
  rw [hlast]
  exact hle

/-- The current version is the greatest one installed. -/
theorem getCurrentVersionId_eq (h : s.startOf v = some a)
    (hmax : ∀ w b, s.startOf w = some b → w ≤ v) : s.getCurrentVersionId = v := by
  refine le_antisymm ?_ (le_getCurrentVersionId h)
  obtain ⟨w, d, hlast, -⟩ := exists_last_of_startOf h
  unfold getCurrentVersionId
  rw [hlast]
  refine hmax w d.startIndex ?_
  unfold startOf
  rw [SortedMap.find?_of_last? hlast]
  rfl

/-- An accepted configuration follows the current version. -/
theorem previousVersionId_of_compareAndAppendRange (h : s.compareAndAppendRange c = .ok s') :
    c.previousVersionId = s.getCurrentVersionId := by
  unfold getCurrentVersionId
  rcases compareAndAppendRange_cases h with ⟨hlast, hzero, -⟩ | ⟨last, hlast, -, -⟩
  · rw [hlast]
    exact hzero
  · rw [hlast]

/-! ## The chain -/

/-- The versions are `1, 2, …` without a gap, their start indices never decrease, and the index by
log id holds, for each start index, the last version that starts there. -/
structure ConfigChain (firstEnd top : Int) (s : InMemoryMetadataStore) : Prop where
  current_nonneg : 0 ≤ s.getCurrentVersionId
  installed : ∀ v, 1 ≤ v → v ≤ s.getCurrentVersionId → ∃ a, s.startOf v = some a
  one_le : ∀ v a, s.startOf v = some a → 1 ≤ v
  mono : ∀ v w a b, v ≤ w → s.startOf v = some a → s.startOf w = some b → a ≤ b
  filed : FiledByStart s.logIdToConfig
  filed_startOf : ∀ k c, (k, c) ∈ s.logIdToConfig.entries → s.startOf c.versionId = some k
  endIndex : ∀ k c, (k, c) ∈ s.logIdToConfig.entries →
    c.endIndex = if c.versionId = 1 then firstEnd else top
  covered : ∀ v a, s.startOf v = some a →
    ∃ c, (a, c) ∈ s.logIdToConfig.entries ∧ v ≤ c.versionId

variable {firstEnd top : Int}

theorem ConfigChain.empty : ConfigChain firstEnd top {} where
  current_nonneg := le_refl _
  installed v h h' := by
    have : (({} : InMemoryMetadataStore).getCurrentVersionId : Int) = 0 := rfl
    omega
  one_le v a h := absurd h (by simp [startOf])
  mono v w a b _ h := absurd h (by simp [startOf])
  filed k c h := absurd h List.not_mem_nil
  filed_startOf k c h := absurd h List.not_mem_nil
  endIndex k c h := absurd h List.not_mem_nil
  covered v a h := absurd h (by simp [startOf])

/-- **The chain grows.** It stays one when the new version does not start below the current one and
claims the ids a version in its place should. -/
theorem ConfigChain.append (hs : ConfigChain firstEnd top s)
    (h : s.compareAndAppendRange c = .ok s') (hnext : c.versionId = c.previousVersionId + 1)
    (hstart : ∀ a, s.startOf c.previousVersionId = some a → a ≤ c.startIndex)
    (hend : c.endIndex = if c.versionId = 1 then firstEnd else top) :
    ConfigChain firstEnd top s' := by
  have hprev := previousVersionId_of_compareAndAppendRange h
  have hold : ∀ {w b}, s.startOf w = some b → w < c.versionId := fun hw => by
    have := le_getCurrentVersionId hw
    omega
  have hcases : ∀ {w b}, s'.startOf w = some b →
      (w = c.versionId ∧ b = c.startIndex) ∨ s.startOf w = some b := by
    intro w b hw
    rw [startOf_of_compareAndAppendRange h] at hw
    split at hw
    · rename_i heq
      exact .inl ⟨heq, (Option.some.inj hw).symm⟩
    · exact .inr hw
  have hkeep : ∀ {w b}, s.startOf w = some b → s'.startOf w = some b := by
    intro w b hw
    rw [startOf_of_compareAndAppendRange h, if_neg (hold hw).ne]
    exact hw
  have hnew : s'.startOf c.versionId = some c.startIndex := by
    rw [startOf_of_compareAndAppendRange h, if_pos rfl]
  have hcurrent : s'.getCurrentVersionId = c.versionId := by
    refine getCurrentVersionId_eq hnew fun w b hw => ?_
    rcases hcases hw with ⟨rfl, -⟩ | hw
    · exact le_refl _
    · exact (hold hw).le
  have hone : 1 ≤ c.versionId := by
    have := hs.current_nonneg
    omega
  have hmem : ∀ {k d}, (k, d) ∈ s'.logIdToConfig.entries ↔
      (k = c.startIndex ∧ d = c) ∨ (k ≠ c.startIndex ∧ (k, d) ∈ s.logIdToConfig.entries) := by
    intro k d
    rw [logIdToConfig_of_compareAndAppendRange h]
    exact SortedMap.mem_insert
  have hlast : ∀ {w b}, s.startOf w = some b → b ≤ c.startIndex := by
    intro w b hw
    obtain ⟨a, ha⟩ := hs.installed s.getCurrentVersionId
      ((hs.one_le w b hw).trans (le_getCurrentVersionId hw)) le_rfl
    exact (hs.mono w _ b a (le_getCurrentVersionId hw) hw ha).trans (hstart a (hprev ▸ ha))
  refine ⟨by omega, fun w hw hw' => ?_, fun w b hw => ?_, fun w x b b' hle hw hx => ?_,
    fun k d hd => ?_, fun k d hd => ?_, fun k d hd => ?_, fun w b hw => ?_⟩
  · by_cases heq : w = c.versionId
    · exact ⟨c.startIndex, heq ▸ hnew⟩
    · obtain ⟨b, hb⟩ := hs.installed w hw (by omega)
      exact ⟨b, hkeep hb⟩
  · rcases hcases hw with ⟨rfl, -⟩ | hw
    · exact hone
    · exact hs.one_le w b hw
  · rcases hcases hw with ⟨rfl, rfl⟩ | hw
    · rcases hcases hx with ⟨-, rfl⟩ | hx
      · exact le_refl _
      · exact absurd (hold hx) (not_lt.mpr hle)
    · rcases hcases hx with ⟨-, rfl⟩ | hx
      · exact hlast hw
      · exact hs.mono w x b b' hle hw hx
  · rcases hmem.mp hd with ⟨rfl, rfl⟩ | ⟨-, hd⟩
    · rfl
    · exact hs.filed k d hd
  · rcases hmem.mp hd with ⟨rfl, rfl⟩ | ⟨-, hd⟩
    · exact hnew
    · exact hkeep (hs.filed_startOf k d hd)
  · rcases hmem.mp hd with ⟨rfl, rfl⟩ | ⟨-, hd⟩
    · exact hend
    · exact hs.endIndex k d hd
  · by_cases hb : b = c.startIndex
    · refine ⟨c, hmem.mpr (.inl ⟨hb, rfl⟩), ?_⟩
      rw [← hcurrent]
      exact le_getCurrentVersionId hw
    · rcases hcases hw with ⟨-, rfl⟩ | hw
      · exact absurd rfl hb
      · obtain ⟨d, hd, hle⟩ := hs.covered w b hw
        exact ⟨d, hmem.mpr (.inr ⟨hb, hd⟩), hle⟩

/-- **An id is routed to a version that starts at or below it when all later ones start above.** -/
theorem ConfigChain.routes (hs : ConfigChain firstEnd top s) (hv : s.startOf v = some a)
    (ha : a ≤ logId) (hlater : ∀ w b, v < w → s.startOf w = some b → logId < b)
    (hend : logId < if v = 1 then firstEnd else top) :
    ∃ c, s.getConfigUsingLogId logId = some c ∧ c.versionId = v := by
  obtain ⟨c, hc, hle⟩ := hs.covered v a hv
  have hstart : a = c.startIndex := hs.filed a c hc
  have hcv : c.versionId = v := by
    rcases hle.lt_or_eq with hlt | heq
    · exact absurd (hlater _ a hlt (hs.filed_startOf a c hc)) (not_lt.mpr ha)
    · exact heq.symm
  refine ⟨c, getConfigUsingLogId_eq_some hs.filed (hstart ▸ hc) ⟨hstart ▸ ha, ?_⟩ ?_, hcv⟩
  · rw [hs.endIndex a c hc, hcv]
    exact hend
  · intro k d hd hlt hd'
    have hdstart := hs.filed_startOf k d hd
    have hk : k ≤ logId := (hs.filed k d hd).trans_le hd'.1
    rcases lt_or_ge v d.versionId with hdv | hdv
    · exact absurd (hlater _ k hdv hdstart) (not_lt.mpr hk)
    · have := hs.mono _ v k a hdv hdstart hv
      omega

/-- **The version an id is routed to starts at or below it, and all later ones start above.** -/
theorem ConfigChain.of_routes (hs : ConfigChain firstEnd top s) (hle : firstEnd ≤ top)
    (h : s.getConfigUsingLogId logId = some c) :
    s.startOf c.versionId = some c.startIndex ∧ c.startIndex ≤ logId ∧
      (logId < if c.versionId = 1 then firstEnd else top) ∧
      ∀ w b, c.versionId < w → s.startOf w = some b → logId < b := by
  obtain ⟨hmem, hanswers, hlast⟩ := getConfigUsingLogId_spec hs.filed h
  have hcstart := hs.filed_startOf _ c hmem
  have hcend := hs.endIndex _ c hmem
  refine ⟨hcstart, hanswers.1, hcend ▸ hanswers.2, fun w b hw hb => ?_⟩
  by_contra hlt
  obtain ⟨d, hd, hwd⟩ := hs.covered w b hb
  rcases (hs.mono _ w _ b hw.le hcstart hb).lt_or_eq with hlt' | heq
  · have hone := hs.one_le _ _ hcstart
    have hdend := hs.endIndex b d hd
    have hnot := hlast b d hd hlt'
    rw [if_neg (by omega)] at hdend
    have hdb := hs.filed b d hd
    have htop : c.endIndex ≤ top := by
      rw [hcend]
      split <;> omega
    have := hanswers.2
    exact hnot ⟨by omega, by omega⟩
  · -- the same start index: then the lookup would have found the later version
    rw [← heq, ← SortedMap.find?_eq_some, SortedMap.find?_eq_some.mpr hmem] at hd
    obtain rfl := Option.some.inj hd
    omega

/-! ## The links of the chain -/

/-- Each configuration names its predecessor and where that ends, and the copy stored by version
ends where its successor starts. -/
structure Linked (s : InMemoryMetadataStore) : Prop where
  versionId : ∀ v c, s.configs.find? v = some c → c.versionId = v
  previous : ∀ v c, s.configs.find? v = some c → c.previousVersionId = v - 1
  previousEnd : ∀ v c, s.configs.find? v = some c → c.previousVersionEndIndex = c.startIndex
  endIndex : ∀ v c d, s.configs.find? v = some c → s.configs.find? (v + 1) = some d →
    c.endIndex = d.startIndex

theorem Linked.empty : Linked {} :=
  ⟨fun _ _ h => absurd h (by simp), fun _ _ h => absurd h (by simp),
    fun _ _ h => absurd h (by simp), fun _ _ _ h => absurd h (by simp)⟩

/-- What the store holds after an append: the new configuration, its predecessor with its end moved,
and the others as they were. -/
theorem configs_of_compareAndAppendRange {d : MetadataConfig}
    (h : s.compareAndAppendRange c = .ok s') (hd : s'.configs.find? v = some d) :
    (v = c.versionId ∧ d = c) ∨
    (v ≠ c.versionId ∧ v = c.previousVersionId ∧ ∃ last, s.configs.find? v = some last ∧
      d = { last with endIndex := c.startIndex }) ∨
    (v ≠ c.versionId ∧ v ≠ c.previousVersionId ∧ s.configs.find? v = some d) := by
  rcases compareAndAppendRange_cases h with ⟨hlast, -, rfl⟩ | ⟨last, hlast, -, rfl⟩
  · unfold appendFirst at hd
    rw [SortedMap.find?_insert] at hd
    split at hd
    · rename_i heq
      exact .inl ⟨heq, (Option.some.inj hd).symm⟩
    · rw [SortedMap.find?_eq_some, SortedMap.last?_eq_none.mp hlast] at hd
      exact absurd hd List.not_mem_nil
  · unfold appendAfter at hd
    rw [SortedMap.find?_insert, SortedMap.find?_insert] at hd
    split at hd
    · rename_i heq
      exact .inl ⟨heq, (Option.some.inj hd).symm⟩
    · rename_i hne
      split at hd
      · rename_i heq
        refine .inr (.inl ⟨hne, heq, last, ?_, (Option.some.inj hd).symm⟩)
        rw [heq]
        exact SortedMap.find?_of_last? hlast
      · rename_i hne'
        exact .inr (.inr ⟨hne, hne', hd⟩)

/-- The stores there are: a new one after any appends. -/
inductive Reachable : InMemoryMetadataStore → Prop where
  | new : Reachable {}
  | append {s s' : InMemoryMetadataStore} {c : MetadataConfig} (hs : Reachable s)
      (h : s.compareAndAppendRange c = .ok s') : Reachable s'

/-- A configuration is stored under its own version. -/
theorem Reachable.versionId_eq (h : Reachable s) {d : MetadataConfig}
    (hd : s.configs.find? v = some d) :
    d.versionId = v := by
  induction h generalizing v d with
  | new => exact absurd hd (by simp)
  | append _ happend ih =>
    rcases configs_of_compareAndAppendRange happend hd with
      ⟨rfl, rfl⟩ | ⟨-, -, last, hlast, rfl⟩ | ⟨-, -, hold⟩
    · rfl
    · show last.versionId = v
      exact ih hlast
    · exact ih hold

/-- **The links hold as the chain grows.** -/
theorem Linked.append (hs : Linked s) (h : s.compareAndAppendRange c = .ok s')
    (hnext : c.versionId = c.previousVersionId + 1)
    (hend : c.previousVersionEndIndex = c.startIndex) : Linked s' := by
  have hprev := previousVersionId_of_compareAndAppendRange h
  have hold : ∀ {w d}, s.configs.find? w = some d → w < c.versionId := by
    intro w d hw
    have hstart : s.startOf w = some d.startIndex := by
      unfold startOf
      rw [hw]
      rfl
    have := le_getCurrentVersionId hstart
    omega
  refine ⟨fun v d hd => ?_, fun v d hd => ?_, fun v d hd => ?_, fun v d d' hd hd' => ?_⟩
  · rcases configs_of_compareAndAppendRange h hd with ⟨rfl, rfl⟩ | ⟨-, -, last, hlast, rfl⟩ |
      ⟨-, -, hold⟩
    · rfl
    · exact hs.versionId v last hlast
    · exact hs.versionId v d hold
  · rcases configs_of_compareAndAppendRange h hd with ⟨rfl, rfl⟩ | ⟨-, -, last, hlast, rfl⟩ |
      ⟨-, -, hold⟩
    · omega
    · exact hs.previous v last hlast
    · exact hs.previous v d hold
  · rcases configs_of_compareAndAppendRange h hd with ⟨rfl, rfl⟩ | ⟨-, -, last, hlast, rfl⟩ |
      ⟨-, -, hold⟩
    · exact hend
    · exact hs.previousEnd v last hlast
    · exact hs.previousEnd v d hold
  · -- the successor is the new configuration, or both were there before
    rcases configs_of_compareAndAppendRange h hd' with ⟨hv, rfl⟩ | ⟨-, hv, last', hlast', rfl⟩ |
      ⟨hne', hprev', hold'⟩
    · rcases configs_of_compareAndAppendRange h hd with ⟨hv', -⟩ | ⟨-, -, last, -, rfl⟩ |
        ⟨-, hne, -⟩
      · omega
      · rfl
      · exact absurd (by omega : v = d'.previousVersionId) hne
    · rcases configs_of_compareAndAppendRange h hd with ⟨hv', -⟩ | ⟨-, hv', -⟩ | ⟨-, -, hold⟩
      · omega
      · omega
      · exact hs.endIndex v d last' hold hlast'
    · rcases configs_of_compareAndAppendRange h hd with ⟨hv', -⟩ | ⟨-, hv', -⟩ | ⟨-, -, hold⟩
      · have := hold hold'
        omega
      · omega
      · exact hs.endIndex v d d' hold hold'

end InMemoryMetadataStore

end ReplicatedCounter.Metadata
