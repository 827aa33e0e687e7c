import ReplicatedCounter.Metadata.Replication
import ReplicatedCounter.Metadata.Routing

/-!
# The two indices of the store

`configs_` and `logIdToConfig_` hold separate copies. An append that is accepted tells the
predecessor its end, `set_end_index(newMetadataConfig.start_index())`, but only the copy in
`configs_`; and it replaces whatever `logIdToConfig_` held at its own start index. So a
configuration found by log id may claim ids that the one found by version does not, and a
configuration stored by version may claim ids for which nothing is found.

`indexesAgree_iff` says of which lists of accepted configurations this is true. The end index each
was passed with has to be the start of the next one, unless no id leads to it.
-/

set_option autoImplicit false

namespace ReplicatedCounter.Metadata

namespace InMemoryMetadataStore

/-! ## Calls, accepted or rejected -/

/-- The calls that are accepted. -/
def accepted : InMemoryMetadataStore → List MetadataConfig → List MetadataConfig
  | _, [] => []
  | s, c :: calls =>
    match s.compareAndAppendRange c with
    | .ok s' => c :: accepted s' calls
    | .error _ => accepted s calls

variable {configs : List MetadataConfig} {s s' : InMemoryMetadataStore}
  {c d next : MetadataConfig} {logId : Int}

theorem appendAll_accepted (s : InMemoryMetadataStore) (calls : List MetadataConfig) :
    appendAll (accepted s calls) s = .ok (calls.foldl appendOrSkip s) := by
  induction calls generalizing s with
  | nil => rfl
  | cons c calls ih =>
    unfold accepted
    rw [List.foldl_cons]
    unfold appendOrSkip
    cases happend : s.compareAndAppendRange c with
    | error e => exact ih s
    | ok s' =>
      apply Fallible.bind_eq_ok.mpr
      exact ⟨s', happend, ih s'⟩

/-! ## What it takes, and what it is for -/

/-- A configuration in one of the indices. -/
def Stored (s : InMemoryMetadataStore) (c : MetadataConfig) : Prop :=
  (∃ v, s.configs.find? v = some c) ∨ ∃ k, s.logIdToConfig.find? k = some c

/-- What is found by log id is what is found by version, and something is found for every id that a
stored configuration claims. -/
structure IndexesAgree (s : InMemoryMetadataStore) : Prop where
  found : ∀ logId c, s.getConfigUsingLogId logId = some c →
    s.getConfig c.versionId = some c ∧ Answers c logId
  claimed : ∀ logId c, Stored s c → Answers c logId → s.getConfigUsingLogId logId ≠ none

/-- `next` was accepted right after `c`. -/
def FollowedBy (configs : List MetadataConfig) (c next : MetadataConfig) : Prop :=
  ∃ front back, configs = front ++ c :: next :: back

/-- No later version starts where this one starts. -/
def Unreplaced (configs : List MetadataConfig) (c : MetadataConfig) : Prop :=
  ∀ d ∈ configs, d.startIndex = c.startIndex → d.versionId ≤ c.versionId

/-- How the accepted configurations have to fit together. -/
structure Fits (configs : List MetadataConfig) : Prop where
  versionId : ∀ c ∈ configs, Unreplaced configs c → c.startIndex < c.endIndex → c.versionId ≠ 0
  endIndex : ∀ c next, FollowedBy configs c next → Unreplaced configs c →
    c.startIndex < c.endIndex → c.endIndex = next.startIndex
  covered : ∀ c next, FollowedBy configs c next → ∀ logId, c.startIndex ≤ logId →
    logId < next.startIndex → ∃ d ∈ configs, Unreplaced configs d ∧ Answers d logId

/-! ## What the indices hold -/

theorem followedBy_concat :
    FollowedBy (configs ++ [d]) c next ↔
      FollowedBy configs c next ∨ (configs.getLast? = some c ∧ next = d) := by
  constructor
  · intro h
    obtain ⟨front, back, hsplit⟩ := h
    induction back using List.reverseRecOn with
    | nil =>
      right
      rw [show front ++ [c, next] = (front ++ [c]) ++ [next] by simp] at hsplit
      obtain ⟨rfl, hnext⟩ := List.append_inj' hsplit rfl
      exact ⟨by simp, (List.cons.inj hnext).1.symm⟩
    | append_singleton back e _ =>
      left
      rw [show front ++ c :: next :: (back ++ [e]) = (front ++ c :: next :: back) ++ [e] by simp]
        at hsplit
      exact ⟨front, back, (List.append_inj' hsplit rfl).1⟩
  · intro h
    rcases h with ⟨front, back, rfl⟩ | ⟨hlast, rfl⟩
    · exact ⟨front, back ++ [d], by simp⟩
    · obtain ⟨front, rfl⟩ := List.getLast?_eq_some_iff.mp hlast
      exact ⟨front, [], by simp⟩

theorem FollowedBy.mem (h : FollowedBy configs c next) : c ∈ configs ∧ next ∈ configs := by
  obtain ⟨front, back, rfl⟩ := h
  constructor <;> simp

/-- Every accepted configuration is the last one, or is followed by one. -/
theorem getLast?_or_followedBy (h : c ∈ configs) :
    configs.getLast? = some c ∨ ∃ next, FollowedBy configs c next := by
  obtain ⟨front, back, rfl⟩ := List.append_of_mem h
  cases back with
  | nil =>
    left
    simp
  | cons next back => exact .inr ⟨next, front, back, rfl⟩

/-- The copies by version: each is told its end by its successor. -/
structure Indexed (configs : List MetadataConfig) (s : InMemoryMetadataStore) : Prop where
  routed : Routed configs s
  followed : ∀ c next, FollowedBy configs c next →
    s.configs.find? c.versionId = some { c with endIndex := next.startIndex }
  last : ∀ c, configs.getLast? = some c → s.configs.find? c.versionId = some c
  stored : ∀ v d, s.configs.find? v = some d → ∃ c ∈ configs, c.versionId = v

theorem Indexed.empty : Indexed [] {} where
  routed := .empty
  followed c next h := by
    obtain ⟨front, back, hsplit⟩ := h
    simp at hsplit
  last c h := by cases h
  stored v d h := by cases h

theorem Routed.versionId_lt (hs : Routed configs s) (h : FollowedBy configs c next) :
    c.versionId < next.versionId := by
  obtain ⟨front, back, rfl⟩ := h
  have hpair := (List.pairwise_append.mp hs.ascending).2.1
  exact (List.pairwise_cons.mp hpair).1 next List.mem_cons_self

theorem Routed.le_last (hs : Routed configs s) (hlast : configs.getLast? = some c)
    (hd : d ∈ configs) : d.versionId ≤ c.versionId := by
  obtain ⟨front, rfl⟩ := List.getLast?_eq_some_iff.mp hlast
  rcases List.mem_append.mp hd with hd | hd
  · exact ((List.pairwise_append.mp hs.ascending).2.2 d hd c List.mem_cons_self).le
  · rw [List.mem_singleton.mp hd]

/-- **One more configuration.** Its predecessor is told where it ends. -/
theorem Indexed.append (hs : Indexed configs s) (h : s.compareAndAppendRange c = .ok s') :
    Indexed (configs ++ [c]) s' := by
  have hrouted := hs.routed.append h
  have hnewer : ∀ d ∈ configs, d.versionId < c.versionId := by
    intro d hd
    exact (List.pairwise_append.mp hrouted.ascending).2.2 d hd c List.mem_cons_self
  rcases compareAndAppendRange_cases h with ⟨hnone, -, rfl⟩ | ⟨last, hlast, hnext, rfl⟩
  · -- the first one
    have hnil : configs = [] := by
      cases configs with
      | nil => rfl
      | cons d configs => exact absurd hnone (hs.routed.le_current d List.mem_cons_self).1
    subst hnil
    constructor
    · exact hrouted
    · intro d next hfollowed
      rcases followedBy_concat.mp hfollowed with ⟨front, back, hsplit⟩ | ⟨hlast, -⟩
      · simp at hsplit
      · cases hlast
    · intro d hd
      cases hd
      exact find?_of_compareAndAppendRange h
    · intro v d hd
      refine ⟨c, List.mem_cons_self, ?_⟩
      unfold appendFirst at hd
      rw [SortedMap.find?_insert] at hd
      split at hd
      · rename_i heq
        exact heq.symm
      · obtain ⟨e, he, -⟩ := hs.stored v d hd
        cases he
  · -- the last version accepted is the last in the map
    obtain ⟨previous, hprevious, hversion⟩ := hs.stored _ _ (SortedMap.find?_of_last? hlast)
    have hend : configs.getLast? = some previous := by
      rcases getLast?_or_followedBy hprevious with hend | ⟨after, hafter⟩
      · exact hend
      · have hlt := hs.routed.versionId_lt hafter
        have hle := (hs.routed.le_current after hafter.mem.2).2
        rw [← previousVersionId_of_compareAndAppendRange h, ← hversion] at hle
        exact absurd hlt (not_lt.mpr hle)
    have hsame : last = previous := by
      have hfind := SortedMap.find?_of_last? hlast
      rw [← hversion, hs.last previous hend] at hfind
      exact (Option.some.inj hfind).symm
    subst hsame
    have hfind : ∀ v, (s.appendAfter last c).configs.find? v =
        if v = c.versionId then some c
        else if v = last.versionId then some { last with endIndex := c.startIndex }
        else s.configs.find? v := by
      intro v
      unfold appendAfter
      rw [SortedMap.find?_insert, SortedMap.find?_insert, hversion]
    constructor
    · exact hrouted
    · intro d next hfollowed
      rcases followedBy_concat.mp hfollowed with hfollowed | ⟨hd, rfl⟩
      · have hlt := hs.routed.versionId_lt hfollowed
        have hle := hs.routed.le_last hend hfollowed.mem.2
        rw [hfind, if_neg (hnewer d hfollowed.mem.1).ne, if_neg (hlt.trans_le hle).ne]
        exact hs.followed d next hfollowed
      · rw [hd] at hend
        obtain rfl := Option.some.inj hend
        rw [hfind, if_neg (hnewer d hprevious).ne, if_pos rfl]
    · intro d hd
      rw [List.getLast?_concat] at hd
      obtain rfl := Option.some.inj hd
      rw [hfind, if_pos rfl]
    · intro v d hd
      rw [hfind] at hd
      split at hd
      · rename_i heq
        exact ⟨c, by simp, heq.symm⟩
      · split at hd
        · rename_i heq
          exact ⟨last, List.mem_append_left _ hprevious, heq.symm⟩
        · obtain ⟨e, he, heq⟩ := hs.stored v d hd
          exact ⟨e, List.mem_append_left _ he, heq⟩

theorem Indexed.appendAll {earlier : List MetadataConfig} (hs : Indexed earlier s)
    (h : appendAll configs s = .ok s') : Indexed (earlier ++ configs) s' := by
  induction configs generalizing s earlier with
  | nil =>
    cases h
    rw [List.append_nil]
    exact hs
  | cons c configs ih =>
    obtain ⟨t, ht, hrest⟩ := Fallible.bind_eq_ok.mp h
    have hgrown := ih (hs.append ht) hrest
    rwa [List.append_assoc] at hgrown

theorem indexed_replay (calls : List MetadataConfig) : Indexed (accepted {} calls) (replay calls) :=
  Indexed.empty.appendAll (appendAll_accepted {} calls)

/-- The last version is the last configuration accepted. -/
theorem Indexed.last?_eq (hs : Indexed configs s) :
    s.configs.last? = configs.getLast?.map fun c => (c.versionId, c) := by
  cases hlast : s.configs.last? with
  | none =>
    cases hend : configs.getLast? with
    | none => rfl
    | some c =>
      have hc := List.mem_of_getLast? hend
      exact absurd hlast (hs.routed.le_current c hc).1
  | some entry =>
    obtain ⟨v, d⟩ := entry
    have hfind := SortedMap.find?_of_last? hlast
    obtain ⟨e, he, hversion⟩ := hs.stored v d hfind
    cases hend : configs.getLast? with
    | none =>
      rw [List.getLast?_eq_none_iff.mp hend] at he
      cases he
    | some c =>
      have hle := hs.routed.le_last hend he
      have hmem := SortedMap.find?_eq_some.mp (hs.last c hend)
      have hversions : v = c.versionId :=
        le_antisymm (hversion ▸ hle) (SortedMap.le_of_last? hlast hmem)
      rw [hversions, hs.last c hend] at hfind
      rw [hversions, ← Option.some.inj hfind]
      rfl

/-! ## What is filed by start index -/

/-- The index by start holds the configurations that were not replaced. -/
theorem Routed.filed_iff (hs : Routed configs s) :
    (c.startIndex, c) ∈ s.logIdToConfig.entries ↔ c ∈ configs ∧ Unreplaced configs c := by
  have hsame : ∀ {d e}, (d.startIndex, d) ∈ s.logIdToConfig.entries →
      (d.startIndex, e) ∈ s.logIdToConfig.entries → d = e := by
    intro d e hd he
    rw [← SortedMap.find?_eq_some] at hd he
    exact Option.some.inj (hd.symm.trans he)
  constructor
  · intro hc
    refine ⟨hs.accepted _ c hc, ?_⟩
    intro d hd hstart
    obtain ⟨e, he, hle⟩ := hs.covered d hd
    rw [hstart] at he
    rw [hsame hc he]
    exact hle
  · intro h
    obtain ⟨hc, hunreplaced⟩ := h
    obtain ⟨e, he, hle⟩ := hs.covered c hc
    have hemem := hs.accepted _ e he
    have hstart : c.startIndex = e.startIndex := hs.filed _ e he
    have hversion := le_antisymm hle (hunreplaced e hemem hstart.symm)
    -- versions are not repeated
    have hce : c = e := by
      by_contra hne
      have hflip : configs.Pairwise (flip fun a b => a ≠ b → a.versionId ≠ b.versionId) :=
        hs.ascending.imp fun hlt _ => hlt.ne'
      have hforward : configs.Pairwise fun a b => a ≠ b → a.versionId ≠ b.versionId :=
        hs.ascending.imp fun hlt _ => hlt.ne
      exact List.Pairwise.forall_of_forall_of_flip (fun a _ h => absurd rfl h) hforward hflip hc
        hemem hne hversion
    rw [hce]
    exact hstart ▸ he

/-- A configuration that was not replaced is found at its own start, if it claims that. -/
theorem Routed.found_at_start (hs : Routed configs s) (hc : c ∈ configs)
    (hunreplaced : Unreplaced configs c) (hne : c.startIndex < c.endIndex) :
    s.getConfigUsingLogId c.startIndex = some c := by
  apply getConfigUsingLogId_eq_some hs.filed (hs.filed_iff.mpr ⟨hc, hunreplaced⟩) ⟨le_rfl, hne⟩
  intro k d hd hlt hanswers
  rw [hs.filed k d hd] at hlt
  exact absurd hanswers.1 (not_le.mpr hlt)

/-- Nothing is found for an id exactly if no configuration that was not replaced claims it. -/
theorem Routed.eq_none_iff_unclaimed (hs : Routed configs s) :
    s.getConfigUsingLogId logId = none ↔
      ∀ c ∈ configs, Unreplaced configs c → ¬ Answers c logId := by
  constructor
  · intro hnone c hc hunreplaced hanswers
    have hmem := hs.filed_iff.mpr ⟨hc, hunreplaced⟩
    unfold getConfigUsingLogId at hnone
    rw [List.find?_eq_none] at hnone
    have hvisited : c ∈ visited s.logIdToConfig logId := by
      rw [visited_eq, List.mem_reverse]
      exact List.mem_map_of_mem (List.mem_append_left _ (mem_visited_of_le hmem hanswers.1))
    exact hnone c hvisited (by simpa [Answers] using hanswers)
  · intro hall
    cases hfound : s.getConfigUsingLogId logId with
    | none => rfl
    | some c =>
      obtain ⟨hmem, hanswers, -⟩ := getConfigUsingLogId_spec hs.filed hfound
      obtain ⟨hc, hunreplaced⟩ := hs.filed_iff.mp hmem
      exact absurd hanswers (hall c hc hunreplaced)

/-! ## Agreement -/

/-- Found by version is what was accepted, if that fits. -/
theorem Indexed.getConfig_of_fits (hs : Indexed configs s) (hfits : Fits configs) (hc : c ∈ configs)
    (hunreplaced : Unreplaced configs c) (hne : c.startIndex < c.endIndex) :
    s.getConfig c.versionId = some c := by
  unfold getConfig
  rw [if_neg (hfits.versionId c hc hunreplaced hne)]
  rcases getLast?_or_followedBy hc with hlast | ⟨next, hnext⟩
  · exact hs.last c hlast
  · rw [hs.followed c next hnext, ← hfits.endIndex c next hnext hunreplaced hne]

theorem Indexed.fits (hs : Indexed configs s) (h : IndexesAgree s) : Fits configs := by
  constructor
  · intro c hc hunreplaced hne hzero
    have hfound := (h.found _ c (hs.routed.found_at_start hc hunreplaced hne)).1
    unfold getConfig at hfound
    rw [if_pos hzero] at hfound
    rw [← Option.some.inj hfound] at hne
    exact absurd hne (lt_irrefl _)
  · intro c next hnext hunreplaced hne
    have hc := hnext.mem.1
    have hfound := (h.found _ c (hs.routed.found_at_start hc hunreplaced hne)).1
    unfold getConfig at hfound
    split at hfound
    · rw [← Option.some.inj hfound] at hne
      exact absurd hne (lt_irrefl _)
    · rw [hs.followed c next hnext] at hfound
      have hsame := Option.some.inj hfound
      exact (congrArg MetadataConfig.endIndex hsame).symm
  · intro c next hnext logId hge hlt
    by_contra hnobody
    push Not at hnobody
    refine h.claimed logId { c with endIndex := next.startIndex } ?_ ⟨hge, hlt⟩ ?_
    · exact .inl ⟨c.versionId, hs.followed c next hnext⟩
    · exact hs.routed.eq_none_iff_unclaimed.mpr hnobody

theorem Indexed.agree (hs : Indexed configs s) (hfits : Fits configs) : IndexesAgree s := by
  constructor
  · intro logId c hfound
    obtain ⟨hmem, hanswers, -⟩ := getConfigUsingLogId_spec hs.routed.filed hfound
    obtain ⟨hc, hunreplaced⟩ := hs.routed.filed_iff.mp hmem
    exact ⟨hs.getConfig_of_fits hfits hc hunreplaced (hanswers.1.trans_lt hanswers.2), hanswers⟩
  · intro logId c hstored hanswers hnone
    rw [hs.routed.eq_none_iff_unclaimed] at hnone
    rcases hstored with ⟨v, hfind⟩ | ⟨k, hfind⟩
    · obtain ⟨d, hd, rfl⟩ := hs.stored v c hfind
      rcases getLast?_or_followedBy hd with hlast | ⟨next, hnext⟩
      · -- the last one replaced whatever started with it
        rw [hs.last d hlast] at hfind
        obtain rfl := Option.some.inj hfind
        exact hnone d hd (fun e he _ => hs.routed.le_last hlast he) hanswers
      · rw [hs.followed d next hnext] at hfind
        obtain rfl := Option.some.inj hfind
        obtain ⟨e, he, hunreplaced, hclaims⟩ :=
          hfits.covered d next hnext logId hanswers.1 hanswers.2
        exact hnone e he hunreplaced hclaims
    · have hmem := SortedMap.find?_eq_some.mp hfind
      obtain rfl := hs.routed.filed k c hmem
      obtain ⟨hc, hunreplaced⟩ := hs.routed.filed_iff.mp hmem
      exact hnone c hc hunreplaced hanswers

/-- **The two indices agree exactly if the accepted configurations fit together.** -/
theorem indexesAgree_iff (calls : List MetadataConfig) :
    IndexesAgree (replay calls) ↔ Fits (accepted {} calls) := by
  have hs := indexed_replay calls
  constructor
  · intro h
    exact hs.fits h
  · intro hfits
    exact hs.agree hfits

/-- Two versions as `reconfigure` appends them. Id 50 leads to version 1 without an end; by version
it ends at 100. -/
theorem successor_unknown_by_logId :
    let config (version start : Int) : MetadataConfig :=
      { versionId := version, previousVersionId := version - 1, startIndex := start,
        endIndex := int64Max }
    let s := replay [config 1 1, config 2 100]
    s.getConfigUsingLogId 50 = some (config 1 1) ∧
      s.getConfig 1 = some { config 1 1 with endIndex := 100 } ∧ ¬ IndexesAgree s := by
  intro config s
  have hfound : s.getConfigUsingLogId 50 = some (config 1 1) := by decide +kernel
  have hstored : s.getConfig 1 = some { config 1 1 with endIndex := 100 } := by decide +kernel
  refine ⟨hfound, hstored, ?_⟩
  intro h
  have hsame := (h.found 50 _ hfound).1
  change s.getConfig 1 = _ at hsame
  rw [hstored] at hsame
  exact absurd (congrArg MetadataConfig.endIndex (Option.some.inj hsame)) (by decide)

end InMemoryMetadataStore

end ReplicatedCounter.Metadata
