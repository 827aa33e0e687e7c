import ReplicatedCounter.MyDb.KeyTokens
import ReplicatedCounter.MyDb.SecondaryIndexes

/-!
# Reading a key back

`parseKey` takes a key apart into what the builders put in: the ids of the database, the table and
the index, the values of the columns, and the column id where there is one. Which values come back
is decided at the border in front of a value. The separator there and an escape character at the
front of the value are one doubled escape character for the parser, and so are the separators on
both sides of an empty value. A value in which neither happens is `Plain`; it may hold escape
characters anywhere else, and end with them.

All three kinds of keys are read back if and only if every value in them is plain
(`parseKey_inverts_iff`). One value that is not is enough: either it has lost its first characters,
or its token is missing and the number of values is wrong (`seconds_eq_iff`).
-/

set_option autoImplicit false

namespace ReplicatedCounter.MyDb

namespace KeySerializer

/-! ## Values with a token of their own -/

/-- Not empty, and without an escape character in front. -/
def Plain (value : Bytes) : Prop := value ≠ [] ∧ value.head? ≠ some defaultEscapeCharacter

instance (value : Bytes) : Decidable (Plain value) := inferInstanceAs (Decidable (_ ∧ _))

theorem stripped_eq_self_iff {value : Bytes} :
    stripped value = value ↔ value.head? ≠ some defaultEscapeCharacter := by
  constructor
  · intro h
    rw [← h]
    exact head?_stripped value
  · intro hhead
    cases value with
    | nil => rfl
    | cons c value =>
      have hc : c ≠ defaultEscapeCharacter := fun hc => hhead (by rw [hc, List.head?_cons])
      rw [stripped, List.dropWhile_cons_of_neg (by simpa using hc)]

theorem Plain.legible {value : Bytes} (h : Plain value) : Legible value := by
  obtain ⟨hne, hhead⟩ := h
  obtain ⟨c, rest, rfl⟩ := List.exists_cons_of_ne_nil hne
  exact ⟨c, List.mem_cons_self, fun hc => hhead (by rw [hc, List.head?_cons])⟩

theorem Legible.plain_iff {value : Bytes} (h : Legible value) :
    Plain value ↔ stripped value = value := by
  rw [stripped_eq_self_iff]
  refine ⟨And.right, fun hhead => ⟨?_, hhead⟩⟩
  obtain ⟨c, hc, -⟩ := h
  exact List.ne_nil_of_mem hc

theorem map_stripped_eq_iff {values : List ColumnValue}
    (hlegible : ∀ value ∈ values, Legible value.toString) :
    values.map (fun value => stripped value.toString) = values.map ColumnValue.toString ↔
      ∀ value ∈ values, Plain value.toString := by
  rw [List.map_inj_left]
  exact forall₂_congr fun value hvalue => (hlegible value hvalue).plain_iff.symm

/-! ## The values among the tokens -/

theorem length_seconds (tokens : List Bytes) : (seconds tokens).length = tokens.length / 2 := by
  induction tokens using seconds.induct with
  | case1 token value tokens ih =>
    rw [seconds, List.length_cons, ih, List.length_cons, List.length_cons]
    omega
  | case2 tokens hshort =>
    rcases tokens with _ | ⟨token, _ | ⟨value, tokens⟩⟩
    · rfl
    · simp [seconds]
    · exact absurd rfl (hshort token value tokens)

/-- An even number of tokens in front keeps its values. -/
theorem seconds_append {front : List Bytes} (heven : ∃ n, front.length = 2 * n) (tokens : List Bytes) :
    seconds (front ++ tokens) = seconds front ++ seconds tokens := by
  induction front using seconds.induct with
  | case1 token value front ih =>
    obtain ⟨n, hn⟩ := heven
    rw [List.length_cons, List.length_cons] at hn
    show value :: seconds (front ++ tokens) = _
    rw [ih ⟨n - 1, by omega⟩]
    rfl
  | case2 front hshort =>
    rcases front with _ | ⟨token, _ | ⟨value, front⟩⟩
    · rfl
    · obtain ⟨n, hn⟩ := heven
      rw [List.length_singleton] at hn
      omega
    · exact absurd rfl (hshort token value front)

/-- A value that cannot be read leaves fewer than two tokens for a part. -/
theorem length_tokenize_keyParts_lt {columnIds : List UInt32} {values : List ColumnValue}
    (hlen : values.length = columnIds.length)
    (hillegible : ¬ ∀ value ∈ values, Legible value.toString) :
    (tokenize (keyParts columnIds values).tail).length < 2 * columnIds.length := by
  induction columnIds generalizing values with
  | nil =>
    rw [List.length_nil, List.length_eq_zero_iff] at hlen
    subst hlen
    exact absurd (fun _ h => absurd h List.not_mem_nil) hillegible
  | cons colId columnIds ih =>
    obtain ⟨value, values, rfl⟩ := List.exists_cons_of_length_eq_add_one hlen
    have hcount := length_tokenize_keyParts_le (Nat.succ.inj hlen)
    have htail := tail_keyParts_cons colId columnIds value values []
    rw [List.append_nil, List.append_nil] at htail
    rw [htail, List.length_cons]
    have hsep := separated_keyParts columnIds values separated_nil
    rw [List.append_nil] at hsep
    by_cases hvalue : Legible value.toString
    · have hrest : ¬ ∀ value ∈ values, Legible value.toString := by
        intro hall
        exact hillegible (List.forall_mem_cons.mpr ⟨hvalue, hall⟩)
      obtain ⟨token, htokens⟩ := tokenize_part hvalue colId hsep
      have := ih (Nat.succ.inj hlen) hrest
      rw [htokens, List.length_cons, List.length_cons]
      omega
    · by_cases hrest : (keyParts columnIds values).tail = []
      · rw [keyParts_eq_nil_of_tail hrest, List.append_nil, length_tokenize_last hvalue]
        omega
      · have hcontinues : Continues (keyParts columnIds values) := ⟨hsep, hrest⟩
        rw [hcontinues.cons_tail, length_tokenize_illegible hvalue colId hrest]
        omega

/-- **The values come back if and only if they are plain.** -/
theorem seconds_eq_iff {columnIds : List UInt32} {values : List ColumnValue}
    (hlen : values.length = columnIds.length) :
    seconds (tokenize (keyParts columnIds values).tail) = values.map ColumnValue.toString ↔
      ∀ value ∈ values, Plain value.toString := by
  by_cases hlegible : ∀ value ∈ values, Legible value.toString
  · obtain ⟨front, -, hseconds, htokens⟩ := tokenize_keyParts hlen hlegible separated_nil
    rw [List.append_nil, List.tail_nil, tokenize_nil, List.append_nil] at htokens
    rw [htokens, hseconds, map_stripped_eq_iff hlegible]
  · have hless := length_tokenize_keyParts_lt hlen hlegible
    refine iff_of_false (fun heq => ?_) fun hplain => hlegible fun v hv => (hplain v hv).legible
    have := congrArg List.length heq
    rw [length_seconds, List.length_map] at this
    omega

/-! ## What the parser keeps -/

variable {table : Table} {s : ParseState} {index : KeyFragments.Index}

/-- One value more. -/
def KeyFragments.Index.concat (index : KeyFragments.Index) (value : Bytes) : KeyFragments.Index :=
  { index with values := index.values ++ [value] }

theorem length_concat (index : KeyFragments.Index) (value : Bytes) :
    (KeyFragments.Index.concat index value).values.length = index.values.length + 1 := by
  simp [KeyFragments.Index.concat]

/-- A part of the primary index. -/
theorem foldlM_primary_cons (hs : s.current = .primaryKeyParts) (hflag : s.indexKeyPartsColId = true)
    (hindex : s.keyFragments.primaryIndex = some index)
    (hless : index.values.length < table.primaryKeyIndex.columnIds.length) (token value : Bytes)
    (tokens : List Bytes) :
    (token :: value :: tokens).foldlM (parseToken table) s =
      tokens.foldlM (parseToken table) { s with
        keyFragments := { s.keyFragments with
          primaryIndex := some (KeyFragments.Index.concat index value) }
        indexKeyPartsColId := true
        current :=
          if index.values.length + 1 = table.primaryKeyIndex.columnIds.length then .colId
          else .primaryKeyParts } := by
  have hfirst := parseToken_primaryKeyParts table hs hindex token
  have hpush : index.push true token = index := rfl
  rw [hflag, hpush, if_neg hless.ne] at hfirst
  have hsecond := parseToken_primaryKeyParts table (s := { s with
    keyFragments := { s.keyFragments with primaryIndex := some index }
    indexKeyPartsColId := !true
    current := .primaryKeyParts }) rfl rfl value
  have hpush' : index.push (!true) value = KeyFragments.Index.concat index value := rfl
  rw [hpush', length_concat] at hsecond
  rw [Fallible.foldlM_cons_ok hfirst, Fallible.foldlM_cons_ok hsecond]
  rfl

/-- **The values of the primary index**, as many as there are. -/
theorem foldlM_primary (hs : s.current = .primaryKeyParts) (hflag : s.indexKeyPartsColId = true)
    (hindex : s.keyFragments.primaryIndex = some index)
    (hless : index.values.length < table.primaryKeyIndex.columnIds.length) {tokens : List Bytes}
    (hlen : tokens.length + 2 * index.values.length ≤ 2 * table.primaryKeyIndex.columnIds.length) :
    ∃ s', tokens.foldlM (parseToken table) s = .ok s' ∧
      s'.keyFragments = { s.keyFragments with
        primaryIndex := some { index with values := index.values ++ seconds tokens } } ∧
      (tokens.length + 2 * index.values.length = 2 * table.primaryKeyIndex.columnIds.length →
        s'.current = .colId) := by
  induction tokens using seconds.induct generalizing s index with
  | case1 token value tokens ih =>
    have hcount := length_concat index value
    rw [List.length_cons, List.length_cons] at hlen ⊢
    rw [foldlM_primary_cons hs hflag hindex hless]
    by_cases hlast : index.values.length + 1 = table.primaryKeyIndex.columnIds.length
    · obtain rfl : tokens = [] := List.length_eq_zero_iff.mp (by omega)
      exact ⟨_, rfl, rfl, fun _ => if_pos hlast⟩
    · obtain ⟨s', hfold, hfragments, hcurrent⟩ := ih (s := { s with
        keyFragments := { s.keyFragments with
          primaryIndex := some (KeyFragments.Index.concat index value) }
        indexKeyPartsColId := true
        current :=
          if index.values.length + 1 = table.primaryKeyIndex.columnIds.length then .colId
          else .primaryKeyParts }) (if_neg hlast) rfl rfl (by omega) (by omega)
      refine ⟨s', hfold, ?_, fun heq => hcurrent (by omega)⟩
      rw [hfragments, seconds]
      simp [KeyFragments.Index.concat]
  | case2 tokens hshort =>
    rcases tokens with _ | ⟨token, _ | ⟨value, tokens⟩⟩
    · refine ⟨s, rfl, ?_, fun heq => ?_⟩
      · simp [seconds, ← hindex]
      · rw [List.length_nil] at heq
        omega
    · rw [Fallible.foldlM_cons_ok (parseToken_primaryKeyParts table hs hindex token)]
      refine ⟨_, rfl, ?_, fun heq => ?_⟩
      · simp [seconds, hflag, KeyFragments.Index.push]
      · rw [List.length_singleton] at heq
        omega
    · exact absurd rfl (hshort token value tokens)

/-- The column id of a part of the secondary index is not kept. -/
theorem parseToken_secondary_colId (hs : s.current = .secondaryIndexKeyParts)
    (hflag : s.indexKeyPartsColId = true) (hindex : s.keyFragments.secondaryIndex = some index)
    (hless : index.values.length < s.secondaryIndex.length) (token : Bytes) :
    parseToken table s token = .ok { s with indexKeyPartsColId := false } := by
  have hpush : index.push true token = index := rfl
  unfold parseToken
  simp only [hs, hflag, hindex, hpush, if_neg hless.ne, Bool.not_true]
  rw [← hs, ← hindex]

/-- A part of the secondary index. -/
theorem foldlM_secondary_cons (hs : s.current = .secondaryIndexKeyParts)
    (hflag : s.indexKeyPartsColId = true) (hindex : s.keyFragments.secondaryIndex = some index)
    (hless : index.values.length < s.secondaryIndex.length) (token value : Bytes)
    (tokens : List Bytes) :
    (token :: value :: tokens).foldlM (parseToken table) s =
      tokens.foldlM (parseToken table)
        (if index.values.length + 1 = s.secondaryIndex.length then { s with
          keyFragments := { s.keyFragments with
            secondaryIndex := some (KeyFragments.Index.concat index value)
            primaryIndex := some { indexId := 0 } }
          current := .primaryKeyParts }
        else { s with
          keyFragments := { s.keyFragments with
            secondaryIndex := some (KeyFragments.Index.concat index value) } }) := by
  rw [Fallible.foldlM_cons_ok (parseToken_secondary_colId hs hflag hindex hless token)]
  refine Fallible.foldlM_cons_ok ?_ tokens
  have hpush : index.push false value = KeyFragments.Index.concat index value := rfl
  unfold parseToken
  simp only [hs, hindex, hpush, length_concat, Bool.not_false]
  rw [← hflag, ← hs]
  split
  · rfl
  · rfl

/-- **The values of the secondary index.** The primary key begins when all of them are there. -/
theorem foldlM_secondary (hs : s.current = .secondaryIndexKeyParts)
    (hflag : s.indexKeyPartsColId = true) (hindex : s.keyFragments.secondaryIndex = some index)
    (hless : index.values.length < s.secondaryIndex.length) {tokens : List Bytes}
    (hlen : tokens.length + 2 * index.values.length ≤ 2 * s.secondaryIndex.length) :
    ∃ s', tokens.foldlM (parseToken table) s = .ok s' ∧
      (tokens.length + 2 * index.values.length < 2 * s.secondaryIndex.length →
        s'.keyFragments.primaryIndex = s.keyFragments.primaryIndex) ∧
      (tokens.length + 2 * index.values.length = 2 * s.secondaryIndex.length →
        s' = { s with
          keyFragments := { s.keyFragments with
            secondaryIndex := some { index with values := index.values ++ seconds tokens }
            primaryIndex := some { indexId := 0 } }
          current := .primaryKeyParts }) := by
  induction tokens using seconds.induct generalizing s index with
  | case1 token value tokens ih =>
    have hcount := length_concat index value
    rw [List.length_cons, List.length_cons] at hlen ⊢
    rw [foldlM_secondary_cons hs hflag hindex hless]
    by_cases hlast : index.values.length + 1 = s.secondaryIndex.length
    · obtain rfl : tokens = [] := List.length_eq_zero_iff.mp (by omega)
      rw [if_pos hlast]
      refine ⟨_, rfl, fun hlt => ?_, fun _ => rfl⟩
      rw [List.length_nil] at hlt
      omega
    · rw [if_neg hlast]
      obtain ⟨s', hfold, hfew, hall⟩ := ih (s := { s with
        keyFragments := { s.keyFragments with
          secondaryIndex := some (KeyFragments.Index.concat index value) } }) hs hflag rfl
        (by show _ < s.secondaryIndex.length; omega) (by show _ ≤ 2 * s.secondaryIndex.length; omega)
      dsimp only at hfew hall
      refine ⟨s', hfold, fun hlt => hfew (by omega), fun heq => ?_⟩
      rw [hall (by omega), seconds]
      simp [KeyFragments.Index.concat]
  | case2 tokens hshort =>
    rcases tokens with _ | ⟨token, _ | ⟨value, tokens⟩⟩
    · refine ⟨s, rfl, fun _ => rfl, fun heq => ?_⟩
      rw [List.length_nil] at heq
      omega
    · rw [Fallible.foldlM_cons_ok (parseToken_secondary_colId hs hflag hindex hless token)]
      refine ⟨_, rfl, fun _ => rfl, fun heq => ?_⟩
      rw [List.length_singleton] at heq
      omega
    · exact absurd rfl (hshort token value tokens)

/-! ## Whole keys -/

variable {values : List ColumnValue}

theorem tokenize_keyParts_ne_nil {columnIds : List UInt32} (hne : columnIds ≠ [])
    (hlen : values.length = columnIds.length) : tokenize (keyParts columnIds values).tail ≠ [] := by
  obtain ⟨colId, columnIds, rfl⟩ := List.exists_cons_of_ne_nil hne
  obtain ⟨value, values, rfl⟩ := List.exists_cons_of_length_eq_add_one hlen
  rw [tokenize_of_ne_nil (by simp [keyParts])]
  exact List.cons_ne_nil _ _

/-- **A primary key**: the values are what the tokens have. -/
theorem parseKey_primary (hne : table.primaryKeyIndex.columnIds ≠ [])
    (hvalues : values.length = table.primaryKeyIndex.columnIds.length) :
    parseKey table (minimumIndexKey table 0 ++ keyParts table.primaryKeyIndex.columnIds values) =
      .ok { dbId := table.dbId
            tableId := table.id
            primaryIndex := some
              ⟨0, seconds (tokenize (keyParts table.primaryKeyIndex.columnIds values).tail)⟩ } := by
  have hsep := separated_keyParts table.primaryKeyIndex.columnIds values separated_nil
  rw [List.append_nil] at hsep
  obtain ⟨s', hfold, hfragments, -⟩ :=
    foldlM_primary (s := primaryState table) rfl rfl rfl
      (List.length_pos_iff.mpr hne) (length_tokenize_keyParts_le hvalues)
  unfold parseKey
  rw [parseLoop_zero table hsep, parseLoop_eq, hfold]
  show Except.ok s'.keyFragments = _
  rw [hfragments]
  rfl

/-- **The key of a column** whose values can be read. -/
theorem parseKey_column (hne : table.primaryKeyIndex.columnIds ≠ [])
    (hvalues : values.length = table.primaryKeyIndex.columnIds.length)
    (hlegible : ∀ value ∈ values, Legible value.toString) (colId : UInt32) :
    parseKey table (columnKey
        (minimumIndexKey table 0 ++ keyParts table.primaryKeyIndex.columnIds values) colId) =
      .ok { dbId := table.dbId
            tableId := table.id
            primaryIndex := some ⟨0, values.map fun value => stripped value.toString⟩
            colId := some colId } := by
  have hcolId : Separated (defaultEscapeCharacter :: pad colId) :=
    separated_of_not_mem escape_not_mem_pad
  obtain ⟨front, hlength, hseconds, htokens⟩ := tokenize_keyParts hvalues hlegible hcolId
  obtain ⟨s', hfold, hfragments, hcurrent⟩ :=
    foldlM_primary (s := primaryState table) rfl rfl rfl
      (List.length_pos_iff.mpr hne) hlength.le
  unfold parseKey columnKey
  rw [List.append_assoc, parseLoop_zero table (separated_keyParts _ _ hcolId), parseLoop_eq, htokens,
    List.foldlM_append, hfold]
  show (parseLoop table s' (pad colId) >>= _) = _
  rw [parseLoop_colId table (hcurrent hlength), hfragments, hseconds]
  rfl

/-- The parser between a secondary index and the primary key behind it. -/
def betweenState (table : Table) (idxId : UInt32) (columnIds : List UInt32) (values : List Bytes) :
    ParseState :=
  { current := .primaryKeyParts
    secondaryIndex := columnIds
    keyFragments :=
      { dbId := table.dbId
        tableId := table.id
        secondaryIndex := some ⟨idxId, values⟩
        primaryIndex := some { indexId := 0 } } }

section secondary

variable (hne : table.primaryKeyIndex.columnIds ≠ []) (idxId : UInt32) {columnIds : List UInt32}
  {tokens : List Bytes}

include hne

theorem foldlM_betweenState (columnIds : List UInt32) (values : List Bytes)
    (hlen : tokens.length ≤ 2 * table.primaryKeyIndex.columnIds.length) :
    ∃ s', tokens.foldlM (parseToken table) (betweenState table idxId columnIds values) = .ok s' ∧
      s'.keyFragments =
        { dbId := table.dbId
          tableId := table.id
          secondaryIndex := some ⟨idxId, values⟩
          primaryIndex := some ⟨0, seconds tokens⟩ } := by
  obtain ⟨s', hfold, hfragments, -⟩ :=
    foldlM_primary (s := betweenState table idxId columnIds values) rfl rfl rfl
      (List.length_pos_iff.mpr hne) hlen
  exact ⟨s', hfold, hfragments⟩

/-- The first token ends an index without columns. -/
theorem foldlM_secondaryState_nil (htokens : tokens ≠ []) :
    tokens.foldlM (parseToken table) (secondaryState table idxId []) =
      tokens.foldlM (parseToken table) (betweenState table idxId [] []) := by
  obtain ⟨token, tokens, rfl⟩ := List.exists_cons_of_ne_nil htokens
  have hpos := List.length_pos_iff.mpr hne
  have hstep : parseToken table (betweenState table idxId [] []) token =
      .ok { betweenState table idxId [] [] with indexKeyPartsColId := false } := by
    rw [parseToken_primaryKeyParts table (s := betweenState table idxId [] []) rfl rfl token]
    show Except.ok { betweenState table idxId [] [] with
      indexKeyPartsColId := false
      current :=
        if 0 = table.primaryKeyIndex.columnIds.length then .colId else .primaryKeyParts } = _
    rw [if_neg hpos.ne]
    rfl
  rw [Fallible.foldlM_cons_ok hstep]
  exact Fallible.foldlM_cons_ok rfl tokens

/-- What the tokens of a secondary index and a primary key become. -/
theorem foldlM_secondaryState (htokens : tokens ≠ [])
    (hlen : tokens.length ≤ 2 * (columnIds.length + table.primaryKeyIndex.columnIds.length)) :
    ∃ s', tokens.foldlM (parseToken table) (secondaryState table idxId columnIds) = .ok s' ∧
      (tokens.length < 2 * columnIds.length → s'.keyFragments.primaryIndex = none) ∧
      (2 * columnIds.length ≤ tokens.length → s'.keyFragments =
        { dbId := table.dbId
          tableId := table.id
          secondaryIndex := some ⟨idxId, seconds (tokens.take (2 * columnIds.length))⟩
          primaryIndex := some ⟨0, seconds (tokens.drop (2 * columnIds.length))⟩ }) := by
  by_cases hnil : columnIds = []
  · subst hnil
    rw [List.length_nil, Nat.zero_add] at hlen
    obtain ⟨s', hfold, hfragments⟩ := foldlM_betweenState hne idxId [] [] hlen
    rw [foldlM_secondaryState_nil hne idxId htokens]
    exact ⟨s', hfold, fun hlt => absurd hlt (Nat.not_lt_zero _), fun _ => hfragments⟩
  · have hcolumns := List.length_pos_iff.mpr hnil
    by_cases hfew : tokens.length < 2 * columnIds.length
    · obtain ⟨s', hfold, hnone, -⟩ :=
        foldlM_secondary (s := secondaryState table idxId columnIds) rfl rfl rfl
          hcolumns hfew.le
      exact ⟨s', hfold, fun _ => hnone hfew, fun hge => absurd hfew hge.not_gt⟩
    · have htake : (tokens.take (2 * columnIds.length)).length = 2 * columnIds.length := by
        rw [List.length_take]
        omega
      have hdrop : (tokens.drop (2 * columnIds.length)).length ≤
          2 * table.primaryKeyIndex.columnIds.length := by
        rw [List.length_drop]
        omega
      obtain ⟨s₁, hfold, -, hall⟩ :=
        foldlM_secondary (s := secondaryState table idxId columnIds) rfl rfl rfl
          hcolumns htake.le
      obtain ⟨s', hfold', hfragments⟩ := foldlM_betweenState hne idxId columnIds
        (seconds (tokens.take (2 * columnIds.length))) hdrop
      obtain rfl := hall htake
      refine ⟨s', ?_, fun hlt => absurd hlt hfew, fun _ => hfragments⟩
      rw [← List.take_append_drop (2 * columnIds.length) tokens, List.foldlM_append, hfold]
      exact hfold'

end secondary

/-- **The key of a row in a secondary index** is read back if all its values are what the tokens
have. -/
theorem parseKey_secondaryIndex_iff (hne : table.primaryKeyIndex.columnIds ≠ []) {idxId : UInt32}
    {index : Index} (hid : idxId ≠ 0)
    (hfind : table.secondaryIndex.find? (·.id = idxId) = some index)
    {primaryValues : List ColumnValue} (hvalues : values.length = index.columnIds.length)
    (hprimary : primaryValues.length = table.primaryKeyIndex.columnIds.length) :
    parseKey table (minimumIndexKey table idxId ++ (keyParts index.columnIds values ++
        keyParts table.primaryKeyIndex.columnIds primaryValues)) =
      .ok { dbId := table.dbId
            tableId := table.id
            secondaryIndex := some ⟨idxId, values.map ColumnValue.toString⟩
            primaryIndex := some ⟨0, primaryValues.map ColumnValue.toString⟩ } ↔
      ∀ value ∈ values ++ primaryValues, Plain value.toString := by
  have hlen : (values ++ primaryValues).length =
      (index.columnIds ++ table.primaryKeyIndex.columnIds).length := by
    rw [List.length_append, List.length_append, hvalues, hprimary]
  have hsep := separated_keyParts (index.columnIds ++ table.primaryKeyIndex.columnIds)
    (values ++ primaryValues) separated_nil
  rw [List.append_nil] at hsep
  have hcount := length_tokenize_keyParts_le hlen
  have hsome := tokenize_keyParts_ne_nil (List.append_ne_nil_of_right_ne_nil _ hne) hlen
  rw [← seconds_eq_iff hlen, keyParts_append hvalues, List.map_append]
  unfold parseKey
  rw [parseLoop_secondary hid hfind hsep, parseLoop_eq]
  rw [List.length_append] at hcount
  generalize tokenize (keyParts (index.columnIds ++ table.primaryKeyIndex.columnIds)
    (values ++ primaryValues)).tail = tokens at hcount hsome
  obtain ⟨s', hfold, hfew, hall⟩ := foldlM_secondaryState hne idxId hsome hcount
  rw [hfold]
  show Except.ok s'.keyFragments = _ ↔ _
  have hsplit : 2 * index.columnIds.length ≤ tokens.length →
      (tokens.take (2 * index.columnIds.length)).length = 2 * index.columnIds.length ∧
      seconds tokens = seconds (tokens.take (2 * index.columnIds.length)) ++
        seconds (tokens.drop (2 * index.columnIds.length)) := by
    intro hge
    have htake : (tokens.take (2 * index.columnIds.length)).length = 2 * index.columnIds.length := by
      rw [List.length_take]
      omega
    rw [← seconds_append ⟨_, htake⟩, List.take_append_drop]
    exact ⟨htake, rfl⟩
  constructor
  · intro hok
    by_cases hlt : tokens.length < 2 * index.columnIds.length
    · have hnone := hfew hlt
      rw [Except.ok.inj hok] at hnone
      cases hnone
    · have hge := not_lt.mp hlt
      rw [hall hge] at hok
      rw [(hsplit hge).2]
      have hfragments := Except.ok.inj hok
      rw [KeyFragments.mk.injEq, Option.some.injEq, Option.some.injEq, KeyFragments.Index.mk.injEq,
        KeyFragments.Index.mk.injEq] at hfragments
      rw [hfragments.2.2.1.2, hfragments.2.2.2.2.2]
  · intro hseconds
    have hlength := congrArg List.length hseconds
    rw [length_seconds, List.length_append, List.length_map, List.length_map, hvalues] at hlength
    have hge : 2 * index.columnIds.length ≤ tokens.length := by omega
    obtain ⟨htake, heq⟩ := hsplit hge
    rw [heq] at hseconds
    obtain ⟨hfirst, hsecond⟩ := List.append_inj hseconds (by
      rw [length_seconds, htake, List.length_map, hvalues]
      omega)
    rw [hall hge, hfirst, hsecond]

/-- The primary index has the id 0 and columns, and the secondary indexes have ids of their own. -/
structure PrimaryZero (table : Table) : Prop where
  id_eq : table.primaryKeyIndex.id = 0
  columnIds_ne : table.primaryKeyIndex.columnIds ≠ []
  ids : (table.secondaryIndex.map (·.id)).Nodup
  ids_ne : ∀ index ∈ table.secondaryIndex, index.id ≠ 0

theorem primaryKey_eq_ok (h : PrimaryZero table)
    (hvalues : values.length = table.primaryKeyIndex.columnIds.length) :
    primaryKey table values =
      .ok (minimumIndexKey table 0 ++ keyParts table.primaryKeyIndex.columnIds values) := by
  unfold primaryKey
  rw [if_pos hvalues.symm, h.id_eq]

/-- **The parser inverts the builders if and only if every value is plain**: for the key of a
column, for the primary key itself, and for the key of a row in any of the secondary indexes. -/
theorem parseKey_inverts_iff (h : PrimaryZero table)
    (hvalues : values.length = table.primaryKeyIndex.columnIds.length) (colId : UInt32) :
    ((primaryKey table values >>= fun key => parseKey table (columnKey key colId)) =
        .ok { dbId := table.dbId
              tableId := table.id
              primaryIndex := some ⟨0, values.map ColumnValue.toString⟩
              colId := some colId } ↔
      ∀ value ∈ values, Plain value.toString) ∧
    ((primaryKey table values >>= parseKey table) =
        .ok { dbId := table.dbId
              tableId := table.id
              primaryIndex := some ⟨0, values.map ColumnValue.toString⟩ } ↔
      ∀ value ∈ values, Plain value.toString) ∧
    ∀ index ∈ table.secondaryIndex, ∀ secondaryValues : List ColumnValue,
      secondaryValues.length = index.columnIds.length →
        ((secondaryIndexKey table index.id secondaryValues values >>= parseKey table) =
            .ok { dbId := table.dbId
                  tableId := table.id
                  secondaryIndex := some ⟨index.id, secondaryValues.map ColumnValue.toString⟩
                  primaryIndex := some ⟨0, values.map ColumnValue.toString⟩ } ↔
          ∀ value ∈ secondaryValues ++ values, Plain value.toString) := by
  refine ⟨?_, ?_, fun index hindex secondaryValues hsecondary => ?_⟩
  · rw [primaryKey_eq_ok h hvalues, Fallible.ok_bind]
    by_cases hlegible : ∀ value ∈ values, Legible value.toString
    · rw [parseKey_column h.columnIds_ne hvalues hlegible, ← map_stripped_eq_iff hlegible]
      simp
    · -- not even the column id is read
      obtain ⟨fragments, hparse, hnone⟩ :=
        parseKey_columnKey_eq_none hvalues (.inr hlegible) colId
      rw [hparse]
      refine iff_of_false (fun heq => ?_) fun hplain => hlegible fun v hv => (hplain v hv).legible
      rw [Except.ok.inj heq] at hnone
      cases hnone
  · rw [primaryKey_eq_ok h hvalues, Fallible.ok_bind, parseKey_primary h.columnIds_ne hvalues,
      ← seconds_eq_iff hvalues]
    simp
  · have hfind := find?_index h.ids hindex
    have hkey : secondaryIndexKey table index.id secondaryValues values =
        .ok (minimumIndexKey table index.id ++ (keyParts index.columnIds secondaryValues ++
          keyParts table.primaryKeyIndex.columnIds values)) := by
      unfold secondaryIndexKey
      rw [hfind]
      simp [hsecondary, hvalues]
    rw [hkey, Fallible.ok_bind]
    exact parseKey_secondaryIndex_iff h.columnIds_ne (h.ids_ne index hindex) hfind hsecondary hvalues

/-- Users by their names: slashes inside and at the end of one do no harm. -/
theorem parseKey_inverts_slashes :
    (primaryKey { usersTable with primaryKeyIndex := ⟨0, [2]⟩ } [.string "a//b/".toList] >>= fun key =>
        parseKey { usersTable with primaryKeyIndex := ⟨0, [2]⟩ } (columnKey key 1)) =
      .ok { dbId := 1
            tableId := 1
            primaryIndex := some ⟨0, ["a//b/".toList]⟩
            colId := some 1 } :=
  (parseKey_inverts_iff ⟨rfl, by decide, by decide, by decide⟩ rfl 1).1.mpr (by decide)

/-- **A slash in front of a name is lost, and so is the column id behind an empty name.** -/
theorem leading_slash_lost :
    (primaryKey { usersTable with primaryKeyIndex := ⟨0, [2]⟩ } [.string "/a".toList] >>= fun key =>
        parseKey { usersTable with primaryKeyIndex := ⟨0, [2]⟩ } (columnKey key 1)) =
      .ok { dbId := 1, tableId := 1, primaryIndex := some ⟨0, ["a".toList]⟩, colId := some 1 } ∧
    (primaryKey { usersTable with primaryKeyIndex := ⟨0, [2]⟩ } [.string []] >>= fun key =>
        parseKey { usersTable with primaryKeyIndex := ⟨0, [2]⟩ } (columnKey key 1)) =
      .ok { dbId := 1, tableId := 1, primaryIndex := some ⟨0, []⟩ } :=
  ⟨by decide +kernel, by decide +kernel⟩

end KeySerializer

end ReplicatedCounter.MyDb
