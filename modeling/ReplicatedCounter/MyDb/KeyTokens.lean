import ReplicatedCounter.MyDb.Rows

/-!
# How far the parser gets in a key

Up to the column id the parser does not look at the tokens it takes, it counts them: two for a
column of the key. A value that is not `Legible` is no token, and the id behind it is not one of its
own either, so such a part is as good as not there (`length_tokenize_keyParts`). What is then
missing at the end of a key is the column id (`parseKey_columnKey_eq_none`), and where a secondary
index has the id 0, which the parser knows for the primary key, there is too much of it
(`parseKey_zero_colId_ne_none`).
-/

set_option autoImplicit false

namespace ReplicatedCounter.MyDb

namespace KeySerializer

/-! ## The tokens of a key -/

/-- All tokens. -/
def tokenize (key : Bytes) : List Bytes := tokens key.length key

theorem parseLoop_eq (table : Table) (s : ParseState) (key : Bytes) :
    parseLoop table s key = (tokenize key).foldlM (parseToken table) s := rfl

@[simp] theorem tokenize_nil : tokenize [] = [] := rfl

theorem tokenize_of_ne_nil {key : Bytes} (h : key ≠ []) :
    tokenize key = (parse key).1 :: tokenize (parse key).2 := by
  obtain ⟨c, rest, rfl⟩ := List.exists_cons_of_ne_nil h
  have hparse : (parse (c :: rest)).2.length ≤ rest.length := length_parse (c :: rest)
  unfold tokenize
  rw [List.length_cons, tokens, tokens_of_le hparse]

theorem tokenize_pad (num : UInt32) {r : Bytes} (hr : Separated r) :
    tokenize (pad num ++ r) = pad num :: tokenize r.tail := by
  have hne : pad num ++ r ≠ [] := by simp [pad_ne_nil]
  rw [tokenize_of_ne_nil hne, parse_pad num hr]

/-- A part of a key without the separator in front. -/
theorem tail_keyParts_cons (colId : UInt32) (columnIds : List UInt32) (value : ColumnValue)
    (values : List ColumnValue) (r : Bytes) :
    (keyParts (colId :: columnIds) (value :: values) ++ r).tail =
      pad colId ++ defaultEscapeCharacter :: escapeString value.toString ++
        (keyParts columnIds values ++ r) := by
  simp [keyParts]

/-- Two tokens for a value that can be read. -/
theorem tokenize_part {value : Bytes} (hvalue : Legible value) (colId : UInt32) {r : Bytes}
    (hr : Separated r) :
    ∃ token, tokenize (pad colId ++ defaultEscapeCharacter :: escapeString value ++ r) =
      token :: stripped value :: tokenize r.tail := by
  obtain ⟨token, hfirst, hsecond⟩ := parse_part hvalue colId hr
  have hne : pad colId ++ defaultEscapeCharacter :: escapeString value ++ r ≠ [] := by
    simp [pad_ne_nil]
  have hne' : escapeString (stripped value) ++ r ≠ [] := by
    simp [escapeString_ne_nil hvalue.stripped_ne_nil]
  refine ⟨token, ?_⟩
  rw [tokenize_of_ne_nil hne, hfirst, tokenize_of_ne_nil hne', hsecond]

theorem eq_replicate_of_not_legible {value : Bytes} (h : ¬ Legible value) :
    value = List.replicate value.length defaultEscapeCharacter := by
  rw [List.eq_replicate_iff]
  refine ⟨rfl, fun c hc => ?_⟩
  by_contra hne
  exact h ⟨c, hc, hne⟩

/-- An escaped string does not end its token. -/
theorem parse_escapeString_append (s x : Bytes) :
    parse (escapeString s ++ x) = (s ++ (parse x).1, (parse x).2) := by
  induction s with
  | nil => rfl
  | cons c s ih =>
    by_cases hc : c = defaultEscapeCharacter
    · subst hc
      rw [escapeString_cons_escape, List.cons_append, List.cons_append, parse_escape_escape, ih]
      rfl
    · rw [escapeString_cons_of_ne hc, List.cons_append, parse_cons_of_ne hc, ih]
      rfl

/-- At the end of a key, one token for a value that cannot be read. -/
theorem length_tokenize_last {value : Bytes} (hvalue : ¬ Legible value) (colId : UInt32) :
    (tokenize (pad colId ++ defaultEscapeCharacter :: escapeString value)).length = 1 := by
  have htext : pad colId ++ defaultEscapeCharacter :: escapeString value =
      escapeString (pad colId ++ value) ++ [defaultEscapeCharacter] := by
    have hswap := escape_cons_replicate value.length []
    rw [← eq_replicate_of_not_legible hvalue, List.append_nil] at hswap
    rw [hswap, escapeString_append, escapeString_of_not_mem escape_not_mem_pad, List.append_assoc]
  have hne : escapeString (pad colId ++ value) ++ [defaultEscapeCharacter] ≠ [] := by simp
  have hsep : Separated [defaultEscapeCharacter] := .inr ⟨[], rfl, by simp⟩
  rw [htext, tokenize_of_ne_nil hne, parse_escapeString _ hsep]
  rfl

/-- **A value that cannot be read takes the part behind it along.** -/
theorem length_tokenize_illegible {value : Bytes} (hvalue : ¬ Legible value) (colId : UInt32)
    {x : Bytes} (hx : x ≠ []) :
    (tokenize (pad colId ++ defaultEscapeCharacter :: escapeString value ++
      defaultEscapeCharacter :: x)).length = (tokenize x).length := by
  have htext : pad colId ++ defaultEscapeCharacter :: escapeString value ++
      defaultEscapeCharacter :: x =
        escapeString (pad colId ++ value ++ [defaultEscapeCharacter]) ++ x := by
    have hswap := escape_cons_replicate value.length (defaultEscapeCharacter :: x)
    rw [← eq_replicate_of_not_legible hvalue] at hswap
    rw [List.append_assoc, List.cons_append, hswap, escapeString_append, escapeString_append,
      escapeString_of_not_mem escape_not_mem_pad, List.append_assoc, List.append_assoc]
    rfl
  have hne : escapeString (pad colId ++ value ++ [defaultEscapeCharacter]) ++ x ≠ [] := by
    simp [hx]
  rw [htext, tokenize_of_ne_nil hne, parse_escapeString_append, tokenize_of_ne_nil hx]
  rfl

/-- What stands behind the parts of a key: a separator, and something with a number in front. -/
def Continues (r : Bytes) : Prop := Separated r ∧ r.tail ≠ []

theorem continues_pad (num : UInt32) (r : Bytes) :
    Continues (defaultEscapeCharacter :: pad num ++ r) := by
  refine ⟨separated_pad num r, ?_⟩
  simp [pad_ne_nil]

theorem Continues.keyParts {r : Bytes} (h : Continues r) (columnIds : List UInt32)
    (values : List ColumnValue) : Continues (keyParts columnIds values ++ r) := by
  match columnIds, values with
  | [], _ => exact h
  | _ :: _, [] => exact h
  | colId :: columnIds, value :: values =>
    have := continues_pad colId (defaultEscapeCharacter :: escapeString value.toString ++
      KeySerializer.keyParts columnIds values ++ r)
    simpa [KeySerializer.keyParts] using this

theorem Continues.cons_tail {r : Bytes} (h : Continues r) : r = defaultEscapeCharacter :: r.tail := by
  obtain ⟨rfl | ⟨t, rfl, -⟩, hne⟩ := h
  · exact absurd rfl hne
  · rfl

/-- How many values can be read. -/
def legibleCount (values : List ColumnValue) : Nat := values.countP fun value => Legible value.toString

/-- **Two tokens for every part that can be read**, if something follows. -/
theorem length_tokenize_keyParts {columnIds : List UInt32} {values : List ColumnValue}
    (hlen : values.length = columnIds.length) {r : Bytes} (hr : Continues r) :
    (tokenize (keyParts columnIds values ++ r).tail).length =
      2 * legibleCount values + (tokenize r.tail).length := by
  induction columnIds generalizing values with
  | nil =>
    rw [List.length_nil, List.length_eq_zero_iff] at hlen
    subst hlen
    simp [keyParts, legibleCount]
  | cons colId columnIds ih =>
    obtain ⟨value, values, rfl⟩ := List.exists_cons_of_length_eq_add_one hlen
    have hrest := hr.keyParts columnIds values
    have hcount := ih (Nat.succ.inj hlen)
    unfold legibleCount at hcount ⊢
    rw [tail_keyParts_cons, List.countP_cons]
    by_cases hvalue : Legible value.toString
    · obtain ⟨token, htokens⟩ := tokenize_part hvalue colId hrest.1
      rw [htokens, List.length_cons, List.length_cons, hcount, if_pos (by simpa using hvalue)]
      omega
    · rw [hrest.cons_tail, length_tokenize_illegible hvalue colId hrest.2, hcount,
        if_neg (by simpa using hvalue), Nat.add_zero]

theorem keyParts_eq_nil_of_tail {columnIds : List UInt32} {values : List ColumnValue}
    (h : (keyParts columnIds values).tail = []) : keyParts columnIds values = [] := by
  cases columnIds with
  | nil => rfl
  | cons colId columnIds =>
    cases values with
    | nil => rfl
    | cons value values => simp [keyParts] at h

/-- At most two tokens for a part. -/
theorem length_tokenize_keyParts_le {columnIds : List UInt32} {values : List ColumnValue}
    (hlen : values.length = columnIds.length) :
    (tokenize (keyParts columnIds values).tail).length ≤ 2 * columnIds.length := by
  induction columnIds generalizing values with
  | nil => simp [keyParts]
  | cons colId columnIds ih =>
    obtain ⟨value, values, rfl⟩ := List.exists_cons_of_length_eq_add_one hlen
    have hcount := ih (Nat.succ.inj hlen)
    have htail := tail_keyParts_cons colId columnIds value values []
    rw [List.append_nil, List.append_nil] at htail
    rw [htail, List.length_cons]
    have hsep := separated_keyParts columnIds values separated_nil
    rw [List.append_nil] at hsep
    by_cases hvalue : Legible value.toString
    · obtain ⟨token, htokens⟩ := tokenize_part hvalue colId hsep
      rw [htokens, List.length_cons, List.length_cons]
      omega
    · by_cases hrest : (keyParts columnIds values).tail = []
      · -- the part is the last one
        rw [keyParts_eq_nil_of_tail hrest, List.append_nil, length_tokenize_last hvalue]
        omega
      · have hcontinues : Continues (keyParts columnIds values) := ⟨hsep, hrest⟩
        rw [hcontinues.cons_tail, length_tokenize_illegible hvalue colId hrest]
        omega

/-- The values among the tokens of an index: every second one. -/
def seconds : List Bytes → List Bytes
  | _ :: value :: tokens => value :: seconds tokens
  | _ => []

/-- **The tokens of parts that can be read**, and of what follows. -/
theorem tokenize_keyParts {columnIds : List UInt32} {values : List ColumnValue}
    (hlen : values.length = columnIds.length)
    (hlegible : ∀ value ∈ values, Legible value.toString) {r : Bytes} (hr : Separated r) :
    ∃ front, front.length = 2 * columnIds.length ∧
      seconds front = values.map (fun value => stripped value.toString) ∧
      tokenize (keyParts columnIds values ++ r).tail = front ++ tokenize r.tail := by
  induction columnIds generalizing values with
  | nil =>
    rw [List.length_nil, List.length_eq_zero_iff] at hlen
    subst hlen
    exact ⟨[], rfl, rfl, rfl⟩
  | cons colId columnIds ih =>
    obtain ⟨value, values, rfl⟩ := List.exists_cons_of_length_eq_add_one hlen
    obtain ⟨front, hfront, hseconds, htokens⟩ := ih (Nat.succ.inj hlen)
      fun v hv => hlegible v (List.mem_cons_of_mem _ hv)
    obtain ⟨token, hpart⟩ := tokenize_part (hlegible value List.mem_cons_self) colId
      (separated_keyParts columnIds values hr)
    refine ⟨token :: stripped value.toString :: front, ?_, ?_, ?_⟩
    · rw [List.length_cons, List.length_cons, List.length_cons, hfront]
      omega
    · rw [seconds, List.map_cons, hseconds]
    · rw [tail_keyParts_cons, hpart, htokens]
      rfl

/-! ## What the parser counts -/

/-- The tokens of a primary key. Even without columns it takes one to be through with it. -/
def primaryTokens (table : Table) : Nat :=
  if table.primaryKeyIndex.columnIds = [] then 1 else 2 * table.primaryKeyIndex.columnIds.length

theorem primaryTokens_pos (table : Table) : 0 < primaryTokens table := by
  unfold primaryTokens
  split
  · exact Nat.one_pos
  · rename_i hne
    have := List.length_pos_iff.mpr hne
    omega

/-- Whether the parser is inside a part. -/
def ParseState.inside (s : ParseState) : Nat := if s.indexKeyPartsColId then 0 else 1

/-- The parser is so many tokens away from the column id. -/
def Missing (table : Table) (s : ParseState) (m : Nat) : Prop :=
  (s.current = .primaryKeyParts ∧ ∃ index, s.keyFragments.primaryIndex = some index ∧
      0 < m ∧ m + 2 * index.values.length + s.inside = primaryTokens table) ∨
    (s.current = .secondaryIndexKeyParts ∧ ∃ index, s.keyFragments.secondaryIndex = some index ∧
      index.values.length < s.secondaryIndex.length ∧
      m + 2 * index.values.length + s.inside = 2 * s.secondaryIndex.length + primaryTokens table)

variable {table : Table} {s s' : ParseState}

theorem parseToken_secondaryIndexKeyParts (table : Table) {index : KeyFragments.Index}
    (hs : s.current = .secondaryIndexKeyParts) (hindex : s.keyFragments.secondaryIndex = some index)
    (token : Bytes) :
    ∃ s', parseToken table s token = .ok s' ∧ s'.keyFragments.colId = s.keyFragments.colId ∧
      s'.indexKeyPartsColId = !s.indexKeyPartsColId ∧ s'.secondaryIndex = s.secondaryIndex ∧
      (if (index.push s.indexKeyPartsColId token).values.length = s.secondaryIndex.length then
        s'.current = .primaryKeyParts ∧ s'.keyFragments.primaryIndex = some { indexId := 0 }
      else
        s'.current = .secondaryIndexKeyParts ∧
          s'.keyFragments.secondaryIndex = some (index.push s.indexKeyPartsColId token)) := by
  unfold parseToken
  simp only [hs, hindex]
  by_cases hlast : (index.push s.indexKeyPartsColId token).values.length = s.secondaryIndex.length
  · rw [if_pos hlast]
    exact ⟨_, rfl, rfl, rfl, rfl, by rw [if_pos hlast]; exact ⟨rfl, rfl⟩⟩
  · rw [if_neg hlast]
    exact ⟨_, rfl, rfl, rfl, rfl, by rw [if_neg hlast]; exact ⟨rfl, rfl⟩⟩

/-- Outside of a part a token is a column id, which is not kept. -/
theorem length_push (s : ParseState) (index : KeyFragments.Index) (token : Bytes) :
    (index.push s.indexKeyPartsColId token).values.length = index.values.length + s.inside := by
  unfold KeyFragments.Index.push ParseState.inside
  cases s.indexKeyPartsColId with
  | true => rfl
  | false => simp

theorem inside_not (s : ParseState) (hflag : s'.indexKeyPartsColId = !s.indexKeyPartsColId) :
    s'.inside + s.inside = 1 := by
  unfold ParseState.inside
  rw [hflag]
  cases s.indexKeyPartsColId <;> rfl

theorem inside_le (s : ParseState) : s.inside ≤ 1 := by
  unfold ParseState.inside
  split <;> omega

theorem primaryTokens_cases (table : Table) :
    (table.primaryKeyIndex.columnIds.length = 0 ∧ primaryTokens table = 1) ∨
      (0 < table.primaryKeyIndex.columnIds.length ∧
        primaryTokens table = 2 * table.primaryKeyIndex.columnIds.length) := by
  unfold primaryTokens
  by_cases hnil : table.primaryKeyIndex.columnIds = []
  · rw [if_pos hnil, hnil]
    exact .inl ⟨rfl, rfl⟩
  · rw [if_neg hnil]
    exact .inr ⟨List.length_pos_iff.mpr hnil, rfl⟩

/-- **A token brings the parser one nearer to the column id.** -/
theorem Missing.parseToken {m : Nat} (h : Missing table s (m + 1)) (token : Bytes) :
    ∃ s', KeySerializer.parseToken table s token = .ok s' ∧
      s'.keyFragments.colId = s.keyFragments.colId ∧
      (m = 0 → s'.current = .colId) ∧ (0 < m → Missing table s' m) := by
  have htokens := primaryTokens_cases table
  have hle := inside_le s
  obtain ⟨hs, index, hindex, -, hcount⟩ | ⟨hs, index, hindex, hless, hcount⟩ := h
  · have hpush := length_push s index token
    refine ⟨_, parseToken_primaryKeyParts table hs hindex token, rfl, fun hzero => ?_, fun hpos => ?_⟩
    · exact if_pos (by omega)
    · have hmore : (index.push s.indexKeyPartsColId token).values.length ≠
          table.primaryKeyIndex.columnIds.length := by
        omega
      refine .inl ⟨if_neg hmore, _, rfl, hpos, ?_⟩
      have hinside : ∀ t : ParseState, (t.indexKeyPartsColId = !s.indexKeyPartsColId) →
          m + 2 * (index.push s.indexKeyPartsColId token).values.length + t.inside =
            primaryTokens table := by
        intro t ht
        have := inside_not s ht
        omega
      exact hinside _ rfl
  · obtain ⟨s', hstep, hcolId, hflag, hindexes, hnext⟩ :=
      parseToken_secondaryIndexKeyParts table hs hindex token
    have hpush := length_push s index token
    have hinside := inside_not s hflag
    refine ⟨s', hstep, hcolId, fun hzero => ?_, fun hpos => ?_⟩
    · omega
    · by_cases hlast : (index.push s.indexKeyPartsColId token).values.length = s.secondaryIndex.length
      · rw [if_pos hlast] at hnext
        refine .inl ⟨hnext.1, _, hnext.2, hpos, ?_⟩
        show m + 0 + s'.inside = primaryTokens table
        omega
      · rw [if_neg hlast] at hnext
        refine .inr ⟨hnext.1, _, hnext.2, ?_, ?_⟩
        · rw [hindexes]
          omega
        · rw [hindexes]
          omega

/-- With no more tokens than that there is no column id. -/
theorem Missing.foldlM_le {m : Nat} (h : Missing table s m) (hm : 0 < m) {tokens : List Bytes}
    (hlen : tokens.length ≤ m) :
    ∃ s', tokens.foldlM (KeySerializer.parseToken table) s = .ok s' ∧
      s'.keyFragments.colId = s.keyFragments.colId ∧ (tokens.length = m → s'.current = .colId) := by
  induction tokens generalizing s m with
  | nil => exact ⟨s, rfl, rfl, fun heq => absurd heq (by simpa using hm.ne)⟩
  | cons token tokens ih =>
    obtain ⟨m, rfl⟩ := Nat.exists_eq_add_of_lt hm
    rw [Nat.zero_add] at h hlen ⊢
    obtain ⟨s₁, hstep, hcolId, hlast, hmore⟩ := h.parseToken token
    rw [List.length_cons] at hlen ⊢
    rw [List.foldlM_cons, hstep]
    cases m with
    | zero =>
      obtain rfl : tokens = [] := List.length_eq_zero_iff.mp (by omega)
      exact ⟨s₁, rfl, hcolId, fun _ => hlast rfl⟩
    | succ m =>
      obtain ⟨s', hfold, hcolId', hend⟩ := ih (hmore (Nat.succ_pos m)) (Nat.succ_pos m) (by omega)
      exact ⟨s', hfold, hcolId'.trans hcolId, fun heq => hend (by omega)⟩

/-- At the column id every token is one. -/
theorem foldlM_colId {tokens : List Bytes} (hs : s.current = .colId) (hne : tokens ≠ [])
    (h : tokens.foldlM (parseToken table) s = .ok s') : s'.keyFragments.colId ≠ none := by
  obtain ⟨token, tokens, rfl⟩ := List.exists_cons_of_ne_nil hne
  clear hne
  induction tokens generalizing s token with
  | nil =>
    obtain ⟨s₁, hstep, hrest⟩ := Fallible.bind_eq_ok.mp h
    cases hrest
    unfold parseToken at hstep
    rw [hs] at hstep
    obtain ⟨colId, -, hstep⟩ := Fallible.bind_eq_ok.mp hstep
    cases hstep
    exact Option.some_ne_none colId
  | cons token' tokens ih =>
    obtain ⟨s₁, hstep, hrest⟩ := Fallible.bind_eq_ok.mp h
    unfold parseToken at hstep
    rw [hs] at hstep
    obtain ⟨colId, -, hstep⟩ := Fallible.bind_eq_ok.mp hstep
    cases hstep
    exact ih rfl token' hrest

/-- With more tokens there is one. -/
theorem Missing.foldlM_lt {m : Nat} (h : Missing table s m) (hm : 0 < m) {tokens : List Bytes}
    (hlen : m < tokens.length) (hfold : tokens.foldlM (KeySerializer.parseToken table) s = .ok s') :
    s'.keyFragments.colId ≠ none := by
  have htake : (tokens.take m).length = m := by
    rw [List.length_take]
    omega
  obtain ⟨s₁, hfront, -, hcurrent⟩ := h.foldlM_le hm htake.le
  rw [← List.take_append_drop m tokens, List.foldlM_append, hfront] at hfold
  refine foldlM_colId (hcurrent htake) ?_ hfold
  rw [ne_eq, List.drop_eq_nil_iff]
  omega

/-! ## Whole keys -/

variable {r key : Bytes}

/-- The parser in front of the parts of a primary key. -/
def primaryState (table : Table) : ParseState :=
  { current := .primaryKeyParts
    keyFragments :=
      { dbId := table.dbId, tableId := table.id, primaryIndex := some { indexId := 0 } } }

/-- And in front of the parts of a secondary index. -/
def secondaryState (table : Table) (idxId : UInt32) (columnIds : List UInt32) : ParseState :=
  { current := .secondaryIndexKeyParts
    secondaryIndex := columnIds
    keyFragments :=
      { dbId := table.dbId, tableId := table.id, secondaryIndex := some { indexId := idxId } } }

/-- With the index id 0 the parser reads a primary key. -/
theorem parseLoop_zero (table : Table) (hr : Separated r) :
    parseLoop table {} (minimumIndexKey table 0 ++ r) =
      parseLoop table (primaryState table) r.tail := by
  rw [parseLoop_ids table 0 hr]
  simp only [parseToken, toUInt32_pad]
  rfl

theorem missing_primaryState (table : Table) :
    Missing table (primaryState table) (primaryTokens table) :=
  .inl ⟨rfl, _, rfl, primaryTokens_pos table, rfl⟩

/-- With another one, the parts of that index and then a primary key. -/
theorem parseLoop_secondary {idxId : UInt32} {index : Index} (hid : idxId ≠ 0)
    (hfind : table.secondaryIndex.find? (·.id = idxId) = some index) (hr : Separated r) :
    parseLoop table {} (minimumIndexKey table idxId ++ r) =
      parseLoop table (secondaryState table idxId index.columnIds) r.tail := by
  rw [parseLoop_ids table idxId hr]
  simp only [parseToken, toUInt32_pad]
  show ((if idxId = 0 then _ else _) >>= _) = _
  rw [if_neg hid, hfind]
  rfl

theorem missing_secondaryState (table : Table) (idxId : UInt32) {columnIds : List UInt32}
    (hne : columnIds ≠ []) :
    Missing table (secondaryState table idxId columnIds)
      (2 * columnIds.length + primaryTokens table) := by
  right
  refine ⟨rfl, _, rfl, List.length_pos_iff.mpr hne, ?_⟩
  show 2 * columnIds.length + primaryTokens table + 2 * 0 + 0 =
    2 * columnIds.length + primaryTokens table
  omega

/-- Too few tokens for a column id. -/
theorem Missing.parseKey_le {m : Nat} (h : Missing table s m) (hm : 0 < m)
    (hnone : s.keyFragments.colId = none) (hloop : parseLoop table {} key = parseLoop table s r)
    (hlen : (tokenize r).length ≤ m) :
    ∃ fragments, parseKey table key = .ok fragments ∧ fragments.colId = none := by
  obtain ⟨s', hfold, hcolId, -⟩ := h.foldlM_le hm hlen
  unfold parseKey
  rw [hloop, parseLoop_eq, hfold]
  exact ⟨_, rfl, hcolId.trans hnone⟩

/-- Enough of them. -/
theorem Missing.parseKey_lt {m : Nat} (h : Missing table s m) (hm : 0 < m)
    (hloop : parseLoop table {} key = parseLoop table s r) (hlen : m < (tokenize r).length)
    {fragments : KeyFragments} (hparse : parseKey table key = .ok fragments) :
    fragments.colId ≠ none := by
  unfold parseKey at hparse
  obtain ⟨s', hfold, hparse⟩ := Fallible.bind_eq_ok.mp hparse
  cases hparse
  rw [hloop, parseLoop_eq] at hfold
  exact h.foldlM_lt hm hlen hfold

theorem length_le_primaryTokens (table : Table) :
    2 * table.primaryKeyIndex.columnIds.length ≤ primaryTokens table := by
  have := primaryTokens_cases table
  omega

theorem legibleCount_lt {values : List ColumnValue}
    (h : ¬ ∀ value ∈ values, Legible value.toString) : legibleCount values < values.length := by
  unfold legibleCount
  refine lt_of_le_of_ne List.countP_le_length ?_
  rw [ne_eq, List.countP_eq_length]
  simpa using h

variable {columnIds : List UInt32} {values : List ColumnValue}

/-- **A key of parts of the primary index has no column id**, whatever its values are. -/
theorem parseKey_zero_parts (hvalues : values.length = table.primaryKeyIndex.columnIds.length) :
    ∃ fragments, parseKey table
        (minimumIndexKey table 0 ++ keyParts table.primaryKeyIndex.columnIds values) = .ok fragments ∧
      fragments.colId = none := by
  have hsep := separated_keyParts table.primaryKeyIndex.columnIds values separated_nil
  rw [List.append_nil] at hsep
  refine (missing_primaryState table).parseKey_le (primaryTokens_pos table) rfl
    (parseLoop_zero table hsep) ?_
  exact (length_tokenize_keyParts_le hvalues).trans (length_le_primaryTokens table)

/-- **The key of a column is read without its column id** if a value of the primary key cannot be
read, or there is none. -/
theorem parseKey_columnKey_eq_none
    (hvalues : values.length = table.primaryKeyIndex.columnIds.length)
    (h : table.primaryKeyIndex.columnIds = [] ∨ ¬ ∀ value ∈ values, Legible value.toString)
    (colId : UInt32) :
    ∃ fragments, parseKey table (columnKey
        (minimumIndexKey table 0 ++ keyParts table.primaryKeyIndex.columnIds values) colId) =
          .ok fragments ∧ fragments.colId = none := by
  have hcontinues : Continues (defaultEscapeCharacter :: pad colId) := by
    have := continues_pad colId []
    rwa [List.append_nil] at this
  have hsep := separated_keyParts table.primaryKeyIndex.columnIds values hcontinues.1
  unfold columnKey
  rw [List.append_assoc]
  refine (missing_primaryState table).parseKey_le (primaryTokens_pos table) rfl
    (parseLoop_zero table hsep) ?_
  have hlast : (tokenize (pad colId)).length = 1 := by
    have := tokenize_pad colId separated_nil
    rw [List.append_nil] at this
    rw [this]
    rfl
  rw [length_tokenize_keyParts hvalues hcontinues, List.tail_cons, hlast]
  have htokens := primaryTokens_cases table
  rcases h with hnil | hillegible
  · rw [hnil] at hvalues
    obtain rfl := List.length_eq_zero_iff.mp hvalues
    exact primaryTokens_pos table
  · have hlt := legibleCount_lt hillegible
    omega

/-- **The key of a column is read with its column id** if all values of the primary key can be
read. -/
theorem parseKey_zero_columnKey (hne : table.primaryKeyIndex.columnIds ≠ [])
    (hvalues : values.length = table.primaryKeyIndex.columnIds.length)
    (hlegible : ∀ value ∈ values, Legible value.toString) (colId : UInt32) :
    ∃ fragments, parseKey table (columnKey
        (minimumIndexKey table 0 ++ keyParts table.primaryKeyIndex.columnIds values) colId) =
          .ok fragments ∧ fragments.colId = some colId := by
  have hcolId : Separated (defaultEscapeCharacter :: pad colId) :=
    separated_of_not_mem escape_not_mem_pad
  have hat : AtPart (primaryState table) 0 := ⟨rfl, .inl ⟨rfl, _, rfl, rfl⟩⟩
  obtain ⟨s', hcurrent, -, hloop⟩ :=
    hat.parseLoop table hne hvalues (Nat.zero_add _) hlegible hcolId
  unfold parseKey columnKey
  rw [List.append_assoc, parseLoop_zero table (separated_keyParts _ _ hcolId), hloop,
    List.tail_cons, parseLoop_colId table hcurrent]
  exact ⟨_, rfl, rfl⟩

/-- **A key of a secondary index has no column id**, unless its id is 0. -/
theorem parseKey_secondary {idxId : UInt32} {index : Index} {primaryValues : List ColumnValue}
    (hid : idxId ≠ 0) (hfind : table.secondaryIndex.find? (·.id = idxId) = some index)
    (hne : values ≠ []) (hvalues : values.length = index.columnIds.length)
    (hprimary : primaryValues.length = table.primaryKeyIndex.columnIds.length) :
    ∃ fragments, parseKey table (minimumIndexKey table idxId ++ (keyParts index.columnIds values ++
        keyParts table.primaryKeyIndex.columnIds primaryValues)) = .ok fragments ∧
      fragments.colId = none := by
  have hcolumns : index.columnIds ≠ [] := by
    intro hnil
    rw [hnil] at hvalues
    exact hne (List.length_eq_zero_iff.mp hvalues)
  rw [keyParts_append hvalues]
  have hlen : (values ++ primaryValues).length =
      (index.columnIds ++ table.primaryKeyIndex.columnIds).length := by
    rw [List.length_append, List.length_append, hvalues, hprimary]
  have hsep := separated_keyParts (index.columnIds ++ table.primaryKeyIndex.columnIds)
    (values ++ primaryValues) separated_nil
  rw [List.append_nil] at hsep
  have hpos := primaryTokens_pos table
  refine (missing_secondaryState table idxId hcolumns).parseKey_le (by omega) rfl
    (parseLoop_secondary hid hfind hsep) ?_
  refine (length_tokenize_keyParts_le hlen).trans ?_
  have := length_le_primaryTokens table
  rw [List.length_append]
  omega

section zero

variable {primaryValues : List ColumnValue} (hvalues : values.length = columnIds.length)
  (hprimary : primaryValues.length = table.primaryKeyIndex.columnIds.length)
  (hne : table.primaryKeyIndex.columnIds ≠ [])

include hprimary hne in
theorem continues_primaryParts :
    Continues (keyParts table.primaryKeyIndex.columnIds primaryValues) := by
  obtain ⟨colId, columnIds, hcolumns⟩ := List.exists_cons_of_ne_nil hne
  rw [hcolumns] at hprimary ⊢
  obtain ⟨value, values, rfl⟩ := List.exists_cons_of_length_eq_add_one hprimary
  have := continues_pad colId (defaultEscapeCharacter :: escapeString value.toString ++
    keyParts columnIds values)
  simpa [keyParts] using this

include hvalues hprimary hne in
/-- **A key of a secondary index with the id 0 has no column id** if none of its values can be
read. -/
theorem parseKey_zero_eq_none (hillegible : ∀ value ∈ values, ¬ Legible value.toString) :
    ∃ fragments, parseKey table (minimumIndexKey table 0 ++ (keyParts columnIds values ++
        keyParts table.primaryKeyIndex.columnIds primaryValues)) = .ok fragments ∧
      fragments.colId = none := by
  have hcontinues := continues_primaryParts hprimary hne
  refine (missing_primaryState table).parseKey_le (primaryTokens_pos table) rfl
    (parseLoop_zero table (separated_keyParts columnIds values hcontinues.1)) ?_
  have hzero : legibleCount values = 0 := by
    unfold legibleCount
    rw [List.countP_eq_zero]
    simpa using hillegible
  rw [length_tokenize_keyParts hvalues hcontinues, hzero, Nat.mul_zero, Nat.zero_add]
  exact (length_tokenize_keyParts_le hprimary).trans (length_le_primaryTokens table)

include hvalues hprimary hne in
/-- **And it has one** if one of them can, and the primary key as well. -/
theorem parseKey_zero_colId_ne_none (hlegible : ∀ value ∈ primaryValues, Legible value.toString)
    {value : ColumnValue} (hmem : value ∈ values) (hvalue : Legible value.toString)
    {fragments : KeyFragments}
    (hparse : parseKey table (minimumIndexKey table 0 ++ (keyParts columnIds values ++
        keyParts table.primaryKeyIndex.columnIds primaryValues)) = .ok fragments) :
    fragments.colId ≠ none := by
  have hcontinues := continues_primaryParts hprimary hne
  refine (missing_primaryState table).parseKey_lt (primaryTokens_pos table)
    (parseLoop_zero table (separated_keyParts columnIds values hcontinues.1)) ?_ hparse
  have hpos : 0 < legibleCount values :=
    List.countP_pos_iff.mpr ⟨value, hmem, by simpa using hvalue⟩
  obtain ⟨front, hfront, -, htokens⟩ := tokenize_keyParts hprimary hlegible separated_nil
  rw [List.append_nil] at htokens
  rw [length_tokenize_keyParts hvalues hcontinues, htokens, List.tail_nil, tokenize_nil,
    List.append_nil, hfront]
  have htable := primaryTokens_cases table
  have hcolumns := List.length_pos_iff.mpr hne
  omega

end zero

/-- A primary key without columns ends with the first token, and the second one is the column id. -/
theorem parseKey_zero_null (hnil : table.primaryKeyIndex.columnIds = []) (colId : UInt32)
    (columnIds : List UInt32) {value : ColumnValue} (hvalue : value.toString = RowSerializer.null)
    (values : List ColumnValue) :
    parseKey table (minimumIndexKey table 0 ++ keyParts (colId :: columnIds) (value :: values)) =
      .error .conversionError := by
  have hparts := separated_keyParts columnIds values separated_nil
  rw [List.append_nil] at hparts
  have hnull : escapeString RowSerializer.null = 'N' :: "ULL".toList := by decide
  have hsep : Separated (defaultEscapeCharacter ::
      (escapeString RowSerializer.null ++ keyParts columnIds values)) := by
    right
    refine ⟨_, rfl, ?_⟩
    rw [hnull, List.cons_append, List.head?_cons]
    decide
  have hkey : keyParts (colId :: columnIds) (value :: values) =
      defaultEscapeCharacter :: pad colId ++ (defaultEscapeCharacter ::
        (escapeString RowSerializer.null ++ keyParts columnIds values)) := by
    simp [keyParts, hvalue]
  have hne : escapeString RowSerializer.null ++ keyParts columnIds values ≠ [] := by
    simp [hnull]
  unfold parseKey
  rw [parseLoop_zero table (hkey ▸ separated_pad colId _), hkey]
  show (parseLoop table _ (pad colId ++ _) >>= _) = _
  rw [parseLoop_pad table _ colId hsep, parseToken_primaryKeyParts table rfl rfl, List.tail_cons]
  show (parseLoop table _ _ >>= _) = _
  rw [parseLoop_of_ne_nil table _ hne, parse_escapeString _ hparts]
  simp only [KeyFragments.Index.push, hnil, List.length_nil]
  have hconversion : toUInt32 RowSerializer.null = .error .conversionError := by decide
  unfold parseToken
  simp only [hconversion]
  rfl

end KeySerializer

end ReplicatedCounter.MyDb
