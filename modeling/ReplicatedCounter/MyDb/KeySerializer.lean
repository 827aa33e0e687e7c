import ReplicatedCounter.Lib.Decimal
import ReplicatedCounter.MyDb.TableRow

/-!
# `mydb/backend/KeySerializer.cc`

A row is kept under keys that spell out where it belongs: database, table, index, and for every
column of the index its id and its value. The parts stand between single escape characters; one
inside a value is doubled.

The builder and the parser do not quite fit. What the builder writes can be read in one way only, if
one knows where a value begins (`keyParts_append_inj`). The parser does not: it takes a separator
and an escape character behind it for a doubled one. A value that begins with escape characters
loses them to the part before it, which does no harm to the column id; a value with nothing else in
it is swallowed. `Legible` is what is left.
-/

set_option autoImplicit false

namespace ReplicatedCounter.MyDb

/-- `folly::to<std::uint32_t>`. -/
def toUInt32 (text : Bytes) : Except ExecutionError UInt32 :=
  match Decimal.readNat text with
  | some n => if n < 2 ^ 32 then .ok (UInt32.ofNat n) else .error .conversionError
  | none => .error .conversionError

namespace KeySerializer

/-- `DEFAULT_ESCAPE_CHARACTER`. -/
def defaultEscapeCharacter : Char := '/'

/-- `fmt::format("{:04}", num)`. -/
def pad (num : UInt32) : Bytes := (Nat.toDigits 10 num.toNat).leftpad 4 '0'

def escapeString (input : Bytes) : Bytes :=
  input.flatMap fun c =>
    if c = defaultEscapeCharacter then [defaultEscapeCharacter, defaultEscapeCharacter] else [c]

/-- The token at the front, and what is left behind it. -/
def parse : Bytes → Bytes × Bytes
  | [] => ([], [])
  | [c] => if c ≠ defaultEscapeCharacter then ([c], []) else ([], [])
  | c :: d :: str =>
    if c ≠ defaultEscapeCharacter then (c :: (parse (d :: str)).1, (parse (d :: str)).2)
    else if d = defaultEscapeCharacter then (defaultEscapeCharacter :: (parse str).1, (parse str).2)
    else ([], d :: str)

/-! ## Building keys -/

def minimumIndexKey (table : Table) (indexId : UInt32) : Bytes :=
  pad table.dbId ++ defaultEscapeCharacter :: pad table.id ++ defaultEscapeCharacter :: pad indexId

/-- The column ids and values of an index. -/
def keyParts : List UInt32 → List ColumnValue → Bytes
  | colId :: columnIds, value :: values =>
    defaultEscapeCharacter :: pad colId ++ defaultEscapeCharacter :: escapeString value.toString ++
      keyParts columnIds values
  | _, _ => []

def primaryKey (table : Table) (values : List ColumnValue) : Except ExecutionError Bytes :=
  if table.primaryKeyIndex.columnIds.length = values.length then
    .ok (minimumIndexKey table table.primaryKeyIndex.id ++
      keyParts table.primaryKeyIndex.columnIds values)
  else
    .error .assertionFailed

def columnKey (primaryKey : Bytes) (colId : UInt32) : Bytes :=
  primaryKey ++ defaultEscapeCharacter :: pad colId

def secondaryIndexKey (table : Table) (indexId : UInt32) (values primaryValues : List ColumnValue) :
    Except ExecutionError Bytes :=
  match table.secondaryIndex.find? (·.id = indexId) with
  | none => .error .assertionFailed
  | some secondaryIndex =>
    if secondaryIndex.columnIds.length ≠ values.length then .error .assertionFailed
    else if table.primaryKeyIndex.columnIds.length < primaryValues.length then
      .error .undefinedBehaviour
    else
      .ok (minimumIndexKey table indexId ++ keyParts secondaryIndex.columnIds values ++
        keyParts table.primaryKeyIndex.columnIds primaryValues)

/-- What stands behind the last separator of a key that is to be behind all keys of a row. -/
def lastKeyPart : Bytes := "ZZZZZZ".toList

def maximumIndexKey (table : Table) (indexId : UInt32) (values : List ColumnValue) :
    Except ExecutionError Bytes :=
  if table.primaryKeyIndex.id = indexId then do
    return (← primaryKey table values) ++ defaultEscapeCharacter :: lastKeyPart
  else
    .error (.runtimeError "i should not be here")

def maximumSecondaryIndexKey (table : Table) (indexId : UInt32)
    (primaryKeyValues secondaryKeyValues : List ColumnValue) : Except ExecutionError Bytes :=
  if ∃ index ∈ table.secondaryIndex, indexId = index.id then do
    return (← secondaryIndexKey table indexId secondaryKeyValues primaryKeyValues) ++
      defaultEscapeCharacter :: lastKeyPart
  else
    .error (.runtimeError "i should not be here")

/-! ## Taking them apart -/

inductive TokenType where
  | dbId
  | tblId
  | indexId
  | primaryKeyParts
  | colId
  | secondaryIndexKeyParts
  deriving DecidableEq, Repr

/-- `KeyFragments::Index`. -/
structure KeyFragments.Index where
  indexId : UInt32
  values : List Bytes := []
  deriving DecidableEq, Repr

structure KeyFragments where
  dbId : UInt32 := 0
  tableId : UInt32 := 0
  primaryIndex : Option KeyFragments.Index := none
  colId : Option UInt32 := none
  secondaryIndex : Option KeyFragments.Index := none
  deriving DecidableEq, Repr

/-- The variables of the loop in `parseKey`. -/
structure ParseState where
  current : TokenType := .dbId
  indexKeyPartsColId : Bool := true
  keyFragments : KeyFragments := {}
  /-- The index of the table that a secondary key is read against; empty if there is none. -/
  secondaryIndex : List UInt32 := []
  deriving DecidableEq, Repr

/-- A token of an index: every second one is a value. -/
def KeyFragments.Index.push (index : KeyFragments.Index) (indexKeyPartsColId : Bool) (token : Bytes) :
    KeyFragments.Index :=
  if indexKeyPartsColId then index else { index with values := index.values ++ [token] }

/-- The body of the loop in `parseKey`. -/
def parseToken (table : Table) (s : ParseState) (token : Bytes) : Except ExecutionError ParseState :=
  match s.current with
  | .dbId => do
    let dbId ← toUInt32 token
    return { s with keyFragments := { s.keyFragments with dbId }, current := .tblId }
  | .tblId => do
    let tableId ← toUInt32 token
    return { s with keyFragments := { s.keyFragments with tableId }, current := .indexId }
  | .indexId => do
    let indexId ← toUInt32 token
    if indexId = 0 then
      return { s with
        keyFragments := { s.keyFragments with primaryIndex := some { indexId } }
        current := .primaryKeyParts }
    else
      return { s with
        keyFragments := { s.keyFragments with secondaryIndex := some { indexId } }
        secondaryIndex :=
          ((table.secondaryIndex.find? (·.id = indexId)).map (·.columnIds)).getD s.secondaryIndex
        current := .secondaryIndexKeyParts }
  | .primaryKeyParts =>
    match s.keyFragments.primaryIndex with
    | none => .error .undefinedBehaviour
    | some index =>
      let index := index.push s.indexKeyPartsColId token
      .ok { s with
        keyFragments := { s.keyFragments with primaryIndex := some index }
        indexKeyPartsColId := !s.indexKeyPartsColId
        current :=
          if index.values.length = table.primaryKeyIndex.columnIds.length then .colId else s.current }
  | .colId => do
    let colId ← toUInt32 token
    return { s with keyFragments := { s.keyFragments with colId := some colId } }
  | .secondaryIndexKeyParts =>
    match s.keyFragments.secondaryIndex with
    | none => .error .undefinedBehaviour
    | some index =>
      let index := index.push s.indexKeyPartsColId token
      let s := { s with
        keyFragments := { s.keyFragments with secondaryIndex := some index }
        indexKeyPartsColId := !s.indexKeyPartsColId }
      if index.values.length = s.secondaryIndex.length then
        .ok { s with
          keyFragments := { s.keyFragments with primaryIndex := some { indexId := 0 } }
          current := .primaryKeyParts }
      else
        .ok s

/-- The tokens of a key; `fuel` is for its length, since every token takes something off it. -/
def tokens (fuel : Nat) (key : Bytes) : List Bytes :=
  match fuel, key with
  | 0, _ => []
  | _, [] => []
  | fuel + 1, c :: key => (parse (c :: key)).1 :: tokens fuel (parse (c :: key)).2

/-- The loop of `parseKey`, from a state on. -/
def parseLoop (table : Table) (s : ParseState) (key : Bytes) : Except ExecutionError ParseState :=
  (tokens key.length key).foldlM (parseToken table) s

def parseKey (table : Table) (key : Bytes) : Except ExecutionError KeyFragments := do
  let s ← parseLoop table {} key
  return s.keyFragments

/-! ## What the builder writes is read in one way -/

theorem isDigit_of_mem_pad {num : UInt32} {c : Char} (h : c ∈ pad num) : c.isDigit = true :=
  Decimal.isDigit_of_mem_leftpad h

theorem pad_ne_nil {num : UInt32} : pad num ≠ [] := Decimal.leftpad_ne_nil

theorem escape_not_mem_pad {num : UInt32} : defaultEscapeCharacter ∉ pad num := by
  intro h
  exact absurd (isDigit_of_mem_pad h) (by decide)

@[simp] theorem toUInt32_pad (num : UInt32) : toUInt32 (pad num) = .ok num := by
  unfold toUInt32 pad
  rw [Decimal.readNat_leftpad]
  simp only [UInt32.toNat_lt, if_true, UInt32.ofNat_toNat]

theorem pad_injective : Function.Injective pad := by
  intro a b h
  have hread := toUInt32_pad a
  rw [h, toUInt32_pad] at hread
  exact (Except.ok.inj hread).symm

/-- **What a key of a secondary index is made of.** -/
theorem secondaryIndexKey_eq_ok {table : Table} {idxId : UInt32}
    {values primaryValues : List ColumnValue} {key : Bytes}
    (hkey : secondaryIndexKey table idxId values primaryValues = .ok key) :
    ∃ index, table.secondaryIndex.find? (·.id = idxId) = some index ∧
      values.length = index.columnIds.length ∧
      key = minimumIndexKey table idxId ++ (keyParts index.columnIds values ++
        keyParts table.primaryKeyIndex.columnIds primaryValues) := by
  unfold secondaryIndexKey at hkey
  cases hfind : table.secondaryIndex.find? (·.id = idxId) with
  | none =>
    rw [hfind] at hkey
    cases hkey
  | some index =>
    rw [hfind] at hkey
    dsimp only at hkey
    split at hkey
    · cases hkey
    · rename_i hlen
      split at hkey
      · cases hkey
      · cases hkey
        exact ⟨index, rfl, (not_not.mp hlen).symm, List.append_assoc _ _ _⟩

/-- Nothing, or a separator: an escape character that is not doubled. -/
def Separated (r : Bytes) : Prop :=
  r = [] ∨ ∃ t, r = defaultEscapeCharacter :: t ∧ t.head? ≠ some defaultEscapeCharacter

theorem separated_nil : Separated [] := .inl rfl

/-- Something without an escape character in front follows its separator. -/
theorem separated_of_not_mem {p : Bytes} (h : defaultEscapeCharacter ∉ p) :
    Separated (defaultEscapeCharacter :: p) :=
  .inr ⟨p, rfl, fun hhead => h (List.mem_of_mem_head? hhead)⟩

theorem separated_pad (num : UInt32) (r : Bytes) :
    Separated (defaultEscapeCharacter :: pad num ++ r) := by
  refine .inr ⟨pad num ++ r, rfl, ?_⟩
  cases hpad : pad num with
  | nil => exact absurd hpad pad_ne_nil
  | cons d digits =>
    have hd : d.isDigit = true := isDigit_of_mem_pad (hpad ▸ List.mem_cons_self)
    intro hhead
    obtain rfl : d = defaultEscapeCharacter := by simpa using hhead
    exact absurd hd (by decide)

theorem escapeString_cons_escape (s : Bytes) :
    escapeString (defaultEscapeCharacter :: s) =
      defaultEscapeCharacter :: defaultEscapeCharacter :: escapeString s := rfl

theorem escapeString_cons_of_ne {c : Char} (h : c ≠ defaultEscapeCharacter) (s : Bytes) :
    escapeString (c :: s) = c :: escapeString s := by
  show (if c = defaultEscapeCharacter then _ else [c]) ++ escapeString s = _
  rw [if_neg h]
  rfl

theorem escapeString_ne_nil {s : Bytes} (h : s ≠ []) : escapeString s ≠ [] := by
  cases s with
  | nil => exact absurd rfl h
  | cons c s =>
    by_cases hc : c = defaultEscapeCharacter
    · rw [hc, escapeString_cons_escape]
      exact List.cons_ne_nil _ _
    · rw [escapeString_cons_of_ne hc]
      exact List.cons_ne_nil _ _

theorem escapeString_append (s s' : Bytes) :
    escapeString (s ++ s') = escapeString s ++ escapeString s' := List.flatMap_append

/-- **An escaped string and a separator can be told apart.** -/
theorem escapeString_append_inj {s s' r r' : Bytes} (hr : Separated r) (hr' : Separated r')
    (h : escapeString s ++ r = escapeString s' ++ r') : s = s' ∧ r = r' := by
  -- a separator is never the beginning of something escaped
  have hclash : ∀ {c s r r'}, Separated r → r ≠ escapeString (c :: s) ++ r' := by
    intro c s r r' hr heq
    by_cases hc : c = defaultEscapeCharacter
    · subst hc
      rcases hr with rfl | ⟨t, rfl, ht⟩
      · cases heq
      · rw [escapeString_cons_escape] at heq
        have := (List.cons.inj heq).2
        rw [this] at ht
        exact ht rfl
    · rw [escapeString_cons_of_ne hc] at heq
      rcases hr with rfl | ⟨t, rfl, -⟩
      · cases heq
      · exact hc (List.cons.inj heq).1.symm
  induction s generalizing s' with
  | nil =>
    cases s' with
    | nil => exact ⟨rfl, h⟩
    | cons c' s' => exact absurd h (hclash hr)
  | cons c s ih =>
    cases s' with
    | nil => exact absurd h.symm (hclash hr')
    | cons c' s' =>
      by_cases hc : c = defaultEscapeCharacter
      · by_cases hc' : c' = defaultEscapeCharacter
        · subst hc hc'
          rw [escapeString_cons_escape, escapeString_cons_escape] at h
          obtain ⟨rfl, hrest⟩ := ih (List.cons.inj (List.cons.inj h).2).2
          exact ⟨rfl, hrest⟩
        · subst hc
          rw [escapeString_cons_escape, escapeString_cons_of_ne hc'] at h
          exact absurd (List.cons.inj h).1.symm hc'
      · by_cases hc' : c' = defaultEscapeCharacter
        · subst hc'
          rw [escapeString_cons_escape, escapeString_cons_of_ne hc] at h
          exact absurd (List.cons.inj h).1 hc
        · rw [escapeString_cons_of_ne hc, escapeString_cons_of_ne hc'] at h
          obtain ⟨rfl, htail⟩ := List.cons.inj h
          obtain ⟨rfl, hrest⟩ := ih htail
          exact ⟨rfl, hrest⟩

theorem escapeString_of_not_mem {s : Bytes} (h : defaultEscapeCharacter ∉ s) : escapeString s = s := by
  induction s with
  | nil => rfl
  | cons c s ih =>
    obtain ⟨hc, hs⟩ := not_or.mp (List.mem_cons.not.mp h)
    rw [escapeString_cons_of_ne (Ne.symm hc), ih hs]

/-- A padded number and a separator can be told apart. -/
theorem pad_append_inj {num num' : UInt32} {r r' : Bytes} (hr : Separated r) (hr' : Separated r')
    (h : pad num ++ r = pad num' ++ r') : num = num' ∧ r = r' := by
  have hnum : escapeString (pad num) = pad num := escapeString_of_not_mem escape_not_mem_pad
  have hnum' : escapeString (pad num') = pad num' := escapeString_of_not_mem escape_not_mem_pad
  rw [← hnum, ← hnum'] at h
  obtain ⟨hpad, hrest⟩ := escapeString_append_inj hr hr' h
  exact ⟨pad_injective hpad, hrest⟩

/-- **The ids in front of a key, and what follows, can be told apart.** -/
theorem minimumIndexKey_append_inj {table table' : Table} {indexId indexId' : UInt32} {r r' : Bytes}
    (hr : Separated r) (hr' : Separated r')
    (h : minimumIndexKey table indexId ++ r = minimumIndexKey table' indexId' ++ r') :
    table.dbId = table'.dbId ∧ table.id = table'.id ∧ indexId = indexId' ∧ r = r' := by
  have hkey : ∀ (table : Table) (indexId : UInt32) (r : Bytes), minimumIndexKey table indexId ++ r =
      pad table.dbId ++ (defaultEscapeCharacter :: pad table.id ++
        (defaultEscapeCharacter :: pad indexId ++ r)) := by
    intro table indexId r
    simp [minimumIndexKey]
  rw [hkey, hkey] at h
  obtain ⟨hdb, h⟩ := pad_append_inj (separated_pad _ _) (separated_pad _ _) h
  obtain ⟨hid, h⟩ := pad_append_inj (separated_pad _ _) (separated_pad _ _) (List.cons.inj h).2
  obtain ⟨hindex, h⟩ := pad_append_inj hr hr' (List.cons.inj h).2
  exact ⟨hdb, hid, hindex, h⟩

theorem separated_keyParts (columnIds : List UInt32) (values : List ColumnValue) {r : Bytes}
    (hr : Separated r) : Separated (keyParts columnIds values ++ r) := by
  match columnIds, values with
  | [], _ => exact hr
  | _ :: _, [] => exact hr
  | colId :: columnIds, value :: values =>
    have := separated_pad colId (defaultEscapeCharacter :: escapeString value.toString ++
      keyParts columnIds values ++ r)
    simpa [keyParts] using this

/-- **The values of an index and what follows can be told apart.** -/
theorem keyParts_append_inj {columnIds : List UInt32} {values values' : List ColumnValue}
    {r r' : Bytes} (hlen : values.length = columnIds.length) (hlen' : values'.length = columnIds.length)
    (hr : Separated r) (hr' : Separated r')
    (h : keyParts columnIds values ++ r = keyParts columnIds values' ++ r') :
    values.map ColumnValue.toString = values'.map ColumnValue.toString ∧ r = r' := by
  induction columnIds generalizing values values' with
  | nil =>
    rw [List.length_nil, List.length_eq_zero_iff] at hlen hlen'
    subst hlen hlen'
    exact ⟨rfl, h⟩
  | cons colId columnIds ih =>
    obtain ⟨value, values, rfl⟩ := List.exists_cons_of_length_eq_add_one hlen
    obtain ⟨value', values', rfl⟩ := List.exists_cons_of_length_eq_add_one hlen'
    have hrest : escapeString value.toString ++ (keyParts columnIds values ++ r) =
        escapeString value'.toString ++ (keyParts columnIds values' ++ r') := by
      simpa [keyParts] using h
    obtain ⟨hvalue, hrest⟩ := escapeString_append_inj (separated_keyParts _ _ hr)
      (separated_keyParts _ _ hr') hrest
    obtain ⟨hvalues, hr⟩ := ih (Nat.succ.inj hlen) (Nat.succ.inj hlen') hrest
    exact ⟨by rw [List.map_cons, List.map_cons, hvalue, hvalues], hr⟩

theorem keyParts_append {columnIds columnIds' : List UInt32} {values values' : List ColumnValue}
    (hlen : values.length = columnIds.length) :
    keyParts columnIds values ++ keyParts columnIds' values' =
      keyParts (columnIds ++ columnIds') (values ++ values') := by
  induction columnIds generalizing values with
  | nil =>
    rw [List.length_nil, List.length_eq_zero_iff] at hlen
    subst hlen
    rfl
  | cons colId columnIds ih =>
    obtain ⟨value, values, rfl⟩ := List.exists_cons_of_length_eq_add_one hlen
    have := ih (Nat.succ.inj hlen)
    simp [keyParts, ← this]

/-- **No primary key ends inside the column id of another row's key.** -/
theorem keyParts_prefix {columnIds : List UInt32} {values values' : List ColumnValue} {colId : UInt32}
    (hlen : values.length = columnIds.length) (hlen' : values'.length = columnIds.length)
    (h : keyParts columnIds values <+:
      keyParts columnIds values' ++ defaultEscapeCharacter :: pad colId) :
    keyParts columnIds values <+: keyParts columnIds values' := by
  rcases List.prefix_or_prefix_of_prefix h (List.prefix_append _ _) with h' | ⟨u, hu⟩
  · exact h'
  · rw [← hu, List.prefix_append_right_inj] at h
    cases u with
    | nil =>
      rw [List.append_nil] at hu
      exact hu ▸ List.prefix_rfl
    | cons c u =>
      obtain ⟨rfl, hpad⟩ := List.cons_prefix_cons.mp h
      have hsep : Separated (defaultEscapeCharacter :: u) :=
        separated_of_not_mem fun hmem => escape_not_mem_pad (hpad.subset hmem)
      have := (keyParts_append_inj hlen' hlen hsep separated_nil (by rw [hu, List.append_nil])).2
      cases this

/-! ## What the parser reads -/

theorem parse_cons_of_ne {c : Char} (h : c ≠ defaultEscapeCharacter) (s : Bytes) :
    parse (c :: s) = (c :: (parse s).1, (parse s).2) := by
  cases s with
  | nil =>
    show (if c ≠ defaultEscapeCharacter then ([c], []) else ([], [])) = ([c], ([] : Bytes))
    rw [if_pos h]
  | cons d s => rw [parse, if_pos h]

theorem parse_escape_escape (s : Bytes) :
    parse (defaultEscapeCharacter :: defaultEscapeCharacter :: s) =
      (defaultEscapeCharacter :: (parse s).1, (parse s).2) := by
  rw [parse, if_neg (by simp), if_pos rfl]

theorem parse_separated {r : Bytes} (h : Separated r) : parse r = ([], r.tail) := by
  rcases h with rfl | ⟨t, rfl, ht⟩
  · rfl
  · cases t with
    | nil => rfl
    | cons d t =>
      have hd : d ≠ defaultEscapeCharacter := fun hd => ht (by rw [hd, List.head?_cons])
      rw [parse, if_neg (by simp), if_neg hd, List.tail_cons]

/-- **An escaped string in front of a separator is read back.** -/
theorem parse_escapeString (s : Bytes) {r : Bytes} (hr : Separated r) :
    parse (escapeString s ++ r) = (s, r.tail) := by
  induction s with
  | nil => exact parse_separated hr
  | cons c s ih =>
    by_cases hc : c = defaultEscapeCharacter
    · subst hc
      rw [escapeString_cons_escape, List.cons_append, List.cons_append, parse_escape_escape, ih]
    · rw [escapeString_cons_of_ne hc, List.cons_append, parse_cons_of_ne hc, ih]

theorem parse_pad (num : UInt32) {r : Bytes} (hr : Separated r) :
    parse (pad num ++ r) = (pad num, r.tail) := by
  have := parse_escapeString (pad num) hr
  rwa [escapeString_of_not_mem escape_not_mem_pad] at this

/-- A value that the parser does not swallow: not all of it is escape characters. -/
def Legible (value : Bytes) : Prop := ∃ c ∈ value, c ≠ defaultEscapeCharacter

instance (value : Bytes) : Decidable (Legible value) :=
  List.decidableBEx (· ≠ defaultEscapeCharacter) value

/-- A separator in front of doubled escape characters is one behind them. -/
theorem escape_cons_replicate (k : Nat) (s : Bytes) :
    defaultEscapeCharacter :: (escapeString (List.replicate k defaultEscapeCharacter) ++ s) =
      escapeString (List.replicate k defaultEscapeCharacter) ++ defaultEscapeCharacter :: s := by
  induction k with
  | zero => rfl
  | succ k ih =>
    rw [List.replicate_succ, escapeString_cons_escape, List.cons_append, List.cons_append, ih]
    rfl

/-- A value without the escape characters it begins with. -/
def stripped (value : Bytes) : Bytes := value.dropWhile (· = defaultEscapeCharacter)

theorem Legible.stripped_ne_nil {value : Bytes} (h : Legible value) : stripped value ≠ [] := by
  obtain ⟨c, hc, hne⟩ := h
  rw [stripped, Ne, List.dropWhile_eq_nil_iff]
  intro hall
  exact hne (by simpa using hall c hc)

theorem head?_stripped (value : Bytes) : (stripped value).head? ≠ some defaultEscapeCharacter := by
  intro hhead
  have := List.head?_dropWhile_not (· = defaultEscapeCharacter) value
  rw [show value.dropWhile _ = stripped value from rfl, hhead] at this
  simp at this

theorem eq_replicate_append_stripped (value : Bytes) :
    ∃ k, value = List.replicate k defaultEscapeCharacter ++ stripped value := by
  refine ⟨(value.takeWhile (· = defaultEscapeCharacter)).length, ?_⟩
  have hreplicate : value.takeWhile (· = defaultEscapeCharacter) =
      List.replicate (value.takeWhile (· = defaultEscapeCharacter)).length defaultEscapeCharacter := by
    rw [List.eq_replicate_iff]
    exact ⟨rfl, fun c hc => by simpa using List.mem_takeWhile_imp hc⟩
  rw [← hreplicate, stripped, List.takeWhile_append_dropWhile]

/-- **Two tokens for a column of the index.** The first one has the escape characters the value
begins with, the second one the rest of it. -/
theorem parse_part {value : Bytes} (hvalue : Legible value) (colId : UInt32) {r : Bytes}
    (hr : Separated r) :
    ∃ token,
      parse (pad colId ++ defaultEscapeCharacter :: escapeString value ++ r) =
        (token, escapeString (stripped value) ++ r) ∧
      parse (escapeString (stripped value) ++ r) = (stripped value, r.tail) := by
  obtain ⟨k, hk⟩ := eq_replicate_append_stripped value
  have hne := hvalue.stripped_ne_nil
  have hhead := head?_stripped value
  refine ⟨pad colId ++ List.replicate k defaultEscapeCharacter, ?_, parse_escapeString _ hr⟩
  generalize stripped value = s at hk hne hhead
  subst hk
  have hsep : Separated (defaultEscapeCharacter :: (escapeString s ++ r)) := by
    refine .inr ⟨_, rfl, ?_⟩
    cases s with
    | nil => exact absurd rfl hne
    | cons c s =>
      have hc : c ≠ defaultEscapeCharacter := fun hc => hhead (by rw [hc, List.head?_cons])
      rw [escapeString_cons_of_ne hc]
      simpa using hc
  have htext : pad colId ++
      defaultEscapeCharacter :: escapeString (List.replicate k defaultEscapeCharacter ++ s) ++ r =
      escapeString (pad colId ++ List.replicate k defaultEscapeCharacter) ++
        defaultEscapeCharacter :: (escapeString s ++ r) := by
    rw [escapeString_append, escapeString_append, escapeString_of_not_mem escape_not_mem_pad,
      List.append_assoc, List.append_assoc, List.cons_append, List.append_assoc,
      escape_cons_replicate]
  rw [htext]
  exact parse_escapeString _ hsep

/-- A token takes something off the key. -/
theorem length_parse (s : Bytes) : (parse s).2.length ≤ s.length - 1 := by
  fun_induction parse s with
  | case1 => simp
  | case2 c hc => simp
  | case3 c hc => simp
  | case4 c d str hc ih =>
    simp only [List.length_cons] at ih ⊢
    omega
  | case5 c str hc ih =>
    simp only [List.length_cons]
    omega
  | case6 c d str hc hd => simp

theorem tokens_of_le {fuel : Nat} {key : Bytes} (h : key.length ≤ fuel) :
    tokens fuel key = tokens key.length key := by
  induction fuel using Nat.strong_induction_on generalizing key with
  | _ fuel ih =>
    cases key with
    | nil => cases fuel <;> rfl
    | cons c key =>
      have hparse : (parse (c :: key)).2.length ≤ key.length := length_parse (c :: key)
      cases fuel with
      | zero => cases h
      | succ fuel =>
        have hfuel : key.length ≤ fuel := Nat.le_of_succ_le_succ h
        rw [List.length_cons, tokens, tokens, ih fuel (Nat.lt_succ_self _) (le_trans hparse hfuel),
          ih key.length (Nat.lt_succ_of_le hfuel) hparse]

/-- The loop takes the first token off the key. -/
theorem parseLoop_of_ne_nil (table : Table) (s : ParseState) {key : Bytes} (h : key ≠ []) :
    parseLoop table s key =
      (parseToken table s (parse key).1 >>= fun s' => parseLoop table s' (parse key).2) := by
  obtain ⟨c, rest, rfl⟩ := List.exists_cons_of_ne_nil h
  unfold parseLoop
  have hparse : (parse (c :: rest)).2.length ≤ rest.length := length_parse (c :: rest)
  rw [List.length_cons, tokens, List.foldlM_cons, tokens_of_le hparse]

/-- Before the parts of column `i` of the primary key. A primary index whose id is not 0 is read as
a secondary one without columns, and the first token of its first part ends that. -/
def AtPart (s : ParseState) (i : Nat) : Prop :=
  s.indexKeyPartsColId = true ∧
    ((s.current = .primaryKeyParts ∧
        ∃ index, s.keyFragments.primaryIndex = some index ∧ index.values.length = i) ∨
      (s.current = .secondaryIndexKeyParts ∧ s.secondaryIndex = [] ∧ i = 0 ∧
        ∃ index, s.keyFragments.secondaryIndex = some index ∧ index.values = []))

section part

variable (table : Table) {s : ParseState} {index : KeyFragments.Index} {i : Nat}

theorem parseToken_primaryKeyParts (hs : s.current = .primaryKeyParts)
    (hindex : s.keyFragments.primaryIndex = some index) (token : Bytes) :
    parseToken table s token = .ok { s with
      keyFragments := { s.keyFragments with
        primaryIndex := some (index.push s.indexKeyPartsColId token) }
      indexKeyPartsColId := !s.indexKeyPartsColId
      current :=
        if (index.push s.indexKeyPartsColId token).values.length =
            table.primaryKeyIndex.columnIds.length then .colId
        else .primaryKeyParts } := by
  unfold parseToken
  simp only [hs, hindex]

/-- The value of column `i`, after its id. -/
theorem parseToken_value (hs : s.current = .primaryKeyParts) (hflag : s.indexKeyPartsColId = false)
    (hindex : s.keyFragments.primaryIndex = some index) (token : Bytes) :
    ∃ s', parseToken table s token = .ok s' ∧ s'.keyFragments.colId = s.keyFragments.colId ∧
      (index.values.length + 1 = table.primaryKeyIndex.columnIds.length → s'.current = .colId) ∧
      (index.values.length + 1 ≠ table.primaryKeyIndex.columnIds.length →
        AtPart s' (index.values.length + 1)) := by
  have hlength : (index.push false token).values.length = index.values.length + 1 := by
    simp [KeyFragments.Index.push]
  refine ⟨_, parseToken_primaryKeyParts table hs hindex token, rfl, fun hlast => ?_, fun hmore => ?_⟩
  · dsimp only
    rw [hflag, hlength, if_pos hlast]
  · refine ⟨by simp [hflag], .inl ⟨?_, _, rfl, ?_⟩⟩
    · dsimp only
      rw [hflag, hlength, if_neg hmore]
    · rw [hflag, hlength]

/-- The two tokens of a part. -/
theorem AtPart.parseToken (h : AtPart s i) (hi : i < table.primaryKeyIndex.columnIds.length)
    (token token' : Bytes) :
    ∃ s₁ s', KeySerializer.parseToken table s token = .ok s₁ ∧
      KeySerializer.parseToken table s₁ token' = .ok s' ∧
      s'.keyFragments.colId = s.keyFragments.colId ∧
      (i + 1 = table.primaryKeyIndex.columnIds.length → s'.current = .colId) ∧
      (i + 1 ≠ table.primaryKeyIndex.columnIds.length → AtPart s' (i + 1)) := by
  obtain ⟨hflag, ⟨hs, index, hindex, rfl⟩ | ⟨hs, hnone, rfl, index, hindex, hvalues⟩⟩ := h
  · -- the id is not kept, and the value is
    have hpush : index.push true token = index := rfl
    have hfirst := parseToken_primaryKeyParts table hs hindex token
    rw [hflag, hpush, if_neg hi.ne] at hfirst
    obtain ⟨s', hsecond, hcolId, hlast, hmore⟩ :=
      parseToken_value table (s := { s with
        keyFragments := { s.keyFragments with primaryIndex := some index }
        indexKeyPartsColId := !true
        current := .primaryKeyParts }) rfl rfl rfl token'
    exact ⟨_, s', hfirst, hsecond, hcolId, hlast, hmore⟩
  · have hpush : index.push true token = index := rfl
    have hfirst : KeySerializer.parseToken table s token = .ok { s with
        keyFragments := { s.keyFragments with
          secondaryIndex := some index
          primaryIndex := some { indexId := 0 } }
        indexKeyPartsColId := false
        current := .primaryKeyParts } := by
      unfold KeySerializer.parseToken
      simp [hs, hindex, hflag, hpush, hnone, hvalues]
    obtain ⟨s', hsecond, hcolId, hlast, hmore⟩ :=
      parseToken_value table (s := { s with
        keyFragments := { s.keyFragments with
          secondaryIndex := some index
          primaryIndex := some { indexId := 0 } }
        indexKeyPartsColId := false
        current := .primaryKeyParts }) rfl rfl rfl token'
    exact ⟨_, s', hfirst, hsecond, hcolId, hlast, hmore⟩

/-- **All parts.** -/
theorem AtPart.parseLoop (h : AtPart s i) {columnIds : List UInt32} {values : List ColumnValue}
    (hne : columnIds ≠ []) (hlen : values.length = columnIds.length)
    (hi : i + columnIds.length = table.primaryKeyIndex.columnIds.length)
    (hlegible : ∀ value ∈ values, Legible value.toString) {r : Bytes} (hr : Separated r) :
    ∃ s', s'.current = .colId ∧ s'.keyFragments.colId = s.keyFragments.colId ∧
      KeySerializer.parseLoop table s (keyParts columnIds values ++ r).tail =
        KeySerializer.parseLoop table s' r.tail := by
  induction columnIds generalizing s i values with
  | nil => exact absurd rfl hne
  | cons colId columnIds ih =>
    obtain ⟨value, values, rfl⟩ := List.exists_cons_of_length_eq_add_one hlen
    rw [List.length_cons] at hi
    have hr' : Separated (keyParts columnIds values ++ r) := separated_keyParts _ _ hr
    have hvalue := hlegible value List.mem_cons_self
    obtain ⟨token, hfirst, hsecond⟩ := parse_part hvalue colId hr'
    obtain ⟨s₁, s', hstep, hstep', hcolId, hlast, hmore⟩ :=
      h.parseToken table (by omega) token (stripped value.toString)
    have hne₁ : pad colId ++ defaultEscapeCharacter :: escapeString value.toString ++
        (keyParts columnIds values ++ r) ≠ [] := by
      simp
    have hne₂ : escapeString (stripped value.toString) ++ (keyParts columnIds values ++ r) ≠ [] := by
      simp [escapeString_ne_nil hvalue.stripped_ne_nil]
    have hloop : KeySerializer.parseLoop table s
        (keyParts (colId :: columnIds) (value :: values) ++ r).tail =
        KeySerializer.parseLoop table s' (keyParts columnIds values ++ r).tail := by
      have hkey : (keyParts (colId :: columnIds) (value :: values) ++ r).tail =
          pad colId ++ defaultEscapeCharacter :: escapeString value.toString ++
            (keyParts columnIds values ++ r) := by
        simp [keyParts]
      rw [hkey, parseLoop_of_ne_nil table s hne₁, hfirst]
      dsimp only
      rw [hstep]
      show KeySerializer.parseLoop table s₁ _ = _
      rw [parseLoop_of_ne_nil table s₁ hne₂, hsecond]
      dsimp only
      rw [hstep']
      rfl
    rw [hloop, ← hcolId]
    by_cases hcolumns : columnIds = []
    · subst hcolumns
      exact ⟨s', hlast (by simpa using hi), rfl, rfl⟩
    · have hpos : 0 < columnIds.length := List.length_pos_iff.mpr hcolumns
      exact ih (hmore (by omega)) hcolumns (Nat.succ.inj hlen) (by omega)
        fun v hv => hlegible v (List.mem_cons_of_mem _ hv)

end part

/-- The index of the primary key is not a secondary one, and it has columns. -/
structure OwnIndex (table : Table) : Prop where
  columnIds_ne : table.primaryKeyIndex.columnIds ≠ []
  id_ne : ∀ index ∈ table.secondaryIndex, index.id ≠ table.primaryKeyIndex.id

/-- One padded number off the front. -/
theorem parseLoop_pad (table : Table) (s : ParseState) (num : UInt32) {r : Bytes} (hr : Separated r) :
    parseLoop table s (pad num ++ r) =
      (parseToken table s (pad num) >>= fun s' => parseLoop table s' r.tail) := by
  have hne : pad num ++ r ≠ [] := by simp [pad_ne_nil]
  rw [parseLoop_of_ne_nil table s hne, parse_pad num hr]

/-- Up to the id of the index. -/
theorem parseLoop_ids (table : Table) (indexId : UInt32) {r : Bytes} (hr : Separated r) :
    parseLoop table {} (minimumIndexKey table indexId ++ r) =
      (parseToken table
        { current := .indexId, keyFragments := { dbId := table.dbId, tableId := table.id } }
        (pad indexId) >>= fun s => parseLoop table s r.tail) := by
  have hkey : minimumIndexKey table indexId ++ r =
      pad table.dbId ++ (defaultEscapeCharacter :: pad table.id ++
        (defaultEscapeCharacter :: pad indexId ++ r)) := by
    simp [minimumIndexKey]
  have htblId : parseToken table {} (pad table.dbId) =
      .ok { current := .tblId, keyFragments := { dbId := table.dbId } } := by
    simp [parseToken]
  have hindexId : parseToken table { current := .tblId, keyFragments := { dbId := table.dbId } }
      (pad table.id) = .ok
        { current := .indexId, keyFragments := { dbId := table.dbId, tableId := table.id } } := by
    simp [parseToken]
  rw [hkey, parseLoop_pad table _ _ (separated_pad _ _), htblId]
  show parseLoop table _ (pad table.id ++ (defaultEscapeCharacter :: pad indexId ++ r)) = _
  rw [parseLoop_pad table _ _ (separated_pad _ _), hindexId]
  exact parseLoop_pad table _ _ hr

/-- The three ids lead to the first part. -/
theorem parseLoop_minimumIndexKey {table : Table} (htable : OwnIndex table) {r : Bytes}
    (hr : Separated r) :
    ∃ s, AtPart s 0 ∧ s.keyFragments.colId = none ∧
      parseLoop table {} (minimumIndexKey table table.primaryKeyIndex.id ++ r) =
        parseLoop table s r.tail := by
  rw [parseLoop_ids table _ hr]
  by_cases hzero : table.primaryKeyIndex.id = 0
  · refine ⟨{ current := .primaryKeyParts
              keyFragments := { dbId := table.dbId, tableId := table.id,
                                primaryIndex := some { indexId := table.primaryKeyIndex.id } } },
      ⟨rfl, .inl ⟨rfl, _, rfl, rfl⟩⟩, rfl, ?_⟩
    simp only [parseToken, toUInt32_pad, hzero]
    rfl
  · have hfind : table.secondaryIndex.find? (·.id = table.primaryKeyIndex.id) = none := by
      rw [List.find?_eq_none]
      intro index hindex
      simpa using htable.id_ne index hindex
    refine ⟨{ current := .secondaryIndexKeyParts
              keyFragments := { dbId := table.dbId, tableId := table.id,
                                secondaryIndex := some { indexId := table.primaryKeyIndex.id } } },
      ⟨rfl, .inr ⟨rfl, rfl, rfl, _, rfl, rfl⟩⟩, rfl, ?_⟩
    have hstep : parseToken table
        { current := .indexId, keyFragments := { dbId := table.dbId, tableId := table.id } }
        (pad table.primaryKeyIndex.id) = .ok
          { current := .secondaryIndexKeyParts
            keyFragments := { dbId := table.dbId, tableId := table.id,
                              secondaryIndex := some { indexId := table.primaryKeyIndex.id } } } := by
      simp only [parseToken, toUInt32_pad]
      show (if table.primaryKeyIndex.id = 0 then _ else _) = _
      rw [if_neg hzero, hfind]
      rfl
    rw [hstep]
    rfl

/-- A primary key is read up to its end. -/
theorem parseLoop_primaryKey {table : Table} (htable : OwnIndex table) {values : List ColumnValue}
    {key : Bytes} (hkey : primaryKey table values = .ok key)
    (hlegible : ∀ value ∈ values, Legible value.toString) {r : Bytes} (hr : Separated r) :
    ∃ s, s.current = .colId ∧ s.keyFragments.colId = none ∧
      parseLoop table {} (key ++ r) = parseLoop table s r.tail := by
  unfold primaryKey at hkey
  split at hkey
  · rename_i hlen
    cases hkey
    have hparts := separated_keyParts table.primaryKeyIndex.columnIds values hr
    obtain ⟨s, hat, hnone, hloop⟩ := parseLoop_minimumIndexKey htable hparts
    obtain ⟨s', hcurrent, hcolId, hloop'⟩ := hat.parseLoop table htable.columnIds_ne hlen.symm
      (Nat.zero_add _) hlegible hr
    refine ⟨s', hcurrent, hcolId.trans hnone, ?_⟩
    rw [List.append_assoc, hloop, hloop']
  · cases hkey

/-- The last token is the column id. -/
theorem parseLoop_colId (table : Table) {s : ParseState} (hs : s.current = .colId) (colId : UInt32) :
    parseLoop table s (pad colId) =
      .ok { s with keyFragments := { s.keyFragments with colId := some colId } } := by
  have h := parseLoop_pad table s colId separated_nil
  rw [List.append_nil] at h
  rw [h, parseToken, hs]
  simp only [toUInt32_pad]
  rfl

/-- **The column id of a column's key is read back.** -/
theorem parseKey_columnKey {table : Table} (htable : OwnIndex table) {values : List ColumnValue}
    {key : Bytes} (hkey : primaryKey table values = .ok key)
    (hlegible : ∀ value ∈ values, Legible value.toString) (colId : UInt32) :
    ∃ fragments, parseKey table (columnKey key colId) = .ok fragments ∧
      fragments.colId = some colId := by
  have hsep : Separated (defaultEscapeCharacter :: pad colId) :=
    separated_of_not_mem escape_not_mem_pad
  obtain ⟨s, hcurrent, -, hloop⟩ := parseLoop_primaryKey htable hkey hlegible hsep
  unfold parseKey columnKey
  rw [hloop, List.tail_cons, parseLoop_colId table hcurrent]
  exact ⟨_, rfl, rfl⟩

/-- A primary key has no column id. -/
theorem parseKey_primaryKey {table : Table} (htable : OwnIndex table) {values : List ColumnValue}
    {key : Bytes} (hkey : primaryKey table values = .ok key)
    (hlegible : ∀ value ∈ values, Legible value.toString) :
    ∃ fragments, parseKey table key = .ok fragments ∧ fragments.colId = none := by
  obtain ⟨s, -, hnone, hloop⟩ := parseLoop_primaryKey htable hkey hlegible separated_nil
  rw [List.append_nil] at hloop
  unfold parseKey
  rw [hloop]
  exact ⟨_, rfl, hnone⟩

end KeySerializer

end ReplicatedCounter.MyDb
