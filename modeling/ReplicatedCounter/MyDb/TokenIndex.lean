import ReplicatedCounter.MyDb.KeyTokens

/-!
# The index of the parser

`parse` takes the index of its caller and moves it along, one character at a time or two where an
escape character is doubled, and over the separator at the end. `KeySerializer.parse` hands back
what is left of the key instead. The two say the same (`parseAt_eq`), and so do the loop of `parseKey`
over the index and the tokens of a key (`parseLoop_eq_tokensAt`).

The escape character is a parameter of `escapeString` and of `parse`; the keys are built and taken
apart with the default one.
-/

set_option autoImplicit false

namespace ReplicatedCounter.MyDb

namespace KeySerializer

/-- `escapeString`, with its second parameter. -/
def escapeStringWith (input : Bytes) (escapeCharacter : Char) : Bytes :=
  input.flatMap fun c => if c = escapeCharacter then [escapeCharacter, escapeCharacter] else [c]

/-- `parse`, with the index where it stops. -/
def parseAt (str : Bytes) (startIndex : Nat) (escapeCharacter : Char) : Bytes × Nat :=
  match h : str[startIndex]? with
  | none => ([], startIndex)
  | some c =>
    have := (List.getElem?_eq_some_iff.mp h).1
    if c ≠ escapeCharacter then
      let (token, i) := parseAt str (startIndex + 1) escapeCharacter
      (c :: token, i)
    else if str[startIndex + 1]? = some escapeCharacter then
      let (token, i) := parseAt str (startIndex + 2) escapeCharacter
      (escapeCharacter :: token, i)
    else
      ([], startIndex + 1)
termination_by str.length - startIndex

/-- Nothing, or one escape character that is not followed by another one. -/
def SeparatedBy (r : Bytes) (escapeCharacter : Char) : Prop :=
  r = [] ∨ ∃ t, r = escapeCharacter :: t ∧ t.head? ≠ some escapeCharacter

variable {str s r : Bytes} {i : Nat} {c escapeCharacter : Char}

theorem escapeStringWith_default (s : Bytes) :
    escapeStringWith s defaultEscapeCharacter = escapeString s := rfl

theorem escapeStringWith_cons_escape (s : Bytes) :
    escapeStringWith (escapeCharacter :: s) escapeCharacter =
      escapeCharacter :: escapeCharacter :: escapeStringWith s escapeCharacter := by
  unfold escapeStringWith
  rw [List.flatMap_cons, if_pos rfl]
  rfl

theorem escapeStringWith_cons_of_ne (h : c ≠ escapeCharacter) (s : Bytes) :
    escapeStringWith (c :: s) escapeCharacter = c :: escapeStringWith s escapeCharacter := by
  unfold escapeStringWith
  rw [List.flatMap_cons, if_neg h]
  rfl

/-! ## The loop at the front of a string -/

theorem parseAt_of_none (h : str[i]? = none) : parseAt str i escapeCharacter = ([], i) := by
  rw [parseAt]
  split
  · rfl
  · rename_i c hc
    rw [h] at hc
    cases hc

theorem parseAt_of_some (h : str[i]? = some c) : parseAt str i escapeCharacter =
    if c ≠ escapeCharacter then
      (c :: (parseAt str (i + 1) escapeCharacter).1, (parseAt str (i + 1) escapeCharacter).2)
    else if str[i + 1]? = some escapeCharacter then
      (escapeCharacter :: (parseAt str (i + 2) escapeCharacter).1,
        (parseAt str (i + 2) escapeCharacter).2)
    else
      ([], i + 1) := by
  rw [parseAt]
  split
  · rename_i hnone
    rw [h] at hnone
    cases hnone
  · rename_i c' hc
    obtain rfl := Option.some.inj (h.symm.trans hc)
    rfl

/-- **The loop looks at nothing in front of its index.** -/
theorem parseAt_cons (c : Char) (str : Bytes) (i : Nat) (escapeCharacter : Char) :
    parseAt (c :: str) (i + 1) escapeCharacter =
      ((parseAt str i escapeCharacter).1, (parseAt str i escapeCharacter).2 + 1) := by
  induction hleft : str.length - i using Nat.strong_induction_on generalizing i with
  | _ left ih =>
    subst hleft
    have hget : (c :: str)[i + 1]? = str[i]? := List.getElem?_cons_succ
    have hnext : (c :: str)[i + 1 + 1]? = str[i + 1]? := List.getElem?_cons_succ
    cases hd : str[i]? with
    | none =>
      rw [hd] at hget
      rw [parseAt_of_none hget, parseAt_of_none hd]
    | some d =>
      have hlt := (List.getElem?_eq_some_iff.mp hd).1
      rw [hd] at hget
      rw [parseAt_of_some hget, parseAt_of_some hd, hnext, ih _ (by omega) (i + 1) rfl,
        ih _ (by omega) (i + 2) rfl]
      split
      · rfl
      · split <;> rfl

theorem parseAt_nil (escapeCharacter : Char) : parseAt [] 0 escapeCharacter = ([], 0) :=
  parseAt_of_none rfl

theorem parseAt_cons_of_ne (h : c ≠ escapeCharacter) (str : Bytes) :
    parseAt (c :: str) 0 escapeCharacter =
      (c :: (parseAt str 0 escapeCharacter).1, (parseAt str 0 escapeCharacter).2 + 1) := by
  rw [parseAt_of_some rfl, if_pos h, parseAt_cons]

theorem parseAt_escape_escape (escapeCharacter : Char) (str : Bytes) :
    parseAt (escapeCharacter :: escapeCharacter :: str) 0 escapeCharacter =
      (escapeCharacter :: (parseAt str 0 escapeCharacter).1,
        (parseAt str 0 escapeCharacter).2 + 2) := by
  have hnext : (escapeCharacter :: escapeCharacter :: str)[0 + 1]? = some escapeCharacter := rfl
  rw [parseAt_of_some rfl, if_neg (not_not.mpr rfl), if_pos hnext, parseAt_cons, parseAt_cons]

theorem parseAt_separator (h : str.head? ≠ some escapeCharacter) :
    parseAt (escapeCharacter :: str) 0 escapeCharacter = ([], 1) := by
  have hnext : (escapeCharacter :: str)[0 + 1]? = str.head? := by
    rw [List.getElem?_cons_succ, List.head?_eq_getElem?]
  rw [parseAt_of_some rfl, if_neg (not_not.mpr rfl), hnext, if_neg h]

/-- A token begins wherever the index is. -/
theorem parseAt_of_drop (str : Bytes) (hi : i ≤ str.length) (escapeCharacter : Char) :
    parseAt str i escapeCharacter = ((parseAt (str.drop i) 0 escapeCharacter).1,
      (parseAt (str.drop i) 0 escapeCharacter).2 + i) := by
  induction i generalizing str with
  | zero => rfl
  | succ i ih =>
    cases str with
    | nil => exact absurd hi (Nat.not_succ_le_zero i)
    | cons c str =>
      rw [parseAt_cons, ih str (Nat.le_of_succ_le_succ hi), List.drop_succ_cons]
      rfl

/-! ## Reading back -/

/-- **An escaped string is read back**, and the index is left at its end, or behind the separator
that follows. A run of escape characters is taken apart in pairs from its beginning, so the one that
is left over is the separator. -/
theorem parse_escape_roundtrip (s r : Bytes) (escapeCharacter : Char)
    (hr : SeparatedBy r escapeCharacter) :
    parseAt (escapeStringWith s escapeCharacter ++ r) 0 escapeCharacter =
      (s, if r = [] then (escapeStringWith s escapeCharacter).length
        else (escapeStringWith s escapeCharacter).length + 1) := by
  induction s with
  | nil =>
    rcases hr with rfl | ⟨t, rfl, ht⟩
    · exact parseAt_nil escapeCharacter
    · rw [if_neg (List.cons_ne_nil _ _)]
      exact parseAt_separator ht
  | cons c s ih =>
    by_cases hc : c = escapeCharacter
    · subst hc
      rw [escapeStringWith_cons_escape, List.cons_append, List.cons_append, parseAt_escape_escape, ih]
      split <;> rfl
    · rw [escapeStringWith_cons_of_ne hc, List.cons_append, parseAt_cons_of_ne hc, ih]
      split <;> rfl

/-- A string that ends in the escape character, in front of a separator. -/
theorem parse_escape_roundtrip_slashes :
    parseAt (escapeString "a//".toList ++ "/1".toList) 0 defaultEscapeCharacter =
      ("a//".toList, 6) :=
  parse_escape_roundtrip "a//".toList "/1".toList defaultEscapeCharacter (.inr ⟨['1'], rfl, by decide⟩)

/-! ## What is left of the key -/

theorem parseAt_zero (str : Bytes) :
    (parseAt str 0 defaultEscapeCharacter).1 = (parse str).1 ∧
      str.drop (parseAt str 0 defaultEscapeCharacter).2 = (parse str).2 := by
  induction hlength : str.length using Nat.strong_induction_on generalizing str with
  | _ n ih =>
    subst hlength
    cases str with
    | nil =>
      rw [parseAt_nil]
      exact ⟨rfl, rfl⟩
    | cons c str =>
      by_cases hc : c = defaultEscapeCharacter
      · subst hc
        by_cases hd : str.head? = some defaultEscapeCharacter
        · obtain ⟨str, rfl⟩ := List.head?_eq_some_iff.mp hd
          have hless : str.length < (defaultEscapeCharacter :: defaultEscapeCharacter :: str).length := by
            rw [List.length_cons, List.length_cons]
            omega
          obtain ⟨htoken, hrest⟩ := ih str.length hless str rfl
          rw [parseAt_escape_escape, parse_escape_escape]
          exact ⟨congrArg _ htoken, hrest⟩
        · rw [parseAt_separator hd, parse_separated (.inr ⟨str, rfl, hd⟩)]
          exact ⟨rfl, rfl⟩
      · obtain ⟨htoken, hrest⟩ := ih str.length (Nat.lt_succ_self _) str rfl
        rw [parseAt_cons_of_ne hc, parse_cons_of_ne hc]
        exact ⟨congrArg _ htoken, hrest⟩

/-- **The index and what is left of the key say the same.** -/
theorem parseAt_eq (str : Bytes) (hi : i ≤ str.length) :
    (parseAt str i defaultEscapeCharacter).1 = (parse (str.drop i)).1 ∧
      str.drop (parseAt str i defaultEscapeCharacter).2 = (parse (str.drop i)).2 := by
  obtain ⟨htoken, hrest⟩ := parseAt_zero (str.drop i)
  rw [parseAt_of_drop str hi]
  refine ⟨htoken, ?_⟩
  rw [← hrest, List.drop_drop, Nat.add_comm]

/-- The loop of `parseKey` gets on. -/
theorem lt_parseAt (escapeCharacter : Char) (hi : i < str.length) :
    i < (parseAt str i escapeCharacter).2 := by
  induction hleft : str.length - i using Nat.strong_induction_on generalizing i with
  | _ left ih =>
    subst hleft
    have hle : ∀ j, i < j → j ≤ (parseAt str j escapeCharacter).2 := by
      intro j hj
      by_cases hlt : j < str.length
      · exact (ih _ (by omega) hlt rfl).le
      · rw [parseAt_of_none (List.getElem?_eq_none (not_lt.mp hlt))]
    rw [parseAt_of_some (List.getElem?_eq_getElem hi)]
    split
    · exact hle (i + 1) (Nat.lt_succ_self i)
    · split
      · exact (Nat.lt_succ_self i).trans_le ((Nat.le_succ _).trans (hle (i + 2) (by omega)))
      · exact Nat.lt_succ_self i

/-- The tokens that the loop of `parseKey` takes, with its index. -/
def tokensAt (key : Bytes) (i : Nat) : List Bytes :=
  if h : i < key.length then
    have := lt_parseAt defaultEscapeCharacter h
    (parseAt key i defaultEscapeCharacter).1 ::
      tokensAt key (parseAt key i defaultEscapeCharacter).2
  else
    []
termination_by key.length - i

theorem tokensAt_eq (key : Bytes) (i : Nat) : tokensAt key i = tokenize (key.drop i) := by
  induction hleft : key.length - i using Nat.strong_induction_on generalizing i with
  | _ left ih =>
    subst hleft
    unfold tokensAt
    split
    · rename_i hlt
      have hgets := lt_parseAt defaultEscapeCharacter hlt
      obtain ⟨htoken, hrest⟩ := parseAt_eq key hlt.le
      have hne : key.drop i ≠ [] := by
        rw [ne_eq, List.drop_eq_nil_iff]
        omega
      rw [ih _ (by omega) _ rfl, hrest, htoken, tokenize_of_ne_nil hne]
    · rename_i hle
      rw [List.drop_of_length_le (not_lt.mp hle), tokenize_nil]

/-- **The loop of `parseKey`**, over the index. -/
theorem parseLoop_eq_tokensAt (table : Table) (s : ParseState) (key : Bytes) :
    parseLoop table s key = (tokensAt key 0).foldlM (parseToken table) s := by
  rw [parseLoop_eq, tokensAt_eq, List.drop_zero]

end KeySerializer

end ReplicatedCounter.MyDb
