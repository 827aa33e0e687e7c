import Mathlib.Order.Lattice
import Mathlib.Tactic.Common

/-!
# Ordered maps as sorted lists

`std::map` in the small: a list of entries with strictly increasing keys. The order is carried as
a field, so two maps with the same content are equal, iteration is the list itself, and `rbegin`
is its last entry.

`find?_insert` and `find?_erase` are the two equations most proofs use; `find?_eq_some` turns a
lookup into membership where a statement is about all entries at once.
-/

set_option autoImplicit false

variable {K V : Type*} [LinearOrder K]

/-- A map with its entries in the order of their keys. -/
structure SortedMap (K V : Type*) [LinearOrder K] where
  entries : List (K × V)
  sorted : entries.Pairwise (·.1 < ·.1)

namespace SortedMap

/-- The value under a key. -/
def find? (m : SortedMap K V) (k : K) : Option V := (m.entries.find? (·.1 = k)).map (·.2)

/-- The entry with the greatest key (`rbegin`). -/
def last? (m : SortedMap K V) : Option (K × V) := m.entries.getLast?

def empty : SortedMap K V := ⟨[], .nil⟩

/-- Insert an entry, or overwrite the one with its key. -/
def insertEntry (k : K) (v : V) : List (K × V) → List (K × V)
  | [] => [(k, v)]
  | e :: rest =>
    if k < e.1 then (k, v) :: e :: rest
    else if k = e.1 then (k, v) :: rest
    else e :: insertEntry k v rest

theorem mem_insertEntry {k : K} {v : V} {l : List (K × V)} {e : K × V} :
    e ∈ insertEntry k v l → e = (k, v) ∨ e ∈ l := by
  induction l with
  | nil => simp [insertEntry]
  | cons e' rest ih =>
    unfold insertEntry
    split
    · simp
    · split
      · rintro (_ | ⟨_, h⟩)
        · exact .inl rfl
        · exact .inr (List.mem_cons_of_mem _ h)
      · rintro (_ | ⟨_, h⟩)
        · exact .inr List.mem_cons_self
        · exact (ih h).imp_right (List.mem_cons_of_mem _)

theorem sorted_insertEntry {k : K} {v : V} {l : List (K × V)} (h : l.Pairwise (·.1 < ·.1)) :
    (insertEntry k v l).Pairwise (·.1 < ·.1) := by
  induction l with
  | nil => simp [insertEntry]
  | cons e rest ih =>
    obtain ⟨hhead, hrest⟩ := List.pairwise_cons.mp h
    unfold insertEntry
    split
    · rename_i hlt
      refine List.pairwise_cons.mpr ⟨fun e' he' => ?_, h⟩
      rcases List.mem_cons.mp he' with rfl | he'
      · exact hlt
      · exact lt_trans hlt (hhead e' he')
    · rename_i hlt
      split
      · rename_i heq
        subst heq
        exact List.pairwise_cons.mpr ⟨hhead, hrest⟩
      · rename_i hne
        refine List.pairwise_cons.mpr ⟨fun e' he' => ?_, ih hrest⟩
        rcases mem_insertEntry he' with rfl | he'
        · exact lt_of_le_of_ne (not_lt.mp hlt) (Ne.symm hne)
        · exact hhead e' he'

/-- `m[k] = v`. -/
def insert (m : SortedMap K V) (k : K) (v : V) : SortedMap K V :=
  ⟨insertEntry k v m.entries, sorted_insertEntry m.sorted⟩

/-- Keep the entries whose key satisfies `p`. -/
def filterKeys (m : SortedMap K V) (p : K → Bool) : SortedMap K V :=
  ⟨m.entries.filter fun e => p e.1, m.sorted.filter _⟩

/-- `erase(k)`. -/
def erase (m : SortedMap K V) (k : K) : SortedMap K V := m.filterKeys (· ≠ k)

/-- `erase(k)` for one key after another. -/
def eraseAll (m : SortedMap K V) (ks : List K) : SortedMap K V := ks.foldl erase m

/-- `m[k] = v` for one entry after another. -/
def insertAll (m : SortedMap K V) (entries : List (K × V)) : SortedMap K V :=
  entries.foldl (fun m e => m.insert e.1 e.2) m

instance [DecidableEq V] : DecidableEq (SortedMap K V) := fun m m' =>
  decidable_of_iff (m.entries = m'.entries) ⟨fun h => by cases m; cases m'; simp_all, fun h => h ▸ rfl⟩

variable {m : SortedMap K V} {k k' : K} {v v' : V}

/-! ## Lookups -/

theorem find?_eq_some : m.find? k = some v ↔ (k, v) ∈ m.entries := by
  unfold find?
  rw [Option.map_eq_some_iff]
  constructor
  · rintro ⟨⟨k', v'⟩, hfind, rfl⟩
    obtain rfl : k' = k := by simpa using List.find?_some hfind
    exact List.mem_of_find?_eq_some hfind
  · intro hmem
    obtain ⟨l, entries⟩ : ∃ l, l = m.entries := ⟨_, rfl⟩
    have hsorted := m.sorted
    rw [← entries] at hmem hsorted ⊢
    clear entries
    induction l with
    | nil => exact absurd hmem List.not_mem_nil
    | cons e rest ih =>
      obtain ⟨hhead, hrest⟩ := List.pairwise_cons.mp hsorted
      rcases List.mem_cons.mp hmem with rfl | hmem
      · exact ⟨(k, v), by simp, rfl⟩
      · have hne : ¬ e.1 = k := (hhead (k, v) hmem).ne
        obtain ⟨e', hfind, hv⟩ := ih hmem hrest
        exact ⟨e', by simpa [hne] using hfind, hv⟩

theorem find?_eq_none : m.find? k = none ↔ ∀ v, (k, v) ∉ m.entries := by
  rw [Option.eq_none_iff_forall_ne_some]
  exact forall_congr' fun v => not_congr find?_eq_some

@[simp] theorem find?_empty : (empty : SortedMap K V).find? k = none := rfl

theorem mem_insertEntry_iff {l : List (K × V)} (h : l.Pairwise (·.1 < ·.1)) :
    (k', v') ∈ insertEntry k v l ↔ (k' = k ∧ v' = v) ∨ (k' ≠ k ∧ (k', v') ∈ l) := by
  induction l with
  | nil => simp [insertEntry]
  | cons e rest ih =>
    obtain ⟨hhead, hrest⟩ := List.pairwise_cons.mp h
    have hgt : ∀ {x}, (x, v') ∈ rest → e.1 < x := fun hx => hhead _ hx
    obtain ⟨ke, ve⟩ := e
    unfold insertEntry
    rcases lt_trichotomy k ke with hlt | rfl | hlt
    · rw [if_pos hlt]
      constructor
      · intro hmem
        rcases List.mem_cons.mp hmem with heq | hmem
        · exact .inl (Prod.mk.inj heq)
        · refine .inr ⟨?_, hmem⟩
          rcases List.mem_cons.mp hmem with heq | hmem
          · exact (Prod.mk.inj heq).1 ▸ hlt.ne'
          · exact (lt_trans hlt (hgt hmem)).ne'
      · rintro (⟨rfl, rfl⟩ | ⟨-, hmem⟩)
        · exact List.mem_cons_self
        · exact List.mem_cons_of_mem _ hmem
    · rw [if_neg (lt_irrefl _), if_pos rfl]
      constructor
      · intro hmem
        rcases List.mem_cons.mp hmem with heq | hmem
        · exact .inl (Prod.mk.inj heq)
        · exact .inr ⟨(hgt hmem).ne', List.mem_cons_of_mem _ hmem⟩
      · rintro (⟨rfl, rfl⟩ | ⟨hne, hmem⟩)
        · exact List.mem_cons_self
        · rcases List.mem_cons.mp hmem with heq | hmem
          · exact absurd (Prod.mk.inj heq).1 hne
          · exact List.mem_cons_of_mem _ hmem
    · rw [if_neg (not_lt.mpr hlt.le), if_neg hlt.ne', List.mem_cons, ih hrest, List.mem_cons]
      constructor
      · rintro (heq | ⟨hk, hv⟩ | ⟨hne, hmem⟩)
        · exact .inr ⟨(Prod.mk.inj heq).1 ▸ hlt.ne, .inl heq⟩
        · exact .inl ⟨hk, hv⟩
        · exact .inr ⟨hne, .inr hmem⟩
      · rintro (⟨hk, hv⟩ | ⟨hne, heq | hmem⟩)
        · exact .inr (.inl ⟨hk, hv⟩)
        · exact .inl heq
        · exact .inr (.inr ⟨hne, hmem⟩)

theorem mem_insert :
    (k', v') ∈ (m.insert k v).entries ↔ (k' = k ∧ v' = v) ∨ (k' ≠ k ∧ (k', v') ∈ m.entries) :=
  mem_insertEntry_iff m.sorted

/-- **Inserting changes one key.** -/
theorem find?_insert : (m.insert k v).find? k' = if k' = k then some v else m.find? k' := by
  ext v'
  rw [find?_eq_some, mem_insert]
  by_cases h : k' = k
  · simp [h, eq_comm]
  · simp [h, find?_eq_some]

/-- The value of the last entry with a key. -/
def lastValue : List (K × V) → K → Option V
  | [], _ => none
  | e :: entries, k => (lastValue entries k).or (if k = e.1 then some e.2 else none)

theorem lastValue_append {l l' : List (K × V)} :
    lastValue (l ++ l') k = (lastValue l' k).or (lastValue l k) := by
  induction l with
  | nil => simp [lastValue]
  | cons e l ih => rw [List.cons_append, lastValue, ih, lastValue, Option.or_assoc]

theorem lastValue_eq_none {l : List (K × V)} : lastValue l k = none ↔ k ∉ l.map (·.1) := by
  induction l with
  | nil => simp [lastValue]
  | cons e l ih =>
    rw [lastValue, Option.or_eq_none_iff, ih, List.map_cons, List.mem_cons, not_or]
    by_cases h : k = e.1 <;> simp [h]

theorem mem_of_lastValue {l : List (K × V)} (h : lastValue l k = some v) : (k, v) ∈ l := by
  induction l with
  | nil => cases h
  | cons e l ih =>
    rw [lastValue, Option.or_eq_some_iff] at h
    rcases h with h | ⟨-, h⟩
    · exact List.mem_cons_of_mem _ (ih h)
    · split at h
      · rename_i hk
        cases h
        rw [hk]
        exact List.mem_cons_self
      · cases h

/-- If all entries with a key are the same, the last one is it. -/
theorem lastValue_of_forall {l : List (K × V)} (hmem : (k, v) ∈ l)
    (hall : ∀ e ∈ l, e.1 = k → e.2 = v) : lastValue l k = some v := by
  cases hvalue : lastValue l k with
  | none => exact absurd (List.mem_map_of_mem hmem) (lastValue_eq_none.mp hvalue)
  | some v' =>
    have heq : v' = v := hall _ (mem_of_lastValue hvalue) rfl
    rw [heq]

/-- In a list with every key once, the last entry is the entry. -/
theorem lastValue_eq_some {l : List (K × V)} (h : (l.map (·.1)).Nodup) :
    lastValue l k = some v ↔ (k, v) ∈ l := by
  induction l with
  | nil => simp [lastValue]
  | cons e l ih =>
    obtain ⟨hnot, hrest⟩ := List.nodup_cons.mp h
    obtain ⟨k', v'⟩ := e
    rw [lastValue, List.mem_cons, Option.or_eq_some_iff, ih hrest]
    by_cases hk : k = k'
    · subst hk
      have hnone : lastValue l k = none := lastValue_eq_none.mpr hnot
      have hmem : (k, v) ∉ l := fun hmem => hnot (List.mem_map.mpr ⟨(k, v), hmem, rfl⟩)
      simp [hnone, hmem, eq_comm]
    · simp [hk]

/-- **The last entry with a key is the one that stays.** -/
theorem find?_insertAll {entries : List (K × V)} :
    (m.insertAll entries).find? k = (lastValue entries k).or (m.find? k) := by
  unfold insertAll
  induction entries generalizing m with
  | nil => rfl
  | cons e entries ih =>
    rw [List.foldl_cons, ih, find?_insert, lastValue, Option.or_assoc]
    by_cases h : k = e.1 <;> simp [h]

theorem find?_filterKeys {p : K → Bool} :
    (m.filterKeys p).find? k = if p k then m.find? k else none := by
  ext v
  rw [find?_eq_some]
  unfold filterKeys
  rw [List.mem_filter]
  by_cases h : p k = true
  · simp [h, find?_eq_some]
  · simp [h]

theorem find?_erase : (m.erase k).find? k' = if k' = k then none else m.find? k' := by
  unfold erase
  rw [find?_filterKeys]
  by_cases h : k' = k <;> simp [h]

theorem find?_eraseAll {ks : List K} :
    (m.eraseAll ks).find? k = if k ∈ ks then none else m.find? k := by
  unfold eraseAll
  induction ks generalizing m with
  | nil => simp
  | cons k' ks ih =>
    rw [List.foldl_cons, ih, find?_erase]
    by_cases h : k ∈ ks <;> by_cases h' : k = k' <;> simp [h, h']

/-- What is left after erasing was there before. -/
theorem mem_of_mem_eraseAll {ks : List K} (h : (k, v) ∈ (m.eraseAll ks).entries) :
    (k, v) ∈ m.entries ∧ k ∉ ks := by
  rw [← find?_eq_some, find?_eraseAll] at h
  split at h
  · exact absurd h (by simp)
  · rename_i hk
    exact ⟨find?_eq_some.mp h, hk⟩

theorem eraseAll_append {ks ks' : List K} :
    m.eraseAll (ks ++ ks') = (m.eraseAll ks).eraseAll ks' := List.foldl_append

theorem entries_eraseAll {ks : List K} :
    (m.eraseAll ks).entries = m.entries.filter (·.1 ∉ ks) := by
  unfold eraseAll
  induction ks generalizing m with
  | nil =>
    rw [List.foldl_nil, eq_comm, List.filter_eq_self]
    simp
  | cons k ks ih =>
    rw [List.foldl_cons, ih]
    unfold erase filterKeys
    rw [List.filter_filter]
    refine List.filter_congr fun e _ => ?_
    by_cases h : e.1 = k <;> simp [h]

/-- Erasing what a map begins with leaves the rest. -/
theorem entries_eraseAll_of_append {front rest : List (K × V)} (h : m.entries = front ++ rest) :
    (m.eraseAll (front.map (·.1))).entries = rest := by
  have hsorted := m.sorted
  rw [h, List.pairwise_append] at hsorted
  rw [entries_eraseAll, h, List.filter_append]
  have hfront : front.filter (·.1 ∉ front.map (·.1)) = [] := by
    rw [List.filter_eq_nil_iff]
    intro e he
    simpa using ⟨e.2, he⟩
  have hrest : rest.filter (·.1 ∉ front.map (·.1)) = rest := by
    rw [List.filter_eq_self]
    intro e he
    have hnot : e.1 ∉ front.map (·.1) := by
      intro hmem
      obtain ⟨e', he', heq⟩ := List.mem_map.mp hmem
      exact absurd heq (hsorted.2.2 e' he' e he).ne
    simpa using hnot
  rw [hfront, hrest, List.nil_append]

/-- **Two maps with the same content are equal.** -/
theorem ext_find? {m m' : SortedMap K V} (h : ∀ k, m.find? k = m'.find? k) : m = m' := by
  have hmem : ∀ e, e ∈ m.entries ↔ e ∈ m'.entries := by
    rintro ⟨k, v⟩
    rw [← find?_eq_some, ← find?_eq_some, h]
  have hnodup : ∀ m : SortedMap K V, m.entries.Nodup := fun m =>
    m.sorted.imp fun hlt heq => (heq ▸ hlt).false
  have hentries : m.entries = m'.entries :=
    List.Perm.eq_of_pairwise (fun _ _ _ _ hlt hlt' => absurd hlt (lt_asymm hlt')) m.sorted m'.sorted
      ((List.perm_ext_iff_of_nodup (hnodup m) (hnodup m')).mpr hmem)
  cases m
  cases m'
  cases hentries
  rfl

/-- A map that is known key by key. -/
theorem entries_eq_map {l : List K} (hl : l.Pairwise (· < ·)) {f : K → V}
    (h : ∀ k, m.find? k = if k ∈ l then some (f k) else none) :
    m.entries = l.map fun k => (k, f k) := by
  have hsorted : (l.map fun k => (k, f k)).Pairwise (·.1 < ·.1) := List.pairwise_map.mpr hl
  have hmap : m = ⟨_, hsorted⟩ := by
    apply ext_find?
    intro k
    rw [h]
    by_cases hk : k ∈ l
    · rw [if_pos hk]
      exact (find?_eq_some.mpr (List.mem_map.mpr ⟨k, hk, rfl⟩)).symm
    · rw [if_neg hk]
      refine (find?_eq_none.mpr ?_).symm
      intro v hv
      obtain ⟨k', hk', heq⟩ := List.mem_map.mp hv
      exact hk ((Prod.mk.inj heq).1 ▸ hk')
  rw [hmap]

/-! ## The last entry -/

theorem last?_eq_none : m.last? = none ↔ m.entries = [] := List.getLast?_eq_none_iff

theorem find?_of_last? (h : m.last? = some (k, v)) : m.find? k = some v :=
  find?_eq_some.mpr (List.mem_of_getLast? h)

/-- Nothing comes after the last entry. -/
theorem le_of_last? (h : m.last? = some (k, v)) (h' : (k', v') ∈ m.entries) : k' ≤ k := by
  obtain ⟨front, hfront⟩ := List.getLast?_eq_some_iff.mp h
  have hsorted := m.sorted
  rw [hfront] at h' hsorted
  rcases List.mem_append.mp h' with h' | h'
  · exact ((List.pairwise_append.mp hsorted).2.2 _ h' _ (List.mem_singleton.mpr rfl)).le
  · exact (Prod.mk.inj (List.mem_singleton.mp h')).1.le

/-- Where a predicate holds of a beginning only, what is behind the beginning is where it fails. -/
theorem dropWhile_eq_filter_not {α : Type*} {p : α → Bool} {l : List α}
    (h : l.Pairwise fun a b => p b = true → p a = true) : l.dropWhile p = l.filter fun a => !p a := by
  induction l with
  | nil => rfl
  | cons a rest ih =>
    obtain ⟨hhead, hrest⟩ := List.pairwise_cons.mp h
    rw [List.dropWhile_cons, List.filter_cons]
    cases ha : p a with
    | true => exact ih hrest
    | false =>
      rw [if_neg (by decide), if_pos (by decide), eq_comm, List.cons_inj_right, List.filter_eq_self]
      intro b hb
      cases hpb : p b with
      | true => exact absurd (hhead b hb hpb) (by simp [ha])
      | false => rfl

/-! ## Looking through entries in order -/

section order

variable {β : Type*} {l : List (K × V)} {g : K × V → Option β}

/-- In the order of the keys, what is found first has the least key. -/
theorem head?_filterMap_iff (hl : l.Pairwise (·.1 < ·.1)) {b : β} :
    (l.filterMap g).head? = some b ↔
      ∃ e ∈ l, g e = some b ∧ ∀ e' ∈ l, g e' ≠ none → e.1 ≤ e'.1 := by
  induction l with
  | nil => simp
  | cons e l ih =>
    obtain ⟨hhead, hrest⟩ := List.pairwise_cons.mp hl
    cases hg : g e with
    | none =>
      rw [List.filterMap_cons_none hg, ih hrest]
      constructor
      · rintro ⟨e', he', hb, hleast⟩
        refine ⟨e', List.mem_cons_of_mem _ he', hb, fun e'' he'' hsome => ?_⟩
        rcases List.mem_cons.mp he'' with rfl | he''
        · exact absurd hg hsome
        · exact hleast e'' he'' hsome
      · rintro ⟨e', he', hb, hleast⟩
        rcases List.mem_cons.mp he' with rfl | he'
        · rw [hg] at hb
          cases hb
        · exact ⟨e', he', hb, fun e'' he'' => hleast e'' (List.mem_cons_of_mem _ he'')⟩
    | some b' =>
      rw [List.filterMap_cons_some hg, List.head?_cons]
      constructor
      · intro hb
        cases hb
        refine ⟨e, List.mem_cons_self, hg, fun e' he' _ => ?_⟩
        rcases List.mem_cons.mp he' with rfl | he'
        · exact le_rfl
        · exact (hhead e' he').le
      · rintro ⟨e', he', hb, hleast⟩
        rcases List.mem_cons.mp he' with rfl | he'
        · rw [← hb, hg]
        · have hle := hleast e List.mem_cons_self (by simp [hg])
          exact absurd (hhead e' he') hle.not_gt

/-- No more than one thing is found if no two are. -/
theorem length_filterMap_le_one_iff (hl : l.Pairwise (·.1 < ·.1)) :
    (l.filterMap g).length ≤ 1 ↔
      ∀ e ∈ l, ∀ e' ∈ l, g e ≠ none → g e' ≠ none → e = e' := by
  induction l with
  | nil => simp
  | cons e l ih =>
    obtain ⟨hhead, hrest⟩ := List.pairwise_cons.mp hl
    cases hg : g e with
    | none =>
      rw [List.filterMap_cons_none hg, ih hrest]
      simp only [List.forall_mem_cons, hg, ne_eq, not_true_eq_false, false_implies, implies_true,
        true_and]
    | some b =>
      rw [List.filterMap_cons_some hg, List.length_cons]
      constructor
      · intro hle
        have hnil : l.filterMap g = [] := List.length_eq_zero_iff.mp (by omega)
        have hnone := List.filterMap_eq_nil_iff.mp hnil
        have honly : ∀ e' ∈ e :: l, g e' ≠ none → e' = e := by
          intro e' he' hsome
          rcases List.mem_cons.mp he' with rfl | he'
          · rfl
          · exact absurd (hnone e' he') hsome
        intro e₁ he₁ e₂ he₂ h₁ h₂
        rw [honly e₁ he₁ h₁, honly e₂ he₂ h₂]
      · intro honly
        have hnil : l.filterMap g = [] := by
          rw [List.filterMap_eq_nil_iff]
          intro e' he'
          by_contra hsome
          have heq := honly e List.mem_cons_self e' (List.mem_cons_of_mem _ he') (by simp [hg]) hsome
          exact absurd (hhead e' he') (heq ▸ lt_irrefl _)
        rw [hnil]
        rfl

end order
end SortedMap
