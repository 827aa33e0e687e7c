import ReplicatedCounter.Lib.SortedMap

/-!
# Batches of puts and deletes

What a store is told to write at once: keys in some order, each with a new value or with none. Of
two entries with one key the later one counts, so a batch does to a map what its last entries say
(`find?_write`). That is also why a batch may be written over what a part of it has left behind
(`write_write_of_subset`).
-/

set_option autoImplicit false

/-- Puts and deletes, in order. -/
abbrev WriteBatch (K V : Type*) := List (K × Option V)

namespace WriteBatch

variable {K V : Type*} [LinearOrder K]

/-- One entry. -/
def writeOne (m : SortedMap K V) : K × Option V → SortedMap K V
  | (k, some v) => m.insert k v
  | (k, none) => m.erase k

def write (m : SortedMap K V) (batch : WriteBatch K V) : SortedMap K V := batch.foldl writeOne m

/-- The keys of a batch. -/
def keys (batch : WriteBatch K V) : List K := batch.map (·.1)

variable {m m' : SortedMap K V} {batch batch' : WriteBatch K V} {k : K}

theorem find?_writeOne {entry : K × Option V} :
    (writeOne m entry).find? k = if k = entry.1 then entry.2 else m.find? k := by
  obtain ⟨k', value⟩ := entry
  cases value with
  | some v => exact SortedMap.find?_insert
  | none => exact SortedMap.find?_erase

/-- **The last entry with a key counts.** -/
theorem find?_write :
    (write m batch).find? k = (SortedMap.lastValue batch k).getD (m.find? k) := by
  unfold write
  induction batch generalizing m with
  | nil => rfl
  | cons entry batch ih =>
    rw [List.foldl_cons, ih, find?_writeOne, SortedMap.lastValue]
    cases SortedMap.lastValue batch k with
    | some value => rfl
    | none =>
      by_cases hk : k = entry.1
      · simp [hk]
      · simp [hk]

theorem write_append : write m (batch ++ batch') = write (write m batch) batch' :=
  List.foldl_append

/-- A key that is not in a batch keeps its value. -/
theorem find?_write_of_not_mem (h : k ∉ batch.keys) : (write m batch).find? k = m.find? k := by
  rw [find?_write, SortedMap.lastValue_eq_none.mpr h, Option.getD_none]

/-- Two maps that differ under the keys of a batch only are the same once it is written. -/
theorem write_congr (h : ∀ k, k ∉ batch.keys → m.find? k = m'.find? k) :
    write m batch = write m' batch := by
  refine SortedMap.ext_find? fun k => ?_
  rw [find?_write, find?_write]
  by_cases hk : k ∈ batch.keys
  · cases hvalue : SortedMap.lastValue batch k with
    | some value => rfl
    | none => exact absurd hk (SortedMap.lastValue_eq_none.mp hvalue)
  · rw [h k hk]

/-- **A batch absorbs what was written before under its keys.** -/
theorem write_write_of_subset (h : batch'.keys ⊆ batch.keys) :
    write (write m batch') batch = write m batch :=
  write_congr fun _ hk => find?_write_of_not_mem fun hmem => hk (h hmem)

end WriteBatch
