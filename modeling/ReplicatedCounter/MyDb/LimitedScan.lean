import ReplicatedCounter.MyDb.QueryExecutor

/-!
# What the limit of a scan cuts off

The loop of `RocksReaderWriter::scan` puts a row among the others when it meets the next one, and the
last row after it has ended. It looks at the limit when it meets a row, before that. So it may have
begun a row that is one too many, and drops it at the end.

`rowsFrom` is what the loop collects if nobody looks at the limit. A scan returns the first of these
rows, whatever the keys are: `scan_eq_take`.
-/

set_option autoImplicit false

namespace ReplicatedCounter.MyDb

namespace RocksReaderWriter

/-- A row, if it has begun. -/
def begun (row : RawTableRow) : List RawTableRow := if row = [] then [] else [row]

/-- The rows in front of an iterator, with the row that is being collected. -/
def rowsFrom (keyPrefix : Bytes) : List (Bytes × Bytes) → RawTableRow → Bytes → List RawTableRow
  | [], row, _ => begun row
  | entry :: itr, row, prevKey =>
    if prevKey.isPrefixOf entry.1 then rowsFrom keyPrefix itr (row ++ [entry]) prevKey
    else if keyPrefix.isPrefixOf entry.1 then begun row ++ rowsFrom keyPrefix itr [entry] entry.1
    else begun row

/-- All rows of a scan. -/
def allRows (rocks : Rocks) (seekPosition keyPrefix : Bytes) : List RawTableRow :=
  rowsFrom keyPrefix (rocks.entries.dropWhile (·.1 < seekPosition)) [] "SOME WEIRD STRING".toList

/-- What `scan` returns when its loop is over. -/
def withLastRow (scanOptions : ScanOptions) (rows : List RawTableRow) (row : RawTableRow) :
    List RawTableRow :=
  if rows.length < scanOptions.maxRowsReturnSize ∧ row ≠ [] then rows ++ [row] else rows

variable {scanOptions : ScanOptions} {rows : List RawTableRow} {row : RawTableRow}

theorem append_begun : rows ++ begun row = if row = [] then rows else rows ++ [row] := by
  unfold begun
  split
  · exact List.append_nil rows
  · rfl

theorem length_begun_le (row : RawTableRow) : (begun row).length ≤ 1 := by
  unfold begun
  split
  · exact Nat.zero_le 1
  · exact Nat.le_refl 1

/-- The last row is kept if there is room for it. -/
theorem withLastRow_eq (hrows : rows.length ≤ scanOptions.maxRowsReturnSize) :
    withLastRow scanOptions rows row = (rows ++ begun row).take scanOptions.maxRowsReturnSize := by
  unfold withLastRow
  rw [append_begun]
  by_cases hrow : row = []
  · rw [if_neg fun h => h.2 hrow, if_pos hrow, List.take_of_length_le hrows]
  · rw [if_neg hrow]
    rcases Nat.lt_or_eq_of_le hrows with hlt | heq
    · rw [if_pos ⟨hlt, hrow⟩, List.take_of_length_le (by simpa using Nat.succ_le_of_lt hlt)]
    · rw [if_neg fun h => h.1.ne heq, ← heq, List.take_left]

/-- **The loop** collects the rows up to the limit, wherever it is. -/
theorem scanLoop_eq_take (itr : List (Bytes × Bytes)) (rows : List RawTableRow) (row : RawTableRow)
    (prevKey : Bytes) (hrows : rows.length ≤ scanOptions.maxRowsReturnSize) :
    withLastRow scanOptions (scanLoop scanOptions itr rows row prevKey).1
        (scanLoop scanOptions itr rows row prevKey).2 =
      (rows ++ rowsFrom scanOptions.keyPrefix itr row prevKey).take scanOptions.maxRowsReturnSize := by
  induction itr generalizing rows row prevKey with
  | nil => exact withLastRow_eq hrows
  | cons entry itr ih =>
    unfold scanLoop rowsFrom
    by_cases hprev : prevKey.isPrefixOf entry.1
    · rw [if_pos hprev, if_pos hprev]
      exact ih rows (row ++ [entry]) prevKey hrows
    · rw [if_neg hprev, if_neg hprev]
      by_cases hprefix : scanOptions.keyPrefix.isPrefixOf entry.1
      · rw [if_pos hprefix, if_pos hprefix]
        by_cases hfull : rows.length = scanOptions.maxRowsReturnSize
        · -- neither the row it was about nor the one it has met has room
          rw [if_pos hfull, withLastRow_eq hrows, ← hfull, List.take_left, List.take_left]
        · have hroom : (rows ++ begun row).length ≤ scanOptions.maxRowsReturnSize := by
            have hone := length_begun_le row
            rw [List.length_append]
            omega
          rw [if_neg hfull, ← append_begun, ih _ [entry] entry.1 hroom, List.append_assoc]
      · rw [if_neg hprefix, if_neg hprefix]
        exact withLastRow_eq hrows

/-- **A scan returns the first rows.** -/
theorem scan_eq_take (rocks : Rocks) (scanOptions : ScanOptions) :
    scan rocks scanOptions = (allRows rocks scanOptions.seekPosition scanOptions.keyPrefix).take
      scanOptions.maxRowsReturnSize :=
  scanLoop_eq_take _ [] [] _ (Nat.zero_le _)

/-- Not more rows than entries. -/
theorem length_rowsFrom_le (keyPrefix : Bytes) (itr : List (Bytes × Bytes)) (row : RawTableRow)
    (prevKey : Bytes) :
    (rowsFrom keyPrefix itr row prevKey).length ≤ (begun row).length + itr.length := by
  induction itr generalizing row prevKey with
  | nil => exact Nat.le_refl _
  | cons entry itr ih =>
    unfold rowsFrom
    rw [List.length_cons]
    split
    · have := ih (row ++ [entry]) prevKey
      have := length_begun_le (row ++ [entry])
      omega
    · split
      · have := ih [entry] entry.1
        have := length_begun_le [entry]
        rw [List.length_append]
        omega
      · omega

theorem length_allRows_le (rocks : Rocks) (seekPosition keyPrefix : Bytes) :
    (allRows rocks seekPosition keyPrefix).length ≤ rocks.entries.length := by
  have hle := length_rowsFrom_le keyPrefix (rocks.entries.dropWhile (·.1 < seekPosition)) []
    "SOME WEIRD STRING".toList
  have hdrop := (List.dropWhile_sublist (l := rocks.entries) fun entry =>
    decide (entry.1 < seekPosition)).length_le
  have hnone : (begun []).length = 0 := rfl
  unfold allRows
  omega

/-- **A limited scan is the beginning of one without a limit.** There are not more rows than entries,
so a limit above their number is none. -/
theorem limited_scan_prefix (rocks : Rocks) (seekPosition keyPrefix : Bytes) :
    ∃ rows : List RawTableRow,
      (∀ limit, rocks.entries.length ≤ limit →
        scan rocks { maxRowsReturnSize := limit, seekPosition, keyPrefix } = rows) ∧
      ∀ m, scan rocks { maxRowsReturnSize := m, seekPosition, keyPrefix } =
        rows.take (min m rows.length) := by
  refine ⟨allRows rocks seekPosition keyPrefix, ?_, ?_⟩
  · intro limit hlimit
    rw [scan_eq_take]
    exact List.take_of_length_le ((length_allRows_le rocks seekPosition keyPrefix).trans hlimit)
  · intro m
    rw [scan_eq_take, List.take_eq_take_min]

/-- Three rows under a prefix, the first of which has two keys. -/
theorem limited_scan_prefix_two :
    let rocks : Rocks := SortedMap.empty.insertAll [("p/1".toList, []), ("p/1/0".toList, ['a']),
      ("p/2".toList, []), ("p/3".toList, []), ("q".toList, [])]
    scan rocks { maxRowsReturnSize := 2, seekPosition := ['p'], keyPrefix := ['p'] } =
      [[("p/1".toList, []), ("p/1/0".toList, ['a'])], [("p/2".toList, [])]] := by
  intro rocks
  obtain ⟨rows, hunlimited, hlimited⟩ := limited_scan_prefix rocks ['p'] ['p']
  have hrows : rows = [[("p/1".toList, []), ("p/1/0".toList, ['a'])], [("p/2".toList, [])],
      [("p/3".toList, [])]] := (hunlimited 5 (by decide)).symm.trans (by decide +kernel)
  rw [hlimited 2, hrows]
  rfl

end RocksReaderWriter

end ReplicatedCounter.MyDb
