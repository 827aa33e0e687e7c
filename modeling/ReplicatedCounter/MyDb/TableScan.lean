import Mathlib.Data.List.Sort
import ReplicatedCounter.Lib.DecimalOrder
import ReplicatedCounter.Lib.PrefixRuns
import ReplicatedCounter.MyDb.LimitedScan
import ReplicatedCounter.MyDb.RowCodec
import ReplicatedCounter.MyDb.RowMap

/-!
# What a page of a table scan shows

`RocksReaderWriter::scan` takes a key for the first one of a row if it does not begin with the first
key of the row before: `scan_eq_take_runs`. Where the keys of the columns stand is fixed by the
primary keys alone (`columnKey_lt_iff`), and the position behind a row is behind its columns and
before those of the rows that follow (`not_lt_positionBehind_iff`). So a page shows, column by
column, the rows up to whose keys not too many runs have started: `tableScan_behind`.
-/

set_option autoImplicit false

namespace ReplicatedCounter.MyDb

open KeySerializer RowSerializer QueryExecutor

variable {table : Table}

/-! ## The scan and the runs -/

namespace RocksReaderWriter

open PrefixRuns

variable {scanOptions : ScanOptions} {keyPrefix : Bytes}

/-- **The rows are the runs**, when the loop has begun with a row. -/
theorem rowsFrom_eq_runs {entries rest : List (Bytes × Bytes)}
    (hentries : ∀ entry ∈ entries, keyPrefix <+: entry.1)
    (hrest : ∀ entry ∈ rest.head?, ¬ keyPrefix <+: entry.1) {row : RawTableRow} (hrow : row ≠ [])
    {prevKey : Bytes} (hprevKey : keyPrefix <+: prevKey) :
    rowsFrom keyPrefix (entries ++ rest) row prevKey =
      (row ++ entries.takeWhile fun entry => prevKey.isPrefixOf entry.1) ::
        runs (entries.dropWhile fun entry => prevKey.isPrefixOf entry.1) := by
  induction entries generalizing row prevKey with
  | nil =>
    rw [List.nil_append, List.takeWhile_nil, List.dropWhile_nil, List.append_nil, runs_nil]
    cases rest with
    | nil => exact if_neg hrow
    | cons entry rest =>
      have hentry := hrest entry rfl
      have hprev : ¬ prevKey.isPrefixOf entry.1 := fun h =>
        hentry (hprevKey.trans (List.isPrefixOf_iff_prefix.mp h))
      rw [rowsFrom, if_neg hprev, if_neg fun h => hentry (List.isPrefixOf_iff_prefix.mp h)]
      exact if_neg hrow
  | cons entry entries ih =>
    have hentry := hentries entry List.mem_cons_self
    have hothers := fun entry' h => hentries entry' (List.mem_cons_of_mem entry h)
    rw [List.cons_append, rowsFrom, List.takeWhile_cons, List.dropWhile_cons]
    by_cases hprev : prevKey.isPrefixOf entry.1
    · rw [if_pos hprev, if_pos hprev, if_pos hprev,
        ih hothers (List.append_ne_nil_of_right_ne_nil row (List.cons_ne_nil entry [])) hprevKey,
        List.append_assoc, List.singleton_append]
    · have hbegun : begun row = [row] := if_neg hrow
      rw [if_neg hprev, if_neg hprev, if_neg hprev,
        if_pos (List.isPrefixOf_iff_prefix.mpr hentry), hbegun, List.append_nil, runs_cons,
        ih hothers (List.cons_ne_nil entry []) hentry, List.singleton_append, List.singleton_append]

/-- **A scan returns the first runs**, if no key begins with what stands in for the first
`prevKey`. -/
theorem scan_eq_take_runs {rocks : Rocks}
    (hkeys : ∀ entry ∈ rocks.entries, ¬ "SOME WEIRD STRING".toList <+: entry.1) :
    scan rocks scanOptions =
      (runs ((rocks.entries.dropWhile (·.1 < scanOptions.seekPosition)).takeWhile
        fun entry => scanOptions.keyPrefix.isPrefixOf entry.1)).take scanOptions.maxRowsReturnSize := by
  have hsub := List.dropWhile_sublist (l := rocks.entries) fun entry =>
    decide (entry.1 < scanOptions.seekPosition)
  have hitr : ∀ entry ∈ rocks.entries.dropWhile (·.1 < scanOptions.seekPosition),
      ¬ "SOME WEIRD STRING".toList <+: entry.1 := fun entry h => hkeys entry (hsub.subset h)
  rw [scan_eq_take]
  congr 1
  unfold allRows
  generalize rocks.entries.dropWhile (·.1 < scanOptions.seekPosition) = itr at hitr
  cases itr with
  | nil =>
    rw [List.takeWhile_nil, runs_nil]
    rfl
  | cons entry itr =>
    have hprev : ¬ "SOME WEIRD STRING".toList.isPrefixOf entry.1 := fun h =>
      hitr entry List.mem_cons_self (List.isPrefixOf_iff_prefix.mp h)
    rw [rowsFrom, if_neg hprev, List.takeWhile_cons]
    by_cases hentry : scanOptions.keyPrefix.isPrefixOf entry.1
    · have hsplit := List.takeWhile_append_dropWhile
        (p := fun entry : Bytes × Bytes => scanOptions.keyPrefix.isPrefixOf entry.1) (l := itr)
      have hentries : ∀ entry ∈ itr.takeWhile fun entry => scanOptions.keyPrefix.isPrefixOf entry.1,
          scanOptions.keyPrefix <+: entry.1 := fun _ h => prefix_of_mem_takeWhile (e := (_, [])) h
      have hrest : ∀ entry ∈
          (itr.dropWhile fun entry => scanOptions.keyPrefix.isPrefixOf entry.1).head?,
          ¬ scanOptions.keyPrefix <+: entry.1 := by
        intro entry' hentry' hbegin
        have := List.head?_dropWhile_not
          (fun entry : Bytes × Bytes => scanOptions.keyPrefix.isPrefixOf entry.1) itr
        rw [Option.mem_def.mp hentry'] at this
        exact Bool.false_ne_true (this.symm.trans (List.isPrefixOf_iff_prefix.mpr hbegin))
      have hrows := rowsFrom_eq_runs hentries hrest (List.cons_ne_nil entry [])
        (List.isPrefixOf_iff_prefix.mp hentry)
      rw [hsplit] at hrows
      rw [if_pos hentry, if_pos hentry, runs_cons]
      exact hrows
    · rw [if_neg hentry, if_neg hentry, runs_nil]
      rfl

end RocksReaderWriter

/-! ## The order of the keys -/

/-- A word with something in front that no escape character comes after. -/
def AboveEscape (x : Bytes) : Prop := ∃ c t, x = c :: t ∧ defaultEscapeCharacter < c

theorem pad_eq_cons (num : UInt32) : ∃ c t, pad num = c :: t ∧ '0' ≤ c ∧ c ≤ '9' := by
  obtain ⟨c, t, hpad⟩ := List.exists_cons_of_ne_nil (pad_ne_nil : pad num ≠ [])
  have hdigit : c.isDigit = true := isDigit_of_mem_pad (hpad ▸ List.mem_cons_self)
  simp only [Char.isDigit, Bool.and_eq_true, decide_eq_true_iff] at hdigit
  exact ⟨c, t, hpad, hdigit⟩

theorem aboveEscape_pad (num : UInt32) : AboveEscape (pad num) := by
  obtain ⟨c, t, hpad, hge, -⟩ := pad_eq_cons num
  exact ⟨c, t, hpad, lt_of_lt_of_le (by decide) hge⟩

theorem pad_lt_lastKeyPart (num : UInt32) : pad num < lastKeyPart := by
  obtain ⟨c, t, hpad, -, hle⟩ := pad_eq_cons num
  rw [hpad]
  exact List.cons_lt_cons_iff.mpr (.inl (lt_of_le_of_lt hle (by decide)))

theorem aboveEscape_lastKeyPart : AboveEscape lastKeyPart := ⟨'Z', "ZZZZZ".toList, rfl, by decide⟩

/-- Of two words with a separator behind them it does not matter what comes then, if a word that
goes on where the other one ends goes on with something else or with a doubled escape character. -/
theorem append_lt_append_iff_of_ne {a b : Bytes} (hne : a ≠ b)
    (hab : ∀ z, b = a ++ defaultEscapeCharacter :: z → z.head? = some defaultEscapeCharacter)
    (hba : ∀ z, a = b ++ defaultEscapeCharacter :: z → z.head? = some defaultEscapeCharacter)
    {x y x' y' : Bytes} (hx : AboveEscape x) (hy : AboveEscape y) (hx' : AboveEscape x')
    (hy' : AboveEscape y') :
    a ++ defaultEscapeCharacter :: x < b ++ defaultEscapeCharacter :: y ↔
      a ++ defaultEscapeCharacter :: x' < b ++ defaultEscapeCharacter :: y' := by
  induction a generalizing b with
  | nil =>
    obtain ⟨e, z, rfl⟩ := List.exists_cons_of_ne_nil hne.symm
    have hnot : ∀ {x y}, AboveEscape x → defaultEscapeCharacter = e →
        ¬ x < z ++ defaultEscapeCharacter :: y := by
      rintro _ y ⟨c, t, rfl, hc⟩ rfl
      obtain ⟨z, rfl⟩ := List.head?_eq_some_iff.mp (hab z rfl)
      rw [List.cons_append, List.cons_lt_cons_iff]
      exact fun h => h.elim (fun h => hc.not_gt h) fun h => hc.ne' h.1
    rw [List.nil_append, List.nil_append, List.cons_append, List.cons_append, List.cons_lt_cons_iff,
      List.cons_lt_cons_iff]
    exact or_congr_right
      (iff_of_false (fun h => hnot hx h.1 h.2) fun h => hnot hx' h.1 h.2)
  | cons e z ih =>
    cases b with
    | nil =>
      have hlt : ∀ {x y}, AboveEscape y → e = defaultEscapeCharacter →
          z ++ defaultEscapeCharacter :: x < y := by
        rintro x _ ⟨c, t, rfl, hc⟩ rfl
        obtain ⟨z, rfl⟩ := List.head?_eq_some_iff.mp (hba z rfl)
        rw [List.cons_append, List.cons_lt_cons_iff]
        exact .inl hc
      rw [List.nil_append, List.nil_append, List.cons_append, List.cons_append, List.cons_lt_cons_iff,
        List.cons_lt_cons_iff]
      exact or_congr_right (and_congr_right fun heq => iff_of_true (hlt hy heq) (hlt hy' heq))
    | cons e' z' =>
      rw [List.cons_append, List.cons_append, List.cons_append, List.cons_append,
        List.cons_lt_cons_iff, List.cons_lt_cons_iff]
      refine or_congr_right (and_congr_right fun heq => ?_)
      subst heq
      exact ih (fun h => hne (h ▸ rfl)) (fun t ht => hab t (ht ▸ rfl)) fun t ht => hba t (ht ▸ rfl)

/-- A primary key that goes on where another one ends goes on within its last value. -/
theorem head?_of_rowKey_eq {row row' : Row table} (z : Bytes)
    (h : rowKey table row'.primaryKey = rowKey table row.primaryKey ++ defaultEscapeCharacter :: z) :
    z.head? = some defaultEscapeCharacter := by
  by_contra hhead
  have hsep : Separated (defaultEscapeCharacter :: z) := .inr ⟨z, rfl, hhead⟩
  unfold rowKey at h
  rw [List.append_assoc, List.append_cancel_left_eq] at h
  have := (keyParts_append_inj (by simp [Row.primaryKey]) (by simp [Row.primaryKey]) separated_nil hsep
    ((List.append_nil _).trans h)).2
  cases this

/-- The order in which the store has the rows: that of the keys of a column, whichever it is. -/
def Row.Before (row row' : Row table) : Prop :=
  columnKey (rowKey table row.primaryKey) 0 < columnKey (rowKey table row'.primaryKey) 0

instance (row row' : Row table) : Decidable (row.Before row') :=
  inferInstanceAs (Decidable (columnKey _ _ < columnKey _ _))

theorem Row.Before.rowKey_ne {row row' : Row table} (h : row.Before row') :
    rowKey table row.primaryKey ≠ rowKey table row'.primaryKey := by
  intro heq
  unfold Row.Before at h
  rw [heq] at h
  exact lt_irrefl _ h

/-- Behind different primary keys and a separator it does not matter what comes. -/
theorem rowKey_append_lt_iff {row row' : Row table}
    (hne : rowKey table row.primaryKey ≠ rowKey table row'.primaryKey) {x y : Bytes}
    (hx : AboveEscape x) (hy : AboveEscape y) :
    rowKey table row.primaryKey ++ defaultEscapeCharacter :: x <
        rowKey table row'.primaryKey ++ defaultEscapeCharacter :: y ↔ row.Before row' :=
  append_lt_append_iff_of_ne hne head?_of_rowKey_eq head?_of_rowKey_eq hx hy (aboveEscape_pad 0)
    (aboveEscape_pad 0)

/-- **The keys of two rows' columns** stand as the rows do. -/
theorem Row.Before.columnKey_lt {row row' : Row table} (h : row.Before row') (colId colId' : UInt32) :
    columnKey (rowKey table row.primaryKey) colId < columnKey (rowKey table row'.primaryKey) colId' :=
  (rowKey_append_lt_iff h.rowKey_ne (aboveEscape_pad colId) (aboveEscape_pad colId')).mpr h

/-! ## The position behind some rows -/

/-- What `tableScanGenerator` has in `primaryKeyValues` with so many rows behind it. -/
def keyBehind (rows : List (Row table)) : Nat → List ColumnValue
  | 0 => []
  | i + 1 => (rows[i]?.map Row.primaryKey).getD []

/-- Where `tableScan` begins then. -/
def positionBehind (rows : List (Row table)) (i : Nat) : Bytes :=
  if keyBehind rows i = [] then minimumIndexKey table table.primaryKeyIndex.id
  else rowKey table (keyBehind rows i) ++ defaultEscapeCharacter :: lastKeyPart

theorem primaryKey_ne_nil (h : table.Keyed) (row : Row table) : row.primaryKey ≠ [] := by
  unfold Row.primaryKey
  simpa using h.ownIndex.columnIds_ne

theorem positionBehind_succ (h : table.Keyed) {rows : List (Row table)} {i : Nat} {row : Row table}
    (hrow : rows[i]? = some row) : positionBehind rows (i + 1) =
      rowKey table row.primaryKey ++ defaultEscapeCharacter :: lastKeyPart := by
  have hkey : keyBehind rows (i + 1) = row.primaryKey := by
    show (rows[i]?.map Row.primaryKey).getD [] = _
    rw [hrow]
    rfl
  unfold positionBehind
  rw [hkey, if_neg (primaryKey_ne_nil h row)]

theorem minimumIndexKey_prefix_rowKey (values : List ColumnValue) :
    minimumIndexKey table table.primaryKeyIndex.id <+: rowKey table values := List.prefix_append _ _

theorem minimumIndexKey_prefix_positionBehind (rows : List (Row table)) (i : Nat) :
    minimumIndexKey table table.primaryKeyIndex.id <+: positionBehind rows i := by
  unfold positionBehind
  split
  · exact List.prefix_rfl
  · exact (minimumIndexKey_prefix_rowKey _).trans (List.prefix_append _ _)

theorem before_of_getElem? {rows : List (Row table)} (hrows : rows.Pairwise Row.Before) {i j : Nat}
    {row row' : Row table} (hrow : rows[i]? = some row) (hrow' : rows[j]? = some row') (hlt : i < j) :
    row.Before row' := by
  obtain ⟨hi, rfl⟩ := List.getElem?_eq_some_iff.mp hrow
  obtain ⟨hj, rfl⟩ := List.getElem?_eq_some_iff.mp hrow'
  exact List.pairwise_iff_getElem.mp hrows i j hi hj hlt

/-- **The position behind some rows** is behind the keys of their columns, and before those of the
other rows. -/
theorem not_lt_positionBehind_iff (h : table.Keyed) {rows : List (Row table)}
    (hrows : rows.Pairwise Row.Before) {i j : Nat} (hi : i ≤ rows.length) {row : Row table}
    (hrow : rows[j]? = some row) (colId : UInt32) :
    ¬ columnKey (rowKey table row.primaryKey) colId < positionBehind rows i ↔ i ≤ j := by
  cases i with
  | zero =>
    refine iff_of_true (PrefixScan.not_lt_of_prefix ?_) (Nat.zero_le j)
    exact (minimumIndexKey_prefix_rowKey _).trans (List.prefix_append _ _)
  | succ i =>
    obtain ⟨last, hlast⟩ : ∃ last, rows[i]? = some last := ⟨_, List.getElem?_eq_getElem hi⟩
    rw [positionBehind_succ h hlast, not_iff_comm, not_le]
    rcases lt_trichotomy j i with hlt | rfl | hlt
    · have hbefore := before_of_getElem? hrows hrow hlast hlt
      refine iff_of_true (Nat.lt_succ_of_lt hlt) ?_
      exact (rowKey_append_lt_iff hbefore.rowKey_ne (aboveEscape_pad colId)
        aboveEscape_lastKeyPart).mpr hbefore
    · obtain rfl : row = last := Option.some.inj (hrow.symm.trans hlast)
      refine iff_of_true (Nat.lt_succ_self _) ?_
      unfold columnKey
      rw [PrefixScan.append_lt_append_iff, List.cons_lt_cons_self]
      exact pad_lt_lastKeyPart colId
    · have hbefore := before_of_getElem? hrows hlast hrow hlt
      refine iff_of_false (Nat.not_lt.mpr hlt) fun hkey => ?_
      have := (rowKey_append_lt_iff hbefore.rowKey_ne.symm (aboveEscape_pad colId)
        aboveEscape_lastKeyPart).mp hkey
      exact lt_asymm this hbefore

theorem mem_drop_iff (h : table.Keyed) {rows : List (Row table)} (hrows : rows.Pairwise Row.Before)
    {i : Nat} (hi : i ≤ rows.length) {row : Row table} (hrow : row ∈ rows) (colId : UInt32) :
    row ∈ rows.drop i ↔
      ¬ columnKey (rowKey table row.primaryKey) colId < positionBehind rows i := by
  constructor
  · intro hmem
    obtain ⟨j, hj⟩ := List.mem_iff_getElem?.mp hmem
    rw [List.getElem?_drop] at hj
    exact (not_lt_positionBehind_iff h hrows hi hj colId).mpr (Nat.le_add_right i j)
  · intro hge
    obtain ⟨j, hj⟩ := List.mem_iff_getElem?.mp hrow
    have hle := (not_lt_positionBehind_iff h hrows hi hj colId).mp hge
    refine List.mem_iff_getElem?.mpr ⟨j - i, ?_⟩
    rw [List.getElem?_drop, Nat.add_sub_cancel' hle, hj]

/-! ## What the store has there -/

theorem rowKey_prefix_of_mem_entries {row : Row table} {entry : Bytes × Bytes}
    (hentry : entry ∈ row.entries) : rowKey table row.primaryKey <+: entry.1 := by
  rcases List.mem_cons.mp hentry with rfl | hentry
  · exact List.prefix_rfl
  · obtain ⟨col, -, rfl⟩ := List.mem_map.mp hentry
    exact List.prefix_append _ _

/-- The keys in a store are some that serializers have made. -/
def Written (rocks : Rocks) : Prop :=
  ∀ key, rocks.find? key ≠ none → ∃ (table : Table) (indexId : UInt32) (r : Bytes),
    Separated r ∧ key = minimumIndexKey table indexId ++ r

/-- A store with these rows in the primary index of the table, whatever else is in it. -/
structure Holds (rocks : Rocks) (rows : List (Row table)) : Prop where
  stores : Stores rocks rows
  written : Written rocks

theorem written_empty : Written .empty := fun _ h => absurd rfl h

theorem Written.run (h : table.Keyed) {rocks rocks' : Rocks} (hwritten : Written rocks)
    {call : Call table} (hrun : call.run rocks = .ok rocks') : Written rocks' := by
  obtain ⟨raws, hser, rfl⟩ := Call.run_ok hrun
  intro key hkey
  rcases RocksReaderWriter.find?_write_ne_none_iff.mp hkey with hmem | hold
  · rw [serialize_arrowTable h] at hser
    obtain ⟨entry, hentry, rfl⟩ := List.mem_map.mp hmem
    obtain ⟨raw, hraw, hentry⟩ := List.mem_flatten.mp hentry
    obtain ⟨row, -, hrow⟩ := Fallible.exists_of_mem_mapM hser hraw
    obtain ⟨secondaryKeys, rfl, hsecondary⟩ := rawTableRow_eq h hrow
    rcases List.mem_append.mp hentry with hown | hindex
    · obtain ⟨r, hr, hkey'⟩ := inPrimaryIndex_of_begins h row (rowKey_prefix_of_mem_entries hown)
      exact ⟨table, _, r, hr, hkey'⟩
    · obtain ⟨key, hkey', rfl⟩ := List.mem_map.mp hindex
      obtain ⟨index, -, r, hr, heq⟩ := hsecondary key hkey'
      exact ⟨table, index.id, r, hr, heq⟩
  · exact hwritten key hold

/-- A number that is padded to more than four characters is not padded. -/
theorem eq_zero_of_pad_prefix {num : UInt32} {r : Bytes} (h : pad 0 <+: pad num ++ r) : num = 0 := by
  have hzero : pad 0 = "0000".toList := by decide
  have hlength : (pad num).length = max 4 (Decimal.digits num.toNat) := List.length_leftpad
  have hbegin : pad 0 <+: pad num := List.prefix_of_prefix_length_le h (List.prefix_append _ _) (by
    rw [hzero, hlength]
    exact le_max_left _ _)
  rcases le_or_gt (Decimal.digits num.toNat) 4 with hle | hgt
  · rw [max_eq_left hle] at hlength
    exact (pad_injective (hbegin.eq_of_length (by rw [hzero, hlength]; rfl))).symm
  · exfalso
    obtain ⟨w, x, htext, hw, -, -, hvalue⟩ := Decimal.toDigits_eq_append hgt.le
    have hpad : pad num = w ++ x := by
      unfold pad
      rw [List.leftpad, show 4 - (Nat.toDigits 10 num.toNat).length = 0 from
        Nat.sub_eq_zero_of_le hgt.le, List.replicate_zero, List.nil_append, htext]
    rw [hpad, hzero] at hbegin
    obtain rfl : "0000".toList = w :=
      (List.prefix_of_prefix_length_le hbegin (List.prefix_append _ _) hw.ge).eq_of_length hw.symm
    have hsmall : num.toNat < 10 ^ (Decimal.digits num.toNat - 4) :=
      (Nat.div_eq_zero_iff_lt (Nat.pow_pos (by decide))).mp hvalue.symm
    have := (Nat.length_toDigits_le_iff (by decide) (Nat.sub_pos_of_lt hgt)).mpr hsmall
    exact absurd this (by unfold Decimal.digits at hgt ⊢; omega)

/-- A key that begins like those of the primary index is one of them, if its id is 0. -/
theorem inPrimaryIndex_of_prefix (hzero : table.primaryKeyIndex.id = 0) {table' : Table}
    {indexId : UInt32} {r : Bytes} (hr : Separated r)
    (h : minimumIndexKey table table.primaryKeyIndex.id <+: minimumIndexKey table' indexId ++ r) :
    InPrimaryIndex table (minimumIndexKey table' indexId ++ r) := by
  obtain ⟨s, hs⟩ := h
  have hkeys : pad table.dbId ++ (defaultEscapeCharacter :: pad table.id ++
        (defaultEscapeCharacter :: (pad 0 ++ s))) =
      pad table'.dbId ++ (defaultEscapeCharacter :: pad table'.id ++
        (defaultEscapeCharacter :: (pad indexId ++ r))) := by
    rw [hzero] at hs
    simpa [minimumIndexKey] using hs
  obtain ⟨hdb, hrest⟩ := pad_append_inj (separated_pad _ _) (separated_pad _ _) hkeys
  obtain ⟨hid, hrest⟩ :=
    pad_append_inj (separated_pad 0 s) (separated_pad indexId r) (List.cons.inj hrest).2
  have hindex : indexId = 0 := eq_zero_of_pad_prefix ⟨s, (List.cons.inj hrest).2⟩
  refine ⟨r, hr, ?_⟩
  unfold minimumIndexKey
  rw [← hdb, ← hid, hindex, hzero]

/-- What stands in for the first `prevKey` is not at the beginning of a key. -/
theorem Holds.not_prefix {rocks : Rocks} {rows : List (Row table)} (hholds : Holds rocks rows) :
    ∀ entry ∈ rocks.entries, ¬ "SOME WEIRD STRING".toList <+: entry.1 := by
  intro entry hentry hbegin
  have hfind : rocks.find? entry.1 ≠ none :=
    Option.ne_none_iff_exists'.mpr ⟨entry.2, SortedMap.find?_eq_some.mpr hentry⟩
  obtain ⟨table', indexId, r, -, hkey⟩ := hholds.written entry.1 hfind
  obtain ⟨c, t, hpad, -, hle⟩ := pad_eq_cons table'.dbId
  unfold minimumIndexKey at hkey
  rw [hkey, hpad] at hbegin
  obtain rfl : 'S' = c := (List.cons_prefix_cons.mp hbegin).1
  exact absurd hle (by decide)

/-- No key is written for two rows. -/
theorem nodup_keys (h : table.Keyed) {rows : List (Row table)} (hrows : rows.Pairwise Row.Before) :
    ((rows.flatMap Row.entries).map (·.1)).Nodup := by
  rw [List.map_flatMap, List.nodup_flatMap]
  refine ⟨fun row _ => nodup_keys_entries h row, hrows.imp fun {row row'} hbefore => ?_⟩
  intro key hkey hkey'
  have hclash : ∀ {row row' : Row table} {colId : UInt32},
      rowKey table row'.primaryKey ≠ columnKey (rowKey table row.primaryKey) colId := by
    intro row row' colId heq
    obtain ⟨c, t, hpad, hlt⟩ := aboveEscape_pad colId
    have := head?_of_rowKey_eq _ heq
    rw [hpad, List.head?_cons, Option.some_inj] at this
    exact hlt.ne' this
  dsimp only at hkey hkey'
  rw [keys_entries] at hkey hkey'
  rcases List.mem_cons.mp hkey with rfl | hkey
  · rcases List.mem_cons.mp hkey' with heq | hkey'
    · exact hbefore.rowKey_ne heq
    · obtain ⟨col, -, heq⟩ := List.mem_map.mp hkey'
      exact hclash heq.symm
  · obtain ⟨col, -, rfl⟩ := List.mem_map.mp hkey
    rcases List.mem_cons.mp hkey' with heq | hkey'
    · exact hclash heq.symm
    · obtain ⟨col', -, heq⟩ := List.mem_map.mp hkey'
      exact (hbefore.columnKey_lt col.id col'.id).ne heq.symm

/-- **A store that was empty**, after calls that have written these rows in some order. -/
theorem holds_of_calls (h : table.Keyed) {calls : List (Call table)} {rocks : Rocks}
    (hrun : calls.foldlM Call.run .empty = .ok rocks) {rows : List (Row table)}
    (hrows : rows.Pairwise Row.Before) (hperm : rows.Perm (MyDb.written calls)) : Holds rocks rows := by
  have hwritten : Written rocks :=
    Fallible.foldlM_invariant (fun _ _ _ hkeys hcall => hkeys.run h hcall) written_empty hrun
  refine ⟨fun key hkey => ?_, hwritten⟩
  have hstores := stores_empty.runAll h hrun key hkey
  rw [List.nil_append] at hstores
  have hnodup := nodup_keys h hrows
  have hnodup' := ((hperm.flatMap_right Row.entries).map (·.1)).nodup_iff.mp hnodup
  rw [hstores]
  ext value
  rw [SortedMap.lastValue_eq_some hnodup, SortedMap.lastValue_eq_some hnodup',
    (hperm.flatMap_right Row.entries).mem_iff]

/-- The keys of the rows that are not before the position behind some of them. -/
def keysBehind (rows : List (Row table)) (i : Nat) : List Bytes :=
  ((rows.flatMap Row.entries).map (·.1)).filter fun key => ¬ key < positionBehind rows i

/-- What the iterator sees of the table there. -/
def entriesBehind (rocks : Rocks) (rows : List (Row table)) (i : Nat) : List (Bytes × Bytes) :=
  rocks.entries.filter fun entry => ¬ entry.1 < positionBehind rows i ∧
    minimumIndexKey table table.primaryKeyIndex.id <+: entry.1

/-- The rows of which a page of `m` runs shows a column. -/
def shown (rows : List (Row table)) (m i : Nat) (colId : UInt32) : List (Row table) :=
  (rows.drop i).filter fun row =>
    PrefixRuns.started (keysBehind rows i) (columnKey (rowKey table row.primaryKey) colId) ≤ m

/-- The page. -/
def pageBehind (rows : List (Row table)) (m i : Nat) : ArrowTable where
  fields := table.columns.map (·.name)
  columns := table.columns.map fun col =>
    [((shown rows m i col.id).filter (·.Legible)).map (·.value col.id)]

/-! ## Reading it -/

theorem Table.Keyed.readCell_columnKey (h : table.Keyed) (hzero : table.primaryKeyIndex.id = 0)
    (row : Row table) {col : Column} (hcol : col ∈ table.columns) :
    readCell table
        (columnKey (rowKey table row.primaryKey) col.id, (row.value col.id).toString) =
      .ok (if row.Legible then some (col.id, row.value col.id) else none) :=
  MyDb.readCell_columnKey (h.ids.imp fun hlt => hlt.ne) h.ownIndex.columnIds_ne hzero row hcol

/-- What is read from an entry that can be read. -/
def cellOf (table : Table) (entry : Bytes × Bytes) : Option (UInt32 × ColumnValue) :=
  (readCell table entry).toOption.join

theorem readCell_eq_cellOf (h : table.Keyed) (hzero : table.primaryKeyIndex.id = 0) {row : Row table}
    {entry : Bytes × Bytes} (hentry : entry ∈ row.entries) :
    readCell table entry = .ok (cellOf table entry) := by
  obtain ⟨cell, hread⟩ : ∃ cell, readCell table entry = .ok cell := by
    rcases List.mem_cons.mp hentry with rfl | hentry
    · exact ⟨none, readCell_rowKey hzero row⟩
    · obtain ⟨col, hcol, rfl⟩ := List.mem_map.mp hentry
      exact ⟨_, h.readCell_columnKey hzero row hcol⟩
  unfold cellOf
  rw [hread]
  rfl

/-- **A cell is one of a legible row.** -/
theorem cellOf_eq_some_iff (h : table.Keyed) (hzero : table.primaryKeyIndex.id = 0) {row : Row table}
    {entry : Bytes × Bytes} (hentry : entry ∈ row.entries) {colId : UInt32} {value : ColumnValue} :
    cellOf table entry = some (colId, value) ↔ row.Legible ∧ colId ∈ table.columns.map (·.id) ∧
      entry = (columnKey (rowKey table row.primaryKey) colId, (row.value colId).toString) ∧
        value = row.value colId := by
  have hread := readCell_eq_cellOf h hzero hentry
  rcases List.mem_cons.mp hentry with rfl | hcolumn
  · rw [readCell_rowKey hzero, Except.ok.injEq] at hread
    rw [← hread]
    refine iff_of_false (Option.some_ne_none _).symm fun hcell => ?_
    have hkey := (Prod.mk.inj hcell.2.2.1).1
    unfold columnKey at hkey
    simp at hkey
  · obtain ⟨col, hcol, rfl⟩ := List.mem_map.mp hcolumn
    rw [h.readCell_columnKey hzero row hcol, Except.ok.injEq] at hread
    rw [← hread]
    by_cases hlegible : row.Legible
    · rw [if_pos hlegible, Option.some_inj, Prod.mk.injEq, and_iff_right hlegible]
      constructor
      · rintro ⟨rfl, rfl⟩
        exact ⟨List.mem_map_of_mem hcol, rfl, rfl⟩
      · rintro ⟨-, heq, rfl⟩
        have hkey := (Prod.mk.inj heq).1
        unfold columnKey at hkey
        obtain rfl : col.id = colId := pad_injective (by simpa using hkey)
        exact ⟨rfl, rfl⟩
    · rw [if_neg hlegible]
      exact iff_of_false (Option.some_ne_none _).symm fun hcell => hlegible hcell.1

theorem cellsOf_map {α : Type} (f : α → Option (UInt32 × ColumnValue)) (l : List α) (colId : UInt32) :
    cellsOf (l.map f) colId =
      (l.filter fun a => (f a).any (·.1 = colId)).filterMap fun a => (f a).map (·.2) := by
  induction l with
  | nil => rfl
  | cons a l ih =>
    unfold cellsOf at ih ⊢
    rw [List.map_cons, List.filter_cons]
    cases hcell : f a with
    | none =>
      rw [List.reduceOption_cons_of_none, ih]
      rfl
    | some cell =>
      rw [List.reduceOption_cons_of_some, List.filter_cons]
      by_cases hid : cell.1 = colId
      · rw [if_pos (by simpa using hid), if_pos (by simpa using hid), List.map_cons, ih,
          List.filterMap_cons, hcell]
        rfl
      · rw [if_neg (by simpa using hid), if_neg (by simpa using hid), ih]

/-- Over a keyed schema the arrays are in the order of the columns. -/
theorem idOrder_eq (h : table.Keyed) : table.idOrder = table.columns.map (·.id) :=
  List.Pairwise.eq_of_mem_iff sorted_idOrder h.ids fun _ => mem_idOrder

/-- The options `tableScanGenerator` goes on with behind some rows. -/
def optionsBehind (rows : List (Row table)) (m i : Nat) : IndexQueryOptions where
  indexId := table.primaryKeyIndex.id
  primaryKeyValues := keyBehind rows i
  maxRowsReturnSize := m

theorem keyBehind_cases (rows : List (Row table)) (i : Nat) :
    keyBehind rows i = [] ∨ ∃ row ∈ rows, keyBehind rows i = row.primaryKey := by
  cases i with
  | zero => exact .inl rfl
  | succ i =>
    show (rows[i]?.map Row.primaryKey).getD [] = [] ∨ ∃ row ∈ rows,
      (rows[i]?.map Row.primaryKey).getD [] = row.primaryKey
    cases hrow : rows[i]? with
    | none => exact .inl rfl
    | some row => exact .inr ⟨row, List.mem_of_getElem? hrow, rfl⟩

theorem seekPosition_optionsBehind (rows : List (Row table)) (m i : Nat) :
    seekPosition table (optionsBehind rows m i) = .ok (positionBehind rows i) := by
  unfold seekPosition positionBehind
  show (if keyBehind rows i = [] then _ else _) = _
  by_cases hnil : keyBehind rows i = []
  · rw [if_pos hnil, if_pos hnil]
    rfl
  · rw [if_neg hnil, if_neg hnil]
    obtain ⟨row, -, hkey⟩ := (keyBehind_cases rows i).resolve_left hnil
    have hlength : ¬ (optionsBehind rows m i).primaryKeyValues.length ≠
        table.primaryKeyIndex.columnIds.length := by
      show ¬ (keyBehind rows i).length ≠ _
      simp [hkey, Row.primaryKey]
    have hid : table.primaryKeyIndex.id = (optionsBehind rows m i).indexId := rfl
    rw [if_neg hlength, if_pos hid]
    unfold maximumIndexKey
    rw [if_pos hid]
    show (KeySerializer.primaryKey table (keyBehind rows i) >>= _) = _
    rw [hkey, primaryKey_eq]
    rfl

section behind

variable (h : table.Keyed) (hzero : table.primaryKeyIndex.id = 0) {rocks : Rocks}
  {rows : List (Row table)} (hholds : Holds rocks rows) (hrows : rows.Pairwise Row.Before)

include h hzero hholds hrows

/-- **What the store has under the prefix of the table**: what is written for the rows. -/
theorem Holds.mem_entries_iff {entry : Bytes × Bytes}
    (hbegin : minimumIndexKey table table.primaryKeyIndex.id <+: entry.1) :
    entry ∈ rocks.entries ↔ entry ∈ rows.flatMap Row.entries := by
  rw [← SortedMap.find?_eq_some (k := entry.1) (v := entry.2),
    ← SortedMap.lastValue_eq_some (nodup_keys h hrows)]
  constructor
  · intro hfind
    obtain ⟨table', indexId, r, hr, hkey⟩ :=
      hholds.written entry.1 (Option.ne_none_iff_exists'.mpr ⟨_, hfind⟩)
    rw [hkey] at hbegin
    have hin := inPrimaryIndex_of_prefix hzero hr hbegin
    rw [← hkey] at hin
    rwa [← hholds.stores entry.1 hin]
  · intro hvalue
    have hmem := (SortedMap.lastValue_eq_some (nodup_keys h hrows)).mp hvalue
    obtain ⟨row, -, hentry⟩ := List.mem_flatMap.mp hmem
    rw [hholds.stores entry.1
      (inPrimaryIndex_of_begins h row (rowKey_prefix_of_mem_entries hentry)), hvalue]

theorem Holds.mem_entriesBehind {i : Nat} {entry : Bytes × Bytes} :
    entry ∈ entriesBehind rocks rows i ↔
      entry ∈ rows.flatMap Row.entries ∧ ¬ entry.1 < positionBehind rows i := by
  unfold entriesBehind
  rw [List.mem_filter, decide_eq_true_iff]
  constructor
  · rintro ⟨hentry, hge, hbegin⟩
    exact ⟨(hholds.mem_entries_iff h hzero hrows hbegin).mp hentry, hge⟩
  · rintro ⟨hentry, hge⟩
    obtain ⟨row, -, hrow⟩ := List.mem_flatMap.mp hentry
    have hbegin := (minimumIndexKey_prefix_rowKey _).trans (rowKey_prefix_of_mem_entries hrow)
    exact ⟨(hholds.mem_entries_iff h hzero hrows hbegin).mpr hentry, hge, hbegin⟩

theorem Holds.perm_keysBehind (i : Nat) :
    ((entriesBehind rocks rows i).map (·.1)).Perm (keysBehind rows i) := by
  have hnodup : ((entriesBehind rocks rows i).map (·.1)).Nodup :=
    List.pairwise_map.mpr ((rocks.sorted.filter _).imp fun hlt => hlt.ne)
  refine (List.perm_ext_iff_of_nodup hnodup ((nodup_keys h hrows).filter _)).mpr fun key => ?_
  rw [List.mem_map, List.mem_filter, List.mem_map, decide_eq_true_iff]
  constructor
  · rintro ⟨entry, hentry, rfl⟩
    obtain ⟨hmem, hge⟩ := (hholds.mem_entriesBehind h hzero hrows).mp hentry
    exact ⟨⟨entry, hmem, rfl⟩, hge⟩
  · rintro ⟨⟨entry, hentry, rfl⟩, hge⟩
    exact ⟨entry, (hholds.mem_entriesBehind h hzero hrows).mpr ⟨hentry, hge⟩, rfl⟩

/-- **The cells of a column on a page** are those of the rows it shows. -/
theorem Holds.cells_shown {i : Nat} (hi : i ≤ rows.length) (m : Nat) {col : Column}
    (hcol : col ∈ table.columns) :
    ((entriesBehind rocks rows i).filter fun entry =>
        PrefixRuns.started (keysBehind rows i) entry.1 ≤ m).filter
          (fun entry => (cellOf table entry).any (·.1 = col.id)) =
      ((shown rows m i col.id).filter (·.Legible)).map fun row =>
        (columnKey (rowKey table row.primaryKey) col.id, (row.value col.id).toString) := by
  have : Std.Irrefl fun entry entry' : Bytes × Bytes => entry.1 < entry'.1 :=
    ⟨fun entry => lt_irrefl entry.1⟩
  have : Std.Antisymm fun entry entry' : Bytes × Bytes => entry.1 < entry'.1 :=
    ⟨fun _ _ hlt hgt => absurd hgt hlt.not_gt⟩
  refine List.Pairwise.eq_of_mem_iff (r := fun entry entry' : Bytes × Bytes => entry.1 < entry'.1)
    (((rocks.sorted.filter _).filter _).filter _) ?_ fun entry => ?_
  · refine List.pairwise_map.mpr ((((hrows.sublist (List.drop_sublist i rows)).filter _).filter _).imp ?_)
    exact fun hbefore => hbefore.columnKey_lt col.id col.id
  · rw [List.mem_filter, List.mem_filter, hholds.mem_entriesBehind h hzero hrows, decide_eq_true_iff,
      List.mem_map]
    constructor
    · rintro ⟨⟨⟨hentry, hge⟩, hstarted⟩, hany⟩
      obtain ⟨row, hrow, hmem⟩ := List.mem_flatMap.mp hentry
      obtain ⟨cell, hcell⟩ : ∃ cell, cellOf table entry = some cell :=
        Option.isSome_iff_exists.mp (Option.isSome_of_any hany)
      have hid : decide (cell.1 = col.id) = true := by rwa [hcell] at hany
      obtain ⟨hlegible, -, rfl, -⟩ := (cellOf_eq_some_iff h hzero hmem).mp hcell
      rw [of_decide_eq_true hid] at hge hstarted ⊢
      refine ⟨row, ?_, rfl⟩
      rw [List.mem_filter, shown, List.mem_filter]
      exact ⟨⟨(mem_drop_iff h hrows hi hrow col.id).mpr hge, decide_eq_true hstarted⟩,
        decide_eq_true hlegible⟩
    · rintro ⟨row, hmem, rfl⟩
      rw [List.mem_filter, shown, List.mem_filter] at hmem
      obtain ⟨⟨hdrop, hstarted⟩, hlegible⟩ := hmem
      have hrow : row ∈ rows := List.mem_of_mem_drop hdrop
      have hentry : (columnKey (rowKey table row.primaryKey) col.id, (row.value col.id).toString) ∈
          row.entries := List.mem_cons_of_mem _ (List.mem_map_of_mem hcol)
      have hcell := (cellOf_eq_some_iff h hzero hentry).mpr
        ⟨of_decide_eq_true hlegible, List.mem_map_of_mem hcol, rfl, rfl⟩
      refine ⟨⟨⟨List.mem_flatMap.mpr ⟨row, hrow, hentry⟩, ?_⟩, of_decide_eq_true hstarted⟩, ?_⟩
      · exact (mem_drop_iff h hrows hi hrow col.id).mp hdrop
      · rw [hcell]
        exact decide_eq_true rfl

/-- **What a page shows.** -/
theorem Holds.tableScan_behind {i : Nat} (hi : i ≤ rows.length) (m : Nat) :
    tableScan rocks table (optionsBehind rows m i) = .ok (pageBehind rows m i) := by
  have hids : (table.columns.map (·.id)).Nodup := h.ids.imp fun hlt => hlt.ne
  unfold tableScan
  rw [seekPosition_optionsBehind]
  show (if table.primaryKeyIndex.id = table.primaryKeyIndex.id then _ else _) = _
  rw [if_pos rfl, deserialize_ok_iff hids]
  -- the page is the entries up to which not too many runs have started
  have hflatten : (RocksReaderWriter.scan rocks
      { maxRowsReturnSize := (optionsBehind rows m i).maxRowsReturnSize
        seekPosition := positionBehind rows i
        keyPrefix := minimumIndexKey table (optionsBehind rows m i).indexId }).flatten =
      (entriesBehind rocks rows i).filter fun entry =>
        PrefixRuns.started (keysBehind rows i) entry.1 ≤ m := by
    have hperm := hholds.perm_keysBehind h hzero hrows i
    unfold entriesBehind at hperm ⊢
    rw [RocksReaderWriter.scan_eq_take_runs hholds.not_prefix]
    dsimp only [optionsBehind]
    rw [SortedMap.takeWhile_dropWhile_eq_filter rocks (minimumIndexKey_prefix_positionBehind rows i),
      PrefixRuns.flatten_take_runs (rocks.sorted.filter _)]
    refine List.filter_congr fun entry _ => ?_
    rw [PrefixRuns.started_of_perm hperm]
  refine ⟨columns_ne_nil h, _, Fallible.mapM_ok (k := cellOf table) ?_, ?_⟩
  · intro entry hentry
    have hmem := (List.mem_filter.mp (hflatten ▸ hentry)).1
    obtain ⟨row, -, hrow⟩ :=
      List.mem_flatMap.mp ((hholds.mem_entriesBehind h hzero hrows).mp hmem).1
    exact readCell_eq_cellOf h hzero hrow
  · unfold pageBehind
    rw [hflatten, idOrder_eq h, List.map_map, ArrowTable.mk.injEq, and_iff_right rfl]
    refine List.map_congr_left fun col hcol => ?_
    dsimp only [Function.comp]
    rw [cellsOf_map, hholds.cells_shown h hzero hrows hi m hcol, List.filterMap_map,
      List.filterMap_eq_map_iff_forall_eq_some.mpr]
    intro row hrow
    rw [List.mem_filter, shown, List.mem_filter] at hrow
    have hentry : (columnKey (rowKey table row.primaryKey) col.id, (row.value col.id).toString) ∈
        row.entries := List.mem_cons_of_mem _ (List.mem_map_of_mem hcol)
    have hcell := (cellOf_eq_some_iff h hzero hentry).mpr
      ⟨of_decide_eq_true hrow.2, List.mem_map_of_mem hcol, rfl, rfl⟩
    rw [Function.comp_apply, hcell]
    rfl

end behind

end ReplicatedCounter.MyDb
