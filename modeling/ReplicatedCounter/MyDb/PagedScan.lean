import ReplicatedCounter.MyDb.TableScan

/-!
# Scanning a table page by page

`tableScanGenerator` takes the `m`-th row of a page of `m` rows for its last one, and goes on behind
it. A page that is too short for that ends the run, and one that is short by one row only starts it
all over again, since there is no key then to go on behind. And a page has more than `m` rows where
the scan takes two of them for one.

`scansAll_iff` says when every row comes exactly once nevertheless. Where no row's key begins with
another one's that is when the page size divides the number of rows: `KeysApart.paged_iff`.
-/

set_option autoImplicit false

namespace ReplicatedCounter.MyDb

open KeySerializer RowSerializer QueryExecutor

variable {table : Table}

/-- The generator over the primary index returns, and what it has yielded is every row once, on
pages of `m` rows. -/
def ScansAll (rocks : Rocks) (response : Option ArrowTable) (rows : List (Row table)) (m : Nat) :
    Prop :=
  ∃ (turns : Nat) (pages : List (List (Row table))),
    tableScanGenerator rocks table response turns
        { indexId := table.primaryKeyIndex.id, maxRowsReturnSize := m } =
      some (.ok (pages.map (arrowTable table.columns))) ∧ pages.flatten.Perm rows

/-- From page `first` on the rows come on pages of `m` rows, of which the last one is page
`pages - 1`. -/
structure Paged (rows : List (Row table)) (m first pages : Nat) : Prop where
  first_le : first ≤ pages
  /-- A page shows the next `m` rows, with all their columns. -/
  full : ∀ j, first ≤ j → j + 1 < pages → ∀ col ∈ table.columns,
    (shown rows m (j * m) col.id).length = m
  /-- The last page shows what is left. -/
  last : ∀ j, first ≤ j → j + 1 = pages → ∀ col ∈ table.columns,
    j * m + (shown rows m (j * m) col.id).length = rows.length
  /-- That is not less than `m` rows. -/
  enough : pages * m ≤ rows.length
  /-- Behind `m` rows of it there is nothing to see in the first column. -/
  stop : ∀ col ∈ table.columns.head?, (shown rows m (pages * m) col.id).length = 0
  /-- Without a page there are no rows. -/
  none : pages = first → first * m = rows.length

/-! ## One page -/

/-- A slice of one row. -/
theorem slice_arrowTable {columns : List Column} (hne : columns ≠ []) (rows : List (Row table))
    (offset : Nat) :
    (arrowTable columns rows).slice offset 1 =
      if offset ≤ rows.length then .ok (arrowTable columns ((rows.drop offset).take 1))
      else .error .undefinedBehaviour := by
  have hslice : ∀ col : Column,
      ArrowTable.sliceChunks offset 1 [rows.map (·.value col.id)] =
        [((rows.drop offset).take 1).map (·.value col.id)] := by
    intro col
    unfold ArrowTable.sliceChunks
    rw [if_neg fun h => h.2 rfl, ← List.map_drop, ← List.map_take]
    dsimp only
    split <;> rfl
  unfold ArrowTable.slice arrowTable
  dsimp only
  rw [List.mapM_map]
  split
  · rename_i hle
    rw [Fallible.mapM_ok (k := fun col => [((rows.drop offset).take 1).map (·.value col.id)])]
    · rfl
    · intro col _
      rw [Function.comp_apply, if_pos ⟨Int.natCast_nonneg offset, by simpa using hle⟩]
      exact congrArg Except.ok (hslice col)
  · rename_i hgt
    obtain ⟨col, columns, rfl⟩ := List.exists_cons_of_ne_nil hne
    rw [List.mapM_cons, Function.comp_apply, if_neg fun h => hgt (by simpa using h.2)]
    rfl

theorem parsePrimaryKeyValues_arrowTable (h : table.Keyed) (rows : List (Row table)) :
    parsePrimaryKeyValues table (arrowTable table.columns rows) =
      .ok ((rows.head?.map Row.primaryKey).getD []) := by
  unfold parsePrimaryKeyValues parseKeyValues
  rw [positions_arrowTable (columns_ne_nil h)]
  cases rows with
  | nil => rfl
  | cons row rows =>
    rw [List.length_cons, List.range_succ_eq_map, List.map_cons]
    exact mapM_valueOfId h h.names (fun col hcol => (List.mem_filter.mp hcol).1) rfl

/-- **A turn of the generator on a page of rows.** It goes on behind the `m`-th of them, from the
beginning if there is none. -/
theorem nextPage_eq (h : table.Keyed) {rocks : Rocks} {response : Option ArrowTable}
    {indexQueryOptions : IndexQueryOptions} (hid : indexQueryOptions.indexId = table.primaryKeyIndex.id)
    (hm : 1 ≤ indexQueryOptions.maxRowsReturnSize) {page : List (Row table)}
    (hscan : tableScan rocks table indexQueryOptions = .ok (arrowTable table.columns page)) :
    nextPage rocks table response indexQueryOptions =
      if page.length = 0 then .ok none
      else if indexQueryOptions.maxRowsReturnSize - 1 ≤ page.length then
        .ok (some (arrowTable table.columns page, { indexQueryOptions with
          primaryKeyValues :=
            (page[indexQueryOptions.maxRowsReturnSize - 1]?.map Row.primaryKey).getD [] }))
      else .error .undefinedBehaviour := by
  have hoffset : (indexQueryOptions.maxRowsReturnSize : Int) - 1 =
      ((indexQueryOptions.maxRowsReturnSize - 1 : Nat) : Int) := by omega
  have hhead : ((page.drop (indexQueryOptions.maxRowsReturnSize - 1)).take 1).head? =
      page[indexQueryOptions.maxRowsReturnSize - 1]? := by
    rw [List.head?_take, if_neg one_ne_zero, List.head?_drop]
  unfold nextPage
  rw [hscan]
  show (if (arrowTable table.columns page).numRows = 0 then _ else _) = _
  rw [numRows_arrowTable (columns_ne_nil h), hoffset, slice_arrowTable (columns_ne_nil h)]
  split
  · rfl
  · split
    · show (parsePrimaryKeyValues table _ >>= _) = _
      rw [parsePrimaryKeyValues_arrowTable h, hhead]
      show (nextSecondaryKeyValues table response indexQueryOptions >>= _) = _
      have hsecondary : nextSecondaryKeyValues table response indexQueryOptions =
          .ok indexQueryOptions.secondaryKeyValues := if_pos hid.symm
      rw [hsecondary]
      rfl
    · rfl

/-! ## The rows on a page -/

/-- What is kept of a list by a property that an element has if a later one has it is its
beginning. -/
theorem filter_eq_take {α : Type} {R : α → α → Prop} {p : α → Bool} {l : List α} (hl : l.Pairwise R)
    (hp : ∀ a b, R a b → p b = true → p a = true) : l.filter p = l.take (l.filter p).length := by
  induction l with
  | nil => rfl
  | cons a l ih =>
    obtain ⟨hhead, hrest⟩ := List.pairwise_cons.mp hl
    rw [List.filter_cons]
    split
    · rw [List.length_cons, List.take_succ_cons, ← ih hrest]
    · rename_i hnot
      have hnil : l.filter p = [] :=
        List.filter_eq_nil_iff.mpr fun b hb hpb => hnot (hp a b (hhead b hb) hpb)
      rw [hnil]
      rfl

theorem started_mono {keys : List Bytes} {k k' : Bytes} (h : k < k') :
    PrefixRuns.started keys k ≤ PrefixRuns.started keys k' := by
  refine List.countP_mono_left fun start _ hstart => ?_
  obtain ⟨hle, hstarts⟩ := of_decide_eq_true hstart
  exact decide_eq_true ⟨fun hlt => hle (lt_trans h hlt), hstarts⟩

/-- **A page shows the next rows** of each column. -/
theorem shown_eq_take {rows : List (Row table)} (hrows : rows.Pairwise Row.Before) (m i : Nat)
    (colId : UInt32) : shown rows m i colId =
      (rows.drop i).take (shown rows m i colId).length := by
  refine filter_eq_take (hrows.sublist (List.drop_sublist i rows)) fun row row' hbefore hstarted => ?_
  exact decide_eq_true ((started_mono (hbefore.columnKey_lt colId colId)).trans
    (of_decide_eq_true hstarted))

theorem eq_of_primaryKey_eq {rows : List (Row table)} (hrows : rows.Pairwise Row.Before)
    {row row' : Row table} (hrow : row ∈ rows) (hrow' : row' ∈ rows)
    (hkey : row.primaryKey = row'.primaryKey) : row = row' := by
  have hsame : rowKey table row.primaryKey = rowKey table row'.primaryKey := by rw [hkey]
  obtain ⟨i, hi⟩ := List.mem_iff_getElem?.mp hrow
  obtain ⟨j, hj⟩ := List.mem_iff_getElem?.mp hrow'
  rcases lt_trichotomy i j with hlt | rfl | hlt
  · exact absurd hsame (before_of_getElem? hrows hi hj hlt).rowKey_ne
  · exact Option.some.inj (hi.symm.trans hj)
  · exact absurd hsame.symm (before_of_getElem? hrows hj hi hlt).rowKey_ne

theorem filter_legible_shown {rows : List (Row table)} (hlegible : ∀ row ∈ rows, row.Legible)
    (m i : Nat) (colId : UInt32) :
    (shown rows m i colId).filter (·.Legible) = shown rows m i colId := by
  refine List.filter_eq_self.mpr fun row hrow => decide_eq_true (hlegible row ?_)
  exact List.mem_of_mem_drop (List.mem_filter.mp hrow).1

/-- A page that shows all columns of as many rows. -/
theorem pageBehind_eq {rows : List (Row table)} (hrows : rows.Pairwise Row.Before)
    (hlegible : ∀ row ∈ rows, row.Legible) {m i n : Nat}
    (hshown : ∀ col ∈ table.columns, (shown rows m i col.id).length = n) :
    pageBehind rows m i = arrowTable table.columns ((rows.drop i).take n) := by
  unfold pageBehind arrowTable
  rw [ArrowTable.mk.injEq, and_iff_right rfl]
  refine List.map_congr_left fun col hcol => ?_
  rw [filter_legible_shown hlegible, shown_eq_take hrows, hshown col hcol]

/-- **A page that is a table of rows** has the next rows. -/
theorem eq_take_of_pageBehind (h : table.Keyed) {rows : List (Row table)}
    (hrows : rows.Pairwise Row.Before) (hlegible : ∀ row ∈ rows, row.Legible) {m i : Nat}
    {page : List (Row table)} (hpage : ∀ row ∈ page, row ∈ rows)
    (heq : pageBehind rows m i = arrowTable table.columns page) :
    page = (rows.drop i).take page.length ∧
      ∀ col ∈ table.columns, (shown rows m i col.id).length = page.length := by
  have hcolumns : ∀ col ∈ table.columns,
      (shown rows m i col.id).map (·.value col.id) = page.map (·.value col.id) := by
    intro col hcol
    unfold pageBehind arrowTable at heq
    have := List.map_inj_left.mp (ArrowTable.mk.inj heq).2 col hcol
    rwa [List.singleton_inj, filter_legible_shown hlegible] at this
  have hlength : ∀ col ∈ table.columns, (shown rows m i col.id).length = page.length := by
    intro col hcol
    simpa using congrArg List.length (hcolumns col hcol)
  have htake : ∀ col ∈ table.columns,
      ((rows.drop i).take page.length).map (·.value col.id) = page.map (·.value col.id) := by
    intro col hcol
    rw [← hcolumns col hcol, ← hlength col hcol, ← shown_eq_take hrows]
  refine ⟨?_, hlength⟩
  obtain ⟨col, hcol⟩ := List.exists_mem_of_ne_nil _ (columns_ne_nil h)
  refine List.ext_getElem ?_ fun k hk hk' => ?_
  · simpa using (congrArg List.length (htake col hcol)).symm
  · refine eq_of_primaryKey_eq hrows (hpage _ (List.getElem_mem hk))
      (List.mem_of_mem_drop (List.mem_of_mem_take (List.getElem_mem hk'))) ?_
    unfold Row.primaryKey
    refine List.map_congr_left fun colId hcolId => ?_
    rw [h.columnIds] at hcolId
    obtain ⟨col, hcol, rfl⟩ := List.mem_map.mp hcolId
    have hvalues := List.getElem_of_eq (htake col (List.mem_filter.mp hcol).1) (i := k)
      (by rw [List.length_map]; exact hk')
    rw [List.getElem_map, List.getElem_map] at hvalues
    exact hvalues.symm

/-! ## Turns of the generator -/

section generator

variable {rocks : Rocks} {response : Option ArrowTable} {indexQueryOptions : IndexQueryOptions}

theorem tableScanGenerator_mono {turns : Nat} {result : Except ExecutionError (List ArrowTable)}
    (hrun : tableScanGenerator rocks table response turns indexQueryOptions = some result) (k : Nat) :
    tableScanGenerator rocks table response (turns + k) indexQueryOptions = some result := by
  induction turns generalizing indexQueryOptions result with
  | zero => cases hrun
  | succ turns ih =>
    rw [Nat.succ_add]
    unfold tableScanGenerator at hrun ⊢
    cases hnext : nextPage rocks table response indexQueryOptions with
    | error e =>
      rw [hnext] at hrun
      exact hrun
    | ok result =>
      rw [hnext] at hrun
      cases result with
      | none => exact hrun
      | some next =>
        obtain ⟨result', hrest, hresult⟩ := Option.map_eq_some_iff.mp hrun
        exact Option.map_eq_some_iff.mpr ⟨result', ih hrest, hresult⟩

/-- However many turns a run is given, its result is one. -/
theorem tableScanGenerator_unique {turns turns' : Nat}
    {result result' : Except ExecutionError (List ArrowTable)}
    (hrun : tableScanGenerator rocks table response turns indexQueryOptions = some result)
    (hrun' : tableScanGenerator rocks table response turns' indexQueryOptions = some result') :
    result = result' := by
  have h := tableScanGenerator_mono hrun turns'
  have h' := tableScanGenerator_mono hrun' turns
  rw [Nat.add_comm] at h'
  exact Option.some.inj (h.symm.trans h')

theorem nextPage_cases {result : Option (ArrowTable × IndexQueryOptions)}
    (hnext : nextPage rocks table response indexQueryOptions = .ok result) :
    ∃ page, tableScan rocks table indexQueryOptions = .ok page ∧
      ((result = none ∧ page.numRows = 0) ∨ ∃ next, result = some (page, next)) := by
  unfold nextPage at hnext
  obtain ⟨page, hscan, hnext⟩ := Fallible.bind_eq_ok.mp hnext
  refine ⟨page, hscan, ?_⟩
  split at hnext
  · rename_i hrows
    cases hnext
    exact .inl ⟨rfl, hrows⟩
  · obtain ⟨lastRow, -, hnext⟩ := Fallible.bind_eq_ok.mp hnext
    obtain ⟨primaryKeyValues, -, hnext⟩ := Fallible.bind_eq_ok.mp hnext
    obtain ⟨secondaryKeyValues, -, hnext⟩ := Fallible.bind_eq_ok.mp hnext
    cases hnext
    exact .inr ⟨_, rfl⟩

end generator

/-- The `m`-th row of a page that begins behind some rows. -/
theorem keyBehind_eq {rows : List (Row table)} {m : Nat} (hm : 1 ≤ m) {i : Nat}
    {page : List (Row table)} (hpage : page = (rows.drop i).take page.length) (hle : m ≤ page.length) :
    keyBehind rows (i + m) = (page[m - 1]?.map Row.primaryKey).getD [] := by
  obtain ⟨k, rfl⟩ := Nat.exists_eq_add_of_le' hm
  show (rows[i + k]?.map Row.primaryKey).getD [] = _
  rw [Nat.add_sub_cancel, hpage, List.getElem?_take_of_lt (Nat.lt_of_succ_le hle), List.getElem?_drop]

/-- As many rows as the first column has. -/
theorem numRows_pageBehind {rows : List (Row table)} (hlegible : ∀ row ∈ rows, row.Legible)
    (m i : Nat) :
    ∀ col ∈ table.columns.head?,
      (pageBehind rows m i).numRows = (shown rows m i col.id).length := by
  intro col hcol
  obtain ⟨columns, hcolumns⟩ := List.head?_eq_some_iff.mp hcol
  unfold pageBehind ArrowTable.numRows
  rw [hcolumns, List.map_cons (f := fun col => [_])]
  dsimp only
  rw [filter_legible_shown hlegible]
  simp

theorem sum_numRows (h : table.Keyed) (pages : List (List (Row table))) :
    ((pages.map (arrowTable table.columns)).map ArrowTable.numRows).sum = pages.flatten.length := by
  rw [List.map_map, List.length_flatten]
  refine congrArg List.sum (List.map_congr_left fun page _ => ?_)
  exact numRows_arrowTable (columns_ne_nil h) page

section run

variable (h : table.Keyed) (hzero : table.primaryKeyIndex.id = 0) {rocks : Rocks}
  {rows : List (Row table)} (hholds : Holds rocks rows) (hrows : rows.Pairwise Row.Before) {m : Nat}
  (hm : 1 ≤ m) {response : Option ArrowTable}

include h hzero hholds hrows

/-- A page without rows ends a run. -/
theorem run_of_stop {i : Nat} (hi : i ≤ rows.length) (hstop : (pageBehind rows m i).numRows = 0)
    (turns : Nat) :
    tableScanGenerator rocks table response (turns + 1) (optionsBehind rows m i) = some (.ok []) := by
  have hnext : nextPage rocks table response (optionsBehind rows m i) = .ok none := by
    unfold nextPage
    rw [hholds.tableScan_behind h hzero hrows hi m]
    exact if_pos hstop
  unfold tableScanGenerator
  rw [hnext]

include hm

/-- **The first turn of a run that returns.** -/
theorem run_cases {turns i : Nat} (hi : i ≤ rows.length) {pages : List (List (Row table))}
    (hrun : tableScanGenerator rocks table response turns (optionsBehind rows m i) =
      some (.ok (pages.map (arrowTable table.columns)))) :
    (pages = [] ∧ (pageBehind rows m i).numRows = 0) ∨
      ∃ page rest turns', pages = page :: rest ∧
        pageBehind rows m i = arrowTable table.columns page ∧ page ≠ [] ∧ m - 1 ≤ page.length ∧
        ∀ i', keyBehind rows i' = (page[m - 1]?.map Row.primaryKey).getD [] →
          tableScanGenerator rocks table response turns' (optionsBehind rows m i') =
            some (.ok (rest.map (arrowTable table.columns))) := by
  have hscan := hholds.tableScan_behind h hzero hrows hi m
  cases turns with
  | zero => cases hrun
  | succ turns =>
    unfold tableScanGenerator at hrun
    cases hnext : nextPage rocks table response (optionsBehind rows m i) with
    | error e =>
      rw [hnext] at hrun
      cases hrun
    | ok result =>
      rw [hnext] at hrun
      obtain ⟨page, hpage, hresult⟩ := nextPage_cases hnext
      obtain rfl : pageBehind rows m i = page := Except.ok.inj (hscan.symm.trans hpage)
      rcases hresult with ⟨rfl, hstop⟩ | ⟨next, rfl⟩
      · refine .inl ⟨?_, hstop⟩
        have := Except.ok.inj (Option.some.inj hrun)
        exact List.map_eq_nil_iff.mp this.symm
      · obtain ⟨result, hrest, hresult⟩ := Option.map_eq_some_iff.mp hrun
        cases result with
        | error e => cases hresult
        | ok tables =>
          obtain ⟨page, rest, rfl, hfirst, rfl⟩ :=
            List.map_eq_cons_iff.mp (Except.ok.inj hresult).symm
          rw [← hfirst] at hscan
          rw [nextPage_eq h rfl hm hscan] at hnext
          split at hnext
          · cases hnext
          · rename_i hne
            split at hnext
            · rename_i hle
              refine .inr ⟨page, rest, turns, rfl, hfirst.symm, ?_, hle, fun i' hkey => ?_⟩
              · exact fun hnil => hne (by rw [hnil, List.length_nil])
              · have hoptions := (Prod.mk.inj (Option.some.inj (Except.ok.inj hnext))).2
                rw [← hrest, ← hoptions]
                unfold optionsBehind
                rw [hkey]
            · cases hnext

/-- **What comes is legible.** -/
theorem legible_of_run {turns i : Nat} (hi : i ≤ rows.length) {pages : List (List (Row table))}
    (hrun : tableScanGenerator rocks table response turns (optionsBehind rows m i) =
      some (.ok (pages.map (arrowTable table.columns))))
    (hpages : ∀ page ∈ pages, ∀ row ∈ page, row ∈ rows) :
    ∀ page ∈ pages, ∀ row ∈ page, row.Legible := by
  induction pages generalizing turns i with
  | nil => exact fun page hpage => absurd hpage List.not_mem_nil
  | cons page rest ih =>
    rcases run_cases h hzero hholds hrows hm hi hrun with ⟨hnil, -⟩ |
      ⟨_, _, turns', hcons, hpage, -, -, hnext⟩
    · cases hnil
    · obtain ⟨rfl, rfl⟩ := List.cons.inj hcons
      obtain ⟨hfirst, hrest⟩ := List.forall_mem_cons.mp hpages
      refine List.forall_mem_cons.mpr ⟨fun row hrow value hvalue => ?_, ?_⟩
      · -- the value is that of some row that the page shows
        unfold Row.primaryKey at hvalue
        obtain ⟨colId, hcolId, rfl⟩ := List.mem_map.mp hvalue
        rw [h.columnIds] at hcolId
        obtain ⟨col, hcol, rfl⟩ := List.mem_map.mp hcolId
        unfold pageBehind arrowTable at hpage
        have hcolumn := List.map_inj_left.mp (ArrowTable.mk.inj hpage).2 col
          (List.mem_filter.mp hcol).1
        rw [List.singleton_inj] at hcolumn
        have hmem : row.value col.id ∈ page.map (·.value col.id) := List.mem_map_of_mem hrow
        rw [← hcolumn] at hmem
        obtain ⟨row', hrow', heq⟩ := List.mem_map.mp hmem
        rw [← heq]
        refine of_decide_eq_true (List.mem_filter.mp hrow').2 _ ?_
        unfold Row.primaryKey
        rw [h.columnIds]
        exact List.mem_map_of_mem (List.mem_map_of_mem hcol)
      · cases hlast : page[m - 1]? with
        | none => exact ih (Nat.zero_le _) (hnext 0 (by rw [hlast]; rfl)) hrest
        | some row =>
          obtain ⟨i', hi'⟩ := List.mem_iff_getElem?.mp (hfirst row (List.mem_of_getElem? hlast))
          refine ih (List.getElem?_eq_some_iff.mp hi').1 (hnext (i' + 1) ?_) hrest
          rw [hlast]
          show (rows[i']?.map Row.primaryKey).getD [] = _
          rw [hi']

/-- **The pages of a run that returns.** -/
theorem paged_of_run (hlegible : ∀ row ∈ rows, row.Legible) {turns₀ : Nat}
    {pages₀ : List (List (Row table))}
    (hrun₀ : tableScanGenerator rocks table response turns₀ (optionsBehind rows m 0) =
      some (.ok (pages₀.map (arrowTable table.columns))))
    (hperm₀ : pages₀.flatten.Perm rows) {turns j : Nat} (hj : j * m ≤ rows.length)
    {pages : List (List (Row table))}
    (hrun : tableScanGenerator rocks table response turns (optionsBehind rows m (j * m)) =
      some (.ok (pages.map (arrowTable table.columns))))
    (hperm : pages.flatten.Perm (rows.drop (j * m))) :
    ∃ last, Paged rows m j last := by
  induction pages generalizing turns j with
  | nil =>
    have hlength := hperm.length_eq
    rw [List.flatten_nil, List.length_nil, List.length_drop] at hlength
    have hall : j * m = rows.length := by omega
    refine ⟨j, le_rfl, ?_, ?_, hj, fun col _ => ?_, fun _ => hall⟩
    · intro j' hle hlt
      omega
    · intro j' hle heq
      omega
    · unfold shown
      rw [List.drop_eq_nil_of_le hall.ge]
      rfl
  | cons page rest ih =>
    have hmem : ∀ row ∈ page, row ∈ rows := fun row hrow => List.mem_of_mem_drop
      (hperm.mem_iff.mp (List.mem_flatten.mpr ⟨page, List.mem_cons_self, hrow⟩))
    rcases run_cases h hzero hholds hrows hm hj hrun with ⟨hnil, -⟩ |
      ⟨_, _, turns', hcons, hpage, hne, hle, hnext⟩
    · cases hnil
    · obtain ⟨rfl, rfl⟩ := List.cons.inj hcons
      obtain ⟨htake, hshown⟩ := eq_take_of_pageBehind h hrows hlegible hmem hpage
      have hpos : 0 < page.length := List.length_pos_iff.mpr hne
      have hbound : j * m + page.length ≤ rows.length := by
        have := congrArg List.length htake
        rw [List.length_take, List.length_drop] at this
        omega
      have hrest : rest.flatten.Perm (rows.drop (j * m + page.length)) := by
        have hsplit := List.take_append_drop page.length (rows.drop (j * m))
        rw [← htake, List.drop_drop] at hsplit
        rw [List.flatten_cons, ← hsplit] at hperm
        exact (List.perm_append_left_iff page).mp hperm
      have hsucc : (j + 1) * m = j * m + m := Nat.succ_mul j m
      rcases lt_trichotomy page.length m with hlt | heq | hgt
      · -- the generator begins again, and yields everything once more
        have hagain := hnext 0 (by rw [List.getElem?_eq_none (by omega)]; rfl)
        have hsame := Except.ok.inj (tableScanGenerator_unique hagain hrun₀)
        have hrows₀ : rest.flatten.length = pages₀.flatten.length := by
          rw [← sum_numRows h, ← sum_numRows h, hsame]
        rw [hrest.length_eq, hperm₀.length_eq, List.length_drop] at hrows₀
        omega
      · have hnext' := hnext ((j + 1) * m) (by rw [hsucc]; exact keyBehind_eq hm htake heq.ge)
        rw [heq, ← hsucc] at hrest
        obtain ⟨last, hpaged⟩ := ih (by omega) hnext' hrest
        have hlast := hpaged.first_le
        refine ⟨last, by omega, ?_, ?_, hpaged.enough, hpaged.stop, fun heq => by omega⟩
        · intro j' hle' hlt' col hcol
          rcases Nat.eq_or_lt_of_le hle' with rfl | hless
          · rw [hshown col hcol, heq]
          · exact hpaged.full j' hless hlt' col hcol
        · intro j' hle' heq' col hcol
          rcases Nat.eq_or_lt_of_le hle' with rfl | hless
          · rw [hshown col hcol, heq, ← hsucc]
            exact hpaged.none heq'.symm
          · exact hpaged.last j' hless heq' col hcol
      · have hnext' := hnext ((j + 1) * m) (by rw [hsucc]; exact keyBehind_eq hm htake hgt.le)
        have hbehind : (j + 1) * m ≤ rows.length := by omega
        rcases run_cases h hzero hholds hrows hm hbehind hnext' with ⟨rfl, hstop⟩ |
          ⟨page', rest', _, rfl, hpage', hne', -, -⟩
        · have hall := hrest.length_eq
          rw [List.flatten_nil, List.length_nil, List.length_drop] at hall
          refine ⟨j + 1, Nat.le_succ j, ?_, ?_, hbehind, fun col hcol => ?_, fun heq => by omega⟩
          · intro j' hle' hlt'
            omega
          · intro j' hle' heq' col hcol
            obtain rfl : j' = j := Nat.succ.inj heq'
            rw [hshown col hcol]
            omega
          · rw [← numRows_pageBehind hlegible m _ col hcol]
            exact hstop
        · -- the row behind the `m`-th one comes again
          exfalso
          have hmem' : ∀ row ∈ page', row ∈ rows.drop (j * m + page.length) := fun row hrow =>
            hrest.mem_iff.mp (List.mem_flatten.mpr ⟨page', List.mem_cons_self, hrow⟩)
          obtain ⟨htake', -⟩ := eq_take_of_pageBehind h hrows hlegible
            (fun row hrow => List.mem_of_mem_drop (hmem' row hrow)) hpage'
          obtain ⟨row, tail, htail⟩ := List.exists_cons_of_ne_nil hne'
          have hfirst : rows[(j + 1) * m]? = some row := by
            have := congrArg List.head? htake'
            rw [List.head?_take, if_neg (List.length_pos_iff.mpr hne').ne', List.head?_drop, htail,
              List.head?_cons] at this
            exact this.symm
          obtain ⟨k, hk⟩ := List.mem_iff_getElem?.mp (hmem' row (htail ▸ List.mem_cons_self))
          rw [List.getElem?_drop] at hk
          exact (before_of_getElem? hrows hfirst hk (by omega)).rowKey_ne rfl

/-- A turn on a page of at least `m` of the next rows. -/
theorem turn_eq {i : Nat} (hi : i ≤ rows.length) {page : List (Row table)}
    (hpage : pageBehind rows m i = arrowTable table.columns page)
    (htake : page = (rows.drop i).take page.length) (hle : m ≤ page.length) (turns : Nat) :
    tableScanGenerator rocks table response (turns + 1) (optionsBehind rows m i) =
      (tableScanGenerator rocks table response turns (optionsBehind rows m (i + m))).map
        (Except.map (arrowTable table.columns page :: ·)) := by
  have hscan := hholds.tableScan_behind h hzero hrows hi m
  rw [hpage] at hscan
  have hnext : nextPage rocks table response (optionsBehind rows m i) =
      .ok (some (arrowTable table.columns page, optionsBehind rows m (i + m))) := by
    have hsize : (optionsBehind rows m i).maxRowsReturnSize - 1 ≤ page.length :=
      (Nat.sub_le m 1).trans hle
    rw [nextPage_eq h rfl hm hscan, if_neg (by omega), if_pos hsize]
    unfold optionsBehind
    rw [keyBehind_eq hm htake hle]
  conv_lhs => unfold tableScanGenerator
  rw [hnext]

/-- **A run over pages.** -/
theorem run_of_paged (hlegible : ∀ row ∈ rows, row.Legible) {j last : Nat}
    (hpaged : Paged rows m j last) : ∃ (turns : Nat) (pages : List (List (Row table))),
      tableScanGenerator rocks table response turns (optionsBehind rows m (j * m)) =
        some (.ok (pages.map (arrowTable table.columns))) ∧ pages.flatten = rows.drop (j * m) := by
  have hstop : (pageBehind rows m (last * m)).numRows = 0 := by
    obtain ⟨col, hcol⟩ := Option.isSome_iff_exists.mp
      (List.isSome_head?.mpr (columns_ne_nil h))
    rw [numRows_pageBehind hlegible m _ col hcol]
    exact hpaged.stop col hcol
  have hend : tableScanGenerator rocks table response 1 (optionsBehind rows m (last * m)) = _ :=
    run_of_stop h hzero hholds hrows hpaged.enough hstop 0
  obtain ⟨d, hd⟩ := Nat.exists_eq_add_of_le hpaged.first_le
  induction d generalizing j with
  | zero =>
    obtain rfl : last = j := hd
    refine ⟨1, [], hend, ?_⟩
    rw [hpaged.none rfl, List.drop_length]
    rfl
  | succ d ih =>
    have hsucc : (j + 1) * m = j * m + m := Nat.succ_mul j m
    have hj : (j + 1) * m ≤ rows.length :=
      (Nat.mul_le_mul_right m (by omega)).trans hpaged.enough
    rcases Nat.eq_zero_or_pos d with rfl | hpos
    · obtain rfl : last = j + 1 := hd
      have hshown : ∀ col ∈ table.columns,
          (shown rows m (j * m) col.id).length = rows.length - j * m := by
        intro col hcol
        have := hpaged.last j le_rfl rfl col hcol
        omega
      have hpage := pageBehind_eq hrows hlegible hshown
      rw [List.take_of_length_le (by rw [List.length_drop])] at hpage
      have hturn : tableScanGenerator rocks table response 2 (optionsBehind rows m (j * m)) = _ :=
        turn_eq h hzero hholds hrows hm (by omega) hpage (List.take_of_length_le le_rfl).symm
          (by rw [List.length_drop]; omega) 1
      refine ⟨2, [rows.drop (j * m)], ?_, by simp⟩
      rw [hturn, ← hsucc, hend]
      rfl
    · have hshown := hpaged.full j le_rfl (by omega)
      have hpage := pageBehind_eq hrows hlegible hshown
      have hlength : ((rows.drop (j * m)).take m).length = m := by
        rw [List.length_take, List.length_drop]
        omega
      have hrest : Paged rows m (j + 1) last :=
        ⟨by omega, fun j' hle => hpaged.full j' (by omega), fun j' hle => hpaged.last j' (by omega),
          hpaged.enough, hpaged.stop, fun heq => by omega⟩
      obtain ⟨turns, pages, hrun, hall⟩ := ih hrest (by omega)
      refine ⟨turns + 1, (rows.drop (j * m)).take m :: pages, ?_, ?_⟩
      · rw [turn_eq h hzero hholds hrows hm (by omega) hpage (by rw [hlength]) hlength.ge, ← hsucc, hrun]
        rfl
      · rw [List.flatten_cons, hall, hsucc, ← List.drop_drop, List.take_append_drop]

end run

/-! ## Rows whose keys are apart -/

/-- No row's key begins with another one's. -/
def KeysApart (rows : List (Row table)) : Prop :=
  ∀ row ∈ rows, ∀ row' ∈ rows, rowKey table row.primaryKey <+: rowKey table row'.primaryKey →
    row.primaryKey = row'.primaryKey

instance (rows : List (Row table)) : Decidable (KeysApart rows) :=
  inferInstanceAs (Decidable (∀ row ∈ rows, ∀ row' ∈ rows, _ → _))

section apart

variable (h : table.Keyed) {rows : List (Row table)} (hrows : rows.Pairwise Row.Before)
  (hapart : KeysApart rows)

include hapart

/-- Then the keys without a column stand as the rows do. -/
theorem KeysApart.append_lt_iff {row row' : Row table} (hrow : row ∈ rows) (hrow' : row' ∈ rows)
    (hne : rowKey table row.primaryKey ≠ rowKey table row'.primaryKey) (x y : Bytes) :
    rowKey table row.primaryKey ++ x < rowKey table row'.primaryKey ++ y ↔ row.Before row' := by
  have hab : ¬ rowKey table row.primaryKey <+: rowKey table row'.primaryKey := fun hbegin =>
    hne (by rw [hapart row hrow row' hrow' hbegin])
  have hba : ¬ rowKey table row'.primaryKey <+: rowKey table row.primaryKey := fun hbegin =>
    hne (by rw [hapart row' hrow' row hrow hbegin])
  unfold Row.Before columnKey
  rw [PrefixScan.append_lt_append_iff_of_apart hab hba,
    PrefixScan.append_lt_append_iff_of_apart hab hba]

include h hrows

theorem KeysApart.not_lt_positionBehind {i : Nat} (hi : i ≤ rows.length) {row : Row table}
    (hrow : row ∈ rows.drop i) : ¬ rowKey table row.primaryKey < positionBehind rows i := by
  cases i with
  | zero => exact PrefixScan.not_lt_of_prefix (minimumIndexKey_prefix_rowKey _)
  | succ i =>
    obtain ⟨last, hlast⟩ : ∃ last, rows[i]? = some last := ⟨_, List.getElem?_eq_getElem hi⟩
    obtain ⟨k, hk⟩ := List.mem_iff_getElem?.mp hrow
    rw [List.getElem?_drop] at hk
    have hbefore := before_of_getElem? hrows hlast hk (by omega)
    rw [positionBehind_succ h hlast]
    intro hlt
    have := (hapart.append_lt_iff (List.mem_of_getElem? hk) (List.mem_of_getElem? hlast)
      hbefore.rowKey_ne.symm [] (defaultEscapeCharacter :: lastKeyPart)).mp (by
        rw [List.append_nil]
        exact hlt)
    exact lt_asymm this hbefore

/-- **Every row starts a run**, and nothing else does. -/
theorem KeysApart.perm_starts {i : Nat} (hi : i ≤ rows.length) :
    ((keysBehind rows i).filter fun start => PrefixRuns.Starts (keysBehind rows i) start).Perm
      ((rows.drop i).map fun row => rowKey table row.primaryKey) := by
  have hnodup : ((rows.drop i).map fun row => rowKey table row.primaryKey).Nodup :=
    List.pairwise_map.mpr ((hrows.sublist (List.drop_sublist i rows)).imp fun hbefore =>
      hbefore.rowKey_ne)
  have hkeys : ∀ {key}, key ∈ keysBehind rows i → ∃ row ∈ rows.drop i,
      key ∈ row.entries.map (·.1) := by
    intro key hkey
    obtain ⟨hkey, hge⟩ := List.mem_filter.mp hkey
    rw [List.map_flatMap] at hkey
    obtain ⟨row, hrow, hentry⟩ := List.mem_flatMap.mp hkey
    refine ⟨row, ?_, hentry⟩
    rw [keys_entries] at hentry
    rcases List.mem_cons.mp hentry with rfl | hcolumn
    · refine (mem_drop_iff h hrows hi hrow 0).mpr fun hlt => of_decide_eq_true hge ?_
      exact lt_of_le_of_lt (not_lt.mp (PrefixScan.not_lt_of_prefix (List.prefix_append _ _))) hlt
    · obtain ⟨col, -, rfl⟩ := List.mem_map.mp hcolumn
      exact (mem_drop_iff h hrows hi hrow col.id).mpr (of_decide_eq_true hge)
  have hmem : ∀ {row}, row ∈ rows.drop i → rowKey table row.primaryKey ∈ keysBehind rows i := by
    intro row hrow
    refine List.mem_filter.mpr ⟨?_, decide_eq_true (hapart.not_lt_positionBehind h hrows hi hrow)⟩
    rw [List.map_flatMap]
    refine List.mem_flatMap.mpr ⟨row, List.mem_of_mem_drop hrow, ?_⟩
    rw [keys_entries]
    exact List.mem_cons_self
  refine (List.perm_ext_iff_of_nodup (((nodup_keys h hrows).filter _).filter _) hnodup).mpr
    fun key => ?_
  rw [List.mem_filter, List.mem_map, decide_eq_true_iff]
  constructor
  · rintro ⟨hkey, hstarts⟩
    obtain ⟨row, hrow, hentry⟩ := hkeys hkey
    refine ⟨row, hrow, hstarts _ (hmem hrow) ?_⟩
    obtain ⟨entry, hmem', rfl⟩ := List.mem_map.mp hentry
    exact rowKey_prefix_of_mem_entries hmem'
  · rintro ⟨row, hrow, rfl⟩
    refine ⟨hmem hrow, fun key hkey hbegin => ?_⟩
    obtain ⟨row', hrow', hentry⟩ := hkeys hkey
    obtain ⟨entry, hmem', rfl⟩ := List.mem_map.mp hentry
    have hbegins := rowKey_prefix_of_mem_entries hmem'
    have hsame := hapart row' (List.mem_of_mem_drop hrow') row (List.mem_of_mem_drop hrow)
      (hbegins.trans hbegin)
    rw [hsame] at hbegins
    exact hbegin.eq_of_length_le hbegins.length_le

/-- The runs that have started at a row are its own and those of the rows before it. -/
theorem KeysApart.started_eq {i t : Nat} (hi : i ≤ rows.length) {row : Row table}
    (hrow : (rows.drop i)[t]? = some row) (colId : UInt32) :
    PrefixRuns.started (keysBehind rows i) (columnKey (rowKey table row.primaryKey) colId) = t + 1 := by
  unfold PrefixRuns.started
  have hcount := (hapart.perm_starts h hrows hi).countP_eq fun start =>
    decide (¬ columnKey (rowKey table row.primaryKey) colId < start)
  rw [List.countP_filter, List.countP_map] at hcount
  have hlt : ∀ {s : Nat} {row' : Row table}, (rows.drop i)[s]? = some row' →
      (columnKey (rowKey table row.primaryKey) colId < rowKey table row'.primaryKey ↔ t < s) := by
    intro s row' hrow'
    have hdrop := hrows.sublist (List.drop_sublist i rows)
    have happend : ∀ (_ : rowKey table row.primaryKey ≠ rowKey table row'.primaryKey),
        (columnKey (rowKey table row.primaryKey) colId < rowKey table row'.primaryKey ↔
          row.Before row') := by
      intro hne
      have := hapart.append_lt_iff (List.mem_of_mem_drop (List.mem_of_getElem? hrow))
        (List.mem_of_mem_drop (List.mem_of_getElem? hrow')) hne
        (defaultEscapeCharacter :: pad colId) []
      rwa [List.append_nil] at this
    rcases lt_trichotomy t s with hts | rfl | hts
    · have hbefore := before_of_getElem? hdrop hrow hrow' hts
      exact iff_of_true ((happend hbefore.rowKey_ne).mpr hbefore) hts
    · obtain rfl := Option.some.inj (hrow.symm.trans hrow')
      exact iff_of_false (PrefixScan.not_lt_of_prefix (List.prefix_append _ _)) (lt_irrefl t)
    · have hbefore := before_of_getElem? hdrop hrow' hrow hts
      refine iff_of_false (fun hkey => ?_) hts.not_gt
      exact lt_asymm ((happend hbefore.rowKey_ne.symm).mp hkey) hbefore
  have hlength : t + 1 ≤ (rows.drop i).length := (List.getElem?_eq_some_iff.mp hrow).1
  calc _ = _ := List.countP_congr fun start _ => by
            rw [Bool.and_eq_true, decide_eq_true_iff, decide_eq_true_iff, decide_eq_true_iff]
    _ = _ := hcount
    _ = ((rows.drop i).take (t + 1) ++ (rows.drop i).drop (t + 1)).countP _ := by
          rw [List.take_append_drop]
    _ = t + 1 := by
          rw [List.countP_append, List.countP_eq_length.mpr, List.countP_eq_zero.mpr,
            List.length_take_of_le hlength, Nat.add_zero]
          · intro row' hrow' hcounted
            obtain ⟨s, hs⟩ := List.mem_iff_getElem?.mp hrow'
            rw [List.getElem?_drop] at hs
            exact of_decide_eq_true hcounted ((hlt hs).mpr (by omega))
          · intro row' hrow'
            obtain ⟨s, hs⟩ := List.mem_iff_getElem?.mp hrow'
            have hst : s < t + 1 := by
              by_contra hge
              rw [List.getElem?_take_eq_none (not_lt.mp hge)] at hs
              cases hs
            rw [List.getElem?_take_of_lt hst] at hs
            exact decide_eq_true fun hkey => absurd ((hlt hs).mp hkey) (by omega)

/-- **A page shows the next `m` rows.** -/
theorem KeysApart.shown_eq {i : Nat} (hi : i ≤ rows.length) (m : Nat) (colId : UInt32) :
    shown rows m i colId = (rows.drop i).take m := by
  unfold shown
  conv_lhs => rw [← List.take_append_drop m (rows.drop i)]
  rw [List.filter_append, List.filter_eq_self.mpr, List.filter_eq_nil_iff.mpr, List.append_nil]
  · intro row hrow hstarted
    obtain ⟨s, hs⟩ := List.mem_iff_getElem?.mp hrow
    rw [List.getElem?_drop] at hs
    have hle := of_decide_eq_true hstarted
    rw [hapart.started_eq h hrows hi hs] at hle
    omega
  · intro row hrow
    obtain ⟨s, hs⟩ := List.mem_iff_getElem?.mp hrow
    have hsm : s < m := by
      by_contra hge
      rw [List.getElem?_take_eq_none (not_lt.mp hge)] at hs
      cases hs
    rw [List.getElem?_take_of_lt hsm] at hs
    refine decide_eq_true ?_
    rw [hapart.started_eq h hrows hi hs]
    exact hsm

/-- **Rows with keys apart come on full pages** if there is no row left over. -/
theorem KeysApart.paged_iff {m : Nat} : (∃ last, Paged rows m 0 last) ↔ m ∣ rows.length := by
  have hshown : ∀ {j}, j * m ≤ rows.length → ∀ colId,
      (shown rows m (j * m) colId).length = min m (rows.length - j * m) := by
    intro j hj colId
    rw [hapart.shown_eq h hrows hj, List.length_take, List.length_drop]
  constructor
  · rintro ⟨last, hpaged⟩
    cases last with
    | zero => exact ⟨0, by rw [← hpaged.none rfl, Nat.zero_mul, Nat.mul_zero]⟩
    | succ j =>
      have hsucc : (j + 1) * m = j * m + m := Nat.succ_mul j m
      have henough := hpaged.enough
      obtain ⟨col, hcol⟩ := List.exists_mem_of_ne_nil _ (columns_ne_nil h)
      have hlast := hpaged.last j (Nat.zero_le j) rfl col hcol
      rw [hshown (by omega)] at hlast
      refine ⟨j + 1, ?_⟩
      rw [Nat.mul_comm, hsucc]
      omega
  · rintro ⟨last, hlast⟩
    rw [Nat.mul_comm] at hlast
    refine ⟨last, Nat.zero_le _, ?_, ?_, hlast.ge, ?_, ?_⟩
    · intro j _ hlt col _
      have hle : (j + 1) * m ≤ last * m := Nat.mul_le_mul_right m hlt.le
      rw [Nat.succ_mul] at hle
      rw [hshown (by omega)]
      omega
    · rintro j - rfl col -
      rw [Nat.succ_mul] at hlast
      rw [hshown (by omega)]
      omega
    · intro col _
      rw [hshown hlast.ge]
      omega
    · rintro rfl
      exact hlast.symm

end apart

/-! ## The whole table -/

/-- **Every row comes exactly once** if and only if the pages are full of rows that can be read. -/
theorem scansAll_iff (h : table.Keyed) (hzero : table.primaryKeyIndex.id = 0) {rocks : Rocks}
    {rows : List (Row table)} (hholds : Holds rocks rows) (hrows : rows.Pairwise Row.Before) {m : Nat}
    (hm : 1 ≤ m) (response : Option ArrowTable) :
    ScansAll rocks response rows m ↔
      (∀ row ∈ rows, row.Legible) ∧ ∃ last, Paged rows m 0 last := by
  constructor
  · rintro ⟨turns, pages, hrun, hperm⟩
    have hmem : ∀ page ∈ pages, ∀ row ∈ page, row ∈ rows := fun page hpage row hrow =>
      hperm.mem_iff.mp (List.mem_flatten.mpr ⟨page, hpage, hrow⟩)
    have hlegible : ∀ row ∈ rows, row.Legible := by
      intro row hrow
      obtain ⟨page, hpage, hrow'⟩ := List.mem_flatten.mp (hperm.mem_iff.mpr hrow)
      exact legible_of_run h hzero hholds hrows hm (Nat.zero_le _) hrun hmem page hpage row hrow'
    have hrun' : tableScanGenerator rocks table response turns (optionsBehind rows m (0 * m)) =
        some (.ok (pages.map (arrowTable table.columns))) := by
      rw [Nat.zero_mul]
      exact hrun
    have hperm' : pages.flatten.Perm (rows.drop (0 * m)) := by
      rw [Nat.zero_mul, List.drop_zero]
      exact hperm
    exact ⟨hlegible,
      paged_of_run h hzero hholds hrows hm hlegible hrun hperm (by omega) hrun' hperm'⟩
  · rintro ⟨hlegible, last, hpaged⟩
    obtain ⟨turns, pages, hrun, hall⟩ := run_of_paged h hzero hholds hrows hm hlegible hpaged
    rw [Nat.zero_mul] at hrun hall
    exact ⟨turns, pages, hrun, by rw [hall, List.drop_zero]⟩

theorem scansAll_iff_users :
    ∃ rocks, [Call.insert [userRow 3 "c", userRow 1 "a"],
        Call.insert [userRow 2 "b", userRow 4 "d"]].foldlM Call.run .empty = .ok rocks ∧
      ScansAll rocks none [userRow 1 "a", userRow 2 "b", userRow 3 "c", userRow 4 "d"] 2 := by
  obtain ⟨rocks, hrun⟩ : ∃ rocks, [Call.insert [userRow 3 "c", userRow 1 "a"],
      Call.insert [userRow 2 "b", userRow 4 "d"]].foldlM Call.run .empty = .ok rocks := ⟨_, rfl⟩
  have hrows : [userRow 1 "a", userRow 2 "b", userRow 3 "c", userRow 4 "d"].Pairwise Row.Before := by
    decide +kernel
  have hperm : ([userRow 1 "a", userRow 2 "b"] ++ userRow 3 "c" :: [userRow 4 "d"]).Perm
      (userRow 3 "c" :: ([userRow 1 "a", userRow 2 "b"] ++ [userRow 4 "d"])) := List.perm_middle
  have hholds := holds_of_calls usersTable_keyed hrun hrows hperm
  have hapart : KeysApart [userRow 1 "a", userRow 2 "b", userRow 3 "c", userRow 4 "d"] := by
    decide +kernel
  refine ⟨rocks, hrun, (scansAll_iff usersTable_keyed rfl hholds hrows (by decide) none).mpr
    ⟨by decide +kernel, ?_⟩⟩
  exact (hapart.paged_iff usersTable_keyed hrows).mpr ⟨2, rfl⟩

/-- **A row too few for a page comes for ever.** The generator finds no key to go on behind. -/
theorem single_row_comes_for_ever :
    ∃ rocks, [Call.insert [userRow 1 "a"]].foldlM Call.run .empty = .ok rocks ∧
      ¬ ScansAll rocks none [userRow 1 "a"] 2 := by
  obtain ⟨rocks, hrun⟩ : ∃ rocks, [Call.insert [userRow 1 "a"]].foldlM Call.run .empty = .ok rocks :=
    ⟨_, rfl⟩
  refine ⟨rocks, hrun, ?_⟩
  rintro ⟨turns, pages, hpages, -⟩
  have hnext : nextPage rocks usersTable none { indexId := 0, maxRowsReturnSize := 2 } =
      .ok (some (arrowTable usersTable.columns [userRow 1 "a"],
        { indexId := 0, maxRowsReturnSize := 2 })) := by
    cases hrun
    decide +kernel
  have hnever : ∀ turns, tableScanGenerator rocks usersTable none turns
      { indexId := 0, maxRowsReturnSize := 2 } = none := by
    intro turns
    induction turns with
    | zero => rfl
    | succ turns ih =>
      unfold tableScanGenerator
      rw [hnext]
      dsimp only
      rw [ih]
      rfl
  exact absurd (hpages.symm.trans (hnever turns)) (Option.some_ne_none _)

end ReplicatedCounter.MyDb
