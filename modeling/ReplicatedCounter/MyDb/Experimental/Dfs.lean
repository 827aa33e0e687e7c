import ReplicatedCounter.MyDb.Experimental.Models

/-!
# `mydb/experimental/Dfs.cc`

A search for a cycle of transactions that wait for each other. Nobody is waited for by more than one,
so the search is a walk: it colours what it passes `Gray`, and stops where nobody waits or at the
first transaction it sees twice. On the way back everything turns `Black`, but a walk that comes to
an end meets nothing `Black`, and one that stops on a cycle has kept a copy.
-/

set_option autoImplicit false

namespace ReplicatedCounter.MyDb.Experimental

/-- `Dfs::Color`. -/
inductive Color where
  | black
  | gray
  deriving DecidableEq, Repr

/-- What stops a search: the assertion, a pointer to nothing, or the end of the fuel. -/
inductive DfsError where
  | emptyTxnId
  | danglingPointer
  | outOfFuel
  deriving DecidableEq, Repr

/-- The fields of `Dfs`, and what `getCycle` passes on by reference. -/
structure Dfs where
  colorLookup : SortedMap String Color := .empty
  /-- `cycle_`. -/
  foundCycle : List Transaction := []
  cycleFound : Bool := false
  cycle : List Transaction
  deriving DecidableEq

namespace Dfs

/-- `Dfs::getCycle(cycleFound, txn, cycle)`. -/
def search (transactions : TransactionManager) : Nat → Transaction → Dfs → Except DfsError Dfs
  | 0, _, _ => .error .outOfFuel
  | fuel + 1, txn, dfs =>
    if txn.id = "" then
      .error .emptyTxnId
    else if dfs.cycleFound then
      .ok dfs
    else if dfs.colorLookup.find? txn.id = some .black then
      .ok dfs
    else
      -- `emplace` leaves what is there, and that is `Gray`
      let dfs := { dfs with colorLookup := dfs.colorLookup.insert txn.id .gray }
      match txn.waitedBy with
      | none => .ok { dfs with colorLookup := dfs.colorLookup.insert txn.id .black }
      | some w =>
        match transactions.getTransaction w with
        | none => .error .danglingPointer
        | some waitingFor =>
          let dfs := { dfs with cycle := dfs.cycle ++ [waitingFor] }
          if dfs.colorLookup.find? waitingFor.id = some .gray then
            .ok { dfs with cycleFound := true, foundCycle := dfs.cycle }
          else do
            let dfs ← search transactions fuel waitingFor dfs
            .ok { dfs with
              cycle := dfs.cycle.dropLast
              colorLookup := dfs.colorLookup.insert txn.id .black }

/-- `Dfs::getCycle` of a fresh `Dfs`. -/
def getCycle (transactions : TransactionManager) (fuel : Nat) (txn : Transaction) :
    Except DfsError (List Transaction) :=
  (search transactions fuel txn { cycle := [txn] }).map (·.foundCycle)

/-! ## What a search finds -/

variable {transactions : TransactionManager} {txn start : Transaction} {path : List Transaction}
  {dfs : Dfs} {fuel : Nat}

/-- The search has come from `start` along `path` and looks at `txn`: what it has passed is `Gray`,
and nothing else has a colour. -/
structure Walking (transactions : TransactionManager) (start : Transaction)
    (path : List Transaction) (txn : Transaction) (dfs : Dfs) : Prop where
  registered : ∀ t ∈ path ++ [txn], transactions.Registered t
  head : (path ++ [txn]).head? = some start
  chain : (path ++ [txn]).IsChain (Links.Linked transactions.waitedBy)
  nodup : (path ++ [txn]).Nodup
  cycle_eq : dfs.cycle = path ++ [txn]
  not_found : dfs.cycleFound = false
  foundCycle_eq : dfs.foundCycle = []
  color : ∀ txnId c, dfs.colorLookup.find? txnId = some c ↔ c = .gray ∧ ∃ t ∈ path, t.id = txnId

theorem walking_start (h : transactions.Registered txn) :
    Walking transactions txn [] txn { cycle := [txn] } where
  registered t ht := by
    obtain rfl := List.mem_singleton.mp ht
    exact h
  head := rfl
  chain := List.isChain_singleton txn
  nodup := by simp
  cycle_eq := rfl
  not_found := rfl
  foundCycle_eq := rfl
  color txnId c := by simp

/-- The search is on its way, so it has not run out of transactions. -/
theorem Walking.length_lt (h : Walking transactions start path txn dfs) :
    path.length < transactions.lookup.entries.length := by
  have hle := TransactionManager.length_le_of_nodup h.nodup h.registered
  rwa [List.length_append, List.length_singleton] at hle

/-- With `txn` coloured, what is `Gray` is what the walk has come along. -/
theorem Walking.gray_iff (h : Walking transactions start path txn dfs) {t : Transaction}
    (ht : transactions.Registered t) :
    (dfs.colorLookup.insert txn.id .gray).find? t.id = some .gray ↔ t ∈ path ++ [txn] := by
  have hregistered : ∀ u ∈ path ++ [txn], u.id = t.id → u = t := fun u hu hid =>
    (h.registered u hu).eq_of_id ht hid
  rw [SortedMap.find?_insert]
  by_cases hid : t.id = txn.id
  · rw [if_pos hid]
    refine iff_of_true rfl ?_
    rw [← hregistered txn (List.mem_append_right _ List.mem_cons_self) hid.symm]
    exact List.mem_append_right _ List.mem_cons_self
  · rw [if_neg hid, h.color]
    constructor
    · intro hcolor
      obtain ⟨-, u, hu, hut⟩ := hcolor
      rw [← hregistered u (List.mem_append_left _ hu) hut]
      exact List.mem_append_left _ hu
    · intro hmem
      refine ⟨rfl, t, ?_, rfl⟩
      rcases List.mem_append.mp hmem with hmem | hmem
      · exact hmem
      · exact absurd (congrArg Transaction.id (List.mem_singleton.mp hmem)) hid

/-- The next transaction is a new one. -/
theorem Walking.next (h : Walking transactions start path txn dfs) {t : Transaction}
    (ht : transactions.Registered t) (hlink : transactions.waitedBy txn = some t)
    (hnew : t ∉ path ++ [txn]) :
    Walking transactions start (path ++ [txn]) t
      { dfs with
        colorLookup := dfs.colorLookup.insert txn.id .gray
        cycle := dfs.cycle ++ [t] } where
  registered u hu := by
    rcases List.mem_append.mp hu with hu | hu
    · exact h.registered u hu
    · obtain rfl := List.mem_singleton.mp hu
      exact ht
  head := by
    rw [List.head?_append, h.head]
    rfl
  chain := Links.chain_concat h.chain hlink
  nodup := List.nodup_append.mpr ⟨h.nodup, by simp, by
    rintro u hu u' hu' rfl
    obtain rfl := List.mem_singleton.mp hu'
    exact hnew hu⟩
  cycle_eq := by
    dsimp only
    rw [h.cycle_eq]
  not_found := h.not_found
  foundCycle_eq := h.foundCycle_eq
  color txnId c := by
    dsimp only
    rw [SortedMap.find?_insert]
    by_cases hid : txnId = txn.id
    · rw [if_pos hid, Option.some.injEq]
      refine ⟨fun hc => ⟨hc.symm, txn, ?_, hid.symm⟩, fun hc => hc.1.symm⟩
      exact List.mem_append_right _ List.mem_cons_self
    · rw [if_neg hid, h.color]
      refine and_congr_right fun _ => ⟨?_, ?_⟩
      · rintro ⟨u, hu, rfl⟩
        exact ⟨u, List.mem_append_left _ hu, rfl⟩
      · rintro ⟨u, hu, rfl⟩
        rcases List.mem_append.mp hu with hu | hu
        · exact ⟨u, hu, rfl⟩
        · exact absurd (congrArg Transaction.id (List.mem_singleton.mp hu)) hid

/-- What a search from `start` comes to: a lasso, or an end of the walk. -/
def Outcome (transactions : TransactionManager) (start : Transaction) (dfs : Dfs) : Prop :=
  Links.Lasso transactions.waitedBy start dfs.foundCycle ∨
    dfs.foundCycle = [] ∧ ∃ last, Links.Reaches transactions.waitedBy start last ∧
      transactions.waitedBy last = none

/-- **The search along a walk.** Every transaction is passed at most once, so the fuel lasts. -/
theorem search_outcome (hclosed : transactions.Closed)
    (h : Walking transactions start path txn dfs)
    (hfuel : transactions.lookup.entries.length ≤ fuel + path.length) :
    ∃ dfs', search transactions fuel txn dfs = .ok dfs' ∧ Outcome transactions start dfs' := by
  induction fuel generalizing path txn dfs with
  | zero =>
    have hlt := h.length_lt
    omega
  | succ fuel ih =>
    have htxn : transactions.Registered txn :=
      h.registered txn (List.mem_append_right _ List.mem_cons_self)
    have hblack : dfs.colorLookup.find? txn.id ≠ some .black := by
      intro hblack
      exact absurd ((h.color _ _).mp hblack).1 (by decide)
    unfold search
    rw [if_neg (hclosed.id_ne htxn), if_neg (by simp [h.not_found]), if_neg hblack]
    cases hw : txn.waitedBy with
    | none =>
      -- nobody waits for `txn`
      refine ⟨_, rfl, .inr ⟨h.foundCycle_eq, txn, ?_, ?_⟩⟩
      · exact Links.reaches_of_chain h.chain h.head (List.mem_append_right _ List.mem_cons_self)
      · exact (hclosed.waitedBy_eq_none htxn).mpr hw
    | some w =>
      obtain ⟨waitingFor, hget⟩ := Option.ne_none_iff_exists'.mp (hclosed.registered htxn w hw)
      have hlink : transactions.waitedBy txn = some waitingFor := by
        unfold TransactionManager.waitedBy
        rw [hw]
        exact hget
      have hregistered := hclosed.waitedBy_registered hlink
      dsimp only
      rw [hget]
      dsimp only
      by_cases hgray :
          (dfs.colorLookup.insert txn.id .gray).find? waitingFor.id = some Color.gray
      · -- it was passed before: the walk is a lasso
        rw [if_pos hgray]
        refine ⟨_, rfl, .inl ?_⟩
        dsimp only
        rw [h.cycle_eq]
        exact Links.lasso_of_link h.head h.chain h.nodup hlink ((h.gray_iff hregistered).mp hgray)
      · rw [if_neg hgray]
        have hnew : waitingFor ∉ path ++ [txn] := fun hmem =>
          hgray ((h.gray_iff hregistered).mpr hmem)
        have hrest : transactions.lookup.entries.length ≤ fuel + (path ++ [txn]).length := by
          rw [List.length_append, List.length_singleton]
          omega
        obtain ⟨dfs', hsearch, houtcome⟩ := ih (h.next hregistered hlink hnew) hrest
        rw [hsearch]
        exact ⟨_, rfl, houtcome⟩

/-- **The search is exact.** With as much fuel as there are transactions it returns. The list is not
empty exactly if the walk along `waitedBy` comes back to a transaction, and then it is that walk up
to the first transaction that occurs again. -/
theorem getCycle_exact (hclosed : transactions.Closed) (htxn : transactions.Registered txn)
    (hfuel : transactions.lookup.entries.length ≤ fuel) :
    ∃ cycle, getCycle transactions fuel txn = .ok cycle ∧
      (cycle ≠ [] ↔ Links.Revisits transactions.waitedBy txn) ∧
      (cycle ≠ [] → Links.Lasso transactions.waitedBy txn cycle) := by
  obtain ⟨dfs, hsearch, houtcome⟩ := search_outcome hclosed (walking_start htxn)
    (hfuel.trans (Nat.le_add_right _ _))
  refine ⟨dfs.foundCycle, ?_, ?_⟩
  · unfold getCycle
    rw [hsearch]
    rfl
  · rcases houtcome with hlasso | ⟨hnil, last, hreaches, hend⟩
    · exact ⟨iff_of_true hlasso.ne_nil hlasso.revisits, fun _ => hlasso⟩
    · rw [hnil]
      have hnot := Links.not_revisits_of_end hreaches hend
      exact ⟨iff_of_false (fun hne => hne rfl) hnot, fun hne => absurd rfl hne⟩

/-- Nobody waits for 4; 2 waits for 1, and 2 and 3 wait for each other. -/
def cycleAhead : TransactionManager where
  lookup := SortedMap.empty.insertAll
    [("1", { id := "1", waitedBy := some "2" }), ("2", { id := "2", waitedBy := some "3" }),
      ("3", { id := "3", waitedBy := some "2" }), ("4", { id := "4" })]

/-- The first transaction is not on the cycle it leads to. -/
theorem getCycle_exact_ahead :
    ∃ cycle, getCycle cycleAhead 4 { id := "1", waitedBy := some "2" } = .ok cycle ∧
      cycle.map (·.id) = ["1", "2", "3", "2"] ∧
      Links.Revisits cycleAhead.waitedBy { id := "1", waitedBy := some "2" } := by
  have hrun : getCycle cycleAhead 4 { id := "1", waitedBy := some "2" } = .ok _ := rfl
  have htxn : cycleAhead.Registered { id := "1", waitedBy := some "2" } := by decide +kernel
  obtain ⟨cycle, hcycle, hiff, -⟩ := getCycle_exact (by decide +kernel) htxn
    (by decide +kernel : cycleAhead.lookup.entries.length ≤ 4)
  obtain rfl := Except.ok.inj (hcycle.symm.trans hrun)
  exact ⟨_, hrun, by decide +kernel, hiff.mp (by decide +kernel)⟩

end Dfs

end ReplicatedCounter.MyDb.Experimental
