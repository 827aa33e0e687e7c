import Mathlib.Data.String.Basic
import ReplicatedCounter.Lib.Transition
import ReplicatedCounter.Lib.WriteBatch
import ReplicatedCounter.Persistence.KVStoreLite

/-!
# `persistence/RocksKVStoreLite.h` and `persistence/TransactionalRocksKVStoreLite.h`

The same interface twice: over a database, and over one transaction on it, whose writes stay in its
write set until `commit`. A transaction reads what the database would hold after the commit
(`view`), so both classes could be the same text. They are not. A key that is absent is an answer in
one class and an exception in the other, and the loop of the second `deleteRange` never moves its
iterator: it is over before it begins, or not at all.
-/

set_option autoImplicit false

namespace ReplicatedCounter

/-! ## Calls -/

inductive StoreCall where
  | put (key value : String)
  | putIfNotExists (key value : String)
  | get (key : String)
  | deleteRange (first last : String)
  | scan (startPrefix : String)
  deriving DecidableEq, Repr

/-- What a call returns; `runtimeError` is the `std::runtime_error` it throws instead. -/
inductive StoreAnswer where
  | done (ok : Bool)
  | value (value : Option String)
  | keyValues (entries : List (String × String))
  | runtimeError
  deriving DecidableEq, Repr

/-- An iterator at a position: the entry it is at, and those behind it. -/
abbrev RocksIterator := List (String × String)

/-- `itr->Seek(target)`. -/
def RocksIterator.seek (content : SortedMap String String) (target : String) : RocksIterator :=
  content.entries.dropWhile (·.1 < target)

/-- The loop of both `scan`s. -/
def RocksIterator.scan (itr : RocksIterator) (startPrefix : String) : List (String × String) :=
  itr.takeWhile fun e => startPrefix.toList.isPrefixOf e.1.toList

/-! ## `RocksKVStoreLite` -/

/-- `RocksKVStoreLite`, with the content of its database. -/
structure RocksKVStoreLite where
  rocks : SortedMap String String := .empty
  deriving DecidableEq

namespace RocksKVStoreLite

def put (kv : RocksKVStoreLite) (key value : String) : RocksKVStoreLite × Bool :=
  ({ rocks := kv.rocks.insert key value }, true)

def get (kv : RocksKVStoreLite) (key : String) : Option String := kv.rocks.find? key

instance : KVStoreLite RocksKVStoreLite String := ⟨put, get, fun kv => (kv, true)⟩

instance : LawfulKVStoreLite RocksKVStoreLite String where
  put_ok _ _ _ := rfl
  get_put _ _ _ _ := SortedMap.find?_insert

/-- `RocksKVStoreLite::deleteRange`. -/
def deleteRange (kv : RocksKVStoreLite) (first last : String) : RocksKVStoreLite × Bool :=
  if last < first then
    (kv, false)
  else
    ({ rocks := kv.rocks.filterKeys fun key => key < first ∨ ¬ key < last }, true)

instance : RangeKVStoreLite RocksKVStoreLite := ⟨deleteRange⟩

instance : LawfulRangeKVStoreLite RocksKVStoreLite String where
  deleteRange_ok kv first last h := by
    simp only [RangeKVStoreLite.deleteRange, deleteRange, if_neg h]
  get_deleteRange kv first last key h := by
    simp only [RangeKVStoreLite.deleteRange, deleteRange, if_neg h, KVStoreLite.get, get]
    rw [SortedMap.find?_filterKeys]
    by_cases hfirst : key < first
    · simp [hfirst]
    · by_cases hlast : key < last
      · simp [hfirst, hlast]
      · simp [hfirst, hlast]

def call (kv : RocksKVStoreLite) : StoreCall → RocksKVStoreLite × StoreAnswer
  | .put key value => Prod.map id .done (kv.put key value)
  | .putIfNotExists key value => Prod.map id .done (KVStoreLite.putIfNotExists kv key value)
  | .get key => (kv, .value (kv.get key))
  | .deleteRange first last => Prod.map id .done (kv.deleteRange first last)
  | .scan startPrefix => (kv, .keyValues ((RocksIterator.seek kv.rocks startPrefix).scan startPrefix))

/-- Calls, one after the other. -/
def calls : RocksKVStoreLite → List StoreCall → RocksKVStoreLite × List StoreAnswer
  | kv, [] => (kv, [])
  | kv, c :: cs =>
    let (kv, answer) := kv.call c
    let (kv, answers) := kv.calls cs
    (kv, answer :: answers)

end RocksKVStoreLite

/-! ## `TransactionalRocksKVStoreLite` -/

/-- A handle: the content of the database, which nobody else writes to, and what the transaction has
written. -/
structure TransactionalRocksKVStoreLite where
  txnDb : SortedMap String String
  writes : WriteBatch String String := []

namespace TransactionalRocksKVStoreLite

/-- `TxnManager::createTxnHandle`. -/
def begin (kv : RocksKVStoreLite) : TransactionalRocksKVStoreLite where
  txnDb := kv.rocks

/-- What the transaction reads. -/
def view (txn : TransactionalRocksKVStoreLite) : SortedMap String String :=
  WriteBatch.write txn.txnDb txn.writes

/-- `txn_->Put` and `txn_->Delete`. -/
def write (txn : TransactionalRocksKVStoreLite) (key : String) (value : Option String) :
    TransactionalRocksKVStoreLite :=
  { txn with writes := txn.writes ++ [(key, value)] }

def put (txn : TransactionalRocksKVStoreLite) (key value : String) :
    TransactionalRocksKVStoreLite × StoreAnswer :=
  (txn.write key (some value), .done true)

/-- `TransactionalRocksKVStoreLite::get`. A key that is absent is a status that is not OK. -/
def get (txn : TransactionalRocksKVStoreLite) (key : String) : StoreAnswer :=
  match txn.view.find? key with
  | none => .runtimeError
  | some value => .value (some value)

/-- `TransactionalRocksKVStoreLite::putIfNotExists`. -/
def putIfNotExists (txn : TransactionalRocksKVStoreLite) (key value : String) :
    TransactionalRocksKVStoreLite × StoreAnswer :=
  match txn.get key with
  | .value (some _) => (txn, .done false)
  | .value none => txn.put key value
  | answer => (txn, answer)

/-- The loop of `TransactionalRocksKVStoreLite::deleteRange`, for so many rounds at most. -/
def deleteLoop (last : String) (itr : RocksIterator) :
    Nat → TransactionalRocksKVStoreLite → Option TransactionalRocksKVStoreLite
  | 0, _ => none
  | fuel + 1, txn =>
    match itr with
    | [] => some txn
    | (key, _) :: _ =>
      -- there is no `Next`, and a `Delete` does not move the iterator
      if key < last then deleteLoop last itr fuel (txn.write key none) else some txn

/-- `TransactionalRocksKVStoreLite::deleteRange`. -/
def deleteRange (fuel : Nat) (txn : TransactionalRocksKVStoreLite) (first last : String) :
    Option (TransactionalRocksKVStoreLite × StoreAnswer) := do
  let txn ← deleteLoop last (.seek txn.view first) fuel txn
  return (txn, .done true)

/-- `TransactionalRocksKVStoreLite::commit`, with the database it leaves. -/
def commit (txn : TransactionalRocksKVStoreLite) : RocksKVStoreLite where
  rocks := txn.view

/-- A call, if it is over after so many rounds. -/
def call (fuel : Nat) (txn : TransactionalRocksKVStoreLite) :
    StoreCall → Option (TransactionalRocksKVStoreLite × StoreAnswer)
  | .put key value => some (txn.put key value)
  | .putIfNotExists key value => some (txn.putIfNotExists key value)
  | .get key => some (txn, txn.get key)
  | .deleteRange first last => txn.deleteRange fuel first last
  | .scan startPrefix =>
    some (txn, .keyValues ((RocksIterator.seek txn.view startPrefix).scan startPrefix))

/-- Calls, one after the other. -/
def calls (fuel : Nat) : TransactionalRocksKVStoreLite → List StoreCall →
    Option (TransactionalRocksKVStoreLite × List StoreAnswer)
  | txn, [] => some (txn, [])
  | txn, c :: cs => do
    let (txn, answer) ← txn.call fuel c
    let (txn, answers) ← txn.calls fuel cs
    return (txn, answer :: answers)

/-! ## One call -/

/-- What a call asks of the content it is made on. -/
def Fits (kv : RocksKVStoreLite) : StoreCall → Prop
  | .put _ _ => True
  | .putIfNotExists key _ => (kv.rocks.find? key).isSome = true
  | .get key => (kv.rocks.find? key).isSome = true
  | .deleteRange first last => ¬ last < first ∧ ∀ e ∈ kv.rocks.entries, ¬ e.1 < first → ¬ e.1 < last
  | .scan _ => True

instance (kv : RocksKVStoreLite) (c : StoreCall) : Decidable (Fits kv c) :=
  match c with
  | .put _ _ => inferInstanceAs (Decidable True)
  | .putIfNotExists _ _ => inferInstanceAs (Decidable (_ = true))
  | .get _ => inferInstanceAs (Decidable (_ = true))
  | .deleteRange _ _ => inferInstanceAs (Decidable (_ ∧ _))
  | .scan _ => inferInstanceAs (Decidable True)

variable {kv : RocksKVStoreLite} {txn txn' : TransactionalRocksKVStoreLite} {c : StoreCall}
  {cs : List StoreCall} {fuel : Nat} {first last key : String} {answer : StoreAnswer}

@[simp] theorem view_begin (kv : RocksKVStoreLite) : (begin kv).view = kv.rocks := rfl

theorem view_write (value : Option String) :
    (txn.write key value).view = WriteBatch.writeOne txn.view (key, value) :=
  List.foldl_concat _ _ _ _

/-- **The loop does not end** at a key in the range. -/
theorem deleteLoop_eq_none {value : String} {rest : RocksIterator} (h : key < last) :
    deleteLoop last ((key, value) :: rest) fuel txn = none := by
  induction fuel generalizing txn with
  | zero => rfl
  | succ fuel ih =>
    unfold deleteLoop
    dsimp only
    rw [if_pos h]
    exact ih

/-- Without a key in the range it ends at once. -/
theorem deleteLoop_of_outside {itr : RocksIterator} (h : ∀ e ∈ itr, ¬ e.1 < last) :
    deleteLoop last itr (fuel + 1) txn = some txn := by
  unfold deleteLoop
  cases itr with
  | nil => rfl
  | cons e rest => exact if_neg (h e List.mem_cons_self)

/-- The iterator goes over the keys that are not before its target. -/
theorem mem_seek {content : SortedMap String String} {e : String × String} :
    e ∈ RocksIterator.seek content first ↔ e ∈ content.entries ∧ ¬ e.1 < first := by
  unfold RocksIterator.seek
  rw [SortedMap.dropWhile_eq_filter_not
    (content.sorted.imp fun hlt h => by simpa using hlt.trans (of_decide_eq_true h)), List.mem_filter]
  simp

/-- `deleteRange` of a range without keys. -/
theorem deleteRange_of_outside (h : ∀ e ∈ txn.view.entries, ¬ e.1 < first → ¬ e.1 < last) :
    txn.deleteRange (fuel + 1) first last = some (txn, .done true) := by
  unfold deleteRange
  rw [deleteLoop_of_outside fun e he => h e (mem_seek.mp he).1 (mem_seek.mp he).2]
  rfl

/-- `deleteRange` of a range with a key. The iterator is at such a key, the first one. -/
theorem deleteRange_eq_none {e : String × String} (he : e ∈ txn.view.entries) (hfirst : ¬ e.1 < first)
    (hlast : e.1 < last) : txn.deleteRange fuel first last = none := by
  have hmem : e ∈ RocksIterator.seek txn.view first := mem_seek.mpr ⟨he, hfirst⟩
  have hsorted : (RocksIterator.seek txn.view first).Pairwise (·.1 < ·.1) :=
    txn.view.sorted.sublist (List.dropWhile_sublist _)
  unfold deleteRange
  cases hseek : RocksIterator.seek txn.view first with
  | nil =>
    rw [hseek] at hmem
    exact absurd hmem List.not_mem_nil
  | cons e' rest =>
    rw [hseek] at hmem hsorted
    have hle : ¬ e.1 < e'.1 := by
      rcases List.mem_cons.mp hmem with rfl | hrest
      · exact lt_irrefl _
      · exact ((List.pairwise_cons.mp hsorted).1 e hrest).asymm
    rw [deleteLoop_eq_none ((not_lt.mp hle).trans_lt hlast)]
    rfl

/-- A range without keys can be deleted. -/
theorem filterKeys_of_outside {content : SortedMap String String}
    (h : ∀ e ∈ content.entries, ¬ e.1 < first → ¬ e.1 < last) :
    content.filterKeys (fun key => key < first ∨ ¬ key < last) = content := by
  refine SortedMap.ext_find? fun key => ?_
  rw [SortedMap.find?_filterKeys]
  split_ifs with hkey
  · rfl
  · have houtside : key < first ∨ ¬ key < last → False := by simpa using hkey
    refine (SortedMap.find?_eq_none.mpr fun value hmem => houtside ?_).symm
    by_cases hfirst : key < first
    · exact .inl hfirst
    · exact .inr (h (key, value) hmem hfirst)

/-- **A call that fits** is over at once, with the same answer, and leaves the same content to
read. -/
theorem call_of_fits (hview : txn.view = kv.rocks) (h : Fits kv c) :
    ∃ txn', txn.call (fuel + 1) c = some (txn', (kv.call c).2) ∧ txn'.view = (kv.call c).1.rocks := by
  cases c with
  | put key value =>
    refine ⟨txn.write key (some value), rfl, ?_⟩
    rw [view_write, hview]
    rfl
  | putIfNotExists key value =>
    obtain ⟨old, hold⟩ := Option.isSome_iff_exists.mp h
    refine ⟨txn, ?_, ?_⟩
    · unfold call putIfNotExists get RocksKVStoreLite.call KVStoreLite.putIfNotExists
      dsimp only
      rw [hview, hold, show KVStoreLite.get kv key = some old from hold]
      rfl
    · unfold RocksKVStoreLite.call KVStoreLite.putIfNotExists
      dsimp only
      rw [show KVStoreLite.get kv key = some old from hold]
      exact hview
  | get key =>
    obtain ⟨value, hvalue⟩ := Option.isSome_iff_exists.mp h
    refine ⟨txn, ?_, hview⟩
    unfold call get RocksKVStoreLite.call RocksKVStoreLite.get
    dsimp only
    rw [hview, hvalue]
  | deleteRange first last =>
    obtain ⟨hrange, houtside⟩ := h
    refine ⟨txn, ?_, ?_⟩
    · unfold RocksKVStoreLite.call RocksKVStoreLite.deleteRange
      dsimp only
      rw [if_neg hrange]
      exact deleteRange_of_outside (hview ▸ houtside)
    · unfold RocksKVStoreLite.call RocksKVStoreLite.deleteRange
      dsimp only
      rw [if_neg hrange, hview]
      exact (filterKeys_of_outside houtside).symm
  | scan startPrefix =>
    refine ⟨txn, ?_, hview⟩
    unfold call RocksKVStoreLite.call
    dsimp only
    rw [hview]

/-- **A call that does not fit** has another answer, or none ever. -/
theorem fits_of_call (hview : txn.view = kv.rocks) (h : txn.call fuel c = some (txn', (kv.call c).2)) :
    Fits kv c := by
  cases c with
  | put key value => exact trivial
  | putIfNotExists key value =>
    refine Option.isSome_iff_ne_none.mpr fun hnone => ?_
    unfold call putIfNotExists get RocksKVStoreLite.call KVStoreLite.putIfNotExists at h
    dsimp only at h
    rw [hview, hnone, show KVStoreLite.get kv key = none from hnone] at h
    exact nomatch h
  | get key =>
    refine Option.isSome_iff_ne_none.mpr fun hnone => ?_
    unfold call get RocksKVStoreLite.call at h
    dsimp only at h
    rw [hview, hnone] at h
    exact nomatch h
  | deleteRange first last =>
    unfold call RocksKVStoreLite.call RocksKVStoreLite.deleteRange at h
    dsimp only at h
    have houtside : ∀ e ∈ kv.rocks.entries, ¬ e.1 < first → ¬ e.1 < last := by
      intro e he hfirst hlast
      rw [deleteRange_eq_none (hview ▸ he) hfirst hlast] at h
      exact nomatch h
    refine ⟨fun hrange => ?_, houtside⟩
    rw [if_pos hrange] at h
    -- a handle deletes nothing either, and calls it done
    unfold deleteRange at h
    obtain ⟨left, -, hleft⟩ := Option.bind_eq_some_iff.mp h
    exact nomatch hleft
  | scan startPrefix => exact trivial

/-- What is over after no round is over after one. -/
theorem exists_call_succ {r : TransactionalRocksKVStoreLite × StoreAnswer}
    (h : txn.call fuel c = some r) : ∃ fuel', txn.call (fuel' + 1) c = some r := by
  cases fuel with
  | succ fuel => exact ⟨fuel, h⟩
  | zero =>
    cases c with
    | put key value => exact ⟨0, h⟩
    | putIfNotExists key value => exact ⟨0, h⟩
    | get key => exact ⟨0, h⟩
    | deleteRange first last => exact nomatch h
    | scan startPrefix => exact ⟨0, h⟩

/-! ## Any calls -/

/-- The handle returns what the database itself returns, with every call over after some rounds, and
the commit leaves the same content. -/
def Agrees (kv : RocksKVStoreLite) (cs : List StoreCall) : Prop :=
  ∃ fuel txn, (begin kv).calls fuel cs = some (txn, (kv.calls cs).2) ∧ txn.commit = (kv.calls cs).1

/-- Each call, as the next one of `RocksKVStoreLite`. -/
def next (kv : RocksKVStoreLite) (c : StoreCall) : Option RocksKVStoreLite := some (kv.call c).1

theorem calls_of_fits (hview : txn.view = kv.rocks) (h : Transition.Meets next Fits kv cs) :
    ∃ txn', txn.calls (fuel + 1) cs = some (txn', (kv.calls cs).2) ∧
      txn'.view = (kv.calls cs).1.rocks := by
  induction cs generalizing kv txn with
  | nil => exact ⟨txn, rfl, hview⟩
  | cons c cs ih =>
    obtain ⟨hfits, hrest⟩ := h
    obtain ⟨middle, hcall, hmiddle⟩ := call_of_fits hview hfits
    obtain ⟨txn', hcalls, hview'⟩ := ih hmiddle (hrest _ rfl)
    refine ⟨txn', ?_, hview'⟩
    unfold calls
    rw [hcall]
    show (middle.calls (fuel + 1) cs).bind _ = _
    rw [hcalls]
    rfl

theorem fits_of_calls (hview : txn.view = kv.rocks)
    (h : txn.calls fuel cs = some (txn', (kv.calls cs).2)) : Transition.Meets next Fits kv cs := by
  induction cs generalizing kv txn with
  | nil => exact trivial
  | cons c cs ih =>
    unfold calls at h
    obtain ⟨⟨middle, answer⟩, hcall, h⟩ := Option.bind_eq_some_iff.mp h
    obtain ⟨⟨last, answers⟩, hcalls, h⟩ := Option.bind_eq_some_iff.mp h
    obtain ⟨rfl, hanswers⟩ := Prod.mk.inj (Option.some.inj h)
    obtain ⟨rfl, rfl⟩ := List.cons.inj hanswers
    have hfits : Fits kv c := fits_of_call hview hcall
    obtain ⟨fuel', hcall'⟩ := exists_call_succ hcall
    obtain ⟨middle', hcall'', hmiddle⟩ := call_of_fits hview hfits
    obtain ⟨rfl, -⟩ := Prod.mk.inj (Option.some.inj (hcall'.symm.trans hcall''))
    refine ⟨hfits, fun kv' hkv' => ?_⟩
    cases hkv'
    exact ih hmiddle hcalls

/-- **The two implementations agree** on some calls if and only if each of them fits the content it
is made on: the key of a `get` or `putIfNotExists` is there, and the range of a `deleteRange` is
none that ends before it starts, and has no key in it. -/
theorem agrees_iff (kv : RocksKVStoreLite) (cs : List StoreCall) :
    Agrees kv cs ↔ Transition.Meets next Fits kv cs := by
  constructor
  · rintro ⟨fuel, txn, hcalls, -⟩
    exact fits_of_calls (view_begin kv) hcalls
  · intro h
    obtain ⟨txn, hcalls, hview⟩ := calls_of_fits (view_begin kv) h
    exact ⟨1, txn, hcalls, congrArg RocksKVStoreLite.mk hview⟩

/-- **They do not agree** on a key that is absent, nor on a range with a key: the first `get`
throws, and the `deleteRange` is never over. -/
theorem absent_key_throws :
    ¬ Agrees {} [.get "a"] ∧ ¬ Agrees {} [.putIfNotExists "a" "1"] ∧
      ∀ fuel, (begin {}).calls fuel [.put "a" "1", .deleteRange "a" "b"] = none := by
  refine ⟨?_, ?_, fun fuel => ?_⟩
  · rintro ⟨fuel, txn, h, -⟩
    exact absurd (fits_of_calls (view_begin {}) h).1 (by decide)
  · rintro ⟨fuel, txn, h, -⟩
    exact absurd (fits_of_calls (view_begin {}) h).1 (by decide)
  · unfold calls
    show (calls fuel _ [.deleteRange "a" "b"]).bind _ = none
    unfold calls
    show ((deleteRange fuel _ "a" "b").bind _).bind _ = none
    rw [deleteRange_eq_none (e := ("a", "1")) (List.mem_singleton.mpr rfl) (by decide) (by decide)]
    rfl

end TransactionalRocksKVStoreLite

end ReplicatedCounter
