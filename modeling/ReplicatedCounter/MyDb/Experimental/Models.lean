import Mathlib.Data.List.Perm.Subperm
import Mathlib.Data.String.Basic
import ReplicatedCounter.Lib.Links
import ReplicatedCounter.Lib.SortedMap

/-!
# `mydb/experimental/Models.h`

Resources that transactions lock, and the transactions. A transaction points at the one that waits
for it, `waitedBy`; here it keeps the id of that one, and the transaction manager, where every
transaction is registered, says which transaction it is. `Closed` is what the code relies on when it
follows such a pointer.
-/

set_option autoImplicit false

namespace ReplicatedCounter.MyDb.Experimental

inductive LockMode where
  | none
  | read
  | write
  deriving DecidableEq, Repr

/-- `Element`; elements are compared by their names. -/
structure Element where
  name : String
  lockModeRequired : LockMode
  deriving DecidableEq, Repr

/-- `Resource`. -/
structure Resource where
  id : String
  lockMode : LockMode := .none
  /-- A 32-bit counter. -/
  writersWaitingCount : UInt32 := 0
  txnsQ : SortedMap String Unit := .empty
  deriving DecidableEq

/-- `Resource::isWriterAwaiting`. -/
def Resource.isWriterAwaiting (resource : Resource) : Bool := resource.writersWaitingCount > 0

/-- `ResourceManager`. -/
structure ResourceManager where
  lookup : SortedMap String Resource := .empty
  deriving DecidableEq

namespace ResourceManager

/-- `ResourceManager::getResource`. -/
def getResource (resources : ResourceManager) (resourceName : String) : Option Resource :=
  resources.lookup.find? resourceName

/-- `ResourceManager::registerResource`. -/
def registerResource (resources : ResourceManager) (resourceName : String) :
    ResourceManager × Bool :=
  match resources.lookup.find? resourceName with
  | some _ => (resources, false)
  | none => ({ lookup := resources.lookup.insert resourceName { id := resourceName } }, true)

/-- A write through the pointer that `getResource` has returned. -/
def set (resources : ResourceManager) (resourceName : String) (resource : Resource) :
    ResourceManager :=
  { lookup := resources.lookup.insert resourceName resource }

end ResourceManager

/-- `Transaction`. -/
structure Transaction where
  id : String
  /-- `std::set<Element>`. -/
  elements : SortedMap String LockMode := .empty
  waitedBy : Option String := none
  deriving DecidableEq

/-- `TransactionManager`. -/
structure TransactionManager where
  lookup : SortedMap String Transaction := .empty
  deriving DecidableEq

namespace TransactionManager

/-- `TransactionManager::getTransaction`. -/
def getTransaction (transactions : TransactionManager) (txnId : String) : Option Transaction :=
  transactions.lookup.find? txnId

/-- `TransactionManager::add`. -/
def add (transactions : TransactionManager) (txn : Transaction) : TransactionManager × Bool :=
  match transactions.lookup.find? txn.id with
  | some _ => (transactions, false)
  | none => ({ lookup := transactions.lookup.insert txn.id txn }, true)

/-- A write through the pointer to a registered transaction. -/
def update (transactions : TransactionManager) (txnId : String) (f : Transaction → Transaction) :
    TransactionManager :=
  match transactions.lookup.find? txnId with
  | some txn => { lookup := transactions.lookup.insert txnId (f txn) }
  | none => transactions

/-- The transaction `txn.waitedBy` points at. -/
def waitedBy (transactions : TransactionManager) (txn : Transaction) : Option Transaction :=
  txn.waitedBy.bind transactions.getTransaction

variable {transactions : TransactionManager} {txn txn' : Transaction} {txnId : String}

theorem getTransaction_update {txnId' : String} {f : Transaction → Transaction} :
    (transactions.update txnId f).getTransaction txnId' =
      if txnId' = txnId then (transactions.getTransaction txnId).map f
      else transactions.getTransaction txnId' := by
  unfold update getTransaction
  cases hfind : transactions.lookup.find? txnId with
  | some txn => exact SortedMap.find?_insert
  | none =>
    dsimp only
    split
    · rename_i heq
      rw [heq, hfind]
      rfl
    · rfl

/-- Transactions are registered under their ids, the ids are not empty, and what waits for a
registered transaction is registered. -/
structure Closed (transactions : TransactionManager) : Prop where
  id_eq : ∀ {txnId txn}, transactions.getTransaction txnId = some txn → txn.id = txnId
  id_ne : ∀ {txnId txn}, transactions.getTransaction txnId = some txn → txnId ≠ ""
  registered : ∀ {txnId txn}, transactions.getTransaction txnId = some txn →
    ∀ w ∈ txn.waitedBy, transactions.getTransaction w ≠ none

theorem closed_iff :
    transactions.Closed ↔ ∀ e ∈ transactions.lookup.entries, e.2.id = e.1 ∧ e.1 ≠ "" ∧
      ∀ w ∈ e.2.waitedBy, transactions.getTransaction w ≠ none := by
  constructor
  · intro h e he
    have hget : transactions.getTransaction e.1 = some e.2 := SortedMap.find?_eq_some.mpr he
    exact ⟨h.id_eq hget, h.id_ne hget, h.registered hget⟩
  · intro h
    have hmem : ∀ {txnId txn}, transactions.getTransaction txnId = some txn →
        (txnId, txn) ∈ transactions.lookup.entries := fun hget => SortedMap.find?_eq_some.mp hget
    exact ⟨fun hget => (h _ (hmem hget)).1, fun hget => (h _ (hmem hget)).2.1,
      fun hget => (h _ (hmem hget)).2.2⟩

instance : Decidable transactions.Closed := decidable_of_iff _ closed_iff.symm

/-- A transaction that is registered. -/
def Registered (transactions : TransactionManager) (txn : Transaction) : Prop :=
  transactions.getTransaction txn.id = some txn

instance (txn : Transaction) : Decidable (transactions.Registered txn) :=
  inferInstanceAs (Decidable (_ = _))

namespace Closed

/-- What waits for a registered transaction is a registered transaction. -/
theorem waitedBy_registered (h : transactions.Closed)
    (hlink : transactions.waitedBy txn = some txn') : transactions.Registered txn' := by
  obtain ⟨w, -, hget⟩ := Option.bind_eq_some_iff.mp hlink
  unfold Registered
  rw [h.id_eq hget]
  exact hget

/-- A registered transaction has a pointer exactly if somebody waits for it. -/
theorem waitedBy_eq_none (h : transactions.Closed) (htxn : transactions.Registered txn) :
    transactions.waitedBy txn = none ↔ txn.waitedBy = none := by
  unfold waitedBy
  cases hw : txn.waitedBy with
  | none => simp
  | some w =>
    rw [Option.bind_some]
    exact iff_of_false (h.registered htxn w hw) (by simp)

end Closed

theorem Registered.eq_of_id (h : transactions.Registered txn) (h' : transactions.Registered txn')
    (hid : txn.id = txn'.id) : txn = txn' := by
  unfold Registered at h h'
  rw [hid, h'] at h
  exact (Option.some.inj h).symm

/-- There are no more transactions than entries. -/
theorem length_le_of_nodup {txns : List Transaction} (hnodup : txns.Nodup)
    (h : ∀ txn ∈ txns, transactions.Registered txn) :
    txns.length ≤ transactions.lookup.entries.length := by
  have hsub : txns ⊆ transactions.lookup.entries.map (·.2) := by
    intro txn htxn
    exact List.mem_map.mpr ⟨_, SortedMap.find?_eq_some.mp (h txn htxn), rfl⟩
  have hle := (List.subperm_of_subset hnodup hsub).length_le
  rwa [List.length_map] at hle

end TransactionManager

end ReplicatedCounter.MyDb.Experimental
