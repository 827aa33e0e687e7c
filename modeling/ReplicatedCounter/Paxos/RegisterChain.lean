import Mathlib.Data.Int.Order.Basic
import ReplicatedCounter.Lib.SortedMap

/-!
# `wor/WriteOnceRegisterChainImpl.h`

A map of registers under consecutive ids. What a register is, is left open: the chain only makes one
with its factory, and hands it out.
-/

set_option autoImplicit false

namespace ReplicatedCounter.Paxos

/-- `WriteOnceRegisterChainImpl`, over registers of type `R`. No register has an id above the
counter. -/
structure WriteOnceRegisterChainImpl (R : Type) where
  worId : Int := 0
  lookup : SortedMap Int R := .empty
  le_worId : ∀ id r, lookup.find? id = some r → id ≤ worId := by simp

namespace WriteOnceRegisterChainImpl

variable {R : Type}

/-- `WriteOnceRegisterChainImpl::append`. -/
def append (chain : WriteOnceRegisterChainImpl R) (registerFactory : Int → R) :
    WriteOnceRegisterChainImpl R × Option Int :=
  ({ worId := chain.worId + 1
     lookup := chain.lookup.insert (chain.worId + 1) (registerFactory (chain.worId + 1))
     le_worId := by
      intro id r h
      rw [SortedMap.find?_insert] at h
      split at h
      · rename_i heq
        exact heq.le
      · exact (chain.le_worId id r h).trans (Int.le_add_one le_rfl) },
    some (chain.worId + 1))

/-- `WriteOnceRegisterChainImpl::get`. -/
def get (chain : WriteOnceRegisterChainImpl R) (id : Int) : Option R := chain.lookup.find? id

/-- A call on the register of an id. -/
def onRegister (chain : WriteOnceRegisterChainImpl R) (id : Int) (f : R → R) :
    WriteOnceRegisterChainImpl R :=
  match h : chain.lookup.find? id with
  | none => chain
  | some r =>
    { chain with
      lookup := chain.lookup.insert id (f r)
      le_worId := by
        intro id' r' h'
        rw [SortedMap.find?_insert] at h'
        split at h'
        · rename_i heq
          exact heq ▸ chain.le_worId id r h
        · exact chain.le_worId id' r' h' }

variable {chain : WriteOnceRegisterChainImpl R} {id id' : Int} {r : R}

theorem get_append {registerFactory : Int → R} :
    (chain.append registerFactory).1.get id =
      if id = chain.worId + 1 then some (registerFactory (chain.worId + 1)) else chain.get id := by
  unfold append get
  exact SortedMap.find?_insert

theorem get_onRegister {f : R → R} :
    (chain.onRegister id f).get id' = if id' = id then (chain.get id).map f else chain.get id' := by
  unfold onRegister
  split
  · rename_i hnone
    split
    · rename_i heq
      unfold get
      rw [heq, hnone]
      rfl
    · rfl
  · rename_i r hsome
    unfold get
    dsimp only
    rw [SortedMap.find?_insert, hsome]
    rfl

end WriteOnceRegisterChainImpl

end ReplicatedCounter.Paxos
