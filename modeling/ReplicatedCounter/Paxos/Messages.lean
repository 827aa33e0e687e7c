import Mathlib.Order.Defs.LinearOrder
import Mathlib.Tactic.Common

/-!
# `wor/paxos/proto/PaxosMessage.proto` and `wor/paxos/Common.cc`

The messages an acceptor stores and exchanges, and the order on ballots. Message fields keep
protobuf's presence where the code can see it: `Promise.ballot_id` and `Promise.value` may be
unset, `PaxosInstance.accepted` is set by the first `accept` and never unset again.

`operator<=` and `operator<` of `Common.cc` compare the major id first and look at the minor id
only between equal majors. They are the two halves of one linear order, which is all that the
consensus argument needs of them.
-/

set_option autoImplicit false

namespace ReplicatedCounter.Paxos

/-- `internal::BallotId`. -/
structure BallotId where
  majorId : Int := 0
  minorId : Int := 0
  deriving DecidableEq, Repr

namespace BallotId

/-- `operator<=(const BallotId&, const BallotId&)`. -/
def le (x y : BallotId) : Prop :=
  if x.majorId = y.majorId then x.minorId ≤ y.minorId else x.majorId ≤ y.majorId

/-- `operator<(const BallotId&, const BallotId&)`. -/
def lt (x y : BallotId) : Prop :=
  if x.majorId = y.majorId then x.minorId < y.minorId else x.majorId < y.majorId

instance : LE BallotId := ⟨le⟩
instance : LT BallotId := ⟨lt⟩

theorem le_def (x y : BallotId) :
    x ≤ y ↔ if x.majorId = y.majorId then x.minorId ≤ y.minorId else x.majorId ≤ y.majorId :=
  Iff.rfl

theorem lt_def (x y : BallotId) :
    x < y ↔ if x.majorId = y.majorId then x.minorId < y.minorId else x.majorId < y.majorId :=
  Iff.rfl

instance (x y : BallotId) : Decidable (x ≤ y) := inferInstanceAs (Decidable (ite _ _ _))
instance (x y : BallotId) : Decidable (x < y) := inferInstanceAs (Decidable (ite _ _ _))

/-- The two operators are one linear order: `<` is `<=` without its converse. -/
instance : LinearOrder BallotId where
  le_refl x := by simp [le_def]
  le_trans x y z hxy hyz := by
    rw [le_def] at *
    split_ifs at * <;> omega
  lt_iff_le_not_ge x y := by
    rw [lt_def, le_def, le_def]
    split_ifs <;> omega
  le_antisymm x y hxy hyx := by
    rw [le_def] at hxy hyx
    have hmajor : x.majorId = y.majorId := by split_ifs at * <;> omega
    have hminor : x.minorId = y.minorId := by
      rw [if_pos hmajor] at hxy
      rw [if_pos hmajor.symm] at hyx
      omega
    cases x
    cases y
    simp_all
  le_total x y := by
    rw [le_def, le_def]
    split_ifs <;> omega
  toDecidableLE := fun x y => inferInstance
  toDecidableLT := fun x y => inferInstance

/-- Ballots of one register are ordered by their lock ids. -/
theorem mk_lt_mk {major k k' : Int} : (⟨major, k⟩ : BallotId) < ⟨major, k'⟩ ↔ k < k' := by
  simp [lt_def]

theorem mk_le_mk {major k k' : Int} : (⟨major, k⟩ : BallotId) ≤ ⟨major, k'⟩ ↔ k ≤ k' := by
  simp [le_def]

end BallotId

/-- `internal::Promise`: what `prepare` answers, and what `PaxosInstance` stores as accepted. -/
structure Promise where
  ballotId : Option BallotId := none
  value : Option String := none
  deriving DecidableEq, Repr

/-- `internal::Proposal`. -/
structure Proposal where
  ballotId : BallotId := {}
  value : String := ""
  deriving DecidableEq, Repr

/-- `internal::PaxosInstance`. -/
structure PaxosInstance where
  id : String := ""
  promisedBallotId : BallotId := {}
  accepted : Option Promise := none
  committed : Bool := false
  deriving DecidableEq, Repr

/-- `std::variant<Promise, std::false_type>`, the answer to a prepare. -/
inductive PrepareResponse where
  | promise (p : Promise)
  | rejected
  deriving DecidableEq, Repr

end ReplicatedCounter.Paxos
