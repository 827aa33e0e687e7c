import Mathlib.Tactic.Common

/-!
# Calls through a wire

A server runs a call, catches what it throws and answers with a response or a status; the client
reads the response, or throws what it makes of the status. Results get through if the client reads
what the server writes. Of an exception only what the status says of it gets through
(`sameKind_receive_serve`).
-/

set_option autoImplicit false

/-- What a call comes to, with exceptions of type `ε`. -/
inductive Outcome (ε β : Type*) where
  | returned (result : β)
  | thrown (exception : ε)
  /-- It waits, and will return. -/
  | pending
  /-- It does what is undefined. -/
  | undefined
  deriving DecidableEq, Repr

namespace Outcome

variable {ε κ σ β ρ : Type*}

/-- The same result, or exceptions of one kind. -/
def SameKind (kind : ε → κ) : Outcome ε β → Outcome ε β → Prop
  | .returned result, .returned result' => result = result'
  | .thrown e, .thrown e' => kind e = kind e'
  | .pending, .pending => True
  | .undefined, .undefined => True
  | _, _ => False

/-- A server's handler: `respond` writes the response, and `fault` is the handler of the
exceptions. -/
def serve (respond : β → ρ) (fault : ε → σ) : Outcome ε β → Outcome ε (Except σ ρ)
  | .returned result => .returned (.ok (respond result))
  | .thrown e => .returned (.error (fault e))
  | .pending => .pending
  | .undefined => .undefined

/-- What the client makes of the answer. -/
def receive (read : ρ → β) (raise : σ → ε) : Outcome ε (Except σ ρ) → Outcome ε β
  | .returned (.ok response) => .returned (read response)
  | .returned (.error status) => .thrown (raise status)
  | .thrown e => .thrown e
  | .pending => .pending
  | .undefined => .undefined

variable {kind : ε → κ} {outcome : Outcome ε β} {respond : β → ρ} {read : ρ → β} {fault : ε → σ}
  {raise : σ → ε}

/-- **What gets through**: every result, and the exceptions that keep their kind on the way. -/
theorem sameKind_receive_serve (hread : ∀ result, read (respond result) = result) :
    SameKind kind (receive read raise (serve respond fault outcome)) outcome ↔
      ∀ e, outcome = .thrown e → kind (raise (fault e)) = kind e := by
  cases outcome with
  | returned result => exact iff_of_true (hread result) nofun
  | thrown e =>
    constructor
    · rintro hkind e' heq
      cases heq
      exact hkind
    · intro h
      exact h e rfl
  | pending => exact iff_of_true trivial nofun
  | undefined => exact iff_of_true trivial nofun

end Outcome
