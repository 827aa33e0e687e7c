import Mathlib.Tactic.Common

/-!
# Coroutines that keep state and may throw

A coroutine is a state transformer with exceptions on top. The order matters: an exception does
not roll the state back, it leaves it as it was when it was thrown. `exec` runs one; the lemmas are
what a proof needs to walk through a `do` block without opening the monad.
-/

set_option autoImplicit false

/-- State `κ`, exceptions `ε`. -/
abbrev Coro (ε κ : Type) := ExceptT ε (StateM κ)

namespace Coro

variable {ε κ α γ : Type}

/-- Run a coroutine in a state. -/
def exec (m : Coro ε κ α) (s : κ) : Except ε α × κ := (ExceptT.run m).run s

@[simp] theorem exec_pure (a : α) (s : κ) : exec (pure a : Coro ε κ α) s = (.ok a, s) := rfl

theorem exec_getThe (s : κ) : exec (getThe κ : Coro ε κ κ) s = (.ok s, s) := rfl

/-- Sequencing stops at the first exception and keeps the state it was thrown in. -/
theorem exec_bind (m : Coro ε κ α) (f : α → Coro ε κ γ) (s : κ) :
    exec (m >>= f) s =
      match exec m s with
      | (.ok a, s') => exec (f a) s'
      | (.error e, s') => (.error e, s') := by
  show ((ExceptT.run m).run s >>= fun r => (ExceptT.bindCont f r.1).run r.2 : Id _) = _
  rcases h : exec m s with ⟨r, s'⟩
  have h' : (ExceptT.run m).run s = (r, s') := h
  rw [h']
  cases r <;> rfl

theorem exec_bind_ok {m : Coro ε κ α} {f : α → Coro ε κ γ} {s s' : κ} {a : α}
    (h : exec m s = (.ok a, s')) : exec (m >>= f) s = exec (f a) s' := by
  rw [exec_bind, h]

theorem exec_map (m : Coro ε κ α) (f : α → γ) (s : κ) :
    exec (do return f (← m)) s = ((exec m s).1.map f, (exec m s).2) := by
  rw [exec_bind]
  rcases exec m s with ⟨r, s'⟩
  cases r <;> rfl

/-- A mapped coroutine returns exactly the images of what the coroutine returns. -/
theorem exec_map_ok_iff {m : Coro ε κ α} {f : α → γ} {s s' : κ} {c : γ} :
    exec (do return f (← m)) s = (.ok c, s') ↔ ∃ a, exec m s = (.ok a, s') ∧ f a = c := by
  rw [exec_bind]
  rcases exec m s with ⟨r, t⟩
  cases r with
  | error e => simp
  | ok a =>
    simp only [exec_pure, Prod.mk.injEq, Except.ok.injEq]
    constructor
    · rintro ⟨hc, ht⟩
      exact ⟨a, ⟨rfl, ht⟩, hc⟩
    · rintro ⟨a', ⟨rfl, ht⟩, hc⟩
      exact ⟨hc, ht⟩

/-- Whatever happens, the coroutine ends in a state satisfying `P` if it starts in one. -/
def Keeps (P : κ → Prop) (m : Coro ε κ α) : Prop := ∀ s, P s → P (exec m s).2

variable {P : κ → Prop}

theorem keeps_pure (a : α) : Keeps P (pure a : Coro ε κ α) := fun _ hs => hs

theorem keeps_throw (e : ε) : Keeps P (throw e : Coro ε κ α) := fun _ hs => hs

/-- What the second coroutine relies on, the first one returns. -/
theorem Keeps.bind_of {Q : α → Prop} {m : Coro ε κ α} {f : α → Coro ε κ γ} (hm : Keeps P m)
    (hQ : ∀ s a s', P s → exec m s = (.ok a, s') → Q a) (hf : ∀ a, Q a → Keeps P (f a)) :
    Keeps P (m >>= f) := by
  intro s hs
  have hm' := hm s hs
  rw [exec_bind]
  rcases hx : exec m s with ⟨r, s'⟩
  rw [hx] at hm'
  cases r with
  | error e => exact hm'
  | ok a => exact hf a (hQ s a s' hs hx) s' hm'

theorem Keeps.bind {m : Coro ε κ α} {f : α → Coro ε κ γ} (hm : Keeps P m)
    (hf : ∀ a, Keeps P (f a)) : Keeps P (m >>= f) :=
  hm.bind_of (fun _ _ _ _ _ => trivial) fun a _ => hf a

/-- A coroutine that looks at the state goes on with one it may look at. -/
theorem Keeps.getThe_bind {f : κ → Coro ε κ γ} (hf : ∀ a, P a → Keeps P (f a)) :
    Keeps P (getThe κ >>= f) := by
  intro s hs
  rw [exec_bind_ok (exec_getThe s)]
  exact hf s hs s hs

theorem keeps_modify {f : κ → κ} (hf : ∀ s, P s → P (f s)) :
    Keeps P (modify f : Coro ε κ PUnit) := hf

theorem keeps_return_getThe (f : κ → γ) : Keeps P (do return f (← getThe κ) : Coro ε κ γ) :=
  fun _ hs => hs

end Coro
