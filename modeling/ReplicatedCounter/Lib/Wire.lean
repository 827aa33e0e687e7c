import Mathlib.Tactic.Common

/-!
# Self-delimiting encodings

A type that can be written so that a reader knows where it ends. Everything is text, numbers are
unary: the point is a round trip that holds by construction (`Wire.get_put`), composes over pairs
and lists, and can be evaluated, not a compact format.
-/

set_option autoImplicit false

/-- `get` takes off the front what `put` wrote, whatever follows. -/
class Wire (α : Type) where
  put : α → List Char
  get : List Char → Option (α × List Char)
  get_put : ∀ a rest, get (put a ++ rest) = some (a, rest)

namespace Wire

/-- Count the marks up to the first other character. -/
def getNat : List Char → Option (Nat × List Char)
  | [] => none
  | c :: rest => if c = '1' then (getNat rest).map fun (n, rest) => (n + 1, rest) else some (0, rest)

instance : Wire Nat where
  put n := List.replicate n '1' ++ ['0']
  get := getNat
  get_put n rest := by
    rw [List.append_assoc]
    induction n with
    | zero => rfl
    | succ n ih =>
      rw [List.replicate_succ, List.cons_append, getNat, if_pos rfl, ih]
      rfl

instance {α β : Type} [Wire α] [Wire β] : Wire (α × β) where
  put p := put p.1 ++ put p.2
  get cs := do
    let (a, cs) ← get cs
    let (b, cs) ← get cs
    return ((a, b), cs)
  get_put := by
    rintro ⟨a, b⟩ rest
    simp only [List.append_assoc, get_put, bind, pure, Option.bind_some]

/-- A type written as another one. -/
@[reducible] def ofEquiv {α β : Type} [Wire β] (f : α → β) (g : β → α) (h : ∀ a, g (f a) = a) :
    Wire α where
  put a := put (f a)
  get cs := (get cs).map fun (b, cs) => (g b, cs)
  get_put a rest := by simp only [get_put, Option.map_some, h]

instance : Wire Char where
  put c := [c]
  get
    | [] => none
    | c :: rest => some (c, rest)
  get_put _ _ := rfl

instance : Wire Bool := ofEquiv (β := Nat) Bool.toNat (· ≠ 0) (by decide)

instance : Wire Int :=
  ofEquiv (fun i => (decide (i < 0), i.natAbs)) (fun p => if p.1 then -(p.2 : Int) else p.2) (by
    intro i
    by_cases h : i < 0
    · simp only [h, decide_true, if_true]
      omega
    · simp only [h, decide_false, Bool.false_eq_true, if_false]
      omega)

/-- Read `n` elements. -/
def getMany {α : Type} [Wire α] : Nat → List Char → Option (List α × List Char)
  | 0, cs => some ([], cs)
  | n + 1, cs => do
    let (a, cs) ← get cs
    let (as, cs) ← getMany n cs
    return (a :: as, cs)

theorem getMany_put {α : Type} [Wire α] (as : List α) (rest : List Char) :
    getMany as.length (as.flatMap put ++ rest) = some (as, rest) := by
  induction as with
  | nil => rfl
  | cons a as ih =>
    simp only [List.length_cons, List.flatMap_cons, List.append_assoc, getMany, get_put, ih, bind,
      pure, Option.bind_some]

instance {α : Type} [Wire α] : Wire (List α) where
  put as := put as.length ++ as.flatMap put
  get cs := do
    let (n, cs) ← get cs
    getMany n cs
  get_put as rest := by
    rw [List.append_assoc]
    simp only [get_put, bind, Option.bind_some]
    exact getMany_put as rest

instance : Wire String := ofEquiv String.toList String.ofList fun _ => String.ofList_toList

/-- Write as text. -/
def serialize {α : Type} [Wire α] (a : α) : String := String.ofList (put a)

/-- Read a text that holds one value and nothing else. -/
def parse {α : Type} [Wire α] (text : String) : Option α :=
  match get text.toList with
  | some (a, []) => some a
  | _ => none

theorem parse_serialize {α : Type} [Wire α] (a : α) : parse (serialize a) = some a := by
  have h := get_put a []
  rw [List.append_nil] at h
  unfold parse serialize
  rw [String.toList_ofList, h]

end Wire
