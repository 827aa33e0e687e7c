import ReplicatedCounter.Lib.WriteBatch

/-!
# Programs that read a map and write to it

A program looks up keys, one after the other, and says in the end what to write. What it is going to
look up may depend on what it has found. All that counts is which keys it has been at: two maps
which agree on them make it do the same. So an execution against one map is as good as one against
another (`run_eq`), if nothing the program has seen is different there.
-/

set_option autoImplicit false

/-- A program, by what it does to each map. -/
structure Program (K V : Type*) [LinearOrder K] where
  /-- The keys it looks up or writes. -/
  keys : SortedMap K V → List K
  run : SortedMap K V → WriteBatch K V
  run_eq : ∀ m m', (∀ k ∈ keys m, m'.find? k = m.find? k) → run m' = run m
  writes : ∀ m, WriteBatch.keys (run m) ⊆ keys m

namespace Program

variable {K V : Type*} [LinearOrder K]

/-- The program that writes this batch to every map. -/
def ofBatch (batch : WriteBatch K V) : Program K V where
  keys _ := batch.keys
  run _ := batch
  run_eq _ _ _ := rfl
  writes _ := List.Subset.refl _

/-- The program is run, and its writes are made. -/
def exec (m : SortedMap K V) (p : Program K V) : SortedMap K V := WriteBatch.write m (p.run m)

/-- One program after the other. -/
def serially (m : SortedMap K V) (programs : List (Program K V)) : SortedMap K V :=
  programs.foldl exec m

variable {m m' : SortedMap K V} {programs : List (Program K V)} {p : Program K V}

@[simp] theorem serially_nil : serially m [] = m := rfl

theorem serially_concat : serially m (programs ++ [p]) = exec (serially m programs) p := by
  unfold serially
  rw [List.foldl_append]
  rfl

theorem exec_ofBatch (batch : WriteBatch K V) : exec m (ofBatch batch) = WriteBatch.write m batch :=
  rfl

/-- **An execution ahead of time is as good as one in its turn**, if nothing that the program has
been at has changed. -/
theorem exec_eq (h : ∀ k ∈ p.keys m', m.find? k = m'.find? k) :
    exec m p = WriteBatch.write m (p.run m') := by
  unfold exec
  rw [p.run_eq m' m h]

end Program
