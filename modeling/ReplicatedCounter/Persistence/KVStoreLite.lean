import Mathlib.Logic.Function.Basic
import Mathlib.Tactic.Common

/-!
# `persistence/KVStoreLite.h` and the Rocks store behind the acceptor

`KVStoreLite` is the interface the acceptor is written against: `put` answers whether the write
went through, `get` finds what is there. What the acceptor relies on is `LawfulKVStoreLite` — a
write succeeds and is readable at once. That is the *reliable* store of every consensus argument,
and it says nothing about a crash.

`RocksStore` is `RocksKVStoreLite` over a database opened with `RocksDbConfig.manualWALFlush`.
It keeps two contents: what `Get` answers, and what the write-ahead log on disk would give back
after the process dies. With `manualWALFlush` set a `Write` reaches only the first; `FlushWAL`
copies the first over the second.
-/

set_option autoImplicit false

namespace ReplicatedCounter

/-- `SerializeAsString` / `ParseFromString` of one message type. Protobuf gives back what was
serialised; of arbitrary bytes nothing is assumed. -/
structure Codec (α β : Type) where
  serialize : α → β
  parse : β → Option α
  parse_serialize : ∀ a, parse (serialize a) = some a

/-- Messages that stand for their own bytes. -/
def Codec.identity (α : Type) : Codec α α where
  serialize := id
  parse := some
  parse_serialize _ := rfl

/-- `persistence::KVStoreLite`: `put` (with its status), `get` and `flushWal`. -/
class KVStoreLite (κ : Type) (β : outParam Type) where
  put : κ → String → β → κ × Bool
  get : κ → String → Option β
  flushWal : κ → κ × Bool

/-- A store that does what it is asked: writes succeed and are readable at once. -/
class LawfulKVStoreLite (κ : Type) (β : outParam Type) [KVStoreLite κ β] : Prop where
  put_ok : ∀ (kv : κ) (key : String) (value : β), (KVStoreLite.put kv key value).2 = true
  get_put : ∀ (kv : κ) (key key' : String) (value : β),
    KVStoreLite.get (KVStoreLite.put kv key value).1 key' =
      if key' = key then some value else KVStoreLite.get kv key'

/-- A store whose `flushWal` succeeds as well. -/
class FlushingKVStoreLite (κ : Type) (β : outParam Type) [KVStoreLite κ β] : Prop where
  flushWal_ok : ∀ kv : κ, (KVStoreLite.flushWal kv).2 = true
  get_flushWal : ∀ (kv : κ) (key : String),
    KVStoreLite.get (KVStoreLite.flushWal kv).1 key = KVStoreLite.get kv key

/-- `persistence::KVStoreLite::deleteRange`, with its status. -/
class RangeKVStoreLite (κ : Type) where
  deleteRange : κ → String → String → κ × Bool

/-- A store whose `deleteRange` deletes the keys in `[start, end)`, in the order of their bytes.
RocksDB refuses a range that ends before it starts. -/
class LawfulRangeKVStoreLite (κ : Type) (β : outParam Type) [KVStoreLite κ β] [RangeKVStoreLite κ] :
    Prop where
  deleteRange_ok : ∀ (kv : κ) (first last : String), ¬ last < first →
    (RangeKVStoreLite.deleteRange kv first last).2 = true
  get_deleteRange : ∀ (kv : κ) (first last key : String), ¬ last < first →
    KVStoreLite.get (RangeKVStoreLite.deleteRange kv first last).1 key =
      if ¬ key < first ∧ key < last then none else KVStoreLite.get kv key

/-- `RocksKVStoreLite::putIfNotExists`. -/
def KVStoreLite.putIfNotExists {κ β : Type} [KVStoreLite κ β] (kv : κ) (key : String) (value : β) :
    κ × Bool :=
  match KVStoreLite.get kv key with
  | some _ => (kv, false)
  | none => KVStoreLite.put kv key value

/-- `RocksKVStoreLite`: the content `Get` reads and the content on disk. -/
structure RocksStore (β : Type) where
  manualWALFlush : Bool
  memory : String → Option β
  durable : String → Option β

namespace RocksStore

variable {β : Type}

/-- `RocksDbFactory::provideSharedPtr` on a directory that holds no database yet. -/
def provideSharedPtr (manualWALFlush : Bool) : RocksStore β :=
  ⟨manualWALFlush, fun _ => none, fun _ => none⟩

/-- `RocksKVStoreLite::put`: one `Write`. Only without `manualWALFlush` does the write-ahead log
leave the process with it. -/
def put (kv : RocksStore β) (key : String) (value : β) : RocksStore β × Bool :=
  ({ kv with
      memory := Function.update kv.memory key (some value)
      durable := if kv.manualWALFlush then kv.durable
        else Function.update kv.memory key (some value) }, true)

/-- `RocksKVStoreLite::get`. -/
def get (kv : RocksStore β) (key : String) : Option β := kv.memory key

/-- `RocksKVStoreLite::flushWal`: `FlushWAL(true)`. -/
def flushWal (kv : RocksStore β) : RocksStore β × Bool := ({ kv with durable := kv.memory }, true)

/-- `RocksKVStoreLite::deleteRange`. -/
def deleteRange (kv : RocksStore β) (first last : String) : RocksStore β × Bool :=
  if last < first then
    (kv, false)
  else
    let rest := fun key => if ¬ key < first ∧ key < last then none else kv.memory key
    ({ kv with memory := rest, durable := if kv.manualWALFlush then kv.durable else rest }, true)

/-- The process dies and the database is opened again. -/
def crash (kv : RocksStore β) : RocksStore β := { kv with memory := kv.durable }

instance : KVStoreLite (RocksStore β) β := ⟨put, get, flushWal⟩

instance : LawfulKVStoreLite (RocksStore β) β where
  put_ok _ _ _ := rfl
  get_put kv key key' value := by
    simp only [KVStoreLite.put, KVStoreLite.get, put, get, Function.update_apply]

instance : FlushingKVStoreLite (RocksStore β) β where
  flushWal_ok _ := rfl
  get_flushWal _ _ := rfl

instance : RangeKVStoreLite (RocksStore β) := ⟨deleteRange⟩

instance : LawfulRangeKVStoreLite (RocksStore β) β where
  deleteRange_ok kv first last h := by
    simp only [RangeKVStoreLite.deleteRange, deleteRange, if_neg h]
  get_deleteRange kv first last key h := by
    simp only [RangeKVStoreLite.deleteRange, deleteRange, if_neg h, KVStoreLite.get, get]

end RocksStore

end ReplicatedCounter
