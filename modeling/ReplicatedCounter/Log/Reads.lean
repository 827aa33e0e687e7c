import ReplicatedCounter.Log.Guarantees

/-!
# What two reads of the same id have in common

`getLogEntry` looks up the version once and then takes the entry from the first replica that has
it. It does not ask whether the entry is committed, so a reader may see what no client was told
about; and a version that is installed later may start at or below that id and give it to another
entry (`readThenReassigned`).

What a reader can rely on is the lookup. **Between two lookups of `l` the answer only changes when a
version that starts at or below `l` is installed**, and within a version an id has one payload.
-/

set_option autoImplicit false

namespace ReplicatedCounter.Log.LogSystem

open Metadata InMemoryMetadataStore

variable {N : Nat} {s s' : LogSystem N} {l : Int} {b : Option Bootstrap}
  {es es₁ es₂ es₃ : List (LogEvent N)} {c c' : CallId}

theorem firstVersionEnd_le (b : Option Bootstrap) :
    firstVersionEnd b ≤ highestNonExistingLogId := by
  cases b with
  | none => exact le_refl _
  | some b => exact b.endIndex_le

/-- **The lookup is stable** until a version that starts at or below the id is installed. -/
theorem routes_same (h : s.Valid (firstVersionEnd b)) (h' : s'.Valid (firstVersionEnd b))
    (g : s.Grows s') {config config' : MetadataConfig}
    (hconfig : s.metadataStore.getConfigUsingLogId l = some config)
    (hconfig' : s'.metadataStore.getConfigUsingLogId l = some config')
    (hquiet : ∀ w a, s'.metadataStore.startOf w = some a → a ≤ l →
      s.metadataStore.startOf w = some a) :
    config'.versionId = config.versionId := by
  obtain ⟨hstart, hle, hend, hlater⟩ :=
    h.store.chain.of_routes (firstVersionEnd_le b) hconfig
  obtain ⟨config'', hconfig'', hversion⟩ := h'.store.chain.routes (g.startOf hstart) hle
    (fun w a hw ha => by
      by_contra hlt
      exact hlt (hlater w a hw (hquiet w a ha (not_lt.mp hlt)))) hend
  rw [hconfig'] at hconfig''
  rw [Option.some.inj hconfig'']
  exact hversion

/-- Id 1 is on replica 0 only, and nobody has been told about it. -/
def unacknowledged : List (LogEvent 3) := appended3 1 1 "a" ++ handle (fromSequencer 0 1 1 1 "a")

/-- The first read returns; meanwhile id 1 reaches another replica. -/
def readOnce : List (LogEvent 3) := .probe 0 :: handle (fromSequencer 1 1 1 1 "a")

/-- The majority of replicas 1 and 2. -/
def replicas12 : MajoritySet 3 := ⟨[1, 2], by decide, by decide⟩

/-- Replicas 1 and 2 are sealed at 1, where version 2 starts; its sequencer gives id 1 to another
entry, and the second read finds it. -/
def readThenReassigned : List (LogEvent 3) :=
  unacknowledged ++ [.getLogEntry 0 1, .probe 0] ++
  [.reconfigure 0 {} replicas12, .sealNext 0, .sealNext 0, .install 0] ++
  appended3 2 1 "b" ++ handle (fromSequencer 0 1 2 1 "b") ++ [.getLogEntry 1 1, .probe 1]

end ReplicatedCounter.Log.LogSystem
