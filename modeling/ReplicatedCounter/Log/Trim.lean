import ReplicatedCounter.Lib.DecimalOrder
import ReplicatedCounter.Log.RocksNanoLog

/-!
# `RocksNanoLog::trim`

`trim(n)` deletes a range of keys, from that of entry 0 up to that of entry `n`. Keys are compared
as text, and log ids stand in them without padding. **So what goes is not what is below `n`**:
`trim(10)` leaves 2 to 9 where they are, and `trim(9)` takes 10 with it.

What is no entry of the version is safe. A key between two keys of entries begins like both of them.
-/

set_option autoImplicit false

namespace ReplicatedCounter.Log

namespace RocksNanoLog

variable {α κ : Type} [KVStoreLite κ String] [RangeKVStoreLite κ]

/-- `RocksNanoLog::trim`. -/
def trim (logId : Int) : RocksM α κ Int := do
  let nanoLog ← getThe (RocksNanoLog α κ)
  let startKey := logKey nanoLog.versionId 0
  let endKey := logKey nanoLog.versionId logId
  let deleteResult ← onStore fun kv => RangeKVStoreLite.deleteRange kv startKey endKey
  if deleteResult then
    return logId
  throw .logTrimFailed

/-! ## Keys in order -/

/-- What the keys of a version's entries begin with. -/
def logPrefix (versionId : String) : List Char :=
  "VERSION_ID|".toList ++ (versionId.toList ++ "|LOG_ID|".toList)

theorem toList_logKey (versionId : String) (logId : Int) :
    (logKey versionId logId).toList = logPrefix versionId ++ logId.repr.toList := by
  unfold logKey logPrefix
  simp only [String.toList_append, List.append_assoc]

theorem toList_repr (n : Nat) : (n : Int).repr.toList = Nat.toDigits 10 n := Nat.toList_repr

theorem logKey_lt_iff (versionId : String) (l n : Nat) :
    logKey versionId l < logKey versionId n ↔ Nat.toDigits 10 l < Nat.toDigits 10 n := by
  rw [String.lt_iff, toList_logKey, toList_logKey, PrefixScan.append_lt_append_iff, toList_repr,
    toList_repr]

/-- No entry's key is before that of entry 0. -/
theorem not_logKey_lt_zero (versionId : String) (n : Nat) :
    ¬ logKey versionId n < logKey versionId 0 := by
  have hzero : Decimal.digits 0 = 1 := rfl
  have hpos : 0 < Decimal.digits n := Nat.length_toDigits_pos
  rw [show (0 : Int) = ((0 : Nat) : Int) from rfl, logKey_lt_iff, Decimal.toDigits_lt_iff, hzero,
    if_neg (by omega)]
  exact Nat.not_lt_zero _

/-- A key between two keys of entries begins like them. -/
theorem begins_of_between {versionId key : String} {n : Nat}
    (hstart : ¬ key < logKey versionId 0) (hend : key < logKey versionId n) :
    logPrefix versionId <+: key.toList := by
  rw [String.lt_iff, toList_logKey] at hstart hend
  refine PrefixScan.prefix_of_between (fun hlt => hstart ?_) hend (List.prefix_append _ _)
  exact lt_of_lt_of_le hlt (not_lt.mp (PrefixScan.not_lt_of_prefix (List.prefix_append _ _)))

/-- The keys that say something about a version as a whole. -/
def ownKeys (versionId : String) : List String :=
  [sealKey versionId, startIndexKey versionId, endIndexKey versionId]

/-- A key of a version. -/
def IsKeyOf (versionId key : String) : Prop :=
  (∃ logId, key = logKey versionId logId) ∨ key ∈ ownKeys versionId

theorem not_begins_of_mem_ownKeys {versionId key : String} (h : key ∈ ownKeys versionId) :
    ¬ logPrefix versionId <+: key.toList := by
  intro hbegins
  have hown : ∃ tag ∈ ["|SEAL|", "|START_INDEX|", "|END_INDEX|"],
      key = "VERSION_ID|" ++ versionId ++ tag := by
    simpa [ownKeys, sealKey, startIndexKey, endIndexKey] using h
  obtain ⟨tag, htag, rfl⟩ := hown
  unfold logPrefix at hbegins
  rw [String.toList_append, String.toList_append, List.append_assoc, List.prefix_append_right_inj,
    List.prefix_append_right_inj] at hbegins
  have hnot : ∀ tag ∈ ["|SEAL|", "|START_INDEX|", "|END_INDEX|"],
      ¬ "|LOG_ID|".toList <+: tag.toList := by decide
  exact hnot tag htag hbegins

theorem bar_not_mem_repr (i : Int) : '|' ∉ i.repr.toList := by
  have hdigits : ∀ n, '|' ∉ Nat.toDigits 10 n := fun n h =>
    absurd (Decimal.isDigit_of_mem_toDigits h) (by decide)
  cases i with
  | ofNat n =>
    rw [show (Int.ofNat n).repr.toList = Nat.toDigits 10 n from toList_repr n]
    exact hdigits n
  | negSucc n =>
    have hrepr : (Int.negSucc n).repr.toList = '-' :: Nat.toDigits 10 (n + 1) := by
      show ("-" ++ (n + 1).repr).toList = _
      simp
    rw [hrepr]
    simp [hdigits]

/-- A word without bars is what stands in front of the first one. -/
theorem takeWhile_bar {a rest : List Char} (h : '|' ∉ a) :
    (a ++ '|' :: rest).takeWhile (· ≠ '|') = a := by
  rw [List.takeWhile_append_of_pos fun c hc => by simpa using ne_of_mem_of_not_mem hc h]
  simp

/-- The keys of another version have bars in other places. -/
theorem eq_of_begins {a b rest : List Char} (hb : '|' ∉ b) (hrest : rest.count '|' = 1)
    (h : a ++ "|LOG_ID|".toList <+: b ++ '|' :: rest) : a = b := by
  have hcount := h.sublist.count_le '|'
  rw [List.count_append, List.count_append, List.count_cons_self, hrest,
    List.count_eq_zero.mpr hb] at hcount
  have htwo : "|LOG_ID|".toList.count '|' = 2 := by decide
  have ha : '|' ∉ a := List.count_eq_zero.mp (by omega)
  obtain ⟨s, hs⟩ := h
  have htake := congrArg (List.takeWhile (· ≠ '|')) hs
  rw [takeWhile_bar hb] at htake
  rw [← htake, List.append_assoc]
  exact (takeWhile_bar ha).symm

/-- A key of a version names it between its first two bars, and has one more. -/
theorem IsKeyOf.toList_eq {versionId key : String} (h : IsKeyOf versionId key) :
    ∃ rest : List Char, rest.count '|' = 1 ∧
      key.toList = "VERSION_ID|".toList ++ (versionId.toList ++ '|' :: rest) := by
  rcases h with ⟨logId, rfl⟩ | hown
  · refine ⟨"LOG_ID|".toList ++ logId.repr.toList, ?_, ?_⟩
    · rw [List.count_append, List.count_eq_zero.mpr (bar_not_mem_repr logId)]
      rfl
    · have hbar : "|LOG_ID|".toList = '|' :: "LOG_ID|".toList := by decide
      rw [toList_logKey]
      unfold logPrefix
      rw [List.append_assoc, List.append_assoc, hbar, List.cons_append]
  · have htag : ∃ tag ∈ ["SEAL|", "START_INDEX|", "END_INDEX|"],
        key = "VERSION_ID|" ++ versionId ++ ("|" ++ tag) := by
      simpa [ownKeys, sealKey, startIndexKey, endIndexKey] using hown
    obtain ⟨tag, htag, rfl⟩ := htag
    have hcount : ∀ tag ∈ ["SEAL|", "START_INDEX|", "END_INDEX|"],
        tag.toList.count '|' = 1 := by decide
    exact ⟨tag.toList, hcount tag htag, by simp⟩

theorem not_begins_of_other {versionId key : String} {other : Int}
    (hother : other.repr ≠ versionId) (hkey : IsKeyOf other.repr key) :
    ¬ logPrefix versionId <+: key.toList := by
  obtain ⟨rest, hrest, hkeys⟩ := hkey.toList_eq
  intro hbegins
  unfold logPrefix at hbegins
  rw [hkeys, List.prefix_append_right_inj] at hbegins
  exact hother (String.toList_injective (eq_of_begins (bar_not_mem_repr other) hrest hbegins).symm)

/-! ## What is left -/

variable [LawfulRangeKVStoreLite κ String] {nanoLog : RocksNanoLog α κ}

theorem exec_trim (nanoLog : RocksNanoLog α κ) (n : Nat) :
    ∃ kvStore, Coro.exec (trim n) nanoLog = (.ok (n : Int), { nanoLog with kvStore }) ∧
      ∀ key, KVStoreLite.get kvStore key =
        if ¬ key < logKey nanoLog.versionId 0 ∧ key < logKey nanoLog.versionId n then none
        else KVStoreLite.get nanoLog.kvStore key := by
  have hrange := not_logKey_lt_zero nanoLog.versionId n
  refine ⟨(RangeKVStoreLite.deleteRange nanoLog.kvStore (logKey nanoLog.versionId 0)
    (logKey nanoLog.versionId n)).1, ?_, fun key =>
      LawfulRangeKVStoreLite.get_deleteRange _ _ _ key hrange⟩
  unfold trim
  rw [Coro.exec_bind_ok (Coro.exec_getThe _), Coro.exec_bind_ok (exec_onStore ..)]
  simp only [LawfulRangeKVStoreLite.deleteRange_ok _ _ _ hrange, if_true]
  rfl

/-- An entry is stored. -/
def Stored (nanoLog : RocksNanoLog α κ) (logId : Int) : Prop :=
  KVStoreLite.get nanoLog.kvStore (logKey nanoLog.versionId logId) ≠ none

/-- `trim(n)` has removed the prefix below `n` and nothing else. -/
structure TrimsPrefix (nanoLog : RocksNanoLog α κ) (n : Nat) : Prop where
  returned : (Coro.exec (trim n) nanoLog).1 = .ok (n : Int)
  removed : ∀ l : Nat, nanoLog.Stored l → l < n →
    (Coro.exec (getLogEntry l) (Coro.exec (trim n) nanoLog).2).1 = .ok (.error .notFound)
  kept : ∀ l : Nat, nanoLog.Stored l → n ≤ l →
    (Coro.exec (getLogEntry l) (Coro.exec (trim n) nanoLog).2).1 =
      (Coro.exec (getLogEntry l) nanoLog).1
  own : ∀ key ∈ ownKeys nanoLog.versionId,
    KVStoreLite.get (Coro.exec (trim n) nanoLog).2.kvStore key = KVStoreLite.get nanoLog.kvStore key
  others : ∀ versionId : Int, versionId.repr ≠ nanoLog.versionId →
    ∀ key, IsKeyOf versionId.repr key →
      KVStoreLite.get (Coro.exec (trim n) nanoLog).2.kvStore key =
        KVStoreLite.get nanoLog.kvStore key

omit [RangeKVStoreLite κ] [LawfulRangeKVStoreLite κ String] in
theorem exec_getLogEntry (nanoLog : RocksNanoLog α κ) (logId : Int) :
    Coro.exec (getLogEntry logId) nanoLog =
      (.ok (match KVStoreLite.get nanoLog.kvStore (logKey nanoLog.versionId logId) with
        | some payload => .ok ⟨logId, payload⟩
        | none => .error .notFound), nanoLog) := by
  unfold getLogEntry
  rw [Coro.exec_bind_ok (Coro.exec_getThe _), Coro.exec_bind_ok (exec_kvGet ..)]
  cases KVStoreLite.get nanoLog.kvStore (logKey nanoLog.versionId logId) <;> rfl

/-- **`trim` removes exactly the prefix if and only if rendering keeps the order** of every stored
log id and the one it is given. -/
theorem trim_iff (nanoLog : RocksNanoLog α κ) (n : Nat) :
    nanoLog.TrimsPrefix n ↔ ∀ l : Nat, nanoLog.Stored l → Decimal.KeepsOrder l n := by
  obtain ⟨kvStore, hexec, hget⟩ := exec_trim nanoLog n
  have hentry : ∀ l : Nat, KVStoreLite.get kvStore (logKey nanoLog.versionId l) =
      if Nat.toDigits 10 l < Nat.toDigits 10 n then none
      else KVStoreLite.get nanoLog.kvStore (logKey nanoLog.versionId l) := by
    intro l
    rw [hget]
    simp only [not_logKey_lt_zero, logKey_lt_iff, not_false_eq_true, true_and]
  have hother : ∀ key, ¬ logPrefix nanoLog.versionId <+: key.toList →
      KVStoreLite.get kvStore key = KVStoreLite.get nanoLog.kvStore key := by
    intro key hkey
    rw [hget, if_neg fun h => hkey (begins_of_between h.1 h.2)]
  constructor
  · intro htrims l hstored
    rw [Decimal.keepsOrder_iff]
    constructor
    · intro hlt
      by_contra hge
      -- the entry was kept, and is gone
      have hkept := htrims.kept l hstored (not_lt.mp hge)
      rw [hexec, exec_getLogEntry, exec_getLogEntry] at hkept
      dsimp only at hkept
      rw [hentry, if_pos hlt] at hkept
      cases hold : KVStoreLite.get nanoLog.kvStore (logKey nanoLog.versionId l) with
      | none => exact hstored hold
      | some payload =>
        rw [hold] at hkept
        cases hkept
    · intro hlt
      by_contra hge
      -- the entry was removed, and is still there
      have hremoved := htrims.removed l hstored hlt
      rw [hexec, exec_getLogEntry] at hremoved
      dsimp only at hremoved
      rw [hentry, if_neg hge] at hremoved
      cases hold : KVStoreLite.get nanoLog.kvStore (logKey nanoLog.versionId l) with
      | none => exact hstored hold
      | some payload =>
        rw [hold] at hremoved
        cases hremoved
  · intro horder
    refine ⟨?_, fun l hstored hlt => ?_, fun l hstored hge => ?_, fun key hkey => ?_,
      fun versionId hversion key hkey => ?_⟩
    · rw [hexec]
    · have hgone := (Decimal.keepsOrder_iff.mp (horder l hstored)).mpr hlt
      rw [hexec, exec_getLogEntry]
      dsimp only
      rw [hentry, if_pos hgone]
    · have hstays := mt (Decimal.keepsOrder_iff.mp (horder l hstored)).mp (not_lt.mpr hge)
      rw [hexec, exec_getLogEntry, exec_getLogEntry]
      dsimp only
      rw [hentry, if_neg hstays]
    · rw [hexec]
      exact hother key (not_begins_of_mem_ownKeys hkey)
    · rw [hexec]
      exact hother key (not_begins_of_other hversion hkey)

/-- A nanolog with some entries, over the store that the replicas use. -/
def withEntries (logIds : List Int) : RocksNanoLog Unit (RocksStore String) where
  versionId := "1"
  startIndex := 1
  endIndex := 1
  «sealed» := false
  kvStore :=
    { manualWALFlush := true
      memory := fun key => if key ∈ logIds.map (logKey "1") then some "entry" else none
      durable := fun _ => none }

theorem stored_withEntries {logIds : List Int} {l : Int} (h : (withEntries logIds).Stored l) :
    l ∈ logIds := by
  unfold Stored at h
  by_contra hnot
  apply h
  show (if logKey "1" l ∈ logIds.map (logKey "1") then some "entry" else none) = none
  rw [if_neg]
  intro hmem
  obtain ⟨l', hl', hkey⟩ := List.mem_map.mp hmem
  exact hnot (logKey_injective hkey ▸ hl')

/-- Among numbers of one digit all is well. -/
theorem trim_iff_one_digit : (withEntries [7, 8, 9]).TrimsPrefix 9 := by
  refine (trim_iff _ _).mpr fun l hstored => ?_
  have hl : l = 7 ∨ l = 8 ∨ l = 9 := by
    have := stored_withEntries hstored
    simp only [List.mem_cons, List.not_mem_nil, or_false] at this
    omega
  rcases hl with rfl | rfl | rfl
  · decide
  · decide
  · decide

/-- **`trim(10)` leaves 9 where it is.** -/
theorem not_trimsPrefix_ten : ¬ (withEntries [9, 10]).TrimsPrefix 10 := by
  intro h
  have hstored : (withEntries [9, 10]).Stored (9 : Nat) := by
    unfold Stored
    decide +kernel
  have hread : (Coro.exec (getLogEntry (9 : Nat))
      (Coro.exec (trim (10 : Nat)) (withEntries [9, 10])).2).1 = .ok (.ok ⟨9, "entry"⟩) := by
    decide +kernel
  have hremoved := h.removed 9 hstored (by decide)
  rw [hread] at hremoved
  cases hremoved

end RocksNanoLog

end ReplicatedCounter.Log
