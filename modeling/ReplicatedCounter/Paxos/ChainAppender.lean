import ReplicatedCounter.Paxos.RegisterChain
import ReplicatedCounter.Paxos.WriteOnceRegister

/-!
# `wor/WriteOnceRegisterChainAppender.h`

The appender is the loop that gets a value into a register of a chain: take a new register; lock it,
write, and see what it holds; if that is the value, return, and otherwise go on. *With what* is
where the loop goes wrong. The inner `while (true)` is left when the register holds the value, and
by nothing else, so a register that somebody else has taken is locked and read for ever; the outer
loop, which would go on to the next register and counts the attempts, never gets its turn.

The appender is cut in front of each of its calls, and there the other clients may do anything,
finitely often. `append_terminates_iff`: it returns exactly if the register it has taken is left to
it.
-/

set_option autoImplicit false

namespace ReplicatedCounter.Paxos

/-- A chain made by `makeChainUsingInMemoryWor`. -/
abbrev InMemoryChain := WriteOnceRegisterChainImpl InMemoryWriteOnceRegister

/-- A call of another client. -/
inductive OtherCall where
  | append
  | lock (id : Int)
  | write (id : Int) (lockId : Int) (payload : String)
  deriving DecidableEq, Repr

/-- What it does to the chain. -/
def OtherCall.run (chain : InMemoryChain) : OtherCall → InMemoryChain
  | .append => (chain.append fun _ => {}).1
  | .lock id => chain.onRegister id fun r => r.lock.1
  | .write id lockId payload => chain.onRegister id fun r => (r.write lockId payload).1

/-- Where `append` stands: in front of `chain_->append()`, `chain_->get(worId)` or a call of the
register. -/
inductive AppenderPhase where
  | appending
  | getting (worId : Int)
  | locking (worId : Int)
  | writing (worId : Int) (lockId : Int)
  | reading (worId : Int)
  | returned (worId : Int)
  deriving DecidableEq, Repr

/-- `WriteOnceRegisterChainAppender<std::string>::append`, running. `tried` is the record of the
registers it has worked on. -/
structure ChainAppender where
  chain : InMemoryChain
  maxNumberOfAttempts : Int
  phase : AppenderPhase := .appending
  tried : List Int := []

namespace ChainAppender

/-- The piece of `append(t)` from one call to the next. -/
def call (t : String) (s : ChainAppender) : ChainAppender :=
  match s.phase with
  | .appending =>
    if s.maxNumberOfAttempts > 0 then
      let (chain, worId) := s.chain.append fun _ => {}
      match worId with
      | none => { s with chain }
      | some worId => { s with chain, phase := .getting worId }
    else { s with phase := .returned (-1) }
  | .getting worId =>
    match s.chain.get worId with
    | none => { s with phase := .appending }
    | some _ =>
      { s with
        maxNumberOfAttempts := s.maxNumberOfAttempts - 1
        phase := .locking worId
        tried := worId :: s.tried }
  | .locking worId =>
    match s.chain.get worId with
    | none => s
    | some wor =>
      match wor.lock.2 with
      | none => { s with chain := s.chain.onRegister worId fun _ => wor.lock.1 }
      | some lockId =>
        { s with
          chain := s.chain.onRegister worId fun _ => wor.lock.1
          phase := .writing worId lockId }
  | .writing worId lockId =>
    match s.chain.get worId with
    | none => s
    | some wor =>
      let writeResponse := (wor.write lockId t).2
      { s with
        chain := s.chain.onRegister worId fun _ => (wor.write lockId t).1
        phase := if writeResponse then .returned worId else .reading worId }
  | .reading worId =>
    match s.chain.get worId with
    | none => s
    | some wor =>
      match wor.read with
      | .error _ => { s with phase := .locking worId }
      | .ok readValue =>
        { s with phase := if readValue = t then .returned worId else .locking worId }
  | .returned _ => s

/-- The other clients have their turn. -/
def interrupt (s : ChainAppender) (others : List OtherCall) : ChainAppender :=
  { s with chain := others.foldl OtherCall.run s.chain }

/-- The state after `n` calls of the appender, when the other clients do `others[i]` before the
`i`th of them, and nothing any more after the last. -/
def after (t : String) (others : List (List OtherCall)) (s : ChainAppender) : Nat → ChainAppender
  | 0 => s
  | n + 1 => ((after t others s n).interrupt (others.getD n [])).call t

/-- The register the appender works on. -/
def worId (s : ChainAppender) : Option Int :=
  match s.phase with
  | .getting worId | .locking worId | .writing worId _ | .reading worId => some worId
  | .appending | .returned _ => none

/-- The register holds the value. -/
def Holds (chain : InMemoryChain) (id : Int) (payload : String) : Prop :=
  ∃ wor, chain.get id = some wor ∧ wor.committed = true ∧ wor.payload = payload

/-- **`append(t, k)` terminates**: with the id of a register that holds `t`, or with -1 after `k`
registers that hold something else. -/
def Terminates (t : String) (k : Int) (others : List (List OtherCall)) (chain : InMemoryChain) :
    Prop :=
  ∃ n id, (after t others { chain, maxNumberOfAttempts := k } n).phase = .returned id ∧
    (Holds (after t others { chain, maxNumberOfAttempts := k } n).chain id t ∨
      (id = -1 ∧
        ((after t others { chain, maxNumberOfAttempts := k } n).tried.length : Int) = k ∧
        ∀ v ∈ (after t others { chain, maxNumberOfAttempts := k } n).tried, ∃ payload, payload ≠ t ∧
          Holds (after t others { chain, maxNumberOfAttempts := k } n).chain v payload))

/-- The register the appender works on holds something else. -/
def Taken (t : String) (s : ChainAppender) : Prop :=
  ∃ id payload, s.worId = some id ∧ payload ≠ t ∧ Holds s.chain id payload

variable {t payload : String} {s : ChainAppender} {turns : List (List OtherCall)}
  {chain : InMemoryChain} {n m : Nat} {w : Int}

theorem worId_eq_some_iff : s.worId = some w ↔ s.phase = .getting w ∨ s.phase = .locking w ∨
    (∃ lockId, s.phase = .writing w lockId) ∨ s.phase = .reading w := by
  unfold worId
  cases s.phase <;> simp

/-! ## Values stay where they are -/

/-- A call of a register that does not replace a value. -/
theorem Holds.onRegister {v : Int} {f : InMemoryWriteOnceRegister → InMemoryWriteOnceRegister}
    (h : Holds chain w payload)
    (hf : ∀ r, r.committed = true → (f r).committed = true ∧ (f r).payload = r.payload) :
    Holds (chain.onRegister v f) w payload := by
  obtain ⟨r, hget, hcommitted, hpayload⟩ := h
  unfold Holds
  rw [WriteOnceRegisterChainImpl.get_onRegister]
  by_cases hv : w = v
  · rw [if_pos hv, ← hv, hget]
    obtain ⟨hcommitted', hpayload'⟩ := hf r hcommitted
    exact ⟨f r, rfl, hcommitted', hpayload'.trans hpayload⟩
  · rw [if_neg hv]
    exact ⟨r, hget, hcommitted, hpayload⟩

theorem write_of_committed {r : InMemoryWriteOnceRegister} (h : r.committed = true) (lockId : Int)
    (payload : String) : r.write lockId payload = (r, false) := by
  unfold InMemoryWriteOnceRegister.write
  simp [h]

theorem Holds.append (h : Holds chain w payload) :
    Holds (chain.append fun _ => {}).1 w payload := by
  obtain ⟨r, hget, hcommitted, hpayload⟩ := h
  unfold Holds
  rw [WriteOnceRegisterChainImpl.get_append]
  have hle := chain.le_worId w r hget
  rw [if_neg (by omega)]
  exact ⟨r, hget, hcommitted, hpayload⟩

theorem Holds.run (h : Holds chain w payload) (c : OtherCall) :
    Holds (c.run chain) w payload := by
  cases c with
  | append => exact h.append
  | lock id =>
    apply h.onRegister
    intro r hcommitted
    exact ⟨hcommitted, rfl⟩
  | write id lockId payload' =>
    apply h.onRegister
    intro r hcommitted
    rw [write_of_committed hcommitted]
    exact ⟨hcommitted, rfl⟩

/-- **A value survives what the other clients do.** -/
theorem Holds.interrupt (h : Holds s.chain w payload) (calls : List OtherCall) :
    Holds (s.interrupt calls).chain w payload := by
  unfold ChainAppender.interrupt
  dsimp only
  generalize s.chain = chain at h
  induction calls generalizing chain with
  | nil => exact h
  | cons c calls ih => exact ih _ (h.run c)

/-- A register does not vanish. -/
theorem exists_get_run (h : ∃ r, chain.get w = some r) (c : OtherCall) :
    ∃ r, (c.run chain).get w = some r := by
  obtain ⟨r, hget⟩ := h
  cases c with
  | append =>
    unfold OtherCall.run
    rw [WriteOnceRegisterChainImpl.get_append]
    split
    · exact ⟨_, rfl⟩
    · exact ⟨r, hget⟩
  | lock id =>
    unfold OtherCall.run
    rw [WriteOnceRegisterChainImpl.get_onRegister]
    split
    · rename_i heq
      rw [← heq, hget]
      exact ⟨_, rfl⟩
    · exact ⟨r, hget⟩
  | write id lockId payload =>
    unfold OtherCall.run
    rw [WriteOnceRegisterChainImpl.get_onRegister]
    split
    · rename_i heq
      rw [← heq, hget]
      exact ⟨_, rfl⟩
    · exact ⟨r, hget⟩

theorem exists_get_interrupt (h : ∃ r, s.chain.get w = some r) (calls : List OtherCall) :
    ∃ r, (s.interrupt calls).chain.get w = some r := by
  unfold ChainAppender.interrupt
  dsimp only
  generalize s.chain = chain at h
  induction calls generalizing chain with
  | nil => exact h
  | cons c calls ih => exact ih _ (exists_get_run h c)

/-! ## The appender goes on -/

@[simp] theorem interrupt_phase (s : ChainAppender) (calls : List OtherCall) :
    (s.interrupt calls).phase = s.phase := rfl

theorem call_locking {r : InMemoryWriteOnceRegister} (hphase : s.phase = .locking w)
    (hget : s.chain.get w = some r) :
    (s.call t).phase = .writing w (r.lockId + 1) ∧
      (s.call t).chain.get w = some { r with lockId := r.lockId + 1 } := by
  unfold call
  rw [hphase]
  dsimp only
  rw [hget]
  refine ⟨rfl, ?_⟩
  dsimp only [InMemoryWriteOnceRegister.lock]
  rw [WriteOnceRegisterChainImpl.get_onRegister, if_pos rfl, hget]
  rfl

theorem call_writing {r : InMemoryWriteOnceRegister} {lockId : Int}
    (hphase : s.phase = .writing w lockId) (hget : s.chain.get w = some r) :
    (s.call t).phase = (if (r.write lockId t).2 then .returned w else .reading w) ∧
      (s.call t).chain.get w = some (r.write lockId t).1 := by
  unfold call
  rw [hphase]
  dsimp only
  rw [hget]
  refine ⟨rfl, ?_⟩
  dsimp only
  rw [WriteOnceRegisterChainImpl.get_onRegister, if_pos rfl, hget]
  rfl

theorem call_reading {r : InMemoryWriteOnceRegister} (hphase : s.phase = .reading w)
    (hget : s.chain.get w = some r) :
    (s.call t).phase = (if r.committed = true ∧ r.payload = t then .returned w else .locking w) ∧
      (s.call t).chain = s.chain := by
  unfold call InMemoryWriteOnceRegister.read
  rw [hphase]
  dsimp only
  rw [hget]
  dsimp only
  cases hcommitted : r.committed with
  | false => exact ⟨by simp, rfl⟩
  | true => exact ⟨by simp, rfl⟩

theorem call_getting {r : InMemoryWriteOnceRegister} (hphase : s.phase = .getting w)
    (hget : s.chain.get w = some r) :
    (s.call t).phase = .locking w ∧ (s.call t).chain = s.chain := by
  unfold call
  rw [hphase]
  dsimp only
  rw [hget]
  exact ⟨rfl, rfl⟩

theorem call_returned (hphase : s.phase = .returned w) : s.call t = s := by
  unfold call
  rw [hphase]

/-- The appender works on a register that is there, or has returned one that holds its value. -/
def AtWork (t : String) (w : Int) (s : ChainAppender) : Prop :=
  (s.worId = some w ∧ ∃ r, s.chain.get w = some r) ∨ (s.phase = .returned w ∧ Holds s.chain w t)

theorem AtWork.interrupt (h : AtWork t w s) (calls : List OtherCall) :
    AtWork t w (s.interrupt calls) := by
  rcases h with ⟨hwor, hget⟩ | ⟨hphase, hholds⟩
  · exact .inl ⟨hwor, exists_get_interrupt hget calls⟩
  · exact .inr ⟨hphase, hholds.interrupt calls⟩

/-- A successful write. -/
theorem write_true {r : InMemoryWriteOnceRegister} {lockId : Int}
    (h : (r.write lockId t).2 = true) :
    (r.write lockId t).1.committed = true ∧ (r.write lockId t).1.payload = t := by
  unfold InMemoryWriteOnceRegister.write at h ⊢
  split at h
  · rename_i hcurrent
    rw [if_pos hcurrent]
    exact ⟨rfl, rfl⟩
  · cases h

/-- **It stays at work on the register until it holds the value.** -/
theorem AtWork.call (h : AtWork t w s) : AtWork t w (s.call t) := by
  rcases h with ⟨hwor, r, hget⟩ | ⟨hphase, hholds⟩
  · rcases worId_eq_some_iff.mp hwor with hphase | hphase | ⟨lockId, hphase⟩ | hphase
    · obtain ⟨hnext, hchain⟩ := call_getting (t := t) hphase hget
      refine .inl ⟨worId_eq_some_iff.mpr (.inr (.inl hnext)), r, ?_⟩
      rw [hchain]
      exact hget
    · obtain ⟨hnext, hget'⟩ := call_locking (t := t) hphase hget
      exact .inl ⟨worId_eq_some_iff.mpr (.inr (.inr (.inl ⟨_, hnext⟩))), _, hget'⟩
    · obtain ⟨hnext, hget'⟩ := call_writing (t := t) hphase hget
      by_cases hwritten : (r.write lockId t).2 = true
      · rw [if_pos hwritten] at hnext
        obtain ⟨hcommitted, hpayload⟩ := write_true hwritten
        exact .inr ⟨hnext, _, hget', hcommitted, hpayload⟩
      · rw [if_neg hwritten] at hnext
        exact .inl ⟨worId_eq_some_iff.mpr (.inr (.inr (.inr hnext))), _, hget'⟩
    · obtain ⟨hnext, hchain⟩ := call_reading (t := t) hphase hget
      rw [← hchain] at hget
      by_cases hheld : r.committed = true ∧ r.payload = t
      · rw [if_pos hheld] at hnext
        exact .inr ⟨hnext, r, hget, hheld.1, hheld.2⟩
      · rw [if_neg hheld] at hnext
        exact .inl ⟨worId_eq_some_iff.mpr (.inr (.inl hnext)), r, hget⟩
  · rw [call_returned hphase]
    exact .inr ⟨hphase, hholds⟩

/-! ## A register that is taken -/

theorem Taken.interrupt (h : Taken t s) (calls : List OtherCall) : Taken t (s.interrupt calls) := by
  obtain ⟨id, payload, hwor, hne, hholds⟩ := h
  exact ⟨id, payload, hwor, hne, hholds.interrupt calls⟩

/-- **It is locked, written and read for ever.** -/
theorem Taken.call (h : Taken t s) : Taken t (s.call t) := by
  obtain ⟨id, payload, hwor, hne, r, hget, hcommitted, hpayload⟩ := h
  rcases worId_eq_some_iff.mp hwor with hphase | hphase | ⟨lockId, hphase⟩ | hphase
  · obtain ⟨hnext, hchain⟩ := call_getting (t := t) hphase hget
    rw [← hchain] at hget
    exact ⟨id, payload, worId_eq_some_iff.mpr (.inr (.inl hnext)), hne, r, hget, hcommitted,
      hpayload⟩
  · obtain ⟨hnext, hget'⟩ := call_locking (t := t) hphase hget
    exact ⟨id, payload, worId_eq_some_iff.mpr (.inr (.inr (.inl ⟨_, hnext⟩))), hne, _, hget',
      hcommitted, hpayload⟩
  · obtain ⟨hnext, hget'⟩ := call_writing (t := t) hphase hget
    rw [write_of_committed hcommitted] at hnext hget'
    exact ⟨id, payload, worId_eq_some_iff.mpr (.inr (.inr (.inr hnext))), hne, r, hget',
      hcommitted, hpayload⟩
  · have hforeign : ¬ (r.committed = true ∧ r.payload = t) := by
      intro hheld
      exact hne (hpayload.symm.trans hheld.2)
    obtain ⟨hnext, hchain⟩ := call_reading (t := t) hphase hget
    rw [if_neg hforeign] at hnext
    rw [← hchain] at hget
    exact ⟨id, payload, worId_eq_some_iff.mpr (.inr (.inl hnext)), hne, r, hget, hcommitted,
      hpayload⟩

theorem Taken.not_returned (h : Taken t s) (id : Int) : s.phase ≠ .returned id := by
  intro hphase
  obtain ⟨_, _, hwor, -⟩ := h
  unfold worId at hwor
  rw [hphase] at hwor
  cases hwor

/-! ## Whole runs -/

theorem after_succ (n : Nat) :
    after t turns s (n + 1) = ((after t turns s n).interrupt (turns.getD n [])).call t := rfl

/-- Once taken, always taken. -/
theorem Taken.after (h : Taken t (after t turns s n)) (hle : n ≤ m) :
    Taken t (ChainAppender.after t turns s m) := by
  induction hle with
  | refl => exact h
  | step _ ih =>
    rw [Nat.succ_eq_add_one, after_succ]
    exact (ih.interrupt _).call

/-- Once returned, always returned. -/
theorem returned_after {id : Int} (h : (after t turns s n).phase = .returned id) (hle : n ≤ m) :
    (after t turns s m).phase = .returned id := by
  induction hle with
  | refl => exact h
  | step _ ih =>
    rw [Nat.succ_eq_add_one, after_succ, call_returned ((interrupt_phase _ _).trans ih)]
    exact ih

/-- The outer loop takes a register of its own. -/
theorem call_appending (hphase : s.phase = .appending) (hk : 0 < s.maxNumberOfAttempts) :
    AtWork t (s.chain.worId + 1) (s.call t) := by
  unfold ChainAppender.call
  rw [hphase]
  dsimp only
  rw [if_pos hk]
  refine .inl ⟨rfl, {}, ?_⟩
  show (s.chain.append fun _ => {}).1.get (s.chain.worId + 1) = some {}
  rw [WriteOnceRegisterChainImpl.get_append, if_pos rfl]

theorem atWork_after (hphase : s.phase = .appending) (hk : 0 < s.maxNumberOfAttempts) :
    ∃ w, ∀ n, AtWork t w (after t turns s (n + 1)) := by
  refine ⟨(s.interrupt (turns.getD 0 [])).chain.worId + 1, ?_⟩
  intro n
  induction n with
  | zero => exact call_appending hphase hk
  | succ n ih => exact (ih.interrupt _).call

/-- When the others are done, the appender is alone. -/
theorem after_quiet (hle : turns.length ≤ n) :
    after t turns s (n + 1) = (after t turns s n).call t := by
  rw [after_succ, List.getD_eq_getElem?_getD, List.getElem?_eq_none hle]
  rfl

/-! ## Left alone with a register that is its own, it returns -/

/-- The register is not committed, or holds the value. -/
def Free (t : String) (r : InMemoryWriteOnceRegister) : Prop := r.committed = true → r.payload = t

theorem free_of_not_taken {r : InMemoryWriteOnceRegister} (h : ¬ Taken t s)
    (hwor : s.worId = some w) (hget : s.chain.get w = some r) : Free t r := by
  intro hcommitted
  by_contra hne
  exact h ⟨w, r.payload, hwor, hne, r, hget, hcommitted, rfl⟩

/-- Under the lock it holds, the write goes through, or the read finds the value. -/
theorem returns_of_locking {r : InMemoryWriteOnceRegister} (hphase : s.phase = .locking w)
    (hget : s.chain.get w = some r) (hfree : Free t r) :
    (((s.call t).call t).call t).phase = .returned w := by
  obtain ⟨hwriting, hget₁⟩ := call_locking (t := t) hphase hget
  obtain ⟨hnext, hget₂⟩ := call_writing (t := t) hwriting hget₁
  cases hcommitted : r.committed with
  | false =>
    have hwritten : (InMemoryWriteOnceRegister.write { r with lockId := r.lockId + 1 }
        (r.lockId + 1) t).2 = true := by
      unfold InMemoryWriteOnceRegister.write
      simp [hcommitted]
    rw [if_pos hwritten] at hnext
    rw [call_returned hnext]
    exact hnext
  | true =>
    have hrefused := write_of_committed (r := { r with lockId := r.lockId + 1 }) hcommitted
      (r.lockId + 1) t
    rw [hrefused] at hnext hget₂
    rw [(call_reading hnext hget₂).1]
    exact if_pos ⟨hcommitted, hfree hcommitted⟩

/-- **Five calls are enough**, wherever the others have left it. -/
theorem AtWork.returns (h : AtWork t w s) (hs : ¬ Taken t s) :
    ∃ k, ((ChainAppender.call t)^[k] s).phase = .returned w := by
  rcases h with ⟨hwor, r, hget⟩ | ⟨hphase, -⟩
  · have hfree := free_of_not_taken hs hwor hget
    rcases worId_eq_some_iff.mp hwor with hphase | hphase | ⟨lockId, hphase⟩ | hphase
    · obtain ⟨hlocking, hchain⟩ := call_getting (t := t) hphase hget
      rw [← hchain] at hget
      exact ⟨4, returns_of_locking hlocking hget hfree⟩
    · exact ⟨3, returns_of_locking hphase hget hfree⟩
    · obtain ⟨hnext, hget₁⟩ := call_writing (t := t) hphase hget
      by_cases hwritten : (r.write lockId t).2 = true
      · rw [if_pos hwritten] at hnext
        exact ⟨1, hnext⟩
      · -- somebody has locked it in between: the register is as it was, so it is read and locked
        rw [if_neg hwritten] at hnext
        have hsame : (r.write lockId t).1 = r := by
          unfold InMemoryWriteOnceRegister.write at hwritten ⊢
          split at hwritten
          · exact absurd rfl hwritten
          · rename_i hrefused
            rw [if_neg hrefused]
        rw [hsame] at hget₁
        obtain ⟨hnext₂, hchain⟩ := call_reading (t := t) hnext hget₁
        by_cases hheld : r.committed = true ∧ r.payload = t
        · rw [if_pos hheld] at hnext₂
          exact ⟨2, hnext₂⟩
        · rw [if_neg hheld] at hnext₂
          rw [← hchain] at hget₁
          exact ⟨5, returns_of_locking hnext₂ hget₁ hfree⟩
    · obtain ⟨hnext, hchain⟩ := call_reading (t := t) hphase hget
      by_cases hheld : r.committed = true ∧ r.payload = t
      · rw [if_pos hheld] at hnext
        exact ⟨1, hnext⟩
      · rw [if_neg hheld] at hnext
        rw [← hchain] at hget
        exact ⟨4, returns_of_locking hnext hget hfree⟩
  · exact ⟨0, hphase⟩

theorem after_add_quiet (hle : turns.length ≤ n) (k : Nat) :
    after t turns s (n + k) = (call t)^[k] (after t turns s n) := by
  induction k with
  | zero => rfl
  | succ k ih =>
    rw [← Nat.add_assoc, after_quiet (by omega), ih, Function.iterate_succ_apply']

/-- A taken register is never returned. -/
theorem Taken.not_terminates {k : Int}
    (h : Taken t (ChainAppender.after t turns { chain, maxNumberOfAttempts := k } n)) :
    ¬ Terminates t k turns chain := by
  rintro ⟨m, id, hreturned, -⟩
  have hlate := h.after (Nat.le_max_left n m)
  exact hlate.not_returned id (returned_after hreturned (Nat.le_max_right n m))

/-- **The appender returns** exactly if the register it has taken is never somebody else's while
it works on it. -/
theorem append_terminates_iff (t : String) {k : Int} (hk : 1 ≤ k) (others : List (List OtherCall))
    (chain : InMemoryChain) :
    Terminates t k others chain ↔
      ∀ n, ¬ Taken t (after t others { chain, maxNumberOfAttempts := k } n) := by
  constructor
  · intro hterminates n htaken
    exact htaken.not_terminates hterminates
  · intro hfree
    have hstart : 0 < ({ chain, maxNumberOfAttempts := k } : ChainAppender).maxNumberOfAttempts := hk
    obtain ⟨w, hwork⟩ : ∃ w, ∀ n,
        AtWork t w (after t others { chain, maxNumberOfAttempts := k } (n + 1)) :=
      atWork_after rfl hstart
    -- the others are done after `others.length` calls
    have hquiet : others.length ≤ others.length + 1 := Nat.le_succ _
    obtain ⟨k', hreturned⟩ := (hwork others.length).returns (hfree _)
    rw [← after_add_quiet hquiet] at hreturned
    refine ⟨others.length + 1 + k', w, hreturned, .inl ?_⟩
    have hlast := hwork (others.length + k')
    rw [show others.length + k' + 1 = others.length + 1 + k' by omega] at hlast
    rcases hlast with ⟨hwor, -⟩ | ⟨-, hholds⟩
    · unfold worId at hwor
      rw [hreturned] at hwor
      cases hwor
    · exact hholds

/-- Somebody locks the register between the appender's lock and its write: it locks again. -/
theorem append_terminates_locked_between :
    Terminates "mine" 1 [[], [], [], [.lock 1]] {} ∧
      ∀ n, ¬ Taken "mine" (after "mine" [[], [], [], [.lock 1]]
        { chain := {}, maxNumberOfAttempts := 1 } n) := by
  have hterminates : Terminates "mine" 1 [[], [], [], [.lock 1]] {} :=
    ⟨7, 1, by decide +kernel,
      .inl ⟨{ lockId := 3, committed := true, payload := "mine" }, by decide +kernel, rfl, rfl⟩⟩
  exact ⟨hterminates, (append_terminates_iff "mine" (by decide) _ _).mp hterminates⟩

/-- **Somebody writes the register** before the appender has locked it. One attempt was asked for,
and there is no second; but there is no end of the first either. -/
theorem append_stuck_on_taken_register :
    ¬ Terminates "mine" 1 [[], [], [.lock 1, .write 1 1 "other"]] {} := by
  have htaken : Taken "mine" (after "mine" [[], [], [.lock 1, .write 1 1 "other"]]
      { chain := {}, maxNumberOfAttempts := 1 } 3) :=
    ⟨1, "other", by decide +kernel, by decide,
      { lockId := 2, committed := true, payload := "other" }, by decide +kernel, rfl, rfl⟩
  exact htaken.not_terminates

end ChainAppender

end ReplicatedCounter.Paxos
