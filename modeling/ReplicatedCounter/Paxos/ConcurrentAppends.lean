import Mathlib.Logic.Function.Basic
import ReplicatedCounter.Lib.Transition
import ReplicatedCounter.Paxos.ChainAppender

/-!
# Several appenders on one chain

`ChainAppender.lean` lets the other clients of a chain do anything, and then an append may hang on a
register that somebody else has taken. Here everybody uses the chain as it is meant to be used: any
number of `WriteOnceRegisterChainAppender`s over one chain of `makeChainUsingInMemoryWor`, cut in
front of each of their calls and interleaved in any way.

`WriteOnceRegisterChainImpl::append` gives an id to one caller only, so nobody ever locks a register
of another appender. An append is then *wait-free*: whatever the others do, it has returned after
four calls of its own, one of them being `chain_->append()`. The chain is a log: each register
belongs to one appender, an append that begins after another has returned gets the larger id, and
when nobody is left in the middle of an append there is no hole.
-/

set_option autoImplicit false

namespace ReplicatedCounter.Paxos

/-- One `append(payload, maxNumberOfAttempts)`. -/
structure AppendClient where
  payload : String
  maxNumberOfAttempts : Int
  phase : AppenderPhase := .appending
  deriving DecidableEq, Repr

namespace AppendClient

/-- It makes its next call. -/
def proceed (chain : InMemoryChain) (c : AppendClient) : InMemoryChain × AppendClient :=
  let s := ChainAppender.call c.payload
    { chain, maxNumberOfAttempts := c.maxNumberOfAttempts, phase := c.phase }
  (s.chain, { c with maxNumberOfAttempts := s.maxNumberOfAttempts, phase := s.phase })

/-- The register it has been given. -/
def register (c : AppendClient) : Option Int :=
  match c.phase with
  | .appending => none
  | .getting worId | .locking worId | .writing worId _ | .reading worId => some worId
  | .returned worId => if worId = -1 then none else some worId

/-- How many calls it has yet to make, if it is not disturbed. -/
def callsLeft (c : AppendClient) : Nat :=
  match c.phase with
  | .appending => if c.maxNumberOfAttempts > 0 then 4 else 1
  | .getting _ => 3
  | .locking _ => 2
  | .writing _ _ => 1
  | .reading _ => 0
  | .returned _ => 0

/-- It has a register, or is about to get one. -/
def Trying (c : AppendClient) : Prop :=
  c.register ≠ none ∨ (c.phase = .appending ∧ 0 < c.maxNumberOfAttempts)

/-- It is not disturbed: its register is as it has left it, and it never has to read it. -/
def Undisturbed (chain : InMemoryChain) (c : AppendClient) : Prop :=
  match c.phase with
  | .appending => True
  | .getting worId | .locking worId => ∃ wor, chain.get worId = some wor ∧ wor.committed = false
  | .writing worId lockId =>
    ∃ wor, chain.get worId = some wor ∧ wor.committed = false ∧ wor.lockId = lockId
  | .reading _ => False
  | .returned worId => worId = -1 ∨ ChainAppender.Holds chain worId c.payload

end AppendClient

/-- A chain and the appenders that have been started on it. -/
structure Appenders (ι : Type) where
  chain : InMemoryChain := {}
  clients : ι → Option AppendClient := fun _ => none

namespace Appenders

inductive Event (ι : Type) where
  /-- A new client calls `append(payload, maxNumberOfAttempts)`. -/
  | begin (i : ι) (payload : String) (maxNumberOfAttempts : Int)
  | proceed (i : ι)
  deriving DecidableEq

variable {ι : Type} [DecidableEq ι]

def step (s : Appenders ι) : Event ι → Option (Appenders ι)
  | .begin i payload maxNumberOfAttempts =>
    match s.clients i with
    | some _ => none
    | none =>
      some { s with
        clients := Function.update s.clients i (some { payload, maxNumberOfAttempts }) }
  | .proceed i =>
    match s.clients i with
    | none => none
    | some c =>
      match c.phase with
      | .returned _ => none
      | _ =>
        let (chain, c) := c.proceed s.chain
        some { chain, clients := Function.update s.clients i (some c) }

end Appenders

/-! ## What one call does -/

/-- The registers of the chain are those of the ids it has given. -/
def Dense (chain : InMemoryChain) : Prop :=
  0 ≤ chain.worId ∧ ∀ id, (∃ wor, chain.get id = some wor) ↔ 1 ≤ id ∧ id ≤ chain.worId

theorem Dense.append {chain : InMemoryChain} (h : Dense chain) :
    Dense (chain.append fun _ => {}).1 := by
  have hpos := h.1
  refine ⟨show 0 ≤ chain.worId + 1 by omega, ?_⟩
  intro id
  rw [WriteOnceRegisterChainImpl.get_append]
  show _ ↔ 1 ≤ id ∧ id ≤ chain.worId + 1
  by_cases hid : id = chain.worId + 1
  · rw [if_pos hid]
    exact iff_of_true ⟨_, rfl⟩ (by omega)
  · rw [if_neg hid, h.2 id]
    omega

namespace AppendClient

variable {chain chain' : InMemoryChain} {c c' : AppendClient} {w : Int}

/-- The chain was asked for a register, and has given the next one. -/
def Draws (chain : InMemoryChain) (c : AppendClient) (chain' : InMemoryChain)
    (c' : AppendClient) : Prop :=
  c.register = none ∧ c'.register = some (chain.worId + 1) ∧
    chain' = (chain.append fun _ => {}).1

/-- Nothing has happened to any register but the client's own, if it has one. -/
structure Keeps (chain : InMemoryChain) (c : AppendClient) (chain' : InMemoryChain)
    (c' : AppendClient) : Prop where
  register : c'.register = c.register
  worId : chain'.worId = chain.worId
  other : ∀ id, c.register ≠ some id → chain'.get id = chain.get id
  there : ∀ id, (∃ wor, chain'.get id = some wor) ↔ ∃ wor, chain.get id = some wor

/-- What one call does, with a register of one's own. -/
structure Proceeds (chain : InMemoryChain) (c : AppendClient) (chain' : InMemoryChain)
    (c' : AppendClient) : Prop where
  payload : c'.payload = c.payload
  callsLeft : c.callsLeft = c'.callsLeft + 1
  undisturbed : Undisturbed chain' c'
  trying : Trying c → Trying c'
  moves : Draws chain c chain' c' ∨ Keeps chain c chain' c'

theorem worId_onRegister (id : Int) (f : InMemoryWriteOnceRegister → InMemoryWriteOnceRegister) :
    (chain.onRegister id f).worId = chain.worId := by
  unfold WriteOnceRegisterChainImpl.onRegister
  split
  · rfl
  · rfl

theorem Keeps.onRegister {f : InMemoryWriteOnceRegister → InMemoryWriteOnceRegister}
    (hw : c.register = some w) (hw' : c'.register = some w) :
    Keeps chain c (chain.onRegister w f) c' := by
  refine ⟨hw'.trans hw.symm, worId_onRegister w f, ?_, ?_⟩
  · intro id hne
    rw [WriteOnceRegisterChainImpl.get_onRegister, if_neg]
    intro heq
    exact hne (heq ▸ hw)
  · intro id
    rw [WriteOnceRegisterChainImpl.get_onRegister]
    split
    · rename_i heq
      rw [heq]
      cases chain.get w with
      | none => simp
      | some wor => simp
    · exact Iff.rfl

theorem Keeps.same (h : c'.register = c.register) : Keeps chain c chain c' :=
  ⟨h, rfl, fun _ _ => rfl, fun _ => Iff.rfl⟩

theorem Draws.worId (h : Draws chain c chain' c') : chain'.worId = chain.worId + 1 := by
  obtain ⟨-, -, rfl⟩ := h
  rfl

/-- **One call brings an undisturbed client one call nearer to its end.** -/
theorem proceed_spec (h : Undisturbed chain c) (hdense : Dense chain)
    (hrunning : ∀ w, c.phase ≠ .returned w) :
    Proceeds chain c (c.proceed chain).1 (c.proceed chain).2 := by
  obtain ⟨t, k, phase⟩ := c
  cases phase with
  | appending =>
    by_cases hk : k > 0
    · have hcall : proceed chain ⟨t, k, .appending⟩ =
          ((chain.append fun _ => {}).1, ⟨t, k, .getting (chain.worId + 1)⟩) := by
        simp [proceed, ChainAppender.call, hk, WriteOnceRegisterChainImpl.append]
      rw [hcall]
      refine ⟨rfl, by simp [callsLeft, hk], ⟨{}, ?_, rfl⟩, fun _ => .inl (by simp [register]),
        .inl ⟨rfl, rfl, rfl⟩⟩
      rw [WriteOnceRegisterChainImpl.get_append, if_pos rfl]
    · have hcall : proceed chain ⟨t, k, .appending⟩ = (chain, ⟨t, k, .returned (-1)⟩) := by
        simp [proceed, ChainAppender.call, hk]
      rw [hcall]
      exact ⟨rfl, by simp [callsLeft, hk], .inl rfl, fun h => by simp [Trying, register, hk] at h,
        .inr (.same (by simp [register]))⟩
  | getting w =>
    obtain ⟨r, hget, hfree⟩ := h
    have hcall : proceed chain ⟨t, k, .getting w⟩ = (chain, ⟨t, k - 1, .locking w⟩) := by
      simp [proceed, ChainAppender.call, hget]
    rw [hcall]
    exact ⟨rfl, rfl, ⟨r, hget, hfree⟩, fun _ => .inl (by simp [register]), .inr (.same rfl)⟩
  | locking w =>
    obtain ⟨r, hget, hfree⟩ := h
    have hcall : proceed chain ⟨t, k, .locking w⟩ =
        (chain.onRegister w fun _ => { r with lockId := r.lockId + 1 },
          ⟨t, k, .writing w (r.lockId + 1)⟩) := by
      simp [proceed, ChainAppender.call, hget, InMemoryWriteOnceRegister.lock]
    rw [hcall]
    refine ⟨rfl, rfl, ⟨{ r with lockId := r.lockId + 1 }, ?_, hfree, rfl⟩,
      fun _ => .inl (by simp [register]), .inr (.onRegister rfl rfl)⟩
    rw [WriteOnceRegisterChainImpl.get_onRegister, if_pos rfl, hget]
    rfl
  | writing w lockId =>
    -- nobody has locked or written the register since, so the write goes through
    obtain ⟨r, hget, hfree, rfl⟩ := h
    have hcall : proceed chain ⟨t, k, .writing w r.lockId⟩ =
        (chain.onRegister w fun _ => { r with payload := t, committed := true },
          ⟨t, k, .returned w⟩) := by
      simp [proceed, ChainAppender.call, hget, InMemoryWriteOnceRegister.write, hfree]
    have hid : w ≠ -1 := by
      have := (hdense.2 w).mp ⟨r, hget⟩
      omega
    rw [hcall]
    refine ⟨rfl, rfl, .inr ⟨{ r with payload := t, committed := true }, ?_, rfl, rfl⟩,
      fun _ => .inl (by simp [register, hid]), .inr (.onRegister rfl (by simp [register, hid]))⟩
    rw [WriteOnceRegisterChainImpl.get_onRegister, if_pos rfl, hget]
    rfl
  | reading w => exact h.elim
  | returned w => exact absurd rfl (hrunning w)

/-- A client is not disturbed by what happens to the registers of others. -/
theorem Undisturbed.frame (h : Undisturbed chain c)
    (hkept : ∀ id, c.register = some id → chain'.get id = chain.get id) :
    Undisturbed chain' c := by
  obtain ⟨t, k, phase⟩ := c
  cases phase with
  | appending => trivial
  | getting w | locking w =>
    obtain ⟨r, hget, hfree⟩ := h
    exact ⟨r, (hkept w rfl).trans hget, hfree⟩
  | writing w lockId =>
    obtain ⟨r, hget, hfree⟩ := h
    exact ⟨r, (hkept w rfl).trans hget, hfree⟩
  | reading w => exact h.elim
  | returned w =>
    by_cases hid : w = -1
    · exact .inl hid
    · obtain ⟨r, hget, hholds⟩ := h.resolve_left hid
      exact .inr ⟨r, (hkept w (if_neg hid)).trans hget, hholds⟩

/-- Its register is in the chain. -/
theorem Undisturbed.there (h : Undisturbed chain c) (hw : c.register = some w) :
    ∃ wor, chain.get w = some wor := by
  obtain ⟨t, k, phase⟩ := c
  cases phase with
  | appending => cases hw
  | getting v | locking v =>
    obtain rfl : v = w := Option.some.inj hw
    obtain ⟨r, hget, -⟩ := h
    exact ⟨r, hget⟩
  | writing v lockId =>
    obtain rfl : v = w := Option.some.inj hw
    obtain ⟨r, hget, -⟩ := h
    exact ⟨r, hget⟩
  | reading v => exact h.elim
  | returned v =>
    by_cases hid : v = -1
    · simp [register, hid] at hw
    · obtain rfl : v = w := by simpa [register, hid] using hw
      obtain ⟨r, hget, -⟩ := h.resolve_left hid
      exact ⟨r, hget⟩

/-- A register of its own holds a value only when the client has returned it, and then the
client's. -/
theorem Undisturbed.holds {payload : String} (h : Undisturbed chain c) (hw : c.register = some w)
    (hholds : ChainAppender.Holds chain w payload) :
    c.phase = .returned w ∧ c.payload = payload := by
  obtain ⟨wor, hwor, hcommitted, hpayload⟩ := hholds
  obtain ⟨t, k, phase⟩ := c
  cases phase with
  | appending => cases hw
  | getting v | locking v =>
    obtain rfl : v = w := Option.some.inj hw
    obtain ⟨r, hget, hfree⟩ := h
    obtain rfl : r = wor := Option.some.inj (hget.symm.trans hwor)
    exact absurd hcommitted (by simp [hfree])
  | writing v lockId =>
    obtain rfl : v = w := Option.some.inj hw
    obtain ⟨r, hget, hfree, -⟩ := h
    obtain rfl : r = wor := Option.some.inj (hget.symm.trans hwor)
    exact absurd hcommitted (by simp [hfree])
  | reading v => exact h.elim
  | returned v =>
    by_cases hid : v = -1
    · simp [register, hid] at hw
    · obtain rfl : v = w := by simpa [register, hid] using hw
      obtain ⟨r, hget, -, hmine⟩ := h.resolve_left hid
      obtain rfl : r = wor := Option.some.inj (hget.symm.trans hwor)
      exact ⟨rfl, hmine.symm.trans hpayload⟩

end AppendClient

/-! ## Registers are not shared -/

namespace Appenders

open AppendClient

variable {ι : Type} [DecidableEq ι] {s s' t : Appenders ι} {e : Event ι} {es : List (Event ι)}
  {i j : ι} {c c' : AppendClient} {w : Int}

/-- **Each register belongs to one client**, and nobody else has touched it. -/
structure Exclusive (s : Appenders ι) : Prop where
  dense : Dense s.chain
  undisturbed : ∀ i c, s.clients i = some c → Undisturbed s.chain c
  apart : ∀ i j c c' w, s.clients i = some c → s.clients j = some c' → c.register = some w →
    c'.register = some w → i = j
  drawn : ∀ w, (∃ wor, s.chain.get w = some wor) → ∃ i c, s.clients i = some c ∧
    c.register = some w

theorem step_begin {payload : String} {k : Int}
    (h : s.step (.begin i payload k) = some s') :
    s.clients i = none ∧ s' = { s with
      clients := Function.update s.clients i (some { payload, maxNumberOfAttempts := k }) } := by
  unfold step at h
  cases hi : s.clients i with
  | some c => simp [hi] at h
  | none => exact ⟨rfl, by simpa [hi] using h.symm⟩

theorem step_proceed (h : s.step (.proceed i) = some s') :
    ∃ c, s.clients i = some c ∧ (∀ w, c.phase ≠ .returned w) ∧ s' =
      { chain := (c.proceed s.chain).1
        clients := Function.update s.clients i (some (c.proceed s.chain).2) } := by
  unfold step at h
  cases hi : s.clients i with
  | none => simp [hi] at h
  | some c =>
    refine ⟨c, rfl, ?_⟩
    simp only [hi] at h
    split at h
    · cases h
    · rename_i hrunning
      exact ⟨hrunning, (Option.some.inj h).symm⟩

omit [DecidableEq ι] in
theorem Exclusive.start : Exclusive ({} : Appenders ι) := by
  refine ⟨⟨le_rfl, ?_⟩, ?_, ?_, ?_⟩
  · intro id
    constructor
    · rintro ⟨wor, hget⟩
      simp [WriteOnceRegisterChainImpl.get] at hget
    · intro hid
      exact absurd (show (1 : Int) ≤ 0 from hid.1.trans hid.2) (by decide)
  · intro i c hi
    cases hi
  · intro i j c c' w hi
    cases hi
  · rintro w ⟨wor, hget⟩
    simp [WriteOnceRegisterChainImpl.get] at hget

omit [DecidableEq ι] in
/-- Somebody else's register is not touched by a client's call. -/
theorem Exclusive.get_other (h : Exclusive s) (hi : s.clients i = some c)
    (hj : s.clients j = some c') (hne : i ≠ j) (hw : c'.register = some w)
    {chain : InMemoryChain} {d : AppendClient}
    (hmoves : Draws s.chain c chain d ∨ Keeps s.chain c chain d) :
    chain.get w = s.chain.get w := by
  rcases hmoves with ⟨-, -, rfl⟩ | hkeeps
  · have hthere := (h.dense.2 w).mp ((h.undisturbed j c' hj).there hw)
    rw [WriteOnceRegisterChainImpl.get_append, if_neg]
    omega
  · apply hkeeps.other
    intro hmine
    exact hne (h.apart i j c c' w hi hj hmine hw)

theorem Exclusive.begin (h : Exclusive s) (hi : s.clients i = none) (payload : String) (k : Int) :
    Exclusive { s with
      clients := Function.update s.clients i (some { payload, maxNumberOfAttempts := k }) } := by
  -- the new client has no register
  have hcases : ∀ j d, Function.update s.clients i
      (some { payload, maxNumberOfAttempts := k }) j = some d →
      s.clients j = some d ∨ d.phase = .appending := by
    intro j d hj
    rcases Parties.eq_some_of_update hj with ⟨rfl, rfl⟩ | ⟨-, hold⟩
    · exact .inr rfl
    · exact .inl hold
  refine ⟨h.dense, ?_, ?_, ?_⟩
  · intro j d hj
    rcases hcases j d hj with hold | hnew
    · exact h.undisturbed j d hold
    · simp [Undisturbed, hnew]
  · intro j j' d d' w hj hj' hw hw'
    rcases hcases j d hj with hold | hnew
    · rcases hcases j' d' hj' with hold' | hnew'
      · exact h.apart j j' d d' w hold hold' hw hw'
      · simp [register, hnew'] at hw'
    · simp [register, hnew] at hw
  · intro w hw
    obtain ⟨j, d, hj, hd⟩ := h.drawn w hw
    refine ⟨j, d, ?_, hd⟩
    have hij : j ≠ i := by
      rintro rfl
      rw [hi] at hj
      cases hj
    exact (Function.update_of_ne hij ..).trans hj

theorem Exclusive.proceed (h : Exclusive s) (hi : s.clients i = some c) {chain : InMemoryChain}
    {d : AppendClient} (hp : Proceeds s.chain c chain d) :
    Exclusive { chain, clients := Function.update s.clients i (some d) } := by
  have hdense : Dense chain := by
    rcases hp.moves with ⟨-, -, rfl⟩ | hkeeps
    · exact h.dense.append
    · refine ⟨hkeeps.worId ▸ h.dense.1, ?_⟩
      intro id
      rw [hkeeps.there, h.dense.2, hkeeps.worId]
  -- a register of another client is neither the one that was drawn nor the client's own
  have hapart : ∀ j c' w, j ≠ i → s.clients j = some c' → c'.register = some w →
      d.register ≠ some w := by
    intro j c' w hij hj hw hd
    rcases hp.moves with ⟨-, hdrawn, -⟩ | hkeeps
    · have hthere := (h.dense.2 w).mp ((h.undisturbed j c' hj).there hw)
      obtain rfl : s.chain.worId + 1 = w := Option.some.inj (hdrawn.symm.trans hd)
      omega
    · exact hij (h.apart j i c' c w hj hi hw (hkeeps.register ▸ hd))
  refine ⟨hdense, ?_, ?_, ?_⟩
  · intro j c' hj
    rcases Parties.eq_some_of_update hj with ⟨rfl, rfl⟩ | ⟨hij, hold⟩
    · exact hp.undisturbed
    · apply (h.undisturbed j c' hold).frame
      intro w hw
      exact h.get_other hi hold (Ne.symm hij) hw hp.moves
  · intro j j' c' c'' w hj hj' hw hw'
    rcases Parties.eq_some_of_update hj with ⟨rfl, rfl⟩ | ⟨hij, hold⟩
    · rcases Parties.eq_some_of_update hj' with ⟨rfl, -⟩ | ⟨hij', hold'⟩
      · rfl
      · exact absurd hw (hapart j' c'' w hij' hold' hw')
    · rcases Parties.eq_some_of_update hj' with ⟨rfl, rfl⟩ | ⟨-, hold'⟩
      · exact absurd hw' (hapart j c' w hij hold hw)
      · exact h.apart j j' c' c'' w hold hold' hw hw'
  · intro w hw
    -- who had the register before has it still
    have hold : (∃ wor, s.chain.get w = some wor) → c.register = none ∨ d.register = c.register →
        ∃ j c', Function.update s.clients i (some d) j = some c' ∧ c'.register = some w := by
      intro hthere hregister
      obtain ⟨j, c', hj, hc'⟩ := h.drawn w hthere
      by_cases hij : j = i
      · subst hij
        obtain rfl : c = c' := Option.some.inj (hi.symm.trans hj)
        refine ⟨j, d, Function.update_self .., ?_⟩
        rcases hregister with hnone | hsame
        · rw [hnone] at hc'
          cases hc'
        · exact hsame.trans hc'
      · exact ⟨j, c', (Function.update_of_ne hij ..).trans hj, hc'⟩
    rcases hp.moves with ⟨hnone, hdrawn, rfl⟩ | hkeeps
    · dsimp only at hw
      rw [WriteOnceRegisterChainImpl.get_append] at hw
      by_cases hid : w = s.chain.worId + 1
      · exact ⟨i, d, Function.update_self .., hid ▸ hdrawn⟩
      · rw [if_neg hid] at hw
        exact hold hw (.inl hnone)
    · exact hold ((hkeeps.there w).mp hw) (.inr hkeeps.register)

theorem Exclusive.step (h : Exclusive s) (hs : s.step e = some s') : Exclusive s' := by
  cases e with
  | begin i payload k =>
    obtain ⟨hi, rfl⟩ := step_begin hs
    exact h.begin hi payload k
  | proceed i =>
    obtain ⟨c, hi, hrunning, rfl⟩ := step_proceed hs
    exact h.proceed hi (proceed_spec (h.undisturbed i c hi) h.dense hrunning)

theorem Exclusive.run (h : Exclusive s) (hrun : Transition.run Appenders.step s es = some s') :
    Exclusive s' :=
  Transition.run_invariant (P := Exclusive) (fun _ _ _ h hs => h.step hs) hrun h

/-! ## An append is wait-free -/

/-- Whatever happens, a client is nearer to its end by the calls it has made itself. -/
theorem calls_add_callsLeft (h : Exclusive s)
    (hrun : Transition.run Appenders.step s es = some s') (hi : s.clients i = some c) :
    ∃ c', s'.clients i = some c' ∧ c'.payload = c.payload ∧ (Trying c → Trying c') ∧
      es.count (.proceed i) + c'.callsLeft = c.callsLeft := by
  induction es generalizing s c with
  | nil =>
    simp only [Transition.run_nil, Option.some.injEq] at hrun
    exact ⟨c, hrun ▸ hi, rfl, id, by simp⟩
  | cons e es ih =>
    obtain ⟨t, ht, hrest⟩ := Transition.run_cons_eq_some.mp hrun
    cases e with
    | begin j payload k =>
      obtain ⟨hj, rfl⟩ := step_begin ht
      have hne : i ≠ j := by
        rintro rfl
        rw [hi] at hj
        cases hj
      obtain ⟨c', hc', hpayload, htrying, hcount⟩ := ih (h.step ht) hrest
        ((Function.update_of_ne hne ..).trans hi)
      refine ⟨c', hc', hpayload, htrying, ?_⟩
      rw [List.count_cons_of_ne (by simp)]
      exact hcount
    | proceed j =>
      obtain ⟨d, hj, hrunning, rfl⟩ := step_proceed ht
      by_cases hij : i = j
      · subst hij
        obtain rfl : c = d := Option.some.inj (hi.symm.trans hj)
        have hp := proceed_spec (h.undisturbed i c hi) h.dense hrunning
        obtain ⟨c', hc', hpayload, htrying, hcount⟩ := ih (h.step ht) hrest (Function.update_self ..)
        refine ⟨c', hc', hpayload.trans hp.payload, fun h => htrying (hp.trying h), ?_⟩
        rw [List.count_cons_self, hp.callsLeft, ← hcount]
        omega
      · obtain ⟨c', hc', hpayload, htrying, hcount⟩ := ih (h.step ht) hrest
          ((Function.update_of_ne hij ..).trans hi)
        refine ⟨c', hc', hpayload, htrying, ?_⟩
        rw [List.count_cons_of_ne (by simpa using Ne.symm hij)]
        exact hcount

omit [DecidableEq ι] in
/-- A client with no call left has returned. -/
theorem returned_of_callsLeft (h : Undisturbed s.chain c) (hleft : c.callsLeft = 0) :
    ∃ w, c.phase = .returned w := by
  obtain ⟨t, k, phase⟩ := c
  cases phase with
  | appending =>
    unfold callsLeft at hleft
    dsimp only at hleft
    split at hleft
    · cases hleft
    · cases hleft
  | getting w | locking w => cases hleft
  | writing w lockId => cases hleft
  | reading w => exact h.elim
  | returned w => exact ⟨w, rfl⟩

/-! ## The chain is a log -/

/-- The append of `i` has returned. -/
def Returned (s : Appenders ι) (i : ι) (w : Int) (payload : String) : Prop :=
  ∃ c, s.clients i = some c ∧ c.phase = .returned w ∧ c.payload = payload

omit [DecidableEq ι] in
theorem register_of_returned (h : Undisturbed s.chain c) (hphase : c.phase = .returned w)
    (hid : w ≠ -1) : c.register = some w ∧ ChainAppender.Holds s.chain w c.payload := by
  obtain ⟨t, k, phase⟩ := c
  obtain rfl : phase = .returned w := hphase
  exact ⟨if_neg hid, h.resolve_left hid⟩

omit [DecidableEq ι] in
/-- A returned id was given before. -/
theorem Exclusive.returned_le (h : Exclusive s) {payload : String} (hr : s.Returned i w payload) :
    w ≤ s.chain.worId := by
  obtain ⟨c, hi, hphase, -⟩ := hr
  by_cases hid : w = -1
  · have := h.dense.1
    omega
  · have hw := (register_of_returned (h.undisturbed i c hi) hphase hid).1
    exact ((h.dense.2 w).mp ((h.undisturbed i c hi).there hw)).2

/-- What a client will be given is larger than what others have been given. -/
theorem Exclusive.lt_of_run (h : Exclusive s) (hnone : s.clients i = none)
    (hrun : Transition.run Appenders.step s es = some s') (hi : s'.clients i = some c)
    (hw : c.register = some w) : s.chain.worId < w := by
  have hinv : Exclusive s' ∧ s.chain.worId ≤ s'.chain.worId ∧
      ∀ c w, s'.clients i = some c → c.register = some w → s.chain.worId < w := by
    refine Transition.run_invariant
      (P := fun t => Exclusive t ∧ s.chain.worId ≤ t.chain.worId ∧
        ∀ c w, t.clients i = some c → c.register = some w → s.chain.worId < w) ?_ hrun
      ⟨h, le_rfl, fun c w hi => by rw [hnone] at hi; cases hi⟩
    rintro t e t' ⟨ht, hle, hlater⟩ hs
    refine ⟨ht.step hs, ?_⟩
    cases e with
    | begin j payload k =>
      obtain ⟨hj, rfl⟩ := step_begin hs
      refine ⟨hle, ?_⟩
      intro c w hi hw
      rcases Parties.eq_some_of_update hi with ⟨rfl, rfl⟩ | ⟨-, hold⟩
      · cases hw
      · exact hlater c w hold hw
    | proceed j =>
      obtain ⟨d, hj, hrunning, rfl⟩ := step_proceed hs
      have hmoves := (proceed_spec (ht.undisturbed j d hj) ht.dense hrunning).moves
      have hle' : t.chain.worId ≤ (d.proceed t.chain).1.worId := by
        rcases hmoves with hdraws | hkeeps
        · rw [hdraws.worId]
          omega
        · exact hkeeps.worId.ge
      refine ⟨hle.trans hle', ?_⟩
      intro c w hi hw
      rcases Parties.eq_some_of_update hi with ⟨rfl, rfl⟩ | ⟨-, hold⟩
      · rcases hmoves with ⟨-, hdrawn, -⟩ | hkeeps
        · obtain rfl : t.chain.worId + 1 = w := Option.some.inj (hdrawn.symm.trans hw)
          omega
        · exact hlater d w hj (hkeeps.register ▸ hw)
      · exact hlater c w hold hw
  exact hinv.2.2 c w hi hw

omit [DecidableEq ι] in
/-- A value in the chain was put there by one append, which has returned its id. -/
theorem Exclusive.existsUnique (h : Exclusive s) {payload : String}
    (hholds : ChainAppender.Holds s.chain w payload) : ∃! i, s.Returned i w payload := by
  obtain ⟨wor, hget, -⟩ := id hholds
  obtain ⟨i, c, hi, hw⟩ := h.drawn w ⟨wor, hget⟩
  obtain ⟨hphase, hpayload⟩ := (h.undisturbed i c hi).holds hw hholds
  refine ⟨i, ⟨c, hi, hphase, hpayload⟩, ?_⟩
  rintro j ⟨c', hj, hphase', -⟩
  have hid : w ≠ -1 := by
    have := (h.dense.2 w).mp ⟨wor, hget⟩
    omega
  exact h.apart j i c' c w hj hi (register_of_returned (h.undisturbed j c' hj) hphase' hid).1 hw

/-- **Appending to a chain is wait-free, and the chain is a log.** In any interleaving of any
appends, one that may try at all makes at most four calls. After the fourth it has returned, its
register holds its payload for good, and the id is larger than every one that had been returned when
it began. Each register that holds something was filled by exactly one append, and when none is left
in the middle, every register is filled. -/
theorem appends_wait_free {es₁ es₂ : List (Event ι)} {payload : String} {k : Int}
    (hrun : Transition.run Appenders.step ({} : Appenders ι)
      (es₁ ++ .begin i payload k :: es₂) = some s) (hk : 0 < k) :
    es₂.count (.proceed i) ≤ 4 ∧
      (es₂.count (.proceed i) = 4 → ∃ w, s.Returned i w payload ∧
        ChainAppender.Holds s.chain w payload ∧
        ∀ s₁ j v payload', Transition.run Appenders.step {} es₁ = some s₁ →
          s₁.Returned j v payload' → v < w) ∧
      (∀ v payload', ChainAppender.Holds s.chain v payload' → ∃! j, s.Returned j v payload') ∧
      ((∀ j c, s.clients j = some c → ∃ v, s.Returned j v c.payload) →
        ∀ v, 1 ≤ v → v ≤ s.chain.worId → ∃ payload', ChainAppender.Holds s.chain v payload') := by
  obtain ⟨s₁, hrun₁, hrest⟩ := Transition.run_append_eq_some.mp hrun
  obtain ⟨s₂, hbegin, hrun₂⟩ := Transition.run_cons_eq_some.mp hrest
  have h₁ : Exclusive s₁ := Exclusive.start.run hrun₁
  have h₂ : Exclusive s₂ := h₁.step hbegin
  have h : Exclusive s := h₂.run hrun₂
  obtain ⟨hnone, hs₂⟩ := step_begin hbegin
  have hi₂ : s₂.clients i = some { payload, maxNumberOfAttempts := k } := by
    rw [hs₂]
    exact Function.update_self ..
  obtain ⟨c, hi, (hpayload : c.payload = payload), htrying, hcount⟩ :=
    calls_add_callsLeft h₂ hrun₂ hi₂
  have hfour : callsLeft { payload, maxNumberOfAttempts := k } = 4 := if_pos hk
  rw [hfour] at hcount
  refine ⟨by omega, ?_, ?_, ?_⟩
  · intro hcalls
    obtain ⟨w, hphase⟩ := returned_of_callsLeft (h.undisturbed i c hi) (by omega)
    have hid : w ≠ -1 := by
      rintro rfl
      have := htrying (.inr ⟨rfl, hk⟩)
      simp [Trying, register, hphase] at this
    obtain ⟨hw, hholds⟩ := register_of_returned (h.undisturbed i c hi) hphase hid
    refine ⟨w, ⟨c, hi, hphase, hpayload⟩, hpayload ▸ hholds, ?_⟩
    intro s₁' j v payload' hrun₁' hreturned
    obtain rfl : s₁ = s₁' := Option.some.inj (hrun₁.symm.trans hrun₁')
    exact (h₁.returned_le hreturned).trans_lt (h₁.lt_of_run hnone hrest hi hw)
  · intro v payload' hholds
    exact h.existsUnique hholds
  · intro hall v hlow hhigh
    obtain ⟨j, c', hj, hw⟩ := h.drawn v ((h.dense.2 v).mpr ⟨hlow, hhigh⟩)
    obtain ⟨v', c'', hj', hphase, -⟩ := hall j c' hj
    obtain rfl : c' = c'' := Option.some.inj (hj.symm.trans hj')
    have hid : v' ≠ -1 := by
      rintro rfl
      simp [register, hphase] at hw
    obtain ⟨hw', hholds⟩ := register_of_returned (h.undisturbed j c' hj) hphase hid
    obtain rfl : v = v' := Option.some.inj (hw.symm.trans hw')
    exact ⟨c'.payload, hholds⟩

/-- Two appends are in the chain together: the second one locks its register while the first has
still to write its own. -/
theorem appends_wait_free_two_clients :
    ∃ s : Appenders Nat, ∃ w, s.Returned 1 w "b" ∧ ChainAppender.Holds s.chain w "b" := by
  obtain ⟨s, hrun⟩ : ∃ s, Transition.run Appenders.step ({} : Appenders Nat)
      ([.begin 0 "a" 1, .proceed 0, .proceed 0, .proceed 0] ++ .begin 1 "b" 1 ::
        [.proceed 1, .proceed 1, .proceed 1, .proceed 0, .proceed 1]) = some s := ⟨_, rfl⟩
  obtain ⟨w, hreturned, hholds, -⟩ :=
    (appends_wait_free hrun (by decide)).2.1 (by decide)
  exact ⟨s, w, hreturned, hholds⟩

end Appenders

end ReplicatedCounter.Paxos
