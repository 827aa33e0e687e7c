import Mathlib.Data.List.Induction
import ReplicatedCounter.Paxos.LocalAcceptor

/-!
# What an acceptor holds of what it has said

Every call of a `LocalAcceptor` loads one instance, decides, and writes it back. Seen from outside it
is one step of the instance, `PaxosInstance.serve`, and nothing else in the store is touched:
`perform_exec` and `perform_frame`. From there on the store plays no part.

What is left is an instance and the calls that were answered on it. `Records` is the invariant between
the two: the instance holds the proposal that was accepted last, below the ballot it has promised, and
no ballot it has answered with a promise is above that one. So the next promise is for a ballot that
was not promised before, and tells of the proposal that was accepted last.
-/

set_option autoImplicit false

namespace ReplicatedCounter.Paxos

def Call.paxosInstanceId : Call → String
  | .prepare paxosInstanceId _ => paxosInstanceId
  | .accept paxosInstanceId _ => paxosInstanceId
  | .commit paxosInstanceId _ => paxosInstanceId
  | .getAcceptedValue paxosInstanceId => paxosInstanceId
  | .getCommittedValue paxosInstanceId => paxosInstanceId

/-- What an accepted proposal is kept as, and promised with. -/
def Proposal.report (p : Proposal) : Promise := { ballotId := some p.ballotId, value := some p.value }

namespace PaxosInstance

/-- A call as a step of the instance it is about. -/
def serve (i : PaxosInstance) : Call → PaxosInstance × Answer
  | .prepare _ ballot =>
    if ballot ≤ i.promisedBallotId then (i, .prepared .rejected)
    else ({ i with promisedBallotId := ballot },
      .prepared (.promise (i.accepted.getD { ballotId := some ballot })))
  | .accept _ proposal =>
    if proposal.ballotId < i.promisedBallotId then (i, .done false)
    else ({ i with promisedBallotId := proposal.ballotId, accepted := some proposal.report }, .done true)
  | .commit _ _ => ({ i with committed := true }, .done (!i.committed))
  | .getAcceptedValue _ => (i, .acceptedValue (some (i.accepted.getD {})))
  | .getCommittedValue _ => (i, .committedValue (LocalAcceptor.committedValue i))

/-- The ballot of the proposal that was accepted last. -/
def acceptedBallotId (i : PaxosInstance) : Option BallotId := i.accepted.bind (·.ballotId)

end PaxosInstance

/-- Make calls one after the other. -/
def Acceptor.performAll {m : Type → Type} [Monad m] (acceptor : Acceptor m) :
    List Call → m (List (Call × Answer))
  | [] => return []
  | call :: calls => do
    let answer ← acceptor.perform call
    let history ← acceptor.performAll calls
    return (call, answer) :: history

/-! ## A history of answers -/

/-- The proposal of a call, if it was accepted. -/
def acceptedProposal (id : String) : Call × Answer → Option Proposal
  | (.accept paxosInstanceId proposal, .done true) =>
    if paxosInstanceId = id then some proposal else none
  | _ => none

/-- The proposal that was accepted last. -/
def lastAcceptedProposal (id : String) (history : List (Call × Answer)) : Option Proposal :=
  (history.filterMap (acceptedProposal id)).getLast?

/-- A prepare of a ballot, answered with a promise. -/
def promisesBallot (id : String) (b : BallotId) : Call × Answer → Bool
  | (.prepare paxosInstanceId ballot, .prepared (.promise _)) => paxosInstanceId = id ∧ ballot = b
  | _ => false

/-- What the answers say is what the instance holds. -/
structure Records (id : String) (history : List (Call × Answer)) (i : PaxosInstance) : Prop where
  accepted : i.accepted = (lastAcceptedProposal id history).map Proposal.report
  accepted_le : ∀ p ∈ lastAcceptedProposal id history, p.ballotId ≤ i.promisedBallotId
  promised_le : ∀ b, history.countP (promisesBallot id b) ≠ 0 → b ≤ i.promisedBallotId
  once : ∀ b, history.countP (promisesBallot id b) ≤ 1
  carries : ∀ before b p, before ++ [(.prepare id b, .prepared (.promise p))] <+: history →
    p = ((lastAcceptedProposal id before).map Proposal.report).getD { ballotId := some b }

/-- The ballots of an instance have not gone back. -/
structure Advances (i i' : PaxosInstance) : Prop where
  promised : i.promisedBallotId ≤ i'.promisedBallotId
  accepted : ∀ b, i.acceptedBallotId = some b → ∃ b', i'.acceptedBallotId = some b' ∧ b ≤ b'

variable {id : String} {history : List (Call × Answer)} {i i' i'' : PaxosInstance} {call : Call}
  {answer : Answer}

theorem Advances.refl (i : PaxosInstance) : Advances i i := ⟨le_rfl, fun b hb => ⟨b, hb, le_rfl⟩⟩

theorem Advances.trans (h : Advances i i') (h' : Advances i' i'') : Advances i i'' where
  promised := le_trans h.promised h'.promised
  accepted b hb := by
    obtain ⟨b', hb', hle⟩ := h.accepted b hb
    obtain ⟨b'', hb'', hle'⟩ := h'.accepted b' hb'
    exact ⟨b'', hb'', le_trans hle hle'⟩

theorem lastAcceptedProposal_concat (e : Call × Answer) :
    lastAcceptedProposal id (history ++ [e]) =
      (acceptedProposal id e).or (lastAcceptedProposal id history) := by
  unfold lastAcceptedProposal
  rw [List.filterMap_append, List.filterMap_cons, List.filterMap_nil]
  cases acceptedProposal id e with
  | none => rw [List.append_nil, Option.none_or]
  | some p => rw [List.getLast?_append, List.getLast?_singleton]

theorem acceptedProposal_eq_some {e : Call × Answer} {p : Proposal} :
    acceptedProposal id e = some p ↔ e = (.accept id p, .done true) := by
  unfold acceptedProposal
  constructor
  · intro hsome
    split at hsome
    · split at hsome
      · rename_i hid
        rw [hid, Option.some.inj hsome]
      · cases hsome
    · cases hsome
  · rintro rfl
    exact if_pos rfl

/-- A call of another register is none of this one's. -/
theorem acceptedProposal_of_ne (h : call.paxosInstanceId ≠ id) :
    acceptedProposal id (call, answer) = none := by
  refine Option.eq_none_iff_forall_ne_some.mpr fun p hsome => ?_
  obtain ⟨rfl, -⟩ := Prod.mk.inj (acceptedProposal_eq_some.mp hsome)
  exact h rfl

theorem promisesBallot_of_ne (h : call.paxosInstanceId ≠ id) (b : BallotId) :
    promisesBallot id b (call, answer) = false := by
  unfold promisesBallot
  split
  · rename_i paxosInstanceId ballot p heq
    obtain ⟨rfl, -⟩ := Prod.mk.inj heq
    exact decide_eq_false fun hsame => h hsame.1
  · rfl

theorem promisesBallot_promise (b b' : BallotId) (p : Promise) :
    promisesBallot id b' (.prepare id b, .prepared (.promise p)) = decide (b = b') := by
  simp [promisesBallot]

/-- The proposals of an instance are below its promise. -/
theorem Records.acceptedBallotId_le (h : Records id history i) {b : BallotId}
    (hb : i.acceptedBallotId = some b) : b ≤ i.promisedBallotId := by
  unfold PaxosInstance.acceptedBallotId at hb
  rw [h.accepted] at hb
  cases hlast : lastAcceptedProposal id history with
  | none =>
    rw [hlast] at hb
    cases hb
  | some p =>
    rw [hlast] at hb
    cases hb
    exact h.accepted_le p hlast

/-! ## One step -/

theorem records_freshInstance (id : String) : Records id [] (LocalAcceptor.freshInstance id) where
  accepted := rfl
  accepted_le p hp := nomatch hp
  promised_le b hb := absurd rfl hb
  once b := Nat.zero_le 1
  carries before b p hprefix := by simp at hprefix

/-- An answer that is no promise and accepts nothing, or is about another register. -/
theorem Records.concat_silent (h : Records id history i) {e : Call × Answer}
    (haccepted : acceptedProposal id e = none) (hgrants : ∀ b, promisesBallot id b e = false)
    (hi : i'.accepted = i.accepted) (hi' : i'.promisedBallotId = i.promisedBallotId) :
    Records id (history ++ [e]) i' := by
  have hcount : ∀ b, (history ++ [e]).countP (promisesBallot id b) =
      history.countP (promisesBallot id b) := by
    intro b
    rw [List.countP_append, List.countP_singleton, hgrants b]
    rfl
  have hlast : lastAcceptedProposal id (history ++ [e]) = lastAcceptedProposal id history := by
    rw [lastAcceptedProposal_concat, haccepted, Option.none_or]
  refine ⟨?_, ?_, ?_, ?_, ?_⟩
  · rw [hi, hlast]
    exact h.accepted
  · rw [hi', hlast]
    exact h.accepted_le
  · intro b hb
    rw [hcount] at hb
    rw [hi']
    exact h.promised_le b hb
  · intro b
    rw [hcount]
    exact h.once b
  · intro before b p hprefix
    rcases List.prefix_concat_iff.mp hprefix with heq | hprefix
    · obtain ⟨-, hlast⟩ := List.append_inj' heq rfl
      have hgranted := hgrants b
      rw [← List.singleton_inj.mp hlast] at hgranted
      simp [promisesBallot] at hgranted
    · exact h.carries before b p hprefix

/-- **A promise** is for a ballot above all promised ones. -/
theorem Records.concat_promise (h : Records id history i) {b : BallotId}
    (hb : i.promisedBallotId < b) :
    Records id (history ++ [(.prepare id b,
        .prepared (.promise (i.accepted.getD { ballotId := some b })))])
      { i with promisedBallotId := b } := by
  have hlast : ∀ p, lastAcceptedProposal id (history ++ [(.prepare id b, .prepared (.promise p))]) =
      lastAcceptedProposal id history := fun p => by
    rw [lastAcceptedProposal_concat]
    exact Option.none_or
  have hnew : history.countP (promisesBallot id b) = 0 := by
    by_contra hbefore
    exact absurd (h.promised_le b hbefore) (not_le.mpr hb)
  refine ⟨?_, ?_, ?_, ?_, ?_⟩
  · rw [hlast]
    exact h.accepted
  · rw [hlast]
    exact fun p hp => le_trans (h.accepted_le p hp) (le_of_lt hb)
  · intro b' hb'
    rw [List.countP_append, List.countP_singleton, promisesBallot_promise] at hb'
    by_cases hsame : b = b'
    · exact le_of_eq hsame.symm
    · rw [decide_eq_false hsame] at hb'
      exact le_trans (h.promised_le b' hb') (le_of_lt hb)
  · intro b'
    rw [List.countP_append, List.countP_singleton, promisesBallot_promise]
    by_cases hsame : b = b'
    · rw [← hsame, hnew]
      split <;> omega
    · rw [decide_eq_false hsame]
      exact h.once b'
  · intro before b' p hprefix
    rcases List.prefix_concat_iff.mp hprefix with heq | hprefix
    · obtain ⟨rfl, hend⟩ := List.append_inj' heq rfl
      obtain ⟨hcall, hanswer⟩ := Prod.mk.inj (List.singleton_inj.mp hend)
      cases hcall
      cases hanswer
      rw [h.accepted]
    · exact h.carries before b' p hprefix

/-- **An accepted proposal** is not below the promise, and becomes it. -/
theorem Records.concat_accept (h : Records id history i) {proposal : Proposal}
    (hle : i.promisedBallotId ≤ proposal.ballotId) :
    Records id (history ++ [(.accept id proposal, .done true)])
      { i with promisedBallotId := proposal.ballotId, accepted := some proposal.report } := by
  have hlast : lastAcceptedProposal id (history ++ [(.accept id proposal, .done true)]) =
      some proposal := by
    rw [lastAcceptedProposal_concat, acceptedProposal, if_pos rfl, Option.some_or]
  have hcount : ∀ b, (history ++ [(Call.accept id proposal, Answer.done true)]).countP
      (promisesBallot id b) = history.countP (promisesBallot id b) := by
    intro b
    rw [List.countP_append]
    rfl
  refine ⟨?_, ?_, ?_, ?_, ?_⟩
  · rw [hlast]
    rfl
  · rw [hlast]
    rintro p ⟨⟩
    exact le_rfl
  · intro b hb
    rw [hcount] at hb
    exact le_trans (h.promised_le b hb) hle
  · intro b
    rw [hcount]
    exact h.once b
  · intro before b p hprefix
    rcases List.prefix_concat_iff.mp hprefix with heq | hprefix
    · obtain ⟨-, hlast⟩ := List.append_inj' heq rfl
      simp at hlast
    · exact h.carries before b p hprefix

/-- **A step of the register.** -/
theorem Records.serve (h : Records call.paxosInstanceId history i) :
    Records call.paxosInstanceId (history ++ [(call, (i.serve call).2)]) (i.serve call).1 := by
  cases call with
  | prepare paxosInstanceId b =>
    unfold PaxosInstance.serve
    dsimp only
    split
    · exact h.concat_silent rfl (fun _ => rfl) rfl rfl
    · rename_i hb
      exact h.concat_promise (not_le.mp hb)
  | accept paxosInstanceId proposal =>
    unfold PaxosInstance.serve
    dsimp only
    split
    · exact h.concat_silent rfl (fun _ => rfl) rfl rfl
    · rename_i hb
      exact h.concat_accept (not_lt.mp hb)
  | commit paxosInstanceId b => exact h.concat_silent rfl (fun _ => rfl) rfl rfl
  | getAcceptedValue paxosInstanceId => exact h.concat_silent rfl (fun _ => rfl) rfl rfl
  | getCommittedValue paxosInstanceId => exact h.concat_silent rfl (fun _ => rfl) rfl rfl

/-- **No step goes back.** -/
theorem Records.advances (h : Records id history i) (call : Call) : Advances i (i.serve call).1 := by
  cases call with
  | prepare paxosInstanceId b =>
    unfold PaxosInstance.serve
    dsimp only
    split
    · exact .refl i
    · rename_i hb
      exact ⟨le_of_lt (not_le.mp hb), fun b hb => ⟨b, hb, le_rfl⟩⟩
  | accept paxosInstanceId proposal =>
    unfold PaxosInstance.serve
    dsimp only
    split
    · exact .refl i
    · rename_i hb
      refine ⟨not_lt.mp hb, fun b hold => ⟨proposal.ballotId, rfl, ?_⟩⟩
      exact le_trans (h.acceptedBallotId_le hold) (not_lt.mp hb)
  | commit paxosInstanceId b => exact ⟨le_rfl, fun b hb => ⟨b, hb, le_rfl⟩⟩
  | getAcceptedValue paxosInstanceId => exact .refl i
  | getCommittedValue paxosInstanceId => exact .refl i

/-- What is said about another register is not about this one. -/
theorem Records.other (h : Records id history i) (hne : call.paxosInstanceId ≠ id) (answer : Answer) :
    Records id (history ++ [(call, answer)]) i :=
  h.concat_silent (acceptedProposal_of_ne hne) (promisesBallot_of_ne hne) rfl rfl

/-! ## The store -/

namespace LocalAcceptor

variable {κ β : Type} [KVStoreLite κ β] [LawfulKVStoreLite κ β] {codec : Codec PaxosInstance β}
  {kv : κ}

omit [LawfulKVStoreLite κ β] in
theorem exec_of_serve {kv' : κ}
    (hserve : (instanceOf codec kv call.paxosInstanceId).serve call = (i, answer))
    (hexec : Coro.exec ((localAcceptor codec).perform call) kv = (.ok answer, kv'))
    (hup : Updates codec kv kv' call.paxosInstanceId i) :
    ∃ kv', Coro.exec ((localAcceptor codec).perform call) kv =
        (.ok ((instanceOf codec kv call.paxosInstanceId).serve call).2, kv') ∧
      Updates codec kv kv' call.paxosInstanceId
        ((instanceOf codec kv call.paxosInstanceId).serve call).1 := by
  rw [hserve]
  exact ⟨kv', hexec, hup⟩

/-- **A call is a step of its instance**, and changes no other one. -/
theorem perform_exec (h : WellFormed codec kv) (call : Call) :
    ∃ kv', Coro.exec ((localAcceptor codec).perform call) kv =
        (.ok ((instanceOf codec kv call.paxosInstanceId).serve call).2, kv') ∧
      Updates codec kv kv' call.paxosInstanceId
        ((instanceOf codec kv call.paxosInstanceId).serve call).1 := by
  cases call with
  | prepare id b =>
    obtain ⟨resp, kv', hexec, ⟨hle, rfl, hup⟩ | ⟨hlt, rfl, hup⟩⟩ := prepare_spec h id b
    · exact exec_of_serve (if_pos hle) (Coro.exec_map_ok_iff.mpr ⟨_, hexec, rfl⟩) hup
    · exact exec_of_serve (if_neg (not_le.mpr hlt)) (Coro.exec_map_ok_iff.mpr ⟨_, hexec, rfl⟩) hup
  | accept id proposal =>
    obtain ⟨result, kv', hexec, ⟨hlt, rfl, hup⟩ | ⟨hle, rfl, hup⟩⟩ := accept_spec h id proposal
    · exact exec_of_serve (if_pos hlt) (Coro.exec_map_ok_iff.mpr ⟨_, hexec, rfl⟩) hup
    · exact exec_of_serve (if_neg (not_lt.mpr hle)) (Coro.exec_map_ok_iff.mpr ⟨_, hexec, rfl⟩) hup
  | commit id b =>
    obtain ⟨kv', hexec, hup⟩ := commit_spec h id b
    exact ⟨kv', Coro.exec_map_ok_iff.mpr ⟨_, hexec, rfl⟩, hup⟩
  | getAcceptedValue id =>
    obtain ⟨kv', hexec, hup⟩ := getAcceptedValue_spec h id
    exact ⟨kv', Coro.exec_map_ok_iff.mpr ⟨_, hexec, rfl⟩, hup⟩
  | getCommittedValue id =>
    obtain ⟨kv', hexec, hup⟩ := getCommittedValue_spec h id
    exact ⟨kv', Coro.exec_map_ok_iff.mpr ⟨_, hexec, rfl⟩, hup⟩

/-! ## The keys of the store -/

/-- A property of the store that a call on `id` keeps: it survives the writes of an instance that
`Q` allows, and whatever is loaded is allowed. -/
structure KeptByWrites (codec : Codec PaxosInstance β) (P : κ → Prop) (Q : String → Prop)
    (id : String) : Prop where
  fresh : Q id
  stored : ∀ kv bytes i, P kv → KVStoreLite.get kv (keyFormat id) = some bytes →
    codec.parse bytes = some i → Q i.id
  put : ∀ i : PaxosInstance, Q i.id →
    Coro.Keeps P (kvPut (keyFormat i.id) (codec.serialize i) : AcceptorM κ Bool)

section keeps

variable {P : κ → Prop} {Q : String → Prop}

omit [LawfulKVStoreLite κ β]

theorem KeptByWrites.getOrCreate (h : KeptByWrites codec P Q id) :
    Coro.Keeps P (getOrCreate codec id) := by
  refine Coro.Keeps.bind (fun _ hs => hs) fun result => ?_
  cases result with
  | some bytes =>
    dsimp only
    cases codec.parse bytes with
    | none => exact Coro.keeps_throw _
    | some i => exact Coro.keeps_pure _
  | none =>
    refine Coro.Keeps.bind (h.put (freshInstance id) h.fresh) fun putResult => ?_
    cases putResult with
    | false => exact Coro.keeps_throw _
    | true => exact Coro.keeps_pure _

/-- What is loaded may be written back. -/
theorem KeptByWrites.of_getOrCreate (h : KeptByWrites codec P Q id) {kv' : κ} (hP : P kv)
    (hexec : Coro.exec (LocalAcceptor.getOrCreate codec id) kv = (.ok i, kv')) : Q i.id := by
  unfold LocalAcceptor.getOrCreate at hexec
  rw [Coro.exec_bind_ok (kvGet_exec _ kv)] at hexec
  cases hget : KVStoreLite.get kv (keyFormat id) with
  | some bytes =>
    rw [hget] at hexec
    dsimp only at hexec
    cases hparse : codec.parse bytes with
    | none =>
      rw [hparse] at hexec
      cases hexec
    | some i' =>
      rw [hparse] at hexec
      cases hexec
      exact h.stored kv bytes _ hP hget hparse
  | none =>
    rw [hget] at hexec
    dsimp only at hexec
    rw [Coro.exec_bind_ok (kvPut_exec _ _ kv)] at hexec
    split at hexec
    · cases hexec
    · cases hexec
      exact h.fresh

theorem KeptByWrites.writeBack (h : KeptByWrites codec P Q id) (hi : Q i.id) :
    Coro.Keeps P (writeBack codec i) := by
  refine Coro.Keeps.bind (h.put i hi) fun result => ?_
  cases result with
  | false => exact Coro.keeps_throw _
  | true => exact Coro.keeps_pure _

/-- Loading an instance, and going on with it. -/
theorem KeptByWrites.load {γ : Type} {f : PaxosInstance → AcceptorM κ γ}
    (h : KeptByWrites codec P Q id) (hf : ∀ i, Q i.id → Coro.Keeps P (f i)) :
    Coro.Keeps P (LocalAcceptor.getOrCreate codec id >>= f) :=
  h.getOrCreate.bind_of (fun _ _ _ hP hexec => h.of_getOrCreate hP hexec) hf

/-- **What the writes of a call keep, the call keeps.** -/
theorem KeptByWrites.perform (h : KeptByWrites codec P Q call.paxosInstanceId) :
    Coro.Keeps P ((localAcceptor codec).perform call) := by
  cases call with
  | prepare id b =>
    refine Coro.Keeps.bind (h.load fun i hi => ?_) fun _ => Coro.keeps_pure _
    split
    · exact Coro.keeps_pure _
    · refine Coro.Keeps.bind (h.writeBack (by exact hi)) fun _ => ?_
      split <;> exact Coro.keeps_pure _
  | accept id p =>
    refine Coro.Keeps.bind (h.load fun i hi => ?_) fun _ => Coro.keeps_pure _
    split
    · exact Coro.keeps_pure _
    · exact Coro.Keeps.bind (h.writeBack (by exact hi)) fun _ => Coro.keeps_pure _
  | commit id b =>
    refine Coro.Keeps.bind (h.load fun i hi => ?_) fun _ => Coro.keeps_pure _
    split
    · exact Coro.Keeps.bind (h.writeBack (by exact hi)) fun _ => Coro.keeps_pure _
    · exact Coro.keeps_pure _
  | getAcceptedValue id =>
    exact Coro.Keeps.bind (h.load fun i _ => Coro.keeps_pure _) fun _ => Coro.keeps_pure _
  | getCommittedValue id =>
    refine Coro.Keeps.bind (h.load fun i _ => ?_) fun _ => Coro.keeps_pure _
    split <;> exact Coro.keeps_pure _

end keeps

/-- **A call touches the key of its own instance only.** -/
theorem perform_frame (h : WellFormed codec kv) (call : Call) {key : String}
    (hkey : key ≠ keyFormat call.paxosInstanceId) :
    KVStoreLite.get (Coro.exec ((localAcceptor codec).perform call) kv).2 key =
      KVStoreLite.get kv key := by
  have hkept : KeptByWrites codec
      (fun kv' : κ => WellFormed codec kv' ∧ KVStoreLite.get kv' key = KVStoreLite.get kv key)
      (· = call.paxosInstanceId) call.paxosInstanceId := by
    refine ⟨rfl, ?_, ?_⟩
    · rintro kv' bytes i ⟨hwell, -⟩ hget hparse
      obtain ⟨i', hparse', hid⟩ := hwell _ bytes hget
      rw [hparse, Option.some.injEq] at hparse'
      rw [hparse', hid]
    · rintro i hid kv' ⟨hwell, hsame⟩
      refine ⟨(updates_put hwell i).wellFormed, ?_⟩
      show KVStoreLite.get (KVStoreLite.put kv' _ _).1 key = _
      rw [LawfulKVStoreLite.get_put, if_neg (by rw [hid]; exact hkey)]
      exact hsame
  exact (hkept.perform kv ⟨h, rfl⟩).2

/-! ## A run of calls -/

/-- What is said about the ballots of a register: `history` has been answered, and the last calls of it
have taken the store from `kv` to `kv'`. -/
structure BallotInvariant (codec : Codec PaxosInstance β) (id : String)
    (history : List (Call × Answer)) (kv kv' : κ) : Prop where
  promised : (instanceOf codec kv id).promisedBallotId ≤ (instanceOf codec kv' id).promisedBallotId
  accepted : ∀ b, (instanceOf codec kv id).acceptedBallotId = some b →
    ∃ b', (instanceOf codec kv' id).acceptedBallotId = some b' ∧ b ≤ b'
  accepted_le : ∀ b, (instanceOf codec kv' id).acceptedBallotId = some b →
    b ≤ (instanceOf codec kv' id).promisedBallotId
  once : ∀ b, history.countP (promisesBallot id b) ≤ 1
  /-- A promise is the proposal that was accepted last, or names the ballot and no value. -/
  carries : ∀ before b p, before ++ [(.prepare id b, .prepared (.promise p))] <+: history →
    (∀ proposal, lastAcceptedProposal id before = some proposal →
      p = { ballotId := some proposal.ballotId, value := some proposal.value }) ∧
    (lastAcceptedProposal id before = none → p = { ballotId := some b, value := none })

omit [LawfulKVStoreLite κ β] in
theorem exec_performAll_cons {call : Call} {calls : List Call} {answer : Answer}
    {history : List (Call × Answer)} {kv₁ kv' : κ}
    (hcall : Coro.exec ((localAcceptor codec).perform call) kv = (.ok answer, kv₁))
    (hcalls : Coro.exec ((localAcceptor codec).performAll calls) kv₁ = (.ok history, kv')) :
    Coro.exec ((localAcceptor codec).performAll (call :: calls)) kv =
      (.ok ((call, answer) :: history), kv') := by
  unfold Acceptor.performAll
  rw [Coro.exec_bind_ok hcall, Coro.exec_bind_ok hcalls]
  rfl

/-- **Every run of calls** is answered, and keeps the answers and the instances in agreement. -/
theorem exec_performAll (h : WellFormed codec kv) {history : List (Call × Answer)}
    (hrecords : ∀ id, Records id history (instanceOf codec kv id)) (calls : List Call) :
    ∃ later kv', Coro.exec ((localAcceptor codec).performAll calls) kv = (.ok later, kv') ∧
      WellFormed codec kv' ∧ later.map (·.1) = calls ∧
      (∀ id, Records id (history ++ later) (instanceOf codec kv' id)) ∧
      (∀ id, Advances (instanceOf codec kv id) (instanceOf codec kv' id)) ∧
      ∀ key, (∀ call ∈ calls, key ≠ keyFormat call.paxosInstanceId) →
        KVStoreLite.get kv' key = KVStoreLite.get kv key := by
  induction calls generalizing kv history with
  | nil =>
    refine ⟨[], kv, rfl, h, rfl, fun id => ?_, fun id => .refl _, fun _ _ => rfl⟩
    rw [List.append_nil]
    exact hrecords id
  | cons call calls ih =>
    obtain ⟨kv₁, hcall, hup⟩ := perform_exec h call
    have hframe : ∀ key, key ≠ keyFormat call.paxosInstanceId →
        KVStoreLite.get kv₁ key = KVStoreLite.get kv key := by
      intro key hkey
      have := perform_frame h call hkey
      rwa [hcall] at this
    have hstep : ∀ id, Records id (history ++ [(call,
          ((instanceOf codec kv call.paxosInstanceId).serve call).2)]) (instanceOf codec kv₁ id) ∧
        Advances (instanceOf codec kv id) (instanceOf codec kv₁ id) := by
      intro id
      by_cases hid : id = call.paxosInstanceId
      · subst hid
        rw [hup.same]
        exact ⟨(hrecords _).serve, (hrecords _).advances call⟩
      · rw [hup.other id hid]
        exact ⟨(hrecords id).other (Ne.symm hid) _, .refl _⟩
    obtain ⟨later, kv', hcalls, hwell, hmap, hrest, hadvances, hsame⟩ :=
      ih hup.wellFormed fun id => (hstep id).1
    refine ⟨_, kv', exec_performAll_cons hcall hcalls, hwell, ?_, fun id => ?_, fun id => ?_, ?_⟩
    · rw [List.map_cons, hmap]
    · have := hrest id
      rwa [List.append_assoc, List.singleton_append] at this
    · exact (hstep id).2.trans (hadvances id)
    · intro key hkey
      rw [hsame key fun call' hcall' => hkey call' (List.mem_cons_of_mem _ hcall'),
        hframe key (hkey call List.mem_cons_self)]

/-- **The ballots of an acceptor.** From a store without Paxos keys on, every sequence of calls is
answered, and the ballots behave in each part of it, for every register. -/
theorem ballot_invariant {kv₀ : κ} (hempty : ∀ id, KVStoreLite.get kv₀ (keyFormat id) = none)
    (front back : List Call) :
    ∃ history kv later kv',
      Coro.exec ((localAcceptor codec).performAll front) kv₀ = (.ok history, kv) ∧
      Coro.exec ((localAcceptor codec).performAll back) kv = (.ok later, kv') ∧
      ∀ id, BallotInvariant codec id (history ++ later) kv kv' ∧
        ((∀ call ∈ back, call.paxosInstanceId ≠ id) →
          KVStoreLite.get kv' (keyFormat id) = KVStoreLite.get kv (keyFormat id)) := by
  have hfresh : ∀ id, Records id [] (instanceOf codec kv₀ id) := by
    intro id
    rw [instanceOf_of_empty hempty]
    exact records_freshInstance id
  obtain ⟨history, kv, hfront, hwell, -, hrecords, -, -⟩ :=
    exec_performAll (wellFormed_of_empty hempty) hfresh front
  obtain ⟨later, kv', hback, -, -, hrecords', hadvances, hsame⟩ :=
    exec_performAll hwell hrecords back
  refine ⟨history, kv, later, kv', hfront, hback, fun id => ⟨⟨(hadvances id).promised,
    (hadvances id).accepted, fun b hb => ?_, (hrecords' id).once, ?_⟩, fun hother => ?_⟩⟩
  · exact (hrecords' id).acceptedBallotId_le hb
  · intro before b p hprefix
    have hcarries := (hrecords' id).carries before b p hprefix
    constructor
    · intro proposal hlast
      rw [hcarries, hlast]
      rfl
    · intro hnone
      rw [hcarries, hnone]
      rfl
  · exact hsame _ fun call hcall hkey => hother call hcall (keyFormat_injective hkey).symm

/-- An empty string was accepted at (0, 10), and the promise for (0, 11) tells of it. -/
theorem ballot_invariant_empty_value :
    ∃ (kv kv' : RocksStore PaxosInstance) (p : Promise),
      Coro.exec ((localAcceptor (Codec.identity PaxosInstance)).performAll
        [.accept "id1" { ballotId := ⟨0, 10⟩, value := "" }]) (RocksStore.provideSharedPtr false) =
          (.ok [(.accept "id1" { ballotId := ⟨0, 10⟩, value := "" }, .done true)], kv) ∧
      Coro.exec ((localAcceptor (Codec.identity PaxosInstance)).performAll
        [.prepare "id1" ⟨0, 11⟩]) kv = (.ok [(.prepare "id1" ⟨0, 11⟩, .prepared (.promise p))], kv') ∧
      p = { ballotId := some ⟨0, 10⟩, value := some "" } := by
  obtain ⟨history, kv, later, kv', hfront, hback, hinvariant⟩ :=
    @ballot_invariant (RocksStore PaxosInstance) PaxosInstance _ _ (Codec.identity PaxosInstance)
      (RocksStore.provideSharedPtr false) (fun _ => rfl)
      [.accept "id1" { ballotId := ⟨0, 10⟩, value := "" }] [.prepare "id1" ⟨0, 11⟩]
  cases hfront
  cases hback
  refine ⟨_, _, _, rfl, rfl, ?_⟩
  exact ((hinvariant "id1").1.carries _ ⟨0, 11⟩ _ List.prefix_rfl).1
    { ballotId := ⟨0, 10⟩, value := "" } rfl

end LocalAcceptor

end ReplicatedCounter.Paxos
