import ReplicatedCounter.Lib.Fallible
import ReplicatedCounter.Lib.Transition
import ReplicatedCounter.Paxos.WriteOnceRegister

/-!
# A register some of whose acceptors do not answer

`ProposerImpl` waits 100 ms for the answers to a prepare and counts a missing one as an empty
response, so that a minority of dead acceptors need not be in the way of a lock. How many answers
are enough is the argument `majoritySize` of its constructor, and `makePaxosWor` passes
`replicaConfigs.size()` there. That is not a majority but everybody: `lock()` returns nothing as
soon as one acceptor is silent (`firstWriteSucceeds_iff`).

The calls here are those of `PaxosWriteOnceRegister` with the timeout modelled. As long as all
answer they are the calls of `WriteOnceRegister` (`Same`), and its lemmas apply.
-/

set_option autoImplicit false

namespace ReplicatedCounter.Paxos

/-- What becomes of a call on an acceptor. -/
inductive Responsiveness where
  | answers
  /-- The call is carried out, but its answer comes too late. -/
  | late
  | silent
  deriving DecidableEq, Repr

/-- Why a call of the register has no result: an acceptor threw, or one was waited for that does not
answer. -/
inductive NoResult where
  | threw (e : AcceptorError)
  | noAnswer
  deriving DecidableEq, Repr

/-- A coroutine of the register that may wait for an answer. -/
abbrev TimedM (A κ : Type) := Coro NoResult (PaxosWriteOnceRegister A κ)

namespace Timed

variable {A κ β α γ : Type} [DecidableEq A] [KVStoreLite κ β]

/-- A part of the call in which nobody is waited for. -/
def orThrow (m : RegisterM A κ α) : TimedM A κ α := do
  let s ← getThe (PaxosWriteOnceRegister A κ)
  let (result, s) := Coro.exec m s
  set s
  match result with
  | .ok x => return x
  | .error e => throw (.threw e)

section calls

variable (respond : A → Responsiveness)

/-- `folly::coro::timed_wait` around a call of one acceptor. -/
def askWithin (a : A) (m : AcceptorM κ α) : TimedM A κ (Option α) := do
  match respond a with
  | .answers =>
    let x ← orThrow (call a m)
    return some x
  | .late =>
    modify fun s => { s with stores := Function.update s.stores a (Coro.exec m (s.stores a)).2 }
    return none
  | .silent => return none

/-- A call of one acceptor that is waited for. -/
def ask (a : A) (m : AcceptorM κ α) : TimedM A κ α := do
  match ← askWithin respond a m with
  | some x => return x
  | none => throw .noAnswer

/-- `folly::coro::collectAllRange` over the timed calls. -/
def askEachWithin (m : AcceptorM κ α) : List A → TimedM A κ (List (Option α))
  | [] => return []
  | a :: acceptors => do
    let x ← askWithin respond a m
    let xs ← askEachWithin m acceptors
    return x :: xs

/-- The same call of each of some acceptors, waiting for each. -/
def askEach (m : AcceptorM κ α) : List A → TimedM A κ (List α)
  | [] => return []
  | a :: acceptors => do
    let x ← ask respond a m
    let xs ← askEach m acceptors
    return x :: xs

variable (codec : Codec PaxosInstance β)

/-- `ProposerImpl::prepare`. -/
def prepare (paxosInstanceId : String) (ballotId : BallotId) : TimedM A κ Bool := do
  let s ← getThe (PaxosWriteOnceRegister A κ)
  let p := { s.proposer with proposeAcceptors := [] }
  orThrow (setProposer p)
  let prepares ← askEachWithin respond (LocalAcceptor.prepare codec paxosInstanceId ballotId)
    p.prepareAcceptors
  let (p, result) := p.finishPrepare prepares
  orThrow (setProposer p)
  return result

/-- `ProposerImpl::propose`. -/
def propose (paxosInstanceId : String) (ballotId : BallotId) (value : String) :
    TimedM A κ Bool := do
  let s ← getThe (PaxosWriteOnceRegister A κ)
  let proposal : Proposal := { ballotId, value := s.proposer.proposalValue value }
  let accepts ← askEach respond (LocalAcceptor.accept codec paxosInstanceId proposal)
    s.proposer.proposeAcceptors
  if accepts.count true < s.proposer.majority then
    return false
  let commits ← askEach respond (LocalAcceptor.commit codec paxosInstanceId ballotId)
    s.proposer.proposeAcceptors
  return commits.any id

/-- The loop of `ProposerImpl::getCommittedValue`. -/
def firstCommitted (paxosInstanceId : String) : List A → TimedM A κ (Option String)
  | [] => return none
  | a :: acceptors => do
    match ← ask respond a (LocalAcceptor.getCommittedValue codec paxosInstanceId) with
    | some committedValue => return some committedValue
    | none => firstCommitted paxosInstanceId acceptors

/-- `PaxosWriteOnceRegister::lock`. -/
def lock : TimedM A κ (Option Int) := do
  modify fun s => { s with lockId := s.lockId + 1 }
  let s ← getThe (PaxosWriteOnceRegister A κ)
  let result ← prepare respond codec (instanceId s.majorId) ⟨s.majorId, s.lockId⟩
  if !result then
    return none
  return some s.lockId

/-- `PaxosWriteOnceRegister::write`. -/
def write (lockId : Int) (payload : String) : TimedM A κ Bool := do
  let s ← getThe (PaxosWriteOnceRegister A κ)
  propose respond codec (instanceId s.majorId) ⟨s.majorId, lockId⟩ payload

/-- `PaxosWriteOnceRegister::read`. -/
def read : TimedM A κ (Except ReadError String) := do
  let s ← getThe (PaxosWriteOnceRegister A κ)
  match ← firstCommitted respond codec (instanceId s.majorId) s.proposer.prepareAcceptors with
  | some committedValue => return .ok committedValue
  | none => return .error .notWritten

/-- **What a register is for**, the first time it is used: `lock()` returns a lock id, `write` with
it and any payload returns `true`, and the `read` after it returns that payload. -/
def FirstWriteSucceeds (s : PaxosWriteOnceRegister A κ) : Prop :=
  ∃ lockId locked, Coro.exec (lock respond codec) s = (.ok (some lockId), locked) ∧
    ∀ payload, ∃ written, Coro.exec (write respond codec lockId payload) locked = (.ok true, written) ∧
      (Coro.exec (read respond codec) written).1 = .ok (.ok payload)

end calls

/-! ## As long as everybody answers -/

/-- From `s` on, `m'` does what `m` does. -/
def Same (m' : TimedM A κ α) (m : RegisterM A κ α) (s : PaxosWriteOnceRegister A κ) : Prop :=
  Coro.exec m' s = ((Coro.exec m s).1.mapError .threw, (Coro.exec m s).2)

variable {respond : A → Responsiveness} {codec : Codec PaxosInstance β}
  {s : PaxosWriteOnceRegister A κ} {acceptors : List A}

omit [DecidableEq A] in
theorem same_orThrow (m : RegisterM A κ α) (s : PaxosWriteOnceRegister A κ) :
    Same (orThrow m) m s := by
  unfold Same orThrow
  rw [Coro.exec_bind_ok (Coro.exec_getThe _)]
  rcases Coro.exec m s with ⟨result, s'⟩
  cases result with
  | ok x => rfl
  | error e => rfl

omit [DecidableEq A] in
theorem same_pure (x : α) (s : PaxosWriteOnceRegister A κ) : Same (pure x) (pure x) s := rfl

omit [DecidableEq A] in
theorem Same.bind {m' : TimedM A κ α} {m : RegisterM A κ α} {f' : α → TimedM A κ γ}
    {f : α → RegisterM A κ γ} (hm : Same m' m s)
    (hf : ∀ x s', Coro.exec m s = (.ok x, s') → Same (f' x) (f x) s') :
    Same (m' >>= f') (m >>= f) s := by
  unfold Same at *
  rw [Coro.exec_bind, Coro.exec_bind, hm]
  rcases hexec : Coro.exec m s with ⟨result, s'⟩
  cases result with
  | ok x => exact hf x s' hexec
  | error e => rfl

omit [DecidableEq A] in
theorem same_getThe {f' : PaxosWriteOnceRegister A κ → TimedM A κ γ}
    {f : PaxosWriteOnceRegister A κ → RegisterM A κ γ} (h : Same (f' s) (f s) s) :
    Same (getThe (PaxosWriteOnceRegister A κ) >>= f') (getThe (PaxosWriteOnceRegister A κ) >>= f) s :=
  h

omit [DecidableEq A] in
theorem same_modify {g : PaxosWriteOnceRegister A κ → PaxosWriteOnceRegister A κ}
    {f' : PUnit → TimedM A κ γ} {f : PUnit → RegisterM A κ γ} (h : Same (f' ⟨⟩) (f ⟨⟩) (g s)) :
    Same (modify g >>= f') (modify g >>= f) s := h

theorem same_askWithin {a : A} (ha : respond a = .answers) (m : AcceptorM κ α)
    (s : PaxosWriteOnceRegister A κ) :
    Same (askWithin respond a m) (do let x ← call a m; return some x) s := by
  unfold askWithin
  rw [ha]
  apply (same_orThrow _ s).bind
  intro x s' _
  exact same_pure _ s'

theorem same_ask {a : A} (ha : respond a = .answers) (m : AcceptorM κ α)
    (s : PaxosWriteOnceRegister A κ) : Same (ask respond a m) (call a m) s := by
  have hwithin := same_askWithin ha m s
  unfold Same ask at *
  rw [Coro.exec_bind, hwithin, Coro.exec_bind]
  rcases Coro.exec (call a m) s with ⟨result, s'⟩
  cases result with
  | ok x => rfl
  | error e => rfl

theorem same_askEach (h : ∀ a ∈ acceptors, respond a = .answers) (m : AcceptorM κ α)
    (s : PaxosWriteOnceRegister A κ) :
    Same (askEach respond m acceptors) (callEach m acceptors) s := by
  induction acceptors generalizing s with
  | nil => exact same_pure _ s
  | cons a acceptors ih =>
    unfold askEach callEach
    apply (same_ask (h a List.mem_cons_self) m s).bind
    intro x s' _
    apply (ih (fun a' ha' => h a' (List.mem_cons_of_mem a ha')) s').bind
    intro xs s'' _
    exact same_pure _ s''

/-- Nobody's answer is missing. -/
theorem exec_askEachWithin (h : ∀ a ∈ acceptors, respond a = .answers) (m : AcceptorM κ α)
    (s : PaxosWriteOnceRegister A κ) :
    Coro.exec (askEachWithin respond m acceptors) s =
      ((Coro.exec (callEach m acceptors) s).1.mapError .threw |>.map (·.map some),
        (Coro.exec (callEach m acceptors) s).2) := by
  induction acceptors generalizing s with
  | nil => rfl
  | cons a acceptors ih =>
    have hhead := same_askWithin (h a List.mem_cons_self) m s
    have htail := ih fun a' ha' => h a' (List.mem_cons_of_mem a ha')
    unfold Same at hhead
    unfold askEachWithin callEach
    rw [Coro.exec_bind, hhead, Coro.exec_bind, Coro.exec_bind]
    rcases Coro.exec (call a m) s with ⟨result, s'⟩
    cases result with
    | error e => rfl
    | ok x =>
      simp only [Coro.exec_pure, Except.mapError]
      rw [Coro.exec_bind, htail, Coro.exec_bind]
      rcases Coro.exec (callEach m acceptors) s' with ⟨rest, s''⟩
      cases rest with
      | error e => rfl
      | ok xs => rfl

theorem same_prepare (h : ∀ a ∈ s.proposer.prepareAcceptors, respond a = .answers) (id : String)
    (b : BallotId) : Same (prepare respond codec id b) (ProposerImpl.prepare codec id b) s := by
  unfold Same prepare ProposerImpl.prepare
  rw [Coro.exec_bind_ok (Coro.exec_getThe _), Coro.exec_bind_ok (Coro.exec_getThe _)]
  dsimp only
  have hset : Coro.exec (setProposer { s.proposer with proposeAcceptors := [] } :
      RegisterM A κ Unit) s =
        (.ok (), { s with proposer := { s.proposer with proposeAcceptors := [] } }) := rfl
  have hthrow := same_orThrow (setProposer { s.proposer with proposeAcceptors := [] }) s
  unfold Same at hthrow
  rw [hset] at hthrow
  rw [Coro.exec_bind_ok hthrow, Coro.exec_bind_ok hset, Coro.exec_bind, exec_askEachWithin h,
    Coro.exec_bind]
  rcases Coro.exec (callEach (LocalAcceptor.prepare codec id b) s.proposer.prepareAcceptors)
    { s with proposer := { s.proposer with proposeAcceptors := [] } } with ⟨result, s'⟩
  cases result with
  | error e => rfl
  | ok prepares => rfl

theorem same_lock (h : ∀ a ∈ s.proposer.prepareAcceptors, respond a = .answers) :
    Same (lock respond codec) (PaxosWriteOnceRegister.lock codec) s := by
  unfold lock PaxosWriteOnceRegister.lock
  apply same_modify
  apply same_getThe
  apply (same_prepare (s := { s with lockId := s.lockId + 1 }) h _ _).bind
  intro result s' _
  cases result with
  | false => exact same_pure _ s'
  | true => exact same_pure _ s'

theorem same_write (h : ∀ a ∈ s.proposer.proposeAcceptors, respond a = .answers) (lockId : Int)
    (payload : String) :
    Same (write respond codec lockId payload)
      (PaxosWriteOnceRegister.write codec lockId payload) s := by
  unfold write PaxosWriteOnceRegister.write propose ProposerImpl.propose
  apply same_getThe
  apply same_getThe
  apply (same_askEach h _ _).bind
  intro accepts s' _
  split
  · exact same_pure _ s'
  · apply (same_askEach h _ _).bind
    intro commits s'' _
    exact same_pure _ s''

theorem same_firstCommitted (h : ∀ a ∈ acceptors, respond a = .answers) (id : String)
    (s : PaxosWriteOnceRegister A κ) :
    Same (firstCommitted respond codec id acceptors)
      (ProposerImpl.firstCommitted codec id acceptors) s := by
  induction acceptors generalizing s with
  | nil => exact same_pure _ s
  | cons a acceptors ih =>
    unfold firstCommitted ProposerImpl.firstCommitted
    apply (same_ask (h a List.mem_cons_self) _ s).bind
    intro value s' _
    cases value with
    | some v => exact same_pure _ s'
    | none => exact ih (fun a' ha' => h a' (List.mem_cons_of_mem a ha')) s'

theorem same_read (h : ∀ a ∈ s.proposer.prepareAcceptors, respond a = .answers) :
    Same (read respond codec) (PaxosWriteOnceRegister.read codec) s := by
  unfold read PaxosWriteOnceRegister.read
  apply same_getThe
  apply (same_firstCommitted h _ _).bind
  intro value s' _
  cases value with
  | some v => exact same_pure _ s'
  | none => exact same_pure _ s'

/-! ## As soon as one does not -/

omit [DecidableEq A] in
/-- Everybody has to promise for there to be as many promises as acceptors. -/
theorem promised_of_length_le {prepares : List (Option PrepareResponse)}
    (hlen : prepares.length = acceptors.length)
    (hle : acceptors.length ≤ (promisesOf acceptors prepares).length) :
    ∀ response ∈ prepares, ∃ promise, response = some (.promise promise) := by
  induction acceptors generalizing prepares with
  | nil =>
    rw [List.length_nil, List.length_eq_zero_iff] at hlen
    rw [hlen]
    intro response hresponse
    cases hresponse
  | cons a acceptors ih =>
    obtain ⟨first, prepares, rfl⟩ := List.exists_cons_of_length_eq_add_one hlen
    have hrest : (promisesOf acceptors prepares).length ≤ acceptors.length := by
      apply (List.length_filterMap_le _ _).trans
      rw [List.length_zip]
      exact Nat.min_le_left _ _
    have hgap : promisesOf (a :: acceptors) (first :: prepares) = promisesOf acceptors prepares →
        False := by
      intro hskip
      rw [hskip, List.length_cons] at hle
      omega
    cases first with
    | none => exact (hgap rfl).elim
    | some answer =>
      cases answer with
      | rejected => exact (hgap rfl).elim
      | promise promise =>
        have hcount : promisesOf (a :: acceptors) (some (.promise promise) :: prepares) =
            (a, promise) :: promisesOf acceptors prepares := rfl
        rw [hcount, List.length_cons, List.length_cons] at hle
        intro response hresponse
        rcases List.mem_cons.mp hresponse with rfl | hresponse
        · exact ⟨promise, rfl⟩
        · exact ih (Nat.succ.inj hlen) (Nat.le_of_succ_le_succ hle) response hresponse

/-- The answers come in the order of the acceptors, and those that do not answer leave a gap. -/
theorem answered_of_askEachWithin {m : AcceptorM κ α} {xs : List (Option α)}
    {s' : PaxosWriteOnceRegister A κ}
    (h : Coro.exec (askEachWithin respond m acceptors) s = (.ok xs, s')) :
    List.Forall₂ (fun a x => x ≠ none → respond a = .answers) acceptors xs := by
  induction acceptors generalizing s xs with
  | nil =>
    cases h
    exact .nil
  | cons a acceptors ih =>
    unfold askEachWithin at h
    rw [Coro.exec_bind] at h
    rcases hhead : Coro.exec (askWithin respond a m) s with ⟨result, t⟩
    rw [hhead] at h
    cases result with
    | error e => cases h
    | ok x =>
      dsimp only at h
      rw [Coro.exec_bind] at h
      rcases htail : Coro.exec (askEachWithin respond m acceptors) t with ⟨result, t'⟩
      rw [htail] at h
      cases result with
      | error e => cases h
      | ok rest =>
        cases h
        apply List.Forall₂.cons
        · intro hx
          unfold askWithin at hhead
          cases hrespond : respond a with
          | answers => rfl
          | late =>
            rw [hrespond] at hhead
            cases hhead
            exact absurd rfl hx
          | silent =>
            rw [hrespond] at hhead
            cases hhead
            exact absurd rfl hx
        · exact ih htail

/-- What `prepare` makes of the answers. -/
theorem prepare_of_askEachWithin {id : String} {b : BallotId} {t : PaxosWriteOnceRegister A κ}
    (h : Coro.exec (prepare respond codec id b) s = (.ok true, t)) :
    ∃ prepares t', Coro.exec (askEachWithin respond (LocalAcceptor.prepare codec id b)
        s.proposer.prepareAcceptors) { s with proposer := { s.proposer with proposeAcceptors := [] } } =
          (.ok prepares, t') ∧
      (ProposerImpl.finishPrepare { s.proposer with proposeAcceptors := [] } prepares).2 = true := by
  have hset : Coro.exec (orThrow (setProposer { s.proposer with proposeAcceptors := [] })) s =
      (.ok (), { s with proposer := { s.proposer with proposeAcceptors := [] } }) := rfl
  unfold prepare at h
  rw [Coro.exec_bind_ok (Coro.exec_getThe _)] at h
  dsimp only at h
  rw [Coro.exec_bind_ok hset, Coro.exec_bind] at h
  rcases hask : Coro.exec (askEachWithin respond (LocalAcceptor.prepare codec id b)
    s.proposer.prepareAcceptors) { s with proposer := { s.proposer with proposeAcceptors := [] } }
    with ⟨result, t'⟩
  rw [hask] at h
  cases result with
  | error e => cases h
  | ok prepares =>
    exact ⟨prepares, t', rfl, Except.ok.inj (Prod.mk.inj h).1⟩

/-- **A lock needs everybody's answer.** -/
theorem answers_of_lock {lockId : Int} {s' : PaxosWriteOnceRegister A κ}
    (hmajority : s.proposer.majority = s.proposer.prepareAcceptors.length)
    (h : Coro.exec (lock respond codec) s = (.ok (some lockId), s')) :
    ∀ a ∈ s.proposer.prepareAcceptors, respond a = .answers := by
  have hprepare : ∃ t, Coro.exec (prepare respond codec (instanceId s.majorId)
      ⟨s.majorId, s.lockId + 1⟩) { s with lockId := s.lockId + 1 } = (.ok true, t) := by
    unfold lock at h
    rw [Coro.exec_bind_ok (show Coro.exec (modify fun s => { s with lockId := s.lockId + 1 } :
        TimedM A κ PUnit) s = (.ok (), { s with lockId := s.lockId + 1 }) from rfl),
      Coro.exec_bind_ok (Coro.exec_getThe _), Coro.exec_bind] at h
    rcases hprepare : Coro.exec (prepare respond codec (instanceId s.majorId)
      ⟨s.majorId, s.lockId + 1⟩) { s with lockId := s.lockId + 1 } with ⟨result, t⟩
    rw [hprepare] at h
    cases result with
    | error e => cases h
    | ok result =>
      cases result with
      | false => cases h
      | true => exact ⟨t, rfl⟩
  obtain ⟨t, hprepare⟩ := hprepare
  obtain ⟨prepares, t', hask, hfinish⟩ := prepare_of_askEachWithin hprepare
  have hanswered := answered_of_askEachWithin hask
  have henough : s.proposer.prepareAcceptors.length ≤
      (promisesOf s.proposer.prepareAcceptors prepares).length := by
    unfold ProposerImpl.finishPrepare at hfinish
    dsimp only at hfinish
    split at hfinish
    · cases hfinish
    · rename_i hfew
      rw [hmajority] at hfew
      exact Nat.le_of_not_lt hfew
  have hpromised := promised_of_length_le hanswered.length_eq.symm henough
  intro a ha
  obtain ⟨response, hmem, hanswer⟩ := Fallible.exists_of_forall₂_left hanswered ha
  apply hanswer
  obtain ⟨promise, hpromise⟩ := hpromised response hmem
  rw [hpromise]
  intro hnone
  cases hnone

/-! ## The first use of a register -/

open LocalAcceptor

variable [LawfulKVStoreLite κ β] {i : PaxosInstance} {registerId : Int} {stores : A → κ}

omit [DecidableEq A] [LawfulKVStoreLite κ β] in
theorem allHold_make (codec : Codec PaxosInstance β)
    (hfresh : ∀ a ∈ acceptors, ∀ id, KVStoreLite.get (stores a) (keyFormat id) = none) :
    AllHold codec (instanceId registerId) stores acceptors
      (freshInstance (instanceId registerId)) := by
  intro a ha
  exact ⟨wellFormed_of_empty (hfresh a ha), instanceOf_of_empty (hfresh a ha) _⟩

/-- `lock()` above the promise, when all answer. -/
theorem exec_lock_answered (hanswer : ∀ a ∈ s.proposer.prepareAcceptors, respond a = .answers)
    (hmajority : s.proposer.majority = s.proposer.prepareAcceptors.length)
    (hne : s.proposer.prepareAcceptors ≠ []) (hnodup : s.proposer.prepareAcceptors.Nodup)
    (hall : AllHold codec (instanceId s.majorId) s.stores s.proposer.prepareAcceptors i)
    (hlt : i.promisedBallotId < ⟨s.majorId, s.lockId + 1⟩) :
    ∃ stores, Coro.exec (lock respond codec) s = (.ok (some (s.lockId + 1)), { s with
          lockId := s.lockId + 1
          proposer := { s.proposer with
            proposeAcceptors := s.proposer.prepareAcceptors, selectedProposal := carried i }
          stores }) ∧
      AllHold codec (instanceId s.majorId) stores s.proposer.prepareAcceptors
        { i with promisedBallotId := ⟨s.majorId, s.lockId + 1⟩ } := by
  obtain ⟨stores, hlock, hhold, -⟩ := exec_lock hmajority hne hnodup hall hlt
  refine ⟨stores, ?_, hhold⟩
  rw [show Coro.exec (lock respond codec) s = _ from same_lock hanswer, hlock]
  rfl

/-- `write` at or above the promise, when all answer. -/
theorem exec_write_answered (hanswer : ∀ a ∈ s.proposer.proposeAcceptors, respond a = .answers)
    (hmajority : s.proposer.majority = s.proposer.proposeAcceptors.length)
    (hne : s.proposer.proposeAcceptors ≠ []) (hnodup : s.proposer.proposeAcceptors.Nodup)
    (hall : AllHold codec (instanceId s.majorId) s.stores s.proposer.proposeAcceptors i)
    {lockId : Int} (hle : i.promisedBallotId ≤ ⟨s.majorId, lockId⟩) (payload : String) :
    ∃ stores, Coro.exec (write respond codec lockId payload) s =
        (.ok !i.committed, { s with stores }) ∧
      AllHold codec (instanceId s.majorId) stores s.proposer.proposeAcceptors { i with
        promisedBallotId := ⟨s.majorId, lockId⟩
        accepted := some {
          ballotId := some ⟨s.majorId, lockId⟩, value := some (s.proposer.proposalValue payload) }
        committed := true } := by
  obtain ⟨stores, hpropose, hhold, -⟩ := exec_propose_accepted payload hmajority hne hnodup hall hle
  refine ⟨stores, ?_, hhold⟩
  rw [show Coro.exec (write respond codec lockId payload) s = _ from
    same_write hanswer lockId payload]
  unfold PaxosWriteOnceRegister.write
  rw [Coro.exec_bind_ok (Coro.exec_getThe _), hpropose]
  rfl

/-- `read` of a committed instance, when all answer. -/
theorem exec_read_answered (hanswer : ∀ a ∈ s.proposer.prepareAcceptors, respond a = .answers)
    (hne : s.proposer.prepareAcceptors ≠ [])
    (hall : AllHold codec (instanceId s.majorId) s.stores s.proposer.prepareAcceptors i)
    {value : String} (hvalue : committedValue i = some value) :
    (Coro.exec (read respond codec) s).1 = .ok (.ok value) := by
  obtain ⟨stores, hcommitted, -⟩ := exec_firstCommitted (List.Subset.refl _)
    (fun hnil => absurd hnil hne) hall
  rw [show Coro.exec (read respond codec) s = _ from same_read hanswer]
  unfold PaxosWriteOnceRegister.read
  rw [Coro.exec_bind_ok (Coro.exec_getThe _), Coro.exec_bind_ok hcommitted, hvalue]
  rfl

/-- Everybody answers, and the register does what it is for. -/
theorem firstWriteSucceeds_of_answers (hid : -1 ≤ registerId) (hne : acceptors ≠ [])
    (hnodup : acceptors.Nodup)
    (hfresh : ∀ a ∈ acceptors, ∀ id, KVStoreLite.get (stores a) (keyFormat id) = none)
    (hall : ∀ a ∈ acceptors, respond a = .answers) :
    FirstWriteSucceeds respond codec (.make registerId acceptors stores) := by
  have habove : (freshInstance (instanceId registerId)).promisedBallotId <
      ⟨registerId, 0 + 1⟩ := by
    show (⟨-1, -1⟩ : BallotId) < ⟨registerId, 0 + 1⟩
    rw [BallotId.lt_def]
    dsimp only
    split <;> omega
  obtain ⟨locked, hlock, hpromised⟩ := exec_lock_answered
    (s := .make registerId acceptors stores) hall rfl hne hnodup (allHold_make codec hfresh) habove
  refine ⟨_, _, hlock, ?_⟩
  intro payload
  -- nobody had accepted anything, so the payload is what gets proposed
  obtain ⟨written, hwrite, haccepted⟩ :=
    exec_write_answered (s := { PaxosWriteOnceRegister.make registerId acceptors stores with
      lockId := 0 + 1
      proposer := {
        majority := acceptors.length, prepareAcceptors := acceptors, proposeAcceptors := acceptors }
      stores := locked }) hall rfl hne hnodup hpromised le_rfl payload
  refine ⟨_, hwrite, ?_⟩
  exact exec_read_answered hall hne haccepted rfl

/-- **The first lock, write and read of a register succeed exactly if every acceptor answers**, for
an id that is not below the one of a fresh promise. -/
theorem firstWriteSucceeds_iff (respond : A → Responsiveness) (codec : Codec PaxosInstance β)
    (registerId : Int) (hne : acceptors ≠ []) (hnodup : acceptors.Nodup)
    (hfresh : ∀ a ∈ acceptors, ∀ id, KVStoreLite.get (stores a) (keyFormat id) = none) :
    FirstWriteSucceeds respond codec (.make registerId acceptors stores) ↔
      -1 ≤ registerId ∧ ∀ a ∈ acceptors, respond a = .answers := by
  constructor
  · intro hsucceeds
    obtain ⟨lockId, locked, hlock, -⟩ := hsucceeds
    have hall := answers_of_lock (s := .make registerId acceptors stores) rfl hlock
    refine ⟨?_, hall⟩
    by_contra hbelow
    have hle : (⟨registerId, 0 + 1⟩ : BallotId) ≤
        (freshInstance (instanceId registerId)).promisedBallotId := by
      show (⟨registerId, 0 + 1⟩ : BallotId) ≤ ⟨-1, -1⟩
      rw [BallotId.le_def]
      dsimp only
      split <;> omega
    have hsame : Coro.exec (lock respond codec) (.make registerId acceptors stores) = _ :=
      same_lock hall
    obtain ⟨_, hnothing, -⟩ := exec_lock_refused (s := .make registerId acceptors stores)
      (List.length_pos_iff.mpr hne) hnodup (allHold_make codec hfresh) hle
    rw [hlock, hnothing] at hsame
    exact absurd (Prod.mk.inj hsame).1 (by simp [Except.mapError])
  · intro hcond
    exact firstWriteSucceeds_of_answers hcond.1 hne hnodup hfresh hcond.2

/-- Three acceptors that answer. -/
theorem firstWriteSucceeds_three :
    FirstWriteSucceeds (fun _ => .answers) (Codec.identity PaxosInstance)
      (.make 7 ([0, 1, 2] : List (Fin 3)) fun _ => RocksStore.provideSharedPtr true) :=
  (firstWriteSucceeds_iff (fun _ => .answers) (Codec.identity PaxosInstance) 7 (by decide)
    (by decide) fun _ _ _ => rfl).mpr ⟨by decide, fun _ _ => rfl⟩

/-- Two of three acceptors are a majority, and `lock()` returns nothing. -/
theorem lock_fails_with_silent_minority :
    let respond : Fin 3 → Responsiveness := fun a => if a = 2 then .silent else .answers
    let register : PaxosWriteOnceRegister (Fin 3) (RocksStore PaxosInstance) :=
      .make 7 [0, 1, 2] fun _ => RocksStore.provideSharedPtr true
    3 / 2 + 1 ≤ ([0, 1, 2] : List (Fin 3)).countP (respond · = .answers) ∧
      (Coro.exec (lock respond (Codec.identity PaxosInstance)) register).1 = .ok none ∧
      ¬ FirstWriteSucceeds respond (Codec.identity PaxosInstance) register := by
  intro respond register
  have hlock : (Coro.exec (lock respond (Codec.identity PaxosInstance)) register).1 = .ok none := by
    decide +kernel
  refine ⟨by decide, hlock, ?_⟩
  intro hsucceeds
  obtain ⟨lockId, locked, hlocked, -⟩ := hsucceeds
  rw [hlocked] at hlock
  cases hlock

end Timed

end ReplicatedCounter.Paxos
