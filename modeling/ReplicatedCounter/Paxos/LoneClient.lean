import ReplicatedCounter.Paxos.TrueWrites

/-!
# A client that is left alone

`Agreement.lean` says that nobody ever reads two values. It does not say that anybody ever writes
one: two clients may raise each other's ballots for ever, and `lock()` gives up whenever a single
acceptor has promised more. What the register does guarantee is progress without contention. **From
any state that any interleaving can lead to, a client whose prepares are answered and that is not
disturbed gets its lock after finitely many calls, writes, and reads back a decided value.** How
often it has to call is what the others have drawn: every `lock()` draws one lock id, so it takes
one more than the number of ids it is behind.

The value it reads need not be its own. It is what was decided, if anything was; in any case
somebody has written it. And `write()` says `true` unless all acceptors had committed the register
before, so a client that adopts another's value is told `true` as well.

`lock()` cannot get past a promise with a larger *major* id, whatever it draws. `OwnBallots` says
that there is none: only ballots of the register itself are ever sent to its instance.
-/

set_option autoImplicit false

namespace ReplicatedCounter.Paxos

variable {A ι κ β : Type} [DecidableEq A] [DecidableEq ι] [KVStoreLite κ β]

namespace World

open LocalAcceptor

section statement

variable (codec : Codec PaxosInstance β)

/-- What an acceptor holds for a register. -/
def held (reg : Int) (w : World A ι κ) (a : A) : PaxosInstance :=
  instanceOf codec (w.acceptors a) (instanceId reg)

/-- What the call that ends with an event returns. -/
def output (w : World A ι κ) (e : Event A ι) : Option Output := (w.step codec e).bind (·.2)

/-- The events lead to `w'`, and the calls that end with them return `outs`. -/
structure Plays (w : World A ι κ) (es : List (Event A ι)) (w' : World A ι κ)
    (outs : List Output) : Prop where
  run : Transition.run (World.next codec) w es = some w'
  outs : Transition.observed (World.next codec) (World.output codec) w es = outs

end statement

/-- One call of `lock()` on an object over `n` acceptors; all of them answer. -/
def lockCall (o : ι) (n : Nat) : List (Event A ι) :=
  .lock o :: ((List.range' 0 n).map (fun k => .prepare o k false) ++ [.lockDone o])

/-- One call of `write()` with the promises of `n` acceptors. -/
def writeCall (o : ι) (n : Nat) (lockId : Int) (payload : String) : List (Event A ι) :=
  .write o lockId payload :: (List.replicate n (.accept o) ++
    .acceptDone o :: (List.replicate n (.commit o) ++ [.commitDone o]))

/-- One call of `read()` that the first acceptor answers. -/
def readCall (o : ι) : List (Event A ι) := [.read o, .readNext o]

variable {codec : Codec PaxosInstance β} {reg : Int} {S : List A} {w w' w'' : World A ι κ}
  {r r' : RegisterObject A} {e : Event A ι} {es es' : List (Event A ι)} {out : Option Output}
  {outs outs' : List Output} {o : ι} {a : A} {b : BallotId} {i : PaxosInstance} {kv : κ}

/-! ## Playing events -/

theorem Plays.nil : Plays codec w [] w [] := ⟨rfl, rfl⟩

theorem Plays.cons (hs : w.step codec e = some (w', out)) (h : Plays codec w' es w'' outs) :
    Plays codec w (e :: es) w'' (out.toList ++ outs) := by
  have hnext : w.next codec e = some w' := by
    unfold World.next
    rw [hs]
    rfl
  refine ⟨Transition.run_cons_eq_some.mpr ⟨w', hnext, h.run⟩, ?_⟩
  have hout : World.output codec w e = out := by
    unfold World.output
    rw [hs]
    rfl
  rw [Transition.observed, hnext, hout, Option.elim_some, h.outs]

theorem Plays.append (h : Plays codec w es w' outs) (h' : Plays codec w' es' w'' outs') :
    Plays codec w (es ++ es') w'' (outs ++ outs') := by
  refine ⟨Transition.run_append_eq_some.mpr ⟨w', h.run, h'.run⟩, ?_⟩
  obtain ⟨hrun, rfl⟩ := h
  obtain ⟨-, rfl⟩ := h'
  induction es generalizing w with
  | nil =>
    obtain rfl := Option.some.inj hrun
    rfl
  | cons e es ih =>
    obtain ⟨t, ht, hrest⟩ := Transition.run_cons_eq_some.mp hrun
    rw [List.cons_append, Transition.observed, Transition.observed, ht, Option.elim_some,
      Option.elim_some, ih hrest, List.append_assoc]

/-! ## Whose ballots an acceptor has seen -/

/-- The ballots an instance of `reg` may have promised: the initial one, or one of its own. -/
def OwnBallot (reg : Int) (b : BallotId) : Prop := b = ⟨-1, -1⟩ ∨ b.majorId = reg

/-- What is proposed is a ballot of the object's register. -/
def ProposesOwn (r : RegisterObject A) : Prop :=
  ∀ p remaining n, r.phase = .accepting p remaining n → p.ballotId.majorId = r.majorId

/-- No ballot of one register gets to another. -/
structure OwnBallots (codec : Codec PaxosInstance β) (w : World A ι κ) : Prop where
  wellFormed : w.WellFormed codec
  promised : ∀ reg a, OwnBallot reg (held codec reg w a).promisedBallotId
  late : ∀ a id b, (a, id, b) ∈ w.late → id = instanceId b.majorId
  accepting : ∀ o r, w.registers o = some r → ProposesOwn r

omit [DecidableEq ι] in
theorem held_setStore {id : String} (hu : Updates codec (w.acceptors a) kv id i) (reg : Int)
    (a' : A) : held codec reg (w.setStore a kv) a' =
      if a' = a ∧ instanceId reg = id then i else held codec reg w a' := by
  unfold held setStore
  dsimp only
  by_cases ha : a' = a
  · subst ha
    rw [Function.update_self]
    by_cases hid : instanceId reg = id
    · rw [if_pos ⟨rfl, hid⟩, hid, hu.same]
    · rw [if_neg fun h => hid h.2, hu.other _ hid]
  · rw [if_neg fun h => ha h.1, Function.update_of_ne ha]

omit [DecidableEq ι] in
/-- An acceptor's instance changes to one with a ballot of its register. -/
theorem OwnBallots.setStore (h : OwnBallots codec w) {id : String}
    (hu : Updates codec (w.acceptors a) kv id i)
    (hi : ∀ reg, instanceId reg = id → OwnBallot reg i.promisedBallotId) :
    OwnBallots codec (w.setStore a kv) where
  wellFormed := wellFormed_setStore h.wellFormed hu
  promised reg a' := by
    rw [held_setStore hu]
    split
    · rename_i heq
      exact hi reg heq.2
    · exact h.promised reg a'
  late := h.late
  accepting := h.accepting

omit [DecidableEq A] [DecidableEq ι] in
theorem proposesOwn_of_moves {trace : List (Observation A)} {x : Option (RegisterObject A)}
    (hx : ∀ r, x = some r → ProposesOwn r) (h : Moves trace x e r' out) : ProposesOwn r' := by
  intro p remaining n hphase
  cases h with
  | make worId acceptors => cases hphase
  | lock hl =>
    obtain ⟨-, rfl⟩ := RegisterObject.lock_cases hl
    cases hphase
  | @answer r _ k response _ =>
    unfold RegisterObject.answer at hphase ⊢
    split at hphase
    · cases hphase
    · rename_i hne
      exact hx r rfl p remaining n hphase
  | threw _ _ => cases hphase
  | lockDone hl =>
    obtain ⟨_, -, ⟨-, -, rfl⟩ | ⟨-, -, rfl⟩⟩ := RegisterObject.lockDone_cases hl <;> cases hphase
  | write hw =>
    obtain ⟨-, -, rfl⟩ := RegisterObject.write_cases hw
    cases hphase
    rfl
  | @accept r _ p' a remaining' n' m hph =>
    cases hphase
    exact hx r rfl p _ _ hph
  | @acceptDone r _ _ result hd =>
    obtain ⟨_, _, -, ⟨-, -, rfl⟩ | ⟨-, -, rfl⟩⟩ := RegisterObject.acceptDone_cases hd <;>
      cases hphase
  | commit _ _ => cases hphase
  | commitDone hd =>
    obtain ⟨_, -, rfl⟩ := RegisterObject.commitDone_cases hd
    cases hphase
  | read hd =>
    obtain ⟨-, rfl⟩ := RegisterObject.read_cases hd
    cases hphase
  | readValue _ => cases hphase
  | readNext _ => cases hphase
  | readDone hd =>
    obtain ⟨-, rfl⟩ := RegisterObject.readDone_cases hd
    cases hphase

omit [DecidableEq A] [DecidableEq ι] in
/-- The same stores; the objects are known to propose their own ballots. -/
theorem OwnBallots.of_stores (h : OwnBallots codec w) (hacceptors : w'.acceptors = w.acceptors)
    (hlate : ∀ x ∈ w'.late, x ∈ w.late)
    (hown : ∀ o r, w'.registers o = some r → ProposesOwn r) : OwnBallots codec w' where
  wellFormed a := hacceptors ▸ h.wellFormed a
  promised reg a := by
    unfold held
    rw [hacceptors]
    exact h.promised reg a
  late a id b hmem := h.late a id b (hlate _ hmem)
  accepting := hown

/-! ## What the calls do to an instance -/

/-- What an acceptor that holds `i` answers to a prepare. -/
def prepareAnswer (b : BallotId) (i : PaxosInstance) : PrepareResponse :=
  if b ≤ i.promisedBallotId then .rejected
  else .promise (i.accepted.getD { ballotId := some b })

/-- The instance after it. -/
def prepared (b : BallotId) (i : PaxosInstance) : PaxosInstance :=
  if b ≤ i.promisedBallotId then i else { i with promisedBallotId := b }

theorem prepared_promised (b : BallotId) (i : PaxosInstance) :
    (prepared b i).promisedBallotId = max b i.promisedBallotId := by
  unfold prepared
  split
  · rename_i hle
    exact (max_eq_right hle).symm
  · rename_i hlt
    exact (max_eq_left (not_le.mp hlt).le).symm

theorem prepared_committed (b : BallotId) (i : PaxosInstance) :
    (prepared b i).committed = i.committed := by
  unfold prepared
  split <;> rfl

variable [LawfulKVStoreLite κ β]

theorem prepare_exec (h : LocalAcceptor.WellFormed codec kv) (id : String) (b : BallotId) :
    ∃ kv', Coro.exec (prepare codec id b) kv = (.ok (prepareAnswer b (instanceOf codec kv id)), kv') ∧
      Updates codec kv kv' id (prepared b (instanceOf codec kv id)) := by
  unfold prepareAnswer prepared
  obtain ⟨response, kv', hexec, ⟨hle, rfl, hu⟩ | ⟨hlt, rfl, hu⟩⟩ := prepare_spec h id b
  · rw [if_pos hle, if_pos hle]
    exact ⟨kv', hexec, hu⟩
  · rw [if_neg (not_le.mpr hlt), if_neg (not_le.mpr hlt)]
    exact ⟨kv', hexec, hu⟩

omit [DecidableEq ι] in
/-- A prepare with a ballot of the register keeps its instance to its own ballots. -/
theorem OwnBallots.prepare (h : OwnBallots codec w) (a : A) {id : String}
    (hid : id = instanceId b.majorId) :
    ∃ kv, Coro.exec (LocalAcceptor.prepare codec id b) (w.acceptors a) =
        (.ok (prepareAnswer b (instanceOf codec (w.acceptors a) id)), kv) ∧
      OwnBallots codec (w.setStore a kv) := by
  obtain ⟨kv, hexec, hu⟩ := prepare_exec (h.wellFormed a) id b
  refine ⟨kv, hexec, h.setStore hu fun reg hreg => ?_⟩
  rw [prepared_promised]
  have hold : OwnBallot reg (instanceOf codec (w.acceptors a) id).promisedBallotId :=
    hreg ▸ h.promised reg a
  rcases max_choice b (instanceOf codec (w.acceptors a) id).promisedBallotId with heq | heq
  · rw [heq]
    exact .inr (instanceId_injective (hid.symm.trans hreg.symm))
  · rw [heq]
    exact hold

omit [LawfulKVStoreLite κ β] [DecidableEq ι] in
/-- A call that leaves the promise alone. -/
theorem OwnBallots.setStore_same (h : OwnBallots codec w) {id : String}
    (hu : Updates codec (w.acceptors a) kv id i)
    (hi : i.promisedBallotId = (instanceOf codec (w.acceptors a) id).promisedBallotId) :
    OwnBallots codec (w.setStore a kv) := by
  refine h.setStore hu fun reg hreg => ?_
  rw [hi, ← hreg]
  exact h.promised reg a

omit [DecidableEq ι] in
/-- An accept with a ballot of the register does so as well. -/
theorem OwnBallots.accept (h : OwnBallots codec w) (a : A) {id : String} {p : Proposal}
    (hid : id = instanceId p.ballotId.majorId) :
    ∃ result kv, Coro.exec (LocalAcceptor.accept codec id p) (w.acceptors a) = (.ok result, kv) ∧
      OwnBallots codec (w.setStore a kv) := by
  obtain ⟨result, kv, hexec, ⟨-, rfl, hu⟩ | ⟨-, rfl, hu⟩⟩ := accept_spec (h.wellFormed a) id p
  · exact ⟨_, kv, hexec, h.setStore_same hu rfl⟩
  · refine ⟨_, kv, hexec, h.setStore hu fun reg hreg => .inr ?_⟩
    exact instanceId_injective (hid.symm.trans hreg.symm)

omit [DecidableEq ι] in
theorem OwnBallots.commit (h : OwnBallots codec w) (a : A) (id : String) (b : BallotId) :
    ∃ result kv, Coro.exec (LocalAcceptor.commit codec id b) (w.acceptors a) = (.ok result, kv) ∧
      OwnBallots codec (w.setStore a kv) := by
  obtain ⟨kv, hexec, hu⟩ := commit_spec (h.wellFormed a) id b
  exact ⟨_, kv, hexec, h.setStore_same hu rfl⟩

omit [DecidableEq ι] in
theorem OwnBallots.getCommittedValue (h : OwnBallots codec w) (a : A) (id : String) :
    ∃ result kv,
      Coro.exec (LocalAcceptor.getCommittedValue codec id) (w.acceptors a) = (.ok result, kv) ∧
        OwnBallots codec (w.setStore a kv) := by
  obtain ⟨kv, hexec, hu⟩ := getCommittedValue_spec (h.wellFormed a) id
  exact ⟨_, kv, hexec, h.setStore_same hu rfl⟩

omit [LawfulKVStoreLite κ β] in
/-- The objects go on proposing their own ballots. -/
theorem OwnBallots.accepting_step (h : OwnBallots codec w)
    (hs : w.step codec e = some (w', out)) (o : ι) (r : RegisterObject A)
    (hr : w'.registers o = some r) : ProposesOwn r := by
  have hmoves := (step_moves hs).2
  split at hmoves
  · exact h.accepting o r (hmoves.1 ▸ hr)
  · rename_i owner _
    obtain ⟨r₁, hregisters, hmove⟩ := hmoves
    rw [hregisters] at hr
    rcases Parties.eq_some_of_update hr with ⟨rfl, rfl⟩ | ⟨-, hold⟩
    · exact proposesOwn_of_moves (h.accepting o) hmove
    · exact h.accepting o r hold

theorem OwnBallots.step (h : OwnBallots codec w) (hs : w.step codec e = some (w', out)) :
    OwnBallots codec w' := by
  have hown := h.accepting_step hs
  -- the world that an acceptor's answer leaves is one with a new store
  have hafter : ∀ {α : Type} {a : A} {m : AcceptorM κ α} {x : Except AcceptorError α} {y : α}
      {w₁ : World A ι κ} {kv : κ}, w.call a m = (x, w₁) →
      Coro.exec m (w.acceptors a) = (.ok y, kv) → w₁ = w.setStore a kv := by
    intro α a m x y w₁ kv hcall hexec
    exact (Prod.mk.inj (hcall.symm.trans (call_eq hexec))).2
  cases step_spec hs with
  | make o worId acceptors => exact h.of_stores rfl (fun _ => id) hown
  | object _ _ _ _ => exact h.of_stores rfl (fun _ => id) hown
  | write o _ _ => exact h.of_stores rfl (fun _ => id) hown
  | @prepare o k timedOut r a _ _ hr hout hcall =>
    obtain ⟨kv, hexec, hset⟩ := h.prepare a (b := r.ballot r.lockId)
      (rfl : instanceId r.majorId = _)
    obtain rfl := hafter hcall hexec
    exact hset.of_stores rfl (fun _ => id) hown
  | prepareTimeout o k hr hout =>
    refine ⟨h.wellFormed, h.promised, fun a' id b hmem => ?_, hown⟩
    rcases List.mem_cons.mp hmem with heq | hold
    · simp only [Prod.mk.injEq] at heq
      obtain ⟨-, rfl, rfl⟩ := heq
      rfl
    · exact h.late a' id b hold
  | latePrepare a id ballot hlate =>
    obtain ⟨kv, hexec, hset⟩ := h.prepare a (h.late a id ballot hlate)
    have hcall : World.call { w with late := w.late.erase (a, id, ballot) } a
        (LocalAcceptor.prepare codec id ballot) = (.ok _, _) := call_eq hexec
    rw [hcall] at hown ⊢
    exact hset.of_stores rfl (fun _ => List.mem_of_mem_erase) hown
  | @accept o r p a remaining n result _ hr hphase hcall =>
    have hid : instanceId r.majorId = instanceId p.ballotId.majorId :=
      congrArg instanceId (h.accepting o r hr p _ n hphase).symm
    obtain ⟨_, kv, hexec, hset⟩ := h.accept a hid
    obtain rfl := hafter hcall hexec
    cases result with
    | true | false => exact hset.of_stores rfl (fun _ => id) hown
  | @commit o r b a _ _ _ _ hr hphase hcall =>
    obtain ⟨_, kv, hexec, hset⟩ := h.commit a (instanceId r.majorId) b
    obtain rfl := hafter hcall hexec
    exact hset.of_stores rfl (fun _ => id) hown
  | @readValue o r a _ _ _ hr hphase hcall | @readNext o r a _ _ hr hphase hcall =>
    obtain ⟨_, kv, hexec, hset⟩ := h.getCommittedValue a (instanceId r.majorId)
    obtain rfl := hafter hcall hexec
    exact hset.of_stores rfl (fun _ => id) hown
  | threw _ hasks hcall =>
    obtain ⟨result, hok⟩ := asks_ok h.wellFormed hasks
    cases hok.symm.trans (congrArg Prod.fst hcall)
  | answered a id hcall =>
    obtain ⟨_, kv, hexec, hset⟩ := h.getCommittedValue a id
    obtain rfl := hafter hcall hexec
    exact hset.of_stores rfl (fun _ hx => hx) hown
  | unanswered a id _ hcall =>
    obtain ⟨_, kv, hexec, hset⟩ := h.getCommittedValue a id
    obtain rfl := hafter hcall hexec
    exact hset.of_stores rfl (fun _ hx => hx) hown

theorem run_ownBallots {w₀ : World A ι κ} (h₀ : w₀.Initial)
    (hrun : Transition.run (World.next codec) w₀ es = some w) : OwnBallots codec w := by
  refine Transition.run_invariant (P := OwnBallots codec) ?_ hrun ?_
  · intro w e w' h hs
    obtain ⟨⟨w'', out⟩, hstep, rfl⟩ := Option.map_eq_some_iff.mp hs
    exact h.step hstep
  · refine ⟨fun a => wellFormed_of_empty (h₀.stores a), fun reg a => .inl ?_, fun a id b hmem => ?_,
      fun o r hr => ?_⟩
    · unfold held
      rw [instanceOf_of_empty (h₀.stores a)]
      rfl
    · rw [h₀.late] at hmem
      cases hmem
    · rw [h₀.registers] at hr
      cases hr

/-! ## The three loops, undisturbed -/

/-- The acceptors in `S` have been changed by `f`, the others are as they were. -/
def Each (f : PaxosInstance → PaxosInstance) (S : List A) (g g' : A → PaxosInstance) : Prop :=
  ∀ a, g' a = if a ∈ S then f (g a) else g a

omit [DecidableEq ι] [KVStoreLite κ β] [LawfulKVStoreLite κ β] in
theorem Each.nil (f : PaxosInstance → PaxosInstance) (g : A → PaxosInstance) : Each f [] g g :=
  fun _ => (if_neg List.not_mem_nil).symm

omit [DecidableEq ι] [KVStoreLite κ β] [LawfulKVStoreLite κ β] in
theorem Each.cons {f : PaxosInstance → PaxosInstance} {rest : List A} {g g₁ g' : A → PaxosInstance}
    (hnot : a ∉ rest) (h₁ : ∀ a', g₁ a' = if a' = a then f (g a) else g a')
    (h : Each f rest g₁ g') : Each f (a :: rest) g g' := by
  intro a'
  rw [h a']
  by_cases ha : a' = a
  · subst ha
    rw [if_neg hnot, h₁, if_pos rfl, if_pos List.mem_cons_self]
  · rw [h₁, if_neg ha]
    simp [ha]

omit [DecidableEq ι] [KVStoreLite κ β] [LawfulKVStoreLite κ β] in
/-- The acceptors that come later are still untouched. -/
theorem each_others {f : PaxosInstance → PaxosInstance} {rest : List A} {g g₁ : A → PaxosInstance}
    (hnot : a ∉ rest) (h₁ : ∀ a', g₁ a' = if a' = a then f (g a) else g a') :
    ∀ a' ∈ rest, g₁ a' = g a' := by
  intro a' ha'
  have hne : a' ≠ a := fun heq => hnot (heq ▸ ha')
  rw [h₁, if_neg hne]

omit [LawfulKVStoreLite κ β] [DecidableEq ι] in
theorem held_setStore_self (hu : Updates codec (w.acceptors a) kv (instanceId reg) i) (a' : A) :
    held codec reg (w.setStore a kv) a' = if a' = a then i else held codec reg w a' := by
  rw [held_setStore hu]
  simp

omit [LawfulKVStoreLite κ β] in
/-- A step that ends no call. -/
theorem Plays.silent (hs : w.step codec e = some (w', none)) (h : Plays codec w' es w'' outs) :
    Plays codec w (e :: es) w'' outs :=
  h.cons hs

/-- **The prepares**: everybody is asked once, and answers what it holds. -/
theorem plays_prepares (done rest : List A) (xs : List (Option PrepareResponse))
    (hwf : w.WellFormed codec) (hr : w.registers o = some r) (hmajor : r.majorId = reg)
    (hb : r.ballot r.lockId = b) (hS : r.proposer.prepareAcceptors = done ++ rest)
    (hxs : xs.length = done.length)
    (hphase : r.phase = .preparing (xs.map some ++ rest.map fun _ => none))
    (hnodup : rest.Nodup) :
    ∃ w', Plays codec w ((List.range' done.length rest.length).map fun k => .prepare o k false)
        w' [] ∧ w'.WellFormed codec ∧
      w'.registers o = some { r with
        phase := .preparing ((xs ++ rest.map fun a =>
          some (prepareAnswer b (held codec reg w a))).map some) } ∧
      Each (prepared b) rest (held codec reg w) (held codec reg w') := by
  induction rest generalizing done xs w r with
  | nil =>
    refine ⟨w, .nil, hwf, ?_, .nil _ _⟩
    rw [hr]
    simp only [List.map_nil, List.append_nil] at hphase ⊢
    rw [← hphase]
  | cons a rest ih =>
    obtain ⟨hnot, hnodup⟩ := List.nodup_cons.mp hnodup
    subst hmajor hb
    obtain ⟨kv, hexec, hu⟩ := prepare_exec (hwf a) (instanceId r.majorId) (r.ballot r.lockId)
    have hout : r.outstanding done.length = some a := by
      unfold RegisterObject.outstanding
      rw [hphase, hS]
      simp [← hxs]
    have hstep : w.step codec (.prepare o done.length false) = some ((w.setStore a kv).set o
        (r.answer done.length (some (prepareAnswer (r.ballot r.lockId)
          (held codec r.majorId w a)))), none) := by
      simp only [World.step, bind, pure, hr, Option.bind_some, hout, call_eq hexec]
      rfl
    have hanswer : r.answer done.length
        (some (prepareAnswer (r.ballot r.lockId) (held codec r.majorId w a))) = { r with
          phase := .preparing ((xs ++ [some (prepareAnswer (r.ballot r.lockId)
            (held codec r.majorId w a))]).map some ++ rest.map fun _ => none) } := by
      unfold RegisterObject.answer
      rw [hphase]
      simp [← hxs, List.set_append_right]
    rw [hanswer] at hstep
    have hheld := held_setStore_self hu
    obtain ⟨w', hplays, hwf', hr', hheld'⟩ := ih (done ++ [a])
      (xs ++ [some (prepareAnswer (r.ballot r.lockId) (held codec r.majorId w a))])
      (w := (w.setStore a kv).set o _) (r := { r with
        phase := .preparing ((xs ++ [some (prepareAnswer (r.ballot r.lockId)
          (held codec r.majorId w a))]).map some ++ rest.map fun _ => none) })
      (wellFormed_setStore hwf hu) (Function.update_self ..) rfl rfl
      (by rw [hS]; simp) (by simp [hxs]) rfl hnodup
    have hothers : (rest.map fun a' => some (prepareAnswer (r.ballot r.lockId)
        (held codec r.majorId (w.setStore a kv) a'))) =
        rest.map fun a' => some (prepareAnswer (r.ballot r.lockId) (held codec r.majorId w a')) := by
      refine List.map_congr_left fun a' ha' => ?_
      rw [each_others hnot hheld a' ha']
    refine ⟨w', ?_, hwf', ?_, .cons hnot hheld hheld'⟩
    · rw [List.length_cons, List.range'_succ, List.map_cons]
      rw [List.length_append, List.length_singleton] at hplays
      exact hplays.silent hstep
    · rw [hr', List.map_cons, ← hothers, List.append_assoc]
      rfl

omit [DecidableEq A] in
theorem promisesOf_prepareAnswer (b : BallotId) (f : A → PaxosInstance) (S : List A) :
    promisesOf S (S.map fun a => some (prepareAnswer b (f a))) =
      (S.filter fun a => (f a).promisedBallotId < b).map fun a =>
        (a, (f a).accepted.getD { ballotId := some b }) := by
  induction S with
  | nil => rfl
  | cons a S ih =>
    unfold promisesOf at ih ⊢
    rw [List.map_cons, List.zip_cons_cons, List.filterMap_cons, ih]
    by_cases hlt : (f a).promisedBallotId < b
    · rw [List.filter_cons_of_pos (by simpa using hlt), List.map_cons]
      unfold prepareAnswer
      rw [if_neg (not_le.mpr hlt)]
    · rw [List.filter_cons_of_neg (by simpa using hlt)]
      unfold prepareAnswer
      rw [if_pos (not_lt.mp hlt)]

omit [DecidableEq A] in
/-- `lock()` when all answers are in. -/
theorem lockDone_of_answers {xs : List (Option PrepareResponse)}
    (hphase : r.phase = .preparing (xs.map some)) :
    r.lockDone = if (promisesOf r.proposer.prepareAcceptors xs).length < r.proposer.majority then
        some ({ r with
          proposer := { r.proposer with
            proposeAcceptors := (promisesOf r.proposer.prepareAcceptors xs).map (·.1) }
          phase := .idle }, none)
      else
        some ({ r with
          proposer := { r.proposer with
            proposeAcceptors := (promisesOf r.proposer.prepareAcceptors xs).map (·.1)
            selectedProposal :=
              selectProposal (proposalsOf (promisesOf r.proposer.prepareAcceptors xs)) }
          phase := .idle
          unusedLocks := r.lockId :: r.unusedLocks }, some r.lockId) := by
  have hall : ((xs.map some).all (·.isSome)) = true := by simp
  have hanswers : (xs.map some).map (·.getD none) = xs := by simp
  unfold RegisterObject.lockDone ProposerImpl.finishPrepare
  rw [hphase]
  dsimp only
  rw [if_pos hall, hanswers]
  by_cases hfew : (promisesOf r.proposer.prepareAcceptors xs).length < r.proposer.majority
  · simp only [hfew, if_true, Bool.false_eq_true, if_false]
  · simp only [hfew, if_true, if_false]

omit [LawfulKVStoreLite κ β] in
theorem step_lockDone {lockId : Option Int} (hr : w.registers o = some r)
    (h : r.lockDone = some (r', lockId)) :
    w.step codec (.lockDone o) = some (w.set o r', some (.lockReturned lockId)) := by
  simp only [World.step, bind, pure, hr, Option.bind_some, h]

/-- An object of the register that nobody is calling. -/
structure AtRest (reg : Int) (S : List A) (w : World A ι κ) (o : ι) (r : RegisterObject A) :
    Prop where
  object : w.registers o = some r
  majorId : r.majorId = reg
  prepareAcceptors : r.proposer.prepareAcceptors = S
  majority : r.proposer.majority = S.length
  idle : r.phase = .idle

/-- The state after a `lock()` that all acceptors have answered. -/
structure Locked (codec : Codec PaxosInstance β) (reg : Int) (S : List A) (w : World A ι κ) (o : ι)
    (r : RegisterObject A) (w' : World A ι κ) (r' : RegisterObject A) : Prop where
  wellFormed : w'.WellFormed codec
  atRest : AtRest reg S w' o r'
  lockId : r'.lockId = r.lockId + 1
  held : Each (prepared ⟨reg, r.lockId + 1⟩) S (held codec reg w) (held codec reg w')

/-- **`lock()`** succeeds exactly if nobody has promised the new ballot or one above it. -/
theorem plays_lockCall (hwf : w.WellFormed codec) (h : AtRest reg S w o r) (hnodup : S.Nodup) :
    ∃ w' r', Locked codec reg S w o r w' r' ∧
      (((∃ a ∈ S, (⟨reg, r.lockId + 1⟩ : BallotId) ≤ (held codec reg w a).promisedBallotId) ∧
          Plays codec w (lockCall o S.length) w' [.lockReturned none]) ∨
        ((∀ a ∈ S, (held codec reg w a).promisedBallotId < ⟨reg, r.lockId + 1⟩) ∧
          Plays codec w (lockCall o S.length) w' [.lockReturned (some (r.lockId + 1))] ∧
          r'.proposer.proposeAcceptors = S ∧ r.lockId + 1 ∈ r'.unusedLocks)) := by
  obtain ⟨hr, hmajor, hS, hmajority, hidle⟩ := h
  -- the object while it waits for its answers
  obtain ⟨r₀, hr₀⟩ : ∃ r₀ : RegisterObject A, r₀ = { r with
      lockId := r.lockId + 1
      proposer := { r.proposer with proposeAcceptors := [] }
      phase := .preparing (S.map fun _ => none) } := ⟨_, rfl⟩
  have hlock : w.step codec (.lock o) = some (w.set o r₀, none) := by
    simp only [World.step, bind, pure, hr, Option.bind_some, RegisterObject.lock, hidle, hS, hr₀]
  have hmajor₀ : r₀.majorId = reg := by
    rw [hr₀]
    exact hmajor
  have hlockId₀ : r₀.lockId = r.lockId + 1 := by rw [hr₀]
  have hb₀ : r₀.ballot r₀.lockId = ⟨reg, r.lockId + 1⟩ := by
    unfold RegisterObject.ballot
    rw [hmajor₀, hlockId₀]
  have hS₀ : r₀.proposer.prepareAcceptors = S := by
    rw [hr₀]
    exact hS
  have hmajority₀ : r₀.proposer.majority = S.length := by
    rw [hr₀]
    exact hmajority
  have hphase₀ : r₀.phase = .preparing (([] : List (Option PrepareResponse)).map some ++
      S.map fun _ => none) := by
    rw [hr₀]
    rfl
  obtain ⟨w₁, hplays, hwf₁, hr₁, hheld⟩ := plays_prepares [] S []
    (w := w.set o r₀) hwf (Function.update_self ..) hmajor₀ hb₀ hS₀ rfl hphase₀ hnodup
  -- the promises are those of the acceptors below the new ballot
  have hpromises := promisesOf_prepareAnswer ⟨reg, r.lockId + 1⟩
    (held codec reg (w.set o r₀)) S
  have hdone := lockDone_of_answers (r := { r₀ with phase := .preparing (([] ++ S.map fun a =>
    some (prepareAnswer ⟨reg, r.lockId + 1⟩ (held codec reg (w.set o r₀) a))).map some) }) rfl
  dsimp only at hdone
  rw [hS₀, List.nil_append, hpromises, hmajority₀, List.length_map] at hdone
  have hcall : ∀ {r' : RegisterObject A} {lockId : Option Int},
      RegisterObject.lockDone { r₀ with phase := .preparing ((S.map fun a =>
        some (prepareAnswer ⟨reg, r.lockId + 1⟩ (held codec reg (w.set o r₀) a))).map some) } =
        some (r', lockId) →
      Plays codec w (lockCall o S.length) (w₁.set o r') [.lockReturned lockId] := by
    intro r' lockId hl
    exact Plays.silent hlock (hplays.append (.cons (step_lockDone hr₁ hl) .nil))
  by_cases hlow : ∀ a ∈ S, (held codec reg w a).promisedBallotId < ⟨reg, r.lockId + 1⟩
  · have hfilter : (S.filter fun a => (held codec reg (w.set o r₀) a).promisedBallotId <
        ⟨reg, r.lockId + 1⟩) = S :=
      List.filter_eq_self.mpr fun a ha => decide_eq_true (hlow a ha)
    rw [hfilter, if_neg (lt_irrefl _)] at hdone
    obtain ⟨r', hl, hmajor', hlockId', hS', hmajority', hidle', hacceptors, hunused⟩ :
        ∃ r' : RegisterObject A, RegisterObject.lockDone _ = some (r', some r₀.lockId) ∧
          r'.majorId = reg ∧ r'.lockId = r.lockId + 1 ∧ r'.proposer.prepareAcceptors = S ∧
          r'.proposer.majority = S.length ∧ r'.phase = .idle ∧ r'.proposer.proposeAcceptors = S ∧
          r'.unusedLocks = r₀.lockId :: r₀.unusedLocks :=
      ⟨_, hdone, hmajor₀, hlockId₀, rfl, rfl, rfl, (List.map_map ..).trans (List.map_id _), rfl⟩
    refine ⟨w₁.set o r', r', ⟨hwf₁, ⟨Function.update_self .., hmajor', hS', hmajority', hidle'⟩,
      hlockId', hheld⟩, .inr ⟨hlow, hlockId₀ ▸ hcall hl, hacceptors, ?_⟩⟩
    rw [hunused, hlockId₀]
    exact List.mem_cons_self
  · have hfew : (S.filter fun a => (held codec reg (w.set o r₀) a).promisedBallotId <
        ⟨reg, r.lockId + 1⟩).length < S.length := by
      rw [List.length_filter_lt_length_iff_exists]
      push Not at hlow
      obtain ⟨a, ha, hle⟩ := hlow
      exact ⟨a, ha, fun hlt => absurd (of_decide_eq_true hlt) (not_lt.mpr hle)⟩
    rw [if_pos hfew] at hdone
    push Not at hlow
    obtain ⟨r', hl, hmajor', hlockId', hS', hmajority', hidle'⟩ :
        ∃ r' : RegisterObject A, RegisterObject.lockDone _ = some (r', none) ∧
          r'.majorId = reg ∧ r'.lockId = r.lockId + 1 ∧ r'.proposer.prepareAcceptors = S ∧
          r'.proposer.majority = S.length ∧ r'.phase = .idle :=
      ⟨_, hdone, hmajor₀, hlockId₀, rfl, rfl, rfl⟩
    exact ⟨w₁.set o r', r', ⟨hwf₁, ⟨Function.update_self .., hmajor', hS', hmajority', hidle'⟩,
      hlockId', hheld⟩, .inl ⟨hlow, hcall hl⟩⟩

/-- The client holds the lock `lockId`, and nobody has promised more. -/
structure HoldsLock (codec : Codec PaxosInstance β) (reg : Int) (S : List A) (w : World A ι κ)
    (o : ι) (r : RegisterObject A) (lockId : Int) : Prop where
  wellFormed : w.WellFormed codec
  atRest : AtRest reg S w o r
  proposeAcceptors : r.proposer.proposeAcceptors = S
  unused : lockId ∈ r.unusedLocks
  promised : ∀ a ∈ S, (held codec reg w a).promisedBallotId ≤ ⟨reg, lockId⟩

/-- **`lock()`, called again and again**, succeeds when it has drawn a lock id above all promises. -/
theorem plays_lockCalls (hwf : w.WellFormed codec) (h : AtRest reg S w o r) (hnodup : S.Nodup)
    {K : Int} (hK : ∀ a ∈ S, (held codec reg w a).promisedBallotId ≤ ⟨reg, K⟩) :
    ∃ (n : Nat) (w' : World A ι κ) (r' : RegisterObject A),
      Plays codec w (List.replicate (n + 1) (lockCall o S.length)).flatten w'
        (List.replicate n (.lockReturned none) ++ [.lockReturned (some (r.lockId + n + 1))]) ∧
      (n : Int) ≤ max 0 (K - r.lockId) ∧ HoldsLock codec reg S w' o r' (r.lockId + n + 1) ∧
      ∀ a ∈ S, (held codec reg w' a).committed = (held codec reg w a).committed := by
  -- every failed call brings the lock id one closer to `K`
  induction hm : (K - r.lockId).toNat using Nat.strong_induction_on generalizing w r with
  | _ m ih =>
    obtain ⟨w₁, r₁, hlocked, hcases⟩ := plays_lockCall hwf h hnodup
    have hcommitted : ∀ a ∈ S, (held codec reg w₁ a).committed = (held codec reg w a).committed := by
      intro a ha
      rw [hlocked.held, if_pos ha, prepared_committed]
    have hlockId := hlocked.lockId
    rcases hcases with ⟨⟨a, ha, hle⟩, hplays⟩ | ⟨hlow, hplays, hacceptors, hunused⟩
    · have hbehind : r.lockId + 1 ≤ K := BallotId.mk_le_mk.mp (hle.trans (hK a ha))
      have hK₁ : ∀ a ∈ S, (held codec reg w₁ a).promisedBallotId ≤ ⟨reg, K⟩ := by
        intro a ha
        rw [hlocked.held, if_pos ha, prepared_promised]
        exact max_le (BallotId.mk_le_mk.mpr hbehind) (hK a ha)
      obtain ⟨n, w', r', hplays', hn, hholds, hcommitted'⟩ :=
        ih _ (by omega) hlocked.wellFormed hlocked.atRest hK₁ rfl
      have hlast : r₁.lockId + n + 1 = r.lockId + (n + 1 : Nat) + 1 := by omega
      rw [hlast] at hplays' hholds
      refine ⟨n + 1, w', r', ?_, by omega, hholds, fun a ha => (hcommitted' a ha).trans (hcommitted a ha)⟩
      rw [List.replicate_succ, List.flatten_cons, List.replicate_succ (n := n)]
      exact hplays.append hplays'
    · refine ⟨0, w₁, r₁, ?_, by omega, ?_, hcommitted⟩
      · simpa using hplays
      · rw [Int.natCast_zero, Int.add_zero]
        refine ⟨hlocked.wellFormed, hlocked.atRest, hacceptors, hunused, fun a ha => ?_⟩
        rw [hlocked.held, if_pos ha, prepared_promised]
        exact max_le (le_refl _) (hlow a ha).le

/-- An instance that has accepted a proposal. -/
def voted (p : Proposal) (i : PaxosInstance) : PaxosInstance :=
  { i with
    promisedBallotId := p.ballotId
    accepted := some { ballotId := some p.ballotId, value := some p.value } }

/-- **The accepts**, with a ballot nobody has promised more than. -/
theorem plays_accepts {rest : List A} {p : Proposal} {m : Nat} (hwf : w.WellFormed codec)
    (hr : w.registers o = some r) (hmajor : r.majorId = reg)
    (hphase : r.phase = .accepting p rest m) (hnodup : rest.Nodup)
    (hlow : ∀ a ∈ rest, (held codec reg w a).promisedBallotId ≤ p.ballotId) :
    ∃ w', Plays codec w (List.replicate rest.length (.accept o)) w' [] ∧ w'.WellFormed codec ∧
      w'.registers o = some { r with phase := .accepting p [] (m + rest.length) } ∧
      Each (voted p) rest (held codec reg w) (held codec reg w') := by
  induction rest generalizing w r m with
  | nil =>
    refine ⟨w, .nil, hwf, ?_, .nil _ _⟩
    rw [hr, List.length_nil, Nat.add_zero, ← hphase]
  | cons a rest ih =>
    obtain ⟨hnot, hnodup⟩ := List.nodup_cons.mp hnodup
    subst hmajor
    obtain ⟨result, kv, hexec, ⟨hlt, -⟩ | ⟨-, rfl, hu⟩⟩ :=
      accept_spec (hwf a) (instanceId r.majorId) p
    · exact absurd (hlow a List.mem_cons_self) (not_le.mpr hlt)
    have hstep : w.step codec (.accept o) = some (((w.setStore a kv).observe (.accepted a
        (instanceId r.majorId) p.ballotId p.value)).set o
          { r with phase := .accepting p rest (m + 1) }, none) := by
      simp only [World.step, bind, pure, hr, Option.bind_some, hphase, call_eq hexec]
    have hheld := held_setStore_self hu
    obtain ⟨w', hplays, hwf', hr', hheld'⟩ := ih (w := ((w.setStore a kv).observe (.accepted a
        (instanceId r.majorId) p.ballotId p.value)).set o
          { r with phase := .accepting p rest (m + 1) })
      (r := { r with phase := .accepting p rest (m + 1) })
      (wellFormed_setStore hwf hu) (Function.update_self ..) rfl rfl hnodup fun a' ha' =>
        (each_others (f := voted p) hnot hheld a' ha').symm ▸ hlow a' (List.mem_cons_of_mem _ ha')
    refine ⟨w', hplays.silent hstep, hwf', ?_, .cons hnot hheld hheld'⟩
    rw [hr', List.length_cons]
    refine congrArg some (congrArg (fun x => { r with phase := Phase.accepting p [] x }) ?_)
    omega

/-- **The commits** answer whether somebody had not committed yet. -/
theorem plays_commits {rest : List A} {c : Bool} (hwf : w.WellFormed codec)
    (hr : w.registers o = some r) (hmajor : r.majorId = reg)
    (hphase : r.phase = .committing b rest c) (hnodup : rest.Nodup) :
    ∃ w', Plays codec w (List.replicate rest.length (.commit o)) w' [] ∧ w'.WellFormed codec ∧
      w'.registers o = some { r with
        phase := .committing b [] (c || rest.any fun a => !(held codec reg w a).committed) } ∧
      Each (fun i => { i with committed := true }) rest (held codec reg w) (held codec reg w') := by
  induction rest generalizing w r c with
  | nil =>
    refine ⟨w, .nil, hwf, ?_, .nil _ _⟩
    rw [hr, List.any_nil, Bool.or_false, ← hphase]
  | cons a rest ih =>
    obtain ⟨hnot, hnodup⟩ := List.nodup_cons.mp hnodup
    subst hmajor
    obtain ⟨kv, hexec, hu⟩ := commit_spec (hwf a) (instanceId r.majorId) b
    have hstep : w.step codec (.commit o) = some ((w.setStore a kv).set o { r with
        phase := .committing b rest (c || !(held codec r.majorId w a).committed) }, none) := by
      simp only [World.step, bind, pure, hr, Option.bind_some, hphase, call_eq hexec]
      rfl
    have hheld := held_setStore_self hu
    obtain ⟨w', hplays, hwf', hr', hheld'⟩ := ih (w := (w.setStore a kv).set o { r with
        phase := .committing b rest (c || !(held codec r.majorId w a).committed) })
      (r := { r with phase := .committing b rest (c || !(held codec r.majorId w a).committed) })
      (wellFormed_setStore hwf hu) (Function.update_self ..) rfl rfl hnodup
    have hothers : (rest.any fun a' => !(held codec r.majorId (w.setStore a kv) a').committed) =
        rest.any fun a' => !(held codec r.majorId w a').committed := by
      rw [Bool.eq_iff_iff, List.any_eq_true, List.any_eq_true]
      refine exists_congr fun a' => and_congr_right fun ha' => ?_
      rw [each_others (f := fun i => { i with committed := true }) hnot hheld a' ha']
    refine ⟨w', hplays.silent hstep, hwf', ?_, .cons hnot hheld hheld'⟩
    rw [hr', List.any_cons, ← hothers, Bool.or_assoc]
    rfl

/-- The acceptors of `S` have committed `value`. -/
def HoldsValue (codec : Codec PaxosInstance β) (reg : Int) (S : List A) (w : World A ι κ)
    (value : String) : Prop :=
  ∀ a ∈ S, committedValue (held codec reg w a) = some value

omit [LawfulKVStoreLite κ β] in
theorem step_acceptDone {p : Proposal} {n : Nat} (hr : w.registers o = some r)
    (hphase : r.phase = .accepting p [] n) (hn : r.proposer.majority ≤ n) :
    w.step codec (.acceptDone o) = some (w.set o { r with
      phase := .committing p.ballotId r.proposer.proposeAcceptors false }, none) := by
  have hdone : r.acceptDone = some ({ r with
      phase := .committing p.ballotId r.proposer.proposeAcceptors false }, none) := by
    unfold RegisterObject.acceptDone
    rw [hphase]
    dsimp only
    rw [if_neg (not_lt.mpr hn)]
  simp only [World.step, bind, pure, hr, Option.bind_some, hdone, Option.map_none]

omit [LawfulKVStoreLite κ β] in
theorem step_commitDone {c : Bool} (hr : w.registers o = some r)
    (hphase : r.phase = .committing b [] c) :
    w.step codec (.commitDone o) = some (w.set o r.finish, some (.writeReturned c)) := by
  have hdone : r.commitDone = some (r.finish, c) := by
    unfold RegisterObject.commitDone
    rw [hphase]
    rfl
  simp only [World.step, bind, pure, hr, Option.bind_some, hdone]

/-- **`write()` under the lock** gets its proposal to everybody. -/
theorem plays_writeCall {lockId : Int} (h : HoldsLock codec reg S w o r lockId) (hnodup : S.Nodup)
    (payload : String) :
    ∃ w' r', Plays codec w (writeCall o S.length lockId payload) w'
        [.writeReturned (S.any fun a => !(held codec reg w a).committed)] ∧
      w'.WellFormed codec ∧ AtRest reg S w' o r' ∧
      HoldsValue codec reg S w' (r.proposer.proposalValue payload) := by
  obtain ⟨hwf, ⟨hr, hmajor, hS, hmajority, hidle⟩, hacceptors, hunused, hlow⟩ := h
  obtain ⟨p, hp⟩ : ∃ p : Proposal, p =
    { ballotId := r.ballot lockId, value := r.proposer.proposalValue payload } := ⟨_, rfl⟩
  obtain ⟨r₁, hr₁⟩ : ∃ r₁ : RegisterObject A, r₁ = { r with
      unusedLocks := r.unusedLocks.erase lockId, phase := .accepting p S 0 } := ⟨_, rfl⟩
  have hwrite : w.step codec (.write o lockId payload) =
      some ((w.set o r₁).observe (.wrote r.majorId payload), none) := by
    simp only [World.step, bind, pure, hr, Option.bind_some, RegisterObject.write, hidle, hunused,
      if_true, hacceptors, hr₁, hp]
  have hballot : p.ballotId = ⟨reg, lockId⟩ := by
    rw [hp, ← hmajor]
    rfl
  have hvalue : p.value = r.proposer.proposalValue payload := by rw [hp]
  have hmajor₁ : r₁.majorId = reg := by
    rw [hr₁]
    exact hmajor
  have hacceptors₁ : r₁.proposer.proposeAcceptors = S := by
    rw [hr₁]
    exact hacceptors
  have hmajority₁ : r₁.proposer.majority = S.length := by
    rw [hr₁]
    exact hmajority
  have hS₁ : r₁.proposer.prepareAcceptors = S := by
    rw [hr₁]
    exact hS
  have hphase₁ : r₁.phase = .accepting p S 0 := by rw [hr₁]
  obtain ⟨w₂, hplays₂, hwf₂, hr₂, hheld₂⟩ := plays_accepts
    (w := (w.set o r₁).observe (.wrote r.majorId payload)) hwf (Function.update_self ..) hmajor₁
    hphase₁ hnodup fun a ha => hballot ▸ hlow a ha
  have hdone : w₂.step codec (.acceptDone o) = _ := step_acceptDone hr₂ rfl
    (by rw [Nat.zero_add]; exact hmajority₁.le)
  dsimp only at hdone
  rw [hacceptors₁] at hdone
  obtain ⟨w₄, hplays₄, hwf₄, hr₄, hheld₄⟩ := plays_commits (c := false)
    (w := w₂.set o { r₁ with phase := .committing p.ballotId S false })
    (r := { r₁ with phase := .committing p.ballotId S false }) hwf₂ (Function.update_self ..)
    hmajor₁ rfl hnodup
  have hend : w₄.step codec (.commitDone o) = _ := step_commitDone hr₄ rfl
  have hvoted : ∀ a ∈ S, held codec reg w₂ a = voted p (held codec reg w a) := by
    intro a ha
    rw [hheld₂, if_pos ha]
    rfl
  have hanybody : (false || S.any fun a => !(held codec reg (w₂.set o
      { r₁ with phase := .committing p.ballotId S false }) a).committed) =
      S.any fun a => !(held codec reg w a).committed := by
    rw [Bool.false_or, Bool.eq_iff_iff, List.any_eq_true, List.any_eq_true]
    refine exists_congr fun a => and_congr_right fun ha => ?_
    show (!(held codec reg w₂ a).committed) = true ↔ _
    rw [hvoted a ha]
    exact Iff.rfl
  have hplays := Plays.silent hwrite
    (hplays₂.append (Plays.silent hdone (hplays₄.append (.cons hend .nil))))
  rw [hanybody] at hplays
  refine ⟨_, _, hplays, hwf₄, ⟨Function.update_self .., hmajor₁, hS₁, hmajority₁, rfl⟩,
    fun a ha => ?_⟩
  show committedValue (held codec reg w₄ a) = _
  rw [hheld₄, if_pos ha]
  show committedValue { held codec reg w₂ a with committed := true } = _
  rw [hvoted a ha, ← hvalue]
  rfl

/-- **`read()`** of a value that everybody holds. -/
theorem plays_readCall {value : String} (hwf : w.WellFormed codec) (h : AtRest reg S w o r)
    (hne : S ≠ []) (hvalue : HoldsValue codec reg S w value) :
    ∃ w' a, Plays codec w (readCall o) w' [.readReturned (some value)] ∧
      .committedValue a (instanceId reg) value ∈ w'.trace := by
  obtain ⟨hr, rfl, hS, -, hidle⟩ := h
  obtain ⟨a, rest, rfl⟩ := List.exists_cons_of_ne_nil hne
  have hread : w.step codec (.read o) =
      some (w.set o { r with phase := .reading (a :: rest) }, none) := by
    simp only [World.step, bind, pure, hr, Option.bind_some, RegisterObject.read, hidle, hS]
  obtain ⟨kv, hexec, -⟩ := getCommittedValue_spec (hwf a) (instanceId r.majorId)
  have hcommitted : committedValue (instanceOf codec (w.acceptors a) (instanceId r.majorId)) =
      some value := hvalue a List.mem_cons_self
  rw [hcommitted] at hexec
  have hr₁ : (w.set o { r with phase := .reading (a :: rest) }).registers o =
      some { r with phase := .reading (a :: rest) } := Function.update_self ..
  have hcall : (w.set o { r with phase := .reading (a :: rest) }).call a
      (LocalAcceptor.getCommittedValue codec (instanceId r.majorId)) = (.ok (some value), _) :=
    call_eq hexec
  have hnext : (w.set o { r with phase := .reading (a :: rest) }).step codec (.readNext o) =
      some ((((w.set o { r with phase := .reading (a :: rest) }).setStore a kv).observe
        (.committedValue a (instanceId r.majorId) value)).set o
          (RegisterObject.finish { r with phase := .reading (a :: rest) }),
        some (.readReturned (some value))) := by
    simp only [World.step, bind, pure, hr₁, Option.bind_some, hcall]
  exact ⟨_, a, .silent hread (.cons hnext .nil), List.mem_cons_self⟩

/-! ## All together -/

omit [DecidableEq A] [DecidableEq ι] in
/-- A client's calls make no object. -/
theorem madeWith_of_calls {n : Nat} {lockId : Int} {payload : String} {k : Nat}
    (hes : es = (List.replicate k (lockCall o n)).flatten ++
      (writeCall o n lockId payload ++ readCall o)) : MadeWith (A := A) reg S es := by
  intro o' acceptors hm
  subst hes
  simp [lockCall, writeCall, readCall] at hm

theorem run_registerInv {w₀ : World A ι κ} (h₀ : w₀.Initial)
    (hrun : Transition.run (World.next codec) w₀ es = some w) (hmade : MadeWith reg S es) :
    RegisterInv codec reg S w := by
  refine Transition.meets_invariant ?_ hrun hmade.meets (h₀.registerInv reg S)
  intro s e s' hs hok hnext
  obtain ⟨⟨s'', out⟩, hstep, rfl⟩ := Option.map_eq_some_iff.mp hnext
  exact hs.step hstep hok

end World

/-- **A client that is left alone gets through.** From any state that any interleaving of the
register's objects has led to, an object of it that is not being called locks, writes and reads,
with nothing else happening and no prepare timing out: after `n` failed calls of `lock()`, at most
as many as its lock id is behind, the next one returns an id; `write()` under that id returns
whether somebody had not committed the register yet; and `read()` returns a value. Nobody has ever
read another one, and somebody has written it. -/
theorem lone_client_decides [LawfulKVStoreLite κ β] {codec : Codec PaxosInstance β} {reg : Int}
    {S : List A} {w₀ w : World A ι κ} (h₀ : w₀.Initial) {es : List (Event A ι)}
    (hrun : Transition.run (World.next codec) w₀ es = some w) (hmade : World.MadeWith reg S es)
    (hreg : -1 ≤ reg) (hne : S ≠ []) (hnodup : S.Nodup) {o : ι} {r : RegisterObject A}
    (hr : w.registers o = some r) (hmajor : r.majorId = reg) (hidle : r.phase = .idle)
    {K : Int} (hK : ∀ a ∈ S, (World.held codec reg w a).promisedBallotId.minorId ≤ K)
    (payload : String) :
    ∃ (n : Nat) (w₁ w₂ w₃ : World A ι κ) (value : String),
      (n : Int) ≤ max 0 (K - r.lockId) ∧
      World.Plays codec w (List.replicate (n + 1) (World.lockCall o S.length)).flatten w₁
        (List.replicate n (.lockReturned none) ++ [.lockReturned (some (r.lockId + n + 1))]) ∧
      World.Plays codec w₁ (World.writeCall o S.length (r.lockId + n + 1) payload) w₂
        [.writeReturned (S.any fun a => !(World.held codec reg w a).committed)] ∧
      World.Plays codec w₂ (World.readCall o) w₃ [.readReturned (some value)] ∧
      (∀ a v, .committedValue a (instanceId reg) v ∈ w₃.trace → v = value) ∧
      .wrote reg value ∈ w₃.trace := by
  have hown : World.OwnBallots codec w := World.run_ownBallots h₀ hrun
  have hinv : World.RegisterInv codec reg S w := World.run_registerInv h₀ hrun hmade
  have hobject := hinv.decree.object (World.decree_objects_same hr hmajor)
  have hrest : World.AtRest reg S w o r :=
    ⟨hr, hmajor, hobject.prepareAcceptors, hobject.majority, hidle⟩
  -- only the register's own ballots have been promised, so a lock id is all that it takes
  have hbelow : ∀ a ∈ S, (World.held codec reg w a).promisedBallotId ≤ ⟨reg, K⟩ := by
    intro a ha
    have hminor := hK a ha
    rw [BallotId.le_def]
    rcases hown.promised reg a with heq | heq
    · rw [heq] at hminor ⊢
      dsimp only at hminor ⊢
      split <;> omega
    · rw [if_pos heq]
      exact hminor
  obtain ⟨n, w₁, r₁, hlocks, hn, hholds, hcommitted⟩ :=
    World.plays_lockCalls hown.wellFormed hrest hnodup hbelow
  obtain ⟨w₂, r₂, hwrite, hwf₂, hrest₂, hvalue⟩ := World.plays_writeCall hholds hnodup payload
  obtain ⟨w₃, a, hread, hanswered⟩ := World.plays_readCall hwf₂ hrest₂ hne hvalue
  have hsame : (S.any fun a => !(World.held codec reg w₁ a).committed) =
      S.any fun a => !(World.held codec reg w a).committed := by
    rw [Bool.eq_iff_iff, List.any_eq_true, List.any_eq_true]
    refine exists_congr fun a => and_congr_right fun ha => ?_
    rw [hcommitted a ha]
  rw [hsame] at hwrite
  have hall := hlocks.append (hwrite.append hread)
  have hinv₃ : World.RegisterInv codec reg S w₃ := by
    refine World.run_registerInv h₀ (Transition.run_append_eq_some.mpr ⟨w, hrun, hall.run⟩) ?_
    intro o' acceptors hm
    rcases List.mem_append.mp hm with hm | hm
    · exact hmade o' acceptors hm
    · exact World.madeWith_of_calls rfl o' acceptors hm
  exact ⟨n, w₁, w₂, w₃, _, hn, hlocks, hwrite, hread,
    fun a' v hv => hinv₃.decree.agreement ⟨a', hv⟩ ⟨a, hanswered⟩,
    hinv₃.decree.answered_wrote ⟨a, hanswered⟩⟩

/-- Object 0 locks, gets one acceptor's vote for "x" and stops. Object 1 is behind by one. -/
def deserted : List (Event (Fin 2) (Fin 2)) :=
  .make 0 7 [0, 1] :: .make 1 7 [0, 1] :: lockSeven 0 ++ [.write 0 1 "x", .accept 0]

theorem lone_client_decides_deserted :
    ∃ w r, Transition.run (World.next (Codec.identity PaxosInstance)) twoAcceptors deserted =
        some w ∧ w.registers 1 = some r ∧ r.lockId = 0 ∧
      ∃ (n : Nat) (w₁ w₂ w₃ : World (Fin 2) (Fin 2) (RocksStore PaxosInstance)) (value : String),
        (n : Int) ≤ 1 ∧
        World.Plays (Codec.identity PaxosInstance) w
          (List.replicate (n + 1) (World.lockCall 1 2)).flatten w₁
          (List.replicate n (.lockReturned none) ++ [.lockReturned (some (0 + n + 1))]) ∧
        World.Plays (Codec.identity PaxosInstance) w₁ (World.writeCall 1 2 (0 + n + 1) "y") w₂
          [.writeReturned true] ∧
        World.Plays (Codec.identity PaxosInstance) w₂ (World.readCall 1) w₃
          [.readReturned (some value)] ∧
        .wrote 7 value ∈ w₃.trace := by
  have hinit : twoAcceptors.Initial := ⟨fun _ _ => rfl, fun _ => rfl, rfl, rfl⟩
  have hmade : World.MadeWith 7 [0, 1] deserted := by
    intro o acceptors hm
    simp [deserted, lockSeven] at hm
    exact hm.elim (·.2) (·.2)
  obtain ⟨w, r, hrun, hr, hmajor, hidle, hlockId, hK, hopen⟩ : ∃ w r,
      Transition.run (World.next (Codec.identity PaxosInstance)) twoAcceptors deserted = some w ∧
        w.registers 1 = some r ∧ r.majorId = 7 ∧ r.phase = .idle ∧ r.lockId = 0 ∧
        (∀ a ∈ ([0, 1] : List (Fin 2)),
          (World.held (Codec.identity PaxosInstance) 7 w a).promisedBallotId.minorId ≤ 1) ∧
        (([0, 1] : List (Fin 2)).any fun a =>
          !(World.held (Codec.identity PaxosInstance) 7 w a).committed) = true :=
    ⟨_, _, rfl, rfl, rfl, rfl, rfl, by decide, by decide⟩
  obtain ⟨n, w₁, w₂, w₃, value, hn, hlock, hwrite, hread, -, hwrote⟩ :=
    lone_client_decides hinit hrun hmade (by decide) (by decide) (by decide) hr hmajor hidle hK "y"
  rw [hlockId] at hn hlock hwrite
  rw [hopen] at hwrite
  exact ⟨w, r, hrun, hr, hlockId, n, w₁, w₂, w₃, value, by simpa using hn, hlock, hwrite, hread, hwrote⟩

end ReplicatedCounter.Paxos
