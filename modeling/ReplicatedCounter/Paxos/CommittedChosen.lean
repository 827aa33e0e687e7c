import ReplicatedCounter.Paxos.UniqueBallots

/-!
# Committed means chosen, for any majority size

`ProposerImpl::propose` sends the commit to everybody who has promised, also to acceptors that have
refused the proposal, and `LocalAcceptor::commit` does not look at the ballot. With a majority of
everybody this is harmless: all of them have accepted. With a smaller one an acceptor that was
promised away in between is committed on whatever it had accepted before, or on nothing, and then
answers a value that nobody chose (`committed_without_accepting`).

As long as the commit reaches only acceptors that have accepted its ballot, or a later one,
committed means chosen (`committed_value_chosen`).
-/

set_option autoImplicit false

namespace ReplicatedCounter.Paxos

open Voting

variable {A ι κ β : Type} [DecidableEq A] [DecidableEq ι] [KVStoreLite κ β]

namespace ProposerWorld

section view

variable (codec : Codec PaxosInstance β)

/-- What one instance sees of the world. -/
def poll (id : String) (w : ProposerWorld A ι κ) : Poll A ι where
  instances a := LocalAcceptor.instanceOf codec (w.acceptors a) id
  accepted a b v := .accepted a id b v ∈ w.trace
  proposed b v := .proposed id b v ∈ w.trace
  prepared b := (id, b) ∈ w.prepared
  objects o := (w.proposers o).filter (·.paxosInstanceId = id)

/-- Every acceptor's store is well-formed. -/
def WellFormed (w : ProposerWorld A ι κ) : Prop :=
  ∀ a, LocalAcceptor.WellFormed codec (w.acceptors a)

/-- An acceptor's store after a call. -/
def setStore (w : ProposerWorld A ι κ) (a : A) (kv : κ) : ProposerWorld A ι κ :=
  { w with acceptors := Function.update w.acceptors a kv }

end view

variable {codec : Codec PaxosInstance β} {id : String} {w w' : ProposerWorld A ι κ}

omit [DecidableEq ι] [KVStoreLite κ β] in
theorem call_eq {α : Type} {a : A} {m : AcceptorM κ α} {result : Except AcceptorError α} {kv : κ}
    (h : Coro.exec m (w.acceptors a) = (result, kv)) : w.call a m = (result, w.setStore a kv) := by
  unfold call
  rw [h]
  rfl

/-! ## The view of a changed world -/

omit [DecidableEq A] in
theorem poll_set (o : ι) (r : ProposerObject A) :
    (w.set o r).poll codec id =
      (w.poll codec id).setObject o (if r.paxosInstanceId = id then some r else none) := by
  unfold poll set Poll.setObject
  congr 1
  funext o'
  by_cases ho : o' = o
  · subst ho
    simp [Option.filter]
  · simp [ho]

omit [DecidableEq A] [DecidableEq ι] in
theorem poll_objects {o : ι} {r : ProposerObject A} (h : w.proposers o = some r) :
    (w.poll codec r.paxosInstanceId).objects o = some r := by
  simp [poll, h]

omit [DecidableEq ι] in
theorem poll_setStore {a : A} {kv : κ} {id' : String} {i : PaxosInstance}
    (hu : LocalAcceptor.Updates codec (w.acceptors a) kv id' i) :
    (w.setStore a kv).poll codec id =
      if id' = id then (w.poll codec id).setInstance a i else w.poll codec id := by
  have hinstance : ∀ a', LocalAcceptor.instanceOf codec (Function.update w.acceptors a kv a') id =
      if a' = a ∧ id' = id then i else LocalAcceptor.instanceOf codec (w.acceptors a') id := by
    intro a'
    by_cases ha : a' = a
    · subst ha
      rw [Function.update_self]
      by_cases hid : id' = id
      · subst hid
        rw [if_pos ⟨rfl, rfl⟩, hu.same]
      · rw [if_neg fun hand => hid hand.2, hu.other _ (Ne.symm hid)]
    · rw [Function.update_of_ne ha, if_neg fun hand => ha hand.1]
  unfold poll setStore Poll.setInstance
  split
  · rename_i hid
    congr 1
    funext a'
    rw [hinstance a']
    by_cases ha : a' = a
    · subst ha
      rw [if_pos ⟨rfl, hid⟩, Function.update_self]
    · rw [if_neg fun hand => ha hand.1, Function.update_of_ne ha]
  · rename_i hid
    congr 1
    funext a'
    rw [hinstance a', if_neg fun hand => hid hand.2]

omit [DecidableEq ι] in
/-- A call that only loads the instance is not seen. -/
theorem poll_setStore_same {a : A} {kv : κ} {id' : String}
    (hu : LocalAcceptor.Updates codec (w.acceptors a) kv id'
      (LocalAcceptor.instanceOf codec (w.acceptors a) id')) :
    (w.setStore a kv).poll codec id = w.poll codec id := by
  rw [poll_setStore hu]
  split
  · rename_i hid
    subst hid
    unfold Poll.setInstance poll
    simp
  · rfl

omit [DecidableEq ι] in
theorem wellFormed_setStore (h : w.WellFormed codec) {a : A} {kv : κ} {id' : String}
    {i : PaxosInstance} (hu : LocalAcceptor.Updates codec (w.acceptors a) kv id' i) :
    (w.setStore a kv).WellFormed codec := by
  intro a'
  show LocalAcceptor.WellFormed codec (Function.update w.acceptors a kv a')
  by_cases ha : a' = a
  · rw [ha, Function.update_self]
    exact hu.wellFormed
  · rw [Function.update_of_ne ha]
    exact h a'

omit [DecidableEq A] [DecidableEq ι] in
theorem poll_observe_accepted (a : A) (id' : String) (b : BallotId) (v : String) :
    (w.observe (.accepted a id' b v)).poll codec id =
      if id' = id then { w.poll codec id with
        accepted := fun a' b' v' =>
          (a' = a ∧ b' = b ∧ v' = v) ∨ (w.poll codec id).accepted a' b' v' }
      else w.poll codec id := by
  unfold poll observe
  by_cases h : id' = id
  · simp [h]
  · simp [h, Ne.symm h]

omit [DecidableEq A] [DecidableEq ι] in
theorem poll_observe_proposed (id' : String) (b : BallotId) (v : String) :
    (w.observe (.proposed id' b v)).poll codec id =
      if id' = id then { w.poll codec id with
        proposed := fun b' v' => (b' = b ∧ v' = v) ∨ (w.poll codec id).proposed b' v' }
      else w.poll codec id := by
  unfold poll observe
  by_cases h : id' = id
  · simp [h]
  · simp [h, Ne.symm h]

omit [DecidableEq A] [DecidableEq ι] in
theorem poll_prepared (id' : String) (b : BallotId) :
    ({ w with prepared := (id', b) :: w.prepared } : ProposerWorld A ι κ).poll codec id =
      if id' = id then { w.poll codec id with
        prepared := fun b' => b' = b ∨ (w.poll codec id).prepared b' }
      else w.poll codec id := by
  unfold poll
  by_cases h : id' = id
  · simp [h]
  · simp [h, Ne.symm h]

/-! ## One event -/

section events

variable {m : Nat} {qs : QuorumSystem A} {o : ι} {r r' : ProposerObject A}
  (hqs : ∀ M : Finset A, m ≤ M.card → qs.IsQuorum {a | a ∈ M})

section

omit [DecidableEq A]

/-- An event of one proposer changes its own instance only. -/
theorem pollInv_set (w₁ : ProposerWorld A ι κ) (h : ∀ id, PollInv m qs (w.poll codec id))
    (hsame : r'.paxosInstanceId = r.paxosInstanceId)
    (hother : ∀ id, r.paxosInstanceId ≠ id → w₁.poll codec id = w.poll codec id)
    (hnew : PollInv m qs ((w₁.poll codec r.paxosInstanceId).setObject o (some r'))) (id : String) :
    PollInv m qs ((w₁.set o r').poll codec id) := by
  rw [poll_set]
  by_cases hid : r.paxosInstanceId = id
  · subst hid
    rw [if_pos hsame]
    exact hnew
  · rw [if_neg (hsame ▸ hid), hother id hid]
    exact (h id).discard o

/-- The state of the acceptors and of every instance. -/
structure QuorumInv (codec : Codec PaxosInstance β) (m : Nat) (qs : QuorumSystem A)
    (w : ProposerWorld A ι κ) : Prop where
  wellFormed : w.WellFormed codec
  polls : ∀ id, PollInv m qs (w.poll codec id)

/-- What a proposer does without an acceptor. -/
theorem QuorumInv.move (h : QuorumInv codec m qs w) (hr : w.proposers o = some r)
    (hsame : r'.paxosInstanceId = r.paxosInstanceId)
    (hinv : ProposerInv m qs (w.poll codec r.paxosInstanceId) r')
    (hopen : ∀ b ∈ r'.openBallots, b ∈ r.openBallots) : QuorumInv codec m qs (w.set o r') :=
  ⟨h.wellFormed, pollInv_set w h.polls hsame (fun _ _ => rfl)
    ((h.polls _).updateObject (poll_objects hr) hinv hopen)⟩

theorem QuorumInv.make (h : QuorumInv codec m qs w) {acceptors : List A} (hnodup : acceptors.Nodup)
    (o : ι) (id : String) : QuorumInv codec m qs (w.set o (.make m id acceptors)) := by
  refine ⟨h.wellFormed, fun id' => ?_⟩
  rw [poll_set]
  refine (h.polls id').setObject o _ fun r' hr' => ?_
  split at hr'
  · obtain rfl := Option.some.inj hr'
    exact ⟨proposerInv_make hnodup id, fun _ _ _ _ b hb => absurd hb List.not_mem_nil⟩
  · exact absurd hr' (by simp)

theorem QuorumInv.prepare (h : QuorumInv codec m qs w) (hr : w.proposers o = some r) {b : BallotId}
    (hnew : (r.paxosInstanceId, b) ∉ w.prepared) (hprepare : r.prepare b = some r') :
    QuorumInv codec m qs { w.set o r' with prepared := (r.paxosInstanceId, b) :: w.prepared } := by
  have hsame : r'.paxosInstanceId = r.paxosInstanceId := by
    obtain ⟨-, rfl⟩ := ProposerObject.prepare_cases hprepare
    rfl
  refine ⟨h.wellFormed, pollInv_set
    { w with prepared := (r.paxosInstanceId, b) :: w.prepared } h.polls hsame
    (fun id hid => ?_) ?_⟩
  · rw [poll_prepared, if_neg hid]
  · rw [poll_prepared, if_pos rfl]
    exact (h.polls _).prepare (poll_objects hr) hnew hprepare

theorem QuorumInv.propose (h : QuorumInv codec m qs w) (hr : w.proposers o = some r) {b : BallotId}
    {value : String} (hpropose : r.propose b value = some r') :
    QuorumInv codec m qs ((w.set o r').observe
      (.proposed r.paxosInstanceId b (r.proposer.proposalValue value))) := by
  have hsame : r'.paxosInstanceId = r.paxosInstanceId := by
    obtain ⟨-, -, rfl⟩ := ProposerObject.propose_cases hpropose
    rfl
  refine ⟨h.wellFormed, pollInv_set (w.observe
    (.proposed r.paxosInstanceId b (r.proposer.proposalValue value))) h.polls hsame
    (fun id hid => ?_) ?_⟩
  · rw [poll_observe_proposed, if_neg hid]
  · rw [poll_observe_proposed, if_pos rfl]
    exact (h.polls _).propose (poll_objects hr) hpropose

end

/-- A proposer stops waiting for an answer, which moves nothing else. -/
theorem QuorumInv.answerTimeout (h : QuorumInv codec m qs w) {k : Nat}
    (hs : w.step codec m (.answerTimeout o k) = some w') : QuorumInv codec m qs w' := by
  simp only [ProposerWorld.step, bind, pure, Option.bind_eq_some_iff, Option.some.injEq] at hs
  obtain ⟨r, hr, a, ha, rfl⟩ := hs
  obtain ⟨⟨answers, hph⟩, -⟩ := ProposerObject.outstanding_cases ha
  have hnone : ∀ promise, (none : Option PrepareResponse) ≠ some (.promise promise) := by simp
  obtain ⟨hinv, hopen⟩ := ((h.polls _).object (poll_objects hr)).unpromised ha hnone
  have hsame : (r.answer k none).paxosInstanceId = r.paxosInstanceId := by
    rw [ProposerObject.answer_eq k none hph]
  have hmoved := h.move hr hsame hinv fun b hb => hopen ▸ hb
  exact ⟨hmoved.wellFormed, hmoved.polls⟩

include hqs in
theorem QuorumInv.prepareDone (h : QuorumInv codec m qs w)
    (hs : w.step codec m (.prepareDone o) = some w') : QuorumInv codec m qs w' := by
  simp only [ProposerWorld.step, bind, pure, Option.bind_eq_some_iff, Option.some.injEq] at hs
  obtain ⟨r, hr, r', hdone, rfl⟩ := hs
  have hpoll := h.polls r.paxosInstanceId
  obtain ⟨hinv, hopen⟩ := (hpoll.object (poll_objects hr)).prepareDone hqs hpoll hdone
  have hsame : r'.paxosInstanceId = r.paxosInstanceId := by
    obtain ⟨-, -, ⟨-, rfl⟩ | ⟨-, rfl⟩⟩ := ProposerObject.prepareDone_cases hdone
    · rfl
    · rfl
  exact h.move hr hsame hinv hopen

include hqs in
theorem QuorumInv.acceptDone (h : QuorumInv codec m qs w)
    (hs : w.step codec m (.acceptDone o) = some w') : QuorumInv codec m qs w' := by
  simp only [ProposerWorld.step, bind, pure, Option.bind_eq_some_iff, Option.some.injEq] at hs
  obtain ⟨r, hr, r', hdone, rfl⟩ := hs
  obtain ⟨hinv, hopen⟩ := ((h.polls _).object (poll_objects hr)).acceptDone hqs hdone
  have hsame : r'.paxosInstanceId = r.paxosInstanceId := by
    obtain ⟨-, -, -, rfl | ⟨-, rfl⟩⟩ := ProposerObject.acceptDone_cases hdone
    · rfl
    · rfl
  exact h.move hr hsame hinv fun b hb => hopen ▸ hb

theorem QuorumInv.commitDone (h : QuorumInv codec m qs w)
    (hs : w.step codec m (.commitDone o) = some w') : QuorumInv codec m qs w' := by
  simp only [ProposerWorld.step, bind, pure, Option.bind_eq_some_iff, Option.some.injEq] at hs
  obtain ⟨r, hr, r', hdone, rfl⟩ := hs
  obtain ⟨⟨b, c, hph⟩, rfl⟩ := ProposerObject.commitDone_cases hdone
  obtain ⟨hinv, hopen⟩ := ((h.polls _).object (poll_objects hr)).setPhase .idle (by simp [hph])
    (by simp) (by simp) (by simp)
  exact h.move hr rfl hinv fun b hb => hopen ▸ hb

variable [LawfulKVStoreLite κ β]

omit [DecidableEq ι] in
/-- An acceptor answers a prepare that nobody listens to. -/
theorem QuorumInv.latePrepare (h : QuorumInv codec m qs w) (a : A) (id : String) (b : BallotId) :
    QuorumInv codec m qs (w.call a (LocalAcceptor.prepare codec id b)).2 := by
  obtain ⟨response, kv, hexec, hcases⟩ := LocalAcceptor.prepare_spec (h.wellFormed a) id b
  rw [call_eq hexec]
  rcases hcases with ⟨-, -, hu⟩ | ⟨hlt, -, hu⟩
  · refine ⟨wellFormed_setStore h.wellFormed hu, fun id' => ?_⟩
    rw [poll_setStore_same hu]
    exact h.polls id'
  · refine ⟨wellFormed_setStore h.wellFormed hu, fun id' => ?_⟩
    rw [poll_setStore hu]
    split
    · rename_i hid
      subst hid
      exact (h.polls _).promise hlt
    · exact h.polls id'

theorem QuorumInv.answer (h : QuorumInv codec m qs w) (hr : w.proposers o = some r) {k : Nat} {a : A}
    (ha : r.outstanding k = some a) (timedOut : Bool) :
    ∃ response w₁, w.call a (LocalAcceptor.prepare codec r.paxosInstanceId r.ballotId) =
        (.ok response, w₁) ∧
      QuorumInv codec m qs (w₁.set o (r.answer k (if timedOut then none else some response))) := by
  obtain ⟨response, kv, hexec, hcases⟩ :=
    LocalAcceptor.prepare_spec (h.wellFormed a) r.paxosInstanceId r.ballotId
  refine ⟨response, w.setStore a kv, call_eq hexec, ?_⟩
  have hlate := h.latePrepare a r.paxosInstanceId r.ballotId
  rw [call_eq hexec] at hlate
  have hsame : ∀ response, (r.answer k response).paxosInstanceId = r.paxosInstanceId := by
    obtain ⟨⟨answers, hph⟩, -⟩ := ProposerObject.outstanding_cases ha
    intro response
    rw [ProposerObject.answer_eq k response hph]
  -- unless a promise is heard, the acceptor and the proposer move each for itself
  have hunheard : ∀ response : Option PrepareResponse,
      (∀ promise, response ≠ some (.promise promise)) →
      QuorumInv codec m qs ((w.setStore a kv).set o (r.answer k response)) := by
    intro response hresponse
    obtain ⟨hinv, hopen⟩ := ((hlate.polls _).object
      (poll_objects (w := w.setStore a kv) hr)).unpromised ha hresponse
    exact hlate.move (w := w.setStore a kv) hr (hsame _) hinv fun b hb => hopen ▸ hb
  cases timedOut with
  | true => exact hunheard none (by simp)
  | false =>
    rcases hcases with ⟨-, rfl, -⟩ | ⟨hlt, rfl, hu⟩
    · exact hunheard (some .rejected) (by simp)
    · refine ⟨hlate.wellFormed, pollInv_set _ h.polls (hsame _) (fun id hid => ?_) ?_⟩
      · rw [poll_setStore hu, if_neg hid]
      · have hpoll := h.polls r.paxosInstanceId
        have hobject : (w.poll codec r.paxosInstanceId).objects o = some r := poll_objects hr
        obtain ⟨hinv, hopen⟩ := ProposerInv.grant hpoll (hpoll.object hobject) ha hlt
        rw [poll_setStore hu, if_pos rfl]
        exact (hpoll.promise hlt).updateObject hobject hinv fun b hb => hopen ▸ hb

theorem QuorumInv.accept (h : QuorumInv codec m qs w) (hr : w.proposers o = some r) {p : Proposal}
    {a : A} {remaining : List A} {n : Nat} (hph : r.phase = .accepting p (a :: remaining) n) :
    ∃ result w₁, w.call a (LocalAcceptor.accept codec r.paxosInstanceId p) = (.ok result, w₁) ∧
      QuorumInv codec m qs (if result then
        (w₁.observe (.accepted a r.paxosInstanceId p.ballotId p.value)).set o
          { r with phase := .accepting p remaining (n + 1) }
        else w₁.set o { r with phase := .accepting p remaining n }) := by
  obtain ⟨result, kv, hexec, hcases⟩ :=
    LocalAcceptor.accept_spec (h.wellFormed a) r.paxosInstanceId p
  refine ⟨result, w.setStore a kv, call_eq hexec, ?_⟩
  rcases hcases with ⟨-, rfl, hu⟩ | ⟨hle, rfl, hu⟩
  · refine ⟨wellFormed_setStore h.wellFormed hu, pollInv_set (w.setStore a kv) (r := r)
      h.polls rfl (fun id _ => poll_setStore_same hu) ?_⟩
    rw [poll_setStore_same hu]
    exact (h.polls _).refuse (poll_objects hr) hph
  · refine ⟨wellFormed_setStore h.wellFormed hu, pollInv_set
      ((w.setStore a kv).observe (.accepted a r.paxosInstanceId p.ballotId p.value)) (r := r)
      h.polls rfl (fun id hid => ?_) ?_⟩
    · rw [poll_observe_accepted, if_neg hid, poll_setStore hu, if_neg hid]
    · rw [poll_observe_accepted, if_pos rfl, poll_setStore hu, if_pos rfl]
      exact (h.polls _).accept (poll_objects hr) hph hle

theorem QuorumInv.commit (h : QuorumInv codec m qs w) (hr : w.proposers o = some r) {b : BallotId}
    {a : A} {remaining : List A} {c : Bool} (hph : r.phase = .committing b (a :: remaining) c)
    (hok : w.CommitsAccepted codec (.commit o)) :
    ∃ result w₁, w.call a (LocalAcceptor.commit codec r.paxosInstanceId b) = (.ok result, w₁) ∧
      QuorumInv codec m qs (w₁.set o { r with phase := .committing b remaining (c || result) }) := by
  obtain ⟨kv, hexec, hu⟩ := LocalAcceptor.commit_spec (h.wellFormed a) r.paxosInstanceId b
  have htarget : w.commitTarget (.commit o) = some (a, r.paxosInstanceId, b) := by
    simp only [commitTarget, hr, hph]
  refine ⟨_, w.setStore a kv, call_eq hexec, wellFormed_setStore h.wellFormed hu,
    pollInv_set (w.setStore a kv) (r := r) h.polls rfl (fun id hid => ?_) ?_⟩
  · rw [poll_setStore hu, if_neg hid]
  · rw [poll_setStore hu, if_pos rfl]
    exact (h.polls _).commitNext (poll_objects hr) hph _ (hok _ htarget)

/-- `getCommittedValue` is read from the store, which stays as it was. -/
theorem QuorumInv.query (h : QuorumInv codec m qs w) {a : A} {id : String}
    (hs : w.step codec m (.query a id) = some w') : QuorumInv codec m qs w' := by
  obtain ⟨kv, hexec, hu⟩ := LocalAcceptor.getCommittedValue_spec (h.wellFormed a) id
  simp only [ProposerWorld.step, call_eq hexec, Option.some.injEq] at hs
  subst hs
  refine ⟨wellFormed_setStore h.wellFormed hu, fun id' => ?_⟩
  rw [poll_setStore_same hu]
  exact h.polls id'

include hqs in
/-- **One event** keeps the invariant, if a commit reaches only who has accepted. -/
theorem QuorumInv.step (h : QuorumInv codec m qs w) {e : ProposerEvent A ι}
    (hok : w.CommitsAccepted codec e) (hs : w.step codec m e = some w') :
    QuorumInv codec m qs w' := by
  cases e with
  | make o id acceptors =>
    simp only [ProposerWorld.step] at hs
    split at hs
    · rename_i hnodup
      obtain rfl := Option.some.inj hs
      exact h.make hnodup o id
    · exact absurd hs (by simp)
  | prepare o b =>
    simp only [ProposerWorld.step, bind, pure, Option.bind_eq_some_iff] at hs
    obtain ⟨r, hr, hs⟩ := hs
    split at hs
    · exact absurd hs (by simp)
    · rename_i hnew
      obtain ⟨r', hprepare, hs⟩ := Option.bind_eq_some_iff.mp hs
      obtain rfl := Option.some.inj hs
      exact h.prepare hr hnew hprepare
  | answer o k timedOut =>
    simp only [ProposerWorld.step, bind, pure, Option.bind_eq_some_iff] at hs
    obtain ⟨r, hr, a, ha, hs⟩ := hs
    obtain ⟨response, w₁, hcall, hinv⟩ := h.answer hr ha timedOut
    rw [hcall] at hs
    obtain rfl := Option.some.inj hs
    exact hinv
  | answerTimeout o k => exact h.answerTimeout hs
  | latePrepare a id b =>
    simp only [ProposerWorld.step] at hs
    split at hs
    · obtain rfl := Option.some.inj hs
      have hlate := h.latePrepare a id b
      exact ⟨hlate.wellFormed, hlate.polls⟩
    · exact absurd hs (by simp)
  | prepareDone o => exact h.prepareDone hqs hs
  | propose o b value =>
    simp only [ProposerWorld.step, bind, pure, Option.bind_eq_some_iff, Option.some.injEq] at hs
    obtain ⟨r, hr, r', hpropose, rfl⟩ := hs
    exact h.propose hr hpropose
  | accept o =>
    simp only [ProposerWorld.step, bind, pure, Option.bind_eq_some_iff] at hs
    obtain ⟨r, hr, hs⟩ := hs
    split at hs
    · rename_i p a remaining n hph
      obtain ⟨result, w₁, hcall, hinv⟩ := h.accept hr hph
      rw [hcall] at hs
      cases result with
      | true =>
        obtain rfl := Option.some.inj hs
        exact hinv
      | false =>
        obtain rfl := Option.some.inj hs
        exact hinv
    · exact absurd hs (by simp)
  | acceptDone o => exact h.acceptDone hqs hs
  | commit o =>
    simp only [ProposerWorld.step, bind, pure, Option.bind_eq_some_iff] at hs
    obtain ⟨r, hr, hs⟩ := hs
    split at hs
    · rename_i b a remaining c hph
      obtain ⟨result, w₁, hcall, hinv⟩ := h.commit hr hph hok
      rw [hcall] at hs
      obtain rfl := Option.some.inj hs
      exact hinv
    · exact absurd hs (by simp)
  | commitDone o => exact h.commitDone hs
  | query a id => exact h.query hs

end events

omit [DecidableEq A] [DecidableEq ι] in
theorem Initial.quorumInv (h : w.Initial) (m : Nat) (qs : QuorumSystem A) :
    QuorumInv codec m qs w where
  wellFormed a := LocalAcceptor.wellFormed_of_empty (h.stores a)
  polls id := by
    have hinstance : ∀ a, (w.poll codec id).instances a = LocalAcceptor.freshInstance id := fun a =>
      LocalAcceptor.instanceOf_of_empty (h.stores a) _
    have hvotes : ∀ {a b v}, ¬ (w.poll codec id).accepted a b v := by simp [poll, h.trace]
    have hproposed : ∀ {b v}, ¬ (w.poll codec id).proposed b v := by simp [poll, h.trace]
    have hobjects : ∀ o, (w.poll codec id).objects o = none := by simp [poll, h.proposers]
    exact {
      votes := fun hv => absurd hv hvotes, le_promised := fun hv => absurd hv hvotes
      one := fun hv => absurd hv hproposed, safe := fun hv => absurd hv hproposed
      proposed_prepared := fun hv => absurd hv hproposed
      accepted_none := fun _ _ _ => hvotes
      accepted_some := fun {a p} hs => by
        rw [hinstance a] at hs
        exact absurd hs (by simp [LocalAcceptor.freshInstance])
      committed := fun {a} hc => by
        rw [hinstance a] at hc
        exact absurd hc (by simp [LocalAcceptor.freshInstance])
      object := fun {o r} hr => by
        rw [hobjects o] at hr
        exact absurd hr (by simp)
      disjoint := fun {o o' r r'} hr => by
        rw [hobjects o] at hr
        exact absurd hr (by simp) }

end ProposerWorld

/-- **Committed means chosen.** Take any number of proposers with unique ballots over the acceptors
`A`, a majority size above one half, and any interleaving in which a commit reaches only acceptors
that have accepted at its ballot or above. Whatever `getCommittedValue` returns at an acceptor, for
any instance, has been accepted by that many acceptors at one ballot. -/
theorem committed_value_chosen [Fintype A] [LawfulKVStoreLite κ β] {codec : Codec PaxosInstance β}
    {majoritySize : Nat} (hmajority : Fintype.card A < 2 * majoritySize)
    {w₀ w : ProposerWorld A ι κ} (h₀ : w₀.Initial) {es : List (ProposerEvent A ι)}
    (hrun : Transition.run (ProposerWorld.step codec majoritySize) w₀ es = some w)
    (hcommits : Transition.Meets (ProposerWorld.step codec majoritySize)
      (ProposerWorld.CommitsAccepted codec) w₀ es)
    {a : A} {id v : String}
    (hv : (Coro.exec (LocalAcceptor.getCommittedValue codec id) (w.acceptors a)).1 = .ok (some v)) :
    ∃ b, ∃ M : Finset A, majoritySize ≤ M.card ∧ ∀ a' ∈ M, .accepted a' id b v ∈ w.trace := by
  have hqs : ∀ M : Finset A, majoritySize ≤ M.card →
      (QuorumSystem.atLeast hmajority).IsQuorum {a | a ∈ M} := fun M hM => ⟨M, hM, fun _ ha => ha⟩
  have hinv : ProposerWorld.QuorumInv codec majoritySize (QuorumSystem.atLeast hmajority) w :=
    Transition.meets_invariant (fun w e w' h hok hs => h.step hqs hok hs) hrun hcommits
      (h₀.quorumInv majoritySize _)
  obtain ⟨kv, hexec, -⟩ := LocalAcceptor.getCommittedValue_spec (hinv.wellFormed a) id
  rw [hexec] at hv
  obtain ⟨b, Q, ⟨M, hM, hsub⟩, hall⟩ :=
    (hinv.polls id).chosen_of_committedValue (a := a) (Except.ok.inj hv)
  exact ⟨b, M, hM, fun a' ha' => hall a' (hsub a' ha')⟩

/-- Three acceptors on fresh stores. -/
def threeAcceptors : ProposerWorld (Fin 3) (Fin 2) (RocksStore PaxosInstance) where
  acceptors _ := RocksStore.provideSharedPtr true
  proposers _ := none

/-- The first proposer hears of two promises only, gets "x" accepted and commits it; the second one
is asked to propose "y", hears of the vote for "x", and commits that at the third acceptor. -/
def twoOutOfThree : List (ProposerEvent (Fin 3) (Fin 2)) :=
  [.make 0 "7" [0, 1, 2], .prepare 0 ⟨7, 1⟩, .answer 0 0 false, .answer 0 1 false,
    .answerTimeout 0 2, .prepareDone 0, .propose 0 ⟨7, 1⟩ "x", .accept 0, .accept 0, .acceptDone 0,
    .commit 0, .commit 0, .commitDone 0,
    .make 1 "7" [2, 1], .prepare 1 ⟨7, 2⟩, .answer 1 0 false, .answer 1 1 false, .prepareDone 1,
    .propose 1 ⟨7, 2⟩ "y", .accept 1, .accept 1, .acceptDone 1, .commit 1, .commit 1]

theorem committed_value_chosen_two_of_three :
    ∃ w, Transition.run (ProposerWorld.step (Codec.identity PaxosInstance) 2) threeAcceptors
        twoOutOfThree = some w ∧
      (Coro.exec (LocalAcceptor.getCommittedValue (Codec.identity PaxosInstance) "7")
        (w.acceptors 2)).1 = .ok (some "x") ∧
      ∃ b, ∃ M : Finset (Fin 3), 2 ≤ M.card ∧ ∀ a ∈ M, .accepted a "7" b "x" ∈ w.trace := by
  have hinit : threeAcceptors.Initial := ⟨fun _ _ => rfl, fun _ => rfl, rfl, rfl⟩
  have hcommits : Transition.Meets (ProposerWorld.step (Codec.identity PaxosInstance) 2)
      (ProposerWorld.CommitsAccepted (Codec.identity PaxosInstance)) threeAcceptors
      twoOutOfThree := by decide +kernel
  have hvalue : (Transition.run (ProposerWorld.step (Codec.identity PaxosInstance) 2)
      threeAcceptors twoOutOfThree).map (fun w =>
        (Coro.exec (LocalAcceptor.getCommittedValue (Codec.identity PaxosInstance) "7")
          (w.acceptors 2)).1) = some (.ok (some "x")) := by decide +kernel
  obtain ⟨w, hrun, hv⟩ := Option.map_eq_some_iff.mp hvalue
  exact ⟨w, hrun, hv, committed_value_chosen (by decide) hinit hrun hcommits hv⟩

/-- The first proposer holds all three promises and has the votes of two acceptors when the third
one promises another proposer and refuses. It is sent the commit all the same. -/
def committedAnyway : List (ProposerEvent (Fin 3) (Fin 2)) :=
  [.make 0 "7" [0, 1, 2], .prepare 0 ⟨7, 1⟩, .answer 0 0 false, .answer 0 1 false,
    .answer 0 2 false, .prepareDone 0, .propose 0 ⟨7, 1⟩ "x", .accept 0, .accept 0,
    .make 1 "7" [0, 1, 2], .prepare 1 ⟨7, 2⟩, .answer 1 2 false,
    .accept 0, .acceptDone 0, .commit 0, .commit 0, .commit 0]

/-- The third acceptor then answers the empty string, which nobody has accepted. -/
theorem committed_without_accepting :
    ∃ w, Transition.run (ProposerWorld.step (Codec.identity PaxosInstance) 2) threeAcceptors
        committedAnyway = some w ∧
      (Coro.exec (LocalAcceptor.getCommittedValue (Codec.identity PaxosInstance) "7")
        (w.acceptors 2)).1 = .ok (some "") ∧
      ¬ ∃ b, ∃ M : Finset (Fin 3), 2 ≤ M.card ∧ ∀ a ∈ M, .accepted a "7" b "" ∈ w.trace := by
  have hvalue : (Transition.run (ProposerWorld.step (Codec.identity PaxosInstance) 2)
      threeAcceptors committedAnyway).map (fun w =>
        ((Coro.exec (LocalAcceptor.getCommittedValue (Codec.identity PaxosInstance) "7")
          (w.acceptors 2)).1, w.trace)) =
      some (.ok (some ""), [.accepted 1 "7" ⟨7, 1⟩ "x", .accepted 0 "7" ⟨7, 1⟩ "x",
        .proposed "7" ⟨7, 1⟩ "x"]) := by decide +kernel
  obtain ⟨w, hrun, hv⟩ := Option.map_eq_some_iff.mp hvalue
  obtain ⟨hanswer, htrace⟩ := Prod.mk.inj hv
  refine ⟨w, hrun, hanswer, ?_⟩
  rintro ⟨b, M, hM, hall⟩
  obtain ⟨a, ha⟩ := Finset.card_pos.mp (lt_of_lt_of_le Nat.two_pos hM)
  have hmem := hall a ha
  rw [htrace] at hmem
  simp at hmem

end ReplicatedCounter.Paxos
