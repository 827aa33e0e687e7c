import ReplicatedCounter.Paxos.Agreement
import ReplicatedCounter.Paxos.Frames

/-!
# What a `write` that returned `true` has written

`propose` sends out the selected proposal if there is one, and its boolean result says that some
acceptor has committed *something* under it. `write` hands that result on. So `true` means that the
payload has won only if no proposal was selected when the write began, or one with that payload
(`write_true_iff`).

A `write` is followed from its call to its return (`Writing`): from the end of the accept loop on
the value it has sent out is chosen, and from the first successful commit on some acceptor is
committed. Both stay (`Won`), and a `read` that begins later passes every acceptor, so it cannot
miss that one.
-/

set_option autoImplicit false

namespace ReplicatedCounter.Paxos

open Voting Relation

variable {A ι κ β : Type} [DecidableEq A] [DecidableEq ι] [KVStoreLite κ β]

namespace World

section statement

variable (codec : Codec PaxosInstance β)

/-- The objects made for the register are made with the acceptors `S`. -/
def MadeWith (reg : Int) (S : List A) (es : List (Event A ι)) : Prop :=
  ∀ o acceptors, .make o reg acceptors ∈ es → acceptors = S

/-- The object in the slot is not called. -/
def Uncalled (o : ι) (es : List (Event A ι)) : Prop :=
  ∀ e ∈ es, e.owner = some o → e.IsCall = false

/-- `write(lockId, payload)`, called on the object in slot `o` of `w`, returns `true`; `w'` is the
state then, and `during` what happens in between. -/
def WriteReturnsTrue (w : World A ι κ) (o : ι) (lockId : Int) (payload : String)
    (during : List (Event A ι)) (w' : World A ι κ) : Prop :=
  ∃ w₁, Transition.run (World.next codec) w (.write o lockId payload :: during) = some w₁ ∧
    Uncalled o during ∧ w₁.step codec (.commitDone o) = some (w', some (.writeReturned true))

/-- A `read()` of some object of the register that is called after `w` returns `answer`. -/
def LaterRead (reg : Int) (S : List A) (w : World A ι κ) (answer : Option String) : Prop :=
  ∃ later o r reading e w₁ w₂ w₃, Transition.run (World.next codec) w later = some w₁ ∧
    w₁.registers o = some r ∧ r.majorId = reg ∧
    Transition.run (World.next codec) w₁ (.read o :: reading) = some w₂ ∧ Uncalled o reading ∧
    MadeWith reg S (later ++ reading) ∧
    e.owner = some o ∧ w₂.step codec e = some (w₃, some (.readReturned answer))

end statement

variable {codec : Codec PaxosInstance β} {reg : Int} {S : List A} {w w' : World A ι κ}
  {r r' : RegisterObject A} {e : Event A ι} {es : List (Event A ι)} {out : Option Output}
  {value : String} {o : ι}

/-! ## Committed stays committed -/

/-- The acceptor has committed the register. -/
def CommittedAt (codec : Codec PaxosInstance β) (reg : Int) (w : World A ι κ) (a : A) : Prop :=
  ((w.decree codec reg).instances a).committed = true

theorem committed_of_decreeStep {d d' : Decree A ι} (h : Decree.Step reg S d d') {a : A}
    (hc : (d.instances a).committed = true) : (d'.instances a).committed = true := by
  cases h with
  | make o => exact hc
  | discard o => exact hc
  | localMove _ _ => exact hc
  | promise _ =>
    rw [Decree.setInstance_keeps PaxosInstance.committed (by rfl)]
    exact hc
  | @grant o r k a' _ _ _ =>
    have hkeeps := Decree.setInstance_keeps (d := d) PaxosInstance.committed (a := a')
      (i := { d.instances a' with promisedBallotId := r.ballot r.lockId }) rfl a
    exact hkeeps.trans hc
  | write _ _ => exact hc
  | @vote o r p a' remaining n _ _ _ =>
    have hkeeps := Decree.setInstance_keeps (d := d) PaxosInstance.committed (a := a')
      (i := { d.instances a' with
        promisedBallotId := p.ballotId
        accepted := some { ballotId := some p.ballotId, value := some p.value } }) rfl a
    exact hkeeps.trans hc
  | commit _ _ =>
    rw [Decree.setInstance_apply PaxosInstance.committed]
    split
    · rfl
    · exact hc
  | answer _ => exact hc

theorem CommittedAt.step [LawfulKVStoreLite κ β] {a : A} (h : CommittedAt codec reg w a)
    (hwf : w.WellFormed codec) (hs : w.step codec e = some (w', out))
    (hmake : ∀ o acceptors, e = .make o reg acceptors → acceptors = S) :
    CommittedAt codec reg w' a := by
  obtain ⟨-, hsteps⟩ := step_refines hwf hs hmake
  unfold CommittedAt at *
  generalize w'.decree codec reg = d at hsteps ⊢
  induction hsteps with
  | refl => exact h
  | tail _ hstep ih => exact committed_of_decreeStep hstep ih

/-- After a commit the acceptor is committed. -/
theorem committedAt_of_commit [LawfulKVStoreLite κ β] (hwf : w.WellFormed codec)
    (hr : w.registers o = some r) {b : BallotId} {a : A} {remaining : List A} {c : Bool}
    (hph : r.phase = .committing b (a :: remaining) c)
    (hs : w.step codec (.commit o) = some (w', out)) : CommittedAt codec r.majorId w' a := by
  obtain ⟨kv, hexec, hu⟩ := LocalAcceptor.commit_spec (hwf a) (instanceId r.majorId) b
  simp only [step, bind, pure, hr, Option.bind_some, hph, call_eq hexec, Option.some.injEq,
    Prod.mk.injEq] at hs
  obtain ⟨rfl, -⟩ := hs
  show (LocalAcceptor.instanceOf codec (Function.update w.acceptors a kv a)
    (instanceId r.majorId)).committed = true
  rw [Function.update_self, hu.same]

/-! ## A register that has been won -/

/-- A value is chosen for the register, and an acceptor is committed. -/
structure Won (codec : Codec PaxosInstance β) (reg : Int) (S : List A) (value : String) (a : A)
    (w : World A ι κ) : Prop where
  inv : RegisterInv codec reg S w
  chosen : ∃ b, (w.decree codec reg).record.Chosen (allOf S) b value
  committed : CommittedAt codec reg w a

omit [DecidableEq A] [DecidableEq ι] in
theorem chosen_mono (h : ∃ b, (w.decree codec reg).record.Chosen (allOf S) b value)
    (htrace : ∀ obs ∈ w.trace, obs ∈ w'.trace) :
    ∃ b, (w'.decree codec reg).record.Chosen (allOf S) b value := by
  obtain ⟨b, hc⟩ := h
  exact ⟨b, hc.mono (htrace _ ·)⟩

variable [LawfulKVStoreLite κ β]

theorem Won.step {a : A} (h : Won codec reg S value a w) (hs : w.step codec e = some (w', out))
    (hmake : ∀ o acceptors, e = .make o reg acceptors → acceptors = S) :
    Won codec reg S value a w' where
  inv := h.inv.step hs hmake
  chosen := chosen_mono h.chosen (step_moves hs).1
  committed := h.committed.step h.inv.wellFormed hs hmake

omit [LawfulKVStoreLite κ β] in
theorem MadeWith.meets (h : MadeWith reg S es) {s : World A ι κ} :
    Transition.Meets (World.next codec) (fun _ e => ∀ o acceptors, e = .make o reg acceptors →
      acceptors = S) s es :=
  Transition.meets_of_mem fun _ he _ o acceptors heq => h o acceptors (heq ▸ he)

/-- The register stays won. -/
theorem Won.run {a : A} (h : Won codec reg S value a w) (hmade : MadeWith reg S es)
    (hrun : Transition.run (World.next codec) w es = some w') : Won codec reg S value a w' := by
  refine Transition.meets_invariant ?_ hrun hmade.meets h
  intro s e s' hs hok hnext
  obtain ⟨⟨s'', out⟩, hstep, rfl⟩ := Option.map_eq_some_iff.mp hnext
  exact hs.step hstep hok

/-! ## From the call of a `write` to its return -/

/-- What the object of a running `write` satisfies that has sent out `value`. -/
structure Writing (codec : Codec PaxosInstance β) (reg : Int) (S : List A) (value : String)
    (w : World A ι κ) (r : RegisterObject A) : Prop where
  majorId : r.majorId = reg
  accepting : ∀ p remaining n, r.phase = .accepting p remaining n → p.value = value
  /-- As soon as a commit has been made or is about to be, all acceptors have voted. -/
  committing : ∀ b remaining c, r.phase = .committing b remaining c → (c = true ∨ remaining ≠ []) →
    ∃ b, (w.decree codec reg).record.Chosen (allOf S) b value
  committed : ∀ b remaining, r.phase = .committing b remaining true →
    ∃ a ∈ S, CommittedAt codec reg w a

omit [DecidableEq A] [DecidableEq ι] [LawfulKVStoreLite κ β] in
/-- Outside its two loops there is nothing to say of a `write`. -/
theorem writing_of_idle (hreg : r.majorId = reg)
    (ha : ∀ p remaining n, r.phase ≠ .accepting p remaining n)
    (hc : ∀ b remaining c, r.phase ≠ .committing b remaining c) : Writing codec reg S value w r :=
  ⟨hreg, fun p remaining n hph => absurd hph (ha p remaining n),
    fun b remaining c hph => absurd hph (hc b remaining c),
    fun b remaining hph => absurd hph (hc b remaining true)⟩

/-- Other parties move. -/
theorem Writing.mono (h : Writing codec reg S value w r) (hwf : w.WellFormed codec)
    (hs : w.step codec e = some (w', out))
    (hmake : ∀ o acceptors, e = .make o reg acceptors → acceptors = S) :
    Writing codec reg S value w' r where
  majorId := h.majorId
  accepting := h.accepting
  committing b remaining c hph hc := chosen_mono (h.committing b remaining c hph hc) (step_moves hs).1
  committed b remaining hph := by
    obtain ⟨a, ha, hcommitted⟩ := h.committed b remaining hph
    exact ⟨a, ha, hcommitted.step hwf hs hmake⟩

/-- **The `write` goes on.** At the end of the accept loop as many acceptors have accepted as there
are, so all have; and whoever is sent a commit is committed then. -/
theorem Writing.moves (h : Writing codec reg S value w r) (hinv : RegisterInv codec reg S w)
    (hr : w.registers o = some r) (hcall : e.IsCall = false) (howner : e.owner = some o)
    (hs : w.step codec e = some (w', out)) (hm : Moves w'.trace (some r) e r' out) :
    Writing codec reg S value w' r' := by
  have hobj := hinv.decree.object (decree_objects_same hr h.majorId)
  have htrace := (step_moves hs).1
  have hmake : ∀ o acceptors, e = .make o reg acceptors → acceptors = S := by
    intro o acceptors heq
    rw [heq] at hcall
    cases hcall
  have hkept := h.mono hinv.wellFormed hs hmake
  have hfinish : Writing codec reg S value w' r.finish :=
    writing_of_idle h.majorId (by simp [RegisterObject.finish]) (by simp [RegisterObject.finish])
  cases hm with
  | make => cases hcall
  | lock => cases hcall
  | write => cases hcall
  | read => cases hcall
  | answer k response _ =>
    unfold RegisterObject.answer
    split
    · exact writing_of_idle h.majorId (by simp) (by simp)
    · exact hkept
  | threw _ _ => exact hfinish
  | lockDone hl =>
    obtain ⟨_, -, ⟨-, -, rfl⟩ | ⟨-, -, rfl⟩⟩ := RegisterObject.lockDone_cases hl
    · exact writing_of_idle h.majorId (by simp) (by simp)
    · exact writing_of_idle h.majorId (by simp) (by simp)
  | accept n' hph =>
    refine ⟨h.majorId, ?_, by simp, by simp⟩
    intro p remaining m heq
    simp only [Phase.accepting.injEq] at heq
    obtain ⟨rfl, -, -⟩ := heq
    exact h.accepting _ _ _ hph
  | acceptDone hd =>
    obtain ⟨p, m, hph, ⟨-, -, rfl⟩ | ⟨hm, -, rfl⟩⟩ := RegisterObject.acceptDone_cases hd
    · exact hfinish
    · refine ⟨h.majorId, by simp, ?_, by simp⟩
      intro b remaining c heq hc
      simp only [Phase.committing.injEq] at heq
      obtain ⟨rfl, rfl, rfl⟩ := heq
      have hchosen := hinv.chosen_of_majority hr h.majorId hph hm (hc.resolve_left (by simp))
      rw [h.accepting p [] m hph] at hchosen
      exact chosen_mono hchosen htrace
  | @commit r o' b a remaining c c' hph =>
    have howner' : o' = o := Option.some.inj howner
    subst howner'
    refine ⟨h.majorId, by simp, ?_, ?_⟩
    · intro b' remaining' c'' heq _
      exact chosen_mono (h.committing _ _ _ hph (.inr (by simp))) htrace
    · intro b' remaining' heq
      have hmem := (hobj.committing _ _ _ hph a List.mem_cons_self).1
      exact ⟨a, hmem, h.majorId ▸ committedAt_of_commit hinv.wellFormed hr hph hs⟩
  | commitDone hd =>
    obtain ⟨_, -, rfl⟩ := RegisterObject.commitDone_cases hd
    exact hfinish
  | readValue _ => exact hfinish
  | readNext _ => exact writing_of_idle h.majorId (by simp) (by simp)
  | readDone hd =>
    obtain ⟨-, rfl⟩ := RegisterObject.readDone_cases hd
    exact hfinish

/-- **One event** while a `write` runs. -/
theorem Writing.step (h : Writing codec reg S value w r) (hinv : RegisterInv codec reg S w)
    (hr : w.registers o = some r) (hcall : e.owner = some o → e.IsCall = false)
    (hmake : ∀ o acceptors, e = .make o reg acceptors → acceptors = S)
    (hs : w.step codec e = some (w', out)) :
    ∃ r', w'.registers o = some r' ∧ Writing codec reg S value w' r' := by
  have hmoves := (step_moves hs).2
  cases howner : e.owner with
  | none =>
    rw [howner] at hmoves
    refine ⟨r, ?_, h.mono hinv.wellFormed hs hmake⟩
    rw [hmoves.1]
    exact hr
  | some o' =>
    rw [howner] at hmoves
    obtain ⟨r', hregisters, hm⟩ := hmoves
    by_cases ho : o' = o
    · subst ho
      rw [hr] at hm
      refine ⟨r', ?_, h.moves hinv hr (hcall howner) howner hs hm⟩
      rw [hregisters, Function.update_self]
    · refine ⟨r, ?_, h.mono hinv.wellFormed hs hmake⟩
      rw [hregisters, Function.update_of_ne (Ne.symm ho)]
      exact hr

omit [LawfulKVStoreLite κ β] in
/-- Runs in which the objects of the register are made with `S`, and the one in slot `o` is not
called. -/
theorem MadeWith.meets_uncalled (h : MadeWith reg S es) (hcall : Uncalled o es) {s : World A ι κ} :
    Transition.Meets (World.next codec) (fun _ e =>
      (∀ o acceptors, e = .make o reg acceptors → acceptors = S) ∧
        (e.owner = some o → e.IsCall = false)) s es :=
  Transition.meets_of_mem fun e he _ =>
    ⟨fun o acceptors heq => h o acceptors (heq ▸ he), hcall e he⟩

/-- **A `write` that returns `true` has won the register** for what it sent out. -/
theorem won_of_writeReturnsTrue (hinv : RegisterInv codec reg S w) (hr : w.registers o = some r)
    (hreg : r.majorId = reg) {lockId : Int} {payload : String} {during : List (Event A ι)}
    (hmade : MadeWith reg S during) (h : WriteReturnsTrue codec w o lockId payload during w') :
    ∃ a ∈ S, Won codec reg S (r.proposer.proposalValue payload) a w' := by
  obtain ⟨w₁, hrun, huncalled, hreturn⟩ := h
  obtain ⟨w₀, hwrite, hduring⟩ := Transition.run_cons_eq_some.mp hrun
  obtain ⟨⟨w₀', out⟩, hstep, rfl⟩ := Option.map_eq_some_iff.mp hwrite
  have hinv₀ : RegisterInv codec reg S w₀' := hinv.step hstep (by simp)
  -- the call
  obtain ⟨r₀, hr₀, hwriting⟩ : ∃ r₀, w₀'.registers o = some r₀ ∧
      Writing codec reg S (r.proposer.proposalValue payload) w₀' r₀ := by
    simp only [step, bind, pure, hr, Option.bind_some, Option.bind_eq_some_iff, Option.some.injEq,
      Prod.mk.injEq] at hstep
    obtain ⟨r₀, hw, rfl, -⟩ := hstep
    obtain ⟨-, -, rfl⟩ := RegisterObject.write_cases hw
    refine ⟨_, Function.update_self .., hreg, ?_, by simp, by simp⟩
    intro p remaining n heq
    simp only [Phase.accepting.injEq] at heq
    obtain ⟨rfl, -, -⟩ := heq
    rfl
  -- up to the return
  obtain ⟨hinv₁, r₁, hr₁, hwriting₁⟩ : RegisterInv codec reg S w₁ ∧ ∃ r₁, w₁.registers o = some r₁ ∧
      Writing codec reg S (r.proposer.proposalValue payload) w₁ r₁ := by
    refine Transition.meets_invariant (P := fun w => RegisterInv codec reg S w ∧
      ∃ r₁, w.registers o = some r₁ ∧ Writing codec reg S _ w r₁) ?_ hduring
      (hmade.meets_uncalled huncalled) ⟨hinv₀, r₀, hr₀, hwriting⟩
    rintro s e s' ⟨hsinv, rs, hrs, hs⟩ ⟨hmake, hcall⟩ hnext
    obtain ⟨⟨s'', out⟩, hstep, rfl⟩ := Option.map_eq_some_iff.mp hnext
    exact ⟨hsinv.step hstep hmake, hs.step hsinv hrs hcall hmake hstep⟩
  -- the return
  obtain ⟨-, r', -, hm⟩ := step_moves hreturn
  rw [hr₁] at hm
  obtain ⟨-, b, -, hph⟩ := hm.of_writeReturned
  obtain ⟨a, ha, hcommitted⟩ := hwriting₁.committed b [] hph
  refine ⟨a, ha, hinv₁.step hreturn (by simp), ?_, ?_⟩
  · exact chosen_mono (hwriting₁.committing b [] true hph (.inl rfl)) (step_moves hreturn).1
  · exact hcommitted.step (S := S) hinv₁.wellFormed hreturn (by simp)

/-! ## From the call of a `read` to its return -/

/-- The object of a running `read` has this acceptor still before it. -/
structure Reading (reg : Int) (a : A) (r : RegisterObject A) : Prop where
  majorId : r.majorId = reg
  unread : ∀ remaining, r.phase = .reading remaining → a ∈ remaining

/-- An acceptor that is asked answers its value if it is committed, and the `read` goes on to the
next if it is not. -/
theorem step_readNext (hwf : w.WellFormed codec) (hr : w.registers o = some r)
    (hs : w.step codec (.readNext o) = some (w', out)) :
    ∃ a remaining, r.phase = .reading (a :: remaining) ∧
      (w'.registers = Function.update w.registers o (some r.finish) ∨
        ¬ CommittedAt codec r.majorId w a ∧ w'.registers =
          Function.update w.registers o (some { r with phase := .reading remaining })) := by
  simp only [step, bind, pure, hr, Option.bind_some] at hs
  split at hs
  · rename_i a remaining hph
    refine ⟨a, remaining, hph, ?_⟩
    obtain ⟨kv, hexec, hu⟩ := LocalAcceptor.getCommittedValue_spec (hwf a) (instanceId r.majorId)
    rw [call_eq hexec] at hs
    cases hvalue : LocalAcceptor.committedValue
        (LocalAcceptor.instanceOf codec (w.acceptors a) (instanceId r.majorId)) with
    | some v =>
      rw [hvalue] at hs
      simp only [Option.some.injEq, Prod.mk.injEq] at hs
      obtain ⟨rfl, -⟩ := hs
      exact .inl rfl
    | none =>
      rw [hvalue] at hs
      simp only [Option.some.injEq, Prod.mk.injEq] at hs
      obtain ⟨rfl, -⟩ := hs
      refine .inr ⟨?_, rfl⟩
      intro hcommitted
      have hsome : LocalAcceptor.committedValue (LocalAcceptor.instanceOf codec (w.acceptors a)
          (instanceId r.majorId)) = some _ := if_pos hcommitted
      rw [hvalue] at hsome
      cases hsome
  · cases hs

/-- **The `read` goes on.** -/
theorem Reading.step {a : A} (h : Reading reg a r) (hwon : Won codec reg S value a w)
    (hr : w.registers o = some r) (hcall : e.owner = some o → e.IsCall = false)
    (hs : w.step codec e = some (w', out)) :
    ∃ r', w'.registers o = some r' ∧ Reading reg a r' := by
  have hmoves := (step_moves hs).2
  cases howner : e.owner with
  | none =>
    rw [howner] at hmoves
    refine ⟨r, ?_, h⟩
    rw [hmoves.1]
    exact hr
  | some o' =>
    rw [howner] at hmoves
    obtain ⟨r', hregisters, hm⟩ := hmoves
    by_cases ho : o' = o
    · subst ho
      have hcall := hcall howner
      rw [hr] at hm
      have hr' : w'.registers o' = some r' := by
        rw [hregisters, Function.update_self]
      have hidle : ∀ phase : Phase A, (∀ remaining, phase ≠ .reading remaining) →
          Reading reg a { r with phase } :=
        fun phase hphase => ⟨h.majorId, fun remaining hph => absurd hph (hphase remaining)⟩
      refine ⟨r', hr', ?_⟩
      cases hm with
      | make => cases hcall
      | lock => cases hcall
      | write => cases hcall
      | read => cases hcall
      | answer k response _ =>
        unfold RegisterObject.answer
        split
        · exact hidle _ (by simp)
        · exact h
      | threw _ _ => exact hidle _ (by simp)
      | lockDone hl =>
        obtain ⟨_, -, ⟨-, -, rfl⟩ | ⟨-, -, rfl⟩⟩ := RegisterObject.lockDone_cases hl
        · exact ⟨h.majorId, by simp⟩
        · exact ⟨h.majorId, by simp⟩
      | accept n' hph => exact hidle _ (by simp)
      | acceptDone hd =>
        obtain ⟨p, m, hph, ⟨-, -, rfl⟩ | ⟨hm, -, rfl⟩⟩ := RegisterObject.acceptDone_cases hd
        · exact hidle _ (by simp)
        · exact hidle _ (by simp)
      | commit c' hph => exact hidle _ (by simp)
      | commitDone hd =>
        obtain ⟨_, -, rfl⟩ := RegisterObject.commitDone_cases hd
        exact hidle _ (by simp)
      | readValue _ => exact hidle _ (by simp)
      | @readNext r o'' remaining =>
        obtain rfl : o'' = o' := Option.some.inj howner
        obtain ⟨a', remaining', hph, hnext⟩ := step_readNext hwon.inv.wellFormed hr hs
        rcases hnext with hfinished | ⟨hcommitted, hnext⟩
        · rw [hfinished, Function.update_self] at hr'
          rw [← Option.some.inj hr']
          exact hidle _ (by simp)
        · rw [hnext, Function.update_self] at hr'
          rw [← Option.some.inj hr']
          refine ⟨h.majorId, ?_⟩
          intro rest heq
          simp only [Phase.reading.injEq] at heq
          subst heq
          -- the acceptor that was asked is another one
          rcases List.mem_cons.mp (h.unread _ hph) with rfl | hmem
          · exact absurd (h.majorId ▸ hwon.committed) hcommitted
          · exact hmem
      | readDone hd =>
        obtain ⟨-, rfl⟩ := RegisterObject.readDone_cases hd
        exact hidle _ (by simp)
    · refine ⟨r, ?_, h⟩
      rw [hregisters, Function.update_of_ne (Ne.symm ho)]
      exact hr

omit [DecidableEq A] [DecidableEq ι] in
/-- A `read` that returns nothing has been to the end of the acceptors. -/
theorem Moves.of_nothingRead {trace : List (Observation A)}
    (h : Moves trace (some r) e r' (some (.readReturned none))) : r.phase = .reading [] := by
  generalize hout : some (Output.readReturned none) = out at h
  cases h with
  | readDone hd =>
    unfold RegisterObject.readDone at hd
    split at hd
    · assumption
    · cases hd
  | @acceptDone r r' o result hd => cases result <;> simp at hout
  | _ => simp at hout

/-- **Every later `read` returns the value** the register was won for. -/
theorem Won.read {a : A} (h : Won codec reg S value a w) (ha : a ∈ S) {answer : Option String}
    (hread : LaterRead codec reg S w answer) : answer = some value := by
  obtain ⟨later, o, r, reading, e, w₁, w₂, w₃, hlater, hr, hreg, hrun, huncalled, hmade, howner,
    hreturn⟩ := hread
  have hwon₁ := h.run (fun o acceptors hm => hmade o acceptors (List.mem_append_left _ hm)) hlater
  obtain ⟨w₁', hcall, hreading⟩ := Transition.run_cons_eq_some.mp hrun
  obtain ⟨⟨w₁'', out⟩, hstep, rfl⟩ := Option.map_eq_some_iff.mp hcall
  have hwon₁' : Won codec reg S value a w₁'' := hwon₁.step hstep (by simp)
  -- the call: all acceptors are still to be asked
  obtain ⟨r₁, hr₁, hbegin⟩ : ∃ r₁, w₁''.registers o = some r₁ ∧ Reading reg a r₁ := by
    have hS := (hwon₁.inv.decree.object (decree_objects_same hr hreg)).prepareAcceptors
    simp only [World.step, bind, pure, hr, Option.bind_some, Option.bind_eq_some_iff, Option.some.injEq,
      Prod.mk.injEq] at hstep
    obtain ⟨r₁, hd, rfl, -⟩ := hstep
    obtain ⟨-, rfl⟩ := RegisterObject.read_cases hd
    refine ⟨_, Function.update_self .., hreg, ?_⟩
    intro remaining heq
    simp only [Phase.reading.injEq] at heq
    rw [← heq, hS]
    exact ha
  -- up to the return
  obtain ⟨hwon₂, r₂, hr₂, hend⟩ : Won codec reg S value a w₂ ∧
      ∃ r₂, w₂.registers o = some r₂ ∧ Reading reg a r₂ := by
    have hmade' : MadeWith reg S reading :=
      fun o acceptors hm => hmade o acceptors (List.mem_append_right _ hm)
    refine Transition.meets_invariant (P := fun w => Won codec reg S value a w ∧
      ∃ r, w.registers o = some r ∧ Reading reg a r) ?_ hreading
      (hmade'.meets_uncalled huncalled) ⟨hwon₁', r₁, hr₁, hbegin⟩
    rintro s e s' ⟨hswon, rs, hrs, hs⟩ ⟨hmake, hcall⟩ hnext
    obtain ⟨⟨s'', out⟩, hstep, rfl⟩ := Option.map_eq_some_iff.mp hnext
    exact ⟨hswon.step hstep hmake, hs.step hswon hrs hcall hstep⟩
  -- the return
  have hnotMake : ∀ o acceptors, e = .make o reg acceptors → acceptors = S := by
    intro o acceptors heq
    rw [heq] at hreturn
    simp [World.step] at hreturn
  have hwon₃ := hwon₂.step hreturn hnotMake
  have hmoves := (step_moves hreturn).2
  rw [howner] at hmoves
  obtain ⟨r', -, hm⟩ := hmoves
  rw [hr₂] at hm
  cases answer with
  | none =>
    have hnobody := hend.unread [] (Moves.of_nothingRead hm)
    exact absurd hnobody List.not_mem_nil
  | some v =>
    obtain ⟨_, a', hsome, hanswered⟩ := hm.of_readReturned
    obtain rfl := Option.some.inj hsome
    rw [hend.majorId] at hanswered
    obtain ⟨b, hchosen⟩ := hwon₃.inv.decree.answered ⟨a', hanswered⟩
    obtain ⟨b', hchosen'⟩ := hwon₃.chosen
    rw [hwon₃.inv.decree.votes.eq_of_chosen hchosen hchosen']

/-! ## There is always a later `read` -/

/-- A `read` that is never interrupted returns. -/
theorem exists_read_returns {remaining : List A} (hwf : w.WellFormed codec)
    (hr : w.registers o = some r) (hph : r.phase = .reading remaining) :
    ∃ reading e w₁ w₂ answer, Transition.run (World.next codec) w reading = some w₁ ∧
      (∀ x ∈ reading, x = .readNext o) ∧ e.owner = some o ∧
      w₁.step codec e = some (w₂, some (.readReturned answer)) := by
  induction remaining generalizing w r with
  | nil =>
    have hdone : r.readDone = some { r with phase := .idle } := by
      unfold RegisterObject.readDone
      rw [hph]
    have hreturn : w.step codec (.readDone o) =
        some (w.set o { r with phase := .idle }, some (.readReturned none)) := by
      simp only [step, bind, pure, hr, Option.bind_some, hdone]
    exact ⟨[], .readDone o, w, _, none, rfl, by simp, rfl, hreturn⟩
  | cons a remaining ih =>
    obtain ⟨kv, hexec, hu⟩ := LocalAcceptor.getCommittedValue_spec (hwf a) (instanceId r.majorId)
    cases hvalue : LocalAcceptor.committedValue
        (LocalAcceptor.instanceOf codec (w.acceptors a) (instanceId r.majorId)) with
    | some v =>
      rw [hvalue] at hexec
      have hreturn : w.step codec (.readNext o) =
          some (((w.setStore a kv).observe (.committedValue a (instanceId r.majorId) v)).set o r.finish,
            some (.readReturned (some v))) := by
        simp only [step, bind, pure, hr, Option.bind_some, hph, call_eq hexec]
      exact ⟨[], .readNext o, w, _, some v, rfl, by simp, rfl, hreturn⟩
    | none =>
      rw [hvalue] at hexec
      have hnext : w.next codec (.readNext o) =
          some ((w.setStore a kv).set o { r with phase := .reading remaining }) := by
        simp only [next, step, bind, pure, hr, Option.bind_some, hph, call_eq hexec]
        rfl
      obtain ⟨reading, e, w₁, w₂, answer, hrun, hall, howner, hreturn⟩ :=
        ih (w := (w.setStore a kv).set o { r with phase := .reading remaining })
          (wellFormed_setStore hwf hu) (Function.update_self ..) rfl
      refine ⟨.readNext o :: reading, e, w₁, w₂, answer,
        Transition.run_cons_eq_some.mpr ⟨_, hnext, hrun⟩, ?_, howner, hreturn⟩
      intro x hx
      rcases List.mem_cons.mp hx with rfl | hx
      · rfl
      · exact hall x hx

/-- A new object of the register is made, and reads. -/
theorem exists_laterRead (hwf : w.WellFormed codec) (o : ι) (reg : Int) (S : List A) :
    ∃ answer, LaterRead codec reg S w answer := by
  have hmake : w.next codec (.make o reg S) = some (w.set o (makePaxosWor reg S)) := rfl
  have hmade : (w.set o (makePaxosWor reg S)).registers o = some (makePaxosWor reg S) :=
    Function.update_self ..
  have hread : (w.set o (makePaxosWor reg S)).next codec (.read o) =
      some ((w.set o (makePaxosWor reg S)).set o
        { makePaxosWor reg S with phase := .reading S }) := by
    simp only [next, step, bind, pure, hmade, Option.bind_some]
    rfl
  obtain ⟨reading, e, w₁, w₂, answer, hrun, hall, howner, hreturn⟩ := exists_read_returns
    (w := (w.set o (makePaxosWor reg S)).set o { makePaxosWor reg S with phase := .reading S })
    hwf (Function.update_self ..) rfl
  refine ⟨answer, [.make o reg S], o, makePaxosWor reg S, reading, e, _, w₁, w₂,
    Transition.run_cons_eq_some.mpr ⟨_, hmake, rfl⟩, hmade, rfl,
    Transition.run_cons_eq_some.mpr ⟨_, hread, hrun⟩, ?_, ?_, howner, hreturn⟩
  · intro x hx _
    rw [hall x hx]
    rfl
  · intro o' acceptors hm
    rcases List.mem_append.mp hm with hm | hm
    · rw [List.mem_singleton] at hm
      cases hm
      rfl
    · cases hall _ hm

end World

/-- **What a true `write` has written.** Take any number of objects of a register over the same
acceptors, in any interleaving. When a `write` returns `true`, all later `read`s return its payload
exactly if its proposer had selected no proposal when it was called, or one with that payload. -/
theorem write_true_iff [LawfulKVStoreLite κ β] {codec : Codec PaxosInstance β} {reg : Int}
    {S : List A} {w₀ w w' : World A ι κ} (h₀ : w₀.Initial) {before during : List (Event A ι)}
    (hrun : Transition.run (World.next codec) w₀ before = some w)
    (hmade : World.MadeWith reg S (before ++ during)) {o : ι} {r : RegisterObject A}
    (hr : w.registers o = some r) (hreg : r.majorId = reg) {lockId : Int} {payload : String}
    (hwrite : World.WriteReturnsTrue codec w o lockId payload during w') :
    (∀ answer, World.LaterRead codec reg S w' answer → answer = some payload) ↔
      ∀ selected, r.proposer.selectedProposal = some selected → selected.value = payload := by
  have hinv : World.RegisterInv codec reg S w := by
    have hbefore : World.MadeWith reg S before :=
      fun o acceptors hm => hmade o acceptors (List.mem_append_left _ hm)
    refine Transition.meets_invariant ?_ hrun hbefore.meets (h₀.registerInv reg S)
    intro s e s' hs hok hnext
    obtain ⟨⟨s'', out⟩, hstep, rfl⟩ := Option.map_eq_some_iff.mp hnext
    exact hs.step hstep hok
  have hduring : World.MadeWith reg S during :=
    fun o acceptors hm => hmade o acceptors (List.mem_append_right _ hm)
  obtain ⟨a, ha, hwon⟩ := World.won_of_writeReturnsTrue hinv hr hreg hduring hwrite
  have hvalue : r.proposer.proposalValue payload = payload ↔
      ∀ selected, r.proposer.selectedProposal = some selected → selected.value = payload := by
    unfold ProposerImpl.proposalValue
    cases r.proposer.selectedProposal with
    | none => simp
    | some selected => simp
  rw [← hvalue]
  constructor
  · intro hreads
    obtain ⟨answer, hread⟩ := World.exists_laterRead hwon.inv.wellFormed o reg S
    have hsent := hwon.read ha hread
    exact Option.some.inj (hsent.symm.trans (hreads answer hread))
  · intro hsent answer hread
    rw [← hsent]
    exact hwon.read ha hread

/-- An object over two acceptors locks. -/
def lockSeven (o : Fin 2) : List (Event (Fin 2) (Fin 2)) :=
  [.lock o, .prepare o 0 false, .prepare o 1 false, .lockDone o]

/-- Its proposal is accepted and committed at both. -/
def sendToBoth (o : Fin 2) : List (Event (Fin 2) (Fin 2)) :=
  [.accept o, .accept o, .acceptDone o, .commit o, .commit o]

theorem write_true_iff_undisturbed :
    ∃ w w', Transition.run (World.next (Codec.identity PaxosInstance)) twoAcceptors
        (.make 0 7 [0, 1] :: lockSeven 0) = some w ∧
      World.WriteReturnsTrue (Codec.identity PaxosInstance) w 0 1 "x" (sendToBoth 0) w' ∧
      ∀ answer, World.LaterRead (Codec.identity PaxosInstance) 7 [0, 1] w' answer →
        answer = some "x" := by
  have hinit : twoAcceptors.Initial := ⟨fun _ _ => rfl, fun _ => rfl, rfl, rfl⟩
  have hmade : World.MadeWith 7 [0, 1] ((.make 0 7 [0, 1] :: lockSeven 0) ++ sendToBoth 0) := by
    intro o acceptors hm
    simp [lockSeven, sendToBoth] at hm
    exact hm.2
  have huncalled : World.Uncalled 0 (sendToBoth 0) := by
    simp [World.Uncalled, sendToBoth, Event.IsCall]
  -- nobody has voted before, so nothing is selected
  have hall : ∃ w w', Transition.run (World.next (Codec.identity PaxosInstance)) twoAcceptors
        (.make 0 7 [0, 1] :: lockSeven 0) = some w ∧
      (∃ r, w.registers 0 = some r ∧ r.majorId = 7 ∧ r.proposer.selectedProposal = none) ∧
      World.WriteReturnsTrue (Codec.identity PaxosInstance) w 0 1 "x" (sendToBoth 0) w' :=
    ⟨_, _, rfl, ⟨_, rfl, rfl, rfl⟩, ⟨_, rfl, huncalled, rfl⟩⟩
  obtain ⟨w, w', hrun, ⟨r, hr, hreg, hnone⟩, hwrite⟩ := hall
  refine ⟨w, w', hrun, hwrite, (write_true_iff hinit hrun hmade hr hreg hwrite).mpr ?_⟩
  intro selected hselected
  rw [hnone] at hselected
  cases hselected

/-- **A true `write` of "y" that has written "x".** Object 0 gets one acceptor's vote for "x" and
stops. Object 1 locks (the second time above the other's ballot), is told of that vote, and its
write of "y" sends out "x". It returns `true`, and a later `read` returns "x". -/
theorem write_true_other_value :
    ∃ w w', Transition.run (World.next (Codec.identity PaxosInstance)) twoAcceptors
        (.make 0 7 [0, 1] :: .make 1 7 [0, 1] :: lockSeven 0 ++ [.write 0 1 "x", .accept 0] ++
          lockSeven 1 ++ lockSeven 1) = some w ∧
      World.WriteReturnsTrue (Codec.identity PaxosInstance) w 1 2 "y" (sendToBoth 1) w' ∧
      World.LaterRead (Codec.identity PaxosInstance) 7 [0, 1] w' (some "x") := by
  refine ⟨_, _, rfl, ⟨_, rfl, by simp [World.Uncalled, sendToBoth, Event.IsCall], rfl⟩,
    [], 1, _, [], .readNext 1, _, _, _, rfl, rfl, rfl, rfl, by simp [World.Uncalled], ?_, rfl, rfl⟩
  intro o acceptors hm
  cases hm

end ReplicatedCounter.Paxos
