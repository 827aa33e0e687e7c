import ReplicatedCounter.Paxos.DecreeInvariant
import ReplicatedCounter.Paxos.Frames

/-!
# Single-decree agreement

The interleaved world, seen from one register id, is a `Decree` (`World.decree`), and every event
moves it by steps of that register alone (`World.step_refines`): an event of another register
leaves the view as it is, because the instance ids differ and the stores keep different keys
apart. So the invariant of `Paxos/Decree.lean` holds of every register in every reachable world,
and with it agreement.
-/

set_option autoImplicit false

namespace ReplicatedCounter.Paxos

open Voting Relation

variable {A ι κ β : Type} [DecidableEq A] [DecidableEq ι] [KVStoreLite κ β]

namespace World

section view

variable (codec : Codec PaxosInstance β)

/-- What one register sees of the world. -/
def decree (reg : Int) (w : World A ι κ) : Decree A ι where
  instances a := LocalAcceptor.instanceOf codec (w.acceptors a) (instanceId reg)
  accepted a b v := .accepted a (instanceId reg) b v ∈ w.trace
  wrote v := .wrote reg v ∈ w.trace
  answered v := ∃ a, .committedValue a (instanceId reg) v ∈ w.trace
  objects o := (w.registers o).filter (·.majorId = reg)

/-- Every acceptor's store is well-formed. -/
def WellFormed (w : World A ι κ) : Prop := ∀ a, LocalAcceptor.WellFormed codec (w.acceptors a)

/-- An acceptor's store after a call. -/
def setStore (w : World A ι κ) (a : A) (kv : κ) : World A ι κ :=
  { w with acceptors := Function.update w.acceptors a kv }

end view

variable {codec : Codec PaxosInstance β} {reg : Int} {S : List A} {w w' : World A ι κ}

omit [DecidableEq ι] in
theorem call_eq {α : Type} {a : A} {m : AcceptorM κ α} {result : Except AcceptorError α} {kv : κ}
    (h : Coro.exec m (w.acceptors a) = (result, kv)) : w.call a m = (result, w.setStore a kv) := by
  unfold call
  rw [h]
  rfl

/-! ## The view of a changed world -/

omit [DecidableEq A] in
theorem decree_set (o : ι) (r : RegisterObject A) :
    (w.set o r).decree codec reg =
      (w.decree codec reg).setObject o (if r.majorId = reg then some r else none) := by
  unfold decree set Decree.setObject
  congr 1
  funext o'
  by_cases ho : o' = o
  · subst ho
    simp [Option.filter]
  · simp [ho]

omit [DecidableEq A] [DecidableEq ι] in
/-- An object of another register stands in no slot of this one. -/
theorem decree_objects_other {o : ι} {r : RegisterObject A} (h : w.registers o = some r)
    (hne : r.majorId ≠ reg) : (w.decree codec reg).objects o = none := by
  simp [decree, h, hne]

omit [DecidableEq A] [DecidableEq ι] in
theorem decree_objects_same {o : ι} {r : RegisterObject A} (h : w.registers o = some r)
    (heq : r.majorId = reg) : (w.decree codec reg).objects o = some r := by
  simp [decree, h, heq]

omit [DecidableEq ι] in
theorem decree_setStore {a : A} {kv : κ} {id : String} {i : PaxosInstance}
    (hu : LocalAcceptor.Updates codec (w.acceptors a) kv id i) :
    (w.setStore a kv).decree codec reg =
      if id = instanceId reg then (w.decree codec reg).setInstance a i
      else w.decree codec reg := by
  have hinst : ∀ a', LocalAcceptor.instanceOf codec (Function.update w.acceptors a kv a')
      (instanceId reg) = if a' = a then
        (if id = instanceId reg then i else LocalAcceptor.instanceOf codec (w.acceptors a)
          (instanceId reg))
      else LocalAcceptor.instanceOf codec (w.acceptors a') (instanceId reg) := by
    intro a'
    by_cases ha : a' = a
    · subst ha
      by_cases hid : id = instanceId reg
      · subst hid
        simp [hu.same]
      · simp [hid, hu.other _ (Ne.symm hid)]
    · simp [ha]
  unfold decree setStore Decree.setInstance
  split
  · rename_i hid
    congr 1
    funext a'
    rw [hinst a', if_pos hid]
    by_cases ha : a' = a
    · subst ha
      simp
    · simp [ha]
  · rename_i hid
    congr 1
    funext a'
    rw [hinst a', if_neg hid]
    by_cases ha : a' = a
    · subst ha
      simp
    · simp [ha]

omit [DecidableEq ι] in
theorem wellFormed_setStore (h : w.WellFormed codec) {a : A} {kv : κ} {id : String}
    {i : PaxosInstance} (hu : LocalAcceptor.Updates codec (w.acceptors a) kv id i) :
    (w.setStore a kv).WellFormed codec := by
  intro a'
  unfold setStore
  by_cases ha : a' = a
  · subst ha
    simpa using hu.wellFormed
  · simpa [ha] using h a'

omit [DecidableEq ι] in
/-- Writing back what was there changes nothing that can be seen. -/
theorem decree_setStore_same {a : A} {kv : κ} {id : String}
    (hu : LocalAcceptor.Updates codec (w.acceptors a) kv id
      (LocalAcceptor.instanceOf codec (w.acceptors a) id)) :
    (w.setStore a kv).decree codec reg = w.decree codec reg := by
  rw [decree_setStore hu]
  split
  · rename_i hid
    subst hid
    unfold Decree.setInstance decree
    simp
  · rfl

omit [DecidableEq ι] in
/-- What another register does to its acceptor instances and objects is not seen. -/
theorem decree_setStore_other {a : A} {kv : κ} {reg' : Int} {i : PaxosInstance}
    (hu : LocalAcceptor.Updates codec (w.acceptors a) kv (instanceId reg') i) (hne : reg' ≠ reg) :
    (w.setStore a kv).decree codec reg = w.decree codec reg := by
  rw [decree_setStore hu, if_neg fun hid => hne (instanceId_injective hid)]

omit [DecidableEq A] in
theorem decree_set_other {o : ι} {r r' : RegisterObject A} (h : w.registers o = some r)
    (hmajor : r'.majorId = r.majorId) (hne : r.majorId ≠ reg) :
    (w.set o r').decree codec reg = w.decree codec reg := by
  have hnone : (w.decree codec reg).objects o = none := decree_objects_other h hne
  rw [decree_set, if_neg (hmajor ▸ hne), ← hnone]
  unfold Decree.setObject
  rw [Function.update_eq_self]

omit [DecidableEq A] [DecidableEq ι] in
theorem decree_observe_accepted (a : A) (reg' : Int) (b : BallotId) (v : String) :
    (w.observe (.accepted a (instanceId reg') b v)).decree codec reg =
      if reg' = reg then { w.decree codec reg with
        accepted := fun a' b' v' =>
          (a' = a ∧ b' = b ∧ v' = v) ∨ (w.decree codec reg).accepted a' b' v' }
      else w.decree codec reg := by
  unfold decree observe
  by_cases h : reg' = reg
  · simp [h]
  · have hid : instanceId reg ≠ instanceId reg' := fun hid => h (instanceId_injective hid).symm
    simp [h, hid]

omit [DecidableEq A] [DecidableEq ι] in
theorem decree_observe_wrote (reg' : Int) (payload : String) :
    (w.observe (.wrote reg' payload)).decree codec reg =
      if reg' = reg then { w.decree codec reg with
        wrote := fun v => v = payload ∨ (w.decree codec reg).wrote v }
      else w.decree codec reg := by
  unfold decree observe
  by_cases h : reg' = reg
  · simp [h]
  · simp [h, Ne.symm h]

omit [DecidableEq A] [DecidableEq ι] in
theorem decree_observe_committedValue (a : A) (id v : String) :
    (w.observe (.committedValue a id v)).decree codec reg =
      if id = instanceId reg then { w.decree codec reg with
        answered := fun v' => v' = v ∨ (w.decree codec reg).answered v' }
      else w.decree codec reg := by
  unfold decree observe
  by_cases h : id = instanceId reg
  · simp [h, exists_or]
  · simp [h, Ne.symm h]

/-! ## One event -/

/-- An object's local move is a step of its register, and of no other. -/
theorem decree_localMove {o : ι} {r r' : RegisterObject A} (hr : w.registers o = some r)
    (hm : r.LocalMove r') :
    ReflTransGen (Decree.Step reg S) (w.decree codec reg) ((w.set o r').decree codec reg) := by
  by_cases h : r.majorId = reg
  · rw [decree_set, if_pos (hm.sameRegister.1.trans h)]
    exact .single (.localMove (decree_objects_same hr h) hm)
  · rw [decree_set_other hr hm.sameRegister.1 h]

variable [LawfulKVStoreLite κ β]

theorem prepare_refines (reg : Int) (S : List A) (hwf : w.WellFormed codec) {o : ι}
    {r : RegisterObject A} {k : Nat} {a : A}
    (hr : w.registers o = some r) (hout : r.outstanding k = some a) (timedOut : Bool) :
    ∃ response w₁,
      w.call a (LocalAcceptor.prepare codec (instanceId r.majorId) (r.ballot r.lockId)) =
        (.ok response, w₁) ∧ w₁.WellFormed codec ∧
      ReflTransGen (Decree.Step reg S) (w.decree codec reg)
        ((w₁.set o (r.answer k (if timedOut then none else some response))).decree codec reg) := by
  obtain ⟨response, kv, hexec, hcases⟩ :=
    LocalAcceptor.prepare_spec (hwf a) (instanceId r.majorId) (r.ballot r.lockId)
  refine ⟨response, w.setStore a kv, call_eq hexec, ?_⟩
  have hr₁ : (w.setStore a kv).registers o = some r := hr
  rcases hcases with ⟨-, rfl, hu⟩ | ⟨hlt, rfl, hu⟩
  · refine ⟨wellFormed_setStore hwf hu, ?_⟩
    have hm : r.LocalMove (r.answer k (if timedOut then none else some .rejected)) :=
      .unpromised k (by cases timedOut <;> simp)
    have hmove : ReflTransGen (Decree.Step reg S) ((w.setStore a kv).decree codec reg) _ :=
      decree_localMove hr₁ hm
    rwa [decree_setStore_same hu] at hmove
  · refine ⟨wellFormed_setStore hwf hu, ?_⟩
    by_cases hreg : r.majorId = reg
    · subst hreg
      have hview : (w.setStore a kv).decree codec r.majorId = _ := decree_setStore hu
      rw [if_pos rfl] at hview
      cases timedOut with
      | true =>
        have hm : r.LocalMove (r.answer k none) := .unpromised k (by simp)
        have hmove : ReflTransGen (Decree.Step r.majorId S)
            ((w.setStore a kv).decree codec r.majorId) _ := decree_localMove hr₁ hm
        rw [hview] at hmove
        exact ReflTransGen.head (.promise hlt) hmove
      | false =>
        rw [decree_set, if_pos (RegisterObject.answer_majorId k _), hview]
        exact .single (.grant (decree_objects_same hr rfl) hout hlt)
    · rw [decree_set_other hr₁ (RegisterObject.answer_majorId k _) hreg,
        decree_setStore_other hu hreg]

theorem latePrepare_refines (reg : Int) (S : List A) (hwf : w.WellFormed codec) (a : A)
    (id : String) (ballot : BallotId) :
    (w.call a (LocalAcceptor.prepare codec id ballot)).2.WellFormed codec ∧
      ReflTransGen (Decree.Step reg S) (w.decree codec reg)
        ((w.call a (LocalAcceptor.prepare codec id ballot)).2.decree codec reg) := by
  obtain ⟨response, kv, hexec, hcases⟩ := LocalAcceptor.prepare_spec (hwf a) id ballot
  rw [call_eq hexec]
  rcases hcases with ⟨-, -, hu⟩ | ⟨hlt, -, hu⟩
  · exact ⟨wellFormed_setStore hwf hu, by rw [decree_setStore_same hu]⟩
  · refine ⟨wellFormed_setStore hwf hu, ?_⟩
    rw [decree_setStore hu]
    split
    · rename_i hid
      subst hid
      exact .single (.promise hlt)
    · exact .refl

theorem accept_refines (reg : Int) (S : List A) (hwf : w.WellFormed codec) {o : ι}
    {r : RegisterObject A} {p : Proposal}
    {a : A} {remaining : List A} {n : Nat} (hr : w.registers o = some r)
    (hph : r.phase = .accepting p (a :: remaining) n) :
    ∃ result w₁, w.call a (LocalAcceptor.accept codec (instanceId r.majorId) p) =
        (.ok result, w₁) ∧ w₁.WellFormed codec ∧
      ReflTransGen (Decree.Step reg S) (w.decree codec reg)
        ((if result then
            (w₁.observe (.accepted a (instanceId r.majorId) p.ballotId p.value)).set o
              { r with phase := .accepting p remaining (n + 1) }
          else w₁.set o { r with phase := .accepting p remaining n }).decree codec reg) := by
  obtain ⟨result, kv, hexec, hcases⟩ :=
    LocalAcceptor.accept_spec (hwf a) (instanceId r.majorId) p
  refine ⟨result, w.setStore a kv, call_eq hexec, ?_⟩
  have hr₁ : (w.setStore a kv).registers o = some r := hr
  rcases hcases with ⟨-, rfl, hu⟩ | ⟨hle, rfl, hu⟩
  · refine ⟨wellFormed_setStore hwf hu, ?_⟩
    have hmove : ReflTransGen (Decree.Step reg S) ((w.setStore a kv).decree codec reg) _ :=
      decree_localMove hr₁ (.refused hph)
    rwa [decree_setStore_same hu] at hmove
  · refine ⟨wellFormed_setStore hwf hu, ?_⟩
    simp only [if_true]
    by_cases hreg : r.majorId = reg
    · subst hreg
      rw [decree_set, if_pos rfl, decree_observe_accepted, if_pos rfl, decree_setStore hu,
        if_pos rfl]
      exact .single (.vote (decree_objects_same hr rfl) hph hle)
    · have hr₂ : ((w.setStore a kv).observe
          (.accepted a (instanceId r.majorId) p.ballotId p.value)).registers o = some r := hr
      rw [decree_set_other hr₂ (by rfl) hreg, decree_observe_accepted, if_neg hreg,
        decree_setStore_other hu hreg]

theorem commit_refines (reg : Int) (S : List A) (hwf : w.WellFormed codec) {o : ι}
    {r : RegisterObject A} {b : BallotId}
    {a : A} {remaining : List A} {c : Bool} (hr : w.registers o = some r)
    (hph : r.phase = .committing b (a :: remaining) c) :
    ∃ result w₁, w.call a (LocalAcceptor.commit codec (instanceId r.majorId) b) =
        (.ok result, w₁) ∧ w₁.WellFormed codec ∧
      ReflTransGen (Decree.Step reg S) (w.decree codec reg)
        ((w₁.set o { r with
          phase := .committing b remaining (c || result) }).decree codec reg) := by
  obtain ⟨kv, hexec, hu⟩ := LocalAcceptor.commit_spec (hwf a) (instanceId r.majorId) b
  refine ⟨_, w.setStore a kv, call_eq hexec, wellFormed_setStore hwf hu, ?_⟩
  have hr₁ : (w.setStore a kv).registers o = some r := hr
  by_cases hreg : r.majorId = reg
  · subst hreg
    have hview : (w.setStore a kv).decree codec r.majorId = _ := decree_setStore hu
    rw [if_pos rfl] at hview
    have hmove : ReflTransGen (Decree.Step r.majorId S)
        ((w.setStore a kv).decree codec r.majorId) _ :=
      decree_localMove hr₁ (.committed (c || !(LocalAcceptor.instanceOf codec (w.acceptors a)
        (instanceId r.majorId)).committed) hph)
    rw [hview] at hmove
    exact ReflTransGen.head (.commit (decree_objects_same hr rfl) hph) hmove
  · rw [decree_set_other hr₁ (by rfl) hreg, decree_setStore_other hu hreg]

theorem getCommittedValue_refines (reg : Int) (S : List A) (hwf : w.WellFormed codec) (a : A)
    (id : String) :
    ∃ result w₁, w.call a (LocalAcceptor.getCommittedValue codec id) = (.ok result, w₁) ∧
      w₁.WellFormed codec ∧ w₁.registers = w.registers ∧
      match result with
      | some v => ReflTransGen (Decree.Step reg S) (w.decree codec reg)
          ((w₁.observe (.committedValue a id v)).decree codec reg)
      | none => w₁.decree codec reg = w.decree codec reg := by
  obtain ⟨kv, hexec, hu⟩ := LocalAcceptor.getCommittedValue_spec (hwf a) id
  refine ⟨_, w.setStore a kv, call_eq hexec, wellFormed_setStore hwf hu, rfl, ?_⟩
  split
  · rename_i v hv
    rw [decree_observe_committedValue, decree_setStore_same hu]
    split
    · rename_i hid
      subst hid
      exact .single (.answer hv)
    · exact .refl
  · exact decree_setStore_same hu

omit [DecidableEq ι] in
/-- No acceptor throws, as long as the stores are well formed. -/
theorem asks_ok (hwf : w.WellFormed codec) {e : Event A ι} {o : ι} {r : RegisterObject A} {a : A}
    {α : Type} {m : AcceptorM κ α} (hasks : Asks codec r o a e m) :
    ∃ result, (w.call a m).1 = .ok result := by
  cases hasks with
  | prepare k timedOut hout =>
    obtain ⟨response, kv, hexec, -⟩ :=
      LocalAcceptor.prepare_spec (hwf a) (instanceId r.majorId) (r.ballot r.lockId)
    exact ⟨response, congrArg Prod.fst (call_eq hexec)⟩
  | accept hphase =>
    obtain ⟨result, kv, hexec, -⟩ := LocalAcceptor.accept_spec (hwf a) (instanceId r.majorId) _
    exact ⟨result, congrArg Prod.fst (call_eq hexec)⟩
  | commit hphase =>
    obtain ⟨kv, hexec, -⟩ := LocalAcceptor.commit_spec (hwf a) (instanceId r.majorId) _
    exact ⟨_, congrArg Prod.fst (call_eq hexec)⟩
  | getCommittedValue hphase =>
    obtain ⟨kv, hexec, -⟩ := LocalAcceptor.getCommittedValue_spec (hwf a) (instanceId r.majorId)
    exact ⟨_, congrArg Prod.fst (call_eq hexec)⟩

omit [LawfulKVStoreLite κ β] in
theorem write_refines {o : ι} {r r' : RegisterObject A} {lockId : Int} {payload : String}
    (hr : w.registers o = some r) (hw : r.write lockId payload = some r') :
    ReflTransGen (Decree.Step reg S) (w.decree codec reg)
      (((w.set o r').observe (.wrote r.majorId payload)).decree codec reg) := by
  have hmajor : r'.majorId = r.majorId := by
    obtain ⟨-, -, rfl⟩ := RegisterObject.write_cases hw
    rfl
  rw [decree_observe_wrote]
  split
  · rename_i hreg
    rw [decree_set, if_pos (hmajor.trans hreg)]
    exact .single (.write (decree_objects_same hr hreg) hw)
  · rename_i hreg
    rw [decree_set_other hr hmajor hreg]

/-- **Every event moves every register by steps of its own**, if the objects made for it are all
made with the acceptors `S`. -/
theorem step_refines (hwf : w.WellFormed codec) {e : Event A ι} {out : Option Output}
    (hs : w.step codec e = some (w', out))
    (hmake : ∀ o acceptors, e = .make o reg acceptors → acceptors = S) :
    w'.WellFormed codec ∧
      ReflTransGen (Decree.Step reg S) (w.decree codec reg) (w'.decree codec reg) := by
  -- an acceptor has one answer to a call
  have hanswer : ∀ {α : Type} {x : Except AcceptorError α × World A ι κ} {a b : α}
      {w₁ w₂ : World A ι κ}, x = (.ok a, w₁) → x = (.ok b, w₂) → a = b ∧ w₁ = w₂ := by
    intro α x a b w₁ w₂ ha hb
    obtain ⟨hok, hw⟩ := Prod.mk.inj (ha.symm.trans hb)
    exact ⟨Except.ok.inj hok, hw⟩
  cases step_spec hs with
  | make o worId acceptors =>
    refine ⟨hwf, ?_⟩
    rw [decree_set]
    split
    · rename_i hreg
      obtain rfl : worId = reg := hreg
      obtain rfl := hmake o acceptors rfl
      exact .single (.make o)
    · exact .single (.discard o)
  | object _ hr hlocal _ => exact ⟨hwf, decree_localMove hr hlocal⟩
  | write o hr hwrite => exact ⟨hwf, write_refines hr hwrite⟩
  | prepare o k timedOut hr hout hcall =>
    obtain ⟨response, w₁, hcall', hwf₁, hview⟩ := prepare_refines reg S hwf hr hout timedOut
    obtain ⟨rfl, rfl⟩ := hanswer hcall hcall'
    exact ⟨hwf₁, hview⟩
  | prepareTimeout o k hr hout =>
    exact ⟨hwf, decree_localMove (w := w) hr (.unpromised k (by simp))⟩
  | latePrepare a id ballot _ => exact latePrepare_refines reg S hwf a id ballot
  | accept o hr hphase hcall =>
    obtain ⟨result, w₁, hcall', hwf₁, hview⟩ := accept_refines reg S hwf hr hphase
    obtain ⟨rfl, rfl⟩ := hanswer hcall hcall'
    refine ⟨?_, hview⟩
    split
    · exact hwf₁
    · exact hwf₁
  | commit o hr hphase hcall =>
    obtain ⟨result, w₁, hcall', hwf₁, hview⟩ := commit_refines reg S hwf hr hphase
    obtain ⟨rfl, rfl⟩ := hanswer hcall hcall'
    exact ⟨hwf₁, hview⟩
  | readValue o hr hphase hcall =>
    obtain ⟨value, w₁, hcall', hwf₁, hregisters, hview⟩ :=
      getCommittedValue_refines reg S hwf _ (instanceId _)
    obtain ⟨rfl, rfl⟩ := hanswer hcall hcall'
    have hr₁ := (congrFun hregisters o).trans hr
    exact ⟨hwf₁, hview.trans (decree_localMove hr₁ (.finish (by simp [hphase])))⟩
  | readNext o hr hphase hcall =>
    obtain ⟨value, w₁, hcall', hwf₁, hregisters, hview⟩ :=
      getCommittedValue_refines reg S hwf _ (instanceId _)
    obtain ⟨rfl, rfl⟩ := hanswer hcall hcall'
    have hr₁ := (congrFun hregisters o).trans hr
    refine ⟨hwf₁, ?_⟩
    rw [← hview]
    exact decree_localMove hr₁ (.reading _ (by simp [hphase]))
  | threw _ hasks hcall =>
    obtain ⟨result, hok⟩ := asks_ok hwf hasks
    cases hok.symm.trans (congrArg Prod.fst hcall)
  | answered a id hcall =>
    obtain ⟨value, w₁, hcall', hwf₁, -, hview⟩ := getCommittedValue_refines reg S hwf a id
    obtain ⟨rfl, rfl⟩ := hanswer hcall hcall'
    exact ⟨hwf₁, hview⟩
  | unanswered a id hnone hcall =>
    obtain ⟨value, w₁, hcall', hwf₁, -, hview⟩ := getCommittedValue_refines reg S hwf a id
    obtain ⟨rfl, rfl⟩ := Prod.mk.inj (hcall.symm.trans hcall')
    cases value with
    | some value => exact absurd rfl (hnone value)
    | none => exact ⟨hwf₁, by rw [hview]⟩

/-! ## Every run -/

/-- Well-formed stores, and the invariant of one register. -/
structure RegisterInv (codec : Codec PaxosInstance β) (reg : Int) (S : List A)
    (w : World A ι κ) : Prop where
  wellFormed : w.WellFormed codec
  decree : DecreeInv reg S (w.decree codec reg)

theorem RegisterInv.step (h : RegisterInv codec reg S w) {e : Event A ι} {out : Option Output}
    (hs : w.step codec e = some (w', out))
    (hmake : ∀ o acceptors, e = .make o reg acceptors → acceptors = S) :
    RegisterInv codec reg S w' := by
  obtain ⟨hwf, hsteps⟩ := step_refines h.wellFormed hs hmake
  refine ⟨hwf, ?_⟩
  generalize w'.decree codec reg = d at hsteps ⊢
  induction hsteps with
  | refl => exact h.decree
  | tail _ hstep ih => exact ih.step hstep

omit [LawfulKVStoreLite κ β] [DecidableEq A] [DecidableEq ι] in
/-- **A `write` that counted as many successes as there are acceptors** has had its value chosen. -/
theorem RegisterInv.chosen_of_majority (h : RegisterInv codec reg S w) {o : ι} {r : RegisterObject A}
    (hr : w.registers o = some r) (hreg : r.majorId = reg) {p : Proposal} {n : Nat}
    (hph : r.phase = .accepting p [] n) (hn : r.proposer.majority ≤ n)
    (hne : r.proposer.proposeAcceptors ≠ []) :
    ∃ b, (w.decree codec reg).record.Chosen (allOf S) b p.value := by
  obtain ⟨hS, hall⟩ := (h.decree.object (decree_objects_same hr hreg)).voted_of_majority hph hn
  rw [hS] at hne
  obtain ⟨a, ha⟩ := List.exists_mem_of_ne_nil _ hne
  exact ⟨p.ballotId, _, ⟨rfl, a, ha⟩, hall⟩

omit [LawfulKVStoreLite κ β] [DecidableEq A] [DecidableEq ι] in
theorem Initial.registerInv (h : w.Initial) (reg : Int) (S : List A) :
    RegisterInv codec reg S w where
  wellFormed a := LocalAcceptor.wellFormed_of_empty (h.stores a)
  decree := by
    have hinst : ∀ a, (w.decree codec reg).instances a =
        LocalAcceptor.freshInstance (instanceId reg) := fun a =>
      LocalAcceptor.instanceOf_of_empty (h.stores a) _
    refine decreeInv_init ?_ ?_ ?_ ?_ ?_
    · simp [World.decree, h.trace]
    · simp [World.decree, h.registers]
    · simp [World.decree, h.trace]
    · exact fun a => hinst a ▸ rfl
    · exact fun a => hinst a ▸ rfl

end World

/-- **Single-decree agreement.** In every interleaving of the objects of a register over the same
acceptors, any two values `getCommittedValue` ever returns for it, at any acceptors, are equal, and
the value was the payload of a write to it. -/
theorem committed_values_agree [LawfulKVStoreLite κ β] {codec : Codec PaxosInstance β}
    {reg : Int} {S : List A} {w₀ w : World A ι κ} (h₀ : w₀.Initial) {es : List (Event A ι)}
    (hrun : Transition.run (World.next codec) w₀ es = some w)
    (hmake : ∀ o acceptors, .make o reg acceptors ∈ es → acceptors = S) {a a' : A} {v v' : String}
    (hv : .committedValue a (instanceId reg) v ∈ w.trace)
    (hv' : .committedValue a' (instanceId reg) v' ∈ w.trace) :
    v = v' ∧ .wrote reg v ∈ w.trace := by
  have hmeets : Transition.Meets (World.next codec)
      (fun _ e => ∀ o acceptors, e = .make o reg acceptors → acceptors = S) w₀ es :=
    Transition.meets_of_mem fun e he _ o acceptors heq => hmake o acceptors (heq ▸ he)
  have hinv : World.RegisterInv codec reg S w := by
    refine Transition.meets_invariant ?_ hrun hmeets (h₀.registerInv reg S)
    intro w e w' h hok hs
    obtain ⟨⟨w'', out⟩, hstep, rfl⟩ := Option.map_eq_some_iff.mp hs
    exact h.step hstep hok
  exact ⟨hinv.decree.agreement ⟨a, hv⟩ ⟨a', hv'⟩, hinv.decree.answered_wrote ⟨a, hv⟩⟩

/-- Two objects draw ballot (7, 1). The first gets one vote for "x" and stops; the second is
rejected, draws (7, 2), and commits "x" although it was asked to write "y". -/
def twoProposers : List (Event (Fin 2) (Fin 2)) :=
  [.make 0 7 [0, 1], .make 1 7 [0, 1],
    .lock 0, .prepare 0 0 false, .prepare 0 1 false, .lockDone 0, .write 0 1 "x", .accept 0,
    .lock 1, .prepare 1 0 false, .prepare 1 1 false, .lockDone 1,
    .lock 1, .prepare 1 0 false, .prepare 1 1 false, .lockDone 1, .write 1 2 "y",
    .accept 1, .accept 1, .acceptDone 1, .commit 1, .commit 1, .commitDone 1,
    .query 0 "7", .query 1 "7"]

/-- Two acceptors on fresh stores. -/
def twoAcceptors : World (Fin 2) (Fin 2) (RocksStore PaxosInstance) where
  acceptors _ := RocksStore.provideSharedPtr true
  registers _ := none

theorem committed_values_agree_two_proposers :
    ∃ w, Transition.run (World.next (Codec.identity PaxosInstance)) twoAcceptors twoProposers =
        some w ∧ .committedValue 0 (instanceId 7) "x" ∈ w.trace ∧
      .committedValue 1 (instanceId 7) "x" ∈ w.trace ∧ .wrote 7 "x" ∈ w.trace := by
  have hinit : twoAcceptors.Initial := ⟨fun _ _ => rfl, fun _ => rfl, rfl, rfl⟩
  have hmake : ∀ o acceptors, .make o 7 acceptors ∈ twoProposers → acceptors = [0, 1] := by
    simp [twoProposers]
  have h : ∀ w, Transition.run (World.next (Codec.identity PaxosInstance)) twoAcceptors
      twoProposers = some w → .committedValue 0 (instanceId 7) "x" ∈ w.trace →
      .wrote 7 "x" ∈ w.trace := fun w hrun hv =>
    (committed_values_agree hinit hrun hmake hv hv).2
  exact ⟨_, rfl, by decide, by decide, h _ rfl (by decide)⟩

end ReplicatedCounter.Paxos
