import ReplicatedCounter.Paxos.Decree
import ReplicatedCounter.Paxos.World

/-!
# What one event does to one object

`World.step_spec` is the inversion of `World.step`: an object moves by itself, or asks an acceptor,
which answers or throws, or something happens that no object is listening to.

`World.step_moves` says what of this is seen by whoever drives a register object from outside: an
event touches the object it belongs to and no other, what was observed stays observed,
and the object moves as its local functions say (`Moves`). The acceptors' answers are left open
here — a caller of `lock`, `write` or `read` only sees what comes back.
-/

set_option autoImplicit false

namespace ReplicatedCounter.Paxos

variable {A ι κ β : Type}

/-- An object's move under an event, with what the call returns if the move ends it. -/
inductive Moves (trace : List (Observation A)) : Option (RegisterObject A) → Event A ι →
    RegisterObject A → Option Output → Prop
  | make {x : Option (RegisterObject A)} {o : ι} (worId : Int) (acceptors : List A) :
      Moves trace x (.make o worId acceptors) (makePaxosWor worId acceptors) none
  | lock {r r' : RegisterObject A} {o : ι} :
      r.lock = some r' → Moves trace (some r) (.lock o) r' none
  | answer {r : RegisterObject A} {e : Event A ι} (k : Nat) (response : Option PrepareResponse) :
      e.IsCall = false → Moves trace (some r) e (r.answer k response) none
  | threw {r : RegisterObject A} {e : Event A ι} (error : AcceptorError) :
      e.IsCall = false → Moves trace (some r) e r.finish (some (.threw error))
  | lockDone {r r' : RegisterObject A} {o : ι} {lockId : Option Int} :
      r.lockDone = some (r', lockId) →
      Moves trace (some r) (.lockDone o) r' (some (.lockReturned lockId))
  | write {r r' : RegisterObject A} {o : ι} {lockId : Int} {payload : String} :
      r.write lockId payload = some r' → Moves trace (some r) (.write o lockId payload) r' none
  | accept {r : RegisterObject A} {o : ι} {p : Proposal} {a : A} {remaining : List A}
      {n : Nat} (n' : Nat) : r.phase = .accepting p (a :: remaining) n →
      Moves trace (some r) (.accept o) { r with phase := .accepting p remaining n' } none
  | acceptDone {r r' : RegisterObject A} {o : ι} {result : Option Bool} :
      r.acceptDone = some (r', result) →
      Moves trace (some r) (.acceptDone o) r' (result.map .writeReturned)
  | commit {r : RegisterObject A} {o : ι} {b : BallotId} {a : A} {remaining : List A}
      {c : Bool} (c' : Bool) : r.phase = .committing b (a :: remaining) c →
      Moves trace (some r) (.commit o) { r with phase := .committing b remaining c' } none
  | commitDone {r r' : RegisterObject A} {o : ι} {result : Bool} :
      r.commitDone = some (r', result) →
      Moves trace (some r) (.commitDone o) r' (some (.writeReturned result))
  | read {r r' : RegisterObject A} {o : ι} : r.read = some r' → Moves trace (some r) (.read o) r' none
  | readValue {r : RegisterObject A} {o : ι} {a : A} {value : String} :
      .committedValue a (instanceId r.majorId) value ∈ trace →
      Moves trace (some r) (.readNext o) r.finish (some (.readReturned (some value)))
  | readNext {r : RegisterObject A} {o : ι} (remaining : List A) :
      Moves trace (some r) (.readNext o) { r with phase := .reading remaining } none
  | readDone {r r' : RegisterObject A} {o : ι} : r.readDone = some r' →
      Moves trace (some r) (.readDone o) r' (some (.readReturned none))

/-- Once made, an object stays with its register and its acceptors. -/
theorem Moves.sameRegister {trace : List (Observation A)} {r r' : RegisterObject A}
    {e : Event A ι} {out : Option Output} (h : Moves trace (some r) e r' out)
    (he : ∀ o worId acceptors, e ≠ .make o worId acceptors) : r.SameRegister r' := by
  cases h with
  | make worId acceptors => exact absurd rfl (he _ worId acceptors)
  | lock hl => exact (RegisterObject.LocalMove.lock hl).sameRegister
  | answer k response _ =>
    exact ⟨RegisterObject.answer_majorId k response, by rw [RegisterObject.answer_proposer]⟩
  | lockDone hl => exact (RegisterObject.LocalMove.lockDone hl).sameRegister
  | write hw =>
    obtain ⟨-, -, rfl⟩ := RegisterObject.write_cases hw
    exact ⟨rfl, rfl⟩
  | acceptDone hd => exact (RegisterObject.LocalMove.acceptDone hd).sameRegister
  | commitDone hd =>
    obtain ⟨_, -, rfl⟩ := RegisterObject.commitDone_cases hd
    exact ⟨rfl, rfl⟩
  | read hd =>
    obtain ⟨-, rfl⟩ := RegisterObject.read_cases hd
    exact ⟨rfl, rfl⟩
  | readDone hd =>
    obtain ⟨-, rfl⟩ := RegisterObject.readDone_cases hd
    exact ⟨rfl, rfl⟩
  | threw _ _ => exact ⟨rfl, rfl⟩
  | accept _ _ => exact ⟨rfl, rfl⟩
  | commit _ _ => exact ⟨rfl, rfl⟩
  | readValue _ => exact ⟨rfl, rfl⟩
  | readNext _ => exact ⟨rfl, rfl⟩

/-- The event that makes an object makes it as `makePaxosWor` does. -/
theorem Moves.of_make {trace : List (Observation A)} {x : Option (RegisterObject A)}
    {r' : RegisterObject A} {o : ι} {worId : Int} {acceptors : List A} {out : Option Output}
    (h : Moves trace x (.make o worId acceptors) r' out) : r' = makePaxosWor worId acceptors := by
  cases h with
  | make => rfl
  | answer _ _ he => exact absurd he (by simp [Event.IsCall])
  | threw _ he => exact absurd he (by simp [Event.IsCall])

/-- What `read` returns, an acceptor has answered. -/
theorem Moves.of_readReturned {trace : List (Observation A)} {x : Option (RegisterObject A)}
    {r' : RegisterObject A} {e : Event A ι} {v : String}
    (h : Moves trace x e r' (some (.readReturned (some v)))) :
    ∃ r a, x = some r ∧ .committedValue a (instanceId r.majorId) v ∈ trace := by
  generalize hout : some (Output.readReturned (some v)) = out at h
  cases h with
  | @readValue r o a value hv =>
    simp only [Option.some.injEq, Output.readReturned.injEq] at hout
    exact ⟨r, a, rfl, hout ▸ hv⟩
  | @acceptDone r r' o result hd => cases result <;> simp at hout
  | _ => simp at hout

/-- A write that returns `true` has been through its commit loop. -/
theorem Moves.of_writeReturned {trace : List (Observation A)} {r r' : RegisterObject A}
    {e : Event A ι} (h : Moves trace (some r) e r' (some (.writeReturned true))) :
    ∃ o b, e = .commitDone o ∧ r.phase = .committing b [] true := by
  generalize hout : some (Output.writeReturned true) = out at h
  cases h with
  | @commitDone r r' o result hd =>
    simp only [Option.some.injEq, Output.writeReturned.injEq] at hout
    subst hout
    obtain ⟨b, hph, -⟩ := RegisterObject.commitDone_cases hd
    exact ⟨o, b, rfl, hph⟩
  | @acceptDone r r' o result hd =>
    obtain ⟨_, _, -, ⟨-, rfl, -⟩ | ⟨-, rfl, -⟩⟩ := RegisterObject.acceptDone_cases hd <;>
      simp at hout
  | _ => simp at hout

namespace World

variable [DecidableEq A] [DecidableEq ι] [KVStoreLite κ β] {codec : Codec PaxosInstance β}
  {w w' : World A ι κ} {e : Event A ι} {out : Option Output}

/-! ## The inversion of a step -/

/-- The call that an object makes on an acceptor when it moves by this event. -/
inductive Asks (codec : Codec PaxosInstance β) (r : RegisterObject A) (o : ι) (a : A) :
    {α : Type} → Event A ι → AcceptorM κ α → Prop where
  | prepare (k : Nat) (timedOut : Bool) (hout : r.outstanding k = some a) :
      Asks codec r o a (.prepare o k timedOut)
        (LocalAcceptor.prepare codec (instanceId r.majorId) (r.ballot r.lockId))
  | accept {p : Proposal} {remaining : List A} {n : Nat}
      (hphase : r.phase = .accepting p (a :: remaining) n) :
      Asks codec r o a (.accept o) (LocalAcceptor.accept codec (instanceId r.majorId) p)
  | commit {b : BallotId} {remaining : List A} {c : Bool}
      (hphase : r.phase = .committing b (a :: remaining) c) :
      Asks codec r o a (.commit o) (LocalAcceptor.commit codec (instanceId r.majorId) b)
  | getCommittedValue {remaining : List A} (hphase : r.phase = .reading (a :: remaining)) :
      Asks codec r o a (.readNext o) (LocalAcceptor.getCommittedValue codec (instanceId r.majorId))

/-- Everything a step can do. -/
inductive Step (codec : Codec PaxosInstance β) (w : World A ι κ) :
    Event A ι → World A ι κ → Option Output → Prop where
  | make (o : ι) (worId : Int) (acceptors : List A) :
      Step codec w (.make o worId acceptors) (w.set o (makePaxosWor worId acceptors)) none
  /-- The object moves by itself. -/
  | object {e : Event A ι} {o : ι} {r r' : RegisterObject A} {out : Option Output}
      (howner : e.owner = some o) (hr : w.registers o = some r) (hlocal : r.LocalMove r')
      (hmoves : Moves w.trace (some r) e r' out) : Step codec w e (w.set o r') out
  | write (o : ι) {lockId : Int} {payload : String} {r r' : RegisterObject A}
      (hr : w.registers o = some r) (hwrite : r.write lockId payload = some r') :
      Step codec w (.write o lockId payload) ((w.set o r').observe (.wrote r.majorId payload)) none
  | prepare (o : ι) (k : Nat) (timedOut : Bool) {r : RegisterObject A} {a : A}
      {response : PrepareResponse} {w₁ : World A ι κ} (hr : w.registers o = some r)
      (hout : r.outstanding k = some a)
      (hcall : w.call a (LocalAcceptor.prepare codec (instanceId r.majorId) (r.ballot r.lockId)) =
        (.ok response, w₁)) :
      Step codec w (.prepare o k timedOut)
        (w₁.set o (r.answer k (if timedOut then none else some response))) none
  | prepareTimeout (o : ι) (k : Nat) {r : RegisterObject A} {a : A} (hr : w.registers o = some r)
      (hout : r.outstanding k = some a) :
      Step codec w (.prepareTimeout o k)
        (World.set { w with late := (a, instanceId r.majorId, r.ballot r.lockId) :: w.late } o
          (r.answer k none)) none
  | latePrepare (a : A) (id : String) (ballot : BallotId) (hlate : (a, id, ballot) ∈ w.late) :
      Step codec w (.latePrepare a id ballot)
        (World.call { w with late := w.late.erase (a, id, ballot) } a
          (LocalAcceptor.prepare codec id ballot)).2 none
  | accept (o : ι) {r : RegisterObject A} {p : Proposal} {a : A} {remaining : List A} {n : Nat}
      {result : Bool} {w₁ : World A ι κ} (hr : w.registers o = some r)
      (hphase : r.phase = .accepting p (a :: remaining) n)
      (hcall : w.call a (LocalAcceptor.accept codec (instanceId r.majorId) p) = (.ok result, w₁)) :
      Step codec w (.accept o)
        (if result then
          (w₁.observe (.accepted a (instanceId r.majorId) p.ballotId p.value)).set o
            { r with phase := .accepting p remaining (n + 1) }
        else
          w₁.set o { r with phase := .accepting p remaining n }) none
  | commit (o : ι) {r : RegisterObject A} {b : BallotId} {a : A} {remaining : List A}
      {c result : Bool} {w₁ : World A ι κ} (hr : w.registers o = some r)
      (hphase : r.phase = .committing b (a :: remaining) c)
      (hcall : w.call a (LocalAcceptor.commit codec (instanceId r.majorId) b) =
        (.ok result, w₁)) :
      Step codec w (.commit o)
        (w₁.set o { r with phase := .committing b remaining (c || result) }) none
  | readValue (o : ι) {r : RegisterObject A} {a : A} {remaining : List A} {value : String}
      {w₁ : World A ι κ} (hr : w.registers o = some r)
      (hphase : r.phase = .reading (a :: remaining))
      (hcall : w.call a (LocalAcceptor.getCommittedValue codec (instanceId r.majorId)) =
        (.ok (some value), w₁)) :
      Step codec w (.readNext o)
        ((w₁.observe (.committedValue a (instanceId r.majorId) value)).set o r.finish)
        (some (.readReturned (some value)))
  | readNext (o : ι) {r : RegisterObject A} {a : A} {remaining : List A} {w₁ : World A ι κ}
      (hr : w.registers o = some r) (hphase : r.phase = .reading (a :: remaining))
      (hcall : w.call a (LocalAcceptor.getCommittedValue codec (instanceId r.majorId)) =
        (.ok none, w₁)) :
      Step codec w (.readNext o) (w₁.set o { r with phase := .reading remaining }) none
  /-- The acceptor throws, which ends the call of the register. -/
  | threw {e : Event A ι} {o : ι} {r : RegisterObject A} {a : A} {α : Type} {m : AcceptorM κ α}
      {error : AcceptorError} {w₁ : World A ι κ} (hr : w.registers o = some r)
      (hasks : Asks codec r o a e m) (hcall : w.call a m = (.error error, w₁)) :
      Step codec w e (w₁.set o r.finish) (some (.threw error))
  | answered (a : A) (id : String) {value : String} {w₁ : World A ι κ}
      (hcall : w.call a (LocalAcceptor.getCommittedValue codec id) = (.ok (some value), w₁)) :
      Step codec w (.query a id) (w₁.observe (.committedValue a id value)) none
  | unanswered (a : A) (id : String) {result : Except AcceptorError (Option String)}
      {w₁ : World A ι κ} (hnone : ∀ value, result ≠ .ok (some value))
      (hcall : w.call a (LocalAcceptor.getCommittedValue codec id) = (result, w₁)) :
      Step codec w (.query a id) w₁ none

theorem step_prepare_spec {o : ι} {k : Nat} {timedOut : Bool}
    (h : w.step codec (.prepare o k timedOut) = some (w', out)) :
    Step codec w (.prepare o k timedOut) w' out := by
  simp only [step, bind, pure, Option.bind_eq_some_iff] at h
  obtain ⟨r, hr, a, hout, h⟩ := h
  split at h
  · rename_i response w₁ hcall
    obtain ⟨rfl, rfl⟩ := Prod.mk.inj (Option.some.inj h)
    exact .prepare o k timedOut hr hout hcall
  · rename_i error w₁ hcall
    obtain ⟨rfl, rfl⟩ := Prod.mk.inj (Option.some.inj h)
    exact .threw hr (.prepare k timedOut hout) hcall

theorem step_accept_spec {o : ι} (h : w.step codec (.accept o) = some (w', out)) :
    Step codec w (.accept o) w' out := by
  simp only [step, bind, pure, Option.bind_eq_some_iff] at h
  obtain ⟨r, hr, h⟩ := h
  split at h
  case h_2 => cases h
  rename_i p a remaining n hphase
  split at h
  · rename_i w₁ hcall
    obtain ⟨rfl, rfl⟩ := Prod.mk.inj (Option.some.inj h)
    exact .accept o hr hphase hcall
  · rename_i w₁ hcall
    obtain ⟨rfl, rfl⟩ := Prod.mk.inj (Option.some.inj h)
    exact .accept o hr hphase hcall
  · rename_i error w₁ hcall
    obtain ⟨rfl, rfl⟩ := Prod.mk.inj (Option.some.inj h)
    exact .threw hr (.accept hphase) hcall

theorem step_commit_spec {o : ι} (h : w.step codec (.commit o) = some (w', out)) :
    Step codec w (.commit o) w' out := by
  simp only [step, bind, pure, Option.bind_eq_some_iff] at h
  obtain ⟨r, hr, h⟩ := h
  split at h
  case h_2 => cases h
  rename_i b a remaining c hphase
  split at h
  · rename_i result w₁ hcall
    obtain ⟨rfl, rfl⟩ := Prod.mk.inj (Option.some.inj h)
    exact .commit o hr hphase hcall
  · rename_i error w₁ hcall
    obtain ⟨rfl, rfl⟩ := Prod.mk.inj (Option.some.inj h)
    exact .threw hr (.commit hphase) hcall

theorem step_readNext_spec {o : ι} (h : w.step codec (.readNext o) = some (w', out)) :
    Step codec w (.readNext o) w' out := by
  simp only [step, bind, pure, Option.bind_eq_some_iff] at h
  obtain ⟨r, hr, h⟩ := h
  split at h
  case h_2 => cases h
  rename_i a remaining hphase
  split at h
  · rename_i value w₁ hcall
    obtain ⟨rfl, rfl⟩ := Prod.mk.inj (Option.some.inj h)
    exact .readValue o hr hphase hcall
  · rename_i w₁ hcall
    obtain ⟨rfl, rfl⟩ := Prod.mk.inj (Option.some.inj h)
    exact .readNext o hr hphase hcall
  · rename_i error w₁ hcall
    obtain ⟨rfl, rfl⟩ := Prod.mk.inj (Option.some.inj h)
    exact .threw hr (.getCommittedValue hphase) hcall

theorem step_query_spec {a : A} {id : String} (h : w.step codec (.query a id) = some (w', out)) :
    Step codec w (.query a id) w' out := by
  simp only [step] at h
  split at h
  · rename_i value w₁ hcall
    obtain ⟨rfl, rfl⟩ := Prod.mk.inj (Option.some.inj h)
    exact .answered a id hcall
  · rename_i w₁ hother hcall
    obtain ⟨rfl, rfl⟩ := Prod.mk.inj (Option.some.inj h)
    exact .unanswered a id hother hcall

/-- **The inversion of `step`.** -/
theorem step_spec (h : w.step codec e = some (w', out)) : Step codec w e w' out := by
  cases e with
  | make o worId acceptors =>
    obtain ⟨rfl, rfl⟩ := Prod.mk.inj (Option.some.inj h)
    exact .make o worId acceptors
  | lock o =>
    simp only [step, bind, pure, Option.bind_eq_some_iff, Option.some.injEq, Prod.mk.injEq] at h
    obtain ⟨r, hr, r', hl, rfl, rfl⟩ := h
    exact .object rfl hr (.lock hl) (.lock hl)
  | prepare o k timedOut => exact step_prepare_spec h
  | prepareTimeout o k =>
    simp only [step, bind, pure, Option.bind_eq_some_iff, Option.some.injEq, Prod.mk.injEq] at h
    obtain ⟨r, hr, a, hout, rfl, rfl⟩ := h
    exact .prepareTimeout o k hr hout
  | latePrepare a id ballot =>
    obtain ⟨hlate, h⟩ := Option.ite_none_right_eq_some.mp h
    obtain ⟨rfl, rfl⟩ := Prod.mk.inj (Option.some.inj h)
    exact .latePrepare a id ballot hlate
  | lockDone o =>
    simp only [step, bind, pure, Option.bind_eq_some_iff, Option.some.injEq, Prod.mk.injEq] at h
    obtain ⟨r, hr, ⟨r', lockId⟩, hl, rfl, rfl⟩ := h
    exact .object rfl hr (.lockDone hl) (.lockDone hl)
  | write o lockId payload =>
    simp only [step, bind, pure, Option.bind_eq_some_iff, Option.some.injEq, Prod.mk.injEq] at h
    obtain ⟨r, hr, r', hw, rfl, rfl⟩ := h
    exact .write o hr hw
  | accept o => exact step_accept_spec h
  | acceptDone o =>
    simp only [step, bind, pure, Option.bind_eq_some_iff, Option.some.injEq, Prod.mk.injEq] at h
    obtain ⟨r, hr, ⟨r', result⟩, hd, rfl, rfl⟩ := h
    exact .object rfl hr (.acceptDone hd) (.acceptDone hd)
  | commit o => exact step_commit_spec h
  | commitDone o =>
    simp only [step, bind, pure, Option.bind_eq_some_iff, Option.some.injEq, Prod.mk.injEq] at h
    obtain ⟨r, hr, ⟨r', result⟩, hd, rfl, rfl⟩ := h
    refine .object rfl hr ?_ (.commitDone hd)
    obtain ⟨b, hphase, rfl⟩ := RegisterObject.commitDone_cases hd
    exact .finish (by simp [hphase])
  | read o =>
    simp only [step, bind, pure, Option.bind_eq_some_iff, Option.some.injEq, Prod.mk.injEq] at h
    obtain ⟨r, hr, r', hd, rfl, rfl⟩ := h
    refine .object rfl hr ?_ (.read hd)
    obtain ⟨hphase, rfl⟩ := RegisterObject.read_cases hd
    exact .reading _ hphase
  | readNext o => exact step_readNext_spec h
  | readDone o =>
    simp only [step, bind, pure, Option.bind_eq_some_iff, Option.some.injEq, Prod.mk.injEq] at h
    obtain ⟨r, hr, r', hd, rfl, rfl⟩ := h
    refine .object rfl hr ?_ (.readDone hd)
    obtain ⟨hphase, rfl⟩ := RegisterObject.readDone_cases hd
    exact .finish hphase
  | query a id => exact step_query_spec h

/-- **An event moves its own object and no other, and forgets nothing that was observed.** -/
theorem step_moves (h : w.step codec e = some (w', out)) :
    (∀ obs ∈ w.trace, obs ∈ w'.trace) ∧
      match e.owner with
      | none => w'.registers = w.registers ∧ out = none
      | some o => ∃ r', w'.registers = Function.update w.registers o (some r') ∧
          Moves w'.trace (w.registers o) e r' out := by
  cases step_spec h with
  | make o worId acceptors => exact ⟨fun _ => id, _, rfl, .make worId acceptors⟩
  | object howner hr _ hmoves =>
    rw [howner]
    exact ⟨fun _ => id, _, rfl, hr ▸ hmoves⟩
  | write o hr hwrite => exact ⟨fun _ => List.mem_cons_of_mem _, _, rfl, hr ▸ .write hwrite⟩
  | prepare o k timedOut hr hout hcall =>
    obtain rfl := (Prod.mk.inj hcall).2
    exact ⟨fun _ => id, _, rfl, hr ▸ .answer k _ rfl⟩
  | prepareTimeout o k hr hout => exact ⟨fun _ => id, _, rfl, hr ▸ .answer k none rfl⟩
  | latePrepare a id ballot _ => exact ⟨fun _ hobs => hobs, rfl, rfl⟩
  | accept o hr hphase hcall =>
    obtain rfl := (Prod.mk.inj hcall).2
    split
    · exact ⟨fun _ => List.mem_cons_of_mem _, _, rfl, hr ▸ .accept _ hphase⟩
    · exact ⟨fun _ => id, _, rfl, hr ▸ .accept _ hphase⟩
  | commit o hr hphase hcall =>
    obtain rfl := (Prod.mk.inj hcall).2
    exact ⟨fun _ => id, _, rfl, hr ▸ .commit _ hphase⟩
  | readValue o hr hphase hcall =>
    obtain rfl := (Prod.mk.inj hcall).2
    exact ⟨fun _ => List.mem_cons_of_mem _, _, rfl, hr ▸ .readValue List.mem_cons_self⟩
  | readNext o hr hphase hcall =>
    obtain rfl := (Prod.mk.inj hcall).2
    exact ⟨fun _ => id, _, rfl, hr ▸ .readNext _⟩
  | threw hr hasks hcall =>
    obtain rfl := (Prod.mk.inj hcall).2
    cases hasks with
    | _ => exact ⟨fun _ => id, _, rfl, hr ▸ .threw _ rfl⟩
  | answered a id hcall =>
    obtain rfl := (Prod.mk.inj hcall).2
    exact ⟨fun _ => List.mem_cons_of_mem _, rfl, rfl⟩
  | unanswered a id _ hcall =>
    obtain rfl := (Prod.mk.inj hcall).2
    exact ⟨fun _ hobs => hobs, rfl, rfl⟩

/-- The same for an event whose output the caller does not look at. -/
theorem next_moves {o : ι} (h : w.next codec e = some w') (howner : e.owner = some o) :
    (∀ obs ∈ w.trace, obs ∈ w'.trace) ∧
      ∃ r' out, w'.registers = Function.update w.registers o (some r') ∧
        Moves w'.trace (w.registers o) e r' out := by
  obtain ⟨⟨w'', out⟩, hstep, rfl⟩ := Option.map_eq_some_iff.mp h
  obtain ⟨htrace, hmoves⟩ := step_moves hstep
  rw [howner] at hmoves
  obtain ⟨r', hregs, hmove⟩ := hmoves
  exact ⟨htrace, r', out, hregs, hmove⟩

end World

end ReplicatedCounter.Paxos
