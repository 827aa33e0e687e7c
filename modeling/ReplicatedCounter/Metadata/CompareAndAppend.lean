import ReplicatedCounter.Metadata.Replication

/-!
# What `compareAndAppendRange` tells its caller

`append` ends when `successfullyWritten` is set, and returns what applying the register's value
gave. There are two ways to set it: the value read back is the payload, or `write` returned `true`.
The second is the flaw. `write` returns `true` when it has committed *something*; a proposer that
was told about an earlier vote proposes that instead of its payload, and then the caller is told
that its configuration was appended although another one was.

`TellsTruth` is what a normal return should mean. `compareAndAppendRange_tellsTruth` proves it for
every run in which no `write` of an `append` succeeds with a value taken over from somebody else
(`WritesOwnValue`), and `not_tellsTruth_foreign_write` is a run in which one does.
-/

set_option autoImplicit false

namespace ReplicatedCounter.Metadata

open Paxos Voting

variable {A ν κ β : Type} [DecidableEq A] [DecidableEq ν] [KVStoreLite κ β]

section statement

variable (codec : Codec PaxosInstance β) (configCodec : Codec MetadataConfig String)

/-- What a normal return of `compareAndAppendRange(config)` on node `n` should mean: `config` is the
committed value of a register of the chain, and the node's own store has it. -/
def TellsTruth (bootstrapConfig : MetadataConfig) (s : System A ν κ) (n : ν)
    (config : MetadataConfig) : Prop :=
  (∃ k : Nat, s.Committed codec (bootstrapConfig.startIndex + 1 + k)
    (configCodec.serialize config)) ∧
  (s.nodes n).delegate.configs.find? config.versionId = some config

/-- The step is not the successful end of an `append`'s `write` that proposed a value taken over
from another proposer in place of the payload. -/
def WritesOwnValue (s : System A ν κ) : SystemEvent A ν → Prop
  | .progress (.commitDone n) =>
    ∀ config successfullyWritten r b p,
      (s.nodes n).operation = some (.append config successfullyWritten) →
      s.world.registers n = some r → r.phase = .committing b [] true →
      r.proposer.selectedProposal = some p → p.value = configCodec.serialize config
  | _ => True

end statement

/-! ## The object of an `append` -/

section object

variable (codec : Codec PaxosInstance β)

/-- The acceptors an object was made with have chosen a value for its register. -/
def ChosenFor (w : World A ν κ) (r : RegisterObject A) (v : String) : Prop :=
  ∃ b, (w.decree codec r.majorId).record.Chosen (allOf r.proposer.prepareAcceptors) b v

/-- What the object of a running `append` satisfies. -/
structure AppendInv (payload : String) (successfullyWritten : Bool) (w : World A ν κ)
    (r : RegisterObject A) : Prop where
  accepting : ∀ p remaining n, r.phase = .accepting p remaining n →
    p.value = r.proposer.proposalValue payload
  /-- As soon as a commit has been made or is about to be, all acceptors have voted. -/
  committing : ∀ b remaining c, r.phase = .committing b remaining c →
    (c = true ∨ remaining ≠ []) → ChosenFor codec w r (r.proposer.proposalValue payload)
  written : successfullyWritten = true → ChosenFor codec w r payload

end object

variable {codec : Codec PaxosInstance β} {configCodec : Codec MetadataConfig String}
  {registry : String → A} {bootstrapConfig : MetadataConfig} {log : List MetadataConfig}
  {w w' : World A ν κ} {r r' : RegisterObject A} {payload : String} {written : Bool}

section

omit [DecidableEq A] [DecidableEq ν]

theorem ChosenFor.mono {v : String} (h : ChosenFor codec w r v)
    (htrace : ∀ obs ∈ w.trace, obs ∈ w'.trace) (hr : r.SameRegister r') :
    ChosenFor codec w' r' v := by
  obtain ⟨b, hc⟩ := h
  refine ⟨b, ?_⟩
  rw [hr.1, hr.2]
  exact hc.mono (htrace _ ·)

theorem AppendInv.mono (h : AppendInv codec payload written w r)
    (htrace : ∀ obs ∈ w.trace, obs ∈ w'.trace) : AppendInv codec payload written w' r where
  accepting := h.accepting
  committing b remaining c hph hc := (h.committing b remaining c hph hc).mono htrace ⟨rfl, rfl⟩
  written hw := (h.written hw).mono htrace ⟨rfl, rfl⟩

/-- Outside `write` only the flag says something. -/
theorem appendInv_of_idle (ha : ∀ p remaining n, r.phase ≠ .accepting p remaining n)
    (hc : ∀ b remaining c, r.phase ≠ .committing b remaining c)
    (hw : written = true → ChosenFor codec w r payload) : AppendInv codec payload written w r :=
  ⟨fun p remaining n hph => absurd hph (ha p remaining n),
    fun b remaining c hph => absurd hph (hc b remaining c), hw⟩

/-- **A step of the running call keeps the object's invariant.** The one step with something to
show is the end of the accept loop: as many successes as acceptors are all acceptors' votes. -/
theorem AppendInv.moves (h : AppendInv codec payload written w r) {n : ν}
    (hinv : World.RegisterInv codec r.majorId r.proposer.prepareAcceptors w)
    (hr : w.registers n = some r) (htrace : ∀ obs ∈ w.trace, obs ∈ w'.trace)
    {e : Paxos.Event A ν} {out : Option Output} (hcall : e.IsCall = false)
    (hm : Moves w'.trace (some r) e r' out) : AppendInv codec payload written w' r' := by
  have hwritten : r.SameRegister r' → written = true → ChosenFor codec w' r' payload :=
    fun hsame hw => (h.written hw).mono htrace hsame
  have hidle : AppendInv codec payload written w' r.finish :=
    appendInv_of_idle (by simp [RegisterObject.finish]) (by simp [RegisterObject.finish])
      fun hw => (h.written hw).mono htrace ⟨rfl, rfl⟩
  cases hm with
  | make => exact absurd hcall (by simp [Event.IsCall])
  | lock => exact absurd hcall (by simp [Event.IsCall])
  | write => exact absurd hcall (by simp [Event.IsCall])
  | read => exact absurd hcall (by simp [Event.IsCall])
  | answer k response _ =>
    unfold RegisterObject.answer
    split
    · exact appendInv_of_idle (by simp) (by simp) fun hw => (h.written hw).mono htrace ⟨rfl, rfl⟩
    · exact h.mono htrace
  | threw _ _ => exact hidle
  | lockDone hl =>
    have hsame := (RegisterObject.LocalMove.lockDone hl).sameRegister
    obtain ⟨_, -, ⟨-, -, rfl⟩ | ⟨-, -, rfl⟩⟩ := RegisterObject.lockDone_cases hl
    · exact appendInv_of_idle (by simp) (by simp) (hwritten hsame)
    · exact appendInv_of_idle (by simp) (by simp) (hwritten hsame)
  | accept n' hph =>
    refine ⟨fun p remaining m heq => ?_, by simp, hwritten ⟨rfl, rfl⟩⟩
    simp only [Phase.accepting.injEq] at heq
    obtain ⟨rfl, -, -⟩ := heq
    exact h.accepting _ _ _ hph
  | acceptDone hd =>
    obtain ⟨p, m, hph, ⟨-, -, rfl⟩ | ⟨hm, -, rfl⟩⟩ := RegisterObject.acceptDone_cases hd
    · exact hidle
    · refine ⟨by simp, fun b remaining c heq hc => ?_, hwritten ⟨rfl, rfl⟩⟩
      simp only [Phase.committing.injEq] at heq
      obtain ⟨rfl, rfl, rfl⟩ := heq
      have hchosen : ChosenFor codec w r p.value :=
        hinv.chosen_of_majority hr rfl hph hm (hc.resolve_left (by simp))
      rw [h.accepting p [] m hph] at hchosen
      exact hchosen.mono htrace ⟨rfl, rfl⟩
  | commit c' hph =>
    refine ⟨by simp, fun b remaining c heq hc => ?_, hwritten ⟨rfl, rfl⟩⟩
    simp only [Phase.committing.injEq] at heq
    obtain ⟨rfl, rfl, rfl⟩ := heq
    exact (h.committing _ _ _ hph (.inr (by simp))).mono htrace ⟨rfl, rfl⟩
  | commitDone hd =>
    obtain ⟨_, -, rfl⟩ := RegisterObject.commitDone_cases hd
    exact hidle
  | readValue _ => exact hidle
  | readNext _ =>
    exact appendInv_of_idle (by simp) (by simp) fun hw => (h.written hw).mono htrace ⟨rfl, rfl⟩
  | readDone hd =>
    obtain ⟨-, rfl⟩ := RegisterObject.readDone_cases hd
    exact hidle

end

/-! ## The calls of a node -/

/-- What a node's next call leaves behind: its own object satisfies what `P` says of it, the other
objects are untouched, and nothing observed is forgotten. -/
structure Called (n : ν) (w w' : World A ν κ) (P : RegisterObject A → Prop) : Prop where
  trace : ∀ obs ∈ w.trace, obs ∈ w'.trace
  others : ∀ o, o ≠ n → w'.registers o = w.registers o
  object : ∀ r, w'.registers n = some r → P r

theorem called_of_next {n : ν} {e : Paxos.Event A ν} (hs : w.next codec e = some w')
    (howner : e.owner = some n) {P : RegisterObject A → Prop}
    (hP : ∀ r' out, (∀ obs ∈ w.trace, obs ∈ w'.trace) →
      Moves w'.trace (w.registers n) e r' out → P r') : Called n w w' P := by
  obtain ⟨htrace, r', out, hregs, hmove⟩ := World.next_moves hs howner
  refine ⟨htrace, fun o ho => by rw [hregs, Function.update_of_ne ho], fun r hr => ?_⟩
  rw [hregs, Function.update_self, Option.some.injEq] at hr
  exact hr ▸ hP r' out htrace hmove

theorem called_nextWor {n : ν} {node : MetadataStoreStateMachine} {call : Paxos.Event A ν}
    (hs : System.nextWor codec registry w n node call = some w') (howner : call.owner = some n)
    {P : RegisterObject A → Prop}
    (hP : ∀ trace x r' out, Moves trace x call r' out → P r') : Called n w w' P := by
  unfold System.nextWor at hs
  simp only [bind, Option.bind_eq_some_iff] at hs
  obtain ⟨w₁, hmake, hs⟩ := hs
  have hmade : Called n w w₁ (fun _ => True) := called_of_next hmake rfl fun _ _ _ _ => trivial
  have hcalled : Called n w₁ w' P := called_of_next hs howner fun r' out _ hm => hP _ _ r' out hm
  exact ⟨fun obs ho => hcalled.trace obs (hmade.trace obs ho),
    fun o ho => (hcalled.others o ho).trans (hmade.others o ho), hcalled.object⟩

section

omit [DecidableEq A] [DecidableEq ν]

/-- `lock` brings an object into no phase that `AppendInv` speaks of. -/
theorem phase_of_lock {trace : List (Observation A)} {x : Option (RegisterObject A)} {n : ν}
    {out : Option Output} (hm : Moves trace x (.lock n) r' out) :
    ∃ r answers, x = some r ∧ r.SameRegister r' ∧ r'.phase = .preparing answers := by
  cases hm with
  | @lock r r' o hl =>
    have hsame := (RegisterObject.LocalMove.lock hl).sameRegister
    obtain ⟨-, rfl⟩ := RegisterObject.lock_cases hl
    exact ⟨r, _, rfl, hsame, rfl⟩
  | answer _ _ he => exact absurd he (by simp [Event.IsCall])
  | threw _ he => exact absurd he (by simp [Event.IsCall])

theorem phase_of_read {trace : List (Observation A)} {x : Option (RegisterObject A)} {n : ν}
    {out : Option Output} (hm : Moves trace x (.read n) r' out) :
    ∃ r remaining, x = some r ∧ r.SameRegister r' ∧ r'.phase = .reading remaining := by
  cases hm with
  | @read r r' o hd =>
    obtain ⟨-, rfl⟩ := RegisterObject.read_cases hd
    exact ⟨r, _, rfl, ⟨rfl, rfl⟩, rfl⟩
  | answer _ _ he => exact absurd he (by simp [Event.IsCall])
  | threw _ he => exact absurd he (by simp [Event.IsCall])

theorem phase_of_write {trace : List (Observation A)} {x : Option (RegisterObject A)} {n : ν}
    {lockId : Int} {out : Option Output} (hm : Moves trace x (.write n lockId payload) r' out) :
    ∃ r, x = some r ∧ r.SameRegister r' ∧ r'.phase = .accepting
      { ballotId := r.ballot lockId, value := r'.proposer.proposalValue payload }
      r.proposer.proposeAcceptors 0 := by
  cases hm with
  | @write r r' o _ _ hw =>
    obtain ⟨-, -, rfl⟩ := RegisterObject.write_cases hw
    exact ⟨r, rfl, ⟨rfl, rfl⟩, rfl⟩
  | answer _ _ he => exact absurd he (by simp [Event.IsCall])
  | threw _ he => exact absurd he (by simp [Event.IsCall])

end

section calls

variable {n : ν}

theorem AppendInv.lock (h : AppendInv codec payload written w r) (hr : w.registers n = some r)
    (hs : w.next codec (.lock n) = some w') :
    Called n w w' (AppendInv codec payload written w') := by
  refine called_of_next hs rfl fun r' out htrace hm => ?_
  obtain ⟨r₀, answers, hx, hsame, hph⟩ := phase_of_lock hm
  obtain rfl : r = r₀ := Option.some.inj (hr.symm.trans hx)
  exact appendInv_of_idle (by simp [hph]) (by simp [hph]) fun hw =>
    (h.written hw).mono htrace hsame

theorem AppendInv.read (hr : w.registers n = some r) {written' : Bool}
    (hw : written' = true → ChosenFor codec w r payload)
    (hs : w.next codec (.read n) = some w') :
    Called n w w' (AppendInv codec payload written' w') := by
  refine called_of_next hs rfl fun r' out htrace hm => ?_
  obtain ⟨r₀, remaining, hx, hsame, hph⟩ := phase_of_read hm
  obtain rfl : r = r₀ := Option.some.inj (hr.symm.trans hx)
  exact appendInv_of_idle (by simp [hph]) (by simp [hph]) fun hw' => (hw hw').mono htrace hsame

theorem AppendInv.write (h : AppendInv codec payload written w r) (hr : w.registers n = some r)
    {lockId : Int} (hs : w.next codec (.write n lockId payload) = some w') :
    Called n w w' (AppendInv codec payload written w') := by
  refine called_of_next hs rfl fun r' out htrace hm => ?_
  obtain ⟨r₀, hx, hsame, hph⟩ := phase_of_write hm
  obtain rfl : r = r₀ := Option.some.inj (hr.symm.trans hx)
  refine ⟨fun p remaining m heq => ?_, by simp [hph], fun hw => (h.written hw).mono htrace hsame⟩
  rw [hph] at heq
  simp only [Phase.accepting.injEq] at heq
  obtain ⟨rfl, -, -⟩ := heq
  rfl

/-- A fresh register has promised nothing to anybody. -/
theorem called_nextWor_lock {node : MetadataStoreStateMachine}
    (hs : System.nextWor codec registry w n node (.lock n) = some w') :
    Called n w w' (AppendInv codec payload false w') := by
  refine called_nextWor hs rfl fun trace x r' out hm => ?_
  obtain ⟨r₀, answers, -, -, hph⟩ := phase_of_lock hm
  exact appendInv_of_idle (by simp [hph]) (by simp [hph]) fun hw => absurd hw (by simp)

end calls

/-! ## A node going on -/

/-- Where a node on register `reg` stands after it went on. -/
structure WentOn (codec : Codec PaxosInstance β) (configCodec : Codec MetadataConfig String)
    (reg : Int) (n : ν) (w w' : World A ν κ) (node' : MetadataStoreStateMachine)
    (out : Option (SystemOutput ν)) : Prop where
  trace : ∀ obs ∈ w.trace, obs ∈ w'.trace
  others : ∀ o, o ≠ n → w'.registers o = w.registers o
  object : ∀ config written, node'.operation = some (.append config written) →
    ∀ r, w'.registers n = some r →
      AppendInv codec (configCodec.serialize config) written w' r
  returned : ∀ m config, out = some (.compareAndAppendRange m config (.ok ())) →
    m = n ∧ (∃ a, .committedValue a (instanceId reg) (configCodec.serialize config) ∈ w'.trace) ∧
      node'.delegate.configs.find? config.versionId = some config

variable {n : ν} {node node' : MetadataStoreStateMachine} {out : Option (SystemOutput ν)}
  {config : MetadataConfig}

omit [DecidableEq A] [DecidableEq ν] in
theorem wentOn_called {reg : Int}
    (h : Called n w w' (AppendInv codec (configCodec.serialize config) written w'))
    (hop : node'.operation = some (.append config written)) :
    WentOn codec configCodec reg n w w' node' none := by
  refine ⟨h.trace, h.others, fun config' written' hop' r hr => ?_, by simp⟩
  rw [hop] at hop'
  obtain ⟨rfl, rfl⟩ := Operation.append.inj (Option.some.inj hop')
  exact h.object r hr

omit [DecidableEq A] [DecidableEq ν] in
/-- The operation ends, with an answer that promises nothing. -/
theorem wentOn_failed {reg : Int}
    (hout : ∀ m config, out ≠ some (.compareAndAppendRange m config (.ok ()))) :
    WentOn codec configCodec reg n w w { node' with operation := none } out :=
  ⟨fun _ => id, fun _ _ => rfl, by simp, fun m config heq => absurd heq (hout m config)⟩

theorem applyWorValue_operation {result : Option ApplicationResult}
    (happly : System.applyWorValue node config = (node', result)) :
    node'.operation = node.operation := by
  obtain ⟨_, -, heq⟩ := applyWorValue_spec node config
  rw [heq] at happly
  exact (Prod.mk.inj happly).1 ▸ rfl

/-- A value applied with result `trueType` is in the store. -/
theorem find?_of_applyWorValue {result : ApplicationResult}
    (happly : System.applyWorValue node config = (node', some result))
    (hok : unwrapResult result = .ok ()) :
    node'.delegate.configs.find? config.versionId = some config := by
  obtain ⟨currentConfig, -, heq⟩ := applyWorValue_spec node config
  rw [heq] at happly
  obtain ⟨rfl, hresult⟩ := Prod.mk.inj happly
  obtain rfl := Option.some.inj hresult
  unfold MetadataStoreApplicator.apply at hok ⊢
  cases hcar : node.delegate.compareAndAppendRange config with
  | ok store => exact InMemoryMetadataStore.find?_of_compareAndAppendRange hcar
  | error e =>
    rw [hcar] at hok
    exact absurd hok (by simp [unwrapResult])

omit [DecidableEq A] [DecidableEq ν] in
/-- A value that somebody read from a register with a chosen payload is that payload. -/
theorem eq_of_chosenFor
    (hinv : World.RegisterInv codec r.majorId r.proposer.prepareAcceptors w)
    (hc : ChosenFor codec w r payload) {a : A} {v : String}
    (hv : .committedValue a (instanceId r.majorId) v ∈ w.trace) : v = payload := by
  obtain ⟨b, hc⟩ := hc
  obtain ⟨b', hc'⟩ := hinv.decree.answered ⟨a, hv⟩
  exact hinv.decree.votes.eq_of_chosen hc' hc

theorem resumeAppend_wentOn
    (h : AppendInv codec (configCodec.serialize config) written w r)
    (hr : w.registers n = some r)
    (hinv : World.RegisterInv codec r.majorId r.proposer.prepareAcceptors w)
    (hop : node.operation = some (.append config written)) {output : Output}
    (hwrite : output = .writeReturned true →
      ChosenFor codec w r (configCodec.serialize config))
    (hread : ∀ v, output = .readReturned (some v) →
      ∃ a, .committedValue a (instanceId r.majorId) v ∈ w.trace)
    (hs : System.resumeAppend codec configCodec registry w n node config written output =
      some (w', node', out)) :
    WentOn codec configCodec r.majorId n w w' node' out := by
  unfold System.resumeAppend at hs
  split at hs
  · simp only [bind, pure, Option.bind_eq_some_iff, Option.some.injEq, Prod.mk.injEq] at hs
    obtain ⟨w₁, hcall, rfl, rfl, rfl⟩ := hs
    exact wentOn_called (h.lock hr hcall) hop
  · simp only [bind, pure, Option.bind_eq_some_iff, Option.some.injEq, Prod.mk.injEq] at hs
    obtain ⟨w₁, hcall, rfl, rfl, rfl⟩ := hs
    exact wentOn_called (h.write hr hcall) hop
  · rename_i writeResponse
    simp only [bind, pure, Option.bind_eq_some_iff, Option.some.injEq, Prod.mk.injEq] at hs
    obtain ⟨w₁, hcall, rfl, rfl, rfl⟩ := hs
    refine wentOn_called (AppendInv.read hr (fun hw => ?_) hcall) rfl
    rcases Bool.or_eq_true_iff.mp hw with hw | hw
    · exact h.written hw
    · exact hwrite (by rw [hw])
  · simp only [bind, pure, Option.bind_eq_some_iff, Option.some.injEq, Prod.mk.injEq] at hs
    obtain ⟨w₁, hcall, rfl, rfl, rfl⟩ := hs
    exact wentOn_called (h.lock hr hcall) hop
  · rename_i v
    obtain ⟨a, hv⟩ := hread v rfl
    split at hs
    · simp only [Option.some.injEq, Prod.mk.injEq] at hs
      obtain ⟨rfl, rfl, rfl⟩ := hs
      exact wentOn_failed (by simp [unwrapResult])
    · rename_i metadataConfig hparse
      split at hs
      · simp only [Option.some.injEq, Prod.mk.injEq] at hs
        obtain ⟨rfl, rfl, rfl⟩ := hs
        exact wentOn_failed (by simp)
      · rename_i node₁ result happly
        have hop₁ := applyWorValue_operation happly
        split at hs
        · rename_i hdone
          simp only [Option.some.injEq, Prod.mk.injEq] at hs
          obtain ⟨rfl, rfl, rfl⟩ := hs
          -- either test of the source means that the value read is the payload
          have hpayload : v = configCodec.serialize config := by
            rcases Bool.or_eq_true_iff.mp hdone with hw | heq
            · exact eq_of_chosenFor hinv (h.written hw) hv
            · exact beq_iff_eq.mp heq
          subst hpayload
          rw [configCodec.parse_serialize, Option.some.injEq] at hparse
          subst hparse
          refine ⟨fun _ => id, fun _ _ => rfl, by simp, fun m config' heq => ?_⟩
          simp only [Option.some.injEq, SystemOutput.compareAndAppendRange.injEq] at heq
          obtain ⟨rfl, rfl, hok⟩ := heq
          have hfind := find?_of_applyWorValue happly hok
          exact ⟨rfl, ⟨a, hv⟩, hfind⟩
        · rename_i hdone
          have hnot : written = false := by
            cases written with
            | true => exact absurd rfl hdone
            | false => rfl
          subst hnot
          simp only [bind, pure, Option.bind_eq_some_iff, Option.some.injEq, Prod.mk.injEq] at hs
          obtain ⟨w₁, hcall, rfl, rfl, rfl⟩ := hs
          exact wentOn_called (called_nextWor_lock hcall) (hop₁.trans hop)
  · simp only [Option.some.injEq, Prod.mk.injEq] at hs
    obtain ⟨rfl, rfl, rfl⟩ := hs
    exact wentOn_failed (by simp)

theorem resumeSync_wentOn {reg : Int} (hop : node.operation = some .sync) {output : Output}
    (hs : System.resumeSync codec configCodec registry w n node output = some (w', node', out)) :
    WentOn codec configCodec reg n w w' node' out := by
  unfold System.resumeSync at hs
  split at hs
  · simp only [Option.some.injEq, Prod.mk.injEq] at hs
    obtain ⟨rfl, rfl, rfl⟩ := hs
    exact wentOn_failed (by simp)
  · split at hs
    · simp only [Option.some.injEq, Prod.mk.injEq] at hs
      obtain ⟨rfl, rfl, rfl⟩ := hs
      exact wentOn_failed (by simp)
    · rename_i metadataConfig hparse
      split at hs
      · simp only [Option.some.injEq, Prod.mk.injEq] at hs
        obtain ⟨rfl, rfl, rfl⟩ := hs
        exact wentOn_failed (by simp)
      · rename_i node₁ result happly
        have hop₁ := applyWorValue_operation happly
        simp only [bind, pure, Option.bind_eq_some_iff, Option.some.injEq, Prod.mk.injEq] at hs
        obtain ⟨w₁, hcall, rfl, rfl, rfl⟩ := hs
        have hcalled : Called n w w₁ (fun _ => True) :=
          called_nextWor hcall rfl fun _ _ _ _ _ => trivial
        exact ⟨hcalled.trace, hcalled.others, fun config written hop' => by
          rw [hop₁, hop] at hop'
          exact absurd hop' (by simp), by simp⟩
  · simp only [Option.some.injEq, Prod.mk.injEq] at hs
    obtain ⟨rfl, rfl, rfl⟩ := hs
    exact wentOn_failed (by simp)
  · exact absurd hs (by simp)
  · exact absurd hs (by simp)

/-! ## The system -/

variable {s s' : System A ν κ}

/-- Every running `append` is in order. -/
def AppendsInv (codec : Codec PaxosInstance β) (configCodec : Codec MetadataConfig String)
    (s : System A ν κ) : Prop :=
  ∀ n config written r, (s.nodes n).operation = some (.append config written) →
    s.world.registers n = some r →
    AppendInv codec (configCodec.serialize config) written s.world r

omit [DecidableEq A] in
/-- One node has moved. -/
theorem AppendsInv.setNode (h : AppendsInv codec configCodec s)
    (htrace : ∀ obs ∈ s.world.trace, obs ∈ w'.trace)
    (hothers : ∀ o, o ≠ n → w'.registers o = s.world.registers o)
    (hobject : ∀ config written, node'.operation = some (.append config written) →
      ∀ r, w'.registers n = some r →
        AppendInv codec (configCodec.serialize config) written w' r) :
    AppendsInv codec configCodec (s.setNode w' n node') := by
  intro m config written r hop hr
  have hop' : (Function.update s.nodes n node' m).operation = _ := hop
  by_cases hm : m = n
  · subst hm
    rw [Function.update_self] at hop'
    exact hobject config written hop' r hr
  · rw [Function.update_of_ne hm] at hop'
    have hr' : s.world.registers m = some r := (hothers m hm).symm.trans hr
    exact (h m config written r hop' hr').mono htrace

omit [DecidableEq A] [DecidableEq ν] in
/-- The object of a running operation, with its register's invariant. -/
theorem ChainInv.working (h : ChainInv codec configCodec registry bootstrapConfig log s)
    (hop : (s.nodes n).operation ≠ none) :
    ∃ r, s.world.registers n = some r ∧
      (∃ k : Nat, r.majorId = bootstrapConfig.startIndex + 1 + k) ∧
      World.RegisterInv codec r.majorId r.proposer.prepareAcceptors s.world := by
  obtain ⟨k, hk⟩ := h.node n
  obtain ⟨r, hr, hmajor⟩ := hk.working hop
  have hinv := h.registers.decided k hk.le
  have hobj := hinv.decree.object (World.decree_objects_same hr hmajor)
  refine ⟨r, hr, ⟨k, hmajor⟩, ?_⟩
  rw [hmajor, hobj.prepareAcceptors]
  exact hinv

/-- A register call made a step of its own. -/
theorem AppendsInv.progress (h : AppendsInv codec configCodec s)
    (hchain : ChainInv codec configCodec registry bootstrapConfig log s) {e : Paxos.Event A ν}
    (he : e.IsCall = false) {output : Option Output}
    (hs : s.world.step codec e = some (w', output)) :
    AppendsInv codec configCodec { s with world := w' } := by
  intro m config written r hop hr
  obtain ⟨r₀, hr₀, -, hinv⟩ := hchain.working (n := m) (by
    have hop' : (s.nodes m).operation = _ := hop
    simp [hop'])
  have h₀ := h m config written r₀ hop hr₀
  obtain ⟨htrace, hmoves⟩ := World.step_moves hs
  cases howner : e.owner with
  | none =>
    rw [howner] at hmoves
    have hr' : w'.registers m = some r := hr
    rw [hmoves.1, hr₀, Option.some.injEq] at hr'
    exact hr' ▸ h₀.mono htrace
  | some n =>
    rw [howner] at hmoves
    obtain ⟨r', hregs, hmove⟩ := hmoves
    have hr' : w'.registers m = some r := hr
    rw [hregs] at hr'
    by_cases hm : m = n
    · subst hm
      rw [Function.update_self, Option.some.injEq] at hr'
      rw [hr₀] at hmove
      exact hr' ▸ h₀.moves hinv hr₀ htrace he hmove
    · rw [Function.update_of_ne hm, hr₀, Option.some.injEq] at hr'
      exact hr' ▸ h₀.mono htrace

/-- What a register call of node `n` has returned to it, when the step was not the end of a foreign
write. -/
theorem AppendsInv.returned (h : AppendsInv codec configCodec s)
    (hchain : ChainInv codec configCodec registry bootstrapConfig log s) {e : Paxos.Event A ν}
    (he : e.IsCall = false) (hok : WritesOwnValue configCodec s (.progress e)) {output : Output}
    (howner : e.owner = some n) (hop : (s.nodes n).operation ≠ none)
    (hs : s.world.step codec e = some (w', some output)) (hr' : w'.registers n = some r') :
    (∀ v, output = .readReturned (some v) →
      ∃ a, .committedValue a (instanceId r'.majorId) v ∈ w'.trace) ∧
    ∀ config written, (s.nodes n).operation = some (.append config written) →
      output = .writeReturned true → ChosenFor codec w' r' (configCodec.serialize config) := by
  obtain ⟨r, hr, -, -⟩ := hchain.working hop
  obtain ⟨htrace, hmoves⟩ := World.step_moves hs
  rw [howner] at hmoves
  obtain ⟨r'', hregs, hmove⟩ := hmoves
  rw [hregs, Function.update_self, Option.some.injEq] at hr'
  subst hr'
  rw [hr] at hmove
  have hsame := hmove.sameRegister fun o worId acceptors heq => by
    subst heq
    exact absurd he (by simp [Event.IsCall])
  refine ⟨fun v hv => ?_, fun config written hop hw => ?_⟩
  · subst hv
    obtain ⟨r₀, a, hx, hv⟩ := hmove.of_readReturned
    obtain rfl := Option.some.inj hx
    exact ⟨a, hsame.1 ▸ hv⟩
  · subst hw
    obtain ⟨o, b, rfl, hph⟩ := hmove.of_writeReturned
    obtain rfl : o = n := Option.some.inj howner
    have hchosen := (h o config written r hop hr).committing b [] true hph (.inl rfl)
    have hvalue : r.proposer.proposalValue (configCodec.serialize config) =
        configCodec.serialize config := by
      unfold ProposerImpl.proposalValue
      split
      · rename_i p hp
        exact hok config written r b p hop hr hph hp
      · rfl
    rw [hvalue] at hchosen
    exact hchosen.mono htrace hsame

variable [LawfulKVStoreLite κ β]

/-- **One event keeps the running appends in order**, if it is not the end of a foreign write; and
if it is the normal return of one, that return tells the truth. -/
theorem AppendsInv.step (h : AppendsInv codec configCodec s)
    (hchain : ChainInv codec configCodec registry bootstrapConfig log s) {e : SystemEvent A ν}
    (hok : WritesOwnValue configCodec s e)
    (hs : s.step codec configCodec registry e = some (s', out)) :
    AppendsInv codec configCodec s' ∧
      ∀ n config, out = some (.compareAndAppendRange n config (.ok ())) →
        TellsTruth codec configCodec bootstrapConfig s' n config := by
  obtain ⟨log', -, hchain'⟩ := hchain.step hs
  cases e with
  | append n config =>
    obtain ⟨w₁, hnext, rfl, rfl⟩ := System.step_append_cases hs
    have hcalled : Called n s.world w₁
        (AppendInv codec (configCodec.serialize config) false w₁) := called_nextWor_lock hnext
    refine ⟨h.setNode hcalled.trace hcalled.others ?_, by simp⟩
    intro config' written' hop r hr
    obtain ⟨rfl, rfl⟩ := Operation.append.inj (Option.some.inj hop)
    exact hcalled.object r hr
  | sync n =>
    obtain ⟨w₁, hnext, rfl, rfl⟩ := System.step_sync_cases hs
    have hcalled : Called n s.world w₁ (fun _ => True) :=
      called_nextWor hnext rfl fun _ _ _ _ _ => trivial
    exact ⟨h.setNode hcalled.trace hcalled.others (by simp), by simp⟩
  | progress e =>
    obtain ⟨he, w₁, output, hstep, hcases⟩ := System.step_progress_cases hs
    have hchain₁ := hchain.progress he hstep
    have h₁ := h.progress hchain he hstep
    rcases hcases with ⟨n, value, w₂, node', howner, rfl, hres, rfl⟩ | ⟨-, rfl, rfl⟩
    · have hop : (s.nodes n).operation ≠ none := by
        intro hnone
        simp [System.resume, hnone] at hres
      obtain ⟨r, hr, ⟨k, hmajor⟩, hinv⟩ := hchain₁.working (n := n) hop
      obtain ⟨hread, hwrite⟩ := h.returned hchain he hok howner hop hstep hr
      have hwent : WentOn codec configCodec r.majorId n w₁ w₂ node' out := by
        unfold System.resume at hres
        split at hres
        · exact absurd hres (by simp)
        · rename_i config written hop'
          exact resumeAppend_wentOn (h₁ n config written r hop' hr) hr hinv hop'
            (hwrite config written hop') hread hres
        · rename_i hop'
          exact resumeSync_wentOn hop' hres
      refine ⟨h₁.setNode hwent.trace hwent.others hwent.object, ?_⟩
      intro m config heq
      obtain ⟨rfl, ⟨a, hv⟩, hfind⟩ := hwent.returned m config heq
      obtain ⟨S, hreg⟩ := hchain'.registers.exists_acceptors r.majorId
      refine ⟨⟨k, ?_⟩, ?_⟩
      · rw [← hmajor]
        exact hreg.decree.committedValue_of_answered ⟨a, hv⟩
      · change (Function.update s.nodes m node' m).delegate.configs.find? _ = _
        rw [Function.update_self]
        exact hfind
    · exact ⟨h₁, by simp⟩

omit [LawfulKVStoreLite κ β] [DecidableEq A] [DecidableEq ν] in
theorem System.Initial.appendsInv (h : System.Initial bootstrapConfig s) :
    AppendsInv codec configCodec s := by
  intro n config written r hop
  rw [h.nodes n] at hop
  exact absurd hop (by simp [makeMetadataStoreStateMachine])

/-- **`compareAndAppendRange` tells the truth in every run in which no write succeeds with a value
taken over from another proposer**: when it returns normally, the configuration is the committed
value of a register of the chain, and the node's store holds it under its version. -/
theorem compareAndAppendRange_tellsTruth (h₀ : System.Initial bootstrapConfig s)
    {es : List (SystemEvent A ν)} {e : SystemEvent A ν} {t t' : System A ν κ}
    (hrun : Transition.run (System.next codec configCodec registry) s es = some t)
    (hmeets : Transition.Meets (System.next codec configCodec registry)
      (WritesOwnValue configCodec) s (es ++ [e]))
    (hs : t.step codec configCodec registry e =
      some (t', some (.compareAndAppendRange n config (.ok ())))) :
    TellsTruth codec configCodec bootstrapConfig t' n config := by
  obtain ⟨hbefore, hlast⟩ := hmeets.append hrun
  have hinv : (∃ log, ChainInv codec configCodec registry bootstrapConfig log t) ∧
      AppendsInv codec configCodec t := by
    refine Transition.meets_invariant
      (P := fun s => (∃ log, ChainInv codec configCodec registry bootstrapConfig log s) ∧
        AppendsInv codec configCodec s) ?_ hrun hbefore ⟨⟨[], h₀.chainInv⟩, h₀.appendsInv⟩
    rintro u e u' ⟨⟨log, hchain⟩, h⟩ hok hu
    obtain ⟨⟨u'', out⟩, hstep, rfl⟩ := Option.map_eq_some_iff.mp hu
    obtain ⟨log', -, hchain'⟩ := hchain.step hstep
    exact ⟨⟨log', hchain'⟩, (h.step hchain hok hstep).1⟩
  obtain ⟨⟨log, hchain⟩, h⟩ := hinv
  exact (h.step hchain hlast.1 hs).2 n config rfl

/-- The first node of `appendThenSync` returns from its append. -/
theorem compareAndAppendRange_tellsTruth_one_append :
    ∃ t t', Transition.run (System.next (Codec.identity PaxosInstance) MetadataConfig.wireCodec id)
        twoNodes (appendThenSync.take 7) = some t ∧
      t.step (Codec.identity PaxosInstance) MetadataConfig.wireCodec id
        (.progress (.readNext 0)) = some (t', some (.compareAndAppendRange 0
          { versionId := 1, replicaSetConfig := [{ id := "b" }] } (.ok ()))) ∧
      TellsTruth (Codec.identity PaxosInstance) MetadataConfig.wireCodec
        { replicaSetConfig := [{ id := "a" }] } t' 0
        { versionId := 1, replicaSetConfig := [{ id := "b" }] } := by
  have hinit : System.Initial { replicaSetConfig := [{ id := "a" }] } twoNodes :=
    ⟨⟨fun _ _ => rfl, fun _ => rfl, rfl, rfl⟩, fun _ => rfl⟩
  have hmeets : Transition.Meets (System.next (Codec.identity PaxosInstance)
      MetadataConfig.wireCodec id) (WritesOwnValue MetadataConfig.wireCodec) twoNodes
      (appendThenSync.take 7 ++ [.progress (.readNext 0)]) := by
    refine .cons trivial rfl (.cons trivial rfl (.cons trivial rfl (.cons trivial rfl
      (.cons trivial rfl (.cons trivial rfl (.cons ?_ rfl (.cons trivial rfl trivial)))))))
    -- nobody else has written, so nothing was selected
    intro config written r b p _ hr _ hp
    obtain rfl := Option.some.inj hr
    have hnone : (none : Option Proposal) = some p := hp
    exact absurd hnone (by simp)
  have h : ∀ t t', Transition.run (System.next (Codec.identity PaxosInstance)
      MetadataConfig.wireCodec id) twoNodes (appendThenSync.take 7) = some t →
      t.step (Codec.identity PaxosInstance) MetadataConfig.wireCodec id
        (.progress (.readNext 0)) = some (t', some (.compareAndAppendRange 0
          { versionId := 1, replicaSetConfig := [{ id := "b" }] } (.ok ()))) →
      TellsTruth (Codec.identity PaxosInstance) MetadataConfig.wireCodec
        { replicaSetConfig := [{ id := "a" }] } t' 0
        { versionId := 1, replicaSetConfig := [{ id := "b" }] } :=
    fun t t' hrun hs => compareAndAppendRange_tellsTruth hinit hrun hmeets hs
  exact ⟨_, _, rfl, rfl, h _ _ rfl rfl⟩

/-- A first version that starts at `startIndex`. -/
def firstVersion (startIndex : Int) : MetadataConfig :=
  { versionId := 1, startIndex := startIndex, replicaSetConfig := [{ id := "a" }] }

/-- Node 0 gets its configuration accepted and stops before the commit. Node 1 appends another one:
its first lock is rejected, its second is told of the vote, and its write commits it. -/
def foreignWrite : List (SystemEvent String (Fin 2)) :=
  [.append 0 (firstVersion 10),
    .progress (.prepare 0 0 false), .progress (.lockDone 0), .progress (.accept 0),
    .append 1 (firstVersion 20),
    .progress (.prepare 1 0 false), .progress (.lockDone 1),
    .progress (.prepare 1 0 false), .progress (.lockDone 1), .progress (.accept 1),
    .progress (.acceptDone 1), .progress (.commit 1), .progress (.commitDone 1)]

/-- Node 1 is told that its configuration was appended; its store has node 0's in its place. -/
theorem not_tellsTruth_foreign_write :
    ∃ t t', Transition.run (System.next (Codec.identity PaxosInstance) MetadataConfig.wireCodec id)
        twoNodes foreignWrite = some t ∧
      t.step (Codec.identity PaxosInstance) MetadataConfig.wireCodec id
        (.progress (.readNext 1)) =
          some (t', some (.compareAndAppendRange 1 (firstVersion 20) (.ok ()))) ∧
      ¬ TellsTruth (Codec.identity PaxosInstance) MetadataConfig.wireCodec
        { replicaSetConfig := [{ id := "a" }] } t' 1 (firstVersion 20) := by
  refine ⟨_, _, rfl, rfl, ?_⟩
  rintro ⟨-, hfind⟩
  have hstored : some (firstVersion 10) = some (firstVersion 20) := hfind
  exact absurd hstored (by decide)

end ReplicatedCounter.Metadata
