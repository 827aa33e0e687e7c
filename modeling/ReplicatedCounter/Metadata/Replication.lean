import ReplicatedCounter.Metadata.StateMachine
import ReplicatedCounter.Paxos.Agreement
import ReplicatedCounter.Paxos.Frames

/-!
# Replication of the metadata store

All nodes replay the same chain. The argument is an induction along the chain and along the run at
once: as long as everybody who made an object for register `k + 1` did so with the acceptors that
the first `k` committed configurations lead to, single-decree agreement holds for that register, so
everybody who gets past it has applied the same configuration and makes register `k + 2` with the
same acceptors.

`log` below is that chain as far as anybody has read it. It is not part of the state: `ChainInv`
says that there is one, and a step either keeps it or adds the value somebody read last.
-/

set_option autoImplicit false

namespace ReplicatedCounter.Metadata

open Paxos

variable {A ν κ β : Type}

/-- **The specification**: `compareAndAppendRange`, a rejection skipped. -/
def appendOrSkip (store : InMemoryMetadataStore) (config : MetadataConfig) :
    InMemoryMetadataStore :=
  match store.compareAndAppendRange config with
  | .ok store => store
  | .error _ => store

/-- A list of configurations replayed into an empty store. -/
def replay (log : List MetadataConfig) : InMemoryMetadataStore := log.foldl appendOrSkip {}

theorem apply_fst (store : InMemoryMetadataStore) (config : MetadataConfig) :
    (MetadataStoreApplicator.apply store config).1 = appendOrSkip store config := by
  unfold MetadataStoreApplicator.apply appendOrSkip
  split <;> simp [*]

theorem replay_append (log log' : List MetadataConfig) :
    replay (log ++ log') = log'.foldl appendOrSkip (replay log) := List.foldl_append

/-- The configuration in force after a list of configurations. -/
def configAfter (bootstrapConfig : MetadataConfig) (log : List MetadataConfig) : MetadataConfig :=
  if log.isEmpty then bootstrapConfig else (currentConfigSupplier (replay log)).getD {}

/-- The acceptors of the next register. -/
def acceptorsAfter (registry : String → A) (bootstrapConfig : MetadataConfig)
    (log : List MetadataConfig) : List A :=
  (configAfter bootstrapConfig log).replicaSetConfig.map fun replicaConfig =>
    registry replicaConfig.id

variable [DecidableEq A] [DecidableEq ν] [KVStoreLite κ β]

section invariant

variable (codec : Codec PaxosInstance β) (configCodec : Codec MetadataConfig String)
  (registry : String → A) (bootstrapConfig : MetadataConfig)

/-- What the acceptors satisfy when `log` has been read. -/
structure RegistersInv (log : List MetadataConfig) (w : World A ν κ) : Prop where
  /-- The registers up to the first unread one are all used with the acceptors of their turn. -/
  decided : ∀ i ≤ log.length, World.RegisterInv codec (bootstrapConfig.startIndex + 1 + (i : Nat))
    (acceptorsAfter registry bootstrapConfig (log.take i)) w
  untouched : ∀ reg, (∀ i ≤ log.length, reg ≠ bootstrapConfig.startIndex + 1 + (i : Nat)) →
    ∀ S, World.RegisterInv codec reg S w
  committed : ∀ i config, log[i]? = some config →
    ∃ a v, .committedValue a (instanceId (bootstrapConfig.startIndex + 1 + (i : Nat))) v ∈ w.trace ∧
      configCodec.parse v = some config

/-- What a node satisfies: it has applied a prefix of the log and works on the register after. -/
structure NodeInv (log : List MetadataConfig) (object : Option (RegisterObject A))
    (node : MetadataStoreStateMachine) (k : Nat) : Prop where
  le : k ≤ log.length
  lastApplied : node.lastAppliedWorId = bootstrapConfig.startIndex + k
  delegate : node.delegate = replay (log.take k)
  currentConfig : node.currentConfig = configAfter bootstrapConfig (log.take k)
  working : node.operation ≠ none →
    ∃ r, object = some r ∧ r.majorId = bootstrapConfig.startIndex + 1 + k

/-- What the whole system satisfies. -/
structure ChainInv (log : List MetadataConfig) (s : System A ν κ) : Prop where
  registers : RegistersInv codec configCodec registry bootstrapConfig log s.world
  node : ∀ n, ∃ k, NodeInv bootstrapConfig log (s.world.registers n) (s.nodes n) k

end invariant

variable {codec : Codec PaxosInstance β} {configCodec : Codec MetadataConfig String}
  {registry : String → A} {bootstrapConfig : MetadataConfig} {log log' : List MetadataConfig}
  {w w' : World A ν κ}

/-! ## The registers -/

theorem RegistersInv.step [LawfulKVStoreLite κ β]
    (h : RegistersInv codec configCodec registry bootstrapConfig log w) {e : Paxos.Event A ν}
    {out : Option Output} (hs : w.step codec e = some (w', out))
    (hmake : ∀ o reg acceptors, e = .make o reg acceptors →
      ∃ i ≤ log.length, reg = bootstrapConfig.startIndex + 1 + (i : Nat) ∧
        acceptors = acceptorsAfter registry bootstrapConfig (log.take i)) :
    RegistersInv codec configCodec registry bootstrapConfig log w' where
  decided i hi := by
    refine (h.decided i hi).step hs fun o acceptors he => ?_
    obtain ⟨j, -, hj, hacc⟩ := hmake o _ acceptors he
    obtain rfl : i = j := by omega
    exact hacc
  untouched reg hreg S := by
    refine (h.untouched reg hreg S).step hs fun o acceptors he => ?_
    obtain ⟨j, hle, hj, -⟩ := hmake o _ acceptors he
    exact absurd hj (hreg j hle)
  committed i config hi := by
    obtain ⟨a, v, hv, hparse⟩ := h.committed i config hi
    exact ⟨a, v, (World.step_moves hs).1 _ hv, hparse⟩

section

omit [DecidableEq A] [DecidableEq ν]

/-- The next value has been read: the chain grows, and with it the set of registers in use. -/
theorem RegistersInv.extend (h : RegistersInv codec configCodec registry bootstrapConfig log w)
    {a : A} {v : String} {config : MetadataConfig}
    (hv : .committedValue a (instanceId (bootstrapConfig.startIndex + 1 + (log.length : Nat))) v ∈
      w.trace) (hparse : configCodec.parse v = some config) :
    RegistersInv codec configCodec registry bootstrapConfig (log ++ [config]) w where
  decided i hi := by
    rw [List.length_append, List.length_singleton] at hi
    rcases Nat.lt_or_ge log.length i with hlt | hle
    · exact h.untouched _ (fun j hj => by omega) _
    · rw [List.take_append_of_le_length hle]
      exact h.decided i hle
  untouched reg hreg S := by
    refine h.untouched reg (fun i hi => hreg i ?_) S
    rw [List.length_append]
    omega
  committed i config' hi := by
    rcases Nat.lt_trichotomy i log.length with hlt | rfl | hgt
    · rw [List.getElem?_append_left hlt] at hi
      exact h.committed i config' hi
    · rw [List.getElem?_append_right (le_refl _), Nat.sub_self, List.getElem?_cons_zero,
        Option.some.injEq] at hi
      exact ⟨a, v, hv, hi ▸ hparse⟩
    · rw [List.getElem?_eq_none (by rw [List.length_append, List.length_singleton]; omega)] at hi
      exact absurd hi (by simp)

/-- A register in use has one committed value. -/
theorem RegistersInv.agree (h : RegistersInv codec configCodec registry bootstrapConfig log w)
    {i : Nat} (hi : i ≤ log.length) {a a' : A} {v v' : String}
    (hv : .committedValue a (instanceId (bootstrapConfig.startIndex + 1 + i)) v ∈ w.trace)
    (hv' : .committedValue a' (instanceId (bootstrapConfig.startIndex + 1 + i)) v' ∈ w.trace) :
    v = v' :=
  (h.decided i hi).decree.agreement ⟨a, hv⟩ ⟨a', hv'⟩

/-- Every register is used with one set of acceptors, whichever it is. -/
theorem RegistersInv.exists_acceptors
    (h : RegistersInv codec configCodec registry bootstrapConfig log w) (reg : Int) :
    ∃ S, World.RegisterInv codec reg S w := by
  by_cases hreg : ∃ i ≤ log.length, reg = bootstrapConfig.startIndex + 1 + (i : Nat)
  · obtain ⟨i, hi, rfl⟩ := hreg
    exact ⟨_, h.decided i hi⟩
  · exact ⟨[], h.untouched reg (fun i hi heq => hreg ⟨i, hi, heq⟩) []⟩

/-- **Whoever reads the value of a register reads the chain's next configuration**, or is the
first to read it and thereby extends the chain. -/
theorem RegistersInv.read (h : RegistersInv codec configCodec registry bootstrapConfig log w)
    {k : Nat} (hk : k ≤ log.length) {a : A} {v : String} {config : MetadataConfig}
    (hv : .committedValue a (instanceId (bootstrapConfig.startIndex + 1 + k)) v ∈ w.trace)
    (hparse : configCodec.parse v = some config) :
    ∃ log', log <+: log' ∧ RegistersInv codec configCodec registry bootstrapConfig log' w ∧
      log'.take (k + 1) = log.take k ++ [config] ∧ k + 1 ≤ log'.length := by
  rcases Nat.lt_or_ge k log.length with hlt | hge
  · refine ⟨log, List.prefix_rfl, h, ?_, hlt⟩
    obtain ⟨a', v', hv', hparse'⟩ := h.committed k log[k] (List.getElem?_eq_getElem hlt)
    obtain rfl := h.agree hk hv hv'
    rw [List.take_succ_eq_append_getElem hlt]
    rw [hparse, Option.some.injEq] at hparse'
    rw [hparse']
  · obtain rfl : k = log.length := by omega
    refine ⟨log ++ [config], List.prefix_append _ _, h.extend hv hparse, ?_, ?_⟩
    · rw [List.take_length, List.take_of_length_le (by simp)]
    · simp

end

/-! ## A node -/

section

omit [DecidableEq A]

theorem NodeInv.mono {object : Option (RegisterObject A)} {node : MetadataStoreStateMachine}
    {k : Nat} (h : NodeInv bootstrapConfig log object node k) (hlog : log <+: log') :
    NodeInv bootstrapConfig log' object node k := by
  obtain ⟨rest, rfl⟩ := hlog
  have htake : (log ++ rest).take k = log.take k := List.take_append_of_le_length h.le
  exact { h with
    le := by rw [List.length_append]; exact Nat.le_add_right_of_le h.le
    delegate := htake.symm ▸ h.delegate
    currentConfig := htake.symm ▸ h.currentConfig }

/-- A node whose object moved on the same register, in the same or in another state of its loop. -/
theorem NodeInv.move {x x' : Option (RegisterObject A)} {node : MetadataStoreStateMachine}
    {k : Nat} (h : NodeInv bootstrapConfig log x node k)
    (hx : ∀ r, x = some r → ∃ r', x' = some r' ∧ r'.majorId = r.majorId)
    {operation : Option Operation} (hop : operation ≠ none → node.operation ≠ none) :
    NodeInv bootstrapConfig log x' { node with operation := operation } k := by
  refine { h with working := fun hne => ?_ }
  obtain ⟨r, hr, hmajor⟩ := h.working (hop hne)
  obtain ⟨r', hr', hsame⟩ := hx r hr
  exact ⟨r', hr', hsame.trans hmajor⟩

/-- The supplier never throws, so a value that was read is applied. -/
theorem applyWorValue_spec (node : MetadataStoreStateMachine) (config : MetadataConfig) :
    ∃ currentConfig,
      currentConfigSupplier (MetadataStoreApplicator.apply node.delegate config).1 =
        some currentConfig ∧
      System.applyWorValue node config = ({ node with
        delegate := (MetadataStoreApplicator.apply node.delegate config).1
        currentConfig := currentConfig
        lastAppliedWorId := node.lastAppliedWorId + 1 },
        some (MetadataStoreApplicator.apply node.delegate config).2) := by
  obtain ⟨currentConfig, hc⟩ := InMemoryMetadataStore.getConfig_currentVersion
    (MetadataStoreApplicator.apply node.delegate config).1
  refine ⟨currentConfig, hc, ?_⟩
  have hsupplier : currentConfigSupplier (MetadataStoreApplicator.apply node.delegate config).1 =
      some currentConfig := hc
  unfold System.applyWorValue
  simp only [hsupplier]

/-- Applying the chain's next configuration. -/
theorem NodeInv.applyNext {object : Option (RegisterObject A)} {node node' : MetadataStoreStateMachine}
    {k : Nat} (h : NodeInv bootstrapConfig log object node k) {config : MetadataConfig}
    (hlen : k + 1 ≤ log'.length) (htake : log'.take (k + 1) = log.take k ++ [config])
    {result : Option ApplicationResult}
    (happly : System.applyWorValue node config = (node', result)) :
    node'.lastAppliedWorId = bootstrapConfig.startIndex + (k + 1 : Nat) ∧
      node'.currentConfig = configAfter bootstrapConfig (log'.take (k + 1)) ∧
      node'.operation = node.operation ∧
      NodeInv bootstrapConfig log' object { node' with operation := none } (k + 1) := by
  obtain ⟨currentConfig, hsupplier, heq⟩ := applyWorValue_spec node config
  rw [heq] at happly
  obtain ⟨rfl, -⟩ := Prod.mk.inj happly
  have hdelegate : (MetadataStoreApplicator.apply node.delegate config).1 =
      replay (log'.take (k + 1)) := by
    rw [htake, replay_append, h.delegate, apply_fst]
    rfl
  have hcurrent : currentConfig = configAfter bootstrapConfig (log'.take (k + 1)) := by
    unfold configAfter
    rw [← hdelegate, hsupplier, htake]
    simp
  have hlast : node.lastAppliedWorId + 1 = bootstrapConfig.startIndex + (k + 1 : Nat) := by
    rw [h.lastApplied]
    omega
  exact ⟨hlast, hcurrent, rfl, hlen, hlast, hdelegate, hcurrent, fun hne => absurd rfl hne⟩

end

/-! ## Register calls made by a node -/

/-- What a call of node `n` leaves as it was. -/
structure CallFrame (n : ν) (w w' : World A ν κ) : Prop where
  others : ∀ o, o ≠ n → w'.registers o = w.registers o
  own : ∀ r, w.registers n = some r → ∃ r', w'.registers n = some r' ∧ r'.majorId = r.majorId

theorem callFrame_of_step {n : ν} {e : Paxos.Event A ν} {out : Option Output}
    (hs : w.step codec e = some (w', out)) (howner : e.owner = some n)
    (hmake : ∀ o worId acceptors, e ≠ .make o worId acceptors) : CallFrame n w w' := by
  have hmoves := (World.step_moves hs).2
  rw [howner] at hmoves
  obtain ⟨r', hregs, hmove⟩ := hmoves
  refine ⟨fun o ho => by rw [hregs, Function.update_of_ne ho], fun r hr => ?_⟩
  rw [hr] at hmove
  exact ⟨r', by rw [hregs, Function.update_self], (hmove.sameRegister hmake).1⟩

variable [LawfulKVStoreLite κ β]

theorem RegistersInv.call (h : RegistersInv codec configCodec registry bootstrapConfig log w)
    {n : ν} {e : Paxos.Event A ν} (hs : w.next codec e = some w') (howner : e.owner = some n)
    (hmake : ∀ o worId acceptors, e ≠ .make o worId acceptors) :
    RegistersInv codec configCodec registry bootstrapConfig log w' ∧ CallFrame n w w' := by
  obtain ⟨⟨w'', out⟩, hstep, rfl⟩ := Option.map_eq_some_iff.mp hs
  exact ⟨h.step hstep fun o reg acceptors he => absurd he (hmake o reg acceptors),
    callFrame_of_step hstep howner hmake⟩

/-- A new register is made with the acceptors of its turn. -/
theorem RegistersInv.nextWor (h : RegistersInv codec configCodec registry bootstrapConfig log w)
    {n : ν} {node : MetadataStoreStateMachine} {k : Nat} (hk : k ≤ log.length)
    (hlast : node.lastAppliedWorId = bootstrapConfig.startIndex + k)
    (hconfig : node.currentConfig = configAfter bootstrapConfig (log.take k))
    {call : Paxos.Event A ν} (howner : call.owner = some n)
    (hcall : ∀ o worId acceptors, call ≠ .make o worId acceptors)
    (hs : System.nextWor codec registry w n node call = some w') :
    RegistersInv codec configCodec registry bootstrapConfig log w' ∧
      (∀ o, o ≠ n → w'.registers o = w.registers o) ∧
      ∃ r, w'.registers n = some r ∧ r.majorId = bootstrapConfig.startIndex + 1 + k := by
  unfold System.nextWor at hs
  simp only [bind, Option.bind_eq_some_iff] at hs
  obtain ⟨w₁, hmake, hs⟩ := hs
  obtain ⟨⟨w₁', out⟩, hstep, rfl⟩ := Option.map_eq_some_iff.mp hmake
  have hid : node.lastAppliedWorId + 1 = bootstrapConfig.startIndex + 1 + k := by
    rw [hlast]
    omega
  have h₁ := h.step hstep (by
    intro o reg acceptors he
    obtain ⟨-, rfl, rfl⟩ := Paxos.Event.make.inj he
    exact ⟨k, hk, hid, by rw [hconfig]; rfl⟩)
  obtain ⟨h₂, hframe⟩ := h₁.call hs howner hcall
  have hmoves := (World.step_moves hstep).2
  obtain ⟨r', hregs, hmove⟩ := hmoves
  refine ⟨h₂, fun o ho => ?_, ?_⟩
  · rw [hframe.others o ho, hregs, Function.update_of_ne ho]
  · obtain ⟨r'', hr'', hsame⟩ := hframe.own r' (by rw [hregs, Function.update_self])
    refine ⟨r'', hr'', hsame.trans ?_⟩
    rw [hmove.of_make]
    exact hid

/-! ## A node going on -/

/-- Where a node stands after it went on: the chain may have grown by what it read. -/
structure Resumed (codec : Codec PaxosInstance β) (configCodec : Codec MetadataConfig String)
    (registry : String → A) (bootstrapConfig : MetadataConfig) (log : List MetadataConfig) (n : ν)
    (w w' : World A ν κ) (node' : MetadataStoreStateMachine) (log' : List MetadataConfig)
    (k' : Nat) : Prop where
  grown : log <+: log'
  registers : RegistersInv codec configCodec registry bootstrapConfig log' w'
  others : ∀ o, o ≠ n → w'.registers o = w.registers o
  node : NodeInv bootstrapConfig log' (w'.registers n) node' k'

variable {n : ν} {node node' : MetadataStoreStateMachine} {k : Nat} {out : Option (SystemOutput ν)}

/-- Another call on the same register. -/
theorem resumed_call (h : RegistersInv codec configCodec registry bootstrapConfig log w)
    (hn : NodeInv bootstrapConfig log (w.registers n) node k) {operation : Option Operation}
    (hop : operation ≠ none → node.operation ≠ none) {e : Paxos.Event A ν}
    (howner : e.owner = some n) (hmake : ∀ o worId acceptors, e ≠ .make o worId acceptors)
    (hs : w.next codec e = some w') :
    Resumed codec configCodec registry bootstrapConfig log n w w'
      { node with operation := operation } log k := by
  obtain ⟨h', hframe⟩ := h.call hs howner hmake
  exact ⟨List.prefix_rfl, h', hframe.others, hn.move hframe.own hop⟩

omit [DecidableEq ν] [LawfulKVStoreLite κ β] [DecidableEq A] in
/-- The operation ends where it stands. -/
theorem resumed_stop (h : RegistersInv codec configCodec registry bootstrapConfig log w)
    (hn : NodeInv bootstrapConfig log (w.registers n) node k) :
    Resumed codec configCodec registry bootstrapConfig log n w w
      { node with operation := none } log k :=
  ⟨List.prefix_rfl, h, fun _ _ => rfl,
    hn.move (fun r hr => ⟨r, hr, rfl⟩) fun hne => absurd rfl hne⟩

/-- A value that was read is applied; then the operation ends, or goes on to the next register. -/
theorem resumed_value (h : RegistersInv codec configCodec registry bootstrapConfig log w)
    (hn : NodeInv bootstrapConfig log (w.registers n) node k) {a : A} {v : String}
    {config : MetadataConfig}
    (hv : .committedValue a (instanceId (bootstrapConfig.startIndex + 1 + k)) v ∈ w.trace)
    (hparse : configCodec.parse v = some config) {result : Option ApplicationResult}
    (happly : System.applyWorValue node config = (node', result)) :
    (∃ log', Resumed codec configCodec registry bootstrapConfig log n w w
        { node' with operation := none } log' (k + 1)) ∧
      ∀ call w', call.owner = some n → (∀ o worId acceptors, call ≠ .make o worId acceptors) →
        System.nextWor codec registry w n node' call = some w' →
        ∃ log', Resumed codec configCodec registry bootstrapConfig log n w w' node' log' (k + 1) := by
  obtain ⟨log', hgrown, h', htake, hlen⟩ := h.read hn.le hv hparse
  obtain ⟨hlast, hcurrent, hop, hn'⟩ := hn.applyNext hlen htake happly
  refine ⟨⟨log', hgrown, h', fun _ _ => rfl, hn'⟩, ?_⟩
  intro call w' howner hcall hs
  obtain ⟨h'', hothers, r, hr, hmajor⟩ := h'.nextWor hlen hlast hcurrent howner hcall hs
  exact ⟨log', hgrown, h'', hothers, hn'.le, hn'.lastApplied, hn'.delegate, hn'.currentConfig,
    fun _ => ⟨r, hr, hmajor⟩⟩

theorem resumeAppend_spec (h : RegistersInv codec configCodec registry bootstrapConfig log w)
    (hn : NodeInv bootstrapConfig log (w.registers n) node k) {config : MetadataConfig}
    {successfullyWritten : Bool} (hop : node.operation ≠ none) {output : Output}
    (hread : ∀ v, output = .readReturned (some v) →
      ∃ a, .committedValue a (instanceId (bootstrapConfig.startIndex + 1 + k)) v ∈ w.trace)
    (hs : System.resumeAppend codec configCodec registry w n node config successfullyWritten
      output = some (w', node', out)) :
    ∃ log' k', Resumed codec configCodec registry bootstrapConfig log n w w' node' log' k' := by
  unfold System.resumeAppend at hs
  split at hs
  · simp only [bind, pure, Option.bind_eq_some_iff, Option.some.injEq, Prod.mk.injEq] at hs
    obtain ⟨w₁, hcall, rfl, rfl, -⟩ := hs
    exact ⟨log, k, resumed_call h hn (fun _ => hop) rfl (by simp) hcall⟩
  · simp only [bind, pure, Option.bind_eq_some_iff, Option.some.injEq, Prod.mk.injEq] at hs
    obtain ⟨w₁, hcall, rfl, rfl, -⟩ := hs
    exact ⟨log, k, resumed_call h hn (fun _ => hop) rfl (by simp) hcall⟩
  · simp only [bind, pure, Option.bind_eq_some_iff, Option.some.injEq, Prod.mk.injEq] at hs
    obtain ⟨w₁, hcall, rfl, rfl, -⟩ := hs
    exact ⟨log, k, resumed_call h hn (fun _ => hop) rfl (by simp) hcall⟩
  · simp only [bind, pure, Option.bind_eq_some_iff, Option.some.injEq, Prod.mk.injEq] at hs
    obtain ⟨w₁, hcall, rfl, rfl, -⟩ := hs
    exact ⟨log, k, resumed_call h hn (fun _ => hop) rfl (by simp) hcall⟩
  · rename_i v
    obtain ⟨a, hv⟩ := hread v rfl
    split at hs
    · simp only [Option.some.injEq, Prod.mk.injEq] at hs
      obtain ⟨rfl, rfl, -⟩ := hs
      exact ⟨log, k, resumed_stop h hn⟩
    · rename_i metadataConfig hparse
      split at hs
      · rename_i node₁ happly
        obtain ⟨⟨log', hres⟩, -⟩ := resumed_value h hn hv hparse happly
        simp only [Option.some.injEq, Prod.mk.injEq] at hs
        obtain ⟨rfl, rfl, -⟩ := hs
        exact ⟨log', k + 1, hres⟩
      · rename_i node₁ result happly
        obtain ⟨⟨log', hres⟩, hnext⟩ := resumed_value h hn hv hparse happly
        split at hs
        · simp only [Option.some.injEq, Prod.mk.injEq] at hs
          obtain ⟨rfl, rfl, -⟩ := hs
          exact ⟨log', k + 1, hres⟩
        · simp only [bind, pure, Option.bind_eq_some_iff, Option.some.injEq, Prod.mk.injEq] at hs
          obtain ⟨w₁, hcall, rfl, rfl, -⟩ := hs
          obtain ⟨log'', hres'⟩ := hnext _ _ rfl (by simp) hcall
          exact ⟨log'', k + 1, hres'⟩
  · simp only [Option.some.injEq, Prod.mk.injEq] at hs
    obtain ⟨rfl, rfl, -⟩ := hs
    exact ⟨log, k, resumed_stop h hn⟩

theorem resumeSync_spec (h : RegistersInv codec configCodec registry bootstrapConfig log w)
    (hn : NodeInv bootstrapConfig log (w.registers n) node k) {output : Output}
    (hread : ∀ v, output = .readReturned (some v) →
      ∃ a, .committedValue a (instanceId (bootstrapConfig.startIndex + 1 + k)) v ∈ w.trace)
    (hs : System.resumeSync codec configCodec registry w n node output = some (w', node', out)) :
    ∃ log' k', Resumed codec configCodec registry bootstrapConfig log n w w' node' log' k' := by
  unfold System.resumeSync at hs
  split at hs
  · simp only [Option.some.injEq, Prod.mk.injEq] at hs
    obtain ⟨rfl, rfl, -⟩ := hs
    exact ⟨log, k, resumed_stop h hn⟩
  · rename_i v
    obtain ⟨a, hv⟩ := hread v rfl
    split at hs
    · simp only [Option.some.injEq, Prod.mk.injEq] at hs
      obtain ⟨rfl, rfl, -⟩ := hs
      exact ⟨log, k, resumed_stop h hn⟩
    · rename_i metadataConfig hparse
      split at hs
      · rename_i node₁ happly
        obtain ⟨⟨log', hres⟩, -⟩ := resumed_value h hn hv hparse happly
        simp only [Option.some.injEq, Prod.mk.injEq] at hs
        obtain ⟨rfl, rfl, -⟩ := hs
        exact ⟨log', k + 1, hres⟩
      · rename_i node₁ result happly
        obtain ⟨-, hnext⟩ := resumed_value h hn hv hparse happly
        simp only [bind, pure, Option.bind_eq_some_iff, Option.some.injEq, Prod.mk.injEq] at hs
        obtain ⟨w₁, hcall, rfl, rfl, -⟩ := hs
        obtain ⟨log', hres⟩ := hnext _ _ rfl (by simp) hcall
        exact ⟨log', k + 1, hres⟩
  · simp only [Option.some.injEq, Prod.mk.injEq] at hs
    obtain ⟨rfl, rfl, -⟩ := hs
    exact ⟨log, k, resumed_stop h hn⟩
  · exact absurd hs (by simp)
  · exact absurd hs (by simp)

theorem resume_spec (h : RegistersInv codec configCodec registry bootstrapConfig log w)
    (hn : NodeInv bootstrapConfig log (w.registers n) node k) {output : Output}
    (hread : ∀ v, output = .readReturned (some v) → node.operation ≠ none →
      ∃ a, .committedValue a (instanceId (bootstrapConfig.startIndex + 1 + k)) v ∈ w.trace)
    (hs : System.resume codec configCodec registry w n node output = some (w', node', out)) :
    ∃ log' k', Resumed codec configCodec registry bootstrapConfig log n w w' node' log' k' := by
  unfold System.resume at hs
  split at hs
  · exact absurd hs (by simp)
  · rename_i hop
    exact resumeAppend_spec h hn (by simp [hop]) (fun v hv => hread v hv (by simp [hop])) hs
  · rename_i hop
    exact resumeSync_spec h hn (fun v hv => hread v hv (by simp [hop])) hs

/-! ## The system -/

variable {s s' : System A ν κ}

omit [LawfulKVStoreLite κ β] [DecidableEq A] in
/-- One node has moved, and the chain has grown at most. -/
theorem ChainInv.setNode (h : ChainInv codec configCodec registry bootstrapConfig log s)
    {n : ν} {node' : MetadataStoreStateMachine} {k' : Nat}
    (hres : Resumed codec configCodec registry bootstrapConfig log n s.world w' node' log' k') :
    ChainInv codec configCodec registry bootstrapConfig log' (s.setNode w' n node') where
  registers := hres.registers
  node m := by
    change ∃ k, NodeInv bootstrapConfig log' (w'.registers m) (Function.update s.nodes n node' m) k
    by_cases hm : m = n
    · subst hm
      rw [Function.update_self]
      exact ⟨k', hres.node⟩
    · obtain ⟨k, hk⟩ := h.node m
      rw [Function.update_of_ne hm, hres.others m hm]
      exact ⟨k, hk.mono hres.grown⟩

/-- An operation starts: the node goes to work on the register after the last applied one. -/
theorem ChainInv.start (h : ChainInv codec configCodec registry bootstrapConfig log s) {n : ν}
    (operation : Operation) {call : Paxos.Event A ν} (howner : call.owner = some n)
    (hcall : ∀ o worId acceptors, call ≠ .make o worId acceptors)
    (hs : System.nextWor codec registry s.world n
      { s.nodes n with operation := some operation } call = some w') :
    ChainInv codec configCodec registry bootstrapConfig log
      (s.setNode w' n { s.nodes n with operation := some operation }) := by
  obtain ⟨k, hk⟩ := h.node n
  obtain ⟨h', hothers, r, hr, hmajor⟩ :=
    h.registers.nextWor hk.le hk.lastApplied hk.currentConfig howner hcall hs
  exact h.setNode ⟨List.prefix_rfl, h', hothers,
    { hk with working := fun _ => ⟨r, hr, hmajor⟩ }⟩

/-- A register call made a step of its own. -/
theorem ChainInv.progress (h : ChainInv codec configCodec registry bootstrapConfig log s)
    {e : Paxos.Event A ν} (he : e.IsCall = false) {output : Option Output}
    (hs : s.world.step codec e = some (w', output)) :
    ChainInv codec configCodec registry bootstrapConfig log { s with world := w' } := by
  have hmake : ∀ o worId acceptors, e ≠ .make o worId acceptors := by
    rintro o worId acceptors rfl
    exact absurd he (by simp [Event.IsCall])
  refine ⟨h.registers.step hs fun o reg acceptors he' => absurd he' (hmake o reg acceptors), ?_⟩
  intro m
  obtain ⟨k, hk⟩ := h.node m
  refine ⟨k, ?_⟩
  cases howner : e.owner with
  | none =>
    have hmoves := (World.step_moves hs).2
    rw [howner] at hmoves
    rw [hmoves.1]
    exact hk
  | some n =>
    have hframe := callFrame_of_step hs howner hmake
    by_cases hm : m = n
    · subst hm
      exact hk.move hframe.own id
    · rw [hframe.others m hm]
      exact hk

/-- **One event keeps the chain, or adds to it.** -/
theorem ChainInv.step (h : ChainInv codec configCodec registry bootstrapConfig log s)
    {e : SystemEvent A ν} (hs : s.step codec configCodec registry e = some (s', out)) :
    ∃ log', log <+: log' ∧ ChainInv codec configCodec registry bootstrapConfig log' s' := by
  cases e with
  | append n config =>
    obtain ⟨w₁, hnext, rfl, -⟩ := System.step_append_cases hs
    exact ⟨log, List.prefix_rfl, h.start _ rfl (by simp) hnext⟩
  | sync n =>
    obtain ⟨w₁, hnext, rfl, -⟩ := System.step_sync_cases hs
    exact ⟨log, List.prefix_rfl, h.start _ rfl (by simp) hnext⟩
  | progress e =>
    obtain ⟨he, w₁, output, hstep, ⟨n, value, w₂, node', howner, rfl, hres, rfl⟩ | ⟨-, rfl, -⟩⟩ :=
      System.step_progress_cases hs
    · have h₁ := h.progress he hstep
      obtain ⟨k, hk⟩ := h₁.node n
      -- what the read returned belongs to the register the node works on
      have hread : ∀ v, value = .readReturned (some v) → (s.nodes n).operation ≠ none →
          ∃ a, .committedValue a (instanceId (bootstrapConfig.startIndex + 1 + k)) v ∈
            w₁.trace := by
        rintro v rfl hop
        have hmoves := (World.step_moves hstep).2
        rw [howner] at hmoves
        obtain ⟨r', -, hmove⟩ := hmoves
        obtain ⟨r, a, hr, hv⟩ := hmove.of_readReturned
        obtain ⟨k₀, hk₀⟩ := h.node n
        obtain ⟨r₀, hr₀, hmajor⟩ := hk₀.working hop
        obtain rfl : r = r₀ := Option.some.inj (hr.symm.trans hr₀)
        obtain rfl : k₀ = k := by
          have hl := hk₀.lastApplied
          have hl' : (s.nodes n).lastAppliedWorId = _ := hk.lastApplied
          omega
        exact ⟨a, hmajor ▸ hv⟩
      obtain ⟨log', k', hresumed⟩ := resume_spec h₁.registers hk hread hres
      exact ⟨log', hresumed.grown, h₁.setNode hresumed⟩
    · exact ⟨log, List.prefix_rfl, h.progress he hstep⟩

omit [LawfulKVStoreLite κ β] [DecidableEq A] [DecidableEq ν] in
theorem System.Initial.chainInv (h : System.Initial bootstrapConfig s) :
    ChainInv codec configCodec registry bootstrapConfig [] s where
  registers := {
    decided := fun i _ => h.world.registerInv _ _
    untouched := fun reg _ S => h.world.registerInv reg S
    committed := fun i config hi => absurd hi (by simp) }
  node n := ⟨0, by
    rw [h.nodes n]
    exact ⟨le_refl _, by simp [makeMetadataStoreStateMachine], rfl, rfl, fun hne => absurd rfl hne⟩⟩

/-- Every run leads to a state with a chain. -/
theorem exists_chainInv (h₀ : System.Initial bootstrapConfig s) {es : List (SystemEvent A ν)}
    (hrun : Transition.run (System.next codec configCodec registry) s es = some s') :
    ∃ log, ChainInv codec configCodec registry bootstrapConfig log s' := by
  refine Transition.run_invariant
    (P := fun s => ∃ log, ChainInv codec configCodec registry bootstrapConfig log s) ?_ hrun
    ⟨[], h₀.chainInv⟩
  rintro t e t' ⟨log, h⟩ hs
  obtain ⟨⟨t'', out⟩, hstep, rfl⟩ := Option.map_eq_some_iff.mp hs
  obtain ⟨log', -, h'⟩ := h.step hstep
  exact ⟨log', h'⟩

/-- Some acceptor holds `v` as the committed value of a register. -/
def System.Committed (codec : Codec PaxosInstance β) (s : System A ν κ) (reg : Int) (v : String) :
    Prop :=
  ∃ a, LocalAcceptor.committedValue
    (LocalAcceptor.instanceOf codec (s.world.acceptors a) (instanceId reg)) = some v

omit [LawfulKVStoreLite κ β] [DecidableEq A] [DecidableEq ν] in
/-- The chain's configurations are the committed values of their registers. -/
theorem ChainInv.committed (h : ChainInv codec configCodec registry bootstrapConfig log s)
    {i : Nat} {config : MetadataConfig} (hi : log[i]? = some config) :
    ∃ v, s.Committed codec (bootstrapConfig.startIndex + 1 + i) v ∧
      configCodec.parse v = some config ∧
      ∀ v', s.Committed codec (bootstrapConfig.startIndex + 1 + i) v' → v' = v := by
  obtain ⟨a, v, hv, hparse⟩ := h.registers.committed i config hi
  have hreg := (h.registers.decided i (List.getElem?_eq_some_iff.mp hi).1.le).decree
  refine ⟨v, hreg.committedValue_of_answered ⟨a, hv⟩, hparse, ?_⟩
  rintro v' ⟨a', hv'⟩
  obtain ⟨b', hc'⟩ := hreg.chosen_of_committedValue hv'
  obtain ⟨b, hc⟩ := hreg.answered ⟨a, hv⟩
  exact hreg.votes.eq_of_chosen hc' hc

/-- **Metadata state-machine replication.** In every reachable state there is one chain of
configurations, each the committed value of its register and the only one, such that a node whose
last applied register is `start + k` holds the replay of the first `k` of them. In particular the
store of a node that is behind another is extended to the other's by what comes in between. -/
theorem delegate_eq_replay (h₀ : System.Initial bootstrapConfig s) {es : List (SystemEvent A ν)}
    (hrun : Transition.run (System.next codec configCodec registry) s es = some s') :
    ∃ log : List MetadataConfig,
      (∀ (i : Nat) config, log[i]? = some config →
        ∃ v, s'.Committed codec (bootstrapConfig.startIndex + 1 + i) v ∧
          configCodec.parse v = some config ∧
          ∀ v', s'.Committed codec (bootstrapConfig.startIndex + 1 + i) v' → v' = v) ∧
      (∀ n, ∃ k : Nat, k ≤ log.length ∧
        (s'.nodes n).lastAppliedWorId = bootstrapConfig.startIndex + k ∧
        (s'.nodes n).delegate = replay (log.take k)) ∧
      ∀ n m, (s'.nodes n).lastAppliedWorId ≤ (s'.nodes m).lastAppliedWorId →
        ∃ later : List MetadataConfig,
          (later.length : Int) = (s'.nodes m).lastAppliedWorId - (s'.nodes n).lastAppliedWorId ∧
          (s'.nodes m).delegate = later.foldl appendOrSkip (s'.nodes n).delegate := by
  obtain ⟨log, h⟩ : ∃ log, ChainInv codec configCodec registry bootstrapConfig log s' :=
    exists_chainInv h₀ hrun
  refine ⟨log, fun i config hi => h.committed hi, fun n => ?_, fun n m hle => ?_⟩
  · obtain ⟨k, hk⟩ := h.node n
    exact ⟨k, hk.le, hk.lastApplied, hk.delegate⟩
  · obtain ⟨j, hj⟩ := h.node n
    obtain ⟨k, hk⟩ := h.node m
    have hjk : j ≤ k := by
      have := hj.lastApplied
      have := hk.lastApplied
      omega
    have hsplit : log.take k = log.take j ++ (log.take k).drop j := by
      conv_lhs => rw [← List.take_append_drop j (log.take k)]
      rw [List.take_take, Nat.min_eq_left hjk]
    refine ⟨(log.take k).drop j, ?_, ?_⟩
    · rw [List.length_drop, List.length_take, Nat.min_eq_left hk.le, hj.lastApplied,
        hk.lastApplied]
      omega
    · rw [hk.delegate, hj.delegate, ← replay_append, ← hsplit]

/-- Two nodes over fresh acceptors, the first register decided by the acceptor "a". -/
def twoNodes : System String (Fin 2) (RocksStore PaxosInstance) where
  world := { acceptors := fun _ => RocksStore.provideSharedPtr true, registers := fun _ => none }
  nodes _ := makeMetadataStoreStateMachine { replicaSetConfig := [{ id := "a" }] }

/-- The first node appends a configuration that moves the chain to the acceptor "b"; the second
one syncs, and asks "b" for the register after it. -/
def appendThenSync : List (SystemEvent String (Fin 2)) :=
  [.append 0 { versionId := 1, replicaSetConfig := [{ id := "b" }] },
    .progress (.prepare 0 0 false), .progress (.lockDone 0), .progress (.accept 0),
    .progress (.acceptDone 0), .progress (.commit 0), .progress (.commitDone 0),
    .progress (.readNext 0),
    .sync 1, .progress (.readNext 1), .progress (.readNext 1), .progress (.readDone 1)]

theorem delegate_eq_replay_append_then_sync :
    ∃ s, Transition.run (System.next (Codec.identity PaxosInstance) MetadataConfig.wireCodec id)
        twoNodes appendThenSync = some s ∧
      (s.nodes 0).lastAppliedWorId = 1 ∧ (s.nodes 1).lastAppliedWorId = 1 ∧
      ∃ later : List MetadataConfig, later.length = 0 ∧
        (s.nodes 1).delegate = later.foldl appendOrSkip (s.nodes 0).delegate := by
  have hinit : System.Initial { replicaSetConfig := [{ id := "a" }] } twoNodes :=
    ⟨⟨fun _ _ => rfl, fun _ => rfl, rfl, rfl⟩, fun _ => rfl⟩
  have h : ∀ s, Transition.run (System.next (Codec.identity PaxosInstance)
      MetadataConfig.wireCodec id) twoNodes appendThenSync = some s →
      (s.nodes 0).lastAppliedWorId = 1 → (s.nodes 1).lastAppliedWorId = 1 →
      ∃ later : List MetadataConfig, later.length = 0 ∧
        (s.nodes 1).delegate = later.foldl appendOrSkip (s.nodes 0).delegate := by
    intro s hrun h0 h1
    obtain ⟨log, -, -, hbegin⟩ := delegate_eq_replay hinit hrun
    obtain ⟨later, hlen, hdelegate⟩ := hbegin 0 1 (by rw [h0, h1])
    exact ⟨later, by rw [h0, h1] at hlen; omega, hdelegate⟩
  exact ⟨_, rfl, rfl, rfl, h _ rfl rfl rfl⟩

end ReplicatedCounter.Metadata
