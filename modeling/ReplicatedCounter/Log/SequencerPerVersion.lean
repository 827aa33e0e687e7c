import ReplicatedCounter.Log.SharedSequencer
import ReplicatedCounter.Log.Steps

/-!
# One object does for all versions

A `SharedSequencer` does what a sequencer for each version does, as long as its steps are
`InVersion`: nothing falls between the stores of a `start` that reads or moves the numbers, no call
sends in a version later than the one it began in, and no late acknowledgement moves the commit
index of a later version (`sequencer_per_version`).

The sequencers run ahead of the object in two places. A request is sent there when the object reads
the commit index for it, and the next version's sequencer is there with the first store of a
`start`.
-/

set_option autoImplicit false

namespace ReplicatedCounter.Log

/-! ## A sequencer for each version -/

/-- What happens to the sequencers of a log. -/
inductive SequencersEvent (N : Nat) where
  | append (v : Int) (payload : String)
  | send (v : Int) (l : Int)
  | complete (v : Int) (l : Int) (i : Fin N) (result : TryUnit)
  | acknowledge (v : Int) (l : Int)
  | start (v : Int) (sequenceNum : Int)

/-- The steps of the log that its sequencers take. -/
def LogSystem.stepSequencers {N : Nat} (s : LogSystem N) : SequencersEvent N → Option (LogSystem N)
  | .append v payload => s.append v payload
  | .send v l => s.send v l
  | .complete v l i result => s.deliver ⟨i, .sequencer, v, l, result⟩
  | .acknowledge v l => s.acknowledge v l
  | .start v sequenceNum => some (s.setSequencer v (.start sequenceNum))

namespace SharedSequencer

variable {N : Nat} {s s' : SharedSequencer N} {t : LogSystem N} {e : SharedEvent N}

/-- The same event there: a call goes by its version and its id. What a call sends counts when it
reads the commit index, and a `start` counts with its first store. -/
def label (s : SharedSequencer N) : SharedEvent N → Option (SequencersEvent N)
  | .append _ payload => some (.append s.versionId payload)
  | .load c => (s.calls c).map fun call => .send call.versionId call.logId
  | .loadVersionId _ => none
  | .send _ => none
  | .complete c i result =>
    (s.calls c).map fun call => .complete call.versionId call.logId i result
  | .compare c => do
    let call ← s.calls c
    if s.sequencer.globalCommitIndex < call.logId then
      none
    else
      some (.acknowledge call.versionId call.logId)
  | .raise => do
    let c ← s.raising
    let call ← s.calls c
    some (.acknowledge call.versionId call.logId)
  | .start versionId sequenceNum => some (.start versionId sequenceNum)
  | .store _ => none

/-- The log's sequencers look like the object, when no `start` is on its way. The next version's
sequencer is there before the object has got to it. -/
structure Simulated (s : SharedSequencer N) (t : LogSystem N) : Prop where
  sequencer : s.starting = [] → t.sequencers s.versionId = some s.sequencer
  starting : s.starting = [] ∨ ∃ v l, s.versionId < v ∧ t.sequencers v = some (.start l) ∧
    s.sequencer.sequenceNum = l ∧ (s.starting = [.globalCommitIndex v l] ∨
      s.starting = [.versionId v] ∧ s.sequencer.globalCommitIndex = l)
  raising : ∀ c, s.raising = some c → s.starting = [] ∧ ∃ call, s.calls c = some call ∧
    call.versionId = s.versionId ∧ s.sequencer.globalCommitIndex < call.logId ∧
    call.acknowledged = false ∧ call.futures.promise = some (.ok ())
  calls : ∀ c call, s.calls c = some call →
    t.appends (call.versionId, call.logId) = some call.toSequencerAppend
  started : ∀ c call, s.calls c = some call →
    ∃ sequencer, t.sequencers call.versionId = some sequencer
  below : ∀ c call, s.calls c = some call → call.versionId ≤ s.versionId ∧
    (s.starting = [] → call.versionId = s.versionId → call.logId < s.sequencer.sequenceNum)
  distinct : ∀ c c' call call', s.calls c = some call → s.calls c' = some call' →
    (call.versionId, call.logId) = (call'.versionId, call'.logId) → c = c'

/-- They have sent what the object has, and what it is about to send. -/
structure Mailed (s : SharedSequencer N) (t : LogSystem N) : Prop where
  requests : ∀ m ∈ s.requests, m ∈ t.requests
  rounds : ∀ c call round, s.calls c = some call → call.round = some round →
    call.request call.versionId round ∈ t.requests
  only : ∀ m ∈ t.requests, m ∈ s.requests ∨ ∃ c call round, s.calls c = some call ∧
    call.round = some round ∧ m = call.request call.versionId round
  versions : ∀ c call v, s.calls c = some call → call.roundVersionId = some v → v = call.versionId
  sent : ∀ m ∈ s.requests, ∃ c call, s.calls c = some call ∧ m.versionId = call.versionId ∧
    m.logId = call.logId ∧ m.payload = call.payload

variable {c : CallId} {call call' : SharedAppend N} {t' : LogSystem N}

/-- **A call goes on**, on both sides, under its version and id. -/
theorem Simulated.setCall (h : Simulated s t) (call' : SharedAppend N)
    (hcall : s.calls c = some call)
    (hversion : call'.versionId = call.versionId) (hlogId : call'.logId = call.logId)
    (hraising : s.raising = some c → call'.acknowledged = call.acknowledged ∧
      (call.futures.promise = some (.ok ()) → call'.futures.promise = some (.ok ()))) :
    Simulated (s.setCall c call')
      (t.setAppend call.versionId call.logId call'.toSequencerAppend) := by
  -- each call has its version and id from before
  have hold : ∀ {d other}, (s.setCall c call').calls d = some other → ∃ old, s.calls d = some old ∧
      other.versionId = old.versionId ∧ other.logId = old.logId := by
    intro d other hother
    rcases Parties.eq_some_of_update hother with ⟨rfl, rfl⟩ | ⟨-, hold⟩
    · exact ⟨call, hcall, hversion, hlogId⟩
    · exact ⟨other, hold, rfl, rfl⟩
  refine ⟨h.sequencer, h.starting, fun d hd => ?_, fun d other hother => ?_,
    fun d other hother => ?_, fun d other hother => ?_,
    fun d d' other other' hother hother' heq => ?_⟩
  · obtain ⟨hidle, old, hcalls, hv, hlt, hacknowledged, hpromise⟩ := h.raising d hd
    refine ⟨hidle, ?_⟩
    by_cases hdc : d = c
    · subst hdc
      obtain rfl := Option.some.inj (hcall.symm.trans hcalls)
      obtain ⟨hsame, hkept⟩ := hraising hd
      exact ⟨call', Function.update_self .., hversion.trans hv, hlogId ▸ hlt,
        hsame.trans hacknowledged, hkept hpromise⟩
    · exact ⟨old, (Function.update_of_ne hdc _ _).trans hcalls, hv, hlt, hacknowledged, hpromise⟩
  · rcases Parties.eq_some_of_update hother with ⟨rfl, rfl⟩ | ⟨hd, hother⟩
    · rw [hversion, hlogId]
      exact Function.update_self ..
    · have hne : (other.versionId, other.logId) ≠ (call.versionId, call.logId) := fun heq =>
        hd (h.distinct d c other call hother hcall heq)
      exact (Function.update_of_ne hne _ _).trans (h.calls d other hother)
  · obtain ⟨old, hcalls, hv, -⟩ := hold hother
    exact hv ▸ h.started d old hcalls
  · obtain ⟨old, hcalls, hv, hl⟩ := hold hother
    rw [hv, hl]
    exact h.below d old hcalls
  · obtain ⟨old, hcalls, hv, hl⟩ := hold hother
    obtain ⟨old', hcalls', hv', hl'⟩ := hold hother'
    rw [hv, hl, hv', hl'] at heq
    exact h.distinct d d' old old' hcalls hcalls' heq

theorem Mailed.congr (h : Mailed s t) (hcalls : s'.calls = s.calls)
    (hrequests : s'.requests = s.requests) (ht : t'.requests = t.requests) : Mailed s' t' := by
  refine ⟨?_, ?_, ?_, ?_, ?_⟩
  · rw [hrequests, ht]
    exact h.requests
  · rw [hcalls, ht]
    exact h.rounds
  · rw [hrequests, hcalls, ht]
    exact h.only
  · rw [hcalls]
    exact h.versions
  · rw [hrequests, hcalls]
    exact h.sent

/-- What a call has sent stays what it has sent. -/
theorem sent_setCall (h : Mailed s t) (call' : SharedAppend N) (hcall : s.calls c = some call)
    (hversion : call'.versionId = call.versionId) (hlogId : call'.logId = call.logId)
    (hpayload : call'.payload = call.payload) {m : Request N} (hm : m ∈ s.requests) :
    ∃ d other, (s.setCall c call').calls d = some other ∧ m.versionId = other.versionId ∧
      m.logId = other.logId ∧ m.payload = other.payload := by
  obtain ⟨d, old, hold, hv, hl, hp⟩ := h.sent m hm
  by_cases hd : d = c
  · subst hd
    obtain rfl := Option.some.inj (hcall.symm.trans hold)
    exact ⟨d, call', Function.update_self .., hv.trans hversion.symm, hl.trans hlogId.symm,
      hp.trans hpayload.symm⟩
  · exact ⟨d, old, (Function.update_of_ne hd _ _).trans hold, hv, hl, hp⟩

/-- A call goes on without a round. -/
theorem Mailed.setCall (h : Mailed s t) (call' : SharedAppend N) (hcall : s.calls c = some call)
    (hversion : call'.versionId = call.versionId) (hlogId : call'.logId = call.logId)
    (hpayload : call'.payload = call.payload) (hround : call'.round = call.round)
    (hroundVersionId : ∀ v, call'.roundVersionId = some v → v = call.versionId)
    (ht : t'.requests = t.requests) : Mailed (s.setCall c call') t' := by
  have hrequest : ∀ round,
      call'.request call'.versionId round = call.request call.versionId round := by
    intro round
    unfold SharedAppend.request
    rw [hversion, hlogId, hpayload]
  refine ⟨fun m hm => ht ▸ h.requests m hm, fun d other round hother hother' => ?_, fun m hm => ?_,
    fun d other v hother hv => ?_,
    fun m hm => sent_setCall h call' hcall hversion hlogId hpayload hm⟩
  · rw [ht]
    rcases Parties.eq_some_of_update hother with ⟨rfl, rfl⟩ | ⟨-, hold⟩
    · rw [hrequest]
      exact h.rounds d call round hcall (hround ▸ hother')
    · exact h.rounds d other round hold hother'
  · rcases h.only m (ht ▸ hm) with hm | ⟨d, old, round, hold, hold', rfl⟩
    · exact .inl hm
    · refine .inr ?_
      by_cases hd : d = c
      · subst hd
        obtain rfl := Option.some.inj (hcall.symm.trans hold)
        exact ⟨d, call', round, Function.update_self .., hround.trans hold', (hrequest round).symm⟩
      · exact ⟨d, old, round, (Function.update_of_ne hd _ _).trans hold, hold', rfl⟩
  · rcases Parties.eq_some_of_update hother with ⟨rfl, rfl⟩ | ⟨-, hold⟩
    · exact (hroundVersionId v hv).trans hversion.symm
    · exact h.versions d other v hold hv

/-- A sequencer is moved on, with the object. -/
theorem started_setSequencer {v : Int} {sequencer : SequencerImpl}
    (h : ∀ c call, s.calls c = some call →
      ∃ sequencer, t.sequencers call.versionId = some sequencer)
    (c : CallId) (call : SharedAppend N) (hcall : s.calls c = some call) :
    ∃ sequencer', (t.setSequencer v sequencer).sequencers call.versionId = some sequencer' := by
  by_cases hv : call.versionId = v
  · exact ⟨sequencer, by simp [LogSystem.setSequencer, hv]⟩
  · obtain ⟨old, hold⟩ := h c call hcall
    exact ⟨old, by simpa [LogSystem.setSequencer, Function.update_of_ne hv] using hold⟩

/-- **A new call** takes an id that is new in its version. -/
theorem Simulated.append (h : Simulated s t) (hmailed : Mailed s t) (hidle : s.starting = [])
    {payload : String} (hstep : s.append c payload = some s') :
    ∃ t', t.append s.versionId payload = some t' ∧ Simulated s' t' ∧ Mailed s' t' := by
  unfold SharedSequencer.append at hstep
  split at hstep
  · cases hstep
  rename_i hnone
  dsimp only [SequencerImpl.next] at hstep
  split at hstep
  case isFalse => cases hstep
  rename_i hlt
  obtain rfl := Option.some.inj hstep
  have hsequencer := h.sequencer hidle
  have ht' : t.append s.versionId payload = some ((t.setSequencer s.versionId
      { s.sequencer with sequenceNum := s.sequencer.sequenceNum + 1 }).setAppend s.versionId
        s.sequencer.sequenceNum { payload }) := by
    unfold LogSystem.append
    rw [hsequencer]
    dsimp only [SequencerImpl.next, Option.bind_eq_bind, Option.bind_some]
    rw [if_pos hlt]
  -- a call is the new one or an old one
  have hcases : ∀ {d other},
      Function.update s.calls c (some (s.newCall s.sequencer.sequenceNum payload)) d = some other →
      (d = c ∧ other = s.newCall s.sequencer.sequenceNum payload) ∨
        (d ≠ c ∧ s.calls d = some other) := Parties.eq_some_of_update
  have hkept : ∀ {d other}, s.calls d = some other →
      Function.update s.calls c (some (s.newCall s.sequencer.sequenceNum payload)) d =
        some other := Parties.update_eq_some hnone
  have hnew : ∀ d other, s.calls d = some other →
      (other.versionId, other.logId) ≠ (s.versionId, s.sequencer.sequenceNum) := by
    intro d other hother heq
    obtain ⟨hv, hl⟩ := Prod.mk.inj heq
    exact absurd ((h.below d other hother).2 hidle hv) (by rw [hl]; exact lt_irrefl _)
  refine ⟨_, ht', ⟨fun _ => ?_, .inl hidle, ?_, ?_, ?_, ?_, ?_⟩,
    ⟨hmailed.requests, ?_, ?_, ?_, ?_⟩⟩
  · simp [SharedSequencer.setCall, LogSystem.setAppend, LogSystem.setSequencer]
  · intro d hd
    obtain ⟨-, old, hold, hraising⟩ := h.raising d hd
    exact ⟨hidle, old, hkept hold, hraising⟩
  · intro d other hother
    rcases hcases hother with ⟨rfl, rfl⟩ | ⟨-, hold⟩
    · simp [LogSystem.setAppend, newCall]
    · simpa [LogSystem.setAppend, LogSystem.setSequencer, Function.update_of_ne (hnew d other hold)]
        using h.calls d other hold
  · intro d other hother
    rcases hcases hother with ⟨rfl, rfl⟩ | ⟨-, hold⟩
    · simp [LogSystem.setAppend, LogSystem.setSequencer, newCall]
    · exact started_setSequencer h.started d other hold
  · intro d other hother
    rcases hcases hother with ⟨rfl, rfl⟩ | ⟨-, hold⟩
    · exact ⟨le_refl _, fun _ _ => Int.lt_succ _⟩
    · obtain ⟨hle, hbelow⟩ := h.below d other hold
      exact ⟨hle, fun _ hv => (hbelow hidle hv).trans (Int.lt_succ _)⟩
  · intro d d' other other' hother hother' heq
    rcases hcases hother with ⟨rfl, rfl⟩ | ⟨-, hold⟩
    · rcases hcases hother' with ⟨rfl, rfl⟩ | ⟨-, hold'⟩
      · rfl
      · exact absurd heq.symm (hnew d' other' hold')
    · rcases hcases hother' with ⟨rfl, rfl⟩ | ⟨-, hold'⟩
      · exact absurd heq (hnew d other hold)
      · exact h.distinct d d' other other' hold hold' heq
  · intro d other round hother hround
    rcases hcases hother with ⟨rfl, rfl⟩ | ⟨-, hold⟩
    · cases hround
    · exact hmailed.rounds d other round hold hround
  · intro m hm
    refine (hmailed.only m hm).imp_right ?_
    rintro ⟨d, other, round, hold, hround⟩
    exact ⟨d, other, round, hkept hold, hround⟩
  · intro d other v hother hv
    rcases hcases hother with ⟨rfl, rfl⟩ | ⟨-, hold⟩
    · cases hv
    · exact hmailed.versions d other v hold hv
  · intro m hm
    obtain ⟨d, other, hold, hsent⟩ := hmailed.sent m hm
    exact ⟨d, other, hkept hold, hsent⟩

/-- **A round reads the commit index**, in the version of the call: the sequencer sends. -/
theorem Simulated.load (h : Simulated s t) (hmailed : Mailed s t) (hidle : s.starting = [])
    (hcall : s.calls c = some call) (hversion : call.versionId = s.versionId)
    (hstep : s.load c = some s') :
    ∃ t', t.send call.versionId call.logId = some t' ∧ Simulated s' t' ∧ Mailed s' t' := by
  unfold SharedSequencer.load at hstep
  rw [hcall] at hstep
  dsimp only [Option.bind_eq_bind, Option.bind_some] at hstep
  split at hstep
  case isFalse => cases hstep
  rename_i hlt
  obtain rfl := Option.some.inj hstep
  have hafter := h.setCall { call with
    sentTo := call.sentTo + 1
    round := some (⟨call.sentTo, hlt.1⟩, s.sequencer.globalCommitIndex) } hcall rfl rfl
    fun _ => ⟨rfl, fun hpromise => hpromise⟩
  have ht' : t.send call.versionId call.logId = some { t.setAppend call.versionId call.logId
      { call.toSequencerAppend with sentTo := call.sentTo + 1 } with
        requests := call.request call.versionId
          (⟨call.sentTo, hlt.1⟩, s.sequencer.globalCommitIndex) :: t.requests } := by
    unfold LogSystem.send
    rw [hversion, h.sequencer hidle, ← hversion, h.calls c call hcall]
    dsimp only [Option.bind_eq_bind, Option.bind_some]
    rw [dif_pos hlt.1]
    rfl
  refine ⟨_, ht', ⟨hafter.sequencer, hafter.starting, hafter.raising, hafter.calls, hafter.started,
    hafter.below, hafter.distinct⟩, fun m hm => List.mem_cons_of_mem _ (hmailed.requests m hm),
    fun d other round hother hround => ?_, fun m hm => ?_, fun d other v hother hv => ?_,
    fun m hm => sent_setCall hmailed { call with
      sentTo := call.sentTo + 1
      round := some (⟨call.sentTo, hlt.1⟩, s.sequencer.globalCommitIndex) } hcall rfl rfl rfl hm⟩
  · rcases Parties.eq_some_of_update hother with ⟨rfl, rfl⟩ | ⟨-, hold⟩
    · obtain rfl := Option.some.inj hround
      exact List.mem_cons_self
    · exact List.mem_cons_of_mem _ (hmailed.rounds d other round hold hround)
  · rcases List.mem_cons.mp hm with rfl | hm
    · exact .inr ⟨c, _, _, Function.update_self .., rfl, rfl⟩
    · rcases hmailed.only m hm with hm | ⟨d, other, round, hold, hround, rfl⟩
      · exact .inl hm
      · refine .inr ⟨d, other, round, ?_, hround, rfl⟩
        refine (Function.update_of_ne ?_ _ _).trans hold
        -- the call had no round before
        rintro rfl
        obtain rfl := Option.some.inj (hcall.symm.trans hold)
        cases hlt.2.symm.trans hround
  · rcases Parties.eq_some_of_update hother with ⟨rfl, rfl⟩ | ⟨-, hold⟩
    · exact hmailed.versions d call v hcall hv
    · exact hmailed.versions d other v hold hv

/-- The call goes on there without a step. -/
theorem Simulated.setCall_silent (h : Simulated s t) (call' : SharedAppend N)
    (hcall : s.calls c = some call) (hversion : call'.versionId = call.versionId)
    (hlogId : call'.logId = call.logId)
    (hsame : call'.toSequencerAppend = call.toSequencerAppend) :
    Simulated (s.setCall c call') t := by
  have hkept : t.setAppend call.versionId call.logId call'.toSequencerAppend = t := by
    unfold LogSystem.setAppend
    rw [hsame, ← h.calls c call hcall, Function.update_eq_self]
  have hafter := h.setCall call' hcall hversion hlogId fun _ => by rw [hsame]; exact ⟨rfl, id⟩
  exact hkept ▸ hafter

/-- **A round reads the version**, in the version of the call. -/
theorem Simulated.loadVersionId (h : Simulated s t) (hmailed : Mailed s t)
    (hcall : s.calls c = some call) (hversion : call.versionId = s.versionId)
    (hstep : s.loadVersionId c = some s') : Simulated s' t ∧ Mailed s' t := by
  unfold SharedSequencer.loadVersionId at hstep
  rw [hcall] at hstep
  dsimp only [Option.bind_eq_bind, Option.bind_some] at hstep
  split at hstep
  case isFalse => cases hstep
  obtain rfl := Option.some.inj hstep
  refine ⟨h.setCall_silent { call with roundVersionId := some s.versionId } hcall rfl rfl rfl,
    hmailed.setCall { call with roundVersionId := some s.versionId } hcall rfl rfl rfl rfl ?_ rfl⟩
  intro v hv
  exact (Option.some.inj hv).symm.trans hversion.symm

/-- **It goes on to the replica**, still in the version of the call. -/
theorem Simulated.send (h : Simulated s t) (hmailed : Mailed s t) (hcall : s.calls c = some call)
    (hversion : call.roundVersionId = none → call.versionId = s.versionId)
    (hstep : s.send c = some s') : Simulated s' t ∧ Mailed s' t := by
  unfold SharedSequencer.send at hstep
  rw [hcall] at hstep
  dsimp only [Option.bind_eq_bind, Option.bind_some] at hstep
  obtain ⟨round, hround, hstep⟩ := Option.bind_eq_some_iff.mp hstep
  have hread : call.roundVersionId.getD s.versionId = call.versionId := by
    cases hroundVersionId : call.roundVersionId with
    | none => exact (hversion hroundVersionId).symm
    | some v => exact hmailed.versions c call v hcall hroundVersionId
  rw [hread] at hstep
  obtain rfl := Option.some.inj hstep
  have hafter := h.setCall_silent { call with round := none, roundVersionId := none } hcall rfl rfl
    rfl
  refine ⟨⟨hafter.sequencer, hafter.starting, hafter.raising, hafter.calls, hafter.started,
    hafter.below, hafter.distinct⟩, fun m hm => ?_, fun d other round' hother hround' => ?_,
    fun m hm => ?_, fun d other v hother hv => ?_, fun m hm => ?_⟩
  · rcases List.mem_cons.mp hm with rfl | hm
    · exact hmailed.rounds c call round hcall hround
    · exact hmailed.requests m hm
  · rcases Parties.eq_some_of_update hother with ⟨rfl, rfl⟩ | ⟨-, hold⟩
    · cases hround'
    · exact hmailed.rounds d other round' hold hround'
  · rcases hmailed.only m hm with hm | ⟨d, other, round', hold, hround', rfl⟩
    · exact .inl (List.mem_cons_of_mem _ hm)
    · by_cases hd : d = c
      · subst hd
        obtain rfl := Option.some.inj (hcall.symm.trans hold)
        obtain rfl := Option.some.inj (hround.symm.trans hround')
        exact .inl List.mem_cons_self
      · exact .inr ⟨d, other, round', (Function.update_of_ne hd _ _).trans hold, hround', rfl⟩
  · rcases Parties.eq_some_of_update hother with ⟨rfl, rfl⟩ | ⟨-, hold⟩
    · cases hv
    · exact hmailed.versions d other v hold hv
  · rcases List.mem_cons.mp hm with rfl | hm
    · exact ⟨c, _, Function.update_self .., rfl, rfl, rfl⟩
    · exact sent_setCall hmailed { call with round := none, roundVersionId := none } hcall rfl rfl
        rfl hm

theorem Simulated.complete (h : Simulated s t) (hmailed : Mailed s t) {i : Fin N}
    {result : TryUnit} (hcall : s.calls c = some call) (hstep : s.complete c i result = some s') :
    ∃ t', t.deliver ⟨i, .sequencer, call.versionId, call.logId, result⟩ = some t' ∧
      Simulated s' t' ∧ Mailed s' t' := by
  unfold SharedSequencer.complete at hstep
  rw [hcall] at hstep
  dsimp only [Option.bind_eq_bind, Option.bind_some] at hstep
  obtain ⟨futures, hfutures, hstep⟩ := Option.bind_eq_some_iff.mp hstep
  split at hstep
  case isFalse => cases hstep
  rename_i hsent
  obtain rfl := Option.some.inj hstep
  refine ⟨_, ?_, h.setCall { call with futures } hcall rfl rfl
      fun _ => ⟨rfl, AnyNSuccessful.promise_of_complete hfutures⟩,
    hmailed.setCall { call with futures } hcall rfl rfl rfl rfl
      (hmailed.versions c call · hcall) rfl⟩
  unfold LogSystem.deliver
  dsimp only
  rw [h.calls c call hcall]
  dsimp only [Option.bind_eq_bind, Option.bind_some]
  rw [hfutures]
  dsimp only [Option.bind_some]
  rw [if_pos hsent.1]

/-- The sequencer of the call's version acknowledges it. -/
theorem Simulated.acknowledge_eq (h : Simulated s t) (hcall : s.calls c = some call)
    (hopen : call.acknowledged = false) (hpromise : call.futures.promise = some (.ok ()))
    {old : SequencerImpl} (hold : t.sequencers call.versionId = some old) :
    t.acknowledge call.versionId call.logId =
      some ((t.setSequencer call.versionId (old.commit call.logId)).setAppend call.versionId
        call.logId { call.toSequencerAppend with acknowledged := true }) := by
  unfold LogSystem.acknowledge
  rw [hold, h.calls c call hcall]
  dsimp only [Option.bind_eq_bind, Option.bind_some]
  rw [hopen, hpromise]

/-- **An acknowledgement finds its id above the commit index**, and holds the mutex. -/
theorem Simulated.compare (h : Simulated s t) (hmailed : Mailed s t) (hcall : s.calls c = some call)
    (hlt : s.sequencer.globalCommitIndex < call.logId) (hidle : s.starting = [])
    (hversion : call.versionId = s.versionId) (hstep : s.compare c = some s') :
    Simulated s' t ∧ Mailed s' t := by
  unfold SharedSequencer.compare at hstep
  rw [hcall] at hstep
  dsimp only [Option.bind_eq_bind, Option.bind_some] at hstep
  split at hstep
  case h_2 => cases hstep
  rename_i hopen hpromise
  rw [if_pos hlt] at hstep
  obtain rfl := Option.some.inj hstep
  refine ⟨⟨h.sequencer, h.starting, fun d hd => ⟨hidle, ?_⟩, h.calls, h.started, h.below,
    h.distinct⟩, hmailed.congr rfl rfl rfl⟩
  obtain rfl := Option.some.inj hd
  exact ⟨call, hcall, hversion, hlt, hopen, hpromise⟩

/-- **A late one does not**, and leaves the commit index as it is. -/
theorem Simulated.compare_late (h : Simulated s t) (hmailed : Mailed s t)
    (hcall : s.calls c = some call)
    (hle : ¬ s.sequencer.globalCommitIndex < call.logId) (hstep : s.compare c = some s') :
    ∃ t', t.acknowledge call.versionId call.logId = some t' ∧ Simulated s' t' ∧ Mailed s' t' := by
  unfold SharedSequencer.compare at hstep
  rw [hcall] at hstep
  dsimp only [Option.bind_eq_bind, Option.bind_some] at hstep
  split at hstep
  case h_2 => cases hstep
  rename_i hraising hopen hpromise
  rw [if_neg hle] at hstep
  obtain rfl := Option.some.inj hstep
  obtain ⟨old, hold⟩ := h.started c call hcall
  -- neither the object's sequencer nor the one that is being started moves
  have hmoved : Simulated s (t.setSequencer call.versionId (old.commit call.logId)) := by
    refine ⟨fun hidle => ?_, h.starting.imp_right ?_, h.raising, h.calls,
      started_setSequencer h.started, h.below, h.distinct⟩
    · by_cases hv : call.versionId = s.versionId
      · obtain rfl : old = s.sequencer :=
          Option.some.inj (hold.symm.trans (hv ▸ h.sequencer hidle))
        have hcommit : s.sequencer.commit call.logId = s.sequencer := if_neg hle
        rw [hcommit, hv]
        exact Function.update_self ..
      · exact (Function.update_of_ne (Ne.symm hv) _ _).trans (h.sequencer hidle)
    · rintro ⟨v, l, hlt, hsequencer, hrest⟩
      have hv : v ≠ call.versionId := ((h.below c call hcall).1.trans_lt hlt).ne'
      exact ⟨v, l, hlt, (Function.update_of_ne hv _ _).trans hsequencer, hrest⟩
  exact ⟨_, h.acknowledge_eq hcall hopen hpromise hold,
    hmoved.setCall { call with acknowledged := true } hcall rfl rfl
      (fun hc => absurd (hraising.symm.trans hc) (by simp)),
    hmailed.setCall { call with acknowledged := true } hcall rfl rfl rfl rfl
      (hmailed.versions c call · hcall) rfl⟩

/-- **An acknowledgement raises the commit index**, in its version. -/
theorem Simulated.raise (h : Simulated s t) (hmailed : Mailed s t) (hraising : s.raising = some c)
    (hcall : s.calls c = some call) (hstep : s.raise = some s') :
    ∃ t', t.acknowledge call.versionId call.logId = some t' ∧ Simulated s' t' ∧ Mailed s' t' := by
  unfold SharedSequencer.raise at hstep
  rw [hraising] at hstep
  dsimp only [Option.bind_eq_bind, Option.bind_some] at hstep
  rw [hcall] at hstep
  obtain rfl := Option.some.inj hstep
  obtain ⟨hidle, call', hcall', hversion, hlt, hopen, hpromise⟩ := h.raising c hraising
  obtain rfl := Option.some.inj (hcall.symm.trans hcall')
  have hold : t.sequencers call.versionId = some s.sequencer := hversion ▸ h.sequencer hidle
  have hcommit : s.sequencer.commit call.logId =
      { s.sequencer with globalCommitIndex := call.logId } := if_pos hlt
  have hmoved : Simulated
      { s with sequencer := { s.sequencer with globalCommitIndex := call.logId }, raising := none }
      (t.setSequencer call.versionId (s.sequencer.commit call.logId)) := by
    refine ⟨fun _ => ?_, .inl hidle, nofun, h.calls, started_setSequencer h.started, h.below,
      h.distinct⟩
    rw [hcommit, hversion]
    exact Function.update_self ..
  refine ⟨_, h.acknowledge_eq hcall hopen hpromise hold,
    hmoved.setCall { call with acknowledged := true } hcall rfl rfl nofun, ?_⟩
  have hmailed' : Mailed (s.setCall c { call with acknowledged := true }) t :=
    hmailed.setCall { call with acknowledged := true } hcall rfl rfl rfl rfl
      (hmailed.versions c call · hcall) rfl
  exact hmailed'.congr rfl rfl rfl

/-- **A start begins**, for a version above: the next sequencer is there. -/
theorem Simulated.start (h : Simulated s t) {v l : Int} (hlt : s.versionId < v)
    (hidle : s.starting = []) (hraising : s.raising = none) :
    Simulated (s.start v l) (t.setSequencer v (.start l)) where
  sequencer h := nomatch h
  starting := by
    refine .inr ⟨v, l, hlt, Function.update_self .., rfl, .inl ?_⟩
    show Starting.globalCommitIndex v l :: s.starting = _
    rw [hidle]
  raising c hc := by cases hraising.symm.trans hc
  calls := h.calls
  started := started_setSequencer h.started
  below c call hcall := ⟨(h.below c call hcall).1, nofun⟩
  distinct := h.distinct

/-- **It goes on to its end**, and the object is where the next sequencer is. -/
theorem Simulated.store (h : Simulated s t) (hmailed : Mailed s t) {k : Nat}
    (hstep : s.store k = some s') : Simulated s' t ∧ Mailed s' t := by
  rcases h.starting with hidle | ⟨v, l, hlt, hsequencer, rfl, hstarting⟩
  · unfold SharedSequencer.store at hstep
    rw [hidle] at hstep
    cases hstep
  have hraising : s.raising = none := by
    cases hraising : s.raising with
    | none => rfl
    | some c =>
      have hidle := (h.raising c hraising).1
      rcases hstarting with hfirst | ⟨hsecond, -⟩
      · cases hidle.symm.trans hfirst
      · cases hidle.symm.trans hsecond
  -- there is one start only
  have hzero : ∀ {next : Starting}, s.starting = [next] → k = 0 := by
    intro next hnext
    unfold SharedSequencer.store at hstep
    rw [hnext] at hstep
    cases k with
    | zero => rfl
    | succ k => cases hstep
  have hbelow : ∀ c call, s.calls c = some call → call.versionId < v := fun c call hcall =>
    (h.below c call hcall).1.trans_lt hlt
  rcases hstarting with hfirst | ⟨hsecond, hcommitIndex⟩
  · obtain rfl := hzero hfirst
    unfold SharedSequencer.store at hstep
    rw [hfirst] at hstep
    obtain rfl := Option.some.inj hstep
    exact ⟨⟨nofun, .inr ⟨v, _, hlt, hsequencer, rfl, .inr ⟨rfl, rfl⟩⟩,
      fun c hc => absurd (hraising.symm.trans hc) (by simp), h.calls, h.started,
      fun c call hcall => ⟨(h.below c call hcall).1, nofun⟩, h.distinct⟩, hmailed.congr rfl rfl rfl⟩
  · obtain rfl := hzero hsecond
    unfold SharedSequencer.store at hstep
    rw [hsecond] at hstep
    obtain rfl := Option.some.inj hstep
    refine ⟨⟨fun _ => ?_, .inl rfl, fun c hc => absurd (hraising.symm.trans hc) (by simp), h.calls,
      h.started, fun c call hcall => ?_, h.distinct⟩, hmailed.congr rfl rfl rfl⟩
    · show t.sequencers v = some s.sequencer
      rw [hsequencer]
      exact congrArg some (congrArg (SequencerImpl.mk _) hcommitIndex.symm)
    · exact ⟨(hbelow c call hcall).le, fun _ hv => absurd hv (hbelow c call hcall).ne⟩

/-- **What a step does, the sequencers do.** -/
theorem simulated_step (h : Simulated s t ∧ Mailed s t) (hok : s.InVersion e)
    (hstep : s.step e = some s') :
    ∃ t', Transition.run LogSystem.stepSequencers t (s.label e).toList = some t' ∧
      Simulated s' t' ∧ Mailed s' t' := by
  obtain ⟨hsim, hmailed⟩ := h
  have hone : ∀ {e' : SequencersEvent N} {t' : LogSystem N}, t.stepSequencers e' = some t' →
      Transition.run LogSystem.stepSequencers t [e'] = some t' := fun ht' =>
    Transition.run_cons_eq_some.mpr ⟨_, ht', rfl⟩
  cases e with
  | append c payload =>
    obtain ⟨t', ht', hafter⟩ := hsim.append hmailed hok hstep
    exact ⟨t', hone ht', hafter⟩
  | load c =>
    obtain ⟨call, hcall, -⟩ := Option.bind_eq_some_iff.mp hstep
    obtain ⟨t', ht', hafter⟩ := hsim.load hmailed hok.1 hcall (hok.2 call hcall) hstep
    refine ⟨t', ?_, hafter⟩
    rw [label, hcall]
    exact hone ht'
  | loadVersionId c =>
    obtain ⟨call, hcall, -⟩ := Option.bind_eq_some_iff.mp hstep
    exact ⟨t, rfl, hsim.loadVersionId hmailed hcall (hok call hcall) hstep⟩
  | send c =>
    obtain ⟨call, hcall, -⟩ := Option.bind_eq_some_iff.mp hstep
    exact ⟨t, rfl, hsim.send hmailed hcall (hok call hcall) hstep⟩
  | complete c i result =>
    obtain ⟨call, hcall, -⟩ := Option.bind_eq_some_iff.mp hstep
    obtain ⟨t', ht', hafter⟩ := hsim.complete hmailed hcall hstep
    refine ⟨t', ?_, hafter⟩
    rw [label, hcall]
    exact hone ht'
  | compare c =>
    obtain ⟨call, hcall, -⟩ := Option.bind_eq_some_iff.mp hstep
    by_cases hlt : s.sequencer.globalCommitIndex < call.logId
    · obtain ⟨hidle, hversion⟩ := hok call hcall hlt
      refine ⟨t, ?_, hsim.compare hmailed hcall hlt hidle hversion hstep⟩
      simp only [label, hcall, Option.bind_eq_bind, Option.bind_some, if_pos hlt]
      rfl
    · obtain ⟨t', ht', hafter⟩ := hsim.compare_late hmailed hcall hlt hstep
      refine ⟨t', ?_, hafter⟩
      simp only [label, hcall, Option.bind_eq_bind, Option.bind_some, if_neg hlt]
      exact hone ht'
  | raise =>
    obtain ⟨c, hraising, hstep'⟩ := Option.bind_eq_some_iff.mp hstep
    obtain ⟨call, hcall, -⟩ := Option.bind_eq_some_iff.mp hstep'
    obtain ⟨t', ht', hafter⟩ := hsim.raise hmailed hraising hcall hstep
    refine ⟨t', ?_, hafter⟩
    simp only [label, hraising, hcall, Option.bind_eq_bind, Option.bind_some]
    exact hone ht'
  | start v sequenceNum =>
    obtain ⟨hlt, hidle, hraising⟩ := hok
    obtain rfl := Option.some.inj hstep
    exact ⟨_, hone rfl, hsim.start hlt hidle hraising, hmailed.congr rfl rfl rfl⟩
  | store k => exact ⟨t, rfl, hsim.store hmailed hstep⟩

/-! ## Runs -/

variable {es : List (SharedEvent N)} {seedSeqNum versionId : Int}

theorem simulated_make : Simulated (make seedSeqNum versionId : SharedSequencer N)
    (({} : LogSystem N).setSequencer versionId (.start seedSeqNum)) where
  sequencer _ := by simp [make, LogSystem.setSequencer]
  starting := .inl rfl
  raising _ h := nomatch h
  calls _ _ h := nomatch h
  started _ _ h := nomatch h
  below _ _ h := nomatch h
  distinct _ _ _ _ h := nomatch h

theorem mailed_make : Mailed (make seedSeqNum versionId : SharedSequencer N)
    (({} : LogSystem N).setSequencer versionId (.start seedSeqNum)) where
  requests _ h := absurd h List.not_mem_nil
  rounds _ _ _ h := nomatch h
  only _ h := absurd h List.not_mem_nil
  versions _ _ _ h := nomatch h
  sent _ h := absurd h List.not_mem_nil

/-- **One object does for all versions.** In a run that keeps to `InVersion` the sequencers of the
log can do what the object does: they send the same requests, with the same commit indexes (a
request counts when its round begins), have the same calls under their versions and ids, and come to
the same numbers, when no `start` is on its way. And no two payloads are sent under one version and
id. -/
theorem sequencer_per_version (hrun : Transition.run step (make seedSeqNum versionId) es = some s)
    (hok : Transition.Meets step InVersion (make seedSeqNum versionId) es) :
    (∃ t, Transition.run LogSystem.stepSequencers
        (({} : LogSystem N).setSequencer versionId (.start seedSeqNum))
        (Transition.observed step label (make seedSeqNum versionId) es) = some t ∧
      (∀ m, m ∈ t.requests ↔ m ∈ s.requests ∨ ∃ c call round, s.calls c = some call ∧
        call.round = some round ∧ m = call.request call.versionId round) ∧
      (∀ c call, s.calls c = some call →
        t.appends (call.versionId, call.logId) = some call.toSequencerAppend) ∧
      (s.starting = [] → t.sequencers s.versionId = some s.sequencer)) ∧
    ∀ m ∈ s.requests, ∀ m' ∈ s.requests, m.versionId = m'.versionId → m.logId = m'.logId →
      m.payload = m'.payload := by
  obtain ⟨t, ht, hsim, hmailed⟩ := Transition.run_simulation
    (fun s e s' t h hok hs => simulated_step h hok hs) hrun hok ⟨simulated_make, mailed_make⟩
  refine ⟨⟨t, ht, fun m => ⟨hmailed.only m, ?_⟩, hsim.calls, hsim.sequencer⟩, ?_⟩
  · rintro (hm | ⟨c, call, round, hcall, hround, rfl⟩)
    · exact hmailed.requests m hm
    · exact hmailed.rounds c call round hcall hround
  intro m hm m' hm' hversion hlogId
  obtain ⟨c, call, hcall, hv, hl, hp⟩ := hmailed.sent m hm
  obtain ⟨c', call', hcall', hv', hl', hp'⟩ := hmailed.sent m' hm'
  have hc : c = c' := by
    refine hsim.distinct c c' call call' hcall hcall' ?_
    rw [← hv, ← hl, ← hv', ← hl', hversion, hlogId]
  subst hc
  obtain rfl := Option.some.inj (hcall.symm.trans hcall')
  exact hp.trans hp'.symm

/-- A call at one replica, to its end or to where it is to raise the commit index. -/
def appendAlone (c : CallId) (payload : String) : List (SharedEvent 1) :=
  [.append c payload, .load c, .send c, .complete c 0 (.ok ()), .compare c]

/-- Version 1 sends ids 5 and 6, the object is started for version 2, and that sends id 7. -/
def restarted : List (SharedEvent 1) :=
  appendAlone 0 "a" ++ appendAlone 1 "b" ++ [.raise, .start 2 7, .store 0, .store 0] ++
    appendAlone 2 "c"

theorem sequencer_per_version_restarted : ∃ s t,
    Transition.run step (make 5 1) restarted = some s ∧
      Transition.run LogSystem.stepSequencers (({} : LogSystem 1).setSequencer 1 (.start 5))
        (Transition.observed step label (make 5 1) restarted) = some t ∧
      (∀ m ∈ s.requests, m ∈ t.requests) ∧ t.sequencers 2 = some ⟨8, 7⟩ ∧
      s.requests.map (fun m => (m.versionId, m.logId, m.payload)) =
        [(2, 7, "c"), (1, 6, "b"), (1, 5, "a")] := by
  obtain ⟨s, hrun⟩ : ∃ s, Transition.run step (make 5 1 : SharedSequencer 1) restarted = some s :=
    ⟨_, rfl⟩
  obtain ⟨⟨t, ht, hrequests, -, hsequencer⟩, -⟩ := sequencer_per_version hrun (by decide)
  refine ⟨s, t, hrun, ht, fun m hm => (hrequests m).mpr (.inl hm), ?_, ?_⟩
  · obtain rfl := Option.some.inj hrun
    exact hsequencer rfl
  · obtain rfl := Option.some.inj hrun
    rfl

end SharedSequencer

end ReplicatedCounter.Log
