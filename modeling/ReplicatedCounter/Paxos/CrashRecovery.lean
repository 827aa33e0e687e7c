import Mathlib.Data.Finset.Max
import ReplicatedCounter.Paxos.AcceptorHistory

/-!
# An acceptor that crashes

`LogServer` opens the acceptor's database with `manualWALFlush = true`, and `LocalAcceptor` calls
`put` but never `flushWal`. A run here is any sequence of acceptor calls with crashes in between,
on such a store, starting from an empty directory; `answers` collects what the acceptor said.

Consensus needs that what was said is still true after a restart (`Survives`). It is not: nothing
an acceptor writes is ever on disk (`durable_run`), so a restarted acceptor knows nothing
(`instanceOf_crash`). The only runs without harm are those in which nothing was promised or accepted
before any crash, and that can be read off the calls: a prepare is answered with a promise the
first time its ballot is above the initial (-1, -1), an accept goes through the first time its
ballot is not below it. `crashSafe_iff_negligible` is that equivalence.
-/

set_option autoImplicit false

namespace ReplicatedCounter.Paxos

/-- A call, or the process dies and comes back. -/
inductive CrashEvent where
  | call (call : Call)
  | crash
  deriving DecidableEq, Repr

/-- The store and everything the acceptor has answered so far, the latest first. -/
structure CrashState (β : Type) where
  store : RocksStore β
  answers : List (Call × Answer) := []

section

variable {β : Type} (codec : Codec PaxosInstance β)

/-- One event. A call that throws answers nothing. -/
def crashStep (s : CrashState β) : CrashEvent → CrashState β
  | .call c =>
    match Coro.exec ((localAcceptor codec).perform c) s.store with
    | (.ok answer, store) => { store := store, answers := (c, answer) :: s.answers }
    | (.error _, store) => { s with store := store }
  | .crash => { s with store := s.store.crash }

/-- The acceptor's database as `LogServer::State::makeReplicaServer` opens it, and a run on it. -/
def crashRun (events : List CrashEvent) : CrashState β :=
  events.foldl (crashStep codec) { store := RocksStore.provideSharedPtr true }

/-- `prepare` with this ballot answered a promise, or `accept` with this ballot answered true. -/
def Granted (answers : List (Call × Answer)) (id : String) (b : BallotId) : Prop :=
  (∃ p, (.prepare id b, .prepared (.promise p)) ∈ answers) ∨
    ∃ p : Proposal, p.ballotId = b ∧ (.accept id p, .done true) ∈ answers

/-- Any prepare the acceptor is free to grant reports this proposal as accepted. -/
def Reported (store : RocksStore β) (id : String) (p : Proposal) : Prop :=
  ∀ b, (LocalAcceptor.instanceOf codec store id).promisedBallotId < b →
    (Coro.exec (LocalAcceptor.prepare codec id b) store).1 =
      .ok (.promise { ballotId := some p.ballotId, value := some p.value })

/-- What the acceptor has said is still true of its store. -/
structure Survives (s : CrashState β) : Prop where
  promised : ∀ id b, Granted s.answers id b →
    b ≤ (LocalAcceptor.instanceOf codec s.store id).promisedBallotId
  accepted : ∀ id p, (.accept id p, .done true) ∈ s.answers →
    Reported codec s.store id p ∨
      ∃ p' : Proposal, p.ballotId < p'.ballotId ∧ (.accept id p', .done true) ∈ s.answers

/-- After every crash of the run, what was said before it is still true. -/
def CrashSafe (events : List CrashEvent) : Prop :=
  ∀ before after, events = before ++ .crash :: after →
    Survives codec (crashRun codec (before ++ [.crash]))

/-- An event that cannot make the acceptor promise or accept anything: no ballot above the one
every instance starts with. -/
def Negligible : CrashEvent → Prop
  | .call (.prepare _ b) => b ≤ ⟨-1, -1⟩
  | .call (.accept _ p) => p.ballotId < ⟨-1, -1⟩
  | _ => True

/-! ## Nothing reaches the disk -/

/-- No write-ahead log has left the process. -/
def NothingDurable (store : RocksStore β) : Prop :=
  store.manualWALFlush = true ∧ store.durable = fun _ => none

variable {codec}

theorem keeps_kvPut (key : String) (value : β) :
    Coro.Keeps NothingDurable (LocalAcceptor.kvPut key value : AcceptorM (RocksStore β) Bool) := by
  rintro store ⟨hmanual, hdurable⟩
  refine ⟨hmanual, ?_⟩
  show (if store.manualWALFlush then store.durable else _) = _
  rw [if_pos hmanual, hdurable]

/-- No call of the acceptor flushes. -/
theorem keeps_perform (call : Call) :
    Coro.Keeps (NothingDurable (β := β)) ((localAcceptor codec).perform call) := by
  have hkept : LocalAcceptor.KeptByWrites codec (NothingDurable (β := β)) (fun _ => True)
      call.paxosInstanceId :=
    ⟨trivial, fun _ _ _ _ _ _ => trivial, fun _ _ => keeps_kvPut _ _⟩
  exact hkept.perform

theorem nothingDurable_step {s : CrashState β} (e : CrashEvent) (h : NothingDurable s.store) :
    NothingDurable (crashStep codec s e).store := by
  cases e with
  | crash => exact h
  | call c =>
    have hkeep : NothingDurable (Coro.exec ((localAcceptor codec).perform c) s.store).2 :=
      keeps_perform c s.store h
    unfold crashStep
    dsimp only
    rcases hx : Coro.exec ((localAcceptor codec).perform c) s.store with ⟨r, store⟩
    rw [hx] at hkeep
    cases r <;> exact hkeep

theorem durable_run (events : List CrashEvent) : NothingDurable (crashRun codec events).store := by
  induction events using List.reverseRecOn with
  | nil => exact ⟨rfl, rfl⟩
  | append_singleton events e ih =>
    unfold crashRun at *
    rw [List.foldl_append]
    exact nothingDurable_step e ih

/-- **After a crash every instance is fresh.** -/
theorem instanceOf_crash (events : List CrashEvent) (id : String) :
    LocalAcceptor.instanceOf codec (crashRun codec (events ++ [.crash])).store id =
      LocalAcceptor.freshInstance id := by
  have hdurable : (crashRun codec events).store.durable = fun _ => none := (durable_run events).2
  have hstore : (crashRun codec (events ++ [.crash])).store =
      (crashRun codec events).store.crash := by
    unfold crashRun
    rw [List.foldl_append]
    rfl
  refine LocalAcceptor.instanceOf_of_empty (fun id => ?_) id
  rw [hstore]
  show (crashRun codec events).store.durable _ = none
  rw [hdurable]

/-! ## What a run has said -/

theorem crashRun_snoc (events : List CrashEvent) (e : CrashEvent) :
    crashRun codec (events ++ [e]) = crashStep codec (crashRun codec events) e := by
  unfold crashRun
  rw [List.foldl_append]
  rfl

theorem crashStep_call {s : CrashState β} {c : Call} {answer : Answer} {store : RocksStore β}
    (h : Coro.exec ((localAcceptor codec).perform c) s.store = (.ok answer, store)) :
    crashStep codec s (.call c) = { store := store, answers := (c, answer) :: s.answers } := by
  unfold crashStep
  dsimp only
  rw [h]

/-- Nothing that was said is forgotten by the observer. -/
theorem answers_step (s : CrashState β) (e : CrashEvent) :
    s.answers ⊆ (crashStep codec s e).answers := by
  cases e with
  | crash => exact fun _ h => h
  | call c =>
    unfold crashStep
    dsimp only
    rcases Coro.exec ((localAcceptor codec).perform c) s.store with ⟨r, store⟩
    cases r with
    | error e => exact fun _ h => h
    | ok answer => exact List.subset_cons_self _ _

/-- An acceptor that has granted nothing: every instance still has its initial promise and no
accepted value. -/
structure Quiet (codec : Codec PaxosInstance β) (s : CrashState β) : Prop where
  wellFormed : LocalAcceptor.WellFormed codec s.store
  promised : ∀ id, (LocalAcceptor.instanceOf codec s.store id).promisedBallotId = ⟨-1, -1⟩
  accepted : ∀ id, (LocalAcceptor.instanceOf codec s.store id).accepted = none
  silent : ∀ id b, ¬ Granted s.answers id b

/-- A call that updates one instance without touching its promise and its accepted value, and
answers neither a promise nor `true` to an accept, leaves the acceptor quiet. -/
theorem Quiet.call {s : CrashState β} (h : Quiet codec s) {c : Call} {answer : Answer}
    {store : RocksStore β} {id : String} {i : PaxosInstance}
    (hexec : Coro.exec ((localAcceptor codec).perform c) s.store = (.ok answer, store))
    (hup : LocalAcceptor.Updates codec s.store store id i)
    (hp : i.promisedBallotId = ⟨-1, -1⟩) (ha : i.accepted = none)
    (hanswer : ∀ id b, ¬ Granted [(c, answer)] id b) :
    Quiet codec (crashStep codec s (.call c)) := by
  rw [crashStep_call hexec]
  have hsplit : ∀ id', LocalAcceptor.instanceOf codec store id' = i ∨
      LocalAcceptor.instanceOf codec store id' = LocalAcceptor.instanceOf codec s.store id' := by
    intro id'
    by_cases hid : id' = id
    · exact .inl (hid ▸ hup.same)
    · exact .inr (hup.other id' hid)
  refine ⟨hup.wellFormed, fun id' => ?_, fun id' => ?_, fun id' b hg => ?_⟩
  · rcases hsplit id' with heq | heq
    · exact heq ▸ hp
    · exact heq ▸ h.promised id'
  · rcases hsplit id' with heq | heq
    · exact heq ▸ ha
    · exact heq ▸ h.accepted id'
  · have hold : Granted [(c, answer)] id' b ∨ Granted s.answers id' b := by
      rcases hg with ⟨p, hmem⟩ | ⟨p, hb, hmem⟩
      · rcases List.mem_cons.mp hmem with heq | hmem
        · exact .inl (.inl ⟨p, List.mem_singleton.mpr heq⟩)
        · exact .inr (.inl ⟨p, hmem⟩)
      · rcases List.mem_cons.mp hmem with heq | hmem
        · exact .inl (.inr ⟨p, hb, List.mem_singleton.mpr heq⟩)
        · exact .inr (.inr ⟨p, hb, hmem⟩)
    rcases hold with hg | hg
    · exact hanswer id' b hg
    · exact h.silent id' b hg

/-- **A negligible event leaves a quiet acceptor quiet.** -/
theorem Quiet.step {s : CrashState β} (h : Quiet codec s) (hdisk : NothingDurable s.store)
    {e : CrashEvent} (he : Negligible e) : Quiet codec (crashStep codec s e) := by
  cases e with
  | crash =>
    have hempty : ∀ id, KVStoreLite.get s.store.crash (LocalAcceptor.keyFormat id) = none := by
      intro id
      show s.store.durable _ = none
      rw [hdisk.2]
    refine ⟨LocalAcceptor.wellFormed_of_empty hempty, fun id => ?_, fun id => ?_, h.silent⟩
    · show (LocalAcceptor.instanceOf codec s.store.crash id).promisedBallotId = _
      rw [LocalAcceptor.instanceOf_of_empty hempty]
      rfl
    · show (LocalAcceptor.instanceOf codec s.store.crash id).accepted = _
      rw [LocalAcceptor.instanceOf_of_empty hempty]
      rfl
  | call c =>
    cases c with
    | prepare id b =>
      obtain ⟨resp, store, hexec, hcases⟩ := LocalAcceptor.prepare_spec h.wellFormed id b
      rcases hcases with ⟨-, rfl, hup⟩ | ⟨hlt, -, -⟩
      · exact h.call (Coro.exec_map_ok_iff.mpr ⟨_, hexec, rfl⟩) hup (h.promised id)
          (h.accepted id) (by simp [Granted])
      · rw [h.promised id] at hlt
        exact absurd he (not_le.mpr hlt)
    | accept id p =>
      obtain ⟨result, store, hexec, hcases⟩ := LocalAcceptor.accept_spec h.wellFormed id p
      rcases hcases with ⟨-, rfl, hup⟩ | ⟨hle, -, -⟩
      · exact h.call (Coro.exec_map_ok_iff.mpr ⟨_, hexec, rfl⟩) hup (h.promised id)
          (h.accepted id) (by simp [Granted])
      · rw [h.promised id] at hle
        exact absurd he (not_lt.mpr hle)
    | commit id b =>
      obtain ⟨store, hexec, hup⟩ := LocalAcceptor.commit_spec h.wellFormed id b
      exact h.call (Coro.exec_map_ok_iff.mpr ⟨_, hexec, rfl⟩) hup (h.promised id)
        (h.accepted id) (by simp [Granted])
    | getAcceptedValue id =>
      obtain ⟨store, hexec, hup⟩ := LocalAcceptor.getAcceptedValue_spec h.wellFormed id
      exact h.call (Coro.exec_map_ok_iff.mpr ⟨_, hexec, rfl⟩) hup (h.promised id)
        (h.accepted id) (by simp [Granted])
    | getCommittedValue id =>
      obtain ⟨store, hexec, hup⟩ := LocalAcceptor.getCommittedValue_spec h.wellFormed id
      exact h.call (Coro.exec_map_ok_iff.mpr ⟨_, hexec, rfl⟩) hup (h.promised id)
        (h.accepted id) (by simp [Granted])

/-- Something was granted that a fresh acceptor does not know of: a promise above the initial one,
or any accepted proposal. -/
def GrantedAboveInitial (answers : List (Call × Answer)) : Prop :=
  (∃ id b p, ⟨-1, -1⟩ < b ∧ (.prepare id b, .prepared (.promise p)) ∈ answers) ∨
    ∃ id p, (.accept id p, .done true) ∈ answers

theorem GrantedAboveInitial.mono {answers answers' : List (Call × Answer)}
    (hsub : answers ⊆ answers') (h : GrantedAboveInitial answers) :
    GrantedAboveInitial answers' := by
  rcases h with ⟨id, b, p, hb, hp⟩ | ⟨id, p, hp⟩
  · exact .inl ⟨id, b, p, hb, hsub hp⟩
  · exact .inr ⟨id, p, hsub hp⟩

/-- **Any other event makes a quiet acceptor grant something.** -/
theorem Quiet.grants {s : CrashState β} (h : Quiet codec s) {e : CrashEvent}
    (he : ¬ Negligible e) : GrantedAboveInitial (crashStep codec s e).answers := by
  cases e with
  | crash => exact absurd trivial he
  | call c =>
    cases c with
    | prepare id b =>
      obtain ⟨resp, store, hexec, hcases⟩ := LocalAcceptor.prepare_spec h.wellFormed id b
      rcases hcases with ⟨hle, -, -⟩ | ⟨-, rfl, -⟩
      · rw [h.promised id] at hle
        exact absurd hle he
      · rw [crashStep_call (c := .prepare id b) (Coro.exec_map_ok_iff.mpr ⟨_, hexec, rfl⟩)]
        exact .inl ⟨id, b, _, not_le.mp he, List.mem_cons_self⟩
    | accept id p =>
      obtain ⟨result, store, hexec, hcases⟩ := LocalAcceptor.accept_spec h.wellFormed id p
      rcases hcases with ⟨hlt, -, -⟩ | ⟨-, rfl, -⟩
      · rw [h.promised id] at hlt
        exact absurd hlt he
      · rw [crashStep_call (c := .accept id p) (Coro.exec_map_ok_iff.mpr ⟨_, hexec, rfl⟩)]
        exact .inr ⟨id, p, List.mem_cons_self⟩
    | commit id b => exact absurd trivial he
    | getAcceptedValue id => exact absurd trivial he
    | getCommittedValue id => exact absurd trivial he

theorem quiet_init : Quiet codec (crashRun codec []) where
  wellFormed := LocalAcceptor.wellFormed_of_empty fun _ => rfl
  promised _ := rfl
  accepted _ := rfl
  silent := by
    intro id b h
    simp [Granted, crashRun] at h

/-- A run of negligible events has granted nothing. -/
theorem quiet_run {events : List CrashEvent} (h : ∀ e ∈ events, Negligible e) :
    Quiet codec (crashRun codec events) := by
  induction events using List.reverseRecOn with
  | nil => exact quiet_init
  | append_singleton events e ih =>
    rw [crashRun_snoc]
    have hquiet := ih fun e' he' => h e' (List.mem_append_left _ he')
    exact hquiet.step (durable_run events) (h e (by simp))

/-- A run with an event that is not negligible has granted something: the first such event met a
quiet acceptor. -/
theorem grants_run {events : List CrashEvent} (h : ∃ e ∈ events, ¬ Negligible e) :
    GrantedAboveInitial (crashRun codec events).answers := by
  induction events using List.reverseRecOn with
  | nil => simp at h
  | append_singleton events e ih =>
    rw [crashRun_snoc]
    by_cases hearlier : ∃ e' ∈ events, ¬ Negligible e'
    · exact (ih hearlier).mono (answers_step _ _)
    · have hall : ∀ e' ∈ events, Negligible e' := by
        intro e' he'
        by_contra hne
        exact hearlier ⟨e', he', hne⟩
      have he : ¬ Negligible e := by
        obtain ⟨e', hmem, hne⟩ := h
        rcases List.mem_append.mp hmem with hmem | hmem
        · exact absurd (hall e' hmem) hne
        · exact List.mem_singleton.mp hmem ▸ hne
      exact (quiet_run hall).grants he

/-! ## The equivalence -/

/-- A fresh acceptor reports no proposal. -/
theorem not_reported_of_fresh {store : RocksStore β} {id : String} {p : Proposal}
    (h : ∀ id, LocalAcceptor.instanceOf codec store id = LocalAcceptor.freshInstance id)
    (hwf : LocalAcceptor.WellFormed codec store) : ¬ Reported codec store id p := by
  intro hrep
  have hlt : (LocalAcceptor.instanceOf codec store id).promisedBallotId < ⟨0, 0⟩ := by
    rw [h id]
    exact (by decide : (⟨-1, -1⟩ : BallotId) < ⟨0, 0⟩)
  obtain ⟨resp, store', hexec, hcases⟩ := LocalAcceptor.prepare_spec hwf id ⟨0, 0⟩
  have hresp := hrep ⟨0, 0⟩ hlt
  rw [hexec] at hresp
  rcases hcases with ⟨hle, -, -⟩ | ⟨-, rfl, -⟩
  · exact absurd hlt (not_lt.mpr hle)
  · rw [h id] at hresp
    simp [LocalAcceptor.freshInstance] at hresp

/-- Among the proposals an acceptor has accepted for an instance, one has the highest ballot. -/
theorem exists_highest_accept {answers : List (Call × Answer)} {id : String} {p : Proposal}
    (h : (.accept id p, .done true) ∈ answers) :
    ∃ top : Proposal, (.accept id top, .done true) ∈ answers ∧
      ∀ p' : Proposal, (.accept id p', .done true) ∈ answers → p'.ballotId ≤ top.ballotId := by
  have hmem : ∀ p', p' ∈ (answers.filterMap (acceptedProposal id)).toFinset ↔
      (.accept id p', .done true) ∈ answers := by
    intro p'
    rw [List.mem_toFinset, List.mem_filterMap]
    constructor
    · rintro ⟨entry, hentry, hsome⟩
      rwa [acceptedProposal_eq_some.mp hsome] at hentry
    · intro hentry
      exact ⟨_, hentry, acceptedProposal_eq_some.mpr rfl⟩
  obtain ⟨top, htop, hmax⟩ := Finset.exists_max_image _ (·.ballotId) ⟨p, (hmem p).mpr h⟩
  exact ⟨top, (hmem top).mp htop, fun p' hp' => hmax p' ((hmem p').mpr hp')⟩

/-- If something was granted before a crash, it does not survive it. -/
theorem not_survives_of_granted {events : List CrashEvent}
    (h : GrantedAboveInitial (crashRun codec events).answers) :
    ¬ Survives codec (crashRun codec (events ++ [.crash])) := by
  intro hsurv
  have hfresh : ∀ id, LocalAcceptor.instanceOf codec
      (crashRun codec (events ++ [.crash])).store id = LocalAcceptor.freshInstance id :=
    instanceOf_crash events
  have hanswers : (crashRun codec (events ++ [.crash])).answers =
      (crashRun codec events).answers := by
    rw [crashRun_snoc]
    rfl
  have hwf : LocalAcceptor.WellFormed codec (crashRun codec (events ++ [.crash])).store := by
    refine LocalAcceptor.wellFormed_of_empty fun id => ?_
    rw [crashRun_snoc]
    show (crashRun codec events).store.durable _ = none
    rw [(durable_run events).2]
  rcases h with ⟨id, b, p, hb, hp⟩ | ⟨id, p, hp⟩
  · have hle := hsurv.promised id b (.inl ⟨p, hanswers ▸ hp⟩)
    rw [hfresh id] at hle
    exact absurd hb (not_lt.mpr hle)
  · obtain ⟨top, htop, hmax⟩ := exists_highest_accept hp
    rcases hsurv.accepted id top (hanswers ▸ htop) with hrep | ⟨p', hlt, hp'⟩
    · exact not_reported_of_fresh hfresh hwf hrep
    · exact absurd hlt (not_lt.mpr (hmax p' (hanswers ▸ hp')))

/-- **An acceptor's state survives every crash of a run exactly when no crash comes after a call
that could make it promise or accept**, that is, after a prepare with a ballot above (-1, -1) or
an accept with a ballot not below it. -/
theorem crashSafe_iff_negligible (events : List CrashEvent) :
    CrashSafe codec events ↔
      ∀ before after, events = before ++ .crash :: after → ∀ e ∈ before, Negligible e := by
  constructor
  · intro hsafe before after heq
    by_contra hne
    push Not at hne
    exact not_survives_of_granted (grants_run hne) (hsafe before after heq)
  · intro hneg before after heq
    have hquiet : Quiet codec (crashRun codec before) := quiet_run (hneg before after heq)
    have hanswers : (crashRun codec (before ++ [.crash])).answers =
        (crashRun codec before).answers := by
      rw [crashRun_snoc]
      rfl
    refine ⟨fun id b hg => ?_, fun id p hp => ?_⟩
    · rw [hanswers] at hg
      exact absurd hg (hquiet.silent id b)
    · rw [hanswers] at hp
      exact absurd (.inr ⟨p, rfl, hp⟩) (hquiet.silent id p.ballotId)

end

/-- Promise ballot (1, 1), crash: the restarted acceptor has promised nothing. -/
theorem not_crashSafe_promise_then_crash :
    ¬ CrashSafe (Codec.identity PaxosInstance) [.call (.prepare "1" ⟨1, 1⟩), .crash] := by
  intro hsafe
  have hsurv := hsafe [.call (.prepare "1" ⟨1, 1⟩)] [] rfl
  have hle := hsurv.promised "1" ⟨1, 1⟩ (.inl ⟨_, List.mem_cons_self⟩)
  exact absurd hle (by decide)

end ReplicatedCounter.Paxos
