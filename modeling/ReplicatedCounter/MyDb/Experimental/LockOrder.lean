import ReplicatedCounter.MyDb.Experimental.LockRun

/-!
# Whether conflicting requests are ordered

Two transactions in the queue of a resource, one of which has asked to write it, should be in an
order: the one that asked later waits, perhaps through others, for the one that asked earlier.

A request that waits is put behind everybody: as long as the order holds, only one transaction of a
queue with a writer is not waited for, all the others lead to it (`Ordered.reaches_free`), and the new
one waits for it. **A request that is granted at once is put behind nobody**, and so is a second
request of a transaction, whatever it asks for. A resource that is only read is given to the first
writer at once. `Orderly` says when that does no harm.
-/

set_option autoImplicit false

namespace ReplicatedCounter.MyDb.Experimental.LockRun

open WaitForGraph

variable {s t : LockRun} {txnId x y w : String} {resources : List Element} {name : String}
  {events : List LockEvent}

/-! ## Who asked first -/

/-- Among these requests `x` has asked for a resource, and `y` had not yet. -/
def BeforeIn (requests : List (String × Element)) (name x y : String) : Prop :=
  ∃ front rest, requests = front ++ rest ∧ (∃ mode, (x, ⟨name, mode⟩) ∈ front) ∧
    ∀ mode, (y, ⟨name, mode⟩) ∉ front

theorem BeforeIn.cons {requests : List (String × Element)} {request : String × Element}
    (h : BeforeIn requests name x y) (hne : ∀ mode, request ≠ (y, ⟨name, mode⟩)) :
    BeforeIn (request :: requests) name x y := by
  obtain ⟨front, rest, rfl, ⟨mode, hmem⟩, hnot⟩ := h
  refine ⟨request :: front, rest, rfl, ⟨mode, List.mem_cons_of_mem _ hmem⟩, ?_⟩
  intro mode' hmem'
  rcases List.mem_cons.mp hmem' with heq | hmem'
  · exact hne mode' heq.symm
  · exact hnot mode' hmem'

theorem beforeIn_head {requests : List (String × Element)} {mode : LockMode} (hne : x ≠ y) :
    BeforeIn ((x, ⟨name, mode⟩) :: requests) name x y := by
  refine ⟨[_], requests, rfl, ⟨mode, List.mem_cons_self⟩, fun mode' hmem => ?_⟩
  exact hne (congrArg Prod.fst (List.mem_singleton.mp hmem)).symm

/-- Of two, one of which has asked for a resource, one was first. -/
theorem beforeIn_total {requests : List (String × Element)} (hne : x ≠ y)
    (hx : ∃ mode, (x, (⟨name, mode⟩ : Element)) ∈ requests) :
    BeforeIn requests name x y ∨ BeforeIn requests name y x := by
  induction requests with
  | nil =>
    obtain ⟨mode, hmem⟩ := hx
    exact absurd hmem List.not_mem_nil
  | cons request requests ih =>
    by_cases hrequest : ∃ mode, request = (x, ⟨name, mode⟩)
    · obtain ⟨mode, rfl⟩ := hrequest
      exact .inl (beforeIn_head hne)
    · by_cases hrequest' : ∃ mode, request = (y, ⟨name, mode⟩)
      · obtain ⟨mode, rfl⟩ := hrequest'
        exact .inr (beforeIn_head hne.symm)
      · obtain ⟨mode, hmem⟩ := hx
        rcases List.mem_cons.mp hmem with heq | hmem
        · exact absurd ⟨mode, heq.symm⟩ hrequest
        · exact (ih ⟨mode, hmem⟩).imp (·.cons (not_exists.mp hrequest'))
            (·.cons (not_exists.mp hrequest))

/-- `x` has asked for a resource before `y`. -/
def Before (s : LockRun) (name x y : String) : Prop := BeforeIn s.requests name x y

theorem Before.asymm (h : s.Before name x y) : ¬ s.Before name y x := by
  intro h'
  obtain ⟨front, rest, heq, ⟨mode, hx⟩, hy⟩ := h
  obtain ⟨front', rest', heq', ⟨mode', hy'⟩, hx'⟩ := h'
  have hprefix : front <+: s.requests := ⟨rest, heq.symm⟩
  have hprefix' : front' <+: s.requests := ⟨rest', heq'.symm⟩
  rcases List.prefix_or_prefix_of_prefix hprefix hprefix' with hle | hle
  · exact hx' mode (hle.subset hx)
  · exact hy mode' (hle.subset hy')

theorem Before.requested (h : s.Before name x y) : s.Requested x name := by
  obtain ⟨front, rest, heq, ⟨mode, hmem⟩, -⟩ := h
  refine ⟨mode, ?_⟩
  rw [heq]
  exact List.mem_append_left _ hmem

theorem before_total (hne : x ≠ y) (hx : s.Requested x name) :
    s.Before name x y ∨ s.Before name y x :=
  beforeIn_total hne hx

/-- Who was first stays first. -/
theorem Called.before (h : Called txnId resources s t) (hbefore : s.Before name x y) :
    t.Before name x y := by
  obtain ⟨front, rest, heq, hx, hy⟩ := hbefore
  refine ⟨front, rest ++ resources.map (txnId, ·), ?_, hx, hy⟩
  rw [h.requests_eq, heq, List.append_assoc]

/-- A call does not change who was first of those who had asked. -/
theorem Called.before_iff (h : Called txnId resources s t) (hne : x ≠ y)
    (hx : s.Requested x name) : t.Before name x y ↔ s.Before name x y := by
  refine ⟨fun hbefore => ?_, h.before⟩
  rcases before_total hne hx with hold | hold
  · exact hold
  · exact absurd hbefore (h.before hold).asymm

/-- Who had asked was there before one that had not. -/
theorem Called.before_new (h : Called txnId resources s t) (hx : s.Requested x name)
    (hy : ¬ s.Requested y name) : t.Before name x y := by
  refine ⟨s.requests, resources.map (txnId, ·), h.requests_eq, hx, fun mode hmem => ?_⟩
  exact hy ⟨mode, hmem⟩

/-! ## The order -/

/-- Two transactions conflict over a resource if one of them has asked to write it. -/
def Conflict (s : LockRun) (name x y : String) : Prop :=
  s.AskedToWrite x name ∨ s.AskedToWrite y name

/-- **Conflicting requests are ordered.** Of two transactions in a queue that conflict, the later is
reached from the earlier along `waitedBy`. -/
def Ordered (s : LockRun) : Prop :=
  ∀ name, ∀ x ∈ s.graph.queue name, ∀ y ∈ s.graph.queue name, s.Conflict name x y →
    s.Before name x y → Links.Reaches s.graph.next x y

/-- In a queue with a writer everybody leads to the one that is not waited for. -/
theorem Ordered.reaches_free (h : s.Ordered) (hconsistent : s.Consistent)
    (hx : x ∈ s.graph.queue name) (hwriter : s.AskedToWrite x name)
    (hw : w ∈ s.graph.queue name) (hfree : s.graph.next w = none) (hy : y ∈ s.graph.queue name) :
    Links.Reaches s.graph.next y w := by
  have hrequested : ∀ {z}, z ∈ s.graph.queue name → s.Requested z name := fun hz =>
    (hconsistent.queue_iff name _).mp hz
  -- the writer leads there
  have hxw : Links.Reaches s.graph.next x w := by
    by_cases hne : x = w
    · rw [hne]
    · rcases before_total hne (hrequested hx) with hbefore | hbefore
      · exact h name x hx w hw (.inl hwriter) hbefore
      · rw [(h name w hw x hx (.inr hwriter) hbefore).eq_of_end hfree]
  by_cases hne : y = x
  · rw [hne]
    exact hxw
  · rcases before_total hne (hrequested hy) with hbefore | hbefore
    · exact (h name y hy x hx (.inr hwriter) hbefore).trans hxw
    · exact (h name x hx y hy (.inl hwriter) hbefore).reaches_end hxw hfree

/-- Whoever is in the queue of a resource that a call waits for leads to the caller afterwards. -/
theorem Called.reaches_of_waits (h : Called txnId resources s t) (hordered : s.Ordered)
    (hconsistent : s.Consistent) (hwaits : Waits s txnId resources name)
    (hx : x ∈ s.graph.queue name) : Links.Reaches t.graph.next x txnId := by
  obtain ⟨w, hw, hfree, hlink⟩ := h.waits name hwaits
  obtain ⟨v, hv, hwriter⟩ := hconsistent.exists_writer hwaits.2.2
  exact ((hordered.reaches_free hconsistent hv hwriter hw hfree hx).mono h.extends_next).tail hlink

/-- What leads to the caller after a call. -/
theorem Called.reaches_iff (h : Called txnId resources s t) (hordered : s.Ordered)
    (hconsistent : s.Consistent) :
    Links.Reaches t.graph.next x txnId ↔ Links.Reaches s.graph.next x txnId ∨
      ∃ name, Waits s txnId resources name ∧
        ∃ y ∈ s.graph.queue name, Links.Reaches s.graph.next x y := by
  constructor
  · intro hreaches
    rcases Links.reaches_of_new_links h.new_link hreaches with hold | ⟨w, hxw, hlink, hnot⟩
    · exact .inl hold
    · obtain ⟨name, hwaits, hw⟩ := h.new_waits w hlink hnot
      exact .inr ⟨name, hwaits, w, hw, hxw⟩
  · rintro (hold | ⟨name, hwaits, y, hy, hxy⟩)
    · exact hold.mono h.extends_next
    · exact (hxy.mono h.extends_next).trans (h.reaches_of_waits hordered hconsistent hwaits hy)

/-! ## When the order is kept -/

/-- What a call must respect, for every resource it asks for without waiting: because it is granted
at once, or because the transaction has it already. Whoever else is in the queue and conflicts, now
that the call asks to write, or that the caller is new there and the other has asked to write, is in
the order already: behind the caller, if the caller asked first; otherwise before it, or before
somebody in a queue that the call waits in. -/
def Orderly (s : LockRun) : LockEvent → Prop
  | .register _ => True
  | .add txnId resources => ∀ name, Asks resources name → ¬ Waits s txnId resources name →
      ∀ x ∈ s.graph.queue name, x ≠ txnId →
        ⟨name, .write⟩ ∈ resources ∨ txnId ∉ s.graph.queue name ∧ s.AskedToWrite x name →
        (s.Before name txnId x → Links.Reaches s.graph.next txnId x) ∧
        (¬ s.Before name txnId x → Links.Reaches s.graph.next x txnId ∨
          ∃ name', Waits s txnId resources name' ∧
            ∃ y ∈ s.graph.queue name', Links.Reaches s.graph.next x y)

/-- A pair that was in a queue, and has not begun to conflict, is in the order still. -/
theorem Called.ordered_old (h : Called txnId resources s t) (hordered : s.Ordered)
    (hconsistent : s.Consistent) (hx : x ∈ s.graph.queue name) (hy : y ∈ s.graph.queue name)
    (hne : x ≠ y) (hconflict : s.Conflict name x y) (hbefore : t.Before name x y) :
    Links.Reaches t.graph.next x y := by
  have hold := (h.before_iff hne ((hconsistent.queue_iff name x).mp hx)).mp hbefore
  exact (hordered name x hx y hy hconflict hold).mono h.extends_next

/-- The caller was there first. -/
theorem Called.ordered_behind (h : Called txnId resources s t) (hordered : s.Ordered)
    (hconsistent : s.Consistent) (hok : s.Orderly (.add txnId resources))
    (hy : y ∈ s.graph.queue name) (hne : y ≠ txnId) (hconflict : t.Conflict name txnId y)
    (hbefore : t.Before name txnId y) : Links.Reaches t.graph.next txnId y := by
  have hrequested := (hconsistent.queue_iff name y).mp hy
  have hcaller : s.Requested txnId name := by
    by_contra hnot
    exact hbefore.asymm (h.before_new hrequested hnot)
  have hmem := (hconsistent.queue_iff name txnId).mpr hcaller
  by_cases hold : s.Conflict name txnId y
  · exact h.ordered_old hordered hconsistent hmem hy hne.symm hold hbefore
  · -- the call asks to write what its transaction has
    have hwrite : ⟨name, .write⟩ ∈ resources := by
      rcases hconflict with hwriter | hwriter
      · rcases h.askedToWrite.mp hwriter with hwriter | ⟨-, hwrite⟩
        · exact absurd (.inl hwriter) hold
        · exact hwrite
      · rcases h.askedToWrite.mp hwriter with hwriter | ⟨heq, -⟩
        · exact absurd (.inr hwriter) hold
        · exact absurd heq hne
    have hasks : Asks resources name := ⟨_, hwrite, rfl⟩
    have hbefore' := (h.before_iff hne.symm hcaller).mp hbefore
    exact ((hok name hasks (fun hwaits => hwaits.2.1 hmem) y hy hne (.inl hwrite)).1 hbefore').mono
      h.extends_next

/-- The other one was there first. -/
theorem Called.ordered_ahead (h : Called txnId resources s t) (hordered : s.Ordered)
    (hconsistent : s.Consistent) (hok : s.Orderly (.add txnId resources))
    (hx : x ∈ s.graph.queue name) (hne : x ≠ txnId)
    (hcaller : txnId ∈ s.graph.queue name ∨ Asks resources name)
    (hconflict : t.Conflict name x txnId) (hbefore : t.Before name x txnId) :
    Links.Reaches t.graph.next x txnId := by
  by_cases hwaits : Waits s txnId resources name
  · exact h.reaches_of_waits hordered hconsistent hwaits hx
  by_cases hold : txnId ∈ s.graph.queue name ∧ s.Conflict name x txnId
  · exact h.ordered_old hordered hconsistent hx hold.1 hne hold.2 hbefore
  have hnew : ⟨name, .write⟩ ∈ resources ∨
      txnId ∉ s.graph.queue name ∧ s.AskedToWrite x name := by
    rcases hconflict with hwriter | hwriter
    · rcases h.askedToWrite.mp hwriter with hwriter | ⟨heq, -⟩
      · exact .inr ⟨fun hmem => hold ⟨hmem, .inl hwriter⟩, hwriter⟩
      · exact absurd heq hne
    · rcases h.askedToWrite.mp hwriter with hwriter | ⟨-, hwrite⟩
      · exact absurd ⟨(hconsistent.queue_iff name txnId).mpr hwriter.requested, .inr hwriter⟩ hold
      · exact .inl hwrite
  have hasks : Asks resources name := by
    rcases hcaller with hmem | hasks
    · rcases hnew with hwrite | ⟨hnot, -⟩
      · exact ⟨_, hwrite, rfl⟩
      · exact absurd hmem hnot
    · exact hasks
  have hnot : ¬ s.Before name txnId x := fun hbefore' => hbefore.asymm (h.before hbefore')
  exact (h.reaches_iff hordered hconsistent).mpr ((hok name hasks hwaits x hx hne hnew).2 hnot)

theorem Called.ordered_of_orderly (h : Called txnId resources s t) (hordered : s.Ordered)
    (hconsistent : s.Consistent) (hok : s.Orderly (.add txnId resources)) : t.Ordered := by
  intro name x hx y hy hconflict hbefore
  have hne : x ≠ y := by
    rintro rfl
    exact hbefore.asymm hbefore
  have hold : ∀ {z}, z ∈ t.graph.queue name → z ≠ txnId → z ∈ s.graph.queue name := fun hz hz' =>
    ((h.mem_queue name _).mp hz).resolve_right fun h => hz' h.1
  by_cases hxcaller : x = txnId
  · subst hxcaller
    exact h.ordered_behind hordered hconsistent hok (hold hy hne.symm) hne.symm hconflict hbefore
  · by_cases hycaller : y = txnId
    · subst hycaller
      exact h.ordered_ahead hordered hconsistent hok (hold hx hne) hne
        (((h.mem_queue name y).mp hy).imp_right (·.2)) hconflict hbefore
    · -- neither is the caller
      have hasked : ∀ {z}, z ≠ txnId → t.AskedToWrite z name → s.AskedToWrite z name :=
        fun hz hasked => (h.askedToWrite.mp hasked).resolve_right fun h => hz h.1
      exact h.ordered_old hordered hconsistent (hold hx hxcaller) (hold hy hycaller) hne
        (hconflict.imp (hasked hxcaller) (hasked hycaller)) hbefore

theorem Called.orderly_of_ordered (h : Called txnId resources s t) (hordered : s.Ordered)
    (hconsistent : s.Consistent) (hordered' : t.Ordered) : s.Orderly (.add txnId resources) := by
  intro name hasks _ x hx hne hconflict
  have hxmem := (h.mem_queue name x).mpr (.inl hx)
  have hcaller := (h.mem_queue name txnId).mpr (.inr ⟨rfl, hasks⟩)
  have hconflict' : t.Conflict name x txnId := by
    rcases hconflict with hwrite | ⟨-, hwriter⟩
    · exact .inr (h.askedToWrite.mpr (.inr ⟨rfl, hwrite⟩))
    · exact .inl (h.askedToWrite.mpr (.inl hwriter))
  constructor
  · intro hbefore
    exact Links.reaches_from_target h.new_link
      (hordered' name txnId hcaller x hxmem hconflict'.symm (h.before hbefore))
  · intro hnot
    refine (h.reaches_iff hordered hconsistent).mp (hordered' name x hxmem txnId hcaller hconflict' ?_)
    rcases before_total hne (h.requested.mpr (.inl ((hconsistent.queue_iff name x).mp hx)))
      with hbefore | hbefore
    · exact hbefore
    · by_cases hrequested : s.Requested txnId name
      · exact absurd ((h.before_iff hne.symm hrequested).mp hbefore) hnot
      · exact h.before_new ((hconsistent.queue_iff name x).mp hx) hrequested

theorem ordered_step_iff {event : LockEvent} (hconsistent : s.Consistent) (hordered : s.Ordered)
    (hs : step s event = some t) : t.Ordered ↔ s.Orderly event := by
  cases event with
  | register txnId =>
    refine iff_of_true ?_ trivial
    obtain ⟨hrequests, -, hresource, hnext, -⟩ := step_register hs
    have hqueue : ∀ name, t.graph.queue name = s.graph.queue name :=
      fun name => queue_congr (hresource name)
    intro name x hx y hy hconflict hbefore
    unfold Conflict AskedToWrite at hconflict
    unfold Before at hbefore
    rw [hqueue] at hx hy
    rw [hrequests] at hconflict hbefore
    rw [show t.graph.next = s.graph.next from funext hnext]
    exact hordered name x hx y hy hconflict hbefore
  | add txnId resources =>
    have hcalled := hconsistent.called hs
    exact ⟨hcalled.orderly_of_ordered hordered hconsistent,
      hcalled.ordered_of_orderly hordered hconsistent⟩

theorem ordered_empty : Ordered {} := by
  intro name x hx
  exact absurd hx List.not_mem_nil

/-- **When conflicting requests are ordered.** Transactions register and call `add` in any order.
After every call all conflicting requests are ordered if and only if every call is orderly. -/
theorem conflicts_ordered_iff (hrun : Transition.run step {} events = some s) :
    (∀ front t, front <+: events → Transition.run step {} front = some t → t.Ordered) ↔
      Transition.Meets step Orderly {} events :=
  Transition.always_iff_meets (I := Consistent) (fun _ _ _ h hs => h.step hs)
    (fun _ _ _ h hordered hs => ordered_step_iff h hordered hs) hrun consistent_empty ordered_empty

/-- Two transactions write one resource. -/
def twoWriters : List LockEvent :=
  [.register "1", .register "2", .add "1" [⟨"A", .write⟩], .add "2" [⟨"A", .write⟩]]

/-- The second one is not granted the resource at once. -/
theorem conflicts_ordered_iff_writers :
    ∃ s, Transition.run step {} twoWriters = some s ∧ s.Ordered ∧
      Links.Reaches s.graph.next "1" "2" := by
  have hrun : Transition.run step {} twoWriters = some _ := rfl
  have hmeets : Transition.Meets step Orderly {} twoWriters := by
    refine .cons trivial rfl (.cons trivial rfl (.cons ?_ rfl (.cons ?_ rfl trivial)))
    · intro name _ _ x hx
      exact absurd hx List.not_mem_nil
    · intro name hasks hwaits
      obtain ⟨element, hmem, rfl⟩ := hasks
      obtain rfl := List.mem_singleton.mp hmem
      refine absurd ⟨⟨_, hmem, rfl⟩, ?_, ?_⟩ hwaits
      · decide +kernel
      · decide +kernel
  have hordered := (conflicts_ordered_iff hrun).mpr hmeets twoWriters _ List.prefix_rfl hrun
  refine ⟨_, hrun, hordered, ?_⟩
  refine hordered "A" "1" (by decide +kernel) "2" (by decide +kernel) (.inl ?_) ?_
  · exact List.mem_cons_self
  · exact ⟨[("1", ⟨"A", .write⟩)], [("2", ⟨"A", .write⟩)], rfl, ⟨.write, List.mem_cons_self⟩, by simp⟩

/-- **A writer gets a resource that is being read.** Transaction 1 reads it, 2 asks to write it and
waits for nobody. -/
theorem writer_not_behind_reader :
    ∃ s, Transition.run step {} [.register "1", .register "2", .add "1" [⟨"A", .read⟩],
        .add "2" [⟨"A", .write⟩]] = some s ∧
      "1" ∈ s.graph.queue "A" ∧ "2" ∈ s.graph.queue "A" ∧ s.AskedToWrite "2" "A" ∧
      s.Before "A" "1" "2" ∧ ¬ Links.Reaches s.graph.next "1" "2" := by
  refine ⟨_, rfl, by decide +kernel, by decide +kernel, ?_, ?_, ?_⟩
  · exact List.mem_cons_of_mem _ List.mem_cons_self
  · exact ⟨[("1", ⟨"A", .read⟩)], [("2", ⟨"A", .write⟩)], rfl, ⟨.read, List.mem_cons_self⟩, by simp⟩
  · intro hreaches
    exact absurd (hreaches.eq_of_end rfl) (by decide)

end ReplicatedCounter.MyDb.Experimental.LockRun
