import Relay.Library.Waiting
import Relay.Repetition
import Relay.Timing

/-!
# No publication starves

`dispatch_due_publications` sends at most a hundred publications to workers, those first that have
been due longest.  A publication that becomes due later stands behind: a new one is scheduled for a
moment that is still to come when its request is checked, and a retry for a moment after its failure.
So the line in front of a publication that is due is closed, but for requests that are checked and not
committed yet.

* `Sys.ahead`, `Sys.coming`: who is in front of a publication, and who may still come there;
* `Foreseen`, `closedLine_ahead`: nobody else comes;
* `PassedOver`: rounds in which a publication is passed over by the dispatcher;
* `no_starvation`: there are few of them.
-/

namespace Relay

open Relational Sequence Transition

/-! ### The line in front of a publication -/

/-- The publications that wait for a moment not after that of `p`. -/
def Sys.ahead (p : Publication) (s : Sys) : Set Uuid :=
  {id | ∃ q ∈ s.store.publications, q.id = id ∧ id ≠ p.id ∧ q.state = .scheduled ∧
    q.scheduledFor ≤ p.scheduledFor}

/-- The web processes that are about to schedule for such a moment. -/
def Sys.coming (p : Publication) (s : Sys) : Set ℕ :=
  {k | ∃ call, s.tickets k = some (.admitted (.schedulePublication call)) ∧
    call.scheduledFor ≤ p.scheduledFor}

/-- The publications there are. -/
def Sys.published (s : Sys) : Set Uuid := {id | ∃ q ∈ s.store.publications, q.id = id}

/-- How many are in front of a publication, or may come there. -/
noncomputable def Sys.queue (p : Publication) (s : Sys) : ℕ :=
  ClosedLine.size (Sys.ahead p) (Sys.coming p) ∅ s

theorem retryDelay_pos (n : ℕ) : 0 < retryDelay n := by
  have hmin : (0 : ℤ) < min (2 ^ n) 30 := lt_min (pow_pos (by decide) n) (by decide)
  show (0 : ℤ) < 60 * min (2 ^ n) 30 * 1000000
  omega

section Line

variable {env : Env} {publisher : Option Publisher} {s s' : Sys} {l : Label} {o : Output}
  {p : Publication}

/-- A publication that waits after a step for a moment that has passed has waited before, or is new. -/
theorem SysStep.waited (hstep : SysStep env publisher s l s' o) (hs : Delivering s)
    (due : p.scheduledFor ≤ s.clock) {q : Publication} (hq : q ∈ s'.store.publications)
    (scheduled : q.state = .scheduled) (early : q.scheduledFor ≤ p.scheduledFor) :
    q ∈ s.store.publications ∨ ∀ r ∈ s.store.publications, r.id ≠ q.id := by
  by_cases hold : ∃ r ∈ s.store.publications, r.id = q.id
  swap
  · exact .inr fun r hr hid => hold ⟨r, hr, hid⟩
  obtain ⟨r, hr, hid⟩ := hold
  refine .inl ?_
  cases hstep.touched hs hr with
  | kept mem => exact Table.eq_of_key mem hq hid ▸ hr
  | claimed _ _ mem =>
    -- it is delivered now
    obtain rfl := Table.eq_of_key mem hq hid
    cases scheduled
  | @concluded _ claim f g _ _ _ row conclusion dated mem =>
    obtain rfl : g r = q := Table.eq_of_key mem hq ((g.keeps r).trans hid)
    have hretry : (f claim.attempt).outcome = .retry := by
      have hstate := conclusion.state r claim.attempt
      rw [scheduled] at hstate
      cases houtcome : (f claim.attempt).outcome with
      | retry => rfl
      | _ => rw [houtcome] at hstate; cases hstate
    -- a retry is later
    have hlater := dated.scheduled r
    rw [if_pos hretry] at hlater
    have hpos := retryDelay_pos claim.attempt.attemptNumber
    rw [hlater] at early
    exact absurd (early.trans due) (not_le.2 (lt_add_of_pos_right _ hpos))

/-- Who stands in front after a step stood there before, or is new. -/
theorem SysStep.ahead (hstep : SysStep env publisher s l s' o) (hs : Delivering s)
    (due : p.scheduledFor ≤ s.clock) {id : Uuid} (h : id ∈ s'.ahead p) :
    id ∈ s.ahead p ∨ id ∉ s.published := by
  obtain ⟨q, hq, rfl, hne, hscheduled, hearly⟩ := h
  rcases hstep.waited hs due hq hscheduled hearly with hold | hnew
  · exact .inl ⟨q, hold, rfl, hne, hscheduled, hearly⟩
  · exact .inr fun ⟨r, hr, hid⟩ => hnew r hr hid

/-- A request that is checked now comes too late to stand in front. -/
theorem admitted_late {credential : Credential} {request : ApiRequest} {principal : RelayPrincipal}
    {call : ScheduleCall} (due : p.scheduledFor ≤ s.clock)
    (h : admitRequest env s.clock credential request s.store =
      .ok (principal, .command (.schedulePublication call))) : p.scheduledFor < call.scheduledFor := by
  obtain ⟨-, -, hhandle⟩ := admitRequest_eq_ok h
  obtain ⟨_, _, rfl⟩ := handle_schedules hhandle
  have hcalled := createPublication_eq_ok hhandle
  rw [hcalled.scheduledFor]
  exact due.trans_lt hcalled.future

/-- A process that is about to schedule after a step was so before, with the same call. -/
theorem SysStep.coming (hstep : SysStep env publisher s l s' o) (due : p.scheduledFor ≤ s.clock) {k : ℕ}
    {call : ScheduleCall} (hk : s'.tickets k = some (.admitted (.schedulePublication call)))
    (hearly : call.scheduledFor ≤ p.scheduledFor) :
    s.tickets k = some (.admitted (.schedulePublication call)) := by
  cases hstep.ticketOrigin hk with
  | held hold => exact hold
  | received admission => exact absurd hearly (not_le.2 (admitted_late due admission))
  | receivedPublic admission => rcases admitPublic_command admission with ⟨_, _, _, _, h⟩ | ⟨_, h⟩ <;> cases h

/-- A publication after a step was there before, unless its process has scheduled it in this step. -/
theorem SysStep.joined (hstep : SysStep env publisher s l s' o) (hs : Delivering s) :
    (∀ q ∈ s'.store.publications, ∃ r ∈ s.store.publications, r.id = q.id) ∨
      ∃ k call id, s.tickets k = some (.admitted (.schedulePublication call)) ∧ s'.tickets k = none ∧
        s.store.publications.insert? (newPublication env s.clock id call) = some s'.store.publications := by
  cases hstep with
  | @committed k _ c r store ticket effect =>
    obtain ⟨-, hsame | ⟨call, rfl, hinsert⟩⟩ := effect.publications
    · exact .inl fun q hq => ⟨q, hsame ▸ hq, rfl⟩
    · have hdone : r.ticket = none := by cases effect <;> rfl
      refine .inr ⟨k, call, _, ticket, ?_, hinsert⟩
      show Function.update s.tickets k r.ticket k = none
      rw [Function.update_self, hdone]
  | claimed _ _ claimed =>
    obtain ⟨_, -, -, -, -, hpublications, -⟩ := claimed.rows
    exact .inl fun q hq => Table.exists_key_of_mem_update (hpublications ▸ hq)
  | finished worker finished =>
    obtain ⟨_, _, -, hpublications, -, -⟩ := finished.rows (hs.held _ _ _ ⟨_, worker, rfl⟩).2
    exact .inl fun q hq => Table.exists_key_of_mem_update (hpublications ▸ hq)
  | _ => exact .inl fun q hq => ⟨q, hq, rfl⟩

/-- **A step lets nobody in front of a publication that is due**, but one whose request was checked
before. -/
theorem SysStep.closed (hstep : SysStep env publisher s l s' o) (hs : Delivering s)
    (due : p.scheduledFor ≤ s.clock) :
    (s'.ahead p ⊆ s.ahead p ∧ s'.coming p ⊆ s.coming p) ∨
      ∃ k ∈ s.coming p, ∃ id, id ∉ s.published ∧ s'.ahead p ⊆ insert id (s.ahead p) ∧
        s'.coming p ⊆ s.coming p \ {k} := by
  have hcoming : s'.coming p ⊆ s.coming p := fun _ ⟨call, hk, hearly⟩ =>
    ⟨call, hstep.coming due hk hearly, hearly⟩
  rcases hstep.joined hs with hold | ⟨k, call, id, ticket, hdone, hinsert⟩
  · refine .inl ⟨fun id hid => ?_, hcoming⟩
    rcases hstep.ahead hs due hid with hid | hnew
    · exact hid
    · obtain ⟨q, hq, rfl, -⟩ := hid
      exact absurd (hold q hq) hnew
  have hfresh : id ∉ s.published := fun ⟨q, hq, hid⟩ => Table.fresh_of_insert? hinsert q hq hid
  -- what is in front now was there before, or is the new one
  have hahead : ∀ x ∈ s'.ahead p, x ∈ s.ahead p ∨ (x = id ∧ call.scheduledFor ≤ p.scheduledFor) := by
    intro x hx
    rcases hstep.ahead hs due hx with hx | hnew
    · exact .inl hx
    · obtain ⟨q, hq, rfl, -, -, hearly⟩ := hx
      rcases (Table.mem_insert? hinsert).1 hq with hq | rfl
      · exact absurd ⟨q, hq, rfl⟩ hnew
      · exact .inr ⟨rfl, hearly⟩
  by_cases hearly : call.scheduledFor ≤ p.scheduledFor
  · refine .inr ⟨k, ⟨call, ticket, hearly⟩, id, hfresh, fun x hx => ?_, fun k' hk' => ⟨hcoming hk', ?_⟩⟩
    · rcases hahead x hx with hx | ⟨rfl, -⟩
      · exact Set.mem_insert_of_mem _ hx
      · exact Set.mem_insert _ _
    · rintro rfl
      obtain ⟨_, hticket, -⟩ := hk'
      rw [hdone] at hticket
      cases hticket
  · exact .inl ⟨fun x hx => (hahead x hx).resolve_right fun h => hearly h.2, hcoming⟩

end Line

/-! ### Nobody else comes -/

/-- Whatever is in front of the publication in the later state was so in the earlier one, or a web
process had then checked the request that has created it. -/
def Foreseen (p : Publication) (s t : Sys) : Prop :=
  ∀ q ∈ t.store.publications, q.id ∈ t.ahead p → q.id ∈ s.ahead p ∨
    ∃ k call, s.tickets k = some (.admitted (.schedulePublication call)) ∧
      q.tenant = call.tenant ∧ q.idempotencyKey = call.idempotencyKey

section Foreseen

variable {env : Env} {publisher : Option Publisher} {s t u : Sys} {p : Publication}

/-- One more step, after which the processes that are about to schedule are still those of `s`. -/
theorem Foreseen.step {l : Label} {o : Output} (h : Foreseen p s t)
    (held : ∀ k call, t.tickets k = some (.admitted (.schedulePublication call)) →
      call.scheduledFor ≤ p.scheduledFor → s.tickets k = some (.admitted (.schedulePublication call)))
    (hstep : SysStep env publisher t l u o) (ht : Delivering t) (due : p.scheduledFor ≤ t.clock) :
    Foreseen p s u := by
  intro q hq hahead
  rcases hstep.ahead ht due hahead with hbefore | hnew
  · -- a row of this key was there, and has kept its key
    have ⟨r, hr, hid, _⟩ := hbefore
    have hbecomes := hstep.evolves.publications.related
      (fun h => by obtain ⟨_, _, _, _, _, _, rfl⟩ := h; rfl) hr hq hid
    rcases h r hr (hid ▸ hbefore) with hold | ⟨k, call, hk, htenant, hkey⟩
    · exact .inl (hid ▸ hold)
    · obtain ⟨_, _, _, _, _, _, rfl⟩ := hbecomes
      exact .inr ⟨k, call, hk, htenant, hkey⟩
  · rcases hstep.joined ht with hold | ⟨k, call, id, ticket, -, hinsert⟩
    · exact absurd (hold q hq) hnew
    · rcases (Table.mem_insert? hinsert).1 hq with hq | rfl
      · exact absurd ⟨q, hq, rfl⟩ hnew
      · obtain ⟨r, hr, hid, -, -, hearly⟩ := hahead
        obtain rfl := Table.eq_of_key hr hq hid
        exact .inr ⟨k, call, held k call ticket hearly, rfl, rfl⟩

/-- **Nothing comes in front of a publication that is due** but what a request asks for that was
checked before. -/
theorem foreseen_of_trail {es : List (Label × Output)} (hs : Reachable (relay env publisher) s)
    (due : p.scheduledFor ≤ s.clock) (h : Trail (relay env publisher) s es t) : Foreseen p s t := by
  have hall := h.invariant (I := fun t => Reachable (relay env publisher) t ∧ p.scheduledFor ≤ t.clock ∧
    (∀ k call, t.tickets k = some (.admitted (.schedulePublication call)) →
      call.scheduledFor ≤ p.scheduledFor → s.tickets k = some (.admitted (.schedulePublication call))) ∧
    Foreseen p s t) ?_ ⟨hs, due, fun _ _ hk _ => hk, fun q _ hahead => .inl hahead⟩
  · exact hall.2.2.2
  · rintro t e u ⟨ht, hdue, held, hforeseen⟩ hnext
    have hstep := next_step hnext
    exact ⟨ht.step hnext, hdue.trans hstep.clock_le,
      fun k call hk hearly => held k call (hstep.coming hdue hk hearly) hearly,
      hforeseen.step held hstep (delivering_of_reachable ht) hdue⟩

end Foreseen

/-! ### Finitely many -/

section Finite

variable {env : Env} {publisher : Option Publisher} {s : Sys} {p : Publication}

theorem finite_ahead (p : Publication) (s : Sys) : (s.ahead p).Finite := by
  refine (s.store.publications.rows.map (·.id)).finite_toSet.subset fun id hid => ?_
  obtain ⟨q, hq, rfl, -⟩ := hid
  exact List.mem_map.2 ⟨q, hq, rfl⟩

/-- Only finitely many web processes have checked a request. -/
theorem tickets_of_reachable (h : Reachable (relay env publisher) s) :
    {k | s.tickets k ≠ none}.Finite := by
  refine h.invariant (I := fun s : Sys => {k | s.tickets k ≠ none}.Finite) (fun s hs => ?_)
    fun s e s' hs hstep => ?_
  · obtain ⟨tenants, brands, memberships, clock, rfl⟩ := hs
    exact Set.finite_empty.subset fun k hk => hk rfl
  · obtain ⟨l, o⟩ := e
    have hset : ∀ {r : Sys} {k : ℕ} {t : Option Ticket}, r.tickets = s.tickets →
        {k' | (r.setTicket k t).tickets k' ≠ none}.Finite := by
      intro r k t hr
      refine (hs.insert k).subset fun k' hk' => ?_
      by_cases hk : k' = k
      · exact .inl hk
      · refine .inr ?_
        unfold Sys.setTicket at hk'
        simpa [Function.update_of_ne hk, hr] using hk'
    cases next_step hstep with
    | admitted | admittedPublic | refused | committed | identified | abandoned => exact hset rfl
    | _ => exact hs

theorem finite_coming (h : Reachable (relay env publisher) s) (p : Publication) : (s.coming p).Finite := by
  refine (tickets_of_reachable h).subset fun k hk => ?_
  obtain ⟨call, hk, -⟩ := hk
  show s.tickets k ≠ none
  rw [hk]
  nofun

/-- **The line in front of a publication that is due is closed.** -/
theorem closedLine_ahead (env : Env) (publisher : Option Publisher) (p : Publication) :
    ClosedLine (relay env publisher)
      (fun s => Reachable (relay env publisher) s ∧ p.scheduledFor ≤ s.clock)
      (Sys.ahead p) (Sys.coming p) Sys.published where
  keep s e t hs hstep := ⟨hs.1.step hstep, hs.2.trans (next_step hstep).clock_le⟩
  finite_line s _ := finite_ahead p s
  finite_coming s hs := finite_coming hs.1 p
  line_known s _ := fun id ⟨q, hq, hid, _⟩ => ⟨q, hq, hid⟩
  known_mono s e t hs hstep := by
    rintro id ⟨q, hq, rfl⟩
    obtain ⟨_, hq', _, _, _, _, _, _, rfl⟩ := (next_step hstep).evolves.publications q hq
    exact ⟨_, hq', rfl⟩
  step s e t hs hstep := (next_step hstep).closed (delivering_of_reachable hs.1) hs.2

end Finite

/-! ### The dispatcher -/

/-- The publication still waits for the moment that it was scheduled for. -/
def Publication.Waits (p : Publication) (s : Sys) : Prop :=
  ∃ q ∈ s.store.publications, q.id = p.id ∧ q.state = .scheduled ∧ q.scheduledFor = p.scheduledFor

/-- Rounds in which the dispatcher passes over a publication that waits: in each, workers claim
everything that it has sent before it is called again, and anything else may happen between. -/
inductive PassedOver (env : Env) (publisher : Option Publisher) (p : Publication) : ℕ → Sys → Sys → Prop
  | none (s : Sys) : PassedOver env publisher p 0 s s
  | round {n : ℕ} {s t t' u v : Sys} {es fs : List (Label × Output)} {due : List Uuid}
      (before : Trail (relay env publisher) s es t) (waits : p.Waits t)
      (dispatch : (relay env publisher).step t (.dispatch, .dispatched due) t') (omitted : p.id ∉ due)
      (after : Trail (relay env publisher) t' fs u)
      (claimed : ∀ id ∈ due, ∃ e ∈ fs, ∃ claim, e.2 = .claimed claim ∧ claim.publication.id = id)
      (rest : PassedOver env publisher p n u v) : PassedOver env publisher p (n + 1) s v

section Dispatcher

variable {env : Env} {publisher : Option Publisher} {s s' : Sys} {p : Publication} {due : List Uuid}

/-- The dispatcher that passes over a publication sends a hundred that are in front of it. -/
theorem dispatched_ahead (waits : p.Waits s) (hclock : p.scheduledFor ≤ s.clock)
    (omitted : p.id ∉ dispatchDuePublications s.clock s.store) :
    (dispatchDuePublications s.clock s.store).length = 100 ∧
      ∀ id ∈ dispatchDuePublications s.clock s.store, id ∈ s.ahead p := by
  obtain ⟨q, hq, hid, hscheduled, hsame⟩ := waits
  have hdue : q ∈ s.store.publications.where (·.due s.clock) :=
    Table.mem_where.2 ⟨hq, Publication.due_iff.2 ⟨hscheduled, hsame ▸ hclock⟩⟩
  have hnot : q ∉ (orderBy (fun a b : Publication => a.scheduledFor ≤ b.scheduledFor)
      (s.store.publications.where (·.due s.clock))).take 100 :=
    fun hmem => omitted (hid ▸ List.mem_map_of_mem hmem)
  obtain ⟨hlength, hfront⟩ := take_orderBy_of_not_mem (fun a b => by simpa using le_total _ _)
    (fun a b c hab hbc => by simpa using (of_decide_eq_true hab).trans (of_decide_eq_true hbc)) hdue hnot
  refine ⟨by rw [dispatchDuePublications, List.length_map, hlength], fun id hmem => ?_⟩
  obtain ⟨r, hr, rfl⟩ := List.mem_map.1 hmem
  obtain ⟨hr', hrdue⟩ := Table.mem_where.1 (mem_orderBy.1 (List.mem_of_mem_take hr))
  refine ⟨r, hr', rfl, fun heq => omitted (heq ▸ hmem), (Publication.due_iff.1 hrdue).1, ?_⟩
  exact hsame ▸ of_decide_eq_true (hfront r hr)

theorem nodup_dispatched (now : Time) (t : Store) : (dispatchDuePublications now t).Nodup := by
  have hrows : ((t.publications.where (·.due now)).map (·.id)).Nodup :=
    t.publications.nodup.sublist (List.filter_sublist.map _)
  refine List.Nodup.sublist ((List.take_sublist _ _).map _) ?_
  exact ((orderBy_perm _ _).map _).nodup_iff.2 hrows

/-- The dispatcher that passes over a publication finds a hundred in front of it. -/
theorem ncard_dispatched (waits : p.Waits s) (hclock : p.scheduledFor ≤ s.clock)
    (omitted : p.id ∉ dispatchDuePublications s.clock s.store) :
    {id | id ∈ dispatchDuePublications s.clock s.store}.ncard = 100 := by
  have hset : {id | id ∈ dispatchDuePublications s.clock s.store} =
      ((dispatchDuePublications s.clock s.store).toFinset : Set Uuid) := by ext; simp
  rw [hset, Set.ncard_coe_finset, List.toFinset_card_of_nodup (nodup_dispatched _ _),
    (dispatched_ahead waits hclock omitted).1]

/-- A publication that is claimed is not in front any more. -/
theorem claimed_left {l : Label} {claim : Claim}
    (h : (relay env publisher).step s (l, .claimed claim) s') :
    claim.publication.id ∈ s'.published ∧ claim.publication.id ∉ s'.ahead p := by
  cases next_step h with
  | @claimed _ _ _ _ _ store worker hid claimed =>
    obtain ⟨q, hq, -, hclaim, -, hpublications, -⟩ := claimed.rows
    have hqid : claim.publication.id = q.id := by rw [hclaim]; rfl
    have hmem : q.claimed s.clock ∈ store.publications :=
      hpublications ▸ Table.mem_update_self hq rfl
    refine ⟨⟨_, hmem, hqid.symm⟩, fun ⟨r, hr, hrid, _, hscheduled, _⟩ => ?_⟩
    obtain rfl := Table.eq_of_key hmem hr (hqid.symm.trans hrid.symm)
    cases hscheduled

/-- A round shortens the line by a hundred. -/
theorem PassedOver.rounds {n : ℕ} {t : Sys} (h : PassedOver env publisher p n s t)
    (hs : Reachable (relay env publisher) s) (hclock : p.scheduledFor ≤ s.clock) :
    Rounds (relay env publisher) (Sys.ahead p) 100 n s t := by
  have hclosed := closedLine_ahead env publisher p
  induction h with
  | none s => exact .nil s
  | @round n s t t' u v es fs due before waits dispatch omitted after claimed _ ih =>
    obtain ⟨ht, htclock⟩ := hclosed.invariant ⟨hs, hclock⟩ before
    obtain ⟨ht', htclock'⟩ := hclosed.keep _ _ _ ⟨ht, htclock⟩ dispatch
    obtain ⟨hu, huclock⟩ := hclosed.invariant ⟨ht', htclock'⟩ after
    have hdue : due = dispatchDuePublications t.clock t.store := by
      cases next_step dispatch
      rfl
    subst hdue
    refine .cons before (dispatched_ahead waits htclock omitted).2
      (ncard_dispatched waits htclock omitted).ge (.move dispatch after) (fun id hid => ?_)
      (ih hu huclock)
    obtain ⟨⟨l, o⟩, he, claim, rfl, rfl⟩ := claimed id hid
    obtain ⟨fs₁, fs₂, rfl⟩ := List.append_of_mem he
    obtain ⟨a, tr₁, tr₂⟩ := Trail.append_iff.1 after
    obtain ⟨b, hstep, tr₂⟩ := Trail.cons_iff.1 tr₂
    have ha := hclosed.invariant ⟨ht', htclock'⟩ tr₁
    obtain ⟨hknown, hleft⟩ := claimed_left hstep
    exact hclosed.left (hclosed.keep _ _ _ ha hstep) tr₂ hknown hleft

/-- A publication that is due, with fewer than `100 * (n + 1)` in front of it, is sent at the latest
after `n` rounds. -/
theorem sent_after_rounds {n : ℕ} {t u v : Sys} {es : List (Label × Output)}
    (h : Reachable (relay env publisher) s) (hclock : p.scheduledFor ≤ s.clock)
    (short : s.queue p < 100 * (n + 1)) (passed : PassedOver env publisher p n s t)
    (more : Trail (relay env publisher) t es u) (waits : p.Waits u)
    (dispatch : (relay env publisher).step u (.dispatch, .dispatched due) v) : p.id ∈ due := by
  have hclosed := closedLine_ahead env publisher p
  have hrounds := passed.rounds h hclock
  have hbound := hrounds.bound hclosed ⟨h, hclock⟩
  obtain ⟨hu, huclock⟩ := hclosed.invariant (hrounds.invariant hclosed ⟨h, hclock⟩) more
  have hmore := hclosed.size_le (hrounds.invariant hclosed ⟨h, hclock⟩) more ∅
  have hdue : due = dispatchDuePublications u.clock u.store := by
    cases next_step dispatch
    rfl
  subst hdue
  by_contra homitted
  -- a hundred are still in front, after `n` hundreds have left
  have hhundred : 100 ≤ (u.ahead p).ncard := by
    rw [← ncard_dispatched waits huclock homitted]
    exact Set.ncard_le_ncard (dispatched_ahead waits huclock homitted).2 (finite_ahead p u)
  unfold Sys.queue at short
  unfold ClosedLine.size at hbound hmore short
  simp only [Set.sdiff_empty] at hbound hmore short
  omega

end Dispatcher

/-- **No publication starves.**  From the moment on at which it is due, nothing comes in front of it
but what a request asks for that was checked before; and while workers claim what the dispatcher
sends, with fewer than `100 * (n + 1)` in front of it or about to come there it is sent at the latest
after `n` rounds, whatever is scheduled, retried or delivered in the meantime. -/
theorem no_starvation {env : Env} {publisher : Option Publisher} {s : Sys} {p : Publication} {n : ℕ}
    (h : Reachable (relay env publisher) s) (hclock : p.scheduledFor ≤ s.clock)
    (short : s.queue p < 100 * (n + 1)) :
    (∀ es t, Trail (relay env publisher) s es t → Foreseen p s t) ∧
      ∀ t es u due v, PassedOver env publisher p n s t → Trail (relay env publisher) t es u →
        p.Waits u → (relay env publisher).step u (.dispatch, .dispatched due) v → p.id ∈ due :=
  ⟨fun _ _ => foreseen_of_trail h hclock, fun _ _ _ _ _ passed more waits dispatch =>
    sent_after_rounds h hclock short passed more waits dispatch⟩

namespace Sample

/-- Two web processes take part. -/
def pair (_ : Sys) (l : Label) : Bool := l.ticket = none ∨ l.ticket = some 0 ∨ l.ticket = some 1

/-- The others have checked nothing. -/
theorem tickets_of_pair {es : List (Label × Output)} {s : Sys}
    (run : Trail ((relay env none).guarded fun s e => pair s e.1 = true) start es s) {k : ℕ}
    (hk : k ∉ ({0, 1} : Finset ℕ)) : s.tickets k = none := by
  simp only [Finset.mem_insert, Finset.mem_singleton, not_or] at hk
  refine run.invariant (I := fun s : Sys => s.tickets k = none) (fun s e t hs hstep => ?_) rfl
  refine ((next_step hstep.2).ticket_kept ?_).trans hs
  rcases of_decide_eq_true hstep.1 with hnone | hzero | hone
  · rw [hnone]
    nofun
  · exact fun heq => hk.1 (Option.some.inj (heq.symm.trans hzero))
  · exact fun heq => hk.2 (Option.some.inj (heq.symm.trans hone))

theorem queue_le {s : Sys} {ks : Finset ℕ} (p : Publication) (h : ∀ k ∉ ks, s.tickets k = none) :
    s.queue p ≤ s.store.publications.rows.length + ks.card := by
  have hahead : s.ahead p ⊆ ((s.store.publications.rows.map (·.id)).toFinset : Set Uuid) := by
    rintro id ⟨q, hq, rfl, -⟩
    simp only [List.coe_toFinset, List.mem_map, Set.mem_ofPred_eq]
    exact ⟨q, hq, rfl⟩
  have hcoming : s.coming p ⊆ (ks : Set ℕ) := by
    rintro k ⟨call, hk, -⟩
    by_contra hnot
    rw [h k hnot] at hk
    cases hk
  have hline := Set.ncard_le_ncard hahead (Finset.finite_toSet _)
  have hway := Set.ncard_le_ncard hcoming (Finset.finite_toSet _)
  have hlength := List.toFinset_card_le (s.store.publications.rows.map (·.id))
  rw [Set.ncard_coe_finset] at hline hway
  rw [List.length_map] at hlength
  unfold Sys.queue ClosedLine.size
  simp only [Set.sdiff_empty]
  omega

/-- A request of its own for a publication of the post. -/
def crowding (n : ℕ) : ApiRequest :=
  .createPublication (some (String.ofList [Char.ofNat (200 + n)])) ⟨variant, connection, minutes 1⟩

/-- A publication is due, when 99 others have been due for a minute and one more request is checked. -/
def queueing : List Label :=
  drafting ++ connecting .metaFacebookPage ++
    panel (.createPublication (some "k") ⟨variant, connection, minutes 2⟩) 50 ++
    (List.range 99).flatMap (fun n => panel (crowding n) (100 + n)) ++
    [.receive 1 (.panel 1 none) (crowding 99), .advance 120000000]

/-- Workers claim the hundred. -/
def claimingHundred : List Label :=
  (List.range 100).flatMap fun n => [.start n (.ofNat (100 + n)), .claim n (.ofNat (1000 + n))]

/-- The publication waits. -/
def waits (p : Publication) (s : Sys) : Bool :=
  (s.store.publications.get? p.id).any fun q => q.state = .scheduled && q.scheduledFor = p.scheduledFor

theorem waits_of {p : Publication} {s : Sys} (h : waits p s = true) : p.Waits s := by
  obtain ⟨q, hq, hrow⟩ := (Option.any_eq_true _ _).1 h
  obtain ⟨hmem, hid⟩ := Table.get?_eq_some.1 hq
  simp only [Bool.and_eq_true, decide_eq_true_eq] at hrow
  exact ⟨q, hmem, hid, hrow.1, hrow.2⟩

/-- The publications that are claimed. -/
def claimed (es : List (Label × Output)) : List Uuid :=
  es.filterMap fun e =>
    match e.2 with
    | .claimed claim => some claim.publication.id
    | _ => none

theorem exists_of_claimed {es : List (Label × Output)} {id : Uuid} (h : id ∈ claimed es) :
    ∃ e ∈ es, ∃ claim, e.2 = .claimed claim ∧ claim.publication.id = id := by
  obtain ⟨e, he, hclaim⟩ := List.mem_filterMap.1 h
  split at hclaim
  · cases hclaim
    exact ⟨e, he, _, ‹_›, rfl⟩
  · cases hclaim

/-- What the dispatcher sends, and the state it leaves. -/
def dispatched (s : Sys) : Option (List Uuid × Sys) :=
  match next env none s .dispatch with
  | some (t, .dispatched due) => some (due, t)
  | _ => none

theorem step_of_dispatched {s t : Sys} {due : List Uuid} (h : dispatched s = some (due, t)) :
    (relay env none).step s (.dispatch, .dispatched due) t := by
  unfold dispatched at h
  split at h
  · cases h
    assumption
  · cases h

/-- The request that was checked is committed, the dispatcher passes over the publication, and the
workers claim what it has sent. -/
def passes (p : Publication) (s : Sys) : Bool :=
  (execute env none [.commit 1 (draws 199)] s).any fun x => waits p x.2 &&
    (dispatched x.2).any fun d => p.id ∉ d.1 &&
      (execute env none claimingHundred d.2).any fun y => claimed y.1 = d.1 && waits p y.2 &&
        (dispatched y.2).isSome

theorem exists_of_passes {p : Publication} {s : Sys} (h : passes p s = true) : ∃ t due v,
    PassedOver env none p 1 s t ∧ p.Waits t ∧
      (relay env none).step t (.dispatch, .dispatched due) v := by
  obtain ⟨es, t, before, h⟩ := exists_of_execute h
  obtain ⟨hwaits, h⟩ := Bool.and_eq_true_iff.1 h
  obtain ⟨⟨due, t'⟩, hdue, h⟩ := (Option.any_eq_true _ _).1 h
  obtain ⟨homitted, h⟩ := Bool.and_eq_true_iff.1 h
  obtain ⟨fs, u, after, h⟩ := exists_of_execute h
  obtain ⟨h, hagain⟩ := Bool.and_eq_true_iff.1 h
  obtain ⟨hclaimed, hstill⟩ := Bool.and_eq_true_iff.1 h
  obtain ⟨⟨again, v⟩, hagain⟩ := Option.isSome_iff_exists.1 hagain
  refine ⟨u, again, v, .round before (waits_of hwaits) (step_of_dispatched hdue)
    (of_decide_eq_true homitted) after (fun id hid => ?_) (.none u), waits_of hstill,
    step_of_dispatched hagain⟩
  have hsame : claimed fs = due := of_decide_eq_true hclaimed
  exact exists_of_claimed (hsame ▸ hid)

end Sample

/-- A hundred publications are in front, the last of which is only about to be created. -/
theorem no_starvation_sample : ∃ (s t v : Sys) (p : Publication) (due : List Uuid),
    PassedOver Sample.env none p 1 s t ∧
    (relay Sample.env none).step t (.dispatch, .dispatched due) v ∧ p.id ∈ due := by
  obtain ⟨es, s, run, hs⟩ := exists_of_executeIf (show ((executeIf Sample.env none Sample.pair
    Sample.queueing Sample.start).any fun x => x.2.store.publications.rows.length = 100 &&
      (x.2.store.publications.get? Sample.publication).any fun p =>
        p.scheduledFor ≤ x.2.clock && Sample.passes p x.2) = true by decide +kernel)
  obtain ⟨hlength, hs⟩ := Bool.and_eq_true_iff.1 hs
  obtain ⟨p, hp, hs⟩ := (Option.any_eq_true _ _).1 hs
  obtain ⟨hclock, hpasses⟩ := Bool.and_eq_true_iff.1 hs
  obtain ⟨t, due, v, hpassed, hwaits, hdispatch⟩ := Sample.exists_of_passes hpasses
  have hshort : s.queue p < 100 * (1 + 1) := by
    have hle := Sample.queue_le p fun k => Sample.tickets_of_pair run
    rw [of_decide_eq_true hlength] at hle
    exact lt_of_le_of_lt hle (by decide)
  have hreachable : Reachable (relay Sample.env none) s :=
    (Reachable.of_start (Sample.start_isStart none)).trail run.of_guarded
  exact ⟨s, t, v, p, due, hpassed, hdispatch,
    (no_starvation hreachable (of_decide_eq_true hclock) hshort).2 t [] t due v hpassed (.stay t) hwaits
      hdispatch⟩

end Relay
