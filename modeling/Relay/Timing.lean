import Relay.Attempts

/-!
# When a publication is attempted

`scheduled_for` is the moment that the client has asked for, and then the moment of the next try.

* `Moves`: what one step does to a publication and its attempts, `SysStep.moves`;
* `Paced`: the gaps between the attempts, and what the last one says about `scheduled_for`;
* `delivery_timing`: no attempt is early, and none follows too soon on another.
-/

namespace Relay

open Relational Sequence Transition

/-! ### One publication -/

/-- A publication with its attempts before and after a step at `now`. -/
inductive Moves (now : Time) : Publication → List PublicationAttempt → Publication →
    List PublicationAttempt → Prop
  | same {p : Publication} {attempts : List PublicationAttempt} : Moves now p attempts p attempts
  | starts {p : Publication} {attempts : List PublicationAttempt} {a : PublicationAttempt}
      (scheduled : p.state = .scheduled) (due : p.scheduledFor ≤ a.startedAt) (past : a.startedAt ≤ now)
      (blank : a.outcome = .blank) : Moves now p attempts (p.claimed now) (attempts ++ [a])
  | concludes {p p' : Publication} {init : List PublicationAttempt} {a a' : PublicationAttempt}
      (blank : a.outcome = .blank) (outcome : a'.outcome ≠ .blank)
      (number : a'.attemptNumber = a.attemptNumber) (started : a'.startedAt = a.startedAt)
      (completed : a'.completedAt = some now)
      (scheduledFor : p'.scheduledFor =
        if a'.outcome = .retry then now + retryDelay a.attemptNumber else p.scheduledFor) :
      Moves now p (init ++ [a]) p' (init ++ [a'])

/-- The second attempt starts after the delay that follows on the first one. -/
def Follows (a b : PublicationAttempt) : Prop :=
  ∃ done, a.completedAt = some done ∧ done + retryDelay a.attemptNumber ≤ b.startedAt

/-- The attempts keep their distances, and the last one is in time with `scheduled_for`. -/
structure Paced (now scheduledFor : Time) (attempts : List PublicationAttempt) : Prop where
  gaps : attempts.IsChain Follows
  past : ∀ a ∈ attempts, a.startedAt ≤ now
  opened : ∀ a ∈ attempts.getLast?, a.outcome = .blank → scheduledFor ≤ a.startedAt
  retry : ∀ a ∈ attempts.getLast?, a.outcome = .retry →
    ∃ done, a.completedAt = some done ∧ scheduledFor = done + retryDelay a.attemptNumber

section Paced

variable {now now' scheduledFor : Time} {p p' : Publication} {attempts attempts' : List PublicationAttempt}

theorem retryDelay_nonneg (n : ℕ) : 0 ≤ retryDelay n := by
  have hmin : (0 : ℤ) ≤ min (2 ^ n) 30 := le_min (pow_nonneg (by decide) n) (by decide)
  show (0 : ℤ) ≤ 60 * min (2 ^ n) 30 * 1000000
  omega

theorem Paced.nil : Paced now scheduledFor [] where
  gaps := .nil
  past _ ha := by cases ha
  opened _ ha := by cases ha
  retry _ ha := by cases ha

theorem Paced.later (h : Paced now scheduledFor attempts) (hle : now ≤ now') :
    Paced now' scheduledFor attempts :=
  ⟨h.gaps, fun a ha => (h.past a ha).trans hle, h.opened, h.retry⟩

/-- A step keeps the pace. -/
theorem Moves.paced (h : Moves now p attempts p' attempts') (hattempted : Attempted p.state attempts)
    (hpaced : Paced now p.scheduledFor attempts) : Paced now p'.scheduledFor attempts' := by
  cases h with
  | same => exact hpaced
  | @starts _ a scheduled due past blank =>
    rw [scheduled] at hattempted
    refine ⟨?_, fun b hb => ?_, fun b hb _ => ?_, fun b hb hretry => ?_⟩
    · -- the last attempt is to be retried, at the moment for which the publication is scheduled
      refine List.isChain_append.2 ⟨hpaced.gaps, List.isChain_singleton a, fun b hb c hc => ?_⟩
      obtain rfl : a = c := by simpa using hc
      obtain ⟨done, hdone, hat⟩ := hpaced.retry b hb (hattempted.retried b (List.mem_of_getLast? hb))
      exact ⟨done, hdone, hat ▸ due⟩
    · rcases List.mem_append.1 hb with hb | hb
      · exact hpaced.past b hb
      · obtain rfl : b = a := by simpa using hb
        exact past
    · obtain rfl : a = b := by simpa using hb
      exact due
    · obtain rfl : a = b := by simpa using hb
      rw [blank] at hretry
      cases hretry
  | @concludes _ init a a' blank outcome number started completed hscheduled =>
    obtain ⟨hinit, -, hlast⟩ := List.isChain_append.1 hpaced.gaps
    refine ⟨?_, fun b hb => ?_, fun b hb hblank => ?_, fun b hb hretry => ?_⟩
    · refine List.isChain_append.2 ⟨hinit, List.isChain_singleton a', fun b hb c hc => ?_⟩
      obtain rfl : a' = c := by simpa using hc
      obtain ⟨done, hdone, hle⟩ := hlast b hb a (by simp)
      exact ⟨done, hdone, started ▸ hle⟩
    · rcases List.mem_append.1 hb with hb | hb
      · exact hpaced.past b (List.mem_append_left _ hb)
      · obtain rfl : b = a' := by simpa using hb
        rw [started]
        exact hpaced.past a (by simp)
    · obtain rfl : a' = b := by simpa using hb
      exact absurd hblank outcome
    · obtain rfl : a' = b := by simpa using hb
      rw [if_pos hretry, ← number] at hscheduled
      exact ⟨now, completed, hscheduled⟩

/-- A step does not bring a publication forward. -/
theorem Moves.scheduledFor_le (h : Moves now p attempts p' attempts')
    (hpaced : Paced now p.scheduledFor attempts) : p.scheduledFor ≤ p'.scheduledFor := by
  cases h with
  | same => exact le_rfl
  | starts => exact le_rfl
  | @concludes _ init a a' blank outcome number started completed hscheduled =>
    rw [hscheduled]
    split
    · have hopen := hpaced.opened a (by simp) blank
      have hpast := hpaced.past a (by simp)
      calc p.scheduledFor ≤ a.startedAt := hopen
        _ ≤ now := hpast
        _ ≤ now + retryDelay a.attemptNumber := le_add_of_nonneg_right (retryDelay_nonneg _)
    · exact le_rfl

/-- A step makes no attempt before a moment before which the publication was not scheduled. -/
theorem Moves.not_before {c : Time} (h : Moves now p attempts p' attempts') (hp : c ≤ p.scheduledFor)
    (hattempts : ∀ a ∈ attempts, c ≤ a.startedAt) : ∀ a ∈ attempts', c ≤ a.startedAt := by
  cases h with
  | same => exact hattempts
  | starts _ due =>
    intro b hb
    rcases List.mem_append.1 hb with hb | hb
    · exact hattempts b hb
    · obtain rfl := List.mem_singleton.1 hb
      exact hp.trans due
  | @concludes _ init a a' _ _ _ started =>
    intro b hb
    rcases List.mem_append.1 hb with hb | hb
    · exact hattempts b (List.mem_append_left _ hb)
    · obtain rfl := List.mem_singleton.1 hb
      rw [started]
      exact hattempts a (by simp)

/-- Attempts with successive numbers follow on each other. -/
theorem Paced.follows {state : LifecycleState} (h : Paced now scheduledFor attempts)
    (hattempted : Attempted state attempts) {a b : PublicationAttempt} (ha : a ∈ attempts)
    (hb : b ∈ attempts) (hnext : b.attemptNumber = a.attemptNumber + 1) : Follows a b := by
  have hnumber : ∀ (i : ℕ) (hi : i < attempts.length), attempts[i].attemptNumber = i + 1 := by
    intro i hi
    have hi' : i < (attempts.map (·.attemptNumber)).length := by simpa using hi
    have hget := List.getElem_of_eq hattempted.numbered hi'
    rw [List.getElem_map, List.getElem_range'] at hget
    omega
  obtain ⟨i, hi, rfl⟩ := List.getElem_of_mem ha
  obtain ⟨j, hj, rfl⟩ := List.getElem_of_mem hb
  rw [hnumber i hi, hnumber j hj] at hnext
  obtain rfl : j = i + 1 := by omega
  exact List.isChain_iff_getElem.1 h.gaps i hj

end Paced

/-! ### The system -/

/-- Every publication keeps its pace, and the clock is ahead of what the workers have read. -/
structure Timely (s : Sys) : Prop where
  begun : ∀ k id started, s.workers k = some ⟨id, .begun started⟩ → started ≤ s.clock
  paced : ∀ p ∈ s.store.publications, Paced s.clock p.scheduledFor (attemptsOf s.store p.id)

section System

variable {env : Env} {publisher : Option Publisher} {s s' t : Sys} {o : Output} {l : Label}

theorem SysStep.clock_le (hstep : SysStep env publisher s l s' o) : s.clock ≤ s'.clock := by
  cases hstep with
  | advanced => exact le_add_of_nonneg_right (Int.natCast_nonneg _)
  | _ => exact le_rfl

/-- **What a step does to a publication and its attempts.** -/
theorem SysStep.moves (hstep : SysStep env publisher s l s' o) (hs : Delivering s)
    (begun : ∀ k id started, s.workers k = some ⟨id, .begun started⟩ → started ≤ s.clock)
    {p : Publication} (hp : p ∈ s.store.publications) : ∃ p' ∈ s'.store.publications, p'.id = p.id ∧
      Moves s.clock p (attemptsOf s.store p.id) p' (attemptsOf s'.store p.id) := by
  cases hstep.touched hs hp with
  | kept mem attempts => exact ⟨p, mem, rfl, attempts ▸ .same⟩
  | @claimed k started attempt worker due mem attempts =>
    obtain ⟨hscheduled, hle⟩ := Publication.due_iff.1 due
    refine ⟨p.claimed s.clock, mem, rfl, ?_⟩
    rw [attempts]
    exact .starts hscheduled hle (begun k p.id started worker) rfl
  | @concluded _ claim f g init _ held row conclusion dated mem before after =>
    subst row
    refine ⟨g claim.publication, mem, g.keeps _, ?_⟩
    rw [before, after]
    exact .concludes held.blank (conclusion.outcome _) (conclusion.number _) (dated.started _)
      (dated.completed _) (dated.scheduled _)

/-- A worker that has read the clock has read it in this step or before. -/
theorem Timely.begun_step (h : Timely s) (hstep : SysStep env publisher s l s' o) (k : ℕ) (id : Uuid)
    (started : Time) (hk : s'.workers k = some ⟨id, .begun started⟩) : started ≤ s'.clock := by
  refine le_trans ?_ hstep.clock_le
  have hother : ∀ {k' : ℕ} {w : Option Worker} {r : Sys}, r.workers = s.workers →
      (∀ id' started', w = some ⟨id', .begun started'⟩ → started' ≤ s.clock) →
      (r.setWorker k' w).workers k = some ⟨id, .begun started⟩ → started ≤ s.clock := by
    intro k' w r hr hw hk
    unfold Sys.setWorker at hk
    simp only [Function.update_apply] at hk
    split at hk
    · exact hw _ _ hk
    · exact h.begun k id started (hr ▸ hk)
  cases hstep with
  | started =>
    refine hother rfl (fun id' started' hw => ?_) hk
    cases hw
    exact le_rfl
  | claimRaised | claimMissed | claimed | unprepared | prepared | exchanged | finishRaised | finished
  | killed =>
    refine hother rfl (fun id' started' hw => ?_) hk
    cases hw
  | _ => exact h.begun k id started hk

theorem Timely.step (h : Timely s) (hs : Delivering s) (hstep : SysStep env publisher s l s' o) :
    Timely s' := by
  refine ⟨h.begun_step hstep, fun p' hp' => ?_⟩
  rcases hstep.publication_new hs hp' with ⟨p, hp, hid⟩ | hnew
  · obtain ⟨q, hq, hid', hmoves⟩ := hstep.moves hs h.begun hp
    obtain rfl : q = p' := Table.eq_of_key hq hp' (hid'.trans hid)
    rw [hid']
    exact (hmoves.paced (hs.attempted p hp) (h.paced p hp)).later hstep.clock_le
  · have hnone : attemptsOf s'.store p'.id = [] := List.length_eq_zero_iff.1 (congrArg Retry.Job.tries hnew)
    rw [hnone]
    exact .nil

theorem timely_of_reachable (h : Reachable (relay env publisher) s) : Timely s := by
  refine h.induct (I := Timely) ?_ fun s e t hr hs hstep =>
    hs.step (delivering_of_reachable hr) (next_step hstep)
  rintro _ ⟨tenants, brands, memberships, clock, rfl⟩
  refine ⟨fun k id started hk => ?_, fun p hp => absurd hp (Table.not_mem_empty p)⟩
  cases (show none = some _ from hk)

/-- **A publication is never brought forward**, and not attempted before a moment from which on it was
scheduled. -/
theorem Trail.scheduledFor_le {es : List (Label × Output)} (h : Trail (relay env publisher) s es t)
    (hr : Reachable (relay env publisher) s) {p : Publication} (hp : p ∈ s.store.publications) :
    ∃ q ∈ t.store.publications, q.id = p.id ∧ p.scheduledFor ≤ q.scheduledFor ∧
      ∀ c, c ≤ p.scheduledFor → (∀ a ∈ attemptsOf s.store p.id, c ≤ a.startedAt) →
        ∀ a ∈ attemptsOf t.store p.id, c ≤ a.startedAt := by
  induction h generalizing p with
  | stay => exact ⟨p, hp, rfl, le_rfl, fun _ _ hattempts => hattempts⟩
  | move head _ ih =>
    have hs := timely_of_reachable hr
    obtain ⟨p', hp', hid, hmoves⟩ := (next_step head).moves (delivering_of_reachable hr) hs.begun hp
    have hle := hmoves.scheduledFor_le (hs.paced p hp)
    obtain ⟨q, hq, hid', hle', hbefore⟩ := ih (hr.step head) hp'
    refine ⟨q, hq, hid'.trans hid, hle.trans hle', fun c hc hattempts => ?_⟩
    rw [← hid]
    exact hbefore c (hc.trans hle) (hid ▸ hmoves.not_before hc hattempts)

end System

/-! ### Delivery timing -/

/-- **Delivery timing.**  From the creation of a publication on no attempt starts before the moment
that it was scheduled for, each attempt starts after the delay that follows on the one before, and
the publication is never brought forward. -/
theorem delivery_timing {env : Env} {publisher : Option Publisher} {s s' t : Sys} {k : ℕ} {draws : Draws}
    {call : ScheduleCall} {p : Publication} {response : Option (Except ApiError Response)}
    {es : List (Label × Output)} (h : Reachable (relay env publisher) s)
    (created : (relay env publisher).step s (.commit k draws, .committed (.schedulePublication call)
      (.publication ⟨p, true⟩) response) s') (tr : Trail (relay env publisher) s' es t) :
    (∀ a ∈ attemptsOf t.store p.id, call.scheduledFor ≤ a.startedAt) ∧
      (∀ a ∈ attemptsOf t.store p.id, ∀ b ∈ attemptsOf t.store p.id,
        b.attemptNumber = a.attemptNumber + 1 → ∃ done, a.completedAt = some done ∧
          done + minutes (min (2 ^ a.attemptNumber) 30) ≤ b.startedAt) ∧
      ∃ q ∈ t.store.publications, q.id = p.id ∧ ∀ fs u, Trail (relay env publisher) t fs u →
        ∃ r ∈ u.store.publications, r.id = p.id ∧ q.scheduledFor ≤ r.scheduledFor := by
  have hs' := h.step created
  have ht := hs'.trail tr
  obtain ⟨hp, hfor, hnone⟩ : p ∈ s'.store.publications ∧ p.scheduledFor = call.scheduledFor ∧
      attemptsOf s'.store p.id = [] := by
    have hs := delivering_of_reachable h
    cases next_step created with
    | committed _ effect =>
      cases effect with
      | scheduled _ _ insert =>
        exact ⟨Table.mem_self_insert? insert, rfl, hs.attemptsOf_fresh (Table.fresh_of_insert? insert)⟩
  obtain ⟨q, hq, hid, -, hbefore⟩ := Trail.scheduledFor_le tr hs' hp
  have hnever : ∀ a ∈ attemptsOf s'.store p.id, call.scheduledFor ≤ a.startedAt := by
    intro a ha
    rw [hnone] at ha
    cases ha
  refine ⟨hbefore _ hfor.ge hnever, fun a ha b hb hnext => ?_, q, hq, hid, fun fs u tr' => ?_⟩
  · rw [← hid] at ha hb
    exact ((timely_of_reachable ht).paced q hq).follows ((delivering_of_reachable ht).attempted q hq) ha hb
      hnext
  · obtain ⟨r, hr, hid', hle, -⟩ := Trail.scheduledFor_le tr' ht hq
    exact ⟨r, hr, hid'.trans hid, hle⟩

namespace Sample

/-- The publication that a commit has created. -/
def createdBy : Output → Option (ScheduleCall × Publication × Option (Except ApiError Response))
  | .committed (.schedulePublication call) (.publication ⟨p, true⟩) response => some (call, p, response)
  | _ => none

theorem eq_of_createdBy {o : Output} {call : ScheduleCall} {p : Publication}
    {response : Option (Except ApiError Response)} (h : createdBy o = some (call, p, response)) :
    o = .committed (.schedulePublication call) (.publication ⟨p, true⟩) response := by
  unfold createdBy at h
  split at h
  · cases h
    rfl
  · cases h

/-- A try that fails for a while, and another one two minutes later. -/
def retrying : List Label :=
  claiming 60000000 60 ++ exchanging ⟨false, .response 500 .invalid⟩ ++ claiming 120000000 61

end Sample

/-- A publication that is attempted twice. -/
theorem delivery_timing_sample : ∃ (t : Sys) (call : ScheduleCall) (p : Publication),
    (attemptsOf t.store p.id).map (·.attemptNumber) = [1, 2] ∧
      ∀ a ∈ attemptsOf t.store p.id, call.scheduledFor ≤ a.startedAt := by
  obtain ⟨es, s, tr, hs⟩ := exists_of_execute
    (show ((execute Sample.env none (Sample.drafting ++ Sample.connecting .metaFacebookPage ++
      [.receive 0 (.panel 1 none) (.createPublication (some "k")
        ⟨Sample.variant, Sample.connection, minutes 1⟩)]) Sample.start).any fun x =>
          (next Sample.env none x.2 (.commit 0 (Sample.draws 50))).any fun y =>
            (Sample.createdBy y.2).any fun c => (execute Sample.env none Sample.retrying y.1).any fun z =>
              (attemptsOf z.2.store c.2.1.id).map (·.attemptNumber) = [1, 2]) = true by decide +kernel)
  obtain ⟨⟨s', o⟩, hnext, hs⟩ := (Option.any_eq_true _ _).1 hs
  obtain ⟨⟨call, p, response⟩, hcreated, hs⟩ := (Option.any_eq_true _ _).1 hs
  obtain ⟨fs, t, tr', ht⟩ := exists_of_execute hs
  have hreach : Reachable (relay Sample.env none) s := ⟨_, es, Sample.start_isStart none, tr⟩
  have hstep : (relay Sample.env none).step s (.commit 0 (Sample.draws 50),
      .committed (.schedulePublication call) (.publication ⟨p, true⟩) response) s' :=
    Sample.eq_of_createdBy hcreated ▸ hnext
  exact ⟨t, call, p, of_decide_eq_true ht, (delivery_timing hreach hstep tr').1⟩

end Relay
