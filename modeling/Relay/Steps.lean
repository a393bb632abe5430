import Relay.Effects
import Relay.System

/-!
# What a step of the system can do

`SysStep env publisher s l s' o` lists the steps of `next`, branch by branch, with what is known
on each: `next_step`.  The proofs about runs are case analyses over it.
-/

namespace Relay

open Relational Sequence

variable {env : Env} {publisher : Option Publisher}

/-- The steps of the system: before, label, after, and what others see. -/
inductive SysStep (env : Env) (publisher : Option Publisher) : Sys → Label → Sys → Output → Prop
  | advanced {s : Sys} {duration : ℕ} :
      SysStep env publisher s (.advance duration) { s with clock := s.clock + duration } .silent
  | answered {s : Sys} {k : ℕ} {credential : Credential} {request : ApiRequest} {p : RelayPrincipal}
      {r : Response} (admission : admitRequest env s.clock credential request s.store =
        .ok (p, .answer r)) :
      SysStep env publisher s (.receive k credential request) s (.response (.ok r))
  | rejected {s : Sys} {k : ℕ} {credential : Credential} {request : ApiRequest} {e : ApiError} :
      SysStep env publisher s (.receive k credential request) s (.response (.error e))
  | admitted {s : Sys} {k : ℕ} {credential : Credential} {request : ApiRequest} {p : RelayPrincipal}
      {c : Command} (admission : admitRequest env s.clock credential request s.store =
        .ok (p, .command c)) :
      SysStep env publisher s (.receive k credential request) (s.setTicket k (some (.admitted c)))
        .silent
  | answeredPublic {s : Sys} {k : ℕ} {request : PublicRequest} {r : Response}
      (admission : admitPublic env s.clock request s.store = .ok (.answer r)) :
      SysStep env publisher s (.receivePublic k request) s (.response (.ok r))
  | rejectedPublic {s : Sys} {k : ℕ} {request : PublicRequest} {e : ApiError} :
      SysStep env publisher s (.receivePublic k request) s (.response (.error e))
  | admittedPublic {s : Sys} {k : ℕ} {request : PublicRequest} {c : Command}
      (admission : admitPublic env s.clock request s.store = .ok (.command c)) :
      SysStep env publisher s (.receivePublic k request) (s.setTicket k (some (.admitted c))) .silent
  | refused {s : Sys} {k : ℕ} {draws : Draws} {c : Command} {e : ServiceError} :
      SysStep env publisher s (.commit k draws) (s.setTicket k none) (.refused c e)
  | committed {s : Sys} {k : ℕ} {draws : Draws} {c : Command} {r : Reply} {store : Store}
      (ticket : s.tickets k = some (.admitted c))
      (effect : Effect env ⟨draws, s.clock⟩ c r s.store store) :
      SysStep env publisher s (.commit k draws) ({ s with store }.setTicket k r.ticket)
        (.committed c r (respond store r))
  | identified {s : Sys} {k : ℕ} {token : MetaToken} {identity : MetaIdentity} {state : OAuthState}
      (ticket : s.tickets k = some (.connecting state)) :
      SysStep env publisher s (.identify k token identity)
        (s.setTicket k (some (.admitted
          (.persistMetaConnections state.tenant state.brand state.subject token identity)))) .silent
  | abandoned {s : Sys} {k : ℕ} : SysStep env publisher s (.abandon k) (s.setTicket k none) .silent
  | dispatched {s : Sys} :
      SysStep env publisher s .dispatch
        { s with tasks := s.tasks ++ dispatchDuePublications s.clock s.store }
        (.dispatched (dispatchDuePublications s.clock s.store))
  | started {s : Sys} {k : ℕ} {publication : Uuid} (task : publication ∈ s.tasks)
      (idle : s.workers k = none) :
      SysStep env publisher s (.start k publication) (s.goOn k publication (.begun s.clock)) .silent
  | claimRaised {s : Sys} {k : ℕ} {publication : Uuid} {started : Time} {attempt : Uuid}
      {e : ServiceError} (worker : s.workers k = some ⟨publication, .begun started⟩)
      (raised : claimPublication started s.clock attempt publication s.store = .error e) :
      SysStep env publisher s (.claim k attempt) (s.setWorker k none) (.raised publication e)
  | claimMissed {s : Sys} {k : ℕ} {publication : Uuid} {started : Time} {attempt : Uuid}
      (worker : s.workers k = some ⟨publication, .begun started⟩) :
      SysStep env publisher s (.claim k attempt) (s.setWorker k none)
        (.returned publication "not_due_or_claimed")
  | claimed {s : Sys} {k : ℕ} {publication : Uuid} {started : Time} {attempt : Uuid} {claim : Claim}
      {store : Store} (worker : s.workers k = some ⟨publication, .begun started⟩)
      (id : claim.publication.id = publication)
      (claimed : Claimed started s.clock attempt claim s.store store) :
      SysStep env publisher s (.claim k attempt)
        ({ s with store }.goOn k publication (.claimed claim)) (.claimed claim)
  | unprepared {s : Sys} {k : ℕ} {publication : Uuid} {claim : Claim} {signer : Signer}
      {e : DeliveryError} (worker : s.workers k = some ⟨publication, .claimed claim⟩)
      (arguments : publishArguments env publisher signer claim
        (orderedMediaAssets s.store claim.postVariant) = .error e) :
      SysStep env publisher s (.prepare k signer)
        (s.goOn k publication (.publishing claim (.done (.error e)))) .silent
  | prepared {s : Sys} {k : ℕ} {publication : Uuid} {claim : Claim} {signer : Signer}
      {call : PublishCall} (worker : s.workers k = some ⟨publication, .claimed claim⟩)
      (arguments : publishArguments env publisher signer claim
        (orderedMediaAssets s.store claim.postVariant) = .ok call) :
      SysStep env publisher s (.prepare k signer)
        (s.goOn k publication (.publishing claim (publisherCall env publisher call).run))
        (.publishing claim (orderedMediaAssets s.store claim.postVariant) call)
  | exchanged {s : Sys} {k : ℕ} {publication : Uuid} {claim : Claim} {q : MetaRequest}
      {rest : Answer → Exchange MetaRequest Answer (Except DeliveryError String)} {act : MetaAct}
      (worker : s.workers k = some ⟨publication, .publishing claim (.ask q rest)⟩) :
      SysStep env publisher s (.exchange k act)
        ({ s with
            ledger := if act.applied && q.visible then s.ledger ++ [(publication, q)]
              else s.ledger }.goOn k publication (.publishing claim (rest act.answer)))
        (.exchanged claim q act)
  | finishRaised {s : Sys} {k : ℕ} {publication : Uuid} {claim : Claim}
      {result : Except DeliveryError String} {e : ServiceError}
      (worker : s.workers k = some ⟨publication, .publishing claim (.done result)⟩)
      (raised : finish env s.clock claim result s.store = .error e) :
      SysStep env publisher s (.finish k) (s.setWorker k none) (.raised publication e)
  | finished {s : Sys} {k : ℕ} {publication : Uuid} {claim : Claim}
      {result : Except DeliveryError String} {answer : String} {store : Store}
      (worker : s.workers k = some ⟨publication, .publishing claim (.done result)⟩)
      (finished : Finished env s.clock claim result answer s.store store) :
      SysStep env publisher s (.finish k) ({ s with store }.setWorker k none)
        (.returned publication answer)
  | killed {s : Sys} {k : ℕ} : SysStep env publisher s (.kill k) (s.setWorker k none) .silent

section Parts

variable {s : Sys} {k : ℕ} {publication : Uuid}

theorem receive_step {credential : Credential} {request : ApiRequest} {s' : Sys} {o : Output}
    (h : s.admitted k ((admitRequest env s.clock credential request s.store).map Prod.snd) = (s', o)) :
    SysStep env publisher s (.receive k credential request) s' o := by
  cases ha : admitRequest env s.clock credential request s.store with
  | error e =>
    rw [ha] at h
    cases h
    exact .rejected
  | ok x =>
    obtain ⟨p, r | c⟩ := x <;> rw [ha] at h <;> cases h
    · exact .answered ha
    · exact .admitted ha

theorem receivePublic_step {request : PublicRequest} {s' : Sys} {o : Output}
    (h : s.admitted k (admitPublic env s.clock request s.store) = (s', o)) :
    SysStep env publisher s (.receivePublic k request) s' o := by
  cases ha : admitPublic env s.clock request s.store with
  | error e =>
    rw [ha] at h
    cases h
    exact .rejectedPublic
  | ok x =>
    obtain r | c := x <;> rw [ha] at h <;> cases h
    · exact .answeredPublic ha
    · exact .admittedPublic ha

theorem commit_step {draws : Draws} {c : Command} (ticket : s.tickets k = some (.admitted c)) {s' : Sys}
    {o : Output} (h : s.commit env k draws c = (s', o)) :
    SysStep env publisher s (.commit k draws) s' o := by
  unfold Sys.commit at h
  split at h
  · cases h
    exact .refused
  · rename_i hrun
    cases h
    exact .committed ticket (runCommand_effect hrun)

theorem claim_step {started : Time} {attempt : Uuid}
    (worker : s.workers k = some ⟨publication, .begun started⟩) {s' : Sys} {o : Output}
    (h : s.claim k publication started attempt = (s', o)) :
    SysStep env publisher s (.claim k attempt) s' o := by
  unfold Sys.claim at h
  split at h
  · rename_i hraised
    cases h
    exact .claimRaised worker hraised
  · rename_i hclaim
    cases h
    rcases claimPublication_claimed hclaim with ⟨-, rfl⟩ | ⟨_, hnone, -⟩
    · exact .claimMissed worker
    · cases hnone
  · rename_i hclaim
    cases h
    rcases claimPublication_claimed hclaim with ⟨hnone, -⟩ | ⟨_, hsome, hid, hclaimed⟩
    · cases hnone
    · cases hsome
      exact .claimed worker hid hclaimed

theorem prepare_step {claim : Claim} {signer : Signer}
    (worker : s.workers k = some ⟨publication, .claimed claim⟩) {s' : Sys} {o : Output}
    (h : s.prepare env publisher k publication claim signer = (s', o)) :
    SysStep env publisher s (.prepare k signer) s' o := by
  simp only [Sys.prepare] at h
  split at h
  · rename_i harguments
    cases h
    exact .unprepared worker harguments
  · rename_i harguments
    cases h
    exact .prepared worker harguments

theorem finish_step {claim : Claim} {result : Except DeliveryError String}
    (worker : s.workers k = some ⟨publication, .publishing claim (.done result)⟩) {s' : Sys} {o : Output}
    (h : s.finish env k publication claim result = (s', o)) :
    SysStep env publisher s (.finish k) s' o := by
  unfold Sys.finish at h
  split at h
  · rename_i hraised
    cases h
    exact .finishRaised worker hraised
  · rename_i hfinish
    cases h
    exact .finished worker (finish_finished hfinish)

end Parts

/-- **Every step of the system is one of these.** -/
theorem next_step {s s' : Sys} {l : Label} {o : Output}
    (h : next env publisher s l = some (s', o)) : SysStep env publisher s l s' o := by
  cases l with
  | advance =>
    cases h
    exact .advanced
  | receive k credential request =>
    simp only [next, Option.ite_none_left_eq_some, Option.some.injEq] at h
    exact receive_step h.2
  | receivePublic k request =>
    simp only [next, Option.ite_none_left_eq_some, Option.some.injEq] at h
    exact receivePublic_step h.2
  | commit k draws =>
    simp only [next] at h
    split at h
    · exact commit_step ‹_› (Option.some.inj h)
    · cases h
  | identify k token identity =>
    simp only [next] at h
    split at h
    · rename_i hticket
      cases h
      exact .identified hticket
    · cases h
  | abandon =>
    cases h
    exact .abandoned
  | dispatch =>
    cases h
    exact .dispatched
  | start k publication =>
    simp only [next, Option.ite_none_right_eq_some, Option.some.injEq] at h
    obtain ⟨⟨htask, hidle⟩, h⟩ := h
    cases h
    exact .started htask (Option.isNone_iff_eq_none.1 hidle)
  | claim k attempt =>
    simp only [next] at h
    split at h
    · exact claim_step ‹_› (Option.some.inj h)
    · cases h
  | prepare k signer =>
    simp only [next] at h
    split at h
    · exact prepare_step ‹_› (Option.some.inj h)
    · cases h
  | exchange k act =>
    simp only [next] at h
    split at h
    · rename_i hworker
      cases h
      exact .exchanged hworker
    · cases h
  | finish k =>
    simp only [next] at h
    split at h
    · exact finish_step ‹_› (Option.some.inj h)
    · cases h
  | kill =>
    cases h
    exact .killed

/-- The transaction of a command: it is rolled back or committed. -/
theorem next_commit {s s' : Sys} {k : ℕ} {draws : Draws} {o : Output}
    (h : next env publisher s (.commit k draws) = some (s', o)) :
    ∃ c, s.tickets k = some (.admitted c) ∧
      ((∃ e, runCommand env ⟨draws, s.clock⟩ c s.store = .error e ∧ s' = s.setTicket k none ∧
          o = .refused c e) ∨
        ∃ r store, runCommand env ⟨draws, s.clock⟩ c s.store = .ok (r, store) ∧
          s' = { s with store }.setTicket k r.ticket ∧ o = .committed c r (respond store r)) := by
  simp only [next] at h
  split at h
  · rename_i c hticket
    refine ⟨c, hticket, ?_⟩
    rw [Option.some.injEq, Sys.commit] at h
    split at h
    · rename_i e hrun
      cases h
      exact .inl ⟨e, hrun, rfl, rfl⟩
    · rename_i r store hrun
      cases h
      exact .inr ⟨r, store, hrun, rfl, rfl⟩
  · cases h

/-- Where the ticket of a web process comes from: it was there, or the step has made it. -/
inductive TicketOrigin (env : Env) (s : Sys) : Label → ℕ → Ticket → Prop
  | held {l : Label} {k : ℕ} {t : Ticket} (ticket : s.tickets k = some t) : TicketOrigin env s l k t
  | received {k : ℕ} {credential : Credential} {request : ApiRequest} {p : RelayPrincipal}
      {c : Command} (admission : admitRequest env s.clock credential request s.store =
        .ok (p, .command c)) : TicketOrigin env s (.receive k credential request) k (.admitted c)
  | receivedPublic {k : ℕ} {request : PublicRequest} {c : Command}
      (admission : admitPublic env s.clock request s.store = .ok (.command c)) :
      TicketOrigin env s (.receivePublic k request) k (.admitted c)
  | consumed {k : ℕ} {draws : Draws} {state : OAuthState} :
      TicketOrigin env s (.commit k draws) k (.connecting state)
  | identified {k : ℕ} {token : MetaToken} {identity : MetaIdentity} {state : OAuthState}
      (ticket : s.tickets k = some (.connecting state)) :
      TicketOrigin env s (.identify k token identity) k
        (.admitted (.persistMetaConnections state.tenant state.brand state.subject token identity))

/-- Every ticket has an origin. -/
theorem SysStep.ticketOrigin {s s' : Sys} {l : Label} {o : Output}
    (h : SysStep env publisher s l s' o) {k : ℕ} {t : Ticket} (ht : s'.tickets k = some t) :
    TicketOrigin env s l k t := by
  have hset : ∀ {r : Sys} {k' : ℕ} {t' : Option Ticket}, (r.setTicket k' t').tickets k = some t →
      r.tickets k = some t ∨ (k = k' ∧ t' = some t) := by
    intro r k' t' hset
    unfold Sys.setTicket at hset
    simp only [Function.update_apply] at hset
    split at hset
    · rename_i hk
      exact .inr ⟨hk, hset⟩
    · exact .inl hset
  cases h with
  | admitted admission =>
    rcases hset ht with hold | ⟨rfl, hnew⟩
    · exact .held hold
    · cases hnew
      exact .received admission
  | admittedPublic admission =>
    rcases hset ht with hold | ⟨rfl, hnew⟩
    · exact .held hold
    · cases hnew
      exact .receivedPublic admission
  | refused | abandoned =>
    rcases hset ht with hold | ⟨-, hnew⟩
    · exact .held hold
    · cases hnew
  | committed _ effect =>
    rcases hset ht with hold | ⟨rfl, hnew⟩
    · exact .held hold
    · cases effect with
      | oauthConsumed =>
        cases hnew
        exact .consumed
      | _ => cases hnew
  | identified ticket =>
    rcases hset ht with hold | ⟨rfl, hnew⟩
    · exact .held hold
    · cases hnew
      exact .identified ticket
  | _ => exact .held ht

/-- A worker is as it was, or what it has become. -/
theorem worker_of_setWorker {s : Sys} {k k' : ℕ} {x : Option Worker} {y : Worker}
    (h : (s.setWorker k x).workers k' = some y) : (k' = k ∧ x = some y) ∨ s.workers k' = some y := by
  unfold Sys.setWorker at h
  dsimp only at h
  rw [Function.update_apply] at h
  split at h
  · exact .inl ⟨‹_›, h⟩
  · exact .inr h

end Relay
