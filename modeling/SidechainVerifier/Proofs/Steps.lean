/-
SidechainVerifier.Proofs.Steps — everything that one event can do.

`Verifier.Step` lists the ways in which an event is handled, each with the
response and with the verifier after it written out, and `step_of_handle?`
reads one of them off an answer of `handle?`. Whatever is said about runs is
shown by cases on it. `Replies.Allows` says which events agree with what a
backend may reply.
-/
import SidechainVerifier.Event
import SidechainVerifier.Proofs.Consultations
import SidechainVerifier.Proofs.Extractions

namespace SidechainVerifier

/-! ## What events bring in -/

namespace Event

/-- The request that comes of enqueueing a certificate. -/
def certificate? : Event → Option CertificateRequest
  | .enqueueCertificate view certificate origin _ => (certificate.request view origin).toOption
  | _ => none

/-- The requests that come of enqueueing a transaction. -/
def withdrawals : Event → List WithdrawalRequest
  | .enqueueTransaction view transaction origin _ =>
    (transaction.requests view origin).toOption.getD []
  | _ => []

/-- Whether a cycle starts. -/
def isStart : Event → Bool
  | .start _ _ => true
  | _ => false

theorem certificate?_eq_some {event : Event} {r : CertificateRequest}
    (h : event.certificate? = some r) :
    ∃ view certificate origin now, event = .enqueueCertificate view certificate origin now ∧
      certificate.request view origin = .ok r := by
  unfold certificate? at h
  split at h
  next view certificate origin now =>
    refine ⟨view, certificate, origin, now, rfl, ?_⟩
    cases hrequest : certificate.request view origin with
    | error e => simp [hrequest, Except.toOption] at h
    | ok r' => simpa [hrequest, Except.toOption] using h
  next => cases h

theorem mem_withdrawals {event : Event} {r : WithdrawalRequest} (h : r ∈ event.withdrawals) :
    ∃ view transaction origin now, event = .enqueueTransaction view transaction origin now ∧
      transaction.requests view origin = .ok event.withdrawals := by
  unfold withdrawals at h ⊢
  split at h
  next view transaction origin now =>
    refine ⟨view, transaction, origin, now, rfl, ?_⟩
    cases hrequests : transaction.requests view origin with
    | error e => simp [hrequests, Except.toOption] at h
    | ok rs => simp [Except.toOption]
  next => cases h

theorem certificate_hash {event : Event} {r : CertificateRequest}
    (h : event.certificate? = some r) : r.hash = r.certificate.hash := by
  obtain ⟨view, certificate, origin, now, rfl, hrequest⟩ := certificate?_eq_some h
  obtain ⟨hhash, hcertificate, -⟩ := Certificate.request_eq_ok hrequest
  rw [hhash, hcertificate]

theorem withdrawal_hash {event : Event} {r : WithdrawalRequest} (h : r ∈ event.withdrawals) :
    r.transactionHash = r.transaction.hash := by
  obtain ⟨view, transaction, origin, now, -, hrequests⟩ := mem_withdrawals h
  obtain ⟨-, -, hmembers⟩ := Transaction.requests_eq_ok hrequests
  obtain ⟨hhash, htransaction, -⟩ := hmembers r h
  rw [hhash, htransaction]

end Event

/-! ## Replies -/

/-- An event agrees with the replies that may come to what is awaited. -/
def Replies.Allows (replies : Replies) (need : Option Awaited) : Event → Prop
  | .replyBatch reply => ∀ call, need = some (.batch call) → replies.EndsBatch call reply
  | .replySingle reply => ∀ check, need = some (.single check) → replies.EndsSingle check reply
  | .delivered none => replies.torn
  | _ => True

/-- With nothing supposed about the backend, every event is possible. -/
theorem Replies.allows_free (need : Option Awaited) (event : Event) : free.Allows need event := by
  cases event with
  | replyBatch reply => cases reply <;> exact fun _ _ => trivial
  | replySingle reply => cases reply <;> exact fun _ _ => trivial
  | delivered timestamp => cases timestamp <;> trivial
  | _ => trivial

/-- A consultation goes on when an event brings the reply to its question. -/
inductive Consultation.Reply {α : Type} : Event → Consultation α → Consultation α → Prop
  | batch {call next reply} : Reply (.replyBatch reply) (.batch call next) (next reply)
  | single {check next reply} : Reply (.replySingle reply) (.single check next) (next reply)

theorem Consultation.Ensures.reply {replies : Replies} {post : Results → Prop} {event : Event}
    {work work' : Consultation Results} (h : work.Ensures replies post)
    (hreply : Reply event work work') {cycle : Cycle} (hstage : cycle.stage = .verifying work)
    (hallowed : replies.Allows (some cycle.awaited) event) : work'.Ensures replies post := by
  cases hreply with
  | batch => exact h _ (hallowed _ (by simp [Cycle.awaited, hstage]))
  | single => exact h _ (hallowed _ (by simp [Cycle.awaited, hstage]))

/-! ## Steps -/

/-- A cycle with some deliveries left to make, and how that leaves it. -/
def Cycle.proceed (cycle : Cycle) (dispatched : Nat) : List Delivery → Option Cycle × Progress
  | [] => (none, .finished (.completed cycle.removed cycle.verified dispatched))
  | current :: rest =>
    (some { cycle with stage := .dispatching dispatched current rest },
      .awaiting (.delivery current.notice))

theorem Cycle.proceed_eq_awaiting {cycle : Cycle} {dispatched : Nat} {deliveries : List Delivery}
    {need : Awaited} (h : (cycle.proceed dispatched deliveries).2 = .awaiting need) :
    (cycle.proceed dispatched deliveries).1.map Cycle.awaited = some need := by
  cases deliveries with
  | nil => cases h
  | cons current rest =>
    cases h
    rfl

namespace Verifier

/-- The pending requests that a start would hand off: those of objects without a cached verdict. -/
def kept (v : Verifier) : RequestSet := (v.queue.pending.purge v.cache.contains).2.requests

/-- The verifier with its pending requests purged and handed off. -/
def drained (v : Verifier) : Verifier :=
  { v with
    queue := ⟨.empty, v.queue.inFlight.absorb v.kept⟩
    stats := v.stats.recordRemoved (v.queue.pending.purge v.cache.contains).1 }

/-- An event takes a verifier to another, with a response. -/
inductive Step (v : Verifier) : Event → Response → Verifier → Prop
  | enqueueCertificate {view certificate origin now r}
      (h : certificate.request view origin = .ok r) :
      Step v (.enqueueCertificate view certificate origin now) .accepted
        { v with queue := v.queue.enqueueCertificate r now }
  | refuseCertificate {view certificate origin now e}
      (h : certificate.request view origin = .error e) :
      Step v (.enqueueCertificate view certificate origin now) (.refused e) v
  | enqueueTransaction {view transaction origin now rs}
      (h : transaction.requests view origin = .ok rs) :
      Step v (.enqueueTransaction view transaction origin now) .accepted
        { v with queue := v.queue.enqueueWithdrawals rs now }
  | refuseTransaction {view transaction origin now e}
      (h : transaction.requests view origin = .error e) :
      Step v (.enqueueTransaction view transaction origin now) (.refused e) v
  | discardAll : Step v .discardAll (.dropped v.discardAll.1) v.discardAll.2
  | discard {hash} : Step v (.discard hash) (.found (v.discard hash).1) (v.discard hash).2
  | pause {requested signal gate} :
      Step v (.pause requested) (.signalled signal) { v with gate := gate }
  | unpause {guard signal gate} :
      Step v (.unpause guard) (.signalled signal) { v with gate := gate }
  | unpauseNone {guard} : Step v (.unpause guard) (.found false) v
  | resetStats : Step v .resetStats .done v.resetStats
  | reset (hcycle : v.cycle = none) :
      Step v .reset .done { v with queue := .empty, cache := v.cache.clear, stats := .zero }
  /-- No limit is exceeded, or batches are held off. -/
  | idle {force now outcome} (hcycle : v.cycle = none)
      (houtcome : outcome = .notTriggered ∨ outcome = .paused) :
      Step v (.start force now) (.stepped [] (.finished outcome)) v
  /-- Nothing is left to verify. -/
  | purge {force now} (hcycle : v.cycle = none) (hkept : v.kept.requests = []) {outcome} :
      Step v (.start force now) (.stepped [.draining, .idle] (.finished outcome)) v.drained
  | handOff {force now} (hcycle : v.cycle = none) {cycle need}
      (hstage : cycle.stage = .verifying (BatchVerification.verify .strict v.kept.requests))
      (hneed : need = cycle.awaited) :
      Step v (.start force now) (.stepped [.draining, .verifying] (.awaiting need))
        { v.drained with cycle := some cycle }
  | consulted {event cycle work work'} (hcycle : v.cycle = some cycle)
      (hstage : cycle.stage = .verifying work) (hreply : Consultation.Reply event work work') {need}
      (hneed : need = Cycle.awaited { cycle with stage := .verifying work' }) :
      Step v event (.stepped [] (.awaiting need))
        { v with cycle := some { cycle with stage := .verifying work' } }
  | abandoned {event cycle work} (hcycle : v.cycle = some cycle)
      (hstage : cycle.stage = .verifying work)
      (hreply : Consultation.Reply event work .abandoned) :
      Step v event (.stepped [] .torn) { v with cycle := none }
  | take {cycle results published} (hcycle : v.cycle = some cycle)
      (hstage : cycle.stage = .verifying (.done results)) :
      Step v .take
        (.stepped published (cycle.proceed 0 (v.queue.inFlight.deliveries results)).2)
        { v with
          queue := ⟨v.queue.pending, .empty⟩
          cycle := (cycle.proceed 0 (v.queue.inFlight.deliveries results)).1 }
  | delivered {cycle dispatched current rest timestamp published} (hcycle : v.cycle = some cycle)
      (hstage : cycle.stage = .dispatching dispatched current rest) :
      Step v (.delivered (some timestamp))
        (.stepped published (cycle.proceed (dispatched + 1) rest).2)
        { v.record current timestamp with cycle := (cycle.proceed (dispatched + 1) rest).1 }
  /-- The listener's call was torn down. -/
  | undelivered {cycle dispatched current rest} (hcycle : v.cycle = some cycle)
      (hstage : cycle.stage = .dispatching dispatched current rest) :
      Step v (.delivered none) (.stepped [] .torn) { v with cycle := none }

theorem dispatch_eq (v : Verifier) (published : List DriverState) (cycle : Cycle)
    (dispatched : Nat) (deliveries : List Delivery) :
    ∃ published', v.dispatch published cycle dispatched deliveries =
      ⟨{ v with cycle := (cycle.proceed dispatched deliveries).1 }, published',
        (cycle.proceed dispatched deliveries).2⟩ := by
  cases deliveries with
  | nil => exact ⟨_, rfl⟩
  | cons current rest => exact ⟨_, rfl⟩

variable {v w : Verifier} {event : Event} {response : Response}

theorem finish_eq (hcycle : v.cycle = none) (published : List DriverState)
    (outcome : CycleOutcome) : v.finish published outcome = ⟨v, published, .finished outcome⟩ := by
  rw [finish, ← hcycle]

theorem step_of_start? {force : Bool} {now : Instant} {step : CycleStep}
    (h : v.start? force now = some step) :
    v.Step (.start force now) (.stepped step.published step.progress) step.verifier := by
  unfold start? at h
  split at h
  next => cases h
  next hcycle =>
    split at h
    · cases h
      rw [finish_eq hcycle]
      exact .idle hcycle (.inl rfl)
    · split at h
      · cases h
        rw [finish_eq hcycle]
        exact .idle hcycle (.inr rfl)
      · dsimp only at h
        split at h
        next hempty =>
          cases h
          rw [finish_eq (by exact hcycle)]
          exact .purge hcycle (List.isEmpty_iff.mp hempty)
        next =>
          cases h
          exact .handOff hcycle rfl rfl

theorem step_of_consult {cycle : Cycle} {work work' : Consultation Results}
    (hcycle : v.cycle = some cycle) (hstage : cycle.stage = .verifying work)
    (hreply : Consultation.Reply event work work') :
    v.Step event (.stepped (v.consult cycle work').published (v.consult cycle work').progress)
      (v.consult cycle work').verifier := by
  unfold consult
  split
  · exact .abandoned hcycle hstage hreply
  · exact .consulted hcycle hstage hreply rfl

theorem step_of_replyBatch? {reply : Option BatchReply} {step : CycleStep}
    (h : v.replyBatch? reply = some step) :
    v.Step (.replyBatch reply) (.stepped step.published step.progress) step.verifier := by
  obtain ⟨cycle, hcycle, h⟩ := Option.bind_eq_some_iff.mp h
  split at h
  next hstage =>
    cases h
    exact step_of_consult hcycle hstage .batch
  next => cases h

theorem step_of_replySingle? {reply : Option SingleReply} {step : CycleStep}
    (h : v.replySingle? reply = some step) :
    v.Step (.replySingle reply) (.stepped step.published step.progress) step.verifier := by
  obtain ⟨cycle, hcycle, h⟩ := Option.bind_eq_some_iff.mp h
  split at h
  next hstage =>
    cases h
    exact step_of_consult hcycle hstage .single
  next => cases h

theorem step_of_take? {step : CycleStep} (h : v.take? = some step) :
    v.Step .take (.stepped step.published step.progress) step.verifier := by
  obtain ⟨cycle, hcycle, h⟩ := Option.bind_eq_some_iff.mp h
  split at h
  next results hstage =>
    cases h
    obtain ⟨published, hdispatch⟩ := dispatch_eq { v with queue := ⟨v.queue.pending, .empty⟩ }
      [.dispatching] cycle 0 (v.queue.inFlight.deliveries results)
    rw [hdispatch]
    exact .take hcycle hstage
  next => cases h

theorem step_of_delivered? {timestamp : Option Int} {step : CycleStep}
    (h : v.delivered? timestamp = some step) :
    v.Step (.delivered timestamp) (.stepped step.published step.progress) step.verifier := by
  obtain ⟨cycle, hcycle, h⟩ := Option.bind_eq_some_iff.mp h
  cases hstage : cycle.stage with
  | verifying work => simp [hstage] at h
  | dispatching dispatched current rest =>
    cases timestamp with
    | none =>
      simp only [hstage, Option.some.injEq] at h
      cases h
      exact .undelivered hcycle hstage
    | some timestamp =>
      simp only [hstage, Option.some.injEq] at h
      cases h
      obtain ⟨published, hdispatch⟩ := dispatch_eq (v.record current timestamp) [] cycle
        (dispatched + 1) rest
      rw [hdispatch]
      exact .delivered hcycle hstage

/-- Every handled event is one of the steps. -/
theorem step_of_handle? (h : v.handle? event = some (response, w)) : v.Step event response w := by
  cases event with
  | enqueueCertificate view certificate origin now =>
    simp only [handle?, enqueued, Verifier.enqueueCertificate, bind, Except.bind, pure,
      Except.pure] at h
    cases hrequest : certificate.request view origin with
    | error e =>
      simp only [hrequest, Option.some.injEq, Prod.mk.injEq] at h
      obtain ⟨rfl, rfl⟩ := h
      exact .refuseCertificate hrequest
    | ok r =>
      simp only [hrequest, Option.some.injEq, Prod.mk.injEq] at h
      obtain ⟨rfl, rfl⟩ := h
      exact .enqueueCertificate hrequest
  | enqueueTransaction view transaction origin now =>
    simp only [handle?, enqueued, Verifier.enqueueTransaction, bind, Except.bind, pure,
      Except.pure] at h
    cases hrequests : transaction.requests view origin with
    | error e =>
      simp only [hrequests, Option.some.injEq, Prod.mk.injEq] at h
      obtain ⟨rfl, rfl⟩ := h
      exact .refuseTransaction hrequests
    | ok rs =>
      simp only [hrequests, Option.some.injEq, Prod.mk.injEq] at h
      obtain ⟨rfl, rfl⟩ := h
      exact .enqueueTransaction hrequests
  | discardAll =>
    cases h
    exact .discardAll
  | discard hash =>
    cases h
    exact .discard
  | pause requested =>
    cases h
    exact .pause
  | unpause guard =>
    simp only [handle?, unpause?] at h
    cases hdrop : v.gate.drop? guard with
    | none =>
      simp only [hdrop, Option.map_none, Option.some.injEq, Prod.mk.injEq] at h
      obtain ⟨rfl, rfl⟩ := h
      exact .unpauseNone
    | some dropped =>
      simp only [hdrop, Option.map_some, Option.some.injEq, Prod.mk.injEq] at h
      obtain ⟨rfl, rfl⟩ := h
      exact .unpause
  | resetStats =>
    cases h
    exact .resetStats
  | reset =>
    obtain ⟨_, hreset, h⟩ := Option.map_eq_some_iff.mp h
    cases h
    unfold reset? at hreset
    split at hreset
    next => cases hreset
    next hcycle =>
      cases hreset
      exact .reset hcycle
  | start force now =>
    obtain ⟨step, hstart, h⟩ := Option.map_eq_some_iff.mp h
    cases h
    exact step_of_start? hstart
  | replyBatch reply =>
    obtain ⟨step, hreply, h⟩ := Option.map_eq_some_iff.mp h
    cases h
    exact step_of_replyBatch? hreply
  | replySingle reply =>
    obtain ⟨step, hreply, h⟩ := Option.map_eq_some_iff.mp h
    cases h
    exact step_of_replySingle? hreply
  | take =>
    obtain ⟨step, htake, h⟩ := Option.map_eq_some_iff.mp h
    cases h
    exact step_of_take? htake
  | delivered timestamp =>
    obtain ⟨step, hdelivered, h⟩ := Option.map_eq_some_iff.mp h
    cases h
    exact step_of_delivered? hdelivered

/-! ## Events that step the cycle -/

/-- Only a start steps a cycle where there is none. -/
theorem Step.cycle_ne_none_of_stepped (h : v.Step event response w)
    {published : List DriverState} {progress : Progress}
    (hresponse : response = .stepped published progress) (hevent : event.isStart = false) :
    v.cycle ≠ none := by
  cases h with
  | idle _ _ => cases hevent
  | purge _ _ => cases hevent
  | handOff _ _ _ => cases hevent
  | consulted hcycle _ _ _ => simp [hcycle]
  | abandoned hcycle _ _ => simp [hcycle]
  | take hcycle _ => simp [hcycle]
  | delivered hcycle _ => simp [hcycle]
  | undelivered hcycle _ => simp [hcycle]
  | _ => cases hresponse

/-- An event that is not a step of the cycle leaves it alone. -/
theorem Step.cycle_eq_of_not_stepped (h : v.Step event response w)
    (hresponse : ∀ published progress, response ≠ .stepped published progress) :
    w.cycle = v.cycle := by
  cases h with
  | idle _ _ => exact absurd rfl (hresponse _ _)
  | purge _ _ => exact absurd rfl (hresponse _ _)
  | handOff _ _ _ => exact absurd rfl (hresponse _ _)
  | consulted _ _ _ _ => exact absurd rfl (hresponse _ _)
  | abandoned _ _ _ => exact absurd rfl (hresponse _ _)
  | take _ _ => exact absurd rfl (hresponse _ _)
  | delivered _ _ => exact absurd rfl (hresponse _ _)
  | undelivered _ _ => exact absurd rfl (hresponse _ _)
  | _ => rfl

/-- Nothing but a start brings a cycle about. -/
theorem Step.cycle_ne_none (h : v.Step event response w) (hevent : event.isStart = false)
    (hsome : w.cycle ≠ none) : v.cycle ≠ none := by
  cases response with
  | stepped published progress => exact h.cycle_ne_none_of_stepped rfl hevent
  | _ => rwa [← h.cycle_eq_of_not_stepped fun _ _ => Response.noConfusion]

end Verifier

end SidechainVerifier
