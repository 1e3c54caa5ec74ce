/-
SidechainVerifier.Proofs.Provenance — where the requests in a queue come
from.

Every request in the queue was extracted by an event of the run, and stands
under its own identity (`Run.known`). What is pending is more definite: a
certificate is pending as its last enqueue left it, and so is a transaction
as long as the transactions enqueued under its hash are of one length
(`Run.latest`).
-/
import SidechainVerifier.Proofs.Identity
import SidechainVerifier.Proofs.Runs

namespace SidechainVerifier

open OrderedMap

/-! ## Enqueueing events -/

namespace Event

/-- All requests that come of an event. -/
def requests (event : Event) : List Request :=
  event.certificate?.toList.map .certificate ++ event.withdrawals.map .withdrawal

/-- A certificate with a hash is enqueued. -/
def EnqueuesCertificate (hash : Hash) (event : Event) : Prop :=
  ∃ r, event.certificate? = some r ∧ r.hash = hash

/-- A transaction with a hash is enqueued. -/
def EnqueuesTransaction (hash : Hash) (event : Event) : Prop :=
  ∃ r ∈ event.withdrawals, r.transactionHash = hash

theorem certificate_mem_requests {event : Event} {r : CertificateRequest} :
    .certificate r ∈ event.requests ↔ event.certificate? = some r := by
  simp [requests]

theorem withdrawal_mem_requests {event : Event} {r : WithdrawalRequest} :
    .withdrawal r ∈ event.requests ↔ r ∈ event.withdrawals := by
  simp [requests]

theorem withdrawals_eq_nil {event : Event} {r : CertificateRequest}
    (h : event.certificate? = some r) : event.withdrawals = [] := by
  obtain ⟨_, _, _, _, rfl, -⟩ := certificate?_eq_some h
  rfl

theorem certificate?_eq_none {event : Event} (h : event.withdrawals ≠ []) :
    event.certificate? = none := by
  cases hr : event.certificate? with
  | none => rfl
  | some r => exact absurd (withdrawals_eq_nil hr) h

theorem requests_eq_nil_iff {event : Event} :
    event.requests = [] ↔ event.certificate? = none ∧ event.withdrawals = [] := by
  cases h : event.certificate? <;> simp [requests, h]

/-- All withdrawals of an event belong to one transaction. -/
theorem EnqueuesTransaction.transactionHash_eq {event : Event} {hash : Hash}
    (h : event.EnqueuesTransaction hash) {r : WithdrawalRequest} (hr : r ∈ event.withdrawals) :
    r.transactionHash = hash := by
  obtain ⟨r', hr', rfl⟩ := h
  obtain ⟨view, transaction, origin, now, -, hrequests⟩ := mem_withdrawals hr
  obtain ⟨-, -, hmembers⟩ := Transaction.requests_eq_ok hrequests
  rw [(hmembers r hr).1, (hmembers r' hr').1]

/-- The transactions enqueued under a hash take the same positions. -/
def SamePositions (hash : Hash) (events : List Event) : Prop :=
  ∀ e ∈ events, ∀ e' ∈ events, e.EnqueuesTransaction hash → e'.EnqueuesTransaction hash →
    e.withdrawals.map (·.position) = e'.withdrawals.map (·.position)

/-- The preimage of the object that is enqueued. -/
def preimages : Event → List Bytes
  | .enqueueCertificate _ certificate _ _ => [certificate.preimage]
  | .enqueueTransaction _ transaction _ _ => [transaction.preimage]
  | _ => []

theorem noCollisions_of_append {events rest : List Event}
    (h : NoCollisions ((events ++ rest).flatMap preimages)) :
    NoCollisions (events.flatMap preimages) :=
  h.mono fun x hx => by
    rw [List.flatMap_append]
    exact List.mem_append_left _ hx

/-- The withdrawals of a transaction that is enqueued can be counted in 64 bits. -/
def Fits : Event → Prop
  | .enqueueTransaction _ transaction _ _ => transaction.withdrawals.length < 2 ^ 64
  | _ => True

theorem EnqueuesTransaction.exists_transaction {event : Event} {hash : Hash}
    (h : event.EnqueuesTransaction hash) :
    ∃ view transaction origin now, event = .enqueueTransaction view transaction origin now ∧
      transaction.requests view origin = .ok event.withdrawals ∧ transaction.hash = hash := by
  obtain ⟨r, hr, rfl⟩ := h
  obtain ⟨view, transaction, origin, now, hevent, hrequests⟩ := mem_withdrawals hr
  obtain ⟨-, -, hmembers⟩ := Transaction.requests_eq_ok hrequests
  exact ⟨view, transaction, origin, now, hevent, hrequests, (hmembers r hr).1.symm⟩

/-- Without collisions, transactions under one hash are of one length. -/
theorem samePositions_of_noCollisions {events : List Event}
    (hfree : NoCollisions (events.flatMap preimages)) (hfits : ∀ e ∈ events, e.Fits)
    (hash : Hash) : SamePositions hash events := by
  intro e he e' he' henqueues henqueues'
  obtain ⟨_, t, _, _, hevent, hrequests, hhash⟩ := henqueues.exists_transaction
  obtain ⟨_, t', _, _, hevent', hrequests', hhash'⟩ := henqueues'.exists_transaction
  have hfit := hfits e he
  have hfit' := hfits e' he'
  rw [hevent] at hfit
  rw [hevent'] at hfit'
  have hlength : t.withdrawals.length = t'.withdrawals.length :=
    Transaction.length_eq_of_hash_eq hfit hfit' hfree
      (List.mem_flatMap.mpr ⟨e, he, by simp [hevent, preimages]⟩)
      (List.mem_flatMap.mpr ⟨e', he', by simp [hevent', preimages]⟩) (hhash.trans hhash'.symm)
  rw [(Transaction.requests_eq_ok hrequests).2.1, (Transaction.requests_eq_ok hrequests').2.1,
    hlength]

theorem SamePositions.mono {hash : Hash} {events events' : List Event}
    (h : SamePositions hash events') (hsub : events ⊆ events') : SamePositions hash events :=
  fun e he e' he' => h e (hsub he) e' (hsub he')

end Event

/-! ## Steps -/

namespace Verifier

/-- What an event can do to pending requests. -/
inductive PendingStep (q : Queue) (event : Event) : Pending → Prop
  | certificate {r now} (h : event.certificate? = some r) :
      PendingStep q event (q.enqueueCertificate r now).pending
  | transaction {now} (h : event.withdrawals ≠ []) :
      PendingStep q event (q.enqueueWithdrawals event.withdrawals now).pending
  | same (h : event.requests = []) : PendingStep q event q.pending
  | empty (h : event.requests = []) : PendingStep q event .empty

variable {replies : Replies} {v₀ v w : Verifier} {event : Event} {response : Response}

theorem requests_eq_nil_of_reply {α : Type} {work work' : Consultation α}
    (h : Consultation.Reply event work work') : event.requests = [] := by
  cases h <;> rfl

theorem Step.pending (h : v.Step event response w) :
    PendingStep v.queue event w.queue.pending := by
  cases h with
  | enqueueCertificate h => exact .certificate (by simp [Event.certificate?, h, Except.toOption])
  | refuseCertificate h =>
    exact .same (by simp [Event.requests, Event.certificate?, Event.withdrawals, h,
      Except.toOption])
  | @enqueueTransaction view transaction origin now rs h =>
    have hrs : (Event.enqueueTransaction view transaction origin now).withdrawals = rs := by
      simp [Event.withdrawals, h, Except.toOption]
    have hne : rs ≠ [] := (Transaction.requests_eq_ok h).1
    rw [← hrs] at hne ⊢
    exact .transaction hne
  | refuseTransaction h =>
    exact .same (by simp [Event.requests, Event.certificate?, Event.withdrawals, h,
      Except.toOption])
  | reset _ => exact .empty rfl
  | purge _ _ => exact .empty rfl
  | handOff _ _ _ => exact .empty rfl
  | consulted _ _ hreply _ => exact .same (requests_eq_nil_of_reply hreply)
  | abandoned _ _ hreply => exact .same (requests_eq_nil_of_reply hreply)
  | _ => exact .same rfl

/-- Only a start puts requests into flight. -/
theorem Step.inFlight (h : v.Step event response w) :
    w.queue.inFlight.RemainsOf v.queue.inFlight ∨
      event.isStart = true ∧ w.queue.inFlight = v.queue.inFlight.absorb v.kept := by
  cases h with
  | purge _ _ => exact .inr ⟨rfl, rfl⟩
  | handOff _ _ _ => exact .inr ⟨rfl, rfl⟩
  | discardAll => exact .inl (.empty _)
  | discard => exact .inl (.removeParent _ _)
  | reset _ => exact .inl (.empty _)
  | take _ _ => exact .inl (.empty _)
  | _ => exact .inl (.refl _)

theorem kept_remainsOf (v : Verifier) : v.kept.RemainsOf v.queue.pending.requests :=
  Pending.remainsOf_purge _ _

/-! ## Every request in the queue was extracted -/

end Verifier

/-- The requests of a set stand under their identities and came of some events. -/
structure RequestSet.Known (s : RequestSet) (events : List Event) : Prop where
  keyed : s.Keyed
  known : ∀ r ∈ s.requests, ∃ event ∈ events, r ∈ event.requests

namespace RequestSet.Known

variable {s t : RequestSet} {events events' : List Event}

theorem mono (h : s.Known events) (hsub : events ⊆ events') : s.Known events' where
  keyed := h.keyed
  known r hr := by
    obtain ⟨event, hevent, hmem⟩ := h.known r hr
    exact ⟨event, hsub hevent, hmem⟩

theorem of_remainsOf (h : t.Known events) (hs : s.RemainsOf t) : s.Known events :=
  ⟨hs.keyed h.keyed, fun r hr => h.known r (hs.mem_requests hr)⟩

theorem empty (events : List Event) : RequestSet.empty.Known events :=
  ⟨keyed_empty, fun r hr => by simp [requests, RequestSet.empty] at hr⟩

theorem absorb (hs : s.Known events) (ht : t.Known events) : (s.absorb t).Known events where
  keyed := hs.keyed.absorb ht.keyed
  known r hr := by
    rcases mem_requests_absorb hr with hr | hr
    · exact hs.known r hr
    · exact ht.known r hr

end RequestSet.Known

namespace Verifier

variable {replies : Replies} {config : Config} {v₀ v w : Verifier} {event : Event}
  {events : List Event} {responses : List Response}

theorem PendingStep.known {q : Queue} {p : Pending} (h : PendingStep q event p)
    (hq : q.pending.requests.Known events) : p.requests.Known (events ++ [event]) := by
  have hold : q.pending.requests.Known (events ++ [event]) :=
    hq.mono (List.subset_append_left _ _)
  cases h with
  | certificate hr =>
    refine ⟨hold.keyed.insertCertificate _, ?_⟩
    intro r' hr'
    rcases RequestSet.mem_requests_insertCertificate hr' with rfl | hr'
    · exact ⟨event, by simp, Event.certificate_mem_requests.mpr hr⟩
    · exact hold.known r' hr'
  | transaction _ =>
    refine ⟨Queue.keyed_enqueueWithdrawals hold.keyed _ _, ?_⟩
    intro r' hr'
    rcases Queue.mem_requests_enqueueWithdrawals hr' with hr' | hr'
    · exact ⟨event, by simp, List.mem_append_right _ hr'⟩
    · exact hold.known r' hr'
  | same _ => exact hold
  | empty _ => exact .empty _

theorem eq_of_new (h : Verifier.new config = .ok v₀) :
    v₀ = { config := config, limits := config.limits, queue := .empty,
           cache := .new config.cacheCapacity.toNat, stats := .zero, gate := .initial,
           cycle := none } := by
  simp only [Verifier.new, bind, Except.bind, pure, Except.pure] at h
  split at h
  · cases h
  · exact (Except.ok.inj h).symm

/-- Every request in the queue stands under its identity and came of an event of the run. -/
theorem Run.known (hnew : Verifier.new config = .ok v₀) (h : v₀.Run replies events responses v) :
    v.queue.pending.requests.Known events ∧ v.queue.inFlight.Known events := by
  induction h with
  | nil =>
    rw [eq_of_new hnew]
    exact ⟨.empty _, .empty _⟩
  | @concat events _ v event _ w _ _ hhandle ih =>
    have hstep := step_of_handle? hhandle
    refine ⟨hstep.pending.known ih.1, ?_⟩
    have hsub : events ⊆ events ++ [event] := List.subset_append_left _ _
    rcases hstep.inFlight with hremains | ⟨-, habsorb⟩
    · exact (ih.2.mono hsub).of_remainsOf hremains
    · rw [habsorb]
      exact (ih.2.mono hsub).absorb ((ih.1.mono hsub).of_remainsOf (kept_remainsOf v))

end Verifier

/-! ## What is pending stands as it was last enqueued -/

/-- The objects of a set stand as they were last enqueued. -/
structure RequestSet.Latest (s : RequestSet) (events : List Event) : Prop where
  certificate : ∀ {hash r}, s.certificates.get? hash = some r →
    ∃ event, LastOf (·.EnqueuesCertificate hash) event events ∧ event.certificate? = some r
  group : ∀ {hash group}, Event.SamePositions hash events → s.groups.get? hash = some group →
    ∃ event, LastOf (·.EnqueuesTransaction hash) event events ∧
      group = Queue.groupOf event.withdrawals

theorem RequestSet.Latest.of_remainsOf {s t : RequestSet} {events : List Event}
    (h : t.Latest events) (hs : s.RemainsOf t) : s.Latest events where
  certificate hget := h.certificate (hs.certificate hget)
  group hsame hgroup := h.group hsame (hs.group hgroup)

theorem RequestSet.Latest.empty (events : List Event) : RequestSet.empty.Latest events where
  certificate h := by simp [RequestSet.empty] at h
  group _ h := by simp [RequestSet.empty] at h

namespace Verifier

variable {replies : Replies} {config : Config} {v₀ v w : Verifier} {event : Event}
  {events : List Event} {responses : List Response}

private theorem latest_certificate_concat {s : RequestSet} (hs : s.Latest events) {hash : Hash}
    {r : CertificateRequest} (hget : s.certificates.get? hash = some r)
    (hne : ¬event.EnqueuesCertificate hash) :
    ∃ e, LastOf (·.EnqueuesCertificate hash) e (events ++ [event]) ∧ e.certificate? = some r := by
  obtain ⟨e, he, her⟩ := hs.certificate hget
  exact ⟨e, he.concat hne, her⟩

private theorem latest_group_concat {s : RequestSet} (hs : s.Latest events) {hash : Hash}
    {group : OrderedMap UInt32 WithdrawalRequest}
    (hsame : Event.SamePositions hash (events ++ [event]))
    (hgroup : s.groups.get? hash = some group) (hne : ¬event.EnqueuesTransaction hash) :
    ∃ e, LastOf (·.EnqueuesTransaction hash) e (events ++ [event]) ∧
      group = Queue.groupOf e.withdrawals := by
  obtain ⟨e, he, heq⟩ := hs.group (hsame.mono (List.subset_append_left _ _)) hgroup
  exact ⟨e, he.concat hne, heq⟩

theorem PendingStep.latest {q : Queue} {p : Pending} (h : PendingStep q event p)
    (hq : q.pending.requests.Latest events) : p.requests.Latest (events ++ [event]) := by
  cases h with
  | @certificate r now hr =>
    refine ⟨fun {hash r'} hget => ?_, fun hsame hgroup => ?_⟩
    · rw [Queue.enqueueCertificate, Pending.enqueueCertificate,
        RequestSet.certificates_insertCertificate] at hget
      split at hget
      next hhash =>
        cases hget
        exact ⟨event, .concat_self ⟨r, hr, hhash.symm⟩, hr⟩
      next hhash =>
        refine latest_certificate_concat hq hget ?_
        rintro ⟨r'', hr'', rfl⟩
        rw [hr] at hr''
        cases hr''
        exact hhash rfl
    · refine latest_group_concat hq hsame hgroup ?_
      rintro ⟨r', hr', -⟩
      simp [Event.withdrawals_eq_nil hr] at hr'
  | @transaction now hne =>
    refine ⟨fun hget => ?_, fun {hash group} hsame hgroup => ?_⟩
    · rw [Queue.certificates_enqueueWithdrawals] at hget
      refine latest_certificate_concat hq hget ?_
      rintro ⟨r, hr, -⟩
      exact hne (Event.withdrawals_eq_nil hr)
    · by_cases henqueues : event.EnqueuesTransaction hash
      · refine ⟨event, .concat_self henqueues, ?_⟩
        rw [Queue.groups_enqueueWithdrawals q now hne fun r hr =>
          henqueues.transactionHash_eq hr] at hgroup
        -- The transaction may have been pending already, at the same positions.
        cases hold : q.pending.requests.groups.get? hash with
        | none => simpa [hold] using hgroup.symm
        | some old =>
          obtain ⟨e, he, rfl⟩ := hq.group (hsame.mono (List.subset_append_left _ _)) hold
          have hpositions := hsame e (by simp [he.mem]) event (by simp) he.holds henqueues
          rw [hold, Option.getD_some, Queue.union_groupOf hpositions] at hgroup
          exact (Option.some.inj hgroup).symm
      · rw [Queue.groups_enqueueWithdrawals_of_ne q now fun r hr hhash =>
          henqueues ⟨r, hr, hhash⟩] at hgroup
        exact latest_group_concat hq hsame hgroup henqueues
  | same hnil =>
    obtain ⟨hcertificate, hwithdrawals⟩ := Event.requests_eq_nil_iff.mp hnil
    refine ⟨fun hget => ?_, fun hsame hgroup => ?_⟩
    · exact latest_certificate_concat hq hget (by simp [Event.EnqueuesCertificate, hcertificate])
    · exact latest_group_concat hq hsame hgroup
        (by simp [Event.EnqueuesTransaction, hwithdrawals])
  | empty _ => exact .empty _

/-- What is pending stands as it was last enqueued. -/
theorem Run.latest (hnew : Verifier.new config = .ok v₀) (h : v₀.Run replies events responses v) :
    v.queue.pending.requests.Latest events := by
  induction h with
  | nil =>
    rw [eq_of_new hnew]
    exact .empty _
  | concat _ _ hhandle ih => exact (step_of_handle? hhandle).pending.latest ih

end Verifier

end SidechainVerifier
