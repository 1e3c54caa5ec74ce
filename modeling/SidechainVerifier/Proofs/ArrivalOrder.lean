/-
SidechainVerifier.Proofs.ArrivalOrder — the order in which objects arrive.

Objects reach the queue one by one (`Submission`), in an order that differs
from node to node. The requests they come to are filed by hash, so those of
objects with different hashes can change places (`RequestSet.enter_comm`),
and with them the submissions (`Submission.enter_perm`). What remains of the
order are the instants at which requests were enqueued
(`Verifier.untimed`). A forced start does not read them and a hand-off
forgets them.

Main statement: submissions in any order, followed by a forced start, lead
to the same batch and from there to the same calls, notices and verdicts
(`Verifier.submitted_in_any_order`).
-/
import SidechainVerifier.Proofs.Guards
import SidechainVerifier.Proofs.WholeTransactions

namespace SidechainVerifier

open OrderedMap

/-! ## Filing requests -/

namespace RequestSet

/-- The set with a request, replacing one of the same identity. -/
def enter (s : RequestSet) : Request → RequestSet
  | .certificate r => s.insertCertificate r
  | .withdrawal r => s.insertWithdrawal r

/-- Requests of different objects can change places. -/
theorem enter_comm (s : RequestSet) {r r' : Request} (h : r.id.parent ≠ r'.id.parent) :
    (s.enter r).enter r' = (s.enter r').enter r := by
  cases r with
  | certificate r =>
    cases r' with
    | certificate r' =>
      have hne : r.hash ≠ r'.hash := h
      refine RequestSet.ext_get? (fun hash => ?_) fun hash => rfl
      simp only [enter, certificates_insertCertificate]
      by_cases heq : hash = r.hash
      · simp [heq, hne]
      · simp [heq]
    | withdrawal r' => rfl
  | withdrawal r =>
    cases r' with
    | certificate r' => rfl
    | withdrawal r' =>
      have hne : r.transactionHash ≠ r'.transactionHash := h
      refine RequestSet.ext_get? (fun hash => rfl) fun hash => ?_
      simp only [enter, groups_insertWithdrawal]
      by_cases heq : hash = r.transactionHash
      · simp [heq, hne]
      · simp [heq]

theorem foldl_enter_comm (s : RequestSet) {r : Request} {rs : List Request}
    (h : ∀ r' ∈ rs, r.id.parent ≠ r'.id.parent) :
    rs.foldl enter (s.enter r) = (rs.foldl enter s).enter r := by
  induction rs generalizing s with
  | nil => rfl
  | cons r' rest ih =>
    obtain ⟨hfirst, hrest⟩ := List.forall_mem_cons.mp h
    rw [List.foldl_cons, List.foldl_cons, enter_comm s hfirst, ih _ hrest]

end RequestSet

/-! ## Submissions -/

/-- An object as it is handed to a verifier. -/
structure Submission where
  view : View
  subject : Subject
  origin : Option PeerId

namespace Submission

/-- The event of enqueueing the object. -/
def event (s : Submission) (now : Instant) : Event :=
  match s.subject with
  | .certificate certificate => .enqueueCertificate s.view certificate s.origin now
  | .transaction transaction => .enqueueTransaction s.view transaction s.origin now

/-- The requests the object comes to, unless it is refused. -/
def requests (s : Submission) : Except VerifierError (List Request) :=
  match s.subject with
  | .certificate certificate =>
    (certificate.request s.view s.origin).map fun r => [.certificate r]
  | .transaction transaction =>
    (transaction.requests s.view s.origin).map (·.map .withdrawal)

/-- Whether the object is enqueued. -/
def answer (s : Submission) : Response :=
  match s.requests with
  | .ok _ => .accepted
  | .error e => .refused e

/-- A set with the requests the object comes to. -/
def enter (pending : RequestSet) (s : Submission) : RequestSet :=
  (s.requests.toOption.getD []).foldl RequestSet.enter pending

theorem parent_of_mem_requests {s : Submission} {r : Request}
    (h : r ∈ s.requests.toOption.getD []) : r.id.parent = s.subject.hash := by
  obtain ⟨view, subject, origin⟩ := s
  cases subject with
  | certificate certificate =>
    cases hrequest : certificate.request view origin with
    | error e => simp [requests, hrequest, Except.map, Except.toOption] at h
    | ok r' =>
      obtain ⟨hhash, hcertificate, -⟩ := Certificate.request_eq_ok hrequest
      obtain rfl : r = .certificate r' := by
        simpa [requests, hrequest, Except.map, Except.toOption] using h
      exact hhash
  | transaction transaction =>
    cases hrequests : transaction.requests view origin with
    | error e => simp [requests, hrequests, Except.map, Except.toOption] at h
    | ok rs =>
      obtain ⟨r', hr', rfl⟩ : ∃ r' ∈ rs, .withdrawal r' = r := by
        simpa [requests, hrequests, Except.map, Except.toOption] using h
      exact ((Transaction.requests_eq_ok hrequests).2.2 r' hr').1

/-- Objects with different hashes can change places. -/
theorem enter_comm (pending : RequestSet) {s s' : Submission}
    (h : s.subject.hash ≠ s'.subject.hash) :
    enter (enter pending s) s' = enter (enter pending s') s := by
  have hparents : ∀ r ∈ s.requests.toOption.getD [], ∀ r' ∈ s'.requests.toOption.getD [],
      r.id.parent ≠ r'.id.parent := fun r hr r' hr' => by
    rwa [parent_of_mem_requests hr, parent_of_mem_requests hr']
  simp only [enter]
  generalize s.requests.toOption.getD [] = rs at hparents ⊢
  induction rs generalizing pending with
  | nil => rfl
  | cons r rest ih =>
    obtain ⟨hfirst, hrest⟩ := List.forall_mem_cons.mp hparents
    rw [List.foldl_cons, List.foldl_cons, ih _ hrest, RequestSet.foldl_enter_comm _ hfirst]

/-- Submissions of objects with different hashes can be put in any order. -/
theorem enter_perm (pending : RequestSet) {l l' : List Submission} (hperm : l.Perm l')
    (hdistinct : (l.map (·.subject.hash)).Nodup) :
    l.foldl enter pending = l'.foldl enter pending := by
  refine hperm.foldl_eq' (fun s hs s' hs' pending => ?_) pending
  by_cases h : s.subject.hash = s'.subject.hash
  · rw [List.inj_on_of_nodup_map hdistinct hs hs' h]
  · exact enter_comm pending h

end Submission

namespace Verifier

variable {v : Verifier}

/-- The verifier with other requests pending. -/
def withPending (v : Verifier) (p : Pending) : Verifier :=
  { v with queue := ⟨p, v.queue.inFlight⟩ }

/-- The verifier with other instants at which its pending requests were enqueued. -/
def retime (v : Verifier) (times : OrderedMap RequestId Instant) : Verifier :=
  v.withPending ⟨v.queue.pending.requests, times⟩

/-- The verifier without the instants at which its pending requests were enqueued. -/
def untimed (v : Verifier) : Verifier := v.retime .empty

theorem exists_enqueueWithdrawals (q : Queue) (rs : List WithdrawalRequest) (now : Instant) :
    ∃ times, q.enqueueWithdrawals rs now =
      ⟨⟨(rs.map Request.withdrawal).foldl RequestSet.enter q.pending.requests, times⟩,
        q.inFlight⟩ := by
  simp only [Queue.enqueueWithdrawals]
  generalize q.pending = p
  induction rs generalizing p with
  | nil => exact ⟨_, rfl⟩
  | cons r rest ih => exact ih (p.enqueueWithdrawal r now)

/-- An object is enqueued whatever the verifier is doing, and the requests it comes to do not depend
on the instant. -/
theorem handle?_submission (v : Verifier) (s : Submission) (now : Instant) :
    ∃ times, v.handle? (s.event now) =
      some (s.answer, v.withPending ⟨s.enter v.queue.pending.requests, times⟩) := by
  obtain ⟨view, subject, origin⟩ := s
  cases subject with
  | certificate certificate =>
    simp only [Submission.event, Submission.answer, Submission.enter, Submission.requests, handle?,
      enqueueCertificate]
    cases certificate.request view origin with
    | error e => exact ⟨_, rfl⟩
    | ok r => exact ⟨_, rfl⟩
  | transaction transaction =>
    simp only [Submission.event, Submission.answer, Submission.enter, Submission.requests, handle?,
      enqueueTransaction]
    cases transaction.requests view origin with
    | error e => exact ⟨_, rfl⟩
    | ok rs =>
      obtain ⟨times, htimes⟩ := exists_enqueueWithdrawals v.queue rs now
      exact ⟨times, congrArg (fun q => some (Response.accepted, { v with queue := q })) htimes⟩

theorem run?_submissions (v : Verifier) (l : List (Submission × Instant)) :
    ∃ times, v.run? (l.map fun e => e.1.event e.2) =
      some (l.map (·.1.answer), v.withPending
        ⟨(l.map Prod.fst).foldl Submission.enter v.queue.pending.requests, times⟩) := by
  induction l generalizing v with
  | nil => exact ⟨_, rfl⟩
  | cons e rest ih =>
    obtain ⟨times, hhandle⟩ := v.handle?_submission e.1 e.2
    obtain ⟨times', hrest⟩ := ih (v.withPending ⟨e.1.enter v.queue.pending.requests, times⟩)
    exact ⟨times', run?_cons_eq hhandle hrest⟩

/-! ## Instants that do not show -/

theorem stepped_consult_retime (v : Verifier) (times : OrderedMap RequestId Instant) (cycle : Cycle)
    (work : Consultation Results) :
    stepped ((v.retime times).consult cycle work) =
      ((stepped (v.consult cycle work)).1, (stepped (v.consult cycle work)).2.retime times) := by
  cases work <;> rfl

theorem stepped_dispatch_retime (v : Verifier) (times : OrderedMap RequestId Instant)
    (published : List DriverState) (cycle : Cycle) (dispatched : Nat)
    (deliveries : List Delivery) :
    stepped ((v.retime times).dispatch published cycle dispatched deliveries) =
      ((stepped (v.dispatch published cycle dispatched deliveries)).1,
        (stepped (v.dispatch published cycle dispatched deliveries)).2.retime times) := by
  cases deliveries <;> rfl

theorem handle?_submission_retime (v : Verifier) (times : OrderedMap RequestId Instant)
    (s : Submission) (now : Instant) :
    ∃ times', (v.retime times).handle? (s.event now) =
      (v.handle? (s.event now)).map fun p => (p.1, p.2.retime times') := by
  obtain ⟨times₁, h₁⟩ := (v.retime times).handle?_submission s now
  obtain ⟨times₂, h₂⟩ := v.handle?_submission s now
  refine ⟨times₁, ?_⟩
  rw [h₁, h₂]
  rfl

/-- Nothing but a start reads the instants. -/
theorem handle?_retime (v : Verifier) (times : OrderedMap RequestId Instant) {event : Event}
    (hstart : event.isStart = false) :
    ∃ times', (v.retime times).handle? event =
      (v.handle? event).map fun p => (p.1, p.2.retime times') := by
  cases event with
  | enqueueCertificate view certificate origin now =>
    exact v.handle?_submission_retime times ⟨view, .certificate certificate, origin⟩ now
  | enqueueTransaction view transaction origin now =>
    exact v.handle?_submission_retime times ⟨view, .transaction transaction, origin⟩ now
  | discardAll => exact ⟨times, rfl⟩
  | discard hash => exact ⟨times, rfl⟩
  | pause requested => exact ⟨times, rfl⟩
  | unpause guard =>
    refine ⟨times, ?_⟩
    simp only [handle?, unpause?, retime, withPending]
    cases v.gate.drop? guard <;> rfl
  | resetStats => exact ⟨times, rfl⟩
  | reset =>
    refine ⟨.empty, ?_⟩
    obtain ⟨_, _, _, _, _, _, cycle⟩ := v
    cases cycle <;> rfl
  | start force now => cases hstart
  | replyBatch reply =>
    refine ⟨times, ?_⟩
    simp only [handle?, replyBatch?, Option.map_bind, Function.comp_def]
    refine congrArg v.cycle.bind (funext fun cycle => ?_)
    split
    · exact congrArg some (v.stepped_consult_retime times cycle _)
    · rfl
  | replySingle reply =>
    refine ⟨times, ?_⟩
    simp only [handle?, replySingle?, Option.map_bind, Function.comp_def]
    refine congrArg v.cycle.bind (funext fun cycle => ?_)
    split
    · exact congrArg some (v.stepped_consult_retime times cycle _)
    · rfl
  | take =>
    refine ⟨times, ?_⟩
    simp only [handle?, take?, Option.map_bind, Function.comp_def]
    refine congrArg v.cycle.bind (funext fun cycle => ?_)
    split
    · exact congrArg some
        (stepped_dispatch_retime { v with queue := v.queue.take.2 } times _ cycle 0 _)
    · rfl
  | delivered timestamp =>
    refine ⟨times, ?_⟩
    simp only [handle?, delivered?, Option.map_bind, Function.comp_def]
    refine congrArg v.cycle.bind (funext fun cycle => ?_)
    split
    next dispatched current rest timestamp _ =>
      exact congrArg some
        (stepped_dispatch_retime (v.record current timestamp) times [] cycle _ _)
    next => rfl
    next => rfl

end Verifier

/-- The transition without the instants at which pending requests were enqueued. -/
def Transition.untimed (t : Transition) : Transition :=
  ⟨t.before.untimed, t.event, t.response, t.after.untimed⟩

namespace Verifier

variable {v : Verifier}

/-- As long as no cycle starts, the instants do not show. -/
theorem trace_retime (v : Verifier) (times : OrderedMap RequestId Instant) {events : List Event}
    (hstart : ∀ e ∈ events, e.isStart = false) :
    ((v.retime times).trace events).map Transition.untimed =
      (v.trace events).map Transition.untimed := by
  induction events generalizing v times with
  | nil => rfl
  | cons event rest ih =>
    obtain ⟨hevent, hrest⟩ := List.forall_mem_cons.mp hstart
    obtain ⟨times', hhandle⟩ := v.handle?_retime times hevent
    rw [trace, trace, hhandle]
    cases v.handle? event with
    | none => rfl
    | some p => exact congrArg (_ :: ·) (ih p.2 times' hrest)

/-! ## Forced starts -/

theorem kept_retime (v : Verifier) (times : OrderedMap RequestId Instant) :
    (v.retime times).kept = v.kept := by
  rw [kept_eq_filter, kept_eq_filter]
  rfl

/-- A hand-off forgets the instants. -/
theorem startBatch_retime (v : Verifier) (times : OrderedMap RequestId Instant) :
    (v.retime times).startBatch = v.startBatch := by
  have hcount : (v.retime times).purgedCount = v.purgedCount := rfl
  have hdrained : (v.retime times).drained = v.drained := by
    rw [drained, kept_retime, drained]
    rfl
  rw [startBatch, startBatch, kept_retime, hcount, hdrained]

/-- A forced start does not read the instants. Unless batches are held off, they are gone after
it. -/
theorem handle?_start_retime (hcycle : v.cycle = none) (times : OrderedMap RequestId Instant)
    (now now' : Instant) :
    ∃ response w w', v.handle? (.start true now) = some (response, w) ∧
      (v.retime times).handle? (.start true now') = some (response, w') ∧
      (v.gate.grantsSlot = false ∧ w' = w.retime times ∨ v.gate.grantsSlot = true ∧ w' = w) := by
  have hcycle' : (v.retime times).cycle = none := hcycle
  cases hslot : v.gate.grantsSlot with
  | false =>
    have hslot' : (v.retime times).gate.grantsSlot = false := hslot
    exact ⟨_, _, _, handle?_start_of_paused hcycle hslot true now,
      handle?_start_of_paused hcycle' hslot' true now', .inl ⟨rfl, rfl⟩⟩
  | true =>
    have hslot' : (v.retime times).gate.grantsSlot = true := hslot
    refine ⟨_, _, _, handle?_start_forced hcycle hslot now, ?_, .inr ⟨rfl, rfl⟩⟩
    rw [handle?_start_forced hcycle' hslot', startBatch_retime]
    rfl

/-! ## Any order -/

/-- Objects with different hashes are submitted in two orders, at whatever instants, and then a
cycle is forced. Every object gets the same answer in both. The forced starts get the same response,
and whatever happens then, every call, notice and outcome is the same in both, and so is everything
in the verifier before and after it: what is cached, what is evicted, what is counted. All that can
differ, if batches are held off, are the instants at which requests were enqueued. -/
theorem submitted_in_any_order (hcycle : v.cycle = none)
    {first second : List (Submission × Instant)}
    (hperm : (first.map Prod.fst).Perm (second.map Prod.fst))
    (hdistinct : (first.map (·.1.subject.hash)).Nodup) (now now' : Instant) :
    ∃ w w' response u u',
      v.run? (first.map fun e => e.1.event e.2) = some (first.map (·.1.answer), w) ∧
      v.run? (second.map fun e => e.1.event e.2) = some (second.map (·.1.answer), w') ∧
      w'.untimed = w.untimed ∧
      w.handle? (.start true now) = some (response, u) ∧
      w'.handle? (.start true now') = some (response, u') ∧
      u'.untimed = u.untimed ∧ (v.gate.grantsSlot = true → u' = u) ∧
      ∀ rest, (∀ e ∈ rest, e.isStart = false) →
        (u'.trace rest).map Transition.untimed = (u.trace rest).map Transition.untimed := by
  obtain ⟨times, hfirst⟩ := v.run?_submissions first
  obtain ⟨times', hsecond⟩ := v.run?_submissions second
  have hdistinct' : ((first.map Prod.fst).map (·.subject.hash)).Nodup := by
    rwa [List.map_map]
  rw [← Submission.enter_perm _ hperm hdistinct'] at hsecond
  -- The second verifier is the first one, but for the instants.
  set w := v.withPending
    ⟨(first.map Prod.fst).foldl Submission.enter v.queue.pending.requests, times⟩
  have hcycle' : w.cycle = none := hcycle
  obtain ⟨response, u, u', hstart, hstart', hend⟩ := handle?_start_retime hcycle' times' now now'
  refine ⟨w, w.retime times', response, u, u', hfirst, hsecond, rfl, hstart, hstart', ?_, ?_, ?_⟩
  · rcases hend with ⟨-, rfl⟩ | ⟨-, rfl⟩ <;> rfl
  · rcases hend with ⟨hslot, -⟩ | ⟨-, rfl⟩
    · intro hgrants
      rw [show v.gate.grantsSlot = false from hslot] at hgrants
      cases hgrants
    · exact fun _ => rfl
  · intro rest hrest
    rcases hend with ⟨-, rfl⟩ | ⟨-, rfl⟩
    · exact trace_retime u times' hrest
    · rfl

end Verifier

/-- The blank certificate. -/
def Submission.blank : Submission := ⟨.ofKey ⟨[]⟩, .certificate .blank, none⟩

/-- The transaction that withdraws from two sidechains. -/
def Submission.fromTwo : Submission := ⟨.withTwoEmptyKeys, .transaction .fromTwo, some ⟨1⟩⟩

/-- A certificate and a transaction are submitted in both orders; their three proofs are checked in
one batch. -/
theorem Verifier.submitted_in_any_order_two :
    ∃ v₀ w w' response u u', Verifier.new .default = .ok v₀ ∧
      v₀.run? [Submission.blank.event 0, Submission.fromTwo.event 1] =
        some ([.accepted, .accepted], w) ∧
      v₀.run? [Submission.fromTwo.event 5, Submission.blank.event 7] =
        some ([.accepted, .accepted], w') ∧
      w.queue.pending.enqueuedAt ≠ w'.queue.pending.enqueuedAt ∧ w'.untimed = w.untimed ∧
      w.handle? (.start true 2) = some (response, u) ∧
      w'.handle? (.start true 8) = some (response, u') ∧ u' = u ∧
      u.queue.inFlight.requests.length = 3 := by
  obtain ⟨v₀, hnew⟩ : ∃ v₀, Verifier.new .default = .ok v₀ := ⟨_, rfl⟩
  let first : List (Submission × Instant) := [(.blank, 0), (.fromTwo, 1)]
  let second : List (Submission × Instant) := [(.fromTwo, 5), (.blank, 7)]
  have hcycle : v₀.cycle = none := by
    cases hnew
    rfl
  have hslot : v₀.gate.grantsSlot = true := by
    cases hnew
    rfl
  have hanswers : Submission.blank.answer = .accepted ∧ Submission.fromTwo.answer = .accepted := by
    decide +kernel
  -- One evaluation for all that needs the two hashes, as they take long to compute.
  have hfacts : (first.map (·.1.subject.hash)).Nodup ∧
      (v₀.run? (first.map fun e => e.1.event e.2)).map (·.2.queue.pending.enqueuedAt) ≠
        (v₀.run? (second.map fun e => e.1.event e.2)).map (·.2.queue.pending.enqueuedAt) ∧
      ((v₀.run? (first.map fun e => e.1.event e.2)).bind fun run =>
        (run.2.handle? (.start true 2)).map fun last => last.2.queue.inFlight.requests.length) =
        some 3 := by
    cases hnew
    decide +kernel
  obtain ⟨hdistinct, htimes, hlength⟩ := hfacts
  have hperm : (first.map Prod.fst).Perm (second.map Prod.fst) := List.Perm.swap _ _ _
  obtain ⟨w, w', response, u, u', hfirst, hsecond, hsame, hstart, hstart', -, hend, -⟩ :=
    submitted_in_any_order hcycle hperm hdistinct 2 8
  rw [hfirst, hsecond] at htimes
  rw [hfirst, Option.bind_some, hstart] at hlength
  simp only [first, second, List.map_cons, List.map_nil, hanswers.1, hanswers.2] at hfirst hsecond
  exact ⟨v₀, w, w', response, u, u', hnew, hfirst, hsecond, fun heq => htimes (congrArg some heq),
    hsame, hstart, hstart', hend hslot, Option.some.inj hlength⟩

end SidechainVerifier
