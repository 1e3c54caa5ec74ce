/-
SidechainVerifier.Proofs.CompletedCycles — what a completed cycle has told,
and what it leaves behind.

A cycle tells the listener of the objects that were pending at its start
without a cached verdict, and that were not dropped before the batch was
taken out of flight: of each once, certificates first, by hash, as it was
last enqueued before the start. What is left in flight by an earlier cycle
that was torn down is not told of (`deliveries_batch`). After the batch was
taken nothing can be dropped, and what is enqueued during the cycle is
pending at its end.
-/
import SidechainVerifier.Proofs.Courses
import SidechainVerifier.Proofs.Notices

namespace SidechainVerifier

open OrderedMap

/-! ## Leftovers are not told of -/

namespace RequestSet

variable {old kept : RequestSet} {results : Results} {good : Check → Verdict → Prop} {hash : Hash}

/-- There is no verdict on a certificate that was not handed off. -/
theorem delivery?_eq_none_of_leftover (hkept : kept.Keyed) (h : results.Judge good kept.requests)
    {r : CertificateRequest} (hr : r.hash = hash) (hnone : kept.certificates.get? hash = none) :
    r.delivery? results = none := by
  have hverdict : results.verdict r.id = .unknown := by
    by_contra hne
    rw [CertificateRequest.id, hr] at hne
    obtain ⟨r', hr'⟩ := certificate_of_verdict hkept h hne
    rw [hnone] at hr'
    cases hr'
  rw [CertificateRequest.delivery?, hverdict]
  rfl

/-- There is no verdict on a transaction that was not handed off. -/
theorem transactionDelivery?_eq_none_of_leftover (hkept : kept.Keyed)
    (h : results.Judge good kept.requests) (group : OrderedMap UInt32 WithdrawalRequest)
    (hnone : kept.groups.get? hash = none) : transactionDelivery? hash group results = none := by
  have hverdict (r : WithdrawalRequest) :
      results.verdict (.withdrawal hash r.position) = .unknown := by
    by_contra hne
    obtain ⟨group', _, hgroup', -⟩ := withdrawal_of_verdict hkept h hne
    rw [hnone] at hgroup'
    cases hgroup'
  cases hd : transactionDelivery? hash group results with
  | none => rfl
  | some d =>
    obtain ⟨first, rest, hvalues, hd⟩ := transactionDelivery?_eq_some hd
    have hcombine : Verdict.combine
        (group.values.map fun r => results.verdict (.withdrawal hash r.position)) = .unknown := by
      simp [hverdict, hvalues, Verdict.combine]
    rw [hcombine] at hd
    cases hd

/-- As long as what was in flight is replaced by what is handed off under the same hash, the rest of
it changes nothing in the deliveries. -/
theorem deliveries_absorb (hold : old.Keyed) (hkept : kept.Keyed)
    (h : results.Judge good kept.requests)
    (hreplaced : ∀ {hash group}, kept.groups.get? hash = some group →
      ((old.groups.get? hash).getD .empty).union group = group) (p : Hash → Bool) :
    ((old.absorb kept).filter p).deliveries results = (kept.filter p).deliveries results := by
  rw [deliveries_eq, deliveries_eq]
  congr 1
  · refine filterMap_entries_congr (f := fun _ (r : CertificateRequest) => r.delivery? results) ?_
    intro hash
    rw [certificates_filter, certificates_filter, certificates_absorb]
    cases hp : p hash with
    | false => simp
    | true =>
      cases hnew : kept.certificates.get? hash with
      | some r => simp
      | none =>
        cases hget : old.certificates.get? hash with
        | none => simp
        | some r => simp [delivery?_eq_none_of_leftover hkept h (hold.certificate hget) hnew]
  · refine filterMap_entries_congr (f := fun hash group => transactionDelivery? hash group results) ?_
    intro hash
    rw [groups_filter, groups_filter, groups_absorb]
    cases hp : p hash with
    | false => simp
    | true =>
      cases hnew : kept.groups.get? hash with
      | some group => simp [hreplaced hnew]
      | none =>
        cases hget : old.groups.get? hash with
        | none => simp
        | some group => simp [transactionDelivery?_eq_none_of_leftover hkept h group hnew]

end RequestSet

/-! ## What a cycle tells -/

/-- A notice is about the certificate of the last enqueue of its hash, with the origin given
there. -/
def Notice.OfLastCertificate (notice : Notice) (events : List Event) : Prop :=
  ∃ view certificate origin now,
    LastOf (·.EnqueuesCertificate notice.subject.hash)
      (.enqueueCertificate view certificate origin now) events ∧
    notice.subject = .certificate certificate ∧ notice.origin = origin

/-- A notice is about the transaction of the last enqueue of its hash, with the origin given
there. -/
def Notice.OfLastTransaction (notice : Notice) (events : List Event) : Prop :=
  ∃ view transaction origin now,
    LastOf (·.EnqueuesTransaction notice.subject.hash)
      (.enqueueTransaction view transaction origin now) events ∧
    notice.subject = .transaction transaction ∧ notice.origin = origin

namespace RequestSet

variable {s : RequestSet} {results : Results} {d : Delivery} {events : List Event}

theorem Latest.ofLastCertificate (hs : s.Latest events) (hkeyed : s.Keyed)
    (hd : d ∈ s.certificateDeliveries results) :
    d.notice.subject.hash = d.hash ∧ d.notice.OfLastCertificate events := by
  obtain ⟨e, he, hd⟩ := List.mem_filterMap.mp hd
  have hget := (mem_entries_iff _ _ _).mp he
  obtain ⟨event, hlast, hevent⟩ := hs.certificate hget
  obtain ⟨view, certificate, origin, now, rfl, hrequest⟩ := Event.certificate?_eq_some hevent
  obtain ⟨hhash, hcertificate, horigin⟩ := Certificate.request_eq_ok hrequest
  obtain ⟨hsubject, hdhash, -⟩ := Delivery.of?_eq_some hd
  have hnotice : d.notice.subject.hash = e.1 := by
    rw [hsubject, hcertificate, ← hkeyed.certificate hget, hhash]
    rfl
  refine ⟨by rw [hnotice, hdhash, hkeyed.certificate hget], view, certificate, origin, now, ?_, ?_, ?_⟩
  · rwa [hnotice]
  · rw [hsubject, hcertificate]
  · rw [Delivery.origin_of? hd, horigin]

theorem Latest.ofLastTransaction (hs : s.Latest events)
    (hsame : ∀ hash, Event.SamePositions hash events) (hd : d ∈ s.transactionDeliveries results) :
    d.notice.subject.hash = d.hash ∧ d.notice.OfLastTransaction events := by
  obtain ⟨e, he, hd⟩ := List.mem_filterMap.mp hd
  have hget := (mem_entries_iff _ _ _).mp he
  obtain ⟨event, hlast, hgroup⟩ := hs.group (hsame _) hget
  obtain ⟨view, transaction, origin, now, rfl, hrequests, hhash⟩ := hlast.holds.exists_transaction
  obtain ⟨first, rest, hvalues, hd⟩ := transactionDelivery?_eq_some hd
  obtain ⟨hsubject, hdhash, -⟩ := Delivery.of?_eq_some hd
  have hfirst : first ∈ (Event.enqueueTransaction view transaction origin now).withdrawals :=
    Queue.mem_of_mem_values_groupOf (hgroup ▸ hvalues ▸ List.mem_cons_self)
  obtain ⟨-, htransaction, horigin⟩ := (Transaction.requests_eq_ok hrequests).2.2 first hfirst
  have hnotice : d.notice.subject.hash = e.1 := by
    rw [hsubject, htransaction, ← hhash]
    rfl
  refine ⟨by rw [hnotice, hdhash], view, transaction, origin, now, ?_, ?_, ?_⟩
  · rwa [hnotice]
  · rw [hsubject, htransaction]
  · rw [Delivery.origin_of? hd, horigin]

end RequestSet

namespace Verifier

variable {config : Config} {v₀ u v w : Verifier} {before during events : List Event} {event : Event}
  {force : Bool} {now : Instant} {response : Response} {responses responses₀ : List Response}
  {results : Results}

/-- A cycle started from `u` takes the object out of flight, if it is pending: its verdict is not
cached, and it is not dropped before. -/
def takes (u : Verifier) (during : List Event) (hash : Hash) : Bool :=
  !u.cache.contains hash && Event.spared (Event.beforeTake during) hash

/-- What a start hands off is what is pending without a cached verdict. -/
theorem kept_eq_filter (u : Verifier) :
    u.kept = u.queue.pending.requests.filter fun hash => !u.cache.contains hash := by
  refine RequestSet.ext_get? (fun hash => ?_) fun hash => ?_
  · rw [kept, Pending.certificates_purge, RequestSet.certificates_filter]
    cases u.cache.contains hash <;> rfl
  · rw [kept, Pending.groups_purge, RequestSet.groups_filter]
    cases u.cache.contains hash <;> rfl

theorem kept_filter_eq (u : Verifier) (during : List Event) :
    u.kept.filter (Event.spared (Event.beforeTake during)) =
      u.queue.pending.requests.filter (u.takes during) := by
  rw [kept_eq_filter, RequestSet.filter_filter]
  rfl

section

variable (hnew : Verifier.new config = .ok v₀) (hbefore : v₀.run? before = some (responses₀, u))
  (hfree : NoCollisions (before.flatMap Event.preimages))

include hnew hbefore hfree

/-- What a cycle delivers are the deliveries for what it was handed and took. -/
theorem deliveries_batch (hfits : ∀ e ∈ before, e.Fits) (hresults : u.Judges results)
    (during : List Event) :
    (u.batch during).deliveries results =
      (u.queue.pending.requests.filter (u.takes during)).deliveries results := by
  have hrun := run_free hbefore
  obtain ⟨hpending, hflight⟩ := hrun.known hnew
  have hkept := kept_remainsOf u
  -- A group in flight has the positions of the one that replaces it, as equal hashes mean equal
  -- transactions, so the union of both is the new one.
  have hsame := Event.samePositions_of_noCollisions hfree hfits
  rw [← kept_filter_eq, batch]
  refine RequestSet.deliveries_absorb hflight.keyed (hkept.keyed hpending.keyed) hresults ?_ _
  intro hash group hgroup
  obtain ⟨event, hlast, rfl⟩ := ((hrun.latest hnew).of_remainsOf hkept).group (hsame hash) hgroup
  exact union_of_known hflight (hsame hash) hlast.mem hlast.holds

/-- The deliveries for what a cycle took tell of every object once, by hash, as it was last
enqueued. -/
theorem notices_of_deliveries (hfits : ∀ e ∈ before, e.Fits) (hresults : u.Judges results)
    {told : List Notice}
    (htold : told = ((u.batch during).deliveries results).map (·.notice)) :
    ∃ certificates transactions, told = certificates ++ transactions ∧
      certificates.map (·.subject.hash) =
        u.queue.pending.requests.certificates.keys.filter (u.takes during) ∧
      transactions.map (·.subject.hash) =
        u.queue.pending.requests.groups.keys.filter (u.takes during) ∧
      (∀ notice ∈ certificates, notice.OfLastCertificate before) ∧
      ∀ notice ∈ transactions, notice.OfLastTransaction before := by
  have hrun := run_free hbefore
  have hpending := (hrun.known hnew).1.keyed
  have hsame := Event.samePositions_of_noCollisions hfree hfits
  have htaken : (u.queue.pending.requests.filter (u.takes during)).RemainsOf u.kept :=
    kept_filter_eq u during ▸ RequestSet.remainsOf_filter _ _
  have hkeyed := htaken.keyed ((kept_remainsOf u).keyed hpending)
  have hlatest := (hrun.latest hnew).of_remainsOf (htaken.trans (kept_remainsOf u))
  have hresolved : ∀ r ∈ (u.queue.pending.requests.filter (u.takes during)).requests,
      results.verdict r.id ≠ .unknown := fun r hr => (hresults.resolved (htaken.mem_requests hr)).1
  rw [deliveries_batch hnew hbefore hfree hfits hresults, RequestSet.deliveries_eq,
    List.map_append] at htold
  refine ⟨_, _, htold, ?_, ?_, ?_, ?_⟩
  · rw [← keys_filter, List.map_map]
    refine Eq.trans ?_ (RequestSet.map_hash_certificateDeliveries hkeyed hresolved)
    exact List.map_congr_left fun d hd => (hlatest.ofLastCertificate hkeyed hd).1
  · rw [← keys_filter, List.map_map]
    refine Eq.trans ?_ (RequestSet.map_hash_transactionDeliveries hkeyed hresolved)
    exact List.map_congr_left fun d hd => (hlatest.ofLastTransaction hsame hd).1
  · rw [List.forall_mem_map]
    exact fun d hd => (hlatest.ofLastCertificate hkeyed hd).2
  · rw [List.forall_mem_map]
    exact fun d hd => (hlatest.ofLastTransaction hsame hd).2

end

/-! ## After the batch was taken -/

/-- Nothing is in flight any more, as long as no cycle starts. -/
theorem inFlight_eq_empty (hempty : v.queue.inFlight = .empty)
    (hstart : ∀ e ∈ events, e.isStart = false) {t : Transition} (ht : t ∈ v.trace events) :
    t.before.queue.inFlight = .empty := by
  induction events generalizing v with
  | nil => cases ht
  | cons event rest ih =>
    unfold trace at ht
    split at ht
    · cases ht
    next response w hhandle =>
      rcases List.mem_cons.mp ht with rfl | ht
      · exact hempty
      · refine ih ?_ (fun e he => hstart e (List.mem_cons_of_mem _ he)) ht
        rcases (step_of_handle? hhandle).inFlight with hremains | ⟨hevent, -⟩
        · rw [hempty] at hremains
          exact hremains.eq_empty
        · rw [hstart event List.mem_cons_self] at hevent
          cases hevent

theorem Step.inFlight_of_take (h : v.Step .take response w) : w.queue.inFlight = .empty := by
  cases h with
  | take _ _ => rfl
  | consulted _ _ hreply _ => cases hreply
  | abandoned _ _ hreply => cases hreply

theorem discardAll_of_empty (hempty : v.queue.inFlight = .empty) : v.discardAll = (0, v) := by
  obtain ⟨config, limits, ⟨pending, inFlight⟩, cache, stats, gate, cycle⟩ := v
  cases hempty
  simp [Verifier.discardAll, Queue.discardAll, RequestSet.parentCount, RequestSet.certificateCount,
    RequestSet.transactionCount, RequestSet.empty, Stats.recordDiscarded, OrderedMap.size]

theorem discard_of_empty (hempty : v.queue.inFlight = .empty) (hash : Hash) :
    v.discard hash = (false, v) := by
  obtain ⟨config, limits, ⟨pending, inFlight⟩, cache, stats, gate, cycle⟩ := v
  cases hempty
  rfl

theorem handle?_of_mem_trace {t : Transition} (ht : t ∈ v.trace events) :
    t.before.handle? t.event = some (t.response, t.after) := by
  obtain ⟨before, after, htrace⟩ := List.append_of_mem ht
  obtain ⟨_, _, _, -, -, hhandle, -⟩ := trace_eq_append htrace
  exact hhandle

/-- Once the batch is taken out of flight, nothing can be dropped in the cycle. -/
theorem drops_nothing_after_take (hstart : ∀ e ∈ during, e.isStart = false)
    {earlier later : List Transition} {taking : Transition}
    (htrace : u.trace (.start force now :: during) = earlier ++ taking :: later)
    (htaking : taking.event = .take) {t : Transition} (ht : t ∈ later) :
    (t.event = .discardAll → t.response = .dropped 0 ∧ t.after = t.before) ∧
      ∀ hash, t.event = .discard hash → t.response = .found false ∧ t.after = t.before := by
  obtain ⟨events₁, rest, _, hevents, -, hhandle, rfl⟩ := trace_eq_append htrace
  have hrest : ∀ e ∈ rest, e.isStart = false := by
    intro e he
    refine hstart e ?_
    rw [htaking] at hevents
    cases events₁ with
    | nil => cases hevents
    | cons _ events₁ =>
      obtain ⟨-, rfl⟩ := List.cons.inj hevents
      exact List.mem_append_right _ (List.mem_cons_of_mem _ he)
  have htaken : taking.after.queue.inFlight = .empty := by
    rw [htaking] at hhandle
    exact (step_of_handle? hhandle).inFlight_of_take
  have hempty := inFlight_eq_empty htaken hrest ht
  have hhandle' := handle?_of_mem_trace ht
  constructor
  · intro hevent
    rw [hevent, handle?, discardAll_of_empty hempty] at hhandle'
    obtain ⟨hresponse, hafter⟩ := Prod.mk.inj (Option.some.inj hhandle')
    exact ⟨hresponse.symm, hafter.symm⟩
  · intro hash hevent
    rw [hevent, handle?, discard_of_empty hempty] at hhandle'
    obtain ⟨hresponse, hafter⟩ := Prod.mk.inj (Option.some.inj hhandle')
    exact ⟨hresponse.symm, hafter.symm⟩

/-! ## Completed cycles -/

theorem Step.cycle_eq_none_of_finished {published : List DriverState} {outcome : CycleOutcome}
    (h : v.Step event response w) (hresponse : response = .stepped published (.finished outcome)) :
    w.cycle = none := by
  cases h with
  | idle hnone _ => exact hnone
  | purge hnone _ => exact hnone
  | handOff _ _ _ => cases hresponse
  | consulted _ _ _ _ => cases hresponse
  | @take cycle results _ _ _ =>
    generalize v.queue.inFlight.deliveries results = deliveries at hresponse ⊢
    cases deliveries with
    | nil => rfl
    | cons current rest => cases hresponse
  | @delivered cycle dispatched current rest timestamp _ _ _ =>
    cases rest with
    | nil => rfl
    | cons next rest => cases hresponse
  | abandoned _ _ _ => rfl
  | undelivered _ _ => rfl
  | _ => cases hresponse

theorem cycle_eq_none_of_getLast? {published : List DriverState} {outcome : CycleOutcome}
    (hrun : v.run? events = some (responses, w))
    (hlast : responses.getLast? = some (.stepped published (.finished outcome))) :
    w.cycle = none := by
  cases events using List.reverseRecOn with
  | nil =>
    cases hrun
    cases hlast
  | append_singleton events event =>
    obtain ⟨_, _, response, -, hhandle, rfl⟩ := exists_of_run?_concat hrun
    rw [List.getLast?_concat] at hlast
    exact (step_of_handle? hhandle).cycle_eq_none_of_finished (Option.some.inj hlast)

/-- A completed cycle has told of each object that it took from what was pending, certificates
first, by hash, as it was last enqueued before the start. Nothing could be dropped once the batch
was taken, and at the end the requests enqueued during the cycle are pending, and no others. -/
theorem completed_cycle (hnew : Verifier.new config = .ok v₀)
    (hbefore : v₀.run? before = some (responses₀, u))
    (hfree : NoCollisions (before.flatMap Event.preimages)) (hfits : ∀ e ∈ before, e.Fits)
    (hrun : u.run? (.start force now :: during) = some (responses, w))
    (hstart : ∀ e ∈ during, e.isStart = false) {published : List DriverState}
    {removed verified dispatched : Nat}
    (hlast : responses.getLast? =
      some (.stepped published (.finished (.completed removed verified dispatched)))) :
    (∃ certificates transactions,
      u.notices (.start force now :: during) = certificates ++ transactions ∧
      certificates.map (·.subject.hash) =
        u.queue.pending.requests.certificates.keys.filter (u.takes during) ∧
      transactions.map (·.subject.hash) =
        u.queue.pending.requests.groups.keys.filter (u.takes during) ∧
      (certificates.map (·.subject.hash)).Pairwise (fun hash hash' => compare hash hash' = .lt) ∧
      (transactions.map (·.subject.hash)).Pairwise (fun hash hash' => compare hash hash' = .lt) ∧
      (∀ notice ∈ certificates, notice.OfLastCertificate before) ∧
      ∀ notice ∈ transactions, notice.OfLastTransaction before) ∧
    (∀ earlier taking later, u.trace (.start force now :: during) = earlier ++ taking :: later →
      taking.event = .take → ∀ t ∈ later,
        (t.event = .discardAll → t.response = .dropped 0 ∧ t.after = t.before) ∧
          ∀ hash, t.event = .discard hash → t.response = .found false ∧ t.after = t.before) ∧
    ∀ id, w.queue.pending.requests.request? id = Event.lastRequest? during id := by
  have hunderway := underway_of_run? hnew hbefore hfree hrun hstart
    (.inr ⟨published, removed, verified, dispatched, hlast⟩)
  have hnone := cycle_eq_none_of_getLast? hrun hlast
  refine ⟨?_, fun _ _ _ htrace htaking _ ht => drops_nothing_after_take hstart htrace htaking ht,
    hunderway.pending⟩
  -- A cycle without anything to verify tells nothing, as a batch of nothing would.
  obtain ⟨results, hresults, htold⟩ : ∃ results, u.Judges results ∧
      u.notices (.start force now :: during) =
        ((u.batch during).deliveries results).map (·.notice) := by
    cases hunderway.course with
    | purged _ hkept htold =>
      have hkeyed := (kept_remainsOf u).keyed ((run_free hbefore).known hnew).1.keyed
      have hresults : u.Judges .empty := by
        rw [Judges, hkept]
        exact ⟨fun id => by simp [contains], by simp⟩
      refine ⟨.empty, hresults, ?_⟩
      rw [htold, deliveries_batch hnew hbefore hfree hfits hresults, ← kept_filter_eq,
        hkeyed.eq_empty hkept]
      rfl
    | verifying hcycle _ _ _ _ _ _ =>
      rw [hnone] at hcycle
      cases hcycle
    | @taken results hresults _ _ _ _ htold =>
      rw [outstanding_of_none hnone, List.tail_nil, List.map_nil, List.append_nil] at htold
      exact ⟨results, hresults, htold⟩
  obtain ⟨certificates, transactions, htold, hcertificates, htransactions, hlasts⟩ :=
    notices_of_deliveries hnew hbefore hfree hfits hresults htold
  refine ⟨certificates, transactions, htold, hcertificates, htransactions, ?_, ?_, hlasts⟩
  · rw [hcertificates]
    exact (OrderedMap.sorted_keys _).filter _
  · rw [htransactions]
    exact (OrderedMap.sorted_keys _).filter _

/-- The blank certificate is enqueued again while it is verified, and dropped when it is in flight no
more. -/
def reenqueueInFlight (key : VerificationKey) : List Event :=
  [.replyBatch (some (.ok ⟨true, []⟩)), .enqueueCertificate (.ofKey key) .blank none 1, .take,
    .discard Certificate.blank.hash, .delivered (some 0)]

/-- A cycle that verifies a blank certificate leaves it pending as it was enqueued meanwhile. -/
theorem completed_cycle_blank :
    ∃ v₀ responses₀ u responses w, Verifier.new .default = .ok v₀ ∧
      v₀.run? [.enqueueCertificate (.ofKey ⟨[0]⟩) .blank none 0] = some (responses₀, u) ∧
      u.run? (.start true 0 :: reenqueueInFlight ⟨[1]⟩) = some (responses, w) ∧
      responses.getLast? = some (.stepped [.idle] (.finished (.completed 0 1 1))) ∧
      (u.notices (.start true 0 :: reenqueueInFlight ⟨[1]⟩)).map (·.subject.hash) =
        [Certificate.blank.hash] ∧
      ∀ id, w.queue.pending.requests.request? id = Event.lastRequest? (reenqueueInFlight ⟨[1]⟩) id := by
  obtain ⟨v₀, hnew⟩ : ∃ v₀, Verifier.new .default = .ok v₀ := ⟨_, rfl⟩
  have hend : ((v₀.run? [.enqueueCertificate (.ofKey ⟨[0]⟩) .blank none 0]).bind fun run₀ =>
      (run₀.2.run? (.start true 0 :: reenqueueInFlight ⟨[1]⟩)).map fun run =>
        (run.1.getLast?,
          run₀.2.queue.pending.requests.certificates.keys.filter
            (run₀.2.takes (reenqueueInFlight ⟨[1]⟩)),
          run₀.2.queue.pending.requests.groups.keys)) =
      some (some (.stepped [.idle] (.finished (.completed 0 1 1))), [Certificate.blank.hash], []) := by
    cases hnew
    decide +kernel
  obtain ⟨⟨responses₀, u⟩, hbefore, hend⟩ := Option.bind_eq_some_iff.mp hend
  obtain ⟨⟨responses, w⟩, hrun, hend⟩ := Option.map_eq_some_iff.mp hend
  simp only [Prod.mk.injEq] at hend
  obtain ⟨hlast, htaken, hgroups⟩ := hend
  have hfits : ∀ e ∈ [Event.enqueueCertificate (.ofKey ⟨[0]⟩) .blank none 0], e.Fits := by
    intro e he
    rw [List.mem_singleton.mp he]
    trivial
  have hstart : ∀ e ∈ reenqueueInFlight ⟨[1]⟩, e.isStart = false := by
    intro e he
    simp only [reenqueueInFlight, List.mem_cons, List.not_mem_nil, or_false] at he
    rcases he with rfl | rfl | rfl | rfl | rfl <;> rfl
  obtain ⟨⟨certificates, transactions, htold, hcertificates, htransactions, -⟩, -, hpending⟩ :=
    completed_cycle hnew hbefore (noCollisions_singleton _) hfits hrun hstart hlast
  refine ⟨v₀, responses₀, u, responses, w, hnew, hbefore, hrun, hlast, ?_, hpending⟩
  rw [htold, List.map_append, hcertificates, htransactions, htaken, hgroups]
  rfl

end Verifier

end SidechainVerifier
