/-
SidechainVerifier.Proofs.Ledger — no object is lost, and none counted twice.

Along a trace, `Transition.admitted` lists the objects that came to be
pending, and `purged`, `discarded` and `notice?` what became of them. For
each hash the `load` of a verifier, which is what it still has to do, and
these lists are in balance: each step moves an object from one to the other
(`Run.step_balance`), so over a run they add up (`Run.balance`).

All calls are supposed to return. A cycle whose call is torn down leaves
what it had in flight, and forgets what it had taken.
-/
import SidechainVerifier.Proofs.Flights

namespace SidechainVerifier

open OrderedMap

/-! ## What happens to objects -/

namespace Transition

/-- The hash of the object that was enqueued, if the event was to enqueue one and succeeded. -/
def enqueued? (t : Transition) : Option Hash :=
  match t.event, t.response with
  | .enqueueCertificate _ certificate _ _, .accepted => some certificate.hash
  | .enqueueTransaction _ transaction _ _, .accepted => some transaction.hash
  | _, _ => none

/-- The hash of an object that was enqueued while it was not pending. -/
def admitted (t : Transition) : List Hash :=
  t.enqueued?.toList.filter fun hash => !t.before.queue.pending.requests.holds hash

/-- The hashes of pending objects that a start dropped because their verdict was cached. -/
def purged (t : Transition) : List Hash :=
  match t.event, t.response with
  | .start _ _, .stepped (.draining :: _) _ =>
    t.before.queue.pending.requests.parents.filter t.before.cache.contains
  | _, _ => []

/-- The hashes of objects that were dropped from flight. -/
def discarded (t : Transition) : List Hash :=
  match t.event, t.response with
  | .discardAll, _ => t.before.queue.inFlight.parents
  | .discard hash, .found true => [hash]
  | _, _ => []

/-- What the listener began to be told. -/
def notice? (t : Transition) : Option Notice :=
  match t.response with
  | .stepped _ (.awaiting (.delivery notice)) => some notice
  | _ => none

end Transition

/-- The deliveries that a cycle has still to make, after the one it is making. -/
def Cycle.undelivered (cycle : Cycle) : List Delivery :=
  match cycle.stage with
  | .verifying _ => []
  | .dispatching _ _ rest => rest

namespace Verifier

/-- The deliveries that the cycle in progress has still to make. -/
def undelivered (v : Verifier) : List Delivery := (v.cycle.map Cycle.undelivered).getD []

/-- How often an object is pending, in flight, or taken and still to be delivered. -/
def load (v : Verifier) (hash : Hash) : Nat :=
  (v.queue.pending.requests.holds hash).toNat + (v.queue.inFlight.holds hash).toNat +
    (v.undelivered.map (·.hash)).count hash

end Verifier

/-! ## Hashes of one kind -/

/-- Without collisions no hash is that of a certificate and of a transaction. -/
theorem RequestSet.Known.disjoint {s : RequestSet} {events : List Event} (hs : s.Known events)
    (hfree : NoCollisions (events.flatMap Event.preimages)) (hash : Hash) :
    (s.certificates.contains hash && s.groups.contains hash) = false := by
  by_contra hboth
  simp only [Bool.not_eq_false, Bool.and_eq_true] at hboth
  obtain ⟨c, hc⟩ := contains_iff.mp hboth.1
  obtain ⟨group, hgroup⟩ := contains_iff.mp hboth.2
  obtain ⟨position, w, hw⟩ := hs.keyed.exists_withdrawal hgroup
  obtain ⟨e, he, hce⟩ := hs.known _ (mem_requests_certificate.mpr ⟨hash, hc⟩)
  obtain ⟨e', he', hwe⟩ :=
    hs.known _ (mem_requests_withdrawal.mpr ⟨hash, group, position, hgroup, hw⟩)
  obtain ⟨_, certificate, _, _, hevent, hrequest⟩ :=
    Event.certificate?_eq_some (Event.certificate_mem_requests.mp hce)
  have henqueues : e'.EnqueuesTransaction hash :=
    ⟨w, Event.withdrawal_mem_requests.mp hwe, (hs.keyed.withdrawal hgroup hw).1⟩
  obtain ⟨_, transaction, _, _, hevent', -, hhash'⟩ := henqueues.exists_transaction
  have hhash : certificate.hash = hash :=
    (Certificate.request_eq_ok hrequest).1.symm.trans (hs.keyed.certificate hc)
  refine certificate.preimage_ne_transaction transaction (hfree _ ?_ _ ?_ (hhash.trans hhash'.symm))
  · exact List.mem_flatMap.mpr ⟨e, he, by simp [hevent, Event.preimages]⟩
  · exact List.mem_flatMap.mpr ⟨e', he', by simp [hevent', Event.preimages]⟩

theorem RequestSet.Known.count_parents {s : RequestSet} {events : List Event} (hs : s.Known events)
    (hfree : NoCollisions (events.flatMap Event.preimages)) (hash : Hash) :
    s.parents.count hash = (s.holds hash).toNat := by
  have hdisjoint := hs.disjoint hfree hash
  rw [RequestSet.count_parents, RequestSet.holds]
  cases hcertificate : s.certificates.contains hash <;>
    cases hgroup : s.groups.contains hash <;> simp_all

theorem RequestSet.Known.nodup_parents {s : RequestSet} {events : List Event} (hs : s.Known events)
    (hfree : NoCollisions (events.flatMap Event.preimages)) : s.parents.Nodup := by
  refine List.nodup_iff_count_le_one.mpr ?_
  intro hash
  rw [hs.count_parents hfree]
  exact Bool.toNat_le _

/-- A notice is about the object of its delivery. -/
theorem RequestSet.Known.subject_hash {s : RequestSet} {events : List Event} (hs : s.Known events)
    {results : Results} {d : Delivery} (hd : d ∈ s.deliveries results) :
    d.notice.subject.hash = d.hash := by
  rcases mem_deliveries.mp hd with ⟨hash, r, hget, hd⟩ | ⟨hash, group, hgroup, hd⟩
  · obtain ⟨hsubject, hhash, -⟩ := Delivery.of?_eq_some hd
    obtain ⟨e, -, hr⟩ := hs.known _ (mem_requests_certificate.mpr ⟨hash, hget⟩)
    rw [hsubject, hhash, Event.certificate_hash (Event.certificate_mem_requests.mp hr)]
    rfl
  · obtain ⟨first, rest, hvalues, hd⟩ := transactionDelivery?_eq_some hd
    obtain ⟨hsubject, hhash, -⟩ := Delivery.of?_eq_some hd
    have hfirst : first ∈ group.values := hvalues ▸ List.mem_cons_self
    obtain ⟨position, hget⟩ := mem_values_iff.mp hfirst
    obtain ⟨e, -, hr⟩ :=
      hs.known _ (mem_requests_withdrawal.mpr ⟨hash, group, position, hgroup, hget⟩)
    have hfirst := Event.withdrawal_hash (Event.withdrawal_mem_requests.mp hr)
    rw [hsubject, hhash, ← (hs.keyed.withdrawal hgroup hget).1, hfirst]
    rfl

/-! ## Single moves -/

theorem count_filter_eq {α : Type} [DecidableEq α] (l : List α) (p : α → Bool) (a : α) :
    (l.filter p).count a = if p a then l.count a else 0 := by
  split
  next h => exact List.count_filter h
  next h => exact List.count_eq_zero.mpr fun hmem => h (List.mem_filter.mp hmem).2

namespace Queue

theorem holds_enqueueCertificate (q : Queue) (r : CertificateRequest) (now : Instant)
    (hash : Hash) :
    (q.enqueueCertificate r now).pending.requests.holds hash =
      (decide (hash = r.hash) || q.pending.requests.holds hash) := by
  simp only [enqueueCertificate, Pending.enqueueCertificate, RequestSet.holds, contains,
    RequestSet.certificates_insertCertificate]
  by_cases h : hash = r.hash
  · simp [h]
  · simp [h, RequestSet.insertCertificate]

theorem holds_enqueueWithdrawals (q : Queue) {rs : List WithdrawalRequest} (now : Instant)
    {hash : Hash} (hne : rs ≠ []) (hrs : ∀ r ∈ rs, r.transactionHash = hash) (hash' : Hash) :
    (q.enqueueWithdrawals rs now).pending.requests.holds hash' =
      (decide (hash' = hash) || q.pending.requests.holds hash') := by
  simp only [RequestSet.holds, contains, certificates_enqueueWithdrawals]
  by_cases h : hash' = hash
  · subst h
    simp [groups_enqueueWithdrawals q now hne hrs]
  · rw [groups_enqueueWithdrawals_of_ne q now fun r hr hr' => h (hr'.symm.trans (hrs r hr))]
    simp [h]

end Queue

namespace Verifier

variable {replies : Replies} {config : Config} {v₀ v w : Verifier} {event : Event}
  {events : List Event} {response : Response} {responses : List Response}

/-- An object comes to be pending when it is enqueued, unless it is pending already. -/
theorem load_admitted (hash : Hash)
    (hholds : ∀ hash', w.queue.pending.requests.holds hash' =
      (decide (hash' = hash) || v.queue.pending.requests.holds hash'))
    (hflight : w.queue.inFlight = v.queue.inFlight) (hcycle : w.cycle = v.cycle) (hash' : Hash) :
    v.load hash' +
        ([hash].filter fun hash => !v.queue.pending.requests.holds hash).count hash' =
      w.load hash' := by
  rw [load, load, hholds, hflight, undelivered, undelivered, hcycle, count_filter_eq,
    List.count_singleton]
  by_cases h : hash' = hash
  · subst h
    cases v.queue.pending.requests.holds hash'
    · simp
      omega
    · simp
  · simp [h, Ne.symm h]

/-- What was pending is purged or handed off. -/
theorem load_drained (hempty : v.queue.inFlight = .empty)
    (hknown : v.queue.pending.requests.Known events)
    (hfree : NoCollisions (events.flatMap Event.preimages)) (hash : Hash) :
    (v.queue.pending.requests.holds hash).toNat =
      (v.drained.queue.pending.requests.holds hash).toNat +
        (v.drained.queue.inFlight.holds hash).toNat +
        (v.queue.pending.requests.parents.filter v.cache.contains).count hash := by
  have hkept : v.drained.queue.inFlight = v.kept := by
    rw [drained, hempty, RequestSet.empty_absorb]
  have hpending : v.drained.queue.pending.requests.holds hash = false := rfl
  rw [hkept, hpending, kept, Pending.holds_purge, count_filter_eq, hknown.count_parents hfree]
  cases v.cache.contains hash <;> simp

/-- What is to be delivered is announced or left for later. -/
theorem load_proceed {cycle : Cycle} {dispatched : Nat} {deliveries : List Delivery}
    (hcycle : w.cycle = (cycle.proceed dispatched deliveries).1)
    (hsubject : ∀ d ∈ deliveries, d.notice.subject.hash = d.hash) {t : Transition}
    {published : List DriverState}
    (ht : t.response = .stepped published (cycle.proceed dispatched deliveries).2) (hash : Hash)
    (hload : v.load hash = (w.queue.pending.requests.holds hash).toNat +
      (w.queue.inFlight.holds hash).toNat + (deliveries.map (·.hash)).count hash) :
    v.load hash = w.load hash + (t.notice?.toList.map (·.subject.hash)).count hash := by
  rw [hload, load, undelivered, hcycle]
  cases deliveries with
  | nil => simp [Cycle.proceed, Transition.notice?, ht]
  | cons current rest =>
    have hcurrent := hsubject current List.mem_cons_self
    simp [Cycle.proceed, Cycle.undelivered, Transition.notice?, ht, hcurrent, List.count_cons]
    omega

theorem load_discardAll (hknown : v.queue.inFlight.Known events)
    (hfree : NoCollisions (events.flatMap Event.preimages)) (hash : Hash) :
    v.load hash = v.discardAll.2.load hash + v.queue.inFlight.parents.count hash := by
  have hload : v.discardAll.2.load hash = (v.queue.pending.requests.holds hash).toNat + 0 +
      (v.undelivered.map (·.hash)).count hash := rfl
  rw [hload, hknown.count_parents hfree, load]
  omega

/-- What is dropped from flight was there. -/
theorem load_discard (hkeyed : v.queue.inFlight.Keyed) (dropped hash : Hash) :
    v.load hash = (v.discard dropped).2.load hash +
      (Transition.discarded ⟨v, .discard dropped, .found (v.discard dropped).1,
        (v.discard dropped).2⟩).count hash := by
  have hload : (v.discard dropped).2.load hash = (v.queue.pending.requests.holds hash).toNat +
      ((v.queue.inFlight.removeParent dropped).holds hash).toNat +
      (v.undelivered.map (·.hash)).count hash := rfl
  have hfound : (v.discard dropped).1 = v.queue.inFlight.holds dropped := by
    show (!(v.queue.inFlight.idsOf dropped).isEmpty) = _
    rw [Bool.eq_iff_iff, Bool.not_eq_true', List.isEmpty_eq_false_iff]
    simp [RequestSet.idsOf_eq_nil_iff hkeyed]
  rw [hload, hfound, RequestSet.holds_removeParent, load, Transition.discarded]
  by_cases hhash : hash = dropped
  · subst hhash
    cases v.queue.inFlight.holds hash
    · simp
    · simp
      omega
  · cases v.queue.inFlight.holds dropped
    · simp [hhash]
    · simp [hhash, Ne.symm hhash]

theorem undelivered_eq_nil_of_none (hcycle : v.cycle = none) : v.undelivered = [] := by
  rw [undelivered, hcycle]
  rfl

theorem undelivered_eq_nil_of_verifying {cycle : Cycle} {work : Consultation Results}
    (hcycle : v.cycle = some cycle) (hstage : cycle.stage = .verifying work) :
    v.undelivered = [] := by
  rw [undelivered, hcycle, Option.map_some, Option.getD_some, Cycle.undelivered, hstage]

/-- Nobody is told anything while the backend is consulted. -/
theorem notice?_eq_none_of_verifying {cycle : Cycle} {work : Consultation Results}
    (hstage : cycle.stage = .verifying work) {need : Awaited} (hneed : need = cycle.awaited)
    {t : Transition} {published : List DriverState}
    (ht : t.response = .stepped published (.awaiting need)) : t.notice? = none := by
  rw [Transition.notice?, ht, hneed, Cycle.awaited, hstage]
  cases work <;> rfl

/-- A start leaves pending, puts into flight or purges what was pending. -/
theorem load_start (hnone : v.cycle = none) (hempty : v.queue.inFlight = .empty)
    (hknown : v.queue.pending.requests.Known events)
    (hfree : NoCollisions (events.flatMap Event.preimages)) {hash : Hash} {load : Nat}
    (hload : load = (v.drained.queue.pending.requests.holds hash).toNat +
      (v.drained.queue.inFlight.holds hash).toNat) :
    v.load hash = load + (v.queue.pending.requests.parents.filter v.cache.contains).count hash := by
  rw [Verifier.load, undelivered_eq_nil_of_none hnone, hempty, hload,
    load_drained hempty hknown hfree hash]
  rfl

/-! ## All calls return -/

theorem Run.not_abandoned (hnew : Verifier.new config = .ok v₀)
    (h : v₀.Run .any events responses v) (hallowed : Replies.any.Allows v.awaited? event)
    {cycle : Cycle} {work : Consultation Results} (hcycle : v.cycle = some cycle)
    (hstage : cycle.stage = .verifying work) :
    ¬Consultation.Reply event work .abandoned := by
  intro hreply
  obtain ⟨_, _, -, hfollows⟩ := h.follows Replies.any_justify hnew hcycle
  rw [hstage] at hfollows
  cases hfollows with
  | verifying hwork _ =>
    rw [awaited?, hcycle] at hallowed
    exact hwork.reply hreply hstage hallowed

/-- Outside a cycle nothing is in flight, when all calls return. -/
theorem Run.settled (hnew : Verifier.new config = .ok v₀) (h : v₀.Run .any events responses v)
    (hcycle : v.cycle = none) : v.queue.inFlight = .empty :=
  (h.covered hnew h.returns).eq_empty (by simp [consulting, hcycle])

/-- While deliveries are made nothing is in flight; each is about an object that was taken out, and
each of these gets one. -/
theorem Run.deliveries (hnew : Verifier.new config = .ok v₀) (h : v₀.Run .any events responses v)
    {cycle : Cycle} (hcycle : v.cycle = some cycle) {dispatched : Nat} {current : Delivery}
    {rest : List Delivery} (hstage : cycle.stage = .dispatching dispatched current rest) :
    v.queue.inFlight = .empty ∧
    ∃ (taken : RequestSet) (results : Results), taken.Known events ∧
      current :: rest <:+ taken.deliveries results ∧
      (taken.deliveries results).map (·.hash) = taken.parents := by
  obtain ⟨before, u, hhandOff, hfollows⟩ := h.follows Replies.any_justify hnew hcycle
  obtain ⟨_, hrun⟩ := hhandOff.reached
  rw [hstage] at hfollows
  cases hfollows with
  | @dispatching _ _ _ taken results hempty htaken hresults hrest =>
    rw [hrun.settled hnew hhandOff.cycle_eq, RequestSet.empty_absorb] at htaken
    have hkept : u.kept.Known before := (hrun.known hnew).1.of_remainsOf (kept_remainsOf u)
    refine ⟨hempty, taken, results, (hkept.of_remainsOf htaken).mono hhandOff.subset, hrest, ?_⟩
    exact RequestSet.map_hash_deliveries (htaken.keyed hkept.keyed) fun r hr =>
      (hresults.resolved (htaken.mem_requests hr)).1

/-- What is in flight when the results are there is what is delivered. -/
theorem Run.parents_inFlight (hnew : Verifier.new config = .ok v₀)
    (h : v₀.Run .any events responses v) {cycle : Cycle} (hcycle : v.cycle = some cycle)
    {results : Results} (hstage : cycle.stage = .verifying (.done results)) :
    (v.queue.inFlight.deliveries results).map (·.hash) = v.queue.inFlight.parents :=
  (h.covered hnew h.returns).map_hash_deliveries (h.known hnew).2.keyed
    (by simp [results?, hcycle, hstage])

/-- A step moves objects between what is to be done and what was done. -/
theorem Run.step_balance (hnew : Verifier.new config = .ok v₀)
    (hrun : v₀.Run .any events responses v)
    (hfree : NoCollisions (events.flatMap Event.preimages))
    (hallowed : Replies.any.Allows v.awaited? event) (hstep : v.Step event response w)
    (hreset : event ≠ .reset) (hash : Hash) {t : Transition} (ht : t = ⟨v, event, response, w⟩) :
    v.load hash + t.admitted.count hash =
      w.load hash + t.purged.count hash + t.discarded.count hash +
        (t.notice?.toList.map (·.subject.hash)).count hash := by
  subst ht
  obtain ⟨hpending, hflight⟩ := hrun.known hnew
  cases hstep with
  | @enqueueCertificate _ certificate _ now r hrequest =>
    have hholds := Queue.holds_enqueueCertificate v.queue r now
    rw [(Certificate.request_eq_ok hrequest).1] at hholds
    exact load_admitted (w := { v with queue := v.queue.enqueueCertificate r now })
      certificate.hash hholds rfl rfl hash
  | @enqueueTransaction _ transaction _ now rs hrequests =>
    obtain ⟨hne, -, hmembers⟩ := Transaction.requests_eq_ok hrequests
    have hholds := Queue.holds_enqueueWithdrawals v.queue now hne fun r hr => (hmembers r hr).1
    exact load_admitted (w := { v with queue := v.queue.enqueueWithdrawals rs now })
      transaction.hash hholds rfl rfl hash
  | discardAll => exact load_discardAll hflight hfree hash
  | discard => exact load_discard hflight.keyed _ hash
  | reset _ => exact absurd rfl hreset
  | purge hnone _ =>
    have hnone' : v.drained.cycle = none := hnone
    have hload : v.drained.load hash = (v.drained.queue.pending.requests.holds hash).toNat +
        (v.drained.queue.inFlight.holds hash).toNat := by
      rw [load, undelivered_eq_nil_of_none hnone']
      rfl
    exact load_start hnone (hrun.settled hnew hnone) hpending hfree hload
  | @handOff _ _ hnone cycle _ hstage hneed =>
    have hload : Verifier.load { v.drained with cycle := some cycle } hash =
        (v.drained.queue.pending.requests.holds hash).toNat +
          (v.drained.queue.inFlight.holds hash).toNat := by
      rw [load, undelivered_eq_nil_of_verifying rfl hstage]
      rfl
    rw [notice?_eq_none_of_verifying hstage hneed rfl]
    exact load_start hnone (hrun.settled hnew hnone) hpending hfree hload
  | @consulted _ cycle work work' hcycle hstage hreply _ hneed =>
    have hload : Verifier.load
        { v with cycle := some { cycle with stage := .verifying work' } } hash = v.load hash := by
      rw [load, load, undelivered_eq_nil_of_verifying hcycle hstage,
        undelivered_eq_nil_of_verifying rfl rfl]
    rw [notice?_eq_none_of_verifying rfl hneed rfl, hload]
    cases hreply <;> rfl
  | abandoned hcycle hstage hreply =>
    exact (hrun.not_abandoned hnew hallowed hcycle hstage hreply).elim
  | @take cycle results published hcycle hstage =>
    have hload : v.load hash = (v.queue.pending.requests.holds hash).toNat + 0 +
        ((v.queue.inFlight.deliveries results).map (·.hash)).count hash := by
      rw [hrun.parents_inFlight hnew hcycle hstage, hflight.count_parents hfree, load,
        undelivered_eq_nil_of_verifying hcycle hstage]
      rfl
    exact load_proceed (w := { v with
      queue := ⟨v.queue.pending, .empty⟩
      cycle := (cycle.proceed 0 (v.queue.inFlight.deliveries results)).1 })
      rfl (fun d hd => hflight.subject_hash hd) rfl hash hload
  | @delivered cycle dispatched current rest timestamp published hcycle hstage =>
    obtain ⟨-, taken, results, htaken, hrest, -⟩ := hrun.deliveries hnew hcycle hstage
    have hsubject : ∀ d ∈ rest, d.notice.subject.hash = d.hash :=
      fun d hd => htaken.subject_hash (hrest.subset (List.mem_cons_of_mem _ hd))
    have hload : v.load hash = (v.queue.pending.requests.holds hash).toNat +
        (v.queue.inFlight.holds hash).toNat + (rest.map (·.hash)).count hash := by
      rw [load, undelivered, hcycle, Option.map_some, Option.getD_some, Cycle.undelivered, hstage]
    exact load_proceed (w := { v.record current timestamp with
      cycle := (cycle.proceed (dispatched + 1) rest).1 }) rfl hsubject rfl hash hload
  | undelivered _ _ => exact hallowed.elim
  | _ => rfl

/-! ## Whole runs -/

/-- The objects that came to be pending in a run. -/
def admissions (v : Verifier) (events : List Event) : List Hash :=
  (v.trace events).flatMap Transition.admitted

/-- The objects that were purged in a run. -/
def purges (v : Verifier) (events : List Event) : List Hash :=
  (v.trace events).flatMap Transition.purged

/-- The objects that were dropped from flight in a run. -/
def discards (v : Verifier) (events : List Event) : List Hash :=
  (v.trace events).flatMap Transition.discarded

/-- The notices of a run. -/
def notices (v : Verifier) (events : List Event) : List Notice :=
  (v.trace events).filterMap Transition.notice?

section

variable (hrun : v₀.run? events = some (responses, v)) (hhandle : v.handle? event = some (response, w))

include hrun hhandle

theorem admissions_concat : v₀.admissions (events ++ [event]) =
    v₀.admissions events ++ Transition.admitted ⟨v, event, response, w⟩ := by
  simp [admissions, trace_concat hrun hhandle]

theorem purges_concat : v₀.purges (events ++ [event]) =
    v₀.purges events ++ Transition.purged ⟨v, event, response, w⟩ := by
  simp [purges, trace_concat hrun hhandle]

theorem discards_concat : v₀.discards (events ++ [event]) =
    v₀.discards events ++ Transition.discarded ⟨v, event, response, w⟩ := by
  simp [discards, trace_concat hrun hhandle]

theorem notices_concat : v₀.notices (events ++ [event]) =
    v₀.notices events ++ (Transition.notice? ⟨v, event, response, w⟩).toList := by
  rw [notices, trace_concat hrun hhandle, List.filterMap_append]
  cases hnotice : Transition.notice? ⟨v, event, response, w⟩ <;> simp [notices, hnotice]

end

/-- No object is to be done twice, apart from being pending again. -/
theorem Run.load_eq (hnew : Verifier.new config = .ok v₀) (h : v₀.Run .any events responses v)
    (hfree : NoCollisions (events.flatMap Event.preimages)) (hash : Hash) :
    v.load hash = (v.queue.pending.requests.holds hash).toNat +
      (v.queue.inFlight.holds hash || decide (hash ∈ v.undelivered.map (·.hash))).toNat := by
  have hnil (hundelivered : v.undelivered = []) : v.load hash =
      (v.queue.pending.requests.holds hash).toNat +
        (v.queue.inFlight.holds hash || decide (hash ∈ v.undelivered.map (·.hash))).toNat := by
    simp [load, hundelivered]
  cases hcycle : v.cycle with
  | none => exact hnil (undelivered_eq_nil_of_none hcycle)
  | some cycle =>
    cases hstage : cycle.stage with
    | verifying work => exact hnil (undelivered_eq_nil_of_verifying hcycle hstage)
    | dispatching dispatched current rest =>
      obtain ⟨hempty, taken, results, htaken, hrest, hparents⟩ := h.deliveries hnew hcycle hstage
      have hrest : rest.map (·.hash) <:+ taken.parents := by
        rw [← hparents]
        exact ((List.suffix_cons _ _).trans hrest).map _
      have hnodup := (htaken.nodup_parents hfree).sublist hrest.sublist
      have hundelivered : v.undelivered = rest := by
        rw [undelivered, hcycle, Option.map_some, Option.getD_some, Cycle.undelivered, hstage]
      rw [load, hundelivered, hempty, hnodup.count, RequestSet.holds_empty, Bool.false_or]
      by_cases hmem : hash ∈ rest.map (·.hash)
      · simp [hmem]
      · simp [hmem]

/-- What came to be pending is still to be done, or was purged, dropped or announced. -/
theorem Run.balance (hnew : Verifier.new config = .ok v₀) (h : v₀.Run .any events responses v)
    (hreset : ∀ e ∈ events, e ≠ .reset) (hfree : NoCollisions (events.flatMap Event.preimages))
    (hash : Hash) :
    (v₀.admissions events).count hash =
      v.load hash + (v₀.purges events).count hash + (v₀.discards events).count hash +
        ((v₀.notices events).map (·.subject.hash)).count hash := by
  induction h with
  | nil =>
    rw [eq_of_new hnew]
    rfl
  | @concat events responses v event response w hrun hallowed hhandle ih =>
    have hfree' := Event.noCollisions_of_append hfree
    have hold := ih (fun e he => hreset e (List.mem_append_left _ he)) hfree'
    have hstep := hrun.step_balance hnew hfree' hallowed (step_of_handle? hhandle)
      (hreset event (by simp)) hash rfl
    have hrun' := hrun.run?_eq
    rw [admissions_concat hrun' hhandle, purges_concat hrun' hhandle, discards_concat hrun' hhandle,
      notices_concat hrun' hhandle, List.map_append, List.count_append, List.count_append,
      List.count_append, List.count_append]
    omega

end Verifier

end SidechainVerifier
