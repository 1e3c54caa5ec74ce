/-
SidechainVerifier.Proofs.ObjectNames — hashes as names of objects.

The verifier knows an object by its hash: its requests are held and its
verdict is cached under it. `Verifier.Names` collects what a hash can stand
for in the course of a run: objects that were brought in, objects of the
requests in the queue, and the object of which the listener had been told
when a verdict was cached. All of them were brought in under that hash
(`Names.broughtIn`), so a hash that names a certificate names nothing else
(`Verifier.hash_names_one_certificate`). For two transactions this fails:
`Transaction.hash_not_injective`.
-/
import SidechainVerifier.Proofs.CacheEntries

namespace SidechainVerifier

open OrderedMap

/-! ## Objects that are brought in -/

/-- The byte string an object's hash is taken of. -/
def Subject.preimage : Subject → Bytes
  | .certificate c => c.preimage
  | .transaction t => t.preimage

theorem Subject.hash_eq (subject : Subject) : subject.hash = .digest subject.preimage := by
  cases subject <;> rfl

/-- The object a request belongs to. -/
def Request.subject : Request → Subject
  | .certificate r => .certificate r.certificate
  | .withdrawal r => .transaction r.transaction

namespace Event

/-- The object that an event brings in, be it accepted or refused. -/
def subject? : Event → Option Subject
  | .enqueueCertificate _ certificate _ _ => some (.certificate certificate)
  | .enqueueTransaction _ transaction _ _ => some (.transaction transaction)
  | _ => none

/-- The lists of a certificate that is brought in can be counted in 64 bits. -/
def CertificateFits : Event → Prop
  | .enqueueCertificate _ certificate _ _ => certificate.Fits
  | _ => True

variable {event : Event}

theorem preimage_mem_preimages {subject : Subject} (h : event.subject? = some subject) :
    subject.preimage ∈ event.preimages := by
  cases event with
  | enqueueCertificate view certificate origin now =>
    cases h
    exact List.mem_singleton_self _
  | enqueueTransaction view transaction origin now =>
    cases h
    exact List.mem_singleton_self _
  | _ => cases h

theorem CertificateFits.fits {c : Certificate} (h : event.CertificateFits)
    (hsubject : event.subject? = some (.certificate c)) : c.Fits := by
  cases event with
  | enqueueCertificate view certificate origin now =>
    cases hsubject
    exact h
  | _ => cases hsubject

/-- A request is made for the object that is brought in, under the object's hash. -/
theorem subject?_of_mem_requests {r : Request} (h : r ∈ event.requests) :
    event.subject? = some r.subject ∧ r.subject.hash = r.id.parent := by
  cases r with
  | certificate r =>
    obtain ⟨view, certificate, origin, now, rfl, hrequest⟩ :=
      certificate?_eq_some (certificate_mem_requests.mp h)
    obtain ⟨hhash, rfl, -⟩ := Certificate.request_eq_ok hrequest
    exact ⟨rfl, hhash.symm⟩
  | withdrawal r =>
    have hr := withdrawal_mem_requests.mp h
    obtain ⟨view, transaction, origin, now, rfl, hrequests⟩ := mem_withdrawals hr
    obtain ⟨-, -, hmembers⟩ := Transaction.requests_eq_ok hrequests
    obtain ⟨hhash, rfl, -⟩ := hmembers r hr
    exact ⟨rfl, hhash.symm⟩

end Event

/-- An object was brought in under a hash. -/
def Subject.BroughtIn (events : List Event) (hash : Hash) (subject : Subject) : Prop :=
  subject.hash = hash ∧ ∃ event ∈ events, event.subject? = some subject

namespace Subject.BroughtIn

variable {events events' : List Event} {hash : Hash} {subject : Subject}

theorem mono (h : subject.BroughtIn events hash) (hsub : events ⊆ events') :
    subject.BroughtIn events' hash := by
  obtain ⟨hhash, event, hevent, hsubject⟩ := h
  exact ⟨hhash, event, hsub hevent, hsubject⟩

/-- Without collisions, nothing else is brought in under the hash of a certificate. -/
theorem eq_certificate (h : subject.BroughtIn events hash) {certificate : Certificate}
    (hc : (Subject.certificate certificate).BroughtIn events hash)
    (hfree : NoCollisions (events.flatMap Event.preimages))
    (hfits : ∀ e ∈ events, e.CertificateFits) : subject = .certificate certificate := by
  obtain ⟨hhash, event, hevent, hsubject⟩ := h
  obtain ⟨hhash', event', hevent', hsubject'⟩ := hc
  have hpreimage : subject.preimage = certificate.preimage := by
    refine hfree _ ?_ _ ?_ ?_
    · exact List.mem_flatMap.mpr ⟨event, hevent, Event.preimage_mem_preimages hsubject⟩
    · exact List.mem_flatMap.mpr ⟨event', hevent', Event.preimage_mem_preimages hsubject'⟩
    · rw [← subject.hash_eq, hhash, ← hhash']
      rfl
  cases subject with
  | certificate c =>
    have hc := (hfits event hevent).fits hsubject
    have hd := (hfits event' hevent').fits hsubject'
    rw [Certificate.eq_of_preimage hc hd hpreimage]
  | transaction t => exact absurd hpreimage.symm (certificate.preimage_ne_transaction t)

end Subject.BroughtIn

/-! ## Objects of requests and of deliveries -/

namespace RequestSet.Known

variable {s : RequestSet} {events : List Event}

theorem broughtIn_of_request? (hs : s.Known events) {id : RequestId} {r : Request}
    (h : s.request? id = some r) : r.subject.BroughtIn events id.parent := by
  obtain ⟨hmem, rfl⟩ := hs.keyed.request?_eq_some_iff.mp h
  obtain ⟨event, hevent, hr⟩ := hs.known r hmem
  obtain ⟨hsubject, hhash⟩ := Event.subject?_of_mem_requests hr
  exact ⟨hhash, event, hevent, hsubject⟩

theorem broughtIn_of_mem_deliveries (hs : s.Known events) {results : Results} {d : Delivery}
    (h : d ∈ s.deliveries results) : d.notice.subject.BroughtIn events d.hash := by
  rcases RequestSet.mem_deliveries.mp h with ⟨hash, r, hget, hd⟩ | ⟨hash, group, hgroup, hd⟩
  · obtain ⟨hsubject, -, -⟩ := Delivery.of?_eq_some hd
    obtain ⟨event, hevent, hr⟩ := hs.known _ (mem_requests_certificate.mpr ⟨hash, hget⟩)
    refine ⟨hs.subject_hash h, event, hevent, ?_⟩
    rw [hsubject, (Event.subject?_of_mem_requests hr).1]
    rfl
  · obtain ⟨first, rest, hvalues, hd⟩ := transactionDelivery?_eq_some hd
    obtain ⟨hsubject, -, -⟩ := Delivery.of?_eq_some hd
    obtain ⟨position, hget⟩ := mem_values_iff.mp (hvalues ▸ List.mem_cons_self)
    obtain ⟨event, hevent, hr⟩ :=
      hs.known _ (mem_requests_withdrawal.mpr ⟨hash, group, position, hgroup, hget⟩)
    refine ⟨hs.subject_hash h, event, hevent, ?_⟩
    rw [hsubject, (Event.subject?_of_mem_requests hr).1]
    rfl

end RequestSet.Known

/-! ## Names -/

namespace Verifier

/-- What a hash stands for in a run from `v₀` to `v`. -/
inductive Names (v₀ : Verifier) (events : List Event) (v : Verifier) (hash : Hash) : Subject → Prop
  /-- The object was brought in under the hash. -/
  | enqueued {subject} (h : subject.BroughtIn events hash) : Names v₀ events v hash subject
  | pending {id r} (hid : id.parent = hash) (h : v.queue.pending.requests.request? id = some r) :
      Names v₀ events v hash r.subject
  | inFlight {id r} (hid : id.parent = hash) (h : v.queue.inFlight.request? id = some r) :
      Names v₀ events v hash r.subject
  /-- A verdict was cached under the hash when the listener had returned from a notice. -/
  | cached {t notice} (ht : t ∈ v₀.trace events) (hbefore : t.before.cached? hash = none)
      (hafter : t.after.cached? hash ≠ none) (hnotice : t.before.telling? = some notice) :
      Names v₀ events v hash notice.subject

variable {config : Config} {v₀ v : Verifier} {events : List Event} {responses : List Response}

/-- The listener is told of an object that was brought in. -/
theorem Run.broughtIn_of_dispatching (hnew : Verifier.new config = .ok v₀)
    (h : v₀.Run .free events responses v) {cycle : Cycle} {dispatched : Nat} {current : Delivery}
    {rest : List Delivery} (hcycle : v.cycle = some cycle)
    (hstage : cycle.stage = .dispatching dispatched current rest) :
    current.notice.subject.BroughtIn events current.hash := by
  obtain ⟨before, u, hhandOff, hfollows⟩ := h.follows Replies.free_justify hnew hcycle
  rw [hstage] at hfollows
  cases hfollows with
  | dispatching hempty htaken hresults hrest =>
    obtain ⟨_, hbefore⟩ := hhandOff.reached
    obtain ⟨hpending, hflight⟩ := hbefore.known hnew
    have hknown := (hflight.absorb (hpending.of_remainsOf (kept_remainsOf u))).of_remainsOf htaken
    have hcurrent := hknown.broughtIn_of_mem_deliveries (hrest.subset List.mem_cons_self)
    exact hcurrent.mono hhandOff.subset

/-- What a hash stands for was brought in under it. -/
theorem Names.broughtIn (hnew : Verifier.new config = .ok v₀)
    (hrun : v₀.run? events = some (responses, v)) {hash : Hash} {subject : Subject}
    (h : v₀.Names events v hash subject) : subject.BroughtIn events hash := by
  obtain ⟨hpending, hflight⟩ := (run_free hrun).known hnew
  cases h with
  | enqueued h => exact h
  | pending hid h => exact hid ▸ hpending.broughtIn_of_request? h
  | inFlight hid h => exact hid ▸ hflight.broughtIn_of_request? h
  | @cached t notice ht hbefore hafter hnotice =>
    obtain ⟨before, after, htrace⟩ := List.append_of_mem ht
    obtain ⟨events₁, rest, responses₁, rfl, hrun₁, hhandle, -⟩ := trace_eq_append htrace
    obtain ⟨cached, hcached⟩ := Option.ne_none_iff_exists'.mp hafter
    rcases (step_of_handle? hhandle).cached? hcached with
      hold | ⟨cycle, dispatched, current, rest', hcycle, hstage, rfl, -⟩
    · rw [hbefore] at hold
      cases hold
    · rw [telling?_of_dispatching hcycle hstage] at hnotice
      cases hnotice
      have hcurrent := (run_free hrun₁).broughtIn_of_dispatching hnew hcycle hstage
      exact hcurrent.mono (List.subset_append_left _ _)

/-- Every field of a certificate can be read off its preimage, which is never the preimage of a
transaction. So, as long as nothing collides, a hash that stands for a certificate in a run stands
for nothing else. -/
theorem hash_names_one_certificate :
    (∀ c d : Certificate, c.Fits → d.Fits → c.preimage = d.preimage → c = d) ∧
      (∀ (c : Certificate) (t : Transaction), c.preimage ≠ t.preimage) ∧
      ∀ (config : Config) (v₀ : Verifier) (events : List Event) (responses : List Response)
        (v : Verifier), Verifier.new config = .ok v₀ → v₀.run? events = some (responses, v) →
        NoCollisions (events.flatMap Event.preimages) → (∀ e ∈ events, e.CertificateFits) →
        ∀ (hash : Hash) (certificate : Certificate) (subject : Subject),
          v₀.Names events v hash (.certificate certificate) → v₀.Names events v hash subject →
          subject = .certificate certificate := by
  refine ⟨fun c d hc hd h => Certificate.eq_of_preimage hc hd h,
    Certificate.preimage_ne_transaction, ?_⟩
  intro config v₀ events responses v hnew hrun hfree hfits hash certificate subject hc hsubject
  exact (hsubject.broughtIn hnew hrun).eq_certificate (hc.broughtIn hnew hrun) hfree hfits

end Verifier

/-! ## Three objects -/

/-- Two certificates and a transaction are verified in one batch. When the listener has been told of
the first certificate, the transaction is enqueued again. -/
def Event.verifyThree : List Event :=
  [.enqueueCertificate (.ofKey ⟨[]⟩) (.ofQuality 0) none 0,
    .enqueueCertificate (.ofKey ⟨[]⟩) (.ofQuality 1) none 0,
    .enqueueTransaction .withTwoEmptyKeys .fromTwo none 0, .start true 0,
    .replyBatch (some (.ok ⟨true, []⟩)), .replyBatch (some (.ok ⟨true, []⟩)), .take,
    .delivered (some 0), .enqueueTransaction .withTwoEmptyKeys .fromTwo none 1]

namespace Verifier

/-- The hashes of the two certificates, one of which is cached, stand for nothing else, and that of
the transaction stands for the transaction. -/
theorem hash_names_one_certificate_three :
    ∃ v₀ responses v, Verifier.new .default = .ok v₀ ∧
      v₀.run? Event.verifyThree = some (responses, v) ∧
      v.cached? (Certificate.ofQuality 0).hash = some ⟨0, .passed⟩ ∧
      v₀.Names Event.verifyThree v Transaction.fromTwo.hash (.transaction .fromTwo) ∧
      ∀ c ∈ [Certificate.ofQuality 0, .ofQuality 1],
        v₀.Names Event.verifyThree v c.hash (.certificate c) ∧
        ∀ subject, v₀.Names Event.verifyThree v c.hash subject → subject = .certificate c := by
  obtain ⟨v₀, hnew⟩ : ∃ v₀, Verifier.new .default = .ok v₀ := ⟨_, rfl⟩
  -- One evaluation for all that needs the hashes, as they take long to compute.
  obtain ⟨hdistinct, hend⟩ :
      ([(Certificate.ofQuality 0).preimage, (Certificate.ofQuality 1).preimage,
        Transaction.fromTwo.preimage].map Hash.digest).Nodup ∧
      (v₀.run? Event.verifyThree).map (fun run => run.2.cached? (Certificate.ofQuality 0).hash) =
        some (some ⟨0, .passed⟩) := by
    cases hnew
    decide +kernel
  obtain ⟨⟨responses, v⟩, hrun, hcached⟩ := Option.map_eq_some_iff.mp hend
  have hfree : NoCollisions (Event.verifyThree.flatMap Event.preimages) :=
    (noCollisions_of_nodup hdistinct).mono (by simp [Event.verifyThree, Event.preimages])
  have hfits : ∀ e ∈ Event.verifyThree, e.CertificateFits := by
    simp only [Event.verifyThree, List.forall_mem_cons, Event.CertificateFits]
    exact ⟨⟨by decide, by decide⟩, ⟨by decide, by decide⟩, trivial, trivial, trivial, trivial,
      trivial, trivial, trivial, by simp⟩
  refine ⟨v₀, responses, v, hnew, hrun, hcached, ?_, fun c hc => ?_⟩
  · exact .enqueued ⟨rfl, .enqueueTransaction .withTwoEmptyKeys .fromTwo none 0,
      by simp [Event.verifyThree], rfl⟩
  · have hnames : v₀.Names Event.verifyThree v c.hash (.certificate c) := by
      refine .enqueued ⟨rfl, .enqueueCertificate (.ofKey ⟨[]⟩) c none 0, ?_, rfl⟩
      simp only [List.mem_cons, List.not_mem_nil, or_false] at hc
      rcases hc with rfl | rfl <;> simp [Event.verifyThree]
    exact ⟨hnames, fun subject hsubject => hash_names_one_certificate.2.2 .default v₀ _ responses v
      hnew hrun hfree hfits _ c subject hnames hsubject⟩

end Verifier

end SidechainVerifier
