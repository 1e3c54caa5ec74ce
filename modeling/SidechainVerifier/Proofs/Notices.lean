/-
SidechainVerifier.Proofs.Notices — what the listener is told is what single
checks say.

Whatever happens between construction and a notice, and also during the
calls of the cycle that makes it: the notice about an object says whether
the checks of the requests that its last enqueue before the hand-off came
to succeed singly (`Verifier.notices_tell_checks`). Batches, partial
answers, the fallback, objects enqueued again or dropped in the middle, and
leftovers of torn cycles make no difference.
-/
import SidechainVerifier.Proofs.Cycles

namespace SidechainVerifier

open OrderedMap

/-- A notice says whether single checks succeed on the requests that the last enqueue of its object
among some events came to. -/
def Notice.TellsChecks (notice : Notice) (single : Check → SingleReply) (events : List Event) :
    Prop :=
  match notice.subject with
  | .certificate certificate =>
    ∃ view origin now r,
      LastOf (·.EnqueuesCertificate certificate.hash)
        (.enqueueCertificate view certificate origin now) events ∧
      certificate.request view origin = .ok r ∧
      (notice.outcome = .verified ↔ single (.certificate r.check) = .ok true)
  | .transaction transaction =>
    -- Positions are 32 bits wide; beyond that withdrawals replace each other.
    transaction.withdrawals.length ≤ 2 ^ 32 →
    ∃ view origin now rs,
      LastOf (·.EnqueuesTransaction transaction.hash)
        (.enqueueTransaction view transaction origin now) events ∧
      transaction.requests view origin = .ok rs ∧
      (notice.outcome = .verified ↔ ∀ r ∈ rs, single (.withdrawal r.check) = .ok true)

namespace Verifier

variable {config : Config} {v₀ u v w : Verifier} {events : List Event} {event : Event}
  {responses : List Response} {response : Response} {replies : Replies}

/-- A cycle that waits says in its response what it waits for. -/
theorem Step.awaited?_eq {published : List DriverState} {need : Awaited}
    (h : v.Step event (.stepped published (.awaiting need)) w) : w.awaited? = some need := by
  generalize hresponse : Response.stepped published (.awaiting need) = response at h
  cases h with
  | handOff _ _ hneed =>
    cases hresponse
    rw [awaited?, hneed]
    rfl
  | consulted _ _ _ hneed =>
    cases hresponse
    rw [awaited?, hneed]
    rfl
  | take _ _ => exact Cycle.proceed_eq_awaiting (Response.stepped.inj hresponse).2.symm
  | delivered _ _ => exact Cycle.proceed_eq_awaiting (Response.stepped.inj hresponse).2.symm
  | _ => cases hresponse

theorem stage_of_awaited?_delivery {notice : Notice} (h : v.awaited? = some (.delivery notice)) :
    ∃ cycle dispatched current rest, v.cycle = some cycle ∧
      cycle.stage = .dispatching dispatched current rest ∧ current.notice = notice := by
  obtain ⟨cycle, hcycle, hawaited⟩ := Option.map_eq_some_iff.mp h
  unfold Cycle.awaited at hawaited
  split at hawaited
  · cases hawaited
  · cases hawaited
  · cases hawaited
  next dispatched current rest hstage =>
    cases hawaited
    exact ⟨cycle, dispatched, current, rest, hcycle, hstage, rfl⟩

/-- What is left in flight under a hash is replaced by what is handed off under it. -/
theorem union_of_known {s : RequestSet} (hs : s.Known events) {hash : Hash}
    (hsame : Event.SamePositions hash events) (hevent : event ∈ events)
    (henqueues : event.EnqueuesTransaction hash) :
    ((s.groups.get? hash).getD .empty).union (Queue.groupOf event.withdrawals) =
      Queue.groupOf event.withdrawals := by
  cases hgroup : s.groups.get? hash with
  | none => rw [Option.getD_none, empty_union]
  | some group =>
    refine union_eq_right ?_
    intro position hcontains
    obtain ⟨r, hr⟩ := contains_iff.mp hcontains
    obtain ⟨e, he, hmem⟩ :=
      hs.known _ (RequestSet.mem_requests_withdrawal.mpr ⟨hash, group, position, hgroup, hr⟩)
    have hmem := Event.withdrawal_mem_requests.mp hmem
    obtain ⟨hhash, hposition⟩ := hs.keyed.withdrawal hgroup hr
    rw [Queue.contains_groupOf, ← hsame e he event hevent ⟨r, hmem, hhash⟩ henqueues]
    exact List.mem_map.mpr ⟨r, hmem, hposition⟩

theorem tellsChecks_certificate {single : Check → SingleReply} {results : Results} {d : Delivery}
    (hlatest : u.kept.Latest events) (hkeyed : u.kept.Keyed)
    (hresults : results.Judge (Results.Resolved fun check verdict =>
      verdict = Replies.judge single check) u.kept.requests)
    (houtcome : d.notice.outcome = .verified ↔ d.verdict = .passed) {r : CertificateRequest}
    (hget : u.kept.certificates.get? d.hash = some r)
    (hsubject : d.notice.subject = .certificate r.certificate)
    (hverdict : d.verdict = results.verdict (.certificate d.hash)) :
    d.notice.TellsChecks single events := by
  obtain ⟨event, hlast, hevent⟩ := hlatest.certificate hget
  obtain ⟨view, certificate, origin, now, rfl, hrequest⟩ := Event.certificate?_eq_some hevent
  obtain ⟨hhash, hcertificate, -⟩ := Certificate.request_eq_ok hrequest
  have hrhash : r.hash = d.hash := hkeyed.certificate hget
  have hresolved := hkeyed.resolved_certificate hresults hget
  rw [Notice.TellsChecks, hsubject, hcertificate]
  refine ⟨view, origin, now, r, ?_, hrequest, ?_⟩
  · rwa [← hhash, hrhash]
  · rw [houtcome, hverdict, hresolved.2, Replies.judge_eq_passed_iff]

theorem tellsChecks_transaction {single : Check → SingleReply} {results : Results} {d : Delivery}
    (hlatest : u.kept.Latest events) (hkeyed : u.kept.Keyed)
    (hflight : u.queue.inFlight.Known events) (hsame : ∀ hash, Event.SamePositions hash events)
    (hresults : results.Judge (Results.Resolved fun check verdict =>
      verdict = Replies.judge single check) u.kept.requests)
    (houtcome : d.notice.outcome = .verified ↔ d.verdict = .passed)
    {group : OrderedMap UInt32 WithdrawalRequest} {first : WithdrawalRequest}
    {rest : List WithdrawalRequest} (hget : u.kept.groups.get? d.hash = some group)
    (hfirst : (((u.queue.inFlight.groups.get? d.hash).getD .empty).union group).values =
      first :: rest)
    (hsubject : d.notice.subject = .transaction first.transaction)
    (hverdict : d.verdict =
      .combine (group.values.map fun r => results.verdict (.withdrawal d.hash r.position))) :
    d.notice.TellsChecks single events := by
  obtain ⟨event, hlast, rfl⟩ := hlatest.group (hsame _) hget
  obtain ⟨view, t, origin, now, hevent, hrequests, hhash⟩ := hlast.holds.exists_transaction
  rw [union_of_known hflight (hsame _) hlast.mem hlast.holds] at hfirst
  obtain ⟨-, hpositions, hmembers⟩ := Transaction.requests_eq_ok hrequests
  have hmem : first ∈ event.withdrawals :=
    Queue.mem_of_mem_values_groupOf (hfirst ▸ List.mem_cons_self)
  rw [Notice.TellsChecks, hsubject, (hmembers first hmem).2.1]
  intro hlength
  have hnodup : (event.withdrawals.map (·.position)).Nodup :=
    hpositions ▸ nodup_positions hlength
  refine ⟨view, origin, now, event.withdrawals, ?_, hrequests, ?_⟩
  · rw [hhash, ← hevent]
    exact hlast
  · rw [houtcome, hverdict, Verdict.combine_eq_passed_iff, List.forall_mem_map]
    refine forall_congr' ?_
    intro r
    rw [Queue.mem_values_groupOf hnodup]
    refine imp_congr_right ?_
    intro hr
    have hresolved :=
      hkeyed.resolved_withdrawal hresults hget ((Queue.mem_values_groupOf hnodup).mpr hr)
    rw [hresolved.2, Replies.judge_eq_passed_iff]

/-- Every notice of every run tells what single checks say about its object. -/
theorem notices_tell_checks {single : Check → SingleReply} (hnew : Verifier.new config = .ok v₀)
    (hrun : v₀.run? events = some (responses, v))
    (hbackend : v₀.AnsweredBy (.soundFor single) events)
    (hfree : NoCollisions (events.flatMap Event.preimages)) (hfits : ∀ e ∈ events, e.Fits)
    {i : Nat} {published : List DriverState} {notice : Notice}
    (hnotice : responses[i]? = some (.stepped published (.awaiting (.delivery notice)))) :
    ∃ before force now after, events.take (i + 1) = before ++ .start force now :: after ∧
      (∀ e ∈ after, e.isStart = false) ∧ notice.TellsChecks single before := by
  obtain ⟨u, event, w, hprefix, hhandle⟩ := (run_of_run? hrun hbackend).take hnotice
  obtain ⟨cycle, dispatched, current, rest, hcycle, hstage, rfl⟩ :=
    stage_of_awaited?_delivery (step_of_handle? hhandle).awaited?_eq
  obtain ⟨before, u, results, hhandOff, hresults, htells, houtcome⟩ :=
    hprefix.tells (Replies.soundFor_justify single) hnew hcycle hstage
  have hsub : before ⊆ events := List.Subset.trans hhandOff.subset (List.take_subset _ _)
  have hsame (hash : Hash) : Event.SamePositions hash before :=
    (Event.samePositions_of_noCollisions hfree hfits hash).mono hsub
  obtain ⟨force, now, after, hevents, hafter⟩ := hhandOff.started
  obtain ⟨_, hbefore⟩ := hhandOff.reached
  have hkept := kept_remainsOf u
  have hkeyed := hkept.keyed (hbefore.known hnew).1.keyed
  have hlatest := (hbefore.latest hnew).of_remainsOf hkept
  refine ⟨before, force, now, after, hevents, hafter, ?_⟩
  cases htells with
  | certificate hget hsubject hverdict =>
    exact tellsChecks_certificate hlatest hkeyed hresults houtcome hget hsubject hverdict
  | transaction hget hfirst hsubject hverdict =>
    exact tellsChecks_transaction hlatest hkeyed (hbefore.known hnew).2 hsame hresults houtcome
      hget hfirst hsubject hverdict

end Verifier

/-! ## A transaction that is enqueued again -/

/-- The view of two sidechains, the second of which has another key for withdrawals. -/
def View.withTwoKeys : View :=
  View.withEmptyKey.setSidechain ⟨Vector.replicate 32 1⟩
    ⟨1, 10, none, ⟨[]⟩, some ⟨[0]⟩, none, none, none⟩

/-- Single checks succeed under the key without bytes. -/
def Check.replyByKey (check : Check) : SingleReply := .ok (check.key == ⟨[]⟩)

/-- A transaction is enqueued under two views, and a certificate under a key with which its check
does not succeed. The first batch call fails, the second one vouches for the withdrawals, and the
certificate is left for a single check. -/
def Event.verifyReenqueued : List Event :=
  [.enqueueTransaction .withTwoKeys .fromTwo none 0,
    .enqueueTransaction .withTwoEmptyKeys .fromTwo none 0,
    .enqueueCertificate (.ofKey ⟨[0]⟩) .blank none 0, .start true 0,
    .replyBatch (some (.error (.backend "busy"))), .replyBatch (some (.ok ⟨true, []⟩)),
    .replyBatch (some (.ok ⟨false, []⟩)), .replySingle (some (.ok false)), .take,
    .delivered (some 0)]

namespace Verifier

/-- What the run comes to: what is awaited before each event, and the two notices. -/
theorem run_verifyReenqueued (hnew : Verifier.new .default = .ok v₀) :
    v₀.AnsweredBy (.soundFor Check.replyByKey) Event.verifyReenqueued ∧
    NoCollisions (Event.verifyReenqueued.flatMap Event.preimages) ∧
    (v₀.run? Event.verifyReenqueued).map (fun run => (run.1[8]?, run.1[9]?)) =
      some (some (.stepped [.dispatching] (.awaiting (.delivery
          ⟨.certificate .blank, none, .failed, .invalid 100 "bad-sc-cert-proof"⟩))),
        some (.stepped [] (.awaiting (.delivery
          ⟨.transaction .fromTwo, none, .verified, .valid⟩)))) := by
  let certificate : CertificateCheck :=
    ⟨.zero, none, 0, 0, [], [], .zero, .zero, 0, 0, ⟨[]⟩, ⟨[0]⟩⟩
  let withdrawal (sidechain : Hash) : WithdrawalCheck :=
    ⟨sidechain, none, 0, .zero, FixedBytes.zero 20, none, .zero, ⟨[]⟩, ⟨[]⟩⟩
  -- One evaluation for all that needs the hashes, as they take long to compute.
  obtain ⟨hawaited, hdistinct, hresponses⟩ :
      (v₀.trace Event.verifyReenqueued).map (fun t => t.before.awaited?) =
        [none, none, none, none, some (.batch (.certificates [certificate])),
          some (.batch (.withdrawals [withdrawal .zero, withdrawal ⟨Vector.replicate 32 1⟩])),
          some (.batch (.certificates [certificate])), some (.single (.certificate certificate)),
          some .take, some (.delivery
            ⟨.certificate .blank, none, .failed, .invalid 100 "bad-sc-cert-proof"⟩)] ∧
      ([Transaction.fromTwo.preimage, Certificate.blank.preimage].map Hash.digest).Nodup ∧
      (v₀.run? Event.verifyReenqueued).map (fun run => (run.1[8]?, run.1[9]?)) =
        some (some (.stepped [.dispatching] (.awaiting (.delivery
            ⟨.certificate .blank, none, .failed, .invalid 100 "bad-sc-cert-proof"⟩))),
          some (.stepped [] (.awaiting (.delivery
            ⟨.transaction .fromTwo, none, .verified, .valid⟩)))) := by
    cases hnew
    decide +kernel
  refine ⟨answeredBy_of_awaited hawaited ?_, ?_, hresponses⟩
  · simp only [Event.verifyReenqueued, List.zip_cons_cons, List.zip_nil_right, List.forall_mem_cons]
    refine ⟨trivial, trivial, trivial, trivial, ?_, ?_, ?_, ?_, trivial, trivial, by simp⟩
    · intro call _ answer hanswer
      cases hanswer
    · intro call hcall answer hanswer
      cases hcall
      cases hanswer
      exact ⟨by simp [BatchCall.checks, Check.replyByKey, Check.key, withdrawal], by simp⟩
    · intro call _ answer hanswer
      cases hanswer
      exact ⟨by simp, by simp⟩
    · intro check hcheck
      cases hcheck
      rfl
  · exact (noCollisions_of_nodup hdistinct).mono (by simp [Event.verifyReenqueued, Event.preimages])

/-- The transaction is verified under the last view it was enqueued under, and the certificate is
not. -/
theorem notices_tell_checks_reenqueued :
    ∃ (v₀ : Verifier) (responses : List Response) (v : Verifier)
      (published published' : List DriverState) (notice notice' : Notice),
      Verifier.new .default = .ok v₀ ∧ v₀.run? Event.verifyReenqueued = some (responses, v) ∧
      responses[8]? = some (.stepped published (.awaiting (.delivery notice))) ∧
      responses[9]? = some (.stepped published' (.awaiting (.delivery notice'))) ∧
      notice.subject = .certificate .blank ∧ notice.outcome = .failed ∧
      notice'.subject = .transaction .fromTwo ∧ notice'.outcome = .verified ∧
      (∃ before force now after, Event.verifyReenqueued.take 9 = before ++ .start force now :: after ∧
        (∀ e ∈ after, e.isStart = false) ∧ notice.TellsChecks Check.replyByKey before) ∧
      ∃ before force now after, Event.verifyReenqueued.take 10 = before ++ .start force now :: after ∧
        (∀ e ∈ after, e.isStart = false) ∧ notice'.TellsChecks Check.replyByKey before := by
  obtain ⟨v₀, hnew⟩ : ∃ v₀, Verifier.new .default = .ok v₀ := ⟨_, rfl⟩
  obtain ⟨hbackend, hfree, hend⟩ := run_verifyReenqueued hnew
  obtain ⟨⟨responses, v⟩, hrun, hend⟩ := Option.map_eq_some_iff.mp hend
  obtain ⟨hfirst, hsecond⟩ := Prod.mk.inj hend
  have hfits : ∀ e ∈ Event.verifyReenqueued, e.Fits := by
    simp only [Event.verifyReenqueued, List.forall_mem_cons, Event.Fits]
    exact ⟨by decide, by decide, trivial, trivial, trivial, trivial, trivial, trivial, trivial,
      trivial, by simp⟩
  exact ⟨v₀, responses, v, _, _, _, _, hnew, hrun, hfirst, hsecond, rfl, rfl, rfl, rfl,
    notices_tell_checks hnew hrun hbackend hfree hfits hfirst,
    notices_tell_checks hnew hrun hbackend hfree hfits hsecond⟩

end Verifier

end SidechainVerifier
