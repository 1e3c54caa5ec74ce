/-
SidechainVerifier.Proofs.CachedVerdicts — where cached verdicts come from,
and for which requests they stand.

A start drops pending objects whose verdict is cached. The cache is keyed by
the object's hash, while a request also depends on the view the object was
resolved against. So a cached verdict is what the requests come to that an
earlier start handed off under the hash, and it stands for the requests that
are pending now as long as the enqueues of the hash came to the same checks
(`Verifier.cached_verdict_eq`). When the view has changed in between, it may
differ from what the pending requests would come to
(`Verifier.cached_verdict_stale`).
-/
import SidechainVerifier.Proofs.Cycles

namespace SidechainVerifier

open OrderedMap

/-! ## The cache -/

namespace Cache

variable {K V : Type} [Ord K] [Ord V] [DecidableEq K] [Std.TransOrd K] [Std.LawfulEqOrd K]
  [Std.TransOrd V]

omit [Std.TransOrd V] in
theorem get?_evict {c : Cache K V} {k : K} {a : V} (h : c.evict.get? k = some a) :
    c.get? k = some a := by
  unfold evict at h
  split at h
  · exact h
  · simp only [get?, get?_erase_eq] at h ⊢
    split at h
    · cases h
    · exact h

/-- An insertion puts nothing in but its own entry. -/
theorem get?_insert_cases {c : Cache K V} {k k' : K} {a b : V}
    (h : (c.insert k a).2.get? k' = some b) : c.get? k' = some b ∨ k' = k ∧ b = a := by
  unfold insert at h
  split at h
  · exact .inl h
  · simp only [get?, get?_insert_eq] at h
    split at h
    next hk => exact .inr ⟨hk, (Option.some.inj h).symm⟩
    next =>
      left
      split at h
      · exact get?_evict h
      · exact h

omit [DecidableEq K] [Std.TransOrd K] [Std.LawfulEqOrd K] [Std.TransOrd V] in
theorem contains_eq_false_iff {c : Cache K V} {k : K} : c.contains k = false ↔ c.get? k = none := by
  simp [contains, OrderedMap.contains, get?]

omit [DecidableEq K] [Std.TransOrd K] [Std.LawfulEqOrd K] [Std.TransOrd V] in
theorem get?_clear (c : Cache K V) (k : K) : c.clear.get? k = none := rfl

end Cache

/-! ## Verifying requests one by one -/

/-- What verifying the requests under a hash one by one comes to; the verdicts on the withdrawals
of a transaction are combined. -/
inductive RequestSet.Judged (s : RequestSet) (single : Check → SingleReply) (hash : Hash) :
    Verdict → Prop
  | certificate {r} (hget : s.certificates.get? hash = some r) :
      Judged s single hash (Replies.judge single (.certificate r.check))
  | transaction {group} (hget : s.groups.get? hash = some group) :
      Judged s single hash
        (.combine (group.values.map fun r => Replies.judge single (.withdrawal r.check)))

/-- A delivery tells what verifying one by one comes to. -/
theorem Delivery.Tells.judged {old kept : RequestSet} {results : Results} {d : Delivery}
    {single : Check → SingleReply} (h : d.Tells old kept results) (hkept : kept.Keyed)
    (hresults : results.Judge (Results.Resolved fun check verdict =>
      verdict = Replies.judge single check) kept.requests) :
    kept.Judged single d.hash d.verdict := by
  cases h with
  | certificate hget _ hverdict =>
    rw [hverdict, (hkept.resolved_certificate hresults hget).2]
    exact .certificate hget
  | @transaction group _ _ hget _ _ hverdict =>
    have hverdicts : (group.values.map fun r => results.verdict (.withdrawal d.hash r.position)) =
        group.values.map fun r => Replies.judge single (.withdrawal r.check) :=
      List.map_congr_left fun r hr => (hkept.resolved_withdrawal hresults hget hr).2
    rw [hverdict, hverdicts]
    exact .transaction hget

namespace Event

/-- The enqueues of a hash came to the same checks. -/
def SameChecks (hash : Hash) (events : List Event) : Prop :=
  ∀ e ∈ events, ∀ e' ∈ events, (∃ r ∈ e.requests, r.id.parent = hash) →
    (∃ r ∈ e'.requests, r.id.parent = hash) →
    e.requests.map Request.check = e'.requests.map Request.check

variable {hash : Hash} {event event' : Event} {events : List Event}

theorem requests_of_certificate? {r : CertificateRequest} (h : event.certificate? = some r) :
    event.requests = [.certificate r] := by
  simp [requests, h, withdrawals_eq_nil h]

theorem EnqueuesTransaction.requests_eq (h : event.EnqueuesTransaction hash) :
    event.requests = event.withdrawals.map .withdrawal := by
  obtain ⟨r, hr, -⟩ := h
  simp [requests, certificate?_eq_none (List.ne_nil_of_mem hr)]

theorem EnqueuesCertificate.exists_request (h : event.EnqueuesCertificate hash) :
    ∃ r ∈ event.requests, r.id.parent = hash := by
  obtain ⟨r, hr, rfl⟩ := h
  exact ⟨.certificate r, certificate_mem_requests.mpr hr, rfl⟩

theorem EnqueuesTransaction.exists_request (h : event.EnqueuesTransaction hash) :
    ∃ r ∈ event.requests, r.id.parent = hash := by
  obtain ⟨r, hr, rfl⟩ := h
  exact ⟨.withdrawal r, withdrawal_mem_requests.mpr hr, rfl⟩

/-- A hash that comes to the same checks is that of objects of one kind. -/
theorem SameChecks.not_both (h : SameChecks hash events) (hevent : event ∈ events)
    (hevent' : event' ∈ events) (hcertificate : event.EnqueuesCertificate hash)
    (htransaction : event'.EnqueuesTransaction hash) : False := by
  have hchecks := h event hevent event' hevent' hcertificate.exists_request
    htransaction.exists_request
  obtain ⟨r, hr, -⟩ := hcertificate
  rw [requests_of_certificate? hr, htransaction.requests_eq] at hchecks
  cases hwithdrawals : event'.withdrawals <;> simp [hwithdrawals, Request.check] at hchecks

theorem SameChecks.certificate (h : SameChecks hash events) (hevent : event ∈ events)
    (hevent' : event' ∈ events) {r r' : CertificateRequest} (hr : event.certificate? = some r)
    (hr' : event'.certificate? = some r') (hhash : r.hash = hash) (hhash' : r'.hash = hash) :
    r.check = r'.check := by
  have hchecks := h event hevent event' hevent' (EnqueuesCertificate.exists_request ⟨r, hr, hhash⟩)
    (EnqueuesCertificate.exists_request ⟨r', hr', hhash'⟩)
  rw [requests_of_certificate? hr, requests_of_certificate? hr'] at hchecks
  simpa [Request.check] using hchecks

theorem SameChecks.withdrawals (h : SameChecks hash events) (hevent : event ∈ events)
    (hevent' : event' ∈ events) (henqueues : event.EnqueuesTransaction hash)
    (henqueues' : event'.EnqueuesTransaction hash) :
    event.withdrawals.map (·.check) = event'.withdrawals.map (·.check) := by
  have hchecks := h event hevent event' hevent' henqueues.exists_request henqueues'.exists_request
  rw [henqueues.requests_eq, henqueues'.requests_eq, List.map_map, List.map_map] at hchecks
  have hcheck : Request.check ∘ Request.withdrawal = Check.withdrawal ∘ WithdrawalRequest.check :=
    rfl
  rw [hcheck, ← List.map_map, ← List.map_map] at hchecks
  exact List.map_injective_iff.mpr (fun _ _ heq => Check.withdrawal.inj heq) hchecks

theorem SameChecks.samePositions (h : SameChecks hash events) : SamePositions hash events := by
  intro e he e' he' henqueues henqueues'
  have hlength := congrArg List.length (h.withdrawals he he' henqueues henqueues')
  rw [List.length_map, List.length_map] at hlength
  obtain ⟨_, t, _, _, -, hrequests, -⟩ := henqueues.exists_transaction
  obtain ⟨_, t', _, _, -, hrequests', -⟩ := henqueues'.exists_transaction
  rw [Transaction.length_requests hrequests, Transaction.length_requests hrequests'] at hlength
  rw [(Transaction.requests_eq_ok hrequests).2.1, (Transaction.requests_eq_ok hrequests').2.1,
    hlength]

end Event

/-- Groups of the same checks come to one verdict. -/
theorem Queue.combine_groupOf_congr {rs rs' : List WithdrawalRequest} (f : WithdrawalCheck → Verdict)
    (hpositions : rs.map (·.position) = rs'.map (·.position))
    (hchecks : rs.map (·.check) = rs'.map (·.check)) :
    Verdict.combine ((groupOf rs).values.map fun r => f r.check) =
      Verdict.combine ((groupOf rs').values.map fun r => f r.check) := by
  have hmem (rs : List WithdrawalRequest) (v : Verdict) :
      v ∈ ((groupOf rs).values.map fun r => f r.check) ↔
        ∃ position, (((groupOf rs).get? position).map (·.check)).map f = some v := by
    simp only [List.mem_map, mem_values_iff, Option.map_map, Option.map_eq_some_iff,
      Function.comp_apply]
    constructor
    · rintro ⟨r, ⟨position, hget⟩, hv⟩
      exact ⟨position, r, hget, hv⟩
    · rintro ⟨position, r, hget, hv⟩
      exact ⟨r, ⟨position, hget⟩, hv⟩
  refine Verdict.combine_congr ?_
  intro v
  simp only [hmem, map_check_get?_groupOf hpositions hchecks]

/-- Sets that hold a hash as it was last enqueued judge it alike, if all its enqueues came to the
same checks. -/
theorem RequestSet.Judged.unique {s t : RequestSet} {before events : List Event}
    (hs : s.Latest before) (hsknown : s.Known before) (ht : t.Latest events)
    (htknown : t.Known events) (hsub : before ⊆ events) {single : Check → SingleReply} {hash : Hash}
    (hsame : Event.SameChecks hash events) {verdict verdict' : Verdict}
    (h : s.Judged single hash verdict) (h' : t.Judged single hash verdict') :
    verdict = verdict' := by
  have hpositions := hsame.samePositions
  cases h with
  | certificate hget =>
    obtain ⟨e, he, her⟩ := hs.certificate hget
    cases h' with
    | certificate hget' =>
      obtain ⟨e', he', her'⟩ := ht.certificate hget'
      rw [hsame.certificate (hsub he.mem) he'.mem her her' (hsknown.keyed.certificate hget)
        (htknown.keyed.certificate hget')]
    | transaction hget' =>
      obtain ⟨e', he', -⟩ := ht.group hpositions hget'
      exact (hsame.not_both (hsub he.mem) he'.mem he.holds he'.holds).elim
  | transaction hget =>
    obtain ⟨e, he, rfl⟩ := hs.group (hpositions.mono hsub) hget
    cases h' with
    | certificate hget' =>
      obtain ⟨e', he', -⟩ := ht.certificate hget'
      exact (hsame.not_both he'.mem (hsub he.mem) he'.holds he.holds).elim
    | transaction hget' =>
      obtain ⟨e', he', rfl⟩ := ht.group hpositions hget'
      exact Queue.combine_groupOf_congr (fun check => Replies.judge single (.withdrawal check))
        (hpositions e (hsub he.mem) e' he'.mem he.holds he'.holds)
        (hsame.withdrawals (hsub he.mem) he'.mem he.holds he'.holds)

/-! ## Cached verdicts along a run -/

namespace Verifier

variable {config : Config} {v₀ v w : Verifier} {events : List Event} {event : Event}
  {responses : List Response} {response : Response} {replies : Replies}

/-- A verdict is cached when its delivery has been made. -/
theorem Step.cached? (h : v.Step event response w) {hash : Hash} {cached : CachedVerdict}
    (hcached : w.cached? hash = some cached) :
    v.cached? hash = some cached ∨
      ∃ cycle dispatched current rest, v.cycle = some cycle ∧
        cycle.stage = .dispatching dispatched current rest ∧ current.hash = hash ∧
        current.verdict = cached.verdict ∧ event = .delivered (some cached.timestamp) := by
  cases h with
  | reset _ =>
    rw [Verifier.cached?, Cache.get?_clear] at hcached
    cases hcached
  | delivered hcycle hstage =>
    rcases Cache.get?_insert_cases hcached with hold | ⟨rfl, rfl⟩
    · exact .inl hold
    · exact .inr ⟨_, _, _, _, hcycle, hstage, rfl, rfl, rfl⟩
  | _ => exact .inl hcached

/-- A cached verdict is that of requests that an earlier start handed off. -/
theorem Run.cached_judged {single : Check → SingleReply} (hnew : Verifier.new config = .ok v₀)
    (h : v₀.Run (.soundFor single) events responses v) {hash : Hash} {cached : CachedVerdict}
    (hcached : v.cached? hash = some cached) :
    ∃ before force now after responses' u, events = before ++ .start force now :: after ∧
      v₀.Run (.soundFor single) before responses' u ∧ u.kept.Judged single hash cached.verdict := by
  induction h with
  | nil =>
    rw [eq_of_new hnew] at hcached
    cases hcached
  | @concat events responses v event response w hrun _ hhandle ih =>
    rcases (step_of_handle? hhandle).cached? hcached with hold | ⟨_, _, d, _, hcycle, hstage, hd⟩
    · obtain ⟨before, force, now, after, responses', u, rfl, hbefore, hjudged⟩ := ih hold
      exact ⟨before, force, now, after ++ [event], responses', u, by simp, hbefore, hjudged⟩
    · obtain ⟨rfl, hverdict, -⟩ := hd
      obtain ⟨before, u, results, hhandOff, hresults, htells, -⟩ :=
        hrun.tells (Replies.soundFor_justify single) hnew hcycle hstage
      obtain ⟨force, now, after, rfl, -⟩ := hhandOff.started
      obtain ⟨responses', hbefore⟩ := hhandOff.reached
      have hkept := (kept_remainsOf u).keyed (hbefore.known hnew).1.keyed
      refine ⟨before, force, now, after ++ [event], responses', u, by simp, hbefore, ?_⟩
      rw [← hverdict]
      exact htells.judged hkept hresults

/-- A cached verdict is what the requests come to that an earlier start handed off under the hash,
and also what the pending requests under it come to, as long as the enqueues of the hash came to
the same checks. -/
theorem cached_verdict_eq {single : Check → SingleReply} (hnew : Verifier.new config = .ok v₀)
    (hrun : v₀.run? events = some (responses, v))
    (hbackend : v₀.AnsweredBy (.soundFor single) events) {hash : Hash} {cached : CachedVerdict}
    (hcached : v.cached? hash = some cached) :
    (∃ before force now after responses' u, events = before ++ .start force now :: after ∧
      v₀.run? before = some (responses', u) ∧ u.kept.Judged single hash cached.verdict) ∧
    (Event.SameChecks hash events →
      ∀ verdict, v.queue.pending.requests.Judged single hash verdict →
        cached.verdict = verdict) := by
  have h := run_of_run? hrun hbackend
  obtain ⟨before, force, now, after, responses', u, hevents, hbefore, hjudged⟩ :=
    h.cached_judged hnew hcached
  refine ⟨⟨before, force, now, after, responses', u, hevents, hbefore.run?_eq, hjudged⟩, ?_⟩
  intro hsame verdict hverdict
  have hkept := kept_remainsOf u
  have hsub : before ⊆ events := hevents ▸ List.subset_append_left _ _
  exact hjudged.unique ((hbefore.latest hnew).of_remainsOf hkept)
    ((hbefore.known hnew).1.of_remainsOf hkept) (h.latest hnew) (h.known hnew).1 hsub hsame hverdict

/-- The blank certificate is verified and delivered, then enqueued under another view. -/
def reenqueueBlank (key other : VerificationKey) : List Event :=
  Event.verifyBlank key ++
    [.delivered (some 0), .enqueueCertificate (.ofKey other) .blank none 0]

/-- A blank certificate is enqueued again under the same view. -/
theorem cached_verdict_eq_blank :
    ∃ v₀ responses v cached verdict, Verifier.new .default = .ok v₀ ∧
      v₀.run? (reenqueueBlank ⟨[]⟩ ⟨[]⟩) = some (responses, v) ∧
      v.cached? Certificate.blank.hash = some cached ∧
      v.queue.pending.requests.Judged (fun _ => .ok true) Certificate.blank.hash verdict ∧
      cached.verdict = verdict := by
  obtain ⟨v₀, hnew⟩ : ∃ v₀, Verifier.new .default = .ok v₀ := ⟨_, rfl⟩
  have hend : ((v₀.run? (reenqueueBlank ⟨[]⟩ ⟨[]⟩)).map fun run =>
      (run.2.cached? Certificate.blank.hash,
        (run.2.queue.pending.requests.certificates.get? Certificate.blank.hash).map (·.check.key))) =
      some (some ⟨0, .passed⟩, some ⟨[]⟩) := by
    cases hnew
    decide +kernel
  obtain ⟨⟨responses, v⟩, hrun, hv⟩ := Option.map_eq_some_iff.mp hend
  simp only [Prod.mk.injEq, Option.map_eq_some_iff] at hv
  obtain ⟨hcached, r, hr, -⟩ := hv
  have hbackend : v₀.AnsweredBy (.soundFor fun _ => .ok true) (reenqueueBlank ⟨[]⟩ ⟨[]⟩) := by
    refine answeredBy_of_awaited rfl ?_
    intro p hp
    obtain ⟨need, event⟩ := p
    rcases List.mem_append.mp (List.of_mem_zip hp).2 with hevent | hevent
    · exact Replies.allows_verifyBlank hevent need
    · simp only [List.mem_cons, List.not_mem_nil, or_false] at hevent
      rcases hevent with rfl | rfl
      · trivial
      · trivial
  have hsame : Event.SameChecks Certificate.blank.hash (reenqueueBlank ⟨[]⟩ ⟨[]⟩) := by
    have hrequests : ∀ e ∈ reenqueueBlank ⟨[]⟩ ⟨[]⟩, ∀ r ∈ e.requests,
        e = .enqueueCertificate (.ofKey ⟨[]⟩) .blank none 0 := by
      intro e he r hr
      simp only [reenqueueBlank, Event.verifyBlank, List.cons_append, List.nil_append,
        List.mem_cons, List.not_mem_nil, or_false] at he
      rcases he with rfl | rfl | rfl | rfl | rfl | rfl
      · rfl
      · cases hr
      · cases hr
      · cases hr
      · cases hr
      · rfl
    rintro e he e' he' ⟨r, hr, _⟩ ⟨r', hr', _⟩
    rw [hrequests e he r hr, hrequests e' he' r' hr']
  exact ⟨v₀, responses, v, _, _, hnew, hrun, hcached, .certificate hr,
    (cached_verdict_eq hnew hrun hbackend hcached).2 hsame _ (.certificate hr)⟩

/-- A start drops a pending certificate for a cached verdict that is not what its own request would
come to: the sidechain's key has changed since. -/
theorem cached_verdict_stale :
    ∃ single v₀ responses v cached verdict response w, Verifier.new .default = .ok v₀ ∧
      v₀.run? (reenqueueBlank ⟨[0]⟩ ⟨[1]⟩) = some (responses, v) ∧
      v₀.AnsweredBy (.soundFor single) (reenqueueBlank ⟨[0]⟩ ⟨[1]⟩) ∧
      v.cached? Certificate.blank.hash = some cached ∧
      v.queue.pending.requests.Judged single Certificate.blank.hash verdict ∧
      v.handle? (.start true 0) = some (response, w) ∧
      response = .stepped [.draining, .idle] (.finished (.completed 1 0 0)) ∧
      cached.verdict ≠ verdict := by
  obtain ⟨v₀, hnew⟩ : ∃ v₀, Verifier.new .default = .ok v₀ := ⟨_, rfl⟩
  have hend : ((v₀.run? (reenqueueBlank ⟨[0]⟩ ⟨[1]⟩)).map fun run =>
      (run.2.cached? Certificate.blank.hash,
        (run.2.queue.pending.requests.certificates.get? Certificate.blank.hash).map (·.check.key),
        (run.2.handle? (.start true 0)).map Prod.fst)) =
      some (some ⟨0, .passed⟩, some ⟨[1]⟩,
        some (.stepped [.draining, .idle] (.finished (.completed 1 0 0)))) := by
    cases hnew
    decide +kernel
  obtain ⟨⟨responses, v⟩, hrun, hv⟩ := Option.map_eq_some_iff.mp hend
  simp only [Prod.mk.injEq, Option.map_eq_some_iff] at hv
  obtain ⟨hcached, ⟨r, hr, hkey⟩, ⟨response, w⟩, hstart, hresponse⟩ := hv
  have hawaited : (v₀.trace (reenqueueBlank ⟨[0]⟩ ⟨[1]⟩)).map (fun t => t.before.awaited?) =
      [none, none,
        some (.batch (.certificates [⟨.zero, none, 0, 0, [], [], .zero, .zero, 0, 0, ⟨[]⟩, ⟨[0]⟩⟩])),
        some .take, some (.delivery ⟨.certificate .blank, none, .verified, .valid⟩), none] := by
    cases hnew
    decide +kernel
  -- Only the first key is good.
  refine ⟨fun check => .ok (check.key == ⟨[0]⟩), v₀, responses, v, _, _, response, w, hnew, hrun,
    answeredBy_of_awaited hawaited ?_, hcached, .certificate hr, hstart, hresponse, ?_⟩
  · simp only [reenqueueBlank, Event.verifyBlank, List.cons_append, List.nil_append,
      List.zip_cons_cons, List.zip_nil_right, List.forall_mem_cons]
    refine ⟨trivial, trivial, ?_, trivial, trivial, trivial, by simp⟩
    intro call hcall answer hanswer
    cases hcall
    cases hanswer
    exact ⟨by simp [BatchCall.checks, Check.key], by simp⟩
  · have hkey' : Check.key (.certificate r.check) = ⟨[1]⟩ := hkey
    rw [Replies.judge_eq_failed_iff.mpr (by simp [hkey'])]
    decide

end Verifier

end SidechainVerifier
