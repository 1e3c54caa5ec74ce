/-
SidechainVerifier.Proofs.Inquiries — which requests a backend was asked
about, and what was learnt from it.

A backend sees checks, not requests, and names proofs by their position in
a batch. `BatchVerification.inquiries` reads a log of exchanges with the
list of requests at hand: a batch call is about the requests of its family
that are open at the time, in list order, and single checks go through the
requests that are open after the last batch call. The results of a
verification are what is learnt from its exchanges one after the other
(`run_verify_eq`).

Main statement: a request fails exactly if a batch answer names one with its
identity and does not vouch for the whole batch (`Inquiry.NamedIn`), or if a
single check under its identity does not succeed and no later one does
(`Inquiry.UnconfirmedIn`); this is `verify_failed_iff`. What a backend blames
otherwise may pass: `exists_blamed_passed`.
-/
import SidechainVerifier.Proofs.BackendRuns

namespace SidechainVerifier

open OrderedMap

/-! ## Exchanges with a backend -/

/-- Vouches for every batch and blames its first proof in one answer. -/
def Backend.contradictory : Backend Unit where
  batch _ s := (.ok ⟨true, [0]⟩, s)
  single _ s := (.ok true, s)

/-- Cannot check batches, and refuses the first proof that is checked singly, but no other. -/
def Backend.wavering : Backend Bool where
  batch _ s := (.error (.backend "busy"), s)
  single _ s := (.ok s, true)

/-- A question to a backend, with the reply that came to it. -/
inductive Exchange where
  | batch (call : BatchCall) (reply : BatchReply)
  | single (check : Check) (reply : SingleReply)

/-- The reply, if it is to a single check. -/
def Exchange.single? : Exchange → Option SingleReply
  | .batch _ _ => none
  | .single _ reply => some reply

namespace Consultation

variable {σ α β : Type} {backend : Backend σ}

/-- The exchanges of a consultation whose questions a backend answers, in their order. -/
def exchanges (backend : Backend σ) : Consultation α → σ → List Exchange
  | .done _, _ => []
  | .abandoned, _ => []
  | .batch call next, s =>
    let (reply, s) := backend.batch call s
    .batch call reply :: (next (some reply)).exchanges backend s
  | .single check next, s =>
    let (reply, s) := backend.single check s
    .single check reply :: (next (some reply)).exchanges backend s

/-- After a log of exchanges with a backend there is a value. -/
structure Ends (backend : Backend σ) (c : Consultation α) (s : σ) (log : List Exchange) (value : α)
    (t : σ) : Prop where
  exchanges_eq : c.exchanges backend s = log
  run_eq : c.run backend s = (some value, t)

theorem ends_done (value : α) (s : σ) : (done value).Ends backend s [] value s := ⟨rfl, rfl⟩

theorem Ends.bind {f : α → Consultation β} {value : α} {value' : β} {log' : List Exchange}
    {t u : σ} (hf : (f value).Ends backend t log' value' u) :
    ∀ {c : Consultation α} {s : σ} {log : List Exchange}, c.Ends backend s log value t →
      (c >>= f).Ends backend s (log ++ log') value' u
  | .done _, _, _, ⟨hlog, hrun⟩ => by
    cases hrun
    cases hlog
    exact hf
  | .abandoned, _, _, ⟨_, hrun⟩ => by cases hrun
  | .batch call next, s, _, ⟨hlog, hrun⟩ => by
    obtain ⟨hlog', hrun'⟩ := Ends.bind hf
      (c := next (some (backend.batch call s).1)) ⟨rfl, hrun⟩
    subst hlog
    exact ⟨congrArg (List.cons _) hlog', hrun'⟩
  | .single check next, s, _, ⟨hlog, hrun⟩ => by
    obtain ⟨hlog', hrun'⟩ := Ends.bind hf
      (c := next (some (backend.single check s).1)) ⟨rfl, hrun⟩
    subst hlog
    exact ⟨congrArg (List.cons _) hlog', hrun'⟩

/-- A batch about certificates is one exchange, or silence when there are none. -/
theorem exists_ends_askCertificates (backend : Backend σ) (checks : List CertificateCheck) (s : σ) :
    ∃ reply t log, (askCertificates checks).Ends backend s log (some reply) t ∧
      (log = [.batch (.certificates checks) reply] ∨ log = [] ∧ reply = .ok .silent) := by
  unfold askCertificates
  split
  · exact ⟨_, _, _, ends_done _ _, .inr ⟨rfl, rfl⟩⟩
  · exact ⟨_, _, _, ⟨rfl, rfl⟩, .inl rfl⟩

/-- A batch about withdrawals is one exchange, or silence when there are none. -/
theorem exists_ends_askWithdrawals (backend : Backend σ) (checks : List WithdrawalCheck) (s : σ) :
    ∃ reply t log, (askWithdrawals checks).Ends backend s log (some reply) t ∧
      (log = [.batch (.withdrawals checks) reply] ∨ log = [] ∧ reply = .ok .silent) := by
  unfold askWithdrawals
  split
  · exact ⟨_, _, _, ends_done _ _, .inr ⟨rfl, rfl⟩⟩
  · exact ⟨_, _, _, ⟨rfl, rfl⟩, .inl rfl⟩

end Consultation

/-! ## What exchanges are about -/

/-- An exchange, with the requests it is about. -/
inductive Inquiry where
  | batch (call : BatchCall) (requests : List Request) (reply : BatchReply)
  | single (request : Request) (reply : SingleReply)
deriving DecidableEq

namespace Inquiry

/-- The exchange as the backend sees it. -/
def exchange : Inquiry → Exchange
  | batch call _ reply => .batch call reply
  | single request reply => .single request.check reply

/-- The requests it is about. -/
def requests : Inquiry → List Request
  | batch _ requests _ => requests
  | single request _ => [request]

/-- The checks of a batch are those of the requests, in the same places. -/
def Placed : Inquiry → Prop
  | batch call requests _ => call.checks = requests.map Request.check
  | single _ _ => True

/-- The backend names a request as invalid: by its place in a batch, or because its single check
does not succeed. -/
def Blames (r : Request) : Inquiry → Prop
  | batch _ requests reply => ∃ answer, reply = .ok answer ∧ ∃ i ∈ answer.failed, requests[i]? = some r
  | single request reply => r = request ∧ reply ≠ .ok true

/-- The backend vouches for a whole batch. -/
def Vouches : Inquiry → Prop
  | batch _ _ reply => ∃ answer, reply = .ok answer ∧ answer.allValid = true
  | single _ _ => False

/-- The inquiry is a single check. -/
def IsSingle : Inquiry → Prop
  | batch _ _ _ => False
  | single _ _ => True

/-- In a log, a batch answer names a request with some identity, and does not vouch for the whole
batch. -/
def NamedIn (log : List Inquiry) (id : RequestId) : Prop :=
  ∃ q ∈ log, ¬ q.IsSingle ∧ ¬ q.Vouches ∧ ∃ r, r.id = id ∧ q.Blames r

/-- In a log, a single check under some identity does not succeed, and no later one does. -/
def UnconfirmedIn (log : List Inquiry) (id : RequestId) : Prop :=
  ∃ before r reply after, log = before ++ .single r reply :: after ∧ r.id = id ∧
    reply ≠ .ok true ∧ ∀ r', .single r' (.ok true) ∈ after → r'.id ≠ id

variable {log : List Inquiry} {id : RequestId}

theorem NamedIn.cons (q : Inquiry) : NamedIn log id → NamedIn (q :: log) id
  | ⟨q', hq', h⟩ => ⟨q', List.mem_cons_of_mem _ hq', h⟩

theorem UnconfirmedIn.cons (q : Inquiry) : UnconfirmedIn log id → UnconfirmedIn (q :: log) id
  | ⟨before, r, reply, after, hlog, h⟩ => ⟨q :: before, r, reply, after, congrArg _ hlog, h⟩

end Inquiry

/-- A request is of the family that a batch call is about. -/
def BatchCall.concerns : BatchCall → Request → Bool
  | .certificates _, r => r.certificate?.isSome
  | .withdrawals _, r => r.withdrawal?.isSome

/-- The results after one more inquiry. -/
def Results.learn (results : Results) : Inquiry → Results
  | .batch _ requests reply => results.apply (requests.map Request.id) reply
  | .single request reply => results.insert request.id (.ofReply reply)

namespace BatchVerification

/-- Single checks of requests, with their replies. -/
def singles (requests : List Request) (replies : List SingleReply) : List Inquiry :=
  (requests.zip replies).map fun (r, reply) => .single r reply

/-- What the exchanges of a log are about, when verification goes on from some results. -/
def inquiries (requests : List Request) : Results → List Exchange → List Inquiry
  | _, [] => []
  | results, .batch call reply :: rest =>
    let inquiry := .batch call ((results.openRequests requests).filter call.concerns) reply
    inquiry :: inquiries requests (results.learn inquiry) rest
  | results, .single check reply :: rest =>
    singles (results.openRequests requests) ((.single check reply :: rest).filterMap Exchange.single?)

end BatchVerification

/-! ## What an inquiry changes -/

namespace Results

variable {results : Results} {id : RequestId} {ids : List RequestId} {verdict : Verdict}

theorem get?_setAll (results : Results) (verdict : Verdict) (ids : List RequestId)
    (id : RequestId) : (results.setAll verdict ids).get? id =
      if id ∈ ids then some verdict else results.get? id := by
  induction ids generalizing results with
  | nil => simp [setAll]
  | cons id' rest ih =>
    rw [setAll, List.foldl_cons, ← setAll, ih, get?_insert_eq]
    by_cases hrest : id ∈ rest
    · simp [hrest]
    · by_cases hid : id = id'
      · simp [hid]
      · simp [hrest, hid]

theorem eq_of_get?_uniform {requests : List Request} {verdict' : Verdict}
    (h : (uniform verdict requests).get? id = some verdict') : verdict = verdict' := by
  rw [uniform, get?_ofList, Option.map_eq_some_iff] at h
  obtain ⟨e, he, rfl⟩ := h
  obtain ⟨r, -, rfl⟩ := List.mem_map.mp (List.mem_reverse.mp (List.mem_of_find?_eq_some he))
  rfl

/-- A batch answer changes no verdict but those of the batch. -/
theorem get?_apply_of_notMem {reply : BatchReply} (h : id ∉ ids) :
    (results.apply ids reply).get? id = results.get? id := by
  cases reply with
  | error e => rfl
  | ok answer =>
    simp only [apply]
    split
    · rw [get?_setAll, if_neg h]
    · rw [get?_setAll, if_neg]
      intro hmem
      obtain ⟨i, -, hi⟩ := List.mem_filterMap.mp hmem
      exact h (List.mem_of_getElem? hi)

/-- No batch answer opens a request again. -/
theorem open_of_apply {reply : BatchReply} (h : (results.apply ids reply).get? id = some .unknown) :
    results.get? id = some .unknown := by
  cases reply with
  | error e => exact h
  | ok answer =>
    simp only [apply] at h
    split at h <;> rw [get?_setAll] at h <;> split at h
    · cases h
    · exact h
    · cases h
    · exact h

theorem get?_learn_of_forall_ne {q : Inquiry} (h : ∀ r ∈ q.requests, r.id ≠ id) :
    (results.learn q).get? id = results.get? id := by
  cases q with
  | batch call requests reply =>
    refine get?_apply_of_notMem ?_
    intro hmem
    obtain ⟨r, hr, hid⟩ := List.mem_map.mp hmem
    exact h r hr hid
  | single request reply =>
    exact get?_insert_of_ne _ _ (h request (List.mem_singleton.mpr rfl)).symm

theorem get?_foldl_learn_of_forall_ne {log : List Inquiry}
    (h : ∀ q ∈ log, ∀ r ∈ q.requests, r.id ≠ id) :
    (log.foldl learn results).get? id = results.get? id := by
  induction log generalizing results with
  | nil => rfl
  | cons q rest ih =>
    rw [List.foldl_cons, ih fun q' hq' => h q' (List.mem_cons_of_mem _ hq'),
      get?_learn_of_forall_ne (h q List.mem_cons_self)]

/-- What is blamed fails, unless the whole batch is vouched for in the same breath. -/
theorem get?_learn_of_blames {q : Inquiry} {r : Request} (hblames : q.Blames r)
    (hvouches : ¬ q.Vouches) : (results.learn q).get? r.id = some .failed := by
  cases q with
  | batch call requests reply =>
    obtain ⟨answer, rfl, i, hi, hr⟩ := hblames
    have hvalid : ¬ answer.allValid = true := fun hvalid => hvouches ⟨answer, rfl, hvalid⟩
    simp only [learn, apply, if_neg hvalid, get?_setAll]
    exact if_pos (List.mem_filterMap.mpr ⟨i, hi, by simp [hr]⟩)
  | single request reply =>
    obtain ⟨rfl, hne⟩ := hblames
    rw [learn, get?_insert_self, Verdict.ofReply_eq_failed_iff.mpr hne]

/-- A verdict fails because it is blamed and the batch not vouched for, or it had failed before, and
this is no single check that succeeds. -/
theorem failed_or_blames_of_get?_learn {q : Inquiry}
    (h : (results.learn q).get? id = some .failed) :
    (results.get? id = some .failed ∧ ∀ r, q = .single r (.ok true) → r.id ≠ id) ∨
      (∃ r, r.id = id ∧ q.Blames r) ∧ ¬ q.Vouches := by
  cases q with
  | batch call requests reply =>
    have hbatch : ∀ r, Inquiry.batch call requests reply = .single r (.ok true) → r.id ≠ id := by
      intro r hq
      cases hq
    cases reply with
    | error e => exact .inl ⟨h, hbatch⟩
    | ok answer =>
      simp only [learn, apply] at h
      split at h
      next hvalid =>
        rw [get?_setAll] at h
        split at h
        · cases h
        · exact .inl ⟨h, hbatch⟩
      next hinvalid =>
        rw [get?_setAll] at h
        split at h
        next hmem =>
          obtain ⟨i, hi, hid⟩ := List.mem_filterMap.mp hmem
          rw [List.getElem?_map, Option.map_eq_some_iff] at hid
          obtain ⟨r, hr, hrid⟩ := hid
          refine .inr ⟨⟨r, hrid, answer, rfl, i, hi, hr⟩, ?_⟩
          rintro ⟨answer', hanswer, hvalid⟩
          cases hanswer
          exact hinvalid hvalid
        next => exact .inl ⟨h, hbatch⟩
  | single request reply =>
    rw [learn, get?_insert_eq] at h
    split at h
    next hid =>
      have hreply := Verdict.ofReply_eq_failed_iff.mp (Option.some.inj h)
      exact .inr ⟨⟨request, hid.symm, rfl, hreply⟩, not_false⟩
    next hid =>
      refine .inl ⟨h, ?_⟩
      intro r hq
      cases hq
      exact Ne.symm hid

/-- What has failed when all is learnt had failed before, with no single check that succeeds since,
or is named by a batch answer, or unconfirmed. -/
theorem failed_cases_of_get?_foldl_learn {log : List Inquiry}
    (h : (log.foldl learn results).get? id = some .failed) :
    (results.get? id = some .failed ∧ ∀ r, .single r (.ok true) ∈ log → r.id ≠ id) ∨
      Inquiry.NamedIn log id ∨ Inquiry.UnconfirmedIn log id := by
  induction log generalizing results with
  | nil => exact .inl ⟨h, nofun⟩
  | cons q rest ih =>
    rcases ih h with ⟨hlearn, hpasses⟩ | hnamed | hunconfirmed
    · rcases failed_or_blames_of_get?_learn hlearn with
        ⟨hfailed, hnot⟩ | ⟨⟨r, hid, hblames⟩, hvouches⟩
      · refine .inl ⟨hfailed, fun r hr => ?_⟩
        rcases List.mem_cons.mp hr with hr | hr
        · exact hnot r hr.symm
        · exact hpasses r hr
      · cases q with
        | batch call requests reply =>
          exact .inr (.inl ⟨_, List.mem_cons_self, nofun, hvouches, r, hid, hblames⟩)
        | single request reply =>
          obtain ⟨rfl, hreply⟩ := hblames
          exact .inr (.inr ⟨[], r, reply, rest, rfl, hid, hreply, hpasses⟩)
    · exact .inr (.inl (hnamed.cons q))
    · exact .inr (.inr (hunconfirmed.cons q))

/-- A failure lasts through single checks that do not succeed. -/
theorem get?_foldl_learn_of_failed {log : List Inquiry} (h : results.get? id = some .failed)
    (hsingle : ∀ q ∈ log, q.IsSingle) (hpasses : ∀ r, .single r (.ok true) ∈ log → r.id ≠ id) :
    (log.foldl learn results).get? id = some .failed := by
  induction log generalizing results with
  | nil => exact h
  | cons q rest ih =>
    refine ih ?_ (fun q' hq' => hsingle q' (List.mem_cons_of_mem _ hq'))
      (fun r hr => hpasses r (List.mem_cons_of_mem _ hr))
    cases q with
    | batch call requests reply => exact (hsingle _ List.mem_cons_self).elim
    | single request reply =>
      rw [learn, get?_insert_eq]
      split
      next hid =>
        refine congrArg some (Verdict.ofReply_eq_failed_iff.mpr ?_)
        rintro rfl
        exact hpasses request List.mem_cons_self hid.symm
      next => exact h

end Results

/-! ## What a log is about -/

namespace BatchVerification

variable {requests : List Request} {results : Results} {log : List Exchange}

theorem mem_singles {replies : List SingleReply} {q : Inquiry} (h : q ∈ singles requests replies) :
    ∃ r ∈ requests, ∃ reply, q = .single r reply := by
  obtain ⟨⟨r, reply⟩, hmem, rfl⟩ := List.mem_map.mp h
  exact ⟨r, (List.of_mem_zip hmem).1, reply, rfl⟩

/-- Requests are asked about only as long as they are open. -/
theorem open_of_mem_inquiries {q : Inquiry} {r : Request}
    (hq : q ∈ inquiries requests results log) (hr : r ∈ q.requests) :
    results.get? r.id = some .unknown := by
  have hopen {r : Request} (hr : r ∈ results.openRequests requests) :
      results.get? r.id = some .unknown := by
    simpa using (List.mem_filter.mp hr).2
  induction log generalizing results with
  | nil => simp [inquiries] at hq
  | cons exchange rest ih =>
    cases exchange with
    | batch call reply =>
      rcases List.mem_cons.mp hq with rfl | hq
      · exact hopen (List.mem_filter.mp hr).1
      · refine Results.open_of_apply (ih hq ?_)
        intro r hr
        simpa using (List.mem_filter.mp hr).2
    | single check reply =>
      obtain ⟨r', hr', reply', rfl⟩ := mem_singles hq
      rw [List.mem_singleton.mp hr]
      exact hopen hr'

/-- Only single checks come after a single check. -/
theorem isSingle_of_inquiries {before after : List Inquiry} {q : Inquiry}
    (h : inquiries requests results log = before ++ q :: after) (hq : q.IsSingle) :
    ∀ q' ∈ after, q'.IsSingle := by
  induction log generalizing results before with
  | nil => simp [inquiries] at h
  | cons exchange rest ih =>
    cases exchange with
    | batch call reply =>
      cases before with
      | nil =>
        rw [List.nil_append] at h
        injection h with hhead
        rw [← hhead] at hq
        exact hq.elim
      | cons first before =>
        injection h with _ htail
        exact ih htail
    | single check reply =>
      intro q' hq'
      have hmem : q' ∈ inquiries requests results (.single check reply :: rest) := by
        rw [h]
        simp [hq']
      obtain ⟨r', -, reply', rfl⟩ := mem_singles hmem
      trivial

/-- A request that is blamed, with the batch not vouched for, has failed when all is learnt. -/
theorem failed_of_batch_blames {q : Inquiry} {r : Request}
    (hq : q ∈ inquiries requests results log) (hbatch : ¬ q.IsSingle) (hblames : q.Blames r)
    (hvouches : ¬ q.Vouches) :
    ((inquiries requests results log).foldl Results.learn results).get? r.id = some .failed := by
  induction log generalizing results with
  | nil => simp [inquiries] at hq
  | cons exchange rest ih =>
    cases exchange with
    | batch call reply =>
      rcases List.mem_cons.mp hq with rfl | hq
      · have hfailed : (results.learn _).get? r.id = some .failed :=
          Results.get?_learn_of_blames hblames hvouches
        rw [inquiries, List.foldl_cons, Results.get?_foldl_learn_of_forall_ne, hfailed]
        intro q' hq' r' hr' hid
        have hopen := open_of_mem_inquiries hq' hr'
        rw [hid, hfailed] at hopen
        cases hopen
      · exact ih hq
    | single check reply =>
      obtain ⟨r', -, reply', rfl⟩ := mem_singles hq
      exact (hbatch trivial).elim

/-- A request whose single check does not succeed has failed when all is learnt, unless a later
check under its identity succeeds. -/
theorem failed_of_single_blames {before after : List Inquiry} {r : Request} {reply : SingleReply}
    (h : inquiries requests results log = before ++ .single r reply :: after)
    (hreply : reply ≠ .ok true) (hpasses : ∀ r', .single r' (.ok true) ∈ after → r'.id ≠ r.id) :
    ((inquiries requests results log).foldl Results.learn results).get? r.id = some .failed := by
  rw [h, List.foldl_append, List.foldl_cons]
  refine Results.get?_foldl_learn_of_failed ?_ (isSingle_of_inquiries h trivial) hpasses
  exact Results.get?_learn_of_blames ⟨rfl, hreply⟩ id

/-! ## The log of a verification -/

/-- Read as inquiries, a log leads from some results to others, whatever comes after it. -/
structure Leads (requests : List Request) (results : Results) (log : List Exchange)
    (read : List Inquiry) (results' : Results) : Prop where
  placed : ∀ q ∈ read, q.Placed
  exchanges : read.map Inquiry.exchange = log
  learnt : read.foldl Results.learn results = results'
  reads : ∀ rest, inquiries requests results (log ++ rest) = read ++ inquiries requests results' rest

theorem Leads.refl (requests : List Request) (results : Results) :
    Leads requests results [] [] results := ⟨by simp, rfl, rfl, fun _ => rfl⟩

theorem Leads.trans {results' results'' : Results} {log' : List Exchange} {read read' : List Inquiry}
    (h : Leads requests results log read results')
    (h' : Leads requests results' log' read' results'') :
    Leads requests results (log ++ log') (read ++ read') results'' where
  placed q hq := (List.mem_append.mp hq).elim (h.placed q) (h'.placed q)
  exchanges := by rw [List.map_append, h.exchanges, h'.exchanges]
  learnt := by rw [List.foldl_append, h.learnt, h'.learnt]
  reads rest := by rw [List.append_assoc, h.reads, h'.reads, List.append_assoc]

/-- A batch call about open requests leads to what its reply says, and so does a call that was not
made. -/
theorem exists_leads_batch {call : BatchCall} {asked : List Request}
    (hasked : (results.openRequests requests).filter call.concerns = asked)
    (hcall : call.checks = asked.map Request.check) {ids : List RequestId}
    (hids : ids = asked.map Request.id) {log : List Exchange} {reply : BatchReply}
    (hlog : log = [.batch call reply] ∨ log = [] ∧ reply = .ok .silent) :
    ∃ read, Leads requests results log read (results.apply ids reply) := by
  subst hasked hids
  rcases hlog with rfl | ⟨rfl, rfl⟩
  · refine ⟨[.batch call _ reply], ?_, rfl, rfl, fun _ => rfl⟩
    intro q hq
    rw [List.mem_singleton.mp hq]
    exact hcall
  · exact ⟨[], .refl requests results⟩

theorem filter_concerns_certificates (requests : List Request) (checks : List CertificateCheck) :
    requests.filter (BatchCall.certificates checks).concerns =
      (requests.filterMap Request.certificate?).map .certificate := by
  induction requests with
  | nil => rfl
  | cons r rest ih =>
    cases r with
    | certificate c =>
      rw [List.filter_cons_of_pos rfl, ih]
      rfl
    | withdrawal w =>
      rw [List.filter_cons_of_neg (by simp [BatchCall.concerns, Request.certificate?]), ih]
      rfl

theorem filter_concerns_withdrawals (requests : List Request) (checks : List WithdrawalCheck) :
    requests.filter (BatchCall.withdrawals checks).concerns =
      (requests.filterMap Request.withdrawal?).map .withdrawal := by
  induction requests with
  | nil => rfl
  | cons r rest ih =>
    cases r with
    | certificate c =>
      rw [List.filter_cons_of_neg (by simp [BatchCall.concerns, Request.withdrawal?]), ih]
      rfl
    | withdrawal w =>
      rw [List.filter_cons_of_pos rfl, ih]
      rfl

/-- What is learnt about certificates opens and closes no request for a withdrawal. -/
theorem filter_concerns_openRequests_apply (certificates : List CertificateRequest)
    (reply : BatchReply) (checks : List WithdrawalCheck) :
    ((results.apply (certificates.map (·.id)) reply).openRequests requests).filter
        (BatchCall.withdrawals checks).concerns =
      (results.openRequests requests).filter (BatchCall.withdrawals checks).concerns := by
  rw [Results.openRequests, Results.openRequests, List.filter_filter, List.filter_filter]
  refine List.filter_congr ?_
  intro r _
  cases r with
  | certificate c => rfl
  | withdrawal w =>
    rw [Results.get?_apply_of_notMem]
    simp [CertificateRequest.id, Request.id, WithdrawalRequest.id]

variable {σ : Type} {backend : Backend σ}

/-- An attempt on the requests that are open has a log, which leads to its results. -/
theorem exists_ends_attempt (backend : Backend σ) (requests : List Request) (results : Results)
    (s : σ) :
    ∃ log read results' t,
      (attempt (results.openRequests requests) results).Ends backend s log results' t ∧
        Leads requests results log read results' := by
  let certificates := (results.openRequests requests).filterMap Request.certificate?
  let withdrawals := (results.openRequests requests).filterMap Request.withdrawal?
  obtain ⟨c, t, log, hc, hlog⟩ :=
    Consultation.exists_ends_askCertificates backend (certificates.map (·.check)) s
  obtain ⟨w, u, log', hw, hlog'⟩ :=
    Consultation.exists_ends_askWithdrawals backend (withdrawals.map (·.check)) t
  let between := results.apply (certificates.map (·.id)) c
  obtain ⟨read, hread⟩ : ∃ read, Leads requests results log read between :=
    exists_leads_batch (filter_concerns_certificates _ _)
      (by simp [certificates, BatchCall.checks, Function.comp_def, Request.check])
      (by simp [certificates, Function.comp_def, Request.id]) hlog
  obtain ⟨read', hread'⟩ : ∃ read,
      Leads requests between log' read (between.apply (withdrawals.map (·.id)) w) :=
    exists_leads_batch
      ((filter_concerns_openRequests_apply _ c _).trans (filter_concerns_withdrawals _ _))
      (by simp [withdrawals, BatchCall.checks, Function.comp_def, Request.check])
      (by simp [withdrawals, Function.comp_def, Request.id]) hlog'
  refine ⟨log ++ (log' ++ []), _, _, u, ?_, hread.trans (log'.append_nil.symm ▸ hread')⟩
  unfold attempt
  dsimp only
  refine .bind ?_ hc
  refine .bind ?_ hw
  exact Consultation.ends_done _ u

theorem exists_ends_attemptAll (backend : Backend σ) (requests : List Request) (count : Nat)
    (results : Results) (s : σ) :
    ∃ log read results' t, (attemptAll requests count results).Ends backend s log results' t ∧
      Leads requests results log read results' := by
  induction count generalizing results s with
  | zero => exact ⟨_, _, _, s, Consultation.ends_done results s, .refl requests results⟩
  | succ count ih =>
    unfold attemptAll
    dsimp only
    split
    · exact ⟨_, _, _, s, Consultation.ends_done results s, .refl requests results⟩
    · obtain ⟨log, read, results', t, hends, hleads⟩ :=
        exists_ends_attempt backend requests results s
      obtain ⟨log', read', results'', u, hends', hleads'⟩ := ih results' t
      exact ⟨_, _, _, u, .bind hends' hends, hleads.trans hleads'⟩

/-- Checking requests one by one has a log of as many single checks. -/
theorem exists_ends_verifyEach (backend : Backend σ) (rest : List Request) (results : Results)
    (s : σ) :
    ∃ replies t, replies.length = rest.length ∧
      (verifyEach rest results).Ends backend s ((singles rest replies).map Inquiry.exchange)
        ((singles rest replies).foldl Results.learn results) t := by
  induction rest generalizing results s with
  | nil => exact ⟨[], s, rfl, Consultation.ends_done results s⟩
  | cons request rest ih =>
    obtain ⟨replies, t, hlength, hends⟩ :=
      ih (results.insert request.id (.ofReply (backend.single request.check s).1))
        (backend.single request.check s).2
    refine ⟨(backend.single request.check s).1 :: replies, t, by simp [hlength], ?_⟩
    have hsingle : (verifySingle .strict request).Ends backend s
        [.single request.check (backend.single request.check s).1]
        (.ofReply (backend.single request.check s).1) (backend.single request.check s).2 :=
      ⟨rfl, rfl⟩
    exact Consultation.Ends.bind (f := fun verdict =>
      verifyEach rest (results.insert request.id verdict)) hends hsingle

theorem filterMap_exchange_singles : ∀ {requests : List Request} {replies : List SingleReply},
    replies.length = requests.length →
      ((singles requests replies).map Inquiry.exchange).filterMap Exchange.single? = replies
  | [], [], _ => rfl
  | _ :: _, reply :: _, h =>
    congrArg (reply :: ·) (filterMap_exchange_singles (Nat.succ.inj h))

/-- A log of single checks of the requests that are open is read as such. -/
theorem inquiries_singles {replies : List SingleReply}
    (hlength : replies.length = (results.openRequests requests).length) :
    inquiries requests results
        ((singles (results.openRequests requests) replies).map Inquiry.exchange) =
      singles (results.openRequests requests) replies := by
  have hreplies := filterMap_exchange_singles hlength
  cases hlog : (singles (results.openRequests requests) replies).map Inquiry.exchange with
  | nil => rw [List.map_eq_nil_iff.mp hlog, inquiries]
  | cons exchange rest =>
    rw [hlog] at hreplies
    cases exchange with
    | batch call reply =>
      have hmem : Exchange.batch call reply ∈
          (singles (results.openRequests requests) replies).map Inquiry.exchange := by
        rw [hlog]
        exact List.mem_cons_self
      obtain ⟨q, hq, hexchange⟩ := List.mem_map.mp hmem
      obtain ⟨r, -, reply', rfl⟩ := mem_singles hq
      cases hexchange
    | single check reply => rw [inquiries, hreplies]

/-- The log of a verification with a backend, read as inquiries about its requests. -/
def readings {σ : Type} (backend : Backend σ) (requests : List Request) (s : σ) : List Inquiry :=
  inquiries requests (.uniform .unknown requests) ((verify .strict requests).exchanges backend s)

/-- A verification ends with what is learnt from its log, which reads as inquiries that agree with
what the backend saw. -/
theorem run_verify_eq (backend : Backend σ) (requests : List Request) (s : σ) :
    ∃ t, (verify .strict requests).run backend s =
        (some ((readings backend requests s).foldl Results.learn (.uniform .unknown requests)), t) ∧
      (readings backend requests s).map Inquiry.exchange =
        (verify .strict requests).exchanges backend s ∧
      ∀ q ∈ readings backend requests s, q.Placed := by
  obtain ⟨log, read, results, t, hends, hleads⟩ :=
    exists_ends_attemptAll backend requests attempts (.uniform .unknown requests) s
  obtain ⟨replies, u, hlength, hends'⟩ :=
    exists_ends_verifyEach backend (results.openRequests requests) results t
  have hverify : (verify .strict requests).Ends backend s
      (log ++ (singles (results.openRequests requests) replies).map Inquiry.exchange)
      ((singles (results.openRequests requests) replies).foldl Results.learn results) u := by
    unfold verify
    refine .bind ?_ hends
    exact hends'
  have hread : readings backend requests s =
      read ++ singles (results.openRequests requests) replies := by
    rw [readings, hverify.exchanges_eq, hleads.reads, inquiries_singles hlength]
  refine ⟨u, ?_, ?_, ?_⟩
  · rw [hread, List.foldl_append, hleads.learnt, hverify.run_eq]
  · rw [hread, List.map_append, hleads.exchanges, hverify.exchanges_eq]
  · rw [hread]
    intro q hq
    rcases List.mem_append.mp hq with hq | hq
    · exact hleads.placed q hq
    · obtain ⟨r, -, reply, rfl⟩ := mem_singles hq
      trivial

/-- A verification with any backend ends, and a result is a failure exactly if a batch answer names a
request with its identity without vouching for the batch, or a single check under its identity does
not succeed and no later one does. -/
theorem verify_failed_iff (backend : Backend σ) (requests : List Request) (s : σ) :
    ∃ results t, (verify .strict requests).run backend s = (some results, t) ∧
      (readings backend requests s).map Inquiry.exchange =
        (verify .strict requests).exchanges backend s ∧
      (∀ q ∈ readings backend requests s, q.Placed) ∧
      ∀ id, results.get? id = some .failed ↔
        Inquiry.NamedIn (readings backend requests s) id ∨
          Inquiry.UnconfirmedIn (readings backend requests s) id := by
  obtain ⟨t, hrun, hexchanges, hplaced⟩ := run_verify_eq backend requests s
  refine ⟨_, t, hrun, hexchanges, hplaced, fun id => ⟨fun hfailed => ?_, ?_⟩⟩
  · rcases Results.failed_cases_of_get?_foldl_learn hfailed with ⟨hfailed, -⟩ | hrefuted
    · cases Results.eq_of_get?_uniform hfailed
    · exact hrefuted
  · rintro (⟨q, hq, hbatch, hvouches, r, rfl, hblames⟩ |
      ⟨before, r, reply, after, hread, rfl, hreply, hpasses⟩)
    · exact failed_of_batch_blames hq hbatch hblames hvouches
    · exact failed_of_single_blames hread hreply hpasses

/-- A request for a certificate with an empty proof. -/
def emptyProofRequest : Request := .certificate (.withProof .zero [])

/-- A request with the same identity and another proof. -/
def otherProofRequest : Request := .certificate (.withProof .zero [1])

/-- A blamed request may pass: when the answer that names it vouches for its batch all the same, and
when a later single check under its identity succeeds. -/
theorem exists_blamed_passed :
    (∃ results t, (verify .strict [emptyProofRequest]).run .contradictory () = (some results, t) ∧
      (∃ q ∈ readings .contradictory [emptyProofRequest] (), q.Blames emptyProofRequest) ∧
      results.get? emptyProofRequest.id = some .passed) ∧
    ∃ results t,
      (verify .strict [otherProofRequest, emptyProofRequest]).run .wavering false =
        (some results, t) ∧
      (∃ q ∈ readings .wavering [otherProofRequest, emptyProofRequest] false,
        q.Blames otherProofRequest) ∧
      results.get? otherProofRequest.id = some .passed := by
  constructor
  · obtain ⟨t, hrun, -⟩ := run_verify_eq .contradictory [emptyProofRequest] ()
    have hread : readings .contradictory [emptyProofRequest] () =
        [.batch (.certificates [(CertificateRequest.withProof .zero []).check]) [emptyProofRequest]
          (.ok ⟨true, [0]⟩)] := by
      decide +kernel
    rw [hread] at hrun ⊢
    refine ⟨_, t, hrun, ⟨_, List.mem_cons_self, ?_⟩, by decide +kernel⟩
    exact ⟨_, rfl, 0, by decide, rfl⟩
  · obtain ⟨t, hrun, -⟩ := run_verify_eq .wavering [otherProofRequest, emptyProofRequest] false
    have hread : (readings .wavering [otherProofRequest, emptyProofRequest] false).drop 2 =
        [.single otherProofRequest (.ok false), .single emptyProofRequest (.ok true)] := by
      decide +kernel
    refine ⟨_, t, hrun, ⟨.single otherProofRequest (.ok false), ?_, rfl, by decide⟩,
      by decide +kernel⟩
    exact List.mem_of_mem_drop (hread ▸ List.mem_cons_self)

end BatchVerification

end SidechainVerifier
