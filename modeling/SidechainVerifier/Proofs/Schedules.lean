/-
SidechainVerifier.Proofs.Schedules — which calls a verification makes, and
when.

The calls of a verification are determined by what it has learnt so far.
Every attempt makes one batch call for each family that has open requests,
about exactly these and in list order (`batches`); what is open after the
last attempt is checked one by one. `stillOpen` reads off a log of inquiries
which requests are open after it, so the schedule of a whole verification is
a condition on its log alone (`InRounds`), whatever the backend replied.

Main statement: a verification with any backend keeps to this schedule with
two attempts, and ends with a verdict of passed or failed under the identity
of every request and under no other (`exists_rounds_of_verify`).
-/
import SidechainVerifier.Proofs.Inquiries

namespace SidechainVerifier

open OrderedMap

/-! ## Families and questions -/

/-- The families of proofs. -/
inductive Family where
  | certificates
  | withdrawals
deriving DecidableEq

/-- The family of a request. -/
def Request.family : Request → Family
  | .certificate _ => .certificates
  | .withdrawal _ => .withdrawals

/-- The family of a check. -/
def Check.family : Check → Family
  | .certificate _ => .certificates
  | .withdrawal _ => .withdrawals

/-- The family a batch call is about. -/
def BatchCall.family : BatchCall → Family
  | .certificates _ => .certificates
  | .withdrawals _ => .withdrawals

/-- A question to a backend. -/
inductive Question where
  | batch (call : BatchCall)
  | single (check : Check)
deriving DecidableEq

namespace Question

/-- The family a question is about. -/
def family : Question → Family
  | batch call => call.family
  | single check => check.family

end Question

/-- The question of an exchange. -/
def Exchange.question : Exchange → Question
  | .batch call _ => .batch call
  | .single check _ => .single check

/-- The family an exchange is about. -/
def Exchange.family (e : Exchange) : Family := e.question.family

/-- The question of an inquiry, with the requests it is about. -/
def Inquiry.subject : Inquiry → Question × List Request
  | .batch call requests _ => (.batch call, requests)
  | .single request _ => (.single request.check, [request])

/-- The family an inquiry is about. -/
def Inquiry.family (q : Inquiry) : Family := q.subject.1.family

theorem Inquiry.snd_subject (q : Inquiry) : q.subject.2 = q.requests := by
  cases q <;> rfl

theorem Inquiry.question_exchange (q : Inquiry) : q.exchange.question = q.subject.1 := by
  cases q <;> rfl

theorem Inquiry.family_exchange (q : Inquiry) : q.exchange.family = q.family := by
  cases q <;> rfl

/-- A request as the subject of a single check. -/
def Request.singly (r : Request) : Question × List Request := (.single r.check, [r])

theorem Request.family_check (r : Request) : r.check.family = r.family := by
  cases r <;> rfl

namespace Family

/-- The requests of one family, in list order. -/
def select (family : Family) (requests : List Request) : List Request :=
  requests.filter fun r => r.family = family

/-- The batch call about the requests of one family. -/
def call : Family → List Request → BatchCall
  | certificates, requests =>
    .certificates ((requests.filterMap Request.certificate?).map (·.check))
  | withdrawals, requests => .withdrawals ((requests.filterMap Request.withdrawal?).map (·.check))

/-- The batch about the requests of one family, if there are any. -/
def batch? (family : Family) (requests : List Request) : Option (Question × List Request) :=
  if (family.select requests).isEmpty then none
  else some (.batch (family.call requests), family.select requests)

theorem family_call (family : Family) (requests : List Request) :
    (family.call requests).family = family := by
  cases family <;> rfl

theorem select_certificates (requests : List Request) :
    select .certificates requests =
      (requests.filterMap Request.certificate?).map .certificate := by
  rw [← BatchVerification.filter_concerns_certificates requests [], select]
  refine List.filter_congr ?_
  intro r _
  cases r <;> rfl

theorem select_withdrawals (requests : List Request) :
    select .withdrawals requests = (requests.filterMap Request.withdrawal?).map .withdrawal := by
  rw [← BatchVerification.filter_concerns_withdrawals requests [], select]
  refine List.filter_congr ?_
  intro r _
  cases r <;> rfl

/-- The checks of a batch are those of the family's requests, in the same places. -/
theorem checks_call (family : Family) (requests : List Request) :
    (family.call requests).checks = (family.select requests).map Request.check := by
  cases family with
  | certificates =>
    rw [select_certificates, List.map_map, call, BatchCall.checks, List.map_map]
    rfl
  | withdrawals =>
    rw [select_withdrawals, List.map_map, call, BatchCall.checks, List.map_map]
    rfl

end Family

/-! ## Asking a family -/

namespace Consultation

/-- Makes a batch call, unless it is about nothing: then nothing is asked and nothing learnt. -/
def ask (call : BatchCall) : Consultation (Option BatchReply) :=
  if call.checks.isEmpty then done (some (.ok .silent)) else batch call done

theorem askCertificates_eq_ask (checks : List CertificateCheck) :
    askCertificates checks = ask (.certificates checks) := by
  unfold askCertificates ask
  simp only [BatchCall.checks, List.isEmpty_map]

theorem askWithdrawals_eq_ask (checks : List WithdrawalCheck) :
    askWithdrawals checks = ask (.withdrawals checks) := by
  unfold askWithdrawals ask
  simp only [BatchCall.checks, List.isEmpty_map]

end Consultation

namespace Results

variable {results : Results} {id : RequestId}

/-- Nothing is learnt from a batch about nothing. -/
theorem apply_nil (results : Results) (reply : BatchReply) : results.apply [] reply = results := by
  cases reply with
  | error e => rfl
  | ok answer =>
    unfold apply
    split
    · rfl
    · simp [setAll]

theorem contains_setAll {ids : List RequestId} {verdict : Verdict}
    (h : ∀ id ∈ ids, results.contains id = true) (id : RequestId) :
    (results.setAll verdict ids).contains id = results.contains id := by
  show ((results.setAll verdict ids).get? id).isSome = results.contains id
  rw [get?_setAll]
  split
  next hmem => exact (h id hmem).symm
  next => rfl

/-- An inquiry into known requests adds no identities. -/
theorem contains_learn {q : Inquiry} (h : ∀ r ∈ q.requests, results.contains r.id = true)
    (id : RequestId) : (results.learn q).contains id = results.contains id := by
  cases q with
  | batch call requests reply =>
    have hids : ∀ id ∈ requests.map Request.id, results.contains id = true := by
      intro id hid
      obtain ⟨r, hr, rfl⟩ := List.mem_map.mp hid
      exact h r hr
    cases reply with
    | error e => rfl
    | ok answer =>
      simp only [learn, apply]
      split
      · exact contains_setAll hids id
      · refine contains_setAll ?_ id
        intro id hid
        obtain ⟨i, -, hi⟩ := List.mem_filterMap.mp hid
        exact hids id (List.mem_of_getElem? hi)
  | single request reply =>
    have hrequest : results.contains request.id = true := h request (List.mem_singleton.mpr rfl)
    show ((results.insert request.id (.ofReply reply)).get? id).isSome = results.contains id
    rw [get?_insert_eq]
    split
    next hid => rw [hid, hrequest, Option.isSome_some]
    next => rfl

theorem contains_foldl_learn {log : List Inquiry}
    (h : ∀ q ∈ log, ∀ r ∈ q.requests, results.contains r.id = true) (id : RequestId) :
    (log.foldl learn results).contains id = results.contains id := by
  induction log generalizing results with
  | nil => rfl
  | cons q rest ih =>
    have hq := contains_learn (h q List.mem_cons_self)
    rw [List.foldl_cons, ih, hq]
    intro q' hq' r hr
    rw [hq]
    exact h q' (List.mem_cons_of_mem _ hq') r hr

end Results

namespace BatchVerification

variable {σ : Type} {requests : List Request}

/-- The question about a family's requests is one inquiry, or none if there are no requests, and
what is learnt from it is what the reply says about these requests. -/
theorem exists_ends_ask (backend : Backend σ) (family : Family) (pending : List Request) (s : σ) :
    ∃ (log : List Inquiry) (reply : BatchReply) (t : σ),
      (Consultation.ask (family.call pending)).Ends backend s (log.map Inquiry.exchange)
        (some reply) t ∧
      log.map Inquiry.subject = (family.batch? pending).toList ∧
      ∀ results : Results, log.foldl Results.learn results =
        results.apply ((family.select pending).map Request.id) reply := by
  have hchecks : (family.call pending).checks.isEmpty = (family.select pending).isEmpty := by
    rw [Family.checks_call, List.isEmpty_map]
  unfold Consultation.ask Family.batch?
  rw [hchecks]
  split
  next hempty =>
    refine ⟨[], .ok .silent, s, Consultation.ends_done _ s, rfl, ?_⟩
    intro results
    rw [List.isEmpty_iff.mp hempty, List.map_nil, Results.apply_nil, List.foldl_nil]
  next =>
    let reply := (backend.batch (family.call pending) s).1
    exact ⟨[.batch (family.call pending) (family.select pending) reply], reply,
      (backend.batch (family.call pending) s).2, ⟨rfl, rfl⟩, rfl, fun _ => rfl⟩

/-! ## One attempt -/

/-- The batches of an attempt: one for each family that has requests. -/
def batches (pending : List Request) : List (Question × List Request) :=
  (Family.certificates.batch? pending).toList ++ (Family.withdrawals.batch? pending).toList

theorem attempt_eq_ask (pending : List Request) (results : Results) :
    attempt pending results = (do
      let certificateReply ← Consultation.ask (Family.certificates.call pending)
      let withdrawalReply ← Consultation.ask (Family.withdrawals.call pending)
      match certificateReply, withdrawalReply with
      | some c, some w =>
        return (results.apply ((Family.certificates.select pending).map Request.id) c).apply
          ((Family.withdrawals.select pending).map Request.id) w
      | _, _ => .abandoned) := by
  rw [Family.select_certificates, Family.select_withdrawals, List.map_map, List.map_map]
  unfold attempt
  simp only [Consultation.askCertificates_eq_ask, Consultation.askWithdrawals_eq_ask]
  rfl

/-- An attempt makes its batch calls and no others, and its results are what is learnt from them. -/
theorem exists_ends_attempt_batches (backend : Backend σ) (pending : List Request)
    (results : Results) (s : σ) :
    ∃ (log : List Inquiry) (t : σ),
      (attempt pending results).Ends backend s (log.map Inquiry.exchange)
        (log.foldl Results.learn results) t ∧
      log.map Inquiry.subject = batches pending := by
  obtain ⟨log, c, t, hends, hbatch, hlearn⟩ :=
    exists_ends_ask backend .certificates pending s
  obtain ⟨log', w, u, hends', hbatch', hlearn'⟩ :=
    exists_ends_ask backend .withdrawals pending t
  refine ⟨log ++ log', u, ?_, ?_⟩
  · rw [attempt_eq_ask, List.map_append, List.foldl_append, hlearn, hlearn']
    refine .bind ?_ hends
    rw [← List.append_nil (log'.map Inquiry.exchange)]
    refine .bind ?_ hends'
    exact Consultation.ends_done _ u
  · rw [List.map_append, hbatch, hbatch', batches]

/-! ## Several attempts -/

/-- What is known about the requests of a list after a log of inquiries. -/
def learnt (requests : List Request) (log : List Inquiry) : Results :=
  log.foldl Results.learn (.uniform .unknown requests)

/-- The requests of a list that are open after a log of inquiries, in list order. -/
def stillOpen (requests : List Request) (log : List Inquiry) : List Request :=
  (learnt requests log).openRequests requests

/-- Rounds of batch calls after a log: each makes the calls of an attempt on the requests that are
open when it starts. -/
def InRounds (requests : List Request) : List Inquiry → List (List Inquiry) → Prop
  | _, [] => True
  | log, round :: rest =>
    round.map Inquiry.subject = batches (stillOpen requests log) ∧
      InRounds requests (log ++ round) rest

theorem learnt_append (requests : List Request) (log log' : List Inquiry) :
    learnt requests (log ++ log') = log'.foldl Results.learn (learnt requests log) := by
  unfold learnt
  rw [List.foldl_append]

/-- With nothing open there is nothing to attempt. -/
theorem attemptAll_eq_done {results : Results}
    (h : (results.openRequests requests).isEmpty = true) (count : Nat) :
    attemptAll requests count results = .done results := by
  cases count with
  | zero => rfl
  | succ count =>
    unfold attemptAll
    dsimp only
    rw [if_pos h]
    rfl

/-- An attempt that finds nothing open makes no difference, so each may be taken to be made. -/
theorem attemptAll_succ (requests : List Request) (count : Nat) (results : Results) :
    attemptAll requests (count + 1) results =
      (attempt (results.openRequests requests) results >>= attemptAll requests count) := by
  cases h : (results.openRequests requests).isEmpty with
  | true =>
    rw [attemptAll_eq_done h, List.isEmpty_iff.mp h]
    exact (attemptAll_eq_done h count).symm
  | false =>
    rw [attemptAll, h]
    rfl

/-- Attempts go on in rounds from whatever has been learnt. -/
theorem exists_ends_attemptAll_rounds (backend : Backend σ) (requests : List Request)
    (count : Nat) (log : List Inquiry) (s : σ) :
    ∃ rounds t, rounds.length = count ∧ InRounds requests log rounds ∧
      (attemptAll requests count (learnt requests log)).Ends backend s
        (rounds.flatten.map Inquiry.exchange) (learnt requests (log ++ rounds.flatten)) t := by
  induction count generalizing log s with
  | zero =>
    refine ⟨[], s, rfl, trivial, ?_⟩
    rw [List.flatten_nil, List.append_nil]
    exact Consultation.ends_done _ s
  | succ count ih =>
    obtain ⟨round, t, hround, hbatches⟩ :=
      exists_ends_attempt_batches backend (stillOpen requests log) (learnt requests log) s
    rw [← learnt_append] at hround
    obtain ⟨rest, u, hlength, hrest, hends⟩ := ih (log ++ round) t
    refine ⟨round :: rest, u, congrArg (· + 1) hlength, ⟨hbatches, hrest⟩, ?_⟩
    rw [attemptAll_succ, List.flatten_cons, List.map_append, ← List.append_assoc]
    exact .bind hends hround

/-! ## What the calls of an attempt are about -/

/-- Of the batches of an attempt at most one is about a family. -/
theorem filter_batches (family : Family) (pending : List Request) :
    (batches pending).filter (fun b => b.1.family = family) =
      (family.batch? pending).toList := by
  have hfamily (family' : Family) : (family'.batch? pending).toList.filter
      (fun b => b.1.family = family) =
        if family' = family then (family'.batch? pending).toList else [] := by
    unfold Family.batch?
    split
    next => simp
    next =>
      by_cases heq : family' = family
      · simp [Question.family, Family.family_call, heq]
      · simp [Question.family, Family.family_call, heq]
  rw [batches, List.filter_append, hfamily, hfamily]
  cases family with
  | certificates => simp
  | withdrawals => simp

/-- A batch of an attempt is about the open requests of a family, and there are some. -/
theorem of_mem_batches {pending : List Request} {b : Question × List Request}
    (h : b ∈ batches pending) :
    ∃ family : Family, b = (.batch (family.call pending), family.select pending) ∧
      family.select pending ≠ [] := by
  obtain ⟨family, hfamily⟩ : ∃ family : Family, family.batch? pending = some b := by
    rcases List.mem_append.mp h with h | h
    · exact ⟨_, Option.mem_toList.mp h⟩
    · exact ⟨_, Option.mem_toList.mp h⟩
  unfold Family.batch? at hfamily
  split at hfamily
  · cases hfamily
  next hne => exact ⟨family, (Option.some.inj hfamily).symm, by simpa using hne⟩

/-! ## What a whole schedule is about -/

variable {log last : List Inquiry} {rounds : List (List Inquiry)} {q : Inquiry}

/-- The subjects of the rounds are batches about requests of the list. -/
theorem InRounds.exists_batch (h : InRounds requests log rounds) (hq : q ∈ rounds.flatten) :
    ∃ (family : Family) (pending : List Request), (∀ r ∈ pending, r ∈ requests) ∧
      q.subject = (.batch (family.call pending), family.select pending) ∧
      family.select pending ≠ [] := by
  induction rounds generalizing log with
  | nil => cases hq
  | cons round rest ih =>
    obtain ⟨hround, hrest⟩ := h
    rw [List.flatten_cons] at hq
    rcases List.mem_append.mp hq with hq | hq
    · have hmem : q.subject ∈ batches (stillOpen requests log) :=
        hround ▸ List.mem_map_of_mem hq
      obtain ⟨family, hsubject, hne⟩ := of_mem_batches hmem
      exact ⟨family, _, fun r hr => (List.mem_filter.mp hr).1, hsubject, hne⟩
    · exact ih hrest hq

/-- The subjects after the rounds are single checks of requests of the list. -/
theorem exists_singly {asked : List Request}
    (h : last.map Inquiry.subject = asked.map Request.singly) (hq : q ∈ last) :
    ∃ r ∈ asked, q.subject = r.singly := by
  have hmem : q.subject ∈ asked.map Request.singly := h ▸ List.mem_map_of_mem hq
  obtain ⟨r, hr, hsubject⟩ := List.mem_map.mp hmem
  exact ⟨r, hr, hsubject.symm⟩

theorem map_subject_singles {asked : List Request} {replies : List SingleReply}
    (h : replies.length = asked.length) :
    (singles asked replies).map Inquiry.subject = asked.map Request.singly := by
  have hfst : (asked.zip replies).map Prod.fst = asked := List.map_fst_zip (Nat.le_of_eq h.symm)
  rw [singles, List.map_map]
  conv_rhs => rw [← hfst, List.map_map]
  rfl

/-! ## A whole verification -/

/-- A log of a verification: attempts in batches, then single checks of what they leave open. -/
structure Scheduled (requests : List Request) (rounds : List (List Inquiry))
    (last : List Inquiry) : Prop where
  inRounds : InRounds requests [] rounds
  singly : last.map Inquiry.subject = (stillOpen requests rounds.flatten).map Request.singly

/-- The log is about requests of the list. -/
theorem Scheduled.mem_requests (h : Scheduled requests rounds last)
    (hq : q ∈ rounds.flatten ++ last) : ∀ r ∈ q.subject.2, r ∈ requests := by
  intro r hr
  rcases List.mem_append.mp hq with hq | hq
  · obtain ⟨family, pending, hpending, hsubject, -⟩ := h.inRounds.exists_batch hq
    rw [hsubject] at hr
    exact hpending r (List.mem_filter.mp hr).1
  · obtain ⟨r', hr', hsubject⟩ := exists_singly h.singly hq
    rw [hsubject] at hr
    rw [List.mem_singleton.mp hr]
    exact (List.mem_filter.mp hr').1

/-- There are verdicts on the requests of the list, and on nothing else. -/
theorem Scheduled.contains_iff (h : Scheduled requests rounds last) (id : RequestId) :
    (learnt requests (rounds.flatten ++ last)).contains id = true ↔
      ∃ r ∈ requests, r.id = id := by
  have hkeys := (Results.judge_uniform_unknown (fun _ _ => True) requests).keys
  rw [learnt, Results.contains_foldl_learn, hkeys]
  intro q hq r hr
  rw [← Inquiry.snd_subject] at hr
  exact (hkeys r.id).mpr ⟨r, h.mem_requests hq r hr, rfl⟩

/-- A verification keeps to a schedule. -/
theorem exists_scheduled (backend : Backend σ) (requests : List Request) (s : σ) :
    ∃ rounds last t, rounds.length = attempts ∧ Scheduled requests rounds last ∧
      (verify .strict requests).Ends backend s ((rounds.flatten ++ last).map Inquiry.exchange)
        (learnt requests (rounds.flatten ++ last)) t := by
  obtain ⟨rounds, t, hlength, hrounds, hends⟩ :=
    exists_ends_attemptAll_rounds backend requests attempts [] s
  rw [List.nil_append] at hends
  obtain ⟨replies, u, hreplies, hends'⟩ :=
    exists_ends_verifyEach backend (stillOpen requests rounds.flatten)
      (learnt requests rounds.flatten) t
  refine ⟨rounds, singles (stillOpen requests rounds.flatten) replies, u, hlength,
    ⟨hrounds, map_subject_singles hreplies⟩, ?_⟩
  rw [List.map_append, learnt_append]
  unfold verify
  refine .bind ?_ hends
  exact hends'

end BatchVerification

end SidechainVerifier
