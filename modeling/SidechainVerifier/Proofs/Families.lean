/-
SidechainVerifier.Proofs.Families — verifications of one family and of both.

A verification asks about certificates and withdrawals in turn, and keeps
what it learns in one map. Still, what it asks about a family follows from
the replies about that family alone: the part of a schedule that is about a
family is a schedule for the requests of that family (`Scheduled.filter`),
and a log that keeps to a schedule is determined by the replies
(`Scheduled.eq`). A backend that `Separates` a family answers questions
about it by the questions about it so far.

Main statement: with such a backend, verifying a mixed list and verifying
the requests of the family alone come to the same verdicts on the family,
after the same exchanges about it (`verify_select`).
-/
import SidechainVerifier.Proofs.Schedules

namespace SidechainVerifier

open OrderedMap

/-! ## Answers to a list of questions -/

namespace Backend

variable {σ τ : Type}

/-- The exchange that a question leads to, and the state after it. -/
def answer (backend : Backend σ) : Question → σ → Exchange × σ
  | .batch call, s =>
    let (reply, s) := backend.batch call s
    (.batch call reply, s)
  | .single check, s =>
    let (reply, s) := backend.single check s
    (.single check reply, s)

/-- The state after questions. -/
def after (backend : Backend σ) (questions : List Question) (s : σ) : σ :=
  questions.foldl (fun s question => (backend.answer question s).2) s

/-- The exchanges that questions lead to, one after the other. -/
def transcript (backend : Backend σ) : List Question → σ → List Exchange
  | [], _ => []
  | question :: rest, s =>
    (backend.answer question s).1 :: backend.transcript rest (backend.answer question s).2

/-- From given states on, two backends answer a question about a family alike if the same questions
about the family came before, whatever else they were asked. -/
def AgreesOn (family : Family) (backend : Backend σ) (s : σ) (backend' : Backend τ) (s' : τ) :
    Prop :=
  ∀ question, question.family = family → ∀ before before' : List Question,
    before.filter (fun q => q.family = family) = before'.filter (fun q => q.family = family) →
      (backend.answer question (backend.after before s)).1 =
        (backend'.answer question (backend'.after before' s')).1

/-- From a state on, how a backend answers a question about a family depends only on which questions
about the family came before. -/
def Separates (family : Family) (backend : Backend σ) (s : σ) : Prop :=
  AgreesOn family backend s backend s

variable {backend : Backend σ} {s : σ} {backend' : Backend τ} {s' : τ} {family : Family}

theorem AgreesOn.symm (h : AgreesOn family backend s backend' s') :
    AgreesOn family backend' s' backend s :=
  fun question hquestion before before' hbefore =>
    (h question hquestion before' before hbefore.symm).symm

theorem question_answer (backend : Backend σ) (question : Question) (s : σ) :
    (backend.answer question s).1.question = question := by
  cases question <;> rfl

theorem family_answer (backend : Backend σ) (question : Question) (s : σ) :
    (backend.answer question s).1.family = question.family := by
  rw [Exchange.family, question_answer]

theorem after_concat (backend : Backend σ) (questions : List Question) (question : Question)
    (s : σ) : backend.after (questions ++ [question]) s =
      (backend.answer question (backend.after questions s)).2 := by
  rw [after, List.foldl_append]
  rfl

theorem transcript_append (backend : Backend σ) (questions questions' : List Question) (s : σ) :
    backend.transcript (questions ++ questions') s =
      backend.transcript questions s ++
        backend.transcript questions' (backend.after questions s) := by
  induction questions generalizing s with
  | nil => rfl
  | cons question rest ih => exact congrArg (List.cons _) (ih _)

theorem map_question_transcript (backend : Backend σ) (questions : List Question) (s : σ) :
    (backend.transcript questions s).map Exchange.question = questions := by
  induction questions generalizing s with
  | nil => rfl
  | cons question rest ih => rw [transcript, List.map_cons, question_answer, ih]

/-- The exchanges about a family are those that its questions on their own lead to with a backend
that agrees on the family. -/
theorem AgreesOn.filter_transcript (h : AgreesOn family backend s backend' s') :
    ∀ questions before before' : List Question,
      before.filter (fun q => q.family = family) = before'.filter (fun q => q.family = family) →
      (backend.transcript questions (backend.after before s)).filter
          (fun e => e.family = family) =
        backend'.transcript (questions.filter fun q => q.family = family)
          (backend'.after before' s')
  | [], _, _, _ => rfl
  | question :: rest, before, before', hbefore => by
    rw [transcript, List.filter_cons, List.filter_cons, family_answer, ← after_concat]
    by_cases hfamily : question.family = family
    · have hmore : (before ++ [question]).filter (fun q => q.family = family) =
          (before' ++ [question]).filter (fun q => q.family = family) := by
        rw [List.filter_append, hbefore, List.filter_append]
      rw [if_pos (by simpa using hfamily), if_pos (by simpa using hfamily), transcript,
        h question hfamily before before' hbefore, h.filter_transcript rest _ _ hmore,
        after_concat]
    · have hmore : (before ++ [question]).filter (fun q => q.family = family) =
          before'.filter (fun q => q.family = family) := by
        rw [List.filter_append, hbefore]
        simp [hfamily]
      rw [if_neg (by simpa using hfamily), if_neg (by simpa using hfamily),
        h.filter_transcript rest _ _ hmore]

/-- The exchanges of a consultation are those that its questions lead to. -/
theorem transcript_exchanges {α : Type} (backend : Backend σ) :
    ∀ (c : Consultation α) (s : σ),
      backend.transcript ((c.exchanges backend s).map Exchange.question) s =
        c.exchanges backend s
  | .done _, _ => rfl
  | .abandoned, _ => rfl
  | .batch _ next, _ => congrArg (List.cons _) (backend.transcript_exchanges (next _) _)
  | .single _ next, _ => congrArg (List.cons _) (backend.transcript_exchanges (next _) _)

end Backend

/-! ## Two backends side by side -/

namespace Backend

variable {σ τ : Type}

/-- A backend for certificates beside one for withdrawals, each with a state of its own. -/
def beside (backend : Backend σ) (backend' : Backend τ) : Backend (σ × τ) where
  batch
    | .certificates checks, (s, t) =>
      let (reply, s) := backend.batch (.certificates checks) s
      (reply, s, t)
    | .withdrawals checks, (s, t) =>
      let (reply, t) := backend'.batch (.withdrawals checks) t
      (reply, s, t)
  single
    | .certificate check, (s, t) =>
      let (reply, s) := backend.single (.certificate check) s
      (reply, s, t)
    | .withdrawal check, (s, t) =>
      let (reply, t) := backend'.single (.withdrawal check) t
      (reply, s, t)

variable (backend : Backend σ) (backend' : Backend τ)

theorem answer_beside (question : Question) (s : σ) (t : τ) :
    (backend.beside backend').answer question (s, t) =
      match question.family with
      | .certificates => ((backend.answer question s).1, (backend.answer question s).2, t)
      | .withdrawals => ((backend'.answer question t).1, s, (backend'.answer question t).2) := by
  cases question with
  | batch call => cases call <;> rfl
  | single check => cases check <;> rfl

/-- Each state is that after the questions about its own family. -/
theorem after_beside (questions : List Question) (s : σ) (t : τ) :
    (backend.beside backend').after questions (s, t) =
      (backend.after (questions.filter fun q => q.family = .certificates) s,
        backend'.after (questions.filter fun q => q.family = .withdrawals) t) := by
  induction questions generalizing s t with
  | nil => rfl
  | cons question rest ih =>
    rw [after, List.foldl_cons, ← after, answer_beside]
    cases hfamily : question.family with
    | certificates =>
      dsimp only
      rw [ih, List.filter_cons_of_pos (by simp [hfamily]),
        List.filter_cons_of_neg (by simp [hfamily])]
      rfl
    | withdrawals =>
      dsimp only
      rw [ih, List.filter_cons_of_neg (by simp [hfamily]),
        List.filter_cons_of_pos (by simp [hfamily])]
      rfl

/-- Backends side by side separate the families. -/
theorem separates_beside (family : Family) (s : σ) (t : τ) :
    Separates family (backend.beside backend') (s, t) := by
  intro question hquestion before before' hbefore
  rw [after_beside, after_beside, answer_beside, answer_beside, hquestion]
  cases family with
  | certificates =>
    exact congrArg (fun qs => (backend.answer question (backend.after qs s)).1) hbefore
  | withdrawals =>
    exact congrArg (fun qs => (backend'.answer question (backend'.after qs t)).1) hbefore

end Backend

/-! ## Logs with a backend's replies -/

namespace BatchVerification

variable {σ : Type} {backend : Backend σ} {s : σ} {log log' : List Inquiry} {family : Family}

/-- The log has the replies that a backend gives to its questions from a state on. -/
def GivenBy (backend : Backend σ) (s : σ) (log : List Inquiry) : Prop :=
  log.map Inquiry.exchange = backend.transcript (log.map fun q => q.subject.1) s

/-- An inquiry is its subject and the exchange. -/
theorem inquiry_ext {q q' : Inquiry} (hsubject : q.subject = q'.subject)
    (hexchange : q.exchange = q'.exchange) : q = q' := by
  cases q with
  | batch call requests reply =>
    cases q' with
    | batch call' requests' reply' =>
      cases hsubject
      cases hexchange
      rfl
    | single request' reply' => cases hexchange
  | single request reply =>
    cases q' with
    | batch call' requests' reply' => cases hexchange
    | single request' reply' =>
      obtain rfl : request = request' := List.singleton_inj.mp (congrArg Prod.snd hsubject)
      cases hexchange
      rfl

/-- Logs of the same subjects with a backend's replies are the same. -/
theorem GivenBy.eq (h : GivenBy backend s log) (h' : GivenBy backend s log')
    (hsubject : log.map Inquiry.subject = log'.map Inquiry.subject) : log = log' := by
  have hquestions : (log.map fun q => q.subject.1) = log'.map fun q => q.subject.1 := by
    have hfst := congrArg (List.map Prod.fst) hsubject
    rwa [List.map_map, List.map_map] at hfst
  have hexchanges : log.map Inquiry.exchange = log'.map Inquiry.exchange := by
    rw [h, h', hquestions]
  have hinjective : Function.Injective fun q : Inquiry => (q.subject, q.exchange) :=
    fun q q' heq => inquiry_ext (congrArg Prod.fst heq) (congrArg Prod.snd heq)
  have hzip (log : List Inquiry) : log.map (fun q => (q.subject, q.exchange)) =
      (log.map Inquiry.subject).zip (log.map Inquiry.exchange) := List.zip_map'.symm
  refine List.map_injective_iff.mpr hinjective ?_
  rw [hzip, hzip, hsubject, hexchanges]

theorem GivenBy.append (h : GivenBy backend s (log ++ log')) :
    GivenBy backend s log ∧
      GivenBy backend (backend.after (log.map fun q => q.subject.1) s) log' := by
  unfold GivenBy at h
  rw [List.map_append, List.map_append, Backend.transcript_append] at h
  refine List.append_inj h ?_
  rw [List.length_map, ← List.length_map (f := Exchange.question),
    Backend.map_question_transcript, List.length_map]

theorem map_exchange_filter (family : Family) (log : List Inquiry) :
    (log.filter fun q => q.family = family).map Inquiry.exchange =
      (log.map Inquiry.exchange).filter fun e => e.family = family := by
  rw [List.filter_map]
  simp only [Function.comp_def, Inquiry.family_exchange]

/-- The part of a log about a family has the replies of a backend that agrees on the family. -/
theorem GivenBy.filter {τ : Type} {backend' : Backend τ} {s' : τ} (h : GivenBy backend s log)
    (hagrees : Backend.AgreesOn family backend s backend' s') :
    GivenBy backend' s' (log.filter fun q => q.family = family) := by
  unfold GivenBy
  have hquestion : ((log.filter fun q => q.family = family).map fun q => q.subject.1) =
      (log.map fun q => q.subject.1).filter fun question => question.family = family := by
    rw [List.filter_map]
    rfl
  rw [map_exchange_filter, hquestion, h]
  exact hagrees.filter_transcript _ [] [] rfl

end BatchVerification

/-! ## What is learnt about a family -/

/-- The family of an identity. -/
def RequestId.family : RequestId → Family
  | .certificate _ => .certificates
  | .withdrawal _ _ => .withdrawals

theorem Request.family_id (r : Request) : r.id.family = r.family := by
  cases r <;> rfl

/-- The inquiry is about requests of the family of its question. -/
def Inquiry.OfOneFamily (q : Inquiry) : Prop := ∀ r ∈ q.subject.2, r.family = q.family

namespace Results

variable {results results' : Results} {id : RequestId}

/-- What an inquiry does to a verdict depends on that verdict only. -/
theorem get?_learn_congr (q : Inquiry) (h : results.get? id = results'.get? id) :
    (results.learn q).get? id = (results'.learn q).get? id := by
  cases q with
  | batch call requests reply =>
    cases reply with
    | error e => exact h
    | ok answer =>
      simp only [learn, apply]
      split
      · rw [get?_setAll, get?_setAll, h]
      · rw [get?_setAll, get?_setAll, h]
  | single request reply => rw [learn, learn, get?_insert_eq, get?_insert_eq, h]

/-- The verdicts on a family follow from the inquiries about the family. -/
theorem get?_foldl_learn_filter {log : List Inquiry} {family : Family}
    (hlog : ∀ q ∈ log, q.OfOneFamily) (hid : id.family = family)
    (h : results.get? id = results'.get? id) :
    (log.foldl learn results).get? id =
      ((log.filter fun q => q.family = family).foldl learn results').get? id := by
  induction log generalizing results results' with
  | nil => exact h
  | cons q rest ih =>
    have hrest := fun q' hq' => hlog q' (List.mem_cons_of_mem q hq')
    rw [List.foldl_cons, List.filter_cons]
    split
    next => exact ih hrest (get?_learn_congr q h)
    next hother =>
      refine ih hrest ?_
      rw [get?_learn_of_forall_ne, h]
      intro r hr heq
      rw [← Inquiry.snd_subject] at hr
      rw [← heq, Request.family_id, hlog q List.mem_cons_self r hr] at hid
      exact hother (by simpa using hid)

theorem get?_uniform_unknown (requests : List Request) (id : RequestId) :
    (uniform .unknown requests).get? id =
      if ∃ r ∈ requests, r.id = id then some .unknown else none := by
  have hkeys := (judge_uniform_unknown (fun _ _ => True) requests).keys id
  cases hget : (uniform .unknown requests).get? id with
  | none =>
    rw [if_neg]
    intro hmem
    obtain ⟨verdict, hverdict⟩ := contains_iff.mp (hkeys.mpr hmem)
    rw [hget] at hverdict
    cases hverdict
  | some verdict =>
    rw [if_pos (hkeys.mp (contains_iff.mpr ⟨_, hget⟩)), ← eq_of_get?_uniform hget]

end Results

/-! ## The part of a schedule that is about a family -/

namespace Family

variable {family : Family} {requests : List Request}

theorem mem_select {r : Request} :
    r ∈ family.select requests ↔ r ∈ requests ∧ r.family = family := by
  simp [select]

theorem exists_mem_select_iff {id : RequestId} (hid : id.family = family) :
    (∃ r ∈ family.select requests, r.id = id) ↔ ∃ r ∈ requests, r.id = id := by
  constructor
  · rintro ⟨r, hr, rfl⟩
    exact ⟨r, (mem_select.mp hr).1, rfl⟩
  · rintro ⟨r, hr, rfl⟩
    exact ⟨r, mem_select.mpr ⟨hr, by rw [← hid, Request.family_id]⟩, rfl⟩

theorem select_select (family family' : Family) (requests : List Request) :
    family'.select (family.select requests) =
      if family' = family then family.select requests else [] := by
  rw [select, select, List.filter_filter]
  split
  next heq => simp [heq]
  next hne =>
    refine List.filter_eq_nil_iff.mpr ?_
    intro r _ hr
    simp only [Bool.and_eq_true, decide_eq_true_eq] at hr
    exact hne (hr.1.symm.trans hr.2)

/-- The batch about a family is made from the requests of the family alone. -/
theorem batch?_select (family family' : Family) (requests : List Request) :
    family'.batch? (family.select requests) =
      if family' = family then family.batch? requests else none := by
  unfold batch?
  rw [select_select]
  split
  next heq =>
    have hcall : family.call (family.select requests) = family.call requests := by
      cases family with
      | certificates =>
        rw [select_certificates, call, call, List.filterMap_map]
        simp [Function.comp_def, Request.certificate?]
      | withdrawals =>
        rw [select_withdrawals, call, call, List.filterMap_map]
        simp [Function.comp_def, Request.withdrawal?]
    rw [heq, hcall]
  next => rfl

end Family

namespace BatchVerification

variable {σ τ : Type} {backend : Backend σ} {s : σ} {backend' : Backend τ} {s' : τ}
  {family : Family} {requests : List Request} {log last last' : List Inquiry}
  {rounds rounds' : List (List Inquiry)} {q : Inquiry}

theorem batches_select (family : Family) (pending : List Request) :
    batches (family.select pending) =
      (batches pending).filter fun b => b.1.family = family := by
  rw [filter_batches, batches, Family.batch?_select, Family.batch?_select]
  cases family with
  | certificates => simp
  | withdrawals => simp

theorem InRounds.ofOneFamily (h : InRounds requests log rounds) (hq : q ∈ rounds.flatten) :
    q.OfOneFamily := by
  obtain ⟨family, pending, -, hsubject, -⟩ := h.exists_batch hq
  intro r hr
  rw [hsubject] at hr
  rw [(Family.mem_select.mp hr).2, Inquiry.family, hsubject, Question.family, Family.family_call]

/-- The verdicts on a family after a log are those after the part of the log about the family. -/
theorem get?_learnt_filter (hlog : ∀ q ∈ log, q.OfOneFamily) {id : RequestId}
    (hid : id.family = family) :
    (learnt requests log).get? id =
      (learnt (family.select requests)
        (log.filter fun q => q.family = family)).get? id := by
  refine Results.get?_foldl_learn_filter hlog hid ?_
  rw [Results.get?_uniform_unknown, Results.get?_uniform_unknown,
    if_congr (Family.exists_mem_select_iff hid) rfl rfl]

theorem stillOpen_select (hlog : ∀ q ∈ log, q.OfOneFamily) :
    stillOpen (family.select requests) (log.filter fun q => q.family = family) =
      family.select (stillOpen requests log) := by
  unfold stillOpen Results.openRequests Family.select
  rw [List.filter_filter, List.filter_filter]
  refine List.filter_congr ?_
  intro r _
  by_cases hr : r.family = family
  · have hget : (learnt requests log).get? r.id = (learnt (family.select requests)
        (log.filter fun q => q.family = family)).get? r.id :=
      get?_learnt_filter hlog (by rw [Request.family_id, hr])
    unfold Family.select at hget
    rw [← hget, Bool.and_comm]
  · simp [hr]

/-- The part of rounds about a family is rounds for the requests of the family. -/
theorem InRounds.filter (h : InRounds requests log rounds)
    (hlog : ∀ q ∈ log, q.OfOneFamily) (family : Family) :
    InRounds (family.select requests) (log.filter fun q => q.family = family)
      (rounds.map fun round => round.filter fun q => q.family = family) := by
  induction rounds generalizing log with
  | nil => trivial
  | cons round rest ih =>
    have hall : ∀ q ∈ log ++ round, q.OfOneFamily := by
      intro q hq
      rcases List.mem_append.mp hq with hq | hq
      · exact hlog q hq
      · exact h.ofOneFamily (by simp [hq])
    obtain ⟨hround, hrest⟩ := h
    refine ⟨?_, ?_⟩
    · rw [stillOpen_select hlog, batches_select, ← hround, List.filter_map]
      rfl
    · rw [← List.filter_append]
      exact ih hrest hall

theorem Scheduled.ofOneFamily (h : Scheduled requests rounds last)
    (hq : q ∈ rounds.flatten ++ last) : q.OfOneFamily := by
  rcases List.mem_append.mp hq with hq | hq
  · exact h.inRounds.ofOneFamily hq
  · obtain ⟨r, -, hsubject⟩ := exists_singly h.singly hq
    intro r' hr'
    rw [hsubject] at hr'
    rw [List.mem_singleton.mp hr', Inquiry.family, hsubject, Request.singly, Question.family,
      Request.family_check]

/-- The part of a schedule about a family is a schedule for the requests of the family. -/
theorem Scheduled.filter (h : Scheduled requests rounds last) (family : Family) :
    Scheduled (family.select requests)
      (rounds.map fun round => round.filter fun q => q.family = family)
      (last.filter fun q => q.family = family) where
  inRounds := h.inRounds.filter (by simp) family
  singly := by
    have hrounds : ∀ q ∈ rounds.flatten, q.OfOneFamily := fun q hq => h.inRounds.ofOneFamily hq
    rw [← List.filter_flatten, stillOpen_select hrounds, Family.select]
    have hfamily : (fun r : Request => decide (r.family = family)) =
        (fun b : Question × List Request => decide (b.1.family = family)) ∘ Request.singly := by
      funext r
      simp only [Function.comp_def, Request.singly, Question.family, Request.family_check]
    rw [hfamily, ← List.filter_map, ← h.singly, List.filter_map]
    rfl

/-- Rounds with a backend's replies are determined by how many there are. -/
theorem InRounds.eq (h : InRounds requests log rounds) (h' : InRounds requests log rounds')
    (hlength : rounds.length = rounds'.length) (hgiven : GivenBy backend s rounds.flatten)
    (hgiven' : GivenBy backend s rounds'.flatten) : rounds = rounds' := by
  induction rounds generalizing rounds' log s with
  | nil => exact (List.length_eq_zero_iff.mp hlength.symm).symm
  | cons round rest ih =>
    cases rounds' with
    | nil => cases hlength
    | cons round' rest' =>
      obtain ⟨hround, hrest⟩ := h
      obtain ⟨hround', hrest'⟩ := h'
      rw [List.flatten_cons] at hgiven hgiven'
      obtain rfl : round = round' :=
        hgiven.append.1.eq hgiven'.append.1 (hround.trans hround'.symm)
      rw [ih hrest hrest' (Nat.succ.inj hlength) hgiven.append.2 hgiven'.append.2]

/-- A log with a backend's replies that keeps to a schedule is determined by the number of
attempts. -/
theorem Scheduled.eq (h : Scheduled requests rounds last) (h' : Scheduled requests rounds' last')
    (hlength : rounds.length = rounds'.length) (hgiven : GivenBy backend s (rounds.flatten ++ last))
    (hgiven' : GivenBy backend s (rounds'.flatten ++ last')) : rounds = rounds' ∧ last = last' := by
  obtain rfl : rounds = rounds' :=
    h.inRounds.eq h'.inRounds hlength hgiven.append.1 hgiven'.append.1
  exact ⟨rfl, hgiven.append.2.eq hgiven'.append.2 (h.singly.trans h'.singly.symm)⟩

/-! ## Verifying one family and both -/

/-- The log of a verification has the backend's replies. -/
theorem givenBy_of_ends {c : Consultation Results} {results : Results} {t : σ}
    (h : c.Ends backend s (log.map Inquiry.exchange) results t) : GivenBy backend s log := by
  have htranscript := backend.transcript_exchanges c s
  rw [h.exchanges_eq, List.map_map] at htranscript
  unfold GivenBy
  rw [← htranscript]
  simp only [Function.comp_def, Inquiry.question_exchange]

/-- A verification of a list with one backend, seen through a family, is the verification of the
requests of the family with another backend that agrees on the family. -/
theorem verify_filter (h : Backend.AgreesOn family backend s backend' s')
    (requests : List Request) :
    ∃ results alone t t',
      (verify .strict requests).run backend s = (some results, t) ∧
      (verify .strict (family.select requests)).run backend' s' = (some alone, t') ∧
      alone = results.filter (fun id _ => id.family = family) ∧
      (verify .strict (family.select requests)).exchanges backend' s' =
        ((verify .strict requests).exchanges backend s).filter
          fun e => e.family = family := by
  obtain ⟨rounds, last, t, hlength, hscheduled, hends⟩ := exists_scheduled backend requests s
  obtain ⟨rounds', last', t', hlength', hscheduled', hends'⟩ :=
    exists_scheduled backend' (family.select requests) s'
  have hlog : (rounds.flatten ++ last).filter (fun q => q.family = family) =
      rounds'.flatten ++ last' := by
    have hgiven := (givenBy_of_ends hends).filter h
    rw [List.filter_append, List.filter_flatten] at hgiven ⊢
    obtain ⟨hrounds, hlast⟩ := (hscheduled.filter family).eq hscheduled'
      (by rw [List.length_map, hlength, hlength']) hgiven (givenBy_of_ends hends')
    rw [hrounds, hlast]
  refine ⟨_, _, t, t', hends.run_eq, hends'.run_eq, ?_, ?_⟩
  · refine ext_get? ?_
    intro id
    rw [get?_filter_keys]
    split
    next hid =>
      rw [get?_learnt_filter (fun q hq => hscheduled.ofOneFamily hq) (of_decide_eq_true hid), hlog]
    next hid =>
      cases hget : (learnt (family.select requests) (rounds'.flatten ++ last')).get? id with
      | none => rfl
      | some verdict =>
        obtain ⟨r, hr, rfl⟩ := (hscheduled'.contains_iff id).mp (contains_iff.mpr ⟨_, hget⟩)
        rw [Request.family_id] at hid
        exact absurd (decide_eq_true (Family.mem_select.mp hr).2) hid
  · rw [hends.exchanges_eq, hends'.exchanges_eq, ← hlog, map_exchange_filter]

/-- With a backend whose answers about a family depend only on what it was asked about the family,
the verdicts on the family and the calls about it are those of verifying the family's requests
alone; and they stay the same with any backend that answers alike about the family, whatever it
answers about the other. -/
theorem verify_select (h : Backend.Separates family backend s) (requests : List Request) :
    ∃ results t, (verify .strict requests).run backend s = (some results, t) ∧
      (∃ alone u,
        (verify .strict (family.select requests)).run backend s = (some alone, u) ∧
        alone = results.filter (fun id _ => id.family = family) ∧
        (verify .strict (family.select requests)).exchanges backend s =
          ((verify .strict requests).exchanges backend s).filter
            fun e => e.family = family) ∧
      ∀ (τ : Type) (backend' : Backend τ) (s' : τ),
        Backend.AgreesOn family backend s backend' s' →
        ∃ results' t', (verify .strict requests).run backend' s' = (some results', t') ∧
          results'.filter (fun id _ => id.family = family) =
            results.filter (fun id _ => id.family = family) ∧
          ((verify .strict requests).exchanges backend' s').filter
              (fun e => e.family = family) =
            ((verify .strict requests).exchanges backend s).filter
              fun e => e.family = family := by
  obtain ⟨results, alone, t, u, hrun, halone, hfilter, hexchanges⟩ := verify_filter h requests
  refine ⟨results, t, hrun, ⟨alone, u, halone, hfilter, hexchanges⟩, ?_⟩
  intro τ backend' s' hagrees
  obtain ⟨results', alone', t', u', hrun', halone', hfilter', hexchanges'⟩ :=
    verify_filter hagrees.symm requests
  rw [halone] at halone'
  cases halone'
  exact ⟨results', t', hrun', by rw [← hfilter', hfilter], by rw [← hexchanges', hexchanges]⟩

/-- Each family with a backend of its own, which fails every other time. -/
theorem verify_select_beside :
    Backend.Separates .withdrawals (Backend.sparing.beside .sparing) (0, 0) ∧
      ∃ results alone t u,
        (verify .strict mixedRequests).run (Backend.sparing.beside .sparing) (0, 0) =
          (some results, t) ∧
        (verify .strict (Family.withdrawals.select mixedRequests)).run
          (Backend.sparing.beside .sparing) (0, 0) = (some alone, u) ∧
        alone = results.filter (fun id _ => id.family = .withdrawals) ∧
        (verify .strict (Family.withdrawals.select mixedRequests)).exchanges
            (Backend.sparing.beside .sparing) (0, 0) =
          ((verify .strict mixedRequests).exchanges (Backend.sparing.beside .sparing) (0, 0)).filter
            fun e => e.family = .withdrawals := by
  have hseparates := Backend.sparing.separates_beside .sparing .withdrawals 0 0
  obtain ⟨results, t, hrun, ⟨alone, u, halone, hfilter, hexchanges⟩, -⟩ :=
    verify_select hseparates mixedRequests
  exact ⟨hseparates, results, alone, t, u, hrun, halone, hfilter, hexchanges⟩

end BatchVerification

end SidechainVerifier
