/-
SidechainVerifier.Proofs.Counters — counters and objects of a run.

Without a reset, the counters of purged and dropped objects and of notices
are the lengths of the lists the ledger keeps, modulo `2 ^ 64`, except that
a notice is counted only when the listener has returned (`Run.stats_eq`).
None of these lists is longer than the list of events, so over fewer than
`2 ^ 64` events the counters are exact (`Verifier.objects_accounted_for`).
-/
import Mathlib.Data.List.Perm.Subperm
import SidechainVerifier.Proofs.Ledger

namespace SidechainVerifier

/-! ## Counters of lists -/

/-- Whether the subject is a certificate. -/
def Subject.isCertificate : Subject → Bool
  | .certificate _ => true
  | .transaction _ => false

/-- Whether a notice is about an object of a kind, with an outcome. -/
def Notice.isOf (isCertificate : Bool) (outcome : Outcome) (notice : Notice) : Bool :=
  decide (notice.subject.isCertificate = isCertificate) && decide (notice.outcome = outcome)

namespace Stats

/-- The counters after some objects were purged and dropped and some notices delivered. -/
def tally (purged discarded : Nat) (told : List Notice) : Stats where
  passedCertificates := .ofNat (told.countP (Notice.isOf true .verified))
  failedCertificates := .ofNat (told.countP (Notice.isOf true .failed))
  passedTransactions := .ofNat (told.countP (Notice.isOf false .verified))
  failedTransactions := .ofNat (told.countP (Notice.isOf false .failed))
  removedFromQueue := .ofNat purged
  discarded := .ofNat discarded

theorem tally_zero : tally 0 0 [] = zero := rfl

variable (purged discarded n : Nat) (told : List Notice)

theorem recordRemoved_tally :
    (tally purged discarded told).recordRemoved n = tally (purged + n) discarded told := by
  simp [recordRemoved, tally]

theorem recordDiscarded_tally :
    (tally purged discarded told).recordDiscarded n = tally purged (discarded + n) told := by
  simp [recordDiscarded, tally]

/-- A delivery counts its notice. -/
theorem record_tally {d : Delivery} (hd : d.notice.outcome = .verified ↔ d.verdict = .passed) :
    d.record (tally purged discarded told) = tally purged discarded (told ++ [d.notice]) := by
  have hverdict : (d.verdict == .passed) = decide (d.notice.outcome = .verified) := by
    rw [Bool.eq_iff_iff, beq_iff_eq, decide_eq_true_eq, hd]
  rw [Delivery.record, hverdict]
  cases hsubject : d.notice.subject <;> cases houtcome : d.notice.outcome <;>
    simp [tally, recordCertificate, recordTransaction, List.countP_append, Notice.isOf,
      Subject.isCertificate, hsubject, houtcome]

end Stats

/-! ## Counters along a run -/

namespace Verifier

variable {config : Config} {v₀ v w : Verifier} {event : Event} {events : List Event}
  {response : Response} {responses : List Response}

/-- What the listener is being told. -/
def telling? (v : Verifier) : Option Notice :=
  match v.awaited? with
  | some (.delivery notice) => some notice
  | _ => none

theorem telling?_eq_none_of_none (hcycle : v.cycle = none) : v.telling? = none := by
  rw [telling?, awaited?, hcycle]
  rfl

theorem telling?_eq_none_of_verifying {cycle : Cycle} {work : Consultation Results}
    (hcycle : v.cycle = some cycle) (hstage : cycle.stage = .verifying work) :
    v.telling? = none := by
  rw [telling?, awaited?, hcycle, Option.map_some, Cycle.awaited, hstage]
  cases work <;> rfl

theorem telling?_of_dispatching {cycle : Cycle} {dispatched : Nat} {current : Delivery}
    {rest : List Delivery} (hcycle : v.cycle = some cycle)
    (hstage : cycle.stage = .dispatching dispatched current rest) :
    v.telling? = some current.notice := by
  rw [telling?, awaited?, hcycle, Option.map_some, Cycle.awaited, hstage]

theorem notice?_proceed {t : Transition} (cycle : Cycle) (dispatched : Nat)
    (deliveries : List Delivery) {published : List DriverState}
    (ht : t.response = .stepped published (cycle.proceed dispatched deliveries).2)
    (hcycle : t.after.cycle = (cycle.proceed dispatched deliveries).1) :
    t.notice? = t.after.telling? := by
  rw [telling?, awaited?, hcycle, Transition.notice?, ht]
  cases deliveries <;> rfl

/-- A step counts what it purges and drops, and the notice the listener has returned from. -/
theorem Run.step_stats (hnew : Verifier.new config = .ok v₀)
    (hrun : v₀.Run .any events responses v) (hallowed : Replies.any.Allows v.awaited? event)
    (hstep : v.Step event response w) (hreset : event ≠ .reset ∧ event ≠ .resetStats)
    {purged discarded : Nat} {told : List Notice} (hstats : v.stats = .tally purged discarded told)
    {t : Transition} (ht : t = ⟨v, event, response, w⟩) :
    ∃ told', told ++ v.telling?.toList ++ t.notice?.toList = told' ++ w.telling?.toList ∧
      w.stats = .tally (purged + t.purged.length) (discarded + t.discarded.length) told' := by
  subst ht
  cases hstep with
  | discardAll =>
    refine ⟨told, List.append_nil _, ?_⟩
    show v.stats.recordDiscarded v.queue.inFlight.parentCount = _
    rw [hstats, Stats.recordDiscarded_tally, RequestSet.parentCount_eq]
    rfl
  | @discard dropped =>
    refine ⟨told, List.append_nil _, ?_⟩
    show (if (v.discard dropped).1 then v.stats.recordDiscarded 1 else v.stats) = _
    cases hfound : (v.discard dropped).1 with
    | true =>
      rw [if_pos rfl, hstats, Stats.recordDiscarded_tally]
      rfl
    | false => exact hstats
  | reset _ => exact absurd rfl hreset.1
  | resetStats => exact absurd rfl hreset.2
  | purge hnone _ =>
    have hnone' : v.drained.cycle = none := hnone
    refine ⟨told, ?_, ?_⟩
    · rw [telling?_eq_none_of_none hnone, telling?_eq_none_of_none hnone']
      exact List.append_nil _
    · show v.stats.recordRemoved _ = _
      rw [hstats, Stats.recordRemoved_tally]
      rfl
  | @handOff _ _ hnone cycle _ hstage hneed =>
    refine ⟨told, ?_, ?_⟩
    · rw [notice?_eq_none_of_verifying hstage hneed rfl, telling?_eq_none_of_none hnone,
        telling?_eq_none_of_verifying rfl hstage]
      exact List.append_nil _
    · show v.stats.recordRemoved _ = _
      rw [hstats, Stats.recordRemoved_tally]
      rfl
  | @consulted _ cycle work work' hcycle hstage hreply _ hneed =>
    refine ⟨told, ?_, ?_⟩
    · rw [notice?_eq_none_of_verifying rfl hneed rfl, telling?_eq_none_of_verifying hcycle hstage,
        telling?_eq_none_of_verifying rfl rfl]
      exact List.append_nil _
    · cases hreply <;> exact hstats
  | abandoned hcycle hstage hreply =>
    exact (hrun.not_abandoned hnew hallowed hcycle hstage hreply).elim
  | @take cycle results _ hcycle hstage =>
    refine ⟨told, ?_, hstats⟩
    rw [telling?_eq_none_of_verifying hcycle hstage, Option.toList_none, List.append_nil,
      notice?_proceed cycle 0 (v.queue.inFlight.deliveries results) (by rfl) (by rfl)]
  | @delivered cycle dispatched current rest timestamp _ hcycle hstage =>
    refine ⟨told ++ [current.notice], ?_, ?_⟩
    · rw [telling?_of_dispatching hcycle hstage,
        notice?_proceed cycle (dispatched + 1) rest (by rfl) (by rfl)]
      rfl
    · obtain ⟨-, taken, results, -, hrest, -⟩ := hrun.deliveries hnew hcycle hstage
      have hmem : current ∈ taken.deliveries results := hrest.subset List.mem_cons_self
      show current.record v.stats = _
      rw [hstats]
      exact Stats.record_tally _ _ _ (RequestSet.resolved_of_mem_deliveries hmem).2
  | undelivered _ _ => exact hallowed.elim
  | _ => exact ⟨told, List.append_nil _, hstats⟩

/-- The counters of a run, modulo their width. -/
theorem Run.stats_eq (hnew : Verifier.new config = .ok v₀) (h : v₀.Run .any events responses v)
    (hreset : ∀ e ∈ events, e ≠ .reset ∧ e ≠ .resetStats) :
    ∃ told, v₀.notices events = told ++ v.telling?.toList ∧
      v.stats = .tally (v₀.purges events).length (v₀.discards events).length told := by
  induction h with
  | nil =>
    rw [eq_of_new hnew]
    exact ⟨[], rfl, Stats.tally_zero.symm⟩
  | @concat events responses v event response w hrun hallowed hhandle ih =>
    obtain ⟨told, htold, hstats⟩ := ih fun e he => hreset e (List.mem_append_left _ he)
    obtain ⟨told', htold', hstats'⟩ := hrun.step_stats hnew hallowed (step_of_handle? hhandle)
      (hreset event (by simp)) hstats rfl
    have hrun' := hrun.run?_eq
    refine ⟨told', ?_, ?_⟩
    · rw [notices_concat hrun' hhandle, htold, htold']
    · rw [hstats', purges_concat hrun' hhandle, discards_concat hrun' hhandle, List.length_append,
        List.length_append]

/-! ## Lengths -/

theorem length_admissions_le (v : Verifier) (events : List Event) :
    (v.admissions events).length ≤ events.length := by
  induction events generalizing v with
  | nil => simp [admissions, trace]
  | cons event rest ih =>
    unfold admissions trace
    split
    · simp
    next response w hhandle =>
      have hone (t : Transition) : t.admitted.length ≤ 1 :=
        Nat.le_trans (List.length_filter_le _ _) (by cases t.enqueued? <;> simp)
      have hrest := ih w
      have hfirst := hone ⟨v, event, response, w⟩
      rw [admissions] at hrest
      rw [List.flatMap_cons, List.length_append, List.length_cons]
      omega

theorem length_le_of_count_le {l l' : List Hash} (h : ∀ hash, l.count hash ≤ l'.count hash) :
    l.length ≤ l'.length :=
  (List.subperm_ext_iff.mpr fun hash _ => h hash).length_le

/-- Each notice is about one kind of object and has one outcome. -/
theorem length_eq_countP_isOf (told : List Notice) :
    told.length = told.countP (Notice.isOf true .verified) +
      told.countP (Notice.isOf true .failed) + told.countP (Notice.isOf false .verified) +
      told.countP (Notice.isOf false .failed) := by
  induction told with
  | nil => rfl
  | cons notice rest ih =>
    simp only [List.length_cons, List.countP_cons, ih]
    cases hsubject : notice.subject <;> cases houtcome : notice.outcome <;>
      simp [Notice.isOf, Subject.isCertificate, hsubject, houtcome] <;> omega

/-! ## Objects and counters -/

/-- For each hash, the enqueues that made it pending are as many as it is pending, in flight or
taken and still to be announced, and as it was purged, dropped or announced. Outside a cycle the
counters are the numbers of objects purged, dropped and announced, by kind and outcome. -/
theorem objects_accounted_for (hnew : Verifier.new config = .ok v₀)
    (hrun : v₀.run? events = some (responses, v)) (hbackend : v₀.AnsweredBy .any events)
    (hreset : ∀ e ∈ events, e ≠ .reset) (hfree : NoCollisions (events.flatMap Event.preimages)) :
    (∀ hash, (v₀.admissions events).count hash =
      (v.queue.pending.requests.holds hash).toNat +
        (v.queue.inFlight.holds hash || decide (hash ∈ v.undelivered.map (·.hash))).toNat +
        (v₀.purges events).count hash + (v₀.discards events).count hash +
        ((v₀.notices events).map (·.subject.hash)).count hash) ∧
    ((∀ e ∈ events, e ≠ .resetStats) → events.length < 2 ^ 64 → v.cycle = none →
      v.stats.removedFromQueue.toNat = (v₀.purges events).length ∧
      v.stats.discarded.toNat = (v₀.discards events).length ∧
      v.stats.passedCertificates.toNat + v.stats.failedCertificates.toNat +
        v.stats.passedTransactions.toNat + v.stats.failedTransactions.toNat =
          (v₀.notices events).length ∧
      v.stats.passedCertificates.toNat =
        (v₀.notices events).countP (Notice.isOf true .verified) ∧
      v.stats.failedCertificates.toNat = (v₀.notices events).countP (Notice.isOf true .failed) ∧
      v.stats.passedTransactions.toNat =
        (v₀.notices events).countP (Notice.isOf false .verified) ∧
      v.stats.failedTransactions.toNat =
        (v₀.notices events).countP (Notice.isOf false .failed)) := by
  have h := run_of_run? hrun hbackend
  have hbalance := h.balance hnew hreset hfree
  refine ⟨fun hash => by rw [hbalance hash, h.load_eq hnew hfree], ?_⟩
  intro hstats hfew hcycle
  obtain ⟨told, htold, htally⟩ := h.stats_eq hnew fun e he => ⟨hreset e he, hstats e he⟩
  rw [telling?_eq_none_of_none hcycle, Option.toList_none, List.append_nil] at htold
  have hpurges : (v₀.purges events).length ≤ (v₀.admissions events).length :=
    length_le_of_count_le fun hash => by have := hbalance hash; omega
  have hdiscards : (v₀.discards events).length ≤ (v₀.admissions events).length :=
    length_le_of_count_le fun hash => by have := hbalance hash; omega
  have hnotices : ((v₀.notices events).map (·.subject.hash)).length ≤
      (v₀.admissions events).length :=
    length_le_of_count_le fun hash => by have := hbalance hash; omega
  rw [List.length_map] at hnotices
  have hadmissions := length_admissions_le v₀ events
  have hsum := length_eq_countP_isOf (v₀.notices events)
  have hcount (p : Notice → Bool) :
      (UInt64.ofNat ((v₀.notices events).countP p)).toNat = (v₀.notices events).countP p := by
    have hle : (v₀.notices events).countP p ≤ (v₀.notices events).length := List.countP_le_length
    have hlt : (v₀.notices events).countP p < 2 ^ 64 := by omega
    exact UInt64.toNat_ofNat_of_lt' hlt
  have hlength {n : Nat} (hn : n ≤ (v₀.admissions events).length) :
      (UInt64.ofNat n).toNat = n := by
    have hlt : n < 2 ^ 64 := by omega
    exact UInt64.toNat_ofNat_of_lt' hlt
  rw [htally, ← htold]
  refine ⟨hlength hpurges, hlength hdiscards, ?_, hcount _, hcount _, hcount _, hcount _⟩
  simp only [Stats.tally, hcount]
  exact hsum.symm

end Verifier

/-! ## Objects that are purged, dropped and told of -/

/-- A certificate is verified, and then enqueued again beside another one and a transaction, so that
it is purged. The transaction is dropped while it is verified, and the other certificate fails. -/
def Event.purgeAndDrop : List Event :=
  Event.verifyOfQuality 0 0 ++
    [.enqueueCertificate (.ofKey ⟨[]⟩) (.ofQuality 0) none 1,
      .enqueueCertificate (.ofKey ⟨[]⟩) (.ofQuality 1) none 1,
      .enqueueTransaction .withTwoEmptyKeys .fromTwo none 1, .start true 1,
      .discard Transaction.fromTwo.hash, .replyBatch (some (.ok ⟨false, [0]⟩)),
      .replyBatch (some (.ok ⟨true, []⟩)), .take, .delivered (some 1)]

namespace Verifier

/-- Every object is accounted for, and the counters are those of the lists. -/
theorem objects_accounted_for_purgeAndDrop :
    ∃ v₀ responses v, Verifier.new .default = .ok v₀ ∧
      v₀.run? Event.purgeAndDrop = some (responses, v) ∧ v.cycle = none ∧
      v₀.purges Event.purgeAndDrop = [(Certificate.ofQuality 0).hash] ∧
      v₀.discards Event.purgeAndDrop = [Transaction.fromTwo.hash] ∧
      (∀ hash, (v₀.admissions Event.purgeAndDrop).count hash =
        (v.queue.pending.requests.holds hash).toNat +
          (v.queue.inFlight.holds hash || decide (hash ∈ v.undelivered.map (·.hash))).toNat +
          (v₀.purges Event.purgeAndDrop).count hash + (v₀.discards Event.purgeAndDrop).count hash +
          ((v₀.notices Event.purgeAndDrop).map (·.subject.hash)).count hash) ∧
      v.stats.removedFromQueue.toNat = 1 ∧ v.stats.discarded.toNat = 1 ∧
      v.stats.passedCertificates.toNat = 1 ∧ v.stats.failedCertificates.toNat = 1 ∧
      v.stats.passedTransactions.toNat = 0 ∧ v.stats.failedTransactions.toNat = 0 := by
  obtain ⟨v₀, hnew⟩ : ∃ v₀, Verifier.new .default = .ok v₀ := ⟨_, rfl⟩
  -- One evaluation for all that needs the hashes, as they take long to compute.
  obtain ⟨hdistinct, hpurges, hdiscards, hnotices, hend⟩ :
      ([(Certificate.ofQuality 0).preimage, (Certificate.ofQuality 1).preimage,
        Transaction.fromTwo.preimage].map Hash.digest).Nodup ∧
      v₀.purges Event.purgeAndDrop = [(Certificate.ofQuality 0).hash] ∧
      v₀.discards Event.purgeAndDrop = [Transaction.fromTwo.hash] ∧
      [true, false].map (fun kind => (
        (v₀.notices Event.purgeAndDrop).countP (Notice.isOf kind .verified),
        (v₀.notices Event.purgeAndDrop).countP (Notice.isOf kind .failed))) = [(1, 1), (0, 0)] ∧
      (v₀.run? Event.purgeAndDrop).map (fun run => run.2.cycle.isNone) = some true := by
    cases hnew
    decide +kernel
  obtain ⟨⟨responses, v⟩, hrun, hcycle⟩ := Option.map_eq_some_iff.mp hend
  have hcycle : v.cycle = none := Option.isNone_iff_eq_none.mp hcycle
  have hfree : NoCollisions (Event.purgeAndDrop.flatMap Event.preimages) :=
    (noCollisions_of_nodup hdistinct).mono
      (by simp [Event.purgeAndDrop, Event.verifyOfQuality, Event.preimages])
  have hevents : ∀ e ∈ Event.purgeAndDrop,
      (∀ need, Replies.any.Allows need e) ∧ e ≠ .reset ∧ e ≠ .resetStats := by
    simp [Event.purgeAndDrop, Event.verifyOfQuality, Replies.Allows, Replies.any,
      Replies.EndsBatch]
  have hbackend : v₀.AnsweredBy .any Event.purgeAndDrop := by
    refine answeredBy_of_awaited rfl fun p hp => ?_
    exact (hevents p.2 (List.of_mem_zip hp).2).1 p.1
  obtain ⟨hledger, hcounters⟩ :=
    objects_accounted_for hnew hrun hbackend (fun e he => (hevents e he).2.1) hfree
  obtain ⟨hremoved, hdropped, -, hpassed, hfailed, hpassed', hfailed'⟩ :=
    hcounters (fun e he => (hevents e he).2.2) (by decide) hcycle
  simp only [List.map_cons, List.map_nil, List.cons.injEq, Prod.mk.injEq] at hnotices
  obtain ⟨⟨hverified, hrefused⟩, ⟨hverified', hrefused'⟩, -⟩ := hnotices
  rw [hpurges] at hremoved
  rw [hdiscards] at hdropped
  exact ⟨v₀, responses, v, hnew, hrun, hcycle, hpurges, hdiscards, hledger, hremoved, hdropped,
    hpassed.trans hverified, hfailed.trans hrefused, hpassed'.trans hverified',
    hfailed'.trans hrefused'⟩

end Verifier

end SidechainVerifier
