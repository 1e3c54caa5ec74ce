/-
SidechainVerifier.Proofs.Courses — the course of a cycle, from its hand-off
to its end.

`Verifier.batch` is what a cycle takes out of flight: what was in flight and
what was handed off at its start, less the objects dropped since.
`Verifier.Course` relates a verifier in the middle of a cycle, or just after
its completion, to the one the cycle was started from: either nobody has
been told anything, or the deliveries of the batch are being made in their
order, and the objects still to be told of are not cached. What is pending
came of the events since the start. `underway_of_run?` shows both along a
cycle, whatever is enqueued and dropped meanwhile, and also when earlier
cycles were torn down.
-/
import Mathlib.Data.List.Induction
import Mathlib.Data.List.TakeWhile
import SidechainVerifier.Proofs.CachedVerdicts
import SidechainVerifier.Proofs.Counters
import SidechainVerifier.Proofs.FlatSets

namespace SidechainVerifier

open OrderedMap

/-! ## Events during a cycle -/

namespace Event

/-- Whether the batch is taken out of flight. -/
def isTake : Event → Bool
  | .take => true
  | _ => false

/-- Whether an object is dropped, if it is in flight. -/
def drops (hash : Hash) : Event → Bool
  | .discardAll => true
  | .discard hash' => hash = hash'
  | _ => false

/-- The events before the batch is taken out of flight. -/
def beforeTake (events : List Event) : List Event := events.takeWhile fun e => !e.isTake

/-- No event drops the object. -/
def spared (events : List Event) (hash : Hash) : Bool := events.all fun e => !e.drops hash

/-- The last request under an identity that came of the events. -/
def lastRequest? (events : List Event) (id : RequestId) : Option Request :=
  (events.flatMap requests).reverse.find? fun r => r.id = id

variable {events : List Event} {event : Event}

theorem beforeTake_concat_of_forall (h : ∀ e ∈ events, e.isTake = false) :
    beforeTake (events ++ [event]) = if event.isTake then events else events ++ [event] := by
  rw [beforeTake, List.takeWhile_append_of_pos fun e he => by rw [h e he, Bool.not_false]]
  cases htake : event.isTake <;> simp [htake]

theorem beforeTake_concat_of_exists (h : ∃ e ∈ events, e.isTake = true) :
    beforeTake (events ++ [event]) = beforeTake events := by
  induction events with
  | nil =>
    obtain ⟨e, he, -⟩ := h
    cases he
  | cons e rest ih =>
    cases htake : e.isTake with
    | true => simp [beforeTake, htake]
    | false =>
      have hrest : ∃ e ∈ rest, e.isTake = true := by simpa [htake] using h
      simpa [beforeTake, htake] using ih hrest

theorem beforeTake_eq_self (h : ∀ e ∈ events, e.isTake = false) : beforeTake events = events :=
  List.takeWhile_eq_self_iff.mpr fun e he => by rw [h e he, Bool.not_false]

theorem spared_concat (events : List Event) (event : Event) (hash : Hash) :
    spared (events ++ [event]) hash = (spared events hash && !event.drops hash) := by
  simp [spared]

theorem lastRequest?_concat (events : List Event) (event : Event) (id : RequestId) :
    lastRequest? (events ++ [event]) id =
      (event.requests.reverse.find? fun r => r.id = id).or (lastRequest? events id) := by
  simp [lastRequest?, List.find?_append]

end Event

/-! ## Requests enqueued during a cycle -/

namespace Verifier

variable {config : Config} {v₀ u v w : Verifier} {before during : List Event} {event : Event}
  {response : Response} {responses responses₀ : List Response} {told : List Notice}

theorem request?_enqueueWithdrawals (rs : List WithdrawalRequest) (p : Pending) (now : Instant)
    (id : RequestId) :
    (rs.foldl (fun p r => p.enqueueWithdrawal r now) p).requests.request? id =
      ((rs.map Request.withdrawal).reverse.find? fun r => r.id = id).or (p.requests.request? id) := by
  induction rs generalizing p with
  | nil => rfl
  | cons r rest ih =>
    rw [List.foldl_cons, ih, Pending.enqueueWithdrawal, RequestSet.request?_insertWithdrawal,
      List.map_cons, List.reverse_cons, List.find?_append, Option.or_assoc]
    congr 1
    by_cases h : r.id = id
    · simp [Request.id, h]
    · simp [Request.id, h, Ne.symm h]

/-- While a cycle goes on, pending requests are only replaced by those that are enqueued. -/
theorem Step.request?_pending (h : v.Step event response w) (hcycle : v.cycle ≠ none)
    (id : RequestId) :
    w.queue.pending.requests.request? id =
      (event.requests.reverse.find? fun r => r.id = id).or
        (v.queue.pending.requests.request? id) := by
  cases h with
  | @enqueueCertificate view certificate origin now r hrequest =>
    have hr : (Event.enqueueCertificate view certificate origin now).certificate? = some r := by
      simp [Event.certificate?, hrequest, Except.toOption]
    rw [Event.requests_of_certificate? hr]
    refine (RequestSet.request?_insertCertificate _ _ _).trans ?_
    by_cases hid : r.id = id
    · simp [Request.id, hid]
    · simp [Request.id, hid, Ne.symm hid]
  | @enqueueTransaction view transaction origin now rs hrequests =>
    have hrs : (Event.enqueueTransaction view transaction origin now).requests =
        rs.map .withdrawal := by
      simp [Event.requests, Event.certificate?, Event.withdrawals, hrequests, Except.toOption]
    rw [hrs]
    exact request?_enqueueWithdrawals rs _ now id
  | refuseCertificate hrequest =>
    simp [Event.requests, Event.certificate?, Event.withdrawals, hrequest, Except.toOption]
  | refuseTransaction hrequests =>
    simp [Event.requests, Event.certificate?, Event.withdrawals, hrequests, Except.toOption]
  | reset hnone => exact absurd hnone hcycle
  | idle hnone _ => exact absurd hnone hcycle
  | purge hnone _ => exact absurd hnone hcycle
  | handOff hnone _ _ => exact absurd hnone hcycle
  | consulted _ _ hreply _ => rw [requests_eq_nil_of_reply hreply]; rfl
  | abandoned _ _ hreply => rw [requests_eq_nil_of_reply hreply]; rfl
  | _ => rfl

/-! ## What is still to be delivered -/

end Verifier

/-- The deliveries that a cycle has not finished yet. -/
def Cycle.outstanding (cycle : Cycle) : List Delivery :=
  match cycle.stage with
  | .verifying _ => []
  | .dispatching _ current rest => current :: rest

namespace Verifier

variable {config : Config} {v₀ u v w : Verifier} {before during : List Event} {event : Event}
  {response : Response} {responses responses₀ : List Response} {told : List Notice}

/-- The deliveries that the cycle in progress has not finished yet. -/
def outstanding (v : Verifier) : List Delivery := (v.cycle.map Cycle.outstanding).getD []

theorem outstanding_of_none (hnone : v.cycle = none) : v.outstanding = [] := by
  rw [outstanding, hnone]
  rfl

theorem outstanding_of_verifying {cycle : Cycle} {work : Consultation Results}
    (hcycle : v.cycle = some cycle) (hstage : cycle.stage = .verifying work) :
    v.outstanding = [] := by
  rw [outstanding, hcycle, Option.map_some, Option.getD_some, Cycle.outstanding, hstage]

theorem outstanding_of_dispatching {cycle : Cycle} {dispatched : Nat} {current : Delivery}
    {rest : List Delivery} (hcycle : v.cycle = some cycle)
    (hstage : cycle.stage = .dispatching dispatched current rest) :
    v.outstanding = current :: rest := by
  rw [outstanding, hcycle, Option.map_some, Option.getD_some, Cycle.outstanding, hstage]

theorem outstanding_proceed {cycle : Cycle} {dispatched : Nat} {deliveries : List Delivery}
    (hcycle : w.cycle = (cycle.proceed dispatched deliveries).1) : w.outstanding = deliveries := by
  rw [outstanding, hcycle]
  cases deliveries <;> rfl

/-- The first of the remaining deliveries is announced, the others are left for later. -/
theorem notices_proceed {cycle : Cycle} {dispatched : Nat} {deliveries : List Delivery}
    {t : Transition} {published : List DriverState}
    (ht : t.response = .stepped published (cycle.proceed dispatched deliveries).2) :
    t.notice?.toList ++ deliveries.tail.map (·.notice) = deliveries.map (·.notice) := by
  rw [Transition.notice?, ht]
  cases deliveries <;> rfl

/-! ## The course of a cycle -/

/-- What a cycle started from `u` takes out of flight, after the events `during`. -/
def batch (u : Verifier) (during : List Event) : RequestSet :=
  (u.queue.inFlight.absorb u.kept).filter (Event.spared (Event.beforeTake during))

/-- Verdicts for what `u` would hand off. -/
def Judges (u : Verifier) (results : Results) : Prop :=
  results.Judge (Results.Resolved fun _ _ => True) u.kept.requests

/-- How far a cycle started from `u` has come after the events `during`; the listener was told
`told`. -/
inductive Course (u : Verifier) (during : List Event) (told : List Notice) (v : Verifier) : Prop
  /-- Nothing was left to verify. -/
  | purged (hcycle : v.cycle = none) (hkept : u.kept.requests = []) (htold : told = [])
  /-- The backend is being consulted. -/
  | verifying {cycle work} (hcycle : v.cycle = some cycle) (hstage : cycle.stage = .verifying work)
      (hwork : work.Ensures .free u.Judges) (htake : ∀ e ∈ during, e.isTake = false)
      (hflight : v.queue.inFlight = u.batch during) (hcache : v.cache = u.cache) (htold : told = [])
  /-- The batch was taken out of flight. -/
  | taken {results} (hresults : u.Judges results) (htake : ∃ e ∈ during, e.isTake = true)
      (hstage : v.cycle ≠ none → v.outstanding ≠ [])
      (hsuffix : v.outstanding <:+ (u.batch during).deliveries results)
      (hcache : ∀ d ∈ v.outstanding, v.cached? d.hash = none)
      (htold : told ++ v.outstanding.tail.map (·.notice) =
        ((u.batch during).deliveries results).map (·.notice))

/-- While the backend is consulted, what was handed off is in flight, less what was dropped, and
nobody has been told anything. -/
theorem Course.of_verifying (h : u.Course during told v) {cycle : Cycle}
    {work : Consultation Results} (hcycle : v.cycle = some cycle)
    (hstage : cycle.stage = .verifying work) :
    work.Ensures .free u.Judges ∧ (∀ e ∈ during, e.isTake = false) ∧
      v.queue.inFlight = u.batch during ∧ v.cache = u.cache ∧ told = [] := by
  cases h with
  | purged hnone _ _ =>
    rw [hnone] at hcycle
    cases hcycle
  | verifying hcycle' hstage' hwork htake hflight hcache htold =>
    rw [hcycle] at hcycle'
    cases hcycle'
    rw [hstage] at hstage'
    cases hstage'
    exact ⟨hwork, htake, hflight, hcache, htold⟩
  | taken _ _ hleft _ _ _ =>
    exact absurd (outstanding_of_verifying hcycle hstage) (hleft (by simp [hcycle]))

/-- During the deliveries, the current one has been announced and the rest is still to be told. -/
theorem Course.of_dispatching (h : u.Course during told v) {cycle : Cycle} {dispatched : Nat}
    {current : Delivery} {rest : List Delivery} (hcycle : v.cycle = some cycle)
    (hstage : cycle.stage = .dispatching dispatched current rest) :
    ∃ results, u.Judges results ∧ (∃ e ∈ during, e.isTake = true) ∧
      current :: rest <:+ (u.batch during).deliveries results ∧
      (∀ d ∈ current :: rest, v.cached? d.hash = none) ∧
      told ++ rest.map (·.notice) = ((u.batch during).deliveries results).map (·.notice) := by
  cases h with
  | purged hnone _ _ =>
    rw [hnone] at hcycle
    cases hcycle
  | verifying hcycle' hstage' _ _ _ _ _ =>
    rw [hcycle] at hcycle'
    cases hcycle'
    rw [hstage] at hstage'
    cases hstage'
  | @taken results hresults htake _ hsuffix hcache htold =>
    rw [outstanding_of_dispatching hcycle hstage] at hsuffix hcache htold
    exact ⟨results, hresults, htake, hsuffix, hcache, htold⟩

theorem batch_concat_of_exists (u : Verifier) (htake : ∃ e ∈ during, e.isTake = true) :
    u.batch (during ++ [event]) = u.batch during := by
  rw [batch, Event.beforeTake_concat_of_exists htake, batch]

theorem batch_concat_take (u : Verifier) (htake : ∀ e ∈ during, e.isTake = false) :
    u.batch (during ++ [.take]) = u.batch during := by
  rw [batch, Event.beforeTake_concat_of_forall htake, batch, Event.beforeTake_eq_self htake]
  rfl

theorem batch_concat (u : Verifier) (htake : ∀ e ∈ during, e.isTake = false)
    (hevent : event.isTake = false) :
    u.batch (during ++ [event]) = (u.batch during).filter fun hash => !event.drops hash := by
  rw [batch, Event.beforeTake_concat_of_forall htake, hevent, batch, Event.beforeTake_eq_self htake,
    RequestSet.filter_filter]
  exact congrArg _ (funext fun hash => Event.spared_concat during event hash)

/-- Events that leave the cycle alone do no more to it than drop objects from flight. -/
theorem Course.frame (h : u.Course during told v) (hsome : v.cycle ≠ none)
    (hevent : event.isTake = false) (hcycle : w.cycle = v.cycle) (hcache : w.cache = v.cache)
    (hflight : w.queue.inFlight = v.queue.inFlight.filter fun hash => !event.drops hash) :
    u.Course (during ++ [event]) told w := by
  cases h with
  | purged hnone _ _ => exact absurd hnone hsome
  | verifying hcycle' hstage hwork htake hflight' hcache' htold =>
    refine .verifying (hcycle.trans hcycle') hstage hwork ?_ ?_ (hcache.trans hcache') htold
    · exact List.forall_mem_append.mpr ⟨htake, List.forall_mem_singleton.mpr hevent⟩
    · rw [hflight, hflight', batch_concat u htake hevent]
  | taken hresults htake hstage hsuffix hcache' htold =>
    have houtstanding : w.outstanding = v.outstanding := by rw [outstanding, hcycle, outstanding]
    obtain ⟨e, he, hetake⟩ := htake
    refine .taken hresults ⟨e, List.mem_append_left _ he, hetake⟩ ?_ ?_ ?_ ?_
    · rwa [hcycle, houtstanding]
    · rwa [houtstanding, batch_concat_of_exists u ⟨e, he, hetake⟩]
    · rw [houtstanding]
      exact fun d hd => (congrArg (·.get? d.hash) hcache).trans (hcache' d hd)
    · rwa [houtstanding, batch_concat_of_exists u ⟨e, he, hetake⟩]

/-- The deliveries that are left after the batch was taken. -/
theorem Course.taken_of_proceed (cycle : Cycle) (dispatched : Nat) {deliveries : List Delivery}
    {results : Results} (hresults : u.Judges results) (htake : ∃ e ∈ during, e.isTake = true)
    (hcycle : w.cycle = (cycle.proceed dispatched deliveries).1)
    (hsuffix : deliveries <:+ (u.batch during).deliveries results)
    (hcache : ∀ d ∈ deliveries, w.cached? d.hash = none)
    (htold : told ++ deliveries.tail.map (·.notice) =
      ((u.batch during).deliveries results).map (·.notice)) :
    u.Course during told w := by
  have houtstanding := outstanding_proceed hcycle
  refine .taken hresults htake ?_ ?_ ?_ ?_
  · intro hsome hnil
    rw [houtstanding] at hnil
    exact hsome (by rw [hcycle, hnil]; rfl)
  · rwa [houtstanding]
  · rwa [houtstanding]
  · rwa [houtstanding]

/-! ## Steps of a cycle -/

/-- A cycle is in progress, or the last response was that it has been completed. -/
def Goes (v : Verifier) (responses : List Response) : Prop :=
  v.cycle ≠ none ∨ ∃ published removed verified dispatched,
    responses.getLast? = some (.stepped published (.finished (.completed removed verified dispatched)))

/-- What a step completes, or leaves in progress, was in progress before it, unless the step is a
start. -/
theorem Step.cycle_ne_none_of_goes (h : v.Step event response w) (hevent : event.isStart = false)
    (hgoes : w.Goes [response]) : v.cycle ≠ none := by
  rcases hgoes with hsome | ⟨_, _, _, _, hlast⟩
  · exact h.cycle_ne_none hevent hsome
  · exact h.cycle_ne_none_of_stepped (Option.some.inj hlast) hevent

/-- The first event of a cycle hands the batch off, if there is one. -/
theorem Step.course_start {force : Bool} {now : Instant} (h : u.Step (.start force now) response w)
    (hkept : u.kept.Keyed) (hgoes : w.Goes [response]) {t : Transition}
    (ht : t = ⟨u, .start force now, response, w⟩) :
    u.Course [] t.notice?.toList w ∧ w.queue.pending.requests = .empty := by
  subst ht
  cases h with
  | idle hnone houtcome =>
    rcases hgoes with hsome | ⟨_, _, _, _, hlast⟩
    · exact absurd hnone hsome
    · cases hlast
      rcases houtcome with houtcome | houtcome <;> cases houtcome
  | purge hnone hkept => exact ⟨.purged hnone hkept rfl, rfl⟩
  | @handOff _ _ hnone cycle _ hstage hneed =>
    refine ⟨.verifying rfl hstage (hkept.ensures_verify Replies.free_justify) (by simp) ?_ rfl ?_,
      rfl⟩
    · exact (RequestSet.filter_true _).symm
    · rw [notice?_eq_none_of_verifying hstage hneed rfl]
      rfl
  | consulted _ _ hreply _ => cases hreply
  | abandoned _ _ hreply => cases hreply

/-- Every later event carries the cycle on, as long as it is not torn down. -/
theorem Step.course (hstep : v.Step event response w) (hevent : event.isStart = false)
    (hgoes : w.Goes [response])
    (huncached : ∀ results, u.Judges results →
      ∀ d ∈ (u.batch during).deliveries results, u.cached? d.hash = none)
    (hnodup : ∀ results, (((u.batch during).deliveries results).map (·.hash)).Nodup)
    (h : u.Course during told v) {t : Transition} (ht : t = ⟨v, event, response, w⟩) :
    u.Course (during ++ [event]) (told ++ t.notice?.toList) w := by
  subst ht
  have hsome := hstep.cycle_ne_none_of_goes hevent hgoes
  have hnew {hash : Hash} {cached : CachedVerdict} (hcached : w.cached? hash = some cached) :=
    hstep.cached? hcached
  have hframe (hnotice : Transition.notice? ⟨v, event, response, w⟩ = none)
      (htake : event.isTake = false) (hcycle : w.cycle = v.cycle) (hcache : w.cache = v.cache)
      (hflight : w.queue.inFlight = v.queue.inFlight.filter fun hash => !event.drops hash) :
      u.Course (during ++ [event])
        (told ++ (Transition.notice? ⟨v, event, response, w⟩).toList) w := by
    rw [hnotice, Option.toList_none, List.append_nil]
    exact h.frame hsome htake hcycle hcache hflight
  have hstays (hnotice : Transition.notice? ⟨v, event, response, w⟩ = none)
      (htake : event.isTake = false) (hdrops : ∀ hash, event.drops hash = false)
      (hcycle : w.cycle = v.cycle) (hcache : w.cache = v.cache)
      (hflight : w.queue.inFlight = v.queue.inFlight) :
      u.Course (during ++ [event])
        (told ++ (Transition.notice? ⟨v, event, response, w⟩).toList) w := by
    refine hframe hnotice htake hcycle hcache ?_
    simp only [hflight, hdrops, Bool.not_false, RequestSet.filter_true]
  -- Only answers of the backend, the take and the returns of the listener move a cycle on.
  cases hstep with
  | enqueueCertificate _ => exact hstays rfl rfl (fun _ => rfl) rfl rfl rfl
  | refuseCertificate _ => exact hstays rfl rfl (fun _ => rfl) rfl rfl rfl
  | enqueueTransaction _ => exact hstays rfl rfl (fun _ => rfl) rfl rfl rfl
  | refuseTransaction _ => exact hstays rfl rfl (fun _ => rfl) rfl rfl rfl
  | pause => exact hstays rfl rfl (fun _ => rfl) rfl rfl rfl
  | unpause => exact hstays rfl rfl (fun _ => rfl) rfl rfl rfl
  | unpauseNone => exact hstays rfl rfl (fun _ => rfl) rfl rfl rfl
  | resetStats => exact hstays rfl rfl (fun _ => rfl) rfl rfl rfl
  | discardAll => exact hframe rfl rfl rfl rfl (RequestSet.empty_eq_filter _)
  | @discard hash =>
    refine hframe rfl rfl rfl rfl ((RequestSet.removeParent_eq_filter _ hash).trans ?_)
    exact RequestSet.filter_congr fun hash' => by simp [Event.drops]
  | reset hnone => exact absurd hnone hsome
  | idle _ _ => cases hevent
  | purge _ _ => cases hevent
  | handOff _ _ _ => cases hevent
  | @consulted _ cycle work work' hcycle hstage hreply need hneed =>
    have htakes : event.isTake = false := by cases hreply <;> rfl
    have hdrops : ∀ hash, event.drops hash = false := by cases hreply <;> exact fun _ => rfl
    obtain ⟨hwork, htake, hflight, hcache, htold⟩ := h.of_verifying hcycle hstage
    rw [notice?_eq_none_of_verifying rfl hneed rfl, Option.toList_none, List.append_nil]
    refine .verifying rfl rfl (hwork.reply hreply hstage (Replies.allows_free _ _)) ?_ ?_ hcache
      htold
    · exact List.forall_mem_append.mpr ⟨htake, List.forall_mem_singleton.mpr htakes⟩
    · rw [batch_concat u htake htakes]
      simp only [hflight, hdrops, Bool.not_false, RequestSet.filter_true]
  | abandoned _ _ _ =>
    rcases hgoes with hsome | ⟨_, _, _, _, hlast⟩
    · exact absurd rfl hsome
    · cases hlast
  | undelivered _ _ =>
    rcases hgoes with hsome | ⟨_, _, _, _, hlast⟩
    · exact absurd rfl hsome
    · cases hlast
  | @take cycle results published hcycle hstage =>
    obtain ⟨hresults, htake, hflight, hcache, htold⟩ := h.of_verifying hcycle hstage
    rw [hflight, ← batch_concat_take u htake]
    refine Course.taken_of_proceed cycle 0 hresults ⟨.take, by simp, rfl⟩ rfl
      (List.suffix_refl _) ?_ ?_
    · intro d hd
      rw [batch_concat_take u htake] at hd
      exact (congrArg (·.get? d.hash) hcache).trans (huncached results hresults d hd)
    · rw [htold, List.nil_append]
      exact notices_proceed rfl
  | @delivered cycle dispatched current rest timestamp published hcycle hstage =>
    obtain ⟨results, hresults, htake, hsuffix, hcache, htold⟩ := h.of_dispatching hcycle hstage
    have hrest : rest <:+ (u.batch during).deliveries results :=
      (List.suffix_cons _ _).trans hsuffix
    obtain ⟨e, he, hetake⟩ := htake
    rw [← batch_concat_of_exists u ⟨e, he, hetake⟩] at hrest
    refine Course.taken_of_proceed cycle (dispatched + 1) hresults ⟨e, by simp [he], hetake⟩ rfl
      hrest ?_ ?_
    · intro d hd
      by_contra hsome
      obtain ⟨cached, hcached⟩ := Option.ne_none_iff_exists'.mp hsome
      rcases hnew hcached with hold | ⟨_, _, current', _, hcycle', hstage', hhash, -⟩
      · rw [hcache d (List.mem_cons_of_mem _ hd)] at hold
        cases hold
      · -- The entry is new, so it is that of the delivery just made, and no other has its hash.
        rw [hcycle] at hcycle'
        cases hcycle'
        rw [hstage] at hstage'
        cases hstage'
        have hhashes := (hnodup results).sublist (hsuffix.map (·.hash)).sublist
        exact (List.nodup_cons.mp hhashes).1 (List.mem_map.mpr ⟨d, hd, hhash.symm⟩)
    · rw [List.append_assoc, notices_proceed rfl, batch_concat_of_exists u ⟨e, he, hetake⟩]
      exact htold

/-! ## Cycles along a run -/

/-- A verifier in the middle of a cycle started from `u`, or just after its completion: what is
pending was enqueued during the cycle. -/
structure Underway (u : Verifier) (during : List Event) (told : List Notice) (v : Verifier) :
    Prop where
  pending : ∀ id, v.queue.pending.requests.request? id = Event.lastRequest? during id
  course : u.Course during told v

theorem batch_remainsOf (u : Verifier) (during : List Event) :
    (u.batch during).RemainsOf (u.queue.inFlight.absorb u.kept) :=
  RequestSet.remainsOf_filter _ _

section

variable (hnew : Verifier.new config = .ok v₀) (hbefore : v₀.run? before = some (responses₀, u))

include hnew hbefore

theorem known_batch (during : List Event) : (u.batch during).Known before := by
  obtain ⟨hpending, hflight⟩ := (run_free hbefore).known hnew
  exact (hflight.absorb (hpending.of_remainsOf (kept_remainsOf u))).of_remainsOf
    (batch_remainsOf u during)

/-- No delivery is about an object whose verdict was cached at the hand-off. -/
theorem uncached_of_mem_deliveries {results : Results} (hresults : u.Judges results) {d : Delivery}
    (hd : d ∈ (u.batch during).deliveries results) : u.cached? d.hash = none := by
  obtain ⟨hpending, hflight⟩ := (run_free hbefore).known hnew
  have hkept := (kept_remainsOf u).keyed hpending.keyed
  have hholds : u.kept.holds d.hash = true := by
    rw [RequestSet.holds, Bool.or_eq_true]
    cases RequestSet.tells_of_mem_deliveries (batch_remainsOf u during) hflight.keyed hkept hresults
      hd with
    | certificate hget _ _ => exact .inl (contains_iff.mpr ⟨_, hget⟩)
    | transaction hget _ _ _ => exact .inr (contains_iff.mpr ⟨_, hget⟩)
  rw [kept, Pending.holds_purge, Bool.and_eq_true, Bool.not_eq_true'] at hholds
  exact Cache.contains_eq_false_iff.mp hholds.1

theorem nodup_deliveries (hfree : NoCollisions (before.flatMap Event.preimages))
    (during : List Event) (results : Results) :
    (((u.batch during).deliveries results).map (·.hash)).Nodup := by
  have hknown := known_batch hnew hbefore during
  exact (hknown.nodup_parents hfree).sublist
    (RequestSet.sublist_hash_deliveries hknown.keyed results)

/-- From its hand-off on, a cycle takes its course, whatever is enqueued and dropped meanwhile. -/
theorem underway_of_run? (hfree : NoCollisions (before.flatMap Event.preimages)) {force : Bool}
    {now : Instant} (hrun : u.run? (.start force now :: during) = some (responses, v))
    (hstart : ∀ e ∈ during, e.isStart = false) (hgoes : v.Goes responses) :
    u.Underway during (u.notices (.start force now :: during)) v := by
  -- From the back, as a course is extended by the last event; a cycle that goes on after it went
  -- on before it.
  induction during using List.reverseRecOn generalizing responses v with
  | nil =>
    obtain ⟨response, w, responses', hhandle, hnil, rfl⟩ := run?_cons hrun
    cases hnil
    have hkept := (kept_remainsOf u).keyed ((run_free hbefore).known hnew).1.keyed
    obtain ⟨hcourse, hpending⟩ := (step_of_handle? hhandle).course_start hkept hgoes rfl
    refine ⟨fun id => ?_, ?_⟩
    · rw [hpending, RequestSet.request?_empty]
      rfl
    · have hnil : u.run? [] = some ([], u) := rfl
      have hnotices := notices_concat hnil hhandle
      rw [List.nil_append] at hnotices
      rw [hnotices]
      exact hcourse
  | append_singleton during event ih =>
    rw [← List.cons_append] at hrun ⊢
    obtain ⟨responses', w, response, hrun', hhandle, rfl⟩ := exists_of_run?_concat hrun
    have hstep := step_of_handle? hhandle
    have hevent : event.isStart = false := hstart event (by simp)
    have hgoes' : v.Goes [response] := by simpa [Goes] using hgoes
    have hsome := hstep.cycle_ne_none_of_goes hevent hgoes'
    have h := ih hrun' (fun e he => hstart e (List.mem_append_left _ he)) (.inl hsome)
    refine ⟨fun id => ?_, ?_⟩
    · rw [hstep.request?_pending hsome, h.pending, Event.lastRequest?_concat]
    · rw [notices_concat hrun' hhandle]
      exact hstep.course hevent hgoes' (fun _ hresults _ => uncached_of_mem_deliveries hnew hbefore
        hresults) (nodup_deliveries hnew hbefore hfree during) h.course rfl

end

/-- A cycle in progress is underway from its start. -/
theorem exists_underway (hnew : Verifier.new config = .ok v₀) {events : List Event}
    (hrun : v₀.run? events = some (responses, v))
    (hfree : NoCollisions (events.flatMap Event.preimages)) (hsome : v.cycle ≠ none) :
    ∃ before u responses₀ during told, v₀.run? before = some (responses₀, u) ∧
      u.Underway during told v := by
  obtain ⟨cycle, hcycle⟩ := Option.ne_none_iff_exists'.mp hsome
  obtain ⟨before, u, hhandOff, -⟩ := (run_free hrun).follows Replies.free_justify hnew hcycle
  obtain ⟨force, now, during, rfl, hstart⟩ := hhandOff.started
  obtain ⟨responses₀, hbefore⟩ := hhandOff.reached
  obtain ⟨_, u', responses', hbefore', hrun', -⟩ := exists_of_run?_append hrun
  rw [hbefore.run?_eq] at hbefore'
  cases hbefore'
  have hfree' := Event.noCollisions_of_append hfree
  exact ⟨before, u, responses₀, during, _, hbefore.run?_eq,
    underway_of_run? hnew hbefore.run?_eq hfree' hrun' hstart (.inl hsome)⟩

/-- Deliveries that are still to be finished are about objects without a cached verdict. -/
theorem uncached_of_mem_outstanding (hnew : Verifier.new config = .ok v₀) {events : List Event}
    (hrun : v₀.run? events = some (responses, v))
    (hfree : NoCollisions (events.flatMap Event.preimages)) {d : Delivery}
    (hd : d ∈ v.outstanding) :
    v.cached? d.hash = none ∧ d.notice.subject.hash = d.hash ∧ d.verdict ≠ .unknown ∧
      (d.notice.outcome = .verified ↔ d.verdict = .passed) := by
  have hsome : v.cycle ≠ none := by
    intro hnone
    rw [outstanding_of_none hnone] at hd
    cases hd
  obtain ⟨before, u, responses₀, during, told, hbefore, hunderway⟩ :=
    exists_underway hnew hrun hfree hsome
  cases hunderway.course with
  | purged hnone _ _ => exact absurd hnone hsome
  | verifying hcycle hstage _ _ _ _ _ =>
    rw [outstanding_of_verifying hcycle hstage] at hd
    cases hd
  | taken _ _ _ hsuffix hcache _ =>
    have hmem := hsuffix.subset hd
    exact ⟨hcache d hd, (known_batch hnew hbefore during).subject_hash hmem,
      RequestSet.resolved_of_mem_deliveries hmem⟩

end Verifier

end SidechainVerifier
