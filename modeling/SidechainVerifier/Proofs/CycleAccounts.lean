/-
SidechainVerifier.Proofs.CycleAccounts — what a cycle publishes, and whom it
still has to tell.

Each step of a cycle publishes some states and leaves the cycle at a stage,
or ends it. The states add up: whatever the steps were, a cycle at a stage
has published the states of that stage (`Stage.states`), and one that is
finished those of its outcome (`CycleOutcome.states`,
`Verifier.accounts_of_handle?`). It publishes that it is verifying if and
only if it has drained something to verify.

The notices add up as well. What a cycle owes are the objects in flight that
will not be dropped, and from the take on those that are left to deliver
(`Verifier.owed`); a step tells of one of them or of none. So a cycle that
is finished has told of everything that it was handed and that was not
dropped before the take (`Verifier.Run.told_of_finished`).
-/
import SidechainVerifier.Proofs.Guards
import SidechainVerifier.Proofs.Ledger

namespace SidechainVerifier

/-! ## States -/

/-- The states that were published when a cycle has come to a stage. -/
def Stage.states : Stage → List DriverState
  | .verifying _ => [.draining, .verifying]
  | .dispatching _ _ _ => [.draining, .verifying, .dispatching]

/-- The states that are published in a whole cycle. -/
def CycleOutcome.states : CycleOutcome → List DriverState
  | .notTriggered | .paused => []
  | .completed _ 0 _ => [.draining, .idle]
  | .completed _ (_ + 1) _ => [.draining, .verifying, .dispatching, .idle]

namespace Verifier

/-- The states that the cycle in progress has published. -/
def statesSoFar (v : Verifier) : List DriverState := (v.cycle.map (·.stage.states)).getD []

/-- The cycle in progress, if there is one, has something to verify. -/
def HasBatch (v : Verifier) : Prop := ∀ cycle, v.cycle = some cycle → cycle.verified ≠ 0

theorem hasBatch_of_none {v : Verifier} (hcycle : v.cycle = none) : v.HasBatch := by
  intro cycle hsome
  rw [hcycle] at hsome
  cases hsome

end Verifier

/-- What was published before a step, and the states published in it, are what its result asks
for. -/
structure CycleStep.Accounts (step : CycleStep) (soFar : List DriverState) : Prop where
  states : match step.progress with
    | .awaiting _ => soFar ++ step.published = step.verifier.statesSoFar
    | .finished outcome => soFar ++ step.published = outcome.states
    | .torn => step.published = []
  cycle : match step.progress with
    | .awaiting need => step.verifier.awaited? = some need
    | _ => step.verifier.cycle = none
  batch : step.verifier.HasBatch

namespace Verifier

variable {v w : Verifier} {event : Event} {response : Response} {published : List DriverState}
  {progress : Progress} {step : CycleStep}

theorem accounts_start (hcycle : v.cycle = none) {force : Bool} {now : Instant}
    (h : v.start? force now = some step) : step.Accounts v.statesSoFar := by
  have hsoFar : v.statesSoFar = [] := by
    rw [statesSoFar, hcycle]
    rfl
  have hidle (outcome : CycleOutcome) (houtcome : outcome.states = []) :
      (v.finish [] outcome).Accounts v.statesSoFar :=
    ⟨by rw [hsoFar]; exact houtcome.symm, rfl, hasBatch_of_none rfl⟩
  unfold start? at h
  simp only [hcycle] at h
  split at h
  · cases h
    exact hidle .notTriggered rfl
  · split at h
    · cases h
      exact hidle .paused rfl
    · split at h
      next =>
        cases h
        exact ⟨by rw [hsoFar]; rfl, rfl, hasBatch_of_none rfl⟩
      next hbatch =>
        cases h
        refine ⟨by rw [hsoFar]; rfl, rfl, fun cycle hsome => ?_⟩
        cases hsome
        exact fun hlength => hbatch (List.isEmpty_iff.mpr (List.length_eq_zero_iff.mp hlength))

theorem accounts_consult {cycle : Cycle} {work : Consultation Results}
    (hcycle : v.cycle = some cycle) (hstage : cycle.stage = .verifying work) (hbatch : v.HasBatch)
    (work' : Consultation Results) :
    (v.consult cycle work').Accounts v.statesSoFar := by
  have hsoFar : v.statesSoFar = [.draining, .verifying] := by
    rw [statesSoFar, hcycle, Option.map_some, Option.getD_some, hstage]
    rfl
  unfold consult
  split
  · exact ⟨rfl, rfl, hasBatch_of_none rfl⟩
  · refine ⟨by rw [hsoFar]; rfl, rfl, fun next hsome => ?_⟩
    cases hsome
    exact hbatch cycle hcycle

theorem accounts_dispatch {cycle : Cycle} (hbatch : cycle.verified ≠ 0) (dispatched : Nat)
    (deliveries : List Delivery) {soFar published : List DriverState}
    (hstates : soFar ++ published = [.draining, .verifying, .dispatching]) :
    (v.dispatch published cycle dispatched deliveries).Accounts soFar := by
  cases deliveries with
  | nil =>
    refine ⟨?_, rfl, hasBatch_of_none rfl⟩
    obtain ⟨n, hn⟩ := Nat.exists_eq_succ_of_ne_zero hbatch
    simp only [dispatch, finish, hn, ← List.append_assoc, hstates]
    rfl
  | cons current rest =>
    refine ⟨hstates, rfl, fun next hsome => ?_⟩
    cases hsome
    exact hbatch

/-- A step publishes what is missing from the states of the stage or of the outcome that it leads
to. -/
theorem accounts_of_handle? (h : v.handle? event = some (.stepped published progress, w))
    (hbatch : v.HasBatch) : CycleStep.Accounts ⟨w, published, progress⟩ v.statesSoFar := by
  have hstep {step : CycleStep} (hstepped : stepped step = (.stepped published progress, w)) :
      step = ⟨w, published, progress⟩ := by
    obtain ⟨verifier, published', progress'⟩ := step
    cases hstepped
    rfl
  cases event with
  | start force now =>
    obtain ⟨step, hstart, heq⟩ := Option.map_eq_some_iff.mp h
    rw [← hstep heq]
    cases hcycle : v.cycle with
    | none => exact accounts_start hcycle hstart
    | some cycle => simp [start?, hcycle] at hstart
  | replyBatch reply =>
    obtain ⟨step, hreply, heq⟩ := Option.map_eq_some_iff.mp h
    rw [← hstep heq]
    obtain ⟨cycle, hcycle, hreply⟩ := Option.bind_eq_some_iff.mp hreply
    split at hreply
    next hstage =>
      cases hreply
      exact accounts_consult hcycle hstage hbatch _
    next => cases hreply
  | replySingle reply =>
    obtain ⟨step, hreply, heq⟩ := Option.map_eq_some_iff.mp h
    rw [← hstep heq]
    obtain ⟨cycle, hcycle, hreply⟩ := Option.bind_eq_some_iff.mp hreply
    split at hreply
    next hstage =>
      cases hreply
      exact accounts_consult hcycle hstage hbatch _
    next => cases hreply
  | take =>
    obtain ⟨step, htake, heq⟩ := Option.map_eq_some_iff.mp h
    rw [← hstep heq]
    obtain ⟨cycle, hcycle, htake⟩ := Option.bind_eq_some_iff.mp htake
    split at htake
    next hstage =>
      cases htake
      refine accounts_dispatch (hbatch cycle hcycle) 0 _ ?_
      rw [statesSoFar, hcycle, Option.map_some, Option.getD_some, hstage]
      rfl
    next => cases htake
  | delivered timestamp =>
    obtain ⟨step, hdelivered, heq⟩ := Option.map_eq_some_iff.mp h
    rw [← hstep heq]
    obtain ⟨cycle, hcycle, hdelivered⟩ := Option.bind_eq_some_iff.mp hdelivered
    split at hdelivered
    next hstage _ =>
      cases hdelivered
      refine accounts_dispatch (hbatch cycle hcycle) _ _ ?_
      rw [statesSoFar, hcycle, Option.map_some, Option.getD_some, hstage]
      rfl
    next =>
      cases hdelivered
      exact ⟨rfl, rfl, hasBatch_of_none rfl⟩
    next => cases hdelivered
  -- No other event steps the cycle.
  | _ =>
    cases step_of_handle? h with
    | consulted _ _ hreply _ => cases hreply
    | abandoned _ _ hreply => cases hreply

theorem verifying_mem_of_start {force : Bool} {now : Instant} (h : v.start? force now = some step)
    (hmem : .draining ∈ step.published ∨ .verifying ∈ step.published) :
    .verifying ∈ step.published ↔ (v.queue.drain v.cache.contains).1.batch ≠ [] := by
  have hquiet (hpublished : step.published = []) :
      .verifying ∈ step.published ↔ (v.queue.drain v.cache.contains).1.batch ≠ [] := by
    rw [hpublished] at hmem
    rcases hmem with hmem | hmem <;> cases hmem
  unfold start? at h
  split at h
  · cases h
  · split at h
    · cases h
      exact hquiet rfl
    · split at h
      · cases h
        exact hquiet rfl
      · dsimp only at h
        split at h
        next hempty =>
          cases h
          simpa [finish] using hempty
        next hbatch =>
          cases h
          simpa [await] using hbatch

theorem nodup_states (outcome : CycleOutcome) : outcome.states.Nodup := by
  cases outcome with
  | completed removed verified dispatched => cases verified <;> simp [CycleOutcome.states]
  | _ => exact List.nodup_nil

theorem nodup_statesSoFar (v : Verifier) : v.statesSoFar.Nodup := by
  rw [statesSoFar]
  cases v.cycle with
  | none => exact List.nodup_nil
  | some cycle =>
    rw [Option.map_some, Option.getD_some]
    cases cycle.stage <;> simp [Stage.states]

theorem mem_statesSoFar (hcycle : v.cycle ≠ none) :
    .draining ∈ v.statesSoFar ∧ .verifying ∈ v.statesSoFar := by
  obtain ⟨cycle, hsome⟩ := Option.ne_none_iff_exists'.mp hcycle
  rw [statesSoFar, hsome, Option.map_some, Option.getD_some]
  cases cycle.stage <;> simp [Stage.states]

/-- It is published that a cycle is draining or verifying only when it starts, and then it is
verifying if it has drained something to verify. -/
theorem verifying_mem_of_handle? (h : v.handle? event = some (.stepped published progress, w))
    (hbatch : v.HasBatch) (hmem : .draining ∈ published ∨ .verifying ∈ published) :
    event.isStart = true ∧
      (.verifying ∈ published ↔ (v.queue.drain v.cache.contains).1.batch ≠ []) := by
  cases hstart : event.isStart with
  | true =>
    refine ⟨rfl, ?_⟩
    cases event with
    | start force now =>
      obtain ⟨step, hstep, heq⟩ := Option.map_eq_some_iff.mp h
      cases heq
      exact verifying_mem_of_start hstep hmem
    | _ => cases hstart
  | false =>
    -- A cycle in progress has published both already, and publishes nothing twice.
    have hsome := mem_statesSoFar ((step_of_handle? h).cycle_ne_none_of_stepped rfl hstart)
    have hnodup : (v.statesSoFar ++ published).Nodup := by
      have hstates := (accounts_of_handle? h hbatch).states
      cases progress with
      | awaiting need =>
        rw [show v.statesSoFar ++ published = w.statesSoFar from hstates]
        exact nodup_statesSoFar w
      | finished outcome =>
        rw [show v.statesSoFar ++ published = outcome.states from hstates]
        exact nodup_states outcome
      | torn =>
        rw [show published = [] from hstates] at hmem
        rcases hmem with hmem | hmem <;> cases hmem
    have hdisjoint := List.disjoint_of_nodup_append hnodup
    rcases hmem with hmem | hmem
    · exact (hdisjoint hsome.1 hmem).elim
    · exact (hdisjoint hsome.2 hmem).elim

theorem cycle_ne_none_of_awaited? {need : Awaited} (h : v.awaited? = some need) :
    v.cycle ≠ none := by
  intro hnone
  rw [awaited?, hnone] at h
  cases h

/-! ## Notices -/

variable {config : Config} {v₀ u x : Verifier} {past before during events : List Event}
  {responses responses' : List Response}

/-- When all calls return, no step tears the cycle down. -/
theorem Run.not_torn (hnew : Verifier.new config = .ok v₀) (hrun : v₀.Run .any past responses v)
    (hallowed : Replies.any.Allows v.awaited? event)
    (h : v.handle? event = some (.stepped published progress, w)) : progress ≠ .torn := by
  rintro rfl
  generalize hresponse : Response.stepped published .torn = response at h
  cases step_of_handle? h with
  | abandoned hcycle hstage hreply => exact hrun.not_abandoned hnew hallowed hcycle hstage hreply
  | undelivered _ _ => exact hallowed
  | @take cycle results _ _ _ =>
    generalize v.queue.inFlight.deliveries results = deliveries at hresponse
    cases deliveries <;> cases hresponse
  | @delivered cycle dispatched current rest _ _ _ _ => cases rest <;> cases hresponse
  | _ => cases hresponse

/-- A cycle in progress has something to verify. -/
theorem Run.hasBatch (hnew : Verifier.new config = .ok v₀)
    (h : v₀.Run .any past responses v) : v.HasBatch := by
  induction h with
  | nil =>
    rw [eq_of_new hnew]
    exact hasBatch_of_none rfl
  | @concat past responses v event response w _ _ hhandle ih =>
    cases response with
    | stepped published progress => exact (accounts_of_handle? hhandle ih).batch
    | _ =>
      have hcycle :=
        (step_of_handle? hhandle).cycle_eq_of_not_stepped fun _ _ => Response.noConfusion
      exact fun cycle hsome => ih cycle (hcycle ▸ hsome)

/-- The hashes of the objects that the cycle in progress has still to tell of, if the given events
are to come. -/
def owed (v : Verifier) (events : List Event) : List Hash :=
  match v.cycle.map Cycle.stage with
  | some (.verifying _) =>
    (v.queue.inFlight.filter (Event.spared (Event.beforeTake events))).parents
  | some (.dispatching _ _ rest) => rest.map (·.notice.subject.hash)
  | none => []

theorem owed_of_none (hcycle : v.cycle = none) (events : List Event) : v.owed events = [] := by
  rw [owed, hcycle]
  rfl

theorem owed_proceed (cycle : Cycle) (dispatched : Nat) (deliveries : List Delivery)
    {t : Transition} (hcycle : w.cycle = (cycle.proceed dispatched deliveries).1)
    (ht : t.response = .stepped published (cycle.proceed dispatched deliveries).2)
    (events : List Event) :
    deliveries.map (·.notice.subject.hash) =
      t.notice?.toList.map (·.subject.hash) ++ w.owed events := by
  rw [owed, hcycle, Transition.notice?, ht]
  cases deliveries <;> rfl

theorem owed_of_verifying {cycle : Cycle} {work : Consultation Results}
    (hcycle : v.cycle = some cycle) (hstage : cycle.stage = .verifying work) (events : List Event) :
    v.owed events = (v.queue.inFlight.filter (Event.spared (Event.beforeTake events))).parents := by
  rw [owed, hcycle, Option.map_some, hstage]

/-- What is in flight and will not be dropped is the same before and after an event that may drop
some of it. -/
theorem filter_spared_cons (htake : event.isTake = false)
    (hflight : w.queue.inFlight = v.queue.inFlight.filter fun hash => !event.drops hash)
    (events : List Event) :
    v.queue.inFlight.filter (Event.spared (Event.beforeTake (event :: events))) =
      w.queue.inFlight.filter (Event.spared (Event.beforeTake events)) := by
  have hbefore : Event.beforeTake (event :: events) = event :: Event.beforeTake events := by
    simp [Event.beforeTake, htake]
  rw [hflight, RequestSet.filter_filter, hbefore]
  exact RequestSet.filter_congr fun hash => rfl

/-- A step tells of the first of the objects that are owed, or of none. -/
theorem Run.owed_step (hnew : Verifier.new config = .ok v₀) (hrun : v₀.Run .any past responses v)
    (hallowed : Replies.any.Allows v.awaited? event) (hevent : event.isStart = false)
    (h : v.handle? event = some (response, w)) (events : List Event) :
    v.owed (event :: events) =
      (Transition.notice? ⟨v, event, response, w⟩).toList.map (·.subject.hash) ++
        w.owed events := by
  have hframe (hcycle : w.cycle = v.cycle) (htake : event.isTake = false)
      (hflight : w.queue.inFlight = v.queue.inFlight.filter fun hash => !event.drops hash) :
      v.owed (event :: events) = w.owed events := by
    rw [owed, owed, hcycle, filter_spared_cons htake hflight]
  have hsame (hdrops : ∀ hash, event.drops hash = false)
      (hflight : w.queue.inFlight = v.queue.inFlight) :
      w.queue.inFlight = v.queue.inFlight.filter fun hash => !event.drops hash := by
    simp only [hflight, hdrops, Bool.not_false, RequestSet.filter_true]
  cases step_of_handle? h with
  | idle _ _ => cases hevent
  | purge _ _ => cases hevent
  | handOff _ _ _ => cases hevent
  | discardAll => exact hframe rfl rfl (RequestSet.empty_eq_filter _)
  | @discard hash =>
    refine hframe rfl rfl ((RequestSet.removeParent_eq_filter _ hash).trans ?_)
    exact RequestSet.filter_congr fun hash' => by simp [Event.drops]
  | reset hnone =>
    rw [owed_of_none hnone, owed_of_none (by exact hnone)]
    rfl
  | @consulted _ cycle work work' hcycle hstage hreply need hneed =>
    have htake : event.isTake = false := by cases hreply <;> rfl
    have hdrops : ∀ hash, event.drops hash = false := by cases hreply <;> exact fun _ => rfl
    rw [notice?_eq_none_of_verifying rfl hneed rfl, owed_of_verifying hcycle hstage,
      owed_of_verifying rfl rfl, filter_spared_cons htake (hsame hdrops rfl)]
    rfl
  | abandoned hcycle hstage hreply =>
    exact (hrun.not_abandoned hnew hallowed hcycle hstage hreply).elim
  | undelivered _ _ => exact hallowed.elim
  | @take cycle results published hcycle hstage =>
    rw [← owed_proceed cycle 0 (v.queue.inFlight.deliveries results) rfl rfl events,
      owed_of_verifying hcycle hstage]
    show (v.queue.inFlight.filter fun _ => true).parents = _
    rw [RequestSet.filter_true, ← hrun.parents_inFlight hnew hcycle hstage]
    exact List.map_congr_left fun d hd => ((hrun.known hnew).2.subject_hash hd).symm
  | @delivered cycle dispatched current rest timestamp published hcycle hstage =>
    rw [← owed_proceed cycle (dispatched + 1) rest rfl rfl events, owed, hcycle, Option.map_some,
      hstage]
  | _ => exact hframe rfl rfl (hsame (fun _ => rfl) rfl)

theorem notices_cons (h : v.handle? event = some (response, w)) (events : List Event) :
    v.notices (event :: events) =
      (Transition.notice? ⟨v, event, response, w⟩).toList ++ w.notices events := by
  rw [notices, trace, h]
  cases hnotice : Transition.notice? ⟨v, event, response, w⟩ <;> simp [notices, hnotice]

/-- A cycle that comes to its end tells of everything that it owes. -/
theorem Run.told_of_owed (hnew : Verifier.new config = .ok v₀) (hrun : v₀.Run .any past responses v)
    (hevents : v.run? events = some (responses', x)) (hanswered : v.AnsweredBy .any events)
    (hstart : ∀ e ∈ events, e.isStart = false) (hend : x.cycle = none) :
    (v.notices events).map (·.subject.hash) = v.owed events := by
  induction events generalizing past responses v responses' with
  | nil =>
    cases hevents
    rw [owed_of_none hend]
    rfl
  | cons event rest ih =>
    obtain ⟨response, w, responses', hhandle, hrest, rfl⟩ := run?_cons hevents
    simp only [AnsweredBy, trace, hhandle, List.forall_mem_cons] at hanswered
    obtain ⟨hevent, hstart⟩ := List.forall_mem_cons.mp hstart
    rw [hrun.owed_step hnew hanswered.1 hevent hhandle, notices_cons hhandle, List.map_append,
      ih (hrun.concat hanswered.1 hhandle) hrest hanswered.2 hstart]

/-- After a hand-off everything is owed that was pending, had no cached verdict, and will not be
dropped before the take. -/
theorem Run.owed_start (hnew : Verifier.new config = .ok v₀)
    (hrun : v₀.Run .any before responses u) {force : Bool} {now : Instant}
    (h : u.handle? (.start force now) = some (.stepped (.draining :: published) progress, w))
    (during : List Event) :
    w.owed during = u.queue.pending.requests.parents.filter (u.takes during) := by
  rw [← RequestSet.parents_filter, ← kept_filter_eq]
  generalize hresponse : Response.stepped (.draining :: published) progress = response at h
  cases step_of_handle? h with
  | idle _ _ => cases hresponse
  | purge hnone hkept =>
    have hkeyed := (kept_remainsOf u).keyed (hrun.known hnew).1.keyed
    rw [hkeyed.eq_empty hkept, owed_of_none (by exact hnone)]
    rfl
  | handOff hnone hstage _ =>
    rw [owed_of_verifying rfl hstage]
    show ((u.queue.inFlight.absorb u.kept).filter _).parents = _
    rw [hrun.settled hnew hnone, RequestSet.empty_absorb]
  | consulted _ _ hreply _ => cases hreply
  | abandoned _ _ hreply => cases hreply

theorem notice?_eq_none_of_start {force : Bool} {now : Instant}
    (h : v.handle? (.start force now) = some (response, w)) :
    Transition.notice? ⟨v, .start force now, response, w⟩ = none := by
  cases step_of_handle? h with
  | idle _ _ => rfl
  | purge _ _ => rfl
  | handOff _ hstage hneed => exact notice?_eq_none_of_verifying hstage hneed rfl
  | consulted _ _ hreply _ => cases hreply
  | abandoned _ _ hreply => cases hreply

/-- A finished cycle has told, once each and in their order, of the objects that were pending at its
start without a cached verdict and were not dropped before the batch was taken. -/
theorem Run.told_of_finished (hnew : Verifier.new config = .ok v₀)
    (hrun : v₀.Run .any before responses u) {force : Bool} {now : Instant}
    (hhandle : u.handle? (.start force now) = some (.stepped (.draining :: published) progress, w))
    (hduring : w.run? during = some (responses', x)) (hanswered : w.AnsweredBy .any during)
    (hstart : ∀ e ∈ during, e.isStart = false) (hend : x.cycle = none) :
    (u.notices (.start force now :: during)).map (·.subject.hash) =
      u.queue.pending.requests.parents.filter (u.takes during) := by
  have hallowed : Replies.any.Allows u.awaited? (.start force now) := trivial
  rw [notices_cons hhandle, notice?_eq_none_of_start hhandle, Option.toList_none, List.nil_append,
    (hrun.concat hallowed hhandle).told_of_owed hnew hduring hanswered hstart hend,
    hrun.owed_start hnew hhandle]

end Verifier

end SidechainVerifier
