/-
SidechainVerifier.Proofs.Flights — what is in flight, and what the backend
is asked about.

The backend is asked about the batch that a start handed off, while verdicts
are delivered on whatever is in flight when the batch is taken. In between
anything may be enqueued or dropped, so the two are tied by an invariant:
what is in flight is either nothing, or remains of the batch that the
backend is being asked about (`Covered`). It holds along every run in which
the backend's calls return (`Run.covered`), and it says that each object
taken out of flight has a verdict. A call that is torn down leaves what was
in flight there, with nobody to ask about it.

Where only the cycle in progress matters, no call has to return
(`Run.resolved`, `Run.inFlight_of_finished`).
-/
import SidechainVerifier.Proofs.Cycles

namespace SidechainVerifier

open OrderedMap

/-! ## Calls that return -/

/-- Whether a call of the backend is torn down. -/
def Event.tearsBackend : Event → Bool
  | .replyBatch none => true
  | .replySingle none => true
  | _ => false

/-- A backend may reply whatever it likes, if it replies. -/
theorem Replies.any_allows {event : Event} {work work' : Consultation Results}
    (hreply : Consultation.Reply event work work') (hreturns : event.tearsBackend = false)
    (need : Option Awaited) : any.Allows need event := by
  cases hreply with
  | @batch _ _ reply =>
    cases reply with
    | none => cases hreturns
    | some reply => exact fun _ _ => trivial
  | @single _ _ reply =>
    cases reply with
    | none => cases hreturns
    | some reply => exact fun _ _ => trivial

/-- Where all calls return, no reply is that the backend's call was torn down. -/
theorem Consultation.Reply.returns {event : Event} {work work' : Consultation Results}
    (hreply : Reply event work work') {cycle : Cycle} (hstage : cycle.stage = .verifying work)
    (hallowed : Replies.any.Allows (some cycle.awaited) event) : event.tearsBackend = false := by
  cases hreply with
  | @batch call _ reply =>
    cases reply with
    | none => exact (hallowed call (by simp [Cycle.awaited, hstage])).elim
    | some reply => rfl
  | @single check _ reply =>
    cases reply with
    | none => exact (hallowed check (by simp [Cycle.awaited, hstage])).elim
    | some reply => rfl

namespace Verifier

/-- Whether a cycle is between its hand-off and the taking of its batch. -/
def consulting (v : Verifier) : Bool :=
  match v.cycle.map Cycle.stage with
  | some (.verifying _) => true
  | _ => false

/-- The results of the consultation, once there are any and the batch is to be taken. -/
def results? (v : Verifier) : Option Results :=
  match v.cycle.map Cycle.stage with
  | some (.verifying (.done results)) => some results
  | _ => none

theorem exists_of_results?_eq_some {v : Verifier} {results : Results}
    (h : v.results? = some results) :
    ∃ cycle, v.cycle = some cycle ∧ cycle.stage = .verifying (.done results) := by
  unfold results? at h
  split at h
  next hstage =>
    cases h
    exact Option.map_eq_some_iff.mp hstage
  next => cases h

/-! ## Batches in flight -/

/-- What is in flight during a cycle, or outside of one: nothing, or what remains of the batch that
the backend is being asked about. -/
inductive Covered (inFlight : RequestSet) (cycle : Option Cycle) : Prop
  | nothing (hempty : inFlight = .empty)
  | batch {current work} {batch : RequestSet} (hcycle : cycle = some current)
      (hstage : current.stage = .verifying work) (hflight : inFlight.RemainsOf batch)
      (hwork : work.Ensures .any fun results =>
        results.Judge (Results.Resolved fun _ _ => True) batch.requests)

variable {replies : Replies} {config : Config} {v₀ v w : Verifier} {event : Event}
  {events : List Event} {response : Response} {responses : List Response}

theorem Covered.mono {inFlight inFlight' : RequestSet} {cycle : Option Cycle}
    (h : Covered inFlight cycle) (hremains : inFlight'.RemainsOf inFlight) :
    Covered inFlight' cycle := by
  cases h with
  | nothing hempty =>
    subst hempty
    exact .nothing hremains.eq_empty
  | batch hcycle hstage hflight hwork => exact .batch hcycle hstage (hremains.trans hflight) hwork

/-- Unless the backend is being asked, nothing is in flight. -/
theorem Covered.eq_empty (h : Covered v.queue.inFlight v.cycle)
    (hconsulting : v.consulting = false) : v.queue.inFlight = .empty := by
  cases h with
  | nothing hempty => exact hempty
  | batch hcycle hstage _ _ => simp [consulting, hcycle, hstage] at hconsulting

/-- When the backend has been asked, each request in flight has a verdict. -/
theorem Covered.exists_verdict (h : Covered v.queue.inFlight v.cycle) {results : Results}
    (hresults : v.results? = some results) {r : Request} (hr : r ∈ v.queue.inFlight.requests) :
    results.get? r.id = some .passed ∨ results.get? r.id = some .failed := by
  obtain ⟨cycle, hcycle, hstage⟩ := exists_of_results?_eq_some hresults
  cases h with
  | nothing hempty =>
    rw [hempty] at hr
    cases hr
  | batch hcycle' hstage' hflight hwork =>
    cases hcycle.symm.trans hcycle'
    cases hstage.symm.trans hstage'
    obtain ⟨verdict, hget, hresolved, -⟩ :=
      Results.Judge.exists_verdict hwork (hflight.mem_requests hr)
    cases verdict with
    | unknown => exact absurd rfl hresolved
    | passed => exact .inl hget
    | failed => exact .inr hget

/-- When the backend has been asked, each object in flight is due a delivery. -/
theorem Covered.map_hash_deliveries (h : Covered v.queue.inFlight v.cycle)
    (hkeyed : v.queue.inFlight.Keyed) {results : Results} (hresults : v.results? = some results) :
    (v.queue.inFlight.deliveries results).map (·.hash) = v.queue.inFlight.parents := by
  refine RequestSet.map_hash_deliveries hkeyed fun r hr => ?_
  rcases h.exists_verdict hresults hr with hget | hget
  · simp [Results.verdict, hget]
  · simp [Results.verdict, hget]

/-- A reply of the backend leaves the rest of the consultation to be about the same batch. -/
theorem Covered.reply (h : Covered v.queue.inFlight v.cycle) {cycle : Cycle}
    {work work' : Consultation Results} (hcycle : v.cycle = some cycle)
    (hstage : cycle.stage = .verifying work) (hreply : Consultation.Reply event work work')
    (hreturns : event.tearsBackend = false) :
    v.queue.inFlight = .empty ∨ ∃ batch : RequestSet, v.queue.inFlight.RemainsOf batch ∧
      work'.Ensures .any fun results =>
        results.Judge (Results.Resolved fun _ _ => True) batch.requests := by
  cases h with
  | nothing hempty => exact .inl hempty
  | @batch _ _ batch hcycle' hstage' hflight hwork =>
    cases hcycle.symm.trans hcycle'
    cases hstage.symm.trans hstage'
    exact .inr ⟨batch, hflight, hwork.reply hreply hstage (Replies.any_allows hreply hreturns _)⟩

theorem Step.covered (hstep : v.Step event response w) (hreturns : event.tearsBackend = false)
    (hkept : v.kept.Keyed) (h : Covered v.queue.inFlight v.cycle) :
    Covered w.queue.inFlight w.cycle := by
  cases hstep with
  | discardAll => exact .nothing rfl
  | discard => exact h.mono (.removeParent _ _)
  | reset _ => exact .nothing rfl
  | purge hnone hnothing =>
    refine .nothing ?_
    show v.queue.inFlight.absorb v.kept = .empty
    rw [h.eq_empty (by simp [consulting, hnone]), RequestSet.empty_absorb, hkept.eq_empty hnothing]
  | handOff hnone hstage _ =>
    show Covered (v.queue.inFlight.absorb v.kept) _
    rw [h.eq_empty (by simp [consulting, hnone]), RequestSet.empty_absorb]
    exact .batch rfl hstage (.refl _) (hkept.ensures_verify Replies.any_justify)
  | consulted hcycle hstage hreply _ =>
    rcases h.reply hcycle hstage hreply hreturns with hempty | ⟨batch, hflight, hwork⟩
    · exact .nothing hempty
    · exact .batch rfl rfl hflight hwork
  | abandoned hcycle hstage hreply =>
    -- With every call returning, no consultation comes to be abandoned.
    rcases h.reply hcycle hstage hreply hreturns with hempty | ⟨batch, hflight, habandoned⟩
    · exact .nothing hempty
    · exact habandoned.elim
  | take _ _ => exact .nothing rfl
  | delivered hcycle hstage => exact .nothing (h.eq_empty (by simp [consulting, hcycle, hstage]))
  | undelivered hcycle hstage => exact .nothing (h.eq_empty (by simp [consulting, hcycle, hstage]))
  | _ => exact h

/-- As long as the backend's calls return, what is in flight remains of the batch that the backend
is being asked about. -/
theorem Run.covered (hnew : Verifier.new config = .ok v₀)
    (h : v₀.Run replies events responses v) (hreturns : ∀ e ∈ events, e.tearsBackend = false) :
    Covered v.queue.inFlight v.cycle := by
  induction h with
  | nil =>
    rw [eq_of_new hnew]
    exact .nothing rfl
  | @concat events responses v event response w hrun _ hhandle ih =>
    have hkept := (kept_remainsOf v).keyed (hrun.known hnew).1.keyed
    exact (step_of_handle? hhandle).covered (hreturns event (by simp)) hkept
      (ih fun e he => hreturns e (List.mem_append_left _ he))

/-- Where all calls return, the backend's calls do. -/
theorem Run.returns (h : v₀.Run .any events responses v) : ∀ e ∈ events, e.tearsBackend = false := by
  induction h with
  | nil => exact fun _ he => by cases he
  | @concat events responses v event response w _ hallowed hhandle ih =>
    refine List.forall_mem_append.mpr ⟨ih, List.forall_mem_singleton.mpr ?_⟩
    cases step_of_handle? hhandle with
    | consulted hcycle hstage hreply _ =>
      rw [awaited?, hcycle] at hallowed
      exact hreply.returns hstage hallowed
    | abandoned hcycle hstage hreply =>
      rw [awaited?, hcycle] at hallowed
      exact hreply.returns hstage hallowed
    | _ => rfl

/-! ## Cycles in progress -/

/-- Whatever became of earlier calls, the results of a consultation are resolved. -/
theorem Run.resolved (hnew : Verifier.new config = .ok v₀) (h : v₀.Run .free events responses v)
    {results : Results} (hresults : v.results? = some results) {id : RequestId} {verdict : Verdict}
    (hget : results.get? id = some verdict) : verdict ≠ .unknown := by
  obtain ⟨cycle, hcycle, hstage⟩ := exists_of_results?_eq_some hresults
  obtain ⟨before, u, -, hfollows⟩ := h.follows Replies.free_justify hnew hcycle
  rw [hstage] at hfollows
  cases hfollows with
  | verifying hjudge _ =>
    have hjudge : results.Judge (Results.Resolved fun _ _ => True) u.kept.requests := hjudge
    obtain ⟨r, hr, rfl⟩ := (hjudge.keys id).mp (contains_iff.mpr ⟨verdict, hget⟩)
    exact (hjudge.verdicts r hr verdict hget).1

/-- Whatever became of earlier calls, a cycle that ends after its hand-off leaves nothing in
flight. -/
theorem Run.inFlight_of_finished (hnew : Verifier.new config = .ok v₀)
    (h : v₀.Run .free events responses v) {published : List DriverState} {outcome : CycleOutcome}
    (hstart : event.isStart = false)
    (hhandle : v.handle? event = some (.stepped published (.finished outcome), w)) :
    w.queue.inFlight = .empty := by
  generalize hresponse : Response.stepped published (.finished outcome) = response at hhandle
  cases step_of_handle? hhandle with
  | idle _ _ => cases hstart
  | purge _ _ => cases hstart
  | take _ _ => rfl
  | delivered hcycle hstage =>
    obtain ⟨_, _, -, hfollows⟩ := h.follows Replies.free_justify hnew hcycle
    rw [hstage] at hfollows
    cases hfollows with
    | dispatching hempty _ _ _ => exact hempty
  | _ => cases hresponse

end Verifier

end SidechainVerifier
