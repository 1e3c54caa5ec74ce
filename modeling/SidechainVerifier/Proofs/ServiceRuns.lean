/-
SidechainVerifier.Proofs.ServiceRuns — a driver and the verifier it works
on.

`Service.Step` lists what an event can do to a service with a driver. What
the driver publishes is either published by a step of its own cycle, or it
is the end of its loop (`ServiceTransition.published`); the outcomes of its
own cycles are its rounds (`ServiceTransition.outcome?`). To the verifier
the driver is one more party that starts cycles, so a run of a service is a
run of its verifier (`Service.Run.verifier`), and whatever is known about
these holds of it.

A driver has published the states of its rounds, one after the other, and
then those of the round it is in, or that it has stopped (`Driver.Accounts`,
`Service.Run.accounts_of_run?`).
-/
import SidechainVerifier.Driver
import SidechainVerifier.Proofs.CycleAccounts

namespace SidechainVerifier

/-! ## The driver -/

/-- The loop looks at its token and finds it cancelled: at the top of a round, or after a wait. -/
def Driver.seesCancelled (d : Driver) : ServiceEvent → Bool
  | .beginRound => d.place = .top && d.cancelled
  | .wake => d.place = .waiting && d.cancelled
  | _ => false

theorem Driver.of_seesCancelled {d : Driver} {event : ServiceEvent}
    (h : d.seesCancelled event = true) :
    d.cancelled = true ∧
      (event = .beginRound ∧ d.place = .top ∨ event = .wake ∧ d.place = .waiting) := by
  cases event with
  | beginRound => simpa [seesCancelled, and_comm] using h
  | wake => simpa [seesCancelled, and_comm] using h
  | _ => cases h

/-- To wait for the end of a driver that was not torn changes nothing. -/
theorem Driver.join_eq {d : Driver} (h : d.place ≠ .torn) : d.join = d := by
  unfold Driver.join
  split
  next hplace => exact absurd hplace h
  next => rfl

/-- What an event is to the verifier, if it is anything. A driver does not force its cycles. -/
def ServiceEvent.event? : ServiceEvent → Option Event
  | .verifier event => some event
  | .startCycle now => some (.start false now)
  | _ => none

/-- Whether a cycle starts, the driver's or another. -/
def ServiceEvent.isStart (event : ServiceEvent) : Bool := event.event?.any Event.isStart

namespace Service

/-- Whether the driver is in its cycle. -/
def cycling (s : Service) : Bool := s.driver.any fun d => d.place = .cycling

theorem cycling_eq {s : Service} {d : Driver} (hdriver : s.driver = some d) :
    s.cycling = decide (d.place = .cycling) := by
  rw [cycling, hdriver, Option.any_some]

/-- An event takes a service with a driver to another, with a response. -/
inductive Step (s : Service) (d : Driver) : ServiceEvent → Response → Service → Prop
  /-- The driver's cycle makes a step. -/
  | cycle {event published progress v} (hplace : d.place = .cycling)
      (hhandle : s.verifier.handle? event = some (.stepped published progress, v)) :
      Step s d (.verifier event) (.stepped published progress)
        ⟨v, some (d.follow published progress)⟩
  /-- Something happens to the verifier that has nothing to do with the driver's cycle. -/
  | aside {event response v}
      (haside : d.place ≠ .cycling ∨ ∀ published progress, response ≠ .stepped published progress)
      (hhandle : s.verifier.handle? event = some (response, v)) :
      Step s d (.verifier event) response ⟨v, some d⟩
  | startCycle {now published progress v} (hplace : d.place = .entering)
      (hhandle : s.verifier.handle? (.start false now) = some (.stepped published progress, v)) :
      Step s d (.startCycle now) (.stepped published progress)
        ⟨v, some ({ d with place := .cycling }.follow published progress)⟩
  | cancel : Step s d .cancel .done ⟨s.verifier, some d.cancel⟩
  | stop {event} (hsees : d.seesCancelled event = true) :
      Step s d event .done ⟨s.verifier, some d.stop⟩
  | enter (hplace : d.place = .top) (hcancelled : d.cancelled = false) :
      Step s d .beginRound .done ⟨s.verifier, some { d with place := .entering }⟩
  | rise (hplace : d.place = .waiting) (hcancelled : d.cancelled = false) :
      Step s d .wake .done ⟨s.verifier, some { d with place := .top }⟩
  /-- The driver is not where the event would concern it. -/
  | stay {event}
      (hevent : event = .beginRound ∧ d.place ≠ .top ∨ event = .wake ∧ d.place ≠ .waiting) :
      Step s d event .done ⟨s.verifier, some d⟩
  | join (hended : d.hasEnded = true) : Step s d .join .done ⟨s.verifier, some d.join⟩
  | startDriver (hended : d.hasEnded = true) :
      Step s d .startDriver .done ⟨s.verifier, some .initial⟩

variable {s t : Service} {d : Driver} {event : ServiceEvent} {response : Response}

theorem step_of_handleVerifier? {event : Event} (hdriver : s.driver = some d)
    (h : s.handleVerifier? event = some (response, t)) : s.Step d (.verifier event) response t := by
  obtain ⟨⟨response', v⟩, hhandle, heq⟩ := Option.map_eq_some_iff.mp h
  rw [hdriver] at heq
  cases heq
  cases response with
  | stepped published progress =>
    by_cases hplace : d.place = .cycling
    · simp only [Option.map_some, attend, if_pos hplace]
      exact .cycle hplace hhandle
    · simp only [Option.map_some, attend, if_neg hplace]
      exact .aside (.inl hplace) hhandle
  | _ => exact .aside (.inr fun _ _ => Response.noConfusion) hhandle

/-- Every handled event is one of the steps. -/
theorem step_of_handle? (hdriver : s.driver = some d) (h : s.handle? event = some (response, t)) :
    s.Step d event response t := by
  obtain ⟨verifier, driver⟩ := s
  cases hdriver
  cases event with
  | verifier event => exact step_of_handleVerifier? rfl h
  | startDriver =>
    simp only [handle?, Option.all_some] at h
    split at h
    next hended =>
      cases h
      exact .startDriver hended
    next => cases h
  | cancel =>
    cases h
    exact .cancel
  | beginRound =>
    cases h
    obtain ⟨cancelled, state, place⟩ := d
    cases place with
    | top =>
      cases cancelled with
      | true => exact .stop rfl
      | false => exact .enter rfl rfl
    | _ => exact .stay (.inl ⟨rfl, by simp⟩)
  | startCycle now =>
    simp only [handle?] at h
    split at h
    next hplace =>
      obtain ⟨⟨response', v⟩, hhandle, heq⟩ := Option.map_eq_some_iff.mp h
      obtain ⟨step, -, hstepped⟩ := Option.map_eq_some_iff.mp hhandle
      cases hstepped
      cases heq
      exact .startCycle hplace hhandle
    next => cases h
  | wake =>
    cases h
    obtain ⟨cancelled, state, place⟩ := d
    cases place with
    | waiting =>
      cases cancelled with
      | true => exact .stop rfl
      | false => exact .rise rfl rfl
    | _ => exact .stay (.inr ⟨rfl, by simp⟩)
  | join =>
    simp only [handle?] at h
    split at h
    next hended =>
      cases h
      exact .join hended
    next => cases h

/-- What happens to the verifier of a service. -/
theorem verifier_of_handle? (h : s.handle? event = some (response, t)) :
    match event.event? with
    | some e => s.verifier.handle? e = some (response, t.verifier)
    | none => t.verifier = s.verifier := by
  obtain ⟨verifier, driver⟩ := s
  have honDriver {f : Driver → Driver}
      (h : (⟨verifier, driver⟩ : Service).onDriver? f = some (response, t)) :
      t.verifier = verifier := by
    obtain ⟨d, -, heq⟩ := Option.map_eq_some_iff.mp h
    cases heq
    rfl
  have hhandle {s' : Service} {e : Event} (hverifier : s'.verifier = verifier)
      (h : s'.handleVerifier? e = some (response, t)) :
      verifier.handle? e = some (response, t.verifier) := by
    obtain ⟨⟨response', v⟩, hhandle, heq⟩ := Option.map_eq_some_iff.mp h
    cases heq
    rwa [hverifier] at hhandle
  cases event with
  | verifier event => exact hhandle rfl h
  | startDriver =>
    simp only [handle?] at h
    split at h
    · cases h
      rfl
    · cases h
  | cancel => exact honDriver h
  | beginRound => exact honDriver h
  | startCycle now =>
    simp only [handle?] at h
    split at h
    · split at h
      · exact hhandle rfl h
      · cases h
    · cases h
  | wake => exact honDriver h
  | join =>
    simp only [handle?] at h
    split at h
    · split at h
      · cases h
        rfl
      · cases h
    · cases h

end Service

/-! ## Traces -/

/-- The outcome of the cycle, if a step has finished it. -/
def Progress.outcome? : Progress → Option CycleOutcome
  | .finished outcome => some outcome
  | _ => none

/-- An event as it was handled by a service. -/
structure ServiceTransition where
  before : Service
  event : ServiceEvent
  response : Response
  after : Service

namespace ServiceTransition

/-- The step of the driver's own cycle that a transition is, if it is one. -/
def own? (x : ServiceTransition) : Option (List DriverState × Progress) :=
  match x.event, x.response with
  | .startCycle _, .stepped published progress => some (published, progress)
  | .verifier _, .stepped published progress =>
    if x.before.cycling then some (published, progress) else none
  | _, _ => none

theorem own?_eq_some {x : ServiceTransition} {published : List DriverState} {progress : Progress}
    (h : x.own? = some (published, progress)) :
    x.response = .stepped published progress ∧
      ((∃ now, x.event = .startCycle now) ∨
        ∃ event, x.event = .verifier event ∧ x.before.cycling = true) := by
  unfold own? at h
  split at h
  next hevent hresponse =>
    cases h
    exact ⟨hresponse, .inl ⟨_, hevent⟩⟩
  next hevent hresponse =>
    split at h
    next hcycling =>
      cases h
      exact ⟨hresponse, .inr ⟨_, hevent, hcycling⟩⟩
    next => cases h
  next => cases h

theorem own?_done (s t : Service) (event : ServiceEvent) : own? ⟨s, event, .done, t⟩ = none := by
  cases event <;> rfl

/-- What the driver publishes: the states of its cycle, and at the end of its loop that it has
stopped. -/
def published (x : ServiceTransition) : List DriverState :=
  match x.own? with
  | some (published, _) => published
  | none => if x.before.driver.any fun d => d.seesCancelled x.event then [.stopped] else []

/-- The outcome of the driver's cycle, if the transition finishes it. -/
def outcome? (x : ServiceTransition) : Option CycleOutcome := x.own?.bind (·.2.outcome?)

end ServiceTransition

namespace Service

/-- The transitions of a run, up to an event that cannot happen. -/
def trace (s : Service) : List ServiceEvent → List ServiceTransition
  | [] => []
  | event :: rest =>
    match s.handle? event with
    | none => []
    | some (response, t) => ⟨s, event, response, t⟩ :: t.trace rest

/-- The states that the driver publishes in a run, in their order. -/
def published (s : Service) (events : List ServiceEvent) : List DriverState :=
  (s.trace events).flatMap ServiceTransition.published

/-- The outcomes of the cycles that the driver finishes in a run, in their order. -/
def rounds (s : Service) (events : List ServiceEvent) : List CycleOutcome :=
  (s.trace events).filterMap ServiceTransition.outcome?

/-- All calls of a run return. -/
def Returns (s : Service) (events : List ServiceEvent) : Prop :=
  s.verifier.AnsweredBy .any (events.filterMap ServiceEvent.event?)

/-- A run from a verifier without a driver, in which all calls return. -/
inductive Run (v₀ : Verifier) : List ServiceEvent → Service → Prop
  | nil : Run v₀ [] (.ofVerifier v₀)
  | concat {past s event response t} (hrun : Run v₀ past s)
      (hreturns : ∀ e, event.event? = some e → Replies.any.Allows s.verifier.awaited? e)
      (hhandle : s.handle? event = some (response, t)) : Run v₀ (past ++ [event]) t

variable {s t u : Service} {d : Driver} {event : ServiceEvent} {events rest : List ServiceEvent}
  {response : Response} {responses : List Response}

theorem published_cons (hhandle : s.handle? event = some (response, t))
    (rest : List ServiceEvent) : s.published (event :: rest) =
      ServiceTransition.published ⟨s, event, response, t⟩ ++ t.published rest := by
  rw [published, trace, hhandle]
  rfl

theorem rounds_cons (hhandle : s.handle? event = some (response, t)) (rest : List ServiceEvent) :
    s.rounds (event :: rest) =
      (ServiceTransition.outcome? ⟨s, event, response, t⟩).toList ++ t.rounds rest := by
  rw [rounds, trace, hhandle, rounds, List.filterMap_cons]
  cases ServiceTransition.outcome? ⟨s, event, response, t⟩ <;> rfl

theorem run?_cons (h : s.run? (event :: rest) = some (responses, u)) :
    ∃ response t responses', s.handle? event = some (response, t) ∧
      t.run? rest = some (responses', u) ∧ responses = response :: responses' := by
  simp only [run?, bind, Option.bind_eq_some_iff, pure, Prod.exists, Option.some.injEq,
    Prod.mk.injEq] at h
  obtain ⟨response, t, hhandle, responses', u', hrest, rfl, rfl⟩ := h
  exact ⟨response, t, responses', hhandle, hrest, rfl⟩

theorem run?_cons_eq {responses' : List Response} (hhandle : s.handle? event = some (response, t))
    (hrest : t.run? rest = some (responses', u)) :
    s.run? (event :: rest) = some (response :: responses', u) := by
  simp [run?, hhandle, hrest]

/-- A run can be cut in two. -/
theorem exists_of_run?_append (h : s.run? (events ++ rest) = some (responses, u)) :
    ∃ responses₁ t responses₂, s.run? events = some (responses₁, t) ∧
      t.run? rest = some (responses₂, u) ∧ responses = responses₁ ++ responses₂ := by
  induction events generalizing s responses with
  | nil => exact ⟨[], s, responses, rfl, h, rfl⟩
  | cons e events ih =>
    obtain ⟨r, v, responses', he, hevents, rfl⟩ := run?_cons h
    obtain ⟨responses₁, t, responses₂, h₁, h₂, rfl⟩ := ih hevents
    exact ⟨r :: responses₁, t, responses₂, run?_cons_eq he h₁, h₂, rfl⟩

/-- A run of a service is a run of its verifier. -/
theorem run?_verifier (h : s.run? events = some (responses, t)) :
    ∃ responses', s.verifier.run? (events.filterMap ServiceEvent.event?) =
      some (responses', t.verifier) := by
  induction events generalizing s responses with
  | nil =>
    cases h
    exact ⟨[], rfl⟩
  | cons event rest ih =>
    obtain ⟨response, u, responses', hhandle, hrest, rfl⟩ := run?_cons h
    obtain ⟨responses'', hrun⟩ := ih hrest
    have hverifier := verifier_of_handle? hhandle
    rw [List.filterMap_cons]
    cases hevent : event.event? with
    | none =>
      rw [hevent] at hverifier
      rw [show u.verifier = s.verifier from hverifier] at hrun
      exact ⟨responses'', hrun⟩
    | some e =>
      rw [hevent] at hverifier
      exact ⟨_, Verifier.run?_cons_eq hverifier hrun⟩

/-! ## Runs whose calls return -/

theorem returns_cons (h : s.Returns (event :: rest))
    (hhandle : s.handle? event = some (response, t)) :
    (∀ e, event.event? = some e → Replies.any.Allows s.verifier.awaited? e) ∧ t.Returns rest := by
  have hverifier := verifier_of_handle? hhandle
  unfold Returns at h
  rw [List.filterMap_cons] at h
  cases hevent : event.event? with
  | none =>
    rw [hevent] at h hverifier
    refine ⟨fun e he => (by cases he), ?_⟩
    show t.verifier.AnsweredBy .any _
    rwa [show t.verifier = s.verifier from hverifier]
  | some e =>
    rw [hevent] at h hverifier
    simp only [Verifier.AnsweredBy, Verifier.trace,
      show s.verifier.handle? e = some (response, t.verifier) from hverifier,
      List.forall_mem_cons] at h
    refine ⟨fun e' he' => ?_, h.2⟩
    cases he'
    exact h.1

/-- The calls of a run return, if none of its events is that a call was torn down. -/
theorem returns_of_allows (h : ∀ event ∈ events, ∀ e need, event.event? = some e →
    Replies.any.Allows need e) (s : Service) : s.Returns events := by
  refine Verifier.answeredBy_of_awaited rfl fun p hp => ?_
  obtain ⟨event, hevent, heq⟩ := List.mem_filterMap.mp (List.of_mem_zip hp).2
  exact h event hevent _ _ heq

variable {v₀ : Verifier} {past : List ServiceEvent}

theorem Run.append (h : Run v₀ past s) (hrun : s.run? events = some (responses, t))
    (hreturns : s.Returns events) : Run v₀ (past ++ events) t := by
  induction events generalizing past s responses with
  | nil =>
    cases hrun
    rwa [List.append_nil]
  | cons event rest ih =>
    obtain ⟨response, u, responses', hhandle, hrest, rfl⟩ := run?_cons hrun
    obtain ⟨hevent, hreturns⟩ := returns_cons hreturns hhandle
    rw [List.append_cons]
    exact ih (h.concat hevent hhandle) hrest hreturns

/-- A run can be cut where a part of it ends. -/
theorem Run.cut {responses₁ : List Response} (h : Run v₀ past s)
    (hevents : s.run? events = some (responses₁, u))
    (hrun : s.run? (events ++ rest) = some (responses, t)) (hreturns : s.Returns (events ++ rest)) :
    Run v₀ (past ++ events) u ∧ u.Returns rest ∧
      ∃ responses₂, u.run? rest = some (responses₂, t) := by
  induction events generalizing past s responses₁ responses with
  | nil =>
    cases hevents
    rw [List.append_nil]
    exact ⟨h, hreturns, responses, hrun⟩
  | cons event events ih =>
    obtain ⟨response, w, responses', hhandle, hrest, rfl⟩ := run?_cons hevents
    obtain ⟨response', w', responses'', hhandle', hrun, rfl⟩ := run?_cons hrun
    rw [hhandle] at hhandle'
    cases hhandle'
    obtain ⟨hevent, hreturns⟩ := returns_cons hreturns hhandle
    rw [List.append_cons]
    exact ih (h.concat hevent hhandle) hrest hrun hreturns

theorem Run.verifier (h : Run v₀ past s) :
    ∃ responses, v₀.Run .any (past.filterMap ServiceEvent.event?) responses s.verifier := by
  induction h with
  | nil => exact ⟨[], .nil⟩
  | @concat events s event response t _ hreturns hhandle ih =>
    obtain ⟨responses, hrun⟩ := ih
    have hverifier := verifier_of_handle? hhandle
    rw [List.filterMap_append, List.filterMap_cons]
    cases hevent : event.event? with
    | none =>
      rw [hevent] at hverifier
      rw [show t.verifier = s.verifier from hverifier]
      simpa using ⟨responses, hrun⟩
    | some e =>
      rw [hevent] at hverifier
      exact ⟨_, hrun.concat (hreturns e hevent) hverifier⟩

end Service

/-! ## Rounds -/

/-- What a driver has published since the last round that is finished. -/
def Driver.unfinished (d : Driver) (v : Verifier) : List DriverState :=
  match d.place with
  | .cycling => v.statesSoFar
  | .stopped => [.stopped]
  | _ => []

/-- A driver that works on `v` has seen the events `since` its start, published some states, and
finished some rounds. -/
structure Driver.Accounts (d : Driver) (v : Verifier) (since : List ServiceEvent)
    (published : List DriverState) (rounds : List CycleOutcome) : Prop where
  states : published = rounds.flatMap CycleOutcome.states ++ d.unfinished v
  state : d.state = published.getLast?.getD .idle
  cancelled : d.cancelled = true ↔ .cancel ∈ since
  stopped : d.place = .stopped → d.cancelled = true
  cycling : d.place = .cycling → v.cycle ≠ none
  whole : d.place ≠ .torn

namespace Driver.Accounts

variable {d d' : Driver} {v w : Verifier} {since : List ServiceEvent} {event : ServiceEvent}
  {published more : List DriverState} {rounds : List CycleOutcome} {progress : Progress}

theorem initial (v : Verifier) : Driver.initial.Accounts v [] [] [] where
  states := rfl
  state := rfl
  cancelled := by simp [Driver.initial]
  stopped hplace := by cases hplace
  cycling hplace := by cases hplace
  whole := by decide

/-- Nothing happens to the driver, nor to its cycle. -/
theorem aside (h : d.Accounts v since published rounds) (hevent : event ≠ .cancel)
    (hcycle : d.place = .cycling → w.cycle = v.cycle) :
    d.Accounts w (since ++ [event]) published rounds where
  states := by
    have hunfinished : d.unfinished w = d.unfinished v := by
      unfold Driver.unfinished
      split
      next hplace => rw [Verifier.statesSoFar, hcycle hplace, Verifier.statesSoFar]
      next => rfl
      next => rfl
    rw [hunfinished, ← h.states]
  state := h.state
  cancelled := by simp [h.cancelled, Ne.symm hevent]
  stopped := h.stopped
  cycling hplace := by
    rw [hcycle hplace]
    exact h.cycling hplace
  whole := h.whole

/-- The driver moves on between two rounds. -/
theorem move (h : d.Accounts v since published rounds) (hevent : event ≠ .cancel)
    (hbetween : d.unfinished v = []) {place : DriverPlace}
    (hplace : place = .top ∨ place = .entering) :
    Driver.Accounts { d with place := place } v (since ++ [event]) published rounds where
  states := by rcases hplace with rfl | rfl <;> rw [h.states, hbetween] <;> rfl
  state := h.state
  cancelled := by simp [h.cancelled, Ne.symm hevent]
  stopped hstopped := by rcases hplace with rfl | rfl <;> cases hstopped
  cycling hcycling := by rcases hplace with rfl | rfl <;> cases hcycling
  whole := by rcases hplace with rfl | rfl <;> simp

theorem cancel (h : d.Accounts v since published rounds) :
    d.cancel.Accounts v (since ++ [.cancel]) published rounds where
  states := h.states
  state := h.state
  cancelled := by simp [Driver.cancel]
  stopped _ := rfl
  cycling := h.cycling
  whole := h.whole

theorem stop (h : d.Accounts v since published rounds) (hsees : d.seesCancelled event = true) :
    d.stop.Accounts v (since ++ [event]) (published ++ [.stopped]) rounds := by
  obtain ⟨hcancelled, hplace⟩ := Driver.of_seesCancelled hsees
  have hunfinished : d.unfinished v = [] := by
    rcases hplace with ⟨-, hplace⟩ | ⟨-, hplace⟩ <;> rw [Driver.unfinished, hplace]
  refine ⟨?_, by rw [List.getLast?_concat]; rfl, ?_, fun _ => hcancelled, fun hcycling => ?_, ?_⟩
  · rw [h.states, hunfinished, List.append_nil]
    rfl
  · exact iff_of_true hcancelled (List.mem_append_left _ (h.cancelled.mp hcancelled))
  · cases hcycling
  · simp [Driver.stop]

/-- The driver's cycle makes a step, after which it is in its cycle or has finished it. -/
theorem follow (h : d.Accounts v since published rounds)
    (hunfinished : d.unfinished v = v.statesSoFar) (hevent : event ≠ .cancel)
    (hstep : CycleStep.Accounts ⟨w, more, progress⟩ v.statesSoFar) (htorn : progress ≠ .torn) :
    (d.follow more progress).Accounts w (since ++ [event]) (published ++ more)
      (rounds ++ progress.outcome?.toList) := by
  have hstates : published ++ more =
      rounds.flatMap CycleOutcome.states ++ (v.statesSoFar ++ more) := by
    rw [h.states, hunfinished, List.append_assoc]
  have hstate : more.getLast?.getD d.state = (published ++ more).getLast?.getD .idle := by
    rw [List.getLast?_append, h.state]
    cases more.getLast? <;> rfl
  have hcancelled : d.cancelled = true ↔ .cancel ∈ since ++ [event] := by
    simp [h.cancelled, Ne.symm hevent]
  cases progress with
  | awaiting need =>
    have hneed : w.awaited? = some need := hstep.cycle
    refine ⟨?_, hstate, hcancelled, fun hstopped => ?_,
      fun _ => Verifier.cycle_ne_none_of_awaited? hneed, ?_⟩
    · rw [hstates, show v.statesSoFar ++ more = w.statesSoFar from hstep.states]
      simp [Progress.outcome?, Driver.follow, Driver.unfinished]
    · cases hstopped
    · simp [Driver.follow]
  | finished outcome =>
    refine ⟨?_, hstate, hcancelled, fun hstopped => ?_, fun hcycling => ?_, ?_⟩
    · rw [hstates, show v.statesSoFar ++ more = outcome.states from hstep.states]
      simp [Progress.outcome?, Driver.follow, Driver.unfinished]
    · cases hstopped
    · cases hcycling
    · simp [Driver.follow]
  | torn => exact absurd rfl htorn

end Driver.Accounts

namespace Service

variable {config : Config} {v₀ : Verifier} {s t : Service} {d : Driver}
  {past since events : List ServiceEvent} {event : ServiceEvent} {response : Response}
  {responses : List Response} {published : List DriverState} {rounds : List CycleOutcome}

/-- What the driver publishes in a step, and the round that it finishes, are accounted for. -/
theorem Step.accounts (hnew : Verifier.new config = .ok v₀) (hrun : Run v₀ past s)
    (hdriver : s.driver = some d) (hstep : s.Step d event response t)
    (hreturns : ∀ e, event.event? = some e → Replies.any.Allows s.verifier.awaited? e)
    (hevent : event ≠ .startDriver) (h : d.Accounts s.verifier since published rounds) :
    ∃ d', t.driver = some d' ∧ d'.Accounts t.verifier (since ++ [event])
      (published ++ ServiceTransition.published ⟨s, event, response, t⟩)
      (rounds ++ (ServiceTransition.outcome? ⟨s, event, response, t⟩).toList) := by
  obtain ⟨_, hverifier⟩ := hrun.verifier
  have hbatch := hverifier.hasBatch hnew
  -- A step that is neither of the driver's cycle nor the end of its loop publishes nothing.
  have hquiet {d' : Driver} (ht : t.driver = some d')
      (hown : ServiceTransition.own? ⟨s, event, response, t⟩ = none)
      (hsees : d.seesCancelled event = false)
      (h' : d'.Accounts t.verifier (since ++ [event]) published rounds) :
      ∃ d', t.driver = some d' ∧ d'.Accounts t.verifier (since ++ [event])
        (published ++ ServiceTransition.published ⟨s, event, response, t⟩)
        (rounds ++ (ServiceTransition.outcome? ⟨s, event, response, t⟩).toList) := by
    refine ⟨d', ht, ?_⟩
    simpa [ServiceTransition.published, ServiceTransition.outcome?, hown, hdriver, hsees] using h'
  cases hstep with
  | @cycle event published' progress w hplace hhandle =>
    have hown : ServiceTransition.own? ⟨s, .verifier event, .stepped published' progress,
        ⟨w, some (d.follow published' progress)⟩⟩ = some (published', progress) := by
      simp [ServiceTransition.own?, cycling_eq hdriver, hplace]
    refine ⟨_, rfl, ?_⟩
    rw [ServiceTransition.published, ServiceTransition.outcome?, hown]
    refine h.follow ?_ (by simp) (Verifier.accounts_of_handle? hhandle hbatch) ?_
    · rw [Driver.unfinished, hplace]
    · exact hverifier.not_torn hnew (hreturns event rfl) hhandle
  | @aside event _ w haside hhandle =>
    refine hquiet rfl ?_ rfl (h.aside (by simp) fun hplace => ?_)
    · cases response with
      | stepped published' progress =>
        have hplace := haside.resolve_right fun hresponse => hresponse _ _ rfl
        simp [ServiceTransition.own?, cycling_eq hdriver, hplace]
      | _ => rfl
    · have hstep := Verifier.step_of_handle? hhandle
      exact hstep.cycle_eq_of_not_stepped (haside.resolve_left (not_not_intro hplace))
  | @startCycle now published' progress w hplace hhandle =>
    refine ⟨_, rfl, ?_⟩
    refine h.follow (d := d) ?_ (by simp) (Verifier.accounts_of_handle? hhandle hbatch) ?_
    · rw [Driver.unfinished, hplace, Verifier.statesSoFar, Verifier.cycle_eq_none_of_start hhandle]
      rfl
    · exact hverifier.not_torn hnew (hreturns _ rfl) hhandle
  | cancel => exact hquiet rfl rfl rfl h.cancel
  | stop hsees =>
    refine ⟨_, rfl, ?_⟩
    simpa [ServiceTransition.published, ServiceTransition.outcome?, ServiceTransition.own?_done,
      hdriver, hsees] using h.stop hsees
  | enter hplace hcancelled =>
    refine hquiet rfl rfl (by simp [Driver.seesCancelled, hcancelled])
      (h.move (by simp) ?_ (.inr rfl))
    rw [Driver.unfinished, hplace]
  | rise hplace hcancelled =>
    refine hquiet rfl rfl (by simp [Driver.seesCancelled, hcancelled])
      (h.move (by simp) ?_ (.inl rfl))
    rw [Driver.unfinished, hplace]
  | stay hstay =>
    rcases hstay with ⟨rfl, hplace⟩ | ⟨rfl, hplace⟩
    · exact hquiet rfl rfl (by simp [Driver.seesCancelled, hplace]) (h.aside (by simp) fun _ => rfl)
    · exact hquiet rfl rfl (by simp [Driver.seesCancelled, hplace]) (h.aside (by simp) fun _ => rfl)
  | join hended =>
    refine hquiet rfl rfl rfl ?_
    rw [Driver.join_eq h.whole]
    exact h.aside (by simp) fun _ => rfl
  | startDriver _ => exact absurd rfl hevent

/-- A driver has published the states of its rounds, and what it has of the round that is not
finished. -/
theorem Run.accounts_of_run? (hnew : Verifier.new config = .ok v₀) (hrun : Run v₀ past s)
    (hdriver : s.driver = some d) (h : d.Accounts s.verifier since published rounds)
    (hevents : s.run? events = some (responses, t)) (hreturns : s.Returns events)
    (hsame : .startDriver ∉ events) :
    ∃ d', t.driver = some d' ∧ d'.Accounts t.verifier (since ++ events)
      (published ++ s.published events) (rounds ++ s.rounds events) := by
  induction events generalizing past s d since published rounds responses with
  | nil =>
    cases hevents
    exact ⟨d, hdriver, by simpa [Service.published, Service.rounds, trace] using h⟩
  | cons event rest ih =>
    obtain ⟨response, u, responses', hhandle, hrest, rfl⟩ := run?_cons hevents
    obtain ⟨hevent, hreturns⟩ := returns_cons hreturns hhandle
    obtain ⟨hne, hsame⟩ := not_or.mp (List.mem_cons.not.mp hsame)
    obtain ⟨d₁, hd₁, h₁⟩ :=
      (step_of_handle? hdriver hhandle).accounts hnew hrun hdriver hevent (Ne.symm hne) h
    obtain ⟨d', hd', h'⟩ := ih (hrun.concat hevent hhandle) hd₁ h₁ hrest hreturns hsame
    refine ⟨d', hd', ?_⟩
    rwa [published_cons hhandle, rounds_cons hhandle, List.append_cons since, ← List.append_assoc,
      ← List.append_assoc]

end Service

end SidechainVerifier
