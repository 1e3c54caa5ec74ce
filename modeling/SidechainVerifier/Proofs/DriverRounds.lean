/-
SidechainVerifier.Proofs.DriverRounds — the rounds of a driver, from its
start to its end.

A driver works in rounds, and looks for its cancellation only between two of
them. So when it is cancelled in a round, it still comes to the end of that:
its cycle always awaits something and accepts whatever comes as that, and
there are only so many questions and deliveries, whatever producers and
other threads do meanwhile (`Service.Run.finishes`). By then it has told of
all that it was handed (`Service.Run.told`), and nothing of that is in
flight. What is in flight outside its rounds was handed off by a cycle of
someone else, which is still in progress (`Service.Run.inFlight`). Once the
driver has seen that it is cancelled, it says that it has stopped and does
nothing more (`Service.published_of_seesCancelled`).

Main statement: `Service.rounds_of_driver`, with `Service.DriverRun` for all
that is said of a driver.
-/
import SidechainVerifier.Proofs.ServiceRuns

namespace SidechainVerifier

namespace Service

variable {config : Config} {v₀ : Verifier} {s t u : Service} {d : Driver}
  {past events rest : List ServiceEvent} {event : ServiceEvent} {response : Response}
  {responses : List Response}

/-! ## The end of the loop -/

/-- A driver that sees that it is cancelled stops. -/
theorem handle?_of_seesCancelled (hdriver : s.driver = some d)
    (hsees : d.seesCancelled event = true) :
    s.handle? event = some (.done, ⟨s.verifier, some d.stop⟩) := by
  obtain ⟨hcancelled, ⟨rfl, hplace⟩ | ⟨rfl, hplace⟩⟩ := Driver.of_seesCancelled hsees
  · simp [handle?, onDriver?, hdriver, Driver.beginRound, hplace, hcancelled]
  · simp [handle?, onDriver?, hdriver, Driver.wake, hplace, hcancelled]

/-- A driver that has stopped publishes nothing, starts no cycle, and stays where it is. -/
theorem Step.of_stopped (hdriver : s.driver = some d) (hstep : s.Step d event response t)
    (hplace : d.place = .stopped) (hevent : event ≠ .startDriver) :
    (∃ d', t.driver = some d' ∧ d'.place = .stopped) ∧
      ServiceTransition.published ⟨s, event, response, t⟩ = [] ∧
      ∀ now, event ≠ .startCycle now := by
  have hsees : d.seesCancelled event = false := by
    cases event <;> simp [Driver.seesCancelled, hplace]
  have hcycling : s.cycling = false := by simp [cycling_eq hdriver, hplace]
  have hpublished (hown : ServiceTransition.own? ⟨s, event, response, t⟩ = none) :
      ServiceTransition.published ⟨s, event, response, t⟩ = [] := by
    simp [ServiceTransition.published, hown, hdriver, hsees]
  cases hstep with
  | cycle hcycle _ => exact absurd (hplace.symm.trans hcycle) (by decide)
  | aside _ _ =>
    refine ⟨⟨d, rfl, hplace⟩, hpublished ?_, by simp⟩
    cases response <;> simp [ServiceTransition.own?, hcycling]
  | startCycle hentering _ => exact absurd (hplace.symm.trans hentering) (by decide)
  | cancel => exact ⟨⟨_, rfl, hplace⟩, hpublished rfl, by simp⟩
  | stop hstop => exact absurd (hsees.symm.trans hstop) (by decide)
  | enter htop _ => exact absurd (hplace.symm.trans htop) (by decide)
  | rise hwaiting _ => exact absurd (hplace.symm.trans hwaiting) (by decide)
  | stay hstay =>
    rcases hstay with ⟨rfl, -⟩ | ⟨rfl, -⟩ <;> exact ⟨⟨d, rfl, hplace⟩, hpublished rfl, by simp⟩
  | join _ =>
    have hjoin : d.join = d := Driver.join_eq (by simp [hplace])
    exact ⟨⟨d.join, rfl, by rwa [hjoin]⟩, hpublished rfl, by simp⟩
  | startDriver _ => exact absurd rfl hevent

theorem published_of_stopped (hdriver : s.driver = some d) (hplace : d.place = .stopped)
    (hevents : s.run? events = some (responses, t)) (hsame : .startDriver ∉ events) :
    s.published events = [] ∧ ∀ now, .startCycle now ∉ events := by
  induction events generalizing s d responses with
  | nil => exact ⟨rfl, fun _ => List.not_mem_nil⟩
  | cons event rest ih =>
    obtain ⟨response, u, responses', hhandle, hrest, rfl⟩ := run?_cons hevents
    obtain ⟨hne, hsame⟩ := not_or.mp (List.mem_cons.not.mp hsame)
    obtain ⟨⟨d', hd', hplace'⟩, hpublished, hstart⟩ :=
      (step_of_handle? hdriver hhandle).of_stopped hdriver hplace (Ne.symm hne)
    obtain ⟨hrestPublished, hrestStart⟩ := ih hd' hplace' hrest hsame
    refine ⟨?_, fun now hmem => ?_⟩
    · rw [published_cons hhandle, hpublished, hrestPublished, List.append_nil]
    · rcases List.mem_cons.mp hmem with heq | hmem
      · exact hstart now heq.symm
      · exact hrestStart now hmem

/-- Once a driver has seen that it is cancelled, it publishes that it has stopped, and nothing more,
and starts no cycle. -/
theorem published_of_seesCancelled (hdriver : s.driver = some d)
    (hsees : d.seesCancelled event = true)
    (hevents : s.run? (event :: rest) = some (responses, t)) (hsame : .startDriver ∉ rest) :
    s.published (event :: rest) = [.stopped] ∧ ∀ now, .startCycle now ∉ event :: rest := by
  have hhandle := handle?_of_seesCancelled hdriver hsees
  obtain ⟨response, u, responses', hhandle', hrest, rfl⟩ := run?_cons hevents
  rw [hhandle] at hhandle'
  cases hhandle'
  obtain ⟨hpublished, hstart⟩ := published_of_stopped rfl rfl hrest hsame
  have hnot : ∀ now, event ≠ .startCycle now := by
    rintro now rfl
    cases hsees
  refine ⟨?_, fun now hmem => ?_⟩
  · rw [published_cons hhandle, hpublished]
    simp [ServiceTransition.published, ServiceTransition.own?_done, hdriver, hsees]
  · rcases List.mem_cons.mp hmem with heq | hmem
    · exact hnot now heq.symm
    · exact hstart now hmem

/-! ## Whose cycle it is -/

/-- The last event that started a cycle. -/
def lastStart? (events : List ServiceEvent) : Option ServiceEvent :=
  events.reverse.find? ServiceEvent.isStart

theorem lastStart?_concat (events : List ServiceEvent) (event : ServiceEvent) :
    lastStart? (events ++ [event]) = if event.isStart then some event else lastStart? events := by
  rw [lastStart?, List.reverse_append, List.reverse_singleton, List.singleton_append,
    List.find?_cons]
  cases event.isStart <;> rfl

theorem lastStart?_append {after : List ServiceEvent} (hafter : ∀ e ∈ after, e.isStart = false)
    (events : List ServiceEvent) : lastStart? (events ++ after) = lastStart? events := by
  rw [lastStart?, List.reverse_append, List.find?_append, List.find?_eq_none.mpr]
  · rfl
  · intro e he
    rw [hafter e (List.mem_reverse.mp he)]
    decide

/-- A cycle in progress is the driver's if that is in its cycle, and was started by someone else if
it is not. -/
structure Owned (past : List ServiceEvent) (s : Service) : Prop where
  cycling : s.cycling = true → s.verifier.cycle ≠ none
  others : s.verifier.cycle ≠ none → s.cycling = false →
    ∃ force now, lastStart? past = some (.verifier (.start force now))

namespace Owned

/-- An event that starts no cycle, and leaves that in progress alone. -/
theorem concat (h : Owned past s) (hevent : event.isStart = false)
    (hcycle : t.verifier.cycle = s.verifier.cycle) (hcycling : t.cycling = s.cycling) :
    Owned (past ++ [event]) t where
  cycling htrue := by
    rw [hcycle]
    exact h.cycling (hcycling ▸ htrue)
  others hsome hfalse := by
    rw [lastStart?_concat, hevent]
    exact h.others (hcycle ▸ hsome) (hcycling ▸ hfalse)

/-- A step of the driver's cycle leaves it in its cycle, or ends that. -/
theorem follow {v : Verifier} {published : List DriverState} {progress : Progress}
    {soFar : List DriverState} (h : CycleStep.Accounts ⟨v, published, progress⟩ soFar)
    (past : List ServiceEvent) (d : Driver) :
    Owned past ⟨v, some (d.follow published progress)⟩ := by
  have hcycle := h.cycle
  cases progress with
  | awaiting need =>
    exact ⟨fun _ => Verifier.cycle_ne_none_of_awaited? hcycle, fun _ hfalse => by cases hfalse⟩
  | finished outcome =>
    exact ⟨fun htrue => (by cases htrue), fun hsome => absurd hcycle hsome⟩
  | torn => exact ⟨fun htrue => (by cases htrue), fun hsome => absurd hcycle hsome⟩

/-- Something happens to the verifier that has nothing to do with the driver. -/
theorem aside {e : Event} {v : Verifier} {driver : Option Driver}
    (h : Owned past s) (hdriver : s.driver = driver)
    (haside : s.cycling = true → ∀ published progress, response ≠ .stepped published progress)
    (hhandle : s.verifier.handle? e = some (response, v)) :
    Owned (past ++ [.verifier e]) ⟨v, driver⟩ := by
  have hcycling : (⟨v, driver⟩ : Service).cycling = s.cycling := by
    rw [Service.cycling, Service.cycling, hdriver]
  refine ⟨fun htrue => ?_, fun hsome hfalse => ?_⟩
  · rw [hcycling] at htrue
    rw [(Verifier.step_of_handle? hhandle).cycle_eq_of_not_stepped (haside htrue)]
    exact h.cycling htrue
  · rw [lastStart?_concat]
    cases hstart : e.isStart with
    | true =>
      cases e with
      | start force now => exact ⟨force, now, rfl⟩
      | _ => cases hstart
    | false =>
      rw [show (ServiceEvent.verifier e).isStart = false from hstart]
      have hstep := Verifier.step_of_handle? hhandle
      exact h.others (hstep.cycle_ne_none hstart hsome) (hcycling ▸ hfalse)

end Owned

theorem Run.owned (hnew : Verifier.new config = .ok v₀) (h : Run v₀ past s) : Owned past s := by
  induction h with
  | nil =>
    refine ⟨fun htrue => (by cases htrue), fun hsome => absurd ?_ hsome⟩
    rw [ofVerifier, Verifier.eq_of_new hnew]
  | @concat past s event response t hrun hreturns hhandle ih =>
    cases hdriver : s.driver with
    | none =>
      have hcycling : s.cycling = false := by rw [cycling, hdriver]; rfl
      obtain ⟨verifier, driver⟩ := s
      cases hdriver
      cases event with
      | verifier event =>
        obtain ⟨⟨response', v⟩, hverifier, heq⟩ := Option.map_eq_some_iff.mp hhandle
        cases heq
        exact ih.aside rfl (fun htrue => absurd htrue (by simp [hcycling])) hverifier
      | startDriver =>
        cases hhandle
        exact ih.concat rfl rfl rfl
      | _ => cases hhandle
    | some d =>
      obtain ⟨_, hverifier⟩ := hrun.verifier
      have hcycling := cycling_eq hdriver
      have hbatch := hverifier.hasBatch hnew
      cases step_of_handle? hdriver hhandle with
      | cycle _ hcycle => exact .follow (Verifier.accounts_of_handle? hcycle hbatch) _ _
      | aside haside hother =>
        refine ih.aside hdriver (fun htrue => ?_) hother
        exact haside.resolve_left (not_not_intro (by simpa [hcycling] using htrue))
      | startCycle _ hstart => exact .follow (Verifier.accounts_of_handle? hstart hbatch) _ _
      | cancel => exact ih.concat rfl rfl (by simp [cycling, Driver.cancel, hdriver])
      | stop hsees =>
        obtain ⟨-, ⟨rfl, hplace⟩ | ⟨rfl, hplace⟩⟩ := Driver.of_seesCancelled hsees <;>
          exact ih.concat rfl rfl (by simp [cycling, Driver.stop, hdriver, hplace])
      | enter hplace _ => exact ih.concat rfl rfl (by simp [cycling, hdriver, hplace])
      | rise hplace _ => exact ih.concat rfl rfl (by simp [cycling, hdriver, hplace])
      | stay hstay =>
        rcases hstay with ⟨rfl, -⟩ | ⟨rfl, -⟩ <;>
          exact ih.concat rfl rfl (by simp [cycling, hdriver])
      | join _ =>
        have hplace : d.join.place = d.place := by unfold Driver.join; split <;> rfl
        exact ih.concat rfl rfl (by simp [cycling, hdriver, hplace])
      | startDriver hended =>
        have hplace : d.place ≠ .cycling := by
          intro hplace
          simp [Driver.hasEnded, hplace] at hended
        exact ih.concat rfl rfl (by simp [cycling, hdriver, Driver.initial, hplace])

/-- There is a cycle in progress that was not started by the driver, and what is in flight was
handed off by it. -/
def InFlightOfOthers (v₀ : Verifier) (past : List ServiceEvent) (s : Service) : Prop :=
  s.verifier.cycle ≠ none ∧
    ∃ force now before u, lastStart? past = some (.verifier (.start force now)) ∧
      v₀.HandOff .any (past.filterMap ServiceEvent.event?) before u ∧
      s.verifier.queue.inFlight.RemainsOf u.kept

/-- Outside its cycle a driver leaves nothing in flight. -/
theorem Run.inFlight (hnew : Verifier.new config = .ok v₀) (h : Run v₀ past s)
    (hcycling : s.cycling = false) :
    s.verifier.cycle = none ∧ s.verifier.queue.inFlight = .empty ∨ InFlightOfOthers v₀ past s := by
  obtain ⟨_, hrun⟩ := h.verifier
  cases hcycle : s.verifier.cycle with
  | none => exact .inl ⟨rfl, hrun.settled hnew hcycle⟩
  | some cycle =>
    have hsome : s.verifier.cycle ≠ none := by simp [hcycle]
    obtain ⟨force, now, hlast⟩ := (h.owned hnew).others hsome hcycling
    obtain ⟨before, u, hhandOff, hfollows⟩ := hrun.follows Replies.any_justify hnew hcycle
    refine .inr ⟨hsome, force, now, before, u, hlast, hhandOff, ?_⟩
    obtain ⟨_, hbefore⟩ := hhandOff.reached
    generalize cycle.stage = stage at hfollows
    cases hfollows with
    | verifying _ hflight =>
      rwa [hbefore.settled hnew hhandOff.cycle_eq, RequestSet.empty_absorb] at hflight
    | dispatching hempty _ _ _ =>
      rw [hempty]
      exact .empty _

/-! ## Notices of a round -/

/-- When the driver has left a cycle that it started, it has told of everything that was pending at
the start, without a cached verdict, and was not dropped before the batch was taken. -/
theorem Run.told (hnew : Verifier.new config = .ok v₀) (h : Run v₀ past u) {now : Instant}
    {published : List DriverState} {progress : Progress}
    (hstart : u.handle? (.startCycle now) = some (.stepped (.draining :: published) progress, s))
    (hevents : s.run? events = some (responses, t)) (hreturns : s.Returns events)
    (hlast : ∀ e ∈ events, e.isStart = false) (hcycling : t.cycling = false) :
    (u.verifier.notices (.start false now :: events.filterMap ServiceEvent.event?)).map
        (·.subject.hash) =
      u.verifier.queue.pending.requests.parents.filter
        (u.verifier.takes (events.filterMap ServiceEvent.event?)) := by
  obtain ⟨_, hrun⟩ := h.verifier
  have hverifier : u.verifier.handle? (.start false now) =
      some (.stepped (.draining :: published) progress, s.verifier) := verifier_of_handle? hstart
  obtain ⟨_, hduring⟩ := run?_verifier hevents
  have hnone : t.verifier.cycle = none := by
    have hall := (h.concat (fun e he => by cases he; trivial) hstart).append hevents hreturns
    by_contra hsome
    obtain ⟨force', now', hother⟩ := (hall.owned hnew).others hsome hcycling
    rw [lastStart?_append hlast, lastStart?_concat] at hother
    cases hother
  refine hrun.told_of_finished hnew hverifier hduring hreturns (fun e he => ?_) hnone
  obtain ⟨event, hevent, heq⟩ := List.mem_filterMap.mp he
  have hfalse := hlast event hevent
  rwa [ServiceEvent.isStart, heq, Option.any_some] at hfalse

end Service

/-! ## A round comes to its end -/

/-- What a cycle awaits comes. -/
inductive Awaited.Answer : Awaited → Event → Prop
  | batch {call} (reply : BatchReply) : Answer (.batch call) (.replyBatch (some reply))
  | single {check} (reply : SingleReply) : Answer (.single check) (.replySingle (some reply))
  | take : Answer .take .take
  | delivery {notice} (timestamp : Int) : Answer (.delivery notice) (.delivered (some timestamp))

/-- Whether an event is of the kind that a cycle awaits. -/
def Event.isAnswer : Event → Bool
  | .replyBatch _ | .replySingle _ | .take | .delivered _ => true
  | _ => false

theorem Consultation.Reply.isAnswer {event : Event} {work work' : Consultation Results}
    (h : Reply event work work') : event.isAnswer = true := by
  cases h <;> rfl

/-- Only a start, or what a cycle awaits, is a step of a cycle. -/
theorem Verifier.isAnswer_of_stepped {v w : Verifier} {event : Event}
    {published : List DriverState} {progress : Progress}
    (h : v.handle? event = some (.stepped published progress, w)) :
    event.isStart = true ∨ event.isAnswer = true := by
  cases step_of_handle? h with
  | consulted _ _ hreply _ => exact .inr hreply.isAnswer
  | abandoned _ _ hreply => exact .inr hreply.isAnswer
  | take _ _ => exact .inr rfl
  | delivered _ _ => exact .inr rfl
  | undelivered _ _ => exact .inr rfl
  | _ => exact .inl rfl

namespace Verifier

variable {v : Verifier} {c : Cycle}

theorem handle?_of_reply {event : Event} {work work' : Consultation Results}
    (hcycle : v.cycle = some c) (hstage : c.stage = .verifying work)
    (hreply : Consultation.Reply event work work') :
    v.handle? event = some (stepped (v.consult c work')) := by
  cases hreply with
  | batch => simp [handle?, replyBatch?, hcycle, hstage]
  | single => simp [handle?, replySingle?, hcycle, hstage]

theorem handle?_take {results : Results} (hcycle : v.cycle = some c)
    (hstage : c.stage = .verifying (.done results)) :
    v.handle? .take = some (stepped ({ v with queue := v.queue.take.2 }.dispatch [.dispatching] c 0
      (v.queue.take.1.deliveries results))) := by
  simp [handle?, take?, hcycle, hstage]

theorem handle?_delivered {dispatched : Nat} {current : Delivery} {rest : List Delivery}
    (hcycle : v.cycle = some c) (hstage : c.stage = .dispatching dispatched current rest)
    (timestamp : Int) : v.handle? (.delivered (some timestamp)) =
      some (stepped ((v.record current timestamp).dispatch [] c (dispatched + 1) rest)) := by
  simp [handle?, delivered?, hcycle, hstage]

end Verifier

/-- When all calls return, the cycle goes on with the consultation. -/
theorem Verifier.consult_of_ensures {work : Consultation Results} {post : Results → Prop}
    (hwork : work.Ensures .any post) (v : Verifier) (cycle : Cycle) :
    v.consult cycle work = v.await [] { cycle with stage := .verifying work } := by
  cases work with
  | abandoned => exact hwork.elim
  | _ => rfl

namespace Service

/-- Something may have happened to a service, but nothing that a cycle awaits. -/
def Meanwhile (s u : Service) : Prop :=
  ∃ events responses, s.run? events = some (responses, u) ∧
    ∀ event ∈ events, ∀ e, event.event? = some e → e.isAnswer = false

/-- The driver comes to its wait: whatever happens meanwhile, its cycle awaits something, accepts
whatever comes as that, and does so only finitely often. -/
inductive Finishes : Service → Prop
  | waiting {s d} (hdriver : s.driver = some d) (hplace : d.place = .waiting) : Finishes s
  | cycling {s}
      (hawaits : ∀ u, s.Meanwhile u → ∃ need, u.verifier.awaited? = some need ∧
        ∀ event, need.Answer event → (u.handle? (.verifier event)).isSome)
      (hgoes : ∀ u need event response t, s.Meanwhile u → u.verifier.awaited? = some need →
        need.Answer event → u.handle? (.verifier event) = some (response, t) → Finishes t) :
      Finishes s

variable {config : Config} {v₀ : Verifier} {s t u : Service} {d : Driver} {c : Cycle}
  {past events : List ServiceEvent} {event : ServiceEvent} {response : Response}

/-- Nothing but what the driver's cycle awaits takes the driver out of it, or changes the cycle. -/
theorem Step.stays_cycling (hstep : s.Step d event response t)
    (hplace : d.place = .cycling) (hcycle : s.verifier.cycle = some c)
    (hevent : ∀ e, event.event? = some e → e.isAnswer = false) :
    (∃ d', t.driver = some d' ∧ d'.place = .cycling) ∧ t.verifier.cycle = some c := by
  have hended : d.hasEnded = false := by simp [Driver.hasEnded, hplace]
  cases hstep with
  | @cycle e published progress v _ hhandle =>
    rcases Verifier.isAnswer_of_stepped hhandle with hstart | hanswer
    · cases e with
      | start force now =>
        exact absurd (hcycle.symm.trans (Verifier.cycle_eq_none_of_start hhandle)) (by simp)
      | _ => cases hstart
    · exact absurd (hanswer.symm.trans (hevent e rfl)) (by decide)
  | aside haside hhandle =>
    refine ⟨⟨d, rfl, hplace⟩, ?_⟩
    have hstep := Verifier.step_of_handle? hhandle
    rw [hstep.cycle_eq_of_not_stepped (haside.resolve_left (not_not_intro hplace))]
    exact hcycle
  | startCycle hentering _ => exact absurd (hplace.symm.trans hentering) (by decide)
  | cancel => exact ⟨⟨_, rfl, hplace⟩, hcycle⟩
  | stop hsees =>
    obtain ⟨-, ⟨-, hother⟩ | ⟨-, hother⟩⟩ := Driver.of_seesCancelled hsees <;>
      exact absurd (hplace.symm.trans hother) (by decide)
  | enter htop _ => exact absurd (hplace.symm.trans htop) (by decide)
  | rise hwaiting _ => exact absurd (hplace.symm.trans hwaiting) (by decide)
  | stay _ => exact ⟨⟨d, rfl, hplace⟩, hcycle⟩
  | join htrue => exact absurd (hended.symm.trans htrue) (by decide)
  | startDriver htrue => exact absurd (hended.symm.trans htrue) (by decide)

theorem Meanwhile.stays_cycling (h : s.Meanwhile u) (hdriver : s.driver = some d)
    (hplace : d.place = .cycling) (hcycle : s.verifier.cycle = some c) :
    (∃ d', u.driver = some d' ∧ d'.place = .cycling) ∧ u.verifier.cycle = some c := by
  obtain ⟨events, responses, hrun, hevents⟩ := h
  induction events generalizing s d responses with
  | nil =>
    cases hrun
    exact ⟨⟨d, hdriver, hplace⟩, hcycle⟩
  | cons event rest ih =>
    obtain ⟨response, t, responses', hhandle, hrest, rfl⟩ := run?_cons hrun
    obtain ⟨hevent, hevents⟩ := List.forall_mem_cons.mp hevents
    obtain ⟨⟨d', hd', hplace'⟩, hcycle'⟩ :=
      (step_of_handle? hdriver hhandle).stays_cycling hplace hcycle hevent
    exact ih hd' hplace' hcycle' responses' hrest hevents

/-- The driver comes to its wait, if every answer to what its cycle awaits is accepted, and leads to
where it does. -/
theorem finishes_of_answers (hdriver : s.driver = some d) (hplace : d.place = .cycling)
    (hcycle : s.verifier.cycle = some c)
    (h : ∀ (v : Verifier) (d' : Driver) event, v.cycle = some c → c.awaited.Answer event →
      ∃ step, v.handle? event = some (Verifier.stepped step) ∧
        Finishes ⟨step.verifier, some (d'.follow step.published step.progress)⟩) :
    s.Finishes := by
  -- Whatever happens meanwhile, the cycle is the same, and the driver follows its next step.
  have hnext {u : Service} {event : Event} (hu : s.Meanwhile u) (hanswer : c.awaited.Answer event) :
      ∃ response t, u.handle? (.verifier event) = some (response, t) ∧ t.Finishes := by
    obtain ⟨⟨d', hd', hplace'⟩, hcycle'⟩ := hu.stays_cycling hdriver hplace hcycle
    obtain ⟨step, hstep, hfinishes⟩ := h u.verifier d' event hcycle' hanswer
    refine ⟨.stepped step.published step.progress, _, ?_, hfinishes⟩
    rw [handle?, handleVerifier?, hstep, hd']
    simp [Verifier.stepped, attend, hplace']
  have hneed {u : Service} (hu : s.Meanwhile u) : u.verifier.awaited? = some c.awaited := by
    rw [Verifier.awaited?, (hu.stays_cycling hdriver hplace hcycle).2, Option.map_some]
  refine .cycling (fun u hu => ⟨c.awaited, hneed hu, fun event hanswer => ?_⟩) ?_
  · obtain ⟨response, t, hhandle, -⟩ := hnext hu hanswer
    rw [hhandle]
    rfl
  · intro u need event response t hu hsome hanswer hhandle
    rw [hneed hu] at hsome
    cases hsome
    obtain ⟨response', t', hhandle', hfinishes⟩ := hnext hu hanswer
    rw [hhandle'] at hhandle
    cases hhandle
    exact hfinishes

/-- Dispatching ends, as there are only so many deliveries. -/
theorem finishes_of_dispatching {dispatched : Nat} {current : Delivery} {rest : List Delivery}
    (hdriver : s.driver = some d) (hplace : d.place = .cycling) (hcycle : s.verifier.cycle = some c)
    (hstage : c.stage = .dispatching dispatched current rest) : s.Finishes := by
  induction rest generalizing s d c dispatched current with
  | nil =>
    refine finishes_of_answers hdriver hplace hcycle fun v d' event hv hanswer => ?_
    rw [Cycle.awaited, hstage] at hanswer
    cases hanswer with
    | delivery timestamp =>
      exact ⟨_, Verifier.handle?_delivered hv hstage timestamp, .waiting rfl rfl⟩
  | cons next rest ih =>
    refine finishes_of_answers hdriver hplace hcycle fun v d' event hv hanswer => ?_
    rw [Cycle.awaited, hstage] at hanswer
    cases hanswer with
    | delivery timestamp =>
      exact ⟨_, Verifier.handle?_delivered hv hstage timestamp, ih rfl rfl rfl rfl⟩

/-- A consultation that is not abandoned ends, as a tree of questions does. -/
theorem finishes_of_verifying {work : Consultation Results} {post : Results → Prop}
    (hwork : work.Ensures .any post) (hdriver : s.driver = some d) (hplace : d.place = .cycling)
    (hcycle : s.verifier.cycle = some c) (hstage : c.stage = .verifying work) : s.Finishes := by
  induction work generalizing s d c with
  | abandoned => exact hwork.elim
  | done results =>
    refine finishes_of_answers hdriver hplace hcycle fun v d' event hv hanswer => ?_
    rw [Cycle.awaited, hstage] at hanswer
    cases hanswer with
    | take =>
      refine ⟨_, Verifier.handle?_take hv hstage, ?_⟩
      cases v.queue.take.1.deliveries results with
      | nil => exact .waiting rfl rfl
      | cons current rest => exact finishes_of_dispatching rfl rfl rfl rfl
  | batch call next ih =>
    refine finishes_of_answers hdriver hplace hcycle fun v d' event hv hanswer => ?_
    rw [Cycle.awaited, hstage] at hanswer
    cases hanswer with
    | batch reply =>
      have hnext := hwork (some reply) trivial
      refine ⟨_, Verifier.handle?_of_reply hv hstage .batch, ?_⟩
      rw [Verifier.consult_of_ensures hnext]
      exact ih (some reply) hnext rfl rfl rfl rfl
  | single check next ih =>
    refine finishes_of_answers hdriver hplace hcycle fun v d' event hv hanswer => ?_
    rw [Cycle.awaited, hstage] at hanswer
    cases hanswer with
    | single reply =>
      have hnext := hwork (some reply) trivial
      refine ⟨_, Verifier.handle?_of_reply hv hstage .single, ?_⟩
      rw [Verifier.consult_of_ensures hnext]
      exact ih (some reply) hnext rfl rfl rfl rfl

/-- A driver that is in its cycle comes to its wait. -/
theorem Run.finishes (hnew : Verifier.new config = .ok v₀) (h : Run v₀ past s)
    (hdriver : s.driver = some d) (hplace : d.place = .cycling) : s.Finishes := by
  obtain ⟨_, hrun⟩ := h.verifier
  have hcycling : s.cycling = true := by simp [cycling_eq hdriver, hplace]
  obtain ⟨c, hcycle⟩ := Option.ne_none_iff_exists'.mp ((h.owned hnew).cycling hcycling)
  obtain ⟨_, _, -, hfollows⟩ := hrun.follows Replies.any_justify hnew hcycle
  generalize hstage : c.stage = stage at hfollows
  cases hfollows with
  | verifying hwork _ => exact finishes_of_verifying hwork hdriver hplace hcycle hstage
  | dispatching _ _ _ _ => exact finishes_of_dispatching hdriver hplace hcycle hstage

/-! ## The start of a round -/

/-- At a transition the driver's cycle starts, and it is published that the driver is verifying if
it has drained something to verify, and only then. -/
def DrainsAt (x : ServiceTransition) : Prop :=
  (∃ now, x.event = .startCycle now) ∧
    (.verifying ∈ x.published ↔
      (x.before.verifier.queue.drain x.before.verifier.cache.contains).1.batch ≠ [])

/-- It is published that the driver is draining or verifying only when its cycle starts. -/
theorem Run.drainsAt (hnew : Verifier.new config = .ok v₀) (h : Run v₀ past s)
    (hhandle : s.handle? event = some (response, t))
    (hmem : .draining ∈ ServiceTransition.published ⟨s, event, response, t⟩ ∨
      .verifying ∈ ServiceTransition.published ⟨s, event, response, t⟩) :
    DrainsAt ⟨s, event, response, t⟩ := by
  obtain ⟨_, hrun⟩ := h.verifier
  have hbatch := hrun.hasBatch hnew
  have hverifier := verifier_of_handle? hhandle
  cases hown : ServiceTransition.own? ⟨s, event, response, t⟩ with
  | none =>
    simp only [ServiceTransition.published, hown] at hmem
    split at hmem <;> simp at hmem
  | some step =>
    obtain ⟨published, progress⟩ := step
    have hpublished : ServiceTransition.published ⟨s, event, response, t⟩ = published := by
      rw [ServiceTransition.published, hown]
    rw [hpublished] at hmem
    obtain ⟨hresponse, ⟨now, hevent⟩ | ⟨e, hevent, hcycling⟩⟩ := ServiceTransition.own?_eq_some hown
    · cases hresponse
      cases hevent
      exact ⟨⟨now, rfl⟩, hpublished ▸ (Verifier.verifying_mem_of_handle? hverifier hbatch hmem).2⟩
    · cases hresponse
      cases hevent
      -- In its cycle, the driver has a cycle in progress, so none starts.
      have hsome := (h.owned hnew).cycling hcycling
      have hstart := (Verifier.verifying_mem_of_handle? hverifier hbatch hmem).1
      cases e with
      | start force now => exact absurd (Verifier.cycle_eq_none_of_start hverifier) hsome
      | _ => cases hstart

theorem Run.drainsAt_of_mem_trace (hnew : Verifier.new config = .ok v₀) (h : Run v₀ past s)
    {responses : List Response} (hevents : s.run? events = some (responses, t))
    (hreturns : s.Returns events) {x : ServiceTransition} (hx : x ∈ s.trace events)
    (hmem : .draining ∈ x.published ∨ .verifying ∈ x.published) : DrainsAt x := by
  induction events generalizing past s responses with
  | nil => cases hx
  | cons event rest ih =>
    obtain ⟨response, u, responses', hhandle, hrest, rfl⟩ := run?_cons hevents
    obtain ⟨hevent, hreturns⟩ := returns_cons hreturns hhandle
    rw [trace, hhandle] at hx
    rcases List.mem_cons.mp hx with rfl | hx
    · exact h.drainsAt hnew hhandle hmem
    · exact ih (h.concat hevent hhandle) hrest hreturns hx

/-! ## Drivers -/

/-- What is to be said of a driver that was started, after the events `past` from `v₀`, in `s`, when
`events` have led to `t` since and to what it is then. -/
structure DriverRun (v₀ : Verifier) (past : List ServiceEvent) (s : Service)
    (events : List ServiceEvent) (t : Service) (d : Driver) : Prop where
  driver : t.driver = some d
  /-- It has published its rounds, one after the other, and then what there is of the round that it
  is in, or that it has stopped. -/
  published : s.published events =
    (s.rounds events).flatMap CycleOutcome.states ++ d.unfinished t.verifier
  state : d.state = (s.published events).getLast?.getD .idle
  /-- It is draining only when a cycle of its own starts, and then verifying if it has drained
  something to verify, and only then. -/
  drains : ∀ x ∈ s.trace events, .draining ∈ x.published ∨ .verifying ∈ x.published → DrainsAt x
  /-- It is cancelled when someone has cancelled it, and stops for no other reason. -/
  cancelled : d.cancelled = true ↔ .cancel ∈ events
  stopped : d.place = .stopped → .cancel ∈ events
  whole : d.place ≠ .torn
  /-- Since it has seen that it is cancelled, it has started no cycle, and published that it has
  stopped and nothing else. -/
  ended : ∀ before event rest responses u d', events = before ++ event :: rest →
    s.run? before = some (responses, u) → u.driver = some d' → d'.seesCancelled event = true →
    u.published (event :: rest) = [.stopped] ∧ ∀ now, .startCycle now ∉ event :: rest
  /-- It comes to the end of the round that it is in. -/
  finishes : d.place = .cycling → t.Finishes
  /-- In a round that is finished it has told of all that was pending without a cached verdict, and
  was not dropped before the batch was taken. -/
  told : ∀ before now during responses u published progress w,
    events = before ++ .startCycle now :: during → s.run? before = some (responses, u) →
    u.handle? (.startCycle now) = some (.stepped (.draining :: published) progress, w) →
    (∀ e ∈ during, e.isStart = false) → d.place ≠ .cycling →
    (u.verifier.notices (.start false now :: during.filterMap ServiceEvent.event?)).map
        (·.subject.hash) =
      u.verifier.queue.pending.requests.parents.filter
        (u.verifier.takes (during.filterMap ServiceEvent.event?))
  /-- Outside its cycle it leaves nothing in flight. -/
  inFlight : d.place ≠ .cycling →
    t.verifier.cycle = none ∧ t.verifier.queue.inFlight = .empty ∨
      InFlightOfOthers v₀ (past ++ events) t

theorem driver_of_startDriver (h : s.handle? .startDriver = some (response, t)) :
    t.driver = some .initial := by
  simp only [handle?] at h
  split at h
  · cases h
    rfl
  · cases h

/-- A driver works in whole rounds, until it sees that it is cancelled: then it has told of all that
it was to tell of, and stops. -/
theorem rounds_of_driver (hnew : Verifier.new config = .ok v₀) {earlier : List ServiceEvent}
    {responses₀ responses : List Response}
    (hearlier : (ofVerifier v₀).run? (earlier ++ [.startDriver]) = some (responses₀, s))
    (hreturns₀ : (ofVerifier v₀).Returns (earlier ++ [.startDriver]))
    (hevents : s.run? events = some (responses, t)) (hreturns : s.Returns events)
    (hsame : .startDriver ∉ events) :
    ∃ d, DriverRun v₀ (earlier ++ [.startDriver]) s events t d := by
  have hrun := Run.nil.append hearlier hreturns₀
  rw [List.nil_append] at hrun
  have hdriver : s.driver = some .initial := by
    obtain ⟨_, _, _, -, hlast, -⟩ := exists_of_run?_append hearlier
    obtain ⟨_, _, _, hstart, hnil, -⟩ := run?_cons hlast
    cases hnil
    exact driver_of_startDriver hstart
  obtain ⟨d, hd, haccounts⟩ :=
    hrun.accounts_of_run? hnew hdriver (.initial s.verifier) hevents hreturns hsame
  have hall := hrun.append hevents hreturns
  have hcycling (hplace : d.place ≠ .cycling) : t.cycling = false := by
    simp [cycling_eq hd, hplace]
  refine ⟨d, ?_⟩
  constructor
  case driver => exact hd
  case published => exact haccounts.states
  case state => exact haccounts.state
  case drains => exact fun x hx => hrun.drainsAt_of_mem_trace hnew hevents hreturns hx
  case cancelled => exact haccounts.cancelled
  case stopped => exact fun hplace => haccounts.cancelled.mp (haccounts.stopped hplace)
  case whole => exact haccounts.whole
  case ended =>
    rintro before event rest responses u d' rfl hbefore hd' hsees
    obtain ⟨-, -, _, hrest⟩ := hrun.cut hbefore hevents hreturns
    refine published_of_seesCancelled hd' hsees hrest fun hmem => hsame ?_
    exact List.mem_append_right _ (List.mem_cons_of_mem _ hmem)
  case finishes => exact hall.finishes hnew hd
  case told =>
    rintro before now during responses u published progress w rfl hbefore hstart hlast hplace
    obtain ⟨hu, hreturns, _, hrest⟩ := hrun.cut hbefore hevents hreturns
    obtain ⟨_, w', _, hstart', hduring, -⟩ := run?_cons hrest
    rw [hstart] at hstart'
    cases hstart'
    exact hu.told hnew hstart hduring (returns_cons hreturns hstart).2 hlast (hcycling hplace)
  case inFlight => exact fun hplace => hall.inFlight hnew (hcycling hplace)

/-- The blank certificate is enqueued. -/
def blankEnqueued : List ServiceEvent :=
  [.verifier (.enqueueCertificate (.ofKey ⟨[]⟩) .blank none 0)]

/-- A round in which the driver is cancelled while the backend is asked, and the end of its loop. -/
def cancelledRound : List ServiceEvent :=
  [.beginRound, .startCycle 5000000001, .cancel, .verifier (.replyBatch (some (.ok ⟨true, []⟩))),
    .verifier .take, .verifier (.delivered (some 0)), .wake]

/-- The driver is cancelled while the blank certificate is verified; it finishes its round, and
stops. -/
theorem rounds_of_driver_cancelled :
    ∃ v₀ responses₀ s responses t d, Verifier.new .default = .ok v₀ ∧
      (ofVerifier v₀).run? (blankEnqueued ++ [.startDriver]) = some (responses₀, s) ∧
      s.run? cancelledRound = some (responses, t) ∧
      DriverRun v₀ (blankEnqueued ++ [.startDriver]) s cancelledRound t d ∧
      s.published cancelledRound = [.draining, .verifying, .dispatching, .idle, .stopped] := by
  obtain ⟨v₀, hnew⟩ : ∃ v₀, Verifier.new .default = .ok v₀ := ⟨_, rfl⟩
  have hpublished : (((ofVerifier v₀).run? (blankEnqueued ++ [.startDriver])).bind fun start =>
      (start.2.run? cancelledRound).map fun _ => start.2.published cancelledRound) =
        some [.draining, .verifying, .dispatching, .idle, .stopped] := by
    cases hnew
    decide +kernel
  obtain ⟨⟨responses₀, s⟩, hearlier, hrest⟩ := Option.bind_eq_some_iff.mp hpublished
  obtain ⟨⟨responses, t⟩, hevents, hstates⟩ := Option.map_eq_some_iff.mp hrest
  have hreturns₀ : (ofVerifier v₀).Returns (blankEnqueued ++ [.startDriver]) := by
    refine returns_of_allows (fun event hevent e need he => ?_) _
    simp only [blankEnqueued, List.cons_append, List.nil_append, List.mem_cons, List.not_mem_nil,
      or_false] at hevent
    rcases hevent with rfl | rfl <;> cases he
    trivial
  have hreturns : s.Returns cancelledRound := by
    refine returns_of_allows (fun event hevent e need he => ?_) _
    simp only [cancelledRound, List.mem_cons, List.not_mem_nil, or_false] at hevent
    rcases hevent with rfl | rfl | rfl | rfl | rfl | rfl | rfl <;> cases he
    · trivial
    · exact fun _ _ => trivial
    · trivial
    · trivial
  obtain ⟨d, hd⟩ :=
    rounds_of_driver hnew hearlier hreturns₀ hevents hreturns (by simp [cancelledRound])
  exact ⟨v₀, responses₀, s, responses, t, d, hnew, hearlier, hevents, hd, hstates⟩

end Service

end SidechainVerifier
