/-
SidechainVerifier.Proofs.Runs — runs, event by event.

`Verifier.run?` gives what a run leads to, `Verifier.trace` its transitions.
Invariants are shown along `Verifier.Run`, which grows a run at its end and
asks of each event that it agrees with what a backend may reply;
`run_of_run?` turns what was computed into such a run. `LastOf` and
`Verifier.HandOff` look back from the end of a run, to the last event of a
kind and to the start of the cycle that is in progress.
-/
import SidechainVerifier.Proofs.Steps

namespace SidechainVerifier

/-! ## Traces -/

/-- An event as it was handled. -/
structure Transition where
  before : Verifier
  event : Event
  response : Response
  after : Verifier

namespace Verifier

/-- The transitions of a run, up to an event that cannot happen. -/
def trace (v : Verifier) : List Event → List Transition
  | [] => []
  | event :: rest =>
    match v.handle? event with
    | none => []
    | some (response, w) => ⟨v, event, response, w⟩ :: w.trace rest

/-- All calls of a run end as they may. -/
def AnsweredBy (v : Verifier) (replies : Replies) (events : List Event) : Prop :=
  ∀ t ∈ v.trace events, replies.Allows t.before.awaited? t.event

theorem run?_cons {v w : Verifier} {event : Event} {rest : List Event} {responses : List Response}
    (h : v.run? (event :: rest) = some (responses, w)) :
    ∃ response u responses', v.handle? event = some (response, u) ∧
      u.run? rest = some (responses', w) ∧ responses = response :: responses' := by
  simp only [run?, bind, Option.bind_eq_some_iff, pure, Prod.exists, Option.some.injEq,
    Prod.mk.injEq] at h
  obtain ⟨response, u, hhandle, responses', w', hrest, rfl, rfl⟩ := h
  exact ⟨response, u, responses', hhandle, hrest, rfl⟩

theorem run?_cons_eq {v u w : Verifier} {event : Event} {rest : List Event} {response : Response}
    {responses : List Response} (hhandle : v.handle? event = some (response, u))
    (hrest : u.run? rest = some (responses, w)) :
    v.run? (event :: rest) = some (response :: responses, w) := by
  simp [run?, hhandle, hrest]

theorem run?_append {v w x : Verifier} {events rest : List Event}
    {responses responses' : List Response} (hrun : v.run? events = some (responses, w))
    (hrest : w.run? rest = some (responses', x)) :
    v.run? (events ++ rest) = some (responses ++ responses', x) := by
  induction events generalizing v responses with
  | nil =>
    cases hrun
    exact hrest
  | cons e events ih =>
    obtain ⟨r, u, responses, he, hevents, rfl⟩ := run?_cons hrun
    exact run?_cons_eq he (ih hevents)

theorem run?_concat {v w x : Verifier} {events : List Event} {responses : List Response}
    {event : Event} {response : Response} (hrun : v.run? events = some (responses, w))
    (hhandle : w.handle? event = some (response, x)) :
    v.run? (events ++ [event]) = some (responses ++ [response], x) :=
  run?_append hrun (run?_cons_eq hhandle rfl)

theorem trace_concat {v w x : Verifier} {events : List Event} {responses : List Response}
    {event : Event} {response : Response} (hrun : v.run? events = some (responses, w))
    (hhandle : w.handle? event = some (response, x)) :
    v.trace (events ++ [event]) = v.trace events ++ [⟨w, event, response, x⟩] := by
  induction events generalizing v responses with
  | nil =>
    cases hrun
    simp [trace, hhandle]
  | cons e rest ih =>
    obtain ⟨r, u, responses', he, hrest, rfl⟩ := run?_cons hrun
    simp [trace, he, ih hrest]

/-- A run that goes on to its end handles all its events. -/
theorem trace_events {v w : Verifier} {events : List Event} {responses : List Response}
    (hrun : v.run? events = some (responses, w)) : (v.trace events).map (·.event) = events := by
  induction events generalizing v responses with
  | nil => rfl
  | cons event rest ih =>
    obtain ⟨response, u, responses', hhandle, hrest, rfl⟩ := run?_cons hrun
    simp only [trace, hhandle, List.map_cons, ih hrest]

/-- A run can be cut in two. -/
theorem exists_of_run?_append {v x : Verifier} {events rest : List Event} {responses : List Response}
    (h : v.run? (events ++ rest) = some (responses, x)) :
    ∃ responses₁ w responses₂, v.run? events = some (responses₁, w) ∧
      w.run? rest = some (responses₂, x) ∧ responses = responses₁ ++ responses₂ := by
  induction events generalizing v responses with
  | nil => exact ⟨[], v, responses, rfl, h, rfl⟩
  | cons e events ih =>
    obtain ⟨r, u, responses', he, hevents, rfl⟩ := run?_cons h
    obtain ⟨responses₁, w, responses₂, h₁, h₂, rfl⟩ := ih hevents
    exact ⟨r :: responses₁, w, responses₂, run?_cons_eq he h₁, h₂, rfl⟩

theorem exists_of_run?_concat {v x : Verifier} {events : List Event} {event : Event}
    {responses : List Response} (h : v.run? (events ++ [event]) = some (responses, x)) :
    ∃ responses₁ w response, v.run? events = some (responses₁, w) ∧
      w.handle? event = some (response, x) ∧ responses = responses₁ ++ [response] := by
  obtain ⟨responses₁, w, _, h₁, h₂, rfl⟩ := exists_of_run?_append h
  obtain ⟨response, u, _, hhandle, hnil, rfl⟩ := run?_cons h₂
  cases hnil
  exact ⟨responses₁, w, response, h₁, hhandle, rfl⟩

theorem trace_eq_cons {v : Verifier} {events : List Event} {t : Transition} {after : List Transition}
    (h : v.trace events = t :: after) :
    ∃ rest, events = t.event :: rest ∧ t.before = v ∧
      v.handle? t.event = some (t.response, t.after) ∧ t.after.trace rest = after := by
  cases events with
  | nil => cases h
  | cons event rest =>
    unfold trace at h
    split at h
    · cases h
    next hhandle =>
      cases h
      exact ⟨rest, rfl, rfl, hhandle, rfl⟩

/-- A transition of a trace is reached by a run. -/
theorem trace_eq_append {v : Verifier} {events : List Event} {before : List Transition}
    {t : Transition} {after : List Transition} (h : v.trace events = before ++ t :: after) :
    ∃ events₁ rest responses, events = events₁ ++ t.event :: rest ∧
      v.run? events₁ = some (responses, t.before) ∧
      t.before.handle? t.event = some (t.response, t.after) ∧ t.after.trace rest = after := by
  induction before generalizing v events with
  | nil =>
    obtain ⟨rest, rfl, rfl, hhandle, hrest⟩ := trace_eq_cons h
    exact ⟨[], rest, [], rfl, rfl, hhandle, hrest⟩
  | cons t' before ih =>
    obtain ⟨rest', rfl, -, hhandle', hrest'⟩ := trace_eq_cons h
    obtain ⟨events₁, rest, responses, rfl, hrun, hhandle, hrest⟩ := ih hrest'
    exact ⟨t'.event :: events₁, rest, t'.response :: responses, rfl, run?_cons_eq hhandle' hrun,
      hhandle, hrest⟩

/-- Whether the calls of a run end as they may can be read off what was awaited. -/
theorem answeredBy_of_awaited {replies : Replies} {v : Verifier} {events : List Event}
    {needs : List (Option Awaited)} (hneeds : (v.trace events).map (·.before.awaited?) = needs)
    (h : ∀ p ∈ needs.zip events, replies.Allows p.1 p.2) : v.AnsweredBy replies events := by
  subst hneeds
  induction events generalizing v with
  | nil => simp [AnsweredBy, trace]
  | cons event rest ih =>
    unfold AnsweredBy
    unfold trace at h ⊢
    split
    · simp
    next response w hhandle =>
      simp only [hhandle, List.map_cons, List.zip_cons_cons, List.forall_mem_cons] at h ⊢
      exact ⟨h.1, ih h.2⟩

/-! ## Runs that grow at the end -/

/-- A run from `v₀` whose calls end as they may. -/
inductive Run (replies : Replies) (v₀ : Verifier) : List Event → List Response → Verifier → Prop
  | nil : Run replies v₀ [] [] v₀
  | concat {events responses v event response w} (hrun : Run replies v₀ events responses v)
      (hallowed : replies.Allows v.awaited? event)
      (hhandle : v.handle? event = some (response, w)) :
      Run replies v₀ (events ++ [event]) (responses ++ [response]) w

variable {replies : Replies} {v₀ v w : Verifier} {events : List Event} {responses : List Response}

theorem Run.run?_eq (h : v₀.Run replies events responses v) :
    v₀.run? events = some (responses, v) := by
  induction h with
  | nil => rfl
  | concat _ _ hhandle ih => exact run?_concat ih hhandle

theorem Run.append (h : v₀.Run replies events responses v) {rest : List Event}
    {responses' : List Response} (hrun : v.run? rest = some (responses', w))
    (hanswered : v.AnsweredBy replies rest) :
    v₀.Run replies (events ++ rest) (responses ++ responses') w := by
  induction rest generalizing events responses v responses' with
  | nil =>
    cases hrun
    rwa [List.append_nil, List.append_nil]
  | cons event rest ih =>
    obtain ⟨response, u, responses', hhandle, hrest, rfl⟩ := run?_cons hrun
    simp only [AnsweredBy, trace, hhandle, List.forall_mem_cons] at hanswered
    rw [List.append_cons, List.append_cons responses]
    exact ih (h.concat hanswered.1 hhandle) hrest hanswered.2

theorem run_of_run? (hrun : v₀.run? events = some (responses, v))
    (hanswered : v₀.AnsweredBy replies events) : v₀.Run replies events responses v := by
  simpa using Run.nil.append hrun hanswered

/-- With nothing supposed about the backend, every run will do. -/
theorem run_free (hrun : v₀.run? events = some (responses, v)) :
    v₀.Run .free events responses v :=
  run_of_run? hrun fun t _ => Replies.allows_free t.before.awaited? t.event

theorem Run.length_eq (h : v₀.Run replies events responses v) :
    responses.length = events.length := by
  induction h with
  | nil => rfl
  | concat _ _ _ ih => simp [ih]

/-- Each response of a run is the last of a shorter run. -/
theorem Run.take (h : v₀.Run replies events responses v) {i : Nat} {response : Response}
    (hi : responses[i]? = some response) :
    ∃ (u : Verifier) (event : Event) (w : Verifier),
      v₀.Run replies (events.take (i + 1)) (responses.take (i + 1)) w ∧
      u.handle? event = some (response, w) := by
  induction h with
  | nil => simp at hi
  | @concat events responses v event response' w hrun hallowed hhandle ih =>
    by_cases hlt : i < responses.length
    · rw [List.getElem?_append_left hlt] at hi
      have hlt' : i < events.length := hrun.length_eq ▸ hlt
      rw [List.take_append_of_le_length hlt, List.take_append_of_le_length hlt']
      exact ih hi
    · have hrun' := hrun.concat hallowed hhandle
      have hle : i < (responses ++ [response']).length := (List.getElem?_eq_some_iff.mp hi).1
      have hlength := hrun'.length_eq
      rw [List.length_append, List.length_singleton] at hle
      have heq : i = responses.length := by omega
      have hresponse : response' = response := by simpa [heq] using hi
      refine ⟨v, event, w, ?_, hresponse ▸ hhandle⟩
      rwa [List.take_of_length_le (by rw [← hlength, List.length_append]; simp [heq]),
        List.take_of_length_le (by simp [heq])]

end Verifier

/-! ## Looking back -/

/-- An event is the last of a sequence that satisfies a condition. -/
def LastOf (p : Event → Prop) (event : Event) (events : List Event) : Prop :=
  ∃ before after, events = before ++ event :: after ∧ p event ∧ ∀ e ∈ after, ¬p e

namespace LastOf

variable {p : Event → Prop} {event : Event} {events : List Event}

theorem concat_self (hp : p event) : LastOf p event (events ++ [event]) :=
  ⟨events, [], rfl, hp, by simp⟩

theorem concat (h : LastOf p event events) {e : Event} (he : ¬p e) :
    LastOf p event (events ++ [e]) := by
  obtain ⟨before, after, rfl, hp, hafter⟩ := h
  refine ⟨before, after ++ [e], by simp, hp, ?_⟩
  intro e' he'
  rcases List.mem_append.mp he' with he' | he'
  · exact hafter e' he'
  · rwa [List.mem_singleton.mp he']

theorem mem (h : LastOf p event events) : event ∈ events := by
  obtain ⟨before, after, rfl, -, -⟩ := h
  simp

theorem holds (h : LastOf p event events) : p event := by
  obtain ⟨_, _, _, hp, _⟩ := h
  exact hp

/-- There is one last event that satisfies a condition. -/
theorem unique {event' : Event} (h : LastOf p event events) (h' : LastOf p event' events) :
    event = event' := by
  obtain ⟨before, after, rfl, hp, hafter⟩ := h
  obtain ⟨before', after', hevents, hp', hafter'⟩ := h'
  rcases List.append_eq_append_iff.mp hevents with ⟨between, -, heq⟩ | ⟨between, -, heq⟩
  · cases between with
    | nil => exact (List.cons.inj heq).1
    | cons e between =>
      obtain ⟨-, rfl⟩ := List.cons.inj heq
      exact absurd hp' (hafter event' (by simp))
  · cases between with
    | nil => exact (List.cons.inj heq).1.symm
    | cons e between =>
      obtain ⟨-, rfl⟩ := List.cons.inj heq
      exact absurd hp (hafter' event (by simp))

end LastOf

namespace Verifier

/-- The last start among some events came after the events `before`, and found the verifier as
`u`. -/
structure HandOff (replies : Replies) (v₀ : Verifier) (events before : List Event) (u : Verifier) :
    Prop where
  started : ∃ force now after, events = before ++ .start force now :: after ∧
    ∀ e ∈ after, e.isStart = false
  reached : ∃ responses, v₀.Run replies before responses u
  cycle_eq : u.cycle = none

variable {replies : Replies} {v₀ v u : Verifier} {events before : List Event}

theorem HandOff.concat (h : v₀.HandOff replies events before u) {event : Event}
    (hevent : event.isStart = false) : v₀.HandOff replies (events ++ [event]) before u := by
  obtain ⟨force, now, after, rfl, hafter⟩ := h.started
  refine ⟨⟨force, now, after ++ [event], by simp, fun e he => ?_⟩, h.reached, h.cycle_eq⟩
  rcases List.mem_append.mp he with he | he
  · exact hafter e he
  · rwa [List.mem_singleton.mp he]

theorem HandOff.concat_start {responses : List Response} (hrun : v₀.Run replies events responses v)
    (hcycle : v.cycle = none) (force : Bool) (now : Instant) :
    v₀.HandOff replies (events ++ [.start force now]) events v :=
  ⟨⟨force, now, [], rfl, by simp⟩, ⟨responses, hrun⟩, hcycle⟩

theorem HandOff.subset (h : v₀.HandOff replies events before u) : before ⊆ events := by
  obtain ⟨force, now, after, rfl, -⟩ := h.started
  exact List.subset_append_left _ _

end Verifier

/-! ## A small chain -/

/-- Settings with room for some cached verdicts. -/
def Config.ofCapacity (capacity : UInt64) : Config :=
  { Config.default with cacheCapacity := capacity }

/-- A view of one sidechain with a key; its first epoch is the blocks 1 to 10. -/
def View.ofKey (key : VerificationKey) : View :=
  ((View.empty.setSidechain .zero ⟨1, 10, none, key, none, none, none, none⟩).setCommitmentRoot
    0 .zero).setCommitmentRoot 10 .zero

/-- A certificate of that sidechain's first epoch, with nothing in it. -/
def Certificate.blank : Certificate := ⟨.zero, 0, 0, [], 0, 0, [], ⟨[]⟩⟩

/-- A certificate like the blank one, of some quality. -/
def Certificate.ofQuality (quality : UInt64) : Certificate :=
  { Certificate.blank with quality := quality }

/-- A view of one sidechain; its key for withdrawals has no bytes. -/
def View.withEmptyKey : View :=
  View.empty.setSidechain .zero ⟨1, 10, none, ⟨[]⟩, some ⟨[]⟩, none, none, none⟩

/-- The same view with another sidechain. -/
def View.withTwoEmptyKeys : View :=
  View.withEmptyKey.setSidechain ⟨Vector.replicate 32 1⟩
    ⟨1, 10, none, ⟨[]⟩, some ⟨[]⟩, none, none, none⟩

/-- A transaction that withdraws from both sidechains. -/
def Transaction.fromTwo : Transaction :=
  let withdrawal (sidechain : Hash) : WithdrawalInput :=
    ⟨sidechain, 0, .zero, FixedBytes.zero 20, .zero, ⟨[]⟩⟩
  { version := 0
    withdrawals := [withdrawal .zero, withdrawal ⟨Vector.replicate 32 1⟩]
    payload := [] }

/-- The blank certificate is verified by a batch call and taken out of flight. -/
def Event.verifyBlank (key : VerificationKey) : List Event :=
  [.enqueueCertificate (.ofKey key) .blank none 0, .start true 0,
    .replyBatch (some (.ok ⟨true, []⟩)), .take]

/-- A certificate of some quality is verified, and the listener told of it. -/
def Event.verifyOfQuality (quality : UInt64) (timestamp : Int) : List Event :=
  [.enqueueCertificate (.ofKey ⟨[]⟩) (.ofQuality quality) none 0, .start true 0,
    .replyBatch (some (.ok ⟨true, []⟩)), .take, .delivered (some timestamp)]

/-- A backend for which everything is valid may reply so to any question. -/
theorem Replies.allows_verifyBlank {key : VerificationKey} {event : Event}
    (h : event ∈ Event.verifyBlank key) (need : Option Awaited) :
    (soundFor fun _ => .ok true).Allows need event := by
  simp only [Event.verifyBlank, List.mem_cons, List.not_mem_nil, or_false] at h
  rcases h with rfl | rfl | rfl | rfl
  · trivial
  · trivial
  · intro call _ answer hanswer
    cases hanswer
    exact ⟨fun _ _ _ => rfl, by simp⟩
  · trivial

end SidechainVerifier
