/-
SidechainVerifier.Proofs.Guards — what guards hold off, and what they leave
alone.

A guard that was taken with a pause requested is live until it is dropped
(`LiveGuard`); the gate counts just these (`PauseGate.Tracks`). As long as
there is one, a start answers that batches are held off, or that none was
due, and leaves everything as it is; nothing is put into flight. Nothing
else is different: take guards, and the starts they hold off, out of a run,
and the other events lead to the same responses and to the same verifier
(`Verifier.run?_unhindered`).
-/
import SidechainVerifier.Proofs.CompletedCycles
import SidechainVerifier.Proofs.Frames

namespace SidechainVerifier

open OrderedMap

/-! ## Live guards -/

/-- The guard with a number was taken with a pause requested and has not been dropped since. -/
def LiveGuard (events : List Event) (number : Nat) : Prop :=
  ∃ before after, events = before ++ .pause true :: after ∧
    before.countP Event.isPause = number ∧ .unpause number ∉ after

theorem liveGuard_concat {events : List Event} {event : Event} {number : Nat} :
    LiveGuard (events ++ [event]) number ↔
      event = .pause true ∧ events.countP Event.isPause = number ∨
        LiveGuard events number ∧ event ≠ .unpause number := by
  constructor
  · rintro ⟨before, after, hevents, hnumber, hafter⟩
    rcases List.eq_nil_or_concat after with rfl | ⟨after, last, rfl⟩
    · obtain ⟨rfl, hlast⟩ := List.append_inj' hevents rfl
      exact .inl ⟨List.singleton_inj.mp hlast, hnumber⟩
    · rw [List.concat_eq_append, ← List.cons_append, ← List.append_assoc] at hevents
      obtain ⟨rfl, hlast⟩ := List.append_inj' hevents rfl
      rw [List.concat_eq_append, List.mem_append, not_or, List.mem_singleton] at hafter
      refine .inr ⟨⟨before, after, rfl, hnumber, hafter.1⟩, ?_⟩
      rw [List.singleton_inj.mp hlast]
      exact Ne.symm hafter.2
  · rintro (⟨rfl, hnumber⟩ | ⟨⟨before, after, rfl, hnumber, hafter⟩, hevent⟩)
    · exact ⟨events, [], rfl, hnumber, List.not_mem_nil⟩
    · refine ⟨before, after ++ [event], by simp, hnumber, ?_⟩
      rw [List.mem_append, not_or, List.mem_singleton]
      exact ⟨hafter, Ne.symm hevent⟩

/-- A gate after some events: its guards are numbered as they were taken, and it counts those that
are live. -/
structure PauseGate.Tracks (g : PauseGate) (events : List Event) : Prop where
  length_eq : g.guards.length = events.countP Event.isPause
  live_iff : ∀ number, g.guards[number]? = some ⟨true, true⟩ ↔ LiveGuard events number
  count_eq : g.count = g.guards.countP fun guard => guard.active && guard.held

namespace PauseGate.Tracks

variable {g : PauseGate} {events : List Event}

theorem initial : PauseGate.initial.Tracks [] where
  length_eq := rfl
  live_iff number := by simp [PauseGate.initial, LiveGuard]
  count_eq := rfl

theorem pause (h : g.Tracks events) (requested : Bool) :
    (g.take requested).2.Tracks (events ++ [.pause requested]) := by
  have hguards : (g.take requested).2.guards = g.guards ++ [⟨requested, true⟩] := by
    cases requested <;> rfl
  refine ⟨?_, fun number => ?_, ?_⟩
  · rw [hguards, List.length_append, h.length_eq, List.countP_append]
    rfl
  -- The new guard has the next number, so no guard taken before is mistaken for it.
  · rw [hguards, liveGuard_concat, ← h.live_iff, ← h.length_eq, List.getElem?_append]
    split
    next hlt =>
      have hne : g.guards.length ≠ number := Nat.ne_of_gt hlt
      simp [hne]
    next hlt =>
      rw [List.getElem?_eq_none (Nat.le_of_not_lt hlt)]
      by_cases heq : g.guards.length = number
      · simp [heq]
      · have hpos : number - g.guards.length ≠ 0 := by omega
        cases hindex : number - g.guards.length with
        | zero => exact absurd hindex hpos
        | succ i => simp [heq]
  · rw [hguards, List.countP_append, ← h.count_eq]
    cases requested <;> rfl

theorem unpause (h : g.Tracks events) (number : Nat) :
    (g.handle (.unpause number)).2.Tracks (events ++ [Event.unpause number]) := by
  have hlength : (events ++ [Event.unpause number]).countP Event.isPause =
      events.countP Event.isPause := by
    rw [List.countP_append]
    rfl
  -- Of the other guards the same ones are live, and this one is not live any more.
  have hlive : ∀ guards : List Guard, (∀ i, i ≠ number → guards[i]? = g.guards[i]?) →
      guards[number]? ≠ some ⟨true, true⟩ →
      ∀ i, guards[i]? = some ⟨true, true⟩ ↔ LiveGuard (events ++ [Event.unpause number]) i := by
    intro guards hother hthis i
    rw [liveGuard_concat, ← h.live_iff]
    by_cases hi : i = number
    · simp [hi, hthis]
    · simp [hother i hi, Ne.symm hi]
  have hsame (hthis : g.guards[number]? ≠ some ⟨true, true⟩) :
      g.Tracks (events ++ [Event.unpause number]) :=
    ⟨h.length_eq.trans hlength.symm, hlive _ (fun _ _ => rfl) hthis, h.count_eq⟩
  simp only [handle, drop?]
  cases hguard : g.guards[number]? with
  | none => exact hsame (by simp [hguard])
  | some guard =>
    obtain ⟨hlt, hget⟩ := List.getElem?_eq_some_iff.mp hguard
    obtain ⟨active, held⟩ := guard
    have hlength' : (g.guards.set number ⟨active, false⟩).length =
        (events ++ [Event.unpause number]).countP Event.isPause := by
      rw [List.length_set, h.length_eq, hlength]
    have hlive' := hlive (g.guards.set number ⟨active, false⟩)
      (fun i hi => List.getElem?_set_ne (Ne.symm hi)) (by simp [List.getElem?_set_self hlt])
    have hcount := List.countP_set (p := fun guard : Guard => guard.active && guard.held)
      (a := ⟨active, false⟩) hlt
    rw [hget, ← h.count_eq] at hcount
    cases held with
    | false => exact hsame (by simp [hguard])
    | true =>
      cases active with
      | false => exact ⟨hlength', hlive', hcount.symm⟩
      | true => exact ⟨hlength', hlive', hcount.symm⟩

theorem concat (h : g.Tracks events) (event : Event) :
    (g.handle event).2.Tracks (events ++ [event]) := by
  cases event with
  | pause requested => exact h.pause requested
  | unpause number => exact h.unpause number
  | _ =>
    refine ⟨?_, fun number => ?_, h.count_eq⟩
    · rw [List.countP_append]
      exact h.length_eq
    · rw [liveGuard_concat, ← h.live_iff]
      simp [handle]

/-- A batch may start exactly when no guard is live. -/
theorem grantsSlot_iff (h : g.Tracks events) :
    g.grantsSlot = true ↔ ∀ number, ¬LiveGuard events number := by
  rw [grantsSlot, decide_eq_true_iff, h.count_eq, List.countP_eq_zero]
  constructor
  · intro hall number hlive
    have hmem := List.mem_of_getElem? ((h.live_iff number).mpr hlive)
    exact hall _ hmem rfl
  · rintro hnone ⟨active, held⟩ hmem hboth
    obtain ⟨number, hnumber⟩ := List.getElem?_of_mem hmem
    obtain ⟨rfl, rfl⟩ : active = true ∧ held = true := by simpa using hboth
    exact hnone number ((h.live_iff number).mp hnumber)

end PauseGate.Tracks

namespace Verifier

variable {replies : Replies} {config : Config} {v₀ v w : Verifier} {event : Event}
  {events : List Event} {response : Response} {responses : List Response}

theorem Run.tracks (hnew : Verifier.new config = .ok v₀) (h : v₀.Run replies events responses v) :
    v.gate.Tracks events := by
  induction h with
  | nil =>
    rw [eq_of_new hnew]
    exact .initial
  | concat _ _ hhandle ih =>
    rw [(cache_and_gate_eq hhandle).2]
    exact ih.concat _

/-! ## While batches are held off -/

/-- A start changes nothing. -/
theorem handle?_start_of_paused (hcycle : v.cycle = none) (hslot : v.gate.grantsSlot = false)
    (force : Bool) (now : Instant) :
    v.handle? (.start force now) =
      some (.stepped [] (.finished
        (if !force && !v.shouldStart now then .notTriggered else .paused)), v) := by
  rw [handle?_start hcycle, hslot]
  split <;> rfl

theorem cycle_eq_none_of_start {force : Bool} {now : Instant}
    (h : v.handle? (.start force now) = some (response, w)) : v.cycle = none := by
  cases hcycle : v.cycle with
  | none => rfl
  | some cycle => simp [handle?, start?, hcycle] at h

/-- Nothing is put into flight. -/
theorem inFlight_of_paused (h : v.handle? event = some (response, w))
    (hslot : v.gate.grantsSlot = false) : w.queue.inFlight.RemainsOf v.queue.inFlight := by
  rcases (step_of_handle? h).inFlight with hremains | ⟨hstart, -⟩
  · exact hremains
  · cases event with
    | start force now =>
      rw [handle?_start_of_paused (cycle_eq_none_of_start h) hslot] at h
      cases h
      exact .refl _
    | _ => cases hstart

end Verifier

/-! ## Runs without guards -/

/-- A guard is taken or dropped, or a start is held off. -/
def Transition.isHindrance (t : Transition) : Bool :=
  t.event.isGuard || t.event.isStart && t.response == .stepped [] (.finished .paused)

namespace Verifier

variable {config : Config} {v₀ v w : Verifier} {event : Event} {events : List Event}
  {response : Response} {responses : List Response} {gate : PauseGate}

/-- The transitions of a run that have nothing to do with guards. -/
def unhindered (v : Verifier) (events : List Event) : List Transition :=
  (v.trace events).filter fun t => !t.isHindrance

theorem published_startBatch_ne_nil (v : Verifier) : v.startBatch.published ≠ [] := by
  rw [startBatch]
  split <;> exact List.cons_ne_nil _ _

/-- A start that may start a batch does not answer that batches are held off. -/
theorem ne_paused_of_grantsSlot {force : Bool} {now : Instant}
    (h : v.handle? (.start force now) = some (response, w)) (hslot : v.gate.grantsSlot = true) :
    response ≠ .stepped [] (.finished .paused) := by
  rw [handle?_start (cycle_eq_none_of_start h), hslot, Bool.not_true,
    if_neg Bool.false_ne_true] at h
  split at h
  · cases h
    decide
  · cases h
    exact fun hpaused => published_startBatch_ne_nil v (Response.stepped.inj hpaused).1

/-- A start that is held off changes nothing; any other one does the same where nothing is held
off. -/
theorem handle?_start_unhindered {force : Bool} {now : Instant}
    (h : v.handle? (.start force now) = some (response, w)) (hslot : gate.grantsSlot = true) :
    response = .stepped [] (.finished .paused) ∧ w = v ∨
      response ≠ .stepped [] (.finished .paused) ∧
        (v.replace v.cache gate).handle? (.start force now) =
          some (response, w.replace w.cache gate) := by
  have hcycle := cycle_eq_none_of_start h
  have hcycle' : (v.replace v.cache gate).cycle = none := hcycle
  cases hold : v.gate.grantsSlot with
  | true =>
    refine .inr ⟨ne_paused_of_grantsSlot h hold, ?_⟩
    rw [handle?_start_replace rfl (hslot.trans hold.symm), h, (cache_and_gate_eq h).1]
    rfl
  | false =>
    rw [handle?_start_of_paused hcycle hold] at h
    cases h
    rw [handle?_start hcycle',
      show (v.replace v.cache gate).shouldStart now = v.shouldStart now from rfl]
    split
    · exact .inr ⟨by decide, rfl⟩
    · exact .inl ⟨rfl, rfl⟩

/-- Where nothing is held off, an event does what it does in the presence of guards, unless guards
are all it is about. -/
theorem handle?_unhindered (h : v.handle? event = some (response, w))
    (hslot : gate.grantsSlot = true ∨ event.isStart = false) :
    Transition.isHindrance ⟨v, event, response, w⟩ = true ∧
        w.replace w.cache gate = v.replace v.cache gate ∨
      Transition.isHindrance ⟨v, event, response, w⟩ = false ∧
        (v.replace v.cache gate).handle? event = some (response, w.replace w.cache gate) := by
  cases hguard : event.isGuard with
  | true =>
    rw [handle?_of_isGuard hguard] at h
    cases h
    exact .inl ⟨by rw [Transition.isHindrance, hguard, Bool.true_or], rfl⟩
  | false =>
    cases hstart : event.isStart with
    | false =>
      refine .inr ⟨by simp [Transition.isHindrance, hguard, hstart], ?_⟩
      rw [v.handle?_replace v.cache gate hstart hguard, h, Option.map_some, (cache_and_gate_eq h).1]
    | true =>
      have hgate : gate.grantsSlot = true := hslot.resolve_right (by simp [hstart])
      cases event with
      | start force now =>
        rcases handle?_start_unhindered h hgate with ⟨rfl, rfl⟩ | ⟨hpaused, hhandle⟩
        · exact .inl ⟨rfl, rfl⟩
        · exact .inr ⟨by simp [Transition.isHindrance, Event.isGuard, hpaused], hhandle⟩
      | _ => cases hstart

/-- Without guards, and without the starts they hold off, a run goes on as it does with them. -/
theorem run?_unhindered (hrun : v.run? events = some (responses, w))
    (hslot : gate.grantsSlot = true ∨ ∀ e ∈ events, e.isStart = false) :
    (v.replace v.cache gate).run? ((v.unhindered events).map (·.event)) =
      some ((v.unhindered events).map (·.response), w.replace w.cache gate) := by
  -- The two runs keep in step, a hindrance being a step of the one that is no step of the other;
  -- they differ in the gate, and after every event only there.
  induction events generalizing v responses with
  | nil =>
    cases hrun
    rfl
  | cons event rest ih =>
    obtain ⟨response, u, responses, hhandle, hrest, rfl⟩ := run?_cons hrun
    have hslot' : gate.grantsSlot = true ∨ ∀ e ∈ rest, e.isStart = false :=
      hslot.imp_right fun h e he => h e (List.mem_cons_of_mem _ he)
    have hevent : gate.grantsSlot = true ∨ event.isStart = false :=
      hslot.imp_right fun h => h event List.mem_cons_self
    rw [unhindered, trace, hhandle]
    rcases handle?_unhindered hhandle hevent with ⟨hhindrance, hsame⟩ | ⟨hhindrance, hhandle'⟩
    · rw [List.filter_cons_of_neg (by simp [hhindrance]), ← hsame]
      exact ih hrest hslot'
    · rw [List.filter_cons_of_pos (by simp [hhindrance])]
      exact run?_cons_eq hhandle' (ih hrest hslot')

/-! ## Starts that are not held off -/

theorem queue_startBatch (v : Verifier) :
    v.startBatch.verifier.queue = ⟨.empty, v.queue.inFlight.absorb v.kept⟩ := by
  rw [startBatch]
  split <;> rfl

theorem handle?_start_forced (hcycle : v.cycle = none) (hslot : v.gate.grantsSlot = true)
    (now : Instant) : v.handle? (.start true now) = some (stepped v.startBatch) := by
  rw [handle?_start hcycle, hslot]
  rfl

theorem request?_kept (v : Verifier) (id : RequestId) :
    v.kept.request? id =
      if v.cached? id.parent = none then v.queue.pending.requests.request? id else none := by
  rw [kept_eq_filter, RequestSet.request?_filter]
  simp only [cached?, ← Cache.contains_eq_false_iff]
  cases v.cache.contains id.parent <;> rfl

/-- A request is handed off: it is in flight and not pending any more, and is being verified. -/
structure HandedOff (w : Verifier) (r : Request) : Prop where
  pending : w.queue.pending.requests.request? r.id = none
  inFlight : w.queue.inFlight.request? r.id = some r
  verified : ∃ cycle requests, w.cycle = some cycle ∧ cycle.verified = requests.length ∧
    cycle.stage = .verifying (BatchVerification.verify .strict requests) ∧ r ∈ requests

/-- A start that is not held off hands off what is pending without a cached verdict. -/
theorem handedOff_startBatch (hpending : v.queue.pending.requests.Keyed) {r : Request}
    (hr : r ∈ v.queue.pending.requests.requests) (hcached : v.cached? r.id.parent = none) :
    v.startBatch.verifier.HandedOff r := by
  have hkeyed : v.kept.Keyed := (kept_remainsOf v).keyed hpending
  have hkept : v.kept.request? r.id = some r := by
    rw [request?_kept, if_pos hcached]
    exact hpending.request?_eq_some_iff.mpr ⟨hr, rfl⟩
  have hmem : r ∈ v.kept.requests := (hkeyed.request?_eq_some_iff.mp hkept).1
  refine ⟨?_, ?_, ?_⟩
  · rw [queue_startBatch]
    exact RequestSet.request?_empty r.id
  · rw [queue_startBatch]
    exact (RequestSet.request?_absorb _ _ _).trans (by rw [hkept, Option.some_or])
  · have hne : ¬v.kept.requests.isEmpty = true :=
      fun hnil => List.ne_nil_of_mem hmem (List.isEmpty_iff.mp hnil)
    rw [startBatch, if_neg hne]
    exact ⟨_, v.kept.requests, rfl, rfl, rfl, hmem⟩

/-- What is pending with a cached verdict goes, but not into flight. -/
theorem purged_startBatch {id : RequestId} (hcached : v.cached? id.parent ≠ none) :
    v.startBatch.verifier.queue.pending.requests.request? id = none ∧
      v.startBatch.verifier.queue.inFlight.request? id = v.queue.inFlight.request? id := by
  rw [queue_startBatch]
  refine ⟨RequestSet.request?_empty id, (RequestSet.request?_absorb _ _ _).trans ?_⟩
  rw [request?_kept, if_neg hcached, Option.none_or]

/-! ## What guards do -/

/-- As long as a guard is live, a start answers that batches are held off or that none was due, and
changes nothing, and no request is put into flight. Nothing else is held off: without the guards,
and without the starts they hold off, everything goes on as it does with them, with the same calls,
notices and verdicts, also in the middle of a cycle. And when no guard is live, a forced start hands
off all that is pending, apart from the objects whose verdict is cached, which it purges. -/
theorem guards_hold_off_starts (hnew : Verifier.new config = .ok v₀)
    (hrun : v₀.run? events = some (responses, v)) :
    (∀ number, LiveGuard events number → v.cycle = none → ∀ force now,
      v.handle? (.start force now) =
        some (.stepped [] (.finished
          (if !force && !v.shouldStart now then .notTriggered else .paused)), v)) ∧
    (∀ number, LiveGuard events number → ∀ event response w,
      v.handle? event = some (response, w) →
      ∀ id r, w.queue.inFlight.request? id = some r → v.queue.inFlight.request? id = some r) ∧
    (∀ during responses' w, v.run? during = some (responses', w) →
      (∀ number, ¬LiveGuard events number) ∨ (∀ e ∈ during, e.isStart = false) →
      v.run? ((v.unhindered during).map (·.event)) =
        some ((v.unhindered during).map (·.response), { w with gate := v.gate })) ∧
    ((∀ number, ¬LiveGuard events number) → v.cycle = none → ∀ now, ∃ response w,
      v.handle? (.start true now) = some (response, w) ∧
      ∀ r ∈ v.queue.pending.requests.requests,
        (v.cached? r.id.parent = none → w.HandedOff r) ∧
        (v.cached? r.id.parent ≠ none →
          w.queue.pending.requests.request? r.id = none ∧
            w.queue.inFlight.request? r.id = v.queue.inFlight.request? r.id)) := by
  have htracks := (run_free hrun).tracks hnew
  have hpaused {number : Nat} (hlive : LiveGuard events number) : v.gate.grantsSlot = false := by
    rw [Bool.eq_false_iff, Ne, htracks.grantsSlot_iff]
    exact fun hnone => hnone number hlive
  refine ⟨?_, ?_, ?_, ?_⟩
  · intro number hlive hcycle force now
    exact handle?_start_of_paused hcycle (hpaused hlive) force now
  · intro number hlive event response w hhandle id r hr
    have hkeyed := ((run_free hrun).known hnew).2.keyed
    have hremains := inFlight_of_paused hhandle (hpaused hlive)
    obtain ⟨hmem, hid⟩ := (hremains.keyed hkeyed).request?_eq_some_iff.mp hr
    exact hkeyed.request?_eq_some_iff.mpr ⟨hremains.mem_requests hmem, hid⟩
  · intro during responses' w hduring hslot
    have hcache : w.replace w.cache v.gate = { w with gate := v.gate } := rfl
    rw [← hcache]
    exact run?_unhindered hduring (hslot.imp_left htracks.grantsSlot_iff.mpr)
  · intro hnone hcycle now
    have hpending := ((run_free hrun).known hnew).1.keyed
    have hslot := htracks.grantsSlot_iff.mpr hnone
    refine ⟨_, _, handle?_start_forced hcycle hslot now, fun r hr => ?_⟩
    exact ⟨handedOff_startBatch hpending hr, purged_startBatch⟩

/-- A certificate is handed off. -/
def handOffOne : List Event :=
  [.enqueueCertificate (.ofKey ⟨[]⟩) (.ofQuality 0) none 0, .start true 0]

/-- While a certificate is verified, a guard is taken and another certificate enqueued, for which a
start comes after the end of the cycle. -/
def guardedEnd : List Event :=
  [.pause true, .enqueueCertificate (.ofKey ⟨[]⟩) (.ofQuality 1) none 1,
    .replyBatch (some (.ok ⟨true, []⟩)), .take, .delivered (some 1), .start true 1]

/-- The cycle goes on to its end as without the guard, but the start and any other one are held off.
When the guard is dropped, a forced start hands off the certificate that is pending. -/
theorem guards_hold_off_starts_verifying :
    ∃ (v₀ u v x w : Verifier) (responses responses' : List Response) (signal response : Response)
      (r : Request), Verifier.new .default = .ok v₀ ∧
      v₀.run? handOffOne = some (responses, u) ∧ (∀ number, ¬LiveGuard handOffOne number) ∧
      u.run? guardedEnd = some (responses', v) ∧ (u.unhindered guardedEnd).length = 4 ∧
      u.run? ((u.unhindered guardedEnd).map (·.event)) =
        some ((u.unhindered guardedEnd).map (·.response), { v with gate := u.gate }) ∧
      LiveGuard (handOffOne ++ guardedEnd) 0 ∧ v.cycle = none ∧
      v.handle? (.start true 2) = some (.stepped [] (.finished .paused), v) ∧
      (∀ event response w, v.handle? event = some (response, w) →
        ∀ id r, w.queue.inFlight.request? id = some r → v.queue.inFlight.request? id = some r) ∧
      v.handle? (.unpause 0) = some (signal, x) ∧
      (∀ number, ¬LiveGuard (handOffOne ++ guardedEnd ++ [.unpause 0]) number) ∧
      r ∈ x.queue.pending.requests.requests ∧ x.cached? r.id.parent = none ∧
      x.handle? (.start true 3) = some (response, w) ∧ w.HandedOff r := by
  obtain ⟨v₀, hnew⟩ : ∃ v₀, Verifier.new .default = .ok v₀ := ⟨_, rfl⟩
  have hend : ((v₀.run? handOffOne).bind fun run => (run.2.run? guardedEnd).bind fun run' =>
      (run'.2.handle? (.unpause 0)).map fun last =>
        ((run.2.gate.grantsSlot, (run.2.unhindered guardedEnd).length, run'.2.cycle.isNone),
          last.2.gate.grantsSlot, last.2.cycle.isNone,
          last.2.queue.pending.requests.requests.map
            fun r => (last.2.cached? r.id.parent).isNone)) =
      some ((true, 4, true), true, true, [true]) := by
    cases hnew
    decide +kernel
  obtain ⟨⟨responses, u⟩, hrun, hend⟩ := Option.bind_eq_some_iff.mp hend
  obtain ⟨⟨responses', v⟩, hguarded, hend⟩ := Option.bind_eq_some_iff.mp hend
  obtain ⟨⟨signal, x⟩, hdrop, hend⟩ := Option.map_eq_some_iff.mp hend
  simp only [Prod.mk.injEq] at hend
  obtain ⟨⟨hslot, hlength, hcycle⟩, hslot', hcycle', hpending⟩ := hend
  obtain ⟨r, hr, huncached⟩ := List.map_eq_singleton_iff.mp hpending
  have hrun' := run?_append hrun hguarded
  have hrun'' := run?_concat hrun' hdrop
  have hlive : LiveGuard (handOffOne ++ guardedEnd) 0 :=
    ⟨handOffOne, guardedEnd.tail, rfl, rfl, by simp [guardedEnd]⟩
  have hnone := ((run_free hrun).tracks hnew).grantsSlot_iff.mp hslot
  have hnone' := ((run_free hrun'').tracks hnew).grantsSlot_iff.mp hslot'
  obtain ⟨-, -, hunhindered, -⟩ := guards_hold_off_starts hnew hrun
  obtain ⟨hstart, hflight, -, -⟩ := guards_hold_off_starts hnew hrun'
  obtain ⟨-, -, -, hforced⟩ := guards_hold_off_starts hnew hrun''
  obtain ⟨response, w, hhandle, hhandedOff⟩ :=
    hforced hnone' (Option.isNone_iff_eq_none.mp hcycle') 3
  have hmem : r ∈ x.queue.pending.requests.requests := by simp [hr]
  have huncached : x.cached? r.id.parent = none := Option.isNone_iff_eq_none.mp huncached
  have hcycle := Option.isNone_iff_eq_none.mp hcycle
  exact ⟨v₀, u, v, x, w, responses, responses', signal, response, r, hnew, hrun, hnone, hguarded,
    hlength, hunhindered _ _ _ hguarded (.inl hnone), hlive, hcycle, hstart 0 hlive hcycle true 2,
    hflight 0 hlive, hdrop, hnone', hmem, huncached, hhandle, (hhandedOff r hmem).1 huncached⟩

/-- The blank certificate is verified, and enqueued again; a guard is taken and dropped. -/
def reenqueueCached : List Event :=
  Event.verifyBlank ⟨[]⟩ ++
    [.delivered (some 0), .enqueueCertificate (.ofKey ⟨[]⟩) .blank none 1, .pause true,
      .start true 1, .unpause 0]

/-- Though no guard is live any more, a forced start does not hand off a certificate whose verdict
is cached. -/
theorem start_purges_cached :
    ∃ v₀ responses v r response w, Verifier.new .default = .ok v₀ ∧
      v₀.run? reenqueueCached = some (responses, v) ∧
      (∀ number, ¬LiveGuard reenqueueCached number) ∧ v.cycle = none ∧
      r ∈ v.queue.pending.requests.requests ∧
      v.handle? (.start true 2) = some (response, w) ∧
      response = .stepped [.draining, .idle] (.finished (.completed 1 0 0)) ∧
      r ∉ w.queue.inFlight.requests := by
  obtain ⟨v₀, hnew⟩ : ∃ v₀, Verifier.new .default = .ok v₀ := ⟨_, rfl⟩
  have hend : ((v₀.run? reenqueueCached).bind fun run =>
      (run.2.handle? (.start true 2)).map fun last =>
        (run.2.gate.grantsSlot, run.2.cycle.isNone, run.2.queue.pending.requests.requests.length,
          last.1, last.2.queue.inFlight.requests)) =
      some (true, true, 1, .stepped [.draining, .idle] (.finished (.completed 1 0 0)), []) := by
    cases hnew
    decide +kernel
  obtain ⟨⟨responses, v⟩, hrun, hend⟩ := Option.bind_eq_some_iff.mp hend
  obtain ⟨⟨response, w⟩, hhandle, hend⟩ := Option.map_eq_some_iff.mp hend
  simp only [Prod.mk.injEq] at hend
  obtain ⟨hslot, hcycle, hlength, hresponse, hflight⟩ := hend
  obtain ⟨r, hr⟩ := List.length_eq_one_iff.mp hlength
  refine ⟨v₀, responses, v, r, response, w, hnew, hrun, ?_, Option.isNone_iff_eq_none.mp hcycle,
    by simp [hr], hhandle, hresponse, by simp [hflight]⟩
  exact ((run_free hrun).tracks hnew).grantsSlot_iff.mp hslot

end Verifier

end SidechainVerifier
