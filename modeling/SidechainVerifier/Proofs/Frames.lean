/-
SidechainVerifier.Proofs.Frames — what an event has to do with the cache and
with the gate.

Two verifiers that differ in nothing but cache and gate respond to an event
alike, unless it takes or drops a guard, and each is left with a cache and a
gate that depend on its own (`Verifier.handle?_replace`). A start looks no
further than at which hashes are cached and at whether a batch may start
(`Verifier.handle?_start_replace`). Guards concern the gate alone
(`Verifier.handle?_of_isGuard`).
-/
import SidechainVerifier.Proofs.Steps

namespace SidechainVerifier

/-! ## Guards -/

namespace Event

/-- Whether a guard is taken. -/
def isPause : Event → Bool
  | .pause _ => true
  | _ => false

/-- Whether a guard is taken or dropped. -/
def isGuard : Event → Bool
  | .pause _ | .unpause _ => true
  | _ => false

end Event

/-- What becomes of the gate at an event, and the response if a guard is taken or dropped. -/
def PauseGate.handle (g : PauseGate) : Event → Response × PauseGate
  | .pause requested => (.signalled (g.take requested).1, (g.take requested).2)
  | .unpause guard =>
    match g.drop? guard with
    | some (signal, gate) => (.signalled signal, gate)
    | none => (.found false, g)
  | _ => (.done, g)

theorem PauseGate.handle_of_not_isGuard {event : Event} (h : event.isGuard = false)
    (g : PauseGate) : (g.handle event).2 = g := by
  cases event with
  | pause requested => cases h
  | unpause guard => cases h
  | _ => rfl

namespace Verifier

variable {v w : Verifier} {event : Event} {response : Response}

theorem handle?_of_isGuard (h : event.isGuard = true) (v : Verifier) :
    v.handle? event =
      some ((v.gate.handle event).1, { v with gate := (v.gate.handle event).2 }) := by
  cases event with
  | pause requested => rfl
  | unpause guard =>
    simp only [handle?, unpause?, PauseGate.handle]
    cases v.gate.drop? guard <;> rfl
  | _ => cases h

/-! ## Another cache and another gate -/

/-- The verifier with another cache and another gate. -/
def replace (v : Verifier) (cache : Cache Hash CachedVerdict) (gate : PauseGate) : Verifier :=
  { v with cache := cache, gate := gate }

/-- What becomes of a cache at an event: a reset clears it, and the verdict is inserted when the
listener has returned from a notice. -/
def cacheAfter (v : Verifier) (cache : Cache Hash CachedVerdict) :
    Event → Cache Hash CachedVerdict
  | .reset => cache.clear
  | .delivered (some timestamp) =>
    match v.cycle.map Cycle.stage with
    | some (.dispatching _ current _) =>
      (cache.insert current.hash ⟨timestamp, current.verdict⟩).2
    | _ => cache
  | _ => cache

/-- Every cache is left alone, or cleared, or given the same entry. -/
theorem cacheAfter_cases (v : Verifier) (event : Event) :
    (∀ cache, v.cacheAfter cache event = cache) ∨
      event = .reset ∧ (∀ cache, v.cacheAfter cache event = cache.clear) ∨
      ∃ hash timestamp verdict, event = .delivered (some timestamp) ∧
        ∀ cache, v.cacheAfter cache event = (cache.insert hash ⟨timestamp, verdict⟩).2 := by
  cases event with
  | reset => exact .inr (.inl ⟨rfl, fun _ => rfl⟩)
  | delivered timestamp =>
    cases timestamp with
    | none => exact .inl fun _ => rfl
    | some timestamp =>
      simp only [cacheAfter]
      split
      next current _ _ =>
        exact .inr (.inr ⟨current.hash, timestamp, current.verdict, rfl, fun _ => rfl⟩)
      next => exact .inl fun _ => rfl
  | _ => exact .inl fun _ => rfl

section

variable (v : Verifier) (cache : Cache Hash CachedVerdict) (gate : PauseGate)

theorem stepped_consult_replace (cycle : Cycle) (work : Consultation Results) :
    stepped ((v.replace cache gate).consult cycle work) =
      ((stepped (v.consult cycle work)).1,
        (stepped (v.consult cycle work)).2.replace cache gate) := by
  cases work <;> rfl

theorem stepped_dispatch_replace (published : List DriverState) (cycle : Cycle) (dispatched : Nat)
    (deliveries : List Delivery) :
    stepped ((v.replace cache gate).dispatch published cycle dispatched deliveries) =
      ((stepped (v.dispatch published cycle dispatched deliveries)).1,
        (stepped (v.dispatch published cycle dispatched deliveries)).2.replace cache gate) := by
  cases deliveries <;> rfl

theorem handle?_replace_delivered (timestamp : Option Int) :
    (v.replace cache gate).handle? (.delivered timestamp) =
      (v.handle? (.delivered timestamp)).map fun p =>
        (p.1, p.2.replace (v.cacheAfter cache (.delivered timestamp)) gate) := by
  simp only [handle?, delivered?]
  show Option.map stepped (v.cycle.bind _) = _
  cases hcycle : v.cycle with
  | none => rfl
  | some cycle =>
    simp only [Option.bind_some]
    cases hstage : cycle.stage with
    | verifying work => rfl
    | dispatching dispatched current rest =>
      cases timestamp with
      | none => rfl
      | some timestamp =>
        simp only [cacheAfter, hcycle, Option.map_some, hstage]
        exact congrArg some (stepped_dispatch_replace (v.record current timestamp)
          (cache.insert current.hash ⟨timestamp, current.verdict⟩).2 gate [] cycle (dispatched + 1)
          rest)

/-- Nothing but a start and the guards depends on cache and gate. -/
theorem handle?_replace (hstart : event.isStart = false) (hguard : event.isGuard = false) :
    (v.replace cache gate).handle? event =
      (v.handle? event).map fun p => (p.1, p.2.replace (v.cacheAfter cache event) gate) := by
  cases event with
  | enqueueCertificate view certificate origin now =>
    simp only [handle?, enqueueCertificate]
    cases certificate.request view origin <;> rfl
  | enqueueTransaction view transaction origin now =>
    simp only [handle?, enqueueTransaction]
    cases transaction.requests view origin <;> rfl
  | discardAll => rfl
  | discard hash => rfl
  | pause requested => cases hguard
  | unpause guard => cases hguard
  | resetStats => rfl
  | reset =>
    obtain ⟨_, _, _, _, _, _, cycle⟩ := v
    cases cycle <;> rfl
  | start force now => cases hstart
  | replyBatch reply =>
    simp only [handle?, replyBatch?, Option.map_bind, Function.comp_def]
    refine congrArg v.cycle.bind (funext fun cycle => ?_)
    split
    · exact congrArg some (v.stepped_consult_replace cache gate cycle _)
    · rfl
  | replySingle reply =>
    simp only [handle?, replySingle?, Option.map_bind, Function.comp_def]
    refine congrArg v.cycle.bind (funext fun cycle => ?_)
    split
    · exact congrArg some (v.stepped_consult_replace cache gate cycle _)
    · rfl
  | take =>
    simp only [handle?, take?, Option.map_bind, Function.comp_def]
    refine congrArg v.cycle.bind (funext fun cycle => ?_)
    split
    · exact congrArg some
        (stepped_dispatch_replace { v with queue := v.queue.take.2 } cache gate _ cycle 0 _)
    · rfl
  | delivered timestamp => exact v.handle?_replace_delivered cache gate timestamp

end

/-! ## Starts -/

/-- The number of objects that a start purges. -/
def purgedCount (v : Verifier) : Nat := (v.queue.pending.purge v.cache.contains).1

/-- The step of a start that is not held off. -/
def startBatch (v : Verifier) : CycleStep :=
  if v.kept.requests.isEmpty then
    v.drained.finish [.draining, .idle] (.completed v.purgedCount 0 0)
  else
    v.drained.await [.draining, .verifying]
      ⟨v.purgedCount, v.kept.requests.length,
        .verifying (BatchVerification.verify .strict v.kept.requests)⟩

theorem handle?_start (hcycle : v.cycle = none) (force : Bool) (now : Instant) :
    v.handle? (.start force now) =
      some (if !force && !v.shouldStart now then (.stepped [] (.finished .notTriggered), v)
        else if !v.gate.grantsSlot then (.stepped [] (.finished .paused), v)
        else stepped v.startBatch) := by
  simp only [handle?, start?, hcycle, finish_eq hcycle]
  split
  · rfl
  · split
    · rfl
    · show Option.map stepped (if v.kept.requests.isEmpty then some _ else some _) = _
      rw [startBatch]
      split <;> rfl

/-- A start only asks which hashes are cached and whether a batch may start. -/
theorem handle?_start_replace {cache : Cache Hash CachedVerdict} {gate : PauseGate}
    (hcontains : cache.contains = v.cache.contains) (hslot : gate.grantsSlot = v.gate.grantsSlot)
    (force : Bool) (now : Instant) :
    (v.replace cache gate).handle? (.start force now) =
      (v.handle? (.start force now)).map fun p => (p.1, p.2.replace cache gate) := by
  cases hcycle : v.cycle with
  | some cycle =>
    have hcycle' : (v.replace cache gate).cycle = some cycle := hcycle
    simp only [handle?, start?, hcycle, hcycle', Option.map_none]
  | none =>
    have hcycle' : (v.replace cache gate).cycle = none := hcycle
    have hpurge : (v.replace cache gate).queue.pending.purge (v.replace cache gate).cache.contains =
        v.queue.pending.purge v.cache.contains := by
      rw [← hcontains]
      rfl
    have hkept : (v.replace cache gate).kept = v.kept := by rw [kept, hpurge, kept]
    have hcount : (v.replace cache gate).purgedCount = v.purgedCount := by
      rw [purgedCount, hpurge, purgedCount]
    have hdrained : (v.replace cache gate).drained = v.drained.replace cache gate := by
      rw [drained, hkept, hpurge]
      rfl
    have hbatch : stepped (v.replace cache gate).startBatch =
        ((stepped v.startBatch).1, (stepped v.startBatch).2.replace cache gate) := by
      rw [startBatch, startBatch, hkept, hcount, hdrained]
      split <;> rfl
    rw [handle?_start hcycle, handle?_start hcycle', hbatch, Option.map_some,
      show (v.replace cache gate).gate.grantsSlot = v.gate.grantsSlot from hslot,
      show (v.replace cache gate).shouldStart now = v.shouldStart now from rfl]
    split
    · rfl
    · split <;> rfl

/-! ## Cache, gate and settings after an event -/

theorem cache_and_gate_eq (h : v.handle? event = some (response, w)) :
    w.cache = v.cacheAfter v.cache event ∧ w.gate = (v.gate.handle event).2 := by
  cases hguard : event.isGuard with
  | true =>
    rw [handle?_of_isGuard hguard] at h
    cases h
    cases event with
    | pause requested => exact ⟨rfl, rfl⟩
    | unpause guard => exact ⟨rfl, rfl⟩
    | _ => cases hguard
  | false =>
    rw [PauseGate.handle_of_not_isGuard hguard]
    -- Replacing cache and gate by themselves says what becomes of them.
    have hself : v.replace v.cache v.gate = v := rfl
    cases hstart : event.isStart with
    | true =>
      cases event with
      | start force now =>
        have hreplace := handle?_start_replace (v := v) rfl rfl force now
        rw [hself, h, Option.map_some] at hreplace
        have hw : w = w.replace v.cache v.gate := congrArg Prod.snd (Option.some.inj hreplace)
        rw [hw]
        exact ⟨rfl, rfl⟩
      | _ => cases hstart
    | false =>
      have hreplace := v.handle?_replace v.cache v.gate hstart hguard
      rw [hself, h, Option.map_some] at hreplace
      have hw : w = w.replace (v.cacheAfter v.cache event) v.gate :=
        congrArg Prod.snd (Option.some.inj hreplace)
      rw [hw]
      exact ⟨rfl, rfl⟩

/-- Another cache does not show, as long as the same hashes are in it. -/
theorem handle?_replace_cache {cache : Cache Hash CachedVerdict}
    (hcontains : cache.contains = v.cache.contains) (event : Event) :
    (v.replace cache v.gate).handle? event =
      (v.handle? event).map fun p => (p.1, p.2.replace (v.cacheAfter cache event) p.2.gate) := by
  cases hguard : event.isGuard with
  | true =>
    rw [handle?_of_isGuard hguard, handle?_of_isGuard hguard]
    cases event with
    | pause requested => rfl
    | unpause guard => rfl
    | _ => cases hguard
  | false =>
    have hreplace : (v.replace cache v.gate).handle? event =
        (v.handle? event).map fun p => (p.1, p.2.replace (v.cacheAfter cache event) v.gate) := by
      cases hstart : event.isStart with
      | false => exact v.handle?_replace cache v.gate hstart hguard
      | true =>
        cases event with
        | start force now => exact handle?_start_replace hcontains rfl force now
        | _ => cases hstart
    rw [hreplace]
    cases hhandle : v.handle? event with
    | none => rfl
    | some p =>
      have hgate : p.2.gate = v.gate := by
        rw [(cache_and_gate_eq hhandle).2, PauseGate.handle_of_not_isGuard hguard]
      rw [Option.map_some, Option.map_some, hgate]

theorem Step.config_eq (h : v.Step event response w) :
    w.config = v.config ∧ w.limits = v.limits := by
  cases h <;> exact ⟨rfl, rfl⟩

end Verifier

end SidechainVerifier
