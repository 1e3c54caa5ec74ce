/-
SidechainVerifier.Verifier — the verifier as a state machine.

A `Verifier` holds the queue, the result cache, the counters, the pause
gate, and the cycle in progress, if any. It calls nobody: a cycle stops
wherever it needs something from outside, `Verifier.awaited?` says what that
is, and the reply is handed in by the operation for it. Between two such
operations anything else may be done to the verifier; objects may be
enqueued, dropped from flight, guards be taken and dropped. Only `start?`
and `reset?` have to wait until no cycle is in progress.

The course of a cycle: pending objects whose verdict is cached are purged,
the rest moves into flight; the backend is consulted; the batch is taken out
of flight; each verdict is delivered to the listener, then cached, then
counted. A call that is torn down ends the cycle where it stands, and
nothing is undone.
-/
import SidechainVerifier.Cache
import SidechainVerifier.Config
import SidechainVerifier.Delivery
import SidechainVerifier.Extraction
import SidechainVerifier.PauseGate

namespace SidechainVerifier

/-! ## State -/

/-- Where a cycle in progress stands. -/
inductive Stage where
  /-- The backend is being consulted; once that is done, the batch is to be taken out of flight. -/
  | verifying (work : Consultation Results)
  /-- The listener is being told of the first delivery. -/
  | dispatching (dispatched : Nat) (current : Delivery) (rest : List Delivery)

/-- A cycle in progress. -/
structure Cycle where
  /-- The number of certificates and transactions purged at its start. -/
  removed : Nat
  /-- The number of requests in its batch. -/
  verified : Nat
  stage : Stage

/-- The verifier's state. -/
structure Verifier where
  config : Config
  limits : Limits
  queue : Queue
  cache : Cache Hash CachedVerdict
  stats : Stats
  gate : PauseGate
  cycle : Option Cycle

namespace Verifier

/-- A verifier with nothing in it, if the settings are valid. -/
def new (config : Config) : Except VerifierError Verifier := do
  config.validate
  return {
    config := config
    limits := config.limits
    queue := .empty
    cache := .new config.cacheCapacity.toNat
    stats := .zero
    gate := .initial
    cycle := none }

/-! ## Producers and observers -/

/-- Enqueues a certificate, resolved against a view. -/
def enqueueCertificate (v : Verifier) (view : View) (certificate : Certificate)
    (origin : Option PeerId) (now : Instant) : Except VerifierError Verifier := do
  let request ← certificate.request view origin
  return { v with queue := v.queue.enqueueCertificate request now }

/-- Enqueues all withdrawals of a transaction, resolved against a view. -/
def enqueueTransaction (v : Verifier) (view : View) (transaction : Transaction)
    (origin : Option PeerId) (now : Instant) : Except VerifierError Verifier := do
  let requests ← transaction.requests view origin
  return { v with queue := v.queue.enqueueWithdrawals requests now }

/-- The cached verdict on a certificate or transaction. -/
def cached? (v : Verifier) (hash : Hash) : Option CachedVerdict := v.cache.get? hash

/-- Drops the whole batch in flight, and counts what was dropped. -/
def discardAll (v : Verifier) : Nat × Verifier :=
  let (count, queue) := v.queue.discardAll
  (count, { v with queue := queue, stats := v.stats.recordDiscarded count })

/-- Drops one certificate or transaction from flight, and says whether there was one. -/
def discard (v : Verifier) (hash : Hash) : Bool × Verifier :=
  let (found, queue) := v.queue.discard hash
  (found, { v with queue := queue, stats := if found then v.stats.recordDiscarded 1 else v.stats })

/-- Takes a guard that holds off new batches, if a pause is requested. -/
def pause (v : Verifier) (requested : Bool) : Option Signal × Verifier :=
  let (signal, gate) := v.gate.take requested
  (signal, { v with gate := gate })

/-- Drops a guard by its number; `none` if there is none to drop. -/
def unpause? (v : Verifier) (guard : Nat) : Option (Option Signal × Verifier) :=
  (v.gate.drop? guard).map fun (signal, gate) => (signal, { v with gate := gate })

/-- Sets the counters to zero. -/
def resetStats (v : Verifier) : Verifier := { v with stats := .zero }

/-- Forgets all requests, cached verdicts and counts; `none` while a cycle is in progress. -/
def reset? (v : Verifier) : Option Verifier :=
  match v.cycle with
  | some _ => none
  | none => some { v with queue := .empty, cache := v.cache.clear, stats := .zero }

end Verifier

/-! ## Cycles -/

/-- What a driver publishes about its cycles. -/
inductive DriverState where
  | idle
  | draining
  | verifying
  | dispatching
  | stopped
deriving DecidableEq

/-- What came of a cycle. -/
inductive CycleOutcome where
  /-- No limit was exceeded. -/
  | notTriggered
  /-- New batches are held off. -/
  | paused
  | completed (removed verified dispatched : Nat)
deriving DecidableEq

/-- What a cycle needs from outside. -/
inductive Awaited where
  /-- The reply to a batch call. -/
  | batch (call : BatchCall)
  /-- The reply to a single check. -/
  | single (check : Check)
  /-- Nothing but to be carried on: the batch is taken out of flight next. -/
  | take
  /-- The return of the listener from a notice. -/
  | delivery (notice : Notice)
deriving DecidableEq

/-- What a cycle in progress needs from outside. -/
def Cycle.awaited (cycle : Cycle) : Awaited :=
  match cycle.stage with
  | .verifying (.batch call _) => .batch call
  | .verifying (.single check _) => .single check
  | .verifying _ => .take
  | .dispatching _ current _ => .delivery current.notice

/-- How a step left the cycle. -/
inductive Progress where
  /-- The cycle goes on as soon as it has what it needs. -/
  | awaiting (need : Awaited)
  | finished (outcome : CycleOutcome)
  /-- A call was torn down, and the cycle with it. -/
  | torn
deriving DecidableEq

/-- A step of a cycle: the state after it, the states a driver publishes during it, in order, and
how it left the cycle. -/
structure CycleStep where
  verifier : Verifier
  published : List DriverState
  progress : Progress

namespace Verifier

/-- What the cycle in progress needs from outside. -/
def awaited? (v : Verifier) : Option Awaited := v.cycle.map Cycle.awaited

/-- Whether the pending requests exceed a limit, by number or by age. -/
def shouldStart (v : Verifier) (now : Instant) : Bool :=
  v.queue.pendingCount > 0 &&
    (v.queue.pendingCount > v.limits.maxSize ||
      (v.queue.oldestAge? now).any fun age => age > v.limits.maxDelay * 1000000)

/-- The step that ends the cycle in progress. -/
def finish (v : Verifier) (published : List DriverState) (outcome : CycleOutcome) : CycleStep :=
  ⟨{ v with cycle := none }, published, .finished outcome⟩

/-- The step that leaves the cycle in progress at a stage. -/
def await (v : Verifier) (published : List DriverState) (cycle : Cycle) : CycleStep :=
  ⟨{ v with cycle := some cycle }, published, .awaiting cycle.awaited⟩

/-- The step that ends the cycle in progress where it stands. -/
def tear (v : Verifier) : CycleStep := ⟨{ v with cycle := none }, [], .torn⟩

/-- Starts a cycle if a limit is exceeded or it is forced, but never while new batches are held off.
`none` while a cycle is in progress. -/
def start? (v : Verifier) (force : Bool) (now : Instant) : Option CycleStep :=
  match v.cycle with
  | some _ => none
  | none =>
    if !force && !v.shouldStart now then some (v.finish [] .notTriggered)
    else if !v.gate.grantsSlot then some (v.finish [] .paused)
    else
      let (drained, queue) := v.queue.drain v.cache.contains
      let v := { v with queue := queue, stats := v.stats.recordRemoved drained.removed }
      if drained.batch.isEmpty then
        some (v.finish [.draining, .idle] (.completed drained.removed 0 0))
      else
        some (v.await [.draining, .verifying]
          ⟨drained.removed, drained.batch.length,
            .verifying (BatchVerification.verify .strict drained.batch)⟩)

/-- Goes on with a consultation, unless it was abandoned. -/
def consult (v : Verifier) (cycle : Cycle) (work : Consultation Results) : CycleStep :=
  match work with
  | .abandoned => v.tear
  | work => v.await [] { cycle with stage := .verifying work }

/-- Hands in the reply to a batch call, or `none` if the call was torn down. -/
def replyBatch? (v : Verifier) (reply : Option BatchReply) : Option CycleStep :=
  v.cycle.bind fun cycle =>
    match cycle.stage with
    | .verifying (.batch _ next) => some (v.consult cycle (next reply))
    | _ => none

/-- Hands in the reply to a single check, or `none` if the call was torn down. -/
def replySingle? (v : Verifier) (reply : Option SingleReply) : Option CycleStep :=
  v.cycle.bind fun cycle =>
    match cycle.stage with
    | .verifying (.single _ next) => some (v.consult cycle (next reply))
    | _ => none

/-- Goes on with the first of the remaining deliveries, or ends the cycle when there is none. -/
def dispatch (v : Verifier) (published : List DriverState) (cycle : Cycle) (dispatched : Nat) :
    List Delivery → CycleStep
  | [] => v.finish (published ++ [.idle]) (.completed cycle.removed cycle.verified dispatched)
  | current :: rest =>
    v.await published { cycle with stage := .dispatching dispatched current rest }

/-- Takes the batch out of flight, once its verdicts are known. -/
def take? (v : Verifier) : Option CycleStep :=
  v.cycle.bind fun cycle =>
    match cycle.stage with
    | .verifying (.done results) =>
      let (taken, queue) := v.queue.take
      let v := { v with queue := queue }
      some (v.dispatch [.dispatching] cycle 0 (taken.deliveries results))
    | _ => none

/-- Records a delivery: its verdict is cached, then counted. -/
def record (v : Verifier) (delivery : Delivery) (timestamp : Int) : Verifier :=
  let (_, cache) := v.cache.insert delivery.hash ⟨timestamp, delivery.verdict⟩
  { v with cache := cache, stats := delivery.record v.stats }

/-- The listener has returned, and the clock then read `timestamp` milliseconds; `none` if its call
was torn down. -/
def delivered? (v : Verifier) (timestamp : Option Int) : Option CycleStep :=
  v.cycle.bind fun cycle =>
    match cycle.stage, timestamp with
    | .dispatching dispatched current rest, some timestamp =>
      some ((v.record current timestamp).dispatch [] cycle (dispatched + 1) rest)
    | .dispatching _ _ _, none => some v.tear
    | .verifying _, _ => none

end Verifier

end SidechainVerifier
