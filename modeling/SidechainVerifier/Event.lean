/-
SidechainVerifier.Event — the life of a verifier as a sequence of events.

Everything that can happen to a verifier is an `Event`: the calls of
producers and of the node, the start of a cycle, and the replies a cycle
waits for. `Verifier.handle?` gives the response to an event and the
verifier after it, and has no answer for an event that cannot happen: a
start or a reset during a cycle, a reply nobody waits for. The calls the
verifier makes are part of the responses, as a cycle that waits says what it
waits for. Between a call and its reply any other event may happen.
-/
import SidechainVerifier.Verifier

namespace SidechainVerifier

/-- Something that happens to a verifier. -/
inductive Event where
  /-- A certificate is enqueued, resolved against a view. -/
  | enqueueCertificate (view : View) (certificate : Certificate) (origin : Option PeerId)
    (now : Instant)
  /-- A transaction is enqueued, resolved against a view. -/
  | enqueueTransaction (view : View) (transaction : Transaction) (origin : Option PeerId)
    (now : Instant)
  /-- Everything in flight is dropped. -/
  | discardAll
  /-- One certificate or transaction in flight is dropped. -/
  | discard (hash : Hash)
  /-- A guard is taken. -/
  | pause (requested : Bool)
  /-- A guard is dropped. -/
  | unpause (guard : Nat)
  /-- The counters are set to zero. -/
  | resetStats
  /-- Requests, cached verdicts and counts are forgotten. -/
  | reset
  /-- A cycle starts. -/
  | start (force : Bool) (now : Instant)
  /-- The backend returns from a batch call; `none` if the call was torn down. -/
  | replyBatch (reply : Option BatchReply)
  /-- The backend returns from a single check; `none` if the call was torn down. -/
  | replySingle (reply : Option SingleReply)
  /-- The batch is taken out of flight. -/
  | take
  /-- The listener returns, and the clock reads `timestamp`; `none` if its call was torn down. -/
  | delivered (timestamp : Option Int)

/-- What an event leads to, beside the new state. -/
inductive Response where
  | done
  /-- An object was enqueued. -/
  | accepted
  /-- An object was not enqueued. -/
  | refused (error : VerifierError)
  /-- So many certificates and transactions were dropped. -/
  | dropped (count : Nat)
  /-- Whether there was what the event was about. -/
  | found (answer : Bool)
  /-- A guard was taken or dropped; the backend is sent the signal, if any. -/
  | signalled (signal : Option Signal)
  /-- The cycle made a step. -/
  | stepped (published : List DriverState) (progress : Progress)
deriving DecidableEq

namespace Verifier

/-- The response to an attempt to enqueue something; the verifier changes only if it succeeds. -/
def enqueued (v : Verifier) : Except VerifierError Verifier → Response × Verifier
  | .ok w => (.accepted, w)
  | .error e => (.refused e, v)

/-- A step of the cycle as a response. -/
def stepped (step : CycleStep) : Response × Verifier :=
  (.stepped step.published step.progress, step.verifier)

/-- The response to an event, and the verifier after it; `none` if the event cannot happen. -/
def handle? (v : Verifier) : Event → Option (Response × Verifier)
  | .enqueueCertificate view certificate origin now =>
    some (v.enqueued (v.enqueueCertificate view certificate origin now))
  | .enqueueTransaction view transaction origin now =>
    some (v.enqueued (v.enqueueTransaction view transaction origin now))
  | .discardAll => some (v.discardAll.map .dropped id)
  | .discard hash => some ((v.discard hash).map .found id)
  | .pause requested => some ((v.pause requested).map .signalled id)
  | .unpause guard =>
    match v.unpause? guard with
    | some (signal, w) => some (.signalled signal, w)
    | none => some (.found false, v)
  | .resetStats => some (.done, v.resetStats)
  | .reset => v.reset?.map fun w => (.done, w)
  | .start force now => (v.start? force now).map stepped
  | .replyBatch reply => (v.replyBatch? reply).map stepped
  | .replySingle reply => (v.replySingle? reply).map stepped
  | .take => v.take?.map stepped
  | .delivered timestamp => (v.delivered? timestamp).map stepped

/-- The responses to a sequence of events, and the verifier after it. -/
def run? (v : Verifier) : List Event → Option (List Response × Verifier)
  | [] => some ([], v)
  | event :: rest => do
    let (response, w) ← v.handle? event
    let (responses, w) ← w.run? rest
    return (response :: responses, w)

end Verifier

end SidechainVerifier
