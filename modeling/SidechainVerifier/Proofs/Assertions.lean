/-
SidechainVerifier.Proofs.Assertions — what the verifier takes for granted
about itself.

A verifier relies on facts that it never acts on: that its two records of
what is pending list the same requests, that a consultation leaves no
verdict open, that every request taken out of flight has a verdict, and that
no request is left in flight when a cycle is over. These are the facts that
it would assert; where one of them failed it could only give an object up.

Main statement: they hold in every state that can be reached
(`assertions_hold`). Only what is in flight depends on the backend, and only
on its calls returning: a batch whose call is torn down stays in flight.
-/
import SidechainVerifier.Proofs.Flights
import SidechainVerifier.Proofs.Triggers
import SidechainVerifier.Proofs.WholeTransactions

namespace SidechainVerifier

open OrderedMap

/-! ## Pending requests -/

/-- The two records of what is pending are in step: they list the same requests in the same order,
and so count as many. -/
structure Pending.InStep (p : Pending) : Prop where
  keys_eq : p.enqueuedAt.keys = p.requests.requests.map Request.id
  size_eq : p.enqueuedAt.size = p.requests.requestCount

theorem Pending.Represents.inStep {p : Pending} {m : OrderedMap RequestId (Request × Instant)}
    (h : p.Represents m) : p.InStep where
  keys_eq := by rw [← h.requests.keys_eq, h.enqueuedAt, keys_map, keys_map]
  size_eq := by
    rw [h.requests.requestCount_eq, h.enqueuedAt, ← length_keys, ← length_keys, keys_map, keys_map]

namespace Verifier

variable {config : Config} {v₀ v : Verifier} {events : List Event} {responses : List Response}

/-- In every state that can be reached, what is pending is in step, and would be after any purge.
The results of a consultation are resolved, and a cycle that ends after its hand-off leaves nothing
in flight. If the backend's calls have all returned, nothing is in flight except between a hand-off
and the taking of the batch; and then each request that is taken has been found to pass or to fail,
so that no object is given up. -/
theorem assertions_hold (hnew : Verifier.new config = .ok v₀)
    (hrun : v₀.run? events = some (responses, v)) :
    ((∀ e ∈ events, e.tearsBackend = false) →
      (v.consulting = false → v.queue.inFlight = .empty) ∧
      ∀ results, v.results? = some results →
        (∀ r ∈ v.queue.inFlight.requests,
          results.get? r.id = some .passed ∨ results.get? r.id = some .failed) ∧
        (v.queue.inFlight.deliveries results).map (·.hash) = v.queue.inFlight.parents) ∧
    (∀ results, v.results? = some results →
      ∀ id verdict, results.get? id = some verdict → verdict ≠ .unknown) ∧
    (∀ event published outcome w, event.isStart = false →
      v.handle? event = some (.stepped published (.finished outcome), w) →
      w.queue.inFlightCount = 0) ∧
    v.queue.pending.InStep ∧ ∀ isResolved, (v.queue.pending.purge isResolved).2.InStep := by
  have h := run_free hrun
  refine ⟨fun hreturns => ⟨?_, ?_⟩, ?_, ?_, ?_⟩
  · intro hconsulting
    exact (h.covered hnew hreturns).eq_empty hconsulting
  · intro results hresults
    have hcovered := h.covered hnew hreturns
    exact ⟨fun r hr => hcovered.exists_verdict hresults hr,
      hcovered.map_hash_deliveries (h.known hnew).2.keyed hresults⟩
  · intro results hresults id verdict hget
    exact h.resolved hnew hresults hget
  · intro event published outcome w hstart hhandle
    rw [Queue.inFlightCount, h.inFlight_of_finished hnew hstart hhandle]
    rfl
  · obtain ⟨m, hm, -⟩ := h.stamped hnew
    exact ⟨hm.inStep, fun isResolved => (hm.purge isResolved).2.inStep⟩

/-- The blank certificate and a transaction are handed off. Before the backend has answered, the
transaction is enqueued again and the certificate is dropped. The first batch call fails, the other
ones blame one withdrawal and vouch for the other, and the certificate is checked on its own though
it is gone. -/
def dropWhileAsked : List Event :=
  [.enqueueTransaction .withTwoEmptyKeys .fromTwo none 0,
    .enqueueCertificate (.ofKey ⟨[]⟩) .blank none 0, .start true 0,
    .replyBatch (some (.error (.backend "busy"))),
    .enqueueTransaction .withTwoEmptyKeys .fromTwo none 1,
    .replyBatch (some (.ok ⟨false, [1]⟩)), .discard Certificate.blank.hash,
    .replyBatch (some (.ok ⟨false, []⟩)), .replyBatch (some (.ok ⟨true, []⟩)),
    .replySingle (some (.error (.backend "gone")))]

/-- The transaction that is left in flight has its verdicts, and is told of. -/
theorem assertions_hold_dropWhileAsked :
    ∃ v₀ responses v results, Verifier.new .default = .ok v₀ ∧
      v₀.run? dropWhileAsked = some (responses, v) ∧
      (∀ e ∈ dropWhileAsked, e.tearsBackend = false) ∧ v.results? = some results ∧
      results.values = [.failed, .passed, .failed] ∧
      v.queue.inFlight.parents = [Transaction.fromTwo.hash] ∧
      (∀ r ∈ v.queue.inFlight.requests,
        results.get? r.id = some .passed ∨ results.get? r.id = some .failed) ∧
      (v.queue.inFlight.deliveries results).map (·.hash) = [Transaction.fromTwo.hash] ∧
      v.queue.pending.InStep := by
  obtain ⟨v₀, hnew⟩ : ∃ v₀, Verifier.new .default = .ok v₀ := ⟨_, rfl⟩
  have hend : ((v₀.run? dropWhileAsked).bind fun run => run.2.results?.map fun results =>
      (results.values, run.2.queue.inFlight.parents)) =
        some ([.failed, .passed, .failed], [Transaction.fromTwo.hash]) := by
    cases hnew
    decide +kernel
  obtain ⟨⟨responses, v⟩, hrun, hend⟩ := Option.bind_eq_some_iff.mp hend
  obtain ⟨results, hresults, hend⟩ := Option.map_eq_some_iff.mp hend
  obtain ⟨hvalues, hparents⟩ := Prod.mk.inj hend
  have hreturns : ∀ e ∈ dropWhileAsked, e.tearsBackend = false := by
    simp [dropWhileAsked, Event.tearsBackend]
  obtain ⟨hasked, -, -, hinStep, -⟩ := assertions_hold hnew hrun
  obtain ⟨hverdicts, hdeliveries⟩ := (hasked hreturns).2 results hresults
  exact ⟨v₀, responses, v, results, hnew, hrun, hreturns, hresults, hvalues, hparents, hverdicts,
    hdeliveries.trans hparents, hinStep⟩

end Verifier

end SidechainVerifier
