/-
SidechainVerifier.BatchVerification — resolving every request of a list.

Two attempts are made to resolve requests in batches, one call for each
family that has open requests. What a whole batch or a name in it does not
settle stays open; what is still open after both attempts is checked one by
one, which always settles it. In loose mode everything passes unchecked.
-/
import SidechainVerifier.Consultation
import SidechainVerifier.OrderedMap
import SidechainVerifier.Request
import SidechainVerifier.Verdict

namespace SidechainVerifier

/-- What is known about each request, by identity. -/
abbrev Results := OrderedMap RequestId Verdict

namespace Results

/-- Every request of a list with one verdict. -/
def uniform (verdict : Verdict) (requests : List Request) : Results :=
  OrderedMap.ofList (requests.map fun r => (r.id, verdict))

/-- The results with one verdict for each of several identities. -/
def setAll (results : Results) (verdict : Verdict) (ids : List RequestId) : Results :=
  ids.foldl (fun results id => results.insert id verdict) results

/-- The results after a batch call about `ids`: all pass if the batch is valid as a whole, else the
named ones fail; positions outside the batch name nothing. -/
def apply (results : Results) (ids : List RequestId) : BatchReply → Results
  | .error _ => results
  | .ok answer =>
    if answer.allValid then results.setAll .passed ids
    else results.setAll .failed (answer.failed.filterMap fun i => ids[i]?)

/-- The requests that are still open, in list order. -/
def openRequests (results : Results) (requests : List Request) : List Request :=
  requests.filter fun r => results.get? r.id == some .unknown

end Results

/-- The verdict of a single check: a proof that could not be checked has failed. -/
def Verdict.ofReply : SingleReply → Verdict
  | .ok true => .passed
  | .ok false => .failed
  | .error _ => .failed

namespace BatchVerification

/-- The number of attempts in batches. -/
def attempts : Nat := 2

/-- One attempt on open requests. Both families are asked even if the first call is torn down; the
attempt is abandoned if either was. -/
def attempt (requests : List Request) (results : Results) : Consultation Results := do
  let certificates := requests.filterMap Request.certificate?
  let withdrawals := requests.filterMap Request.withdrawal?
  let certificateReply ← Consultation.askCertificates (certificates.map (·.check))
  let withdrawalReply ← Consultation.askWithdrawals (withdrawals.map (·.check))
  match certificateReply, withdrawalReply with
  | some c, some w =>
    return (results.apply (certificates.map (·.id)) c).apply (withdrawals.map (·.id)) w
  | _, _ => .abandoned

/-- Several attempts, each on the requests that are open by then. -/
def attemptAll (requests : List Request) : Nat → Results → Consultation Results
  | 0, results => return results
  | count + 1, results => do
    let pending := results.openRequests requests
    if pending.isEmpty then return results
    else
      let results ← attempt pending results
      attemptAll requests count results

/-- The verdict on one request, without a batch. -/
def verifySingle (mode : Mode) (request : Request) : Consultation Verdict :=
  match mode with
  | .loose => return .passed
  | .strict => return .ofReply (← Consultation.askSingle request.check)

/-- Checks requests one by one, in list order. -/
def verifyEach : List Request → Results → Consultation Results
  | [], results => return results
  | request :: rest, results => do
    let verdict ← verifySingle .strict request
    verifyEach rest (results.insert request.id verdict)

/-- The verdicts on all requests of a list, each passed or failed. -/
def verify (mode : Mode) (requests : List Request) : Consultation Results :=
  match mode with
  | .loose => return .uniform .passed requests
  | .strict => do
    let results ← attemptAll requests attempts (.uniform .unknown requests)
    verifyEach (results.openRequests requests) results

end BatchVerification

end SidechainVerifier
