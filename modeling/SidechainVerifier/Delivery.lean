/-
SidechainVerifier.Delivery — telling the node what became of its objects.

`RequestSet.deliveries` turns a batch taken out of flight and the verdicts
on its requests into one delivery for each resolved certificate and
transaction, certificates first, each family by hash. Object and origin of
a transaction are those of its first withdrawal.
-/
import SidechainVerifier.BatchVerification
import SidechainVerifier.Queue
import SidechainVerifier.Stats

namespace SidechainVerifier

/-- The penalty for an object with an invalid proof. -/
def invalidProofPenalty : UInt32 := 100

/-- What the listener is told about one object. -/
structure Notice where
  subject : Subject
  origin : Option PeerId
  outcome : Outcome
  validation : Validation
deriving DecidableEq

/-- A notice, with what is recorded once it has been delivered. -/
structure Delivery where
  notice : Notice
  /-- The hash under which the verdict is cached. -/
  hash : Hash
  verdict : Verdict
deriving DecidableEq

namespace Delivery

/-- The delivery of a verdict on an object; an open verdict is not delivered. -/
def of? (subject : Subject) (hash : Hash) (origin : Option PeerId) (verdict : Verdict) :
    Option Delivery :=
  match verdict with
  | .unknown => none
  | .passed => some ⟨⟨subject, origin, .verified, .valid⟩, hash, verdict⟩
  | .failed =>
    let reason := match subject with
      | .certificate _ => "bad-sc-cert-proof"
      | .transaction _ => "bad-csw-proof"
    some ⟨⟨subject, origin, .failed, .invalid invalidProofPenalty reason⟩, hash, verdict⟩

/-- Counts a delivery under its family and verdict. -/
def record (d : Delivery) (s : Stats) : Stats :=
  match d.notice.subject with
  | .certificate _ => s.recordCertificate (d.verdict == .passed)
  | .transaction _ => s.recordTransaction (d.verdict == .passed)

end Delivery

/-- The verdict on a request; one without a result is open. -/
def Results.verdict (results : Results) (id : RequestId) : Verdict :=
  (results.get? id).getD .unknown

/-- The delivery for a certificate. -/
def CertificateRequest.delivery? (r : CertificateRequest) (results : Results) : Option Delivery :=
  Delivery.of? (.certificate r.certificate) r.hash r.origin (results.verdict r.id)

/-- The delivery for a transaction, with the verdicts on its withdrawals combined. -/
def transactionDelivery? (hash : Hash) (group : OrderedMap UInt32 WithdrawalRequest)
    (results : Results) : Option Delivery :=
  match group.values with
  | [] => none
  | first :: rest =>
    let verdicts := (first :: rest).map fun r => results.verdict (.withdrawal hash r.position)
    Delivery.of? (.transaction first.transaction) hash first.origin (.combine verdicts)

/-- The deliveries for the requests of a set. -/
def RequestSet.deliveries (s : RequestSet) (results : Results) : List Delivery :=
  s.certificates.values.filterMap (fun r => r.delivery? results) ++
    s.groups.entries.filterMap fun (hash, group) => transactionDelivery? hash group results

end SidechainVerifier
