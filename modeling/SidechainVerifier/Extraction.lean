/-
SidechainVerifier.Extraction — from an incoming object to its requests.

`Certificate.request` and `Transaction.requests` resolve the public inputs
of an object's proofs through a view of the chain. They judge no proof;
they fail only where the view lacks what the caller should have looked up
before: the sidechain, the commitment roots at both ends of the epoch, or
the sidechain's withdrawal key.
-/
import SidechainVerifier.Chain.Sidechain
import SidechainVerifier.Error
import SidechainVerifier.Request

namespace SidechainVerifier

/-! ## Epoch boundaries -/

/-- The sum of two heights, if it is a height. -/
def checkedAdd (a b : UInt64) : Option UInt64 :=
  if a.toNat + b.toNat < UInt64.size then some (a + b) else none

/-- The product of two numbers, if it is a height. -/
def checkedMul (a b : UInt64) : Option UInt64 :=
  if a.toNat * b.toNat < UInt64.size then some (a * b) else none

/-- The difference of two heights, if it is a height. -/
def checkedSub (a b : UInt64) : Option UInt64 :=
  if b.toNat ≤ a.toNat then some (a - b) else none

/-- The last block before an epoch and the epoch's last block. Epoch `e` of a sidechain created at
height `h` with epochs of `n` blocks starts at height `h + e * n`, which has to be a height. -/
def Sidechain.epochBoundaries (creationHeight : UInt64) (epochLength epoch : UInt32) :
    Option (UInt64 × UInt64) := do
  let length := epochLength.toUInt64
  let offset ← checkedMul epoch.toUInt64 length
  let firstHeight ← checkedAdd creationHeight offset
  let startHeight ← checkedSub firstHeight 1
  let endHeight ← checkedAdd startHeight length
  return (startHeight, endHeight)

/-! ## Certificates -/

/-- The commitment root at one end of an epoch. -/
def View.boundaryRoot (view : View) (sidechain : Hash) (epoch : UInt32) (height : UInt64) :
    Except VerifierError FieldElement :=
  match view.commitmentRoot height with
  | some root => .ok root
  | none => .error (.missingEpochBoundary sidechain epoch height)

/-- The request for a certificate. -/
def Certificate.request (view : View) (certificate : Certificate) (origin : Option PeerId) :
    Except VerifierError CertificateRequest := do
  let id := certificate.sidechain
  let epoch := certificate.epoch
  let record ← match view.sidechain id with
    | some record => .ok record
    | none => .error (.unknownSidechain id)
  let (startHeight, endHeight) ←
    match Sidechain.epochBoundaries record.creationHeight record.epochLength epoch with
    | some boundaries => .ok boundaries
    | none => .error (.epochOutOfRange id epoch)
  let startRoot ← view.boundaryRoot id epoch startHeight
  let endRoot ← view.boundaryRoot id epoch endHeight
  return {
    hash := certificate.hash
    check := {
      sidechain := id
      constant := record.constant
      epoch := epoch
      quality := certificate.quality
      transfers := certificate.transfers
      customFields := certificate.customFields
      startRoot := startRoot
      endRoot := endRoot
      backwardRequestFee := certificate.backwardRequestFee
      forwardTransferFee := certificate.forwardTransferFee
      proof := certificate.proof
      key := record.certificateKey }
    certificate := certificate
    origin := origin }

/-! ## Transactions -/

/-- The check of one withdrawal. -/
def WithdrawalInput.check (view : View) (w : WithdrawalInput) :
    Except VerifierError WithdrawalCheck :=
  match view.sidechain w.sidechain with
  | none => .error (.unknownSidechain w.sidechain)
  | some record =>
    match record.withdrawalKey with
    | none => .error (.missingWithdrawalKey w.sidechain)
    | some key =>
      .ok
        { sidechain := w.sidechain
          constant := record.constant
          amount := w.amount
          nullifier := w.nullifier
          destination := w.destination
          certificateData := view.activeCertificateData w.sidechain
          ceasingRoot := w.ceasingRoot
          proof := w.proof
          key := key }

/-- The requests for withdrawals numbered from `first` on; the first that cannot be resolved decides
the error. Positions count modulo `2 ^ 32`. -/
def WithdrawalInput.requests (view : View) (transaction : Transaction) (hash : Hash)
    (origin : Option PeerId) : Nat → List WithdrawalInput → Except VerifierError (List WithdrawalRequest)
  | _, [] => .ok []
  | first, w :: rest => do
    let check ← w.check view
    let request : WithdrawalRequest :=
      { transactionHash := hash
        position := UInt32.ofNat first
        check := check
        transaction := transaction
        origin := origin }
    let others ← WithdrawalInput.requests view transaction hash origin (first + 1) rest
    return request :: others

/-- The requests for a transaction, one for each withdrawal, in their order. -/
def Transaction.requests (view : View) (transaction : Transaction) (origin : Option PeerId) :
    Except VerifierError (List WithdrawalRequest) :=
  let hash := transaction.hash
  if transaction.withdrawals.isEmpty then .error (.noWithdrawals hash)
  else WithdrawalInput.requests view transaction hash origin 0 transaction.withdrawals

end SidechainVerifier
