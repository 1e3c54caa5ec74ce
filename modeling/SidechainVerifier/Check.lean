/-
SidechainVerifier.Check — a single proof check: public inputs, proof and
key.

There are two families of checks, of certificates and of withdrawals. What
a proof attests to is the check's `statement`, the digest of its `message`;
the message lays out every public input and starts with a text that names
the family. Proof and key are not part of it.
-/
import SidechainVerifier.Chain.Transaction
import SidechainVerifier.Digest.Sha256

namespace SidechainVerifier

/-- The check of a certificate's proof. -/
structure CertificateCheck where
  sidechain : Hash
  constant : Option FieldElement
  epoch : UInt32
  quality : UInt64
  transfers : List BackwardTransfer
  customFields : List FieldElement
  /-- The commitment tree root at the last block of the epoch before. -/
  startRoot : FieldElement
  /-- The commitment tree root at the last block of the epoch. -/
  endRoot : FieldElement
  backwardRequestFee : UInt64
  forwardTransferFee : UInt64
  proof : Proof
  key : VerificationKey
deriving DecidableEq

/-- The check of one withdrawal's proof. -/
structure WithdrawalCheck where
  sidechain : Hash
  constant : Option FieldElement
  amount : UInt64
  nullifier : FieldElement
  destination : KeyHash
  certificateData : Option FieldElement
  ceasingRoot : FieldElement
  proof : Proof
  key : VerificationKey
deriving DecidableEq

/-- A mark byte that says whether there is an element, then the element. -/
def FieldElement.optionalBytes : Option FieldElement → Bytes
  | some e => 1 :: e.bytes.toList
  | none => [0]

namespace CertificateCheck

/-- The byte string that fixes every public input of a certificate's proof. -/
def message (c : CertificateCheck) : Bytes :=
  Bytes.ascii "sc_proof_verifier/cert" ++
  c.sidechain.bytes.toList ++
  FieldElement.optionalBytes c.constant ++
  Bytes.littleEndian 4 c.epoch.toNat ++
  Bytes.littleEndian 8 c.quality.toNat ++
  Bytes.counted BackwardTransfer.bytes c.transfers ++
  Bytes.counted (fun f => f.bytes.toList) c.customFields ++
  c.startRoot.bytes.toList ++
  c.endRoot.bytes.toList ++
  Bytes.littleEndian 8 c.backwardRequestFee.toNat ++
  Bytes.littleEndian 8 c.forwardTransferFee.toNat

/-- What a certificate's proof attests to. -/
def statement (c : CertificateCheck) : FixedBytes 32 := sha256 c.message

end CertificateCheck

namespace WithdrawalCheck

/-- The byte string that fixes every public input of a withdrawal's proof. -/
def message (w : WithdrawalCheck) : Bytes :=
  Bytes.ascii "sc_proof_verifier/csw" ++
  w.sidechain.bytes.toList ++
  FieldElement.optionalBytes w.constant ++
  Bytes.littleEndian 8 w.amount.toNat ++
  w.nullifier.bytes.toList ++
  w.destination.toList ++
  FieldElement.optionalBytes w.certificateData ++
  w.ceasingRoot.bytes.toList

/-- What a withdrawal's proof attests to. -/
def statement (w : WithdrawalCheck) : FixedBytes 32 := sha256 w.message

end WithdrawalCheck

/-- A check of either family. -/
inductive Check where
  | certificate (check : CertificateCheck)
  | withdrawal (check : WithdrawalCheck)
deriving DecidableEq

namespace Check

/-- What the proof of a check attests to. -/
def statement : Check → FixedBytes 32
  | .certificate c => c.statement
  | .withdrawal w => w.statement

/-- The proof to be checked. -/
def proof : Check → Proof
  | .certificate c => c.proof
  | .withdrawal w => w.proof

/-- The key the proof is checked against. -/
def key : Check → VerificationKey
  | .certificate c => c.key
  | .withdrawal w => w.key

end Check

end SidechainVerifier
