/-
SidechainVerifier.Chain.Transaction — transactions that withdraw from
ceased sidechains.

A transaction carries any number of withdrawal inputs, each with a proof of
its own. Its hash is the digest of `Transaction.preimage`, which lays the
inputs out one after the other, each proof without its length, and ends
with the uninterpreted rest of the transaction.
-/
import SidechainVerifier.Chain.Certificate

namespace SidechainVerifier

/-- A withdrawal from a ceased sidechain. -/
structure WithdrawalInput where
  sidechain : Hash
  amount : UInt64
  nullifier : FieldElement
  destination : KeyHash
  /-- The cumulative commitment tree root at which the sidechain ceased. -/
  ceasingRoot : FieldElement
  proof : Proof
deriving DecidableEq

/-- The fields of a withdrawal, one after the other. -/
def WithdrawalInput.bytes (w : WithdrawalInput) : Bytes :=
  w.sidechain.bytes.toList ++
  Bytes.littleEndian 8 w.amount.toNat ++
  w.nullifier.bytes.toList ++
  w.destination.toList ++
  w.ceasingRoot.bytes.toList ++
  w.proof.bytes

/-- A transaction with withdrawal inputs. -/
structure Transaction where
  version : Int32
  withdrawals : List WithdrawalInput
  /-- The remaining inputs and outputs, not interpreted here. -/
  payload : Bytes
deriving DecidableEq

namespace Transaction

/-- The byte string a transaction's hash is taken of; the version is in two's complement. -/
def preimage (t : Transaction) : Bytes :=
  Bytes.ascii "sc_tx" ++
  Bytes.littleEndian 4 t.version.toUInt32.toNat ++
  Bytes.counted WithdrawalInput.bytes t.withdrawals ++
  t.payload

/-- The identifying hash, over every field. -/
def hash (t : Transaction) : Hash := .digest t.preimage

end Transaction

/-- An object whose proofs went through the verifier. -/
inductive Subject where
  | certificate (certificate : Certificate)
  | transaction (transaction : Transaction)
deriving DecidableEq

/-- The identifying hash of either kind of object. -/
def Subject.hash : Subject → Hash
  | .certificate c => c.hash
  | .transaction t => t.hash

end SidechainVerifier
