/-
SidechainVerifier.Chain.Certificate — withdrawal certificates.

A certificate is what a sidechain issues for one epoch. Its hash is the
digest of `Certificate.preimage`, a concatenation of every field in which
each list is preceded by its length; the proof, of any length, comes last.
-/
import SidechainVerifier.Chain.Hash

namespace SidechainVerifier

/-- The bytes of a proof, opaque outside the proving system. -/
structure Proof where
  bytes : Bytes
deriving DecidableEq

/-- The bytes of a verification key, opaque outside the proving system. -/
structure VerificationKey where
  bytes : Bytes
deriving DecidableEq

/-- A payment out of the sidechain to a mainchain destination. -/
structure BackwardTransfer where
  destination : KeyHash
  amount : UInt64
deriving DecidableEq

/-- The destination and the amount, one after the other. -/
def BackwardTransfer.bytes (t : BackwardTransfer) : Bytes :=
  t.destination.toList ++ Bytes.littleEndian 8 t.amount.toNat

/-- A list's length in eight bytes, then its members. -/
def Bytes.counted {α : Type} (layout : α → Bytes) (items : List α) : Bytes :=
  Bytes.littleEndian 8 items.length ++ items.flatMap layout

/-- A withdrawal certificate of one sidechain for one epoch. -/
structure Certificate where
  sidechain : Hash
  epoch : UInt32
  quality : UInt64
  transfers : List BackwardTransfer
  /-- The least amount of a forward transfer the sidechain accepts. -/
  forwardTransferFee : UInt64
  /-- The fee of a mainchain request for a backward transfer. -/
  backwardRequestFee : UInt64
  customFields : List FieldElement
  proof : Proof
deriving DecidableEq

namespace Certificate

/-- The byte string a certificate's hash is taken of. -/
def preimage (c : Certificate) : Bytes :=
  Bytes.ascii "sc_cert" ++
  c.sidechain.bytes.toList ++
  Bytes.littleEndian 4 c.epoch.toNat ++
  Bytes.littleEndian 8 c.quality.toNat ++
  Bytes.counted BackwardTransfer.bytes c.transfers ++
  Bytes.littleEndian 8 c.forwardTransferFee.toNat ++
  Bytes.littleEndian 8 c.backwardRequestFee.toNat ++
  Bytes.counted (fun f => f.bytes.toList) c.customFields ++
  c.proof.bytes

/-- The identifying hash, over every field. -/
def hash (c : Certificate) : Hash := .digest c.preimage

end Certificate

end SidechainVerifier
