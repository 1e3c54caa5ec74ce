/-
SidechainVerifier.Chain.Sidechain — what the chain's state says about
sidechains.

`View` is the read-only access that extraction needs: the record of a
sidechain, the data hash of its active certificate, and the cumulative
commitment tree root at a block height. A view is built up by setting
entries; the last entry set under a key stands.
-/
import SidechainVerifier.Chain.Certificate

namespace SidechainVerifier

/-- Creation parameters and current state of a sidechain. -/
structure Sidechain where
  creationHeight : UInt64
  epochLength : UInt32
  /-- A public input fixed at creation. -/
  constant : Option FieldElement
  certificateKey : VerificationKey
  withdrawalKey : Option VerificationKey
  currentEpoch : Option UInt32
  currentQuality : Option UInt64
  currentCertificate : Option Hash
deriving DecidableEq

/-- Read-only access to the chain's state. -/
structure View where
  sidechain : Hash → Option Sidechain
  activeCertificateData : Hash → Option FieldElement
  commitmentRoot : UInt64 → Option FieldElement

namespace View

/-- The view that knows nothing. -/
def empty : View := ⟨fun _ => none, fun _ => none, fun _ => none⟩

/-- The view with a sidechain's record set. -/
def setSidechain (v : View) (id : Hash) (record : Sidechain) : View :=
  { v with sidechain := fun h => if h = id then some record else v.sidechain h }

/-- The view with the data hash of a sidechain's active certificate set. -/
def setActiveCertificateData (v : View) (id : Hash) (data : FieldElement) : View :=
  { v with activeCertificateData := fun h => if h = id then some data else v.activeCertificateData h }

/-- The view with the root at a block height set. -/
def setCommitmentRoot (v : View) (height : UInt64) (root : FieldElement) : View :=
  { v with commitmentRoot := fun h => if h = height then some root else v.commitmentRoot h }

end View

end SidechainVerifier
