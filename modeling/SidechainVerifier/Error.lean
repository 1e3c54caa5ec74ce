/-
SidechainVerifier.Error — why an operation was refused, and in which words.

None of these causes says that a proof is invalid: an invalid proof is an
ordinary outcome. `ProvingError` is what a proving backend answers when it
cannot check a proof at all; `VerifierError` is what a caller gets for an
input that should not have reached the verifier.
-/
import SidechainVerifier.Chain.Hash

namespace SidechainVerifier

/-- Why a proving backend could not reach a verdict. -/
inductive ProvingError where
  | malformedProof (detail : String)
  | malformedKey (detail : String)
  | backend (detail : String)
deriving DecidableEq

/-- The text of a backend's error. -/
def ProvingError.message : ProvingError → String
  | .malformedProof detail => "Malformed proof: " ++ detail
  | .malformedKey detail => "Malformed verification key: " ++ detail
  | .backend detail => "Backend failure: " ++ detail

/-- The name of the kind of error. -/
def ProvingError.name : ProvingError → String
  | .malformedProof _ => "MalformedProof"
  | .malformedKey _ => "MalformedKey"
  | .backend _ => "Backend"

/-- Why the verifier refused an operation. -/
inductive VerifierError where
  | unknownSidechain (sidechain : Hash)
  | missingEpochBoundary (sidechain : Hash) (epoch : UInt32) (height : UInt64)
  | epochOutOfRange (sidechain : Hash) (epoch : UInt32)
  | missingWithdrawalKey (sidechain : Hash)
  | noWithdrawals (transaction : Hash)
  | invalidConfig (detail : String)
  | proving (error : ProvingError)
  | driverSpawn (detail : String)
deriving DecidableEq

namespace VerifierError

/-- The name of the kind of error. -/
def name : VerifierError → String
  | .unknownSidechain _ => "UnknownSidechain"
  | .missingEpochBoundary _ _ _ => "MissingEpochBoundary"
  | .epochOutOfRange _ _ => "EpochOutOfRange"
  | .missingWithdrawalKey _ => "MissingCswVerificationKey"
  | .noWithdrawals _ => "NoCswInputs"
  | .invalidConfig _ => "InvalidConfig"
  | .proving _ => "Proving"
  | .driverSpawn _ => "DriverSpawn"

/-- The text of an error. -/
def message : VerifierError → String
  | .unknownSidechain id => "Unknown sidechain " ++ id.toHex
  | .missingEpochBoundary id epoch height =>
    "Missing epoch boundary for sidechain " ++ id.toHex ++ " epoch " ++ toString epoch.toNat ++
      " at height " ++ toString height.toNat
  | .epochOutOfRange id epoch =>
    "Epoch " ++ toString epoch.toNat ++ " out of range for sidechain " ++ id.toHex
  | .missingWithdrawalKey id => "Sidechain " ++ id.toHex ++ " has no CSW verification key"
  | .noWithdrawals tx => "Transaction " ++ tx.toHex ++ " has no CSW inputs"
  | .invalidConfig detail => "Invalid configuration: " ++ detail
  | .proving error => "Proving backend error: " ++ error.message
  | .driverSpawn detail => "Failed to spawn verification driver: " ++ detail

/-- The text of the error underneath, for the errors that wrap another. -/
def source? : VerifierError → Option String
  | .proving error => some error.message
  | .driverSpawn detail => some detail
  | _ => none

end VerifierError

end SidechainVerifier
