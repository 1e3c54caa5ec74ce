/-
SidechainVerifier.Schnorr.Prover — making Schnorr proofs.

The prover of a statement needs the secret behind the key and a fresh
nonce; the proof is the nonce's multiple of the base, the challenge for it,
and the response that balances both.
-/
import SidechainVerifier.Schnorr.Transcript

namespace SidechainVerifier

open SchnorrGroup

/-- The secret behind a verification key. -/
structure ProvingKey (P : Type) [SchnorrGroup P] where
  secret : Multiplier P

namespace ProvingKey

variable {P : Type} [SchnorrGroup P]

/-- The group element that belongs to the secret. -/
def point (key : ProvingKey P) : P := smul key.secret base

/-- The key that proofs made with the secret are checked against. -/
def verificationKey (key : ProvingKey P) : VerificationKey := ⟨(encode key.point).toList⟩

/-- A proof of a statement, made with a nonce. -/
def prove (key : ProvingKey P) (nonce : Multiplier P) (statement : FixedBytes 32) : Proof :=
  let commitment := encode (smul nonce (base : P))
  let challenge := challengeDigest commitment key.point statement
  let response := nonce + multiplier P challenge.toList * key.secret
  ⟨commitment.toList ++ challenge.toList ++ response.bytes.toList⟩

end ProvingKey

end SidechainVerifier
