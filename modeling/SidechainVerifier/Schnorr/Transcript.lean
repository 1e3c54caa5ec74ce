/-
SidechainVerifier.Schnorr.Transcript — reading and checking one Schnorr
proof.

A proof is 96 bytes: the encoded commitment `R`, the challenge, and the
response `s`. A `Transcript` is a proof that could be read, beside the key
and the statement it is checked against. It is accepted when the challenge
is the digest of commitment, key and statement, and `s • G = R + c • K`.
-/
import SidechainVerifier.Check
import SidechainVerifier.Error
import SidechainVerifier.Schnorr.Group

namespace SidechainVerifier

open SchnorrGroup

/-- The length of an encoded proof. -/
def Proof.encodedLength : Nat := 96

/-- A proof that could be read, with what it is checked against. -/
structure Transcript (P : Type) [SchnorrGroup P] where
  /-- The commitment as it was encoded. -/
  commitment : FixedBytes 32
  /-- The challenge as it was encoded. -/
  challenge : FixedBytes 32
  commitmentPoint : P
  challengeScalar : Multiplier P
  response : Multiplier P
  key : P
  statement : FixedBytes 32

/-- The digest that a proof's challenge has to be. -/
def challengeDigest {P : Type} [SchnorrGroup P] (commitment : FixedBytes 32) (key : P)
    (statement : FixedBytes 32) : FixedBytes 32 :=
  sha256 (commitment.toList ++ (encode key).toList ++ statement.toList)

namespace Transcript

variable {P : Type} [SchnorrGroup P]

/-- Reads a proof: its length is looked at first, then the key, then the commitment. Challenge and
response are reduced modulo the order, whatever their bytes are. -/
def read (proof : Proof) (key : VerificationKey) (statement : FixedBytes 32) :
    Except ProvingError (Transcript P) :=
  let bytes := proof.bytes
  if h : bytes.length = Proof.encodedLength then
    match (ofBytes? key.bytes : Option P) with
    | none => .error (.malformedKey "not a Ristretto point")
    | some keyPoint =>
      match (ofBytes? (bytes.take 32) : Option P) with
      | none => .error (.malformedProof "invalid commitment")
      | some commitmentPoint =>
        .ok
          { commitment := ⟨(bytes.take 32).toArray, by simp [h, Proof.encodedLength]⟩
            challenge := ⟨((bytes.drop 32).take 32).toArray, by simp [h, Proof.encodedLength]⟩
            commitmentPoint := commitmentPoint
            challengeScalar := multiplier P ((bytes.drop 32).take 32)
            response := multiplier P (bytes.drop 64)
            key := keyPoint
            statement := statement }
  else
    .error (.malformedProof
      ("expected " ++ toString Proof.encodedLength ++ " bytes, got " ++ toString bytes.length))

/-- The challenge is the digest of commitment, key and statement. -/
def challengeMatches (t : Transcript P) : Bool :=
  challengeDigest t.commitment t.key t.statement = t.challenge

/-- The response solves the proof's equation `s • G = R + c • K`. -/
def equationHolds (t : Transcript P) : Bool :=
  smul t.response base = add t.commitmentPoint (smul t.challengeScalar t.key)

/-- Both conditions on a proof. -/
def accepted (t : Transcript P) : Bool := t.challengeMatches && t.equationHolds

end Transcript

/-- Reads the proof of a check. -/
def Check.transcript (P : Type) [SchnorrGroup P] (check : Check) :
    Except ProvingError (Transcript P) :=
  Transcript.read check.proof check.key check.statement

/-- Checks a single proof; a proof or key that cannot be read is an error. -/
def Check.verify (P : Type) [SchnorrGroup P] (check : Check) : Except ProvingError Bool :=
  (check.transcript P).map Transcript.accepted

end SidechainVerifier
