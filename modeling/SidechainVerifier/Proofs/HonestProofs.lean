/-
SidechainVerifier.Proofs.HonestProofs — proofs that are made as they should
be are accepted.

`Check.proved` is a check that carries what the prover makes for its
statement, and the key that belongs to the secret. A statement does not
depend on the proof that is carried (`Check.statement_carrying`), and a
scalar is read back from its encoding (`SchnorrGroup.multiplier_bytes`), so
the transcript that the verifier reads is the prover's own
(`ProvingKey.reads_prove`). In a module its equation holds.

Main statement: every such check is valid, and so is every batch of them,
under whatever keys and with whatever coefficients
(`Check.valid_of_proved`).
-/
import SidechainVerifier.Proofs.BatchVerdicts
import SidechainVerifier.Proofs.Binding
import SidechainVerifier.Schnorr.Prover

namespace SidechainVerifier

open SchnorrGroup

variable {P : Type} [SchnorrGroup P]

/-- A multiplier is read back from its encoding. -/
@[simp] theorem SchnorrGroup.multiplier_bytes (k : Multiplier P) :
    multiplier P k.bytes.toList = k := by
  have hfits : k.val < 256 ^ 32 := Nat.lt_of_lt_of_le k.isLt order_le
  have hread : Bytes.toNat k.bytes.toList = k.val := Bytes.toNat_littleEndian hfits
  refine Scalar.ext_val ?_
  rw [multiplier, hread, Scalar.val_ofNat, Nat.mod_eq_of_lt k.isLt]

/-! ## The prover's transcript -/

namespace ProvingKey

variable (key : ProvingKey P) (nonce : Multiplier P) (statement : FixedBytes 32)

/-- The challenge that the prover computes. -/
def challenge : FixedBytes 32 :=
  challengeDigest (encode (smul nonce (base : P))) key.point statement

/-- What there is to be read in the prover's proof. -/
def transcript : Transcript P where
  commitment := encode (smul nonce (base : P))
  challenge := key.challenge nonce statement
  commitmentPoint := smul nonce base
  challengeScalar := multiplier P (key.challenge nonce statement).toList
  response := nonce + multiplier P (key.challenge nonce statement).toList * key.secret
  key := key.point
  statement := statement

theorem bytes_prove : (key.prove nonce statement).bytes =
    (key.transcript nonce statement).commitment.toList ++
      (key.transcript nonce statement).challenge.toList ++
      (key.transcript nonce statement).response.bytes.toList := rfl

/-- The verifier reads what the prover wrote. -/
theorem reads_prove (hencode : ∀ a : P, decode? (encode a) = some a) :
    (key.transcript nonce statement).Reads (key.prove nonce statement) key.verificationKey
      statement where
  length := by simp [bytes_prove, Proof.encodedLength]
  commitment := by simp [bytes_prove, List.append_assoc]
  challenge := by simp [bytes_prove, List.append_assoc]
  commitmentPoint := hencode _
  challengeScalar := rfl
  response := by
    rw [bytes_prove, List.drop_left' (by simp), multiplier_bytes]
  key := ofBytes?_eq_some_iff.mpr ⟨encode key.point, rfl, hencode _⟩
  statement := rfl

/-- The response balances commitment and challenge. -/
theorem accepted_transcript (hP : IsModule P) :
    (key.transcript nonce statement).accepted = true := by
  refine Transcript.accepted_iff.mpr ⟨decide_eq_true rfl, Transcript.equationHolds_iff.mpr ?_⟩
  let c : Multiplier P := multiplier P (key.challenge nonce statement).toList
  calc smul (nonce + c * key.secret) (base : P)
      = add (smul nonce base) (smul (c * key.secret) base) := hP.add_smul _ _ _
    _ = add (smul nonce base) (smul c (smul key.secret base)) := by rw [hP.mul_smul]

end ProvingKey

/-! ## Checks -/

namespace Check

/-- The check with a proof, against a key. -/
def carrying (proof : Proof) (key : VerificationKey) : Check → Check
  | .certificate c => .certificate { c with proof := proof, key := key }
  | .withdrawal w => .withdrawal { w with proof := proof, key := key }

section

variable (check : Check) (proof : Proof) (key : VerificationKey)

@[simp] theorem proof_carrying : (check.carrying proof key).proof = proof := by
  cases check <;> rfl

@[simp] theorem key_carrying : (check.carrying proof key).key = key := by
  cases check <;> rfl

/-- What a proof attests to does not depend on proof and key. -/
@[simp] theorem statement_carrying : (check.carrying proof key).statement = check.statement := by
  cases check <;> rfl

end

/-- The check with a proof of its statement, made with a nonce, against the key of the secret. -/
def proved (key : ProvingKey P) (nonce : Multiplier P) (check : Check) : Check :=
  check.carrying (key.prove nonce check.statement) key.verificationKey

theorem verify_proved (hP : IsModule P) (hencode : ∀ a : P, decode? (encode a) = some a)
    (key : ProvingKey P) (nonce : Multiplier P) (check : Check) :
    (check.proved key nonce).verify P = .ok true := by
  refine verify_eq_ok_true_iff.mpr ⟨key.transcript nonce check.statement, ?_, ?_⟩
  · refine transcript_eq_ok_iff.mpr ?_
    simp only [proved, proof_carrying, key_carrying, statement_carrying]
    exact key.reads_prove nonce check.statement hencode
  · exact key.accepted_transcript nonce check.statement hP

/-- Whatever the secret, the nonce and the public inputs are, the check with the prover's proof is
valid; and of a batch of such checks, each with a secret and a nonce of its own, the combination
holds whatever the coefficients are, and nothing is blamed. -/
theorem valid_of_proved (hP : IsModule P) (hencode : ∀ a : P, decode? (encode a) = some a) :
    (∀ (key : ProvingKey P) (nonce : Multiplier P) (check : Check),
      (check.proved key nonce).verify P = .ok true) ∧
    ∀ (items : List (ProvingKey P × Multiplier P × Check)) (search : Search)
      (coefficient : Nat → Multiplier P),
      let checks := items.map fun (key, nonce, check) => check.proved key nonce
      searchBatch P search coefficient checks = ⟨true, []⟩ ∧
        Transcript.combinedHolds coefficient (candidates P checks) = true := by
  refine ⟨verify_proved hP hencode, ?_⟩
  intro items search coefficient checks
  have hchecks : ∀ check ∈ checks, check.verify P = .ok true := by
    intro check hcheck
    obtain ⟨⟨key, nonce, unproved⟩, -, rfl⟩ := List.mem_map.mp hcheck
    exact verify_proved hP hencode key nonce unproved
  have hall := allValid_of_verify P search coefficient checks hchecks
  have hnone := (Transcript.allValid_iff _ search coefficient).mp hall
  refine ⟨congrArg₂ BatchAnswer.mk hall hnone, ?_⟩
  exact combinedHolds_of_verify P coefficient checks hP hchecks

/-- The check, proved in the group of exponents with a secret and a nonce given as numbers. -/
def provedWith (secret nonce : Nat) (check : Check) : Check :=
  let key : ProvingKey Exponent := ⟨Scalar.ofNat order_pos secret⟩
  check.proved key (Scalar.ofNat order_pos nonce)

/-- A certificate and a withdrawal, proved with different secrets. -/
theorem valid_of_proved_two_keys :
    IsModule Exponent ∧ (∀ a : Exponent, decode? (encode a) = some a) ∧
    (attested.provedWith 5 7).verify Exponent = .ok true ∧
    searchBatch Exponent ⟨false, 1⟩ counting
      [attested.provedWith 5 7, (ofResponse 0).provedWith 6 8] = ⟨true, []⟩ := by
  have hP := Exponent.lawful.toIsModule
  have hencode := Exponent.lawful.decode_encode
  obtain ⟨hsingle, hbatch⟩ := valid_of_proved hP hencode
  obtain ⟨hanswer, -⟩ := hbatch
    [(⟨Scalar.ofNat order_pos 5⟩, Scalar.ofNat order_pos 7, attested),
      (⟨Scalar.ofNat order_pos 6⟩, Scalar.ofNat order_pos 8, ofResponse 0)] ⟨false, 1⟩ counting
  exact ⟨hP, hencode, hsingle _ _ attested, hanswer⟩

end Check

end SidechainVerifier
