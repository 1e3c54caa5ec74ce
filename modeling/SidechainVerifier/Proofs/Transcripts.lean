/-
SidechainVerifier.Proofs.Transcripts — what it takes to read a proof, and
what it takes to accept it.

`Transcript.Reads` says of each field of a transcript where in proof and
key it was read; `Transcript.read_eq_ok_iff` says that this is all that
reading does. A check answers `true` exactly when there is such a
transcript, its challenge matches and its equation holds
(`Check.verify_eq_ok_true_iff`).
-/
import SidechainVerifier.Schnorr.Transcript

namespace SidechainVerifier

open SchnorrGroup

@[simp] theorem FixedBytes.toList_mk {n : Nat} {bytes : Bytes}
    (h : bytes.toArray.size = n) : (⟨bytes.toArray, h⟩ : FixedBytes n).toList = bytes := rfl

theorem FixedBytes.ofBytes?_eq_some_iff {n : Nat} {bytes : Bytes} {fixed : FixedBytes n} :
    FixedBytes.ofBytes? n bytes = some fixed ↔ bytes = fixed.toList := by
  constructor
  · intro h
    simp only [FixedBytes.ofBytes?] at h
    split at h
    · rw [← Option.some.inj h, FixedBytes.toList_mk]
    · cases h
  · rintro rfl
    simp only [FixedBytes.ofBytes?, Vector.length_toList, dite_true, Option.some.injEq]
    exact Vector.toList_inj.mp (FixedBytes.toList_mk _)

variable {P : Type} [SchnorrGroup P]

/-- An element is decoded from 32 bytes. -/
theorem SchnorrGroup.ofBytes?_eq_some_iff {bytes : Bytes} {p : P} :
    ofBytes? bytes = some p ↔
      ∃ encoding : FixedBytes 32, bytes = encoding.toList ∧ decode? encoding = some p := by
  simp [ofBytes?, Option.bind_eq_some_iff, FixedBytes.ofBytes?_eq_some_iff]

theorem SchnorrGroup.decode?_of_ofBytes? {encoding : FixedBytes 32} {p : P}
    (h : ofBytes? encoding.toList = some p) : decode? encoding = some p := by
  obtain ⟨other, hbytes, hdecode⟩ := ofBytes?_eq_some_iff.mp h
  rwa [Vector.toList_inj.mp hbytes]

namespace Transcript

/-- Every field of the transcript is what stands in its place in the proof, or in the key. -/
structure Reads (t : Transcript P) (proof : Proof) (key : VerificationKey)
    (statement : FixedBytes 32) : Prop where
  length : proof.bytes.length = Proof.encodedLength
  commitment : t.commitment.toList = proof.bytes.take 32
  challenge : t.challenge.toList = (proof.bytes.drop 32).take 32
  commitmentPoint : decode? t.commitment = some t.commitmentPoint
  challengeScalar : t.challengeScalar = multiplier P t.challenge.toList
  response : t.response = multiplier P (proof.bytes.drop 64)
  key : ofBytes? key.bytes = some t.key
  statement : t.statement = statement

variable {t : Transcript P} {proof : Proof} {key : VerificationKey} {statement : FixedBytes 32}

theorem reads_of_read (h : read proof key statement = .ok t) : t.Reads proof key statement := by
  simp only [read] at h
  split at h
  case isFalse => cases h
  case isTrue hlength =>
    split at h
    case h_1 => cases h
    case h_2 keyPoint hkey =>
      split at h
      case h_1 => cases h
      case h_2 commitmentPoint hcommitment =>
        cases h
        exact ⟨hlength, rfl, rfl, decode?_of_ofBytes? hcommitment, rfl, rfl, hkey, rfl⟩

theorem Reads.read_eq (h : t.Reads proof key statement) : read proof key statement = .ok t := by
  have hpoint : ofBytes? (proof.bytes.take 32) = some t.commitmentPoint :=
    ofBytes?_eq_some_iff.mpr ⟨t.commitment, h.commitment.symm, h.commitmentPoint⟩
  simp only [read, h.length, dite_true, h.key, hpoint, Except.ok.injEq]
  obtain ⟨commitment, challenge, commitmentPoint, challengeScalar, response, keyPoint, stated⟩ := t
  obtain ⟨-, hcommitment, hchallenge, -, hscalar, hresponse, -, hstatement⟩ := h
  simp only at hcommitment hchallenge hscalar hresponse hstatement
  subst hscalar hresponse hstatement
  congr 1
  · exact Vector.toList_inj.mp hcommitment.symm
  · exact Vector.toList_inj.mp hchallenge.symm
  · rw [hchallenge]

theorem read_eq_ok_iff : read proof key statement = .ok t ↔ t.Reads proof key statement :=
  ⟨reads_of_read, Reads.read_eq⟩

theorem accepted_iff : t.accepted = true ↔ t.challengeMatches = true ∧ t.equationHolds = true := by
  simp [accepted]

end Transcript

namespace Check

theorem transcript_eq_ok_iff {check : Check} {t : Transcript P} :
    check.transcript P = .ok t ↔ t.Reads check.proof check.key check.statement :=
  Transcript.read_eq_ok_iff

theorem verify_eq_ok_true_iff {check : Check} :
    check.verify P = .ok true ↔ ∃ t, check.transcript P = .ok t ∧ t.accepted = true := by
  simp only [verify]
  cases check.transcript P <;> simp [Except.map]

instance (check : Check) : Decidable (check.verify P = .ok true) :=
  decidable_of_iff ((check.verify P).toOption = some true)
    (by cases check.verify P <;> simp [Except.toOption])

end Check

end SidechainVerifier
