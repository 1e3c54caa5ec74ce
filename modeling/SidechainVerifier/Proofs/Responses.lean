/-
SidechainVerifier.Proofs.Responses — how many responses one commitment and
one challenge can have.

The verifier reduces a response modulo the order when it reads it. What is
read of a proof is thus the same for all responses of one class
(`Transcript.Reads.of_response`), and a class has several numbers that fit
the 32 bytes. In a module of prime order the equation has one solution
(`SchnorrGroup.IsModule.smul_base_inj`), so no other class is accepted.

Main statement: the proofs that are accepted with the commitment and the
challenge of an accepted proof are those with a response of the same class,
and of these only one is reduced (`Check.accepted_iff_congruent`). The
response that is larger by the order is accepted as well, and puts the
object under another hash (`Check.exists_second_response`).
-/
import SidechainVerifier.Proofs.Boundaries
import SidechainVerifier.Proofs.Combinations
import SidechainVerifier.Proofs.HonestProofs

namespace SidechainVerifier

open SchnorrGroup

variable {P : Type} [SchnorrGroup P]

/-! ## The equation has one solution -/

namespace SchnorrGroup.IsModule

theorem smul_zero (hP : IsModule P) (k : Multiplier P) : smul k (zero : P) = zero := by
  have htwice : add (smul k (zero : P)) (smul k zero) = add (smul k zero) zero := by
    rw [← hP.smul_add, hP.zero_add, hP.add_zero]
  exact hP.add_left_cancel htwice

/-- An element is one multiple of the base at most. -/
theorem smul_base_inj (hP : IsModule P) (hprime : (order P).Prime) (hbase : (base : P) ≠ zero)
    {k l : Multiplier P} (h : smul k (base : P) = smul l base) : k = l := by
  by_contra hne
  obtain ⟨d, e, rfl, hunit⟩ := Scalar.exists_difference hprime hne
  have hsame : add (smul l (base : P)) (smul d base) = add (smul l base) zero := by
    rw [← hP.add_smul, h, hP.add_zero]
  have hzero : smul d (base : P) = zero := hP.add_left_cancel hsame
  exact hbase (hP.smul_left_cancel hunit (hzero.trans (hP.smul_zero d).symm))

end SchnorrGroup.IsModule

/-! ## Proofs with one head -/

namespace Proof

/-- The number that the response of a proof is, before it is reduced. -/
def response (proof : Proof) : Nat := Bytes.toNat (proof.bytes.drop 64)

/-- Two proofs have the same commitment and the same challenge. -/
def SameHead (p q : Proof) : Prop := p.bytes.take 64 = q.bytes.take 64

/-- The proof with its response replaced. -/
def withResponse (proof : Proof) (n : Nat) : Proof :=
  ⟨proof.bytes.take 64 ++ Bytes.littleEndian 32 n⟩

variable {p q : Proof}

theorem SameHead.take_eq (h : p.SameHead q) {n : Nat} (hn : n ≤ 64) :
    p.bytes.take n = q.bytes.take n := by
  have htake := congrArg (List.take n) h
  rwa [List.take_take, List.take_take, Nat.min_eq_left hn] at htake

theorem SameHead.challenge_eq (h : p.SameHead q) :
    (p.bytes.drop 32).take 32 = (q.bytes.drop 32).take 32 := by
  have hdrop := congrArg (List.drop 32) h
  rwa [List.drop_take, List.drop_take] at hdrop

/-- The response is all that is left to tell two proofs apart. -/
theorem SameHead.eq_of_response (h : p.SameHead q) (hlength : p.bytes.length = q.bytes.length)
    (hresponse : p.response = q.response) : p = q := by
  have hdrop : p.bytes.drop 64 = q.bytes.drop 64 :=
    Bytes.eq_of_toNat_eq (by rw [List.length_drop, List.length_drop, hlength]) hresponse
  have hbytes : p.bytes = q.bytes := by
    rw [← List.take_append_drop 64 p.bytes, h, hdrop, List.take_append_drop]
  cases p
  cases q
  exact congrArg mk hbytes

section

variable (hlength : p.bytes.length = encodedLength) (n : Nat)

include hlength

theorem length_head : (p.bytes.take 64).length = 64 := by
  rw [List.length_take, hlength]
  rfl

theorem sameHead_withResponse : p.SameHead (p.withResponse n) := by
  rw [SameHead, withResponse, List.take_left' (length_head hlength)]

theorem length_withResponse : (p.withResponse n).bytes.length = encodedLength := by
  rw [withResponse, List.length_append, length_head hlength, Bytes.length_littleEndian]
  rfl

theorem response_withResponse (hfits : n < 256 ^ 32) : (p.withResponse n).response = n := by
  rw [response, withResponse, List.drop_left' (length_head hlength),
    Bytes.toNat_littleEndian hfits]

end

end Proof

/-! ## What is read of them -/

namespace Transcript.Reads

variable {t u : Transcript P} {p q : Proof} {key : VerificationKey} {statement : FixedBytes 32}

/-- A response is looked at modulo the order only. -/
theorem of_response (h : t.Reads p key statement) (hhead : p.SameHead q)
    (hlength : q.bytes.length = Proof.encodedLength)
    (hresponse : q.response % order P = p.response % order P) : t.Reads q key statement where
  length := hlength
  commitment := by rw [h.commitment, hhead.take_eq (by decide)]
  challenge := by rw [h.challenge, hhead.challenge_eq]
  commitmentPoint := h.commitmentPoint
  challengeScalar := h.challengeScalar
  response := by
    rw [h.response]
    exact Scalar.ext_val hresponse.symm
  key := h.key
  statement := h.statement

/-- Two proofs of one head that are both accepted have one response, once it is reduced. -/
theorem response_eq (hP : IsModule P) (hprime : (order P).Prime) (hbase : (base : P) ≠ zero)
    (ht : t.Reads p key statement) (hu : u.Reads q key statement) (hhead : p.SameHead q)
    (htaccepted : t.accepted = true) (huaccepted : u.accepted = true) :
    t.response = u.response := by
  have hcommitment : t.commitment = u.commitment :=
    Vector.toList_inj.mp (by rw [ht.commitment, hu.commitment, hhead.take_eq (by decide)])
  have hchallenge : t.challenge = u.challenge :=
    Vector.toList_inj.mp (by rw [ht.challenge, hu.challenge, hhead.challenge_eq])
  have hpoint : t.commitmentPoint = u.commitmentPoint := by
    have hdecode := ht.commitmentPoint
    rw [hcommitment, hu.commitmentPoint] at hdecode
    exact (Option.some.inj hdecode).symm
  have hkey : t.key = u.key := by
    have hread := ht.key
    rw [hu.key] at hread
    exact (Option.some.inj hread).symm
  have hscalar : t.challengeScalar = u.challengeScalar := by
    rw [ht.challengeScalar, hu.challengeScalar, hchallenge]
  refine hP.smul_base_inj hprime hbase ?_
  calc smul t.response (base : P)
      = add t.commitmentPoint (smul t.challengeScalar t.key) :=
        equationHolds_iff.mp (accepted_iff.mp htaccepted).2
    _ = add u.commitmentPoint (smul u.challengeScalar u.key) := by rw [hpoint, hscalar, hkey]
    _ = smul u.response base := (equationHolds_iff.mp (accepted_iff.mp huaccepted).2).symm

end Transcript.Reads

/-! ## What is accepted -/

namespace Check

/-- The check with another proof, against the same key. -/
def withProof (proof : Proof) (check : Check) : Check := check.carrying proof check.key

variable {check : Check} {p q : Proof}

/-- A check with a proof is valid if the verifier reads a transcript off it and accepts that. -/
theorem verify_withProof_iff :
    (check.withProof p).verify P = .ok true ↔
      ∃ t : Transcript P, t.Reads p check.key check.statement ∧ t.accepted = true := by
  simp only [verify_eq_ok_true_iff, transcript_eq_ok_iff, withProof, proof_carrying, key_carrying,
    statement_carrying]

/-- Of the responses of one class, one is as good as the other. -/
theorem verify_of_response (hhead : p.SameHead q) (hlength : q.bytes.length = Proof.encodedLength)
    (hresponse : q.response % order P = p.response % order P)
    (hp : (check.withProof p).verify P = .ok true) :
    (check.withProof q).verify P = .ok true := by
  obtain ⟨t, ht, haccepted⟩ := verify_withProof_iff.mp hp
  exact verify_withProof_iff.mpr ⟨t, ht.of_response hhead hlength hresponse, haccepted⟩

/-- The responses that are accepted with the commitment and the challenge of a valid proof are those
that agree with its own modulo the order; so of two that are reduced, no more than one is. -/
theorem accepted_iff_congruent (hP : IsModule P) (hprime : (order P).Prime)
    (hbase : (base : P) ≠ zero) (hhead : p.SameHead q)
    (hp : (check.withProof p).verify P = .ok true) :
    ((check.withProof q).verify P = .ok true ↔
      q.bytes.length = Proof.encodedLength ∧ q.response % order P = p.response % order P) ∧
    ((check.withProof q).verify P = .ok true → p.response < order P → q.response < order P →
      p = q) := by
  have hiff : (check.withProof q).verify P = .ok true ↔
      q.bytes.length = Proof.encodedLength ∧ q.response % order P = p.response % order P := by
    constructor
    · intro hq
      obtain ⟨t, ht, htaccepted⟩ := verify_withProof_iff.mp hp
      obtain ⟨u, hu, huaccepted⟩ := verify_withProof_iff.mp hq
      have hsame := ht.response_eq hP hprime hbase hu hhead htaccepted huaccepted
      rw [ht.response, hu.response] at hsame
      exact ⟨hu.length, (congrArg Scalar.val hsame).symm⟩
    · rintro ⟨hlength, hresponse⟩
      exact verify_of_response hhead hlength hresponse hp
  refine ⟨hiff, fun hq hpreduced hqreduced => ?_⟩
  obtain ⟨t, ht, -⟩ := verify_withProof_iff.mp hp
  obtain ⟨hlength, hresponse⟩ := hiff.mp hq
  rw [Nat.mod_eq_of_lt hpreduced, Nat.mod_eq_of_lt hqreduced] at hresponse
  exact hhead.eq_of_response (ht.length.trans hlength.symm) hresponse.symm

set_option maxRecDepth 100000 in
/-- The response that is larger by the order is accepted, the one that is larger by one is not. -/
theorem accepted_iff_congruent_shifted :
    IsModule Multiple ∧ (order Multiple).Prime ∧ (base : Multiple) ≠ zero ∧
    let check := ofResponse 85
    let p := check.proof
    (check.withProof p).verify Multiple = .ok true ∧
    (check.withProof (p.withResponse (p.response + order Multiple))).verify Multiple = .ok true ∧
    (check.withProof (p.withResponse (p.response + 1))).verify Multiple ≠ .ok true := by
  have hP := Multiple.isModule
  have hprime : (order Multiple).Prime := Ristretto.groupOrder_prime
  have hbase : (base : Multiple) ≠ zero := by decide +kernel
  have hp : ((ofResponse 85).withProof (ofResponse 85).proof).verify Multiple = .ok true := by
    decide +kernel
  have hlength : (ofResponse 85).proof.bytes.length = Proof.encodedLength := by decide
  have hreduced : (ofResponse 85).proof.response + 1 < order Multiple ∧
      order Multiple + order Multiple < 256 ^ 32 := by decide +kernel
  obtain ⟨hreduced, hfits⟩ := hreduced
  refine ⟨hP, hprime, hbase, hp, ?_, ?_⟩
  · refine (accepted_iff_congruent hP hprime hbase (Proof.sameHead_withResponse hlength _) hp).1.mpr
      ⟨Proof.length_withResponse hlength _, ?_⟩
    rw [Proof.response_withResponse hlength _ (by omega), Nat.add_mod_right]
  · intro hq
    have hresponse := ((accepted_iff_congruent hP hprime hbase
      (Proof.sameHead_withResponse hlength _) hp).1.mp hq).2
    rw [Proof.response_withResponse hlength _ (by omega), Nat.mod_eq_of_lt hreduced,
      Nat.mod_eq_of_lt (by omega)] at hresponse
    omega

end Check

/-! ## A second response -/

/-- A certificate whose check is the attested one, but for its proof. -/
def Certificate.attesting (proof : Proof) : Certificate :=
  { sidechain := .zero
    epoch := 3
    quality := 10
    transfers := [⟨FixedBytes.zero 20, 1000⟩]
    forwardTransferFee := 2
    backwardRequestFee := 1
    customFields := [.zero]
    proof := proof }

/-- The sidechain it is for. -/
def Sidechain.attesting : Sidechain :=
  ⟨1, 10, some .zero, Check.attested.key, none, none, none, none⟩

/-- A view of that sidechain, with roots at both ends of the epoch. -/
def View.attesting : View :=
  ((View.empty.setSidechain .zero .attesting).setCommitmentRoot 30 .zero).setCommitmentRoot 40 .zero

/-- The check is what is requested for the certificate. -/
theorem Certificate.request_attesting (proof : Proof) :
    ∃ r, (Certificate.attesting proof).request .attesting none = .ok r ∧
      r.hash = (Certificate.attesting proof).hash ∧
      Check.certificate r.check = Check.attested.withProof proof := by
  have hepoch : Sidechain.attesting.LiesBetween 3 30 40 := ⟨by decide, by decide⟩
  exact ⟨_, Certificate.request_eq_iff.mpr (.extracted rfl hepoch rfl rfl), rfl, rfl⟩

namespace Check

/-- The attested proof, with a response that is larger by the order. -/
def attestedShifted : Proof :=
  attested.proof.withResponse (attested.proof.response + order Ristretto.Element)

set_option maxRecDepth 100000 in
theorem hash_attestedShifted :
    (Certificate.attesting attested.proof).hash ≠ (Certificate.attesting attestedShifted).hash := by
  decide +kernel

/-- An accepted certificate becomes one of another hash that is accepted as well, and all that is
changed is the response. -/
theorem exists_second_response :
    ∃ (p q : Proof) (r r' : CertificateRequest), p.SameHead q ∧ p ≠ q ∧
      (Certificate.attesting p).request .attesting none = .ok r ∧
      (Certificate.attesting q).request .attesting none = .ok r' ∧
      Check.certificate r.check = attested.withProof p ∧
      Check.certificate r'.check = attested.withProof q ∧
      (attested.withProof p).verify Ristretto.Element = .ok true ∧
      (attested.withProof q).verify Ristretto.Element = .ok true ∧ r.hash ≠ r'.hash := by
  have hlength : attested.proof.bytes.length = Proof.encodedLength := by decide
  have hfits : attested.proof.response + order Ristretto.Element < 256 ^ 32 := by decide +kernel
  have hhead : attested.proof.SameHead attestedShifted := Proof.sameHead_withResponse hlength _
  have hp : (attested.withProof attested.proof).verify Ristretto.Element = .ok true :=
    verify_attested.1
  have hq : (attested.withProof attestedShifted).verify Ristretto.Element = .ok true := by
    refine verify_of_response hhead (Proof.length_withResponse hlength _) ?_ hp
    rw [attestedShifted, Proof.response_withResponse hlength _ hfits, Nat.add_mod_right]
  have hne : attested.proof ≠ attestedShifted := fun h => hash_attestedShifted (by rw [← h])
  obtain ⟨r, hrequest, hhash, hcheck⟩ := Certificate.request_attesting attested.proof
  obtain ⟨r', hrequest', hhash', hcheck'⟩ := Certificate.request_attesting attestedShifted
  exact ⟨_, _, r, r', hhead, hne, hrequest, hrequest', hcheck, hcheck', hp, hq,
    by rw [hhash, hhash']; exact hash_attestedShifted⟩

end Check

end SidechainVerifier
