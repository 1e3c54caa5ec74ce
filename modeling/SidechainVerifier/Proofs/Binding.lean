/-
SidechainVerifier.Proofs.Binding — a proof attests to one set of public
inputs, under one key.

An accepted proof holds the digest of its commitment, its key and the
statement, and the statement is itself the digest of the check's message.
So one proof that is accepted in two checks leads from the one challenge to
one challenge message, from there to one key and one statement, and from the
statement to one message. The message tells family and public inputs
(`Check.eq_of_message`), so the two checks are the same
(`Check.eq_of_verify`). On the way digests are inverted, which is right as
long as no two of the byte strings that were digested collide
(`Sha256.NoCollisions`).
-/
import SidechainVerifier.Proofs.Layouts
import SidechainVerifier.Proofs.Transcripts
import SidechainVerifier.Ristretto.Group

namespace SidechainVerifier

open SchnorrGroup

/-! ## The messages of checks -/

/-- The mark byte says whether an element follows. -/
theorem FieldElement.selfDelimiting_optional :
    Bytes.SelfDelimiting FieldElement.optionalBytes := by
  intro a b x y h
  cases a with
  | none => cases b with
    | none => exact ⟨rfl, List.append_cancel_left h⟩
    | some f => simp [optionalBytes] at h
  | some e => cases b with
    | none => simp [optionalBytes] at h
    | some f =>
      simp only [optionalBytes, List.cons_append, List.cons.injEq, true_and] at h
      obtain ⟨hef, hxy⟩ := FieldElement.selfDelimiting h
      exact ⟨by rw [hef], hxy⟩

namespace CertificateCheck

/-- The lengths of both lists fit the eight bytes they are laid out in. -/
structure ListsFit (c : CertificateCheck) : Prop where
  transfers : c.transfers.length < 2 ^ 64
  customFields : c.customFields.length < 2 ^ 64

instance (c : CertificateCheck) : Decidable c.ListsFit :=
  decidable_of_iff (c.transfers.length < 2 ^ 64 ∧ c.customFields.length < 2 ^ 64)
    ⟨fun ⟨ht, hf⟩ => ⟨ht, hf⟩, fun ⟨ht, hf⟩ => ⟨ht, hf⟩⟩

/-- Every public input of a certificate's check can be read off its message. -/
theorem eq_of_message {c d : CertificateCheck} (hc : c.ListsFit) (hd : d.ListsFit)
    (h : c.message = d.message) (hproof : c.proof = d.proof) (hkey : c.key = d.key) : c = d := by
  simp only [message, List.append_assoc] at h
  have h := List.append_cancel_left h
  obtain ⟨hsidechain, h⟩ := Hash.selfDelimiting h
  obtain ⟨hconstant, h⟩ := FieldElement.selfDelimiting_optional h
  obtain ⟨hepoch, h⟩ := Bytes.selfDelimiting_uint32 h
  obtain ⟨hquality, h⟩ := Bytes.selfDelimiting_uint64 h
  obtain ⟨htransfers, h⟩ :=
    BackwardTransfer.selfDelimiting.counted_append_inj hc.transfers hd.transfers h
  obtain ⟨hfields, h⟩ :=
    FieldElement.selfDelimiting.counted_append_inj hc.customFields hd.customFields h
  obtain ⟨hstart, h⟩ := FieldElement.selfDelimiting h
  obtain ⟨hend, h⟩ := FieldElement.selfDelimiting h
  obtain ⟨hbackward, h⟩ := Bytes.selfDelimiting_uint64 h
  have hforward := Bytes.selfDelimiting_uint64.inj h
  cases c
  cases d
  simp_all

/-- The first letter of the family's name tells the two kinds of messages apart. -/
theorem message_ne_withdrawal (c : CertificateCheck) (w : WithdrawalCheck) :
    c.message ≠ w.message := by
  have hc : c.message[19]? = some 101 := by
    simp [message, Bytes.ascii]
  have hw : w.message[19]? = some 115 := by
    simp [WithdrawalCheck.message, Bytes.ascii]
  intro h
  rw [h, hw] at hc
  exact absurd hc (by decide)

end CertificateCheck

/-- Every public input of a withdrawal's check can be read off its message. -/
theorem WithdrawalCheck.eq_of_message {v w : WithdrawalCheck} (h : v.message = w.message)
    (hproof : v.proof = w.proof) (hkey : v.key = w.key) : v = w := by
  simp only [message, List.append_assoc] at h
  have h := List.append_cancel_left h
  obtain ⟨hsidechain, h⟩ := Hash.selfDelimiting h
  obtain ⟨hconstant, h⟩ := FieldElement.selfDelimiting_optional h
  obtain ⟨hamount, h⟩ := Bytes.selfDelimiting_uint64 h
  obtain ⟨hnullifier, h⟩ := FieldElement.selfDelimiting h
  obtain ⟨hdestination, h⟩ := Bytes.selfDelimiting_fixed 20 h
  obtain ⟨hdata, h⟩ := FieldElement.selfDelimiting_optional h
  have hroot := FieldElement.selfDelimiting.inj h
  cases v
  cases w
  simp_all

namespace Check

/-- The byte string whose digest is the check's statement. -/
def message : Check → Bytes
  | .certificate c => c.message
  | .withdrawal w => w.message

theorem statement_eq (check : Check) : check.statement = sha256 check.message := by
  cases check <;> rfl

/-- The lists among the public inputs are shorter than `2 ^ 64`. -/
def ListsFit : Check → Prop
  | .certificate c => c.ListsFit
  | .withdrawal _ => True

instance : DecidablePred ListsFit
  | .certificate c => inferInstanceAs (Decidable c.ListsFit)
  | .withdrawal _ => inferInstanceAs (Decidable True)

/-- Family and public inputs of a check can be read off its message. -/
theorem eq_of_message {a b : Check} (ha : a.ListsFit) (hb : b.ListsFit)
    (h : a.message = b.message) (hproof : a.proof = b.proof) (hkey : a.key = b.key) : a = b := by
  cases a with
  | certificate c => cases b with
    | certificate d => rw [CertificateCheck.eq_of_message ha hb h hproof hkey]
    | withdrawal w => exact absurd h (c.message_ne_withdrawal w)
  | withdrawal v => cases b with
    | certificate d => exact absurd h.symm (d.message_ne_withdrawal v)
    | withdrawal w => rw [WithdrawalCheck.eq_of_message h hproof hkey]

end Check

/-! ## Assumptions -/

/-- No two different byte strings of a list have one SHA-256 digest. -/
def Sha256.NoCollisions (messages : List Bytes) : Prop :=
  ∀ x ∈ messages, ∀ y ∈ messages, sha256 x = sha256 y → x = y

theorem Sha256.NoCollisions.mono {messages others : List Bytes} (h : Sha256.NoCollisions others)
    (hsub : messages ⊆ others) : Sha256.NoCollisions messages :=
  fun x hx y hy hxy => h x (hsub hx) y (hsub hy) hxy

theorem Sha256.noCollisions_pair {x y : Bytes} (h : sha256 x ≠ sha256 y) :
    Sha256.NoCollisions [x, y] := by
  intro a ha b hb hab
  simp only [List.mem_cons, List.not_mem_nil, or_false] at ha hb
  obtain rfl | rfl := ha <;> obtain rfl | rfl := hb
  · rfl
  · exact absurd hab h
  · exact absurd hab.symm h
  · rfl

/-- The only bytes that are accepted as an element are those it is encoded to. -/
def SchnorrGroup.UniqueEncoding (P : Type) [SchnorrGroup P] : Prop :=
  ∀ (encoding : FixedBytes 32) (p : P), decode? encoding = some p → encode p = encoding

/-- An element of Ristretto255 is kept as its encoding. -/
theorem Ristretto.uniqueEncoding : UniqueEncoding Ristretto.Element := by
  intro encoding p h
  simp only [decode?, Ristretto.Element.ofEncoding?] at h
  split at h
  · rw [← Option.some.inj h]
    rfl
  · cases h

variable {P : Type} [SchnorrGroup P]

/-- Keys that are read as elements with one encoding are the same. -/
theorem SchnorrGroup.UniqueEncoding.key_eq (h : UniqueEncoding P) {k l : VerificationKey} {p q : P}
    (hk : ofBytes? k.bytes = some p) (hl : ofBytes? l.bytes = some q) (hpq : encode p = encode q) :
    k = l := by
  obtain ⟨encoding, hbytes, hdecode⟩ := ofBytes?_eq_some_iff.mp hk
  obtain ⟨other, hbytes', hdecode'⟩ := ofBytes?_eq_some_iff.mp hl
  have hsame : encoding = other := by rw [← h _ _ hdecode, ← h _ _ hdecode', hpq]
  cases k
  cases l
  simp_all

/-! ## From the challenge to the statement -/

namespace Transcript

/-- The byte string whose digest the challenge has to be. -/
def challengeMessage (t : Transcript P) : Bytes :=
  t.commitment.toList ++ (encode t.key).toList ++ t.statement.toList

theorem sha256_challengeMessage {t : Transcript P} (h : t.accepted = true) :
    sha256 t.challengeMessage = t.challenge := by
  exact of_decide_eq_true (accepted_iff.mp h).1

/-- Key and statement have fixed places in the challenge message. -/
theorem eq_of_challengeMessage {t u : Transcript P} (h : t.challengeMessage = u.challengeMessage) :
    encode t.key = encode u.key ∧ t.statement = u.statement := by
  simp only [challengeMessage, List.append_assoc] at h
  obtain ⟨-, h⟩ := Bytes.selfDelimiting_fixed 32 h
  obtain ⟨hkey, h⟩ := Bytes.selfDelimiting_fixed 32 h
  exact ⟨hkey, Vector.toList_inj.mp h⟩

end Transcript

/-! ## Binding -/

namespace Check

/-- The byte strings that are digested when a check is verified. -/
def digested (P : Type) [SchnorrGroup P] (check : Check) : List Bytes :=
  match check.transcript P with
  | .ok t => [check.message, t.challengeMessage]
  | .error _ => [check.message]

theorem digested_eq {check : Check} {t : Transcript P} (h : check.transcript P = .ok t) :
    check.digested P = [check.message, t.challengeMessage] := by
  rw [digested, h]

/-- The digests of an accepted check are its statement and its challenge. -/
theorem noCollisions_digested {check : Check} (h : check.verify P = .ok true)
    (hne : check.statement.toList ≠ (check.proof.bytes.drop 32).take 32) :
    Sha256.NoCollisions (check.digested P) := by
  obtain ⟨t, ht, haccepted⟩ := verify_eq_ok_true_iff.mp h
  rw [digested_eq ht]
  refine Sha256.noCollisions_pair ?_
  rw [← statement_eq, Transcript.sha256_challengeMessage haccepted]
  intro hsame
  exact hne (by rw [hsame, (transcript_eq_ok_iff.mp ht).challenge])

/-- Two checks that one proof passes are the same check: of one family, with the same public inputs
and the same key. -/
theorem eq_of_verify (P : Type) [SchnorrGroup P] (a b : Check) (hunique : UniqueEncoding P)
    (hfree : Sha256.NoCollisions (a.digested P ++ b.digested P)) (ha : a.ListsFit)
    (hb : b.ListsFit) (hproof : a.proof = b.proof) (hva : a.verify P = .ok true)
    (hvb : b.verify P = .ok true) : a = b := by
  obtain ⟨t, hta, htaccepted⟩ := verify_eq_ok_true_iff.mp hva
  obtain ⟨u, hub, huaccepted⟩ := verify_eq_ok_true_iff.mp hvb
  rw [digested_eq hta, digested_eq hub] at hfree
  have ht := transcript_eq_ok_iff.mp hta
  have hu := transcript_eq_ok_iff.mp hub
  have hchallenge : t.challenge = u.challenge :=
    Vector.toList_inj.mp (by rw [ht.challenge, hu.challenge, hproof])
  have hchallengeMessage : t.challengeMessage = u.challengeMessage := by
    refine hfree _ (by simp) _ (by simp) ?_
    rw [Transcript.sha256_challengeMessage htaccepted,
      Transcript.sha256_challengeMessage huaccepted, hchallenge]
  obtain ⟨hencode, hstatement⟩ := Transcript.eq_of_challengeMessage hchallengeMessage
  have hkey : a.key = b.key := hunique.key_eq ht.key hu.key hencode
  have hmessage : a.message = b.message := by
    refine hfree _ (by simp) _ (by simp) ?_
    rw [← statement_eq, ← statement_eq, ← ht.statement, ← hu.statement, hstatement]
  exact eq_of_message ha hb hmessage hproof hkey

/-- A certificate's check with a valid proof, made with the secret 5 and the nonce 7. -/
def attested : Check := .certificate
  { sidechain := .zero
    constant := some .zero
    epoch := 3
    quality := 10
    transfers := [⟨FixedBytes.zero 20, 1000⟩]
    customFields := [.zero]
    startRoot := .zero
    endRoot := .zero
    backwardRequestFee := 1
    forwardTransferFee := 2
    proof := ⟨[68, 245, 53, 32, 146, 110, 200, 31, 189, 90, 56, 120, 69, 190, 183, 223,
      133, 169, 106, 36, 236, 225, 135, 56, 189, 207, 166, 167, 130, 42, 23, 109,
      226, 41, 208, 252, 228, 196, 219, 138, 62, 220, 44, 35, 114, 33, 170, 177,
      131, 247, 219, 98, 118, 251, 221, 250, 105, 170, 242, 204, 241, 153, 28, 57,
      180, 190, 189, 195, 184, 67, 18, 221, 252, 226, 110, 221, 113, 15, 132, 21,
      145, 213, 75, 238, 79, 233, 85, 230, 17, 84, 189, 0, 185, 1, 143, 13]⟩
    key := ⟨[232, 130, 177, 49, 1, 107, 82, 193, 211, 51, 112, 128, 24, 124, 247, 104,
      66, 62, 252, 203, 181, 23, 187, 73, 90, 184, 18, 196, 22, 15, 244, 78]⟩ }

set_option maxRecDepth 100000 in
theorem verify_attested : attested.verify Ristretto.Element = .ok true ∧
    attested.statement.toList ≠ (attested.proof.bytes.drop 32).take 32 := by
  decide +kernel

/-- The premises hold of the attested check beside itself. -/
theorem eq_of_verify_attested :
    UniqueEncoding Ristretto.Element ∧
    Sha256.NoCollisions
      (attested.digested Ristretto.Element ++ attested.digested Ristretto.Element) ∧
    attested.ListsFit ∧ attested.verify Ristretto.Element = .ok true ∧ attested = attested := by
  obtain ⟨hverify, hchallenge⟩ := verify_attested
  have hfree := (noCollisions_digested hverify hchallenge).mono
    (List.append_subset.mpr ⟨List.Subset.refl _, List.Subset.refl _⟩)
  have hfit : attested.ListsFit := by decide
  exact ⟨Ristretto.uniqueEncoding, hfree, hfit, hverify,
    eq_of_verify Ristretto.Element attested attested Ristretto.uniqueEncoding hfree hfit hfit rfl
      hverify hverify⟩

end Check

end SidechainVerifier
