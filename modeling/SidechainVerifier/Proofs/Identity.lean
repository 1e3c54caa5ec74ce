/-
SidechainVerifier.Proofs.Identity — what the hash of an object says about
the object.

Hashes are digests of preimages, so two objects with one hash have one
preimage as long as no two of the byte strings at hand collide
(`NoCollisions`). What is left is the layout of the preimages:

* `Certificate.eq_of_preimage` — two certificates with one preimage are the
  same, as every list in it is counted;
* `Certificate.preimage_ne_transaction` — no certificate has the preimage of
  a transaction;
* `Transaction.preimage_eq_iff` — two transactions have one preimage exactly
  when they agree on version, number of withdrawals and `body`, the run of
  bytes that withdrawals and payload make up together;
* `Transaction.identified_by_hash_iff` — of two transactions with one
  preimage, or with one hash, it takes the lengths of their proofs to say
  whether they are the same.

A proof is laid out without its length, so a byte can pass from the end of
a proof to what comes after it: `Transaction.hash_not_injective`.
-/
import Mathlib.Data.List.Nodup
import SidechainVerifier.Chain.Transaction
import SidechainVerifier.Proofs.Layouts

namespace SidechainVerifier

/-! ## Collisions -/

/-- No two different byte strings of a list have one digest. -/
def NoCollisions (messages : List Bytes) : Prop :=
  ∀ x ∈ messages, ∀ y ∈ messages, Hash.digest x = Hash.digest y → x = y

theorem NoCollisions.mono {messages others : List Bytes} (h : NoCollisions others)
    (hsub : ∀ x ∈ messages, x ∈ others) : NoCollisions messages :=
  fun x hx y hy hxy => h x (hsub x hx) y (hsub y hy) hxy

theorem noCollisions_of_nodup {messages : List Bytes} (h : (messages.map Hash.digest).Nodup) :
    NoCollisions messages :=
  fun _ hx _ hy => List.inj_on_of_nodup_map h hx hy

theorem noCollisions_singleton (message : Bytes) : NoCollisions [message] := by
  intro x hx y hy _
  rw [List.mem_singleton.mp hx, List.mem_singleton.mp hy]

/-! ## The two kinds of preimages -/

/-- The fourth byte tells the two kinds of objects apart. -/
theorem Certificate.preimage_ne_transaction (c : Certificate) (t : Transaction) :
    c.preimage ≠ t.preimage := by
  have hc : c.preimage[3]? = some 99 := by
    simp [Certificate.preimage, Bytes.ascii]
  have ht : t.preimage[3]? = some 116 := by
    simp [Transaction.preimage, Bytes.ascii]
  intro h
  rw [h, ht] at hc
  exact absurd hc (by decide)

/-! ## Certificates -/

namespace Certificate

/-- The lists of a certificate can be counted in 64 bits. -/
structure Fits (c : Certificate) : Prop where
  transfers : c.transfers.length < 2 ^ 64
  customFields : c.customFields.length < 2 ^ 64

/-- Every field can be read off the preimage, the proof last. -/
theorem eq_of_preimage {c d : Certificate} (hc : c.Fits) (hd : d.Fits)
    (h : c.preimage = d.preimage) : c = d := by
  simp only [preimage, List.append_assoc] at h
  have h := List.append_cancel_left h
  obtain ⟨hsidechain, h⟩ := Hash.selfDelimiting h
  obtain ⟨hepoch, h⟩ := Bytes.selfDelimiting_uint32 h
  obtain ⟨hquality, h⟩ := Bytes.selfDelimiting_uint64 h
  obtain ⟨htransfers, h⟩ :=
    BackwardTransfer.selfDelimiting.counted_append_inj hc.transfers hd.transfers h
  obtain ⟨hforward, h⟩ := Bytes.selfDelimiting_uint64 h
  obtain ⟨hbackward, h⟩ := Bytes.selfDelimiting_uint64 h
  obtain ⟨hfields, h⟩ :=
    FieldElement.selfDelimiting.counted_append_inj hc.customFields hd.customFields h
  have hproof : c.proof = d.proof := congrArg Proof.mk h
  cases c
  cases d
  simp_all

end Certificate

/-! ## Transactions -/

namespace WithdrawalInput

/-- The fields of a withdrawal in front of its proof. -/
def header (w : WithdrawalInput) : Bytes :=
  w.sidechain.bytes.toList ++
  Bytes.littleEndian 8 w.amount.toNat ++
  w.nullifier.bytes.toList ++
  w.destination.toList ++
  w.ceasingRoot.bytes.toList

theorem bytes_eq (w : WithdrawalInput) : w.bytes = w.header ++ w.proof.bytes := rfl

@[simp] theorem length_header (w : WithdrawalInput) : w.header.length = 124 := by
  simp [header]

/-- Every field can be read off the header. -/
theorem eq_of_header {v w : WithdrawalInput} (h : v.header = w.header)
    (hproof : v.proof = w.proof) : v = w := by
  simp only [header, List.append_assoc] at h
  obtain ⟨hsidechain, h⟩ := Hash.selfDelimiting h
  obtain ⟨hamount, h⟩ := Bytes.selfDelimiting_uint64 h
  obtain ⟨hnullifier, h⟩ := FieldElement.selfDelimiting h
  obtain ⟨hdestination, h⟩ := Bytes.selfDelimiting_fixed 20 h
  have hroot := FieldElement.selfDelimiting.inj h
  cases v
  cases w
  simp_all

/-- Withdrawals can be cut out of a run of bytes by whoever knows the lengths of their proofs. -/
theorem eq_of_flatMap_bytes : ∀ {vs ws : List WithdrawalInput} {x y : Bytes},
    vs.flatMap bytes ++ x = ws.flatMap bytes ++ y →
    vs.map (fun v => v.proof.bytes.length) = ws.map (fun w => w.proof.bytes.length) →
    vs = ws ∧ x = y
  | [], [], _, _, h, _ => ⟨rfl, h⟩
  | [], _ :: _, _, _, _, hlen => by simp at hlen
  | _ :: _, [], _, _, _, hlen => by simp at hlen
  | v :: vs, w :: ws, x, y, h, hlen => by
      simp only [List.map_cons, List.cons.injEq] at hlen
      obtain ⟨hproof, hlen⟩ := hlen
      simp only [List.flatMap_cons, bytes_eq, List.append_assoc] at h
      obtain ⟨hheader, h⟩ := List.append_inj h (by simp)
      obtain ⟨hbytes, h⟩ := List.append_inj h hproof
      obtain ⟨hrest, hxy⟩ := eq_of_flatMap_bytes h hlen
      have hvw : v = w := eq_of_header hheader (congrArg Proof.mk hbytes)
      exact ⟨by rw [hvw, hrest], hxy⟩

end WithdrawalInput

namespace Transaction

/-- The bytes of all withdrawals and of the payload, as the preimage runs them together. -/
def body (t : Transaction) : Bytes := t.withdrawals.flatMap WithdrawalInput.bytes ++ t.payload

/-- The lengths of the proofs, in the order of the withdrawals. -/
def proofLengths (t : Transaction) : List Nat := t.withdrawals.map fun w => w.proof.bytes.length

theorem preimage_eq_iff {t u : Transaction} (ht : t.withdrawals.length < 2 ^ 64)
    (hu : u.withdrawals.length < 2 ^ 64) :
    t.preimage = u.preimage ↔
      t.version = u.version ∧ t.withdrawals.length = u.withdrawals.length ∧ t.body = u.body := by
  simp only [preimage, Bytes.counted, body, List.append_assoc]
  constructor
  · intro h
    have h := List.append_cancel_left h
    obtain ⟨hversion, h⟩ := List.append_inj h (by simp)
    obtain ⟨hcount, hbody⟩ := List.append_inj h (by simp)
    refine ⟨?_, Bytes.littleEndian_inj (by omega) (by omega) hcount, hbody⟩
    exact congrArg Int32.ofUInt32 (Bytes.littleEndian_uint32_inj hversion)
  · rintro ⟨hversion, hcount, hbody⟩
    rw [hversion, hcount, hbody]

/-- The number of withdrawals can be read off the hash. -/
theorem length_eq_of_hash_eq {t u : Transaction} (ht : t.withdrawals.length < 2 ^ 64)
    (hu : u.withdrawals.length < 2 ^ 64) {messages : List Bytes} (hfree : NoCollisions messages)
    (htm : t.preimage ∈ messages) (hum : u.preimage ∈ messages) (h : t.hash = u.hash) :
    t.withdrawals.length = u.withdrawals.length :=
  ((preimage_eq_iff ht hu).mp (hfree _ htm _ hum h)).2.1

/-- Of two transactions with one preimage, the lengths of the proofs say whether they are the
same. -/
theorem eq_iff_of_preimage_eq {t u : Transaction} (ht : t.withdrawals.length < 2 ^ 64)
    (hu : u.withdrawals.length < 2 ^ 64) (h : t.preimage = u.preimage) :
    t = u ↔ t.proofLengths = u.proofLengths := by
  constructor
  · intro htu
    rw [htu]
  · intro hlen
    obtain ⟨hversion, -, hbody⟩ := (preimage_eq_iff ht hu).mp h
    obtain ⟨hwithdrawals, hpayload⟩ := WithdrawalInput.eq_of_flatMap_bytes hbody hlen
    cases t
    cases u
    simp_all

/-- What the hash of a transaction fixes, and what it leaves open: version, number of withdrawals
and the bytes of withdrawals and payload run together, but not where a proof ends. -/
theorem identified_by_hash_iff (t u : Transaction) (ht : t.withdrawals.length < 2 ^ 64)
    (hu : u.withdrawals.length < 2 ^ 64) (hfree : NoCollisions [t.preimage, u.preimage]) :
    (t.hash = u.hash ↔ t.preimage = u.preimage) ∧
    (t.preimage = u.preimage ↔
      t.version = u.version ∧ t.withdrawals.length = u.withdrawals.length ∧ t.body = u.body) ∧
    (t.preimage = u.preimage → (t = u ↔ t.proofLengths = u.proofLengths)) := by
  refine ⟨⟨fun h => ?_, fun h => congrArg Hash.digest h⟩, preimage_eq_iff ht hu,
    eq_iff_of_preimage_eq ht hu⟩
  exact hfree _ (by simp) _ (by simp) h

/-- A transaction with one withdrawal, whose proof is the given bytes, and all else zero. -/
def withProof (proof payload : Bytes) : Transaction :=
  { version := 0
    withdrawals := [⟨.zero, 0, .zero, FixedBytes.zero 20, .zero, ⟨proof⟩⟩]
    payload := payload }

/-- The one byte is the end of the proof in one of the two, the payload in the other. -/
theorem identified_by_hash_shifted_byte :
    NoCollisions [(withProof [7] []).preimage, (withProof [] [7]).preimage] ∧
    (withProof [7] []).hash = (withProof [] [7]).hash ∧
    (withProof [7] [] = withProof [] [7] ↔
      (withProof [7] []).proofLengths = (withProof [] [7]).proofLengths) := by
  have hpreimage : (withProof [7] []).preimage = (withProof [] [7]).preimage := by decide
  have hfree : NoCollisions [(withProof [7] []).preimage, (withProof [] [7]).preimage] :=
    (noCollisions_singleton (withProof [] [7]).preimage).mono (by simp [hpreimage])
  have hiff := identified_by_hash_iff _ _ (by decide) (by decide) hfree
  exact ⟨hfree, hiff.1.mpr hpreimage, hiff.2.2 hpreimage⟩

/-- Two different transactions with one preimage, and so with one hash. -/
theorem hash_not_injective :
    ∃ t u : Transaction, t.withdrawals.length < 2 ^ 64 ∧ u.withdrawals.length < 2 ^ 64 ∧
      t.preimage = u.preimage ∧ t.hash = u.hash ∧ t ≠ u := by
  have hpreimage : (withProof [7] []).preimage = (withProof [] [7]).preimage := by decide
  exact ⟨withProof [7] [], withProof [] [7], by decide, by decide, hpreimage,
    congrArg Hash.digest hpreimage, by decide⟩

end Transaction

end SidechainVerifier
