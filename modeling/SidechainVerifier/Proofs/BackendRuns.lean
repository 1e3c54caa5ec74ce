/-
SidechainVerifier.Proofs.BackendRuns — consultations that a backend answers
from start to end.

A backend always returns, so whatever a consultation ensures under the
replies that the backend can give (`Backend.replies`) is what its run comes
to (`Consultation.Ensures.run`). A backend that `ChecksAs` a function
answers single checks by it, and its batch answers are sound for it, but may
differ from call to call, name some invalid proofs and not others, name them
twice, name positions that do not exist, or say nothing at all.

Main statement: with such a backend, verifying a list of requests with
different identities in batches comes to what checking each request singly
does (`verify_eq_verifySingle`).
-/
import Mathlib.Data.List.Nodup
import SidechainVerifier.Proofs.Consultations

namespace SidechainVerifier

/-! ## Runs -/

/-- The replies that a backend can give, in whatever state. -/
def Backend.replies {σ : Type} (backend : Backend σ) : Replies where
  torn := False
  batch call reply := ∃ s, (backend.batch call s).1 = reply
  single check reply := ∃ s, (backend.single check s).1 = reply

/-- A run with a backend ends, with a value that its replies can lead to. -/
theorem Consultation.Ensures.run {σ α : Type} {backend : Backend σ} {post : α → Prop} :
    ∀ {c : Consultation α}, c.Ensures backend.replies post → ∀ s : σ,
      ∃ value t, c.run backend s = (some value, t) ∧ post value
  | .done value, h, s => ⟨value, s, rfl, h⟩
  | .abandoned, h, _ => h.elim
  | .batch _ _, h, s => (h (some _) ⟨s, rfl⟩).run _
  | .single _ _, h, s => (h (some _) ⟨s, rfl⟩).run _

/-! ## Backends that check by a function -/

/-- Single checks are answered by a function whatever the state, and batch answers are sound for
it. -/
structure Backend.ChecksAs {σ : Type} (backend : Backend σ) (single : Check → SingleReply) :
    Prop where
  answers : ∀ check s, (backend.single check s).1 = single check
  sound : ∀ call s answer, (backend.batch call s).1 = .ok answer →
    answer.SoundFor single call.checks

/-- Such a backend only ever speaks for the verdicts of single checks. -/
theorem Backend.ChecksAs.justify {σ : Type} {backend : Backend σ} {single : Check → SingleReply}
    (h : backend.ChecksAs single) :
    backend.replies.Justify fun check verdict => verdict = Replies.judge single check where
  passed := by
    rintro call answer ⟨s, hs⟩ hvalid check hcheck
    have hok : single check = .ok true := (h.sound call s answer hs).valid hvalid check hcheck
    exact (Replies.judge_eq_passed_iff.mpr hok).symm
  failed := by
    rintro call answer ⟨s, hs⟩ - i hi check hcheck
    have hne : single check ≠ .ok true := (h.sound call s answer hs).named i hi check hcheck
    exact (Replies.judge_eq_failed_iff.mpr hne).symm
  single := by
    rintro check reply ⟨s, hs⟩
    rw [← hs, h.answers check s, Replies.judge]

/-! ## Batches against single checks -/

namespace BatchVerification

variable {σ : Type} {backend : Backend σ} {single : Check → SingleReply} {requests : List Request}

theorem run_verifySingle (h : backend.ChecksAs single) (r : Request) (s : σ) :
    ((verifySingle .strict r).run backend s).1 = some (Replies.judge single r.check) := by
  rw [Replies.judge, ← h.answers r.check s]
  rfl

/-- Verifying a list ends, with the verdict on each of its requests that checking it alone gives,
and with nothing else. -/
theorem verify_eq_verifySingle (h : backend.ChecksAs single)
    (hids : (requests.map Request.id).Nodup) (s : σ) :
    ∃ results t, (verify .strict requests).run backend s = (some results, t) ∧
      (∀ r ∈ requests, ∃ verdict, results.get? r.id = some verdict ∧
        ∀ u, ((verifySingle .strict r).run backend u).1 = some verdict) ∧
      ∀ id, (∀ r ∈ requests, r.id ≠ id) → results.get? id = none := by
  have hsame : ∀ r ∈ requests, ∀ r' ∈ requests, r.id = r'.id → r.check = r'.check := by
    intro r hr r' hr' hid
    rw [List.inj_on_of_nodup_map hids hr hr' hid]
  obtain ⟨results, t, hrun, hjudge⟩ := (ensures_verify h.justify hsame).run s
  refine ⟨results, t, hrun, ?_, fun id hid => hjudge.get?_eq_none hid⟩
  intro r hr
  obtain ⟨verdict, hget, -, rfl⟩ := hjudge.exists_verdict hr
  exact ⟨_, hget, run_verifySingle h r⟩

end BatchVerification

/-! ## A backend that says little -/

/-- A request for a certificate whose fields are zero, all but hash and proof. -/
def CertificateRequest.withProof (hash : Hash) (proof : Bytes) : CertificateRequest where
  hash := hash
  check := ⟨.zero, none, 0, 0, [], [], .zero, .zero, 0, 0, ⟨proof⟩, ⟨[]⟩⟩
  certificate := ⟨.zero, 0, 0, [], 0, 0, [], ⟨proof⟩⟩
  origin := none

/-- A request for a withdrawal whose fields are zero, all but position and proof. -/
def WithdrawalRequest.withProof (position : UInt32) (proof : Bytes) : WithdrawalRequest where
  transactionHash := .zero
  position := position
  check := ⟨.zero, none, 0, .zero, FixedBytes.zero 20, none, .zero, ⟨proof⟩, ⟨[]⟩⟩
  transaction := ⟨0, [], []⟩
  origin := none

/-- Empty proofs are good, and all others are bad. -/
def Check.isEmpty (check : Check) : Bool := check.proof.bytes.isEmpty

/-- Checks for empty proofs. Of its batch calls every other fails; the rest name the first bad proof
and a position behind the last. -/
def Backend.sparing : Backend Nat where
  batch call s :=
    let failed := (call.checks.findIdx? fun check => !check.isEmpty).toList ++ [call.checks.length]
    (if s % 2 = 0 then .error (.backend "busy") else .ok ⟨false, failed⟩, s + 1)
  single check s := (.ok check.isEmpty, s)

theorem Backend.checksAs_sparing : Backend.sparing.ChecksAs fun check => .ok check.isEmpty where
  answers _ _ := rfl
  sound := by
    intro call s answer hanswer
    simp only [Backend.sparing] at hanswer
    split at hanswer
    · cases hanswer
    · cases hanswer
      refine ⟨by simp, ?_⟩
      intro i hi check hcheck
      rcases List.mem_append.mp hi with hi | hi
      · obtain ⟨hlt, hbad, -⟩ := List.findIdx?_eq_some_iff_getElem.mp (Option.mem_toList.mp hi)
        rw [List.getElem?_eq_getElem hlt, Option.some.injEq] at hcheck
        rw [← hcheck]
        simpa using hbad
      · obtain rfl := List.mem_singleton.mp hi
        simp at hcheck

/-- A certificate and three withdrawals, the first two of which have bad proofs. -/
def BatchVerification.mixedRequests : List Request :=
  [.withdrawal (.withProof 0 [1]), .certificate (.withProof .zero []),
    .withdrawal (.withProof 1 [1]), .withdrawal (.withProof 2 [])]

/-- Each attempt finds one of the bad proofs; the good ones are left to single checks. -/
theorem BatchVerification.verify_eq_verifySingle_sparing :
    Backend.sparing.ChecksAs (fun check => .ok check.isEmpty) ∧
      (mixedRequests.map Request.id).Nodup ∧
      ∃ results t, (verify .strict mixedRequests).run .sparing 0 = (some results, t) ∧
        (∀ r ∈ mixedRequests, ∃ verdict, results.get? r.id = some verdict ∧
          ∀ u, ((verifySingle .strict r).run .sparing u).1 = some verdict) ∧
        ∀ id, (∀ r ∈ mixedRequests, r.id ≠ id) → results.get? id = none :=
  ⟨Backend.checksAs_sparing, by decide,
    verify_eq_verifySingle Backend.checksAs_sparing (by decide) 0⟩

end SidechainVerifier
