/-
SidechainVerifier.Proofs.BatchVerdicts — what the answer to a batch says
about the single checks.

A batch sorts its proofs out into those that are no candidates, which are
blamed at once, and candidates, whose equations are combined. Every position
is sorted out once (`Transcript.sortOut_perm`), so what is blamed can be put
in order without doubles. However the work is divided, the search for
invalid candidates finds the same positions (`Search.find_eq`), and it blames
nothing but candidates whose own equation does not hold. So a valid proof is
never blamed, and an invalid one escapes only where it is a candidate and the
combination holds all the same (`Check.answered_searchBatch`). In a module
equations that hold add up, whatever they are multiplied by
(`Transcript.combinedHolds_of_equationHolds`).
-/
import SidechainVerifier.Proofs.GroupLaws
import SidechainVerifier.Proofs.Transcripts
import SidechainVerifier.Schnorr.Batch

namespace SidechainVerifier

open SchnorrGroup

/-! ## Searching -/

namespace Search

variable {α β : Type}

theorem findInHalves_eq (found? : α → Option β) (depth : Nat) (items : List α) :
    findInHalves found? depth items = items.filterMap found? := by
  induction depth generalizing items with
  | zero => rfl
  | succ depth ih =>
    simp only [findInHalves, ih]
    rw [← List.filterMap_append, List.take_append_drop]

/-- How the work is divided has no influence on what is found. -/
@[simp] theorem find_eq (search : Search) (found? : α → Option β) (items : List α) :
    search.find found? items = items.filterMap found? := by
  unfold find
  split
  · rfl
  · exact findInHalves_eq found? search.depth items

end Search

variable {P : Type} [SchnorrGroup P]

namespace Transcript

/-! ## Sorting out -/

theorem candidate?_eq_some_iff {proof : Except ProvingError (Transcript P)} {t : Transcript P} :
    candidate? proof = some t ↔ proof = .ok t ∧ t.challengeMatches = true := by
  cases proof with
  | error e => simp [candidate?]
  | ok u =>
    simp only [candidate?, Option.ite_none_right_eq_some, Option.some.injEq, Except.ok.injEq]
    constructor
    · rintro ⟨hmatches, rfl⟩
      exact ⟨rfl, hmatches⟩
    · rintro ⟨rfl, hmatches⟩
      exact ⟨hmatches, rfl⟩

variable (proofs : List (Except ProvingError (Transcript P))) (start : Nat)

theorem sortOut_cons_candidate {proof : Except ProvingError (Transcript P)} {t : Transcript P}
    (h : candidate? proof = some t) :
    sortOut start (proof :: proofs) =
      ((sortOut (start + 1) proofs).1, (start, t) :: (sortOut (start + 1) proofs).2) := by
  simp only [sortOut, h]

theorem sortOut_cons_rejected {proof : Except ProvingError (Transcript P)}
    (h : candidate? proof = none) :
    sortOut start (proof :: proofs) =
      (start :: (sortOut (start + 1) proofs).1, (sortOut (start + 1) proofs).2) := by
  simp only [sortOut, h]

/-- Every position goes to one side, once. -/
theorem sortOut_perm :
    ((sortOut start proofs).1 ++ (sortOut start proofs).2.map Prod.fst).Perm
      (List.range' start proofs.length) := by
  induction proofs generalizing start with
  | nil => exact .refl _
  | cons proof rest ih =>
    rw [List.length_cons, List.range'_succ]
    cases h : candidate? proof with
    | none =>
      rw [sortOut_cons_rejected rest start h]
      exact (ih (start + 1)).cons start
    | some t =>
      rw [sortOut_cons_candidate rest start h]
      exact List.perm_middle.trans ((ih (start + 1)).cons start)

theorem map_snd_sortOut : (sortOut start proofs).2.map Prod.snd = proofs.filterMap candidate? := by
  induction proofs generalizing start with
  | nil => rfl
  | cons proof rest ih =>
    cases h : candidate? proof with
    | none => rw [sortOut_cons_rejected rest start h, List.filterMap_cons_none h, ih]
    | some t =>
      rw [sortOut_cons_candidate rest start h, List.filterMap_cons_some h, List.map_cons, ih]

theorem sortOut_eq_filterMap :
    sortOut start proofs =
      ((proofs.zipIdx start).filterMap fun p => if (candidate? p.1).isNone then some p.2 else none,
        (proofs.zipIdx start).filterMap fun p => (candidate? p.1).map fun t => (p.2, t)) := by
  induction proofs generalizing start with
  | nil => rfl
  | cons proof rest ih =>
    cases h : candidate? proof with
    | none => simp [sortOut_cons_rejected rest start h, ih, h]
    | some t => simp [sortOut_cons_candidate rest start h, ih, h]

theorem mem_rejected_iff {i : Nat} :
    i ∈ (sortOut 0 proofs).1 ↔ ∃ proof, proofs[i]? = some proof ∧ candidate? proof = none := by
  simp [sortOut_eq_filterMap, List.mem_zipIdx_iff_getElem?]

theorem mem_candidates_iff {i : Nat} {t : Transcript P} :
    (i, t) ∈ (sortOut 0 proofs).2 ↔
      ∃ proof, proofs[i]? = some proof ∧ candidate? proof = some t := by
  simp [sortOut_eq_filterMap, List.mem_zipIdx_iff_getElem?]

/-! ## Blaming candidates -/

/-- The combination settles the matter: there are two candidates or more, and it holds. -/
def Balances (coefficient : Nat → Multiplier P) (candidates : List (Transcript P)) : Prop :=
  2 ≤ candidates.length ∧ combinedHolds coefficient candidates = true

variable (search : Search) (coefficient : Nat → Multiplier P)
variable {candidates : List (Nat × Transcript P)}

theorem blamed_of_balances (h : Balances coefficient (candidates.map Prod.snd)) :
    blamed search coefficient candidates = [] := by
  obtain ⟨htwo, hholds⟩ := h
  match candidates with
  | [] => rfl
  | [_] => simp at htwo
  | _ :: _ :: _ => simp only [blamed, hholds, if_true]

/-- Unless the combination settles the matter, each equation is checked. -/
theorem blamed_of_not_balances (h : ¬ Balances coefficient (candidates.map Prod.snd)) :
    blamed search coefficient candidates = candidates.filterMap invalid? := by
  match candidates with
  | [] => rfl
  | [candidate] => cases hc : invalid? candidate <;> simp [blamed, hc]
  | first :: second :: rest =>
    have hfails : ¬ combinedHolds coefficient ((first :: second :: rest).map Prod.snd) = true :=
      fun hholds => h ⟨by simp, hholds⟩
    simp only [blamed, if_neg hfails, Search.find_eq]

/-- Who searches has no influence on who is blamed. -/
theorem blamed_congr (other : Search) (candidates : List (Nat × Transcript P)) :
    blamed search coefficient candidates = blamed other coefficient candidates := by
  by_cases h : Balances coefficient (candidates.map Prod.snd)
  · rw [blamed_of_balances search coefficient h, blamed_of_balances other coefficient h]
  · rw [blamed_of_not_balances search coefficient h, blamed_of_not_balances other coefficient h]

theorem mem_filterMap_invalid? {i : Nat} :
    i ∈ candidates.filterMap invalid? ↔ ∃ t, (i, t) ∈ candidates ∧ t.equationHolds = false := by
  simp only [List.mem_filterMap, invalid?, Prod.exists, Option.ite_none_left_eq_some,
    Option.some.injEq, Bool.not_eq_true]
  constructor
  · rintro ⟨_, t, ht, hequation, rfl⟩
    exact ⟨t, ht, hequation⟩
  · rintro ⟨t, ht, hequation⟩
    exact ⟨i, t, ht, hequation, rfl⟩

/-- Only positions of candidates are blamed, each once. -/
theorem blamed_sublist (candidates : List (Nat × Transcript P)) :
    (blamed search coefficient candidates).Sublist (candidates.map Prod.fst) := by
  by_cases h : Balances coefficient (candidates.map Prod.snd)
  · rw [blamed_of_balances search coefficient h]
    exact List.nil_sublist _
  · rw [blamed_of_not_balances search coefficient h]
    clear h
    induction candidates with
    | nil => exact .refl _
    | cons candidate rest ih =>
      rw [List.map_cons]
      cases hc : candidate.2.equationHolds with
      | true =>
        rw [List.filterMap_cons_none (by simp [invalid?, hc])]
        exact ih.cons _
      | false =>
        rw [List.filterMap_cons_some (by simp [invalid?, hc]; rfl)]
        exact ih.cons_cons _

/-! ## The answer -/

/-- What is to be blamed on either ground, before it is put in order. -/
theorem failed_perm :
    (batchAnswer search coefficient proofs).failed.Perm
      ((sortOut 0 proofs).1 ++ blamed search coefficient (sortOut 0 proofs).2) :=
  List.mergeSort_perm _ _

/-- It is a part of all positions. -/
theorem blame_sublist :
    ((sortOut 0 proofs).1 ++ blamed search coefficient (sortOut 0 proofs).2).Sublist
      ((sortOut 0 proofs).1 ++ (sortOut 0 proofs).2.map Prod.fst) :=
  (List.Sublist.refl _).append (blamed_sublist search coefficient _)

theorem pairwise_failed :
    (batchAnswer search coefficient proofs).failed.Pairwise (· < ·) := by
  have hpositions : ((sortOut 0 proofs).1 ++ (sortOut 0 proofs).2.map Prod.fst).Nodup :=
    (sortOut_perm proofs 0).nodup_iff.mpr List.nodup_range'
  have hnodup : (batchAnswer search coefficient proofs).failed.Nodup :=
    (failed_perm proofs search coefficient).nodup_iff.mpr
      (hpositions.sublist (blame_sublist proofs search coefficient))
  have hsorted : (batchAnswer search coefficient proofs).failed.Pairwise
      (fun i j => decide (i ≤ j) = true) :=
    List.pairwise_mergeSort (by intro i j k; simp only [decide_eq_true_eq]; exact Nat.le_trans)
      (by intro i j; simp only [Bool.or_eq_true, decide_eq_true_eq]; omega) _
  refine (hsorted.and hnodup).imp ?_
  rintro i j ⟨hle, hne⟩
  exact Nat.lt_of_le_of_ne (of_decide_eq_true hle) hne

theorem lt_of_mem_failed {i : Nat} (h : i ∈ (batchAnswer search coefficient proofs).failed) :
    i < proofs.length := by
  have hblame := (failed_perm proofs search coefficient).mem_iff.mp h
  have hposition := (blame_sublist proofs search coefficient).subset hblame
  have hrange := (sortOut_perm proofs 0).mem_iff.mp hposition
  simpa using List.mem_range'_1.mp hrange

theorem allValid_iff :
    (batchAnswer search coefficient proofs).allValid = true ↔
      (batchAnswer search coefficient proofs).failed = [] :=
  List.isEmpty_iff

/-- A proof is blamed for being no candidate, or for its equation if the combination has not settled
the matter. -/
theorem mem_failed_iff {i : Nat} :
    i ∈ (batchAnswer search coefficient proofs).failed ↔
      ∃ proof, proofs[i]? = some proof ∧
        (candidate? proof = none ∨
          ¬ Balances coefficient (proofs.filterMap candidate?) ∧
            ∃ t, candidate? proof = some t ∧ t.equationHolds = false) := by
  rw [(failed_perm proofs search coefficient).mem_iff, List.mem_append, mem_rejected_iff,
    ← map_snd_sortOut proofs 0]
  by_cases h : Balances coefficient ((sortOut 0 proofs).2.map Prod.snd)
  · simp [blamed_of_balances search coefficient h, h]
  · rw [blamed_of_not_balances search coefficient h, mem_filterMap_invalid?]
    simp only [mem_candidates_iff, h, not_false_eq_true, true_and]
    constructor
    · rintro (⟨proof, hproof, hnone⟩ | ⟨t, ⟨proof, hproof, ht⟩, hequation⟩)
      · exact ⟨proof, hproof, .inl hnone⟩
      · exact ⟨proof, hproof, .inr ⟨t, ht, hequation⟩⟩
    · rintro ⟨proof, hproof, hnone | ⟨t, ht, hequation⟩⟩
      · exact .inl ⟨proof, hproof, hnone⟩
      · exact .inr ⟨t, ⟨proof, hproof, ht⟩, hequation⟩

/-! ## Combinations -/

theorem equationHolds_iff {t : Transcript P} :
    t.equationHolds = true ↔
      smul t.response base = add t.commitmentPoint (smul t.challengeScalar t.key) :=
  decide_eq_true_iff

/-- An equation that holds may be multiplied. -/
theorem smul_response (hP : IsModule P) {t : Transcript P} (h : t.equationHolds = true)
    (z : Multiplier P) :
    smul (z * t.response) base =
      add (smul z t.commitmentPoint) (smul (z * t.challengeScalar) t.key) :=
  calc smul (z * t.response) base
      = smul z (smul t.response base) := hP.mul_smul _ _ _
    _ = smul z (add t.commitmentPoint (smul t.challengeScalar t.key)) := by
        rw [equationHolds_iff.mp h]
    _ = add (smul z t.commitmentPoint) (smul z (smul t.challengeScalar t.key)) :=
        hP.smul_add _ _ _
    _ = add (smul z t.commitmentPoint) (smul (z * t.challengeScalar) t.key) := by
        rw [hP.mul_smul]

/-- The sums of both sides stay in step while the candidates are gone through. -/
theorem smul_foldl_response (hP : IsModule P) (candidates : List (Transcript P × Nat))
    (h : ∀ p ∈ candidates, p.1.equationHolds = true) (sum : Multiplier P) :
    smul (candidates.foldl (fun sum (t, i) => sum + coefficient i * t.response) sum) base =
      add (smul sum base) (combination (candidates.flatMap fun (t, i) =>
        [(coefficient i, t.commitmentPoint), (coefficient i * t.challengeScalar, t.key)])) := by
  induction candidates generalizing sum with
  | nil => exact (hP.add_zero _).symm
  | cons p rest ih =>
    obtain ⟨t, i⟩ := p
    simp only [List.foldl_cons, List.flatMap_cons, List.cons_append, List.nil_append, combination]
    rw [ih fun p hp => h p (List.mem_cons_of_mem _ hp), hP.add_smul,
      smul_response hP (h (t, i) List.mem_cons_self), hP.add_assoc, hP.add_assoc]

/-- Equations that hold add up, whatever they are multiplied by. -/
theorem combinedHolds_of_equationHolds (hP : IsModule P) {candidates : List (Transcript P)}
    (h : ∀ t ∈ candidates, t.equationHolds = true) :
    combinedHolds coefficient candidates = true := by
  rw [combinedHolds, decide_eq_true_iff]
  have hsums := smul_foldl_response coefficient hP candidates.zipIdx
    (fun p hp => h p.1 (List.fst_mem_of_mem_zipIdx hp)) (Scalar.ofNat order_pos 0)
  rw [hP.zero_smul, hP.zero_add] at hsums
  exact hsums

end Transcript

/-! ## Batches of checks -/

namespace Check

/-- The transcripts of the checks whose proof can be read and whose challenge matches. -/
def candidates (P : Type) [SchnorrGroup P] (checks : List Check) : List (Transcript P) :=
  checks.filterMap fun check => Transcript.candidate? (check.transcript P)

theorem verify_eq_ok_true_iff_candidate {check : Check} :
    check.verify P = .ok true ↔
      ∃ t, Transcript.candidate? (check.transcript P) = some t ∧ t.equationHolds = true := by
  simp only [verify_eq_ok_true_iff, Transcript.accepted_iff, Transcript.candidate?_eq_some_iff]
  exact exists_congr fun t => and_assoc.symm

theorem candidate?_eq_none {check : Check}
    (h : ∀ t, check.transcript P = .ok t → t.challengeMatches = false) :
    Transcript.candidate? (check.transcript P) = none := by
  cases hc : Transcript.candidate? (check.transcript P) with
  | none => rfl
  | some t =>
    obtain ⟨hread, hmatches⟩ := Transcript.candidate?_eq_some_iff.mp hc
    exact absurd hmatches (by rw [h t hread]; decide)

/-- What the answer to a batch says about the single checks. -/
structure Answered (P : Type) [SchnorrGroup P] (coefficient : Nat → Multiplier P)
    (checks : List Check) (answer : BatchAnswer) : Prop where
  increasing : answer.failed.Pairwise (· < ·)
  inRange : ∀ i ∈ answer.failed, i < checks.length
  allValid_iff : answer.allValid = true ↔ answer.failed = []
  /-- A valid proof is never blamed. -/
  valid : ∀ {i check}, checks[i]? = some check → check.verify P = .ok true → i ∉ answer.failed
  /-- So a batch of valid proofs is valid as a whole. -/
  allValid : (∀ check ∈ checks, check.verify P = .ok true) → answer.allValid = true
  /-- A proof that cannot be read, or whose challenge does not match, is always blamed. -/
  unfit : ∀ {i check}, checks[i]? = some check →
    (∀ t, check.transcript P = .ok t → t.challengeMatches = false) → i ∈ answer.failed
  /-- The invalid proofs are blamed, unless there are two candidates or more whose combination
  holds. -/
  failed_iff : ¬ Transcript.Balances coefficient (candidates P checks) → ∀ {i},
    i ∈ answer.failed ↔ ∃ check, checks[i]? = some check ∧ check.verify P ≠ .ok true
  /-- In a module the combination of valid proofs holds. -/
  combined : IsModule P → (∀ check ∈ checks, check.verify P = .ok true) →
    Transcript.combinedHolds coefficient (candidates P checks) = true

section

variable (P)
variable (search : Search) (coefficient : Nat → Multiplier P) (checks : List Check)

/-- Pausing the low-priority threads does not change the answer. -/
theorem searchBatch_eq_verifyBatch :
    searchBatch P search coefficient checks = verifyBatch P coefficient checks := by
  simp only [verifyBatch, searchBatch, Transcript.batchAnswer,
    Transcript.blamed_congr search coefficient .alone]

/-- A check is blamed for being no candidate, or for its equation if the combination has not settled
the matter. -/
theorem mem_failed_searchBatch {i : Nat} :
    i ∈ (searchBatch P search coefficient checks).failed ↔
      ∃ check, checks[i]? = some check ∧
        (Transcript.candidate? (check.transcript P) = none ∨
          ¬ Transcript.Balances coefficient (candidates P checks) ∧
            ∃ t, Transcript.candidate? (check.transcript P) = some t ∧ t.equationHolds = false) := by
  rw [searchBatch, Transcript.mem_failed_iff, List.filterMap_map]
  simp only [List.getElem?_map, Option.map_eq_some_iff]
  constructor
  · rintro ⟨_, ⟨check, hcheck, rfl⟩, hblame⟩
    exact ⟨check, hcheck, hblame⟩
  · rintro ⟨check, hcheck, hblame⟩
    exact ⟨_, ⟨check, hcheck, rfl⟩, hblame⟩

/-- What is blamed is invalid. -/
theorem verify_ne_of_mem_failed {i : Nat} {check : Check} (hcheck : checks[i]? = some check)
    (h : i ∈ (searchBatch P search coefficient checks).failed) : check.verify P ≠ .ok true := by
  intro hverify
  obtain ⟨t, hcandidate, hequation⟩ := verify_eq_ok_true_iff_candidate.mp hverify
  obtain ⟨other, hother, hblame⟩ := (mem_failed_searchBatch P search coefficient checks).mp h
  rw [hcheck, Option.some.injEq] at hother
  subst hother
  rw [hcandidate] at hblame
  obtain hnone | ⟨-, u, hu, hfails⟩ := hblame
  · cases hnone
  · cases hu
    exact absurd hequation (by rw [hfails]; decide)

/-- Unless the combination has settled the matter, what is blamed is all that is invalid. -/
theorem mem_failed_iff_verify_ne (h : ¬ Transcript.Balances coefficient (candidates P checks))
    {i : Nat} :
    i ∈ (searchBatch P search coefficient checks).failed ↔
      ∃ check, checks[i]? = some check ∧ check.verify P ≠ .ok true := by
  constructor
  · intro hi
    obtain ⟨check, hcheck, -⟩ := (mem_failed_searchBatch P search coefficient checks).mp hi
    exact ⟨check, hcheck, verify_ne_of_mem_failed P search coefficient checks hcheck hi⟩
  · rintro ⟨check, hcheck, hverify⟩
    refine (mem_failed_searchBatch P search coefficient checks).mpr ⟨check, hcheck, ?_⟩
    cases hc : Transcript.candidate? (check.transcript P) with
    | none => exact .inl rfl
    | some t =>
      refine .inr ⟨h, t, rfl, ?_⟩
      rw [← Bool.not_eq_true]
      exact fun hequation => hverify (verify_eq_ok_true_iff_candidate.mpr ⟨t, hc, hequation⟩)

theorem allValid_of_verify (h : ∀ check ∈ checks, check.verify P = .ok true) :
    (searchBatch P search coefficient checks).allValid = true := by
  rw [searchBatch, Transcript.allValid_iff, List.eq_nil_iff_forall_not_mem]
  intro i hi
  obtain ⟨check, hcheck, -⟩ := (mem_failed_searchBatch P search coefficient checks).mp hi
  exact verify_ne_of_mem_failed P search coefficient checks hcheck hi
    (h check (List.mem_of_getElem? hcheck))

theorem combinedHolds_of_verify (hP : IsModule P)
    (h : ∀ check ∈ checks, check.verify P = .ok true) :
    Transcript.combinedHolds coefficient (candidates P checks) = true := by
  refine Transcript.combinedHolds_of_equationHolds coefficient hP fun t ht => ?_
  obtain ⟨check, hmem, hc⟩ := List.mem_filterMap.mp ht
  obtain ⟨u, hu, hequation⟩ := verify_eq_ok_true_iff_candidate.mp (h check hmem)
  rw [hc, Option.some.injEq] at hu
  exact hu ▸ hequation

/-- The answer to a batch, whoever searches for the proofs to blame and whatever the coefficients
are. -/
theorem answered_searchBatch :
    Answered P coefficient checks (searchBatch P search coefficient checks) where
  increasing := Transcript.pairwise_failed _ search coefficient
  inRange i hi := by simpa using Transcript.lt_of_mem_failed _ search coefficient hi
  allValid_iff := Transcript.allValid_iff _ search coefficient
  valid hcheck hverify hi :=
    verify_ne_of_mem_failed P search coefficient checks hcheck hi hverify
  allValid := allValid_of_verify P search coefficient checks
  unfit hcheck h :=
    (mem_failed_searchBatch P search coefficient checks).mpr
      ⟨_, hcheck, .inl (candidate?_eq_none h)⟩
  failed_iff h _ := mem_failed_iff_verify_ne P search coefficient checks h
  combined hP h := combinedHolds_of_verify P coefficient checks hP h

end

/-- A withdrawal's check, under the key of the secret 5, whose proof is made with the nonce 7; its
response begins with the given byte. -/
def ofResponse (first : UInt8) : Check :=
  .withdrawal
    { sidechain := .zero
      constant := none
      amount := 1
      nullifier := .zero
      destination := FixedBytes.zero 20
      certificateData := none
      ceasingRoot := .zero
      proof := ⟨[68, 245, 53, 32, 146, 110, 200, 31, 189, 90, 56, 120, 69, 190, 183, 223,
        133, 169, 106, 36, 236, 225, 135, 56, 189, 207, 166, 167, 130, 42, 23, 109,
        167, 153, 88, 4, 23, 214, 70, 69, 206, 245, 230, 136, 173, 166, 168, 188,
        222, 202, 132, 18, 181, 68, 17, 176, 102, 142, 245, 27, 49, 149, 210, 131] ++
        first :: [15, 92, 50, 58, 79, 112, 63, 179, 174, 218, 146, 187, 60, 149, 87,
        86, 246, 151, 92, 137, 87, 86, 112, 1, 200, 203, 139, 245, 233, 28, 3]⟩
      key := ⟨[232, 130, 177, 49, 1, 107, 82, 193, 211, 51, 112, 128, 24, 124, 247, 104,
        66, 62, 252, 203, 181, 23, 187, 73, 90, 184, 18, 196, 22, 15, 244, 78]⟩ }

/-- Coefficients with which the combination of a valid and a forged response fails. -/
def counting (i : Nat) : Multiplier P := Scalar.ofNat order_pos (i + 1)

instance (coefficient : Nat → Multiplier P) (candidates : List (Transcript P)) :
    Decidable (Transcript.Balances coefficient candidates) :=
  inferInstanceAs (Decidable (_ ∧ _))

set_option maxRecDepth 100000 in
/-- Several threads find the forged response; the valid one is not blamed. -/
theorem answered_searchBatch_forged :
    IsModule Multiple ∧
    0 ∉ (searchBatch Multiple ⟨false, 1⟩ counting [ofResponse 85, ofResponse 86]).failed ∧
    1 ∈ (searchBatch Multiple ⟨false, 1⟩ counting [ofResponse 85, ofResponse 86]).failed := by
  have hanswered := answered_searchBatch Multiple ⟨false, 1⟩ counting [ofResponse 85, ofResponse 86]
  have hverify : (ofResponse 85).verify Multiple = .ok true ∧
      (ofResponse 86).verify Multiple ≠ .ok true ∧
      ¬ Transcript.Balances counting (candidates Multiple [ofResponse 85, ofResponse 86]) := by
    decide +kernel
  obtain ⟨hvalid, hforged, hfails⟩ := hverify
  exact ⟨Multiple.isModule, hanswered.valid rfl hvalid,
    (hanswered.failed_iff hfails).mpr ⟨_, rfl, hforged⟩⟩

end Check

end SidechainVerifier
