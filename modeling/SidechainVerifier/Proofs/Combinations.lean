/-
SidechainVerifier.Proofs.Combinations — how often a combination of equations
hides one that does not hold.

In a module of prime order the combination is an equation for each of its
coefficients, and where the candidate's own equation does not hold it has at
most one solution (`SchnorrGroup.IsModule.coefficient_unique`). So whatever
the other candidates are and whatever their coefficients, at most one
coefficient of an invalid candidate lets the combination hold, and of all
vectors of `n` coefficients at most `order ^ (n - 1)` do
(`Transcript.combinedHolds_rarely`).
-/
import Mathlib.Data.Fintype.Pi
import Mathlib.Data.Int.GCD
import SidechainVerifier.Proofs.BatchVerdicts
import SidechainVerifier.Proofs.PrimeOrder

namespace SidechainVerifier

open SchnorrGroup

/-! ## Scalars modulo a prime -/

namespace Scalar

variable {order : Nat}

/-- Two scalars differ by one that can be divided by, if the order is prime. -/
theorem exists_difference (hprime : order.Prime) {a b : Scalar order} (h : a ≠ b) :
    ∃ d e : Scalar order, a = b + d ∧ e * d = ofNat hprime.pos 1 := by
  obtain ⟨n, hn⟩ := exists_neg hprime.pos b
  have hsum : a = b + (a + n) := by
    rw [add_comm a n, ← add_assoc, hn, zero_add]
  have hpos : 0 < (a + n).val := by
    refine Nat.pos_of_ne_zero ?_
    intro hzero
    have hdiff : a + n = ofNat hprime.pos 0 := ext_val (by rw [hzero, val_ofNat, Nat.zero_mod])
    rw [hdiff, add_comm, zero_add] at hsum
    exact h hsum
  have hcoprime : Nat.Coprime (a + n).val order :=
    (hprime.coprime_iff_not_dvd.mpr (Nat.not_dvd_of_pos_of_lt hpos (a + n).isLt)).symm
  obtain ⟨m, -, hm⟩ := Nat.exists_mul_mod_eq_one_of_coprime hcoprime hprime.one_lt
  refine ⟨a + n, ofNat hprime.pos m, hsum, ext_val ?_⟩
  rw [val_mul, val_ofNat, val_ofNat, Nat.mod_mul_mod, Nat.mul_comm, hm,
    Nat.mod_eq_of_lt hprime.one_lt]

/-- A scalar is a number below the order. -/
def equivFin : Scalar order ≃ Fin order where
  toFun a := ⟨a.val, a.isLt⟩
  invFun i := ⟨i.val, i.isLt⟩
  left_inv _ := rfl
  right_inv _ := rfl

instance : Fintype (Scalar order) := .ofEquiv (Fin order) equivFin.symm

@[simp] theorem card_eq : Fintype.card (Scalar order) = order := by
  rw [Fintype.card_congr equivFin, Fintype.card_fin]

end Scalar

/-! ## One coefficient -/

namespace SchnorrGroup

variable {P : Type} [SchnorrGroup P]

theorem IsModule.combination_append (hP : IsModule P) (l m : List (Multiplier P × P)) :
    combination (l ++ m) = add (combination l) (combination m) := by
  induction l with
  | nil => exact (hP.zero_add _).symm
  | cons e rest ih => rw [List.cons_append, combination, combination, ih, hP.add_assoc]

/-- What cannot be told apart by a multiple that can be divided by is equal. -/
theorem IsModule.smul_left_cancel (hP : IsModule P) {d e : Multiplier P} {x y : P}
    (hunit : e * d = Scalar.ofNat order_pos 1) (h : smul d x = smul d y) : x = y :=
  calc x = smul (e * d) x := by rw [hunit, hP.one_smul]
    _ = smul e (smul d y) := by rw [hP.mul_smul, h]
    _ = y := by rw [← hP.mul_smul, hunit, hP.one_smul]

/-- Multiples of different elements balance two given elements for one coefficient at most. -/
theorem IsModule.coefficient_unique (hP : IsModule P) (hprime : (order P).Prime) {x y a b : P}
    (hxy : x ≠ y) {z z' : Multiplier P} (h : add a (smul z x) = add b (smul z y))
    (h' : add a (smul z' x) = add b (smul z' y)) : z = z' := by
  by_contra hne
  obtain ⟨d, e, rfl, hunit⟩ := Scalar.exists_difference hprime hne
  rw [hP.add_smul, hP.add_smul, ← hP.add_assoc, ← hP.add_assoc, h'] at h
  exact hxy (hP.smul_left_cancel hunit (hP.add_left_cancel h))

end SchnorrGroup

namespace Transcript

variable {P : Type} [SchnorrGroup P]

/-! ## Both sides of a combination -/

/-- The multiples of the base in a combination of equations, each with its position. -/
def responses (coefficient : Nat → Multiplier P) (equations : List (Transcript P × Nat)) :
    List (Multiplier P × P) :=
  equations.map fun e => (coefficient e.2 * e.1.response, base)

/-- The multiples of commitments and keys in a combination of equations. -/
def counterparts (coefficient : Nat → Multiplier P) (equations : List (Transcript P × Nat)) :
    List (Multiplier P × P) :=
  equations.flatMap fun e =>
    [(coefficient e.2, e.1.commitmentPoint), (coefficient e.2 * e.1.challengeScalar, e.1.key)]

variable {coefficient other : Nat → Multiplier P} {equations : List (Transcript P × Nat)}

theorem smul_responseSum (hP : IsModule P) (sum : Multiplier P) :
    smul (equations.foldl (fun sum (t, i) => sum + coefficient i * t.response) sum) base =
      add (smul sum base) (combination (responses coefficient equations)) := by
  induction equations generalizing sum with
  | nil => exact (hP.add_zero _).symm
  | cons e rest ih =>
    rw [List.foldl_cons, ih, hP.add_smul, hP.add_assoc]
    rfl

theorem combinedHolds_iff (hP : IsModule P) {candidates : List (Transcript P)} :
    combinedHolds coefficient candidates = true ↔
      combination (responses coefficient candidates.zipIdx) =
        combination (counterparts coefficient candidates.zipIdx) := by
  rw [combinedHolds, decide_eq_true_iff, responseSum, smul_responseSum hP, hP.zero_smul,
    hP.zero_add]
  rfl

theorem responses_congr (h : ∀ e ∈ equations, coefficient e.2 = other e.2) :
    responses coefficient equations = responses other equations :=
  List.map_congr_left fun e he => by rw [h e he]

theorem counterparts_congr (h : ∀ e ∈ equations, coefficient e.2 = other e.2) :
    counterparts coefficient equations = counterparts other equations :=
  List.flatMap_congr fun e he => by rw [h e he]

variable {before after : List (Transcript P × Nat)} {t : Transcript P} {j : Nat}

/-- One equation, taken out of the multiples of the base. -/
theorem combination_responses (hP : IsModule P) :
    combination (responses coefficient (before ++ (t, j) :: after)) =
      add (combination (responses coefficient (before ++ after)))
        (smul (coefficient j) (smul t.response base)) := by
  simp only [responses, List.map_append, List.map_cons, hP.combination_append, combination]
  rw [hP.mul_smul, hP.add_assoc, hP.add_comm (smul _ _)]

/-- One equation, taken out of the other multiples. -/
theorem combination_counterparts (hP : IsModule P) :
    combination (counterparts coefficient (before ++ (t, j) :: after)) =
      add (combination (counterparts coefficient (before ++ after)))
        (smul (coefficient j) (add t.commitmentPoint (smul t.challengeScalar t.key))) := by
  simp only [counterparts, List.flatMap_append, List.flatMap_cons, List.cons_append,
    List.nil_append, hP.combination_append, combination]
  rw [hP.smul_add, hP.mul_smul, hP.add_assoc, ← hP.add_assoc (smul _ _), hP.add_comm (add _ _)]

/-! ## An invalid candidate -/

variable {candidates : List (Transcript P)}

/-- The equations around one of them. -/
theorem zipIdx_eq_append (ht : candidates[j]? = some t) :
    ∃ before after, candidates.zipIdx = before ++ (t, j) :: after ∧
      ∀ e ∈ before ++ after, e.2 ≠ j := by
  have hnodup : ((candidates.zipIdx).map Prod.snd).Nodup := by
    rw [List.zipIdx_map_snd]
    exact List.nodup_range'
  have hmem : (t, j) ∈ candidates.zipIdx := List.mem_zipIdx_iff_getElem?.mpr ht
  obtain ⟨before, after, heq⟩ := List.append_of_mem hmem
  refine ⟨before, after, heq, ?_⟩
  rw [heq, List.map_append, List.map_cons] at hnodup
  have hfresh := (List.nodup_middle.mp hnodup)
  rw [List.nodup_cons, ← List.map_append] at hfresh
  intro e he hej
  exact hfresh.1 (List.mem_map.mpr ⟨e, he, hej⟩)

/-- Whatever the other coefficients are, the combination holds for at most one coefficient of a
candidate whose own equation does not hold. -/
theorem coefficient_eq_of_combinedHolds (hP : IsModule P) (hprime : (order P).Prime)
    (ht : candidates[j]? = some t) (hfails : t.equationHolds = false)
    (hothers : ∀ i, i ≠ j → coefficient i = other i)
    (h : combinedHolds coefficient candidates = true)
    (h' : combinedHolds other candidates = true) : coefficient j = other j := by
  obtain ⟨before, after, heq, hne⟩ := zipIdx_eq_append ht
  have hcongr : ∀ e ∈ before ++ after, coefficient e.2 = other e.2 :=
    fun e he => hothers e.2 (hne e he)
  rw [combinedHolds_iff hP, heq, combination_responses hP, combination_counterparts hP] at h h'
  rw [responses_congr hcongr, counterparts_congr hcongr] at h
  refine hP.coefficient_unique hprime ?_ h h'
  rw [ne_eq, ← equationHolds_iff, hfails]
  decide

/-! ## Vectors of coefficients -/

/-- The coefficients in a vector; beyond it they are zero. -/
def coefficients {n : Nat} (z : Fin n → Multiplier P) (i : Nat) : Multiplier P :=
  if h : i < n then z ⟨i, h⟩ else Scalar.ofNat order_pos 0

theorem coefficients_val {n : Nat} (z : Fin n → Multiplier P) (i : Fin n) :
    coefficients z i = z i := by
  rw [coefficients, dif_pos i.isLt]

/-- The vectors of coefficients for which the combination holds. -/
def deceptive (candidates : List (Transcript P)) : Finset (Fin candidates.length → Multiplier P) :=
  {z | combinedHolds (coefficients z) candidates = true}

/-- With an invalid candidate, the other coefficients determine such a vector. -/
theorem card_deceptive_le (hP : IsModule P) (hprime : (order P).Prime)
    (ht : candidates[j]? = some t) (hfails : t.equationHolds = false) :
    (deceptive candidates).card ≤ order P ^ (candidates.length - 1) := by
  obtain ⟨hj, -⟩ := List.getElem?_eq_some_iff.mp ht
  let others : Type := {i : Fin candidates.length // i ≠ ⟨j, hj⟩}
  let restrict (z : Fin candidates.length → Multiplier P) : others → Multiplier P := fun i => z i.1
  -- Two such vectors that agree beside `j` agree at `j`, so leaving `j` out loses nothing.
  have hinjective : Set.InjOn restrict (deceptive candidates) := by
    intro z hz z' hz' hrestrict
    have hothers (i : Fin candidates.length) (hi : i ≠ ⟨j, hj⟩) : z i = z' i :=
      congrFun hrestrict ⟨i, hi⟩
    have hagree (i : Nat) (hi : i ≠ j) : coefficients z i = coefficients z' i := by
      unfold coefficients
      split
      next hlt => exact hothers ⟨i, hlt⟩ fun heq => hi (Fin.mk.inj_iff.mp heq)
      next => rfl
    have hz := (Finset.mem_filter.mp hz).2
    have hz' := (Finset.mem_filter.mp hz').2
    have hsame := coefficient_eq_of_combinedHolds hP hprime ht hfails hagree hz hz'
    funext i
    by_cases hi : i = ⟨j, hj⟩
    · rw [hi, ← coefficients_val z, ← coefficients_val z']
      exact hsame
    · exact hothers i hi
  have hcard : Fintype.card (others → Multiplier P) = order P ^ (candidates.length - 1) := by
    simp [others, Fintype.card_subtype_compl]
  rw [← hcard]
  exact Finset.card_le_card_of_injOn restrict (fun _ _ => Finset.mem_univ _) hinjective

/-- Of the coefficients of a candidate whose equation does not hold, at most one lets the combination
hold, whatever the other candidates and their coefficients are; so of all vectors of coefficients
at most one in `order P` does. -/
theorem combinedHolds_rarely (hP : IsModule P) (hprime : (order P).Prime)
    (ht : candidates[j]? = some t) (hfails : t.equationHolds = false) :
    (∀ coefficient other : Nat → Multiplier P, (∀ i, i ≠ j → coefficient i = other i) →
      combinedHolds coefficient candidates = true → combinedHolds other candidates = true →
        coefficient j = other j) ∧
    (deceptive candidates).card ≤ order P ^ (candidates.length - 1) ∧
    Fintype.card (Fin candidates.length → Multiplier P) = order P ^ candidates.length := by
  refine ⟨?_, card_deceptive_le hP hprime ht hfails, by simp⟩
  intro coefficient other hothers h h'
  exact coefficient_eq_of_combinedHolds hP hprime ht hfails hothers h h'

set_option maxRecDepth 100000 in
/-- A valid and a forged response: the combination holds only if the forged one is left out. -/
theorem combinedHolds_rarely_forged :
    IsModule Multiple ∧ (order Multiple).Prime ∧
    ∃ candidates t, Check.candidates Multiple [.ofResponse 85, .ofResponse 86] = candidates ∧
      candidates[1]? = some t ∧ t.equationHolds = false ∧
      (∀ coefficient : Nat → Multiplier Multiple,
        (∀ i, i ≠ 1 → coefficient i = Check.counting i) →
        combinedHolds coefficient candidates = true →
          coefficient 1 = Scalar.ofNat order_pos 0) ∧
      (deceptive candidates).card ≤ order Multiple ^ 1 := by
  have hP := Multiple.isModule
  have hprime : (order Multiple).Prime := Ristretto.groupOrder_prime
  let leaveOut (i : Nat) : Multiplier Multiple :=
    if i = 1 then Scalar.ofNat order_pos 0 else Check.counting i
  generalize hcandidates : Check.candidates Multiple [.ofResponse 85, .ofResponse 86] = candidates
  have hforged : candidates.length = 2 ∧ (candidates[1]?.map equationHolds) = some false ∧
      combinedHolds leaveOut candidates = true := by
    rw [← hcandidates]
    decide +kernel
  obtain ⟨hlength, hfails, hholds⟩ := hforged
  obtain ⟨t, ht, hfails⟩ := Option.map_eq_some_iff.mp hfails
  obtain ⟨hunique, hcard, -⟩ := combinedHolds_rarely hP hprime ht hfails
  refine ⟨hP, hprime, candidates, t, rfl, ht, hfails, ?_, hcard.trans_eq (by rw [hlength])⟩
  intro coefficient hothers h
  refine hunique coefficient leaveOut (fun i hi => ?_) h hholds
  rw [hothers i hi]
  exact (if_neg hi).symm

end Transcript

end SidechainVerifier
