/-
SidechainVerifier.Proofs.PrimeOrder — the order of Ristretto255 is prime.

A number is prime if some element has the order of its predecessor modulo
it. To see that, a `LucasWitness` names the element and the prime factors of
the predecessor; these are either small or come with a witness of their own.
`prime_of_certifies` reads primality off a list of such witnesses, and
`Ristretto.groupOrder_prime` off the list for the group order.
-/
import Mathlib.Data.List.Prime
import Mathlib.NumberTheory.LucasPrimality
import Mathlib.Tactic.NormNum.Prime
import SidechainVerifier.Ristretto.Group

namespace SidechainVerifier

namespace Primality

/-! ## Powers -/

/-- A power modulo a number, by repeated squaring; only so many binary digits of the exponent are
looked at. -/
def powMod (modulus : Nat) : Nat → Nat → Nat → Nat
  | 0, _, _ => 1 % modulus
  | digits + 1, a, n =>
    let half := powMod modulus digits (a * a % modulus) (n / 2)
    if n % 2 = 1 then half * a % modulus else half

theorem powMod_eq (modulus digits a n : Nat) (h : n < 2 ^ digits) :
    powMod modulus digits a n = a ^ n % modulus := by
  induction digits generalizing a n with
  | zero =>
    have hn : n = 0 := by simpa using h
    simp [powMod, hn]
  | succ digits ih =>
    have hhalf : n / 2 < 2 ^ digits := by rw [Nat.pow_succ] at h; omega
    have hsquare : (a * a % modulus) ^ (n / 2) % modulus = a ^ (2 * (n / 2)) % modulus := by
      rw [← Nat.pow_mod, pow_mul, sq]
    have hn := Nat.div_add_mod n 2
    simp only [powMod, ih _ _ hhalf, hsquare]
    split
    next hodd =>
      rw [Nat.mod_mul_mod, ← pow_succ, ← hodd, hn]
    next heven =>
      rw [show 2 * (n / 2) = n by omega]

/-! ## Witnesses -/

/-- What shows a number prime: an element and the prime factors of the number's predecessor, each as
often as it divides it. -/
structure LucasWitness where
  number : Nat
  element : Nat
  factors : List Nat

/-- Lucas's test: the factors are known primes, and the element has the order of the predecessor. -/
def LucasWitness.certifies (w : LucasWitness) (digits : Nat) (known : List Nat) : Bool :=
  2 ≤ w.number && w.number < 2 ^ digits && w.factors.all (· ∈ known) &&
    w.factors.prod == w.number - 1 &&
    powMod w.number digits w.element (w.number - 1) == 1 &&
    w.factors.all fun q => powMod w.number digits w.element ((w.number - 1) / q) != 1

/-- Each number of a list passes the test, given the known primes and the numbers before it. -/
def certifies (digits : Nat) : List Nat → List LucasWitness → Bool
  | _, [] => true
  | known, w :: rest => w.certifies digits known && certifies digits (w.number :: known) rest

theorem pow_eq_one_iff {p : Nat} (hp : 2 ≤ p) (a n : Nat) :
    (a : ZMod p) ^ n = 1 ↔ a ^ n % p = 1 := by
  rw [← Nat.cast_pow, ← Nat.cast_one, ZMod.natCast_eq_natCast_iff', Nat.one_mod_eq_one.mpr (by omega)]

variable {digits : Nat} {known : List Nat}

theorem LucasWitness.prime {w : LucasWitness} (hknown : ∀ q ∈ known, q.Prime)
    (h : w.certifies digits known = true) : w.number.Prime := by
  simp only [certifies, Bool.and_eq_true, decide_eq_true_eq, List.all_eq_true, beq_iff_eq,
    bne_iff_ne] at h
  obtain ⟨⟨⟨⟨⟨htwo, hdigits⟩, hfactors⟩, hprod⟩, hone⟩, hne⟩ := h
  have hsmall {n : Nat} (hn : n ≤ w.number - 1) : n < 2 ^ digits := by omega
  refine lucas_primality w.number w.element ?_ ?_
  · rw [pow_eq_one_iff htwo, ← powMod_eq _ _ _ _ (hsmall (Nat.le_refl _))]
    exact hone
  · -- A prime factor of the predecessor divides one of the factors, which are primes themselves.
    intro q hq hdvd
    rw [← hprod] at hdvd
    obtain ⟨q', hq', hdvd⟩ := (Prime.dvd_prod_iff hq.prime).mp hdvd
    have heq : q = q' := (Nat.prime_dvd_prime_iff_eq hq (hknown q' (hfactors q' hq'))).mp hdvd
    subst heq
    rw [ne_eq, pow_eq_one_iff htwo, ← powMod_eq _ _ _ _ (hsmall (Nat.div_le_self _ _))]
    exact hne q hq'

theorem prime_of_certifies {ws : List LucasWitness} (hknown : ∀ q ∈ known, q.Prime)
    (h : certifies digits known ws = true) : ∀ w ∈ ws, w.number.Prime := by
  induction ws generalizing known with
  | nil => simp
  | cons w rest ih =>
    simp only [certifies, Bool.and_eq_true] at h
    have hw := LucasWitness.prime hknown h.1
    exact List.forall_mem_cons.mpr ⟨hw, ih (List.forall_mem_cons.mpr ⟨hw, hknown⟩) h.2⟩

end Primality

/-! ## The group order -/

namespace Ristretto

/-- The primes that dividing out predecessors ends at. -/
def smallPrimes : List Nat :=
  [2, 3, 5, 7, 11, 23, 41, 43, 73, 269, 307, 1361, 2851, 5879, 30703, 82163, 132667, 137849, 409477,
    531581, 1224481]

theorem smallPrimes_prime : ∀ q ∈ smallPrimes, q.Prime := by
  simp only [smallPrimes, List.forall_mem_cons]
  norm_num

/-- Witnesses for the group order and the larger primes that it takes. -/
def groupOrderWitnesses : List Primality.LucasWitness :=
  [⟨14741173, 2, [2, 2, 3, 3, 409477]⟩,
    ⟨58964693, 2, [2, 2, 14741173]⟩,
    ⟨292386187, 2, [2, 3, 3, 3, 3, 307, 5879]⟩,
    ⟨213441916511, 13, [2, 5, 73, 292386187]⟩,
    ⟨1257559732178653, 2, [2, 2, 3, 7, 23, 531581, 1224481]⟩,
    ⟨4434155615661930479, 17, [2, 41, 43, 1257559732178653]⟩,
    ⟨172054593956031949258510691, 2, [2, 5, 1361, 2851, 4434155615661930479]⟩,
    ⟨19757330305831588566944191468367130476339, 2,
      [2, 269, 213441916511, 172054593956031949258510691]⟩,
    ⟨276602624281642239937218680557139826668747, 2,
      [2, 7, 19757330305831588566944191468367130476339]⟩,
    ⟨3044861653679985063343, 5, [2, 3, 11, 30703, 82163, 132667, 137849]⟩,
    ⟨198211423230930754013084525763697, 5,
      [2, 2, 2, 2, 3, 23, 58964693, 3044861653679985063343]⟩,
    ⟨groupOrder, 2, [2, 2, 3, 11, 198211423230930754013084525763697,
      276602624281642239937218680557139826668747]⟩]

set_option maxRecDepth 10000 in
theorem groupOrder_prime : groupOrder.Prime := by
  have hcertifies : Primality.certifies 253 smallPrimes groupOrderWitnesses = true := by
    decide +kernel
  exact Primality.prime_of_certifies smallPrimes_prime hcertifies
    ⟨groupOrder, 2, _⟩ (List.mem_of_getElem? (i := 11) rfl)

end Ristretto

end SidechainVerifier
