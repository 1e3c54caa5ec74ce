/-
SidechainVerifier.Proofs.GroupLaws — groups that obey the laws of a module.

`Scalar` has sums and products modulo the order, and so it obeys the laws
itself. `Exponent` is the group that this makes: an element is the multiple
of the base that it is, written down, and its encoding is the multiplier's
canonical one. It is of the order of Ristretto255 and `Lawful`, and shows
that the laws can be met. `Multiple` is the same group with the encodings of
Ristretto255 itself, of which it can only read those whose multipliers are
known.
-/
import SidechainVerifier.Proofs.Layouts
import SidechainVerifier.Ristretto.Group

namespace SidechainVerifier

/-! ## Scalars -/

namespace Scalar

variable {order : Nat}

theorem add_assoc (a b c : Scalar order) : a + b + c = a + (b + c) := by
  apply ext_val
  simp [Nat.add_assoc]

theorem add_comm (a b : Scalar order) : a + b = b + a := by
  apply ext_val
  simp [Nat.add_comm]

theorem mul_assoc (a b c : Scalar order) : a * b * c = a * (b * c) := by
  apply ext_val
  simp [Nat.mul_assoc]

theorem mul_add (a b c : Scalar order) : a * (b + c) = a * b + a * c := by
  apply ext_val
  simp [Nat.mul_add]

theorem add_mul (a b c : Scalar order) : (a + b) * c = a * c + b * c := by
  apply ext_val
  simp [Nat.add_mul]

variable (pos : 0 < order)

theorem zero_add (a : Scalar order) : ofNat pos 0 + a = a := by
  apply ext_val
  simp [Nat.mod_eq_of_lt a.isLt]

theorem one_mul (a : Scalar order) : ofNat pos 1 * a = a := by
  apply ext_val
  simp [Nat.mod_eq_of_lt a.isLt]

theorem exists_neg (a : Scalar order) : ∃ b : Scalar order, a + b = ofNat pos 0 := by
  refine ⟨ofNat pos (order - a.val), ext_val ?_⟩
  have hle : a.val ≤ order := Nat.le_of_lt a.isLt
  simp [Nat.add_sub_cancel' hle]

end Scalar

/-! ## Consequences of the laws -/

namespace SchnorrGroup.IsModule

open SchnorrGroup

variable {P : Type} [SchnorrGroup P]

theorem add_zero (h : IsModule P) (a : P) : add a zero = a := by
  rw [h.add_comm, h.zero_add]

theorem add_left_cancel (h : IsModule P) {a b c : P} (hbc : add a b = add a c) : b = c := by
  obtain ⟨n, hn⟩ := h.exists_neg a
  have hneg : ∀ x : P, add n (add a x) = x := by
    intro x
    rw [← h.add_assoc, h.add_comm n a, hn, h.zero_add]
  rw [← hneg b, hbc, hneg c]

theorem zero_smul (h : IsModule P) (a : P) : smul (Scalar.ofNat order_pos 0) a = zero := by
  have htwice : add (smul (Scalar.ofNat order_pos 0) a) (smul (Scalar.ofNat order_pos 0) a) =
      add (smul (Scalar.ofNat order_pos 0) a) zero := by
    rw [← h.add_smul, Scalar.zero_add, h.add_zero]
  exact h.add_left_cancel htwice

end SchnorrGroup.IsModule

/-! ## A group that obeys them -/

/-- An element of the group of exponents: the multiple of the base that it is. -/
structure Exponent where
  multiplier : Scalar Ristretto.groupOrder
deriving DecidableEq

namespace Exponent

open Ristretto (groupOrder groupOrder_pos groupOrder_le)

/-- The element with an encoding, if it is canonical. -/
def decode? (encoding : FixedBytes 32) : Option Exponent :=
  if h : Bytes.toNat encoding.toList < groupOrder then some ⟨⟨_, h⟩⟩ else none

/-- The group of exponents with some encodings. -/
@[reducible]
def groupWith (encode : Exponent → FixedBytes 32) (decode? : FixedBytes 32 → Option Exponent) :
    SchnorrGroup Exponent where
  order := groupOrder
  order_pos := groupOrder_pos
  order_le := groupOrder_le
  base := ⟨Scalar.ofNat groupOrder_pos 1⟩
  zero := ⟨Scalar.ofNat groupOrder_pos 0⟩
  add a b := ⟨a.multiplier + b.multiplier⟩
  smul k a := ⟨k * a.multiplier⟩
  encode := encode
  decode? := decode?
  decEq := inferInstance

/-- The laws of a module hold whatever the encodings are. -/
theorem isModule_groupWith (encode : Exponent → FixedBytes 32)
    (decode? : FixedBytes 32 → Option Exponent) :
    @SchnorrGroup.IsModule Exponent (groupWith encode decode?) :=
  letI := groupWith encode decode?
  { add_assoc := fun _ _ _ => congrArg mk (Scalar.add_assoc _ _ _)
    add_comm := fun _ _ => congrArg mk (Scalar.add_comm _ _)
    zero_add := fun _ => congrArg mk (Scalar.zero_add groupOrder_pos _)
    exists_neg := fun a => by
      obtain ⟨b, hb⟩ := Scalar.exists_neg groupOrder_pos a.multiplier
      exact ⟨⟨b⟩, congrArg mk hb⟩
    smul_add := fun _ _ _ => congrArg mk (Scalar.mul_add _ _ _)
    add_smul := fun _ _ _ => congrArg mk (Scalar.add_mul _ _ _)
    one_smul := fun _ => congrArg mk (Scalar.one_mul groupOrder_pos _)
    mul_smul := fun _ _ _ => congrArg mk (Scalar.mul_assoc _ _ _) }

instance : SchnorrGroup Exponent := groupWith (fun a => a.multiplier.bytes) decode?

theorem lawful : SchnorrGroup.Lawful Exponent where
  toIsModule := isModule_groupWith _ _
  decode_encode a := by
    have hread : Bytes.toNat a.multiplier.bytes.toList = a.multiplier.val :=
      Bytes.toNat_littleEndian (Nat.lt_of_lt_of_le a.multiplier.isLt groupOrder_le)
    have hlt : Bytes.toNat a.multiplier.bytes.toList < groupOrder := hread ▸ a.multiplier.isLt
    show decode? a.multiplier.bytes = some a
    rw [decode?, dif_pos hlt]
    exact congrArg some (congrArg mk (Scalar.ext_val hread))
  encode_decode encoding a h := by
    change decode? encoding = some a at h
    show a.multiplier.bytes = encoding
    rw [decode?] at h
    split at h
    case isTrue hlt =>
      rw [← Option.some.inj h]
      refine Vector.toList_inj.mp (Bytes.eq_of_toNat_eq ?_ ?_)
      · rw [Vector.length_toList, Vector.length_toList]
      · exact Bytes.toNat_littleEndian (Nat.lt_of_lt_of_le hlt groupOrder_le)
    case isFalse => cases h

end Exponent

/-! ## The same group with the encodings of Ristretto255 -/

/-- A multiple of the base of Ristretto255, with its encoding. -/
structure Ristretto.KnownMultiple where
  multiplier : Nat
  encoding : FixedBytes 32
  encodes : (Element.multiple multiplier .base).encoding = encoding

/-- Multiples whose encodings can be read. -/
def Ristretto.knownMultiples : List KnownMultiple :=
  [⟨5, #v[232, 130, 177, 49, 1, 107, 82, 193, 211, 51, 112, 128, 24, 124, 247, 104, 66, 62, 252, 203,
      181, 23, 187, 73, 90, 184, 18, 196, 22, 15, 244, 78], by decide +kernel⟩,
    ⟨7, #v[68, 245, 53, 32, 146, 110, 200, 31, 189, 90, 56, 120, 69, 190, 183, 223, 133, 169, 106, 36,
      236, 225, 135, 56, 189, 207, 166, 167, 130, 42, 23, 109], by decide +kernel⟩]

/-- A multiple of the base of Ristretto255, and encoded as such. -/
def Multiple : Type := Exponent

namespace Multiple

open Ristretto (groupOrder_pos knownMultiples)

/-- The element with an encoding, if its multiplier is known. -/
def decode? (encoding : FixedBytes 32) : Option Exponent :=
  (knownMultiples.find? fun known => known.encoding = encoding).map fun known =>
    ⟨Scalar.ofNat groupOrder_pos known.multiplier⟩

instance : SchnorrGroup Multiple :=
  Exponent.groupWith (fun a => (Ristretto.Element.multiple a.multiplier.val .base).encoding) decode?

theorem isModule : SchnorrGroup.IsModule Multiple := Exponent.isModule_groupWith _ _

end Multiple

end SidechainVerifier
