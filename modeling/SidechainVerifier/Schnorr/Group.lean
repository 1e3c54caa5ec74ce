/-
SidechainVerifier.Schnorr.Group — the group a Schnorr proof lives in.

`SchnorrGroup P` gives the elements `P` of a group their operations, a base
element and a 32-byte encoding; `Scalar n` holds the multipliers, the
numbers below the group's order. Nothing is assumed of the operations here:
`SchnorrGroup.IsModule` says which laws make them a module over the scalars,
`SchnorrGroup.Lawful` also which encodings are accepted.
-/
import SidechainVerifier.Bytes

namespace SidechainVerifier

/-- A number below `order`. -/
structure Scalar (order : Nat) where
  val : Nat
  isLt : val < order
deriving DecidableEq

/-- The elements of a group with encodings, of a given order. -/
class SchnorrGroup (P : Type) where
  order : Nat
  order_pos : 0 < order
  /-- Every scalar fits the 32 bytes of its encoding. -/
  order_le : order ≤ Nat.pow 256 32
  base : P
  zero : P
  add : P → P → P
  smul : Scalar order → P → P
  encode : P → FixedBytes 32
  decode? : FixedBytes 32 → Option P
  decEq : DecidableEq P

namespace Scalar

variable {order : Nat}

/-- The sum, reduced. -/
def add (a b : Scalar order) : Scalar order :=
  ⟨(a.val + b.val) % order, Nat.mod_lt _ (Nat.lt_of_le_of_lt (Nat.zero_le _) a.isLt)⟩

/-- The product, reduced. -/
def mul (a b : Scalar order) : Scalar order :=
  ⟨(a.val * b.val) % order, Nat.mod_lt _ (Nat.lt_of_le_of_lt (Nat.zero_le _) a.isLt)⟩

instance : Add (Scalar order) := ⟨add⟩
instance : Mul (Scalar order) := ⟨mul⟩

/-- The number reduced modulo the order. -/
def ofNat (pos : 0 < order) (n : Nat) : Scalar order := ⟨n % order, Nat.mod_lt _ pos⟩

/-- The canonical encoding, 32 bytes with the least significant one first. -/
def bytes (a : Scalar order) : FixedBytes 32 :=
  ⟨(Bytes.littleEndian 32 a.val).toArray, by simp⟩

@[simp] theorem val_add (a b : Scalar order) : (a + b).val = (a.val + b.val) % order := rfl

@[simp] theorem val_mul (a b : Scalar order) : (a * b).val = (a.val * b.val) % order := rfl

@[simp] theorem val_ofNat (pos : 0 < order) (n : Nat) : (ofNat pos n).val = n % order := rfl

/-- Scalars with the same number are the same. -/
theorem ext_val {a b : Scalar order} (h : a.val = b.val) : a = b := by
  cases a
  cases b
  simp_all

end Scalar

namespace SchnorrGroup

variable (P : Type) [SchnorrGroup P]

scoped instance : DecidableEq P := decEq

/-- The multipliers of a group's elements. -/
abbrev Multiplier := Scalar (order P)

/-- The multiplier a byte string of any length stands for, reduced modulo the order. -/
def multiplier (bytes : Bytes) : Multiplier P := Scalar.ofNat order_pos (Bytes.toNat bytes)

variable {P}

/-- The element with the encoding `bytes`, if they are 32 and encode one. -/
def ofBytes? (bytes : Bytes) : Option P := FixedBytes.ofBytes? 32 bytes >>= decode?

/-- The sum of the multiples in a list. -/
def combination : List (Multiplier P × P) → P
  | [] => zero
  | (k, p) :: rest => add (smul k p) (combination rest)

/-- The laws of a module over the multipliers. -/
structure IsModule (P : Type) [SchnorrGroup P] : Prop where
  add_assoc : ∀ a b c : P, add (add a b) c = add a (add b c)
  add_comm : ∀ a b : P, add a b = add b a
  zero_add : ∀ a : P, add zero a = a
  exists_neg : ∀ a : P, ∃ b, add a b = zero
  smul_add : ∀ (k : Multiplier P) (a b : P), smul k (add a b) = add (smul k a) (smul k b)
  add_smul : ∀ (k l : Multiplier P) (a : P), smul (k + l) a = add (smul k a) (smul l a)
  one_smul : ∀ a : P, smul (Scalar.ofNat order_pos 1) a = a
  mul_smul : ∀ (k l : Multiplier P) (a : P), smul (k * l) a = smul k (smul l a)

/-- The laws of a module, with encodings that are unique and can be undone. -/
structure Lawful (P : Type) [SchnorrGroup P] : Prop extends IsModule P where
  decode_encode : ∀ a : P, decode? (encode a) = some a
  encode_decode : ∀ (b : FixedBytes 32) (a : P), decode? b = some a → encode a = b

end SchnorrGroup

end SidechainVerifier
