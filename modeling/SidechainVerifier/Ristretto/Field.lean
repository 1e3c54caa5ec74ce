/-
SidechainVerifier.Ristretto.Field — arithmetic modulo `2 ^ 255 - 19`.

Elements are residues. Besides the ring operations there are the sign that
encodings use (`isNegative`, the parity of the residue) and the square root
of a ratio (`sqrtRatio`), on which both decoding and encoding of group
elements rest.
-/
import SidechainVerifier.Bytes

namespace SidechainVerifier.Ristretto

/-- The field's characteristic. -/
def prime : Nat := Nat.pow 2 255 - 19

/-- A field element, as its residue. -/
structure Residue where
  val : Nat
deriving DecidableEq

namespace Residue

/-- The residue of a number. -/
def ofNat (n : Nat) : Residue := ⟨n % prime⟩

instance : Zero Residue := ⟨⟨0⟩⟩
instance : One Residue := ⟨⟨1⟩⟩
instance : Add Residue := ⟨fun a b => ofNat (a.val + b.val)⟩
instance : Sub Residue := ⟨fun a b => ofNat (a.val + (prime - b.val))⟩
instance : Neg Residue := ⟨fun a => ofNat (prime - a.val)⟩
instance : Mul Residue := ⟨fun a b => ofNat (a.val * b.val)⟩

/-- The power with the `bits` low bits of an exponent. -/
def pow (a : Residue) : Nat → Nat → Residue
  | 0, _ => 1
  | bits + 1, e =>
    let half := pow a bits (e / 2)
    if e % 2 = 1 then half * half * a else half * half

/-- An element is negative when its residue is odd. -/
def isNegative (a : Residue) : Bool := a.val % 2 = 1

/-- The one of `a` and `-a` that is not negative. -/
def abs (a : Residue) : Residue := if a.isNegative then -a else a

/-- The curve constant `-121665 / 121666`. -/
def d : Residue :=
  ⟨37095705934669439343138083508754565189542113879843219016388785533085940283555⟩

/-- The square root of `-1` that is not negative. -/
def sqrtMinusOne : Residue :=
  ⟨19681161376707505956807079304988542015446066515923890162744021073123829784752⟩

/-- `1 / sqrt (a - d)` for the curve's `a = -1`. -/
def invSqrtAMinusD : Residue :=
  ⟨54469307008909316920995813868745141605393597292927456921205312896311721017578⟩

/-- Whether `u / v` is a square, and the nonnegative square root of `u / v`, or of
`sqrtMinusOne * (u / v)` when it is not. -/
def sqrtRatio (u v : Residue) : Bool × Residue :=
  let v3 := v * v * v
  let v7 := v3 * v3 * v
  let r := u * v3 * pow (u * v7) 252 (Nat.pow 2 252 - 3)
  let check := v * (r * r)
  let correct := decide (check = u)
  let flipped := decide (check = -u)
  let flippedI := decide (check = -u * sqrtMinusOne)
  let r := if flipped || flippedI then r * sqrtMinusOne else r
  (correct || flipped, r.abs)

/-- The inverse square root, with whether there is one. -/
def invSqrt (v : Residue) : Bool × Residue := sqrtRatio 1 v

/-- The residue in 32 bytes, least significant byte first. -/
def bytes (a : Residue) : FixedBytes 32 :=
  ⟨(Bytes.littleEndian 32 a.val).toArray, by simp⟩

end Residue

end SidechainVerifier.Ristretto
