/-
SidechainVerifier.Ristretto.Point — points of the twisted Edwards curve and
their Ristretto encoding.

A `Point` holds extended coordinates. `Point.decode?` reads the canonical
32-byte form of a group element and `Point.encode` writes it; points of one
coset of the small subgroup have the same form.
-/
import SidechainVerifier.Ristretto.Field

namespace SidechainVerifier.Ristretto

/-- A curve point in extended coordinates: `x = X / Z`, `y = Y / Z`, `x * y = T / Z`. -/
structure Point where
  x : Residue
  y : Residue
  z : Residue
  t : Residue

namespace Point

/-- The neutral point. -/
def identity : Point := ⟨0, 1, 1, 0⟩

/-- The sum of two points; the formula is complete, so it also doubles. -/
def add (p q : Point) : Point :=
  let a := (p.y - p.x) * (q.y - q.x)
  let b := (p.y + p.x) * (q.y + q.x)
  let c := p.t * (Residue.d + Residue.d) * q.t
  let d := (p.z + p.z) * q.z
  let e := b - a
  let f := d - c
  let g := d + c
  let h := b + a
  ⟨e * f, g * h, f * g, e * h⟩

/-- The multiple by the `bits` low bits of a number. -/
def multiple (p : Point) : Nat → Nat → Point
  | 0, _ => identity
  | bits + 1, k =>
    let half := multiple p bits (k / 2)
    let twice := half.add half
    if k % 2 = 1 then twice.add p else twice

/-- The point a canonical encoding stands for. Refused are numbers that are not reduced or are
negative, and those that lead to no curve point. -/
def decode? (encoding : FixedBytes 32) : Option Point :=
  let n := Bytes.toNat encoding.toList
  let s : Residue := ⟨n⟩
  if n ≥ prime || s.isNegative then none
  else
    let ss := s * s
    let u1 := 1 - ss
    let u2 := 1 + ss
    let u2sq := u2 * u2
    let v := -(Residue.d * (u1 * u1)) - u2sq
    let (wasSquare, i) := Residue.invSqrt (v * u2sq)
    let dx := i * u2
    let dy := i * dx * v
    let x := ((s + s) * dx).abs
    let y := u1 * dy
    let t := x * y
    if !wasSquare || t.isNegative || y = 0 then none else some ⟨x, y, 1, t⟩

/-- The canonical encoding of a point's coset. -/
def encode (p : Point) : FixedBytes 32 :=
  let u1 := (p.z + p.y) * (p.z - p.y)
  let u2 := p.x * p.y
  let (_, i) := Residue.invSqrt (u1 * (u2 * u2))
  let i1 := i * u1
  let i2 := i * u2
  let zInv := i1 * (i2 * p.t)
  let rotate := (p.t * zInv).isNegative
  let x := if rotate then p.y * Residue.sqrtMinusOne else p.x
  let y := if rotate then p.x * Residue.sqrtMinusOne else p.y
  let dInv := if rotate then i1 * Residue.invSqrtAMinusD else i2
  let y := if (x * zInv).isNegative then -y else y
  (dInv * (p.z - y)).abs.bytes

end Point

end SidechainVerifier.Ristretto
