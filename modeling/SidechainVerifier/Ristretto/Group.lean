/-
SidechainVerifier.Ristretto.Group — Ristretto255 as a `SchnorrGroup`.

An `Element` is a canonical encoding that decodes, so two elements are
equal exactly when their encodings are; sums and multiples are computed on
curve points and encoded again.
-/
import SidechainVerifier.Ristretto.Point
import SidechainVerifier.Schnorr.Group

namespace SidechainVerifier.Ristretto

/-- The order of the group. -/
def groupOrder : Nat := Nat.pow 2 252 + 27742317777372353535851937790883648493

theorem groupOrder_pos : 0 < groupOrder := by decide

/-- Every scalar fits 32 bytes. -/
theorem groupOrder_le : groupOrder ≤ Nat.pow 256 32 := by decide

/-- A group element: a byte string that is the canonical encoding of one. -/
structure Element where
  encoding : FixedBytes 32
  decodes : (Point.decode? encoding).isSome

namespace Element

instance : DecidableEq Element := fun a b =>
  if h : a.encoding = b.encoding then
    isTrue (by cases a; cases b; simp_all)
  else
    isFalse (fun hab => h (congrArg encoding hab))

/-- A curve point that stands for the element. -/
def point (e : Element) : Point := (Point.decode? e.encoding).get e.decodes

/-- The element with an encoding, if it is canonical. -/
def ofEncoding? (encoding : FixedBytes 32) : Option Element :=
  if h : (Point.decode? encoding).isSome then some ⟨encoding, h⟩ else none

/-- The neutral element, which is encoded by zero bytes. -/
def identity : Element := ⟨FixedBytes.zero 32, by decide +kernel⟩

/-- The element a curve point stands for. -/
def ofPoint (p : Point) : Element := (ofEncoding? p.encode).getD identity

/-- The sum. -/
def add (a b : Element) : Element := ofPoint (a.point.add b.point)

/-- The multiple. -/
def multiple (k : Nat) (a : Element) : Element := ofPoint (a.point.multiple 253 k)

/-- The base element. -/
def base : Element :=
  ⟨#v[0xe2, 0xf2, 0xae, 0x0a, 0x6a, 0xbc, 0x4e, 0x71, 0xa8, 0x84, 0xa9, 0x61, 0xc5, 0x00, 0x51, 0x5f,
    0x58, 0xe3, 0x0b, 0x6a, 0xa5, 0x82, 0xdd, 0x8d, 0xb6, 0xa6, 0x59, 0x45, 0xe0, 0x8d, 0x2d, 0x76],
    by decide +kernel⟩

end Element

instance : SchnorrGroup Element where
  order := groupOrder
  order_pos := groupOrder_pos
  order_le := groupOrder_le
  base := Element.base
  zero := Element.identity
  add := Element.add
  smul k a := Element.multiple k.val a
  encode := Element.encoding
  decode? := Element.ofEncoding?
  decEq := inferInstance

end SidechainVerifier.Ristretto
