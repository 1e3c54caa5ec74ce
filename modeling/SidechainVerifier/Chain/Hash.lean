/-
SidechainVerifier.Chain.Hash — 32-byte identifiers and field elements.

`Hash` names a certificate, a transaction or a sidechain; `FieldElement` is
an element of the proving system's field in its canonical encoding. Both
are ordered by their bytes, and the orders are linear (`TransOrd`,
`LawfulEqOrd`), so both can be keys of ordered maps.
-/
import SidechainVerifier.Digest.Blake3

namespace SidechainVerifier

/-- A 32-byte identifier. -/
structure Hash where
  bytes : FixedBytes 32
deriving DecidableEq

namespace Hash

/-- The identifier of 32 zero bytes. -/
def zero : Hash := ⟨FixedBytes.zero 32⟩

instance : Inhabited Hash := ⟨zero⟩

/-- The BLAKE3 digest of a byte string. -/
def digest (data : Bytes) : Hash := ⟨blake3 data⟩

/-- The hexadecimal text, which is how an identifier is displayed. -/
def toHex (h : Hash) : String := Bytes.toHex h.bytes.toList

/-- Identifiers are ordered by their bytes, the first byte weighing most. -/
instance : Ord Hash := ⟨compareOn Hash.bytes⟩

instance : Std.TransOrd Hash := inferInstanceAs (Std.TransCmp (compareOn Hash.bytes))

instance : Std.LawfulEqOrd Hash where
  eq_of_compare {a b} h := by
    have hb : compare a.bytes b.bytes = .eq := h
    cases a
    cases b
    exact congrArg Hash.mk (Std.LawfulEqCmp.eq_of_compare hb)

end Hash

/-- A field element in its canonical encoding. -/
structure FieldElement where
  bytes : FixedBytes 32
deriving DecidableEq

namespace FieldElement

/-- The element encoded by 32 zero bytes. -/
def zero : FieldElement := ⟨FixedBytes.zero 32⟩

instance : Inhabited FieldElement := ⟨zero⟩

/-- Elements are ordered by their encodings, the first byte weighing most. -/
instance : Ord FieldElement := ⟨compareOn FieldElement.bytes⟩

end FieldElement

/-- A hash of a destination's public key. -/
abbrev KeyHash := FixedBytes 20

/-- The peer an object was received from. -/
structure PeerId where
  id : UInt64
deriving DecidableEq

/-- How a peer is displayed. -/
def PeerId.display (p : PeerId) : String := "peer=" ++ toString p.id.toNat

end SidechainVerifier
