/-
SidechainVerifier.Text.Blank — characters with the White_Space property.

`isBlank` is the property of the Unicode standard, whose 25 characters have
not changed since version 4.1 but for U+180E, which lost it in 6.3.
-/

namespace SidechainVerifier

/-- The character has the White_Space property. -/
def isBlank (c : Char) : Bool :=
  let n := c.toNat
  (9 ≤ n && n ≤ 13) || n = 0x20 || n = 0x85 || n = 0xa0 || n = 0x1680 ||
    (0x2000 ≤ n && n ≤ 0x200a) || n = 0x2028 || n = 0x2029 || n = 0x202f || n = 0x205f || n = 0x3000

/-- The text without the blanks at both ends. -/
def trimBlank (text : List Char) : List Char :=
  ((text.dropWhile isBlank).reverse.dropWhile isBlank).reverse

end SidechainVerifier
