/-
SidechainVerifier.Bytes — byte strings and the ways numbers are laid out in
them.

* `Bytes` is a byte string of any length, `FixedBytes n` one of exactly `n`
  bytes.
* `Bytes.littleEndian` and `Bytes.bigEndian` lay a number out in a given
  number of bytes, `Bytes.toNat` reads the little-endian form back.
* `Bytes.toHex` is the lower-case hexadecimal text of a byte string,
  `Bytes.ofHex?` reads such a text in either case.

A layout has the width it was asked for (`length_littleEndian`).
-/

namespace SidechainVerifier

/-- A byte string of any length. -/
abbrev Bytes := List UInt8

/-- A byte string of exactly `n` bytes. -/
abbrev FixedBytes (n : Nat) := Vector UInt8 n

namespace FixedBytes

/-- `n` zero bytes. -/
def zero (n : Nat) : FixedBytes n := Vector.replicate n 0

/-- The bytes of `bytes`, when there are exactly `n` of them. -/
def ofBytes? (n : Nat) (bytes : Bytes) : Option (FixedBytes n) :=
  if h : bytes.length = n then some ⟨bytes.toArray, by simpa using h⟩ else none

end FixedBytes

namespace Bytes

/-! ## Numbers -/

/-- The `width` low bytes of `n`, least significant byte first. -/
def littleEndian : Nat → Nat → Bytes
  | 0, _ => []
  | width + 1, n => UInt8.ofNat (n % 256) :: littleEndian width (n / 256)

/-- The `width` low bytes of `n`, most significant byte first. -/
def bigEndian (width n : Nat) : Bytes :=
  (littleEndian width n).reverse

/-- The number a byte string holds, least significant byte first. -/
def toNat : Bytes → Nat
  | [] => 0
  | b :: rest => b.toNat + 256 * toNat rest

@[simp] theorem length_littleEndian (width n : Nat) :
    (littleEndian width n).length = width := by
  induction width generalizing n with
  | zero => rfl
  | succ width ih => simp [littleEndian, ih]

@[simp] theorem length_bigEndian (width n : Nat) :
    (bigEndian width n).length = width := by
  simp [bigEndian]

/-- Two byte strings of one length that stand for the same number are equal. -/
theorem eq_of_toNat_eq {a b : Bytes} (hlen : a.length = b.length) (h : toNat a = toNat b) :
    a = b := by
  induction a generalizing b with
  | nil => cases b with
    | nil => rfl
    | cons => simp at hlen
  | cons x xs ih => cases b with
    | nil => simp at hlen
    | cons y ys =>
      have hx : x.toNat < 256 := UInt8.toNat_lt x
      have hy : y.toNat < 256 := UInt8.toNat_lt y
      simp only [toNat] at h
      have hxy : x.toNat = y.toNat := by omega
      rw [UInt8.toNat_inj.mp hxy, ih (by simpa using hlen) (by omega)]

/-! ## Cutting -/

/-- The first `count` blocks of `size` bytes; the last ones may be short or empty. -/
def blocks (size : Nat) : Nat → Bytes → List Bytes
  | 0, _ => []
  | count + 1, bytes => bytes.take size :: blocks size count (bytes.drop size)

/-! ## Text -/

/-- The codes of the characters of a text that holds only ASCII. -/
def ascii (text : String) : Bytes := text.toList.map fun c => UInt8.ofNat c.toNat

/-- The lower-case hexadecimal digit of a number below sixteen. -/
def hexDigit (n : Nat) : Char :=
  if n < 10 then Char.ofNat (48 + n) else Char.ofNat (87 + n)

/-- The value of a hexadecimal digit of either case. -/
def hexValue? (c : Char) : Option Nat :=
  if '0' ≤ c && c ≤ '9' then some (c.toNat - 48)
  else if 'a' ≤ c && c ≤ 'f' then some (c.toNat - 87)
  else if 'A' ≤ c && c ≤ 'F' then some (c.toNat - 55)
  else none

/-- Two lower-case hexadecimal digits for each byte. -/
def toHex (bytes : Bytes) : String :=
  String.ofList (bytes.flatMap fun b => [hexDigit (b.toNat / 16), hexDigit (b.toNat % 16)])

/-- The bytes that pairs of hexadecimal digits stand for; `none` if a digit is odd or no digit. -/
def ofHexDigits? : List Char → Option Bytes
  | [] => some []
  | [_] => none
  | high :: low :: rest => do
    let h ← hexValue? high
    let l ← hexValue? low
    return UInt8.ofNat (16 * h + l) :: (← ofHexDigits? rest)

/-- The bytes a hexadecimal text stands for. -/
def ofHex? (text : String) : Option Bytes := ofHexDigits? text.toList

end Bytes

end SidechainVerifier
