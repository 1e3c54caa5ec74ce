/-
SidechainVerifier.Text.Integer — reading integers written in decimal.
-/

namespace SidechainVerifier

/-- The value of an ASCII decimal digit. -/
def digit? (c : Char) : Option Nat :=
  if '0' ≤ c && c ≤ '9' then some (c.toNat - 48) else none

/-- The number that a text of decimal digits continues from `acc`. -/
def readDigits? : Nat → List Char → Option Nat
  | acc, [] => some acc
  | acc, c :: rest => (digit? c).bind fun d => readDigits? (10 * acc + d) rest

/-- The number a text of at least one decimal digit stands for. -/
def readNatural? : List Char → Option Nat
  | [] => none
  | text => readDigits? 0 text

/-- The integer a text stands for: an optional plus sign, or where integers are signed a minus sign,
then decimal digits. -/
def readInteger? (signed : Bool) : List Char → Option Int
  | '+' :: digits => (readNatural? digits).map Int.ofNat
  | '-' :: digits => if signed then (readNatural? digits).map fun n => -Int.ofNat n else none
  | digits => (readNatural? digits).map Int.ofNat

end SidechainVerifier
