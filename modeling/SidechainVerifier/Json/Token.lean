/-
SidechainVerifier.Json.Token — cutting a JSON text into tokens.

The scanner reads one character at a time. Outside strings it collects the
characters between blanks and punctuation into words, which have to be
literals or numbers; inside strings it collects code points, and joins the
surrogate pairs written as escapes at the end.
-/
import SidechainVerifier.Json
import SidechainVerifier.Text.Integer

namespace SidechainVerifier.Json

/-! ## Words -/

/-- The text is one or more decimal digits. -/
def isDigits (text : List Char) : Bool := !text.isEmpty && text.all fun c => (digit? c).isSome

/-- The text is an exponent, from its `e` to its end. -/
def isExponent : List Char → Bool
  | e :: sign :: digits =>
    (e = 'e' || e = 'E') &&
      (if sign = '+' || sign = '-' then isDigits digits else isDigits (sign :: digits))
  | _ => false

/-- The text is a fractional part, an exponent, or both. -/
def isFractional : List Char → Bool
  | '.' :: text =>
    let digits := text.takeWhile fun c => (digit? c).isSome
    let rest := text.dropWhile fun c => (digit? c).isSome
    !digits.isEmpty && (rest.isEmpty || isExponent rest)
  | text => isExponent text

/-- The number a text stands for. Leading zeros are not allowed, and negative zero is not an
integer. -/
def number? (text : List Char) : Option Json :=
  let negative := text.head? = some '-'
  let body := if negative then text.tail else text
  let digits := body.takeWhile fun c => (digit? c).isSome
  let rest := body.dropWhile fun c => (digit? c).isSome
  if digits.head? = some '0' && digits.length > 1 then none
  else
    match readNatural? digits with
    | none => none
    | some n =>
      if rest.isEmpty then
        if negative && n = 0 then some fraction
        else some (integer (if negative then -Int.ofNat n else Int.ofNat n))
      else if isFractional rest then some fraction
      else none

/-- The literal or number a word stands for. -/
def word? (text : List Char) : Option Json :=
  if text = ['n', 'u', 'l', 'l'] then some null
  else if text = ['t', 'r', 'u', 'e'] then some (bool true)
  else if text = ['f', 'a', 'l', 's', 'e'] then some (bool false)
  else number? text

/-! ## Strings -/

/-- The text of a list of code points, where a high surrogate has to be followed by a low one and
both stand for one character; `none` if a surrogate is left alone. -/
def joinSurrogates : List Nat → Option (List Char)
  | [] => some []
  | [n] => if 0xd800 ≤ n && n < 0xe000 then none else some [Char.ofNat n]
  | high :: low :: rest =>
    if 0xd800 ≤ high && high < 0xdc00 then
      if 0xdc00 ≤ low && low < 0xe000 then
        (joinSurrogates rest).map fun text =>
          Char.ofNat (0x10000 + (high - 0xd800) * 0x400 + (low - 0xdc00)) :: text
      else none
    else if 0xdc00 ≤ high && high < 0xe000 then none
    else (joinSurrogates (low :: rest)).map fun text => Char.ofNat high :: text

/-- The code point of an escape of one letter. -/
def shortEscape? (c : Char) : Option Nat :=
  if c = '"' || c = '\\' || c = '/' then some c.toNat
  else if c = 'b' then some 8
  else if c = 'f' then some 12
  else if c = 'n' then some 10
  else if c = 'r' then some 13
  else if c = 't' then some 9
  else none

/-! ## The scanner -/

/-- A token: a mark of punctuation, or a value without parts. -/
inductive Token where
  | mark (c : Char)
  | scalar (value : Json)

/-- Where the scanner is; what has been collected is in reverse. -/
inductive Scan where
  /-- Between strings, in a word that may be empty. -/
  | outside (word : List Char)
  /-- In a string. -/
  | inside (content : List Nat)
  /-- In a string, after a backslash. -/
  | escape (content : List Nat)
  /-- In a string, in an escape by number with some digits to come. -/
  | unicode (content : List Nat) (digits : Nat) (value : Nat)

/-- The four characters that may stand between tokens. -/
def isSpace (c : Char) : Bool := c = ' ' || c = '\n' || c = '\t' || c = '\r'

/-- The marks of punctuation. -/
def isMark (c : Char) : Bool :=
  c = '[' || c = ']' || c = '\x7b' || c = '\x7d' || c = ',' || c = ':'

/-- The tokens, in reverse, with the word that has just ended. -/
def endWord (word : List Char) (tokens : List Token) : Option (List Token) :=
  match word with
  | [] => some tokens
  | word => (word? word.reverse).map fun value => .scalar value :: tokens

/-- Reads one character. -/
def scanStep : Scan × List Token → Char → Option (Scan × List Token)
  | (.outside word, tokens), c =>
    if isSpace c then (endWord word tokens).map fun tokens => (.outside [], tokens)
    else if isMark c then (endWord word tokens).map fun tokens => (.outside [], .mark c :: tokens)
    else if c = '"' then (endWord word tokens).map fun tokens => (.inside [], tokens)
    else some (.outside (c :: word), tokens)
  | (.inside content, tokens), c =>
    if c = '"' then
      let text := (joinSurrogates content.reverse).map String.ofList
      some (.outside [], .scalar (string text) :: tokens)
    else if c = '\\' then some (.escape content, tokens)
    else if c.toNat < 32 then none
    else some (.inside (c.toNat :: content), tokens)
  | (.escape content, tokens), c =>
    if c = 'u' then some (.unicode content 4 0, tokens)
    else (shortEscape? c).map fun n => (.inside (n :: content), tokens)
  | (.unicode content digits value, tokens), c =>
    (Bytes.hexValue? c).map fun n =>
      let value := 16 * value + n
      if digits ≤ 1 then (.inside (value :: content), tokens)
      else (.unicode content (digits - 1) value, tokens)

/-- The tokens of a text. -/
def tokens? (text : List Char) : Option (List Token) :=
  match text.foldlM scanStep (.outside [], []) with
  | some (.outside word, tokens) => (endWord word tokens).map List.reverse
  | _ => none

end SidechainVerifier.Json
