/-
SidechainVerifier.Json.Parser — reading a JSON text.

The parser takes one token at a time and keeps the arrays and objects that
have been opened on a stack, so a text may be nested to any depth. A text
holds exactly one value.
-/
import SidechainVerifier.Json.Token

namespace SidechainVerifier.Json

/-- An array or object that has been opened; what it holds so far is in reverse. -/
inductive Frame where
  | items (items : List Json)
  /-- An object between two members. -/
  | members (members : List (Option String × Json))
  /-- An object in a member whose key has been read. -/
  | member (members : List (Option String × Json)) (key : Option String)

/-- What may come next. -/
inductive Expectation where
  | value
  | valueOrClose
  | key
  | keyOrClose
  | colon
  | commaOrClose
  /-- The text's value is complete. -/
  | nothing (value : Json)

/-- The parser's state. -/
structure Parse where
  stack : List Frame
  expects : Expectation

/-- Puts a complete value where it belongs. -/
def Parse.complete (value : Json) : List Frame → Option Parse
  | [] => some ⟨[], .nothing value⟩
  | .items items :: stack => some ⟨.items (value :: items) :: stack, .commaOrClose⟩
  | .member members key :: stack => some ⟨.members ((key, value) :: members) :: stack, .commaOrClose⟩
  | .members _ :: _ => none

/-- Starts reading a value. -/
def Parse.startValue (stack : List Frame) : Token → Option Parse
  | .scalar value => complete value stack
  | .mark c =>
    if c = '[' then some ⟨.items [] :: stack, .valueOrClose⟩
    else if c = '\x7b' then some ⟨.members [] :: stack, .keyOrClose⟩
    else none

/-- Closes the innermost array or object. -/
def Parse.close (stack : List Frame) : Token → Option Parse
  | .scalar _ => none
  | .mark c =>
    match stack with
    | .items items :: stack => if c = ']' then complete (.array items.reverse) stack else none
    | .members members :: stack =>
      if c = '\x7d' then complete (.object members.reverse) stack else none
    | _ => none

/-- Reads a key. -/
def Parse.readKey (stack : List Frame) : Token → Option Parse
  | .scalar (.string key) =>
    match stack with
    | .members members :: stack => some ⟨.member members key :: stack, .colon⟩
    | _ => none
  | _ => none

/-- Goes on after a comma. -/
def Parse.afterComma (stack : List Frame) : Option Parse :=
  match stack with
  | .items _ :: _ => some ⟨stack, .value⟩
  | .members _ :: _ => some ⟨stack, .key⟩
  | _ => none

/-- Whether a token is this mark of punctuation. -/
def Token.isMark (token : Token) (c : Char) : Bool :=
  match token with
  | .mark m => m = c
  | .scalar _ => false

/-- Reads one token. -/
def Parse.step (p : Parse) (token : Token) : Option Parse :=
  match p.expects with
  | .value => startValue p.stack token
  | .valueOrClose => if token.isMark ']' then close p.stack token else startValue p.stack token
  | .key => readKey p.stack token
  | .keyOrClose => if token.isMark '\x7d' then close p.stack token else readKey p.stack token
  | .colon => if token.isMark ':' then some ⟨p.stack, .value⟩ else none
  | .commaOrClose => if token.isMark ',' then afterComma p.stack else close p.stack token
  | .nothing _ => none

/-- The value a text holds. -/
def parse? (text : String) : Option Json := do
  let tokens ← tokens? text.toList
  match ← tokens.foldlM Parse.step ⟨[], .value⟩ with
  | ⟨_, .nothing value⟩ => return value
  | _ => none

end SidechainVerifier.Json
