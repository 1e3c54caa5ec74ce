/-
SidechainVerifier.Json.Form — the JSON form of a type.

`JsonForm α` writes values of a type and reads them back. A record is
written as an object with one member for each field. It is read from an
object, whose unknown members are ignored and whose known ones may occur
once, or from the array of its fields in order.
-/
import SidechainVerifier.Bytes
import SidechainVerifier.Json

namespace SidechainVerifier

/-- The JSON form of a type: how a value is written, and what is read as one. -/
class JsonForm (α : Type) where
  toJson : α → Json
  ofJson? : Json → Option α

namespace JsonForm

variable {α β : Type}

/-! ## Numbers and lists -/

/-- The integer of a value, if it is one in the range from `low` to `high`. -/
def integerIn? (low high : Int) : Json → Option Int
  | .integer n => if low ≤ n ∧ n ≤ high then some n else none
  | _ => none

instance : JsonForm UInt8 where
  toJson n := .integer n.toNat
  ofJson? json := (integerIn? 0 (UInt8.size - 1) json).map fun n => UInt8.ofNat n.toNat

instance : JsonForm UInt32 where
  toJson n := .integer n.toNat
  ofJson? json := (integerIn? 0 (UInt32.size - 1) json).map fun n => UInt32.ofNat n.toNat

instance : JsonForm UInt64 where
  toJson n := .integer n.toNat
  ofJson? json := (integerIn? 0 (UInt64.size - 1) json).map fun n => UInt64.ofNat n.toNat

instance : JsonForm Int32 where
  toJson n := .integer n.toInt
  ofJson? json := (integerIn? Int32.minValue.toInt Int32.maxValue.toInt json).map Int32.ofInt

instance : JsonForm Int64 where
  toJson n := .integer n.toInt
  ofJson? json := (integerIn? Int64.minValue.toInt Int64.maxValue.toInt json).map Int64.ofInt

instance : JsonForm String where
  toJson text := .string (some text)
  ofJson? json :=
    match json with
    | .string text => text
    | _ => none

instance [JsonForm α] : JsonForm (List α) where
  toJson items := .array (items.map toJson)
  ofJson? json :=
    match json with
    | .array items => items.mapM ofJson?
    | _ => none

/-- An optional value is null when it is absent. -/
instance [JsonForm α] : JsonForm (Option α) where
  toJson value :=
    match value with
    | some value => toJson value
    | none => .null
  ofJson? json :=
    match json with
    | .null => some none
    | json => (ofJson? json).map some

instance {n : Nat} : JsonForm (FixedBytes n) where
  toJson bytes := toJson bytes.toList
  ofJson? json := (ofJson? json : Option Bytes).bind (FixedBytes.ofBytes? n)

/-! ## Records -/

/-- A record's members in the order of its fields. -/
def record (members : List (String × Json)) : Json :=
  .object (members.map fun (key, value) => (some key, value))

/-- The value of the member with a name; the outer option is `none` if there are several. -/
def member? (members : List (Option String × Json)) (name : String) : Option (Option Json) :=
  match members.filter fun member => member.1 == some name with
  | [] => some none
  | [(_, value)] => some (some value)
  | _ => none

/-- The values of a record's fields where they are present. An array has to hold all fields, or may
hold fewer if the last ones can be left out. -/
def fields? (names : List String) (mayBeShort : Bool) : Json → Option (List (Option Json))
  | .object members =>
    if members.any fun member => member.1.isNone then none else names.mapM (member? members)
  | .array items =>
    if items.length = names.length || (mayBeShort && items.length < names.length) then
      some (items.map some ++ List.replicate (names.length - items.length) none)
    else none
  | _ => none

/-- The value of a field that has to be present. -/
def required [JsonForm α] (field : Option Json) : Option α := field.bind ofJson?

/-- The value of a field that has a value when it is absent; an optional field is `none` then. -/
def withDefault [JsonForm α] (fallback : α) (field : Option Json) : Option α :=
  match field with
  | some json => ofJson? json
  | none => some fallback

/-! ## Names -/

/-- The name of a variant without parts: a string, or an object that maps the name to null. -/
def variant? : Json → Option String
  | .string name => name
  | .object [(name, .null)] => name
  | _ => none

/-- The value with a name, out of a table. -/
def named? (table : List (String × β)) (json : Json) : Option β :=
  (variant? json).bind fun name => table.lookup name

end JsonForm

end SidechainVerifier
