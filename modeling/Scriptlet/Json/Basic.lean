/-!
# JSON values

The values of the format in which options are given and tokens are listed. A
number is kept as it is written.

In a string, also in the name of a field, characters may be given by code units, and
then surrogates can stand alone in it. Such a string is no text (`JsonString.text?`).
-/

namespace Scriptlet

/-- A JSON string: the codes of its characters, and of surrogates that stand alone. -/
structure JsonString where
  codes : List Nat
  deriving DecidableEq, Repr

namespace JsonString

/-- The string with a text. -/
def ofText (s : String) : JsonString := ⟨s.toList.map (·.toNat)⟩

/-- The text that a string is, if no surrogate stands alone in it. -/
def text? (s : JsonString) : Option String :=
  if s.codes.all (·.isValidChar) then some (String.ofList (s.codes.map Char.ofNat)) else none

end JsonString

/-- A JSON value. The fields of an object stand in the order in which they are
    written, and may have names in common. -/
inductive JsonValue
  | null
  | bool (value : Bool)
  | number (text : List Char)
  | string (value : JsonString)
  | array (items : List JsonValue)
  | object (fields : List (JsonString × JsonValue))

namespace JsonValue

/-- A string with a text. -/
def ofText (s : String) : JsonValue := string (.ofText s)

/-- An object whose fields have texts as names. -/
def record (fields : List (String × JsonValue)) : JsonValue :=
  object (fields.map fun (name, v) => (.ofText name, v))

end JsonValue

end Scriptlet
