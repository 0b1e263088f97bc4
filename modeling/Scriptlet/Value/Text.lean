import Scriptlet.Text.Inspect
import Scriptlet.Value.Basic

/-!
# Texts of values

A value is shown to the user of a program (`Store.display`), and to someone who
looks for a mistake (`Store.inspect`); its type is named in messages
(`Store.typeName`) and in the catalog (`Store.definitionName?`).

Values can contain each other in circles. What contains itself is shown only as
deep as there are things in the store.
-/

namespace Scriptlet

open Text

namespace Store

variable (s : Store)

/-- The name of the type of a value, in messages. -/
def typeName : Value → String
  | .null => "null"
  | .bool _ => "bool"
  | .char _ => "char"
  | .number n => n.kind.name
  | .string _ => "string"
  | .array r => (s.array r).element.text ++ "[]"
  | .list _ => "List"
  | .object r => (s.object r).typeName
  | .enumerator _ => "IEnumerator"
  | .function r => "Func<" ++ showNat (s.function r).lambda.params.length ++ ">"

/-- The name of the type of a value, in the catalog. -/
def definitionName? : Value → Option String
  | .null | .function _ => none
  | .bool _ => some "Boolean"
  | .char _ => some "Char"
  | .number n => some n.kind.systemName
  | .string _ => some "String"
  | .array _ => some "Array"
  | .list _ => some "List"
  | .object r => some (s.object r).typeName
  | .enumerator _ => some "IEnumerator"

/-- The name of functions. -/
def functionName : String := "lambda"

/-- The text of a value, with objects shown so many levels deep. -/
def displayWithin : (depth : Nat) → Value → String
  | _, .null => ""
  | _, .bool b => if b then "True" else "False"
  | _, .char c => c.toString
  | _, .number n => n.text
  | _, .string t => t
  | _, .array r => (s.array r).element.text ++ "[]"
  | _, .list _ => "System.Collections.Generic.List"
  | _, .enumerator _ => "System.Collections.IEnumerator"
  | _, .function _ => "<fn " ++ functionName ++ ">"
  | 0, .object r => (s.object r).typeName
  | depth + 1, .object r =>
    let o := s.object r
    match o.fields.lookup "Message" with
    | some message => o.typeName ++ ": " ++ displayWithin depth message
    | none => o.typeName

/-- The text of a value. An exception is shown with its message. -/
def display (v : Value) : String := s.displayWithin (s.objects.size + 1) v

/-- Texts in brackets, parted by commas. -/
def bracketed (opening closing : String) (texts : List String) : String :=
  opening ++ String.intercalate ", " texts ++ closing

/-- The full text of a value, with its parts shown so many levels deep. -/
def inspectWithin : (depth : Nat) → Value → String
  | _, .null => "null"
  | _, .bool b => if b then "true" else "false"
  | _, .char c => String.ofList (Text.inspect '\'' [c])
  | _, .number n => n.text ++ ":" ++ n.kind.name
  | _, .string t => String.ofList (Text.inspect '"' t.toList)
  | _, .enumerator r =>
    "IEnumerator@" ++
      match (s.enumerator r).position with
      | none => "None"
      | some i => "Some(" ++ showNat i ++ ")"
  | _, .function r =>
    "<fn " ++ functionName ++ "/" ++ showNat (s.function r).lambda.params.length ++ ">"
  | 0, .array _ | 0, .list _ | 0, .object _ => ""
  | depth + 1, .array r => bracketed "[" "]" ((s.array r).items.map (inspectWithin depth))
  | depth + 1, .list r => bracketed "List[" "]" ((s.list r).map (inspectWithin depth))
  | depth + 1, .object r =>
    let o := s.object r
    let field (f : String × Value) : String :=
      String.ofList (Text.inspect '"' f.1.toList) ++ ": " ++ inspectWithin depth f.2
    o.typeName ++ " " ++ bracketed "\x7b" "\x7d" (o.fields.map field)

/-- The full text of a value. -/
def inspect (v : Value) : String :=
  s.inspectWithin (s.arrays.size + s.lists.size + s.objects.size + 1) v

end Store

end Scriptlet
