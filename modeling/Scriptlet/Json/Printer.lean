import Scriptlet.Json.Basic
import Scriptlet.Text.Escape

/-!
# Writing JSON

Items and fields stand on lines of their own, indented by two blanks for each
level. Of the characters of a string, only quotes, backslashes and control
characters are escaped, and surrogates that stand alone.
-/

namespace Scriptlet

open Text

namespace JsonValue

/-- How a character is written in a string. -/
def escapeChar (c : Char) : List Char :=
  match c with
  | '"' => ['\\', '"']
  | '\\' => ['\\', '\\']
  | '\x08' => ['\\', 'b']
  | '\x0c' => ['\\', 'f']
  | '\n' => ['\\', 'n']
  | '\r' => ['\\', 'r']
  | '\t' => ['\\', 't']
  | c => if c.toNat < 0x20 then '\\' :: 'u' :: hexDigits 4 c.toNat else [c]

/-- How a code is written in a string. -/
def escapeCode (n : Nat) : List Char :=
  if n.isValidChar then escapeChar (Char.ofNat n) else '\\' :: 'u' :: hexDigits 4 n

/-- How a string is written. -/
def quote (s : JsonString) : String := String.ofList ('"' :: s.codes.flatMap escapeCode ++ ['"'])

/-- The start of a line on a level. -/
def indent (level : Nat) : String := String.ofList (List.replicate (2 * level) ' ')

/-- Lines between two brackets, with the second one on a level. -/
def enclosed (opening closing : String) (level : Nat) (lines : List String) : String :=
  if lines.isEmpty then opening ++ closing else
    opening ++ "\n" ++ String.intercalate ",\n" (lines.map (indent (level + 1) ++ ·)) ++ "\n" ++
      indent level ++ closing

mutual

/-- How a value is written that starts on a line of a level. -/
def pretty (level : Nat) : JsonValue → String
  | null => "null"
  | bool b => if b then "true" else "false"
  | number text => String.ofList text
  | string s => quote s
  | array items => enclosed "[" "]" level (prettyItems (level + 1) items)
  | object fields => enclosed "\x7b" "\x7d" level (prettyFields (level + 1) fields)

/-- How items are written on a level. -/
def prettyItems (level : Nat) : List JsonValue → List String
  | [] => []
  | v :: vs => pretty level v :: prettyItems level vs

/-- How fields are written on a level. -/
def prettyFields (level : Nat) : List (JsonString × JsonValue) → List String
  | [] => []
  | (name, v) :: fs => (quote name ++ ": " ++ pretty level v) :: prettyFields level fs

end

end JsonValue

end Scriptlet
