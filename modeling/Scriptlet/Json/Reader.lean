import Scriptlet.Json.Basic
import Scriptlet.Text.Cut

/-!
# Reading JSON

The grammar is the strict one: no comments, no commas behind the last item, no
control characters in strings, no leading zeros in numbers. The characters of a
string beyond the basic plane may be written as surrogate pairs; a surrogate may also
stand alone.

Every step of a reading takes a character at least, so it is given as many steps
as there are characters, and one more.
-/

namespace Scriptlet

open Text

namespace JsonValue

/-- Whether a character may stand between the parts of a value. -/
def isSpace (c : Char) : Bool := c == ' ' || c == '\t' || c == '\n' || c == '\r'

/-- The text behind blanks. -/
def skipSpace (s : List Char) : List Char := s.dropWhile isSpace

/-! ## Numbers -/

/-- Cuts digits off a text that has to start with one. -/
def digits? (s : List Char) : Option (List Char × List Char) :=
  match s.span fun c => (digit? c).isSome with
  | ([], _) => none
  | cut => some cut

/-- Cuts the whole part of a number off a text. -/
def whole? (s : List Char) : Option (List Char × List Char) :=
  match s with
  | '0' :: rest => some (['0'], rest)
  | s => digits? s

/-- Cuts a fraction off a text, if there is one. -/
def fraction? (s : List Char) : Option (List Char × List Char) :=
  match s with
  | '.' :: rest => (digits? rest).map fun (ds, rest) => ('.' :: ds, rest)
  | s => some ([], s)

/-- Cuts an exponent off a text, if there is one. -/
def exponent? (s : List Char) : Option (List Char × List Char) :=
  match s with
  | c :: rest =>
    if c = 'e' ∨ c = 'E' then
      match rest with
      | '+' :: rest => (digits? rest).map fun (ds, rest) => (c :: '+' :: ds, rest)
      | '-' :: rest => (digits? rest).map fun (ds, rest) => (c :: '-' :: ds, rest)
      | rest => (digits? rest).map fun (ds, rest) => (c :: ds, rest)
    else some ([], s)
  | [] => some ([], [])

/-- Cuts a number off a text. -/
def number? (s : List Char) : Option (JsonValue × List Char) := do
  let (sign, rest) : List Char × List Char :=
    match s with
    | '-' :: rest => (['-'], rest)
    | s => ([], s)
  let (ds, rest) ← whole? rest
  let (fs, rest) ← fraction? rest
  let (es, rest) ← exponent? rest
  pure (number (sign ++ ds ++ fs ++ es), rest)

/-! ## Strings -/

/-- Cuts the four digits of a code unit off a text. -/
def unit? : List Char → Option (Nat × List Char)
  | a :: b :: c :: d :: rest => (readNatIn? 16 [a, b, c, d]).map (·, rest)
  | _ => none

/-- Whether a code unit is the first one of a pair. -/
def isHigh (n : Nat) : Bool := 0xd800 ≤ n && n < 0xdc00

/-- Whether a code unit is the second one of a pair. -/
def isLow (n : Nat) : Bool := 0xdc00 ≤ n && n < 0xe000

/-- Cuts a pair of code units off a text, of which the first is known. -/
def pairRest? (high : Nat) : List Char → Option (Nat × List Char)
  | '\\' :: 'u' :: rest => do
    let (low, rest) ← unit? rest
    if isHigh high && isLow low then
      pure (0x10000 + (high - 0xd800) * 0x400 + (low - 0xdc00), rest)
    else none
  | _ => none

/-- Cuts the code of a character off a text in which it is given by code units, or
    that of a surrogate that stands alone. -/
def unicode? (s : List Char) : Option (Nat × List Char) := do
  let (n, rest) ← unit? s
  pure ((pairRest? n rest).getD (n, rest))

/-- The character that a letter behind a backslash stands for. -/
def escaped? : Char → Option Char
  | '"' => some '"'
  | '\\' => some '\\'
  | '/' => some '/'
  | 'b' => some '\x08'
  | 'f' => some '\x0c'
  | 'n' => some '\n'
  | 'r' => some '\r'
  | 't' => some '\t'
  | _ => none

/-- Cuts the rest of a string and its closing quote off a text, and gives the codes in
    it. -/
def stringRest? : (steps : Nat) → List Char → Option (List Nat × List Char)
  | 0, _ => none
  | _, [] => none
  | steps + 1, c :: rest =>
    if c = '"' then some ([], rest)
    else if c = '\\' then
      match rest with
      | 'u' :: rest => do
        let (n, rest) ← unicode? rest
        let (ns, rest) ← stringRest? steps rest
        pure (n :: ns, rest)
      | e :: rest => do
        let d ← escaped? e
        let (ns, rest) ← stringRest? steps rest
        pure (d.toNat :: ns, rest)
      | [] => none
    else if c.toNat < 0x20 then none
    else (stringRest? steps rest).map fun (ns, rest) => (c.toNat :: ns, rest)

/-- Cuts the rest of a string off a text. -/
def quoted? (s : List Char) : Option (JsonString × List Char) :=
  (stringRest? (s.length + 1) s).map fun (ns, rest) => (⟨ns⟩, rest)

/-! ## Values -/

mutual

/-- Cuts a value off a text. -/
def value? : (steps : Nat) → List Char → Option (JsonValue × List Char)
  | 0, _ => none
  | steps + 1, s =>
    match skipSpace s with
    | 'n' :: 'u' :: 'l' :: 'l' :: rest => some (null, rest)
    | 't' :: 'r' :: 'u' :: 'e' :: rest => some (bool true, rest)
    | 'f' :: 'a' :: 'l' :: 's' :: 'e' :: rest => some (bool false, rest)
    | '"' :: rest => (quoted? rest).map fun (t, rest) => (string t, rest)
    | '[' :: rest =>
      match skipSpace rest with
      | ']' :: rest => some (array [], rest)
      | rest => (items? steps rest).map fun (vs, rest) => (array vs, rest)
    | '\x7b' :: rest =>
      match skipSpace rest with
      | '\x7d' :: rest => some (object [], rest)
      | rest => (fields? steps rest).map fun (fs, rest) => (object fs, rest)
    | s => number? s

/-- Cuts the items of an array and its closing bracket off a text. -/
def items? : (steps : Nat) → List Char → Option (List JsonValue × List Char)
  | 0, _ => none
  | steps + 1, s => do
    let (v, rest) ← value? steps s
    match skipSpace rest with
    | ']' :: rest => some ([v], rest)
    | ',' :: rest =>
      let (vs, rest) ← items? steps rest
      some (v :: vs, rest)
    | _ => none

/-- Cuts the fields of an object and its closing brace off a text. -/
def fields? : (steps : Nat) → List Char → Option (List (JsonString × JsonValue) × List Char)
  | 0, _ => none
  | steps + 1, s => do
    let (name, v, rest) ← field? steps s
    match skipSpace rest with
    | '\x7d' :: rest => some ([(name, v)], rest)
    | ',' :: rest =>
      let (fs, rest) ← fields? steps rest
      some ((name, v) :: fs, rest)
    | _ => none

/-- Cuts a field off a text. -/
def field? : (steps : Nat) → List Char → Option (JsonString × JsonValue × List Char)
  | 0, _ => none
  | steps + 1, s => do
    match skipSpace s with
    | '"' :: rest =>
      let (name, rest) ← quoted? rest
      match skipSpace rest with
      | ':' :: rest =>
        let (v, rest) ← value? steps rest
        some (name, v, rest)
      | _ => none
    | _ => none

end

/-- Reads a text that is a value. Nested values take up to three steps a character. -/
def read? (text : String) : Option JsonValue := do
  let s := text.toList
  let (v, rest) ← value? (3 * s.length + 3) s
  if (skipSpace rest).isEmpty then some v else none

end JsonValue

end Scriptlet
