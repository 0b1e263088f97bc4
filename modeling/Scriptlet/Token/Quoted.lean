import Scriptlet.Error
import Scriptlet.Text.Bytes

/-!
# String literals

A string is written in one of three styles: quoted, with escapes; verbatim,
with doubled quotes; or raw, between three quotes on either side. Each may be a
template, marked by a dollar sign (`Delimiters.of?`).

`unescape` decodes the escapes of a quoted string; `StringStyle.decode` is the
text of a verbatim or raw one.
-/

namespace Scriptlet

open Text

/-- The styles of string literals. -/
inductive StringStyle
  | quoted
  | verbatim
  | raw
  deriving DecidableEq, Repr

/-- How a string literal is delimited. -/
structure Delimiters where
  style : StringStyle
  /-- Whether the string is a template. -/
  template : Bool
  /-- The number of characters in front of the body. -/
  opening : Nat
  /-- The number of characters behind the body. -/
  closing : Nat
  deriving DecidableEq, Repr

/-- The delimiters of the string literal at the front of a text. -/
def Delimiters.of? : List Char → Option Delimiters
  | '$' :: '"' :: '"' :: '"' :: _ => some ⟨.raw, true, 4, 3⟩
  | '$' :: '@' :: '"' :: _ => some ⟨.verbatim, true, 3, 1⟩
  | '@' :: '$' :: '"' :: _ => some ⟨.verbatim, true, 3, 1⟩
  | '$' :: '"' :: _ => some ⟨.quoted, true, 2, 1⟩
  | '"' :: '"' :: '"' :: _ => some ⟨.raw, false, 3, 3⟩
  | '@' :: '"' :: _ => some ⟨.verbatim, false, 2, 1⟩
  | '"' :: _ => some ⟨.quoted, false, 1, 1⟩
  | _ => none

/-- What stands between the delimiters of a literal. -/
def Delimiters.body (d : Delimiters) (lexeme : List Char) : List Char :=
  (lexeme.take (lexeme.length - d.closing)).drop d.opening

/-! ## Escapes -/

/-- The character that a one-letter escape stands for. -/
def escape? : Char → Option Char
  | 'n' => some '\n'
  | 't' => some '\t'
  | 'r' => some '\r'
  | '0' => some (Char.ofNat 0)
  | '\\' => some '\\'
  | '"' => some '"'
  | '\'' => some '\''
  | 'a' => some (Char.ofNat 7)
  | 'b' => some (Char.ofNat 8)
  | 'f' => some (Char.ofNat 12)
  | 'v' => some (Char.ofNat 11)
  | _ => none

/-- Whether a character is a hexadecimal digit. -/
def isHexDigit (c : Char) : Bool := (digitIn? 16 c).isSome

/-- The character with a hexadecimal code. Halves of surrogate pairs are no
    characters. -/
def charOfHex? (ds : List Char) : Option Char :=
  match readNatIn? 16 ds with
  | some n => if n.isValidChar then some (Char.ofNat n) else none
  | none => none

/-- Decodes escapes. `offset` is the place of the text in the source, for the
    place of an unknown escape; `skip` counts characters that belong to the
    escape before them. -/
def unescapeFrom : (offset skip : Nat) → List Char → Except Error (List Char)
  | _, _, [] => pure []
  | offset, skip + 1, c :: cs => unescapeFrom (offset + c.utf8Size) skip cs
  | offset, 0, c :: cs =>
    if c ≠ '\\' then (c :: ·) <$> unescapeFrom (offset + c.utf8Size) 0 cs
    else
      match cs with
      | [] => throw (.unknownEscape offset "\\")
      | e :: rest =>
        if e = 'u' ∨ e = 'x' then
          let code := (rest.take 4).takeWhile isHexDigit
          let wrong := Error.unknownEscape offset (String.ofList ('\\' :: e :: code))
          if e = 'u' ∧ code.length ≠ 4 then throw wrong else
            match charOfHex? code with
            | some d => (d :: ·) <$> unescapeFrom (offset + 1) (code.length + 1) (e :: rest)
            | none => throw wrong
        else
          match escape? e with
          | some d => (d :: ·) <$> unescapeFrom (offset + 1) 1 (e :: rest)
          | none => throw (.unknownEscape offset (String.ofList ['\\', e]))

/-- Decodes the escapes of a text that stands at `offset`. -/
def unescape (body : List Char) (offset : Nat) : Except Error (List Char) :=
  unescapeFrom offset 0 body

/-! ## Decoding -/

/-- The text without its last line, if that line is blank. -/
def dropBlankLastLine (s : List Char) : List Char :=
  let last := (s.reverse.takeWhile (· != '\n')).reverse
  if last.length < s.length && (trim last).isEmpty then s.take (s.length - last.length - 1) else s

namespace StringStyle

/-- The text of a body in a style, without regard to escapes. In a verbatim one
    two quotes are one; a raw one loses a line break at its start, and a blank
    last line. -/
def decode : StringStyle → List Char → List Char
  | verbatim, body => replace ['"', '"'] ['"'] body
  | raw, '\n' :: body => dropBlankLastLine body
  | raw, body => dropBlankLastLine body
  | quoted, body => body

end StringStyle

/-- The text of a string literal that stands at `offset`. -/
def decodeString (lexeme : List Char) (offset : Nat) : Except Error (List Char) :=
  match Delimiters.of? lexeme with
  | some d =>
    if d.template || lexeme.length < d.opening + d.closing then throw (.unterminatedLiteral offset)
    else
      match d.style with
      | .quoted => unescape (d.body lexeme) (offset + d.opening)
      | style => pure (style.decode (d.body lexeme))
  | none => throw (.unterminatedLiteral offset)

end Scriptlet
