import Scriptlet.Text.Property

/-!
# Escapes in program text

A string or character is written in a program with escapes for the characters
that cannot stand for themselves: backslashes, the quote around it, and control
characters.
-/

namespace Scriptlet.Text

/-- The hexadecimal digits of a number, at least `width` of them. -/
def hexDigits (width n : Nat) : List Char :=
  let ds := Nat.toDigits 16 n
  List.replicate (width - ds.length) '0' ++ ds

/-- How a character is written between quotes. -/
def escapeChar (quote c : Char) : List Char :=
  if c = '\\' then ['\\', '\\']
  else if c = '\n' then ['\\', 'n']
  else if c = '\r' then ['\\', 'r']
  else if c = '\t' then ['\\', 't']
  else if c = Char.ofNat 0 then ['\\', '0']
  else if c = quote then ['\\', c]
  else if isControl c then '\\' :: 'u' :: hexDigits 4 c.toNat
  else [c]

/-- How a text is written between quotes. -/
def escape (quote : Char) (s : List Char) : List Char := s.flatMap (escapeChar quote)

end Scriptlet.Text
