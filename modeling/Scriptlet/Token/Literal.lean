import Scriptlet.Binary.Decimal
import Scriptlet.Text.Property
import Scriptlet.Token.Basic
import Scriptlet.Token.Quoted

/-!
# Reading literals, comments and names

Each family of tokens has a reader (`Reader`). A reader looks at the front of a
text and either declines, or says how many characters its token takes and what
it stands for, or finds that the token is malformed.

Numbers may be written in four bases, with underscores between the digits and
letters behind for the kind. Without such a suffix a whole number has the first
of the kinds `int`, `uint`, `long` and `ulong` that can hold it.

The end of a string is found before its contents are looked at. Within a hole of
a template (`closeTemplate`) braces nest, and string and character literals are
passed over whole.
-/

namespace Scriptlet

open Text

/-- What a reader finds: nothing, or the length and the class of a token. -/
abbrev Finding := Except Error (Option (Nat × TokenKind))

/-! ## Comments -/

/-- Reads a comment: to the end of the line, or up to its closing mark. -/
def readComment (offset : Nat) : List Char → Finding
  | '/' :: '/' :: cs => pure (some (2 + (cs.takeWhile (· != '\n')).length, .comment))
  | '/' :: '*' :: cs =>
    match find? ['*', '/'] cs with
    | some n => pure (some (n + 4, .comment))
    | none => throw (.unterminatedLiteral offset)
  | _ => pure none

/-! ## Numbers -/

/-- The kinds that letters behind a number ask for. -/
inductive Suffix
  | unsigned
  | long
  | unsignedLong
  | float
  | double
  | decimal
  deriving DecidableEq, Repr

/-- The suffix at the front of a text. -/
def Suffix.of? (cs : List Char) : Option Suffix :=
  match (cs.take 2).map Char.toLower with
  | 'u' :: 'l' :: _ => some unsignedLong
  | 'l' :: 'u' :: _ => some unsignedLong
  | 'u' :: _ => some unsigned
  | 'l' :: _ => some long
  | 'f' :: _ => some float
  | 'd' :: _ => some double
  | 'm' :: _ => some decimal
  | _ => none

/-- The number of letters of a suffix. -/
def Suffix.length : Option Suffix → Nat
  | none => 0
  | some unsignedLong => 2
  | some _ => 1

/-- The integral kinds that a suffix leaves to a whole number. -/
def Suffix.kinds : Option Suffix → List IntKind
  | none => [.int, .uint, .long, .ulong]
  | some unsigned => [.uint, .ulong]
  | some long => [.long, .ulong]
  | some unsignedLong => [.ulong]
  | some _ => []

/-- A whole number with a suffix: of the first permitted kind that holds it. -/
def integralLiteral? (v : Nat) (suffix : Option Suffix) : Option Number :=
  match suffix with
  | some .float => some (.float (Binary.ofInt v).toSingle)
  | some .double => some (.double (Binary.ofInt v).toDouble)
  | some .decimal => some (.decimal (Binary.ofInt v).toDouble)
  | _ => ((Suffix.kinds suffix).find? (·.holds v)).map fun k => Number.ofInt k v

/-- A text without underscores. -/
def dropSeparators (cs : List Char) : List Char := cs.filter (· != '_')

/-- The base that the two characters at the front of a number ask for. -/
def baseOf? : List Char → Option Nat
  | '0' :: c :: _ =>
    match c.toLower with
    | 'x' => some 16
    | 'b' => some 2
    | 'o' => some 8
    | _ => none
  | _ => none

/-- The error for a whole number that no kind holds. -/
def tooLarge (offset : Nat) (lexeme : List Char) : Error :=
  .mismatch offset (.integerTooLarge (String.ofList lexeme))

/-- The greatest whole number that is read at all, plus one. -/
def literalLimit : Nat := Nat.pow 2 128

/-- Reads the digits of a whole number in a base. -/
def literalValue? (base : Nat) (digits : List Char) : Option Nat :=
  match readNatIn? base (dropSeparators digits) with
  | some v => if v < literalLimit then some v else none
  | none => none

/-- Reads a number in a base other than ten; two characters name the base. -/
def readBased (offset base : Nat) (cs : List Char) : Finding :=
  let digits := (cs.drop 2).takeWhile fun c => (digitIn? base c).isSome || c == '_'
  let lexeme := cs.take (2 + digits.length)
  if digits.isEmpty then throw (.unknownSymbol offset (String.ofList lexeme)) else
    match literalValue? base digits with
    | none => throw (tooLarge offset lexeme)
    | some v =>
      let suffix := Suffix.of? (cs.drop lexeme.length)
      match integralLiteral? v suffix with
      | some n => pure (some (lexeme.length + Suffix.length suffix, .number n))
      | none => throw (tooLarge offset lexeme)

/-- The number of digits and underscores at the front of a text. -/
def digitRun (cs : List Char) : Nat := (cs.takeWhile fun c => c.isDigit || c == '_').length

/-- Whether a text starts with a digit. -/
def startsWithDigit : List Char → Bool
  | c :: _ => c.isDigit
  | [] => false

/-- The number of characters of a point and the digits behind it. -/
def fractionRun : List Char → Nat
  | '.' :: cs => if startsWithDigit cs then 1 + digitRun cs else 0
  | _ => 0

/-- The number of characters of an exponent. -/
def exponentRun : List Char → Nat
  | c :: cs =>
    if c == 'e' || c == 'E' then
      match cs with
      | s :: ds =>
        if s == '+' || s == '-' then (if startsWithDigit ds then 2 + digitRun ds else 0)
        else if s.isDigit then 1 + digitRun cs else 0
      | [] => 0
    else 0
  | [] => 0

/-- Reads a number in base ten. -/
def readTens (offset : Nat) (cs : List Char) : Finding :=
  let whole := digitRun cs
  let fraction := fractionRun (cs.drop whole)
  let exponent := exponentRun (cs.drop (whole + fraction))
  let length := whole + fraction + exponent
  let lexeme := cs.take length
  let real := 0 < fraction + exponent
  let suffix := Suffix.of? (cs.drop length)
  let found (n : Number) : Finding := pure (some (length + Suffix.length suffix, .number n))
  let value : Except Error Float :=
    match Binary.readDouble? (dropSeparators lexeme) with
    | some x => pure x
    | none => throw (.unknownSymbol offset (String.ofList (dropSeparators lexeme)))
  match suffix with
  | some .float => do found (.float (Binary.narrow (← value)))
  | some .double => do found (.double (← value))
  | some .decimal => do found (.decimal (← value))
  | suffix =>
    if real then
      if suffix.isNone then do found (.double (← value))
      else throw (.mismatch offset .realWithIntegralSuffix)
    else
      match (literalValue? 10 lexeme).bind (integralLiteral? · suffix) with
      | some n => found n
      | none => throw (tooLarge offset lexeme)

/-- Reads a number. -/
def readNumber (offset : Nat) (cs : List Char) : Finding :=
  if startsWithDigit cs || 0 < fractionRun cs then
    match baseOf? cs with
    | some base => readBased offset base cs
    | none => readTens offset cs
  else pure none

/-! ## The ends of strings -/

/-- The number of characters up to and with the quote that ends a quoted string.
    A quoted string does not go over the end of a line. -/
def closeQuoted? : List Char → Option Nat
  | [] => none
  | '"' :: _ => some 1
  | '\n' :: _ => none
  | '\\' :: cs =>
    match cs with
    | [] => none
    | _ :: ds => (closeQuoted? ds).map (· + 2)
  | _ :: cs => (closeQuoted? cs).map (· + 1)

/-- The number of characters up to and with the quote that ends a verbatim
    string. -/
def closeVerbatim? : List Char → Option Nat
  | [] => none
  | '"' :: cs =>
    match cs with
    | '"' :: ds => (closeVerbatim? ds).map (· + 2)
    | _ => some 1
  | _ :: cs => (closeVerbatim? cs).map (· + 1)

/-- The number of characters up to and with the apostrophe that ends a character
    literal. -/
def closeChar? : List Char → Option Nat
  | [] => none
  | '\'' :: _ => some 1
  | '\n' :: _ => none
  | '\\' :: cs =>
    match cs with
    | [] => none
    | _ :: ds => (closeChar? ds).map (· + 2)
  | _ :: cs => (closeChar? cs).map (· + 1)

/-- One step within a hole: the number of characters to go on by and how deep in
    braces that leads, or `none` for a literal that does not end. -/
def holeStep (depth : Nat) : List Char → Option (Nat × Nat)
  | '\x7b' :: _ => some (1, depth + 1)
  | '\x7d' :: _ => some (1, depth - 1)
  | '"' :: cs => (closeQuoted? cs).map fun n => (n + 1, depth)
  | '@' :: '"' :: cs => (closeVerbatim? cs).map fun n => (n + 2, depth)
  | '\'' :: cs => (closeChar? cs).map fun n => (n + 1, depth)
  | _ => some (1, depth)

/-- One step outside the holes of a template: whether it ends there, the number of
    characters to go on by, and how deep in braces that leads; `none` if the
    template cannot end. -/
def textStep (style : StringStyle) : List Char → Option (Bool × Nat × Nat)
  | '\x7b' :: '\x7b' :: _ => some (false, 2, 0)
  | '\x7b' :: _ => some (false, 1, 1)
  | '"' :: '"' :: _ => if style = .verbatim then some (false, 2, 0) else some (true, 1, 0)
  | '"' :: _ => some (true, 1, 0)
  | '\\' :: _ => some (false, if style = .quoted then 2 else 1, 0)
  | '\n' :: _ => if style = .quoted then none else some (false, 1, 0)
  | _ => some (false, 1, 0)

/-- The number of characters up to and with the quote that ends a template, for
    a rest of the source that stands at `offset`, `depth` braces deep. Every step
    goes on by a character at least, so `steps` need not be more than there are
    characters. -/
def closeTemplate (style : StringStyle) (start : Nat) :
    (steps offset depth : Nat) → List Char → Except Error Nat
  | 0, _, _, _ => throw (.unterminatedLiteral start)
  | _, _, _, [] => throw (.unterminatedLiteral start)
  | steps + 1, offset, depth, c :: cs =>
    let go (n depth : Nat) : Except Error Nat :=
      (· + n) <$> closeTemplate style start steps (offset + byteSize ((c :: cs).take n)) depth
        ((c :: cs).drop n)
    if 0 < depth then
      match holeStep depth (c :: cs) with
      | some (n, depth) => go n depth
      | none => throw (.unterminatedLiteral offset)
    else
      match textStep style (c :: cs) with
      | some (true, n, _) => pure n
      | some (false, n, depth) => go n depth
      | none => throw (.unterminatedLiteral start)

/-- The number of characters of the body of a string literal and the delimiter
    behind it. -/
def closeString (d : Delimiters) (start offset : Nat) (body : List Char) : Except Error Nat :=
  match d.style, d.template with
  | .raw, _ =>
    match find? ['"', '"', '"'] body with
    | some n => pure (n + 3)
    | none => throw (.unterminatedLiteral start)
  | style, true => closeTemplate style start body.length offset 0 body
  | .quoted, false =>
    match closeQuoted? body with
    | some n => pure n
    | none => throw (.unterminatedLiteral start)
  | .verbatim, false =>
    match closeVerbatim? body with
    | some n => pure n
    | none => throw (.unterminatedLiteral start)

/-- Reads a string or a template. -/
def readString (offset : Nat) (cs : List Char) : Finding :=
  match Delimiters.of? cs with
  | none => pure none
  | some d => do
    let length := d.opening + (← closeString d offset (offset + d.opening) (cs.drop d.opening))
    if d.template then pure (some (length, .template))
    else do
      let value ← decodeString (cs.take length) offset
      pure (some (length, .string (String.ofList value)))

/-! ## Characters and names -/

/-- Reads a character literal. -/
def readChar (offset : Nat) : List Char → Finding
  | '\'' :: cs =>
    match closeChar? cs with
    | none => throw (.unterminatedLiteral offset)
    | some n => do
      match ← unescape (cs.take (n - 1)) (offset + 1) with
      | [c] => pure (some (n + 1, .char c))
      | _ => throw (.mismatch offset .charLiteral)
  | _ => pure none

/-- Reads a name: a letter, an underscore or a dollar sign, then letters,
    numerals and underscores. A dollar sign alone is none. -/
def readName : List Char → Option (Nat × TokenKind)
  | c :: cs =>
    let rest := cs.takeWhile fun d => isLetterOrNumeral d || d == '_'
    if (isLetter c || c == '_' || c == '$') && !(c == '$' && rest.isEmpty) then
      let kind := if isKeyword (String.ofList (c :: rest)) then .keyword else .identifier
      some (rest.length + 1, kind)
    else none
  | [] => none

/-! ## Readers -/

/-- The families of tokens that are read before symbols. -/
inductive Reader
  | comment
  | number
  | string
  | char
  | name
  deriving DecidableEq, Repr

/-- Reads a token of the family from the front of a text that stands at
    `offset`. -/
def Reader.read (offset : Nat) (cs : List Char) : Reader → Finding
  | comment => readComment offset cs
  | number => readNumber offset cs
  | string => readString offset cs
  | char => readChar offset cs
  | name => pure (readName cs)

/-- The readers of the language, in the order in which they are asked. -/
def Reader.standard : List Reader := [comment, number, string, char, name]

end Scriptlet
