import Scriptlet.Value.Text

/-!
# Formatted texts of values

A format is a letter with a number behind it: `D` for whole numbers with at least so
many digits, `F` for so many places behind the point, `N` the same with the digits in
groups, `E` with an exponent, `X` in hexadecimal digits. Other formats, and values
that are not numbers, make no difference.

A composite format is a text with numbered holes, each with an alignment and a format
if wanted (`composite`).
-/

namespace Scriptlet

open Text

/-! ## Formats of numbers -/

/-- Puts a comma in front of every third digit from the end. -/
def groupDigits : List Char → List Char
  | [] => []
  | c :: cs =>
    if cs.length % 3 = 0 ∧ cs ≠ [] then c :: ',' :: groupDigits cs else c :: groupDigits cs

/-- Puts the digits in front of the point in groups of three. -/
def groupThousands (text : List Char) : List Char :=
  let (sign, rest) : List Char × List Char :=
    match text with
    | '-' :: rest => (['-'], rest)
    | rest => ([], rest)
  let (whole, fraction) := rest.span (· != '.')
  sign ++ groupDigits whole ++ fraction

/-- The number of places that a format asks for. -/
def precision? (cs : List Char) : Option Nat :=
  (readNat? cs).bind fun n => if n < Nat.pow 2 64 then some n else none

/-- A whole number with at least so many digits. -/
def wholeDigits (width : Nat) (n : Int) : List Char :=
  let digits := padFront width '0' (natDigits n.natAbs)
  if n < 0 then '-' :: digits else digits

/-- The hexadecimal digits of a number; a negative one is taken as 128 bits. -/
def hexText (n : Int) : List Char := Nat.toDigits 16 (n % (Nat.pow 2 128 : Nat)).toNat

/-- A number in a format, if the format makes a difference. -/
def Number.formatted? (n : Number) : (format : List Char) → Option (List Char)
  | [] => none
  | letter :: rest =>
    let places := precision? rest
    let u := Binary.ofDouble n.toDouble
    match letter with
    | 'D' | 'd' => n.toInt?.map (wholeDigits (places.getD 0))
    | 'F' | 'f' => some (Binary.fixed (places.getD 2) u)
    | 'N' | 'n' => some (groupThousands (Binary.fixed (places.getD 2) u))
    | 'E' | 'e' => some (Binary.exponential (places.getD 6) u)
    | 'X' => n.toInt?.map fun i => padFront (places.getD 0) '0' ((hexText i).map Char.toUpper)
    | 'x' => n.toInt?.map fun i => padFront (places.getD 0) '0' (hexText i)
    | _ => none

namespace Store

/-- The text of a value in a format. -/
def format (s : Store) (v : Value) (format : List Char) : List Char :=
  match v with
  | .number n => (n.formatted? format).getD (s.display v).toList
  | v => (s.display v).toList

/-! ## Composite formats -/

/-- A text with at least so many characters, at the right end or, if the number is
    negative, at the left. -/
def align (width : Int) (text : List Char) : List Char :=
  if width < 0 then padBack width.natAbs ' ' text else padFront width.natAbs ' ' text

/-- The least and the greatest width. -/
def widthRange : Int × Int := (IntKind.int.least, IntKind.int.greatest)

/-- The text for the hole of a composite format with this text in it. -/
def fill (s : Store) (values : List Value) (hole : List Char) : Option (List Char) := do
  let (place, format) := ((splitOnce? ':' hole).map fun (p, f) => (p, some f)).getD (hole, none)
  let (index, width) ←
    match splitOnce? ',' place with
    | some (i, w) => (readIntWithin? widthRange.1 widthRange.2 (trim w)).map fun w => (i, some w)
    | none => some (place, none)
  let v ← (precision? (trim index)).bind fun i => values[i]?
  let text := (format.map (s.format v)).getD (s.display v).toList
  pure ((width.map fun w => align w text).getD text)

/-- The text of a composite format, of which at most so many characters are left. -/
def compositeWithin (s : Store) (values : List Value) : (steps : Nat) → List Char →
    Option (List Char)
  | _, [] => some []
  | 0, _ :: _ => none
  | steps + 1, '\x7b' :: '\x7b' :: rest => (compositeWithin s values steps rest).map ('\x7b' :: ·)
  | steps + 1, '\x7d' :: '\x7d' :: rest => (compositeWithin s values steps rest).map ('\x7d' :: ·)
  | steps + 1, '\x7b' :: rest =>
    match splitOnce? '\x7d' rest with
    | some (hole, rest) => do
      let text ← s.fill values hole
      pure (text ++ (← compositeWithin s values steps rest))
    | none => none
  | _, '\x7d' :: _ => none
  | steps + 1, c :: rest => (compositeWithin s values steps rest).map (c :: ·)

/-- The text of a composite format with values for its holes. -/
def composite (s : Store) (format : List Char) (values : List Value) :
    Except Fault (List Char) :=
  match s.compositeWithin values format.length format with
  | some text => pure text
  | none => throw .formatText

end Store

end Scriptlet
