import Scriptlet.Binary.Format
import Scriptlet.Text.Cut

/-!
# Decimal texts of floating-point numbers

A floating-point number is written with the fewest decimal digits that read
back as the same number (`shortest`). The reals that round to a number form an
interval around it; on the grid of decimals with `n` digits only the two
neighbours of the number matter, and the first `n` at which one of them lies in
the interval gives the digits. If both do and are equally near, a rule decides
(`Tie`).

The digits are laid out in several ways: positionally (`positional`), with an
exponent for very large and very small numbers (`Layout.write`), and, rounded
from the exact value, with a fixed number of places (`fixed`, `exponential`).
`readDecimal?` reads all of these texts.
-/

namespace Scriptlet.Binary

open Scriptlet.Text

/-- The decimal `digits · 10 ^ exponent`. -/
structure Decimal where
  digits : Nat
  exponent : Int
  deriving DecidableEq, Repr

/-- A power of ten times a ratio, as a ratio. -/
def scaleTen (e : Int) (num den : Nat) : Nat × Nat :=
  if 0 ≤ e then (num * Nat.pow 10 e.toNat, den) else (num, den * Nat.pow 10 (-e).toNat)

/-- The number of decimal places to move the point by, to the right, until the
    ratio is at least one. -/
def leadingZeros (num den : Nat) : Nat → Nat
  | 0 => 0
  | steps + 1 => if den ≤ num then 0 else leadingZeros (num * 10) den steps + 1

/-- The place of the decimal point: the `k` with `10 ^ (k - 1) ≤ num / den < 10 ^ k`,
    for a positive ratio that is not below `10 ^ (-400)`. -/
def pointPlace (num den : Nat) : Int :=
  if den ≤ num then (natDigits (num / den)).length
  else 1 - leadingZeros num den 400

/-- The digits of a decimal without the zeros at their end. -/
def Decimal.trimZeros (d : Decimal) : Nat → Decimal
  | 0 => d
  | steps + 1 =>
    if d.digits ≠ 0 ∧ d.digits % 10 = 0 then
      Decimal.trimZeros ⟨d.digits / 10, d.exponent + 1⟩ steps
    else d

/-! ## Fewest digits -/

/-- Which of two decimals is taken that are equally near to a number. -/
inductive Tie
  /-- The greater one. -/
  | up
  /-- The one whose last digit is even. -/
  | even
  deriving DecidableEq, Repr

/-- Whether the smaller one of two neighbours is taken, given by its digits, if the
    number lies `part / whole` of the way to the greater one. -/
def Tie.goesDown (t : Tie) (digits part whole : Nat) : Bool :=
  2 * part < whole || (t == even && 2 * part == whole && digits % 2 == 0)

/-- The reals that round to one number, over a common denominator. -/
structure Interval where
  low : Nat
  value : Nat
  high : Nat
  den : Nat
  /-- Whether the ends themselves round to the number. -/
  closed : Bool
  deriving Repr

/-- The reals that round to `significand · 2 ^ exponent`. Below a power of two
    the numbers lie twice as dense. -/
def Format.interval (f : Format) (significand : Nat) (exponent : Int) : Interval :=
  let below := if significand = f.binade then 1 else 2
  let (unit, den) := scaleRatio (exponent - 2) 1 1
  { low := (4 * significand - below) * unit, value := 4 * significand * unit,
    high := (4 * significand + 2) * unit, den, closed := significand % 2 = 0 }

/-- Whether the decimal rounds to the number of the interval. -/
def Interval.contains (i : Interval) (d : Decimal) : Bool :=
  let (num, den) := scaleTen d.exponent d.digits 1
  if i.closed then i.low * den ≤ num * i.den && num * i.den ≤ i.high * den
  else i.low * den < num * i.den && num * i.den < i.high * den

/-- The nearer of the number's two neighbours on the grid of the multiples of
    `10 ^ exponent`, of those that round to the number. -/
def Interval.onGrid? (i : Interval) (t : Tie) (exponent : Int) : Option Decimal :=
  let (num, den) := scaleTen (-exponent) i.value i.den
  let down : Decimal := ⟨num / den, exponent⟩
  let up : Decimal := ⟨num / den + 1, exponent⟩
  match i.contains down, i.contains up with
  | true, true => some (if t.goesDown (num / den) (num % den) den then down else up)
  | true, false => some down
  | false, true => some up
  | false, false => none

/-- Tries ever finer grids, from `n` digits on. -/
def Interval.search (i : Interval) (t : Tie) (place : Int) (n : Nat) : Nat → Decimal
  | 0 => ⟨0, 0⟩
  | steps + 1 =>
    match i.onGrid? t (place - n) with
    | some d => d
    | none => Interval.search i t place (n + 1) steps

/-- The decimal with the fewest digits that rounds to a positive number, and of
    those the nearest to it. -/
def Format.shortest (f : Format) (t : Tie) (significand : Nat) (exponent : Int) : Decimal :=
  let i := f.interval significand exponent
  (i.search t (pointPlace i.value i.den) 1 20).trimZeros 20

/-! ## Layouts -/

/-- The digits of a decimal and the place of its point among them. -/
def Decimal.places (d : Decimal) : List Char × Int :=
  let cs := natDigits d.digits
  (cs, cs.length + d.exponent)

/-- A decimal without an exponent, with `least` places after the point at least. -/
def Decimal.positional (d : Decimal) (least : Nat) : List Char :=
  let (cs, place) := d.places
  let whole := if place ≤ 0 then ['0'] else cs.take place.toNat ++ List.replicate (place.toNat - cs.length) '0'
  let part := List.replicate (-place).toNat '0' ++ cs.drop place.toNat
  let part := part ++ List.replicate (least - part.length) '0'
  if part.isEmpty then whole else whole ++ '.' :: part

/-- A decimal with one digit before the point and an exponent, which has a sign
    also if it is not negative, if `plus`. -/
def Decimal.scientific (d : Decimal) (plus : Bool) : List Char :=
  let (cs, place) := d.places
  let sign := if plus ∧ 1 ≤ place then ['+'] else []
  cs.take 1 ++ (if cs.length ≤ 1 then [] else '.' :: cs.drop 1) ++
    'e' :: sign ++ intDigits (place - 1)

/-- How numbers are written. -/
structure Layout where
  /-- Where the point stands at least in a text without an exponent. -/
  leastPlace : Int
  /-- Where the point stands at most in a text without an exponent. -/
  greatestPlace : Int
  /-- How many places follow the point at least in a text without an exponent. -/
  leastPlaces : Nat
  /-- Whether an exponent has a sign also if it is not negative. -/
  plus : Bool := false
  /-- Which of two texts is taken that are equally near to the number. -/
  tie : Tie := .up

/-- Never an exponent, and no point in a whole number. -/
def Layout.plain : Layout where
  leastPlace := -400
  greatestPlace := 400
  leastPlaces := 0

/-- A point in every number without an exponent; an exponent from `10 ^ 16` on
    and below `10 ^ (-4)`. -/
def Layout.exact : Layout where
  leastPlace := -3
  greatestPlace := 16
  leastPlaces := 1

/-- The text of a positive decimal. -/
def Layout.write (l : Layout) (d : Decimal) : List Char :=
  let place := d.places.2
  if l.leastPlace ≤ place ∧ place ≤ l.greatestPlace then d.positional l.leastPlaces
  else d.scientific l.plus

/-- The text of a number of the format, with the sign of a zero kept. -/
def Format.text (f : Format) (l : Layout) : Unpacked → List Char
  | .nan => ['N', 'a', 'N']
  | .infinite negative => if negative then ['-', 'i', 'n', 'f'] else ['i', 'n', 'f']
  | .finite negative significand exponent =>
    let size :=
      if significand = 0 then Decimal.positional ⟨0, 0⟩ l.leastPlaces
      else l.write (f.shortest l.tie significand exponent)
    if negative then '-' :: size else size

/-- The text of a 64-bit number. -/
def doubleText (l : Layout) (x : Float) : List Char := double.text l (ofDouble x)

/-- The text of a 32-bit number. -/
def singleText (l : Layout) (x : Float32) : List Char := single.text l (ofSingle x)

/-! ## Rounded texts -/

/-- A whole number of units of the last of `places` places after the point. -/
def placed (units places : Nat) : List Char :=
  let cs := padFront (places + 1) '0' (natDigits units)
  let whole := cs.take (cs.length - places)
  if places = 0 then whole else whole ++ '.' :: cs.drop (cs.length - places)

/-- The exact value rounded to a number of places after the point, a tie to the
    even last digit. -/
def fixed (places : Nat) : Unpacked → List Char
  | .finite negative significand exponent =>
    let (num, den) := scaleRatio exponent significand 1
    let size := placed (roundDiv (num * Nat.pow 10 places) den) places
    if negative then '-' :: size else size
  | u => double.text .plain u

/-- The exact value rounded to one digit before the point and `places` after it,
    a tie to the even last digit, with an exponent. -/
def exponential (places : Nat) : Unpacked → List Char
  | .finite negative significand exponent =>
    let (num, den) := scaleRatio exponent significand 1
    let size :=
      if significand = 0 then placed 0 places ++ ['e', '0'] else
        let place := pointPlace num den
        let (a, b) := scaleTen (places + 1 - place) num den
        let units := roundDiv a b
        if units < Nat.pow 10 (places + 1) then placed units places ++ 'e' :: intDigits (place - 1)
        else placed (units / 10) places ++ 'e' :: intDigits place
    if negative then '-' :: size else size
  | u => double.text .plain u

/-! ## Reading -/

/-- A decimal text that was read. -/
inductive Reading
  | nan
  | infinite (negative : Bool)
  | decimal (negative : Bool) (value : Decimal)
  deriving DecidableEq, Repr

/-- Reads an exponent mark with its number, or nothing. -/
def readExponent? : List Char → Option Int
  | [] => some 0
  | c :: cs =>
    if c = 'e' ∨ c = 'E' then
      match cs with
      | '-' :: ds => (readNatIn? 10 ds).map fun n => -(n : Int)
      | '+' :: ds => (readNatIn? 10 ds).map Int.ofNat
      | ds => (readNatIn? 10 ds).map Int.ofNat
    else none

/-- Reads digits with a point somewhere among them and an exponent behind. -/
def readUnsigned? (cs : List Char) : Option Decimal :=
  let whole := cs.takeWhile Char.isDigit
  let rest := cs.dropWhile Char.isDigit
  let (part, rest) := match rest with
    | '.' :: ds => (ds.takeWhile Char.isDigit, ds.dropWhile Char.isDigit)
    | ds => ([], ds)
  if whole.isEmpty && part.isEmpty then none else
    match readDigits 10 0 (whole ++ part), readExponent? rest with
    | some digits, some exponent => some ⟨digits, exponent - part.length⟩
    | _, _ => none

/-- Reads a number: an optional sign and a decimal, or a word for an infinity or
    for what is not a number. -/
def readDecimal? (cs : List Char) : Option Reading :=
  let (negative, rest) := match cs with
    | '-' :: ds => (true, ds)
    | '+' :: ds => (false, ds)
    | ds => (false, ds)
  let word := String.ofList (rest.map Char.toLower)
  if word = "nan" then some .nan
  else if word = "inf" ∨ word = "infinity" then some (.infinite negative)
  else (readUnsigned? rest).map (.decimal negative)

/-- The pattern of the number of the format nearest to a positive decimal. A
    decimal beyond the range of every format is not written out first. -/
def Format.encodeDecimal (f : Format) (d : Decimal) : Nat :=
  let place := d.places.2
  if d.digits = 0 ∨ place < -400 then 0
  else if 400 < place then f.infinity
  else
    let (num, den) := scaleTen d.exponent d.digits 1
    f.encodeRatio num den

/-- The number of the format nearest to what was read. -/
def Format.nearest (f : Format) : Reading → Unpacked
  | .nan => .nan
  | .infinite negative => .infinite negative
  | .decimal negative d => f.decode ((if negative then f.signBit else 0) + f.encodeDecimal d)

/-- The 64-bit number nearest to the one written in a text. -/
def readDouble? (cs : List Char) : Option Float :=
  (readDecimal? cs).map fun r => (double.nearest r).toDouble

/-- The 32-bit number nearest to the one written in a text. -/
def readSingle? (cs : List Char) : Option Float32 :=
  (readDecimal? cs).map fun r => (single.nearest r).toSingle

end Scriptlet.Binary
