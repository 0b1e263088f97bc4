import Scriptlet.Number.Kind
import Scriptlet.Binary.Decimal

/-!
# Numbers

A number carries its kind. Integers are patterns of bits of their kind's width,
so that arithmetic wraps by itself; floating numbers are binary ones.

Conversions never fail (`Number.convert`): an integer keeps its low bits, and a
floating number is cut off toward zero and clamped to the range of the integral
kind. `Number.lossless?` is the conversion of a number that survives it.
-/

namespace Scriptlet

open Binary

/-- A number of one of the ten kinds. -/
inductive Number
  | integral (kind : IntKind) (bits : BitVec kind.width)
  | float (value : Float32)
  | double (value : Float)
  | decimal (value : Float)

namespace Number

/-- The kind of a number. -/
def kind : Number → NumericKind
  | integral k _ => .integral k
  | float _ => .float
  | double _ => .double
  | decimal _ => .decimal

/-- The number of an integral kind that is congruent to `n` modulo the power of
    two of its width. -/
def ofInt (k : IntKind) (n : Int) : Number := integral k (BitVec.ofInt k.width n)

/-- The `int` with a value. -/
def int (n : Int) : Number := ofInt .int n

/-- The whole number that an integer is. -/
def toInt? : Number → Option Int
  | integral k bits => some (k.value bits)
  | _ => none

/-- A number taken apart as a binary one; integers are taken exactly. -/
def unpack : Number → Unpacked
  | integral k bits => Binary.ofInt (k.value bits)
  | float x => ofSingle x
  | double x | decimal x => ofDouble x

/-- The nearest 64-bit floating number. -/
def toDouble : Number → Float
  | integral k bits => (Binary.ofInt (k.value bits)).toDouble
  | float x => widen x
  | double x | decimal x => x

/-- Whether the number is zero. -/
def isZero (n : Number) : Bool := n.toDouble == 0

/-! ## Conversion -/

/-- The pattern of a number in an integral kind. -/
def bitsIn (n : Number) (k : IntKind) : BitVec k.width :=
  match n.toInt? with
  | some i => BitVec.ofInt k.width i
  | none => BitVec.ofInt k.width (n.unpack.clampTo k.least k.greatest)

/-- A number as one of another kind. -/
def convert (n : Number) : NumericKind → Number
  | .integral k => integral k (n.bitsIn k)
  | .floating .float => float n.unpack.toSingle
  | .floating .double => double n.toDouble
  | .floating .decimal => decimal n.toDouble

/-- Whether a number and its conversion are the same number. -/
def survives (n m : Number) : Bool :=
  match n.toInt?, m.toInt? with
  | some a, some b => a == b
  | some a, none => m.unpack.toInt? == some a
  | none, _ => if n.toDouble.isNaN then m.toDouble.isNaN else n.toDouble == m.toDouble

/-- A number as one of another kind, if that is still the same number. -/
def lossless? (n : Number) (k : NumericKind) : Option Number :=
  if n.survives (n.convert k) then some (n.convert k) else none

/-- The first of `byte`, `short`, `int`, `long` that has a whole number, and a
    `double` for all others. -/
def narrowest (x : Float) : Number :=
  match (ofDouble x).toInt? with
  | none => double x
  | some n =>
    match [IntKind.byte, .short, .int, .long].find? (·.holds n) with
    | some k => ofInt k n
    | none => double x

/-! ## Texts -/

/-- The text of a number in a layout for floating ones. -/
def textIn (l : Layout) : Number → List Char
  | integral k bits => Text.intDigits (k.value bits)
  | float x => singleText l x
  | double x | decimal x => doubleText l x

/-- The text of a number: never an exponent. -/
def text (n : Number) : String := String.ofList (n.textIn .plain)

theorem kind_ofInt (k : IntKind) (n : Int) : (ofInt k n).kind = .integral k := rfl

theorem kind_convert (n : Number) (k : NumericKind) : (n.convert k).kind = k := by
  cases k with
  | integral k => rfl
  | floating k => cases k <;> rfl

end Number

end Scriptlet
