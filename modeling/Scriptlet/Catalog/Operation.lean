import Scriptlet.Number.Kind
import Scriptlet.Binary.Format

/-!
# Operations of the library

A method of the catalog does not carry a body; it names the operation that a
call of it performs. The operations of the library are listed here, the
functions on real numbers among them apart (`MathFunction`): the simplifier
knows those by what they mean, and can compute them (`MathFunction.value?`).
-/

namespace Scriptlet

/-- The functions on real numbers that have a meaning to the simplifier. -/
inductive MathFunction
  | sin | cos | tan | asin | acos | atan | sinh | cosh | tanh
  | log | log10 | exp | pow | sqrt | abs | floor | ceiling | round | truncate
  deriving DecidableEq, Repr

namespace MathFunction

/-- The function of one number. A power has two. -/
def unary? : MathFunction → Option (Float → Float)
  | sin => some Float.sin
  | cos => some Float.cos
  | tan => some Float.tan
  | asin => some Float.asin
  | acos => some Float.acos
  | atan => some Float.atan
  | sinh => some Float.sinh
  | cosh => some Float.cosh
  | tanh => some Float.tanh
  | log => some Float.log
  | log10 => some Float.log10
  | exp => some Float.exp
  | sqrt => some Float.sqrt
  | abs => some Float.abs
  | floor => some Float.floor
  | ceiling => some Float.ceil
  | round => some Binary.roundHalfEven
  | truncate => some Binary.truncate
  | pow => none

/-- The value of a function, if there are enough arguments. -/
def value? (f : MathFunction) : List Float → Option Float
  | [] => none
  | x :: rest =>
    match f.unary?, rest with
    | some g, _ => some (g x)
    | none, y :: _ => some (x.pow y)
    | none, [] => none

/-- The name of a function. -/
def name : MathFunction → String
  | sin => "Sin"
  | cos => "Cos"
  | tan => "Tan"
  | asin => "Asin"
  | acos => "Acos"
  | atan => "Atan"
  | sinh => "Sinh"
  | cosh => "Cosh"
  | tanh => "Tanh"
  | log => "Log"
  | log10 => "Log10"
  | exp => "Exp"
  | pow => "Pow"
  | sqrt => "Sqrt"
  | abs => "Abs"
  | floor => "Floor"
  | ceiling => "Ceiling"
  | round => "Round"
  | truncate => "Truncate"

/-- All functions. -/
def all : List MathFunction :=
  [sin, cos, tan, asin, acos, atan, sinh, cosh, tanh, log, log10, exp, pow, sqrt, abs, floor,
    ceiling, round, truncate]

/-- The function with a name. -/
def ofName? (s : String) : Option MathFunction := all.find? fun f => f.name == s

end MathFunction

/-- The operations of the methods and constructors of the library. -/
inductive Operation
  -- on all values
  | toText | equals | hash
  -- on truth values, characters and numbers
  | parseBool | isDigit | isLetter | upperChar
  | formatNumber | compareTo | isNaN
  | parseNumber (kind : NumericKind)
  | toInt | toDouble
  -- on strings
  | charAt | substring | upper | lower | trim | contains | startsWith | endsWith | indexOf
  | replace | isNullOrEmpty | concat | format | join
  -- on sequences
  | enumerate | moveNext
  | listNew | listOf | listAdd | listClear | listContains | listIndexOf | listInsert
  | listRemoveAt | listGet | listSet | toArray
  -- on real numbers
  | math (f : MathFunction)
  | logBase | atan2 | roundTo | abs | max | min | sign
  -- queries on sequences
  | select | filter | count | any | every | first | toList | range
  | sum | sumOf | greatest | least | average
  deriving DecidableEq, Repr

/-- The properties of the library. -/
inductive Property
  | stringLength | current | arrayLength | arrayRank | listCount | hasValue | nullableValue
  deriving DecidableEq, Repr

end Scriptlet
