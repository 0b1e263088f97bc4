/-!
# Numeric kinds

The language has ten kinds of numbers: seven integral ones (`IntKind`), each a
width with or without a sign, and three floating ones (`FloatKind`). A value of
one kind may stand where another is wanted if the first *widens to* the second
(`NumericKind.widensTo`). Operators bring both operands to one kind first
(`NumericKind.promote`); integers smaller than `int` are never computed with as
they are.
-/

namespace Scriptlet

/-- The integral kinds, narrow to wide. -/
inductive IntKind
  | byte | short | ushort | int | uint | long | ulong
  deriving DecidableEq, Repr

/-- The floating kinds. A `decimal` has the precision of a `double`, but no
    other floating kind converts to or from it by itself. -/
inductive FloatKind
  | float | double | decimal
  deriving DecidableEq, Repr

/-- The numeric kinds. -/
inductive NumericKind
  | integral (kind : IntKind)
  | floating (kind : FloatKind)
  deriving DecidableEq, Repr

namespace IntKind

/-- The number of bits. -/
def width : IntKind → Nat
  | byte => 8
  | short | ushort => 16
  | int | uint => 32
  | long | ulong => 64

/-- Whether the highest bit is a sign. -/
def signed : IntKind → Bool
  | short | int | long => true
  | byte | ushort | uint | ulong => false

/-- The whole number that a pattern of bits stands for. -/
def value (k : IntKind) (bits : BitVec k.width) : Int :=
  if k.signed then bits.toInt else bits.toNat

/-- The least number of the kind. -/
def least (k : IntKind) : Int := if k.signed then -(Nat.pow 2 (k.width - 1) : Nat) else 0

/-- The greatest number of the kind. -/
def greatest (k : IntKind) : Int :=
  (Nat.pow 2 (if k.signed then k.width - 1 else k.width) : Nat) - 1

/-- Whether the kind has the number. -/
def holds (k : IntKind) (n : Int) : Bool := k.least ≤ n && n ≤ k.greatest

/-- The integral kinds that a kind widens to, itself left out. -/
def wider : IntKind → List IntKind
  | byte => [short, ushort, int, uint, long, ulong]
  | short => [int, long]
  | ushort => [int, uint, long, ulong]
  | int => [long]
  | uint => [long, ulong]
  | long | ulong => []

/-- The kind two integers are computed in. -/
def promote (a b : IntKind) : IntKind :=
  if a = ulong ∨ b = ulong then ulong
  else if a = long ∨ b = long then long
  else if a = uint then (if b = short ∨ b = int then long else uint)
  else if b = uint then (if a = short ∨ a = int then long else uint)
  else int

/-- The kind one integer is computed in. -/
def promoteUnary : IntKind → IntKind
  | byte | short | ushort => int
  | k => k

end IntKind

namespace NumericKind

@[match_pattern] abbrev byte : NumericKind := integral .byte
@[match_pattern] abbrev short : NumericKind := integral .short
@[match_pattern] abbrev ushort : NumericKind := integral .ushort
@[match_pattern] abbrev int : NumericKind := integral .int
@[match_pattern] abbrev uint : NumericKind := integral .uint
@[match_pattern] abbrev long : NumericKind := integral .long
@[match_pattern] abbrev ulong : NumericKind := integral .ulong
@[match_pattern] abbrev float : NumericKind := floating .float
@[match_pattern] abbrev double : NumericKind := floating .double
@[match_pattern] abbrev decimal : NumericKind := floating .decimal

/-- All kinds, in the order in which a common kind is looked for. -/
def all : List NumericKind :=
  [byte, short, ushort, int, uint, long, ulong, float, double, decimal]

/-- The keyword of a kind. -/
def name : NumericKind → String
  | byte => "byte"
  | short => "short"
  | ushort => "ushort"
  | int => "int"
  | uint => "uint"
  | long => "long"
  | ulong => "ulong"
  | float => "float"
  | double => "double"
  | decimal => "decimal"

/-- The name under which the catalog has the members of a kind. -/
def systemName : NumericKind → String
  | byte => "Byte"
  | short => "Int16"
  | ushort => "UInt16"
  | int => "Int32"
  | uint => "UInt32"
  | long => "Int64"
  | ulong => "UInt64"
  | float => "Single"
  | double => "Double"
  | decimal => "Decimal"

/-- The kind with a keyword. -/
def ofName? (s : String) : Option NumericKind := all.find? fun k => k.name == s

/-- Whether the kind is an integral one. -/
def isIntegral : NumericKind → Bool
  | integral _ => true
  | floating _ => false

/-- Whether the kind is a floating one. -/
def isFloating (k : NumericKind) : Bool := !k.isIntegral

/-- Whether the kind has no negative numbers. -/
def isUnsigned : NumericKind → Bool
  | integral k => !k.signed
  | floating _ => false

/-- The place of a kind among all. -/
def rank (k : NumericKind) : Nat := all.findIdx (· == k)

/-- Whether a number of the first kind may stand where the second is wanted. -/
def widensTo : NumericKind → NumericKind → Bool
  | integral a, integral b => a = b || a.wider.contains b
  | integral _, floating _ => true
  | floating _, integral _ => false
  | floating a, floating b => a = b || (a = .float && b = .double)

/-- The kind that an operator brings its two operands to. -/
def promote : NumericKind → NumericKind → NumericKind
  | integral a, integral b => integral (a.promote b)
  | a, b =>
    if a = decimal ∨ b = decimal then decimal
    else if a = double ∨ b = double then double
    else float

/-- The kind that an operator brings its one operand to. -/
def promoteUnary : NumericKind → NumericKind
  | integral k => integral k.promoteUnary
  | k => k

end NumericKind

end Scriptlet
