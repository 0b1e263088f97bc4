import Scriptlet.Number.Basic

/-!
# Arithmetic

The two operands of an operator are brought to one kind and computed with
there (`Number.binary`). Integers wrap around; division by zero is a fault for
integers and decimals, while binary floating numbers have infinities. Shifts
keep the kind of their left operand and take the count modulo its width.

`Number.compare` is the order after the same promotion. `Number.equivalent` is
equality across kinds: it is decided in the first kind that has both numbers.
-/

namespace Scriptlet

open Binary

/-- The operators on two numbers. -/
inductive Arith
  | add | subtract | multiply | divide | modulo | power
  | and | or | exclusiveOr | leftShift | rightShift
  deriving DecidableEq, Repr

/-- Why an operator has no result. -/
inductive ArithFault
  | divisionByZero
  | shiftCount
  | shiftOperand
  | bitwiseOperand
  deriving DecidableEq, Repr

/-- The text of a fault. -/
def ArithFault.message : ArithFault → String
  | divisionByZero => "Attempted to divide by zero."
  | shiftCount => "Shift count must be an integral value"
  | shiftOperand => "Shift requires integral operands"
  | bitwiseOperand => "Bitwise operators require integral operands"

namespace Number

/-- The quotient of two patterns of a kind, cut off toward zero. -/
def quotient (k : IntKind) (x y : BitVec k.width) : BitVec k.width :=
  if k.signed then x.sdiv y else x / y

/-- The remainder of two patterns of a kind, with the sign of the dividend. -/
def remainder (k : IntKind) (x y : BitVec k.width) : BitVec k.width :=
  if k.signed then x.srem y else x % y

/-- An operator on two patterns of one integral kind. -/
def integralOp (op : Arith) (k : IntKind) (x y : BitVec k.width) :
    Except ArithFault (BitVec k.width) :=
  match op with
  | .add => pure (x + y)
  | .subtract => pure (x - y)
  | .multiply => pure (x * y)
  | .divide => if y = 0 then throw .divisionByZero else pure (quotient k x y)
  | .modulo => if y = 0 then throw .divisionByZero else pure (remainder k x y)
  | .and => pure (x &&& y)
  | .or => pure (x ||| y)
  | .exclusiveOr => pure (x ^^^ y)
  | .power | .leftShift | .rightShift => throw .bitwiseOperand

/-- An operator on two 64-bit floating numbers. -/
def doubleOp (op : Arith) (x y : Float) : Except ArithFault Float :=
  match op with
  | .add => pure (x + y)
  | .subtract => pure (x - y)
  | .multiply => pure (x * y)
  | .divide => pure (x / y)
  | .modulo => pure (remDouble x y)
  | _ => throw .bitwiseOperand

/-- An operator on two 32-bit floating numbers. -/
def singleOp (op : Arith) (x y : Float32) : Except ArithFault Float32 :=
  match op with
  | .add => pure (x + y)
  | .subtract => pure (x - y)
  | .multiply => pure (x * y)
  | .divide => pure (x / y)
  | .modulo => pure (remSingle x y)
  | _ => throw .bitwiseOperand

/-- An operator in the kind that both operands are brought to. -/
def binaryIn (op : Arith) (a b : Number) : NumericKind → Except ArithFault Number
  | .integral k => integral k <$> integralOp op k (a.bitsIn k) (b.bitsIn k)
  | .floating .float => float <$> singleOp op a.unpack.toSingle b.unpack.toSingle
  | .floating .double => double <$> doubleOp op a.toDouble b.toDouble
  | .floating .decimal =>
    if b.toDouble == 0 && (op == .divide || op == .modulo) then throw .divisionByZero
    else decimal <$> doubleOp op a.toDouble b.toDouble

/-- A pattern shifted by a count taken modulo the width. To the right, a sign is
    kept. -/
def shiftBits (left : Bool) (k : IntKind) (x : BitVec k.width) (count : Int) : BitVec k.width :=
  let n := (count % k.width).toNat
  if left then x <<< n
  else if k.signed then x.sshiftRight n
  else x >>> n

/-- A number shifted by another, in the kind of a single operand. -/
def shift (left : Bool) (a b : Number) : Except ArithFault Number :=
  match b.toInt? with
  | none => throw .shiftCount
  | some count =>
    match a.convert a.kind.promoteUnary with
    | integral k x => pure (integral k (shiftBits left k x count))
    | _ => throw .shiftOperand

/-- An operator on two numbers. -/
def binary (op : Arith) (a b : Number) : Except ArithFault Number :=
  match op with
  | .power => pure (double (a.toDouble.pow b.toDouble))
  | .leftShift => shift true a b
  | .rightShift => shift false a b
  | _ => binaryIn op a b (a.kind.promote b.kind)

/-- The negative of a number, in the kind of a single operand. The negative of a
    `uint` is a `long`. -/
def negate (n : Number) : Number :=
  match n.convert n.kind.promoteUnary with
  | integral .uint x => ofInt .long (-(x.toNat : Int))
  | integral k x => integral k (-x)
  | float x => float (-x)
  | double x => double (-x)
  | decimal x => decimal (-x)

/-- The bitwise complement of an integer, in the kind of a single operand. -/
def complement? (n : Number) : Option Number :=
  match n.convert n.kind.promoteUnary with
  | integral k x => some (integral k (~~~x))
  | _ => none

/-! ## Order and equality -/

/-- The order of two floating numbers. -/
def compareDouble (x y : Float) : Option Ordering :=
  if x < y then some .lt
  else if x == y then some .eq
  else if y < x then some .gt
  else none

/-- The order of two numbers after promotion. -/
def compare (a b : Number) : Option Ordering :=
  let k := a.kind.promote b.kind
  let x := a.convert k
  let y := b.convert k
  match x.toInt?, y.toInt? with
  | some m, some n => some (Ord.compare m n)
  | _, _ => compareDouble x.toDouble y.toDouble

/-- Whether two numbers have one kind and one value. -/
def identical (a b : Number) : Bool := a.kind == b.kind && a.compare b == some .eq

/-- Decides in the first of some kinds that has both numbers; in none, by
    `identical`. -/
def equivalentIn (a b : Number) : List NumericKind → Bool
  | [] => a.identical b
  | k :: ks =>
    match a.lossless? k, b.lossless? k with
    | some x, some y => x.identical y
    | _, _ => equivalentIn a b ks

/-- Whether two numbers of any kinds are the same number. -/
def equivalent (a b : Number) : Bool := equivalentIn a b NumericKind.all

end Number

end Scriptlet
