import Scriptlet.Number.Arith

/-!
# Operators

The unary and binary operators of expressions, how they are written, and which
of them compute with numbers.
-/

namespace Scriptlet

/-- The operators with one operand. -/
inductive UnaryOp
  | negate | plus | not | complement | arrayLength
  | preIncrement | preDecrement | postIncrement | postDecrement
  deriving DecidableEq, Repr

namespace UnaryOp

/-- How the operator is written. -/
def symbol : UnaryOp → String
  | negate => "-"
  | plus => "+"
  | not => "!"
  | complement => "~"
  | arrayLength => ".Length"
  | preIncrement | postIncrement => "++"
  | preDecrement | postDecrement => "--"

/-- Whether the operator changes its operand. -/
def isMutation : UnaryOp → Bool
  | preIncrement | preDecrement | postIncrement | postDecrement => true
  | _ => false

/-- The name of the operator. -/
def name : UnaryOp → String
  | negate => "Negate"
  | plus => "UnaryPlus"
  | not => "Not"
  | complement => "OnesComplement"
  | arrayLength => "ArrayLength"
  | preIncrement => "PreIncrement"
  | preDecrement => "PreDecrement"
  | postIncrement => "PostIncrement"
  | postDecrement => "PostDecrement"

/-- All unary operators. -/
def all : List UnaryOp :=
  [negate, plus, not, complement, arrayLength, preIncrement, preDecrement, postIncrement,
    postDecrement]

/-- The operator with a name. -/
def ofName? (s : String) : Option UnaryOp := all.find? fun op => op.name == s

end UnaryOp

/-- The operators with two operands. -/
inductive BinaryOp
  | add | subtract | multiply | divide | modulo | power
  | and | or | exclusiveOr | leftShift | rightShift
  | andAlso | orElse
  | equal | notEqual | lessThan | lessThanOrEqual | greaterThan | greaterThanOrEqual
  | coalesce
  deriving DecidableEq, Repr

namespace BinaryOp

/-- How the operator is written. -/
def symbol : BinaryOp → String
  | add => "+"
  | subtract => "-"
  | multiply => "*"
  | divide => "/"
  | modulo => "%"
  | power => "**"
  | and => "&"
  | or => "|"
  | exclusiveOr => "^"
  | leftShift => "<<"
  | rightShift => ">>"
  | andAlso => "&&"
  | orElse => "||"
  | equal => "=="
  | notEqual => "!="
  | lessThan => "<"
  | lessThanOrEqual => "<="
  | greaterThan => ">"
  | greaterThanOrEqual => ">="
  | coalesce => "??"

/-- The name of the operator. -/
def name : BinaryOp → String
  | add => "Add"
  | subtract => "Subtract"
  | multiply => "Multiply"
  | divide => "Divide"
  | modulo => "Modulo"
  | power => "Power"
  | and => "And"
  | or => "Or"
  | exclusiveOr => "ExclusiveOr"
  | leftShift => "LeftShift"
  | rightShift => "RightShift"
  | andAlso => "AndAlso"
  | orElse => "OrElse"
  | equal => "Equal"
  | notEqual => "NotEqual"
  | lessThan => "LessThan"
  | lessThanOrEqual => "LessThanOrEqual"
  | greaterThan => "GreaterThan"
  | greaterThanOrEqual => "GreaterThanOrEqual"
  | coalesce => "Coalesce"

/-- All binary operators. -/
def all : List BinaryOp :=
  [add, subtract, multiply, divide, modulo, power, and, or, exclusiveOr, leftShift, rightShift,
    andAlso, orElse, equal, notEqual, lessThan, lessThanOrEqual, greaterThan, greaterThanOrEqual,
    coalesce]

/-- The operator with a name. -/
def ofName? (s : String) : Option BinaryOp := all.find? fun op => op.name == s

/-- The operator with a symbol. -/
def ofSymbol? (s : String) : Option BinaryOp := all.find? fun op => op.symbol == s

/-- Whether the operator is one of the four rules of arithmetic or takes the
    remainder. -/
def isArithmetic : BinaryOp → Bool
  | add | subtract | multiply | divide | modulo => true
  | _ => false

/-- Whether the operator compares. -/
def isComparison : BinaryOp → Bool
  | equal | notEqual | lessThan | lessThanOrEqual | greaterThan | greaterThanOrEqual => true
  | _ => false

/-- Whether a comparison holds for an order of two numbers. -/
def holdsFor (op : BinaryOp) (order : Option Ordering) : Bool :=
  match op with
  | equal => order == some .eq
  | notEqual => order != some .eq
  | lessThan => order == some .lt
  | lessThanOrEqual => order == some .lt || order == some .eq
  | greaterThan => order == some .gt
  | greaterThanOrEqual => order == some .gt || order == some .eq
  | _ => false

/-- The operator on numbers that the operator is. -/
def arith? : BinaryOp → Option Arith
  | add => some .add
  | subtract => some .subtract
  | multiply => some .multiply
  | divide => some .divide
  | modulo => some .modulo
  | power => some .power
  | and => some .and
  | or => some .or
  | exclusiveOr => some .exclusiveOr
  | leftShift => some .leftShift
  | rightShift => some .rightShift
  | _ => none

/-- An operator that computes does not compare. -/
theorem isComparison_of_arith {op : BinaryOp} {arith : Arith} (h : op.arith? = some arith) :
    op.isComparison = false ∧ op ≠ .equal ∧ op ≠ .notEqual := by
  cases op <;> cases h <;> decide

end BinaryOp

end Scriptlet
