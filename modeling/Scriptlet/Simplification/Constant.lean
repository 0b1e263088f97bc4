import Scriptlet.Simplification.Rule

/-!
# Computing with constants

Operators, conversions and functions on constants are replaced by their results, and
conditions that are constant by the branch they choose. A division whose divisor is
the constant zero is an error.

The sum and the difference of whole numbers get the narrowest kind that has the
result; every other result has the kind that the type of the node says.
-/

namespace Scriptlet

namespace Simplification

/-- Refuses a division. -/
def refuseDivision (_ : Tools) (_ : Expr) : Except Halt (Option Expr) :=
  throw (.error .constantDivision)

/-- The result of an operator on two numbers. -/
def numbers (op : BinaryOp) (a b : Number) (type : Ty) : Except Halt (Option Expr) :=
  if op.isComparison then pure (some (.bool (op.holdsFor (a.compare b))))
  else if (op = .add ∨ op = .subtract) ∧ a.kind.isIntegral ∧ b.kind.isIntegral then
    let x := if op = .add then a.toDouble + b.toDouble else a.toDouble - b.toDouble
    pure (some (.number (.narrowest x)))
  else
    match op.arith?, type.numericKind? with
    | some arith, some k =>
      match Number.binary arith a b with
      | .ok n => pure (some (.number (n.convert k)))
      | .error f => throw (.error (.fault (.arith f)))
    | _, _ => pure none

/-- The result of an operator on two truth values. -/
def bools? (op : BinaryOp) (a b : Bool) : Option Bool :=
  match op with
  | .and | .andAlso => some (a && b)
  | .or | .orElse => some (a || b)
  | .exclusiveOr | .notEqual => some (a != b)
  | .equal => some (a == b)
  | _ => none

/-- The result of an operator on two strings. -/
def strings? (op : BinaryOp) (a b : String) : Option Expr :=
  match op with
  | .add => some (.string (a ++ b))
  | .equal => some (.bool (a == b))
  | .notEqual => some (.bool (a != b))
  | _ => none

/-- The result of comparing a missing value with a missing value. -/
def nulls? : BinaryOp → Option Bool
  | .equal => some true
  | .notEqual => some false
  | _ => none

/-- The result of an operator on two constants. -/
def binaryConstants (_ : Tools) : Expr → Except Halt (Option Expr)
  | .binary op (.constant a) (.constant b) type =>
    match a, b with
    | .number a, .number b => numbers op a b type
    | .bool a, .bool b => pure ((bools? op a b).map .bool)
    | .string a, .string b => pure (strings? op a b)
    | .null, .null => pure ((nulls? op).map .bool)
    | _, _ => pure none
  | _ => pure none

/-- A truth value that decides a condition, or leaves it to the other operand. -/
def shortCircuit : Expr → Option Expr
  | .binary .andAlso (.constant (.bool a)) b _ => some (if a then b else .bool false)
  | .binary .orElse (.constant (.bool a)) b _ => some (if a then .bool true else b)
  | _ => none

/-- The operand that a replacement for a missing value comes to. -/
def coalesced : Expr → Option Expr
  | .binary _ (.constant .null) b _ => some b
  | .binary _ (.constant a) _ type =>
    if a.type = type then some (.constant a) else none
  | _ => none

/-- The result of a unary operator on a constant. -/
def unaryConstant : Expr → Option Expr
  | .unary .not (.constant (.bool b)) _ => some (.bool !b)
  | .unary op (.constant (.number n)) type =>
    type.numericKind?.bind fun k =>
      match op with
      | .negate => some (.number (n.negate.convert k))
      | .plus => some (.number (n.convert k))
      | .complement => n.complement?.map fun m => .number (m.convert k)
      | _ => none
  | _ => none

/-- The result of converting a constant. A character counts as a number of sixteen
    bits. -/
def converted : Expr → Option Expr
  | .convert (.constant c) type =>
    type.numericKind?.bind fun k =>
      match c with
      | .number n => some (.number (n.convert k))
      | .char c => some (.number ((Number.ofInt .ushort c.toNat).convert k))
      | _ => none
  | _ => none

/-- The number of arguments that a function is computed for. -/
def arity : MathFunction → Nat
  | .pow => 2
  | _ => 1

/-- The value of a function of constants. -/
def functionValue : Expr → Option Expr
  | .call m none args _ type => do
    let f ← m.canonical
    let k ← type.numericKind?
    if args.length = arity f then
      let xs ← args.mapM fun a => a.number?.map (·.toDouble)
      let y ← f.value? xs
      some (.numberOf k y)
    else none
  | _ => none

/-- The branch that a constant condition chooses. -/
def branch : Expr → Option Expr
  | .conditional (.constant (.bool test)) a b _ => some (if test then a else b)
  | _ => none

/-- The operators that are computed for constants. -/
def computed : List BinaryOp :=
  [.add, .subtract, .multiply, .divide, .modulo, .power, .and, .or, .exclusiveOr, .leftShift,
    .rightShift, .andAlso, .orElse, .equal, .notEqual, .lessThan, .lessThanOrEqual, .greaterThan,
    .greaterThanOrEqual]

/-- The rules for constants. -/
def constantRules : List Rule :=
  [BinaryOp.divide, .modulo].map
    (fun op => Rule.mk (.binary op) [.any, .oneOf [0]] refuseDivision) ++
  computed.map (fun op => Rule.mk (.binary op) [.constant, .constant] binaryConstants) ++
  [BinaryOp.andAlso, .orElse].map (fun op => Rule.simple (.binary op) [.constant] shortCircuit) ++
  [Rule.simple (.binary .coalesce) [.constant] coalesced] ++
  [UnaryOp.negate, .plus, .not, .complement].map
    (fun op => Rule.simple (.unary op) [.constant] unaryConstant) ++
  [Rule.simple .convert [.constant] converted,
    .simple .call [] functionValue,
    .simple .conditional [.constant] branch]

end Simplification

end Scriptlet
