import Scriptlet.Error
import Scriptlet.Expr.Basic

/-!
# Typed building of operators

An operator decides from the types of its operands whether it can be applied,
which type both are brought to, and which type it yields (`Expr.applyBinary`,
`Expr.applyUnary`). Characters count as numbers; if an operand may be missing,
so may the result. Casts and conditionals are built here too.
-/

namespace Scriptlet

/-- The kind of number that a value of a type is in an operation. -/
def Ty.operandKind? (t : Ty) : Option NumericKind :=
  match t.underlying with
  | .numeric k => some k
  | .char => some .ushort
  | _ => none

/-- Whether a type has a missing value beside those of another. -/
def Ty.isNullable : Ty → Bool
  | nullable _ => true
  | _ => false

/-- The numbers of a kind, with a missing value if wanted. -/
def Ty.lifted (k : NumericKind) (orMissing : Bool) : Ty :=
  if orMissing then .nullable (.numeric k) else .numeric k

namespace Expr

/-- A binary operator whose operands are brought to one type. -/
def binaryIn (op : BinaryOp) (l r : Expr) (operands result : Ty) : Expr :=
  binary op (l.convertTo operands) (r.convertTo operands) result

/-- Whether values of two types can be compared for equality. -/
def comparable (s t : Ty) : Bool :=
  s = t || (s = .null && t.acceptsNull) || (t = .null && s.acceptsNull) ||
    (s.isReference && t.isReference) || s.underlying = t.underlying

/-- The type of a value with a replacement for a missing one. -/
def coalesceType (s t : Ty) : Ty :=
  match s with
  | .nullable inner =>
    if t.underlying = inner then t else if t.operandKind?.isSome then inner else s
  | _ => s

/-- A binary operator on two expressions. -/
def applyBinary (op : BinaryOp) (l r : Expr) (offset : Nat) : Except Error Expr :=
  let s := l.type
  let t := r.type
  let orMissing := s.isNullable || t.isNullable
  let refused : Except Error Expr := .error (.mismatch offset (.operands op.symbol s t))
  match op, s.operandKind?, t.operandKind? with
  | .add, a, b =>
    if s = .string ∨ t = .string then pure (binary op l r .string) else
      match a, b with
      | some a, some b =>
        let type := Ty.lifted (a.promote b) orMissing
        pure (binaryIn op l r type type)
      | _, _ => refused
  | .subtract, some a, some b | .multiply, some a, some b | .divide, some a, some b
  | .modulo, some a, some b =>
    let type := Ty.lifted (a.promote b) orMissing
    pure (binaryIn op l r type type)
  | .power, some _, some _ => pure (binaryIn op l r .double .double)
  | .and, a, b | .or, a, b | .exclusiveOr, a, b =>
    if s.underlying = .bool ∧ t.underlying = .bool then
      let type : Ty := if orMissing then .nullable .bool else .bool
      pure (binaryIn op l r type type)
    else
      match a, b with
      | some (.integral a), some (.integral b) =>
        let type := Ty.lifted (.integral (a.promote b)) orMissing
        pure (binaryIn op l r type type)
      | _, _ => refused
  | .leftShift, some (.integral a), some (.integral _)
  | .rightShift, some (.integral a), some (.integral _) =>
    let type := Ty.lifted (.integral a.promoteUnary) orMissing
    pure (binary op (l.convertTo type) (r.convertTo .int) type)
  | .andAlso, _, _ | .orElse, _, _ =>
    if s = .bool ∧ t = .bool then pure (binary op l r .bool) else refused
  | .equal, some a, some b | .notEqual, some a, some b
  | .lessThan, some a, some b | .lessThanOrEqual, some a, some b
  | .greaterThan, some a, some b | .greaterThanOrEqual, some a, some b =>
    pure (binaryIn op l r (Ty.lifted (a.promote b) orMissing) .bool)
  | .equal, _, _ | .notEqual, _, _ =>
    if comparable s t then pure (binary op l r .bool) else refused
  | .coalesce, _, _ =>
    if s.acceptsNull then
      let type := coalesceType s t
      pure (binary op l (r.coerce type) type)
    else refused
  | _, _, _ => refused

/-- A unary operator on an expression. -/
def applyUnary (op : UnaryOp) (e : Expr) (offset : Nat) : Except Error Expr :=
  let t := e.type
  let refused : Except Error Expr := .error (.mismatch offset (.operand op.symbol t))
  match op, t.operandKind? with
  | .negate, some k =>
    let k := k.promoteUnary
    let type := Ty.lifted (if k = .uint then .long else k) t.isNullable
    pure (unary op (e.convertTo type) type)
  | .plus, some k =>
    let type := Ty.lifted k.promoteUnary t.isNullable
    pure (unary op (e.convertTo type) type)
  | .not, _ => if t.underlying = .bool then pure (unary op e t) else refused
  | .complement, some (.integral k) =>
    let type := Ty.lifted (.integral k.promoteUnary) t.isNullable
    pure (unary op (e.convertTo type) type)
  | .arrayLength, _ =>
    match t with
    | .array _ 1 => pure (unary op e .int)
    | _ => refused
  | .preIncrement, some _ | .preDecrement, some _ | .postIncrement, some _
  | .postDecrement, some _ =>
    if e.isAssignable then pure (unary op e t) else .error (.misuse offset .incrementTarget)
  | _, _ => refused

/-- Whether a value of the first type can be cast to the second. -/
def castable (s t : Ty) : Bool :=
  s = t || (s.operandKind?.isSome && t.operandKind?.isSome) || (s = .null && t.acceptsNull) ||
    s.underlying = t.underlying || s = .object || t = .object || (s.isReference && t.isReference)

/-- A cast. -/
def cast (e : Expr) (target : Ty) (offset : Nat) : Except Error Expr :=
  if castable e.type target then pure (e.convertTo target)
  else .error (.mismatch offset (.cast e.type target))

/-- The type of a conditional whose branches have these types. -/
def conditionalType? (s t : Ty) : Option Ty :=
  if s = t then some s else
    match s.operandKind?, t.operandKind? with
    | some a, some b => some (Ty.lifted (a.promote b) (s.isNullable || t.isNullable))
    | _, _ =>
      if s = .null then some (if t.acceptsNull then t else .nullable t)
      else if t = .null then some (if s.acceptsNull then s else .nullable s)
      else if s.isReference && t.isReference then some .object
      else none

/-- A conditional expression. -/
def choose (test a b : Expr) (offset : Nat) : Except Error Expr :=
  if test.type ≠ .bool then .error (.mismatch offset (.implicitConversion test.type .bool)) else
    match conditionalType? a.type b.type with
    | some t => pure (conditional test (a.coerce t) (b.coerce t) t)
    | none => .error (.mismatch offset (.noCommonType a.type b.type))

end Expr

end Scriptlet
