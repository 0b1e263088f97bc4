import Scriptlet.Simplification.Neutral

/-!
# Signs

A negation within a sum turns it into a difference, one within a difference into a sum,
and one of a difference exchanges the operands. Negations of factors move out of the
product. All of it only where the types agree.
-/

namespace Scriptlet

namespace Simplification

/-- The operand of a negation, if it has a type. -/
def negated? (type : Ty) : Expr → Option Expr
  | .unary .negate e _ => if e.type = type then some e else none
  | _ => none

/-- `a + (-b)` is `a - b`. -/
def addNegated (t : Tools) : Expr → Except Halt (Option Expr)
  | .binary _ a r type =>
    match negated? type r with
    | some b => t.binary .subtract a b type
    | none => pure none
  | _ => pure none

/-- `(-a) + b` is `b - a`. -/
def negatedAdd (t : Tools) : Expr → Except Halt (Option Expr)
  | .binary _ l b type =>
    match negated? type l with
    | some a => t.binary .subtract b a type
    | none => pure none
  | _ => pure none

/-- `a - (-b)` is `a + b`. -/
def subtractNegated (t : Tools) : Expr → Except Halt (Option Expr)
  | .binary _ a r type =>
    match negated? type r with
    | some b => t.binary .add a b type
    | none => pure none
  | _ => pure none

/-- `-(a - b)` is `b - a`. -/
def negateDifference (t : Tools) : Expr → Except Halt (Option Expr)
  | .unary .negate (.binary _ a b inner) type =>
    if inner = type then t.binary .subtract b a type else pure none
  | _ => pure none

/-- The factors of a product of which one is negated, without that negation. -/
def unsigned? (l r : Expr) (type : Ty) : Option (Expr × Expr) :=
  match negated? type l, negated? type r with
  | _, some b => some (l, b)
  | some a, none => some (a, r)
  | none, none => none

/-- `a * (-b)` and `(-a) * b` are `-(a * b)`. -/
def multiplyNegated (t : Tools) : Expr → Except Halt (Option Expr)
  | .binary _ l r type =>
    if negatable type then
      match unsigned? l r type with
      | some (a, b) => do
        let product ← t.node (.binary .multiply a b type)
        some <$> t.node (.unary .negate product type)
      | none => pure none
    else pure none
  | _ => pure none

/-- The rules for signs. -/
def signRules : List Rule :=
  let negated : Slot := .unary .negate
  [⟨.binary .add, [.any, negated], addNegated⟩,
    ⟨.binary .add, [negated, .any], negatedAdd⟩,
    ⟨.binary .subtract, [.any, negated], subtractNegated⟩,
    ⟨.unary .negate, [.binary .subtract], negateDifference⟩,
    ⟨.binary .multiply, [.any, negated], multiplyNegated⟩,
    ⟨.binary .multiply, [negated, .any], multiplyNegated⟩]

end Simplification

end Scriptlet
