import Scriptlet.Simplification.Rule

/-!
# Neutral and absorbing operands

A zero or a one as an operand often leaves the other operand as the result, or decides
the result. The replacement has the type of the node. The other operand may be zero
when the program runs, so `0 / x` and `0 ** x` are decided only for a constant `x`.
-/

namespace Scriptlet

namespace Simplification

/-- The left operand, if it has the numeric type of the node. -/
def keepLeft : Expr → Option Expr
  | .binary _ l _ type => if type.isNumeric ∧ l.type = type then some l else none
  | _ => none

/-- The right operand, if it has the numeric type of the node. -/
def keepRight : Expr → Option Expr
  | .binary _ _ r type => if type.isNumeric ∧ r.type = type then some r else none
  | _ => none

/-- A number of the type of the node. -/
def result (x : Float) (e : Expr) : Option Expr := e.type.numericKind?.map fun k => .numberOf k x

/-- Whether the negative of a number of a type is of the same type. -/
def negatable (t : Ty) : Bool :=
  t.numericKind?.any fun k => k = .int ∨ k = .long ∨ k.isFloating

/-- The negative of the right operand. -/
def negateRight (t : Tools) : Expr → Except Halt (Option Expr)
  | .binary _ _ r type =>
    if negatable type then some <$> t.node (.unary .negate r type) else pure none
  | _ => pure none

/-- The operand of a negation that is negated. -/
def negatedTwice : Expr → Option Expr
  | .unary .negate (.unary .negate e _) type => if e.type = type then some e else none
  | _ => none

/-- The operand of a denial that is denied. -/
def deniedTwice : Expr → Option Expr
  | .unary .not (.unary .not e _) _ => some e
  | _ => none

/-- The rules for neutral and absorbing operands. -/
def neutralRules : List Rule :=
  let zero : Slot := .oneOf [0]
  let one : Slot := .oneOf [1]
  [.simple (.binary .add) [.any, zero] keepLeft,
    .simple (.binary .add) [zero, .any] keepRight,
    .simple (.binary .subtract) [.any, zero] keepLeft,
    ⟨.binary .subtract, [zero, .any], negateRight⟩,
    .simple (.binary .multiply) [.any, one] keepLeft,
    .simple (.binary .multiply) [one, .any] keepRight,
    .simple (.binary .multiply) [.any, zero] (result 0),
    .simple (.binary .multiply) [zero, .any] (result 0),
    .simple (.binary .divide) [.any, one] keepLeft,
    .simple (.binary .divide) [zero, .nonZero] (result 0),
    .simple (.binary .power) [.any, zero] (result 1),
    .simple (.binary .power) [.any, one] keepLeft,
    .simple (.binary .power) [zero, .positive] (result 0),
    .simple (.binary .power) [one, .any] (result 1),
    .simple (.unary .negate) [.unary .negate] negatedTwice,
    .simple (.unary .not) [.unary .not] deniedTwice]

end Simplification

end Scriptlet
