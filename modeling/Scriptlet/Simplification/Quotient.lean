import Scriptlet.Simplification.Rule

/-!
# Quotients of quotients

A quotient of which the dividend or the divisor is a quotient becomes one quotient of
products. For whole numbers, whose division drops a remainder, nothing is done.
-/

namespace Scriptlet

namespace Simplification

/-- The dividend and the divisor of a quotient of a type. -/
def quotient? (type : Ty) : Expr → Option (Expr × Expr)
  | .binary .divide a b inner => if inner = type then some (a, b) else none
  | _ => none

/-- `(a / b) / (c / d)` is `(a * d) / (b * c)`. -/
def quotientOfQuotients (t : Tools) : Expr → Except Halt (Option Expr)
  | .binary _ l r type =>
    match type.isFloating, quotient? type l, quotient? type r with
    | true, some (a, b), some (c, d) => do
      let dividend ← t.node (.binary .multiply a d type)
      let divisor ← t.node (.binary .multiply b c type)
      t.binary .divide dividend divisor type
    | _, _, _ => pure none
  | _ => pure none

/-- `(a / b) / c` is `a / (b * c)`. -/
def quotientDivided (t : Tools) : Expr → Except Halt (Option Expr)
  | .binary _ l c type =>
    match type.isFloating, quotient? type l with
    | true, some (a, b) => do
      let divisor ← t.node (.binary .multiply b c type)
      t.binary .divide a divisor type
    | _, _ => pure none
  | _ => pure none

/-- `a / (b / c)` is `(a * c) / b`. -/
def dividedByQuotient (t : Tools) : Expr → Except Halt (Option Expr)
  | .binary _ a r type =>
    match type.isFloating, quotient? type r with
    | true, some (b, c) => do
      let dividend ← t.node (.binary .multiply a c type)
      t.binary .divide dividend b type
    | _, _ => pure none
  | _ => pure none

/-- The rules for quotients. -/
def quotientRules : List Rule :=
  [⟨.binary .divide, [.binary .divide, .binary .divide], quotientOfQuotients⟩,
    ⟨.binary .divide, [.binary .divide, .any], quotientDivided⟩,
    ⟨.binary .divide, [.any, .binary .divide], dividedByQuotient⟩]

end Simplification

end Scriptlet
