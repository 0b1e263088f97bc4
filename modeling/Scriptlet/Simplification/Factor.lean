import Scriptlet.Simplification.Rule

/-!
# Common factors

Two multiples of one expression are added by adding their numbers, and two powers of
one expression are multiplied by adding their exponents. The expression must have no
side effects, because it is evaluated once instead of twice.
-/

namespace Scriptlet

namespace Simplification

/-- An expression as a multiple of another. -/
def multiple : Expr → Option Number × Expr
  | .binary .multiply l r type =>
    match l.number?, r.number? with
    | some c, _ => (some c, r)
    | none, some c => (some c, l)
    | none, none => (none, .binary .multiply l r type)
  | e => (none, e)

/-- Whether two expressions are one factor of a type. -/
def isFactor (type : Ty) (x y : Expr) : Bool :=
  x.constant?.isNone && x.type = type && x.isPure && x.same y

/-- `c * x + d * x` is `(c + d) * x`, and likewise for differences. -/
def commonFactor (t : Tools) : Expr → Except Halt (Option Expr)
  | .binary op l r type =>
    match type.numericKind? with
    | none => pure none
    | some k =>
      let (c, x) := multiple l
      let (d, y) := multiple r
      if isFactor type x y then
        let one := (Number.int 1).convert k
        let arith := if op = .add then Arith.add else .subtract
        match Number.binary arith ((c.getD one).convert k) ((d.getD one).convert k) with
        | .ok n => t.binary .multiply (.number (n.convert k)) x type
        | .error f => throw (.error (.fault (.arith f)))
      else pure none
  | _ => pure none

/-- An expression as a power of another. -/
def powerOf : Expr → Expr × Expr
  | .binary .power base exponent _ => (base, exponent)
  | e => (e, .number (.double 1))

/-- `x ** a * x ** b` is `x ** (a + b)`. -/
def mergeExponents (t : Tools) : Expr → Except Halt (Option Expr)
  | .binary _ l r type =>
    let (x, a) := powerOf l
    let (y, b) := powerOf r
    if type = .double ∧ isFactor .double x y then do
      let exponent ← t.node (.binary .add a b .double)
      t.binary .power x exponent .double
    else pure none
  | _ => pure none

/-- The rules for common factors. -/
def factorRules : List Rule :=
  [⟨.binary .add, [], commonFactor⟩,
    ⟨.binary .subtract, [], commonFactor⟩,
    ⟨.binary .multiply, [], mergeExponents⟩]

end Simplification

end Scriptlet
