import Scriptlet.Simplification.Rule

/-!
# Identities of functions

Calls of methods that stand for functions of mathematics: a call of the power function
becomes the operator, and sums, products and quotients of trigonometric functions and
of logarithms are drawn together.
-/

namespace Scriptlet

namespace Simplification

/-- The argument that two calls of functions share. -/
def sharedArgument? (f g : MathFunction) (a b : Expr) : Option Expr := do
  let x ← a.argumentOf? f
  let y ← b.argumentOf? g
  if x.isPure && x.same y then some x else none

/-- A call of the power function is the operator. -/
def powerOperator (t : Tools) : Expr → Except Halt (Option Expr)
  | .call m none [a, b] _ _ =>
    if m.canonical = some .pow then t.binary .power a b .double else pure none
  | _ => pure none

/-- The argument of the square of a call of a function. -/
def squared? (f : MathFunction) : Expr → Option Expr
  | .binary .power base exponent _ => if exponent.isNumber 2 then base.argumentOf? f else none
  | _ => none

/-- Whether two expressions are the squares of two functions of one argument. -/
def areSquares (f g : MathFunction) (l r : Expr) : Bool :=
  match squared? f l, squared? g r with
  | some x, some y => x.isPure && x.same y
  | _, _ => false

/-- The squares of sine and cosine add up to one. -/
def pythagorean : Expr → Option Expr
  | .binary _ l r _ =>
    if areSquares .sin .cos l r || areSquares .cos .sin l r then some (.number (.double 1))
    else none
  | _ => none

/-- Sine over cosine is the tangent. -/
def sineOverCosine (t : Tools) : Expr → Except Halt (Option Expr)
  | .binary _ l r _ =>
    pure ((sharedArgument? .sin .cos l r).bind fun x => t.call? .tan [x])
  | _ => pure none

/-- Cosine over sine is one over the tangent. -/
def cosineOverSine (t : Tools) : Expr → Except Halt (Option Expr)
  | .binary _ l r _ =>
    pure (((sharedArgument? .cos .sin l r).bind fun x => t.call? .tan [x]).map fun tangent =>
      .binary .divide (.number (.double 1)) tangent .double)
  | _ => pure none

/-- Cosine times tangent, in either order, is the sine. -/
def cosineTimesTangent (t : Tools) : Expr → Except Halt (Option Expr)
  | .binary _ l r _ =>
    let x := (sharedArgument? .cos .tan l r).or (sharedArgument? .tan .cos l r)
    pure (x.bind fun x => t.call? .sin [x])
  | _ => pure none

/-- Two logarithms become that of a product or a quotient. -/
def joinLogarithms (inner : BinaryOp) (t : Tools) : Expr → Except Halt (Option Expr)
  | .binary _ l r _ =>
    match l.function?.bind fun f => do some (f, ← l.argumentOf? f, ← r.argumentOf? f) with
    | some (f, a, b) => do
      let argument ← t.node (.binary inner a b .double)
      match t.call? f [argument] with
      | some call => some <$> t.node call
      | none => pure none
    | none => pure none
  | _ => pure none

/-- The rules for functions. -/
def functionRules : List Rule :=
  [⟨.call, [], powerOperator⟩,
    .simple (.binary .add) [.binary .power, .binary .power] pythagorean,
    ⟨.binary .divide, [.function .sin, .function .cos], sineOverCosine⟩,
    ⟨.binary .divide, [.function .cos, .function .sin], cosineOverSine⟩,
    ⟨.binary .multiply, [.function .cos, .function .tan], cosineTimesTangent⟩,
    ⟨.binary .multiply, [.function .tan, .function .cos], cosineTimesTangent⟩] ++
  [MathFunction.log, .log10].flatMap fun f =>
    [⟨.binary .add, [.function f, .function f], joinLogarithms .multiply⟩,
      ⟨.binary .subtract, [.function f, .function f], joinLogarithms .divide⟩]

end Simplification

end Scriptlet
