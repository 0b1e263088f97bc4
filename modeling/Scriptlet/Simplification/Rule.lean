import Scriptlet.Catalog.Basic
import Scriptlet.Expr.Same
import Scriptlet.Expr.Traversal
import Scriptlet.Halt

/-!
# Rules

A rule of simplification looks at one node, whose parts are simplified already. It is
kept under the shape of the node (`Shape`), asks something of the first operands
(`Slot`), and then gives a replacement, or none (`Rule.replace`). To have the nodes it
builds simplified in turn, it is given tools (`Tools`).

Expressions without side effects are `Expr.isPure`: of two that are the same, either
can stand for the other.
-/

namespace Scriptlet

/-- What a node is, as far as rules tell nodes apart. -/
inductive Shape
  /-- Every node is of this shape too. -/
  | any
  | unary (op : UnaryOp)
  | binary (op : BinaryOp)
  | convert
  | call
  | invoke
  | conditional
  | other
  deriving DecidableEq, Repr

namespace Expr

/-- The shape of a node. -/
def shape : Expr → Shape
  | unary op _ _ => .unary op
  | binary op _ _ _ => .binary op
  | convert _ _ => .convert
  | call .. => .call
  | invoke .. => .invoke
  | conditional .. => .conditional
  | _ => .other

/-- The operands of a node. The receiver of a call is none of them. -/
def operands : Expr → List Expr
  | unary _ e _ | convert e _ => [e]
  | binary _ l r _ => [l, r]
  | call _ _ args _ _ => args
  | invoke target args _ => target :: args
  | conditional test a b _ => [test, a, b]
  | _ => []

/-- The function that a call is of. -/
def function? : Expr → Option MathFunction
  | call m _ _ _ _ => m.canonical
  | _ => none

/-- The argument of a call of a function with one argument. -/
def argumentOf? (f : MathFunction) : Expr → Option Expr
  | call m _ [x] _ _ => if m.canonical = some f then some x else none
  | _ => none

/-- Whether a node by itself has no side effects. -/
def isPureNode : Expr → Bool
  | constant _ | default _ | parameter _ | binary .. | convert .. | typeIs .. | typeAs ..
  | member .. | index .. | conditional .. => true
  | unary op _ _ => !op.isMutation
  | call m _ _ _ _ => m.canonical.isSome
  | _ => false

/-- Whether an expression has no side effects. -/
def isPure (e : Expr) : Bool := e.subexpressions.all isPureNode

end Expr

/-- What a rule asks of an operand. -/
inductive Slot
  | any
  | constant
  /-- A number that equals one of these. -/
  | oneOf (values : List Float)
  /-- A number other than zero. -/
  | nonZero
  /-- A number above zero. -/
  | positive
  | unary (op : UnaryOp)
  | binary (op : BinaryOp)
  /-- A call of a function. -/
  | function (f : MathFunction)
  | lambda

/-- Whether an operand is what is asked for. -/
def Slot.accepts (s : Slot) (e : Expr) : Bool :=
  match s, e with
  | any, _ => true
  | constant, .constant _ => true
  | oneOf values, e => values.any e.isNumber
  | nonZero, e => e.number?.any fun n => n.toDouble != 0 && !n.toDouble.isNaN
  | positive, e => e.number?.any fun n => decide (0 < n.toDouble)
  | unary op, .unary op' _ _ => op == op'
  | binary op, .binary op' _ _ _ => op == op'
  | function f, e => e.function? == some f
  | lambda, .lambda .. => true
  | _, _ => false

/-- What a rule can use. -/
structure Tools where
  /-- Simplifies a node whose parts are simplified. -/
  node : Expr → Except Halt Expr
  /-- Simplifies an expression with all its parts. -/
  whole : Expr → Except Halt Expr
  /-- The method that stands for a function. -/
  method? : MathFunction → Option Method

namespace Tools

variable (t : Tools)

/-- A replacement by a simplified binary node. -/
def binary (op : BinaryOp) (l r : Expr) (type : Ty) : Except Halt (Option Expr) :=
  some <$> t.node (.binary op l r type)

/-- A call of a function, if there is a method for it. -/
def call? (f : MathFunction) (args : List Expr) : Option Expr :=
  (t.method? f).map fun m => .call m none args [] m.ret

end Tools

/-- A rule of simplification. -/
structure Rule where
  /-- The shape of the nodes that the rule is for. -/
  shape : Shape
  /-- What is asked of the first operands. -/
  slots : List Slot := []
  /-- The replacement for a node, if there is one. -/
  replace : Tools → Expr → Except Halt (Option Expr)

namespace Rule

/-- A rule that needs no tools. -/
def simple (shape : Shape) (slots : List Slot) (replace : Expr → Option Expr) : Rule where
  shape := shape
  slots := slots
  replace _ e := .ok (replace e)

/-- Whether operands are what is asked for; there may be more of them. -/
def accepts : List Slot → List Expr → Bool
  | [], _ => true
  | _ :: _, [] => false
  | s :: ss, e :: es => s.accepts e && accepts ss es

/-- Whether a node has the operands that a rule asks for. -/
def fits (r : Rule) (e : Expr) : Bool := accepts r.slots e.operands

end Rule

end Scriptlet
