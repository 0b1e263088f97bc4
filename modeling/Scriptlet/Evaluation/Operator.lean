import Scriptlet.Evaluation.Basic

/-!
# Operators on values

What an operator does with the values of its operands. The type of the expression
says in which kind of numbers the result is. If an operand is missing, so is the
result, except that comparisons do not hold.
-/

namespace Scriptlet

open Run

/-- The kind of numbers that a result of a type is in. -/
def Ty.resultKind? (t : Ty) : Option NumericKind := t.underlying.numericKind?

/-- An arithmetic result, whose failure is a fault. -/
def Run.ofArith : Except ArithFault Number → Run Number
  | .ok n => pure n
  | .error f => fault (.arith f)

namespace UnaryOp

/-- The result of a unary operator on a number, in a kind. -/
def onNumber (op : UnaryOp) (n : Number) (k : NumericKind) : Except Fault Number :=
  match op with
  | negate => pure ((n.convert k).negate.convert k)
  | plus => pure (n.convert k)
  | complement =>
    match (n.convert k).complement? with
    | some m => pure (m.convert k)
    | none => throw .complementOperand
  | _ => throw .unaryOperator

/-- The result of a unary operator that changes nothing. -/
def onValue (op : UnaryOp) (v : Value) (t : Ty) : Run Value :=
  match op, v with
  | _, .null => pure .null
  | not, v => do pure (.bool !(← look (·.asBool v)))
  | arrayLength, .array r => do pure (.number (.int ((← get).array r).items.length))
  | arrayLength, _ => fault .lengthOfOther
  | op, v => do
    let n ← look (·.asNumber v)
    .number <$> ofFault (op.onNumber n (t.resultKind?.getD n.kind))

/-- The operator that counts on. -/
def stepArith : UnaryOp → Arith
  | preIncrement | postIncrement => .add
  | _ => .subtract

/-- Whether the operator yields the value from before the change. -/
def yieldsOld : UnaryOp → Bool
  | postIncrement | postDecrement => true
  | _ => false

/-- The value that is put in the place of another by counting on. -/
def stepped (op : UnaryOp) (old : Value) (t : Ty) : Run Value := do
  let n ← look (·.asNumber old)
  let k := t.resultKind?.getD n.kind
  let m ← ofArith (Number.binary op.stepArith (n.convert k) ((Number.int 1).convert k))
  match old with
  | .char _ => ofFault ((Value.number (m.convert k)).convertTo .char)
  | _ => pure (.number (m.convert k))

end UnaryOp

namespace BinaryOp

/-- The result of a binary operator on truth values. -/
def onBools (op : BinaryOp) (a b : Bool) : Except Fault Value :=
  match op with
  | and => pure (.bool (a && b))
  | or => pure (.bool (a || b))
  | exclusiveOr => pure (.bool (a != b))
  | _ => throw .boolOperator

/-- The result of a binary operator on numbers or truth values. -/
def onPresent (op : BinaryOp) (l r : Value) (t : Ty) : Run Value :=
  if op.isComparison then do
    let a ← look (·.asNumber l)
    let b ← look (·.asNumber r)
    pure (.bool (op.holdsFor (a.compare b)))
  else
    match l, r, op.arith? with
    | .bool a, .bool b, _ => ofFault (op.onBools a b)
    | _, _, none => fault .binaryOperator
    | l, r, some arith => do
      let a ← look (·.asNumber l)
      let b ← look (·.asNumber r)
      let n ← ofArith (Number.binary arith a b)
      pure (.number ((t.resultKind?.map n.convert).getD n))

/-- The result of a binary operator on the values of both operands. -/
def onValues (op : BinaryOp) (l r : Value) (t : Ty) : Run Value := do
  if op = equal then pure (.bool (l.equal r))
  else if op = notEqual then pure (.bool !(l.equal r))
  else if op = add ∧ t = .string then pure (.string ((← display l) ++ (← display r)))
  else if l.isNull || r.isNull then pure (if op.isComparison then .bool false else .null)
  else op.onPresent l r t

end BinaryOp

end Scriptlet
