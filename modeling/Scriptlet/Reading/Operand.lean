import Scriptlet.Reading.Creation
import Scriptlet.Reading.Name
import Scriptlet.Reading.Operator
import Scriptlet.Reading.TemplateText

/-!
# Operands

What an expression can start with: a literal, a name, an operator in front of an
operand, something in brackets, or one of some reserved words. A bracket opens a
lambda, a cast or a group.
-/

namespace Scriptlet

/-- The number of bytes that a value of a type takes. -/
def Ty.size? : Ty → Option Nat
  | bool => some 1
  | char => some 2
  | numeric (.integral k) => some (k.width / 8)
  | numeric .float => some 4
  | numeric .double => some 8
  | numeric .decimal => some 16
  | _ => none

namespace Grammar

open Reading

variable (g : Grammar)

/-! ## Brackets -/

/-- Whether a token starts an operand, so that a type in brackets in front of it is
    a cast. -/
def startsOperand (t : Token) : Bool :=
  match t.kind with
  | .number _ | .string _ | .char _ | .template | .identifier => true
  | .keyword => ["is", "as", "in"].all (!t.is ·)
  | .symbol => ["(", "!", "~", "-", "+", "++", "--"].any (t.is ·)
  | _ => false

/-- Reads the type of a cast, whose bracket has been read. -/
def castTarget : Reading (Option Ty) :=
  attempt do
    match ← type? g.directory with
    | some t =>
      if ← accept ")" then pure (if startsOperand (← peek) then some t else none)
      else pure none
    | none => pure none

/-- Reads the operand of an operator in front of it. -/
def unaryOperand : Reading Expr := Prod.fst <$> g.operand UnaryOp.level []

/-- Reads the rest of a lambda with the types of its parameters. -/
def typedLambdaRest (params : Params) (offset : Nat) : Reading Expr :=
  match params.mapM (·.1) with
  | some types => g.lambdaBody (params.map (·.2)) types none offset
  | none => throw (.misuse offset .untypedLambda)

/-- Reads the rest of what starts with a bracket. -/
def bracketRest (offset : Nat) : Reading Expr := do
  match ← headRest g.directory with
  | some params => g.typedLambdaRest params offset
  | none =>
    match ← g.castTarget with
    | some t => do ofExcept (Expr.cast (← g.unaryOperand) t offset)
    | none => g.enclosed ")"

/-! ## Operators and reserved words -/

/-- Reads an operand and applies an operator to it. -/
def unaryRest (op : UnaryOp) (offset : Nat) : Reading Expr := do
  ofExcept (Expr.applyUnary op (← g.unaryOperand) offset)

/-- Reads the operand of a minus sign. The negative of a constant is a constant. -/
def negateRest (offset : Nat) : Reading Expr := do
  let e ← g.unaryOperand
  match e.number? with
  | some n => pure (.number n.negate)
  | none => ofExcept (Expr.applyUnary .negate e offset)

/-- Reads a type in brackets. -/
def bracketedType : Reading Ty := do
  expect "("
  let t ← requiredType g.directory
  expect ")"
  pure t

/-- Reads the rest of the size of a type. -/
def sizeRest (offset : Nat) : Reading Expr := do
  let t ← g.bracketedType
  match t.size? with
  | some n => pure (.number (.int n))
  | none => throw (.mismatch offset (.noSize t))

/-- Reads the rest of an operand that starts with a symbol or reserved word. -/
def operandRest? (word : String) (offset : Nat) : Option (Reading Expr) :=
  match word with
  | "(" => some (g.bracketRest offset)
  | "-" => some (g.negateRest offset)
  | "+" => some (g.unaryRest .plus offset)
  | "!" => some (g.unaryRest .not offset)
  | "~" => some (g.unaryRest .complement offset)
  | "++" => some (g.unaryRest .preIncrement offset)
  | "--" => some (g.unaryRest .preDecrement offset)
  | "new" => some (g.creation offset)
  | "default" => some (.default <$> g.bracketedType)
  | "sizeof" => some (g.sizeRest offset)
  | "var" => some g.inferredDeclaration
  | _ => none

end Grammar

end Scriptlet
