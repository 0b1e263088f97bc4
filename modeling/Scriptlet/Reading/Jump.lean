import Scriptlet.Reading.Grammar

/-!
# Jumps

Statements that go on somewhere else. Where they lead to is a label of a scope
around them; `throw` leads to a handler, which is found only when the program
runs.
-/

namespace Scriptlet

namespace Grammar

open Reading

variable (g : Grammar)

/-- Reads the value that a statement may have. -/
def valueIfAny : Reading (Option Expr) := do
  if ← atStatementEnd then pure none else some <$> g.expression

/-- Reads the rest of a `throw`. -/
def throwRest (offset : Nat) : Reading Expr := do
  match ← g.valueIfAny with
  | none => pure (.throw none)
  | some e =>
    if g.directory.derivesFrom e.type "Exception" then pure (.throw (some e))
    else throw (.mismatch offset (.thrownType e.type))

/-- What a `return` gives back, where the type of the result is known or not. -/
def returned (value : Option Expr) (declared : Option Ty) (offset : Nat) :
    Except Error (Option Expr) :=
  match value, declared with
  | some e, some t => some <$> g.directory.coerce e t offset
  | some e, none => pure (some e)
  | none, some t => if t = .void then pure none else throw (.misuse offset .returnValueMissing)
  | none, none => pure none

/-- Reads the rest of a `return`. The first one in a lambda settles the type of its
    result, if that is not known. -/
def returnRest (offset : Nat) : Reading Expr := do
  let value ← g.valueIfAny
  match (← get).scopes.lambda?.bind fun s => s.returnLabel.map (·, s.returnType) with
  | none => throw (.misuse offset .returnOutside)
  | some (label, declared) =>
    let value ← ofExcept (g.returned value declared offset)
    let type := (value.map (·.type)).getD .void
    modify fun p =>
      { p with
        scopes := p.scopes.modifyLambda fun s =>
          { s with returnType := s.returnType.or (some type), returns := s.returns + 1 } }
    pure (.jump .return label value)

/-- A `break` or `continue`. -/
def leaveTo (kind : JumpKind) (target : Scopes → Option Label) (outside : Misuse) (offset : Nat) :
    Reading Expr := do
  match target (← get).scopes with
  | some label => pure (.jump kind label none)
  | none => throw (.misuse offset outside)

/-- Reads the rest of a `goto`. -/
def gotoRest : Reading Expr := do
  let name ← identifier
  pure (.jump .goto (← onScopes (·.label name.word)) none)

/-- Reads the rest of a jump that starts with a reserved word. -/
def jumpRest? (word : String) (offset : Nat) : Option (Reading Expr) :=
  match word with
  | "throw" => some (g.throwRest offset)
  | "return" => some (g.returnRest offset)
  | "break" => some (leaveTo .break Scopes.breakTarget? .breakOutside offset)
  | "continue" => some (leaveTo .continue Scopes.continueTarget? .continueOutside offset)
  | "goto" => some gotoRest
  | _ => none

end Grammar

end Scriptlet
