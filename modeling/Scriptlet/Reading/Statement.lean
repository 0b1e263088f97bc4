import Scriptlet.Reading.Jump
import Scriptlet.Reading.Loop
import Scriptlet.Reading.Operand

/-!
# Statements

A statement is a compound one, which ends with its own closing brace or its last
part, or it is an expression, which ends with a semicolon unless the block or the
program ends. A name with a colon is a label.

Parts of compound statements have scopes of their own.
-/

namespace Scriptlet

namespace Grammar

open Reading

variable (g : Grammar)

/-! ## Branches -/

/-- Reads a statement within a scope of its own. -/
def scopedStatement : Reading Expr := do
  let (body, locals) ← within {} g.statement
  pure (body.scoped locals)

/-- Reads the rest of an `if`. -/
def ifRest : Reading Expr := do
  let test ← g.condition
  let a ← g.scopedStatement
  let b ← if ← accept "else" then g.scopedStatement else pure .empty
  pure (.conditional test a b .void)

/-! ## Switches -/

/-- Reads the statements of a case, up to the next one. -/
def caseBody : Reading Expr := do
  let body ← gather do
    let next ← peek
    if next.is "case" || next.is "default" || next.is "\x7d" || next.isEof then pure none
    else some <$> g.statement
  pure (.blockOf [] body)

/-- Reads the values that a case is taken for. -/
def caseTests (t : Ty) (offset : Nat) : Reading (List Expr) :=
  iterate (fun tests => do
    let test ← g.coerce (← g.expressionUpTo [":"]) t offset
    expect ":"
    let tests := tests ++ [test]
    if ← accept "case" then pure (.again tests) else pure (.done tests)) []

/-- The cases of a switch, and what is done if none is taken. -/
structure Cases where
  cases : List (Case Expr) := []
  default : Option Expr := none

/-- Reads the cases of a switch over a value of a type, and the brace that closes
    them. -/
def switchCases (t : Ty) : Reading Cases :=
  iterate (fun (c : Cases) => do
    if ← accept "\x7d" then pure (.done c)
    else
      let first ← token
      if first.is "case" then
        let tests ← g.caseTests t first.start
        let body ← g.caseBody
        pure (.again { c with cases := c.cases ++ [⟨tests, body⟩] })
      else if first.is "default" then
        expect ":"
        pure (.again { c with default := some (← g.caseBody) })
      else if first.isEof then missing "\x7d"
      else throw (.wrongSymbol first.start "case" first.found)) {}

/-- Reads the rest of a switch. -/
def switchRest : Reading Expr := do
  let label ← freshLabel "break"
  expect "("
  let value ← g.enclosed ")"
  expect "\x7b"
  let (c, locals) ← within (.ofSwitch label) (g.switchCases value.type)
  pure (.blockOf locals [.switch value c.cases c.default, .labelAt label none])

/-! ## Handlers -/

/-- Reads the type in a handler, whose bracket has been read. -/
def caughtType : Reading Ty := do
  let start ← offset
  let t ← requiredType g.directory
  if g.directory.derivesFrom t "Exception" then pure t
  else throw (.mismatch start (.caughtType t))

/-- Reads a handler for exceptions of a type, whose bracket has been read. -/
def typedHandler : Reading (Handler Expr) := do
  let t ← g.caughtType
  let name ← if (← peek).kind.isIdentifier then some <$> identifier else pure none
  expect ")"
  expect "\x7b"
  let ((binder, body), _) ← within {} do
    let binder ← name.mapM fun name => declare name t
    pure (binder, ← g.blockRest)
  pure ⟨t, binder, body⟩

/-- Reads a handler. -/
def handler : Reading (Handler Expr) := do
  if ← accept "(" then g.typedHandler
  else
    let body ← g.block
    pure ⟨← namedType g.directory "Exception", none, body⟩

/-- Reads the rest of a statement with handlers. -/
def tryRest (offset : Nat) : Reading Expr := do
  let body ← g.block
  let handlers ← gather do
    if ← accept "catch" then some <$> g.handler else pure none
  let last ← if ← accept "finally" then some <$> g.block else pure none
  if handlers.isEmpty && last.isNone then throw (.misuse offset .handlerMissing)
  else pure (.tryCatch body handlers last)

/-! ## Statements -/

/-- Reads the rest of a compound statement. -/
def compoundRest? (word : String) (offset : Nat) : Option (Reading Expr) :=
  match word with
  | "\x7b" => some g.blockRest
  | "if" => some g.ifRest
  | "while" => some g.whileRest
  | "do" => some g.doRest
  | "for" => some (g.forRest offset)
  | "foreach" => some (g.foreachRest offset)
  | "switch" => some g.switchRest
  | "try" => some (g.tryRest offset)
  | _ => none

/-- The compound statement that starts with a token. -/
def compound? (t : Token) : Option (Reading Expr) :=
  if t.kind.isSymbol || t.kind.isKeyword then g.compoundRest? t.word t.start else none

/-- Reads the rest of an operand that starts with a token. -/
def start (t : Token) : Reading Expr :=
  match t.kind with
  | .number n => pure (.number n)
  | .string s => pure (.string s)
  | .char c => pure (.constant (.char c))
  | .template => g.template t
  | .identifier => g.name t
  | .symbol | .keyword =>
    match ((g.operandRest? t.word t.start).or (g.jumpRest? t.word t.start)).or (g.compound? t) with
    | some rest => rest
    | none => if t.isWord then g.name t else throw (.unknownSymbol t.start t.word)
  | .eof => throw (.wrongSymbol t.start "expression" "end of input")
  | .comment | .blank => throw (.unknownSymbol t.start t.word)

/-- Reads a label with its colon. -/
def labelName : Reading (Option Token) := do
  if (← peek).kind.isIdentifier then
    attempt do
      let name ← token
      pure (if ← accept ":" then some name else none)
  else pure none

/-- Reads an expression that is a statement. -/
def expressionStatement : Reading Expr := do
  let e ← g.expression
  if ← accept ";" then pure e
  else if ← atStatementEnd then pure e
  else
    let next ← peek
    throw (.wrongSymbol next.start ";" next.found)

/-- Reads a statement whose parts are read by the grammar. -/
def anyStatement : Reading Expr := do
  let next ← peek
  if next.is ";" then
    let _ ← token
    pure .empty
  else
    match ← labelName with
    | some name => do pure (.labelAt (← onScopes (·.label name.word)) none)
    | none =>
      match g.compound? next with
      | some rest =>
        let _ ← token
        rest
      | none => g.expressionStatement

/-- Reads an expression whose parts are read by the grammar. -/
def anyOperand (floor : Nat) (closing : List String) : Reading (Expr × Bool) := do
  g.followAll floor closing (← g.start (← token))

end Grammar

end Scriptlet
