import Scriptlet.Reading.Call

/-!
# Loops

All loops become one kind of node, which repeats its body until a jump leads out of
it. A test is a jump out of the loop if it fails, at the place where the loop makes
it. Where something is done between the rounds, `continue` leads to a label in
front of that.

A loop over an array counts through its indices; a loop over something else asks it
for an enumerator.
-/

namespace Scriptlet

/-- Leaves a loop unless a test holds. -/
def Expr.exitUnless (test : Expr) (breakLabel : Label) : Expr :=
  .conditional test .empty (.jump .break breakLabel none) .void

namespace Grammar

open Reading

variable (g : Grammar)

/-- The labels of a loop: where `break` and `continue` lead to. -/
structure LoopLabels where
  breakLabel : Label
  continueLabel : Label

/-- New labels for a loop. -/
def loopLabels : Reading LoopLabels := do
  let breakLabel ← freshLabel "break"
  let continueLabel ← freshLabel "continue"
  pure ⟨breakLabel, continueLabel⟩

/-- Reads within the scope of a loop. -/
def withinLoop {α : Type} (labels : LoopLabels) (r : Reading α) : Reading (α × List Variable) :=
  within (.ofLoop labels.breakLabel labels.continueLabel) r

/-- Reads the body of a loop. -/
def loopBody (labels : LoopLabels) : Reading Expr := do
  let (body, locals) ← withinLoop labels g.statement
  pure (body.scoped locals)

/-! ## Loops with a test -/

/-- Reads the rest of a loop with the test in front. -/
def whileRest : Reading Expr := do
  let labels ← loopLabels
  let test ← g.condition
  let body ← g.loopBody labels
  pure (.loop (.blockOf [] [test.exitUnless labels.breakLabel, body]) labels.breakLabel
    (some labels.continueLabel))

/-- Reads the rest of a loop with the test behind. -/
def doRest : Reading Expr := do
  let labels ← loopLabels
  let body ← g.loopBody labels
  expect "while"
  let test ← g.condition
  let _ ← accept ";"
  pure (.loop
    (.blockOf []
      [body, .labelAt labels.continueLabel none, test.exitUnless labels.breakLabel])
    labels.breakLabel none)

/-- The parts of a `for`. -/
structure ForParts where
  start : List Expr
  test : Option Expr
  steps : List Expr
  body : Expr

/-- Reads what a `for` starts with. -/
def forStart : Reading (List Expr) := do
  if ← accept ";" then pure []
  else
    let es ← separated g.expression
    expect ";"
    pure es

/-- Reads the test of a `for`. -/
def forTest (offset : Nat) : Reading (Option Expr) := do
  if ← peekIs ";" then pure none
  else
    let test ← g.expression
    if test.type = .bool then pure (some test)
    else throw (.mismatch offset (.implicitConversion test.type .bool))

/-- Reads what a `for` does between the rounds. -/
def forSteps : Reading (List Expr) := do
  if ← accept ")" then pure []
  else
    let es ← separated (g.expressionUpTo [",", ")"])
    expect ")"
    pure es

/-- Reads the parts of a `for`. -/
def forParts (labels : LoopLabels) (offset : Nat) : Reading ForParts := do
  let start ← g.forStart
  let test ← g.forTest offset
  expect ";"
  let steps ← g.forSteps
  pure ⟨start, test, steps, ← g.loopBody labels⟩

/-- Reads the rest of a `for`. -/
def forRest (offset : Nat) : Reading Expr := do
  let labels ← loopLabels
  expect "("
  let (parts, locals) ← within {} (g.forParts labels offset)
  let test := (parts.test.map (·.exitUnless labels.breakLabel)).toList
  let round := test ++ [parts.body, .labelAt labels.continueLabel none] ++ parts.steps
  pure (.blockOf locals
    (parts.start ++ [Expr.loop (.blockOf [] round) labels.breakLabel none]))

/-! ## Loops over items -/

/-- Reads the body of a loop over items, with the item as the first of its
    variables. -/
def itemBody (labels : LoopLabels) (name : Token) (type : Ty) :
    Reading (Variable × Expr × List Variable) := do
  let ((item, body), locals) ← withinLoop labels do
    let item ← declare name type
    pure (item, ← g.statement)
  pure (item, body, item :: locals.filter fun v => v.id != item.id)

/-- Reads the rest of a loop over an array. -/
def arrayLoop (labels : LoopLabels) (source : Expr) (element : Ty) (declared : Option Ty)
    (name : Token) (offset : Nat) : Reading Expr := do
  let type := declared.getD element
  let array ← freshVariable "array" source.type
  let index ← freshVariable "index" .int
  let (item, body, locals) ← g.itemBody labels name type
  let length ← ofExcept (Expr.applyUnary .arrayLength (.parameter array) offset)
  let test ← ofExcept (Expr.applyBinary .lessThan (.parameter index) length offset)
  let next ← ofExcept (Expr.applyBinary .add (.parameter index) (.number (.int 1)) offset)
  let current : Expr := .index (.parameter array) [.parameter index] element
  let round :=
    [test.exitUnless labels.breakLabel, .assignTo (.parameter item) (current.convertTo type), body,
      .labelAt labels.continueLabel none, .assignTo (.parameter index) next]
  pure (.blockOf [array, index]
    [.assignTo (.parameter array) source, .assignTo (.parameter index) (.number (.int 0)),
      .loop (.blockOf locals round) labels.breakLabel none])

/-- How a value is asked for its items. -/
structure Enumeration where
  /-- The call that gives the enumerator. -/
  start : Selection
  /-- The call that goes to the next item, if there is one. -/
  advance : Selection
  /-- The current item. -/
  current : MemberMatch

/-- How a value of a type is asked for its items. -/
def enumeration (t : Ty) (offset : Nat) : Reading Enumeration := do
  match g.directory.instanceMethods t "GetEnumerator" with
  | [] => throw (.notEnumerable offset t)
  | getters =>
    let start ← g.select "GetEnumerator" getters [] [] offset
    match g.directory.member? start.ret "Current" false,
        g.directory.instanceMethods start.ret "MoveNext" with
    | some current, movers@(_ :: _) =>
      pure ⟨start, ← g.select "MoveNext" movers [] [] offset, current⟩
    | _, _ => throw (.notEnumerable offset t)

/-- Reads the rest of a loop over the items of a value. -/
def enumeratorLoop (labels : LoopLabels) (source : Expr) (declared : Option Ty) (name : Token)
    (offset : Nat) : Reading Expr := do
  let e ← g.enumeration source.type offset
  let enumerator ← freshVariable "enumerator" e.start.ret
  let type := declared.getD e.current.type
  let (item, body, locals) ← g.itemBody labels name type
  let test := e.advance.toCall (some (.parameter enumerator))
  let current : Expr :=
    .member (some (.parameter enumerator)) e.current.member e.current.owner e.current.type
  let round :=
    [test.exitUnless labels.breakLabel, .assignTo (.parameter item) (current.convertTo type), body,
      .labelAt labels.continueLabel none]
  pure (.blockOf [enumerator]
    [.assignTo (.parameter enumerator) (e.start.toCall (some source)),
      .loop (.blockOf locals round) labels.breakLabel none])

/-- Reads the rest of a loop over items. -/
def foreachRest (offset : Nat) : Reading Expr := do
  let labels ← loopLabels
  expect "("
  let declared ← if ← accept "var" then pure none else some <$> requiredType g.directory
  let name ← identifier
  expect "in"
  let source ← g.enclosed ")"
  match source.type with
  | .array element 1 => g.arrayLoop labels source element declared name offset
  | _ => g.enumeratorLoop labels source declared name offset

end Grammar

end Scriptlet
