import Scriptlet.Coercion
import Scriptlet.Reading.TypeName

/-!
# Parts within parts

Expressions and statements contain each other. The readings of single constructs
take the readings of the expressions and statements within them from a `Grammar`,
so each construct can be described by itself; the grammar as a whole is put
together from them.

Operators bind with levels. The reading of an expression is given a *floor*: it
takes only operators of a level above it. It also is given the symbols that
*close* it, and says whether it stopped in front of one of them.
-/

namespace Scriptlet

/-- What names in a program may refer to beside its own variables. -/
structure Surroundings where
  directory : Directory
  /-- A value whose members can be named by themselves. -/
  receiver : Option Expr := none
  /-- A type whose static members can be named by themselves. -/
  staticType : Option Ty := none

/-- The readings of the parts of a construct. -/
structure Grammar extends Surroundings where
  /-- An expression, and whether it stands in front of a closing symbol. -/
  operand (floor : Nat) (closing : List String) : Reading (Expr × Bool)
  /-- A statement, with its semicolon if it needs one. -/
  statement : Reading Expr

namespace Grammar

open Reading

variable (g : Grammar)

/-! ## Expressions -/

/-- Reads an expression, up to one of some symbols or to where it ends. -/
def expressionUpTo (closing : List String) : Reading Expr := Prod.fst <$> g.operand 0 closing

/-- Reads an expression. -/
def expression : Reading Expr := g.expressionUpTo []

/-- Reads an expression and the symbol that closes it. -/
def enclosed (close : String) : Reading Expr := do
  let (e, closed) ← g.operand 0 [close]
  if closed then
    let _ ← token
    pure e
  else missing close

/-- Reads expressions that are parted by commas, and the symbol that closes them. A
    comma may stand in front of that symbol. -/
def items (close : String) : Reading (List Expr) := do
  if ← accept close then pure []
  else
    iterate (fun es => do
      let es := es ++ [← g.expressionUpTo [",", close]]
      if ← accept "," then
        if ← accept close then pure (.done es) else pure (.again es)
      else if ← accept close then pure (.done es)
      else missing close) []

/-- Reads a condition in brackets. -/
def condition : Reading Expr := do
  expect "("
  let start ← offset
  let test ← g.enclosed ")"
  if test.type = .bool then pure test
  else throw (.mismatch start (.implicitConversion test.type .bool))

/-- The expression where a value of a type is wanted. -/
def coerce (e : Expr) (t : Ty) (offset : Nat) : Reading Expr :=
  ofExcept (g.directory.coerce e t offset)

/-! ## Blocks -/

/-- Reads the statements of a block and the brace that closes it. -/
def blockRest : Reading Expr := do
  let (body, locals) ← within {} (gather do
    if ← accept "\x7d" then pure none
    else if ← atEnd then missing "\x7d"
    else some <$> g.statement)
  pure (.blockOf locals body)

/-- Reads a block. -/
def block : Reading Expr := do
  expect "\x7b"
  g.blockRest

end Grammar

/-- An expression with the variables that are declared in it. -/
def Expr.scoped (body : Expr) (locals : List Variable) : Expr :=
  if locals.isEmpty then body else .blockOf locals [body]

end Scriptlet
