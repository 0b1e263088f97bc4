import Scriptlet.Reading.Call

/-!
# Names and declarations

A name in an expression is the first of these that there is: a variable, a named
constant, a member of the surroundings, a type. Behind a type stands either a
member of it or the name of a variable that is being declared.

The value of a variable is read before the variable is declared, so the name of
the variable has its former meaning in it.
-/

namespace Scriptlet

namespace Grammar

open Reading

variable (g : Grammar)

/-! ## Declarations -/

/-- Reads the first value of a variable. A lambda takes the types of its parameters
    from the type of the variable. -/
def initialValue (t : Ty) (offset : Nat) : Reading Expr := do
  match t with
  | .function params ret =>
    match ← pendingLambda g.directory with
    | some l =>
      if l.params.length ≠ params.length then
        throw (.mismatch offset (.lambdaFor l.params.length t params.length))
      else
        match ← ofExcept (← g.bind l params (some ret)) with
        | some e => pure e
        | none => throw (.mismatch offset (.lambdaTarget t))
    | none => g.coerce (← g.expression) t offset
  | t => g.coerce (← g.expression) t offset

/-- Reads a variable of a type with its first value, and gives the assignment. -/
def declarator (t : Ty) : Reading (Option Expr) := do
  let name ← identifier
  if ← accept "=" then
    let value ← g.initialValue t name.start
    let v ← declare name t
    pure (some (.assignTo (.parameter v) value))
  else
    let _ ← declare name t
    pure none

/-- Reads the variables that are declared with a type. -/
def declaration (t : Ty) : Reading Expr := do
  match (← separated (g.declarator t)).filterMap id with
  | [] => pure .empty
  | [e] => pure e
  | es => pure (.blockOf [] es)

/-- Reads a variable that takes its type from its first value. -/
def inferredDeclaration : Reading Expr := do
  let name ← identifier
  expect "="
  let value ← g.expression
  if value.type = .null ∨ value.type = .void then
    throw (.misuse name.start (.untypedVariable value.type))
  else
    let v ← declare name value.type
    pure (.assignTo (.parameter v) value)

/-! ## Names -/

/-- Reads what follows a type. -/
def afterType (t : Ty) : Reading Expr := do
  let next ← peek
  if next.kind.isIdentifier then g.declaration t
  else if ← accept "." then g.memberAccess none t (← memberName)
  else throw (.wrongSymbol next.start "." next.found)

/-- The member of the surroundings that a name means: the value it is a member of,
    and its type. -/
def surroundingMember? (name : String) : Option (Option Expr × Ty) :=
  let ofReceiver : Option (Option Expr × Ty) :=
    g.receiver.bind fun e => if g.hasMember e.type name false then some (some e, e.type) else none
  ofReceiver.or
    (g.staticType.bind fun t => if g.hasMember t name true then some (none, t) else none)

/-- Reads the rest of an expression that starts with a name. -/
def name (t : Token) : Reading Expr := do
  match ← lookup? t.word, g.directory.catalog.constant? t.word, g.surroundingMember? t.word with
  | some v, _, _ => pure (.parameter v)
  | none, some c, _ => pure (.constant c)
  | none, none, some (target, type) => g.memberAccess target type t
  | none, none, none =>
    match ← typeAfter? g.directory t with
    | some type => g.afterType type
    | none => throw (.unknownSymbol t.start t.word)

end Grammar

end Scriptlet
