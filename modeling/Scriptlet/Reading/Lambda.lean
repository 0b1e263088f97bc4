import Scriptlet.Overload
import Scriptlet.Reading.Grammar

/-!
# Lambdas

A lambda starts with its parameters and an arrow. The types of the parameters may
be left out where the lambda is an argument; then its body is passed over
(`Grammar.pendingLambda`) and read later, once for each method that is tried with
it (`Grammar.bind`).

The result of a lambda has the type that is wanted of it, or that of the first
value it returns, or that of its body.
-/

namespace Scriptlet

/-- A body that is read later. -/
structure Deferred where
  /-- The cursor in front of the body. -/
  cursor : Cursor
  /-- Where the lambda starts. -/
  offset : Nat

namespace Reading

/-- The parameters of a lambda, with their types where they are written out. -/
abbrev Params := List (Option Ty × String)

variable (d : Directory)

/-! ## Heads -/

/-- Reads a parameter. -/
def parameter : Reading (Option (Option Ty × String)) := do
  let first ← token
  if !first.isWord then pure none
  else
    let next ← peek
    if next.is "," || next.is ")" then
      pure (if first.kind.isIdentifier then some (none, first.word) else none)
    else
      match ← typeAfter? d first with
      | none => pure none
      | some t =>
        let name ← token
        pure (if name.kind.isIdentifier then some (some t, name.word) else none)

/-- Reads parameters, up to the bracket that closes them. -/
def parameters : Reading (Option Params) := do
  if ← accept ")" then pure (some [])
  else
    iterate (fun params => do
      match ← parameter d with
      | none => pure (.done none)
      | some p =>
        if ← accept "," then pure (.again (params ++ [p]))
        else if ← accept ")" then pure (.done (some (params ++ [p])))
        else pure (.done none)) []

/-- Reads the rest of a head whose bracket has been read. -/
def headRest : Reading (Option Params) :=
  attempt do
    match ← parameters d with
    | none => pure none
    | some params => do pure (if ← accept "=>" then some params else none)

/-- Reads the head of a lambda. -/
def head : Reading (Option Params) := do
  let next ← peek
  if next.kind.isIdentifier then
    attempt do
      let _ ← token
      pure (if ← accept "=>" then some [(none, next.word)] else none)
  else if next.is "(" then
    attempt do
      let _ ← token
      headRest d
  else pure none

/-! ## Bodies that are read later -/

/-- Passes over the body of a lambda, up to the comma, semicolon or closing bracket
    that ends it. -/
def skipBody : Reading Unit :=
  iterate (fun depth => do
    let next ← peek
    let opens := ["(", "[", "\x7b"].any (next.is ·)
    let closes := [")", "]", "\x7d"].any (next.is ·)
    if next.isEof || (depth == 0 && (closes || next.is "," || next.is ";")) then pure (.done ())
    else
      let _ ← token
      pure (.again (if opens then depth + 1 else if closes then depth - 1 else depth))) 0

/-- Reads a lambda whose body is to be read later. -/
def pendingLambda : Reading (Option (PendingLambda Deferred)) := do
  let start := (← peek).start
  match ← head d with
  | none => pure none
  | some params =>
    let cursor := (← get).cursor
    skipBody
    pure (some ⟨params, ⟨cursor, start⟩⟩)

end Reading

namespace Grammar

open Reading

variable (g : Grammar)

/-! ## Bodies -/

/-- The lambda with a body that was read within a scope. If it returns from within
    the body, a label behind that is where it returns to. -/
def finish (params : List Variable) (body : Expr) (scope : Scope) (declared : Option Ty)
    (offset : Nat) : Except Error Lambda := do
  let ret := (scope.returnType.or declared).getD body.type
  let locals := scope.locals.filter fun v => params.all fun p => p.id != v.id
  let body ←
    match scope.returnLabel, scope.returns with
    | some label, _ + 1 =>
      let value := if ret = .void then none else some (.default ret)
      pure (.blockOf [] [body, .labelAt label value])
    | _, _ => g.directory.coerce body ret offset
  pure ⟨params, body.scoped locals, ret⟩

/-- Reads the body of a lambda or a program within a new scope for it. -/
def withinLambda (params : List Variable) (ret : Option Ty) (offset : Nat) (body : Reading Expr) :
    Reading Lambda := do
  let depth := (← get).scopes.depth
  let label ← freshLabel "return"
  modify fun p => { p with scopes := p.scopes.enter (.ofLambda params label ret) }
  match ← outcome body with
  | .error e =>
    modify fun p => { p with scopes := p.scopes.unwind depth }
    throw e
  | .ok body =>
    let scope ← leave
    ofExcept (g.finish params body (scope.getD {}) ret offset)

/-- The symbols that close the body of a lambda. -/
def bodyClosing : List String := [",", ")", "]", "\x7d", ";"]

/-- Reads the body of a lambda with parameters of these names and types. -/
def lambdaBody (names : List String) (types : List Ty) (ret : Option Ty) (offset : Nat) :
    Reading Expr := do
  if names.length ≠ types.length then
    throw (.mismatch offset (.lambdaParameters names.length types.length))
  else
    let params ← (names.zip types).mapM fun (name, type) => freshVariable name type
    let lambda ← g.withinLambda params ret offset do
      if ← accept "\x7b" then g.blockRest else g.expressionUpTo bodyClosing
    pure lambda.toExpr

/-- Reads a lambda for given types of its parameters and its result. -/
def bind : Binder Reading Deferred := fun l params ret =>
  outcome (some <$> elsewhere l.body.cursor
    (g.lambdaBody (l.params.map (·.2)) params ret l.body.offset))

end Grammar

end Scriptlet
