import Scriptlet.Expr.Typing
import Scriptlet.Reading.Lambda

/-!
# Members and calls

A member of a value or of a type is a call if an opening bracket follows, with
type arguments in front of it if wanted; otherwise it is a property, a field or a
constant. A method of the type itself is preferred to an extension method, which
takes the value as its first argument.
-/

namespace Scriptlet

/-- The call of a chosen method. -/
def Selection.toCall (s : Selection) (receiver : Option Expr) : Expr :=
  .call s.method receiver s.args s.typeArgs s.ret

namespace Grammar

open Reading

variable (g : Grammar)

/-- An argument of a call that is read. -/
abbrev Arg := Argument Deferred

/-- Reads an argument. -/
def argument (close : String) : Reading Arg := do
  match ← pendingLambda g.directory with
  | some l => pure (.lambda l)
  | none => .typed <$> g.expressionUpTo [",", close]

/-- Reads arguments and the bracket that closes them. -/
def arguments (close : String) : Reading (List Arg) := do
  if ← accept close then pure []
  else
    let args ← separated (g.argument close)
    if ← accept close then pure args else missing close

/-- Chooses the method for a call. -/
def select (name : String) (candidates : List Candidate) (explicit : List Ty) (args : List Arg)
    (offset : Nat) : Reading Selection := do
  ofExcept (← Overload.select g.directory g.bind name candidates explicit args offset)

/-- The call of a static method. -/
def staticCall (t : Ty) (name : String) (explicit : List Ty) (args : List Arg) (offset : Nat) :
    Reading Expr := do
  match g.directory.staticMethods t name with
  | [] => throw (.memberNotFound offset t name)
  | candidates => do
    pure ((← g.select name candidates explicit args offset).toCall none)

/-- The call of an extension method on a value. -/
def extensionCall (receiver : Expr) (name : String) (explicit : List Ty) (args : List Arg)
    (offset : Nat) : Reading Expr := do
  match g.directory.extensionMethods name with
  | [] => throw (.memberNotFound offset receiver.type name)
  | candidates => do
    pure ((← g.select name candidates explicit (.typed receiver :: args) offset).toCall none)

/-- The call of a method on a value. If no method of the type itself takes the
    arguments, extension methods are tried. -/
def instanceCall (receiver : Expr) (name : String) (explicit : List Ty) (args : List Arg)
    (offset : Nat) : Reading Expr := do
  match g.directory.instanceMethods receiver.type name with
  | [] => g.extensionCall receiver name explicit args offset
  | candidates =>
    match ← outcome (g.select name candidates explicit args offset) with
    | .ok s => pure (s.toCall receiver)
    | .error e =>
      if (g.directory.extensionMethods name).isEmpty then throw e
      else g.extensionCall receiver name explicit args offset

/-- Reads type arguments in front of the arguments of a call. -/
def explicitTypes : Reading (List Ty) := do
  let types ← attempt do
    match ← typeArguments? g.directory with
    | some args => do pure (if ← peekIs "(" then some args else none)
    | none => pure none
  pure (types.getD [])

/-- Whether a type is that of arrays with one index. -/
def isVector : Ty → Bool
  | .array _ 1 => true
  | _ => false

/-- The property, field or constant of a value, or of a type. -/
def property (target : Option Expr) (t : Ty) (name : String) (offset : Nat) :
    Except Error Expr :=
  match g.directory.member? t name target.isNone with
  | none => throw (.memberNotFound offset t name)
  | some found =>
    match found.member.kind with
    | .constant c => pure (.constant c)
    | _ => pure (.member target found.member found.owner found.type)

/-- Reads the rest of the access to a member of a value, or of a type. -/
def memberAccess (target : Option Expr) (t : Ty) (name : Token) : Reading Expr := do
  let explicit ← g.explicitTypes
  if ← accept "(" then
    let args ← g.arguments ")"
    match target with
    | none => g.staticCall t name.word explicit args name.start
    | some receiver => g.instanceCall receiver name.word explicit args name.start
  else
    match target with
    | some array =>
      if isVector t && name.word == "Length" then
        ofExcept (Expr.applyUnary .arrayLength array name.start)
      else ofExcept (g.property target t name.word name.start)
    | none => ofExcept (g.property target t name.word name.start)

/-- Whether a type has a member or a method with a name. -/
def hasMember (t : Ty) (name : String) (isStatic : Bool) : Bool :=
  (g.directory.member? t name isStatic).isSome || !(g.directory.methods t name isStatic).isEmpty

end Grammar

end Scriptlet
