import Scriptlet.Error
import Scriptlet.Expr.Basic

/-!
# Scopes

While a program is read, scopes are entered and left again. A scope holds the
variables that are declared in it and the labels that `goto` names, and says
where `break`, `continue` and `return` lead to. What is looked up is searched
from the innermost scope outwards; `break` and `continue` do not lead out of a
lambda.

A name can be declared again in an inner scope, but not in the same one.
-/

namespace Scriptlet

/-- What a scope belongs to. -/
inductive ScopeKind
  | block
  | loop
  | switch
  | lambda
  deriving DecidableEq, Repr

/-- The name of a kind of scope. -/
def ScopeKind.name : ScopeKind → String
  | block => "Block"
  | loop => "Loop"
  | switch => "Switch"
  | lambda => "Lambda"

/-- A scope. -/
structure Scope where
  kind : ScopeKind := .block
  /-- The variables in the order in which they were declared. -/
  locals : List Variable := []
  labels : List Label := []
  breakLabel : Option Label := none
  continueLabel : Option Label := none
  /-- Where `return` leads to; in the scope of a lambda only. -/
  returnLabel : Option Label := none
  /-- The type of what a lambda returns, if it is known already. -/
  returnType : Option Ty := none
  /-- The number of jumps to `returnLabel`. -/
  returns : Nat := 0
  deriving Repr

namespace Scope

/-- The scope of a loop. -/
def ofLoop (breakLabel continueLabel : Label) : Scope :=
  { kind := .loop, breakLabel := some breakLabel, continueLabel := some continueLabel }

/-- The scope of a switch. -/
def ofSwitch (breakLabel : Label) : Scope := { kind := .switch, breakLabel := some breakLabel }

/-- Adds a variable to others. One of the same name gives up its place to it. -/
def insert (v : Variable) : List Variable → List Variable
  | [] => [v]
  | w :: ws => if w.name = v.name then v :: ws else w :: insert v ws

/-- The scope of a lambda. -/
def ofLambda (params : List Variable) (returnLabel : Label) (returnType : Option Ty) : Scope :=
  { kind := .lambda, locals := params.foldl (fun vs v => insert v vs) [],
    returnLabel := some returnLabel, returnType }

/-- The variable with a name. -/
def declared? (s : Scope) (name : String) : Option Variable :=
  s.locals.find? fun v => v.name == name

/-- The label with a name. -/
def label? (s : Scope) (name : String) : Option Label := s.labels.find? fun l => l.name == name

end Scope

/-- The scopes at a place in a program. -/
structure Scopes where
  /-- The parameters of the program, which are outside of all scopes. -/
  parameters : List Variable := []
  /-- The scopes around the place, the innermost one first. -/
  entered : List Scope := []
  /-- The number for the next variable or label. -/
  next : Nat := 0
  deriving Repr

namespace Scopes

variable (s : Scopes)

/-! ## New variables and labels -/

/-- A new variable, which no scope holds yet. -/
def freshVariable (name : String) (type : Ty) : Variable × Scopes :=
  (⟨s.next, name, type⟩, { s with next := s.next + 1 })

/-- A new label, which no scope holds yet. -/
def freshLabel (name : String) : Label × Scopes :=
  (⟨s.next, name⟩, { s with next := s.next + 1 })

/-! ## Entering and leaving -/

/-- The number of scopes around the place. -/
def depth : Nat := s.entered.length

/-- Enters a scope. -/
def enter (scope : Scope) : Scopes := { s with entered := scope :: s.entered }

/-- Leaves the innermost scope. -/
def leave : Option Scope × Scopes :=
  (s.entered.head?, { s with entered := s.entered.tail })

/-- Leaves all scopes but the outermost `depth`. -/
def unwind (depth : Nat) : Scopes :=
  { s with entered := s.entered.drop (s.entered.length - depth) }

/-! ## Variables -/

/-- Declares a variable in the innermost scope. -/
def declare (name : String) (type : Ty) (offset : Nat) : Except Error (Variable × Scopes) :=
  match s.entered with
  | [] => throw (.misuse offset .declarationOutside)
  | scope :: outer =>
    if (scope.declared? name).isSome then throw (.duplicateVariable offset name) else
      let (v, s) := s.freshVariable name type
      pure (v, { s with entered := { scope with locals := scope.locals ++ [v] } :: outer })

/-- The variable or parameter that a name means. -/
def lookup? (name : String) : Option Variable :=
  match s.entered.findSome? (·.declared? name) with
  | some v => some v
  | none => s.parameters.find? fun v => v.name == name

/-! ## Destinations of jumps -/

/-- The label that a name means. One that has not been seen belongs to the innermost
    scope. -/
def label (name : String) : Label × Scopes :=
  match s.entered.findSome? (·.label? name) with
  | some l => (l, s)
  | none =>
    let (l, s) := s.freshLabel name
    match s.entered with
    | [] => (l, s)
    | scope :: outer =>
      (l, { s with entered := { scope with labels := scope.labels ++ [l] } :: outer })

/-- The scopes up to the innermost lambda. -/
def withinLambda : List Scope := s.entered.takeWhile fun scope => scope.kind != .lambda

/-- Where `break` leads to. -/
def breakTarget? : Option Label := s.withinLambda.findSome? (·.breakLabel)

/-- Where `continue` leads to. -/
def continueTarget? : Option Label := s.withinLambda.findSome? (·.continueLabel)

/-- The scope of the innermost lambda. -/
def lambda? : Option Scope := s.entered.find? fun scope => scope.kind == .lambda

/-- Changes the scope of the innermost lambda. -/
def modifyLambda (f : Scope → Scope) : Scopes :=
  { s with entered := go s.entered }
where
  /-- Changes the first lambda among scopes. -/
  go : List Scope → List Scope
    | [] => []
    | scope :: outer => if scope.kind = .lambda then f scope :: outer else scope :: go outer

end Scopes

end Scriptlet
