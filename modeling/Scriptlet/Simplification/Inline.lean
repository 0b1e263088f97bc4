import Scriptlet.Simplification.Rule

/-!
# Inlining

A lambda that is called where it stands is replaced by its body, with the arguments
in the place of the parameters. That is not done if the body changes a parameter. An
argument with side effects must be evaluated once, so its parameter must occur once, and
there may be only one such argument, because the order of two could change.
-/

namespace Scriptlet

namespace Simplification

/-- Whether an expression is one of some variables. -/
def isVariableOf (ids : List Nat) : Expr → Bool
  | .parameter v => ids.contains v.id
  | _ => false

/-- Whether a node changes one of some variables. -/
def changes (ids : List Nat) : Expr → Bool
  | .assign target _ _ => isVariableOf ids target
  | .unary op e _ => op.isMutation && isVariableOf ids e
  | _ => false

/-- Whether an expression changes one of some variables. -/
def changesAny (ids : List Nat) (e : Expr) : Bool := e.subexpressions.any (changes ids)

/-- How often a variable occurs in an expression. -/
def occurrences (id : Nat) (e : Expr) : Nat := e.subexpressions.countP (isVariableOf [id])

/-- Whether the body of a lambda can stand for its call with some arguments. -/
def canInline (params : List Variable) (body : Expr) (args : List Expr) : Bool :=
  let impure := (params.zip args).filter fun (_, a) => !a.isPure
  params.length = args.length && !changesAny (params.map (·.id)) body &&
    impure.length ≤ 1 && impure.all fun (v, _) => occurrences v.id body = 1

/-- The arguments in the place of parameters. -/
def argumentFor? (params : List Variable) (args : List Expr) (id : Nat) : Option Expr :=
  ((params.zip args).find? fun (v, _) => v.id = id).map fun (v, a) => a.coerce v.type

/-- The body of a lambda in the place of its call. -/
def inlined (t : Tools) : Expr → Except Halt (Option Expr)
  | .invoke (.lambda params body _) args type =>
    if canInline params body args then
      some <$> t.whole ((body.substitute (argumentFor? params args)).coerce type)
    else pure none
  | _ => pure none

/-- The rule for inlining. -/
def inlineRules : List Rule := [⟨.invoke, [.lambda], inlined⟩]

end Simplification

end Scriptlet
