import Scriptlet.Simplification.Rule

/-!
# Simplifying

A simplifier is a list of rules and the catalog whose methods they may call. An
expression is simplified from its parts up (`Simplifier.simplifyWithin`): at each node
the rules for it are tried in their order, and the first that gives a replacement
decides (`Simplifier.node`).

A rule may have its replacement simplified in turn. How deep such a chain may be is
given as a number; beyond it the simplifier gives up with `Halt.exhausted`.
`Simplifier.simplify` allows for a depth that no chain of the standard rules reaches.
-/

namespace Scriptlet

/-- Rules and what they call. -/
structure Simplifier where
  catalog : Catalog := .empty
  rules : List Rule := []

namespace Simplifier

variable (s : Simplifier)

/-- The simplifier with one more rule, which is tried after the others. -/
def addRule (r : Rule) : Simplifier := { s with rules := s.rules ++ [r] }

/-- The rules for a shape, in their order. Nodes without a shape of their own are left
    alone unless some rule is for every node. -/
def rulesFor (shape : Shape) : List Rule :=
  if shape = .other ∧ !s.rules.any (·.shape = .any) then []
  else s.rules.filter fun r => r.shape = shape ∨ r.shape = .any

/-- The first replacement that some rules give for a node. -/
def firstReplacement (t : Tools) (e : Expr) : List Rule → Except Halt (Option Expr)
  | [] => pure none
  | r :: rs =>
    if r.fits e then do
      match ← r.replace t e with
      | some e' => pure (some e')
      | none => firstReplacement t e rs
    else firstReplacement t e rs

/-- Simplifies a node whose parts are simplified. -/
def node : Nat → Expr → Except Halt Expr
  | 0, _ => throw .exhausted
  | n + 1, e => do
    let t : Tools :=
      { node := node n, whole := Expr.bottomUpM (node n), method? := s.catalog.function? }
    pure ((← firstReplacement t e (s.rulesFor e.shape)).getD e)

/-- Simplifies an expression, with chains of rules up to a depth. -/
def simplifyWithin (depth : Nat) (e : Expr) : Except Halt Expr := e.bottomUpM (s.node depth)

/-- The depth of chains that is allowed for. -/
def depth : Nat := 1000000

/-- Simplifies an expression. -/
def simplify (e : Expr) : Except Halt Expr := s.simplifyWithin depth e

/-- Simplifies the body of a function. -/
def simplifyLambda (l : Lambda) : Except Halt Lambda := do
  let body ← s.simplify l.body
  pure { l with body }

/-- Whether two expressions are the same once they are simplified. -/
def equal (a b : Expr) : Except Halt Bool := do
  let a ← s.simplify a
  let b ← s.simplify b
  pure (a.same b)

/-- A text that expressions which are equal have in common. -/
def canonical (e : Expr) : Except Halt String := do
  let e ← s.simplify e
  pure e.canonical

end Simplifier

end Scriptlet
