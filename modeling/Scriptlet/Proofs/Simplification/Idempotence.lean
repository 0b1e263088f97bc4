import Scriptlet.Engine
import Scriptlet.Proofs.Reading.ProgramTraits

/-!
# Simplifying twice is simplifying once

Programs over the standard catalog are plain, so what they are simplified to is at rest.
-/

namespace Scriptlet

theorem isPlain_standard : Catalog.standard.IsPlain where
  methods := by
    have hall : (Catalog.standard.definitions.all fun d => d.methods.all fun m =>
        !m.canonical.isSome || (m.isStatic && m.ret = .double)) := by decide
    intro d hd m hm hc
    have := List.all_eq_true.1 (List.all_eq_true.1 hall d hd) m hm
    simpa [hc] using this
  extensions := by
    have hall : (Catalog.standard.extensions.all fun m => m.canonical = none) := by decide
    intro m hm
    exact of_decide_eq_true (List.all_eq_true.1 hall m hm)

namespace Engine

variable (options : Options) (first : Nat) (source : String)

theorem plain_of_parse {l : Lambda} {next : Nat}
    (h : ({ options } : Engine).parse first source = .ok (l, next)) : l.toExpr.Plain := by
  have hbody : l.body.Plain := Scriptlet.plain_of_parse (d := ({ options } : Engine).directory)
    isPlain_standard h
  exact Expr.plain_of_children rfl (by simpa [Lambda.toExpr, Expr.children] using hbody)

theorem simplify_of_plain {x y : Expr} (h : x.Plain)
    (hy : ({ options } : Engine).simplifier.simplify x = .ok y) :
    ({ options } : Engine).simplifier.simplify y = .ok y :=
  Simplifier.simplifyWithin_simplifyWithin hasFunctions_standard h hy

/-- The tree of a program that is read with some options and simplified; reading and
    simplifying can both fail. -/
def simplifiedTree : Except Halt Expr := do
  let e : Engine := { options }
  let (l, _) ← (e.parse first source).mapError .error
  e.simplifier.simplify l.toExpr

/-- Simplifying is idempotent on every program over the standard catalog: going on from a
    simplified program by simplifying it again has the very same outcome. -/
theorem simplify_idempotent :
    simplifiedTree options first source >>= ({ options } : Engine).simplifier.simplify =
      simplifiedTree options first source := by
  unfold simplifiedTree
  dsimp only
  rcases hparse : ({ options } : Engine).parse first source with x | ⟨l, next⟩
  · rfl
  change ({ options } : Engine).simplifier.simplify l.toExpr >>= _ =
    ({ options } : Engine).simplifier.simplify l.toExpr
  rcases hs : ({ options } : Engine).simplifier.simplify l.toExpr with x | s
  · rfl
  · exact simplify_of_plain options (plain_of_parse options first source hparse) hs

end Engine

end Scriptlet
