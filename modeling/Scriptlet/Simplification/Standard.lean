import Scriptlet.Simplification.Constant
import Scriptlet.Simplification.Factor
import Scriptlet.Simplification.Function
import Scriptlet.Simplification.Inline
import Scriptlet.Simplification.Quotient
import Scriptlet.Simplification.Sign
import Scriptlet.Simplification.Simplifier

/-!
# The standard simplifier

All families of rules. What constants come to is tried first, then neutral operands,
and only then the rules that move parts around.
-/

namespace Scriptlet

namespace Simplifier

open Simplification

/-- The standard rules. -/
def standardRules : List Rule :=
  constantRules ++ neutralRules ++ signRules ++ factorRules ++ quotientRules ++ functionRules ++
    inlineRules

/-- The simplifier with the standard rules, which call the methods of a catalog. -/
def standard (catalog : Catalog) : Simplifier where
  catalog := catalog
  rules := standardRules

example : standardRules.length = 70 := by decide

end Simplifier

end Scriptlet
