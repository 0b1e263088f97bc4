import Scriptlet.Catalog.Library
import Scriptlet.Evaluation.Call
import Scriptlet.Reading.Program
import Scriptlet.Simplification.Standard

/-!
# The engine

An engine has what is needed to work with programs: a catalog of types and the options
that programs are read with. It reads a text as a function (`Engine.parse`), simplifies
it (`Engine.simplify`), tells whether two functions are equal (`Engine.equal`), and runs
them (`Engine.machine`).
-/

namespace Scriptlet

/-- A catalog and options. -/
structure Engine where
  catalog : Catalog := .standard
  options : Options := {}

namespace Engine

variable (e : Engine)

/-- Where names are looked up. -/
def directory : Directory where
  catalog := e.catalog
  namespaces := e.options.namespaces
  ignoreCase := e.options.ignoreCase

/-- The simplifier for programs. -/
def simplifier : Simplifier := .standard e.catalog

/-- Reads a program. Variables and labels are numbered from `first` on; the next
    number is given with the program. -/
def parse (first : Nat) (source : String) : Except Error (Lambda × Nat) :=
  Scriptlet.parse e.directory e.options first source

/-- Simplifies a program. -/
def simplify (l : Lambda) : Except Halt Lambda := e.simplifier.simplifyLambda l

/-- Reads a program on its own. Its variables and labels are numbered from one on. -/
def parseAlone (source : String) : Except Halt Lambda :=
  ((e.parse 1 source).map (·.1)).mapError .error

/-- Reads a program on its own and simplifies it. -/
def parseSimplified (source : String) : Except Halt Lambda := do e.simplify (← e.parseAlone source)

/-- Whether two programs are equal. -/
def equal (a b : Lambda) : Except Halt Bool := e.simplifier.equal a.toExpr b.toExpr

/-- A text that programs which are equal have in common. -/
def canonical (l : Lambda) : Except Halt String := e.simplifier.canonical l.toExpr

/-- The machine on which programs run. The rounds of a loop and the depth of calls are
    bounded by numbers that no program reaches in practice. -/
def machine (h : Host) : Machine := .ofDepth e.directory h 1000000000000 1000000000

end Engine

end Scriptlet
