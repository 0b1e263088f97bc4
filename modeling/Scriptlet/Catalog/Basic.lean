import Scriptlet.Catalog.Definition
import Scriptlet.Text.Cut

/-!
# The catalog

All types that a program can name, with other spellings of their names, the
methods that can be called on any fitting value, and the named constants.

A later registration under the same name replaces an earlier one. Methods that
extend other types add up, in the order of registration; of several methods
that stand for one function, the first is kept.
-/

namespace Scriptlet

open Text

/-- The types and constants that programs can refer to. -/
structure Catalog where
  /-- The definitions, the latest first. -/
  definitions : List Definition := []
  /-- Other names of types, the latest first. -/
  aliases : List (String × String) := []
  /-- The methods that extend types, in the order of registration. -/
  extensions : List Method := []
  /-- The named constants, the latest first. -/
  constants : List (String × Constant) := []
  /-- The methods that stand for functions. -/
  functions : List (MathFunction × Method) := []
  /-- The namespaces whose names may stand before the name of a type. -/
  namespaces : List String := []

namespace Catalog

/-- The catalog without entries. -/
def empty : Catalog := {}

/-- Adds a method to those that stand for functions. -/
def addFunction (fs : List (MathFunction × Method)) (m : Method) : List (MathFunction × Method) :=
  match m.canonical with
  | some f => if (fs.lookup f).isSome then fs else fs ++ [(f, m)]
  | none => fs

/-- Adds a definition. -/
def register (c : Catalog) (d : Definition) : Catalog :=
  { c with
    definitions := d :: c.definitions
    extensions := c.extensions ++ d.methods.filter (·.isExtension)
    functions := d.methods.foldl addFunction c.functions }

/-- Adds another name of a type. -/
def addAlias (c : Catalog) (shorthand name : String) : Catalog :=
  { c with aliases := (shorthand, name) :: c.aliases }

/-- Adds a named constant. -/
def addConstant (c : Catalog) (name : String) (value : Constant) : Catalog :=
  { c with constants := (name, value) :: c.constants }

/-- Adds a namespace. -/
def addNamespace (c : Catalog) (name : String) : Catalog :=
  if c.namespaces.contains name then c else { c with namespaces := c.namespaces ++ [name] }

/-- The definition with a name, spelled as it is or by another name. -/
def lookup? (c : Catalog) (name : String) (arity : Nat) : Option Definition :=
  let name := (c.aliases.lookup name).getD name
  c.definitions.find? fun d => d.name == name && d.generics.length == arity

/-- A name without a namespace and the point behind it. -/
def withinNamespace? (space name : String) : Option String :=
  match strip? space.toList name.toList with
  | some ('.' :: rest) => some (String.ofList rest)
  | _ => none

/-- The definition with a name and a number of type parameters; a namespace may
    stand before the name. -/
def find? (c : Catalog) (name : String) (arity : Nat) : Option Definition :=
  match c.lookup? name arity with
  | some d => some d
  | none => c.namespaces.findSome? fun space =>
    (withinNamespace? space name).bind fun rest => c.lookup? rest arity

/-- The extension methods with a name. -/
def extensionsNamed (c : Catalog) (name : String) : List Method :=
  c.extensions.filter fun m => m.name == name

/-- The constant with a name. -/
def constant? (c : Catalog) (name : String) : Option Constant := c.constants.lookup name

/-- The method that stands for a function. -/
def function? (c : Catalog) (f : MathFunction) : Option Method := c.functions.lookup f

end Catalog

end Scriptlet
