/-!
# Options

What a program is read with beside its text. Every option has a default.
-/

namespace Scriptlet

/-- A parameter, with the name of its type. -/
structure ParameterOption where
  name : String
  type : String
  deriving DecidableEq, Repr

/-- The options for reading a program. -/
structure Options where
  /-- The parameters of a program that does not start with its own. -/
  parameters : List ParameterOption := []
  /-- The type of the result; if it is missing, that of the body. -/
  returnType : Option String := none
  /-- The parameter whose members can be named by themselves. -/
  defaultReceiver : Option String := none
  /-- The type whose static members can be named by themselves. -/
  staticType : Option String := none
  /-- The namespaces that types can be named with. -/
  namespaces : List String := []
  /-- Whether members are looked for up to case, if there is none of the exact name. -/
  ignoreCase : Bool := false
  /-- The type of parameters that are written without one. -/
  defaultParameterType : String := "double"
  deriving DecidableEq, Repr

end Scriptlet
