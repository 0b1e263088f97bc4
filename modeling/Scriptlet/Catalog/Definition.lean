import Scriptlet.Catalog.Operation
import Scriptlet.Constant
import Scriptlet.Text.LetterCase

/-!
# Definitions of types

A `Definition` describes a class or an interface: what it derives from, its
constructors, its methods, and its members, which are constants, properties and
fields. Within it the type parameters of the type stand as `Ty.generic`.

Definitions are built up step by step, starting from `Definition.ofType`,
`Definition.ofClass` or `Definition.ofInterface`. A record constructor takes one
argument for every field that has been added before it.
-/

namespace Scriptlet

/-- A parameter of a method. -/
structure Param where
  name : String
  type : Ty
  /-- Whether all further arguments are collected in an array of this type. -/
  isRest : Bool := false
  deriving DecidableEq, Repr

/-- What a call of a method does. -/
inductive Action
  /-- An operation of the library. -/
  | library (op : Operation)
  /-- An operation that the host of the language provides under a name. -/
  | host (name : String)
  /-- The construction of an object with fields, set from the parameters of the
      same name. -/
  | record (typeName : String) (fields : List (String × Ty))
  deriving DecidableEq, Repr

/-- A method or constructor. -/
structure Method where
  name : String
  /-- The type that declares the method. -/
  owner : Ty := .object
  generics : List String := []
  params : List Param
  ret : Ty
  isStatic : Bool := false
  /-- Whether the method can be called on its first argument. -/
  isExtension : Bool := false
  /-- The function that the method stands for. -/
  canonical : Option MathFunction := none
  action : Action
  deriving DecidableEq, Repr

namespace Method

/-- An instance method; the type that declares it is set when it is added there. -/
def of (name : String) (params : List Param) (ret : Ty) (action : Action) : Method :=
  { name, params, ret, action }

/-- The method as a static one. -/
def asStatic (m : Method) : Method := { m with isStatic := true }

/-- The method as one that can be called on its first argument. -/
def asExtension (m : Method) : Method := { m with isStatic := true, isExtension := true }

/-- The method with type parameters. -/
def withGenerics (m : Method) (generics : List String) : Method := { m with generics }

/-- The method as one that stands for a function. -/
def meaning (m : Method) (f : MathFunction) : Method := { m with canonical := some f }

/-- Whether the method takes any number of further arguments. -/
def isVariadic (m : Method) : Bool := m.params.getLast?.any (·.isRest)

/-- How a method is told from others of its name. -/
def signature (m : Method) : String :=
  m.owner.text ++ "." ++ m.name ++ "(" ++ Ty.joined (m.params.map (·.type)) ++ ")"

end Method

/-- How a property is read. -/
inductive Getter
  | library (p : Property)
  | host (name : String)
  deriving DecidableEq, Repr

/-- The kinds of members. -/
inductive MemberKind
  | constant (value : Constant)
  | property (getter : Getter)
  /-- Stored in the object; can be read and written. -/
  | field

/-- A member of a type. -/
structure Member where
  name : String
  type : Ty
  isStatic : Bool
  kind : MemberKind

/-- Whether a member is a field. -/
def Member.isField (m : Member) : Bool :=
  match m.kind with
  | .field => true
  | _ => false

/-- Whether a member can be assigned to. -/
def Member.isWritable (m : Member) : Bool := m.isField

/-- A class or an interface. -/
structure Definition where
  name : String
  /-- The type that is defined, applied to its own parameters. -/
  type : Ty
  generics : List String := []
  base : Option Ty := some .object
  interfaces : List Ty := []
  isInterface : Bool := false
  constructors : List Method := []
  methods : List Method := []
  members : List Member := []

namespace Definition

/-- The definition of a type without parameters. -/
def ofType (name : String) (type : Ty) : Definition := { name, type }

/-- The definition of a class. -/
def ofClass (name : String) (generics : List String) : Definition :=
  { name, generics, type := .named name (generics.map .generic) }

/-- The definition of an interface. -/
def ofInterface (name : String) (generics : List String) : Definition :=
  { ofClass name generics with base := none, isInterface := true }

/-- Sets the type that is derived from. -/
def withBase (d : Definition) (base : Option Ty) : Definition := { d with base }

/-- Adds an interface. -/
def implementing (d : Definition) (t : Ty) : Definition :=
  { d with interfaces := d.interfaces ++ [t] }

/-- Adds a method. -/
def method (d : Definition) (m : Method) : Definition :=
  { d with methods := d.methods ++ [{ m with owner := d.type }] }

/-- Adds methods. -/
def withMethods (d : Definition) (ms : List Method) : Definition := ms.foldl method d

/-- Adds a member. -/
def member (d : Definition) (m : Member) : Definition := { d with members := d.members ++ [m] }

/-- Adds a constant. -/
def constant (d : Definition) (name : String) (value : Constant) : Definition :=
  d.member ⟨name, value.type, true, .constant value⟩

/-- Adds a property of the instances. -/
def property (d : Definition) (name : String) (type : Ty) (getter : Getter) : Definition :=
  d.member ⟨name, type, false, .property getter⟩

/-- Adds a property of the type itself. -/
def staticProperty (d : Definition) (name : String) (type : Ty) (getter : Getter) : Definition :=
  d.member ⟨name, type, true, .property getter⟩

/-- Adds a field. -/
def field (d : Definition) (name : String) (type : Ty) : Definition :=
  d.member ⟨name, type, false, .field⟩

/-- The name of constructors. -/
def constructorName : String := ".ctor"

/-- Adds a constructor. -/
def constructor (d : Definition) (params : List Param) (action : Action) : Definition :=
  let m : Method :=
    { name := constructorName, owner := d.type, generics := d.generics, params, ret := d.type,
      action }
  { d with constructors := d.constructors ++ [m] }

/-- The fields that have been added so far, with their types. -/
def fields (d : Definition) : List (String × Ty) :=
  (d.members.filter fun m => m.isField && !m.isStatic).map fun m => (m.name, m.type)

/-- Adds a constructor of objects with the fields so far. -/
def constructorOfFields (d : Definition) (params : List Param) : Definition :=
  let m : Method :=
    { name := constructorName, owner := d.type, params, ret := d.type, isStatic := true,
      action := .record d.name d.fields }
  { d with constructors := d.constructors ++ [m] }

/-- Adds a constructor that takes a value for every field so far. -/
def recordConstructor (d : Definition) : Definition :=
  d.constructorOfFields (d.fields.map fun (name, type) => { name := Text.toLower name, type })

/-- Adds a constructor that leaves every field at its default. -/
def defaultConstructor (d : Definition) : Definition := d.constructorOfFields []

/-- The type parameters with the arguments for them; of two parameters with one
    name the later one counts. -/
def bindings (d : Definition) (args : List Ty) : Ty.Bindings := (d.generics.zip args).reverse

end Definition

end Scriptlet
