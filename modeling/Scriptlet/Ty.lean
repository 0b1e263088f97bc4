import Scriptlet.Number.Kind

/-!
# Types

Every expression has a type. Classes and interfaces are names with type
arguments (`Ty.named`), whose meaning the catalog holds; a type parameter
(`Ty.generic`) stands only in the signatures of the catalog, where calls
replace it (`Ty.substitute`).

`Ty.text` is how a type is written, in messages as well as in programs.
-/

namespace Scriptlet

/-- The types of the language. -/
inductive Ty
  | void
  /-- The type of the `null` literal. -/
  | null
  | object
  | bool
  | char
  | string
  | numeric (kind : NumericKind)
  | nullable (inner : Ty)
  | array (element : Ty) (rank : Nat)
  | named (name : String) (args : List Ty)
  | generic (name : String)
  /-- A delegate; one that returns nothing has the result `void`. -/
  | function (params : List Ty) (ret : Ty)
  deriving Repr, Inhabited

namespace Ty

mutual

/-- Decides equality of types. -/
def decEq : (s t : Ty) → Decidable (s = t)
  | void, t => by cases t <;> first | exact isTrue rfl | exact isFalse nofun
  | null, t => by cases t <;> first | exact isTrue rfl | exact isFalse nofun
  | object, t => by cases t <;> first | exact isTrue rfl | exact isFalse nofun
  | bool, t => by cases t <;> first | exact isTrue rfl | exact isFalse nofun
  | char, t => by cases t <;> first | exact isTrue rfl | exact isFalse nofun
  | string, t => by cases t <;> first | exact isTrue rfl | exact isFalse nofun
  | numeric k, t =>
    match t with
    | numeric j => if h : k = j then isTrue (h ▸ rfl) else isFalse fun e => h (by injection e)
    | void | null | object | bool | char | string | nullable _ | array .. | named .. | generic _
    | function .. => isFalse nofun
  | nullable s, t =>
    match t with
    | nullable t =>
      match decEq s t with
      | isTrue h => isTrue (h ▸ rfl)
      | isFalse h => isFalse fun e => h (by injection e)
    | void | null | object | bool | char | string | numeric _ | array .. | named .. | generic _
    | function .. => isFalse nofun
  | array s m, t =>
    match t with
    | array t n =>
      match decEq s t with
      | isTrue h => if g : m = n then isTrue (h ▸ g ▸ rfl) else isFalse fun e => g (by injection e)
      | isFalse h => isFalse fun e => h (by injection e)
    | void | null | object | bool | char | string | numeric _ | nullable _ | named .. | generic _
    | function .. => isFalse nofun
  | named m as, t =>
    match t with
    | named n bs =>
      match decEqList as bs with
      | isTrue h => if g : m = n then isTrue (h ▸ g ▸ rfl) else isFalse fun e => g (by injection e)
      | isFalse h => isFalse fun e => h (by injection e)
    | void | null | object | bool | char | string | numeric _ | nullable _ | array .. | generic _
    | function .. => isFalse nofun
  | generic m, t =>
    match t with
    | generic n => if h : m = n then isTrue (h ▸ rfl) else isFalse fun e => h (by injection e)
    | void | null | object | bool | char | string | numeric _ | nullable _ | array .. | named ..
    | function .. => isFalse nofun
  | function ps r, t =>
    match t with
    | function qs s =>
      match decEqList ps qs, decEq r s with
      | isTrue h, isTrue g => isTrue (h ▸ g ▸ rfl)
      | isFalse h, _ => isFalse fun e => h (by injection e)
      | _, isFalse g => isFalse fun e => g (by injection e)
    | void | null | object | bool | char | string | numeric _ | nullable _ | array .. | named ..
    | generic _ => isFalse nofun

/-- Decides equality of lists of types. -/
def decEqList : (ss ts : List Ty) → Decidable (ss = ts)
  | [], [] => isTrue rfl
  | s :: ss, t :: ts =>
    match decEq s t, decEqList ss ts with
    | isTrue h, isTrue g => isTrue (h ▸ g ▸ rfl)
    | isFalse h, _ => isFalse fun e => h (by injection e)
    | _, isFalse g => isFalse fun e => g (by injection e)
  | [], _ :: _ => isFalse nofun
  | _ :: _, [] => isFalse nofun

end

instance : DecidableEq Ty := decEq

abbrev byte : Ty := numeric .byte
abbrev short : Ty := numeric .short
abbrev int : Ty := numeric .int
abbrev long : Ty := numeric .long
abbrev float : Ty := numeric .float
abbrev double : Ty := numeric .double
abbrev decimal : Ty := numeric .decimal

/-- The one-dimensional array of a type. -/
abbrev arrayOf (element : Ty) : Ty := array element 1

/-! ## Classes of types -/

/-- The kind of a numeric type. -/
def numericKind? : Ty → Option NumericKind
  | numeric k => some k
  | _ => none

/-- Whether the type is a numeric one. -/
def isNumeric (t : Ty) : Bool := t.numericKind?.isSome

/-- Whether the type is a floating one. -/
def isFloating (t : Ty) : Bool := t.numericKind?.any (·.isFloating)

/-- Whether the type is an integral one. -/
def isIntegral (t : Ty) : Bool := t.numericKind?.any (·.isIntegral)

/-- Whether values of the type are references, so that `null` is one of them. -/
def isReference : Ty → Bool
  | object | string | null | array .. | named .. | function .. => true
  | void | bool | char | numeric _ | nullable _ | generic _ => false

/-- Whether `null` is a value of the type. -/
def acceptsNull : Ty → Bool
  | nullable _ => true
  | t => t.isReference

/-- The type with `null` added. References have it already. -/
def orNull (t : Ty) : Ty := if t.isReference then t else nullable t

/-- The type without one layer of `null`. -/
def underlying : Ty → Ty
  | nullable t => t
  | t => t

/-- The name under which the catalog has the members of a type. -/
def definitionName? : Ty → Option String
  | object => some "Object"
  | string => some "String"
  | bool => some "Boolean"
  | char => some "Char"
  | numeric k => some k.systemName
  | nullable _ => some "Nullable"
  | array .. => some "Array"
  | named name _ => some name
  | void | null | generic _ | function .. => none

/-- The type arguments that the members of a type are read with. -/
def definitionArgs : Ty → List Ty
  | named _ args => args
  | nullable t => [t]
  | _ => []

/-! ## Type parameters -/

mutual

/-- Whether a type parameter occurs in the type. -/
def containsGeneric : Ty → Bool
  | generic _ => true
  | nullable t => t.containsGeneric
  | array t _ => t.containsGeneric
  | named _ args => anyContainsGeneric args
  | function params ret => anyContainsGeneric params || ret.containsGeneric
  | _ => false

/-- Whether a type parameter occurs in one of the types. -/
def anyContainsGeneric : List Ty → Bool
  | [] => false
  | t :: ts => t.containsGeneric || anyContainsGeneric ts

end

/-- Types for type parameters; the first entry of a name counts. -/
abbrev Bindings := List (String × Ty)

mutual

/-- The type with its type parameters replaced; those without a binding stay. -/
def substitute (b : Bindings) : Ty → Ty
  | generic name => (b.lookup name).getD (generic name)
  | nullable t => nullable (t.substitute b)
  | array t rank => array (t.substitute b) rank
  | named name args => named name (substituteAll b args)
  | function params ret => function (substituteAll b params) (ret.substitute b)
  | t => t

/-- The types with their type parameters replaced. -/
def substituteAll (b : Bindings) : List Ty → List Ty
  | [] => []
  | t :: ts => t.substitute b :: substituteAll b ts

end

theorem substituteAll_eq_map (b : Bindings) (ts : List Ty) :
    substituteAll b ts = ts.map (substitute b) := by
  induction ts with
  | nil => rfl
  | cons t ts ih => rw [substituteAll, ih, List.map_cons]

/-! ## Texts -/

mutual

/-- How a type is written. -/
def text : Ty → String
  | void => "void"
  | null => "null"
  | object => "object"
  | bool => "bool"
  | char => "char"
  | string => "string"
  | numeric k => k.name
  | nullable t => t.text ++ "?"
  | array t rank => t.text ++ "[" ++ String.ofList (List.replicate (rank - 1) ',') ++ "]"
  | named name args => if args.isEmpty then name else name ++ "<" ++ joined args ++ ">"
  | generic name => name
  | function params ret =>
    match params, ret with
    | [], void => "Action"
    | _, void => "Action<" ++ joined params ++ ">"
    | [], _ => "Func<" ++ ret.text ++ ">"
    | _, _ => "Func<" ++ joined params ++ ", " ++ ret.text ++ ">"

/-- Types with commas between them. -/
def joined : List Ty → String
  | [] => ""
  | [t] => t.text
  | t :: ts => t.text ++ ", " ++ joined ts

end

end Ty

end Scriptlet
