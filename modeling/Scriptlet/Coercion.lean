import Scriptlet.Catalog.Directory
import Scriptlet.Error
import Scriptlet.Expr.Basic

/-!
# Implicit conversions

Where a value of a type is wanted, a value of another type will do if it can
become one without a cast (`Directory.coerce`): if the types are at a distance
(`Directory.distance?`), or if it is a whole number constant that the wanted
type has too.
-/

namespace Scriptlet

namespace Expr

/-- The whole number constant that an expression is, as one of a type that has it
    too. -/
def constantAs? (e : Expr) (t : Ty) : Option Expr :=
  match e.number?, t.underlying with
  | some n, .numeric k =>
    if n.kind.isIntegral then (n.lossless? k).map fun n => (number n).coerce t else none
  | _, _ => none

/-- An index or a bound of an array, as a number. -/
def asIndex (e : Expr) (offset : Nat) : Except Error Expr :=
  match e.type.underlying with
  | .numeric (.integral _) | .char => pure (e.convertTo .int)
  | _ => .error (.mismatch offset (.implicitConversion e.type .int))

end Expr

namespace Directory

variable (d : Directory)

/-- The expression where a value of a type is wanted. -/
def coerce (e : Expr) (t : Ty) (offset : Nat) : Except Error Expr :=
  match e.constantAs? t with
  | some c => pure c
  | none =>
    if t = .void ∨ (d.distance? e.type t).isSome then pure (e.coerce t)
    else throw (.mismatch offset (.implicitConversion e.type t))

/-- The nearer of two types to which values of both can become. -/
def commonOf (s t : Ty) (offset : Nat) : Except Error Ty :=
  if (d.distance? t s).isSome then pure s
  else if (d.distance? s t).isSome then pure t
  else throw (.mismatch offset (.arrayElements s t))

/-- The type of the elements of an array with these items. -/
def commonType (items : List Expr) (offset : Nat) : Except Error Ty :=
  match items with
  | [] => throw (.misuse offset .untypedArray)
  | e :: es => es.foldlM (fun t e => d.commonOf t e.type offset) e.type

/-- A new array of items. -/
def arrayOf (element : Ty) (items : List Expr) (offset : Nat) : Except Error Expr := do
  pure (.arrayOfItems element (← items.mapM fun e => d.coerce e element offset))

end Directory

end Scriptlet
