import Scriptlet.Reading.Call

/-!
# New objects and arrays

Behind `new` stands a type: with arguments for its constructor, with the size of an
array, or with items in braces. In braces behind an object stand values for its
members, or items that are added to it.
-/

namespace Scriptlet

namespace Grammar

open Reading

variable (g : Grammar)

/-! ## What stands in braces -/

/-- The member of a type that can be set by a name. -/
def settable (t : Ty) (name : Token) : Except Error MemberMatch :=
  match g.directory.member? t name.word false with
  | some m => if m.member.isWritable then pure m else throw (.memberNotFound name.start t name.word)
  | none => throw (.memberNotFound name.start t name.word)

/-- Reads a value for a member. -/
def memberBinding (t : Ty) : Reading (Binding Expr) := do
  let name ← identifier
  expect "="
  let value ← g.expressionUpTo [",", "\x7d"]
  let m ← ofExcept (g.settable t name)
  pure ⟨m.member, ← g.coerce value m.type name.start⟩

/-- Reads values for members and the brace that closes them. -/
def memberBindings (t : Ty) : Reading (List (Binding Expr)) :=
  iterate (fun bindings => do
    if ← accept "\x7d" then pure (.done bindings)
    else
      let bindings := bindings ++ [← g.memberBinding t]
      if ← accept "," then pure (.again bindings)
      else
        expect "\x7d"
        pure (.done bindings)) []

/-- Reads items that are added to a new collection. -/
def addedItems (new : Expr) (offset : Nat) : Reading Expr := do
  match g.directory.instanceMethods new.type "Add" with
  | [] => throw (.memberNotFound offset new.type "Add")
  | adds =>
    let items ← g.items "\x7d"
    let selections ← items.mapM fun e => g.select "Add" adds [] [.typed e] offset
    match selections with
    | [] => pure new
    | s :: _ => pure (.listInit new s.method (selections.flatMap (·.args)) new.type)

/-- Reads what stands in braces behind a new object. -/
def initializer (new : Expr) : Reading Expr := do
  expect "\x7b"
  let (first, second) ← ahead do pure (← token, ← token)
  if first.kind.isIdentifier && second.is "=" then
    pure (.memberInit new (← g.memberBindings new.type) new.type)
  else g.addedItems new first.start

/-! ## What is new -/

/-- Reads the rest of an array whose element type is that of its items. -/
def untypedArrayRest (offset : Nat) : Reading Expr := do
  expect "]"
  expect "\x7b"
  let items ← g.items "\x7d"
  let element ← ofExcept (g.directory.commonType items offset)
  ofExcept (g.directory.arrayOf element items offset)

/-- Reads the rest of an array of a size. -/
def sizedArrayRest (element : Ty) (offset : Nat) : Reading Expr := do
  match ← g.items "]" with
  | [] => throw (.wrongSymbol offset "array size" "]")
  | bounds =>
    pure (.arrayOfSize element (← ofExcept (bounds.mapM fun e => e.asIndex offset)))

/-- Reads the rest of an array of items. -/
def arrayRest (element : Ty) (rank offset : Nat) : Reading Expr := do
  if ← accept "\x7b" then
    if rank ≠ 1 then throw (.misuse offset .arrayInitializerRank)
    else ofExcept (g.directory.arrayOf element (← g.items "\x7d") offset)
  else throw (.wrongSymbol offset "\x7b" "end of array type")

/-- Reads the rest of a new object. -/
def objectRest (t : Ty) (offset : Nat) : Reading Expr := do
  let args ← if ← accept "(" then g.arguments ")" else pure []
  match g.directory.constructors t with
  | [] => throw (.mismatch offset (.noConstructors t))
  | candidates =>
    let s ← g.select t.text candidates [] args offset
    let new : Expr := .new s.method s.args t
    if ← peekIs "\x7b" then g.initializer new else pure new

/-- Reads what stands behind `new`. -/
def creation (offset : Nat) : Reading Expr := do
  if ← accept "[" then g.untypedArrayRest offset
  else
    let t ← requiredType g.directory
    if ← accept "[" then g.sizedArrayRest t offset
    else
      match t with
      | .array element rank => g.arrayRest element rank offset
      | t => g.objectRest t offset

end Grammar

end Scriptlet
