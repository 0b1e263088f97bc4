import Scriptlet.Catalog.Directory
import Scriptlet.Reading.Basic

/-!
# Names of types

The name of a type is a word, or words joined by points, with type arguments in
angle brackets if it takes some, and with question marks and square brackets
behind it for types with a missing value and for arrays.

Such a name looks like the start of something else: `a < b`, `x ? y : z`, `t[0]`.
So all readings here decline where no type is named, and then leave the cursor
where it was. A mark or bracket that does not belong to the type is left too.
-/

namespace Scriptlet

namespace Reading

variable (d : Directory)

/-! ## What stands behind the name -/

/-- Whether a token can follow the mark of a type with a missing value, when it
    is not an operator. -/
def closesType (t : Token) : Bool :=
  t.isEof || (t.kind.isSymbol &&
    ([")", ",", "]", "[", ";", "\x7d"].any (t.is ·) || t.lexeme.head? == some '>'))

/-- Whether a name follows that is being declared. -/
def declaresNext : Reading Bool := do
  if (← peek).kind.isIdentifier then
    let t ← ahead do
      let _ ← token
      peek
    pure (t.isEof || ["=", ";", "in", ")", ","].any (t.is ·))
  else pure false

/-- Reads the mark of a type with a missing value, which a conditional has too. -/
def missingMark : Reading Bool := do
  if ← peekIs "?" then
    let mark ← attempt do
      let _ ← token
      let closes := closesType (← peek)
      let declares ← declaresNext
      pure (if closes || declares then some () else none)
    pure mark.isSome
  else pure false

/-- Reads the brackets of an array type, and gives its rank. A bracket with
    something in it is an index. -/
def arrayBrackets : Reading (Option Nat) := do
  if ← peekIs "[" then
    attempt do
      let _ ← token
      iterate (fun rank => do
        let t ← token
        if t.is "," then pure (.again (rank + 1))
        else if t.is "]" then pure (.done (some rank))
        else pure (.done none)) 1
  else pure none

/-- Reads what stands behind a type and belongs to it. -/
def typeMarks (t : Ty) : Reading Ty :=
  iterate (fun t => do
    if ← missingMark then pure (.again t.orNull)
    else
      match ← arrayBrackets with
      | some rank => pure (.again (.array t rank))
      | none => pure (.done t)) t

/-! ## Names -/

/-- Reads the type arguments of a type or a method, each of them with `inner`. -/
def typeArguments (inner : Reading (Option Ty)) : Reading (Option (List Ty)) := do
  if ← peekIs "<" then
    attempt do
      let _ ← token
      iterate (fun args => do
        match ← inner with
        | none => pure (.done none)
        | some t =>
          if ← accept "," then pure (.again (args ++ [t]))
          else if ← acceptFront ">" then pure (.done (some (args ++ [t])))
          else pure (.done none)) []
  else pure none

/-- The part of a name that has been read, and the longest part of it that names a
    type, with the place where that ends. -/
structure NamePart where
  name : String
  best : Option (Ty × Place)

/-- Reads the rest of the longest name that starts with a token and names a type. -/
def typeNameAfter (inner : Reading (Option Ty)) (first : Token) :
    Reading (Option (Ty × Place)) :=
  iterate (fun (part : NamePart) => do
    let named (args : List Ty) : Reading (Option (Ty × Place)) := do
      let behind ← here
      pure (((d.instantiate? part.name args).map fun t => (t, behind)).or part.best)
    match ← typeArguments inner with
    | some args => do pure (.done (← named args))
    | none =>
      let best ← named []
      let next ← attempt do
        if ← accept "." then
          let t ← token
          pure (if t.kind.isIdentifier then some t else none)
        else pure none
      match next with
      | some t => pure (.again ⟨part.name ++ "." ++ t.word, best⟩)
      | none => pure (.done best)) ⟨first.word, none⟩

/-- Reads the rest of a type that starts with a token. -/
def typeAfterWith (inner : Reading (Option Ty)) (first : Token) : Reading (Option Ty) := do
  let entry ← here
  match ← typeNameAfter d inner first with
  | some (t, behind) =>
    moveTo behind
    some <$> typeMarks t
  | none =>
    moveTo entry
    pure none

/-- Reads a type with the type arguments read by `inner`. -/
def typeNameWith (inner : Reading (Option Ty)) : Reading (Option Ty) := do
  if (← peek).isWord then attempt do typeAfterWith d inner (← token)
  else pure none

/-- Whether a word names a value here. -/
def namesValue (word : String) : Reading Bool := do
  pure ((← lookup? word).isSome || (d.catalog.constant? word).isSome)

/-- Reads a type, within type arguments that are nested at most this deep; declines
    if the next word names a value. -/
def typeWithin : (depth : Nat) → Reading (Option Ty)
  | 0 => pure none
  | depth + 1 => do
    let t ← peek
    if !t.isWord then pure none
    else if ← namesValue d t.word then pure none
    else typeNameWith d (typeWithin depth)

/-- How deep type arguments can be nested in what is left of the source. -/
def typeDepth : Reading Nat := do pure ((← get).cursor.remaining.length + 1)

/-- Reads a type, unless the next word names a value. -/
def type? : Reading (Option Ty) := do typeWithin d ((← typeDepth) + 1)

/-- Reads type arguments. -/
def typeArguments? : Reading (Option (List Ty)) := do typeArguments (typeWithin d (← typeDepth))

/-- Reads the rest of a type that starts with a token. -/
def typeAfter? (first : Token) : Reading (Option Ty) := do
  typeAfterWith d (typeWithin d (← typeDepth)) first

/-- Reads a type where there has to be one. -/
def requiredType : Reading Ty := do
  let next ← peek
  match ← typeNameWith d (typeWithin d (← typeDepth)) with
  | some t => pure t
  | none => throw (.typeNotFound next.start next.found)

/-- The type that a text names. -/
def namedType (name : String) : Reading Ty := do
  match d.resolve? name with
  | some t => pure t
  | none => throw (.typeNotFound (← offset) name)

end Reading

end Scriptlet
