import Scriptlet.Scope
import Scriptlet.Token.Cursor

/-!
# Reading a program

A program is read from a cursor, within scopes; both change while it is read,
and a reading can fail (`Reading`). What was changed up to a failure stays
changed: whoever goes on after it has to see to the cursor and the scopes.

Often the next tokens tell only after a while what they are. Then a reading is
tried (`Reading.attempt`), or tokens are looked at ahead (`Reading.ahead`). For
that the place of the cursor is kept on its stack, and taken from there again if
the reading declines.

Repetitions end because every round reads a token. They are given as many rounds
as there are characters left, and one more (`Reading.iterate`).
-/

namespace Scriptlet

/-- Where the reading of a program stands. -/
structure Position where
  cursor : Cursor
  scopes : Scopes

/-- A reading of a part of a program. -/
abbrev Reading := EStateM Error Position

namespace Reading

variable {α β : Type}

/-! ## The cursor -/

/-- Reads from the cursor. -/
def onCursor (f : Cursor → Except Error α × Cursor) : Reading α := fun p =>
  match f p.cursor with
  | (.ok a, cursor) => .ok a { p with cursor }
  | (.error e, cursor) => .error e { p with cursor }

/-- Reads a token. -/
def token : Reading Token := onCursor (·.read true)

/-- The next token, which is not read. -/
def peek : Reading Token := do ofExcept (← get).cursor.peek

/-- Whether the next token is this symbol or reserved word. -/
def peekIs (expected : String) : Reading Bool := do pure ((← peek).is expected)

/-- Reads the next token if it is this symbol or reserved word. -/
def accept (expected : String) : Reading Bool := onCursor (·.readSymbol expected)

/-- Reads a symbol, also from the front of a longer one. -/
def acceptFront (expected : String) : Reading Bool := onCursor (·.readSymbolFront expected)

/-- Reads the next token, which has to be this symbol or reserved word. -/
def expect (expected : String) : Reading Unit := onCursor (·.expectSymbol expected)

/-- The offset behind the token that was read last. -/
def offset : Reading Nat := do pure (← get).cursor.offset

/-- Whether there is no further token. -/
def atEnd : Reading Bool := do ofExcept (← get).cursor.atEnd

/-- Whether the next token ends a statement. -/
def atStatementEnd : Reading Bool := do
  let t ← peek
  pure (t.isEof || t.is ";" || t.is "\x7d")

/-- The refusal of a text that lacks a closing mark. -/
def missing (expected : String) : Reading α := do throw (.missingClosing (← offset) expected)

/-- Reads a name. -/
def identifier : Reading Token := do
  let t ← token
  if t.kind.isIdentifier then pure t else throw (.wrongSymbol t.start "identifier" t.found)

/-- Reads the name of a member, for which reserved words will do. -/
def memberName : Reading Token := do
  let t ← token
  if t.isWord then pure t else throw (.wrongSymbol t.start "member name" t.found)

/-! ## Going back -/

/-- Moves the cursor. -/
def onPlace (f : Cursor → Cursor) : Reading Unit :=
  modify fun p => { p with cursor := f p.cursor }

/-- The place of the cursor. -/
def here : Reading Place := do pure (← get).cursor.place

/-- Puts the cursor at a place. -/
def moveTo (place : Place) : Reading Unit := onPlace ({ · with place })

/-- Tries a reading. If it declines, the cursor goes back. -/
def attempt (r : Reading (Option α)) : Reading (Option α) := do
  onPlace Cursor.push
  match ← r with
  | some a =>
    onPlace Cursor.discard
    pure (some a)
  | none =>
    onPlace Cursor.pop
    pure none

/-- Reads ahead, and goes back. -/
def ahead (r : Reading α) : Reading α := do
  onPlace Cursor.push
  let a ← r
  onPlace Cursor.pop
  pure a

/-- Reads with another cursor, and then goes on where it was. -/
def elsewhere (cursor : Cursor) (r : Reading α) : Reading α := fun p =>
  match r { p with cursor } with
  | .ok a q => .ok a { q with cursor := p.cursor }
  | .error e q => .error e { q with cursor := p.cursor }

/-- What a reading comes to, be it a failure. -/
def outcome (r : Reading α) : Reading (Except Error α) := fun p =>
  match r p with
  | .ok a q => .ok (.ok a) q
  | .error e q => .ok (.error e) q

/-! ## Scopes -/

/-- Changes the scopes. -/
def onScopes (f : Scopes → α × Scopes) : Reading α := fun p =>
  let (a, scopes) := f p.scopes
  .ok a { p with scopes }

/-- A new variable. -/
def freshVariable (name : String) (type : Ty) : Reading Variable :=
  onScopes (·.freshVariable name type)

/-- A new label. -/
def freshLabel (name : String) : Reading Label := onScopes (·.freshLabel name)

/-- Declares the variable that a token names. -/
def declare (name : Token) (type : Ty) : Reading Variable := do
  let p ← get
  let (v, scopes) ← ofExcept (p.scopes.declare name.word type name.start)
  set { p with scopes }
  pure v

/-- The variable that a name means. -/
def lookup? (name : String) : Reading (Option Variable) := do pure ((← get).scopes.lookup? name)

/-- Leaves the innermost scope. -/
def leave : Reading (Option Scope) := onScopes (·.leave)

/-- Reads within a scope, and gives the variables that it holds in the end. -/
def within (scope : Scope) (r : Reading α) : Reading (α × List Variable) := do
  modify fun p => { p with scopes := p.scopes.enter scope }
  let result ← outcome r
  let left ← leave
  let a ← ofExcept result
  pure (a, (left.map (·.locals)).getD [])

/-! ## Repetition -/

/-- What one round of a repetition leads to. -/
inductive Round (α β : Type)
  | again (state : α)
  | done (result : β)

/-- Repeats a reading for at most a number of rounds. -/
def iterateWithin (round : α → Reading (Round α β)) : (rounds : Nat) → α → Reading β
  | 0, _ => do throw (.wrongSymbol (← offset) "end of input" "")
  | rounds + 1, a => do
    match ← round a with
    | .again a => iterateWithin round rounds a
    | .done b => pure b

/-- Repeats a reading that reads a token in every round but the last. -/
def iterate (round : α → Reading (Round α β)) (a : α) : Reading β := do
  iterateWithin round ((← get).cursor.remaining.length + 1) a

/-- Reads items until there are no more. -/
def gather (item : Reading (Option α)) : Reading (List α) :=
  List.reverse <$> iterate (fun items => do
    match ← item with
    | some a => pure (.again (a :: items))
    | none => pure (.done items)) []

/-- Reads items that are parted by commas. -/
def separated (item : Reading α) : Reading (List α) :=
  List.reverse <$> iterate (fun items => do
    let a ← item
    if ← accept "," then pure (.again (a :: items)) else pure (.done (a :: items))) []

end Reading

end Scriptlet
