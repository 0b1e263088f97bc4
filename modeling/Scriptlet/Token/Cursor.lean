import Scriptlet.Token.Literal
import Scriptlet.Token.Symbol

/-!
# Reading tokens on demand

A `Cursor` stands at a token of a source: the bytes from `index` on, `length`
many. Reading goes on behind it (`Cursor.read`); nothing is read ahead. Places
to come back to are kept on a stack (`Cursor.push`, `Cursor.pop`,
`Cursor.discard`).

A reading that fails leaves the cursor behind the blanks and comments that it
has skipped, at a token of no length.
-/

namespace Scriptlet

open Text

/-- A place in a source: where the current token starts and how long it is. -/
structure Place where
  index : Nat
  length : Nat
  deriving DecidableEq, Repr

/-- A source that is being read. -/
structure Cursor where
  source : List Char
  /-- The place of the source in a larger one; offsets in tokens and errors count
      from the start of that. -/
  base : Nat
  place : Place
  saved : List Place
  readers : List Reader
  symbols : SymbolTree
  /-- Whether an iteration over the tokens has come to its end. -/
  finished : Bool

namespace Cursor

/-- The cursor at the start of a source. -/
def ofSource (source : List Char) (base : Nat) : Cursor where
  source := source
  base := base
  place := ⟨0, 0⟩
  saved := []
  readers := Reader.standard
  symbols := .standard
  finished := false

/-- The offset just behind the current token. -/
def offset (c : Cursor) : Nat := c.base + c.place.index + c.place.length

/-- The source behind the current token. -/
def remaining (c : Cursor) : List Char := dropBytes (c.place.index + c.place.length) c.source

/-- Keeps the current place. -/
def push (c : Cursor) : Cursor := { c with saved := c.place :: c.saved }

/-- Goes back to the place that was kept last. -/
def pop (c : Cursor) : Cursor :=
  match c.saved with
  | [] => c
  | p :: ps => { c with place := p, saved := ps }

/-- Forgets the place that was kept last. -/
def discard (c : Cursor) : Cursor := { c with saved := c.saved.tail }

/-! ## Tokens -/

/-- What the first of some readers finds that does not decline. -/
def ask (offset : Nat) (rest : List Char) : List Reader → Finding
  | [] => pure none
  | r :: rs => do
    match ← r.read offset rest with
    | some found => pure (some found)
    | none => ask offset rest rs

/-- The token at the front of a text that stands at `offset` and does not start
    with a blank. -/
def front (readers : List Reader) (symbols : SymbolTree) (offset : Nat) (rest : List Char) :
    Except Error Token := do
  match ← ask offset rest readers with
  | some (n, kind) => pure ⟨kind, rest.take n, offset⟩
  | none =>
    match symbols.longestMatch? rest with
    | some n => pure ⟨.symbol, takeBytes n rest, offset⟩
    | none => throw (.unknownSymbol offset (String.ofList (rest.take 16)))

/-- The next token of a text that stands at `index`, with the place it has. If
    `skip`, blanks and comments are passed over; each takes a character at
    least, so `steps` need not be more than there are characters. -/
def scan (c : Cursor) (skip : Bool) : (steps index : Nat) → List Char → Except Error Token × Place
  | _, index, [] => (pure ⟨.eof, [], c.base + byteSize c.source⟩, ⟨index, 0⟩)
  | 0, index, _ :: _ => (pure ⟨.eof, [], c.base + byteSize c.source⟩, ⟨index, 0⟩)
  | steps + 1, index, d :: rest =>
    if isBlank d then
      if skip then scan c skip steps (index + d.utf8Size) rest
      else
        let lexeme := (d :: rest).takeWhile isBlank
        (pure ⟨.blank, lexeme, c.base + index⟩, ⟨index, byteSize lexeme⟩)
    else
      match front c.readers c.symbols (c.base + index) (d :: rest) with
      | .error e => (throw e, ⟨index, 0⟩)
      | .ok t =>
        if skip && t.kind.isComment then
          scan c skip steps (index + byteSize t.lexeme) ((d :: rest).drop t.lexeme.length)
        else (pure t, ⟨index, byteSize t.lexeme⟩)

/-- Reads the next token. -/
def read (c : Cursor) (skip : Bool) : Except Error Token × Cursor :=
  let rest := c.remaining
  let (result, place) := c.scan skip rest.length (c.place.index + c.place.length) rest
  (result, { c with place })

/-- The next token; the cursor stays where it is. -/
def peek (c : Cursor) : Except Error Token := (c.read true).1

/-- Whether there is no further token. -/
def atEnd (c : Cursor) : Except Error Bool := Token.isEof <$> c.peek

/-- Reads the next token if it is this symbol or reserved word. -/
def readSymbol (c : Cursor) (expected : String) : Except Error Bool × Cursor :=
  match c.read true with
  | (.error e, _) => (throw e, c)
  | (.ok t, d) => if t.is expected then (pure true, d) else (pure false, c)

/-- Reads the next token, which has to be this symbol or reserved word. -/
def expectSymbol (c : Cursor) (expected : String) : Except Error Unit × Cursor :=
  match c.read true with
  | (.error e, _) => (throw e, c)
  | (.ok t, d) =>
    if t.is expected then (pure (), d)
    else (throw (.wrongSymbol t.start expected t.found), c)

/-- Reads a symbol, also from the front of a longer one, of which the rest is
    left: two closing brackets may be written like a shift. -/
def readSymbolFront (c : Cursor) (expected : String) : Except Error Bool × Cursor :=
  match c.peek with
  | .error e => (throw e, c)
  | .ok t =>
    if t.kind.isSymbol && expected.length < t.lexeme.length &&
        startsWith expected.toList t.lexeme then
      (pure true, { c with place := ⟨t.start - c.base, byteSize expected.toList⟩ })
    else c.readSymbol expected

/-- Iterates over the tokens, up to the end of the source or the first error. -/
def next (c : Cursor) : Option (Except Error Token) × Cursor :=
  if c.finished then (none, c) else
    let (result, d) := c.read true
    match result with
    | .ok t => (some result, { d with finished := t.isEof })
    | .error _ => (some result, { d with finished := true })

/-- All tokens of a source, with the end or the first error as the last one. Every
    token takes a character at least, so `steps` need not be more than there are
    characters, and one more. -/
def tokens (skip : Bool) : (steps : Nat) → Cursor → List (Except Error Token)
  | 0, _ => []
  | steps + 1, c =>
    let (result, d) := c.read skip
    match result with
    | .error _ => [result]
    | .ok t => if t.isEof then [result] else result :: tokens skip steps d

end Cursor

/-- All tokens of a source. -/
def tokenize (c : Cursor) (skip : Bool) : List (Except Error Token) :=
  c.tokens skip (c.remaining.length + 1)

end Scriptlet
