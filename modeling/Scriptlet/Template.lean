import Scriptlet.Token.Quoted
import Scriptlet.Text.Property

/-!
# String templates

The body of a template is a sequence of literal texts and holes. Doubled braces
stand for braces; a hole is an expression, with an alignment behind a comma and
a format behind a colon if wanted.

A hole keeps the text of its expression and where that stands in the source
(`Segment.hole`), so the expression can be read in place. `Template.segments`
cuts a body into its segments, and `Template.split` a whole literal.
-/

namespace Scriptlet

open Text

/-- A part of a template. -/
inductive Segment
  /-- Literal text, with braces and escapes decoded. -/
  | literal (text : List Char)
  /-- An expression, with its place in the source. -/
  | hole (text : List Char) (offset : Nat) (alignment : Option Int) (format : Option (List Char))
  deriving DecidableEq, Repr

namespace Template

/-! ## Literal texts -/

/-- The literal text at the front of a body that stands at `offset`, up to a hole
    or the end, with doubled braces made single; and the number of characters it
    takes. -/
def literalRun (style : StringStyle) : (offset : Nat) → List Char → Except Error (List Char × Nat)
  | _, [] => pure ([], 0)
  | offset, c :: cs =>
    if c = '\\' ∧ style = .quoted then
      match cs with
      | [] => pure ([c], 1)
      | d :: ds => do
        let (text, n) ← literalRun style (offset + 1 + d.utf8Size) ds
        pure (c :: d :: text, n + 2)
    else if c = '\x7b' ∨ c = '\x7d' then
      match cs with
      | d :: ds =>
        if c = d then do
          let (text, n) ← literalRun style (offset + 2) ds
          pure (c :: text, n + 2)
        else if c = '\x7b' then pure ([], 0)
        else throw (.malformedTemplate offset .strayBrace)
      | [] =>
        if c = '\x7b' then pure ([], 0) else throw (.malformedTemplate offset .strayBrace)
    else do
      let (text, n) ← literalRun style (offset + c.utf8Size) cs
      pure (c :: text, n + 1)

/-- Reads a literal text: the segment and the number of characters it takes. -/
def literal (style : StringStyle) (offset : Nat) (body : List Char) :
    Except Error (Segment × Nat) := do
  let (text, n) ← literalRun style offset body
  match style with
  | .quoted => do pure (.literal (← unescape text offset), n)
  | style => pure (.literal (style.decode text), n)

/-! ## Holes -/

/-- The number of characters up to and with the mark that ends a literal within a
    hole. -/
def closeLiteral? (mark : Char) : List Char → Option Nat
  | [] => none
  | c :: cs =>
    if c = '\\' then
      match cs with
      | [] => none
      | _ :: ds => (closeLiteral? mark ds).map (· + 2)
    else if c = mark then some 1
    else (closeLiteral? mark cs).map (· + 1)

/-- The places in a hole, in characters behind its opening brace. -/
structure HoleMarks where
  comma : Option Nat
  colon : Option Nat
  close : Nat
  deriving DecidableEq, Repr

/-- Looks for the places in a hole that was opened at `start`; `i` characters of it
    have been passed, `depth` brackets deep. The expression ends at the first
    comma or colon outside of brackets; behind a colon only the closing brace
    counts. -/
def holeMarks (start : Nat) : (steps offset i depth : Nat) → (comma colon : Option Nat) →
    List Char → Except Error HoleMarks
  | 0, _, _, _, _, _, _ => throw (.malformedTemplate start .unclosedHole)
  | _, _, _, _, _, _, [] => throw (.malformedTemplate start .unclosedHole)
  | steps + 1, offset, i, depth, comma, colon, c :: cs =>
    let go := holeMarks start steps (offset + c.utf8Size) (i + 1)
    if colon.isSome then
      if c = '\x7d' then pure ⟨comma, colon, i⟩ else go depth comma colon cs
    else if c = '"' ∨ c = '\'' then
      match closeLiteral? c cs with
      | none => throw (.malformedTemplate offset .unterminatedLiteral)
      | some n =>
        holeMarks start steps (offset + 1 + byteSize (cs.take n)) (i + 1 + n) depth comma colon
          (cs.drop n)
    else if c = '(' ∨ c = '[' ∨ c = '\x7b' then go (depth + 1) comma colon cs
    else if c = ')' ∨ c = ']' then go (depth - 1) comma colon cs
    else if c = '\x7d' then
      if depth = 0 then pure ⟨comma, colon, i⟩ else go (depth - 1) comma colon cs
    else if c = ',' ∧ depth = 0 ∧ comma.isNone then go depth (some i) colon cs
    else if c = ':' ∧ depth = 0 then go depth comma (some i) cs
    else go depth comma colon cs

/-- The least and the greatest alignment. -/
def alignmentRange : Int × Int := (IntKind.int.least, IntKind.int.greatest)

/-- Reads a hole, whose opening brace stands at `offset` in front of `inner`: the
    segment and the number of characters it takes. -/
def hole (offset : Nat) (inner : List Char) : Except Error (Segment × Nat) := do
  let marks ← holeMarks offset inner.length (offset + 1) 0 0 none none inner
  let whole := inner.take (((marks.comma.or marks.colon).getD marks.close))
  let text := trim whole
  if text.isEmpty then throw (.malformedTemplate offset .emptyHole) else
    let start := offset + 1 + (byteSize whole - byteSize (trimStart whole))
    let format := marks.colon.map fun c => (inner.take marks.close).drop (c + 1)
    match marks.comma with
    | none => pure (.hole text start none format, marks.close + 2)
    | some c =>
      let digits := trim ((inner.take (marks.colon.getD marks.close)).drop (c + 1))
      match readIntWithin? alignmentRange.1 alignmentRange.2 digits with
      | some n => pure (.hole text start (some n) format, marks.close + 2)
      | none =>
        throw (.malformedTemplate (offset + 1 + byteSize (inner.take c)) .alignment)

/-! ## Templates -/

/-- The segment at the front of a body, and the number of characters it takes. -/
def segment (style : StringStyle) (offset : Nat) : List Char → Except Error (Segment × Nat)
  | '\x7b' :: '\x7b' :: cs => literal style offset ('\x7b' :: '\x7b' :: cs)
  | '\x7b' :: cs => hole offset cs
  | cs => literal style offset cs

/-- The segments of a body that stands at `offset`; an error is the last one. Every
    segment takes a character at least, so `steps` need not be more than there
    are characters. -/
def segmentsFrom (style : StringStyle) :
    (steps offset : Nat) → List Char → List (Except Error Segment)
  | 0, _, _ => []
  | _, _, [] => []
  | steps + 1, offset, c :: cs =>
    match segment style offset (c :: cs) with
    | .error e => [throw e]
    | .ok (s, n) =>
      pure s :: segmentsFrom style steps (offset + byteSize ((c :: cs).take n)) ((c :: cs).drop n)

/-- The segments of a body that stands at `offset`; an error is the last one. -/
def segments (style : StringStyle) (offset : Nat) (body : List Char) :
    List (Except Error Segment) :=
  segmentsFrom style body.length offset body

/-- The segments of a template literal that stands at `start`. -/
def split (lexeme : List Char) (start : Nat) : Except Error (List Segment) :=
  match Delimiters.of? lexeme with
  | some d =>
    if d.template then (segments d.style (start + d.opening) (d.body lexeme)).mapM id
    else throw (.malformedTemplate start .notATemplate)
  | none => throw (.malformedTemplate start .notATemplate)

end Template

end Scriptlet
