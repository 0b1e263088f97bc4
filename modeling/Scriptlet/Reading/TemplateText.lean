import Scriptlet.Reading.Call
import Scriptlet.Template

/-!
# Templates as expressions

A template is the concatenation of its parts. A hole with an alignment or a format
is formatted first, with a format text for one value that has both.
-/

namespace Scriptlet

open Text

/-- The format text for one value. -/
def holeFormat (alignment : Option Int) (format : Option (List Char)) : String :=
  let width := (alignment.map fun n => ',' :: intDigits n).getD []
  let style := (format.map fun f => ':' :: f).getD []
  String.ofList ('\x7b' :: '0' :: width ++ style ++ ['\x7d'])

namespace Grammar

open Reading

variable (g : Grammar)

/-- Reads the expression in a hole. -/
def hole (text : List Char) (offset : Nat) : Reading Expr :=
  elsewhere (.ofSource text offset) do
    let e ← g.expression
    let next ← peek
    if next.isEof then pure e else throw (.unknownSymbol next.start next.word)

/-- The value of a hole, formatted if wanted. -/
def formatted (e : Expr) (alignment : Option Int) (format : Option (List Char)) (offset : Nat) :
    Reading Expr :=
  if alignment.isSome || format.isSome then
    g.staticCall .string "Format" [] [.typed (.string (holeFormat alignment format)), .typed e]
      offset
  else pure e

/-- Reads a part of a template; an empty text is no part. -/
def templatePart : Segment → Reading (Option Expr)
  | .literal [] => pure none
  | .literal text => pure (some (.string (String.ofList text)))
  | .hole text offset alignment format => do
    let e ← g.formatted (← g.hole text offset) alignment format offset
    pure (some (e.coerce .object))

/-- Reads the parts of a template. -/
def template (t : Token) : Reading Expr := do
  let segments ← ofExcept (Template.split t.lexeme t.start)
  let parts ← segments.filterMapM g.templatePart
  match parts with
  | [] => pure (.string "")
  | [e] => if e.type = .string then pure e else concat [e]
  | es => concat es
where
  /-- The concatenation of parts. -/
  concat (parts : List Expr) : Reading Expr :=
    g.staticCall .string "Concat" [] (parts.map .typed) t.start

end Grammar

end Scriptlet
