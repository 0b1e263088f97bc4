import Scriptlet.Evaluation.Basic
import Scriptlet.Text.LetterCase
import Scriptlet.Value.Format

/-!
# Operations on texts

The methods of the library on strings and characters.
-/

namespace Scriptlet

open Text Run

namespace Textual

/-- A text as a value. -/
def text (s : List Char) : Run Value := pure (.string (String.ofList s))

/-- The characters of a string among the arguments. -/
def chars (args : List Value) (i : Nat) : Run (List Char) :=
  String.toList <$> argAs Store.asString args i

/-- The code by which texts are told apart quickly. -/
def hashText (s : List Char) : Int := s.foldl (fun h c => (h * 31 + c.toNat) % 4294967296) 7

/-- The character with an index. -/
def charAt (s : List Char) (i : Int) : Except Fault Value :=
  if i < 0 then throw .arrayBounds
  else
    match s[i.toNat]? with
    | some c => pure (.char c)
    | none => throw .arrayBounds

/-- The part of a text from a place on, of a length. -/
def substring (s : List Char) (start length : Int) : Except Fault (List Char) :=
  if start < 0 ∨ length < 0 ∨ s.length < start + length then throw .stringRange
  else pure ((s.drop start.toNat).take length.toNat)

/-- The place of a text in another. -/
def indexOf (s needle : List Char) : Int :=
  match find? needle s with
  | some i => i
  | none => -1

/-- The texts of values. -/
def texts (vs : List Value) : Run (List String) := do
  let s ← get
  pure (vs.map s.display)

end Textual

end Scriptlet
