import Scriptlet.Options.Basic
import Scriptlet.Reading.Statement

/-!
# Programs

A program is a list of statements, with parameters and an arrow in front if wanted;
without them, its parameters are those of the options. The value of the last
statement is its result.

The grammar is put together level by level (`Surroundings.grammar`): on each level,
parts are read by the level below. A part starts further on in the source than the
whole it is a part of, except that a statement may start with an expression. So
twice as many levels as there are characters are enough, and a program is read on
the level above those (`parse`).
-/

namespace Scriptlet

open Reading

/-- The refusal of parts that are nested too deep. -/
def Reading.tooDeep {α : Type} : Reading α := do throw (.unknownSymbol (← offset) "")

/-- The grammar for constructs that are nested at most so many levels deep. -/
def Surroundings.grammar (s : Surroundings) : (levels : Nat) → Grammar
  | 0 => { s with operand := fun _ _ => tooDeep, statement := tooDeep }
  | levels + 1 =>
    let inner := s.grammar levels
    { s with operand := inner.anyOperand, statement := inner.anyStatement }

namespace Grammar

/-- Reads statements up to the end of the source. -/
def statementsToEnd (g : Grammar) : Reading Expr := do
  match ← gather (do if ← atEnd then pure none else some <$> g.statement) with
  | [] => throw (.wrongSymbol (← offset) "expression" "end of input")
  | [e] => pure e
  | es => pure (.blockOf [] es)

end Grammar

namespace Options

variable (o : Options) (d : Directory)

/-- A parameter that is written in front of a program. -/
def writtenParameter (p : Option Ty × String) : Reading Variable := do
  let type ←
    match p.1 with
    | some t => pure t
    | none =>
      match o.parameters.find? fun q => q.name == p.2 with
      | some q => namedType d q.type
      | none => namedType d o.defaultParameterType
  freshVariable p.2 type

/-- The parameters of a program. -/
def programParameters : Reading (List Variable) := do
  match ← head d with
  | some params => params.mapM (o.writtenParameter d)
  | none => o.parameters.mapM fun p => do freshVariable p.name (← namedType d p.type)

/-- What names in a program with these parameters may refer to. -/
def surroundings (params : List Variable) : Reading Surroundings := do
  let receiver ← o.defaultReceiver.mapM fun name =>
    match params.find? fun p => p.name == name with
    | some p => pure (.parameter p)
    | none => throw (.misuse 0 (.receiverNotParameter name))
  let staticType ← o.staticType.mapM (namedType d)
  pure { directory := d, receiver, staticType }

/-- Reads a program whose parts are nested at most so many levels deep. -/
def program (levels : Nat) : Reading Lambda := do
  let params ← o.programParameters d
  modify fun p => { p with scopes := { p.scopes with parameters := params } }
  let s ← o.surroundings d params
  let ret ← o.returnType.mapM (namedType d)
  let g := s.grammar levels
  g.withinLambda params ret 0 g.statementsToEnd

end Options

/-- Reads a program. Variables and labels are numbered from `first` on; the next
    number is given with the program. -/
def parse (d : Directory) (o : Options) (first : Nat) (source : String) :
    Except Error (Lambda × Nat) :=
  let text := source.toList
  match o.program d (2 * text.length + 2)
    { cursor := .ofSource text 0, scopes := { next := first } } with
  | .ok l p => .ok (l, p.scopes.next)
  | .error e _ => .error e

end Scriptlet
