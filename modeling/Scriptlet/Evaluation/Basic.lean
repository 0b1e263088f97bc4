import Scriptlet.Halt
import Scriptlet.Value.Conversion
import Scriptlet.Value.Frames

/-!
# Running

Something that runs changes the store, and comes to a value unless it is stopped: by
an error, or because it has taken as many steps as it was given (`Halt`). What was
changed before it stopped stays changed.

Some operations are not part of the language but of the program it is used in, its
host (`Host`); methods and properties refer to them by name.
-/

namespace Scriptlet

/-- Something that runs. -/
abbrev Run := EStateM Halt Store

namespace Run

variable {α : Type}

/-- Stops with a fault. -/
def fault (f : Fault) : Run α := throw (.error (.fault f))

/-- A result that may be a fault. -/
def ofFault : Except Fault α → Run α
  | .ok a => pure a
  | .error f => fault f

/-- Looks into the store. -/
def look (f : Store → Except Fault α) : Run α := do ofFault (f (← get))

/-- Makes something new. -/
def make (f : Store → Value × Store) : Run Value := fun s =>
  let (v, s) := f s
  .ok v s

/-- The text of a value. -/
def display (v : Value) : Run String := do pure ((← get).display v)

/-- The argument with a number. -/
def arg (args : List Value) (i : Nat) : Run Value :=
  match args[i]? with
  | some v => pure v
  | none => fault (.missingArgument i)

/-- The argument with a number, as what it is taken for. -/
def argAs (f : Store → Value → Except Fault α) (args : List Value) (i : Nat) : Run α := do
  let v ← arg args i
  look fun s => f s v

end Run

/-- The operations of a host. -/
structure Host where
  /-- Calls the method with a name. -/
  call : String → List Value → Run Value
  /-- Reads the property with a name. -/
  get : String → Value → Run Value

/-- The host without operations. -/
def Host.none : Host where
  call name _ := Run.fault (.host name)
  get name _ := Run.fault (.host name)

end Scriptlet
