import Scriptlet.Number.Arith
import Scriptlet.Ty

/-!
# Constants

The values that a program can write down, and that the catalog has under names:
they are complete in themselves and refer to nothing.
-/

namespace Scriptlet

/-- A constant value. -/
inductive Constant
  | null
  | bool (value : Bool)
  | char (value : Char)
  | number (value : Number)
  | string (value : String)

namespace Constant

/-- The type of a constant. -/
def type : Constant → Ty
  | null => .null
  | bool _ => .bool
  | char _ => .char
  | number n => .numeric n.kind
  | string _ => .string

/-- Whether two constants are the same; numbers are if they have one kind and one
    value. -/
def same : Constant → Constant → Bool
  | null, null => true
  | bool a, bool b => a == b
  | char a, char b => a == b
  | number a, number b => a.identical b
  | string a, string b => a == b
  | _, _ => false

end Constant

end Scriptlet
