import Scriptlet.Constant
import Scriptlet.Expr.Basic
import Scriptlet.Fault

/-!
# Values

What a running program computes with. Truth values, characters, numbers and
strings are values in themselves. Arrays, lists, objects, enumerators and functions
are shared: a value only refers to one, by its number in the store (`Store`), and
what is changed through one reference is seen through all. Two references are equal
if they refer to the same thing.

Variables are kept in frames, each within another (`Frames`, in `Value.Frames`).
-/

namespace Scriptlet

/-- A value of a running program. -/
inductive Value
  | null
  | bool (value : Bool)
  | char (value : Char)
  | number (value : Number)
  | string (value : String)
  | array (ref : Nat)
  | list (ref : Nat)
  | object (ref : Nat)
  | enumerator (ref : Nat)
  | function (ref : Nat)
  deriving Inhabited

/-- A rectangular array. The items are in the order of their indices, the last of
    which counts up first. -/
structure ArrayData where
  element : Ty
  dims : List Nat
  items : List Value
  deriving Inhabited

/-- An object, with its fields in the order in which they were set first. -/
structure ObjectData where
  typeName : String
  fields : List (String × Value)
  deriving Inhabited

/-- The items that an enumerator goes through, and which one is current. -/
structure EnumeratorData where
  items : List Value
  position : Option Nat := none
  deriving Inhabited

/-- A function, with the frame that it was made in. -/
structure FunctionData where
  lambda : Lambda
  frame : Nat
  deriving Inhabited

/-- The variables of a scope, known by their numbers, and the frame around it. -/
structure Frame where
  slots : List (Nat × Value) := []
  enclosing : Option Nat := none
  deriving Inhabited

/-- All that values refer to. -/
structure Store where
  arrays : Array ArrayData := #[]
  lists : Array (List Value) := #[]
  objects : Array ObjectData := #[]
  enumerators : Array EnumeratorData := #[]
  functions : Array FunctionData := #[]
  frames : Array Frame := #[]
  deriving Inhabited

namespace Store

variable (s : Store)

/-! ## New things -/

/-- A new array. -/
def newArray (a : ArrayData) : Value × Store :=
  (.array s.arrays.size, { s with arrays := s.arrays.push a })

/-- A new list. -/
def newList (items : List Value) : Value × Store :=
  (.list s.lists.size, { s with lists := s.lists.push items })

/-- A new object. -/
def newObject (o : ObjectData) : Value × Store :=
  (.object s.objects.size, { s with objects := s.objects.push o })

/-- A new enumerator, in front of its first item. -/
def newEnumerator (items : List Value) : Value × Store :=
  (.enumerator s.enumerators.size, { s with enumerators := s.enumerators.push { items } })

/-- A new function. -/
def newFunction (f : FunctionData) : Value × Store :=
  (.function s.functions.size, { s with functions := s.functions.push f })

/-! ## What is referred to -/

/-- The array with a number. -/
def array (ref : Nat) : ArrayData := s.arrays.getD ref default

/-- The items of the list with a number. -/
def list (ref : Nat) : List Value := s.lists.getD ref []

/-- The object with a number. -/
def object (ref : Nat) : ObjectData := s.objects.getD ref default

/-- The enumerator with a number. -/
def enumerator (ref : Nat) : EnumeratorData := s.enumerators.getD ref default

/-- The function with a number. -/
def function (ref : Nat) : FunctionData := s.functions.getD ref default

/-- Changes the array with a number. -/
def setArray (ref : Nat) (a : ArrayData) : Store :=
  { s with arrays := s.arrays.setIfInBounds ref a }

/-- Changes the items of the list with a number. -/
def setList (ref : Nat) (items : List Value) : Store :=
  { s with lists := s.lists.setIfInBounds ref items }

/-- Changes the object with a number. -/
def setObject (ref : Nat) (o : ObjectData) : Store :=
  { s with objects := s.objects.setIfInBounds ref o }

/-- Changes the enumerator with a number. -/
def setEnumerator (ref : Nat) (e : EnumeratorData) : Store :=
  { s with enumerators := s.enumerators.setIfInBounds ref e }

end Store

/-! ## Arrays -/

namespace ArrayData

/-- The place of an item with these indices, among arrays of these dimensions, if
    the indices are within them; `first` is the place so far. -/
def place? (first : Nat) : (dims : List Nat) → (indices : List Int) → Option Nat
  | [], _ => some first
  | _ :: _, [] => some first
  | dim :: dims, i :: indices =>
    if 0 ≤ i ∧ i < dim then place? (first * dim + i.toNat) dims indices else none

/-- The place of the item with these indices. -/
def slot (a : ArrayData) (indices : List Int) : Except Fault Nat :=
  if indices.length ≠ a.dims.length then throw (.arrayRank a.dims.length indices.length)
  else
    match place? 0 a.dims indices with
    | some i => pure i
    | none => throw .arrayBounds

end ArrayData

/-! ## Objects -/

/-- Sets a field. A new one comes last. -/
def setField (name : String) (v : Value) : List (String × Value) → List (String × Value)
  | [] => [(name, v)]
  | (n, w) :: fields => if n = name then (n, v) :: fields else (n, w) :: setField name v fields

/-! ## Enumerators -/

namespace EnumeratorData

/-- Goes to the next item; says whether there is one. -/
def moveNext (e : EnumeratorData) : Bool × EnumeratorData :=
  let next := (e.position.map (· + 1)).getD 0
  (decide (next < e.items.length), { e with position := some (min next e.items.length) })

/-- The current item. -/
def current (e : EnumeratorData) : Except Fault Value :=
  match e.position.bind fun i => e.items[i]? with
  | some v => pure v
  | none => throw .enumerationPosition

end EnumeratorData

/-! ## Constants and equality -/

/-- A constant as a value. -/
def Constant.toValue : Constant → Value
  | null => .null
  | bool b => .bool b
  | char c => .char c
  | number n => .number n
  | string s => .string s

namespace Value

/-- The value that a variable of a type has at first. -/
def defaultOf : Ty → Value
  | .numeric k => number ((Number.int 0).convert k)
  | .bool => bool false
  | .char => char (Char.ofNat 0)
  | _ => null

/-- Whether a value is the missing one. -/
def isNull : Value → Bool
  | null => true
  | _ => false

/-- The number that a value is. A character counts as one of sixteen bits. -/
def number? : Value → Option Number
  | number n => some n
  | char c => some (.ofInt .ushort c.toNat)
  | _ => none

/-- Whether two values are equal. Numbers are compared across kinds, and characters
    with numbers. -/
def equal : Value → Value → Bool
  | null, null => true
  | bool a, bool b => a == b
  | char a, char b => a == b
  | string a, string b => a == b
  | array a, array b | list a, list b | object a, object b | enumerator a, enumerator b
  | function a, function b => a == b
  | number a, number b => Number.compare a b == some .eq
  | char c, number b => Number.compare (.ofInt .ushort c.toNat) b == some .eq
  | number a, char c => Number.compare a (.ofInt .ushort c.toNat) == some .eq
  | _, _ => false

end Value

end Scriptlet
