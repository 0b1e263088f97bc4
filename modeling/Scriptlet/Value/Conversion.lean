import Scriptlet.Value.Text

/-!
# Conversions of values

A value is taken for a truth value, a number, a string, a function or a sequence
where an operation needs one (`Store.asBool` and so on), which faults if it is
something else. It is converted where it is put into a variable of a type
(`Value.convertTo`).
-/

namespace Scriptlet

namespace Store

variable (s : Store)

/-- The fault of a value that is not what it is taken for. -/
def unexpected {α : Type} (wanted : String) (v : Value) : Except Fault α :=
  throw (.expected wanted (s.typeName v))

/-- A value as a truth value. -/
def asBool : Value → Except Fault Bool
  | .bool b => pure b
  | v => s.unexpected "bool" v

/-- A value as a character. -/
def asChar : Value → Except Fault Char
  | .char c => pure c
  | v => s.unexpected "char" v

/-- A value as a number. -/
def asNumber (v : Value) : Except Fault Number :=
  match v.number? with
  | some n => pure n
  | none => s.unexpected "a number" v

/-- A value as a real number. -/
def asDouble (v : Value) : Except Fault Float := Number.toDouble <$> s.asNumber v

/-- A value as an index, of sixty-four bits. -/
def asIndex (v : Value) : Except Fault Int := do
  match (← s.asNumber v).toInt? with
  | some i => pure (i.bmod (Nat.pow 2 64))
  | none => throw .indexNotIntegral

/-- A value as a string. -/
def asString : Value → Except Fault String
  | .string t => pure t
  | v => s.unexpected "string" v

/-- The number of the function that a value refers to. -/
def asFunction : Value → Except Fault Nat
  | .function r => pure r
  | v => s.unexpected "a delegate" v

/-- The number of the list that a value refers to. -/
def asList : Value → Except Fault Nat
  | .list r => pure r
  | v => s.unexpected "List" v

/-- The number of the array that a value refers to. -/
def asArray : Value → Except Fault Nat
  | .array r => pure r
  | v => s.unexpected "array" v

/-- The number of the enumerator that a value refers to. -/
def asEnumerator : Value → Except Fault Nat
  | .enumerator r => pure r
  | v => s.unexpected "IEnumerator" v

/-- The items of a sequence, as they are now. -/
def items : Value → Except Fault (List Value)
  | .list r => pure (s.list r)
  | .array r => pure (s.array r).items
  | .string t => pure (t.toList.map .char)
  | .enumerator r => pure (s.enumerator r).items
  | .null => throw .nullValue
  | v => throw (.notEnumerable (s.typeName v))

end Store

namespace Value

/-- The character with a code. -/
def charOf (code : Int) : Except Fault Value :=
  if 0 ≤ code ∧ code.toNat.isValidChar then pure (char (Char.ofNat code.toNat))
  else throw (.charCode code)

/-- A value converted to a type that has no missing value of its own. -/
def convertPlain (v : Value) (t : Ty) : Except Fault Value :=
  match t, v with
  | .numeric k, number n => pure (number (n.convert k))
  | .numeric k, char c => pure (number ((Number.ofInt .uint c.toNat).convert k))
  | .char, number n => charOf ((n.convert .uint).toInt?.getD 0)
  | _, v => pure v

/-- A value as one of a type. The missing value is one of every type; between
    references nothing changes. -/
def convertTo (v : Value) : Ty → Except Fault Value
  | .nullable t => convertTo v t
  | t => v.convertPlain t

end Value

end Scriptlet
