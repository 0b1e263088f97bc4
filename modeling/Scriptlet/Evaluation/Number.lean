import Scriptlet.Evaluation.Basic

/-!
# Operations on numbers

The methods of the library that compute with numbers, read them from texts and
convert to them.
-/

namespace Scriptlet

open Text Run

namespace Numeric

/-- A real number as a value. -/
def real (x : Float) : Run Value := pure (.number (.double x))

/-- A count as a value. -/
def count (n : Nat) : Run Value := pure (.number (.int n))

/-! ## Comparing -/

/-- Minus one, zero or one, as the first number is less or greater than the second
    or neither. -/
def compareNumbers (a b : Number) : Value :=
  .number (.int
    (match a.compare b with
    | some .lt => -1
    | some .gt => 1
    | _ => 0))

/-- The first of two numbers if it compares in the wanted way, otherwise the second;
    if they do not compare, no number. -/
def pick (wanted : Ordering) (args : List Value) : Run Value := do
  let a ← argAs Store.asNumber args 0
  let b ← argAs Store.asNumber args 1
  match a.compare b with
  | some o => pure (.number (if o = wanted then a else b))
  | none => pure (.number ((Number.double Binary.Unpacked.nan.toDouble).convert a.kind))

/-- The first of some numbers that compares in the wanted way with all before it. -/
def extreme (wanted : Ordering) (ns : List Number) : Except Fault Number :=
  match ns with
  | [] => throw .noElements
  | n :: ns => pure (ns.foldl (fun best n => if n.compare best = some wanted then n else best) n)

/-! ## Computing -/

/-- The amount of a number. -/
def absolute (n : Number) : Number := if n.toDouble < 0 then n.negate.convert n.kind else n

/-- The sign of a real number. -/
def sign (x : Float) : Except Fault Value :=
  if x.isNaN then throw .notANumber
  else pure (.number (.int (if x > 0 then 1 else if x < 0 then -1 else 0)))

/-- A function of real numbers. -/
def mathFunction (f : MathFunction) (args : List Value) : Run Value := do
  match f.unary? with
  | some g => do real (g (← argAs Store.asDouble args 0))
  | none =>
    let x ← argAs Store.asDouble args 0
    let y ← argAs Store.asDouble args 1
    real (x.pow y)

/-- A real number rounded to so many places. -/
def roundTo (x : Float) (places : Int) : Float :=
  let scale := Binary.powInt 10 places
  Binary.roundHalfEven (x * scale) / scale

/-- The sum of numbers. -/
def sum (ns : List Number) : Except Fault Number :=
  match ns.foldlM (Number.binary .add) (Number.int 0) with
  | .ok n => pure n
  | .error f => throw (.arith f)

/-- The mean of numbers: a decimal if there is one among them. -/
def average (ns : List Number) : Except Fault Number :=
  if ns.isEmpty then throw .noElements
  else
    let total := ns.foldl (fun x n => x + n.toDouble) (-0.0)
    let mean := total / ns.length.toFloat
    pure (if ns.any fun n => n.kind == .decimal then .decimal mean else .double mean)

/-! ## Reading and converting -/

/-- The whole numbers that can be read, of 128 bits. -/
def readWhole? (s : List Char) : Option Int :=
  let bound : Int := Nat.pow 2 127
  readIntWithin? (-bound) (bound - 1) s

/-- The number of a kind that a text stands for. -/
def parseNumber (k : NumericKind) (text : String) : Except Fault Number :=
  let cs := trim text.toList
  match k with
  | .integral i =>
    match readWhole? cs with
    | none => throw (.notNumber text)
    | some n => if i.holds n then pure (.ofInt i n) else throw (.numberRange k)
  | k =>
    match Binary.readDouble? cs with
    | none => throw (.notNumber text)
    | some x => pure ((Number.double x).convert k)

/-- The truth value that a text stands for. -/
def parseBool (text : String) : Except Fault Bool :=
  match String.ofList ((trim text.toList).map Char.toLower) with
  | "true" => pure true
  | "false" => pure false
  | _ => throw (.notBoolean text)

/-- A value as a whole number. -/
def toInt (s : Store) : Value → Except Fault Int
  | .string t =>
    match readIntWithin? (IntKind.int.least) (IntKind.int.greatest) (trim t.toList) with
    | some n => pure n
    | none => throw .formatText
  | .bool b => pure (if b then 1 else 0)
  | v => do
    let n ← s.asNumber v
    match n.toInt? with
    | some i => pure i
    | none =>
      pure ((Binary.ofDouble (Binary.roundHalfEven n.toDouble)).clampTo IntKind.int.least
        IntKind.int.greatest)

/-- A value as a real number. -/
def toDouble (s : Store) : Value → Except Fault Float
  | .string t =>
    match Binary.readDouble? (trim t.toList) with
    | some x => pure x
    | none => throw .formatText
  | .bool b => pure (if b then 1 else 0)
  | v => s.asDouble v

end Numeric

end Scriptlet
