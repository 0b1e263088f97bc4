import Scriptlet.Evaluation.Sequence
import Scriptlet.Evaluation.Text

/-!
# The operations of the library

What each operation of a method does with its arguments, the value that the method is
called on being the first of them (`Operation.run`), and what each property of a value
is (`Property.get`).
-/

namespace Scriptlet

open Run Numeric Textual Sequences

namespace Operation

/-- Operations on texts and on all values. -/
def runText (args : List Value) : Operation → Run Value
  | toText => do pure (.string (← display (← arg args 0)))
  | equals => do pure (.bool ((← arg args 0).equal (← arg args 1)))
  | hash => do pure (.number (.int (hashText (← display (← arg args 0)).toList)))
  | parseBool => do
    let s ← argAs Store.asString args 0
    .bool <$> ofFault (Numeric.parseBool s)
  | isDigit => do pure (.bool (← argAs Store.asChar args 0).isDigit)
  | isLetter => do pure (.bool (Text.isLetter (← argAs Store.asChar args 0)))
  | upperChar => do
    let c ← argAs Store.asChar args 0
    pure (.char ((Text.upperOf c).headD c))
  | charAt => do
    let s ← chars args 0
    let i ← argAs Store.asIndex args 1
    ofFault (Textual.charAt s i)
  | substring => do
    let s ← chars args 0
    let start ← argAs Store.asIndex args 1
    let length ← if args.length < 3 then pure (s.length - start) else argAs Store.asIndex args 2
    text (← ofFault (Textual.substring s start length))
  | upper => do pure (.string (Text.toUpper (← argAs Store.asString args 0)))
  | lower => do pure (.string (Text.toLower (← argAs Store.asString args 0)))
  | trim => do text (Text.trim (← chars args 0))
  | contains => do
    let s ← chars args 0
    pure (.bool (Text.find? (← chars args 1) s).isSome)
  | startsWith => do
    let s ← chars args 0
    pure (.bool (Text.startsWith (← chars args 1) s))
  | endsWith => do
    let s ← chars args 0
    pure (.bool (Text.endsWith (← chars args 1) s))
  | indexOf => do
    let s ← chars args 0
    pure (.number (.int (Textual.indexOf s (← display (← arg args 1)).toList)))
  | replace => do
    let s ← chars args 0
    let old ← chars args 1
    text (Text.replace old (← chars args 2) s)
  | isNullOrEmpty => do
    match ← arg args 0 with
    | .null => pure (.bool true)
    | .string s => pure (.bool s.isEmpty)
    | _ => pure (.bool false)
  | concat => do pure (.string (String.join (← texts (← sequence args))))
  | join => do
    let separator ← argAs Store.asString args 0
    let vs ← argAs Store.items args 1
    pure (.string (separator.intercalate (← texts vs)))
  | format => do
    let format ← chars args 0
    let vs ← argAs Store.items args 1
    text (← look fun s => s.composite format vs)
  | _ => pure .null

/-- Operations on numbers. -/
def runNumber (args : List Value) : Operation → Run Value
  | formatNumber => do
    let format ← chars args 1
    let v ← arg args 0
    text ((← get).format v format)
  | compareTo => do
    let a ← argAs Store.asNumber args 0
    pure (compareNumbers a (← argAs Store.asNumber args 1))
  | isNaN => do pure (.bool (← argAs Store.asDouble args 0).isNaN)
  | parseNumber k => do
    let s ← argAs Store.asString args 0
    .number <$> ofFault (Numeric.parseNumber k s)
  | toInt => do pure (.number (.int (← argAs Numeric.toInt args 0)))
  | toDouble => do real (← argAs Numeric.toDouble args 0)
  | math f => mathFunction f args
  | logBase => do
    let x ← argAs Store.asDouble args 0
    real (x.log / (← argAs Store.asDouble args 1).log)
  | atan2 => do
    let y ← argAs Store.asDouble args 0
    real (y.atan2 (← argAs Store.asDouble args 1))
  | roundTo => do
    let places ← argAs Store.asIndex args 1
    real (Numeric.roundTo (← argAs Store.asDouble args 0) places)
  | abs => do pure (.number (absolute (← argAs Store.asNumber args 0)))
  | max => pick .gt args
  | min => pick .lt args
  | sign => do
    let x ← argAs Store.asDouble args 0
    ofFault (Numeric.sign x)
  | _ => pure .null

/-- Operations on lists and enumerators. -/
def runList (args : List Value) : Operation → Run Value
  | enumerate => do
    let vs ← sequence args
    make (·.newEnumerator vs)
  | moveNext => do
    let r ← argAs Store.asEnumerator args 0
    let (found, e) := ((← get).enumerator r).moveNext
    modify (·.setEnumerator r e)
    pure (.bool found)
  | listNew => make (·.newList [])
  | listOf => do
    let vs ← sequence args
    make (·.newList vs)
  | listAdd => do
    let (r, items) ← listArg args
    changeList r (items ++ [← arg args 1])
  | listClear => do
    let (r, _) ← listArg args
    changeList r []
  | listContains => do
    let (_, items) ← listArg args
    pure (.bool (items.any (·.equal (← arg args 1))))
  | listIndexOf => do
    let (_, items) ← listArg args
    pure (.number (.int (placeOf (← arg args 1) items)))
  | listInsert => do
    let (r, items) ← listArg args
    let i ← within (← argAs Store.asIndex args 1) (items.length + 1) .listBounds
    changeList r (items.take i ++ (← arg args 2) :: items.drop i)
  | listRemoveAt => do
    let (r, items) ← listArg args
    let i ← itemPlace args items
    changeList r (items.eraseIdx i)
  | listGet => do
    let (_, items) ← listArg args
    let i ← itemPlace args items
    pure (items.getD i .null)
  | listSet => do
    let (r, items) ← listArg args
    let i ← itemPlace args items
    changeList r (items.set i (← arg args 2))
  | toArray => do
    let items ← sequence args
    make (·.newArray ⟨.object, [items.length], items⟩)
  | _ => pure .null

/-- Queries on sequences. -/
def runQuery (apply : Apply) (args : List Value) : Operation → Run Value
  | select => do
    let f ← argAs Store.asFunction args 1
    let vs ← mapItems apply f (← sequence args)
    make (·.newList vs)
  | filter => do
    let vs ← matching apply args
    make (·.newList vs)
  | count => do Numeric.count (← matching apply args).length
  | any => do pure (.bool !(← matching apply args).isEmpty)
  | every => do
    let vs ← sequence args
    pure (.bool ((← matching apply args).length == vs.length))
  | first => do
    match ← matching apply args with
    | v :: _ => pure v
    | [] => fault .noMatch
  | toList => do
    let vs ← sequence args
    make (·.newList vs)
  | range => do
    let start ← argAs Store.asIndex args 0
    let count ← argAs Store.asIndex args 1
    let vs ← ofFault (Sequences.range start count)
    make (·.newList vs)
  | sum => do
    let ns ← numbers args
    .number <$> ofFault (Numeric.sum ns)
  | sumOf => do
    let f ← argAs Store.asFunction args 1
    real (← sumItems apply f 0 (← sequence args))
  | greatest => do
    let ns ← numbers args
    .number <$> ofFault (extreme .gt ns)
  | least => do
    let ns ← numbers args
    .number <$> ofFault (extreme .lt ns)
  | average => do
    let ns ← numbers args
    .number <$> ofFault (Numeric.average ns)
  | _ => pure .null

/-- Performs an operation. -/
def run (apply : Apply) (op : Operation) (args : List Value) : Run Value :=
  match op with
  | toText | equals | hash | parseBool | isDigit | isLetter | upperChar | charAt | substring
  | upper | lower | trim | contains | startsWith | endsWith | indexOf | replace | isNullOrEmpty
  | concat | format | join => op.runText args
  | formatNumber | compareTo | isNaN | parseNumber _ | toInt | toDouble | math _ | logBase
  | atan2 | roundTo | abs | max | min | sign => op.runNumber args
  | enumerate | moveNext | listNew | listOf | listAdd | listClear | listContains | listIndexOf
  | listInsert | listRemoveAt | listGet | listSet | toArray => op.runList args
  | select | filter | count | any | every | first | toList | range | sum | sumOf | greatest
  | least | average => op.runQuery apply args

end Operation

/-- Reads a property of a value. -/
def Property.get (v : Value) : Property → Run Value
  | stringLength => do Numeric.count (← look (·.asString v)).length
  | current => do
    let r ← look (·.asEnumerator v)
    look fun s => (s.enumerator r).current
  | arrayLength => do
    let r ← look (·.asArray v)
    Numeric.count ((← MonadState.get).array r).items.length
  | arrayRank => do
    let r ← look (·.asArray v)
    Numeric.count ((← MonadState.get).array r).dims.length
  | listCount => do
    let r ← look (·.asList v)
    Numeric.count ((← MonadState.get).list r).length
  | hasValue => pure (.bool !v.isNull)
  | nullableValue => if v.isNull then fault .noValue else pure v

end Scriptlet
