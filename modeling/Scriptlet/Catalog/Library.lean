import Scriptlet.Catalog.Basic

/-!
# The library

The types that every program can use: the primitive types, strings, lists and
sequences with queries on them, mathematics, conversions, and exceptions
(`Catalog.standard`).
-/

namespace Scriptlet.Library

/-- A parameter. -/
def param (name : String) (type : Ty) : Param := { name, type }

/-- A parameter that takes all further arguments. -/
def rest (name : String) (type : Ty) : Param := { name, type, isRest := true }

/-- A method that performs an operation of the library. -/
def method (name : String) (params : List Param) (ret : Ty) (op : Operation) : Method :=
  Method.of name params ret (.library op)

/-- A static method that performs an operation of the library. -/
def static (name : String) (params : List Param) (ret : Ty) (op : Operation) : Method :=
  (method name params ret op).asStatic

/-- The sequences of a type. -/
def sequence (t : Ty) : Ty := .named "IEnumerable" [t]

/-- The enumerators of a type. -/
def enumerator (t : Ty) : Ty := .named "IEnumerator" [t]

/-- The lists of a type. -/
def listOf (t : Ty) : Ty := .named "List" [t]

/-- The type parameter of the generic types of the library. -/
def element : Ty := .generic "T"

/-! ## Primitive types -/

/-- What all values have. -/
def object : Definition :=
  ((Definition.ofType "Object" .object).withBase none).withMethods
    [method "ToString" [] .string .toText,
      method "Equals" [param "other" .object] .bool .equals,
      method "GetHashCode" [] .int .hash]

/-- The type without values. -/
def void : Definition := (Definition.ofType "Void" .void).withBase none

/-- Truth values. -/
def boolean : Definition :=
  (((Definition.ofType "Boolean" .bool).method
    (static "Parse" [param "s" .string] .bool .parseBool)).constant
      "TrueString" (.string "True")).constant "FalseString" (.string "False")

/-- Characters. -/
def char : Definition :=
  (((Definition.ofType "Char" .char).withMethods
    [static "IsDigit" [param "c" .char] .bool .isDigit,
      static "IsLetter" [param "c" .char] .bool .isLetter,
      static "ToUpper" [param "c" .char] .char .upperChar]).constant
        "MaxValue" (.char (Char.ofNat 0xFFFF))).constant "MinValue" (.char (Char.ofNat 0))

/-- The least and the greatest number of a kind. -/
def bounds : NumericKind → Number × Number
  | .integral k => (.ofInt k k.least, .ofInt k k.greatest)
  | .floating .float =>
    let x := Float32.ofBits 0x7F7FFFFF
    (.float (-x), .float x)
  | .floating .double =>
    let x := Float.ofBits 0x7FEFFFFFFFFFFFFF
    (.double (-x), .double x)
  | .floating .decimal =>
    let x : Float := 79228162514264337593543950335
    (.decimal (-x), .decimal x)

/-- A special floating number, in a kind. -/
def special (x : Binary.Unpacked) (k : NumericKind) : Constant :=
  .number ((Number.double x.toDouble).convert k)

/-- The numbers of a kind. -/
def numeric (k : NumericKind) : Definition :=
  let t : Ty := .numeric k
  let d := (((Definition.ofType k.systemName t).constant "MinValue" (.number (bounds k).1)).constant
    "MaxValue" (.number (bounds k).2)).withMethods
      [method "ToString" [param "format" .string] .string .formatNumber,
        method "CompareTo" [param "value" t] .int .compareTo,
        static "Parse" [param "s" .string] t (.parseNumber k)]
  if k.isFloating then
    (((d.constant "NaN" (special .nan k)).constant
      "PositiveInfinity" (special (.infinite false) k)).constant
        "NegativeInfinity" (special (.infinite true) k)).method
          (static "IsNaN" [param "d" t] .bool .isNaN)
  else d

/-! ## Strings -/

/-- Strings. -/
def string : Definition :=
  let objects : Ty := .arrayOf .object
  let value := [param "value" .string]
  ((((Definition.ofType "String" .string).implementing (sequence .char)).constant
    "Empty" (.string "")).property "Length" .int (.library .stringLength)).withMethods
    [method "get_Chars" [param "index" .int] .char .charAt,
      method "Substring" [param "startIndex" .int] .string .substring,
      method "Substring" [param "startIndex" .int, param "length" .int] .string .substring,
      method "ToUpper" [] .string .upper,
      method "ToLower" [] .string .lower,
      method "Trim" [] .string .trim,
      method "Contains" value .bool .contains,
      method "StartsWith" value .bool .startsWith,
      method "EndsWith" value .bool .endsWith,
      method "IndexOf" value .int .indexOf,
      method "IndexOf" [param "value" .char] .int .indexOf,
      method "Replace" [param "oldValue" .string, param "newValue" .string] .string .replace,
      static "IsNullOrEmpty" value .bool .isNullOrEmpty,
      static "Concat" [rest "args" objects] .string .concat,
      static "Format" [param "format" .string, rest "args" objects] .string .format,
      ((method "Join" [param "separator" .string, param "values" (sequence element)] .string
        .join).withGenerics ["T"]).asStatic]

/-! ## Collections -/

/-- Sequences. -/
def sequenceDefinition : Definition :=
  (Definition.ofInterface "IEnumerable" ["T"]).method
    (method "GetEnumerator" [] (enumerator element) .enumerate)

/-- Enumerators. -/
def enumeratorDefinition : Definition :=
  ((Definition.ofInterface "IEnumerator" ["T"]).method
    (method "MoveNext" [] .bool .moveNext)).property "Current" element (.library .current)

/-- What all arrays have. -/
def array : Definition :=
  ((Definition.ofClass "Array" []).property "Length" .int (.library .arrayLength)).property
    "Rank" .int (.library .arrayRank)

/-- Lists. -/
def list : Definition :=
  let item := param "item" element
  let index := param "index" .int
  (((((Definition.ofClass "List" ["T"]).implementing (sequence element)).constructor
    [] (.library .listNew)).constructor [param "collection" (sequence element)]
      (.library .listOf)).property "Count" .int (.library .listCount)).withMethods
    [method "Add" [item] .void .listAdd,
      method "Clear" [] .void .listClear,
      method "Contains" [item] .bool .listContains,
      method "IndexOf" [item] .int .listIndexOf,
      method "Insert" [index, item] .void .listInsert,
      method "RemoveAt" [index] .void .listRemoveAt,
      method "get_Item" [index] element .listGet,
      method "set_Item" [index, param "value" element] .void .listSet,
      method "ToArray" [] (.arrayOf element) .toArray,
      method "GetEnumerator" [] (enumerator element) .enumerate]

/-- Values that may be missing. -/
def nullable : Definition :=
  ((Definition.ofClass "Nullable" ["T"]).property "HasValue" .bool (.library .hasValue)).property
    "Value" element (.library .nullableValue)

/-! ## Mathematics -/

/-- A static method for a function of one real number. -/
def mathMethod (f : MathFunction) : Method :=
  (static f.name [param "d" .double] .double (.math f)).meaning f

/-- The methods that exist for several kinds of numbers, for one of them. -/
def numberMethods (t : Ty) : List Method :=
  let abs := static "Abs" [param "value" t] t .abs
  let two := [param "val1" t, param "val2" t]
  [if t = .double then abs.meaning .abs else abs,
    static "Max" two t .max,
    static "Min" two t .min,
    static "Sign" [param "value" t] .int .sign]

/-- Mathematics. -/
def math : Definition :=
  let d : Ty := .double
  ((((Definition.ofClass "Math" []).constant
    "PI" (.number (.double 3.141592653589793))).constant
      "E" (.number (.double 2.718281828459045))).withMethods
    ([MathFunction.sin, .cos, .tan, .asin, .acos, .atan, .sinh, .cosh, .tanh, .log, .log10, .exp,
      .sqrt, .floor, .ceiling, .truncate].map mathMethod)).withMethods
    ([static "Log" [param "a" d, param "newBase" d] d .logBase,
      (static "Pow" [param "x" d, param "y" d] d (.math .pow)).meaning .pow,
      static "Atan2" [param "y" d, param "x" d] d .atan2,
      mathMethod .round,
      static "Round" [param "value" d, param "digits" .int] d .roundTo] ++
      [Ty.int, .long, .float, .double, .decimal].flatMap numberMethods)

/-! ## Queries -/

/-- A method that extends the sequences of any type. -/
def query (name : String) (params : List Param) (ret : Ty) (op : Operation) : Method :=
  ((method name (param "source" (sequence (.generic "TSource")) :: params) ret op).withGenerics
    ["TSource"]).asExtension

/-- The queries on sequences of numbers of one type. -/
def numberQueries (t : Ty) : List Method :=
  let source := [param "source" (sequence t)]
  [(method "Sum" source t .sum).asExtension,
    (method "Max" source t .greatest).asExtension,
    (method "Min" source t .least).asExtension,
    (method "Average" source (if t = .decimal then .decimal else .double) .average).asExtension]

/-- Queries on sequences. -/
def queries : Definition :=
  let source : Ty := .generic "TSource"
  let result : Ty := .generic "TResult"
  let predicate := param "predicate" (.function [source] .bool)
  (Definition.ofClass "Enumerable" []).withMethods
    ([(query "Select" [param "selector" (.function [source] result)] (sequence result)
        .select).withGenerics ["TSource", "TResult"],
      query "Where" [predicate] (sequence source) .filter,
      query "Count" [] .int .count,
      query "Count" [predicate] .int .count,
      query "Any" [] .bool .any,
      query "Any" [predicate] .bool .any,
      query "All" [predicate] .bool .every,
      query "First" [] source .first,
      query "First" [predicate] source .first,
      query "ToList" [] (listOf source) .toList,
      query "ToArray" [] (.arrayOf source) .toArray,
      static "Range" [param "start" .int, param "count" .int] (sequence .int) .range] ++
      [Ty.int, .long, .double, .decimal].flatMap numberQueries ++
      [query "Sum" [param "selector" (.function [source] .double)] .double .sumOf])

/-! ## Conversions and exceptions -/

/-- Conversions. -/
def conversions : Definition :=
  let value := [param "value" .object]
  (Definition.ofClass "Convert" []).withMethods
    [static "ToInt32" value .int .toInt,
      static "ToDouble" value .double .toDouble,
      static "ToString" value .string .toText]

/-- The exception that all others derive from. -/
def exception : Definition :=
  (((Definition.ofClass "Exception" []).field "Message" .string).recordConstructor)
    |>.defaultConstructor

/-- An exception that derives from the first one. -/
def exceptionNamed (name : String) : Definition :=
  (((Definition.ofClass name []).withBase (some (.named "Exception" []))).field
    "Message" .string).recordConstructor

/-- The definitions of the library. -/
def definitions : List Definition :=
  [object, void, boolean, char] ++ NumericKind.all.map numeric ++
    [string, sequenceDefinition, enumeratorDefinition, array, list, nullable, math, queries,
      conversions, exception] ++
    ["ArgumentException", "InvalidOperationException", "DivideByZeroException"].map exceptionNamed

/-- The keywords of the types of the library. -/
def aliases : List (String × String) :=
  [("object", "Object"), ("void", "Void"), ("bool", "Boolean"), ("char", "Char"),
    ("string", "String")] ++ NumericKind.all.map fun k => (k.name, k.systemName)

end Library

/-- The catalog with the library. -/
def Catalog.standard : Catalog :=
  { Library.definitions.foldl register empty with
    aliases := Library.aliases
    constants := [("true", .bool true), ("false", .bool false), ("null", .null)]
    namespaces := ["System", "System.Collections.Generic", "System.Linq"] }

end Scriptlet
