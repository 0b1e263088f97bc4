import Scriptlet.Json.Reader
import Scriptlet.Options.Basic

/-!
# Reading options

Options are a JSON object with a field for each of them, or an array of their values
in a fixed order. What is missing has its default. Fields with other names do not
matter, nor what they hold, as long as their names are texts. A value of the wrong type
is refused, and so is an option that is given twice.
-/

namespace Scriptlet

namespace JsonValue

/-- The text that a value is. -/
def string? : JsonValue → Option String
  | string s => s.text?
  | _ => none

/-- The truth value that a value is. -/
def bool? : JsonValue → Option Bool
  | bool b => some b
  | _ => none

/-- The items of the array that a value is. -/
def array? : JsonValue → Option (List JsonValue)
  | array vs => some vs
  | _ => none

/-- What a value is, unless it is null. -/
def orNull? {α : Type} (f : JsonValue → Option α) : JsonValue → Option (Option α)
  | null => some none
  | v => (f v).map some

/-- The fields that a value has, of those with given names; `none` if it has one of
    them twice, or a field whose name is no text. -/
def fieldsOf? (names : List String) : JsonValue → Option (List (String × JsonValue))
  | object fields => do
    let fields ← fields.mapM fun (name, v) => name.text?.map (·, v)
    let known := fields.filter fun f => names.contains f.1
    if (known.map (·.1)).Nodup then some known else none
  | array items => if items.length ≤ names.length then some (names.zip items) else none
  | _ => none

end JsonValue

open JsonValue

/-- The parameter that a value describes. -/
def ParameterOption.ofJson? (v : JsonValue) : Option ParameterOption := do
  let fields ← v.fieldsOf? ["name", "type"]
  pure ⟨← (← fields.lookup "name").string?, ← (← fields.lookup "type").string?⟩

namespace Options

/-- The names of the options, in their order. -/
def names : List String :=
  ["parameters", "return_type", "default_receiver", "static_type", "namespaces", "ignore_case",
    "default_parameter_type"]

/-- Sets the option with a name. -/
def set? (o : Options) (name : String) (v : JsonValue) : Option Options :=
  match name with
  | "parameters" => do
    pure { o with parameters := ← (← v.array?).mapM ParameterOption.ofJson? }
  | "return_type" => do pure { o with returnType := ← v.orNull? string? }
  | "default_receiver" => do pure { o with defaultReceiver := ← v.orNull? string? }
  | "static_type" => do pure { o with staticType := ← v.orNull? string? }
  | "namespaces" => do pure { o with namespaces := ← (← v.array?).mapM string? }
  | "ignore_case" => do pure { o with ignoreCase := ← v.bool? }
  | "default_parameter_type" => do pure { o with defaultParameterType := ← v.string? }
  | _ => some o

/-- The options that a text describes. -/
def read? (text : String) : Option Options := do
  let fields ← (← JsonValue.read? text).fieldsOf? names
  fields.foldlM (fun o (name, v) => o.set? name v) {}

end Options

end Scriptlet
