/-!
# Arguments of the command line

A command line names a command, the text it is about, given in place or as the name of a
file, and options (`Invocation`). Options can stand anywhere behind the command; those
that every command has, in front of it too; one behind the command outweighs one in
front. A value belongs to its option either as the next argument or behind an equals
sign, and behind `--` there are no more options.
-/

namespace Scriptlet

namespace CommandLine

/-- What is to be done with a text. -/
inductive Command
  /-- Lists the tokens. -/
  | tokenize
  /-- Shows the program, or its tokens as JSON. -/
  | parse (json : Bool)
  /-- Shows the simplified program. -/
  | simplify
  /-- Runs the program with arguments. -/
  | evaluate (args : List String)
  deriving DecidableEq, Repr

/-- Where a text is found. -/
inductive Input
  | text (source : String)
  | file (name : String)
  deriving DecidableEq, Repr

/-- A command with the text it is for and the file of the options to read it with. -/
structure Invocation where
  command : Command
  input : Option Input
  config : Option String
  deriving DecidableEq, Repr

/-- The options of the command line. -/
inductive Flag
  | log
  | config
  | expr
  | json
  | arg
  deriving DecidableEq, Repr

namespace Flag

/-- The option with a name. -/
def ofName? : String → Option Flag
  | "log" => some log
  | "config" => some config
  | "expr" => some expr
  | "json" => some json
  | "arg" => some arg
  | _ => none

/-- Whether the option has a value. -/
def takesValue : Flag → Bool
  | config | expr | arg => true
  | log | json => false

/-- The options that only some commands have. -/
def special : List Flag := [expr, json, arg]

/-- Whether the option can be given more than once. -/
def isRepeatable : Flag → Bool
  | arg => true
  | _ => false

end Flag

/-- A part of the command line. -/
inductive Item
  | word (text : String)
  | flag (f : Flag) (value : String)

/-- An option as it is written: its value may be a part of the argument. -/
def written? (argument : String) : Option (Flag × Option String) :=
  match argument.toList with
  | '-' :: '-' :: name =>
    let value := name.dropWhile (· != '=')
    (Flag.ofName? (String.ofList (name.takeWhile (· != '=')))).map fun f =>
      (f, if value.isEmpty then none else some (String.ofList value.tail))
  | '-' :: 'e' :: value =>
    let value := match value with
      | '=' :: value => some value
      | [] => none
      | value => some value
    some (.expr, value.map String.ofList)
  | _ => none

/-- Whether an argument is not an option. -/
def isWord (argument : String) : Bool :=
  match argument.toList with
  | '-' :: _ :: _ => false
  | _ => true

/-- The parts of a command line, if all options are known and have their values. -/
def items? : List String → Option (List Item)
  | [] => some []
  | a :: rest =>
    if a = "--" then some (rest.map .word)
    else if isWord a then (items? rest).map (.word a :: ·)
    else
      match written? a with
      | none => none
      | some (f, some v) => if f.takesValue then (items? rest).map (.flag f v :: ·) else none
      | some (f, none) =>
        if f.takesValue then
          match rest with
          | v :: rest => if isWord v then (items? rest).map (.flag f v :: ·) else none
          | [] => none
        else (items? rest).map (.flag f "" :: ·)

/-- The words among parts. -/
def words (items : List Item) : List String :=
  items.filterMap fun
    | .word w => some w
    | .flag .. => none

/-- The values of an option. -/
def values (f : Flag) (items : List Item) : List String :=
  items.filterMap fun
    | .flag g v => if f = g then some v else none
    | .word _ => none

/-- Whether an item is an option. -/
def Item.isFlag : Item → Bool
  | flag .. => true
  | word _ => false

/-- Whether each option is there as often as it may be. -/
def repeatsOnly (items : List Item) : Bool :=
  [Flag.log, .config, .expr, .json, .arg].all fun f =>
    f.isRepeatable || (values f items).length ≤ 1

/-- Whether the options are in their places: before the command only those of every
    command, and on each side of it each as often as it may be. -/
def inPlace (items : List Item) : Bool :=
  let front := items.takeWhile Item.isFlag
  let back := items.dropWhile Item.isFlag
  Flag.special.all (fun f => (values f front).isEmpty) &&
    repeatsOnly front && repeatsOnly back

/-- The command with a name, given the options that only some commands have. -/
def command? (name : String) (items : List Item) : Option Command :=
  match name, (values .json items).isEmpty, values .arg items with
  | "tokenize", true, [] => some .tokenize
  | "parse", plain, [] => some (.parse !plain)
  | "simplify", true, [] => some .simplify
  | "evaluate", true, args => some (.evaluate args)
  | _, _, _ => none

/-- The invocation that a command line stands for, if it is well formed. -/
def Invocation.ofArguments? (arguments : List String) : Option Invocation := do
  let items ← items? arguments
  if !inPlace items then none else
    let config := (values .config items).getLast?
    match words items, values .expr items with
    | [name], [] => some ⟨← command? name items, none, config⟩
    | [name], text :: _ => some ⟨← command? name items, some (.text text), config⟩
    | [name, file], [] => some ⟨← command? name items, some (.file file), config⟩
    | _, _ => none

end CommandLine

end Scriptlet
