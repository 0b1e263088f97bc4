import Scriptlet.CommandLine.Arguments
import Scriptlet.CommandLine.Files
import Scriptlet.Engine
import Scriptlet.Options.Reader
import Scriptlet.Text.Inspect
import Scriptlet.Token.Listing

/-!
# What a command does

The outcome of a command line: what is printed, what is reported, and the exit code.
A program that is refused ends with the code 65, one that fails when it runs with 70, a
file that cannot be read with 1, and a command line that is not understood with 2.

The texts of files are given as a function (`Files`), so that an outcome depends on
nothing else.
-/

namespace Scriptlet

namespace CommandLine

/-- The texts of the files at paths. -/
abbrev Files := String → Except FileFault String

/-- What a command leaves behind. -/
structure Outcome where
  stdout : String := ""
  stderr : String := ""
  code : UInt8 := 0
  deriving DecidableEq, Repr

namespace Outcome

/-- Prints a line. -/
def print (line : String) : Outcome := { stdout := line ++ "\n" }

/-- Reports why a program stopped. -/
def report (code : UInt8) : Halt → Outcome
  | .error e => { stderr := e.message ++ "\n", code }
  | .exhausted => { stderr := "Step limit reached\n", code }

/-- Reports that something did not succeed, and why. -/
def failure (what cause : String) : Outcome :=
  { stderr := "Error: " ++ what ++ "\n\nCaused by:\n    " ++ cause ++ "\n", code := 1 }

/-- Reports a command line that is not understood. -/
def misuse : Outcome :=
  { stderr := "Usage: tokenize|parse|simplify|evaluate [--config FILE] [--log] " ++
      "[--json] [--arg VALUE] [FILE | --expr TEXT]\n",
    code := 2 }

end Outcome

/-- The name of a file between quotes. -/
def quoted (name : String) : String := String.ofList (Text.inspect '"' name.toList)

/-- The value that an argument of a program stands for: a truth value, a missing value, a
    number in the narrowest kind that has it, or else a string. -/
def argumentValue (text : String) : Value :=
  match text with
  | "true" => .bool true
  | "false" => .bool false
  | "null" => .null
  | text =>
    match Binary.readDouble? text.toList with
    | some x => .number (.narrowest x)
    | none => .string text

/-- Lists tokens, up to the first error. -/
def listTokens : List (Except Error Token) → Outcome
  | [] => {}
  | .ok t :: ts =>
    let rest := listTokens ts
    { rest with stdout := t.text ++ "\n" ++ rest.stdout }
  | .error e :: _ => .report 65 (.error e)

/-- Shows a program. -/
def showProgram : Except Halt Lambda → Outcome
  | .ok l => .print l.toExpr.source
  | .error h => .report 65 h

/-- Runs a program. -/
def runProgram (e : Engine) (args : List Value) : Except Halt Lambda → Outcome
  | .ok l =>
    match l.invoke (e.machine .none) args {} with
    | .ok v s => .print (s.display v)
    | .error h _ => .report 70 h
  | .error h => .report 65 h

/-- Does a command on a text. -/
def Command.run (e : Engine) (source : String) : Command → Outcome
  | tokenize => listTokens (Scriptlet.tokenize (.ofSource source.toList 0) true)
  | parse true =>
    match Token.allOf source with
    | .ok ts => .print ((JsonValue.array (ts.map (·.listing))).pretty 0)
    | .error e => .report 65 (.error e)
  | parse false => showProgram (e.parseAlone source)
  | simplify => showProgram (e.parseSimplified source)
  | evaluate args => runProgram e (args.map argumentValue) (e.parseSimplified source)

namespace Invocation

variable (i : Invocation)

/-- The files that are read. -/
def fileNames : List String :=
  i.config.toList ++
    match i.input with
    | some (.file name) => [name]
    | _ => []

/-- The engine that programs are read with, or why there is none. -/
def engine (files : Files) : Except Outcome Engine :=
  match i.config with
  | none => .ok {}
  | some name =>
    let failed (cause : String) := Outcome.failure ("Failed to load config " ++ quoted name) cause
    match files name with
    | .error f => .error (failed f.message)
    | .ok text =>
      match Options.read? text with
      | some options => .ok { options }
      | none => .error (failed Error.configuration.message)

/-- What an invocation does. -/
def outcome (files : Files) : Outcome :=
  match i.engine files, i.input with
  | .error o, _ => o
  | .ok _, none => .print "No input was provided. Exiting..."
  | .ok e, some (.text source) => i.command.run e source
  | .ok e, some (.file name) =>
    match files name with
    | .ok source => i.command.run e source
    | .error f =>
      let what := if f.isAfterOpening then "Failed to read file " else "Failed to open file "
      .failure (what ++ quoted name) f.message

end Invocation

/-- What a command line does. -/
def outcome (files : Files) (arguments : List String) : Outcome :=
  match Invocation.ofArguments? arguments with
  | some i => i.outcome files
  | none => .misuse

end CommandLine

end Scriptlet
