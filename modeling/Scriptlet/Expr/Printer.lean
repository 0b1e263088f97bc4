import Scriptlet.Expr.Traversal
import Scriptlet.Text.Escape
import Scriptlet.Text.Cut

/-!
# Texts of expressions

An expression is written with all its parentheses. In *source* form the text of
an operator expression reads back as the same tree; statements have a readable
form only. In *canonical* form variables are written as the place of their
binder, and numbers by their value alone, so that expressions that differ only
in the names of variables have the same text (`Expr.source`,
`Expr.canonical`).
-/

namespace Scriptlet

open Text

/-- The two forms of texts. -/
inductive Form
  | source
  | canonical
  deriving DecidableEq, Repr

/-! ## Constants -/

/-- The name of a floating number that has no digits. -/
def specialName? (kind : String) : Binary.Unpacked → Option String
  | .nan => some (kind ++ ".NaN")
  | .infinite false => some (kind ++ ".PositiveInfinity")
  | .infinite true => some (kind ++ ".NegativeInfinity")
  | .finite .. => none

/-- A number as it is written in a program, by itself. -/
def Number.literal (n : Number) : String :=
  let digits := String.ofList (n.textIn .exact)
  match n with
  | .integral .byte _ => "((byte)" ++ digits ++ ")"
  | .integral .short _ => "((short)" ++ digits ++ ")"
  | .integral .ushort _ => "((ushort)" ++ digits ++ ")"
  | .integral .int _ => digits
  | .integral .uint _ => digits ++ "u"
  | .integral .long _ => digits ++ "L"
  | .integral .ulong _ => digits ++ "UL"
  | .float _ => (specialName? "float" n.unpack).getD (digits ++ "f")
  | .double _ => (specialName? "double" n.unpack).getD digits
  | .decimal _ => digits ++ "m"

/-- A number as it is written within an expression: a negative one is an operand of
    a minus sign, and stands in parentheses. -/
def Number.source (n : Number) : String :=
  let text := n.literal
  if startsWith ['-'] text.toList then "(" ++ text ++ ")" else text

/-- A number by its value alone. -/
def Number.canonical (n : Number) : String :=
  let x := n.toDouble
  String.ofList (Binary.doubleText .plain (if x == 0 then 0 else x))

/-- A constant as it is written in a form. -/
def Constant.text (f : Form) : Constant → String
  | .null => "null"
  | .bool b => if b then "true" else "false"
  | .char c => "'" ++ String.ofList (escapeChar '\'' c) ++ "'"
  | .string s => "\"" ++ String.ofList (escape '"' s.toList) ++ "\""
  | .number n =>
    match f with
    | .source => n.source
    | .canonical => n.canonical

/-! ## Variables -/

/-- The numbers of the variables of each binder around an expression, the
    innermost first. -/
abbrev Binders := List (List Nat)

/-- The binders that enclosures are. -/
def Enclosure.all (s : List Enclosure) : Binders := s.map ids

/-- The place of a variable: how many binders stand around its binder, and how many
    variables of that come before it. -/
def Binders.place? (id : Nat) : Binders → Option (Nat × Nat)
  | [] => none
  | frame :: outer =>
    match frame.findIdx? (· == id) with
    | some i => some (outer.length, i)
    | none => Binders.place? id outer

/-- The text of a place. -/
def placeText (depth i : Nat) : String := "$" ++ showNat depth ++ "." ++ showNat i

/-- A variable where it is used. -/
def Variable.text (f : Form) (bs : Binders) (v : Variable) : String :=
  match f, bs.place? v.id with
  | .canonical, some (depth, i) => placeText depth i
  | _, _ => v.name

/-- The variables of a binder where they are declared. -/
def declarations (f : Form) (depth : Nat) (vs : List Variable) : List String :=
  vs.zipIdx.map fun (v, i) =>
    v.type.text ++ " " ++ (match f with | .source => v.name | .canonical => placeText depth i)

/-! ## Expressions -/

/-- Texts with commas between them. -/
def commas (texts : List String) : String := String.intercalate ", " texts

/-- The word for a jump. -/
def JumpKind.word : JumpKind → String
  | goto => "goto"
  | .break => "break"
  | .continue => "continue"
  | .return => "return"

/-- The text of a call. Indexers are methods, but are not written so. -/
def callText (method : Method) (receiver : Option String) (args : List String)
    (typeArgs : List Ty) : String :=
  let types := if typeArgs.isEmpty then "" else "<" ++ Ty.joined typeArgs ++ ">"
  let plain := "." ++ method.name ++ types ++ "(" ++ commas args ++ ")"
  match receiver with
  | none => method.owner.text ++ plain
  | some r =>
    if method.name = "get_Item" then r ++ "[" ++ commas args ++ "]"
    else if method.name = "set_Item" ∧ !args.isEmpty then
      "(" ++ r ++ "[" ++ commas args.dropLast ++ "] = " ++ args.getLastD "" ++ ")"
    else r ++ plain

/-- The text of a unary operator. -/
def unaryText (op : UnaryOp) (e : String) : String :=
  match op with
  | .arrayLength => e ++ ".Length"
  | .postIncrement | .postDecrement => "(" ++ e ++ op.symbol ++ ")"
  | _ => "(" ++ op.symbol ++ e ++ ")"

/-- Texts with a semicolon behind each. -/
def semicolons (texts : List String) : String := String.join (texts.map (· ++ "; "))

/-- A text with something in front, if there is one. -/
def behind (front : String) : Option String → String
  | none => ""
  | some s => front ++ s

/-- The text of the cases of a switch, by the number of tests of each, and of what is left over
    for all other values. -/
def casesText : List Nat → List String → String
  | [], other => (other.head?.map fun s => "default: " ++ s ++ " ").getD ""
  | n :: counts, texts =>
    String.join ((texts.take n).map fun test => "case " ++ test ++ ": ") ++
      (texts.drop n).headD "" ++ " " ++ casesText counts (texts.drop (n + 1))

/-- The text of a handler. -/
def handlerText (f : Form) (depth : Nat) (h : Handler Expr) (body : String) : String :=
  let name (v : Variable) := match f with | .source => v.name | .canonical => placeText depth 0
  " catch (" ++ h.type.text ++ behind " " (h.binder.map name) ++ ") " ++ body

namespace Expr

/-- The text of a node within binders, with the texts of its parts. -/
def textWith (f : Form) (bs : Binders) (e : Expr) (parts : List String) : String :=
  let first := parts.getD 0 ""
  let second := parts.getD 1 ""
  let rest := parts.drop 1
  match e with
  | constant c => c.text f
  | default t => "default(" ++ t.text ++ ")"
  | parameter v => v.text f bs
  | unary op _ _ => unaryText op first
  | binary op _ _ _ => "(" ++ first ++ " " ++ op.symbol ++ " " ++ second ++ ")"
  | convert _ t => "((" ++ t.text ++ ")" ++ first ++ ")"
  | typeIs _ t => "(" ++ first ++ " is " ++ t.text ++ ")"
  | typeAs _ t => "(" ++ first ++ " as " ++ t.text ++ ")"
  | call m receiver _ ts _ =>
    if receiver.isSome then callText m (some first) rest ts else callText m none parts ts
  | invoke _ _ _ => first ++ "(" ++ commas rest ++ ")"
  | new _ _ t => "new " ++ t.text ++ "(" ++ commas parts ++ ")"
  | memberInit _ bindings _ =>
    first ++ " \x7b " ++ commas ((bindings.map (·.member.name)).zipWith (· ++ " = " ++ ·) rest) ++
      " \x7d"
  | listInit _ _ _ _ => first ++ " \x7b " ++ commas rest ++ " \x7d"
  | arrayOfSize t _ => "new " ++ t.text ++ "[" ++ commas parts ++ "]"
  | arrayOfItems t _ => "new " ++ t.text ++ "[] \x7b " ++ commas parts ++ " \x7d"
  | member _ m owner _ => parts.headD owner.text ++ "." ++ m.name
  | index _ _ _ => first ++ "[" ++ commas rest ++ "]"
  | conditional _ _ _ t =>
    let third := parts.getD 2 ""
    if t = .void then "if (" ++ first ++ ") " ++ second ++ " else " ++ third
    else "(" ++ first ++ " ? " ++ second ++ " : " ++ third ++ ")"
  | assign _ _ _ => "(" ++ first ++ " = " ++ second ++ ")"
  | block vs _ _ =>
    "\x7b " ++ semicolons (declarations f bs.length vs) ++ semicolons parts ++ "\x7d"
  | loop _ b c => "loop " ++ first ++ " " ++ b.name ++ ":" ++ behind " /" (c.map (·.name))
  | jump kind target _ =>
    kind.word ++ (if kind = .goto then " " ++ target.name else "") ++ behind " " parts.head?
  | label target _ _ => target.name ++ ":" ++ behind " " parts.head?
  | switch _ cases _ =>
    "switch (" ++ first ++ ") \x7b " ++ casesText (cases.map (·.tests.length)) rest ++ "\x7d"
  | tryCatch _ handlers _ =>
    let texts := handlers.map (handlerText f bs.length)
    "try " ++ first ++ String.join (texts.zipWith (fun text body => text body) rest) ++
      behind " finally " (rest.drop handlers.length).head?
  | throw _ => "throw" ++ behind " " parts.head?
  | lambda params _ _ => "(" ++ commas (declarations f bs.length params) ++ ") => " ++ first

/-- The text of an expression within binders. -/
def print (f : Form) (bs : Binders) (e : Expr) : String :=
  e.foldIn (fun s bs => Enclosure.all s ++ bs) (textWith f) bs

theorem print_eq (f : Form) (bs : Binders) (e : Expr) :
    e.print f bs = e.textWith f bs (e.parts.map fun p => p.1.print f (Enclosure.all p.2 ++ bs)) :=
  foldIn_eq ..

theorem print_of_plain {e : Expr} (h : e.scopes = e.children.map fun _ => []) (f : Form)
    (bs : Binders) : e.print f bs = e.textWith f bs (e.children.map (print f bs)) := by
  rw [print_eq, parts_of_plain h, List.map_map]
  rfl

/-- The text of an expression with names. -/
def source (e : Expr) : String := print .source [] e

/-- The text of an expression without regard to names. -/
def canonical (e : Expr) : String := print .canonical [] e

end Expr

end Scriptlet
