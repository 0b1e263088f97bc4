import Scriptlet.Expr.Printer

/-!
# Outlines of expressions

The outline of an expression shows its tree: every node in parentheses, with
what it is, its type, and its parts. Variables and labels are shown with a
number, which counts them in the order in which they first appear, so that those
of one name can be told apart (`Expr.outline`).
-/

namespace Scriptlet

open Text

/-- Texts that depend on which variables and labels have appeared, the first one
    first. -/
abbrev Outlined := StateM (List Nat)

/-- A name with the number of what it names. -/
def numbered (name : String) (id : Nat) : Outlined String := do
  let seen ← get
  let k := seen.findIdx (· == id)
  if k = seen.length then set (seen ++ [id])
  pure (name ++ "#" ++ showNat k)

/-- A label with its number. -/
def Label.outline (l : Label) : Outlined String := numbered l.name l.id

/-- A variable with its type and number. -/
def Variable.outline (v : Variable) : Outlined String := do
  pure (v.type.text ++ " " ++ (← numbered v.name v.id))

/-- What a node is, without its parts. -/
def Expr.headline : Expr → Outlined String
  | .constant c => pure ("Constant " ++ c.text .source)
  | .default _ => pure "Default"
  | .parameter v => do pure ("Parameter " ++ (← numbered v.name v.id))
  | .unary op _ _ => pure ("Unary " ++ op.name)
  | .binary op _ _ _ => pure ("Binary " ++ op.name)
  | .convert .. => pure "Convert"
  | .typeIs _ t => pure ("TypeIs " ++ t.text)
  | .typeAs .. => pure "TypeAs"
  | .call m receiver _ ts _ =>
    pure ("Call " ++ (if receiver.isSome then "instance " else "static ") ++ m.signature ++ " <" ++
      Ty.joined ts ++ ">")
  | .invoke .. => pure "Invoke"
  | .new c _ _ => pure ("New " ++ c.signature)
  | .memberInit _ bindings _ => pure ("MemberInit " ++ commas (bindings.map (·.member.name)))
  | .listInit _ add _ _ => pure ("ListInit " ++ add.signature)
  | .arrayOfSize t _ => pure ("NewArrayBounds " ++ t.text)
  | .arrayOfItems t _ => pure ("NewArrayInit " ++ t.text)
  | .member _ m owner _ => pure ("Member " ++ owner.text ++ "." ++ m.name)
  | .index .. => pure "ArrayIndex"
  | .conditional .. => pure "Conditional"
  | .assign .. => pure "Assign"
  | .block vs _ _ => do pure ("Block [" ++ commas (← vs.mapM Variable.outline) ++ "]")
  | .loop _ b c => do
    let b ← b.outline
    match c with
    | none => pure ("Loop " ++ b)
    | some c => do pure ("Loop " ++ b ++ " " ++ (← c.outline))
  | .jump kind target _ => do pure ("Goto " ++ kind.name ++ " " ++ (← target.outline))
  | .label target _ _ => do pure ("Label " ++ (← target.outline))
  | .switch _ cases other =>
    pure ("Switch [" ++ commas (cases.map fun c => showNat c.tests.length) ++ "]" ++
      (if other.isSome then " default" else ""))
  | .tryCatch _ handlers last => do
    let hs ← handlers.mapM fun h =>
      match h.binder with
      | none => pure h.type.text
      | some v => do pure (h.type.text ++ " " ++ (← numbered v.name v.id))
    pure ("Try [" ++ commas hs ++ "]" ++ (if last.isSome then " finally" else ""))
  | .throw _ => pure "Throw"
  | .lambda params _ ret => do
    pure ("Lambda (" ++ commas (← params.mapM Variable.outline) ++ ") " ++ ret.text)

namespace Expr

/-- The outline of an expression, with a blank in front. -/
def outlineIn : Expr → Outlined String := fold fun e parts => do
  let head ← e.headline
  let parts ← parts.mapM id
  pure (" (" ++ head ++ " :" ++ e.type.text ++ String.join parts ++ ")")

/-- The outline of an expression. -/
def outline (e : Expr) : String := ((e.outlineIn.run []).1.drop 1).toString

end Expr

end Scriptlet
