import Scriptlet.Catalog.Definition
import Scriptlet.Expr.Operator

/-!
# Expressions

A program is a tree of typed expressions. Statements are expressions too; one
that yields nothing has the type `void`. Variables and labels are known by
their numbers, and their names are for the reader only.

A node has its type where the type does not follow from its parts
(`Expr.type`). Conversions are nodes of their own (`Expr.convertTo`), left out
where the type is the wanted one already.
-/

namespace Scriptlet

/-- A parameter of a lambda, a local of a block or the variable of a handler. -/
structure Variable where
  id : Nat
  name : String
  type : Ty
  deriving DecidableEq, Repr

/-- A destination of jumps. -/
structure Label where
  id : Nat
  name : String
  deriving DecidableEq, Repr

/-- What a jump was written as. -/
inductive JumpKind
  | goto
  | break
  | continue
  | return
  deriving DecidableEq, Repr

/-- The name of a kind of jump. -/
def JumpKind.name : JumpKind → String
  | goto => "Goto"
  | .break => "Break"
  | .continue => "Continue"
  | .return => "Return"

/-- A value for a member of a new object. -/
structure Binding (α : Type) where
  member : Member
  value : α

/-- A case of a switch: the values it is taken for, and what is done then. -/
structure Case (α : Type) where
  tests : List α
  body : α

/-- A handler of exceptions of a type. -/
structure Handler (α : Type) where
  type : Ty
  binder : Option Variable
  body : α

/-- Expressions and statements. -/
inductive Expr
  | constant (value : Constant)
  /-- The default value of a type; of `void`, the empty statement. -/
  | default (type : Ty)
  | parameter (v : Variable)
  | unary (op : UnaryOp) (operand : Expr) (type : Ty)
  | binary (op : BinaryOp) (left right : Expr) (type : Ty)
  /-- A conversion to a type. -/
  | convert (operand : Expr) (type : Ty)
  | typeIs (operand : Expr) (target : Ty)
  | typeAs (operand : Expr) (target : Ty)
  | call (method : Method) (receiver : Option Expr) (args : List Expr) (typeArgs : List Ty)
      (type : Ty)
  /-- The call of a delegate. -/
  | invoke (target : Expr) (args : List Expr) (type : Ty)
  | new (constructor : Method) (args : List Expr) (type : Ty)
  /-- A new object whose members are set. -/
  | memberInit (new : Expr) (bindings : List (Binding Expr)) (type : Ty)
  /-- A new collection to which items are added. -/
  | listInit (new : Expr) (add : Method) (items : List Expr) (type : Ty)
  /-- A new array of a size. -/
  | arrayOfSize (element : Ty) (bounds : List Expr)
  /-- A new array of items. -/
  | arrayOfItems (element : Ty) (items : List Expr)
  | member (target : Option Expr) (member : Member) (owner : Ty) (type : Ty)
  | index (array : Expr) (indices : List Expr) (type : Ty)
  | conditional (test ifTrue ifFalse : Expr) (type : Ty)
  | assign (target value : Expr) (type : Ty)
  | block (locals : List Variable) (body : List Expr) (type : Ty)
  /-- Repeats its body until a jump leads out of it. -/
  | loop (body : Expr) (breakLabel : Label) (continueLabel : Option Label)
  | jump (kind : JumpKind) (target : Label) (value : Option Expr)
  /-- The place that jumps to a label lead to. -/
  | label (target : Label) (default : Option Expr) (type : Ty)
  | switch (value : Expr) (cases : List (Case Expr)) (default : Option Expr)
  | tryCatch (body : Expr) (handlers : List (Handler Expr)) (finally_ : Option Expr)
  /-- Throws an exception, or once more the one that is being handled. -/
  | throw (value : Option Expr)
  | lambda (params : List Variable) (body : Expr) (ret : Ty)

instance : Inhabited Expr := ⟨.default .void⟩

/-- A function: its parameters, its body and the type of its result. -/
structure Lambda where
  params : List Variable
  body : Expr
  ret : Ty
  deriving Inhabited

namespace Lambda

/-- The type of a function. -/
def type (l : Lambda) : Ty := .function (l.params.map (·.type)) l.ret

/-- A function as an expression. -/
def toExpr (l : Lambda) : Expr := .lambda l.params l.body l.ret

end Lambda

namespace Expr

/-- The type of an expression. -/
def type : Expr → Ty
  | constant c => c.type
  | default t => t
  | parameter v => v.type
  | unary _ _ t | binary _ _ _ t | convert _ t | typeAs _ t => t
  | typeIs .. => .bool
  | call _ _ _ _ t | invoke _ _ t | new _ _ t | memberInit _ _ t | listInit _ _ _ t => t
  | arrayOfSize element bounds => .array element bounds.length
  | arrayOfItems element _ => .arrayOf element
  | member _ _ _ t | index _ _ t | conditional _ _ _ t | assign _ _ t | block _ _ t => t
  | loop .. | jump .. => .void
  | label _ _ t => t
  | switch .. | tryCatch .. | throw _ => .void
  | lambda params _ ret => .function (params.map (·.type)) ret

/-! ## Building -/

/-- A numeric constant. -/
def number (n : Number) : Expr := constant (.number n)

/-- A truth value. -/
def bool (b : Bool) : Expr := constant (.bool b)

/-- A string. -/
def string (s : String) : Expr := constant (.string s)

/-- The statement that does nothing. -/
def empty : Expr := default .void

/-- A numeric constant of a kind. -/
def numberOf (k : NumericKind) (x : Float) : Expr := number ((Number.double x).convert k)

/-- The expression with a conversion to a type, unless it has that type. -/
def convertTo (e : Expr) (t : Ty) : Expr := if e.type = t then e else convert e t

/-- The expression where a value of a type is wanted. Between references no
    conversion is needed. -/
def coerce (e : Expr) (t : Ty) : Expr :=
  if e.type = t ∨ t = .void then e
  else if !e.type.isReference || !t.isReference || e.type = .null then e.convertTo t
  else e

/-- An assignment. -/
def assignTo (target value : Expr) : Expr := assign target (value.coerce target.type) target.type

/-- A block, whose value is that of its last expression. -/
def blockOf (locals : List Variable) (body : List Expr) : Expr :=
  block locals body ((body.getLast?.map type).getD .void)

/-- The place of a label. -/
def labelAt (target : Label) (value : Option Expr) : Expr :=
  label target value ((value.map type).getD .void)

/-! ## Looking -/

/-- The constant that an expression is. -/
def constant? : Expr → Option Constant
  | constant c => some c
  | _ => none

/-- The numeric constant that an expression is. -/
def number? : Expr → Option Number
  | constant (.number n) => some n
  | _ => none

/-- Whether an expression is a numeric constant with this value. -/
def isNumber (e : Expr) (x : Float) : Bool := e.number?.any fun n => n.toDouble == x

/-- Whether an expression can be assigned to. -/
def isAssignable : Expr → Bool
  | parameter _ | index .. => true
  | member _ m _ _ => m.isWritable
  | _ => false

end Expr

end Scriptlet
