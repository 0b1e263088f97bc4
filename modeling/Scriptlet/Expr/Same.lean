import Scriptlet.Expr.Printer

/-!
# Equality of expressions

Two expressions are the same (`Expr.same`) if they have the same shape, types,
operators, methods and members. Parameters of lambdas correspond by the place
of their binder; other variables, and labels, by their names. Numbers of
different kinds are the same constant if they are the same number.
-/

namespace Scriptlet

/-- Whether two constants stand for the same value. -/
def Constant.equivalent : Constant → Constant → Bool
  | .number a, .number b => a.equivalent b
  | a, b => a.same b

/-- Whether two methods are the same one. -/
def Method.same (m n : Method) : Bool := m.signature == n.signature

/-- Whether two variables have one name and one type. -/
def Variable.alike (v w : Variable) : Bool := v.name == w.name && v.type == w.type

/-- Whether two lists agree in length and, place by place, by a relation. -/
def allAlike {α β : Type} (r : α → β → Bool) : List α → List β → Bool
  | [], [] => true
  | a :: as, b :: bs => r a b && allAlike r as bs
  | _, _ => false

theorem allAlike_map_left {α β γ : Type} (r : β → γ → Bool) (f : α → β) (as : List α)
    (cs : List γ) : allAlike r (as.map f) cs = allAlike (fun a c => r (f a) c) as cs := by
  induction as generalizing cs with
  | nil => cases cs <;> rfl
  | cons a as ih =>
    cases cs with
    | nil => rfl
    | cons c cs => rw [List.map_cons, allAlike, allAlike, ih]

/-- Whether two variables correspond, each within its binders. -/
def Variable.corresponds (bs cs : Binders) (v w : Variable) : Bool :=
  match bs.place? v.id, cs.place? w.id with
  | some p, some q => p == q
  | none, none => v.alike w
  | _, _ => false

/-- The binders that count for sameness. -/
def Enclosure.lambdas (s : List Enclosure) : Binders := all (s.filter (·.isLambda))

/-- What may count of a node. -/
inductive Mark
  | type (t : Ty)
  | unary (op : UnaryOp)
  | binary (op : BinaryOp)
  | jump (kind : JumpKind)
  | name (name : String)
  | variable (name : String) (t : Ty)
  /-- Whether there is a receiver. -/
  | receiver (present : Bool)
  /-- The number of tests of a case. -/
  | tests (count : Nat)
  | handler (t : Ty) (binder : Option (String × Ty))
  deriving DecidableEq

namespace Expr

/-- All that counts of a node besides its parts, if it is neither a constant nor a variable. -/
def marks : Expr → List Mark
  | constant _ | parameter _ | throw _ => []
  | default t | convert _ t | typeIs _ t | typeAs _ t | invoke _ _ t | arrayOfSize t _
  | arrayOfItems t _ | index _ _ t | conditional _ _ _ t | assign _ _ t => [.type t]
  | unary op _ t => [.type t, .unary op]
  | binary op _ _ t => [.type t, .binary op]
  | call m receiver _ ts t =>
    .type t :: .name m.signature :: .receiver receiver.isSome :: ts.map .type
  | new m _ t | listInit _ m _ t => [.type t, .name m.signature]
  | memberInit _ bindings t => .type t :: bindings.map (.name ·.member.name)
  | member _ m owner t => [.type t, .name m.name, .type owner]
  | block vs _ t => .type t :: vs.map fun v => .variable v.name v.type
  | loop _ b c => .name b.name :: (c.map (.name ·.name)).toList
  | jump kind l _ => [.jump kind, .name l.name]
  | label l _ t => [.type t, .name l.name]
  | switch _ cases _ => cases.map (.tests ·.tests.length)
  | tryCatch _ handlers _ =>
    handlers.map fun h => .handler h.type (h.binder.map fun v => (v.name, v.type))
  | lambda params _ t => .type t :: params.map (.type ·.type)

/-- Whether two nodes are the same but for their parts, each within the parameters of the lambdas
    around it. -/
def sameNode (bs cs : Binders) (a b : Expr) : Bool :=
  a.ctorIdx == b.ctorIdx && a.marks == b.marks &&
    match a, b with
    | constant c, constant d => c.equivalent d
    | parameter v, parameter w => v.corresponds bs cs w
    | _, _ => true

/-- Whether two expressions are the same, each within the parameters of the lambdas
    around it. -/
def sameIn (bs cs : Binders) (a b : Expr) : Bool :=
  a.fold (fun a parts bs cs b => a.sameNode bs cs b &&
    allAlike (fun p q => p.1 (Enclosure.lambdas p.2 ++ bs) (Enclosure.lambdas q.2 ++ cs) q.1)
      (parts.zip a.scopes) b.parts) bs cs b

/-- Expressions are the same if their nodes and their parts are. -/
theorem sameIn_eq (bs cs : Binders) (a b : Expr) :
    a.sameIn bs cs b = (a.sameNode bs cs b && allAlike (fun p q =>
      p.1.sameIn (Enclosure.lambdas p.2 ++ bs) (Enclosure.lambdas q.2 ++ cs) q.1)
        a.parts b.parts) := by
  rw [sameIn, fold_eq, List.zip_map_left, allAlike_map_left]
  rfl

/-- Whether two expressions are the same. -/
def same (a b : Expr) : Bool := sameIn [] [] a b

end Expr

end Scriptlet
