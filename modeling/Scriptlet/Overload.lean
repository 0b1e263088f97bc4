import Scriptlet.Catalog.Directory
import Scriptlet.Error
import Scriptlet.Expr.Basic

/-!
# Choosing among overloads

A call names a method, and several methods may have that name. One that can take
the arguments is *applicable*; of those, the one whose parameter types are the
nearest to the argument types is chosen, and the first of equally near ones
(`Overload.select`).

The type parameters of a method are given by the call, or inferred by comparing
the types of the parameters with those of the arguments (`Overload.infer`). A
lambda whose parameters have no types waits until the parameter types of its
delegate are known; then it is read (`Binder`), and the type of its result can
bind further type parameters. Reading a lambda is an effect, so choosing takes
place in a monad.
-/

namespace Scriptlet

/-- A lambda that is to be read once the types of its parameters are known. -/
structure PendingLambda (β : Type) where
  /-- The names of the parameters, with their types where they are written out. -/
  params : List (Option Ty × String)
  /-- How the lambda can be read. -/
  body : β

/-- An argument of a call. -/
inductive Argument (β : Type)
  | typed (e : Expr)
  | lambda (l : PendingLambda β)

/-- What stands in messages for an argument. -/
def Argument.describe {β : Type} : Argument β → String
  | typed e => e.type.text
  | lambda l => "lambda/" ++ Text.showNat l.params.length

/-- A chosen method, with its arguments as it takes them. -/
structure Selection where
  method : Method
  owner : Ty
  args : List Expr
  typeArgs : List Ty
  ret : Ty
  distance : Nat

/-- Reads a lambda with the given types of its parameters and, if it is known, the
    type of its result; `none` if it cannot take such parameters. -/
abbrev Binder (m : Type → Type) (β : Type) :=
  PendingLambda β → List Ty → Option Ty → m (Except Error (Option Expr))

namespace Overload

/-! ## Inference -/

/-- A type that a type parameter was compared with, and how deep within the
    types. -/
structure Inferred where
  name : String
  type : Ty
  depth : Nat

/-- The arguments of the first supertype that is the named type with this many
    arguments. -/
def argumentsOf? (d : Directory) (t : Ty) (name : String) (count : Nat) : Option (List Ty) :=
  (d.supertypes t).findSome? fun s =>
    match s.1 with
    | .named n args => if n = name ∧ args.length = count then some args else none
    | _ => none

mutual

/-- What the comparison of a parameter type with an argument type says about the
    type parameters in `names`. -/
def infer (d : Directory) (names : List String) (depth : Nat) : (param arg : Ty) → List Inferred
  | .generic name, arg =>
    if names.contains name ∧ arg ≠ .null then [⟨name, arg, depth⟩] else []
  | .array element rank, arg =>
    match arg with
    | .array a r => if rank = r then infer d names (depth + 1) element a else []
    | _ => []
  | .nullable inner, arg =>
    match arg with
    | .nullable a => infer d names (depth + 1) inner a
    | a => if a.isReference then [] else infer d names (depth + 1) inner a
  | .function params ret, arg =>
    match arg with
    | .function ps r =>
      if ps.length = params.length then
        inferAll d names (depth + 1) params ps ++ infer d names (depth + 1) ret r
      else []
    | _ => []
  | .named name args, arg =>
    if Ty.anyContainsGeneric args then
      match argumentsOf? d arg name args.length with
      | some as => inferAll d names (depth + 1) args as
      | none => []
    else []
  | _, _ => []

/-- What the comparison of types place by place says. -/
def inferAll (d : Directory) (names : List String) (depth : Nat) :
    (params args : List Ty) → List Inferred
  | p :: ps, args =>
    match args with
    | a :: as => infer d names depth p a ++ inferAll d names depth ps as
    | [] => []
  | [], _ => []

end

/-- The deepest finding about a type parameter, and the first of equally deep
    ones. -/
def deepest? (name : String) (found : List Inferred) : Option Ty :=
  ((found.filter (·.name == name)).foldl
    (fun best i =>
      match best with
      | some b => if b.depth < i.depth then some i else some b
      | none => some i) none).map (·.type)

/-- Binds the type parameters that have no type yet to what was found. -/
def applyInferred (b : Ty.Bindings) (found : List Inferred) : Ty.Bindings :=
  found.foldl
    (fun b i =>
      match b.lookup i.name, deepest? i.name found with
      | none, some t => (i.name, t) :: b
      | _, _ => b) b

/-! ## Parameters -/

/-- The number of parameters that take one argument each. -/
def fixedCount (m : Method) : Nat := if m.isVariadic then m.params.length - 1 else m.params.length

/-- Whether a method can take a number of arguments. -/
def takes (m : Method) (count : Nat) : Bool :=
  if m.isVariadic then fixedCount m ≤ count else count == m.params.length

/-- Whether an argument can be the array of all further arguments itself. -/
def isWholeRest {β : Type} : Argument β → Bool
  | .typed e =>
    match e.type with
    | .array .. | .null => true
    | _ => false
  | .lambda _ => false

/-- Whether further arguments are collected in an array. -/
def expands {β : Type} (m : Method) (args : List (Argument β)) : Bool :=
  m.isVariadic && !(args.length == m.params.length && args.getLast?.any isWholeRest)

/-- The type of the parameter for the argument with a number. -/
def wanted (m : Method) (expanded : Bool) (i : Nat) : Ty :=
  let type (i : Nat) : Ty := (m.params[i]?.map (·.type)).getD .void
  if i < fixedCount m then type i else
    match type (fixedCount m), expanded with
    | .array element _, true => element
    | t, _ => t

/-! ## Trying a method -/

/-- An argument while a method is tried. -/
inductive Slot (β : Type)
  | typed (e : Expr)
  | pending (l : PendingLambda β)
  | bound (e : Expr)

/-- The slot that an argument starts in. -/
def Slot.ofArgument {β : Type} : Argument β → Slot β
  | .typed e => typed e
  | .lambda l => pending l

/-- A method that is tried: whether further arguments are collected, and which type
    parameters are not bound by its owner. -/
structure Attempt where
  method : Method
  expanded : Bool
  unbound : List String

/-- Effects that end with the method being found not applicable (`none`) or with an
    error. -/
abbrev Trial (m : Type → Type) := ExceptT (Option Error) m

section

variable {m : Type → Type} [Monad m] {β : Type}

/-- The types of a delegate. -/
def delegate? : Ty → Option (List Ty × Ty)
  | .function params ret => some (params, ret)
  | _ => none

/-- Whether the types that a lambda writes out are those of a delegate. -/
def agrees (written : List (Option Ty × String)) (params : List Ty) : Bool :=
  (written.zip params).all fun (w, t) => w.1.all (· == t)

/-- Reads a lambda for a parameter, if the types of the delegate's parameters are
    known; gives the lambda and what its type says. -/
def bindLambda (d : Directory) (bind : Binder m β) (a : Attempt) (target : Ty)
    (l : PendingLambda β) : Trial m (Option (Expr × List Inferred)) := do
  match delegate? target with
  | none => throw none
  | some (params, ret) =>
    if params.length ≠ l.params.length then throw none
    else if Ty.anyContainsGeneric params then pure none
    else if !agrees l.params params then throw none
    else
      match ← (bind l params (if ret.containsGeneric then none else some ret) : m _) with
      | .ok (some e) => pure (some (e, infer d a.unbound 0 target e.type))
      | .ok none => throw none
      | .error e => throw (some e)

/-- What a pass over the arguments leads to. -/
structure Pass (β : Type) where
  bindings : Ty.Bindings
  slots : List (Slot β)
  progress : Bool
  waiting : Bool

/-- Reads those lambdas, from the argument with number `i` on, whose parameter types
    are known. -/
def bindPass (d : Directory) (bind : Binder m β) (a : Attempt) :
    (i : Nat) → Ty.Bindings → List (Slot β) → Trial m (Pass β)
  | _, b, [] => pure ⟨b, [], false, false⟩
  | i, b, .pending l :: slots => do
    match ← bindLambda d bind a ((wanted a.method a.expanded i).substitute b) l with
    | some (e, found) => do
      let p ← bindPass d bind a (i + 1) (applyInferred b found) slots
      pure { p with slots := .bound e :: p.slots, progress := true }
    | none => do
      let p ← bindPass d bind a (i + 1) b slots
      pure { p with slots := .pending l :: p.slots, waiting := true }
  | i, b, slot :: slots => do
    let p ← bindPass d bind a (i + 1) b slots
    pure { p with slots := slot :: p.slots }

/-- Reads lambdas as long as that makes more of them known. Each pass but the last
    reads one at least, so `steps` need not be more than there are arguments, and
    one more. -/
def bindLambdas (d : Directory) (bind : Binder m β) (a : Attempt) :
    (steps : Nat) → Ty.Bindings → List (Slot β) → Trial m (Ty.Bindings × List (Slot β))
  | 0, b, slots => pure (b, slots)
  | steps + 1, b, slots => do
    let p ← bindPass d bind a 0 b slots
    if p.waiting && p.progress then bindLambdas d bind a steps p.bindings p.slots
    else pure (p.bindings, p.slots)

/-- The expression in a slot, where a type is wanted, and its distance from that. -/
def Slot.settle? (d : Directory) (t : Ty) : Slot β → Option (Expr × Nat)
  | typed e => (d.distance? e.type t).map fun n => (e.coerce t, n)
  | bound e => some (e, 0)
  | pending _ => none

/-- The arguments as the parameters take them, and the distance of each. -/
def settle? (d : Directory) (a : Attempt) (b : Ty.Bindings) (slots : List (Slot β)) :
    Option (List (Expr × Nat)) :=
  slots.zipIdx.mapM fun (s, i) => s.settle? d ((wanted a.method a.expanded i).substitute b)

/-- The type parameters that the arguments with types determine. -/
def inferTyped (d : Directory) (a : Attempt) (b : Ty.Bindings) (args : List (Argument β)) :
    List Inferred :=
  args.zipIdx.flatMap fun (arg, i) =>
    match arg with
    | .typed e => infer d a.unbound 0 ((wanted a.method a.expanded i).substitute b) e.type
    | .lambda _ => []

/-- The type parameters before lambdas are read: those of the owner, and those that
    the call gives or the other arguments determine. `none` if the call gives a
    wrong number of them. -/
def startBindings (d : Directory) (a : Attempt) (owner : Ty.Bindings) (explicit : List Ty)
    (args : List (Argument β)) : Option Ty.Bindings :=
  if !explicit.isEmpty then
    if explicit.length = a.unbound.length then some ((a.unbound.zip explicit).reverse ++ owner)
    else none
  else some (applyInferred owner (inferTyped d a owner args))

/-- The arguments of a call, with those that are collected in an array. -/
def collect (a : Attempt) (b : Ty.Bindings) (args : List Expr) : List Expr :=
  if a.expanded then
    args.take (fixedCount a.method) ++
      [.arrayOfItems ((wanted a.method true (fixedCount a.method)).substitute b)
        (args.drop (fixedCount a.method))]
  else args

/-- The distance of a call: that of each argument, and of those that are collected
    the greatest one only. -/
def totalDistance (a : Attempt) (distances : List Nat) : Nat :=
  if a.expanded then
    (distances.take (fixedCount a.method)).foldl (· + ·) 0 +
      (distances.drop (fixedCount a.method)).foldl max 0
  else distances.foldl (· + ·) 0

/-- Tries a method on arguments. -/
def tryCandidate (d : Directory) (bind : Binder m β) (c : Candidate) (explicit : List Ty)
    (args : List (Argument β)) (offset : Nat) : Trial m Selection := do
  if !takes c.method args.length then throw none else
    let owner := ((d.definition? c.owner).map (·.2)).getD []
    let a : Attempt :=
      { method := c.method, expanded := expands c.method args,
        unbound := c.method.generics.filter fun g => (owner.lookup g).isNone }
    match startBindings d a owner explicit args with
    | none => throw none
    | some b => do
      let (b, slots) ← bindLambdas d bind a (args.length + 1) b (args.map Slot.ofArgument)
      match c.method.generics.find? fun g => (b.lookup g).isNone with
      | some g => throw (some (.inference offset c.method.signature g))
      | none =>
        match settle? d a b slots with
        | none => throw none
        | some settled =>
          pure
            { method := c.method, owner := c.owner, args := collect a b (settled.map (·.1)),
              typeArgs := c.method.generics.filterMap fun g => b.lookup g, ret := c.method.ret.substitute b,
              distance := totalDistance a (settled.map (·.2)) }

/-! ## Choosing -/

/-- The nearest method so far, and the first error. -/
structure Best where
  selection : Option Selection := none
  failure : Option Error := none

/-- Takes the outcome of one more trial into account. -/
def Best.add (b : Best) : Except (Option Error) Selection → Best
  | .ok s =>
    match b.selection with
    | some t => if s.distance < t.distance then { b with selection := some s } else b
    | none => { b with selection := some s }
  | .error (some e) => { b with failure := b.failure.or (some e) }
  | .error none => b

/-- Tries methods one after the other. -/
def tryAll (d : Directory) (bind : Binder m β) (explicit : List Ty) (args : List (Argument β))
    (offset : Nat) : List Candidate → Best → m Best
  | [], best => pure best
  | c :: cs, best => do
    let outcome ← (tryCandidate d bind c explicit args offset).run
    tryAll d bind explicit args offset cs (best.add outcome)

/-- Chooses the method for a call. If none is applicable, the first error that a
    trial met is reported. -/
def select (d : Directory) (bind : Binder m β) (name : String) (candidates : List Candidate)
    (explicit : List Ty) (args : List (Argument β)) (offset : Nat) :
    m (Except Error Selection) := do
  let best ← tryAll d bind explicit args offset candidates {}
  match best.selection, best.failure with
  | some s, _ => pure (.ok s)
  | none, some e => pure (.error e)
  | none, none =>
    pure (.error (.noOverload offset name (String.intercalate ", " (args.map (·.describe)))))

end

end Overload

end Scriptlet
