import Scriptlet.Expr.Basic

/-!
# Going through expressions

A node is told by its parts, in the order in which they are evaluated (`Expr.children`), and by what
becomes of it with other parts (`Expr.withChildren`). What is put together from the parts upwards is
a fold (`Expr.fold`): all expressions within an expression (`Expr.subexpressions`), the replacement
of variables (`Expr.substitute`), and an expression with all nodes replaced, parts before the node
they belong to (`Expr.bottomUpM`). A fold may also depend on what encloses the parts
(`Expr.foldIn`).
-/

namespace Scriptlet

/-- Cases with other tests and bodies, left to right, and the expressions that are left over. -/
def Case.refill {α : Type} : List (Case α) → List α → List (Case α) × List α
  | [], es => ([], es)
  | c :: cs, es =>
    let behind := es.drop c.tests.length
    let (filled, rest) := refill cs behind.tail
    (⟨es.take c.tests.length, behind.headD c.body⟩ :: filled, rest)

/-- What encloses an expression: a lambda, or a block or a handler, with the variables that it
    declares. -/
structure Enclosure where
  isLambda : Bool
  declared : List Variable

/-- The numbers of the variables of an enclosure. -/
def Enclosure.ids (b : Enclosure) : List Nat := b.declared.map (·.id)

namespace Expr

/-- The parts of a node, left to right. -/
def children : Expr → List Expr
  | constant _ | default _ | parameter _ => []
  | unary _ e _ | convert e _ | typeIs e _ | typeAs e _ => [e]
  | binary _ l r _ => [l, r]
  | call _ receiver args _ _ => receiver.toList ++ args
  | invoke target args _ => target :: args
  | new _ args _ => args
  | memberInit e bindings _ => e :: bindings.map (·.value)
  | listInit e _ items _ => e :: items
  | arrayOfSize _ bounds => bounds
  | arrayOfItems _ items => items
  | member target _ _ _ => target.toList
  | index array indices _ => array :: indices
  | conditional test a b _ => [test, a, b]
  | assign target value _ => [target, value]
  | block _ body _ => body
  | loop body _ _ => [body]
  | jump _ _ value => value.toList
  | label _ value _ => value.toList
  | switch value cases other =>
    value :: cases.flatMap (fun c => c.tests ++ [c.body]) ++ other.toList
  | tryCatch body handlers last => body :: handlers.map (·.body) ++ last.toList
  | throw value => value.toList
  | lambda _ body _ => [body]

/-- A node with other parts, as many as it has, in the places of its own; all else stays. -/
def withChildren : Expr → List Expr → Expr
  | unary op _ t, [e] => unary op e t
  | binary op _ _ t, [l, r] => binary op l r t
  | convert _ t, [e] => convert e t
  | typeIs _ t, [e] => typeIs e t
  | typeAs _ t, [e] => typeAs e t
  | call m (some _) _ ts t, receiver :: args => call m (some receiver) args ts t
  | call m none _ ts t, args => call m none args ts t
  | invoke _ _ t, target :: args => invoke target args t
  | new c _ t, args => new c args t
  | memberInit _ bindings t, e :: values =>
    memberInit e (bindings.zipWith (fun b value => { b with value }) values) t
  | listInit _ add _ t, e :: items => listInit e add items t
  | arrayOfSize t _, bounds => arrayOfSize t bounds
  | arrayOfItems t _, items => arrayOfItems t items
  | member _ m owner t, target => member target.head? m owner t
  | index _ _ t, array :: indices => index array indices t
  | conditional _ _ _ t, [test, a, b] => conditional test a b t
  | assign _ _ t, [target, value] => assign target value t
  | block vs _ t, body => block vs body t
  | loop _ b c, [body] => loop body b c
  | jump kind target _, value => jump kind target value.head?
  | label target _ t, value => label target value.head? t
  | switch _ cases _, value :: es =>
    let (cases, other) := Case.refill cases es
    switch value cases other.head?
  | tryCatch _ handlers _, body :: es =>
    tryCatch body (handlers.zipWith (fun h body => { h with body }) es)
      (es.drop handlers.length).head?
  | throw _, value => throw value.head?
  | lambda params _ ret, [body] => lambda params body ret
  | e, _ => e

/-- A node with its parts replaced, left to right; all else stays. -/
def mapChildrenM {m : Type → Type} [Monad m] (f : Expr → m Expr) (e : Expr) : m Expr := do
  pure (e.withChildren (← e.children.mapM f))

mutual

variable {α : Type} (f : Expr → List α → α)

/-- What comes of an expression, at each node put together from what comes of its parts. -/
def fold : Expr → α
  | e@(constant _) | e@(default _) | e@(parameter _) => f e []
  | e@(unary _ a _) | e@(convert a _) | e@(typeIs a _) | e@(typeAs a _) | e@(loop a _ _)
  | e@(lambda _ a _) => f e [fold a]
  | e@(binary _ a b _) | e@(assign a b _) => f e [fold a, fold b]
  | e@(conditional a b c _) => f e [fold a, fold b, fold c]
  | e@(call _ receiver args _ _) => f e (foldOption receiver ++ foldList args)
  | e@(invoke a es _) | e@(listInit a _ es _) | e@(index a es _) => f e (fold a :: foldList es)
  | e@(new _ es _) | e@(arrayOfSize _ es) | e@(arrayOfItems _ es) | e@(block _ es _) =>
    f e (foldList es)
  | e@(memberInit a bindings _) => f e (fold a :: foldBindings bindings)
  | e@(member a _ _ _) | e@(jump _ _ a) | e@(label _ a _) | e@(throw a) => f e (foldOption a)
  | e@(switch a cases other) => f e (fold a :: foldCases cases ++ foldOption other)
  | e@(tryCatch a handlers last) => f e (fold a :: foldHandlers handlers ++ foldOption last)

/-- What comes of each of some expressions. -/
def foldList : List Expr → List α
  | [] => []
  | e :: es => fold e :: foldList es

/-- What comes of an expression that may be missing. -/
def foldOption : Option Expr → List α
  | none => []
  | some e => [fold e]

/-- What comes of the values for members. -/
def foldBindings : List (Binding Expr) → List α
  | [] => []
  | ⟨_, e⟩ :: bs => fold e :: foldBindings bs

/-- What comes of the tests and bodies of cases. -/
def foldCases : List (Case Expr) → List α
  | [] => []
  | ⟨tests, body⟩ :: cs => foldList tests ++ fold body :: foldCases cs

/-- What comes of the bodies of handlers. -/
def foldHandlers : List (Handler Expr) → List α
  | [] => []
  | ⟨_, _, body⟩ :: hs => fold body :: foldHandlers hs

end

section Laws

variable {α : Type} (f : Expr → List α → α)

theorem foldList_eq (es : List Expr) : foldList f es = es.map (fold f) := by
  induction es with
  | nil => rfl
  | cons e es ih => rw [foldList, ih, List.map_cons]

theorem foldBindings_eq (bs : List (Binding Expr)) :
    foldBindings f bs = bs.map fun b => fold f b.value := by
  induction bs with
  | nil => rfl
  | cons b bs ih => rw [foldBindings, ih, List.map_cons]

theorem foldCases_eq (cs : List (Case Expr)) :
    foldCases f cs = (cs.flatMap fun c => c.tests ++ [c.body]).map (fold f) := by
  induction cs with
  | nil => rfl
  | cons c cs ih => simp [foldCases, foldList_eq, ih]

theorem foldHandlers_eq (hs : List (Handler Expr)) :
    foldHandlers f hs = hs.map fun h => fold f h.body := by
  induction hs with
  | nil => rfl
  | cons h hs ih => rw [foldHandlers, ih, List.map_cons]

/-- What comes of an expression is put together from what comes of its parts. -/
theorem fold_eq (e : Expr) : e.fold f = f e (e.children.map (fold f)) := by
  have hoption (a : Option Expr) : foldOption f a = a.toList.map (fold f) := by cases a <;> rfl
  cases e <;>
    simp [fold, children, foldList_eq, hoption, foldBindings_eq, foldCases_eq, foldHandlers_eq,
      Function.comp_def]

end Laws

/-- What encloses each part within a node. -/
def scopes : Expr → List (List Enclosure)
  | block vs body _ => body.map fun _ => [⟨false, vs⟩]
  | lambda params _ _ => [[⟨true, params⟩]]
  | tryCatch _ handlers last =>
    [] :: handlers.map (fun h => (h.binder.map fun v => ⟨false, [v]⟩).toList) ++
      last.toList.map fun _ => []
  | e => e.children.map fun _ => []

/-- The parts of a node, each with what encloses it there. -/
def parts (e : Expr) : List (Expr × List Enclosure) := e.children.zip e.scopes

/-- Nothing encloses the parts of a node that declares nothing. -/
theorem parts_of_plain {e : Expr} (h : e.scopes = e.children.map fun _ => []) :
    e.parts = e.children.map fun c => (c, []) := by
  rw [parts, h]
  induction e.children with
  | nil => rfl
  | cons c cs ih => rw [List.map_cons, List.map_cons, List.zip_cons_cons, ih]

/-- What comes of an expression in a context, which what encloses a part adds to. -/
def foldIn {α γ : Type} (enter : List Enclosure → γ → γ) (f : γ → Expr → List α → α) (c : γ)
    (e : Expr) : α :=
  e.fold (fun e parts c => f c e (parts.zipWith (fun part s => part (enter s c)) e.scopes)) c

theorem foldIn_eq {α γ : Type} (enter : List Enclosure → γ → γ) (f : γ → Expr → List α → α) (c : γ)
    (e : Expr) :
    e.foldIn enter f c = f c e (e.parts.map fun p => p.1.foldIn enter f (enter p.2 c)) := by
  rw [foldIn, fold_eq, List.zipWith_map_left, parts, List.map_zip_eq_zipWith]
  rfl

theorem mem_children_of_mem_parts {e : Expr} {p : Expr × List Enclosure} (h : p ∈ e.parts) :
    p.1 ∈ e.children :=
  (List.of_mem_zip h).1

/-- An expression and all expressions within it. -/
def subexpressions : Expr → List Expr := fold fun e parts => e :: parts.flatten

/-- The expressions within an expression are itself and those within its parts. -/
theorem subexpressions_eq (e : Expr) :
    e.subexpressions = e :: e.children.flatMap subexpressions := by
  rw [subexpressions, fold_eq, List.flatMap_def]

theorem mem_subexpressions_self (e : Expr) : e ∈ e.subexpressions := by
  rw [subexpressions_eq]
  exact List.mem_cons_self

theorem mem_subexpressions_of_child {e c x : Expr} (hc : c ∈ e.children)
    (hx : x ∈ c.subexpressions) : x ∈ e.subexpressions := by
  rw [subexpressions_eq]
  exact List.mem_cons_of_mem _ (List.mem_flatMap.2 ⟨c, hc, hx⟩)

theorem length_subexpressions_of_child {e c : Expr} (hc : c ∈ e.children) :
    c.subexpressions.length < e.subexpressions.length := by
  rw [subexpressions_eq e, List.length_cons, List.flatMap_def]
  exact Nat.lt_succ_of_le (List.sublist_flatten_of_mem (List.mem_map_of_mem hc)).length_le

/-- What goes from the parts of a node to the node holds of every expression. -/
@[elab_as_elim]
theorem children_induction {P : Expr → Prop} (e : Expr)
    (node : ∀ e, (∀ c ∈ e.children, P c) → P e) : P e :=
  node e fun c hc =>
    have := length_subexpressions_of_child hc
    children_induction c node
termination_by e.subexpressions.length

/-- The expression with its variables replaced, by their numbers; those for which
    there is nothing stay. -/
def substitute (σ : Nat → Option Expr) : Expr → Expr := fold fun e parts =>
  match e with
  | parameter v => (σ v.id).getD (parameter v)
  | e => e.withChildren parts

/-- An expression with all its nodes replaced, parts before the node they belong to. -/
def bottomUpM {m : Type → Type} [Monad m] (f : Expr → m Expr) : Expr → m Expr :=
  fold fun e parts => do f (e.withChildren (← parts.mapM id))

/-- Replacing bottom up is replacing the parts and then the node. -/
theorem bottomUpM_eq {m : Type → Type} [Monad m] [LawfulMonad m] (f : Expr → m Expr) (e : Expr) :
    bottomUpM f e = mapChildrenM (bottomUpM f) e >>= f := by
  rw [bottomUpM, fold_eq, List.mapM_map, mapChildrenM, bind_assoc]
  simp [Function.comp_def]

end Expr

end Scriptlet
