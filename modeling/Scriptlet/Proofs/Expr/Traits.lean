import Scriptlet.Catalog.Directory
import Scriptlet.Proofs.Expr.Contained
import Scriptlet.Proofs.Expr.Parts

/-!
# Traits of expressions

A trait is a property of expressions that a node has if its parts have it (`Trait`). It may
speak of the labels that jumps lead to, and it may demand something of the methods that are
called. All that operators, conversions and statements build of expressions with a trait has the
trait.

That the jumps of an expression are contained is such a trait (`Trait.contained`).
-/

namespace Scriptlet

/-- A property of expressions, for labels that jumps can lead to, that goes from the parts of a
    node to the node. -/
structure Trait where
  Holds : Set Nat → Expr → Prop
  /-- What is demanded of a call: of the method, whether there is a receiver, and of the type. -/
  Admits : Method → Bool → Ty → Prop
  /-- Whether there may be any `goto`. -/
  gotos : Prop
  mono {L L' : Set Nat} {e : Expr} : L ⊆ L' → Holds L e → Holds L' e
  node {L : Set Nat} {e : Expr} : e.isTurning = false → e.callee? = none →
    (∀ c ∈ e.children, Holds L c) → Holds L e
  child {L : Set Nat} {e : Expr} : e.isTurning = false → Holds L e → ∀ c ∈ e.children, Holds L c
  call {L : Set Nat} {m : Method} {receiver : Option Expr} {args : List Expr} {ts : List Ty}
    {t : Ty} : Admits m receiver.isSome t → (∀ e ∈ receiver, Holds L e) → (∀ e ∈ args, Holds L e) →
    Holds L (.call m receiver args ts t)
  block {L : Set Nat} {locals : List Variable} {body : List Expr} {t : Ty} :
    (∀ e ∈ body, Holds (L ∪ Expr.labelsIn body) e) → Holds L (.block locals body t)
  loop {L : Set Nat} {body : Expr} {b : Label} {c : Option Label} :
    Holds (L ∪ Expr.loopLabels b c) body → Holds L (.loop body b c)
  jump {L : Set Nat} {kind : JumpKind} {target : Label} {value : Option Expr} :
    target.id ∈ L ∨ gotos → (∀ e ∈ value, Holds L e) → Holds L (.jump kind target value)
  lambda {L : Set Nat} {params : List Variable} {body : Expr} {ret : Ty} : Holds ∅ body →
    Holds L (.lambda params body ret)

/-- The jumps of expressions are contained, if there is no `goto`. -/
def Trait.contained : Trait where
  Holds L e := e.Contained L
  Admits _ _ _ := True
  gotos := False
  mono hL he := he.mono hL
  node h _ hc := .node h hc
  child h he _ hc := he.child h hc
  call _ hr hargs := .node rfl fun c hc =>
    (List.mem_append.1 hc).elim (fun hc => hr c (Option.mem_toList.1 hc)) (hargs c)
  block := .block
  loop := .loop
  jump htarget := .jump (htarget.elim id False.elim)
  lambda := .lambda

namespace Trait.Holds

variable {M : Trait} {L L' : Set Nat} {e l r x : Expr} {t : Ty} {n : Nat}

theorem mono (h : M.Holds L e) (hL : L ⊆ L') : M.Holds L' e := M.mono hL h

theorem constant (c : Constant) : M.Holds L (.constant c) := M.node rfl rfl nofun

theorem parameter (v : Variable) : M.Holds L (.parameter v) := M.node rfl rfl nofun

theorem default (t : Ty) : M.Holds L (.default t) := M.node rfl rfl nofun

theorem unary {op : UnaryOp} (h : M.Holds L e) : M.Holds L (.unary op e t) :=
  M.node rfl rfl (by simpa [Expr.children] using h)

theorem binary {op : BinaryOp} (hl : M.Holds L l) (hr : M.Holds L r) :
    M.Holds L (.binary op l r t) :=
  M.node rfl rfl (by simp [Expr.children, hl, hr])

theorem conditional (h : M.Holds L e) (hl : M.Holds L l) (hr : M.Holds L r) :
    M.Holds L (.conditional e l r t) :=
  M.node rfl rfl (by simp [Expr.children, h, hl, hr])

theorem convertTo (h : M.Holds L e) (t : Ty) : M.Holds L (e.convertTo t) := by
  unfold Expr.convertTo
  split
  · exact h
  · exact M.node rfl rfl (by simpa [Expr.children] using h)

theorem coerce (h : M.Holds L e) (t : Ty) : M.Holds L (e.coerce t) := by
  unfold Expr.coerce
  split
  · exact h
  split
  · exact h.convertTo t
  · exact h

theorem assignTo (hl : M.Holds L l) (hr : M.Holds L r) : M.Holds L (.assignTo l r) :=
  M.node rfl rfl (by simp [Expr.assignTo, Expr.children, hl, hr.coerce])

/-- Statements may also jump to the labels among them. -/
theorem blockOf {vs : List Variable} {es : List Expr}
    (h : ∀ e ∈ es, M.Holds (L ∪ Expr.labelsIn es) e) : M.Holds L (.blockOf vs es) :=
  M.block h

theorem blockOf_of_each {vs : List Variable} {es : List Expr} (h : ∀ e ∈ es, M.Holds L e) :
    M.Holds L (.blockOf vs es) :=
  blockOf fun e he => (h e he).mono Set.subset_union_left

theorem labelAt {target : Label} {value : Option Expr} (h : ∀ e ∈ value, M.Holds L e) :
    M.Holds L (.labelAt target value) :=
  M.node rfl rfl fun c hc => h c (Option.mem_toList.1 hc)

theorem labelAt_none {target : Label} : M.Holds L (.labelAt target none) := labelAt nofun

theorem inScope {vs : List Variable} (h : M.Holds L e) : M.Holds L (e.scoped vs) := by
  unfold Expr.scoped
  split
  · exact h
  · exact blockOf_of_each (by simpa using h)

/-- The test of a loop leaves to a label of the loop. -/
theorem exitUnless {b : Label} {c : Option Label} (h : M.Holds L e) :
    M.Holds (L ∪ Expr.loopLabels b c) (e.exitUnless b) :=
  conditional (h.mono Set.subset_union_left) (default _) (M.jump (.inl (.inr (.inl rfl))) nofun)

theorem applyBinary {op : BinaryOp} (hl : M.Holds L l) (hr : M.Holds L r)
    (h : Expr.applyBinary op l r n = .ok x) : M.Holds L x := by
  have hin {s t : Ty} : M.Holds L (.binaryIn op l r s t) := binary (hl.convertTo s) (hr.convertTo s)
  unfold Expr.applyBinary at h
  dsimp only at h
  repeat' split at h
  all_goals cases h
  all_goals first
    | exact hin
    | exact binary hl hr
    | exact binary (hl.convertTo _) (hr.convertTo _)
    | exact binary hl (hr.coerce _)

theorem applyUnary {op : UnaryOp} (he : M.Holds L e) (h : Expr.applyUnary op e n = .ok x) :
    M.Holds L x := by
  unfold Expr.applyUnary at h
  dsimp only at h
  repeat' split at h
  all_goals cases h
  all_goals first
    | exact unary he
    | exact unary (he.convertTo _)

theorem cast (he : M.Holds L e) (h : Expr.cast e t n = .ok x) : M.Holds L x := by
  unfold Expr.cast at h
  split at h
  · cases h
    exact he.convertTo t
  · cases h

theorem choose (he : M.Holds L e) (hl : M.Holds L l) (hr : M.Holds L r)
    (h : Expr.choose e l r n = .ok x) : M.Holds L x := by
  unfold Expr.choose at h
  split at h
  · cases h
  split at h
  · cases h
    exact conditional he (hl.coerce _) (hr.coerce _)
  · cases h

theorem asIndex (he : M.Holds L e) (h : e.asIndex n = .ok x) : M.Holds L x := by
  unfold Expr.asIndex at h
  split at h
  · cases h
    exact he.convertTo _
  · cases h
    exact he.convertTo _
  · cases h

theorem coerceIn {d : Directory} (he : M.Holds L e) (h : d.coerce e t n = .ok x) : M.Holds L x := by
  unfold Directory.coerce at h
  split at h
  · rename_i c hc
    cases h
    unfold Expr.constantAs? at hc
    split at hc
    · obtain ⟨-, hc⟩ := Option.ite_none_right_eq_some.1 hc
      obtain ⟨m, -, rfl⟩ := Option.map_eq_some_iff.1 hc
      exact (constant _).coerce t
    · cases hc
  · split at h
    · cases h
      exact he.coerce t
    · cases h

end Trait.Holds

end Scriptlet
