import Mathlib.Tactic.Choose
import Scriptlet.Proofs.Expr.Parts
import Scriptlet.Proofs.Expr.Sameness

/-!
# What rules ask for

A rule decides about a node at once, or it asks for other nodes to be simplified and goes
on with the answers. `Plan` is such a course of action on its own, without the simplifier
that answers. Every standard rule but the one for inlining follows a plan
(`Simplifier.exists_plan`), about which two things are known.

* It descends: the nodes that it asks for are of a lower rank than the node that it is for
  (`Expr.rank`), and what it gives in the end is no heavier (`Expr.weight`).
* It stays within any set of expressions that has the parts of the node, all constants and
  the answers (`Simplification.Closed`).

Neither the size nor the number of operators falls with every rule. Sums become differences
and differences sums, both become products, and products become powers with a sum in the
exponent. In the weight, constants count less than anything else, divisions more than
products and calls more than operators; of two nodes that weigh the same, a sum or a
difference comes before a product, and a product before all else.
-/

namespace Scriptlet

/-! ## Weight and rank -/

namespace Expr

/-- What a node adds to the weight of an expression. -/
def nodeWeight : Expr → Nat
  | constant _ => 1
  | unary _ _ _ => 2
  | binary op _ _ _ => if op = .divide then 2 else 1
  | _ => 3

/-- The weight of an expression. -/
def weight (e : Expr) : Nat := (e.subexpressions.map nodeWeight).sum

/-- The place of a node among those of its weight. -/
def stage : Expr → Nat
  | binary op _ _ _ => if op = .add ∨ op = .subtract then 2 else if op = .multiply then 1 else 0
  | _ => 0

/-- The rank of a node. No rule asks for a node of the same or a higher rank. -/
def rank (e : Expr) : Nat := 3 * e.weight + e.stage

theorem weight_eq (e : Expr) : e.weight = e.nodeWeight + (e.children.map weight).sum := by
  rw [weight, subexpressions_eq, List.map_cons, List.sum_cons]
  congr 1
  induction e.children with
  | nil => rfl
  | cons c cs ih => rw [List.flatMap_cons, List.map_append, List.sum_append, ih]; rfl

theorem nodeWeight_pos (e : Expr) : 0 < e.nodeWeight := by
  cases e <;> simp only [nodeWeight] <;> (try split) <;> omega

theorem weight_pos (e : Expr) : 0 < e.weight := by
  rw [weight_eq]
  have := e.nodeWeight_pos
  omega

@[simp, grind =] theorem weight_number (n : Number) : (number n).weight = 1 := rfl

@[simp, grind =] theorem weight_unary (op : UnaryOp) (e : Expr) (t : Ty) :
    (unary op e t).weight = 2 + e.weight := by
  simp [weight_eq (unary op e t), nodeWeight, children]

@[simp, grind =] theorem weight_binary (op : BinaryOp) (l r : Expr) (t : Ty) :
    (binary op l r t).weight = (if op = .divide then 2 else 1) + l.weight + r.weight := by
  simp [weight_eq (binary op l r t), nodeWeight, children, Nat.add_assoc]

@[simp, grind =] theorem weight_call (m : Method) (args : List Expr) (ts : List Ty) (t : Ty) :
    (call m none args ts t).weight = 3 + (args.map weight).sum := by
  simp [weight_eq (call m none args ts t), nodeWeight, children]

attribute [grind =] rank stage

theorem weight_le_of_child {e c : Expr} (h : c ∈ e.children) : c.weight + 1 ≤ e.weight := by
  have hc : c.weight ≤ (e.children.map weight).sum :=
    List.single_le_sum (fun _ _ => Nat.zero_le _) _ (List.mem_map_of_mem h)
  have := e.nodeWeight_pos
  rw [e.weight_eq]
  omega

/-- Only constants weigh less than three. -/
theorem three_le_weight {e : Expr} (h : e.constant? = none) : 3 ≤ e.weight := by
  cases e with
  | constant _ => cases h
  | unary op e t => have := e.weight_pos; simp only [weight_unary]; omega
  | binary op l r t =>
    have hl := l.weight_pos
    have hr := r.weight_pos
    rw [weight_binary]
    split <;> omega
  | _ => exact (weight_eq _).symm ▸ Nat.le_add_right 3 _

theorem constant?_eq_none_of_same {x y : Expr} (h : x.same y) (hx : x.constant? = none) :
    y.constant? = none := by
  cases y with
  | constant c =>
    cases x with
    | constant _ => cases hx
    | _ => cases ctorIdx_of_sameIn h
  | _ => rfl

end Expr

/-! ## Plans -/

/-- A node that rules build: no call of a lambda, and if it calls a method, then one that
    stands for a function, with the type that the method returns. -/
structure Expr.IsFresh (method? : MathFunction → Option Method) (e : Expr) : Prop where
  shape : e.shape ≠ .invoke
  callee : ∀ m b t, e.callee? = some (m, b, t) → b = false ∧ t = m.ret ∧ ∃ f, method? f = some m

theorem Expr.isFresh_unary (method? : MathFunction → Option Method) (op : UnaryOp) (e : Expr)
    (t : Ty) : (unary op e t).IsFresh method? :=
  ⟨nofun, fun _ _ _ h => by cases h⟩

theorem Expr.isFresh_binary (method? : MathFunction → Option Method) (op : BinaryOp) (l r : Expr)
    (t : Ty) : (binary op l r t).IsFresh method? :=
  ⟨nofun, fun _ _ _ h => by cases h⟩

/-- What can stand for a node, if anything: it is in a set and no heavier. -/
def Expr.Admits (R : Expr → Prop) (e : Expr) (o : Option Expr) : Prop :=
  ∀ y, o = some y → R y ∧ y.weight ≤ e.weight

/-- What a rule does with a node: it gives an answer, or asks for a node to be simplified
    and goes on with that. -/
inductive Plan
  | give (answer : Except Halt (Option Expr))
  | ask (e : Expr) (next : Expr → Plan)

namespace Plan

/-- Asks for a node and gives the answer as it is. -/
def node (e : Expr) : Plan := ask e fun e' => give (.ok (some e'))

/-- The outcome of a plan with some way to simplify nodes. -/
def run (simplify : Expr → Except Halt Expr) : Plan → Except Halt (Option Expr)
  | give answer => answer
  | ask e next => do (next (← simplify e)).run simplify

@[simp] theorem run_node (f : Expr → Except Halt Expr) (e : Expr) :
    (node e).run f = some <$> f e := by
  rw [map_eq_pure_bind]
  rfl

/-- A plan for a node descends in rank and weight, and what it gives is in a set if what
    it is answered is. -/
def Descends (method? : MathFunction → Option Method) (R : Expr → Prop) (e : Expr) : Plan → Prop
  | give answer => Ends (e.Admits R) (· ≠ .exhausted) answer
  | ask y next =>
    y.rank < e.rank ∧ y.IsFresh method? ∧ (∀ c ∈ y.children, R c) ∧
      ∀ z, R z → z.weight ≤ y.weight → (next z).Descends method? R e

/-- A plan never leaves the node to other rules. -/
def Concludes : Plan → Prop
  | give answer => answer ≠ .ok none
  | ask _ next => ∀ z, (next z).Concludes

end Plan

namespace Simplification

/-- Expressions that have their parts with them, all constants, and the calls that stand
    for combinations of others. -/
structure Closed (method? : MathFunction → Option Method) (R : Expr → Prop) : Prop where
  constant : ∀ c, R (.constant c)
  child : ∀ {e c}, R e → c ∈ e.children → R c
  call : ∀ {f g e x m}, R e → f ∈ [MathFunction.sin, .cos, .tan] → e.argumentOf? f = some x →
    method? g = some m → R (.call m none [x] [] m.ret)
  inverse : ∀ {m x}, R (.call m none [x] [] m.ret) →
    R (.binary .divide (.number (.double 1)) (.call m none [x] [] m.ret) .double)

variable {method? : MathFunction → Option Method} {R : Expr → Prop} {e : Expr}

theorem forall_operands {op : BinaryOp} {l r : Expr} {t : Ty} :
    (∀ c ∈ (Expr.binary op l r t).children, R c) ↔ R l ∧ R r := by
  simp [Expr.children]

theorem Closed.operands (hR : Closed method? R) {op : BinaryOp} {l r : Expr} {t : Ty}
    (h : R (.binary op l r t)) : R l ∧ R r :=
  forall_operands.1 fun _ => hR.child h

/-- What is done with a node, under a condition, is a plan that descends. It does not leave the
    node to other rules, unless it misses the method for a function. -/
def Pursued (method? : MathFunction → Option Method) (R : Expr → Prop) (e : Expr) (given : Prop)
    (act : Tools → Except Halt (Option Expr)) : Prop :=
  ∃ p : Plan, (given → p.Descends method? R e) ∧ (p.Concludes ∨ ∃ f, method? f = none) ∧
    ∀ t : Tools, t.method? = method? → act t = p.run t.node

/-- What a rule does with a node is nothing, or a plan that descends. -/
def Planned (method? : MathFunction → Option Method) (R : Expr → Prop) (e : Expr)
    (act : Tools → Except Halt (Option Expr)) : Prop :=
  (∀ t : Tools, t.method? = method? → act t = .ok none) ∨ Pursued method? R e True act

namespace Pursued

variable {given : Prop} {y l r : Expr} {op : BinaryOp} {type : Ty}

/-- Asking for one node and giving the answer. -/
theorem node (hs : y.IsFresh method?)
    (h : given → y.rank < e.rank ∧ y.weight ≤ e.weight ∧ ∀ c ∈ y.children, R c) :
    Pursued method? R e given fun t => some <$> t.node y := by
  refine ⟨.node y, fun hg => ?_, .inl fun z => nofun, ?_⟩
  · obtain ⟨hrank, hw, hy⟩ := h hg
    refine ⟨hrank, hs, hy, fun z hz hzw => ?_⟩
    rintro _ ⟨⟩
    exact ⟨hz, hzw.trans hw⟩
  · exact fun t _ => (Plan.run_node t.node y).symm

/-- Asking for a node and going on. -/
theorem ask {act : Expr → Tools → Except Halt (Option Expr)} (hs : y.IsFresh method?)
    (h : given → y.rank < e.rank ∧ ∀ c ∈ y.children, R c)
    (hnext : ∀ z, Pursued method? R e (given ∧ R z ∧ z.weight ≤ y.weight) (act z)) :
    Pursued method? R e given fun t => t.node y >>= fun z => act z t := by
  choose p hd hc hrun using hnext
  refine ⟨.ask y p, fun hg => ?_, ?_, fun t ht => ?_⟩
  · obtain ⟨hrank, hy⟩ := h hg
    exact ⟨hrank, hs, hy, fun z hz hzw => hd z ⟨hg, hz, hzw⟩⟩
  · by_cases hm : ∃ f, method? f = none
    · exact .inr hm
    · exact .inl fun z => (hc z).resolve_right hm
  · exact bind_congr fun z => hrun z t ht

theorem binary (h : given → (Expr.binary op l r type).rank < e.rank ∧
      (Expr.binary op l r type).weight ≤ e.weight ∧ R l ∧ R r) :
    Pursued method? R e given fun t => some <$> t.node (.binary op l r type) :=
  node (Expr.isFresh_binary ..) fun hg => (h hg).imp_right (And.imp_right forall_operands.2)

theorem askBinary {act : Expr → Tools → Except Halt (Option Expr)}
    (h : given → (Expr.binary op l r type).rank < e.rank ∧ R l ∧ R r)
    (hnext : ∀ z, Pursued method? R e
      (given ∧ R z ∧ z.weight ≤ (Expr.binary op l r type).weight) (act z)) :
    Pursued method? R e given fun t => t.node (.binary op l r type) >>= fun z => act z t :=
  ask (Expr.isFresh_binary ..) (fun hg => (h hg).imp_right forall_operands.2) hnext

end Pursued

namespace Planned

/-- What is decided without tools. -/
theorem give {answer : Except Halt (Option Expr)}
    (h : Ends (Expr.Admits R e) (· ≠ .exhausted) answer) :
    Planned method? R e fun _ => answer := by
  by_cases hn : answer = .ok none
  · exact .inl fun _ _ => hn
  · exact .inr ⟨.give answer, fun _ => h, .inl hn, fun _ _ => rfl⟩

theorem pass : Planned method? R e fun _ => pure none := .inl fun _ _ => rfl

end Planned

section Parts

variable {y c : Expr} (hR : Closed method? R) (he : ∀ c ∈ e.children, R c)

theorem admits_none : e.Admits R none := nofun

include hR in
theorem admits_constant (c : Constant) : e.Admits R (some (.constant c)) := by
  rintro _ ⟨⟩
  exact ⟨hR.constant c, e.weight_pos⟩

include he in
theorem admits_child (hc : c ∈ e.children) : e.Admits R (some c) := by
  rintro _ ⟨⟩
  have := Expr.weight_le_of_child hc
  exact ⟨he c hc, by omega⟩

include hR he in
theorem admits_grandchild (hc : c ∈ e.children) (hy : y ∈ c.children) : e.Admits R (some y) := by
  rintro _ ⟨⟩
  have := Expr.weight_le_of_child hc
  have := Expr.weight_le_of_child hy
  exact ⟨hR.child (he c hc) hy, by omega⟩

end Parts

/-! ## Constants -/

section Constants

variable (hR : Closed method? R) (he : ∀ c ∈ e.children, R c)

include hR in
theorem admits_map_bool (o : Option Bool) : e.Admits R (o.map .bool) := by
  cases o with
  | none => exact admits_none
  | some _ => exact admits_constant hR _

include hR in
theorem ends_numbers (op : BinaryOp) (a b : Number) (type : Ty) :
    Ends (e.Admits R) (· ≠ .exhausted) (numbers op a b type) := by
  unfold numbers
  split
  · exact admits_constant hR _
  · split
    · exact admits_constant hR _
    · split
      · split
        · exact admits_constant hR _
        · exact fun h => Halt.noConfusion h
      · exact admits_none

include hR in
theorem admits_strings? (op : BinaryOp) (a b : String) : e.Admits R (strings? op a b) := by
  unfold strings?
  split <;> first | exact admits_constant hR _ | exact admits_none

include hR in
theorem ends_binaryConstants (t : Tools) :
    Ends (e.Admits R) (· ≠ .exhausted) (binaryConstants t e) := by
  unfold binaryConstants
  split
  · split
    · exact ends_numbers hR _ _ _ _
    · exact admits_map_bool hR _
    · exact admits_strings? hR _ _ _
    · exact admits_map_bool hR _
    · exact admits_none
  · exact admits_none

include hR he in
theorem admits_shortCircuit : e.Admits R (shortCircuit e) := by
  unfold shortCircuit
  split
  · split
    · exact admits_child he (by simp [Expr.children])
    · exact admits_constant hR _
  · split
    · exact admits_constant hR _
    · exact admits_child he (by simp [Expr.children])
  · exact admits_none

include hR he in
theorem admits_coalesced : e.Admits R (coalesced e) := by
  unfold coalesced
  split
  · exact admits_child he (by simp [Expr.children])
  · split
    · exact admits_constant hR _
    · exact admits_none
  · exact admits_none

include hR in
theorem admits_unaryConstant : e.Admits R (unaryConstant e) := by
  unfold unaryConstant
  split
  · exact admits_constant hR _
  · cases Ty.numericKind? _ with
    | none => exact admits_none
    | some k =>
      rw [Option.bind_some]
      split
      · exact admits_constant hR _
      · exact admits_constant hR _
      · cases Number.complement? _ with
        | none => exact admits_none
        | some m => exact admits_constant hR _
      · exact admits_none
  · exact admits_none

include hR in
theorem admits_converted : e.Admits R (converted e) := by
  unfold converted
  split
  · cases Ty.numericKind? _ with
    | none => exact admits_none
    | some k =>
      rw [Option.bind_some]
      split <;> first | exact admits_constant hR _ | exact admits_none
  · exact admits_none

include hR in
theorem admits_functionValue : e.Admits R (functionValue e) := by
  intro y hy
  suffices h : ∃ c, y = .constant c by
    obtain ⟨c, rfl⟩ := h
    exact admits_constant hR c _ rfl
  unfold functionValue at hy
  split at hy
  · simp only [Option.bind_eq_bind, Option.bind_eq_some_iff] at hy
    obtain ⟨f, -, k, -, hy⟩ := hy
    split at hy
    · simp only [Option.bind_eq_some_iff] at hy
      obtain ⟨xs, -, v, -, hy⟩ := hy
      cases hy
      exact ⟨_, rfl⟩
    · cases hy
  · cases hy

include he in
theorem admits_branch : e.Admits R (branch e) := by
  unfold branch
  split
  · split <;> exact admits_child he (by simp [Expr.children])
  · exact admits_none

end Constants

/-! ## Neutral operands and signs -/

section Neutral

variable (hR : Closed method? R) (he : ∀ c ∈ e.children, R c)

include he in
theorem admits_keepLeft : e.Admits R (keepLeft e) := by
  unfold keepLeft
  split
  · split
    · exact admits_child he (by simp [Expr.children])
    · exact admits_none
  · exact admits_none

include he in
theorem admits_keepRight : e.Admits R (keepRight e) := by
  unfold keepRight
  split
  · split
    · exact admits_child he (by simp [Expr.children])
    · exact admits_none
  · exact admits_none

include hR in
theorem admits_result (x : Float) : e.Admits R (result x e) := by
  unfold result
  cases e.type.numericKind? with
  | none => exact admits_none
  | some k => exact admits_constant hR _

include hR he in
theorem admits_negatedTwice : e.Admits R (negatedTwice e) := by
  unfold negatedTwice
  split
  · split
    · exact admits_grandchild hR he List.mem_cons_self List.mem_cons_self
    · exact admits_none
  · exact admits_none

include hR he in
theorem admits_deniedTwice : e.Admits R (deniedTwice e) := by
  unfold deniedTwice
  split
  · exact admits_grandchild hR he List.mem_cons_self List.mem_cons_self
  · exact admits_none

end Neutral

section Signs

variable {l r : Expr} {type : Ty} (hR : Closed method? R) (hl : R l) (hr : R r)

theorem of_negated? {b : Expr} (h : negated? type r = some b) : ∃ t, r = .unary .negate b t := by
  unfold negated? at h
  split at h
  · split at h
    · cases h
      exact ⟨_, rfl⟩
    · cases h
  · cases h

include hr in
theorem planned_negateRight :
    Planned method? R (.binary .subtract l r type)
      fun t => negateRight t (.binary .subtract l r type) := by
  by_cases h : negatable type
  · simp only [negateRight, if_pos h]
    have := l.weight_pos
    refine .inr (.node (Expr.isFresh_unary ..) fun _ => ⟨?_, ?_, by simpa [Expr.children] using hr⟩) <;>
      simp [Expr.rank, Expr.stage] <;> omega
  · simp only [negateRight, if_neg h]
    exact .pass

include hR hl hr in
theorem planned_addNegated :
    Planned method? R (.binary .add l r type) fun t => addNegated t (.binary .add l r type) := by
  cases h : negated? type r with
  | none => simp only [addNegated, h]; exact .pass
  | some b =>
    obtain ⟨_, rfl⟩ := of_negated? h
    simp only [addNegated, h]
    have hb : R b := hR.child hr List.mem_cons_self
    exact .inr (.binary fun _ => ⟨by grind, by grind, hl, hb⟩)

include hR hl hr in
theorem planned_negatedAdd :
    Planned method? R (.binary .add l r type) fun t => negatedAdd t (.binary .add l r type) := by
  cases h : negated? type l with
  | none => simp only [negatedAdd, h]; exact .pass
  | some a =>
    obtain ⟨_, rfl⟩ := of_negated? h
    simp only [negatedAdd, h]
    have ha : R a := hR.child hl List.mem_cons_self
    exact .inr (.binary fun _ => ⟨by grind, by grind, hr, ha⟩)

include hR hl hr in
theorem planned_subtractNegated :
    Planned method? R (.binary .subtract l r type)
      fun t => subtractNegated t (.binary .subtract l r type) := by
  cases h : negated? type r with
  | none => simp only [subtractNegated, h]; exact .pass
  | some b =>
    obtain ⟨_, rfl⟩ := of_negated? h
    simp only [subtractNegated, h]
    have hb : R b := hR.child hr List.mem_cons_self
    exact .inr (.binary fun _ => ⟨by grind, by grind, hl, hb⟩)

include hR hl in
theorem planned_negateDifference :
    Planned method? R (.unary .negate l type)
      fun t => negateDifference t (.unary .negate l type) := by
  unfold negateDifference
  split
  · rename_i op a b inner _ h
    cases h
    split
    · obtain ⟨ha, hb⟩ := hR.operands hl
      exact .inr (.binary fun _ => ⟨by grind, by grind, hb, ha⟩)
    · exact .pass
  · exact .pass

/-- One factor of a product is negated, and the other is as it was. -/
theorem of_unsigned? {a b : Expr} (h : unsigned? l r type = some (a, b)) :
    (a = l ∧ ∃ t, r = .unary .negate b t) ∨ (b = r ∧ ∃ t, l = .unary .negate a t) := by
  unfold unsigned? at h
  split at h
  · rename_i hb
    cases h
    exact .inl ⟨rfl, of_negated? hb⟩
  · rename_i ha _
    cases h
    exact .inr ⟨rfl, of_negated? ha⟩
  · cases h

include hR hl hr in
theorem planned_multiplyNegated :
    Planned method? R (.binary .multiply l r type)
      fun t => multiplyNegated t (.binary .multiply l r type) := by
  by_cases hn : negatable type
  · cases h : unsigned? l r type with
    | none => simp only [multiplyNegated, if_pos hn, h]; exact .pass
    | some ab =>
      obtain ⟨a, b⟩ := ab
      simp only [multiplyNegated, if_pos hn, h]
      -- The negation that moves out of the product weighs what it weighed inside.
      obtain ⟨hw, ha, hb⟩ : a.weight + b.weight + 2 = l.weight + r.weight ∧ R a ∧ R b := by
        rcases of_unsigned? h with ⟨rfl, _, rfl⟩ | ⟨rfl, _, rfl⟩
        · exact ⟨by rw [Expr.weight_unary]; omega, hl, hR.child hr List.mem_cons_self⟩
        · exact ⟨by rw [Expr.weight_unary]; omega, hR.child hl List.mem_cons_self, hr⟩
      refine .inr (.askBinary (fun _ => ⟨by grind, ha, hb⟩) fun product => ?_)
      refine .node (Expr.isFresh_unary ..) fun h => ⟨?_, ?_, by simp [Expr.children, h.2.1]⟩ <;>
        grind
  · simp only [multiplyNegated, if_neg hn]
    exact .pass

end Signs

/-! ## Factors and quotients -/

section Factors

variable {l r : Expr} {type : Ty} (hR : Closed method? R) (hl : R l) (hr : R r)

include hR hl in
theorem of_multiple : R (multiple l).2 ∧ (multiple l).2.weight ≤ l.weight := by
  unfold multiple
  split
  · rename_i a b t
    split
    · exact ⟨hR.child hl (by simp [Expr.children]), by simp⟩
    · exact ⟨hR.child hl (by simp [Expr.children]), by simp; omega⟩
    · exact ⟨hl, le_rfl⟩
  · exact ⟨hl, le_rfl⟩

include hR hl in
theorem planned_commonFactor {op : BinaryOp} (hop : op = .add ∨ op = .subtract) :
    Planned method? R (.binary op l r type) fun t => commonFactor t (.binary op l r type) := by
  cases hk : type.numericKind? with
  | none => simp only [commonFactor, hk]; exact .pass
  | some k =>
    simp only [commonFactor, hk]
    split
    · split
      · obtain ⟨hx, hxw⟩ := of_multiple hR hl
        have := r.weight_pos
        refine .inr (.node (Expr.isFresh_binary ..) fun _ => ⟨?_, ?_, ?_⟩)
        · rcases hop with rfl | rfl <;> grind
        · rcases hop with rfl | rfl <;> grind
        · simp only [Expr.children, List.forall_mem_cons]
          exact ⟨hR.constant _, hx, List.forall_mem_nil _⟩
      · exact .give (by rintro ⟨⟩)
    · exact .pass

include hR hl in
theorem of_powerOf :
    R (powerOf l).1 ∧ R (powerOf l).2 ∧
      (powerOf l).1.weight + (powerOf l).2.weight ≤ l.weight + 1 := by
  unfold powerOf
  split
  · exact ⟨hR.child hl (by simp [Expr.children]), hR.child hl (by simp [Expr.children]),
      by simp; omega⟩
  · exact ⟨hl, hR.constant _, le_rfl⟩

include hR hl hr in
theorem planned_mergeExponents :
    Planned method? R (.binary .multiply l r type)
      fun t => mergeExponents t (.binary .multiply l r type) := by
  simp only [mergeExponents]
  split
  · rename_i h
    obtain ⟨hx, ha, hlw⟩ := of_powerOf hR hl
    obtain ⟨-, hb, hrw⟩ := of_powerOf hR hr
    -- Both bases weigh at least three, so a sum of the exponents weighs less than the product.
    simp only [isFactor, Bool.and_eq_true, Option.isNone_iff_eq_none] at h
    have hxw := Expr.three_le_weight h.2.1.1.1
    have hyw := Expr.three_le_weight (Expr.constant?_eq_none_of_same h.2.2 h.2.1.1.1)
    refine .inr (.askBinary (fun _ => ⟨by grind, ha, hb⟩) fun exponent => ?_)
    exact .binary fun h => ⟨by grind, by grind, hx, h.2.1⟩
  · exact .pass

theorem of_quotient? {a b : Expr} (h : quotient? type l = some (a, b)) :
    l = .binary .divide a b type := by
  unfold quotient? at h
  split at h
  · split at h
    · rename_i hi
      cases h
      rw [hi]
    · cases h
  · cases h

include hR hl hr in
theorem planned_quotientOfQuotients :
    Planned method? R (.binary .divide l r type)
      fun t => quotientOfQuotients t (.binary .divide l r type) := by
  simp only [quotientOfQuotients]
  split
  · rename_i a b c d _ hab hcd
    obtain rfl := of_quotient? hab
    obtain rfl := of_quotient? hcd
    obtain ⟨ha, hb⟩ := hR.operands hl
    obtain ⟨hc, hd⟩ := hR.operands hr
    refine .inr (.askBinary (fun _ => ⟨by grind, ha, hd⟩) fun dividend => ?_)
    refine .askBinary (fun _ => ⟨by grind, hb, hc⟩) fun divisor => ?_
    exact .binary fun h => ⟨by grind, by grind, h.1.2.1, h.2.1⟩
  · exact .pass

include hR hl hr in
theorem planned_quotientDivided :
    Planned method? R (.binary .divide l r type)
      fun t => quotientDivided t (.binary .divide l r type) := by
  simp only [quotientDivided]
  split
  · rename_i a b _ hab
    obtain rfl := of_quotient? hab
    obtain ⟨ha, hb⟩ := hR.operands hl
    refine .inr (.askBinary (fun _ => ⟨by grind, hb, hr⟩) fun divisor => ?_)
    exact .binary fun h => ⟨by grind, by grind, ha, h.2.1⟩
  · exact .pass

include hR hl hr in
theorem planned_dividedByQuotient :
    Planned method? R (.binary .divide l r type)
      fun t => dividedByQuotient t (.binary .divide l r type) := by
  simp only [dividedByQuotient]
  split
  · rename_i b c _ hbc
    obtain rfl := of_quotient? hbc
    obtain ⟨hb, hc⟩ := hR.operands hr
    refine .inr (.askBinary (fun _ => ⟨by grind, hl, hc⟩) fun dividend => ?_)
    exact .binary fun h => ⟨by grind, by grind, h.2.1, hb⟩
  · exact .pass

end Factors

/-! ## Functions -/

section Functions

variable {l r x : Expr} {type : Ty} {f g : MathFunction} (hR : Closed method? R) (hl : R l)
  (hr : R r)

theorem of_argumentOf? (h : l.argumentOf? f = some x) :
    ∃ m receiver ts t, l = .call m receiver [x] ts t ∧ m.canonical = some f := by
  unfold Expr.argumentOf? at h
  split at h
  · split at h
    · rename_i hm
      cases h
      exact ⟨_, _, _, _, rfl, hm⟩
    · cases h
  · cases h

theorem mem_children_of_argumentOf? (h : l.argumentOf? f = some x) : x ∈ l.children := by
  obtain ⟨_, _, _, _, rfl, -⟩ := of_argumentOf? h
  simp [Expr.children]

theorem weight_of_argumentOf? (h : l.argumentOf? f = some x) : x.weight + 3 ≤ l.weight := by
  obtain ⟨m, receiver, ts, t, rfl, -⟩ := of_argumentOf? h
  rw [Expr.weight_eq (.call m receiver [x] ts t)]
  simp [Expr.nodeWeight, Expr.children]
  omega

theorem of_sharedArgument? (h : sharedArgument? f g l r = some x) :
    l.argumentOf? f = some x ∧ ∃ y, r.argumentOf? g = some y := by
  simp only [sharedArgument?, Option.bind_eq_bind, Option.bind_eq_some_iff] at h
  obtain ⟨x', hx, y, hy, h⟩ := h
  split at h
  · cases h
    exact ⟨hx, y, hy⟩
  · cases h

theorem planned_powerOperator (he : ∀ c ∈ e.children, R c) :
    Planned method? R e fun t => powerOperator t e := by
  unfold powerOperator
  split
  · rename_i m a b ts t
    split
    · have ha : R a := he a (by simp [Expr.children])
      have hb : R b := he b (by simp [Expr.children])
      refine .inr (.node (Expr.isFresh_binary ..) fun _ => ⟨?_, ?_, by simp [Expr.children, ha, hb]⟩) <;>
        simp [Expr.rank, Expr.stage] <;> omega
    · exact .pass
  · exact .pass

include hR in
theorem admits_pythagorean : e.Admits R (pythagorean e) := by
  unfold pythagorean
  split
  · split
    · exact admits_constant hR _
    · exact admits_none
  · exact admits_none

/-- A rule that calls a method for a function, if there is one. -/
theorem planned_call (g : MathFunction) (o : Option Expr) (build : Expr → Expr)
    (h : ∀ x m, o = some x → method? g = some m →
      e.Admits R (some (build (.call m none [x] [] m.ret)))) :
    Planned method? R e fun t => pure ((o.bind fun x => t.call? g [x]).map build) := by
  cases hx : o with
  | none => exact .pass
  | some x =>
    cases hm : method? g with
    | none =>
      refine .inl fun t ht => ?_
      simp only [Option.bind_some, Tools.call?, ht, hm]
      rfl
    | some m =>
      refine .inr ⟨.give (.ok (some _)), fun _ => h x m hx hm, .inl nofun, fun t ht => ?_⟩
      simp only [Option.bind_some, Tools.call?, ht, hm]
      rfl

section Trigonometry

variable {op : BinaryOp} {m : Method} (hf : f ∈ [MathFunction.sin, .cos, .tan])
  (hm : method? g = some m)

include hR hl hf hm in
theorem admits_call (hx : l.argumentOf? f = some x) :
    (Expr.binary op l r type).Admits R (some (.call m none [x] [] m.ret)) := by
  rintro _ ⟨⟩
  have := weight_of_argumentOf? hx
  refine ⟨hR.call hl hf hx hm, ?_⟩
  simp only [Expr.weight_call, Expr.weight_binary, List.map_cons, List.map_nil, List.sum_cons,
    List.sum_nil]
  omega

include hR hl in
theorem planned_sineOverCosine :
    Planned method? R (.binary op l r type) fun t => sineOverCosine t (.binary op l r type) := by
  have h : Planned method? R (.binary op l r type) _ :=
    planned_call .tan (sharedArgument? .sin .cos l r) id fun x m hx hm =>
      admits_call hR hl (by simp) hm (of_sharedArgument? hx).1
  simp only [Option.map_id_fun, id_eq] at h
  exact h

include hR hl in
theorem planned_cosineOverSine :
    Planned method? R (.binary .divide l r type)
      fun t => cosineOverSine t (.binary .divide l r type) := by
  refine planned_call .tan (sharedArgument? .cos .sin l r) _ fun x m hx hm => ?_
  obtain ⟨hx, y, hy⟩ := of_sharedArgument? hx
  rintro _ ⟨⟩
  have := weight_of_argumentOf? hx
  have := weight_of_argumentOf? hy
  refine ⟨hR.inverse (hR.call hl (by simp) hx hm), ?_⟩
  simp only [Expr.weight_call, Expr.weight_binary, Expr.weight_number, List.map_cons,
    List.map_nil, List.sum_cons, List.sum_nil, if_true]
  omega

include hR hl in
theorem planned_cosineTimesTangent :
    Planned method? R (.binary op l r type)
      fun t => cosineTimesTangent t (.binary op l r type) := by
  have h : Planned method? R (.binary op l r type) _ :=
    planned_call .sin ((sharedArgument? .cos .tan l r).or (sharedArgument? .tan .cos l r)) id
      fun x m hx hm => by
        rcases Option.or_eq_some_iff.1 hx with hx | ⟨-, hx⟩ <;>
          exact admits_call hR hl (by simp) hm (of_sharedArgument? hx).1
  simp only [Option.map_id_fun, id_eq] at h
  exact h

end Trigonometry

include hR hl hr in
theorem planned_joinLogarithms {op inner : BinaryOp} :
    Planned method? R (.binary op l r type)
      fun t => joinLogarithms inner t (.binary op l r type) := by
  simp only [joinLogarithms]
  split
  · rename_i f a b h
    simp only [Option.bind_eq_bind, Option.bind_eq_some_iff] at h
    obtain ⟨_, -, _, ha, _, hb, h⟩ := h
    cases h
    have hRa := hR.child hl (mem_children_of_argumentOf? ha)
    have hRb := hR.child hr (mem_children_of_argumentOf? hb)
    have haw := weight_of_argumentOf? ha
    have hbw := weight_of_argumentOf? hb
    refine .inr (.askBinary (fun _ => ⟨by grind, hRa, hRb⟩) fun z => ?_)
    cases hm : method? f with
    | none =>
      refine ⟨.give (.ok none), fun _ => admits_none, .inr ⟨f, hm⟩, fun t ht => ?_⟩
      simp only [Tools.call?, ht, hm]
      rfl
    | some m =>
      obtain ⟨p, hd, hc, hrun⟩ : Pursued method? R (.binary op l r type)
          (True ∧ R z ∧ z.weight ≤ (Expr.binary inner a b .double).weight)
          fun t => some <$> t.node (.call m none [z] [] m.ret) := by
        refine .node ⟨by rintro ⟨⟩, ?_⟩ fun h => ⟨?_, ?_, by simp [Expr.children, h.2.1]⟩
        · rintro _ _ _ ⟨⟩
          exact ⟨rfl, rfl, f, hm⟩
        all_goals grind
      refine ⟨p, hd, hc, fun t ht => ?_⟩
      simp only [Tools.call?, ht, hm]
      exact hrun t ht
  · exact .pass

end Functions

/-! ## All rules -/

theorem exists_of_shape_binary {op : BinaryOp} (h : e.shape = .binary op) :
    ∃ l r t, e = .binary op l r t := by
  cases e with
  | binary _ l r t => cases h; exact ⟨l, r, t, rfl⟩
  | _ => cases h

theorem exists_of_shape_unary {op : UnaryOp} (h : e.shape = .unary op) :
    ∃ a t, e = .unary op a t := by
  cases e with
  | unary _ a t => cases h; exact ⟨a, t, rfl⟩
  | _ => cases h

section Rules

variable {r : Rule} (hR : Closed method? R) (he : ∀ c ∈ e.children, R c) (hs : e.shape = r.shape)

include hR he in
theorem planned_constantRules (hr : r ∈ constantRules) :
    Planned method? R e fun t => r.replace t e := by
  simp only [constantRules, List.mem_append, List.mem_map, List.mem_cons, List.not_mem_nil,
    or_false] at hr
  rcases hr with ((((⟨_, -, rfl⟩ | ⟨_, -, rfl⟩) | ⟨_, -, rfl⟩) | rfl) | ⟨_, -, rfl⟩) |
    rfl | rfl | rfl
  · exact .give nofun
  · exact .give (ends_binaryConstants hR ⟨.ok, .ok, method?⟩)
  · exact .give (admits_shortCircuit hR he)
  · exact .give (admits_coalesced hR he)
  · exact .give (admits_unaryConstant hR)
  · exact .give (admits_converted hR)
  · exact .give (admits_functionValue hR)
  · exact .give (admits_branch he)

include hR he hs in
theorem planned_neutralRules (hr : r ∈ neutralRules) :
    Planned method? R e fun t => r.replace t e := by
  simp only [neutralRules, List.mem_cons, List.not_mem_nil, or_false] at hr
  rcases hr with rfl | rfl | rfl | rfl | rfl | rfl | rfl | rfl | rfl | rfl | rfl | rfl | rfl | rfl |
    rfl | rfl
  case inr.inr.inr.inl =>
    obtain ⟨_, b, _, rfl⟩ := exists_of_shape_binary hs
    exact planned_negateRight (he b (by simp [Expr.children]))
  all_goals
    first
    | exact .give (admits_keepLeft he)
    | exact .give (admits_keepRight he)
    | exact .give (admits_result hR _)
    | exact .give (admits_negatedTwice hR he)
    | exact .give (admits_deniedTwice hR he)

include hR he hs in
theorem planned_signRules (hr : r ∈ signRules) : Planned method? R e fun t => r.replace t e := by
  simp only [signRules, List.mem_cons, List.not_mem_nil, or_false] at hr
  rcases hr with rfl | rfl | rfl | rfl | rfl | rfl
  case inr.inr.inr.inl =>
    obtain ⟨a, _, rfl⟩ := exists_of_shape_unary hs
    exact planned_negateDifference hR (he a (by simp [Expr.children]))
  all_goals
    obtain ⟨a, b, _, rfl⟩ := exists_of_shape_binary hs
    obtain ⟨ha, hb⟩ := forall_operands.1 he
    first
    | exact planned_addNegated hR ha hb
    | exact planned_negatedAdd hR ha hb
    | exact planned_subtractNegated hR ha hb
    | exact planned_multiplyNegated hR ha hb

include hR he hs in
theorem planned_factorRules (hr : r ∈ factorRules) :
    Planned method? R e fun t => r.replace t e := by
  simp only [factorRules, List.mem_cons, List.not_mem_nil, or_false] at hr
  rcases hr with rfl | rfl | rfl
  all_goals
    obtain ⟨a, b, _, rfl⟩ := exists_of_shape_binary hs
    obtain ⟨ha, hb⟩ := forall_operands.1 he
    first
    | exact planned_commonFactor hR ha (by simp)
    | exact planned_mergeExponents hR ha hb

include hR he hs in
theorem planned_quotientRules (hr : r ∈ quotientRules) :
    Planned method? R e fun t => r.replace t e := by
  simp only [quotientRules, List.mem_cons, List.not_mem_nil, or_false] at hr
  rcases hr with rfl | rfl | rfl
  all_goals
    obtain ⟨a, b, _, rfl⟩ := exists_of_shape_binary hs
    obtain ⟨ha, hb⟩ := forall_operands.1 he
    first
    | exact planned_quotientOfQuotients hR ha hb
    | exact planned_quotientDivided hR ha hb
    | exact planned_dividedByQuotient hR ha hb

include hR he hs in
theorem planned_functionRules (hr : r ∈ functionRules) :
    Planned method? R e fun t => r.replace t e := by
  simp only [functionRules, List.mem_append, List.mem_flatMap, List.mem_cons, List.not_mem_nil,
    or_false] at hr
  rcases hr with (rfl | rfl | rfl | rfl | rfl | rfl) | ⟨f, -, rfl | rfl⟩
  · exact planned_powerOperator he
  · exact .give (admits_pythagorean hR)
  all_goals
    obtain ⟨a, b, _, rfl⟩ := exists_of_shape_binary hs
    obtain ⟨ha, hb⟩ := forall_operands.1 he
    first
    | exact planned_sineOverCosine hR ha
    | exact planned_cosineOverSine hR ha
    | exact planned_cosineTimesTangent hR ha
    | exact planned_joinLogarithms hR ha hb

include hR he hs in
/-- Every rule but the one for inlining follows a plan. -/
theorem planned_of_mem (hr : r ∈ Simplifier.standardRules) (hi : e.shape ≠ .invoke) :
    Planned method? R e fun t => r.replace t e := by
  simp only [Simplifier.standardRules, List.mem_append] at hr
  rcases hr with (((((hr | hr) | hr) | hr) | hr) | hr) | hr
  · exact planned_constantRules hR he hr
  · exact planned_neutralRules hR he hs hr
  · exact planned_signRules hR he hs hr
  · exact planned_factorRules hR he hs hr
  · exact planned_quotientRules hR he hs hr
  · exact planned_functionRules hR he hs hr
  · rw [inlineRules, List.mem_singleton] at hr
    subst hr
    exact absurd hs hi

end Rules

end Simplification

end Scriptlet
