import Scriptlet.Proofs.Simplification.Termination

/-!
# What simplifying leaves is at rest

An expression is at rest if at each of its nodes every depth of rules leaves the node as it
is (`Simplifier.AtRest`). Whatever the simplifier gives is at rest
(`Simplifier.rests_of_simplifyWithin`), so simplifying it again changes nothing.

The rules give parts of the node, constants, answers they asked for, and a few calls that
they build themselves. The first three are at rest because their parts were. A call that is
built, such as the tangent for sine over cosine, takes its argument from a call that was at
rest, and it is at rest if that argument is no constant. For that the calls of functions have
to be as the catalog has them, on no receiver and with a number as their result
(`Expr.Plain`): only such a call is replaced by its value when its argument is constant.
-/

namespace Scriptlet

open Simplification

variable {t : Ty}

/-! ## Plain calls -/

namespace Expr

variable {e : Expr}

/-- A call of a method that stands for a function has no receiver and gives a number. -/
def PlainNode (e : Expr) : Prop :=
  ∀ m b t, e.callee? = some (m, b, t) → m.canonical.isSome → b = false ∧ t.numericKind?.isSome

/-- All calls of functions within an expression are plain. -/
def Plain (e : Expr) : Prop := ∀ x ∈ e.subexpressions, x.PlainNode

theorem plain_iff : e.Plain ↔ e.PlainNode ∧ ∀ c ∈ e.children, c.Plain :=
  forall_subexpressions

theorem plainNode_of_callee (h : e.callee? = none) : e.PlainNode := by
  intro m b t hm
  rw [h] at hm
  cases hm

theorem PlainNode.congr {e' : Expr} (h : e.PlainNode) (heq : e'.callee? = e.callee?) :
    e'.PlainNode := by
  intro m b t hm
  exact h m b t (heq ▸ hm)

theorem plain_convert (h : e.Plain) : (convert e t).Plain :=
  plain_iff.2 ⟨plainNode_of_callee rfl, by simpa [children] using h⟩

theorem plain_convertTo (h : e.Plain) (t : Ty) : (e.convertTo t).Plain := by
  unfold convertTo
  split
  · exact h
  · exact plain_convert h

theorem plain_coerce (h : e.Plain) (t : Ty) : (e.coerce t).Plain := by
  unfold coerce
  split
  · exact h
  · split
    · exact plain_convertTo h t
    · exact h

/-- Plain expressions in the place of variables leave an expression plain. -/
theorem plain_substitute {σ : Nat → Option Expr} (hσ : ∀ id y, σ id = some y → y.Plain)
    (h : e.Plain) : (e.substitute σ).Plain := by
  induction hw : e.weight using Nat.strong_induction_on generalizing e with
  | _ w ih =>
    subst hw
    by_cases hv : ∃ v, e = parameter v
    · obtain ⟨v, rfl⟩ := hv
      change ((σ v.id).getD (parameter v)).Plain
      rcases hid : σ v.id with _ | y
      · exact h
      · exact hσ v.id y hid
    · have hv : ∀ v, e ≠ parameter v := fun v he => hv ⟨v, he⟩
      obtain ⟨hnode, hparts⟩ := plain_iff.1 h
      have hrebuilt := rebuilt_substitute σ hv
      refine plain_iff.2 ⟨hnode.congr hrebuilt.callee, forall_of_forall₂ hrebuilt.parts ?_⟩
      rintro c _ ⟨hc, rfl⟩
      exact ih c.weight (weight_le_of_child hc) (hparts c hc) rfl

end Expr

/-! ## At rest -/

namespace Simplifier

variable {m : Method} {x : Expr}

/-- An expression that no depth of rules changes anywhere. -/
def AtRest (s : Simplifier) (e : Expr) : Prop :=
  ∀ x ∈ e.subexpressions, ∀ n, s.node (n + 1) x = .ok x

variable {s : Simplifier} {catalog : Catalog} {e : Expr} {n : Nat}

theorem atRest_iff :
    s.AtRest e ↔ (∀ n, s.node (n + 1) e = .ok e) ∧ ∀ c ∈ e.children, s.AtRest c :=
  Expr.forall_subexpressions

/-- Simplifying what is at rest gives the same expression. -/
theorem AtRest.simplifyWithin (h : s.AtRest e) (n : Nat) : s.simplifyWithin (n + 1) e = .ok e := by
  induction hw : e.weight using Nat.strong_induction_on generalizing e with
  | _ w ih =>
    subst hw
    obtain ⟨hnode, hparts⟩ := atRest_iff.1 h
    rw [simplifyWithin_bind, Expr.mapChildrenM_eq_self fun c hc =>
      ih c.weight (Expr.weight_le_of_child hc) (hparts c hc) rfl]
    exact hnode n

theorem node_of_firstReplacement
    (h : firstReplacement (s.tools n) e (s.rulesFor e.shape) = .ok none) :
    s.node (n + 1) e = .ok e := by
  rw [node_succ, h]
  rfl

/-- Rules none of which finds what it asks for leave a node as it is. -/
theorem firstReplacement_of_fits {t : Tools} {rs : List Rule} (h : ∀ r ∈ rs, r.fits e = false) :
    firstReplacement t e rs = .ok none := by
  induction rs with
  | nil => rfl
  | cons r rs ih =>
    rw [firstReplacement, if_neg (by simp [h r List.mem_cons_self])]
    exact ih fun r hr => h r (List.mem_cons_of_mem _ hr)

/-- At rest, with plain calls. -/
def Rests (catalog : Catalog) (e : Expr) : Prop := (standard catalog).AtRest e ∧ e.Plain

theorem rests_iff :
    Rests catalog e ↔ ((∀ n, (standard catalog).node (n + 1) e = .ok e) ∧ e.PlainNode) ∧
      ∀ c ∈ e.children, Rests catalog c := by
  simp only [Rests, atRest_iff (e := e), Expr.plain_iff (e := e), forall_and]
  tauto

theorem rests_constant (c : Constant) : Rests catalog (.constant c) :=
  rests_iff.2 ⟨⟨fun _ => rfl, Expr.plainNode_of_callee rfl⟩, nofun⟩

/-! ### Calls that rules build -/

/-- The value of a function of one argument that is no number is not computed. -/
theorem functionValue_of_number? {ts : List Ty}
    (h : x.number? = none) : functionValue (.call m none [x] ts t) = none := by
  simp only [functionValue, Option.bind_eq_bind]
  rcases m.canonical with _ | f
  · rfl
  rcases t.numericKind? with _ | k
  · rfl
  simp [h]

theorem rulesFor_call : (standard catalog).rulesFor .call =
    [.simple .call [] functionValue, ⟨.call, [], powerOperator⟩] := rfl

/-- The argument of a call at rest of a trigonometric function is no number. -/
theorem number?_of_rests {f : MathFunction} (h : Rests catalog e)
    (hf : f ∈ [MathFunction.sin, .cos, .tan]) (hx : e.argumentOf? f = some x) :
    x.number? = none := by
  obtain ⟨m, receiver, ts, t, rfl, hm⟩ := of_argumentOf? hx
  obtain ⟨⟨hnode, hplain⟩, -⟩ := rests_iff.1 h
  obtain ⟨hreceiver, ht⟩ := hplain m _ t rfl (by rw [hm]; rfl)
  rw [Option.isSome_eq_false_iff, Option.isNone_iff_eq_none] at hreceiver
  obtain ⟨k, hk⟩ := Option.isSome_iff_exists.1 ht
  subst hreceiver
  rcases hn : x.number? with _ | c
  · rfl
  -- Otherwise the call would have been replaced by its value, which is a constant.
  have hvalue : ∃ y, functionValue (.call m none [x] ts t) = some (.constant y) := by
    simp only [List.mem_cons, List.not_mem_nil, or_false] at hf
    rcases hf with rfl | rfl | rfl <;>
      exact ⟨_, by simp [functionValue, hm, hk, hn, arity, MathFunction.value?,
        MathFunction.unary?]; rfl⟩
  obtain ⟨y, hy⟩ := hvalue
  obtain ⟨o, ho, hcall⟩ := firstReplacement_of_node (hnode 0)
  rw [show (Expr.call m none [x] ts t).shape = .call from rfl, rulesFor_call] at ho
  rcases firstReplacement_cons ho with ⟨-, z, hz, rfl⟩ | ⟨hno, -⟩
  · cases hy.symm.trans (Except.ok.inj hz)
    cases hcall
  · cases hy.symm.trans (Except.ok.inj (hno rfl))

/-- A call of one argument that is no number is left as it is. -/
theorem node_call {ts : List Ty} (h : x.number? = none) (n : Nat) :
    (standard catalog).node (n + 1) (.call m none [x] ts t) = .ok (.call m none [x] ts t) := by
  refine node_of_firstReplacement ?_
  rw [show (Expr.call m none [x] ts t).shape = .call from rfl, rulesFor_call]
  have hvalue : (Rule.simple .call [] functionValue).replace ((standard catalog).tools n)
      (.call m none [x] ts t) = .ok none := congrArg Except.ok (functionValue_of_number? h)
  have hfits : (Rule.simple .call [] functionValue).fits (.call m none [x] ts t) := rfl
  rw [firstReplacement, if_pos hfits, hvalue]
  rfl

/-- A quotient of one and a call is left as it is. -/
theorem node_inverse (c : Number) (n : Nat) :
    (standard catalog).node (n + 1)
        (.binary .divide (.number c) (.call m none [x] [] m.ret) t) =
      .ok (.binary .divide (.number c) (.call m none [x] [] m.ret) t) := by
  refine node_of_firstReplacement (firstReplacement_of_fits ?_)
  have hrules : (standard catalog).rulesFor (.binary .divide) =
      [⟨.binary .divide, [.any, .oneOf [0]], refuseDivision⟩,
        ⟨.binary .divide, [.constant, .constant], binaryConstants⟩,
        .simple (.binary .divide) [.any, .oneOf [1]] keepLeft,
        .simple (.binary .divide) [.oneOf [0], .nonZero] (result 0),
        ⟨.binary .divide, [.binary .divide, .binary .divide], quotientOfQuotients⟩,
        ⟨.binary .divide, [.binary .divide, .any], quotientDivided⟩,
        ⟨.binary .divide, [.any, .binary .divide], dividedByQuotient⟩,
        ⟨.binary .divide, [.function .sin, .function .cos], sineOverCosine⟩,
        ⟨.binary .divide, [.function .cos, .function .sin], cosineOverSine⟩] := rfl
  -- No rule asks for anything as its first operand and for a call as its second.
  have hno : Slot.nonZero.accepts (.call m none [x] [] m.ret) = false := rfl
  rw [show (Expr.binary .divide (.number c) (.call m none [x] [] m.ret) t).shape =
    .binary .divide from rfl, hrules]
  simp only [List.forall_mem_cons, Rule.simple, fits_binary, hno, Bool.and_false]
  exact ⟨rfl, rfl, rfl, trivial, rfl, rfl, rfl, rfl, rfl, List.forall_mem_nil _⟩

end Simplifier

/-- A catalog has a method for every function, which gives a number. -/
structure Catalog.HasFunctions (c : Catalog) : Prop where
  complete : ∀ f, c.function? f ≠ none
  numeric : ∀ {f m}, c.function? f = some m → m.ret.numericKind?.isSome

namespace Simplifier

variable {catalog : Catalog} {e : Expr} {n : Nat} (hcatalog : catalog.HasFunctions)

include hcatalog in
theorem closed_rests : Closed catalog.function? (Rests catalog) where
  constant := rests_constant
  child h hc := (rests_iff.1 h).2 _ hc
  call {f g e x m} h hf hx hm := by
    have hnumber := number?_of_rests h hf hx
    refine rests_iff.2 ⟨⟨node_call hnumber, ?_⟩, ?_⟩
    · rintro _ _ _ ⟨⟩ -
      exact ⟨rfl, hcatalog.numeric hm⟩
    · intro c hc
      obtain rfl := List.mem_singleton.1 hc
      exact (rests_iff.1 h).2 _ (mem_children_of_argumentOf? hx)
  inverse {m x} h := by
    refine rests_iff.2 ⟨⟨node_inverse _, Expr.plainNode_of_callee rfl⟩, ?_⟩
    simp only [Expr.children, List.forall_mem_cons]
    exact ⟨rests_constant _, h, List.forall_mem_nil _⟩

/-! ### Nodes that no rule replaces -/

end Simplifier

theorem Plan.Concludes.run_ne {p : Plan} (h : p.Concludes) (f : Expr → Except Halt Expr) :
    p.run f ≠ .ok none := by
  induction p with
  | give answer => exact h
  | ask y next ih =>
    rw [Plan.run]
    rcases f y with x | z
    · rintro ⟨⟩
    · exact ih z (h z)

/-- What leaves a node to other rules does so with all tools. -/
theorem Simplification.Planned.eq_none {method? : MathFunction → Option Method} {R : Expr → Prop}
    {e : Expr} {act : Tools → Except Halt (Option Expr)} {t t' : Tools}
    (h : Planned method? R e act) (hm : ∀ f, method? f ≠ none) (ht : t.method? = method?)
    (ht' : t'.method? = method?) (hact : act t = .ok none) : act t' = .ok none := by
  rcases h with h | ⟨p, -, hc, hrun⟩
  · exact h t' ht'
  · rcases hc with hc | ⟨f, hf⟩
    · exact absurd ((hrun t ht).symm.trans hact) (hc.run_ne t.node)
    · exact absurd hf (hm f)

namespace Simplifier

variable {catalog : Catalog} {e : Expr} {n : Nat} (hcatalog : catalog.HasFunctions)

theorem firstReplacement_eq_none_of_planned {method? : MathFunction → Option Method}
    {R : Expr → Prop} {rs : List Rule} {t t' : Tools}
    (hrs : ∀ r ∈ rs, Planned method? R e (r.replace · e)) (hm : ∀ f, method? f ≠ none)
    (ht : t.method? = method?) (ht' : t'.method? = method?)
    (h : firstReplacement t e rs = .ok none) : firstReplacement t' e rs = .ok none := by
  induction rs with
  | nil => rfl
  | cons r rs ih =>
    have hrest := ih fun r hr => hrs r (List.mem_cons_of_mem _ hr)
    rcases firstReplacement_cons h with ⟨-, y, -, hy⟩ | ⟨hno, h⟩
    · cases hy
    rw [firstReplacement]
    split
    · rename_i hfits
      rw [(hrs r List.mem_cons_self).eq_none hm ht ht' (hno hfits)]
      exact hrest h
    · exact hrest h

include hcatalog in
/-- A node that is no call of a lambda, with parts at rest, becomes something at rest. -/
theorem ends_node_of_rests (hi : e.shape ≠ .invoke) (hplain : e.PlainNode)
    (he : ∀ c ∈ e.children, Rests catalog c) :
    Ends (fun y => Rests catalog y ∧ y.weight ≤ e.weight) (fun _ => True)
      ((standard catalog).node n e) := by
  induction n generalizing e with
  | zero => trivial
  | succ n ih =>
    have hplanned := planned_rulesFor (closed_rests hcatalog) he hi
    have hanswers : Plan.Answers catalog.function? (Rests catalog) (fun _ => True) e
        ((standard catalog).node n) := by
      intro y _ hfresh hy
      refine ih hfresh.shape ?_ hy
      intro m b t hm _
      obtain ⟨hb, ht, f, hf⟩ := hfresh.callee m b t hm
      exact ⟨hb, ht ▸ hcatalog.numeric hf⟩
    have hends : Ends (e.Admits (Rests catalog)) (fun _ => True)
        (firstReplacement ((standard catalog).tools n) e ((standard catalog).rulesFor e.shape)) :=
      ends_firstReplacement hplanned rfl (fun _ _ => trivial) hanswers
    rw [node_succ]
    rcases ho : firstReplacement ((standard catalog).tools n) e
      ((standard catalog).rulesFor e.shape) with x | _ | y
    · trivial
    · refine ⟨rests_iff.2 ⟨⟨fun m => node_of_firstReplacement ?_, hplain⟩, he⟩, le_rfl⟩
      exact firstReplacement_eq_none_of_planned hplanned hcatalog.complete rfl rfl ho
    · rw [ho] at hends
      exact hends y rfl

/-! ### Calls of lambdas -/

theorem rulesFor_invoke : (standard catalog).rulesFor .invoke = inlineRules := rfl

/-- What a call of a lambda is replaced by, if it is replaced at all. -/
theorem firstReplacement_invoke (target : Expr) (args : List Expr) (t : Ty) :
    (∀ tools, firstReplacement tools (.invoke target args t) inlineRules = .ok none) ∨
      ∃ params body ret, target = .lambda params body ret ∧
        ∀ tools, firstReplacement tools (.invoke target args t) inlineRules =
          some <$> tools.whole ((body.substitute (argumentFor? params args)).coerce t) := by
  by_cases hfits : ∃ params body ret, target = .lambda params body ret
  · obtain ⟨params, body, ret, rfl⟩ := hfits
    by_cases hcan : canInline params body args
    · refine .inr ⟨params, body, ret, rfl, fun tools => ?_⟩
      simp only [inlineRules, firstReplacement, inlined, if_pos hcan]
      rcases tools.whole _ with x | y <;> rfl
    · refine .inl fun tools => ?_
      simp only [inlineRules, firstReplacement, inlined, if_neg hcan]
      rfl
  · refine .inl fun tools => firstReplacement_of_fits ?_
    intro r hr
    obtain rfl := List.mem_singleton.1 hr
    cases target with
    | lambda params body ret => exact absurd ⟨params, body, ret, rfl⟩ hfits
    | _ => rfl

theorem ends_invoke_of_rests {target : Expr} {args : List Expr} (hwhole : ∀ e : Expr, e.Plain →
      Ends (Rests catalog) (fun _ => True) ((standard catalog).simplifyWithin n e))
    (he : ∀ c ∈ (Expr.invoke target args t).children, Rests catalog c) :
    Ends (Rests catalog) (fun _ => True)
      ((standard catalog).node (n + 1) (.invoke target args t)) := by
  rw [node_succ, show (Expr.invoke target args t).shape = .invoke from rfl, rulesFor_invoke]
  rcases firstReplacement_invoke target args t with hno | ⟨params, body, ret, rfl, hyes⟩
  · rw [hno]
    refine rests_iff.2 ⟨⟨fun m => node_of_firstReplacement (hno _), ?_⟩, he⟩
    exact Expr.plainNode_of_callee rfl
  · rw [hyes]
    have htarget : (Expr.lambda params body ret).Plain := (he _ List.mem_cons_self).2
    have hbody : body.Plain := (Expr.plain_iff.1 htarget).2 body List.mem_cons_self
    have hargs : ∀ id y, argumentFor? params args id = some y → y.Plain := by
      intro id y hy
      obtain ⟨⟨v, a⟩, hfind, rfl⟩ := Option.map_eq_some_iff.1 hy
      have ha : a ∈ args := (List.of_mem_zip (List.mem_of_find?_eq_some hfind)).2
      exact Expr.plain_coerce (he a (List.mem_cons_of_mem _ ha)).2 v.type
    have hplain := Expr.plain_coerce (Expr.plain_substitute hargs hbody) t
    have hends : Ends (fun o => ∀ e, Rests catalog (o.getD e)) (fun _ => True)
        (some <$> (standard catalog).simplifyWithin n _) := (hwhole _ hplain).map fun _ hy _ => hy
    exact hends.map fun _ ho => ho _

/-! ### Whole expressions -/

theorem ends_simplifyWithin_of_node (h : e.Plain)
    (hnode : ∀ e : Expr, e.PlainNode → (∀ c ∈ e.children, Rests catalog c) →
      Ends (Rests catalog) (fun _ => True) ((standard catalog).node n e)) :
    Ends (Rests catalog) (fun _ => True) ((standard catalog).simplifyWithin n e) := by
  induction hw : e.weight using Nat.strong_induction_on generalizing e with
  | _ w ih =>
    subst hw
    obtain ⟨hplain, hparts⟩ := Expr.plain_iff.1 h
    have hchildren : ∀ c ∈ e.children, Ends (Rests catalog) (fun _ => True)
        ((standard catalog).simplifyWithin n c) := fun c hc =>
      ih c.weight (Expr.weight_le_of_child hc) (hparts c hc) rfl
    rw [simplifyWithin_bind]
    refine (Expr.ends_mapChildrenM hchildren).bind fun e' he' => ?_
    refine hnode e' (hplain.congr he'.callee) ?_
    exact forall_of_forall₂ he'.parts fun _ _ => id

include hcatalog in
/-- What the simplifier gives is at rest, whatever the depth. -/
theorem ends_simplifyWithin_of_plain (n : Nat) :
    ∀ e : Expr, e.Plain →
      Ends (Rests catalog) (fun _ => True) ((standard catalog).simplifyWithin n e) := by
  induction n with
  | zero =>
    intro e h
    exact ends_simplifyWithin_of_node h fun _ _ _ => trivial
  | succ n ih =>
    intro e h
    refine ends_simplifyWithin_of_node h fun e hplain he => ?_
    by_cases hi : e.shape = .invoke
    · cases e with
      | invoke target args t => exact ends_invoke_of_rests ih he
      | _ => cases hi
    · exact (ends_node_of_rests hcatalog hi hplain he).imp fun y hy => hy.1

include hcatalog in
/-- Simplifying twice is simplifying once. -/
theorem simplifyWithin_simplifyWithin {y : Expr} (h : e.Plain)
    (hy : (standard catalog).simplifyWithin (n + 1) e = .ok y) :
    (standard catalog).simplifyWithin (n + 1) y = .ok y := by
  have hends := ends_simplifyWithin_of_plain hcatalog (n + 1) e h
  rw [hy] at hends
  exact hends.1.simplifyWithin n

end Simplifier

/-! ## The standard catalog -/

theorem any_function?_standard (f : MathFunction) :
    (Catalog.standard.function? f).any fun m => m.ret.numericKind?.isSome := by
  cases f <;> decide +kernel

theorem hasFunctions_standard : Catalog.standard.HasFunctions where
  complete f h := by
    have := any_function?_standard f
    rw [h] at this
    cases this
  numeric {f m} h := by
    have := any_function?_standard f
    rwa [h] at this

end Scriptlet
