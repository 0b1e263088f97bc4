import Scriptlet.Catalog.Library
import Scriptlet.Proofs.Simplification.Plans

/-!
# Chains of rules end

A rule may ask for nodes that it has built to be simplified in turn, and the rules for these
may ask for others. Such a chain ends, because the rank falls along it
(`Plan.Descends`): a node that is no call of a lambda is simplified within a depth of its
rank, and what becomes of it does not depend on the depth (`Simplifier.ends_node`,
`Simplifier.node_eq_of_rank_lt`). No node gets heavier, so the rank of every node that comes
up while an expression is simplified is bounded by the weight of the expression.
-/

namespace Scriptlet

open Simplification

namespace Plan

variable {method? : MathFunction → Option Method} {R : Expr → Prop} {Q : Halt → Prop} {e : Expr}
  {p : Plan} {f g : Expr → Except Halt Expr}

/-- The nodes that a plan may ask for are simplified to something in a set, and no heavier. -/
def Answers (method? : MathFunction → Option Method) (R : Expr → Prop) (Q : Halt → Prop) (e : Expr)
    (f : Expr → Except Halt Expr) : Prop :=
  ∀ y : Expr, y.rank < e.rank → y.IsFresh method? → (∀ c ∈ y.children, R c) →
    Ends (fun z => R z ∧ z.weight ≤ y.weight) Q (f y)

theorem Descends.ends_run (hQ : ∀ x, x ≠ .exhausted → Q x) (h : p.Descends method? R e)
    (hf : Answers method? R Q e f) : Ends (e.Admits R) Q (p.run f) := by
  induction p with
  | give answer =>
    rcases answer with x | o
    · exact hQ x h
    · exact h
  | ask y next ih =>
    obtain ⟨hrank, hs, hy, hnext⟩ := h
    exact (hf y hrank hs hy).bind fun z hz => ih z (hnext z hz.1 hz.2)

/-- Two ways to simplify nodes have the same outcome if they agree on lower nodes. -/
theorem Descends.run_eq (h : p.Descends method? R e) (hf : Answers method? R Q e f)
    (hfg : ∀ y : Expr, y.rank < e.rank → y.shape ≠ .invoke → f y = g y) : p.run f = p.run g := by
  induction p with
  | give answer => rfl
  | ask y next ih =>
    obtain ⟨hrank, hs, hy, hnext⟩ := h
    have hanswer := hf y hrank hs hy
    rw [run, run, ← hfg y hrank hs.shape]
    rcases hz : f y with x | z
    · rfl
    · rw [hz] at hanswer
      exact ih z (hnext z hanswer.1 hanswer.2)

end Plan

namespace Simplification.Planned

variable {method? : MathFunction → Option Method} {R : Expr → Prop} {Q : Halt → Prop} {e : Expr}
  {t t' : Tools} {act : Tools → Except Halt (Option Expr)}

theorem ends (h : Planned method? R e act) (ht : t.method? = method?)
    (hQ : ∀ x, x ≠ .exhausted → Q x) (hf : Plan.Answers method? R Q e t.node) :
    Ends (e.Admits R) Q (act t) := by
  rcases h with h | ⟨p, hd, -, hrun⟩
  · rw [h t ht]
    exact admits_none
  · rw [hrun t ht]
    exact (hd trivial).ends_run hQ hf

theorem eq (h : Planned method? R e act) (ht : t.method? = method?) (ht' : t'.method? = method?)
    (hf : Plan.Answers method? R Q e t.node)
    (heq : ∀ y : Expr, y.rank < e.rank → y.shape ≠ .invoke → t.node y = t'.node y) :
    act t = act t' := by
  rcases h with h | ⟨p, hd, -, hrun⟩
  · rw [h t ht, h t' ht']
  · rw [hrun t ht, hrun t' ht']
    exact (hd trivial).run_eq hf heq

end Simplification.Planned

namespace Simplifier

variable {catalog : Catalog} {R : Expr → Prop} {Q : Halt → Prop} {e : Expr} {n m : Nat}
  {rs : List Rule} {t t' : Tools} {method? : MathFunction → Option Method}

theorem ends_firstReplacement (hrs : ∀ r ∈ rs, Planned method? R e (r.replace · e))
    (ht : t.method? = method?) (hQ : ∀ x, x ≠ .exhausted → Q x)
    (hf : Plan.Answers method? R Q e t.node) :
    Ends (e.Admits R) Q (firstReplacement t e rs) := by
  induction rs with
  | nil => exact admits_none
  | cons r rs ih =>
    have hrest := ih fun r hr => hrs r (List.mem_cons_of_mem _ hr)
    rw [firstReplacement]
    split
    · refine ((hrs r List.mem_cons_self).ends ht hQ hf).bind fun o ho => ?_
      rcases o with _ | y
      · exact hrest
      · exact ho
    · exact hrest

theorem firstReplacement_eq (hrs : ∀ r ∈ rs, Planned method? R e (r.replace · e))
    (ht : t.method? = method?) (ht' : t'.method? = method?)
    (hf : Plan.Answers method? R Q e t.node)
    (heq : ∀ y : Expr, y.rank < e.rank → y.shape ≠ .invoke → t.node y = t'.node y) :
    firstReplacement t e rs = firstReplacement t' e rs := by
  induction rs with
  | nil => rfl
  | cons r rs ih =>
    rw [firstReplacement, firstReplacement, (hrs r List.mem_cons_self).eq ht ht' hf heq,
      ih fun r hr => hrs r (List.mem_cons_of_mem _ hr)]

/-- No standard rule is for every node. -/
theorem shape_of_mem_rulesFor {r : Rule} {shape : Shape}
    (hr : r ∈ (standard catalog).rulesFor shape) : r ∈ standardRules ∧ r.shape = shape := by
  have hany : ∀ r ∈ standardRules, r.shape ≠ .any := by decide
  unfold rulesFor at hr
  split at hr
  · cases hr
  · obtain ⟨hmem, hshape⟩ := List.mem_filter.1 hr
    exact ⟨hmem, (of_decide_eq_true hshape).resolve_right (hany r hmem)⟩

theorem planned_rulesFor (hR : Closed catalog.function? R) (he : ∀ c ∈ e.children, R c)
    (hi : e.shape ≠ .invoke) :
    ∀ r ∈ (standard catalog).rulesFor e.shape, Planned catalog.function? R e (r.replace · e) := by
  intro r hr
  obtain ⟨hmem, hshape⟩ := shape_of_mem_rulesFor hr
  exact planned_of_mem hR he hshape.symm hmem hi

theorem node_succ (s : Simplifier) (n : Nat) (e : Expr) :
    s.node (n + 1) e =
      (·.getD e) <$> firstReplacement (s.tools n) e (s.rulesFor e.shape) := by
  rw [map_eq_pure_bind]
  rfl

/-- All expressions together are closed. -/
theorem closed_true : Closed method? fun _ => True :=
  ⟨fun _ => trivial, fun _ _ => trivial, fun _ _ _ _ => trivial, fun _ => trivial⟩

/-- A node is simplified within a depth of its rank, to something no heavier. -/
theorem ends_node (hi : e.shape ≠ .invoke) (hn : e.rank < n) :
    Ends (fun y => True ∧ y.weight ≤ e.weight) (· ≠ .exhausted) ((standard catalog).node n e) := by
  induction n generalizing e with
  | zero => cases hn
  | succ n ih =>
    have hanswers : Plan.Answers catalog.function? (fun _ => True) (· ≠ .exhausted) e
        ((standard catalog).node n) := fun y hrank hs _ => ih hs.shape (by omega)
    rw [node_succ]
    refine (ends_firstReplacement (planned_rulesFor closed_true (fun _ _ => trivial) hi) rfl
      (fun _ => id) hanswers).map fun o ho => ?_
    rcases o with _ | y
    · exact ⟨trivial, le_rfl⟩
    · exact ho y rfl

/-- What a node is simplified to does not depend on the depth. -/
theorem node_eq_of_rank_lt (hi : e.shape ≠ .invoke) (hn : e.rank < n) (hm : e.rank < m) :
    (standard catalog).node n e = (standard catalog).node m e := by
  induction n generalizing e m with
  | zero => cases hn
  | succ n ih =>
    obtain ⟨m, rfl⟩ : ∃ k, m = k + 1 := ⟨m - 1, by omega⟩
    have hanswers : Plan.Answers catalog.function? (fun _ => True) (· ≠ .exhausted) e
        ((standard catalog).node n) := fun y hrank hs _ => ends_node hs.shape (by omega)
    rw [node_succ, node_succ]
    congr 1
    exact firstReplacement_eq (planned_rulesFor closed_true (fun _ _ => trivial) hi) rfl rfl
      hanswers fun y hrank hs => ih hs (by omega) (by omega)

theorem rank_le (e : Expr) : e.rank ≤ 3 * e.weight + 2 := by
  have : e.stage ≤ 2 := by
    unfold Expr.stage
    split <;> grind
  rw [Expr.rank]
  omega

end Simplifier

namespace Expr

theorem nodeWeight_eq_of_rebuilt {R : Expr → Expr → Prop} {e e' : Expr} (h : e.Rebuilt R e') :
    e'.nodeWeight = e.nodeWeight := by
  have hs := h.shape
  have hc := h.isConstant
  cases e <;> cases e' <;>
    simp_all [shape, isConstant, constant?, nodeWeight]

theorem sum_weight_le {es es' : List Expr}
    (h : List.Forall₂ (fun c c' : Expr => c'.weight ≤ c.weight) es es') :
    (es'.map weight).sum ≤ (es.map weight).sum := by
  induction h with
  | nil => exact le_rfl
  | cons hc _ ih =>
    simp only [List.map_cons, List.sum_cons]
    omega

/-- A node whose parts get no heavier gets no heavier. -/
theorem weight_le_of_rebuilt {e e' : Expr} (h : e.Rebuilt (fun c c' => c'.weight ≤ c.weight) e') :
    e'.weight ≤ e.weight := by
  have hparts := sum_weight_le h.parts
  have hnode := nodeWeight_eq_of_rebuilt h
  rw [weight_eq, weight_eq e]
  omega

end Expr

namespace Simplifier

variable {catalog : Catalog} {e : Expr} {n m : Nat}

/-- An expression is simplified from its parts up. -/
theorem simplifyWithin_bind (s : Simplifier) (n : Nat) (e : Expr) :
    s.simplifyWithin n e = e.mapChildrenM (s.simplifyWithin n) >>= s.node n :=
  Expr.bottomUpM_eq _ e

theorem shape_child {c : Expr} (h : ∀ x ∈ e.subexpressions, x.shape ≠ .invoke)
    (hc : c ∈ e.children) : ∀ x ∈ c.subexpressions, x.shape ≠ .invoke :=
  fun x hx => h x (Expr.mem_subexpressions_of_child hc hx)

/-- An expression without calls of lambdas is simplified within three times its weight, to
    something no heavier. -/
theorem ends_simplifyWithin (h : ∀ x ∈ e.subexpressions, x.shape ≠ .invoke)
    (hn : 3 * e.weight + 2 < n) :
    Ends (fun y => y.weight ≤ e.weight) (· ≠ .exhausted)
      ((standard catalog).simplifyWithin n e) := by
  induction hw : e.weight using Nat.strong_induction_on generalizing e with
  | _ w ih =>
    subst hw
    have hparts : ∀ c ∈ e.children, Ends (fun c' => c'.weight ≤ c.weight) (· ≠ .exhausted)
        ((standard catalog).simplifyWithin n c) := fun c hc => by
      have hlt := Expr.weight_le_of_child hc
      exact ih c.weight (by omega) (shape_child h hc) (by omega) rfl
    rw [simplifyWithin_bind]
    refine (Expr.ends_mapChildrenM hparts).bind fun e' he' => ?_
    have hweight := Expr.weight_le_of_rebuilt he'
    have hshape : e'.shape ≠ .invoke := he'.shape ▸ h e e.mem_subexpressions_self
    have hrank := rank_le e'
    exact (ends_node hshape (by omega)).imp fun y hy => hy.2.trans hweight

theorem simplifyWithin_eq_of_weight (h : ∀ x ∈ e.subexpressions, x.shape ≠ .invoke)
    (hn : 3 * e.weight + 2 < n) (hm : 3 * e.weight + 2 < m) :
    (standard catalog).simplifyWithin n e = (standard catalog).simplifyWithin m e := by
  induction hw : e.weight using Nat.strong_induction_on generalizing e with
  | _ w ih =>
    subst hw
    have hlt : ∀ c ∈ e.children, c.weight < e.weight := fun c hc => Expr.weight_le_of_child hc
    have hcongr : e.mapChildrenM ((standard catalog).simplifyWithin n) =
        e.mapChildrenM ((standard catalog).simplifyWithin m) :=
      Expr.mapChildrenM_congr fun c hc => by
        have := hlt c hc
        exact ih c.weight (hlt c hc) (shape_child h hc) (by omega) (by omega) rfl
    have hends : Ends (e.Rebuilt fun c c' => c'.weight ≤ c.weight) (· ≠ .exhausted)
        (e.mapChildrenM ((standard catalog).simplifyWithin n)) :=
      Expr.ends_mapChildrenM fun c hc => by
        have := hlt c hc
        exact ends_simplifyWithin (shape_child h hc) (by omega)
    rw [simplifyWithin_bind, simplifyWithin_bind, ← hcongr]
    cases hmap : e.mapChildrenM ((standard catalog).simplifyWithin n) with
    | error x => rfl
    | ok e' =>
      rw [hmap] at hends
      have hweight := Expr.weight_le_of_rebuilt hends
      have hrank := rank_le e'
      have hshape : e'.shape ≠ .invoke := hends.shape ▸ h e e.mem_subexpressions_self
      exact node_eq_of_rank_lt hshape (by omega) (by omega)

/-- The rules end on every expression without calls of lambdas, whatever the catalog: with
    chains of rules up to a depth that only depends on the weight of the expression, the
    simplifier does not give up, and a greater depth changes nothing. -/
theorem simplifyWithin_stable (catalog : Catalog) (e : Expr)
    (h : ∀ x ∈ e.subexpressions, x.shape ≠ .invoke) (n : Nat) (hn : 3 * e.weight + 3 ≤ n) :
    (standard catalog).simplifyWithin n e ≠ .error .exhausted ∧
      (standard catalog).simplifyWithin n e =
        (standard catalog).simplifyWithin (3 * e.weight + 3) e := by
  refine ⟨fun hex => ?_, simplifyWithin_eq_of_weight h (by omega) (by omega)⟩
  have hends : Ends _ _ ((standard catalog).simplifyWithin n e) := ends_simplifyWithin h (by omega)
  rw [hex] at hends
  exact hends rfl

/-- `(x / -y) / (x * x)`, on which rules for signs, factors and quotients follow one another. -/
def quotientOfProduct : Expr :=
  let x : Expr := .parameter ⟨1, "x", .double⟩
  let y : Expr := .parameter ⟨2, "y", .double⟩
  .binary .divide (.binary .divide x (.unary .negate y .double) .double)
    (.binary .multiply x x .double) .double

theorem simplifyWithin_stable_quotientOfProduct :
    (∀ x ∈ quotientOfProduct.subexpressions, x.shape ≠ .invoke) ∧
      3 * quotientOfProduct.weight + 3 ≤ 1000 ∧
      ((standard .standard).simplifyWithin 1000 quotientOfProduct ≠ .error .exhausted ∧
        (standard .standard).simplifyWithin 1000 quotientOfProduct =
          (standard .standard).simplifyWithin (3 * quotientOfProduct.weight + 3)
            quotientOfProduct) := by
  have hcalls : ∀ x ∈ quotientOfProduct.subexpressions, x.shape ≠ .invoke := by decide
  have hweight : 3 * quotientOfProduct.weight + 3 ≤ 1000 := by decide
  exact ⟨hcalls, hweight, simplifyWithin_stable .standard _ hcalls 1000 hweight⟩

end Simplifier

end Scriptlet
