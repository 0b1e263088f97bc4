import Scriptlet.Proofs.Expr.Parts
import Scriptlet.Proofs.Simplification.Soundness

/-!
# Simplifying keeps the meaning of code

An expression is simplified from its parts up. Code whose nodes are all settled, with
their parts simplified (`Expr.SettledWithin`), keeps its meaning and is again code
(`Code.simplified`). The order of operands and their side effects are a condition on the
code (`Expr.OrderlyWithin`). The condition on sums of constants
follows from a bound on the constants that the code is made of (`Expr.mass`), because no
constant that comes up is greater than those it was computed from (`Code.settledWithin`).
-/

namespace Scriptlet

variable {x : Expr} {s : Simplifier}

namespace Expr

variable {f : Expr → Except Halt Expr} {x' e : Expr} {t : Ty}

/-! ## Replacing the parts of a node -/

theorem mapM_eq_ok {es es' : List Expr} (h : es.mapM f = .ok es') :
    List.Forall₂ (fun e e' => f e = .ok e') es es' := by
  induction es generalizing es' with
  | nil => cases h; exact .nil
  | cons e es ih =>
    rw [List.mapM_cons] at h
    obtain ⟨e', he, h⟩ := exists_of_bind_eq_ok h
    obtain ⟨es'', hes, h⟩ := exists_of_bind_eq_ok h
    cases h
    exact .cons he (ih hes)

theorem exists_of_mapChildrenM (h : x.mapChildrenM f = .ok x') :
    ∃ es, List.Forall₂ (fun e e' => f e = .ok e') x.children es ∧ x' = x.withChildren es := by
  obtain ⟨es, hes, h⟩ := exists_of_bind_eq_ok h
  cases h
  exact ⟨es, mapM_eq_ok hes, rfl⟩

theorem mapChildrenM_eq_ok {es : List Expr}
    (h : List.Forall₂ (fun e e' => f e = .ok e') x.children es) (hx : x.withChildren es = x') :
    x.mapChildrenM f = .ok x' := by
  have hes : x.children.mapM f = .ok es := by
    clear hx
    generalize x.children = cs at h
    induction h with
    | nil => rfl
    | cons he _ ih => rw [List.mapM_cons, he, ih]; rfl
  rw [mapChildrenM, hes, ← hx]
  rfl

theorem mapChildrenM_unary {op : UnaryOp}
    (h : (unary op e t).mapChildrenM f = .ok x') : ∃ e', f e = .ok e' ∧ x' = unary op e' t := by
  obtain ⟨_, _ | ⟨he, _ | _⟩, rfl⟩ := exists_of_mapChildrenM h
  exact ⟨_, he, rfl⟩

theorem mapChildrenM_convert (h : (convert e t).mapChildrenM f = .ok x') :
    ∃ e', f e = .ok e' ∧ x' = convert e' t := by
  obtain ⟨_, _ | ⟨he, _ | _⟩, rfl⟩ := exists_of_mapChildrenM h
  exact ⟨_, he, rfl⟩

theorem mapChildrenM_binary {op : BinaryOp} {l r : Expr}
    (h : (binary op l r t).mapChildrenM f = .ok x') :
    ∃ l' r', f l = .ok l' ∧ f r = .ok r' ∧ x' = binary op l' r' t := by
  obtain ⟨_, _ | ⟨hl, _ | ⟨hr, _ | _⟩⟩, rfl⟩ := exists_of_mapChildrenM h
  exact ⟨_, _, hl, hr, rfl⟩

theorem mapChildrenM_assign {target value : Expr}
    (h : (assign target value t).mapChildrenM f = .ok x') :
    ∃ target' value', f target = .ok target' ∧ f value = .ok value' ∧
      x' = assign target' value' t := by
  obtain ⟨_, _ | ⟨htarget, _ | ⟨hvalue, _ | _⟩⟩, rfl⟩ := exists_of_mapChildrenM h
  exact ⟨_, _, htarget, hvalue, rfl⟩

end Expr

/-! ## Simplifying code -/

/-- Code that stands for other code, as far as the rules can tell. -/
structure Simplified (ν : String → Nat) (Γ : List Nat) (e e' : Expr) : Prop where
  code : Code ν Γ e'
  normal : e'.Normal
  meaning : e'.meaning = e.meaning
  effects : e.isPure → e'.isPure

/-- All nodes of an expression, with their parts simplified, are settled. -/
def Expr.SettledWithin (s : Simplifier) (n : Nat) (e : Expr) : Prop :=
  ∀ x ∈ e.subexpressions, ∀ x', x.mapChildrenM (s.simplifyWithin n) = .ok x' → x'.Settled

theorem Expr.SettledWithin.child {n : Nat} {e c : Expr} (h : e.SettledWithin s n)
    (hc : c ∈ e.children) : c.SettledWithin s n :=
  fun x hx => h x (mem_subexpressions_of_child hc hx)

/-- An expression is simplified by simplifying its parts and then its node. -/
theorem Simplifier.exists_of_simplifyWithin {n : Nat} {e y : Expr}
    (h : s.simplifyWithin n e = .ok y) :
    ∃ x', e.mapChildrenM (s.simplifyWithin n) = .ok x' ∧ s.node n x' = .ok y := by
  rw [simplifyWithin, Expr.bottomUpM_eq] at h
  exact exists_of_bind_eq_ok h

/-- How an expression is simplified once its parts are. -/
theorem Simplifier.simplifyWithin_eq {n : Nat} {x' : Expr}
    (h : x.mapChildrenM (s.simplifyWithin n) = .ok x') : s.simplifyWithin n x = s.node n x' := by
  have hnode : s.simplifyWithin n x = x.mapChildrenM (s.simplifyWithin n) >>= s.node n :=
    Expr.bottomUpM_eq _ x
  rw [hnode, h]
  rfl

namespace Code

open Simplifier

variable {ν : String → Nat} {Γ : List Nat} {catalog : Catalog} {n : Nat} {e e' : Expr}

/-- A node that there are no rules for. -/
theorem node_eq_self {y : Expr} (hrules : (standard catalog).rulesFor x.shape = [])
    (h : (standard catalog).node n x = .ok y) : y = x := by
  cases n with
  | zero => cases h
  | succ n => exact node_eq_of_rulesFor hrules h

theorem simplifyWithin_parameter {v : Variable}
    (h : (standard catalog).simplifyWithin n (.parameter v) = .ok e') : e' = .parameter v := by
  obtain ⟨x', hx, hy⟩ := exists_of_simplifyWithin h
  cases hx
  exact node_eq_self rfl hy

theorem normal_parameter (v : Variable) : (Expr.parameter v).Normal :=
  Expr.normal_of_children rfl nofun

theorem simplified (h : Code ν Γ e) (hs : e.SettledWithin (standard catalog) n)
    (hy : (standard catalog).simplifyWithin n e = .ok e') : Simplified ν Γ e e' := by
  -- what is left to do at a node when its parts are done
  have hnode : ∀ {x x' y}, x.SettledWithin (standard catalog) n →
      x.mapChildrenM ((standard catalog).simplifyWithin n) = .ok x' →
      (standard catalog).node n x' = .ok y → Ready ν Γ x' → x'.meaning = x.meaning →
      (x.isPure → x'.isPure) → Simplified ν Γ x y := by
    intro x x' y hs hx hy hready hmeaning hpure
    have hsettled := hs x x.mem_subexpressions_self x' hx
    have hreplaces := Scriptlet.nodeSound catalog ν Γ n x' y hready hsettled hy
    exact ⟨hreplaces.code, hreplaces.normal, hreplaces.meaning.trans hmeaning,
      hreplaces.effects ∘ hpure⟩
  induction h generalizing e' with obtain ⟨x', hx, hy⟩ := exists_of_simplifyWithin hy
  | number hn =>
    cases hx
    exact hnode hs rfl hy ⟨.number hn, List.forall_mem_nil _⟩ rfl id
  | zero =>
    cases hx
    exact hnode hs rfl hy ⟨.zero, List.forall_mem_nil _⟩ rfl id
  | read ht hν hΓ =>
    cases hx
    exact hnode hs rfl hy ⟨.read ht hν hΓ, List.forall_mem_nil _⟩ rfl id
  | negate _ ih | complement _ ih | convert _ ih =>
    obtain ⟨_, _ | ⟨he, _ | _⟩, rfl⟩ := Expr.exists_of_mapChildrenM hx
    have hpart := ih (hs.child (List.mem_singleton_self _)) he
    refine hnode hs hx hy ⟨?_, ?_⟩ ?_ (by simpa [Expr.withChildren] using hpart.effects)
    · constructor
      exact hpart.code
    · exact fun c hc => List.mem_singleton.1 hc ▸ hpart.normal
    · simp only [Expr.withChildren, Expr.meaning_negate, Expr.meaning_complement,
        Expr.meaning_convert, hpart.meaning]
  | count hop ht hν hΓ =>
    obtain ⟨e', he, rfl⟩ := Expr.mapChildrenM_unary hx
    obtain rfl := simplifyWithin_parameter he
    refine hnode hs hx hy ⟨.count hop ht hν hΓ, fun c hc => ?_⟩ rfl id
    exact List.mem_singleton.1 hc ▸ normal_parameter _
  | binary hop _ _ ihl ihr =>
    obtain ⟨l', r', hl, hr, rfl⟩ := Expr.mapChildrenM_binary hx
    have hleft := ihl (hs.child (by simp [Expr.children])) hl
    have hright := ihr (hs.child (by simp [Expr.children])) hr
    refine hnode hs hx hy (.binary _ hop hleft.code hright.code hleft.normal hright.normal) ?_ ?_
    · rw [Expr.meaning, Expr.meaning, hleft.meaning, hright.meaning]
    · rw [Expr.isPure_binary, Expr.isPure_binary, Bool.and_eq_true, Bool.and_eq_true]
      exact And.imp hleft.effects hright.effects
  | assign ht hν hΓ _ ih =>
    obtain ⟨target', value', htarget, hvalue, rfl⟩ := Expr.mapChildrenM_assign hx
    obtain rfl := simplifyWithin_parameter htarget
    have hpart := ih (hs.child (by simp [Expr.children])) hvalue
    refine hnode hs hx hy ⟨.assign ht hν hΓ hpart.code, fun c hc => ?_⟩ ?_
      (fun h => absurd h (Expr.not_isPure rfl))
    · rcases List.mem_cons.1 hc with rfl | hc
      · exact normal_parameter _
      · exact List.mem_singleton.1 hc ▸ hpart.normal
    · rw [Expr.meaning, Expr.meaning, hpart.meaning]

end Code

/-! ## Code whose nodes are settled -/

namespace Expr

/-- At all nodes of an expression, with their parts simplified, the operands that the rules
    exchange or drop can be exchanged or dropped. -/
def OrderlyWithin (s : Simplifier) (n : Nat) (e : Expr) : Prop :=
  ∀ x ∈ e.subexpressions, ∀ x', x.mapChildrenM (s.simplifyWithin n) = .ok x' → x'.Orderly

/-- The number of literals in an expression. -/
def literals (e : Expr) : Nat := e.subexpressions.countP isConstant

/-- A bound for the constants that an expression can come to. -/
def mass (e : Expr) : Nat := (e.subexpressions.map ownHeft).sum

variable {s : Simplifier} {n : Nat} {e c : Expr}

theorem OrderlyWithin.child (h : e.OrderlyWithin s n) (hc : c ∈ e.children) :
    c.OrderlyWithin s n :=
  fun x hx => h x (mem_subexpressions_of_child hc hx)

theorem mass_eq (e : Expr) : e.mass = e.ownHeft + (e.children.map mass).sum := by
  rw [mass, subexpressions_eq, List.map_cons, List.sum_cons, List.map_flatMap, List.flatMap_def,
    List.sum_flatten, List.map_map]
  rfl

theorem countP_subexpressions (p : Expr → Bool) (e : Expr) :
    e.subexpressions.countP p =
      (e.children.map fun c => c.subexpressions.countP p).sum + if p e then 1 else 0 := by
  rw [subexpressions_eq, List.countP_cons, List.countP_flatMap]
  rfl

theorem literals_eq (e : Expr) :
    e.literals = (e.children.map literals).sum + if e.isConstant then 1 else 0 :=
  countP_subexpressions isConstant e

/-- The mass of a literal, which is one literal. -/
theorem mass_int (x : BitVec 32) : (Expr.number (.integral .int x)).mass ≤
    2 ^ 31 * (Expr.number (.integral .int x)).literals := by
  have hheft := Number.heft_int x
  have hmass : (Expr.number (.integral .int x)).mass = (Number.integral .int x).heft := by
    rw [mass_eq]
    rfl
  have hliterals : (Expr.number (.integral .int x)).literals = 1 := by
    rw [literals_eq]
    rfl
  omega

theorem mass_le_of_child (hc : c ∈ e.children) : c.mass ≤ e.mass := by
  rw [mass_eq e]
  exact (List.single_le_sum (by simp) _ (List.mem_map_of_mem hc)).trans (Nat.le_add_left _ _)

theorem settledWithin_of_children
    (hown : ∀ x', e.mapChildrenM (s.simplifyWithin n) = .ok x' → x'.Settled)
    (h : ∀ c ∈ e.children, c.SettledWithin s n) : e.SettledWithin s n :=
  forall_subexpressions.2 ⟨hown, h⟩

end Expr

namespace Code

open Simplifier Expr

variable {ν : String → Nat} {Γ : List Nat} {catalog : Catalog} {n : Nat} {e e' : Expr}

/-- An expression whose parts are settled, and whose node is so with the parts simplified.
    A constant that it comes to is bounded by the operands. -/
theorem settledWithin_of_node (ν : String → Nat) (Γ : List Nat)
    (hparts : ∀ c ∈ x.children, c.SettledWithin (standard catalog) n)
    (hx : ∀ x', x.mapChildrenM ((standard catalog).simplifyWithin n) = .ok x' →
      Ready ν Γ x' ∧ x'.Settled ∧ (x'.operands.map heft).sum + x'.ownHeft ≤ x.mass) :
    x.SettledWithin (standard catalog) n ∧
      ∀ y, (standard catalog).simplifyWithin n x = .ok y → y.heft ≤ x.mass := by
  refine ⟨settledWithin_of_children (fun x' h => (hx x' h).2.1) hparts, fun y hy => ?_⟩
  obtain ⟨x', hx', hy⟩ := exists_of_simplifyWithin hy
  obtain ⟨hready, hs, hload⟩ := hx x' hx'
  refine (Scriptlet.nodeSound catalog ν Γ n x' y hready hs hy).heft.trans ?_
  rw [load]
  split
  · exact hload
  · exact Nat.zero_le _

theorem settledWithin_parameter {v : Variable}
    (horder : (Expr.parameter v).OrderlyWithin (standard catalog) n) :
    (Expr.parameter v).SettledWithin (standard catalog) n := by
  refine settledWithin_of_children (fun x' hx => ?_) nofun
  have horderly := horder _ (mem_subexpressions_self _) x' hx
  have hsum : x'.constantSum? = none := by cases hx; rfl
  exact ⟨horderly, by simp [hsum]⟩

theorem settledWithin_unary {op : UnaryOp}
    (hcode : ∀ {e}, Code ν Γ e → Code ν Γ (.unary op e .int))
    (h : Code ν Γ e)
    (horder : (Expr.unary op e .int).OrderlyWithin (standard catalog) n)
    (hpart : e.SettledWithin (standard catalog) n)
    (hheft : ∀ e', (standard catalog).simplifyWithin n e = .ok e' → e'.heft ≤ e.mass) :
    (Expr.unary op e .int).SettledWithin (standard catalog) n ∧
      ∀ y, (standard catalog).simplifyWithin n (.unary op e .int) = .ok y →
        y.heft ≤ (Expr.unary op e .int).mass := by
  refine settledWithin_of_node ν Γ (by simpa [children] using hpart) fun x' hx => ?_
  have horderly := horder _ (mem_subexpressions_self _) x' hx
  obtain ⟨e₁, he₁, rfl⟩ := mapChildrenM_unary hx
  have hsimple := h.simplified hpart he₁
  refine ⟨⟨hcode hsimple.code, by simpa [children] using hsimple.normal⟩,
    ⟨horderly, by simp [constantSum?]⟩, ?_⟩
  have hown : (Expr.unary op e₁ .int).ownHeft = (Expr.unary op e .int).ownHeft := by cases op <;> rfl
  have := hheft e₁ he₁
  rw [mass_eq, hown]
  simp [operands, children]
  omega

/-- The sum of two operands is bounded by their heft. -/
theorem natAbs_of_constantSum {op : BinaryOp} {l r : Expr} {v : Int}
    (h : (Expr.binary op l r .int).constantSum? = some v) : v.natAbs ≤ l.heft + r.heft := by
  unfold constantSum? at h
  split at h
  case h_1 a b _ heq =>
    cases heq
    cases h
    exact (Int.natAbs_add_le _ _).trans
      (Nat.add_le_add (Number.natAbs_le_heft a) (Number.natAbs_le_heft b))
  case h_2 a b _ heq =>
    cases heq
    cases h
    exact (Int.natAbs_sub_le _ _).trans
      (Nat.add_le_add (Number.natAbs_le_heft a) (Number.natAbs_le_heft b))
  case h_3 => cases h

/-- In code, sums of constants stay within the mass, if it is small enough for
    floating-point numbers; and so does the constant that the code may come to. -/
theorem settledWithin (h : Code ν Γ e) (horder : e.OrderlyWithin (standard catalog) n) (hmass : e.mass ≤ 2 ^ 53) :
    e.SettledWithin (standard catalog) n ∧
      ∀ e', (standard catalog).simplifyWithin n e = .ok e' → e'.heft ≤ e.mass := by
  -- a node that is no sum is settled if it is orderly
  have hown : ∀ {x x' : Expr}, x.OrderlyWithin (standard catalog) n →
      x.mapChildrenM ((standard catalog).simplifyWithin n) = .ok x' →
      x'.constantSum? = none → x'.Settled :=
    fun horder hx hsum => ⟨horder _ (mem_subexpressions_self _) _ hx, by simp [hsum]⟩
  induction h with
  | number hn =>
    refine settledWithin_of_node ν Γ (List.forall_mem_nil _) fun x' hx => ?_
    have hs := hown horder hx
    cases hx
    refine ⟨⟨.number hn, List.forall_mem_nil _⟩, hs rfl, ?_⟩
    rw [mass_eq]
    exact Nat.le_of_eq (Nat.add_comm _ _)
  | zero =>
    refine settledWithin_of_node ν Γ (List.forall_mem_nil _) fun x' hx => ?_
    have hs := hown horder hx
    cases hx
    exact ⟨⟨.zero, List.forall_mem_nil _⟩, hs rfl, Nat.zero_le _⟩
  | @read v ht hν hΓ =>
    refine settledWithin_of_node ν Γ (List.forall_mem_nil _) fun x' hx => ?_
    have hs := hown horder hx
    cases hx
    exact ⟨⟨.read ht hν hΓ, List.forall_mem_nil _⟩, hs rfl, Nat.zero_le _⟩
  | @negate e h ih =>
    have hc : e ∈ (Expr.unary .negate e .int).children := List.mem_singleton_self _
    obtain ⟨hpart, hheft⟩ := ih (horder.child hc)
      ((mass_le_of_child hc).trans hmass)
    exact settledWithin_unary (fun h => .negate h) h horder hpart hheft
  | @complement e h ih =>
    have hc : e ∈ (Expr.unary .complement e .int).children := List.mem_singleton_self _
    obtain ⟨hpart, hheft⟩ := ih (horder.child hc)
      ((mass_le_of_child hc).trans hmass)
    exact settledWithin_unary (fun h => .complement h) h horder hpart hheft
  | @convert e h ih =>
    have hc : e ∈ (Expr.convert e .int).children := List.mem_singleton_self _
    obtain ⟨hpart, hheft⟩ := ih (horder.child hc)
      ((mass_le_of_child hc).trans hmass)
    refine settledWithin_of_node ν Γ (by simpa [children] using hpart) fun x' hx => ?_
    have hs := hown horder hx
    obtain ⟨e₁, he₁, rfl⟩ := mapChildrenM_convert hx
    have hsimple := h.simplified hpart he₁
    refine ⟨⟨.convert hsimple.code, by simpa [children] using hsimple.normal⟩, hs rfl, ?_⟩
    have := hheft e₁ he₁
    rw [mass_eq]
    simp [operands, children, ownHeft]
    omega
  | @count op v hop ht hν hΓ =>
    have hc : .parameter v ∈ (Expr.unary op (.parameter v) .int).children :=
      List.mem_singleton_self _
    refine settledWithin_of_node ν Γ
      (by simpa [children] using settledWithin_parameter (horder.child hc)) fun x' hx => ?_
    have hs := hown horder hx
    obtain ⟨e₁, he₁, rfl⟩ := mapChildrenM_unary hx
    obtain rfl := simplifyWithin_parameter he₁
    refine ⟨⟨.count hop ht hν hΓ, by simpa [children] using normal_parameter v⟩, hs rfl, ?_⟩
    cases op <;> first | exact Nat.zero_le _ | cases hop
  | @binary op l r hop hl hr ihl ihr =>
    have hcl : l ∈ (Expr.binary op l r .int).children := by simp [children]
    have hcr : r ∈ (Expr.binary op l r .int).children := by simp [children]
    obtain ⟨hpartl, hheftl⟩ := ihl (horder.child hcl)
      ((mass_le_of_child hcl).trans hmass)
    obtain ⟨hpartr, hheftr⟩ := ihr (horder.child hcr)
      ((mass_le_of_child hcr).trans hmass)
    have hmass' : (Expr.binary op l r .int).mass = l.mass + r.mass := by
      rw [mass_eq]
      simp [children, ownHeft]
    refine settledWithin_of_node ν Γ (by simpa [children] using ⟨hpartl, hpartr⟩) fun x' hx => ?_
    have horderly := horder _ (mem_subexpressions_self _) x' hx
    obtain ⟨l', r', hl', hr', rfl⟩ := mapChildrenM_binary hx
    have hsl := hl.simplified hpartl hl'
    have hsr := hr.simplified hpartr hr'
    have := hheftl l' hl'
    have := hheftr r' hr'
    refine ⟨.binary op hop hsl.code hsr.code hsl.normal hsr.normal, ⟨horderly, fun v hv => ?_⟩,
      ?_⟩
    · have := natAbs_of_constantSum hv
      omega
    · simp [operands, ownHeft]
      omega
  | @assign e v ht hν hΓ h ih =>
    have hct : .parameter v ∈ (Expr.assign (.parameter v) e .int).children := by simp [children]
    have hc : e ∈ (Expr.assign (.parameter v) e .int).children := by simp [children]
    obtain ⟨hpart, -⟩ := ih (horder.child hc)
      ((mass_le_of_child hc).trans hmass)
    have hparts : ∀ c ∈ (Expr.assign (.parameter v) e .int).children,
        c.SettledWithin (standard catalog) n := by
      simpa [children] using ⟨settledWithin_parameter (horder.child hct), hpart⟩
    refine settledWithin_of_node ν Γ hparts fun x' hx => ?_
    have hs := hown horder hx
    obtain ⟨_, e₁, hv₁, he₁, rfl⟩ := mapChildrenM_assign hx
    obtain rfl := simplifyWithin_parameter hv₁
    have hsimple := h.simplified hpart he₁
    refine ⟨⟨.assign ht hν hΓ hsimple.code, ?_⟩, hs rfl, Nat.zero_le _⟩
    simpa [children] using ⟨normal_parameter v, hsimple.normal⟩

end Code

end Scriptlet
