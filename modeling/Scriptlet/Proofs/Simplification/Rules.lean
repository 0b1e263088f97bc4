import Scriptlet.Simplification.Standard
import Scriptlet.Proofs.Code.Basic

/-!
# What the rules do with code

At a node the rules for its shape are tried in their order. For each operator on whole
numbers this file says once what can come of it: which rule decided, what it asked of the
operands, and which node was simplified in turn (`NegateStep`, `AddStep`, `SubtractStep`,
`MultiplyStep`, `FoldStep`). Nodes of other kinds are left as they are, except calls.

Only two facts are kept about a node that no rule has replaced, that a negation is none of
a constant, a negation or a difference, and that a difference is none of two constants and
takes away neither a negation nor a zero. An expression all of whose nodes are so is
`Expr.Normal`.
-/

namespace Scriptlet

variable {e : Expr}

/-- What succeeds did so step by step. -/
theorem exists_of_bind_eq_ok {ε α β : Type} {m : Except ε α} {f : α → Except ε β} {b : β}
    (h : (m >>= f) = .ok b) : ∃ a, m = .ok a ∧ f a = .ok b := by
  cases m with
  | error _ => cases h
  | ok a => exact ⟨a, rfl, h⟩

/-! ## Nodes that no rule replaces -/

namespace Expr

/-- Whether an expression is a constant. -/
def isConstant (e : Expr) : Bool := e.constant?.isSome

/-- Whether an expression is a negation. -/
def isNegation : Expr → Bool
  | unary .negate _ _ => true
  | _ => false

/-- Whether an expression is a difference. -/
def isDifference : Expr → Bool
  | binary .subtract _ _ _ => true
  | _ => false

/-- Whether a node is as the rules leave negations and differences. -/
def isNormalNode : Expr → Bool
  | unary .negate e _ => !e.isConstant && !e.isNegation && !e.isDifference
  | binary .subtract l r _ => !(l.isConstant && r.isConstant) && !r.isNegation && !r.isNumber 0
  | _ => true

/-- An expression all of whose nodes are as the rules leave them. -/
def Normal (e : Expr) : Prop := ∀ x ∈ e.subexpressions, x.isNormalNode

theorem Normal.node (h : e.Normal) : e.isNormalNode := h e e.mem_subexpressions_self

theorem Normal.child {c : Expr} (h : e.Normal) (hc : c ∈ e.children) : c.Normal :=
  fun x hx => h x (mem_subexpressions_of_child hc hx)

theorem mem_subexpressions {x : Expr} :
    x ∈ e.subexpressions ↔ x = e ∨ ∃ c ∈ e.children, x ∈ c.subexpressions := by
  rw [subexpressions_eq, List.mem_cons, List.mem_flatMap]

/-- What holds of all expressions within a node holds of it and of all within its parts. -/
theorem forall_subexpressions {P : Expr → Prop} :
    (∀ x ∈ e.subexpressions, P x) ↔ P e ∧ ∀ c ∈ e.children, ∀ x ∈ c.subexpressions, P x := by
  simp only [mem_subexpressions (e := e), or_imp, forall_and, forall_eq, forall_exists_index, and_imp]
  exact and_congr_right fun _ => ⟨fun h c hc x hx => h x c hc hx, fun h x c hc hx => h c hc x hx⟩

theorem normal_of_children (hnode : e.isNormalNode) (h : ∀ c ∈ e.children, c.Normal) : e.Normal :=
  forall_subexpressions.2 ⟨hnode, h⟩

end Expr

/-! ## Going through rules -/

namespace Slot

variable {e : Expr}

theorem accepts_constant : Slot.constant.accepts e = e.isConstant := by
  cases e <;> rfl

theorem accepts_oneOf (x : Float) : (Slot.oneOf [x]).accepts e = e.isNumber x :=
  Bool.or_false _

theorem accepts_negate : (Slot.unary .negate).accepts e = e.isNegation := by
  cases e with
  | unary op _ _ => cases op <;> rfl
  | _ => rfl

theorem accepts_subtract : (Slot.binary .subtract).accepts e = e.isDifference := by
  cases e with
  | binary op _ _ _ => cases op <;> rfl
  | _ => rfl

end Slot

/-! ## Operands -/

namespace Expr

theorem isConstant_of_isNumber {x : Float} (h : e.isNumber x) : e.isConstant := by
  cases e with
  | constant _ => rfl
  | _ => cases h

theorem isConstant_eq_false : e.isConstant = false ↔ e.constant? = none := by
  rw [isConstant, Option.isSome_eq_false_iff, Option.isNone_iff_eq_none]

end Expr

theorem Number.onLadder_of_isExact {c : Number} (h : c.isExact) : c.onLadder := by
  rw [isExact, Bool.and_eq_true] at h
  exact h.1

namespace Code

variable {ν : String → Nat} {Γ : List Nat} {e l r : Expr} {op : BinaryOp} {t : Ty}

theorem of_negate (h : Code ν Γ (.unary .negate e t)) : t = .int ∧ Code ν Γ e := by
  cases h with
  | negate h => exact ⟨rfl, h⟩
  | count hop _ _ _ => cases hop

theorem of_binary (h : Code ν Γ (.binary op l r t)) :
    t = .int ∧ Code ν Γ l ∧ Code ν Γ r := by
  cases h with
  | binary _ hl hr => exact ⟨rfl, hl, hr⟩

/-- A constant among operands is a number. -/
theorem exists_number (h : Code ν Γ e) (hc : e.isConstant) :
    ∃ c : Number, c.isExact ∧ e = .number c := by
  cases h with
  | number hn => exact ⟨_, hn, rfl⟩
  | _ => cases hc

theorem type_of_isConstant (h : Code ν Γ e) (hc : e.isConstant = false) : e.type = .int :=
  h.type_eq (Expr.isConstant_eq_false.1 hc)

theorem exists_negation (h : Code ν Γ e) (hn : e.Normal) (he : e.isNegation) :
    ∃ a, e = .unary .negate a .int ∧ a.type = .int := by
  obtain ⟨a, t, rfl⟩ : ∃ a t, e = .unary .negate a t := by
    cases e with
    | unary op a t => cases op <;> first | exact ⟨a, t, rfl⟩ | cases he
    | _ => cases he
  obtain ⟨rfl, ha⟩ := h.of_negate
  have hnode := hn.node
  simp only [Expr.isNormalNode, Bool.and_eq_true, Bool.not_eq_true'] at hnode
  exact ⟨a, rfl, ha.type_of_isConstant hnode.1.1⟩

theorem exists_difference (h : Code ν Γ e) (he : e.isDifference) :
    ∃ a b, e = .binary .subtract a b .int := by
  obtain ⟨a, b, t, rfl⟩ : ∃ a b t, e = .binary .subtract a b t := by
    cases e with
    | binary op a b t => cases op <;> first | exact ⟨a, b, t, rfl⟩ | cases he
    | _ => cases he
  obtain ⟨rfl, -, -⟩ := h.of_binary
  exact ⟨a, b, rfl⟩

theorem accepts_function (h : Code ν Γ e) (f : MathFunction) :
    (Slot.function f).accepts e = false := by
  cases h <;> rfl

theorem accepts_power (h : Code ν Γ e) : (Slot.binary .power).accepts e = false := by
  cases h with
  | @binary op _ _ hop _ _ => cases op <;> first | rfl | cases hop
  | _ => rfl

end Code

namespace Simplifier

open Simplification

variable {s : Simplifier} {n : Nat} {x y : Expr}

/-- What rules can use at a depth. -/
def tools (s : Simplifier) (n : Nat) : Tools where
  node := s.node n
  whole := s.simplifyWithin n
  method? := s.catalog.function?

theorem firstReplacement_of_node (h : s.node (n + 1) x = .ok y) :
    ∃ o, firstReplacement (s.tools n) x (s.rulesFor x.shape) = .ok o ∧ y = o.getD x := by
  change (do pure ((← firstReplacement (s.tools n) x (s.rulesFor x.shape)).getD x)) =
    Except.ok y at h
  obtain ⟨o, ho, h⟩ := exists_of_bind_eq_ok h
  cases h
  exact ⟨o, ho, rfl⟩

variable {t : Tools} {r : Rule} {rs : List Rule} {o : Option Expr}

/-- The first of some rules decides, or leaves it to the others. -/
theorem firstReplacement_cons (h : firstReplacement t x (r :: rs) = .ok o) :
    (r.fits x ∧ ∃ e, r.replace t x = .ok (some e) ∧ o = some e) ∨
      ((r.fits x → r.replace t x = .ok none) ∧ firstReplacement t x rs = .ok o) := by
  rw [firstReplacement] at h
  by_cases hfits : r.fits x
  · rw [if_pos hfits] at h
    cases hr : r.replace t x with
    | error f => rw [hr] at h; cases h
    | ok e =>
      rw [hr] at h
      cases e with
      | some e => cases h; exact .inl ⟨hfits, e, rfl, rfl⟩
      | none => exact .inr ⟨fun _ => rfl, h⟩
  · rw [if_neg hfits] at h
    exact .inr ⟨fun h => absurd h hfits, h⟩

/-- Rules none of which finds what it asks for have no replacement. -/
theorem firstReplacement_eq_none (hrs : ∀ r ∈ rs, r.fits x = false)
    (h : firstReplacement t x rs = .ok o) : o = none := by
  induction rs with
  | nil => cases h; rfl
  | cons r rs ih =>
    rw [firstReplacement, if_neg (by simp [hrs r List.mem_cons_self])] at h
    exact ih (fun r hr => hrs r (List.mem_cons_of_mem _ hr)) h

/-- A replacement that was simplified in turn. -/
theorem eq_ok_of_map_some {m : Except Halt Expr} (h : some <$> m = .ok (some e)) : m = .ok e := by
  cases m with
  | error f => cases h
  | ok e' => cases h; rfl

theorem map_some_ne_none {m : Except Halt Expr} : some <$> m ≠ .ok none := by
  cases m <;> nofun

theorem fits_unary (sh : Shape) (q : Slot) (f : Tools → Expr → Except Halt (Option Expr))
    (op : UnaryOp) (e : Expr) (type : Ty) :
    Rule.fits ⟨sh, [q], f⟩ (.unary op e type) = q.accepts e :=
  Bool.and_true _

theorem fits_binary (sh : Shape) (q q' : Slot) (f : Tools → Expr → Except Halt (Option Expr))
    (op : BinaryOp) (l r : Expr) (type : Ty) :
    Rule.fits ⟨sh, [q, q'], f⟩ (.binary op l r type) = (q.accepts l && q'.accepts r) := by
  rw [← Bool.and_true (q'.accepts r)]
  rfl

/-- Two operands that are constants are numbers. -/
theorem exists_numbers {ν : String → Nat} {Γ : List Nat} {l r : Expr}
    (hl : Code ν Γ l) (hr : Code ν Γ r) (h : l.isConstant && r.isConstant) :
    ∃ a b : Number, a.onLadder ∧ b.onLadder ∧ l = .number a ∧ r = .number b := by
  rw [Bool.and_eq_true] at h
  obtain ⟨a, ha, rfl⟩ := hl.exists_number h.1
  obtain ⟨b, hb, rfl⟩ := hr.exists_number h.2
  exact ⟨a, b, Number.onLadder_of_isExact ha, Number.onLadder_of_isExact hb, rfl, rfl⟩

/-! ## Operators on whole numbers -/

/-- What the rules do with the negation of an operand. -/
inductive NegateStep (s : Simplifier) (n : Nat) : Expr → Expr → Prop
  | folded (c : Number) : NegateStep s n (.number c) (.number (c.negate.convert .int))
  | twice (a : Expr) : NegateStep s n (.unary .negate a .int) a
  | exchanged {a b y : Expr} : s.node n (.binary .subtract b a .int) = .ok y →
      NegateStep s n (.binary .subtract a b .int) y
  | kept {e : Expr} : (Expr.unary .negate e .int).isNormalNode →
      NegateStep s n e (.unary .negate e .int)

/-- What the rules do with a sum. -/
inductive AddStep (s : Simplifier) (n : Nat) : Expr → Expr → Expr → Prop
  | folded (a b : Number) : AddStep s n (.number a) (.number b)
      (.number (.narrowest (a.toDouble + b.toDouble)))
  | left {l r : Expr} : r.isNumber 0 → AddStep s n l r l
  | right {l r : Expr} : l.isNumber 0 → AddStep s n l r r
  | negatedRight {l b y : Expr} : s.node n (.binary .subtract l b .int) = .ok y →
      AddStep s n l (.unary .negate b .int) y
  | negatedLeft {a r y : Expr} : r.isNegation = false →
      s.node n (.binary .subtract r a .int) = .ok y → AddStep s n (.unary .negate a .int) r y
  | factor {l r y : Expr} {c : Number} :
      isFactor .int (multiple l).2 (multiple r).2 →
      Number.binary .add (((multiple l).1.getD (.int 1)).convert .int)
        (((multiple r).1.getD (.int 1)).convert .int) = .ok c →
      s.node n (.binary .multiply (.number (c.convert .int)) (multiple l).2 .int) = .ok y →
      AddStep s n l r y
  | kept {l r : Expr} : AddStep s n l r (.binary .add l r .int)

/-- What the rules do with a difference. -/
inductive SubtractStep (s : Simplifier) (n : Nat) : Expr → Expr → Expr → Prop
  | folded (a b : Number) : SubtractStep s n (.number a) (.number b)
      (.number (.narrowest (a.toDouble - b.toDouble)))
  | left {l r : Expr} : r.isNumber 0 → SubtractStep s n l r l
  | negative {l r y : Expr} : l.isNumber 0 → r.isConstant = false →
      s.node n (.unary .negate r .int) = .ok y → SubtractStep s n l r y
  | negated {l b y : Expr} : s.node n (.binary .add l b .int) = .ok y →
      SubtractStep s n l (.unary .negate b .int) y
  | factor {l r y : Expr} {c : Number} :
      isFactor .int (multiple l).2 (multiple r).2 →
      Number.binary .subtract (((multiple l).1.getD (.int 1)).convert .int)
        (((multiple r).1.getD (.int 1)).convert .int) = .ok c →
      s.node n (.binary .multiply (.number (c.convert .int)) (multiple l).2 .int) = .ok y →
      SubtractStep s n l r y
  | kept {l r : Expr} : (Expr.binary .subtract l r .int).isNormalNode →
      SubtractStep s n l r (.binary .subtract l r .int)

/-- What the rules do with a product. -/
inductive MultiplyStep (s : Simplifier) (n : Nat) : Expr → Expr → Expr → Prop
  | folded {a b c : Number} : Number.binary .multiply a b = .ok c →
      MultiplyStep s n (.number a) (.number b) (.number (c.convert .int))
  | left {l r : Expr} : r.isNumber 1 → MultiplyStep s n l r l
  | right {l r : Expr} : l.isNumber 1 → MultiplyStep s n l r r
  | zero {l r : Expr} : l.isNumber 0 ∨ r.isNumber 0 → MultiplyStep s n l r (.numberOf .int 0)
  | negatedRight {l b p y : Expr} : l.isNumber 0 = false → l.isNumber 1 = false →
      s.node n (.binary .multiply l b .int) = .ok p → s.node n (.unary .negate p .int) = .ok y →
      MultiplyStep s n l (.unary .negate b .int) y
  | negatedLeft {a r p y : Expr} : r.isNumber 0 = false → r.isNumber 1 = false →
      s.node n (.binary .multiply a r .int) = .ok p → s.node n (.unary .negate p .int) = .ok y →
      MultiplyStep s n (.unary .negate a .int) r y
  | kept {l r : Expr} : MultiplyStep s n l r (.binary .multiply l r .int)

/-- What the rules do with an operator that is only computed for constants. -/
inductive FoldStep (arith : Arith) (op : BinaryOp) : Expr → Expr → Expr → Prop
  | folded {a b c : Number} : Number.binary arith a b = .ok c →
      FoldStep arith op (.number a) (.number b) (.number (c.convert .int))
  | kept {l r : Expr} : FoldStep arith op l r (.binary op l r .int)

/-- What the rules do with a conversion. -/
inductive ConvertStep : Expr → Expr → Prop
  | folded (c : Number) : ConvertStep (.number c) (.number (c.convert .int))
  | kept {e : Expr} : ConvertStep e (.convert e .int)

/-- What the rules do with a complement. -/
inductive ComplementStep : Expr → Expr → Prop
  | folded {c d : Number} : c.complement? = some d →
      ComplementStep (.number c) (.number (d.convert .int))
  | kept {e : Expr} : ComplementStep e (.unary .complement e .int)

section Standard

variable {catalog : Catalog} {ν : String → Nat} {Γ : List Nat} {e l r : Expr} {op : BinaryOp}

/-- The sum of numbers gets the narrowest kind that has it. -/
theorem numbers_add {a b : Number} (ha : a.onLadder) (hb : b.onLadder) :
    numbers .add a b .int = .ok (some (.number (.narrowest (a.toDouble + b.toDouble)))) := by
  obtain ⟨_, -, _, rfl⟩ := Number.exists_of_onLadder ha
  obtain ⟨_, -, _, rfl⟩ := Number.exists_of_onLadder hb
  rfl

/-- So does the difference. -/
theorem numbers_subtract {a b : Number} (ha : a.onLadder) (hb : b.onLadder) :
    numbers .subtract a b .int = .ok (some (.number (.narrowest (a.toDouble - b.toDouble)))) := by
  obtain ⟨_, -, _, rfl⟩ := Number.exists_of_onLadder ha
  obtain ⟨_, -, _, rfl⟩ := Number.exists_of_onLadder hb
  rfl

/-- Every other operator on numbers is computed in the kind they are promoted to. -/
theorem numbers_of_binary (op : BinaryOp) {arith : Arith} {a b c : Number} (hadd : op ≠ .add)
    (hsub : op ≠ .subtract) (harith : op.arith? = some arith) (hc : Number.binary arith a b = .ok c) :
    numbers op a b .int = .ok (some (.number (c.convert .int))) := by
  rw [numbers, (BinaryOp.isComparison_of_arith harith).1, if_neg Bool.false_ne_true,
    if_neg fun h => h.1.elim hadd hsub, harith]
  simp only [Ty.numericKind?, hc]
  rfl

variable {a b : Expr}

theorem addNegated_eq (t : Tools) (hb : b.type = .int) :
    addNegated t (.binary .add l (.unary .negate b .int) .int) =
      some <$> t.node (.binary .subtract l b .int) := by
  rw [addNegated, negated?, if_pos hb]
  rfl

theorem negatedAdd_eq (t : Tools) (ha : a.type = .int) :
    negatedAdd t (.binary .add (.unary .negate a .int) r .int) =
      some <$> t.node (.binary .subtract r a .int) := by
  rw [negatedAdd, negated?, if_pos ha]
  rfl

theorem subtractNegated_eq (t : Tools) (hb : b.type = .int) :
    subtractNegated t (.binary .subtract l (.unary .negate b .int) .int) =
      some <$> t.node (.binary .add l b .int) := by
  rw [subtractNegated, negated?, if_pos hb]
  rfl

theorem eq_of_keepLeft
    (h : Except.ok (keepLeft (.binary op l r .int)) = Except.ok (some e) (ε := Halt)) : l = e := by
  rw [keepLeft] at h
  split at h
  · cases h; rfl
  · cases h

theorem eq_of_keepRight
    (h : Except.ok (keepRight (.binary op l r .int)) = Except.ok (some e) (ε := Halt)) : r = e := by
  rw [keepRight] at h
  split at h
  · cases h; rfl
  · cases h

/-- Next to a number, of operands that are not both constant, the other is an `int`. -/
theorem type_of_isNumber (hl : Code ν Γ l) (hboth : (l.isConstant && r.isConstant) = false)
    {x : Float} (hr : r.isNumber x) : l.type = .int := by
  rw [Expr.isConstant_of_isNumber hr, Bool.and_true] at hboth
  exact hl.type_of_isConstant hboth

theorem negateStep (he : Code ν Γ e) (hn : e.Normal)
    (h : (standard catalog).node (n + 1) (.unary .negate e .int) = .ok y) :
    NegateStep (standard catalog) n e y := by
  have hrules : (standard catalog).rulesFor (Expr.unary .negate e .int).shape =
      [.simple (.unary .negate) [.constant] unaryConstant,
        .simple (.unary .negate) [.unary .negate] negatedTwice,
        ⟨.unary .negate, [.binary .subtract], negateDifference⟩] := rfl
  obtain ⟨o, ho, rfl⟩ := firstReplacement_of_node h
  rw [hrules] at ho
  rcases firstReplacement_cons ho with ⟨hfits, e', hr, rfl⟩ | ⟨hconst, ho⟩
  · rw [Rule.simple, fits_unary, Slot.accepts_constant] at hfits
    obtain ⟨c, -, rfl⟩ := he.exists_number hfits
    cases hr
    exact .folded c
  rcases firstReplacement_cons ho with ⟨hfits, e', hr, rfl⟩ | ⟨hneg, ho⟩
  · rw [Rule.simple, fits_unary, Slot.accepts_negate] at hfits
    obtain ⟨a, rfl, ha⟩ := he.exists_negation hn hfits
    cases (if_pos ha).symm.trans (Except.ok.inj hr)
    exact .twice _
  rcases firstReplacement_cons ho with ⟨hfits, e', hr, rfl⟩ | ⟨hdiff, ho⟩
  · rw [fits_unary, Slot.accepts_subtract] at hfits
    obtain ⟨a, b, rfl⟩ := he.exists_difference hfits
    exact .exchanged (eq_ok_of_map_some hr)
  obtain rfl := firstReplacement_eq_none (by simp) ho
  -- each of the rules would have had a replacement for what it asks for
  have hconst' : e.isConstant = false := by
    refine Bool.eq_false_iff.2 fun hc => ?_
    obtain ⟨c, -, rfl⟩ := he.exists_number hc
    cases hconst rfl
  have hneg' : e.isNegation = false := by
    refine Bool.eq_false_iff.2 fun hc => ?_
    obtain ⟨a, rfl, ha⟩ := he.exists_negation hn hc
    cases (if_pos ha).symm.trans (Except.ok.inj (hneg rfl))
  have hdiff' : e.isDifference = false := by
    refine Bool.eq_false_iff.2 fun hc => ?_
    obtain ⟨a, b, rfl⟩ := he.exists_difference hc
    exact map_some_ne_none (hdiff rfl)
  exact .kept (by simp [Expr.isNormalNode, hconst', hneg', hdiff'])

theorem complementStep (he : Code ν Γ e)
    (h : (standard catalog).node (n + 1) (.unary .complement e .int) = .ok y) :
    ComplementStep e y := by
  have hrules : (standard catalog).rulesFor (Expr.unary .complement e .int).shape =
      [.simple (.unary .complement) [.constant] unaryConstant] := rfl
  obtain ⟨o, ho, rfl⟩ := firstReplacement_of_node h
  rw [hrules] at ho
  rcases firstReplacement_cons ho with ⟨hfits, e', hr, rfl⟩ | ⟨-, ho⟩
  · rw [Rule.simple, fits_unary, Slot.accepts_constant] at hfits
    obtain ⟨c, hexact, rfl⟩ := he.exists_number hfits
    obtain ⟨d, hd, -, -⟩ := Number.complement_low (Number.onLadder_of_isExact hexact)
    have hvalue : Option.map (fun m => Expr.number (m.convert .int)) c.complement? = some e' :=
      Except.ok.inj hr
    rw [hd] at hvalue
    cases hvalue
    exact .folded hd
  · obtain rfl := firstReplacement_eq_none (by simp) ho
    exact .kept

theorem convertStep (he : Code ν Γ e)
    (h : (standard catalog).node (n + 1) (.convert e .int) = .ok y) : ConvertStep e y := by
  have hrules : (standard catalog).rulesFor (Expr.convert e .int).shape =
      [.simple .convert [.constant] converted] := rfl
  obtain ⟨o, ho, rfl⟩ := firstReplacement_of_node h
  rw [hrules] at ho
  rcases firstReplacement_cons ho with ⟨hfits, e', hr, rfl⟩ | ⟨-, ho⟩
  · have hconst : (Slot.constant.accepts e && true) = true := hfits
    rw [Bool.and_true, Slot.accepts_constant] at hconst
    obtain ⟨c, -, rfl⟩ := he.exists_number hconst
    cases hr
    exact .folded c
  · obtain rfl := firstReplacement_eq_none (by simp) ho
    exact .kept

/-- What comes of a common factor. -/
theorem factor_of_commonFactor
    (hr : commonFactor ((standard catalog).tools n) (.binary op l r .int) = .ok (some y)) :
    isFactor .int (multiple l).2 (multiple r).2 ∧ ∃ c : Number,
      Number.binary (if op = .add then .add else .subtract)
        (((multiple l).1.getD (.int 1)).convert .int)
        (((multiple r).1.getD (.int 1)).convert .int) = .ok c ∧
      (standard catalog).node n
        (.binary .multiply (.number (c.convert .int)) (multiple l).2 .int) = .ok y := by
  have hone : (Number.int 1).convert .int = .int 1 := rfl
  have hkind : Ty.int.numericKind? = some .int := rfl
  simp only [commonFactor, hkind, hone] at hr
  split at hr
  next hfactor =>
    split at hr
    next c hc => exact ⟨hfactor, c, hc, eq_ok_of_map_some hr⟩
    next => cases hr
  next => cases hr

theorem addStep (hl : Code ν Γ l) (hr : Code ν Γ r) (hnl : l.Normal)
    (hnr : r.Normal) (h : (standard catalog).node (n + 1) (.binary .add l r .int) = .ok y) :
    AddStep (standard catalog) n l r y := by
  have hrules : (standard catalog).rulesFor (Expr.binary .add l r .int).shape =
      [⟨.binary .add, [.constant, .constant], binaryConstants⟩,
        .simple (.binary .add) [.any, .oneOf [0]] keepLeft,
        .simple (.binary .add) [.oneOf [0], .any] keepRight,
        ⟨.binary .add, [.any, .unary .negate], addNegated⟩,
        ⟨.binary .add, [.unary .negate, .any], negatedAdd⟩,
        ⟨.binary .add, [], commonFactor⟩,
        .simple (.binary .add) [.binary .power, .binary .power] pythagorean,
        ⟨.binary .add, [.function .log, .function .log], joinLogarithms .multiply⟩,
        ⟨.binary .add, [.function .log10, .function .log10], joinLogarithms .multiply⟩] := rfl
  obtain ⟨o, ho, rfl⟩ := firstReplacement_of_node h
  rw [hrules] at ho
  rcases firstReplacement_cons ho with ⟨hfits, e', hr', rfl⟩ | ⟨-, ho⟩
  · rw [fits_binary, Slot.accepts_constant, Slot.accepts_constant] at hfits
    obtain ⟨a, b, ha, hb, rfl, rfl⟩ := exists_numbers hl hr hfits
    cases (numbers_add ha hb).symm.trans hr'
    exact .folded a b
  rcases firstReplacement_cons ho with ⟨hfits, e', hr', rfl⟩ | ⟨-, ho⟩
  · rw [Rule.simple, fits_binary, Slot.accepts_oneOf] at hfits
    obtain rfl := eq_of_keepLeft hr'
    exact .left hfits
  rcases firstReplacement_cons ho with ⟨hfits, e', hr', rfl⟩ | ⟨-, ho⟩
  · rw [Rule.simple, fits_binary, Slot.accepts_oneOf, Bool.and_eq_true] at hfits
    obtain rfl := eq_of_keepRight hr'
    exact .right hfits.1
  rcases firstReplacement_cons ho with ⟨hfits, e', hr', rfl⟩ | ⟨hneg, ho⟩
  · rw [fits_binary, Slot.accepts_negate] at hfits
    obtain ⟨b, rfl, hb⟩ := hr.exists_negation hnr hfits
    exact .negatedRight (eq_ok_of_map_some ((addNegated_eq _ hb).symm.trans hr'))
  have hneg' : r.isNegation = false := by
    refine Bool.eq_false_iff.2 fun hc => ?_
    obtain ⟨b, rfl, hb⟩ := hr.exists_negation hnr hc
    exact map_some_ne_none ((addNegated_eq _ hb).symm.trans (hneg rfl))
  rcases firstReplacement_cons ho with ⟨hfits, e', hr', rfl⟩ | ⟨-, ho⟩
  · rw [fits_binary, Slot.accepts_negate, Bool.and_eq_true] at hfits
    obtain ⟨a, rfl, ha⟩ := hl.exists_negation hnl hfits.1
    exact .negatedLeft hneg' (eq_ok_of_map_some ((negatedAdd_eq _ ha).symm.trans hr'))
  rcases firstReplacement_cons ho with ⟨-, e', hr', rfl⟩ | ⟨-, ho⟩
  · change commonFactor _ (.binary .add l r .int) = _ at hr'
    obtain ⟨hfactor, c, hc, hy⟩ := factor_of_commonFactor hr'
    exact .factor hfactor hc hy
  -- the other rules are for powers and for calls
  obtain rfl := firstReplacement_eq_none
    (by simp [Rule.simple, fits_binary, hl.accepts_power, hl.accepts_function]) ho
  exact .kept

theorem subtractStep (hl : Code ν Γ l) (hr : Code ν Γ r) (hnr : r.Normal)
    (h : (standard catalog).node (n + 1) (.binary .subtract l r .int) = .ok y) :
    SubtractStep (standard catalog) n l r y := by
  have hrules : (standard catalog).rulesFor (Expr.binary .subtract l r .int).shape =
      [⟨.binary .subtract, [.constant, .constant], binaryConstants⟩,
        .simple (.binary .subtract) [.any, .oneOf [0]] keepLeft,
        ⟨.binary .subtract, [.oneOf [0], .any], negateRight⟩,
        ⟨.binary .subtract, [.any, .unary .negate], subtractNegated⟩,
        ⟨.binary .subtract, [], commonFactor⟩,
        ⟨.binary .subtract, [.function .log, .function .log], joinLogarithms .divide⟩,
        ⟨.binary .subtract, [.function .log10, .function .log10], joinLogarithms .divide⟩] := rfl
  obtain ⟨o, ho, rfl⟩ := firstReplacement_of_node h
  rw [hrules] at ho
  rcases firstReplacement_cons ho with ⟨hfits, e', hr', rfl⟩ | ⟨hconst, ho⟩
  · rw [fits_binary, Slot.accepts_constant, Slot.accepts_constant] at hfits
    obtain ⟨a, b, ha, hb, rfl, rfl⟩ := exists_numbers hl hr hfits
    cases (numbers_subtract ha hb).symm.trans hr'
    exact .folded a b
  have hboth : (l.isConstant && r.isConstant) = false := by
    refine Bool.eq_false_iff.2 fun hc => ?_
    obtain ⟨a, b, ha, hb, rfl, rfl⟩ := exists_numbers hl hr hc
    cases (numbers_subtract ha hb).symm.trans (hconst rfl)
  rcases firstReplacement_cons ho with ⟨hfits, e', hr', rfl⟩ | ⟨hzero, ho⟩
  · rw [Rule.simple, fits_binary, Slot.accepts_oneOf] at hfits
    obtain rfl := eq_of_keepLeft hr'
    exact .left hfits
  have hzero' : r.isNumber 0 = false := by
    refine Bool.eq_false_iff.2 fun hc => ?_
    have htype := type_of_isNumber hl hboth hc
    have hfits : Rule.fits (.simple (.binary .subtract) [.any, .oneOf [0]] keepLeft)
        (.binary .subtract l r .int) := by
      rw [Rule.simple, fits_binary, Slot.accepts_oneOf, hc]
      rfl
    cases (if_pos ⟨rfl, htype⟩).symm.trans (Except.ok.inj (hzero hfits))
  rcases firstReplacement_cons ho with ⟨hfits, e', hr', rfl⟩ | ⟨-, ho⟩
  · rw [fits_binary, Slot.accepts_oneOf, Bool.and_eq_true] at hfits
    rw [Expr.isConstant_of_isNumber hfits.1, Bool.true_and] at hboth
    exact .negative hfits.1 hboth (eq_ok_of_map_some hr')
  rcases firstReplacement_cons ho with ⟨hfits, e', hr', rfl⟩ | ⟨hneg, ho⟩
  · rw [fits_binary, Slot.accepts_negate] at hfits
    obtain ⟨b, rfl, hb⟩ := hr.exists_negation hnr hfits
    exact .negated (eq_ok_of_map_some ((subtractNegated_eq _ hb).symm.trans hr'))
  have hneg' : r.isNegation = false := by
    refine Bool.eq_false_iff.2 fun hc => ?_
    obtain ⟨b, rfl, hb⟩ := hr.exists_negation hnr hc
    exact map_some_ne_none ((subtractNegated_eq _ hb).symm.trans (hneg rfl))
  rcases firstReplacement_cons ho with ⟨-, e', hr', rfl⟩ | ⟨-, ho⟩
  · change commonFactor _ (.binary .subtract l r .int) = _ at hr'
    obtain ⟨hfactor, c, hc, hy⟩ := factor_of_commonFactor hr'
    exact .factor hfactor hc hy
  -- the other rules are for calls
  obtain rfl := firstReplacement_eq_none (by simp [fits_binary, hl.accepts_function]) ho
  exact .kept (by simp [Expr.isNormalNode, hboth, hneg', hzero'])

theorem multiplyNegated_right (t : Tools) (hb : b.type = .int) :
    multiplyNegated t (.binary .multiply l (.unary .negate b .int) .int) = (do
      let p ← t.node (.binary .multiply l b .int)
      some <$> t.node (.unary .negate p .int)) := by
  have hunsigned : unsigned? l (.unary .negate b .int) .int = some (l, b) := by
    have hnegated : negated? .int (.unary .negate b .int) = some b := if_pos hb
    rw [unsigned?, hnegated]
  rw [multiplyNegated, if_pos (by rfl), hunsigned]

theorem multiplyNegated_left (t : Tools) (ha : a.type = .int) (hr : r.isNegation = false) :
    multiplyNegated t (.binary .multiply (.unary .negate a .int) r .int) = (do
      let p ← t.node (.binary .multiply a r .int)
      some <$> t.node (.unary .negate p .int)) := by
  have hunsigned : unsigned? (.unary .negate a .int) r .int = some (a, r) := by
    have hnegated : negated? .int (.unary .negate a .int) = some a := if_pos ha
    have hnone : negated? .int r = none := by
      cases r with
      | unary op _ _ => cases op <;> first | rfl | cases hr
      | _ => rfl
    rw [unsigned?, hnegated, hnone]
  rw [multiplyNegated, if_pos (by rfl), hunsigned]

theorem mergeExponents_int (t : Tools) (l r : Expr) :
    mergeExponents t (.binary .multiply l r .int) = .ok none := by
  have hint : ¬(Ty.int = .double ∧ isFactor .double (powerOf l).1 (powerOf r).1) :=
    fun h => absurd h.1 (by decide)
  rw [mergeExponents]
  exact if_neg hint

theorem multiplyStep (hl : Code ν Γ l) (hr : Code ν Γ r) (hnl : l.Normal)
    (hnr : r.Normal) (h : (standard catalog).node (n + 1) (.binary .multiply l r .int) = .ok y) :
    MultiplyStep (standard catalog) n l r y := by
  have hrules : (standard catalog).rulesFor (Expr.binary .multiply l r .int).shape =
      [⟨.binary .multiply, [.constant, .constant], binaryConstants⟩,
        .simple (.binary .multiply) [.any, .oneOf [1]] keepLeft,
        .simple (.binary .multiply) [.oneOf [1], .any] keepRight,
        .simple (.binary .multiply) [.any, .oneOf [0]] (result 0),
        .simple (.binary .multiply) [.oneOf [0], .any] (result 0),
        ⟨.binary .multiply, [.any, .unary .negate], multiplyNegated⟩,
        ⟨.binary .multiply, [.unary .negate, .any], multiplyNegated⟩,
        ⟨.binary .multiply, [], mergeExponents⟩,
        ⟨.binary .multiply, [.function .cos, .function .tan], cosineTimesTangent⟩,
        ⟨.binary .multiply, [.function .tan, .function .cos], cosineTimesTangent⟩] := rfl
  obtain ⟨o, ho, rfl⟩ := firstReplacement_of_node h
  rw [hrules] at ho
  rcases firstReplacement_cons ho with ⟨hfits, e', hr', rfl⟩ | ⟨-, ho⟩
  · rw [fits_binary, Slot.accepts_constant, Slot.accepts_constant] at hfits
    obtain ⟨a, b, ha, hb, rfl, rfl⟩ := exists_numbers hl hr hfits
    obtain ⟨c, hc, -, -⟩ := Number.binary_low (show Arith.multiply.isModular from rfl) ha hb
    cases (numbers_of_binary .multiply nofun nofun rfl hc).symm.trans hr'
    exact .folded hc
  rcases firstReplacement_cons ho with ⟨hfits, e', hr', rfl⟩ | ⟨hone, ho⟩
  · rw [Rule.simple, fits_binary, Slot.accepts_oneOf] at hfits
    obtain rfl := eq_of_keepLeft hr'
    exact .left hfits
  rcases firstReplacement_cons ho with ⟨hfits, e', hr', rfl⟩ | ⟨hone', ho⟩
  · rw [Rule.simple, fits_binary, Slot.accepts_oneOf, Bool.and_eq_true] at hfits
    obtain rfl := eq_of_keepRight hr'
    exact .right hfits.1
  rcases firstReplacement_cons ho with ⟨hfits, e', hr', rfl⟩ | ⟨hzero, ho⟩
  · rw [Rule.simple, fits_binary, Slot.accepts_oneOf] at hfits
    cases hr'
    exact .zero (.inr hfits)
  rcases firstReplacement_cons ho with ⟨hfits, e', hr', rfl⟩ | ⟨hzero', ho⟩
  · rw [Rule.simple, fits_binary, Slot.accepts_oneOf, Bool.and_eq_true] at hfits
    cases hr'
    exact .zero (.inl hfits.1)
  rcases firstReplacement_cons ho with ⟨hfits, e', hr', rfl⟩ | ⟨hneg, ho⟩
  · rw [fits_binary, Slot.accepts_negate] at hfits
    obtain ⟨b, rfl, hb⟩ := hr.exists_negation hnr hfits
    obtain ⟨p, hp, hy⟩ := exists_of_bind_eq_ok ((multiplyNegated_right _ hb).symm.trans hr')
    refine .negatedRight (Bool.eq_false_iff.2 fun hc => ?_) (Bool.eq_false_iff.2 fun hc => ?_) hp
      (eq_ok_of_map_some hy)
    · rw [Rule.simple, fits_binary, Slot.accepts_oneOf, hc] at hzero'
      cases hzero' rfl
    · rw [Rule.simple, fits_binary, Slot.accepts_oneOf, hc] at hone'
      cases hone' rfl
  rcases firstReplacement_cons ho with ⟨hfits, e', hr', rfl⟩ | ⟨-, ho⟩
  · rw [fits_binary, Slot.accepts_negate, Bool.and_eq_true] at hfits
    obtain ⟨a, rfl, ha⟩ := hl.exists_negation hnl hfits.1
    have hneg' : r.isNegation = false := by
      refine Bool.eq_false_iff.2 fun hc => ?_
      obtain ⟨b, rfl, hb⟩ := hr.exists_negation hnr hc
      obtain ⟨_, -, hnone⟩ :=
        exists_of_bind_eq_ok ((multiplyNegated_right _ hb).symm.trans (hneg rfl))
      exact map_some_ne_none hnone
    obtain ⟨p, hp, hy⟩ := exists_of_bind_eq_ok ((multiplyNegated_left _ ha hneg').symm.trans hr')
    refine .negatedLeft (Bool.eq_false_iff.2 fun hc => ?_) (Bool.eq_false_iff.2 fun hc => ?_) hp
      (eq_ok_of_map_some hy)
    · rw [Rule.simple, fits_binary, Slot.accepts_oneOf, hc] at hzero
      cases hzero rfl
    · rw [Rule.simple, fits_binary, Slot.accepts_oneOf, hc] at hone
      cases hone rfl
  rcases firstReplacement_cons ho with ⟨-, e', hr', rfl⟩ | ⟨-, ho⟩
  · cases (mergeExponents_int ((standard catalog).tools n) l r).symm.trans hr'
  -- the other rules are for calls
  obtain rfl := firstReplacement_eq_none (by simp [fits_binary, hl.accepts_function]) ho
  exact .kept

/-- The other operators are only computed for constants. -/
theorem foldStep {arith : Arith} (hl : Code ν Γ l)
    (hr : Code ν Γ r) (hop : op = .and ∨ op = .or ∨ op = .exclusiveOr)
    (harith : op.arith? = some arith)
    (h : (standard catalog).node (n + 1) (.binary op l r .int) = .ok y) : FoldStep arith op l r y := by
  have hrules : (standard catalog).rulesFor (Expr.binary op l r .int).shape =
      [⟨.binary op, [.constant, .constant], binaryConstants⟩] := by
    rcases hop with rfl | rfl | rfl <;> rfl
  have hmodular : op.isModular := by rcases hop with rfl | rfl | rfl <;> rfl
  obtain ⟨o, ho, rfl⟩ := firstReplacement_of_node h
  rw [hrules] at ho
  rcases firstReplacement_cons ho with ⟨hfits, e', hr', rfl⟩ | ⟨-, ho⟩
  · rw [fits_binary, Slot.accepts_constant, Slot.accepts_constant] at hfits
    obtain ⟨a, b, ha, hb, rfl, rfl⟩ := exists_numbers hl hr hfits
    have hm : arith.isModular := by rwa [BinaryOp.isModular, harith] at hmodular
    obtain ⟨c, hc, -, -⟩ := Number.binary_low hm ha hb
    have hadd : op ≠ .add := by rcases hop with rfl | rfl | rfl <;> nofun
    have hsub : op ≠ .subtract := by rcases hop with rfl | rfl | rfl <;> nofun
    cases (numbers_of_binary op hadd hsub harith hc).symm.trans hr'
    exact .folded hc
  · obtain rfl := firstReplacement_eq_none (by simp) ho
    exact .kept

/-- A node that there are no rules for is left as it is. -/
theorem node_eq_of_rulesFor (hrules : (standard catalog).rulesFor x.shape = [])
    (h : (standard catalog).node (n + 1) x = .ok y) : y = x := by
  obtain ⟨o, ho, rfl⟩ := firstReplacement_of_node h
  rw [hrules] at ho
  obtain rfl := firstReplacement_eq_none (by simp) ho
  rfl

end Standard

end Simplifier

end Scriptlet
