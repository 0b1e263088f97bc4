import Mathlib.Data.BitVec
import Scriptlet.Proofs.Code.Evaluation
import Scriptlet.Proofs.Expr.Sameness
import Scriptlet.Proofs.Simplification.Rules

/-!
# Simplifying a node keeps its meaning

The rules for operators on whole numbers keep the meaning of code (`nodeSound`)
where three things are seen to (`Expr.Settled`):

* operands whose order a rule exchanges are independent of each other,
* a factor that is dropped next to a zero has no side effects,
* the sum of two constants can be had exactly in floating point.

The rules pass nodes on to each other, so more has to be said about what comes out: it is
again code and all its nodes are as the rules leave them (`Expr.Normal`), which is what
keeps the three conditions from one rule to the next. It is a constant other than zero
only if the operands were constants, and then it is bounded by them (`Expr.heft`).
-/

namespace Scriptlet

variable {op : BinaryOp} {ν : String → Nat} {Γ : List Nat}

/-! ## Code without side effects -/

namespace Code

variable {ν : String → Nat} {Γ : List Nat} {e x y : Expr}

theorem changed_of_isPure (h : e.isPure) : e.changed = [] := by
  rw [Expr.isPure, List.all_eq_true] at h
  refine List.filterMap_eq_nil_iff.2 fun x hx => ?_
  have hpure := h x hx
  cases x with
  | unary op _ _ =>
    rw [Expr.changedHere, if_neg]
    simpa [Expr.isPureNode] using hpure
  | assign _ _ _ => cases hpure
  | _ => rfl

/-- Code without side effects leaves the environment alone. -/
theorem run_of_isPure (h : Code ν Γ e) (hp : e.isPure) (ρ : Env) :
    e.meaning ρ = (e.meaning.value ρ, ρ) := by
  refine Prod.ext rfl (funext fun id => ?_)
  exact h.keeps (by rw [changed_of_isPure hp]; exact List.not_mem_nil) ρ

theorem isPure_child {c : Expr} (h : e.isPure) (hc : c ∈ e.children) : c.isPure := by
  rw [Expr.isPure, List.all_eq_true] at h ⊢
  exact fun x hx => h x (Expr.mem_subexpressions_of_child hc hx)

theorem isPureNode_of_isPure (h : e.isPure) : e.isPureNode := by
  rw [Expr.isPure, List.all_eq_true] at h
  exact h e e.mem_subexpressions_self

end Code

namespace Expr

theorem isPure_eq (e : Expr) : e.isPure = (e.isPureNode && e.children.all isPure) := by
  rw [isPure, subexpressions_eq, List.all_cons, List.all_flatMap]
  rfl

theorem not_isPure {e : Expr} (h : e.isPureNode = false) : ¬e.isPure := by
  rw [isPure_eq, h]
  simp

@[simp]
theorem isPure_number (c : Number) : (number c).isPure = true := rfl

@[simp]
theorem isPure_negate (e : Expr) (t : Ty) : (unary .negate e t).isPure = e.isPure := by
  rw [isPure_eq]
  simp [isPureNode, children, UnaryOp.isMutation]

@[simp]
theorem isPure_complement (e : Expr) (t : Ty) : (unary .complement e t).isPure = e.isPure := by
  rw [isPure_eq]
  simp [isPureNode, children, UnaryOp.isMutation]

@[simp]
theorem isPure_convert (e : Expr) (t : Ty) : (convert e t).isPure = e.isPure := by
  rw [isPure_eq]
  simp [isPureNode, children]

@[simp]
theorem isPure_binary (op : BinaryOp) (l r : Expr) (t : Ty) :
    (binary op l r t).isPure = (l.isPure && r.isPure) := by
  rw [isPure_eq]
  simp [isPureNode, children]

end Expr

namespace Number

variable {a b c : Number}

theorem toInt?_of_isExact (h : c.isExact) : c.toInt? = some c.whole := by
  obtain ⟨k, -, bits, rfl⟩ := exists_of_onLadder (onLadder_of_isExact h)
  rfl

theorem natAbs_of_isExact (h : c.isExact) : c.whole.natAbs ≤ 2 ^ 53 := by
  rw [isExact, Bool.and_eq_true] at h
  exact of_decide_eq_true h.2

theorem low_of_isExact (h : c.isExact) : c.low = BitVec.ofInt 32 c.whole :=
  low_eq_ofInt (toInt?_of_isExact h)

theorem holds_of_natAbs {v : Int} (h : v.natAbs ≤ 2 ^ 53) : IntKind.long.holds v := by
  simp only [IntKind.holds, IntKind.least, IntKind.greatest, IntKind.signed, IntKind.width]
  simp
  omega

end Number

namespace Code

variable {ν : String → Nat} {Γ : List Nat} {e x y : Expr}

/-- Expressions that are the same have one meaning, since a name stands for one variable. -/
theorem meaning_of_same (hx : Code ν Γ x) (hy : Code ν Γ y) (hp : x.isPure)
    (h : x.same y) : y.meaning = x.meaning := by
  rw [Expr.same] at h
  induction hx generalizing y with
  | number ha =>
    cases hy with
    | number hb =>
      obtain ⟨-, -, hequivalent, -⟩ := Expr.sameNode_iff.1 (Expr.sameIn_iff.1 h).1
      have hwhole := Number.eq_of_equivalent (Number.toInt?_of_isExact ha)
        (Number.toInt?_of_isExact hb) (Number.holds_of_natAbs (Number.natAbs_of_isExact ha))
        (Number.holds_of_natAbs (Number.natAbs_of_isExact hb)) (hequivalent _ _ rfl rfl)
      rw [Expr.meaning, Expr.meaning, Expr.constantBits, Expr.constantBits,
        Number.low_of_isExact ha, Number.low_of_isExact hb, hwhole]
    | _ => cases Expr.ctorIdx_of_sameIn h
  | zero =>
    cases hy with
    | zero => rfl
    | _ => cases Expr.ctorIdx_of_sameIn h
  | @read v _ hν _ =>
    cases hy with
    | @read w _ hν' _ =>
      obtain ⟨-, -, -, hcorresponds⟩ := Expr.sameNode_iff.1 (Expr.sameIn_iff.1 h).1
      have halike : v.alike w := hcorresponds v w rfl rfl
      rw [Variable.alike, Bool.and_eq_true] at halike
      rw [Expr.meaning, Expr.meaning, hν, hν', eq_of_beq halike.1]
    | _ => cases Expr.ctorIdx_of_sameIn h
  | negate _ ih =>
    have hc := isPure_child hp (List.mem_singleton_self _)
    cases hy with
    | negate hy =>
      obtain ⟨-, _ | ⟨h, _ | _⟩⟩ := (Expr.sameIn_iff_of_plain rfl rfl).1 h
      rw [Expr.meaning, Expr.meaning, ih hy hc h]
      rfl
    | complement _ => cases Expr.marks_of_sameIn h
    | count hop _ _ _ =>
      cases Expr.marks_of_sameIn h
      cases hop
    | _ => cases Expr.ctorIdx_of_sameIn h
  | complement _ ih =>
    have hc := isPure_child hp (List.mem_singleton_self _)
    cases hy with
    | complement hy =>
      obtain ⟨-, _ | ⟨h, _ | _⟩⟩ := (Expr.sameIn_iff_of_plain rfl rfl).1 h
      rw [Expr.meaning, Expr.meaning, ih hy hc h]
      rfl
    | negate _ => cases Expr.marks_of_sameIn h
    | count hop _ _ _ =>
      cases Expr.marks_of_sameIn h
      cases hop
    | _ => cases Expr.ctorIdx_of_sameIn h
  | convert _ ih =>
    have hc := isPure_child hp (List.mem_singleton_self _)
    cases hy with
    | convert hy =>
      obtain ⟨-, _ | ⟨h, _ | _⟩⟩ := (Expr.sameIn_iff_of_plain rfl rfl).1 h
      rw [Expr.meaning, Expr.meaning, ih hy hc h]
    | _ => cases Expr.ctorIdx_of_sameIn h
  | binary _ _ _ ihl ihr =>
    have hl := isPure_child hp List.mem_cons_self
    have hr := isPure_child hp (List.mem_cons_of_mem _ (List.mem_singleton_self _))
    cases hy with
    | binary _ hyl hyr =>
      cases Expr.marks_of_sameIn h
      obtain ⟨-, _ | ⟨hleft, _ | ⟨hright, _ | _⟩⟩⟩ := (Expr.sameIn_iff_of_plain rfl rfl).1 h
      rw [Expr.meaning, Expr.meaning, ihl hyl hl hleft, ihr hyr hr hright]
    | _ => cases Expr.ctorIdx_of_sameIn h
  | count hop _ _ _ =>
    have := isPureNode_of_isPure hp
    simp [Expr.isPureNode, hop] at this
  | _ => cases isPureNode_of_isPure hp

end Code

/-! ## What has to be seen to at a node -/

namespace Expr

/-- The operands whose order of evaluation is exchanged at a node. -/
def exchanged? : Expr → Option (Expr × Expr)
  | unary .negate (binary .subtract a b _) _ => some (a, b)
  | binary .add (unary .negate a _) r _ => if r.isNegation then none else some (a, r)
  | binary .subtract (unary .negate a _) (unary .negate b _) _ => some (a, b)
  | binary .subtract l (binary .subtract a b _) _ => if l.isNumber 0 then some (a, b) else none
  | _ => none

/-- The factor that is dropped at a node, next to a zero. -/
def dropped? : Expr → Option Expr
  | binary .multiply l r _ =>
    if r.isNumber 0 then some l else if l.isNumber 0 then some r else none
  | _ => none

/-- The sum or difference of constants that a node is. -/
def constantSum? : Expr → Option Int
  | binary .add (constant (.number a)) (constant (.number b)) _ => some (a.whole + b.whole)
  | binary .subtract (constant (.number a)) (constant (.number b)) _ => some (a.whole - b.whole)
  | _ => none

/-- A node whose operands can be exchanged or dropped where the rules do so. -/
structure Orderly (x : Expr) : Prop where
  order : ∀ a b, x.exchanged? = some (a, b) → a.independent b
  effects : ∀ a, x.dropped? = some a → a.isPure

/-- A node, with its parts simplified, that the rules keep the meaning of. -/
structure Settled (x : Expr) : Prop extends Orderly x where
  sums : ∀ n, x.constantSum? = some n → n.natAbs ≤ 2 ^ 53

/-- Nodes that never become a constant or a difference: negations of neither, and products
    with no zero and no one of which not both factors are constants. -/
def isProper : Expr → Bool
  | unary .negate e _ => !e.isConstant && !e.isDifference
  | binary .multiply l r _ => !(l.isConstant && r.isConstant) &&
      [l, r].all fun e => !e.isNumber 0 && !e.isNumber 1
  | _ => false

end Expr

/-! ## The heft of constants -/

/-- A bound for what a constant can come to as an operand. -/
def Number.heft (c : Number) : Nat := if c.whole = 0 then 0 else max c.whole.natAbs (2 ^ 31)

namespace Expr

/-- The heft of an expression, if it is a constant. -/
def heft : Expr → Nat
  | constant (.number c) => c.heft
  | _ => 0

/-- What a node adds to the heft of its operands. -/
def ownHeft : Expr → Nat
  | constant (.number c) => c.heft
  | unary .complement _ _ => 2 ^ 31
  | _ => 0

/-- The heft of a node, if all its operands are constants. -/
def load (x : Expr) : Nat :=
  if x.operands.all isConstant then (x.operands.map heft).sum + x.ownHeft else 0

theorem load_binary {l r : Expr} {t : Ty}
    (h : (l.isConstant && r.isConstant) = false) : (binary op l r t).load = 0 := by
  rw [load, if_neg]
  simpa [operands] using h

theorem load_unary {op : UnaryOp} {e : Expr} {t : Ty} (h : e.isConstant = false) :
    (unary op e t).load = 0 := by
  rw [load, if_neg]
  simpa [operands] using h

theorem heft_of_isConstant {e : Expr} (h : e.isConstant = false) : e.heft = 0 := by
  cases e with
  | constant _ => cases h
  | _ => rfl

end Expr

namespace Number

variable {a b c : Number}

theorem heft_of_whole (h : c.whole = 0) : c.heft = 0 := if_pos h

theorem heft_of_whole_ne (h : c.whole ≠ 0) : c.heft = max c.whole.natAbs (2 ^ 31) := if_neg h

theorem low_double_zero : (double 0).low = 0 := by decide +kernel

theorem whole_convert_int (n : Number) : (n.convert .int).whole = n.low.toInt := rfl

theorem natAbs_toInt_le (x : BitVec 32) : x.toInt.natAbs ≤ 2 ^ 31 := by
  have hlo := BitVec.le_toInt x
  have hhi := BitVec.toInt_lt (x := x)
  omega

theorem isExact_convert_int (n : Number) : (n.convert .int).isExact := by
  have hbound := natAbs_toInt_le n.low
  have honLadder : (n.convert .int).onLadder = true := rfl
  rw [isExact, honLadder, Bool.true_and, decide_eq_true_eq, whole_convert_int]
  omega

theorem heft_convert_int (n : Number) : (n.convert .int).heft ≤ 2 ^ 31 := by
  have hbound := natAbs_toInt_le n.low
  rw [heft, whole_convert_int]
  split <;> omega

theorem isExact_int (x : BitVec 32) : (integral .int x).isExact := by
  have h := isExact_convert_int (integral .int x)
  rwa [convert_int, low_integral_int] at h

theorem heft_int (x : BitVec 32) : (integral .int x).heft ≤ 2 ^ 31 := by
  have h := heft_convert_int (integral .int x)
  rwa [convert_int, low_integral_int] at h

theorem heft_convert_int_of_low {n : Number} (h : n.low = 0) : (n.convert .int).heft = 0 := by
  refine heft_of_whole ?_
  rw [whole_convert_int, h]
  rfl

theorem low_of_whole (h : c.isExact) (hc : c.whole = 0) : c.low = 0 := by
  rw [low_of_isExact h, hc]
  rfl

/-- An operator that leaves zeros alone comes to zero for them, and to an `int` otherwise. -/
theorem heft_convert_int_le {n : Number} {w : Nat} (h : n.low ≠ 0 → 2 ^ 31 ≤ w) :
    (n.convert .int).heft ≤ w := by
  by_cases hn : n.low = 0
  · rw [heft_convert_int_of_low hn]
    exact Nat.zero_le w
  · exact (heft_convert_int n).trans (h hn)

theorem le_heft (h : c.isExact) (hc : c.low ≠ 0) : 2 ^ 31 ≤ c.heft := by
  rw [heft_of_whole_ne fun hw => hc (low_of_whole h hw)]
  exact Nat.le_max_right _ _

theorem natAbs_le_heft (c : Number) : c.whole.natAbs ≤ c.heft := by
  by_cases h : c.whole = 0
  · rw [h]
    exact Nat.zero_le _
  · rw [heft_of_whole_ne h]
    exact Nat.le_max_left _ _

/-- The heft of a sum or a difference. -/
theorem heft_le_add {v : Int} (hv : v.natAbs ≤ a.whole.natAbs + b.whole.natAbs)
    (hc : c.whole = v) : c.heft ≤ a.heft + b.heft := by
  have ha := natAbs_le_heft a
  have hb := natAbs_le_heft b
  by_cases h : v = 0
  · rw [heft_of_whole (hc.trans h)]
    exact Nat.zero_le _
  · rw [heft_of_whole_ne (hc ▸ h), hc]
    refine max_le (hv.trans (Nat.add_le_add ha hb)) ?_
    by_cases ha0 : a.whole = 0
    · have hb0 : b.whole ≠ 0 := by
        intro hb0
        rw [ha0, hb0] at hv
        exact h (Int.natAbs_eq_zero.1 (Nat.le_zero.1 hv))
      rw [heft_of_whole_ne hb0]
      exact (Nat.le_max_right _ _).trans (Nat.le_add_left _ _)
    · rw [heft_of_whole_ne ha0]
      exact (Nat.le_max_right _ _).trans (Nat.le_add_right _ _)

end Number

/-! ## Replacing a node -/

/-- A node whose parts are simplified. -/
structure Ready (ν : String → Nat) (Γ : List Nat) (x : Expr) : Prop where
  code : Code ν Γ x
  parts : ∀ c ∈ x.children, c.Normal

theorem Ready.binary {l r : Expr} (op : BinaryOp)
    (hop : op.isModular) (hl : Code ν Γ l) (hr : Code ν Γ r) (hnl : l.Normal)
    (hnr : r.Normal) : Ready ν Γ (.binary op l r .int) := by
  refine ⟨.binary hop hl hr, fun c hc => ?_⟩
  rcases List.mem_cons.1 hc with rfl | hc
  · exact hnl
  · rwa [List.mem_singleton.1 hc]

/-- An expression that can stand for a node. -/
structure Replaces (ν : String → Nat) (Γ : List Nat) (x y : Expr) : Prop where
  code : Code ν Γ y
  normal : y.Normal
  meaning : y.meaning = x.meaning
  heft : y.heft ≤ x.load
  proper : x.isProper → y.isConstant = false ∧ y.isDifference = false
  effects : x.isPure → y.isPure

/-- At a depth, simplified nodes stand for the nodes they come from. -/
def NodeSound (s : Simplifier) (ν : String → Nat) (Γ : List Nat) (n : Nat) : Prop :=
  ∀ x y, Ready ν Γ x → x.Settled → s.node n x = .ok y → Replaces ν Γ x y

namespace Expr

variable {e : Expr}

theorem meaning_number (c : Number) : (number c).meaning = pure c.low := rfl

theorem meaning_negate (e : Expr) (t : Ty) :
    (unary .negate e t).meaning = (do let x ← e.meaning; pure (-x)) := by
  rw [meaning]
  rfl

theorem meaning_complement (e : Expr) (t : Ty) :
    (unary .complement e t).meaning = (do let x ← e.meaning; pure (~~~x)) := by
  rw [meaning]
  rfl

theorem meaning_convert (e : Expr) (t : Ty) : (convert e t).meaning = e.meaning := by
  rw [meaning]

theorem meaning_add (l r : Expr) (t : Ty) :
    (binary .add l r t).meaning = (do let x ← l.meaning; let y ← r.meaning; pure (x + y)) := by
  rw [meaning]
  rfl

theorem meaning_subtract (l r : Expr) (t : Ty) :
    (binary .subtract l r t).meaning = (do let x ← l.meaning; let y ← r.meaning; pure (x - y)) := by
  rw [meaning]
  rfl

theorem meaning_multiply (l r : Expr) (t : Ty) :
    (binary .multiply l r t).meaning = (do let x ← l.meaning; let y ← r.meaning; pure (x * y)) := by
  rw [meaning]
  rfl

/-- A number that is recognised has the pattern of that number. -/
theorem exists_of_isNumber_zero (h : Code ν Γ e) (he : e.isNumber 0) :
    ∃ c : Number, c.isExact ∧ c.whole = 0 ∧ e = number c := by
  obtain ⟨c, hc, rfl⟩ := h.exists_number (isConstant_of_isNumber he)
  have hbeq : (c.toDouble == 0) = true := he
  rw [Number.toDouble_beq_zero (Number.toInt?_of_isExact hc) (Number.natAbs_of_isExact hc),
    decide_eq_true_eq] at hbeq
  exact ⟨c, hc, hbeq, rfl⟩

theorem exists_of_isNumber_one (h : Code ν Γ e) (he : e.isNumber 1) :
    ∃ c : Number, c.isExact ∧ c.whole = 1 ∧ e = number c := by
  obtain ⟨c, hc, rfl⟩ := h.exists_number (isConstant_of_isNumber he)
  have hbeq : (c.toDouble == 1) = true := he
  rw [Number.toDouble_beq_one (Number.toInt?_of_isExact hc) (Number.natAbs_of_isExact hc),
    decide_eq_true_eq] at hbeq
  exact ⟨c, hc, hbeq, rfl⟩

/-! ### Nodes about which nothing has to be seen to -/

theorem settled_subtract {l r : Expr} (hneg : (l.isNegation && r.isNegation) = false)
    (hdiff : r.isDifference = false ∨ l.isNumber 0 = false)
    (hboth : (l.isConstant && r.isConstant) = false) : (binary .subtract l r .int).Settled := by
  have hexchanged : (binary .subtract l r .int).exchanged? = none := by
    unfold exchanged?
    split <;> simp_all [isNegation, isDifference]
  have hsum : (binary .subtract l r .int).constantSum? = none := by
    unfold constantSum?
    split <;> simp_all [isConstant, constant?]
  exact ⟨⟨by simp [hexchanged], by simp [dropped?]⟩, by simp [hsum]⟩

theorem settled_add {l r : Expr} (hboth : (l.isConstant && r.isConstant) = false)
    (h : ∀ a t, l = unary .negate a t → r.isNegation = false → a.independent r) :
    (binary .add l r .int).Settled := by
  have hsum : (binary .add l r .int).constantSum? = none := by
    unfold constantSum?
    split <;> simp_all [isConstant, constant?]
  refine ⟨⟨fun a b hab => ?_, by simp [dropped?]⟩, by simp [hsum]⟩
  unfold exchanged? at hab
  split at hab
  case h_2 heq =>
    cases heq
    simp only [Option.ite_none_left_eq_some, Option.some.injEq, Prod.mk.injEq] at hab
    obtain ⟨hneg, rfl, rfl⟩ := hab
    exact h _ _ rfl (by simpa using hneg)
  all_goals simp_all

theorem settled_multiply {l r : Expr} (hl : l.isNumber 0 → r.isPure) (hr : r.isNumber 0 = false) :
    (binary .multiply l r .int).Settled := by
  refine ⟨⟨by simp [exchanged?], fun a ha => ?_⟩, by simp [constantSum?]⟩
  unfold dropped? at ha
  simp only [hr, Bool.false_eq_true, if_false, Option.ite_none_right_eq_some,
    Option.some.injEq] at ha
  exact ha.2 ▸ hl ha.1

theorem settled_negate (h : ∀ a b t, e = binary .subtract a b t → a.independent b) :
    (unary .negate e .int).Settled := by
  refine ⟨⟨fun a b hab => ?_, by simp [dropped?]⟩, by simp [constantSum?]⟩
  unfold exchanged? at hab
  split at hab <;> simp_all

theorem isNumber_of_isConstant (h : e.isConstant = false) (x : Float) : e.isNumber x = false :=
  Bool.eq_false_iff.2 fun hx => by rw [isConstant_of_isNumber hx] at h; cases h

theorem normal_number (c : Number) : (number c).Normal :=
  normal_of_children rfl fun _ h => nomatch h

end Expr

namespace Replaces

open Simplifier Expr

variable {ν : String → Nat} {Γ : List Nat} {catalog : Catalog} {n : Nat} {e l r x y : Expr}

/-- A node that is kept. -/
theorem self (h : Ready ν Γ x) (hnode : x.isNormalNode) (hheft : x.heft ≤ x.load)
    (hproper : x.isProper → x.isConstant = false ∧ x.isDifference = false) : Replaces ν Γ x x :=
  ⟨h.code, normal_of_children hnode h.parts, rfl, hheft, hproper, id⟩

/-- A constant that takes the place of a node. -/
theorem number {c : Number} (hc : c.isExact) (hmeaning : x.meaning = pure c.low)
    (hheft : c.heft ≤ x.load) (hproper : x.isProper = false) : Replaces ν Γ x (.number c) :=
  ⟨.number hc, normal_number c, hmeaning.symm, hheft, fun h => absurd h (by simp [hproper]),
    fun _ => rfl⟩

/-- A node that is simplified in the place of another, and is none of constants only. -/
theorem turn {z : Expr} (h : Replaces ν Γ z y) (hmeaning : z.meaning = x.meaning)
    (hload : z.load = 0) (hproper : x.isProper = false) (hpure : x.isPure → z.isPure) :
    Replaces ν Γ x y := by
  refine ⟨h.code, h.normal, h.meaning.trans hmeaning, ?_, fun hp => absurd hp (by simp [hproper]),
    h.effects ∘ hpure⟩
  have hzero := h.heft
  rw [hload] at hzero
  exact hzero.trans (Nat.zero_le _)

theorem negate (ih : NodeSound (standard catalog) ν Γ n) (he : Code ν Γ e)
    (hn : e.Normal) (hs : (Expr.unary .negate e .int).Settled)
    (h : (standard catalog).node (n + 1) (.unary .negate e .int) = .ok y) :
    Replaces ν Γ (.unary .negate e .int) y := by
  cases negateStep he hn h with
  | folded c =>
    have hc : c.isExact := by cases he; assumption
    have hneg := (Number.negate_low (Number.onLadder_of_isExact hc)).2
    refine number (Number.isExact_convert_int _) ?_ (Number.heft_convert_int_le fun hlow => ?_) rfl
    · rw [meaning_negate, meaning_number, pure_bind, Number.convert_int, Number.low_integral_int, hneg]
    · refine Number.le_heft hc fun hzero => hlow ?_
      rw [hneg, hzero]
      rfl
  | twice a =>
    obtain ⟨-, ha⟩ := he.of_negate
    have hnode := hn.node
    simp only [isNormalNode, Bool.and_eq_true, Bool.not_eq_true'] at hnode
    refine ⟨ha, hn.child (List.mem_singleton_self _), ?_, ?_, fun _ => ⟨hnode.1.1, hnode.2⟩,
      by simp⟩
    · simp only [meaning_negate, bind_assoc, pure_bind, neg_neg, bind_pure]
    · rw [heft_of_isConstant hnode.1.1]
      exact Nat.zero_le _
  | @exchanged a b _ hy =>
    obtain ⟨-, ha, hb⟩ := he.of_binary
    have hnode := hn.node
    simp only [isNormalNode, Bool.and_eq_true, Bool.not_eq_true'] at hnode
    have hboth : (b.isConstant && a.isConstant) = false := by rw [Bool.and_comm]; exact hnode.1.1
    have hready := Ready.binary .subtract rfl hb ha (hn.child (by simp [children]))
      (hn.child (by simp [children]))
    have hturn := ih _ _ hready
      (settled_subtract (by rw [hnode.1.2]; rfl) (.inr hnode.2) hboth) hy
    refine hturn.turn ?_ (load_binary hboth) (by simp [isProper, isDifference])
      (by simp [Bool.and_comm])
    rw [meaning_negate, meaning_subtract, meaning_subtract]
    simp only [bind_assoc, pure_bind, neg_sub]
    exact (ha.bind_comm hb (hs.order a b rfl) fun x y => pure (y - x)).symm
  | kept hnode =>
    have hready : Ready ν Γ (.unary .negate e .int) := ⟨.negate he, by simpa [children] using hn⟩
    exact self hready hnode (Nat.zero_le _) fun _ => ⟨rfl, rfl⟩

theorem complement (he : Code ν Γ e) (hn : e.Normal)
    (h : (standard catalog).node (n + 1) (.unary .complement e .int) = .ok y) :
    Replaces ν Γ (.unary .complement e .int) y := by
  cases complementStep he h with
  | @folded c d hd =>
    have hc : c.isExact := by cases he; assumption
    obtain ⟨d', hd', -, hlow⟩ := Number.complement_low (Number.onLadder_of_isExact hc)
    obtain rfl : d' = d := Option.some.inj (hd'.symm.trans hd)
    refine number (Number.isExact_convert_int _) ?_ (Number.heft_convert_int_le fun _ => ?_) rfl
    · rw [meaning_complement, meaning_number, pure_bind, Number.convert_int, Number.low_integral_int,
        hlow]
    · exact Nat.le_add_left _ _
  | kept =>
    have hready : Ready ν Γ (.unary .complement e .int) :=
      ⟨.complement he, by simpa [children] using hn⟩
    exact self hready rfl (Nat.zero_le _) fun _ => ⟨rfl, rfl⟩

theorem convert (he : Code ν Γ e) (hn : e.Normal)
    (h : (standard catalog).node (n + 1) (.convert e .int) = .ok y) :
    Replaces ν Γ (.convert e .int) y := by
  cases convertStep he h with
  | folded c =>
    have hc : c.isExact := by cases he; assumption
    refine number (Number.isExact_convert_int _) ?_ (Number.heft_convert_int_le fun hlow => ?_) rfl
    · rw [Expr.meaning, meaning_number, Number.convert_int, Number.low_integral_int]
    · exact Number.le_heft hc hlow
  | kept =>
    have hready : Ready ν Γ (.convert e .int) := ⟨.convert he, by simpa [children] using hn⟩
    exact self hready rfl (Nat.zero_le _) fun _ => ⟨rfl, rfl⟩

/-! ### Sums and differences -/

/-- The sum or difference of constants. -/
theorem sum {a b c : Number} {v : Int} (hv : v.natAbs ≤ 2 ^ 53)
    (hle : v.natAbs ≤ a.whole.natAbs + b.whole.natAbs)
    (hc : ∃ k ∈ IntKind.ladder, k.holds v ∧ c = .ofInt k v)
    (hmeaning : (Expr.binary op (.number a) (.number b) .int).meaning = pure (BitVec.ofInt 32 v))
    (hproper : (Expr.binary op (.number a) (.number b) .int).isProper = false) :
    Replaces ν Γ (.binary op (.number a) (.number b) .int) (.number c) := by
  obtain ⟨k, hk, hholds, rfl⟩ := hc
  have hwhole : (Number.ofInt k v).whole = v := by rw [Number.whole, Number.toInt?_ofInt hholds]; rfl
  have hexact : (Number.ofInt k v).isExact := by
    rw [Number.isExact, hwhole, Bool.and_eq_true]
    exact ⟨by simpa [Number.onLadder, Number.ofInt] using hk, decide_eq_true hv⟩
  refine number hexact ?_ (Number.heft_le_add hle hwhole) hproper
  rw [hmeaning, Number.low_ofInt hholds]

/-- An operand that takes the place of a sum, a difference or a product. -/
theorem operand (hx : x = l ∧ r.isConstant ∨ x = r ∧ l.isConstant)
    (hcode : Code ν Γ x) (hn : x.Normal)
    (hmeaning : (Expr.binary op l r .int).meaning = x.meaning)
    (hproper : (Expr.binary op l r .int).isProper = false) :
    Replaces ν Γ (.binary op l r .int) x := by
  have hpure : (Expr.binary op l r .int).isPure → x.isPure := by
    rw [isPure_binary, Bool.and_eq_true]
    rcases hx with ⟨rfl, -⟩ | ⟨rfl, -⟩
    · exact And.left
    · exact And.right
  refine ⟨hcode, hn, hmeaning.symm, ?_, fun h => absurd h (by simp [hproper]), hpure⟩
  cases hboth : l.isConstant && r.isConstant with
  | true =>
    rw [load, if_pos (by simpa [operands] using hboth)]
    rcases hx with ⟨rfl, -⟩ | ⟨rfl, -⟩ <;> simp [operands] <;> omega
  | false =>
    -- the other operand is a constant, so this one is none
    have hconst : x.isConstant = false := by
      rcases hx with ⟨rfl, h⟩ | ⟨rfl, h⟩ <;> simpa [h] using hboth
    rw [heft_of_isConstant hconst]
    exact Nat.zero_le _

end Replaces

/-! ### Multiples of one expression -/

namespace Simplification

open Expr

variable {ν : String → Nat} {Γ : List Nat} {l : Expr}

/-- An expression is a multiple of itself, or a product with a constant. -/
theorem multiple_cases (h : Code ν Γ l) :
    multiple l = (none, l) ∨ ∃ (c : Number) (x : Expr), c.isExact ∧ multiple l = (some c, x) ∧
      (l = .binary .multiply (.number c) x .int ∨ l = .binary .multiply x (.number c) .int) := by
  cases h with
  | @binary op a b _ ha hb =>
    by_cases hop : op = .multiply
    · subst hop
      cases hca : a.isConstant with
      | true =>
        obtain ⟨c, hc, rfl⟩ := ha.exists_number hca
        exact .inr ⟨c, b, hc, rfl, .inl rfl⟩
      | false =>
        have hna : a.number? = none := by
          cases a with
          | constant _ => cases hca
          | _ => rfl
        cases hcb : b.isConstant with
        | true =>
          obtain ⟨c, hc, rfl⟩ := hb.exists_number hcb
          refine .inr ⟨c, a, hc, ?_, .inr rfl⟩
          rw [multiple, hna]
          rfl
        | false =>
          have hnb : b.number? = none := by
            cases b with
            | constant _ => cases hcb
            | _ => rfl
          refine .inl ?_
          rw [multiple, hna, hnb]
    · refine .inl ?_
      unfold multiple
      split <;> simp_all
  | _ => exact .inl rfl

/-- The number that an expression is a multiple by. -/
def coefficient (l : Expr) : BitVec 32 := ((multiple l).1.getD (.int 1)).low

/-- A multiple of code without side effects. -/
theorem meaning_multiple (h : Code ν Γ l)
    (hx : ∀ ρ, (multiple l).2.meaning ρ = ((multiple l).2.meaning.value ρ, ρ)) (ρ : Env) :
    l.meaning ρ = (coefficient l * (multiple l).2.meaning.value ρ, ρ) := by
  rcases multiple_cases h with hm | ⟨c, x, hc, hm, hl⟩
  · have hone : coefficient l = 1 := by rw [coefficient, hm]; rfl
    rw [hone, one_mul, ← hx, hm]
  · have hcoefficient : coefficient l = c.low := by rw [coefficient, hm]; rfl
    rw [hm] at hx ⊢
    rw [hcoefficient]
    rcases hl with rfl | rfl
    · rw [meaning_multiply, meaning_number, pure_bind, Meaning.bind_of_eq _ (hx ρ)]
      rfl
    · rw [meaning_multiply, Meaning.bind_of_eq _ (hx ρ), meaning_number, pure_bind, mul_comm]
      rfl

theorem code_multiple (h : Code ν Γ l) (hn : l.Normal) :
    Code ν Γ (multiple l).2 ∧ (multiple l).2.Normal := by
  rcases multiple_cases h with hm | ⟨c, x, hc, hm, hl⟩
  · rw [hm]
    exact ⟨h, hn⟩
  · rw [hm]
    rcases hl with rfl | rfl
    · exact ⟨h.of_binary.2.2, hn.child (by simp [children])⟩
    · exact ⟨h.of_binary.2.1, hn.child (by simp [children])⟩

end Simplification

namespace Replaces

open Simplifier Simplification Expr

variable {ν : String → Nat} {Γ : List Nat} {catalog : Catalog} {n : Nat} {e l r x y : Expr}
  {op : BinaryOp}

/-- The sum or difference of two multiples of one expression. -/
theorem factor {arith : Arith} {c : Number}
    (ih : NodeSound (standard catalog) ν Γ n) (hop : op = .add ∨ op = .subtract)
    (harith : op.arith? = some arith) (hl : Code ν Γ l) (hr : Code ν Γ r)
    (hnl : l.Normal) (hnr : r.Normal) (hfactor : isFactor .int (multiple l).2 (multiple r).2)
    (hc : Number.binary arith (((multiple l).1.getD (.int 1)).convert .int)
      (((multiple r).1.getD (.int 1)).convert .int) = .ok c) (hy : (standard catalog).node n
      (.binary .multiply (.number (c.convert .int)) (multiple l).2 .int) = .ok y) :
    Replaces ν Γ (.binary op l r .int) y := by
  obtain ⟨hcode, hnormal⟩ := code_multiple hl hnl
  obtain ⟨hcode', -⟩ := code_multiple hr hnr
  simp only [isFactor, Bool.and_eq_true, Option.isNone_iff_eq_none] at hfactor
  obtain ⟨⟨⟨hnone, -⟩, hpure⟩, hsame⟩ := hfactor
  have hconst : (multiple l).2.isConstant = false := isConstant_eq_false.2 hnone
  have hequal := hcode.meaning_of_same hcode' hpure hsame
  have hrun := hcode.run_of_isPure hpure
  have hml := meaning_multiple hl hrun
  have hmr := meaning_multiple hr (by rw [hequal]; exact hrun)
  rw [hequal] at hmr
  -- the product of the sum of the numbers with the expression
  have hboth : ((Expr.number (c.convert .int)).isConstant && (multiple l).2.isConstant) = false := by
    rw [hconst, Bool.and_false]
  have hzero := isNumber_of_isConstant hconst 0
  have hready : Ready ν Γ (.binary .multiply (.number (c.convert .int)) (multiple l).2 .int) :=
    .binary .multiply rfl (.number (Number.isExact_convert_int _)) hcode (normal_number _) hnormal
  have hturn := ih _ _ hready (settled_multiply (fun _ => hpure) hzero) hy
  obtain ⟨d, hd, -, hlow⟩ := Number.binary_low
    (a := ((multiple l).1.getD (.int 1)).convert .int)
    (b := ((multiple r).1.getD (.int 1)).convert .int)
    (show arith.isModular by rcases hop with rfl | rfl <;> cases harith <;> rfl) rfl rfl
  obtain rfl : d = c := Except.ok.inj (hd.symm.trans hc)
  refine hturn.turn ?_ (load_binary hboth) (by rcases hop with rfl | rfl <;> rfl)
    (by simp [hpure])
  funext ρ
  have hd : d.low = arith.onBits (coefficient l) (coefficient r) := by
    rw [hlow, Number.convert_int, Number.convert_int, Number.low_integral_int,
      Number.low_integral_int]
    rfl
  rw [meaning_multiply, meaning_number, pure_bind, Meaning.bind_of_eq _ (hrun ρ), Number.convert_int,
    Number.low_integral_int, hd]
  rcases hop with rfl | rfl <;> cases harith
  · rw [meaning_add, Meaning.bind_of_eq _ (hml ρ), Meaning.bind_of_eq _ (hmr ρ), ← add_mul]
    rfl
  · rw [meaning_subtract, Meaning.bind_of_eq _ (hml ρ), Meaning.bind_of_eq _ (hmr ρ), ← sub_mul]
    rfl

theorem add (ih : NodeSound (standard catalog) ν Γ n) (hl : Code ν Γ l)
    (hr : Code ν Γ r) (hnl : l.Normal) (hnr : r.Normal)
    (hs : (Expr.binary .add l r .int).Settled)
    (h : (standard catalog).node (n + 1) (.binary .add l r .int) = .ok y) :
    Replaces ν Γ (.binary .add l r .int) y := by
  cases addStep hl hr hnl hnr h with
  | folded a b =>
    have ha : a.isExact := by cases hl; assumption
    have hb : b.isExact := by cases hr; assumption
    have hv := hs.sums _ rfl
    refine sum hv (Int.natAbs_add_le _ _) (Number.narrowest_add (Number.toInt?_of_isExact ha)
      (Number.toInt?_of_isExact hb) (Number.natAbs_of_isExact ha) (Number.natAbs_of_isExact hb) hv)
      ?_ rfl
    rw [meaning_add, meaning_number, meaning_number, pure_bind, pure_bind, Number.low_of_isExact ha,
      Number.low_of_isExact hb, BitVec.ofInt_add]
  | left hzero =>
    obtain ⟨c, hc, hwhole, rfl⟩ := exists_of_isNumber_zero hr hzero
    refine operand (.inl ⟨rfl, rfl⟩) hl hnl ?_ rfl
    rw [meaning_add, meaning_number, Number.low_of_whole hc hwhole]
    simp only [pure_bind, add_zero, bind_pure]
  | right hzero =>
    obtain ⟨c, hc, hwhole, rfl⟩ := exists_of_isNumber_zero hl hzero
    refine operand (.inr ⟨rfl, rfl⟩) hr hnr ?_ rfl
    rw [meaning_add, meaning_number, Number.low_of_whole hc hwhole]
    simp only [pure_bind, zero_add, bind_pure]
  | @negatedRight _ b _ hy =>
    obtain ⟨-, hb⟩ := hr.of_negate
    have hnode := hnr.node
    simp only [isNormalNode, Bool.and_eq_true, Bool.not_eq_true'] at hnode
    have hboth : (l.isConstant && b.isConstant) = false := by rw [hnode.1.1, Bool.and_false]
    have hready := Ready.binary .subtract rfl hl hb hnl (hnr.child (List.mem_singleton_self _))
    have hturn := ih _ _ hready (settled_subtract (by rw [hnode.1.2, Bool.and_false])
      (.inl hnode.2) hboth) hy
    refine hturn.turn ?_ (load_binary hboth) rfl (by simp)
    rw [meaning_subtract, meaning_add, meaning_negate]
    simp only [bind_assoc, pure_bind, sub_eq_add_neg]
  | @negatedLeft a _ _ hneg hy =>
    obtain ⟨-, ha⟩ := hl.of_negate
    have hnode := hnl.node
    simp only [isNormalNode, Bool.and_eq_true, Bool.not_eq_true'] at hnode
    have hboth : (r.isConstant && a.isConstant) = false := by rw [hnode.1.1, Bool.and_false]
    have hready := Ready.binary .subtract rfl hr ha hnr (hnl.child (List.mem_singleton_self _))
    have hturn := ih _ _ hready (settled_subtract (by rw [hnode.1.2, Bool.and_false])
      (.inl hnode.2) hboth) hy
    have hindependent : a.independent r := hs.order a r (by simp [exchanged?, hneg])
    refine hturn.turn ?_ (load_binary hboth) rfl (by simp [Bool.and_comm])
    rw [meaning_subtract, meaning_add, meaning_negate]
    simp only [bind_assoc, pure_bind, neg_add_eq_sub]
    exact (ha.bind_comm hr hindependent fun x y => pure (y - x)).symm
  | factor hfactor hc hy => exact factor ih (.inl rfl) rfl hl hr hnl hnr hfactor hc hy
  | kept => exact self (Ready.binary .add rfl hl hr hnl hnr) rfl (Nat.zero_le _) (by rintro ⟨⟩)

theorem subtract (ih : NodeSound (standard catalog) ν Γ n) (hl : Code ν Γ l)
    (hr : Code ν Γ r) (hnl : l.Normal) (hnr : r.Normal)
    (hs : (Expr.binary .subtract l r .int).Settled)
    (h : (standard catalog).node (n + 1) (.binary .subtract l r .int) = .ok y) :
    Replaces ν Γ (.binary .subtract l r .int) y := by
  cases subtractStep hl hr hnr h with
  | folded a b =>
    have ha : a.isExact := by cases hl; assumption
    have hb : b.isExact := by cases hr; assumption
    have hv := hs.sums _ rfl
    refine sum hv (Int.natAbs_sub_le _ _) (Number.narrowest_sub (Number.toInt?_of_isExact ha)
      (Number.toInt?_of_isExact hb) (Number.natAbs_of_isExact ha) (Number.natAbs_of_isExact hb) hv)
      ?_ rfl
    rw [meaning_subtract, meaning_number, meaning_number, pure_bind, pure_bind,
      Number.low_of_isExact ha, Number.low_of_isExact hb, ← ofInt_sub]
  | left hzero =>
    obtain ⟨c, hc, hwhole, rfl⟩ := exists_of_isNumber_zero hr hzero
    refine operand (.inl ⟨rfl, rfl⟩) hl hnl ?_ rfl
    rw [meaning_subtract, meaning_number, Number.low_of_whole hc hwhole]
    simp only [pure_bind, sub_zero, bind_pure]
  | negative hzero hconst hy =>
    obtain ⟨c, hc, hwhole, rfl⟩ := exists_of_isNumber_zero hl hzero
    have hsettled : (Expr.unary .negate r .int).Settled := by
      refine settled_negate fun a b t hab => hs.order a b ?_
      rw [hab]
      exact if_pos hzero
    have hturn := ih _ _ ⟨.negate hr, by simpa [children] using hnr⟩ hsettled hy
    refine hturn.turn ?_ (load_unary hconst) rfl (by simp)
    rw [meaning_subtract, meaning_negate, meaning_number, Number.low_of_whole hc hwhole]
    simp only [pure_bind, zero_sub]
  | @negated _ b _ hy =>
    obtain ⟨-, hb⟩ := hr.of_negate
    have hnode := hnr.node
    simp only [isNormalNode, Bool.and_eq_true, Bool.not_eq_true'] at hnode
    have hboth : (l.isConstant && b.isConstant) = false := by rw [hnode.1.1, Bool.and_false]
    have hready := Ready.binary .add rfl hl hb hnl (hnr.child (List.mem_singleton_self _))
    have hsettled : (Expr.binary .add l b .int).Settled := by
      refine settled_add hboth fun a t hla _ => hs.order a b ?_
      rw [hla]
      rfl
    refine (ih _ _ hready hsettled hy).turn ?_ (load_binary hboth) rfl (by simp)
    rw [meaning_subtract, meaning_add, meaning_negate]
    simp only [bind_assoc, pure_bind, sub_neg_eq_add]
  | factor hfactor hc hy => exact factor ih (.inr rfl) rfl hl hr hnl hnr hfactor hc hy
  | kept hnode => exact self (.binary .subtract rfl hl hr hnl hnr) hnode (Nat.zero_le _) (by rintro ⟨⟩)

/-! ### Products and other operators -/

/-- An operator on constants other than a sum. -/
theorem fold {arith : Arith} {a b c : Number} (hop : op.isModular)
    (harith : op.arith? = some arith) (ha : a.isExact) (hb : b.isExact)
    (hc : Number.binary arith a b = .ok c) :
    Replaces ν Γ (.binary op (.number a) (.number b) .int) (.number (c.convert .int)) := by
  have hm : arith.isModular := by rwa [BinaryOp.isModular, harith] at hop
  obtain ⟨d, hd, -, hlow⟩ := Number.binary_low hm (Number.onLadder_of_isExact ha)
    (Number.onLadder_of_isExact hb)
  obtain rfl : d = c := Except.ok.inj (hd.symm.trans hc)
  have hproper : (Expr.binary op (.number a) (.number b) .int).isProper = false := by
    cases op <;> rfl
  refine number (Number.isExact_convert_int _) ?_ (Number.heft_convert_int_le fun hne => ?_) hproper
  · rw [Expr.meaning, meaning_number, meaning_number, pure_bind, pure_bind, Number.convert_int,
      Number.low_integral_int, hlow, BinaryOp.onBits, harith]
    rfl
  · -- of zeros each of the operators makes a zero
    have hsome : a.low ≠ 0 ∨ b.low ≠ 0 := by
      by_contra hzero
      rw [not_or, not_not, not_not] at hzero
      rw [hlow, hzero.1, hzero.2] at hne
      cases arith <;> exact hne rfl
    show 2 ^ 31 ≤ a.heft + (b.heft + 0) + 0
    rcases hsome with h | h
    · have := Number.le_heft ha h
      omega
    · have := Number.le_heft hb h
      omega

theorem bitwise (hop : op = .and ∨ op = .or ∨ op = .exclusiveOr)
    (hl : Code ν Γ l) (hr : Code ν Γ r) (hnl : l.Normal) (hnr : r.Normal)
    (h : (standard catalog).node (n + 1) (.binary op l r .int) = .ok y) :
    Replaces ν Γ (.binary op l r .int) y := by
  have hmodular : op.isModular := by rcases hop with rfl | rfl | rfl <;> rfl
  obtain ⟨arith, harith, -⟩ := (Option.any_eq_true _ _).1 hmodular
  cases foldStep hl hr hop harith h with
  | @folded a b c hc =>
    have ha : a.isExact := by cases hl; assumption
    have hb : b.isExact := by cases hr; assumption
    exact fold hmodular harith ha hb hc
  | kept =>
    refine self (.binary op hmodular hl hr hnl hnr) ?_ (Nat.zero_le _) ?_
    · rcases hop with rfl | rfl | rfl <;> rfl
    · rcases hop with rfl | rfl | rfl <;> nofun

/-- A product from which a negation has moved out. -/
theorem product {a b p : Expr} (ih : NodeSound (standard catalog) ν Γ n)
    (hready : Ready ν Γ (.binary .multiply a b .int))
    (hproper : (Expr.binary .multiply a b .int).isProper)
    (hpure : (Expr.binary .multiply l r .int).isPure → (Expr.binary .multiply a b .int).isPure)
    (hmeaning : (Expr.binary .multiply l r .int).meaning =
      (do let x ← (Expr.binary .multiply a b .int).meaning; pure (-x)))
    (hp : (standard catalog).node n (.binary .multiply a b .int) = .ok p)
    (hy : (standard catalog).node n (.unary .negate p .int) = .ok y) :
    Replaces ν Γ (.binary .multiply l r .int) y := by
  have hfactors := hproper
  simp only [isProper, List.all_cons, List.all_nil, Bool.and_eq_true, Bool.not_eq_true',
    Bool.and_true] at hfactors
  have hsettled : (Expr.binary .multiply a b .int).Settled :=
    settled_multiply (fun h => by simp [hfactors.2.1.1] at h) hfactors.2.2.1
  have hturn := ih _ _ hready hsettled hp
  obtain ⟨hconst, hdiff⟩ := hturn.proper hproper
  -- the product is no difference, so that nothing is exchanged
  have hsettled' : (Expr.unary .negate p .int).Settled := by
    refine settled_negate fun a b t hab => ?_
    rw [hab] at hdiff
    cases hdiff
  have hturn' := ih _ _ ⟨.negate hturn.code, by simpa [children] using hturn.normal⟩ hsettled' hy
  have hplain := hturn'.proper (by simp [isProper, hconst, hdiff])
  refine ⟨hturn'.code, hturn'.normal, ?_, ?_, fun _ => hplain, fun h => hturn'.effects ?_⟩
  · rw [hturn'.meaning, meaning_negate, hturn.meaning, hmeaning]
  · rw [heft_of_isConstant hplain.1]
    exact Nat.zero_le _
  · rw [isPure_negate]
    exact hturn.effects (hpure h)

theorem multiply (ih : NodeSound (standard catalog) ν Γ n) (hl : Code ν Γ l)
    (hr : Code ν Γ r) (hnl : l.Normal) (hnr : r.Normal)
    (hs : (Expr.binary .multiply l r .int).Settled)
    (h : (standard catalog).node (n + 1) (.binary .multiply l r .int) = .ok y) :
    Replaces ν Γ (.binary .multiply l r .int) y := by
  cases multiplyStep hl hr hnl hnr h with
  | @folded a b c hc =>
    have ha : a.isExact := by cases hl; assumption
    have hb : b.isExact := by cases hr; assumption
    exact fold rfl rfl ha hb hc
  | left hone =>
    obtain ⟨c, hc, hwhole, rfl⟩ := exists_of_isNumber_one hr hone
    refine operand (.inl ⟨rfl, rfl⟩) hl hnl ?_ (by simp [isProper, hone])
    rw [meaning_multiply, meaning_number, Number.low_of_isExact hc, hwhole]
    have hbits : BitVec.ofInt 32 1 = 1 := rfl
    simp only [pure_bind, hbits, mul_one, bind_pure]
  | right hone =>
    obtain ⟨c, hc, hwhole, rfl⟩ := exists_of_isNumber_one hl hone
    refine operand (.inr ⟨rfl, rfl⟩) hr hnr ?_ (by simp [isProper, hone])
    rw [meaning_multiply, meaning_number, Number.low_of_isExact hc, hwhole]
    have hbits : BitVec.ofInt 32 1 = 1 := rfl
    simp only [pure_bind, hbits, one_mul, bind_pure]
  | zero hzero =>
    refine number (Number.isExact_convert_int _) ?_ ?_ ?_
    · rw [Number.convert_int, Number.low_integral_int, Number.low_double_zero]
      funext ρ
      cases hr0 : r.isNumber 0 with
      | true =>
        have hpure := hs.effects l (by simp [dropped?, hr0])
        obtain ⟨c, hc, hwhole, rfl⟩ := exists_of_isNumber_zero hr hr0
        rw [meaning_multiply, Meaning.bind_of_eq _ (hl.run_of_isPure hpure ρ), meaning_number,
          pure_bind, Number.low_of_whole hc hwhole, mul_zero]
      | false =>
        have hl0 := hzero.resolve_right (by simp [hr0])
        have hpure := hs.effects r (by simp [dropped?, hr0, hl0])
        obtain ⟨c, hc, hwhole, rfl⟩ := exists_of_isNumber_zero hl hl0
        rw [meaning_multiply, meaning_number, pure_bind,
          Meaning.bind_of_eq _ (hr.run_of_isPure hpure ρ), Number.low_of_whole hc hwhole, zero_mul]
    · rw [Number.heft_convert_int_of_low Number.low_double_zero]
      exact Nat.zero_le _
    · rcases hzero with h | h <;> simp [isProper, h]
  | @negatedRight _ b p _ hzero hone hp hy =>
    obtain ⟨-, hb⟩ := hr.of_negate
    have hnode := hnr.node
    simp only [isNormalNode, Bool.and_eq_true, Bool.not_eq_true'] at hnode
    have hready := Ready.binary .multiply rfl hl hb hnl (hnr.child (List.mem_singleton_self _))
    refine product ih hready ?_ (by simp) ?_ hp hy
    · simp [isProper, hnode.1.1, hzero, hone, isNumber_of_isConstant hnode.1.1]
    · rw [meaning_multiply, meaning_multiply, meaning_negate]
      simp only [bind_assoc, pure_bind, mul_neg]
  | @negatedLeft a _ p _ hzero hone hp hy =>
    obtain ⟨-, ha⟩ := hl.of_negate
    have hnode := hnl.node
    simp only [isNormalNode, Bool.and_eq_true, Bool.not_eq_true'] at hnode
    have hready := Ready.binary .multiply rfl ha hr (hnl.child (List.mem_singleton_self _)) hnr
    refine product ih hready ?_ (by simp) ?_ hp hy
    · simp [isProper, hnode.1.1, hzero, hone, isNumber_of_isConstant hnode.1.1]
    · rw [meaning_multiply, meaning_multiply, meaning_negate]
      simp only [bind_assoc, pure_bind, neg_mul]
  | kept =>
    exact self (.binary .multiply rfl hl hr hnl hnr) rfl (Nat.zero_le _) fun _ => ⟨rfl, rfl⟩

end Replaces

/-- Where it is seen to what has to be, a simplified node stands for the node. -/
theorem nodeSound (catalog : Catalog) (ν : String → Nat) (Γ : List Nat) (n : Nat) :
    NodeSound (.standard catalog) ν Γ n := by
  induction n with
  | zero => intro x y _ _ h; cases h
  | succ n ih =>
    intro x y hready hs h
    -- the rules leave all nodes alone that are no operators
    have hkept : (Simplifier.standard catalog).rulesFor x.shape = [] → x.isNormalNode →
        x.heft ≤ x.load → x.isProper = false → Replaces ν Γ x y := by
      intro hrules hnode hheft hproper
      obtain rfl := Simplifier.node_eq_of_rulesFor hrules h
      exact .self hready hnode hheft fun hp => absurd hp (by simp [hproper])
    have hparts := hready.parts
    cases hready.code with
    | number _ => exact hkept rfl rfl (by simp [Expr.load, Expr.operands, Expr.heft, Expr.ownHeft]) rfl
    | zero | read _ _ _ => exact hkept rfl rfl (Nat.zero_le _) rfl
    | negate he => exact .negate ih he (hparts _ (List.mem_singleton_self _)) hs h
    | complement he => exact .complement he (hparts _ (List.mem_singleton_self _)) h
    | convert he => exact .convert he (hparts _ (List.mem_singleton_self _)) h
    | @count op v hop _ _ _ =>
      refine hkept ?_ ?_ (Nat.zero_le _) ?_ <;> cases op <;> first | rfl | cases hop
    | @binary op l r hop hl hr =>
      have hnl := hparts l List.mem_cons_self
      have hnr := hparts r (List.mem_cons_of_mem _ (List.mem_singleton_self _))
      cases op with
      | add => exact .add ih hl hr hnl hnr hs h
      | subtract => exact .subtract ih hl hr hnl hnr hs h
      | multiply => exact .multiply ih hl hr hnl hnr hs h
      | and => exact .bitwise (.inl rfl) hl hr hnl hnr h
      | or => exact .bitwise (.inr (.inl rfl)) hl hr hnl hnr h
      | exclusiveOr => exact .bitwise (.inr (.inr rfl)) hl hr hnl hnr h
      | _ => cases hop
    | assign _ _ _ _ => exact hkept rfl rfl (Nat.zero_le _) rfl

end Scriptlet
