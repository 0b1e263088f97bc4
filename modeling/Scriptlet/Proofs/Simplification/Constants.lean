import Scriptlet.Engine
import Scriptlet.Proofs.Number.Folding
import Scriptlet.Proofs.Simplification.Trees

/-!
# Folding constants

Expressions without variables, which operators and casts build from whole numbers
(`Ground`), are simplified to constants. Such a constant and the result of the expression
are the same after a conversion to the type of the expression (`evaluate_simplify`), if at
each operator the constants that its operands have come to meet the condition of the
operator (`Expr.FaithfulWithin`).

Without the conditions that is not so (`simplify_changes_constants`). Nor is it so of a
character of more than sixteen bits, which is folded as a narrower number than the one it is
converted as (`converted_constant`).
-/

namespace Scriptlet

/-! ## Operators on whole numbers -/

namespace Evaluation

variable {α β : Type} {site : Site} {s s' : Store}

theorem exists_of_bind {m : Evaluation α} {k : α → Evaluation β} {y : β}
    (h : (m >>= k) site s = .ok y s') :
    ∃ x s₁, m site s = .ok x s₁ ∧ k x site s₁ = .ok y s' := by
  cases hm : m site s with
  | ok x s₁ => exact ⟨x, s₁, rfl, by rwa [bind_of_ok k hm] at h⟩
  | error x s₁ =>
    rw [bind_of_error k hm] at h
    cases h

theorem eq_ok_of_ofRun {r : Run α} {x : α} (h : ofRun r site s = .ok x s') : r s = .ok x s' := by
  rw [ofRun] at h
  cases hr : r s with
  | ok y s₁ =>
    rw [hr] at h
    cases h
    rfl
  | error y s₁ =>
    rw [hr] at h
    cases h

end Evaluation

namespace BinaryOp

variable {op : BinaryOp} {arith : Arith} {a b : Number} {k : IntKind} {v : Value} {s s' : Store}

/-- What an operator on two numbers comes to. -/
theorem exists_of_onValues (harith : op.arith? = some arith)
    (h : op.onValues (.number a) (.number b) (.numeric (.integral k)) s = .ok v s') :
    ∃ n, Number.binary arith a b = .ok n ∧ v = .number (n.convert (.integral k)) := by
  obtain ⟨hcompare, hequal, hnot⟩ := isComparison_of_arith harith
  simp only [onValues, if_neg hequal, if_neg hnot, onPresent, hcompare, harith] at h
  rw [if_neg (by simp), if_neg (by simp [Value.isNull]), if_neg (by decide)] at h
  change (Run.ofArith (Number.binary arith a b) >>= fun n =>
    pure (Value.number (n.convert (.integral k)))) s = _ at h
  cases hn : Number.binary arith a b with
  | error f =>
    rw [hn] at h
    cases h
  | ok n =>
    rw [hn] at h
    cases h
    exact ⟨n, rfl, rfl⟩

/-- What a comparison of two numbers comes to. -/
theorem onValues_comparison (hop : op.isComparison) (t : Ty) (s : Store) :
    op.onValues (.number a) (.number b) t s = .ok (.bool (op.holdsFor (a.compare b))) s := by
  cases op <;> first | rfl | cases hop

end BinaryOp

namespace Number

variable {arith : Arith} {k : IntKind} {x y z : BitVec k.width} {m : Number}

/-- The kinds that numbers are computed in. -/
theorem promote_self (hk : k.promoteUnary = k) : k.promote k = k := by
  revert hk
  cases k <;> decide

/-- Operators on two numbers of a kind that is computed in. -/
theorem exists_of_binary_self (hk : k.promoteUnary = k)
    (harith : arith ∉ [Arith.power, .leftShift, .rightShift])
    (h : Number.binary arith (integral k x) (integral k y) = .ok m) :
    ∃ z, m = integral k z ∧ integralOp arith k x y = .ok z := by
  have hkind : (NumericKind.integral k).promote (.integral k) = .integral k :=
    congrArg NumericKind.integral (promote_self hk)
  have hbinary : Number.binary arith (integral k x) (integral k y) =
      binaryIn arith (integral k x) (integral k y) (.integral k) := by
    conv_rhs => rw [← hkind]
    cases arith <;> first | rfl | exact absurd (by decide) harith
  rw [hbinary, binaryIn, bitsIn_self, bitsIn_self] at h
  cases hz : integralOp arith k x y with
  | error f =>
    rw [hz] at h
    cases h
  | ok z =>
    rw [hz] at h
    cases h
    exact ⟨z, rfl, rfl⟩

end Number

namespace Simplification

variable {op : BinaryOp} {arith : Arith} {k : IntKind} {a b m : Number} {x y : BitVec k.width}
  {e : Expr}

/-- An operator that computes in the kind that its operands are brought to. -/
theorem exists_of_numbers (harith : op.arith? = some arith)
    (hsum : arith ≠ .add ∧ arith ≠ .subtract)
    (h : numbers op a b (.numeric (.integral k)) = .ok (some e)) :
    ∃ n, Number.binary arith a b = .ok n ∧ e = .number (n.convert (.integral k)) := by
  have hop : ¬(op = .add ∨ op = .subtract) := by
    rintro (rfl | rfl) <;> cases harith
    · exact hsum.1 rfl
    · exact hsum.2 rfl
  rw [numbers, (BinaryOp.isComparison_of_arith harith).1, if_neg Bool.false_ne_true, if_neg (fun h => hop h.1), harith] at h
  simp only [Ty.numericKind?] at h
  cases hn : Number.binary arith a b with
  | error f =>
    rw [hn] at h
    cases h
  | ok n =>
    rw [hn] at h
    cases h
    exact ⟨n, rfl, rfl⟩

/-- Sums and differences, which are computed in floating point. -/
theorem stands_sum (harith : op.arith? = some arith) (hsum : arith = .add ∨ arith = .subtract)
    (ha : a.Stands k x) (hb : b.Stands k y) (hf : arith.faithful k a b)
    (h : numbers op a b (.numeric (.integral k)) = .ok (some e)) :
    ∃ n, e = .number n ∧ n.Stands k (arith.onBits x y) := by
  have hints : a.kind.isIntegral ∧ b.kind.isIntegral := by
    rw [ha.kind_eq, hb.kind_eq]
    exact ⟨rfl, rfl⟩
  rcases hsum with rfl | rfl
  · obtain rfl : op = .add := by cases op <;> first | rfl | cases harith
    rw [numbers, if_neg (by decide), if_pos ⟨.inl rfl, hints⟩] at h
    cases h
    simp only [Arith.faithful, List.all_cons, List.all_nil, Bool.and_true, Bool.and_eq_true,
      decide_eq_true_eq] at hf
    obtain ⟨j, hj, hholds, hn⟩ := Number.narrowest_add ha.toInt? hb.toInt? hf.1 hf.2.1 hf.2.2
    refine ⟨_, rfl, ?_⟩
    rw [if_pos rfl, hn, Arith.onBits, ← ha.ofInt_whole, ← hb.ofInt_whole, ← BitVec.ofInt_add]
    exact Number.stands_ofInt hj hholds
  · obtain rfl : op = .subtract := by cases op <;> first | rfl | cases harith
    rw [numbers, if_neg (by decide), if_pos ⟨.inr rfl, hints⟩] at h
    cases h
    simp only [Arith.faithful, List.all_cons, List.all_nil, Bool.and_true, Bool.and_eq_true,
      decide_eq_true_eq] at hf
    obtain ⟨j, hj, hholds, hn⟩ := Number.narrowest_sub ha.toInt? hb.toInt? hf.1 hf.2.1 hf.2.2
    refine ⟨_, rfl, ?_⟩
    rw [if_neg (by decide), hn, Arith.onBits, ← ha.ofInt_whole, ← hb.ofInt_whole,
      BitVec.sub_eq_add_neg, ← BitVec.ofInt_neg, ← BitVec.ofInt_add, ← Int.sub_eq_add_neg]
    exact Number.stands_ofInt hj hholds

/-- What an operator other than a shift folds to stands for what it comes to. -/
theorem stands_numbers (hk : k.promoteUnary = k) (harith : op.arith? = some arith)
    (hop : arith ∉ [Arith.power, .leftShift, .rightShift]) (ha : a.Stands k x) (hb : b.Stands k y)
    (hf : arith.faithful k a b) (h : numbers op a b (.numeric (.integral k)) = .ok (some e))
    (hm : Number.binary arith (.integral k x) (.integral k y) = .ok m) :
    ∃ n, e = .number n ∧ n.Stands k (m.bitsIn k) := by
  obtain ⟨z, rfl, hz⟩ := Number.exists_of_binary_self hk hop hm
  rw [Number.bitsIn_self]
  by_cases hsum : arith = .add ∨ arith = .subtract
  · have hmodular : arith.isModular := by rcases hsum with rfl | rfl <;> rfl
    rw [Arith.integralOp_eq hmodular] at hz
    cases hz
    exact stands_sum harith hsum ha hb hf h
  rw [not_or] at hsum
  obtain ⟨n, hn, rfl⟩ := exists_of_numbers harith hsum h
  refine ⟨_, rfl, Number.stands_convert ?_⟩
  -- one lemma on numbers for each operator
  cases arith with
  | multiply =>
    cases hz
    exact ha.multiply hb hf hn
  | divide =>
    rw [Number.integralOp] at hz
    split at hz
    · cases hz
    · cases hz
      exact ha.divide hb hf hn
  | modulo =>
    rw [Number.integralOp] at hz
    split at hz
    · cases hz
    · cases hz
      exact ha.modulo hb hf hn
  | and =>
    cases hz
    exact ha.bitwise (.inl rfl) hb hn
  | or =>
    cases hz
    exact ha.bitwise (.inr (.inl rfl)) hb hn
  | exclusiveOr =>
    cases hz
    exact ha.bitwise (.inr (.inr rfl)) hb hn
  | add => exact absurd rfl hsum.1
  | subtract => exact absurd rfl hsum.2
  | power | leftShift | rightShift => exact absurd (by decide) hop

/-- What a shift folds to stands for what it comes to. -/
theorem stands_shift {c : BitVec IntKind.int.width} (hk : k.promoteUnary = k)
    (harith : op.arith? = some arith) (hop : arith = .leftShift ∨ arith = .rightShift)
    (ha : a.Stands k x) (hb : b.Stands .int c) (hf : arith.faithful k a b)
    (h : numbers op a b (.numeric (.integral k)) = .ok (some e))
    (hm : Number.binary arith (.integral k x) (.integral .int c) = .ok m) :
    ∃ n, e = .number n ∧ n.Stands k (m.bitsIn k) := by
  have hsum : arith ≠ .add ∧ arith ≠ .subtract := by rcases hop with rfl | rfl <;> decide
  obtain ⟨n, hn, rfl⟩ := exists_of_numbers harith hsum h
  refine ⟨_, rfl, Number.stands_convert ?_⟩
  have hx := Number.stands_integral x
  have hconvert : ∀ {left : Bool}, Number.shift left (.integral k x) (.integral .int c) = .ok m →
      m.bitsIn k = Number.shiftBits left k x (IntKind.int.value c) := by
    intro left hm
    have hone : (Number.integral k x).integralKind.promoteUnary = k := hk
    obtain rfl := hx.eq_of_shift rfl hm
    rw [hone, hx.ofInt_whole]
    exact Number.bitsIn_self _
  rcases hop with rfl | rfl
  · rw [ha.leftShift hb hf hn, hconvert hm]
  · rw [ha.rightShift hb hf hn, hconvert hm]

end Simplification

/-! ## Expressions of whole numbers -/

/-- The operators that expressions of whole numbers are made of. -/
def BinaryOp.onWhole : List BinaryOp :=
  [.add, .subtract, .multiply, .divide, .modulo, .and, .or, .exclusiveOr, .leftShift, .rightShift,
    .equal, .notEqual, .lessThan, .lessThanOrEqual, .greaterThan, .greaterThanOrEqual]

/-- Expressions without variables, as operators and casts build them from whole numbers. -/
inductive Ground : Expr → Prop
  | literal {k : IntKind} (x : BitVec k.width) : k ∈ [IntKind.int, .uint, .long, .ulong] →
      Ground (.number (.integral k x))
  | unary (op : UnaryOp) (offset : Nat) {e e' : Expr} : op = .negate ∨ op = .complement →
      Ground e → e.applyUnary op offset = .ok e' → Ground e'
  | binary (op : BinaryOp) (offset : Nat) {l r e : Expr} : op ∈ BinaryOp.onWhole → Ground l →
      Ground r → l.applyBinary op r offset = .ok e → Ground e
  | cast (k : IntKind) (offset : Nat) {e e' : Expr} : Ground e →
      e.cast (.numeric (.integral k)) offset = .ok e' → Ground e'

/-- The trees that these expressions are. -/
inductive GroundOf : Ty → Expr → Prop
  | literal {k : IntKind} (x : BitVec k.width) :
      GroundOf (.numeric (.integral k)) (.number (.integral k x))
  | convert {j k : IntKind} {e : Expr} : GroundOf (.numeric (.integral k)) e →
      GroundOf (.numeric (.integral j)) (.convert e (.numeric (.integral j)))
  | negate {k : IntKind} {e : Expr} : k ≠ .uint → GroundOf (.numeric (.integral k)) e →
      GroundOf (.numeric (.integral k)) (.unary .negate e (.numeric (.integral k)))
  | complement {k : IntKind} {e : Expr} : GroundOf (.numeric (.integral k)) e →
      GroundOf (.numeric (.integral k)) (.unary .complement e (.numeric (.integral k)))
  | arith {op : BinaryOp} {arith : Arith} {k : IntKind} {l r : Expr} : op.arith? = some arith →
      arith ∉ [Arith.power, .leftShift, .rightShift] → k.promoteUnary = k →
      GroundOf (.numeric (.integral k)) l → GroundOf (.numeric (.integral k)) r →
      GroundOf (.numeric (.integral k)) (.binary op l r (.numeric (.integral k)))
  | shift {op : BinaryOp} {arith : Arith} {k : IntKind} {l r : Expr} : op.arith? = some arith →
      arith = .leftShift ∨ arith = .rightShift → k.promoteUnary = k →
      GroundOf (.numeric (.integral k)) l → GroundOf .int r →
      GroundOf (.numeric (.integral k)) (.binary op l r (.numeric (.integral k)))
  | compare {op : BinaryOp} {k : IntKind} {l r : Expr} : op.isComparison →
      GroundOf (.numeric (.integral k)) l → GroundOf (.numeric (.integral k)) r →
      GroundOf .bool (.binary op l r .bool)
  | logic {op : BinaryOp} {l r : Expr} :
      op ∈ [BinaryOp.and, .or, .exclusiveOr, .equal, .notEqual] → GroundOf .bool l →
      GroundOf .bool r → GroundOf .bool (.binary op l r .bool)

namespace GroundOf

variable {t : Ty} {e l r : Expr} {i j k : IntKind} {op : BinaryOp}

theorem type_eq (h : GroundOf t e) : e.type = t := by
  cases h <;> rfl

theorem type_cases (h : GroundOf t e) : t = .bool ∨ ∃ k, t = .numeric (.integral k) := by
  cases h <;> simp

theorem convertTo (h : GroundOf (.numeric (.integral k)) e) (j : IntKind) :
    GroundOf (.numeric (.integral j)) (e.convertTo (.numeric (.integral j))) := by
  rw [Expr.convertTo, h.type_eq]
  split
  next heq => exact heq ▸ h
  next => exact h.convert

theorem promoteUnary_promote (i j : IntKind) : (i.promote j).promoteUnary = i.promote j := by
  cases i <;> cases j <;> rfl

theorem promoteUnary_promoteUnary (i : IntKind) :
    i.promoteUnary.promoteUnary = i.promoteUnary := by
  cases i <;> rfl

end GroundOf

namespace Ground

open Expr

variable {e e' l r : Expr} {i j k : IntKind} {op : BinaryOp} {offset : Nat}

theorem applyBinary_whole (hop : op ∈ BinaryOp.onWhole) (hl : GroundOf (.numeric (.integral i)) l)
    (hr : GroundOf (.numeric (.integral j)) r) (h : l.applyBinary op r offset = .ok e) :
    ∃ t, GroundOf t e := by
  have hi := hl.convertTo (i.promote j)
  have hj := hr.convertTo (i.promote j)
  have hpromote := GroundOf.promoteUnary_promote i j
  unfold applyBinary at h
  rw [hl.type_eq, hr.type_eq] at h
  cases op with
  | add | subtract | multiply | divide | modulo | and | or | exclusiveOr =>
    cases h; exact ⟨_, .arith rfl (by decide) hpromote hi hj⟩
  | leftShift =>
    cases h
    exact ⟨_, .shift rfl (.inl rfl) (GroundOf.promoteUnary_promoteUnary i) (hl.convertTo _)
      (hr.convertTo .int)⟩
  | rightShift =>
    cases h
    exact ⟨_, .shift rfl (.inr rfl) (GroundOf.promoteUnary_promoteUnary i) (hl.convertTo _)
      (hr.convertTo .int)⟩
  | equal | notEqual | lessThan | lessThanOrEqual | greaterThan | greaterThanOrEqual =>
    cases h
    exact ⟨_, .compare rfl hi hj⟩
  | power | andAlso | orElse | coalesce => exact absurd hop (by decide)

theorem applyBinary_bool (hop : op ∈ BinaryOp.onWhole) (hl : GroundOf .bool l)
    (hr : GroundOf .bool r) (h : l.applyBinary op r offset = .ok e) : ∃ t, GroundOf t e := by
  unfold applyBinary at h
  rw [hl.type_eq, hr.type_eq] at h
  have hkeepl : l.convertTo .bool = l := if_pos hl.type_eq
  have hkeepr : r.convertTo .bool = r := if_pos hr.type_eq
  cases op with
  | and | or | exclusiveOr =>
    cases h
    refine ⟨.bool, ?_⟩
    show GroundOf .bool (.binary _ (l.convertTo .bool) (r.convertTo .bool) .bool)
    rw [hkeepl, hkeepr]
    exact .logic (by decide) hl hr
  | equal | notEqual =>
    cases h
    exact ⟨_, .logic (by decide) hl hr⟩
  | power | andAlso | orElse | coalesce => exact absurd hop (by decide)
  | _ => cases h

/-- Numbers and truth values have no operators in common. -/
theorem applyBinary_mixed (h : l.applyBinary op r offset = .ok e)
    (htypes : l.type = .bool ∧ r.type = .numeric (.integral k) ∨
      l.type = .numeric (.integral k) ∧ r.type = .bool) : False := by
  unfold applyBinary at h
  rcases htypes with ⟨hl, hr⟩ | ⟨hl, hr⟩ <;> rw [hl, hr] at h <;>
    cases op <;> cases h

/-- Building from whole numbers gives one of the trees. -/
theorem groundOf (h : Ground e) : ∃ t, GroundOf t e := by
  induction h with
  | literal x _ => exact ⟨_, .literal x⟩
  | unary op offset hop _ h ih =>
    obtain ⟨t, ht⟩ := ih
    unfold applyUnary at h
    rw [ht.type_eq] at h
    rcases ht.type_cases with rfl | ⟨k, rfl⟩
    · rcases hop with rfl | rfl <;> cases h
    · rcases hop with rfl | rfl
      · cases h
        cases k with
        | uint | long => exact ⟨_, .negate (by decide) (ht.convertTo .long)⟩
        | ulong => exact ⟨_, .negate (by decide) (ht.convertTo .ulong)⟩
        | _ => exact ⟨_, .negate (by decide) (ht.convertTo .int)⟩
      · cases h
        exact ⟨_, .complement (ht.convertTo k.promoteUnary)⟩
  | binary op offset hop _ _ h ihl ihr =>
    obtain ⟨s, hs⟩ := ihl
    obtain ⟨t, ht⟩ := ihr
    rcases hs.type_cases with rfl | ⟨i, rfl⟩ <;> rcases ht.type_cases with rfl | ⟨j, rfl⟩
    · exact applyBinary_bool hop hs ht h
    · exact (applyBinary_mixed h (.inl ⟨hs.type_eq, ht.type_eq⟩)).elim
    · exact (applyBinary_mixed h (.inr ⟨hs.type_eq, ht.type_eq⟩)).elim
    · exact applyBinary_whole hop hs ht h
  | cast k offset _ h ih =>
    obtain ⟨t, ht⟩ := ih
    rw [Expr.cast, ht.type_eq] at h
    rcases ht.type_cases with rfl | ⟨j, rfl⟩
    · cases h
    · split at h
      · cases h
        exact ⟨_, ht.convertTo k⟩
      · cases h

end Ground

/-! ## Simplifying and evaluating them -/

namespace Simplifier

open Simplification

variable {catalog : Catalog} {n : Nat} {op : BinaryOp} {c d : Constant} {t : Ty} {y : Expr}

/-- An operator on constants is computed, if it can be. -/
theorem binaryConstants_of_node (hop : op ∈ BinaryOp.onWhole)
    (hsome : ∀ tools, binaryConstants tools (.binary op (.constant c) (.constant d) t) ≠ .ok none)
    (h : (standard catalog).node n (.binary op (.constant c) (.constant d) t) = .ok y) :
    ∃ tools, binaryConstants tools (.binary op (.constant c) (.constant d) t) = .ok (some y) := by
  obtain ⟨n, rfl⟩ : ∃ n', n = n' + 1 := by
    cases n with
    | zero => cases h
    | succ n => exact ⟨n, rfl⟩
  obtain ⟨o, ho, rfl⟩ := firstReplacement_of_node h
  -- the rule for constants decides, wherever it is reached
  have hdecides : ∀ {rest}, firstReplacement ((standard catalog).tools n)
      (.binary op (.constant c) (.constant d) t)
        (⟨.binary op, [.constant, .constant], binaryConstants⟩ :: rest) = .ok o →
      binaryConstants ((standard catalog).tools n) (.binary op (.constant c) (.constant d) t) =
        .ok (some (o.getD (.binary op (.constant c) (.constant d) t))) := by
    intro rest ho
    rcases firstReplacement_cons ho with ⟨-, e', he, rfl⟩ | ⟨hnone, -⟩
    · exact he
    · have hfits : Rule.fits ⟨.binary op, [.constant, .constant], binaryConstants⟩
          (.binary op (.constant c) (.constant d) t) := by
        rw [fits_binary]
        rfl
      exact absurd (hnone hfits) (hsome ((standard catalog).tools n))
  refine ⟨(standard catalog).tools n, ?_⟩
  cases op with
  | divide | modulo =>
    rcases firstReplacement_cons ho with ⟨-, e', he, -⟩ | ⟨-, ho⟩
    · cases he
    · exact hdecides ho
  | power | andAlso | orElse | coalesce => exact absurd hop (by decide)
  | _ => exact hdecides ho

/-- The result of an operator on whole numbers. -/
theorem numbers_of_node {a b : Number} (hop : op ∈ BinaryOp.onWhole)
    (ht : op.isComparison ∨ op.arith?.isSome ∧ ∃ k, t = .numeric (.integral k))
    (h : (standard catalog).node n (.binary op (.number a) (.number b) t) = .ok y) :
    numbers op a b t = .ok (some y) := by
  have hsome : numbers op a b t ≠ .ok none := by
    rw [numbers]
    rcases ht with hcompare | ⟨harith, k, rfl⟩
    · rw [if_pos hcompare]
      rintro ⟨⟩
    · obtain ⟨arith, harith⟩ := Option.isSome_iff_exists.1 harith
      simp only [harith, Ty.numericKind?]
      split
      · rintro ⟨⟩
      split
      · rintro ⟨⟩
      split <;> rintro ⟨⟩
  obtain ⟨tools, htools⟩ := binaryConstants_of_node (c := .number a) (d := .number b) hop
    (fun _ => hsome) h
  exact htools

/-- The result of an operator on truth values. -/
theorem bools_of_node {a b : Bool} (hop : op ∈ [BinaryOp.and, .or, .exclusiveOr, .equal, .notEqual])
    (h : (standard catalog).node n (.binary op (.bool a) (.bool b) .bool) = .ok y) :
    ∃ c, bools? op a b = some c ∧ y = .bool c := by
  have hwhole : op ∈ BinaryOp.onWhole := by
    revert hop
    cases op <;> decide
  have hsome : (bools? op a b).isSome := by
    cases op <;> first | rfl | exact absurd hop (by decide)
  obtain ⟨c, hc⟩ := Option.isSome_iff_exists.1 hsome
  obtain ⟨tools, htools⟩ := binaryConstants_of_node (c := .bool a) (d := .bool b) hwhole (by
    intro tools
    show Except.ok ((bools? op a b).map Expr.bool) ≠ _
    rw [hc]
    exact nofun) h
  change Except.ok ((bools? op a b).map Expr.bool) = _ at htools
  rw [hc] at htools
  cases htools
  exact ⟨c, hc, rfl⟩

theorem node_convert_number {a : Number} {k : IntKind}
    (h : (standard catalog).node n (.convert (.number a) (.numeric (.integral k))) = .ok y) :
    y = .number (a.convert (.integral k)) := by
  cases n with
  | zero => cases h
  | succ n =>
    cases h
    rfl

theorem node_negate_number {a : Number} {k : IntKind}
    (h : (standard catalog).node n (.unary .negate (.number a) (.numeric (.integral k))) = .ok y) :
    y = .number (a.negate.convert (.integral k)) := by
  cases n with
  | zero => cases h
  | succ n =>
    cases h
    rfl

theorem node_complement_number {a b : Number} {k : IntKind} (hb : a.complement? = some b)
    (h : (standard catalog).node n (.unary .complement (.number a) (.numeric (.integral k))) =
      .ok y) : y = .number (b.convert (.integral k)) := by
  cases n with
  | zero => cases h
  | succ n =>
    obtain ⟨o, ho, rfl⟩ := firstReplacement_of_node h
    have hfold : a.complement?.map (fun m => Expr.number (m.convert (.integral k))) =
        some (.number (b.convert (.integral k))) := by
      rw [hb]
      rfl
    rcases firstReplacement_cons ho with ⟨-, e', he, rfl⟩ | ⟨hnone, -⟩
    · exact Option.some.inj ((Except.ok.inj he).symm.trans hfold)
    · cases (Except.ok.inj (hnone rfl)).symm.trans hfold

end Simplifier

/-- The integral kind that a type is of. -/
def Ty.intKind? : Ty → Option IntKind
  | numeric (.integral k) => some k
  | _ => none

namespace Expr

/-- Whether a node on constants meets the condition for its operator: what the operands come
    to, beside the operands themselves. -/
def faithful (x x' : Expr) : Bool :=
  match x, x' with
  | binary op l _ _, binary _ (constant (.number a)) (constant (.number b)) _ =>
    l.type.intKind?.all fun k =>
      if op.isComparison then k.holds a.whole && k.holds b.whole
      else op.arith?.all fun arith => arith.faithful k a b
  | unary .negate _ t, unary _ (constant (.number a)) _ => t.intKind?.all fun k => a.negatesIn k
  | convert e t, convert (constant (.number a)) _ =>
    e.type.intKind?.all fun k => t.intKind?.all fun j => j.width ≤ k.width || k.holds a.whole
  | _, _ => true

/-- All nodes of an expression, with their parts simplified, meet their conditions. -/
def FaithfulWithin (s : Simplifier) (n : Nat) (e : Expr) : Prop :=
  ∀ x ∈ e.subexpressions, ∀ x', x.mapChildrenM (s.simplifyWithin n) = .ok x' → x.faithful x'

theorem FaithfulWithin.child {s : Simplifier} {n : Nat} {e c : Expr} (h : e.FaithfulWithin s n)
    (hc : c ∈ e.children) : c.FaithfulWithin s n :=
  fun x hx => h x (mem_subexpressions_of_child hc hx)

end Expr

/-- A constant that stands for a value of a type. -/
inductive Constant.StandsFor : Ty → Constant → Value → Prop
  | number {k : IntKind} {n : Number} {x : BitVec k.width} : n.Stands k x →
      StandsFor (.numeric (.integral k)) (.number n) (.number (.integral k x))
  | bool (b : Bool) : StandsFor .bool (.bool b) (.bool b)

namespace GroundOf

open Simplifier Simplification Expr

variable {catalog : Catalog} {n : Nat} {t : Ty} {e e' : Expr} {m : Machine} {site : Site}
  {s s' : Store} {v : Value}

theorem exists_of_evaluate_binary {op : BinaryOp} {l r : Expr} (hop : op ∈ BinaryOp.onWhole)
    (h : m.evaluate (.binary op l r t) site s = .ok v s') :
    ∃ a s₁ b s₂, m.evaluate l site s = .ok a s₁ ∧ m.evaluate r site s₁ = .ok b s₂ ∧
      op.onValues a b t s₂ = .ok v s' := by
  have hbinary : Machine.binary op (m.evaluate l) (m.evaluate r) t = (do
      let a ← m.evaluate l
      let b ← m.evaluate r
      Evaluation.ofRun (op.onValues a b t)) := by
    cases op <;> first | rfl | exact absurd hop (by decide)
  rw [Machine.evaluate, hbinary] at h
  obtain ⟨a, s₁, ha, h⟩ := Evaluation.exists_of_bind h
  obtain ⟨b, s₂, hb, h⟩ := Evaluation.exists_of_bind h
  exact ⟨a, s₁, b, s₂, ha, hb, Evaluation.eq_ok_of_ofRun h⟩

/-- A binary operator with both operands simplified and evaluated. -/
theorem exists_operands {op : BinaryOp} {l r : Expr} {tl tr : Ty} (hop : op ∈ BinaryOp.onWhole)
    (hf : (Expr.binary op l r t).FaithfulWithin (standard catalog) n)
    (hy : (standard catalog).simplifyWithin n (.binary op l r t) = .ok e')
    (hv : m.evaluate (.binary op l r t) site s = .ok v s')
    (hl : ∀ {l' s s' v}, l.FaithfulWithin (standard catalog) n →
      (standard catalog).simplifyWithin n l = .ok l' → m.evaluate l site s = .ok v s' →
        ∃ c, l' = .constant c ∧ c.StandsFor tl v)
    (hr : ∀ {r' s s' v}, r.FaithfulWithin (standard catalog) n →
      (standard catalog).simplifyWithin n r = .ok r' → m.evaluate r site s = .ok v s' →
        ∃ c, r' = .constant c ∧ c.StandsFor tr v) :
    ∃ c d w₁ w₂ s₁, Constant.StandsFor tl c w₁ ∧ Constant.StandsFor tr d w₂ ∧
      (Expr.binary op l r t).faithful (.binary op (.constant c) (.constant d) t) ∧
      (standard catalog).node n (.binary op (.constant c) (.constant d) t) = .ok e' ∧
      op.onValues w₁ w₂ t s₁ = .ok v s' := by
  obtain ⟨x', hx, hy⟩ := exists_of_simplifyWithin hy
  have hnode := hf _ (mem_subexpressions_self _) _ hx
  obtain ⟨l', r', hl', hr', rfl⟩ := mapChildrenM_binary hx
  obtain ⟨w₁, s₁, w₂, s₂, hw₁, hw₂, hv⟩ := exists_of_evaluate_binary hop hv
  obtain ⟨c, rfl, hc⟩ := hl (hf.child (by simp [children])) hl' hw₁
  obtain ⟨d, rfl, hd⟩ := hr (hf.child (by simp [children])) hr' hw₂
  exact ⟨c, d, w₁, w₂, s₂, hc, hd, hnode, hy, hv⟩

/-- What such an expression is simplified to stands for its value. -/
theorem standsFor (h : GroundOf t e) (hf : e.FaithfulWithin (standard catalog) n)
    (hy : (standard catalog).simplifyWithin n e = .ok e')
    (hv : m.evaluate e site s = .ok v s') : ∃ c, e' = .constant c ∧ c.StandsFor t v := by
  induction h generalizing e' s s' v with
  | literal x =>
    obtain ⟨x', hx, hy⟩ := exists_of_simplifyWithin hy
    cases hx
    obtain rfl := Code.node_eq_self rfl hy
    cases hv
    exact ⟨_, rfl, .number (Number.stands_integral x)⟩
  | @convert j k e h ih =>
    obtain ⟨x', hx, hy⟩ := exists_of_simplifyWithin hy
    have hnode := hf _ (mem_subexpressions_self _) _ hx
    obtain ⟨e₁, he, rfl⟩ := mapChildrenM_convert hx
    rw [Machine.evaluate, Machine.converted] at hv
    obtain ⟨w, s₁, hw, hv⟩ := Evaluation.exists_of_bind hv
    obtain ⟨_, rfl, hc⟩ := ih (hf.child (List.mem_singleton_self _)) he hw
    cases hc with
    | @number _ a x ha =>
      obtain rfl := node_convert_number hy
      cases Evaluation.eq_ok_of_ofRun hv
      simp only [faithful, h.type_eq, Ty.intKind?, Option.all_some, Bool.or_eq_true,
        decide_eq_true_eq] at hnode
      exact ⟨_, rfl, .number (Number.stands_convert (ha.convert hnode))⟩
  | @negate k e hk _ ih =>
    obtain ⟨x', hx, hy⟩ := exists_of_simplifyWithin hy
    have hnode := hf _ (mem_subexpressions_self _) _ hx
    obtain ⟨e₁, he, rfl⟩ := mapChildrenM_unary hx
    rw [Machine.evaluate, if_neg (by decide)] at hv
    obtain ⟨w, s₁, hw, hv⟩ := Evaluation.exists_of_bind hv
    obtain ⟨_, rfl, hc⟩ := ih (hf.child (List.mem_singleton_self _)) he hw
    cases hc with
    | @number _ a x ha =>
      obtain rfl := node_negate_number hy
      cases Evaluation.eq_ok_of_ofRun hv
      simp only [faithful, Ty.intKind?, Option.all_some] at hnode
      refine ⟨_, rfl, .number (Number.stands_convert ?_)⟩
      -- the value itself is negated in a kind that is not narrower
      have hself : (Number.integral k x).negatesIn k := by
        simp [Number.negatesIn, IntKind.serves, Number.integralKind,
          IntKind.width_le_promoteUnary k]
      have hvalue := (Number.stands_integral x).negate hk hself
      rw [ha.negate hk hnode, ← hvalue]
      exact congrArg (fun q : Number => q.negate.bitsIn k) (Number.convert_self x).symm
  | @complement k e _ ih =>
    obtain ⟨x', hx, hy⟩ := exists_of_simplifyWithin hy
    obtain ⟨e₁, he, rfl⟩ := mapChildrenM_unary hx
    rw [Machine.evaluate, if_neg (by decide)] at hv
    obtain ⟨w, s₁, hw, hv⟩ := Evaluation.exists_of_bind hv
    obtain ⟨_, rfl, hc⟩ := ih (hf.child (List.mem_singleton_self _)) he hw
    cases hc with
    | @number _ a x ha =>
      obtain ⟨b, hb⟩ := ha.exists_complement
      obtain ⟨d, hd⟩ := (Number.stands_integral x).exists_complement
      obtain rfl := node_complement_number hb hy
      have hone : UnaryOp.complement.onNumber (.integral k x) (.integral k) =
          .ok (d.convert (.integral k)) := by
        simp only [UnaryOp.onNumber, Number.convert_self, hd]
        rfl
      have hv := Evaluation.eq_ok_of_ofRun hv
      change (Value.number <$> Run.ofFault
        (UnaryOp.complement.onNumber (.integral k x) (.integral k))) s₁ = _ at hv
      rw [hone] at hv
      cases hv
      refine ⟨_, rfl, .number (Number.stands_convert ?_)⟩
      rw [ha.complement hb, (Number.stands_integral x).complement hd]
  | @arith op arith k l r harith hop hk hl _ ihl ihr =>
    have hwhole : op ∈ BinaryOp.onWhole := by
      revert hop
      cases op <;> cases harith <;> decide
    obtain ⟨_, _, _, _, s₁, hc, hd, hnode, hy, hv⟩ := exists_operands hwhole hf hy hv ihl ihr
    cases hc with
    | @number _ a x ha =>
    cases hd with
    | @number _ b y hb =>
      simp only [faithful, hl.type_eq, Ty.intKind?, Option.all_some, harith,
        (BinaryOp.isComparison_of_arith harith).1, Bool.false_eq_true, if_false] at hnode
      obtain ⟨p, hp, rfl⟩ := BinaryOp.exists_of_onValues harith hv
      have hnumbers := numbers_of_node hwhole (.inr ⟨by rw [harith]; rfl, k, rfl⟩) hy
      obtain ⟨q, rfl, hq⟩ := stands_numbers hk harith hop ha hb hnode hnumbers hp
      exact ⟨_, rfl, .number hq⟩
  | @shift op arith k l r harith hop hk hl _ ihl ihr =>
    have hwhole : op ∈ BinaryOp.onWhole := by
      cases op <;> cases harith <;> first | decide | (rcases hop with h | h <;> cases h)
    obtain ⟨_, _, _, _, s₁, hc, hd, hnode, hy, hv⟩ := exists_operands hwhole hf hy hv ihl ihr
    cases hc with
    | @number _ a x ha =>
    cases hd with
    | @number _ b y hb =>
      simp only [faithful, hl.type_eq, Ty.intKind?, Option.all_some, harith,
        (BinaryOp.isComparison_of_arith harith).1, Bool.false_eq_true, if_false] at hnode
      obtain ⟨p, hp, rfl⟩ := BinaryOp.exists_of_onValues harith hv
      have hnumbers := numbers_of_node hwhole (.inr ⟨by rw [harith]; rfl, k, rfl⟩) hy
      obtain ⟨q, rfl, hq⟩ := stands_shift hk harith hop ha hb hnode hnumbers hp
      exact ⟨_, rfl, .number hq⟩
  | @compare op k l r hop hl _ ihl ihr =>
    have hwhole : op ∈ BinaryOp.onWhole := by
      revert hop
      cases op <;> decide
    obtain ⟨_, _, _, _, s₁, hc, hd, hnode, hy, hv⟩ := exists_operands hwhole hf hy hv ihl ihr
    cases hc with
    | @number _ a x ha =>
    cases hd with
    | @number _ b y hb =>
      simp only [faithful, hl.type_eq, Ty.intKind?, Option.all_some, hop, if_true,
        Bool.and_eq_true] at hnode
      rw [BinaryOp.onValues_comparison hop] at hv
      cases hv
      have hnumbers := numbers_of_node hwhole (.inl hop) hy
      rw [numbers, if_pos hop] at hnumbers
      cases hnumbers
      rw [← ha.compare hb hnode.1 hnode.2]
      exact ⟨_, rfl, .bool _⟩
  | @logic op l r hop _ _ ihl ihr =>
    have hwhole : op ∈ BinaryOp.onWhole := by
      revert hop
      cases op <;> decide
    obtain ⟨_, _, _, _, s₁, hc, hd, -, hy, hv⟩ := exists_operands hwhole hf hy hv ihl ihr
    cases hc with
    | bool a =>
    cases hd with
    | bool b =>
      obtain ⟨c, hc, rfl⟩ := bools_of_node hop hy
      have hvalue : v = .bool c := by
        cases op <;> first | (cases hc; cases hv; rfl) | exact absurd hop (by decide)
      exact ⟨_, rfl, hvalue ▸ .bool c⟩

end GroundOf

/-- The constant that an expression of whole numbers is simplified to is, after a conversion
    to the type of the expression, its value. -/
theorem evaluate_simplify (catalog : Catalog) (m : Machine) {e e' : Expr} (he : Ground e)
    (hf : e.FaithfulWithin (.standard catalog) Simplifier.depth)
    (hs : (Simplifier.standard catalog).simplify e = .ok e') {site : Site} {s s₁ : Store}
    {v : Value} (hv : m.evaluate e site s = .ok v s₁) (site' : Site) (s' : Store) :
    ∃ w, m.evaluate e' site' s' = .ok w s' ∧ w.convertTo e.type = .ok v := by
  obtain ⟨t, ht⟩ := he.groundOf
  obtain ⟨c, rfl, hc⟩ := ht.standsFor hf hs hv
  refine ⟨c.toValue, rfl, ?_⟩
  rw [ht.type_eq]
  cases hc with
  | number hn =>
    show Except.ok (Value.number (Number.integral _ _)) = _
    rw [hn.bits]
  | bool b => rfl

/-- A sum that is folded to a `byte`, and is widened and multiplied. -/
def wideProduct : Expr :=
  .binary .multiply
    (.convert (.binary .add (.number (.integral .int 2)) (.number (.integral .int 3)) .int) .long)
    (.number (.integral .long 4)) .long

/-- All operators in the product meet their conditions. -/
theorem evaluate_simplify_wideProduct :
    ∃ w, (({} : Engine).machine .none).evaluate (.number (.integral .long 20)) ⟨0, []⟩ {} = .ok w {} ∧
      w.convertTo .long = .ok (.number (.integral .long 20)) := by
  have hsum : Ground (.binary .add (.number (.integral .int 2)) (.number (.integral .int 3)) .int) :=
    .binary .add 0 (by decide) (.literal (k := .int) 2 (by decide))
      (.literal (k := .int) 3 (by decide)) rfl
  have hground : Ground wideProduct :=
    .binary .multiply 0 (by decide) hsum (.literal (k := .long) 4 (by decide)) rfl
  have hfaithful : wideProduct.FaithfulWithin (.standard .standard) Simplifier.depth := by
    have hparts : wideProduct.subexpressions = [wideProduct,
        .convert (.binary .add (.number (.integral .int 2)) (.number (.integral .int 3)) .int) .long,
        .binary .add (.number (.integral .int 2)) (.number (.integral .int 3)) .int,
        .number (.integral .int 2), .number (.integral .int 3), .number (.integral .long 4)] := rfl
    have hproduct : wideProduct.mapChildrenM
        ((Simplifier.standard .standard).simplifyWithin Simplifier.depth) =
          .ok (.binary .multiply (.number (.integral .long 5)) (.number (.integral .long 4)) .long) := by
      with_unfolding_all rfl
    have hconvert : (Expr.convert (.binary .add (.number (.integral .int 2))
        (.number (.integral .int 3)) .int) .long).mapChildrenM
          ((Simplifier.standard .standard).simplifyWithin Simplifier.depth) =
          .ok (.convert (.number (.integral .byte 5)) .long) := by
      with_unfolding_all rfl
    intro x hx x' hx'
    rw [hparts] at hx
    simp only [List.mem_cons, List.not_mem_nil, or_false] at hx
    rcases hx with rfl | rfl | rfl | rfl | rfl | rfl
    · cases hproduct.symm.trans hx'
      decide
    · cases hconvert.symm.trans hx'
      decide
    · cases hx'
      decide
    · cases hx'
      rfl
    · cases hx'
      rfl
    · cases hx'
      rfl
  have hsimple : (Simplifier.standard .standard).simplify wideProduct =
      .ok (.number (.integral .long 20)) := by
    with_unfolding_all rfl
  have hvalue : (({} : Engine).machine .none).evaluate wideProduct ⟨0, []⟩ {} =
      .ok (.number (.integral .long 20)) {} := by
    with_unfolding_all rfl
  exact evaluate_simplify .standard _ hground hfaithful hsimple hvalue ⟨0, []⟩ {}

/-! ## Where the results differ -/

/-- An expression of whole numbers whose value is another one once it is simplified. -/
def Expr.ChangesWithin (s : Simplifier) (m : Machine) (e : Expr) : Prop :=
  Ground e ∧ ∃ e' v w, s.simplify e = .ok e' ∧ m.evaluate e ⟨0, []⟩ {} = .ok v {} ∧
    m.evaluate e' ⟨0, []⟩ {} = .ok w {} ∧ w.convertTo e.type ≠ .ok v

/-- A sum that leaves `int`, halved. -/
def halvedSum : Expr :=
  .binary .divide
    (.binary .add (.number (.integral .int 2147483647)) (.number (.integral .int 1)) .int)
    (.number (.integral .int 2)) .int

/-- A sum that is not exact in floating point. -/
def longSum : Expr :=
  .binary .add (.number (.integral .long 9007199254740992)) (.number (.integral .long 1)) .long

/-- A product of sums that are kept in narrower kinds, whose product leaves those. -/
def narrowProduct : Expr :=
  .binary .multiply
    (.binary .add (.number (.integral .long 0)) (.number (.integral .long 2000000000)) .long)
    (.binary .add (.number (.integral .long 1)) (.number (.integral .long 1)) .long) .long

/-- The operands may not leave their type, sums have to be exact, and narrower kinds have to
    be wide enough. -/
theorem simplify_changes_constants :
    halvedSum.ChangesWithin (.standard .standard) (({} : Engine).machine .none) ∧
      longSum.ChangesWithin (.standard .standard) (({} : Engine).machine .none) ∧
      narrowProduct.ChangesWithin (.standard .standard) (({} : Engine).machine .none) := by
  have hlong : ∀ x, Ground (.number (.integral .long x)) :=
    fun x => .literal (k := .long) x (by decide)
  have hint : ∀ x, Ground (.number (.integral .int x)) :=
    fun x => .literal (k := .int) x (by decide)
  refine ⟨⟨?_, .number (.integral .int 1073741824), .number (.integral .int (-1073741824)),
    .number (.integral .int 1073741824), ?_, ?_, rfl, Value.ok_number_ne (by decide)⟩,
    ⟨?_, .number (.integral .long 9007199254740992), .number (.integral .long 9007199254740993),
      .number (.integral .long 9007199254740992), ?_, ?_, rfl, Value.ok_number_ne (by decide)⟩,
    ⟨?_, .number (.integral .long (-294967296)), .number (.integral .long 4000000000),
      .number (.integral .long (-294967296)), ?_, ?_, rfl, Value.ok_number_ne (by decide)⟩⟩
  · exact .binary .divide 0 (by decide) (.binary .add 0 (by decide) (hint _) (hint _) rfl) (hint _) rfl
  · with_unfolding_all rfl
  · with_unfolding_all rfl
  · exact .binary .add 0 (by decide) (hlong _) (hlong _) rfl
  · with_unfolding_all rfl
  · with_unfolding_all rfl
  · exact .binary .multiply 0 (by decide) (.binary .add 0 (by decide) (hlong _) (hlong _) rfl)
      (.binary .add 0 (by decide) (hlong _) (hlong _) rfl) rfl
  · with_unfolding_all rfl
  · with_unfolding_all rfl

/-! ## Characters as numbers -/

namespace Number

variable {v : Nat} {k : IntKind}

theorem holds_ushort_iff : IntKind.ushort.holds v ↔ v < 2 ^ 16 := by
  have hgreatest : IntKind.ushort.greatest = 2 ^ 16 - 1 := rfl
  have hleast : IntKind.ushort.least = 0 := rfl
  rw [IntKind.holds_iff, hgreatest, hleast]
  omega

/-- A number of at most thirty-two bits is the same converted from sixteen bits and from
    thirty-two to a kind exactly if it has no more than sixteen, or the kind has. -/
theorem bitsIn_ushort_iff (hv : IntKind.uint.holds v) :
    (ofInt .ushort v).bitsIn k = (ofInt .uint v).bitsIn k ↔ IntKind.ushort.serves k v := by
  have huint : (ofInt .uint v).bitsIn k = BitVec.ofInt k.width v :=
    bitsIn_integral rfl (by simp [IntKind.serves, hv])
  rw [huint]
  refine ⟨fun h => ?_, fun h => bitsIn_integral rfl h⟩
  rw [IntKind.serves, Bool.or_eq_true, decide_eq_true_iff, holds_ushort_iff]
  by_contra hwide
  rw [not_or, Nat.not_le] at hwide
  have hwidth : 32 ≤ k.width := by
    have := hwide.1
    revert this
    cases k <;> decide
  have hpow : 2 ^ 32 ≤ 2 ^ k.width := Nat.pow_le_pow_right (by decide) hwidth
  have hbits := (BitVec.ofInt 16 (v : Int)).isLt
  have hgreatest : IntKind.uint.greatest = 2 ^ 32 - 1 := rfl
  rw [IntKind.holds_iff, hgreatest] at hv
  -- both patterns are read as whole numbers, the first of which has sixteen bits
  change BitVec.ofInt k.width ((BitVec.ofInt 16 (v : Int)).toNat : Int) = _ at h
  generalize (BitVec.ofInt 16 (v : Int)).toNat = w at h hbits
  rw [BitVec.ofInt_natCast, BitVec.ofInt_natCast] at h
  replace h := congrArg BitVec.toNat h
  rw [BitVec.toNat_ofNat, BitVec.toNat_ofNat, Nat.mod_eq_of_lt (by omega),
    Nat.mod_eq_of_lt (by omega)] at h
  omega

/-- Whole numbers are converted by their value alone. -/
theorem convert_congr {i j : IntKind} {x : BitVec i.width} {y : BitVec j.width}
    (h : i.value x = j.value y) (k : NumericKind) :
    (integral i x).convert k = (integral j y).convert k := by
  cases k with
  | integral k => simp only [convert, bitsIn, toInt?, h]
  | floating k => cases k <;> simp only [convert, unpack, toDouble, h]

end Number

namespace Simplification

/-- Where constants are folded and compared, a character is a number of sixteen bits; where it is
    converted, one of thirty-two. So a folded conversion of a number, or of a character of at most
    sixteen bits, is what the conversion comes to when it is evaluated. Of other characters this is
    so for the integral kinds of at most sixteen bits, and not for the wider ones. -/
theorem converted_constant (m : Machine) (site : Site) (s : Store) {c : Constant} {n : Number}
    (hn : c.toValue.number? = some n) (k : NumericKind) :
    converted (.convert (.constant c) (.numeric k)) = some (.number (n.convert k)) ∧
    ((∀ d, c = .char d → d.toNat < 2 ^ 16) →
      m.evaluate (.convert (.constant c) (.numeric k)) site s = .ok (.number (n.convert k)) s) ∧
    ∀ d j, c = .char d → 2 ^ 16 ≤ d.toNat → k = .integral j →
      (m.evaluate (.convert (.constant c) (.numeric k)) site s = .ok (.number (n.convert k)) s ↔
        j.width ≤ 16) := by
  cases c with
  | number x =>
    cases hn
    exact ⟨rfl, fun _ => rfl, fun _ _ h => Constant.noConfusion h⟩
  | char d =>
    cases hn
    have hd : IntKind.uint.holds d.toNat := by
      have hlt := UInt32.toNat_lt d.val
      have hgreatest : IntKind.uint.greatest = 2 ^ 32 - 1 := rfl
      have hleast : IntKind.uint.least = 0 := rfl
      rw [IntKind.holds_iff, hgreatest, hleast, Char.toNat]
      omega
    have hevaluate : m.evaluate (.convert (.constant (.char d)) (.numeric k)) site s =
      .ok (.number ((Number.ofInt .uint d.toNat).convert k)) s := rfl
    refine ⟨rfl, fun hsmall => ?_, ?_⟩
    · have hvalue : IntKind.ushort.value (BitVec.ofInt 16 d.toNat) = d.toNat :=
        IntKind.value_ofInt_of_holds (k := .ushort) (Number.holds_ushort_iff.2 (hsmall d rfl))
      have hvalue' : IntKind.uint.value (BitVec.ofInt 32 d.toNat) = d.toNat :=
        IntKind.value_ofInt_of_holds (k := .uint) hd
      have hconvert := Number.convert_congr (hvalue'.trans hvalue.symm) k
      exact congrArg (fun n => EStateM.Result.ok (Value.number n) s) hconvert
    · rintro _ j ⟨⟩ hlarge rfl
      have hserves : IntKind.ushort.serves j d.toNat ↔ j.width ≤ 16 := by
        rw [IntKind.serves, Bool.or_eq_true, decide_eq_true_iff, Number.holds_ushort_iff]
        exact or_iff_left (Nat.not_lt.2 hlarge)
      rw [hevaluate, ← hserves, ← Number.bitsIn_ushort_iff hd]
      simp only [EStateM.Result.ok.injEq, Value.number.injEq, Number.convert, Number.integral.injEq,
        heq_eq_eq, true_and, and_true]
      exact eq_comm
  | _ => cases hn

end Simplification
end Scriptlet
