import Scriptlet.Proofs.Number.Integral
import Scriptlet.Proofs.Reading.Phrase
import Scriptlet.Proofs.Token.Numerals

/-!
# Legible expressions

An expression is legible (`Expr.Legible`) if it is built from parameters, truth values,
literals, conversions between numbers, and operators, and if each operator takes its operands
as they are: building it once more from them adds no conversion (`BinaryOp.Fits`). A number is
legible if it is a literal, or one with a minus sign in front (`Number.Legible`).

What a phrase of such parts means is legible (`Phrase.legible_meaning`): the conversions that
an operator needs are there, and an operator that finds them needs no others.
-/

namespace Scriptlet

variable {t : Ty} {op : UnaryOp}

/-! ## Numbers -/

namespace Number

/-- A whole number that is written as a literal, or as one with a minus sign in front. -/
inductive Legible : Number → Prop
  | literal {k : IntKind} {v : Nat} (hk : k ∈ IntKind.literals) (hv : k.holds v = true) :
      Legible (ofInt k v)
  | negative {k : IntKind} {v : Nat} (hk : k = .int ∨ k = .long) (hv : k.holds v = true)
      (hpos : 0 < v) : Legible (ofInt k (-(v : Int)))

theorem negate_ofInt {k : IntKind} (hk : k = .int ∨ k = .long) (v : Int) :
    (ofInt k v).negate = ofInt k (-v) := by
  have hconvert : (ofInt k v).convert (ofInt k v).kind.promoteUnary = ofInt k v := by
    rcases hk with rfl | rfl <;> exact convert_self _
  unfold negate
  rw [hconvert, ofInt, ofInt, BitVec.ofInt_neg]
  rcases hk with rfl | rfl <;> rfl

/-- The negatives of the kind `ulong` are numbers of that kind. -/
theorem legible_negate_ulong (bits : BitVec IntKind.ulong.width) :
    (integral .ulong bits).negate.Legible := by
  have hnegate : (integral .ulong bits).negate = ofInt .ulong ((-bits).toNat : Nat) := by
    unfold negate
    rw [show (integral .ulong bits).kind.promoteUnary = .integral .ulong from rfl, convert_self]
    exact congrArg (integral .ulong) (IntKind.ofInt_value (k := .ulong) (-bits)).symm
  rw [hnegate]
  exact .literal (by decide) (IntKind.holds_value (k := .ulong) (-bits))

theorem negate_uint {v : Nat} (hv : IntKind.uint.holds v = true) :
    (ofInt .uint v).negate = ofInt .long (-(v : Int)) := by
  have hvalue := IntKind.value_ofInt_of_holds hv
  unfold negate
  rw [show (ofInt .uint v).kind.promoteUnary = .integral .uint from rfl, ofInt, convert_self]
  exact congrArg (fun i : Int => ofInt .long (-i)) hvalue

/-- Where the negative of a kind can be written, it is. -/
theorem legible_neg {k : IntKind} (hk : k = .int ∨ k = .long) {v : Nat} (hv : k.holds v = true) :
    (ofInt k (-(v : Int))).Legible := by
  rcases Nat.eq_zero_or_pos v with rfl | hpos
  · refine .literal (v := 0) ?_ hv
    rcases hk with rfl | rfl <;> decide
  · exact .negative hk hv hpos

/-- A minus sign in front of a legible number makes a legible number. -/
theorem Legible.negate {n : Number} (h : n.Legible) : n.negate.Legible := by
  cases h with
  | @literal k v hk hv =>
    simp only [IntKind.literals, List.mem_cons, List.not_mem_nil, or_false] at hk
    rcases hk with rfl | rfl | rfl | rfl
    · rw [negate_ofInt (.inl rfl)]
      exact legible_neg (.inl rfl) hv
    · rw [negate_uint hv]
      refine legible_neg (.inr rfl) ?_
      rw [IntKind.holds_iff] at hv ⊢
      have : IntKind.uint.greatest ≤ IntKind.long.greatest := by decide
      have : IntKind.long.least ≤ IntKind.uint.least := by decide
      omega
    · rw [negate_ofInt (.inr rfl)]
      exact legible_neg (.inr rfl) hv
    · exact legible_negate_ulong _
  | @negative k v hk hv hpos =>
    rw [negate_ofInt hk, Int.neg_neg]
    exact .literal (by rcases hk with rfl | rfl <;> decide) hv

/-- Literals without a letter for a floating kind are legible. -/
theorem legible_of_integralLiteral? {v : Nat} {suffix : Option Suffix} {n : Number}
    (hsuffix : suffix ∈ [none, some .unsigned, some .long, some .unsignedLong])
    (h : integralLiteral? v suffix = some n) : n.Legible := by
  have hfind : ∃ k, (Suffix.kinds suffix).find? (·.holds v) = some k ∧ ofInt k v = n := by
    simp only [List.mem_cons, List.not_mem_nil, or_false] at hsuffix
    rcases hsuffix with rfl | rfl | rfl | rfl <;> exact Option.map_eq_some_iff.mp h
  obtain ⟨k, hfind, rfl⟩ := hfind
  have hholds : k.holds v = true :=
    List.find?_some (p := fun k : IntKind => k.holds v) hfind
  refine .literal ?_ hholds
  have hall : ∀ s ∈ [none, some Suffix.unsigned, some .long, some .unsignedLong],
      ∀ k ∈ Suffix.kinds s, k ∈ IntKind.literals := by decide
  exact hall _ hsuffix _ (List.mem_of_find?_eq_some hfind)

end Number

/-! ## Operators on numbers and truth values -/

/-- Whether values of a type are numbers or truth values. -/
def Ty.isScalar : Ty → Bool
  | numeric _ | bool => true
  | _ => false

theorem Ty.isScalar_iff : t.isScalar = true ↔ (∃ k, t = .numeric k) ∨ t = .bool := by
  cases t <;> simp [isScalar]

/-- A value of the first type has the second, or both are types of numbers. -/
def Ty.Meets (s t : Ty) : Prop := s = t ∨ ∃ j k, s = .numeric j ∧ t = .numeric k

namespace NumericKind

/-- The kind that two operands are brought to is not brought to another. -/
theorem promote_promote (a b : NumericKind) :
    (a.promote b).promote (a.promote b) = a.promote b := by
  rcases a with a | a <;> rcases b with b | b <;> cases a <;> cases b <;> rfl

theorem promoteUnary_promoteUnary (k : NumericKind) :
    k.promoteUnary.promoteUnary = k.promoteUnary := by
  rcases k with k | k <;> cases k <;> rfl

end NumericKind

/-- The type that an operator in front of an operand brings it to, and that it yields. -/
def UnaryOp.scalar? : UnaryOp → Ty → Option Ty
  | .negate, .numeric k =>
    some (.numeric (if k.promoteUnary = .uint then .long else k.promoteUnary))
  | .plus, .numeric k => some (.numeric k.promoteUnary)
  | .complement, .numeric (.integral k) => some (.numeric (.integral k.promoteUnary))
  | .not, .bool => some .bool
  | _, _ => none

/-- The types that an operator between two numbers brings them to, and the type that it
    yields. -/
def BinaryOp.numeric? (a b : NumericKind) : BinaryOp → Option (Ty × Ty × Ty)
  | .add | .subtract | .multiply | .divide | .modulo =>
    some (.numeric (a.promote b), .numeric (a.promote b), .numeric (a.promote b))
  | .power => some (.double, .double, .double)
  | .equal | .notEqual | .lessThan | .lessThanOrEqual | .greaterThan | .greaterThanOrEqual =>
    some (.numeric (a.promote b), .numeric (a.promote b), .bool)
  | .and | .or | .exclusiveOr =>
    if a.isIntegral && b.isIntegral then
      some (.numeric (a.promote b), .numeric (a.promote b), .numeric (a.promote b))
    else none
  | .leftShift | .rightShift =>
    if a.isIntegral && b.isIntegral then
      some (.numeric a.promoteUnary, .int, .numeric a.promoteUnary)
    else none
  | .andAlso | .orElse | .coalesce => none

/-- The same for an operator between numbers or truth values. -/
def BinaryOp.scalar? (op : BinaryOp) : Ty → Ty → Option (Ty × Ty × Ty)
  | .numeric a, .numeric b => op.numeric? a b
  | .bool, .bool =>
    if op ∈ [.and, .or, .exclusiveOr, .andAlso, .orElse, .equal, .notEqual] then
      some (.bool, .bool, .bool)
    else none
  | _, _ => none

/-- An operand is not brought to another type once more. -/
theorem UnaryOp.scalar?_idempotent {s : Ty} (h : op.scalar? s = some t) :
    op.scalar? t = some t ∧ s.Meets t ∧ t.isScalar = true := by
  unfold scalar? at h
  split at h <;> cases h
  · rename_i k
    refine ⟨?_, .inr ⟨_, _, rfl, rfl⟩, rfl⟩
    rcases k with k | k <;> cases k <;> rfl
  · refine ⟨?_, .inr ⟨_, _, rfl, rfl⟩, rfl⟩
    exact congrArg (fun k => some (Ty.numeric k)) (NumericKind.promoteUnary_promoteUnary _)
  · rename_i k
    refine ⟨?_, .inr ⟨_, _, rfl, rfl⟩, rfl⟩
    cases k <;> rfl
  · exact ⟨rfl, .inl rfl, rfl⟩

theorem NumericKind.isIntegral_promote {a b : NumericKind} (ha : a.isIntegral = true)
    (hb : b.isIntegral = true) : (a.promote b).isIntegral = true := by
  rcases a with a | a
  · rcases b with b | b
    · rfl
    · cases hb
  · cases ha

theorem BinaryOp.numeric?_idempotent {op : BinaryOp} {a b : NumericKind} {s u : Ty}
    (h : op.numeric? a b = some (s, t, u)) :
    ∃ j k, s = .numeric j ∧ t = .numeric k ∧ op.numeric? j k = some (s, t, u) ∧
      u.isScalar = true := by
  have hpromote := NumericKind.promote_promote a b
  cases op with
  | add | subtract | multiply | divide | modulo
  | equal | notEqual | lessThan | lessThanOrEqual | greaterThan | greaterThanOrEqual =>
    cases h
    exact ⟨_, _, rfl, rfl, by simp only [numeric?, hpromote], rfl⟩
  | power =>
    cases h
    exact ⟨_, _, rfl, rfl, rfl, rfl⟩
  | and | or | exclusiveOr =>
    obtain ⟨hab, h⟩ := Option.ite_none_right_eq_some.mp h
    rw [Bool.and_eq_true] at hab
    cases h
    have hk := NumericKind.isIntegral_promote hab.1 hab.2
    exact ⟨_, _, rfl, rfl, by simp only [numeric?, hpromote, hk, Bool.and_self, if_true], rfl⟩
  | leftShift | rightShift =>
    obtain ⟨hab, h⟩ := Option.ite_none_right_eq_some.mp h
    rw [Bool.and_eq_true] at hab
    cases h
    refine ⟨_, _, rfl, rfl, ?_, rfl⟩
    have hk := NumericKind.promoteUnary_promoteUnary a
    rcases a with a | a
    · simp only [numeric?, hk]
      rfl
    · cases hab.1
  | andAlso | orElse | coalesce => cases h

/-- Operands are not brought to other types once more. -/
theorem BinaryOp.scalar?_idempotent {op : BinaryOp} {s s' t' u : Ty}
    (h : op.scalar? s t = some (s', t', u)) :
    op.scalar? s' t' = some (s', t', u) ∧ s.Meets s' ∧ t.Meets t' ∧ u.isScalar = true := by
  unfold scalar? at h
  split at h
  · obtain ⟨j, k, rfl, rfl, hop, hu⟩ := numeric?_idempotent h
    exact ⟨hop, .inr ⟨_, _, rfl, rfl⟩, .inr ⟨_, _, rfl, rfl⟩, hu⟩
  · obtain ⟨hop, h⟩ := Option.ite_none_right_eq_some.mp h
    cases h
    exact ⟨if_pos hop, .inl rfl, .inl rfl, rfl⟩
  · cases h

namespace Expr

theorem convertTo_of_type_eq {e : Expr} (h : e.type = t) : e.convertTo t = e := if_pos h

theorem type_convertTo (e : Expr) (t : Ty) : (e.convertTo t).type = t := by
  unfold convertTo
  split
  · assumption
  · rfl

/-- How an operator in front of a number or truth value is built. -/
theorem applyUnary_scalar {e : Expr} (hop : op.isSign = true) (he : e.type.isScalar = true) :
    (e.applyUnary op 0).toOption =
      (op.scalar? e.type).map fun t => .unary op (e.convertTo t) t := by
  rcases Ty.isScalar_iff.mp he with ⟨k, hk⟩ | hbool
  · cases op with
    | negate | plus | not =>
      simp only [applyUnary, hk]
      rfl
    | complement =>
      simp only [applyUnary, hk]
      cases k <;> rfl
    | _ => cases hop
  · cases op with
    | negate | plus | complement =>
      simp only [applyUnary, hbool]
      rfl
    | not =>
      simp only [applyUnary, hbool, UnaryOp.scalar?, Option.map_some, convertTo_of_type_eq hbool]
      rfl
    | _ => cases hop

/-- How an operator between numbers or truth values is built. -/
theorem applyBinary_scalar {op : BinaryOp} {l r : Expr} (hl : l.type.isScalar = true)
    (hr : r.type.isScalar = true) :
    (applyBinary op l r 0).toOption =
      (op.scalar? l.type r.type).map fun (s, t, u) =>
        .binary op (l.convertTo s) (r.convertTo t) u := by
  rcases Ty.isScalar_iff.mp hl with ⟨a, ha⟩ | hl <;> rcases Ty.isScalar_iff.mp hr with ⟨b, hb⟩ | hr
  · simp only [applyBinary, ha, hb, binaryIn]
    cases op <;> first | rfl | (cases a <;> cases b <;> rfl)
  · simp only [applyBinary, ha, hr]
    cases op <;> first | rfl | (cases a <;> rfl)
  · simp only [applyBinary, hl, hb]
    cases op <;> rfl
  · have hconvert := convertTo_of_type_eq hl
    have hconvert' := convertTo_of_type_eq hr
    simp only [applyBinary, hl, hr, binaryIn]
    cases op with
    | andAlso | orElse | equal | notEqual =>
      change _ = some (binary _ (l.convertTo .bool) (r.convertTo .bool) .bool)
      rw [hconvert, hconvert']
      rfl
    | _ => rfl

end Expr

/-! ## Legible expressions -/

namespace Expr

variable (params : List Variable) {e : Expr}

/-- An expression over parameters that is written with operators, and in which each operator
    finds its operands with the types that it needs. -/
inductive Legible : Expr → Prop
  | parameter {v : Variable} (hv : params.reverse.find? (·.name == v.name) = some v) :
      Legible (.parameter v)
  | bool (b : Bool) : Legible (.bool b)
  | number {n : Number} (hn : n.Legible) : Legible (.number n)
  | convert {e : Expr} {j k : NumericKind} (he : Legible e) (hj : e.type = .numeric j)
      (hne : j ≠ k) : Legible (.convert e (.numeric k))
  /-- The negative of a number is a number. -/
  | unary {op : UnaryOp} {e : Expr} {t : Ty} (hop : op.isSign = true) (he : Legible e)
      (hnumber : op = .negate → e.number? = none) (ht : e.type = t)
      (hfits : op.scalar? t = some t) : Legible (.unary op e t)
  | binary {op : BinaryOp} {l r : Expr} {s t u : Ty} (hl : Legible l) (hr : Legible r)
      (hs : l.type = s) (ht : r.type = t) (hfits : op.scalar? s t = some (s, t, u)) :
      Legible (.binary op l r u)
  | conditional {test a b : Expr} {t : Ty} (htest : Legible test) (ha : Legible a)
      (hb : Legible b) (hbool : test.type = .bool) (hs : a.type = t) (ht : b.type = t) :
      Legible (.conditional test a b t)

variable {params}

theorem Legible.isScalar (hparams : ∀ v ∈ params, v.type.isScalar = true)
    (h : e.Legible params) : e.type.isScalar = true := by
  induction h with
  | parameter hv => exact hparams _ (List.mem_reverse.mp (List.mem_of_find?_eq_some hv))
  | bool | number | convert => rfl
  | unary _ _ _ ht hfits => exact (UnaryOp.scalar?_idempotent hfits).2.2
  | binary _ _ _ _ hfits => exact (BinaryOp.scalar?_idempotent hfits).2.2.2
  | conditional _ _ _ _ hs _ _ ih _ => exact hs ▸ ih

theorem Legible.convertTo (h : e.Legible params) (ht : e.type.Meets t) :
    (e.convertTo t).Legible params := by
  unfold Expr.convertTo
  split
  · exact h
  · rename_i hne
    obtain ⟨j, k, hj, rfl⟩ := ht.resolve_left hne
    exact .convert h hj fun hjk => hne (hj.trans (congrArg _ hjk))

theorem number?_convertTo (h : e.number? = none) : (e.convertTo t).number? = none := by
  unfold Expr.convertTo
  split
  · exact h
  · rfl

theorem coerce_eq_convertTo (ht : t.isScalar = true) : e.coerce t = e.convertTo t := by
  have hvoid : t ≠ .void := by
    rintro rfl
    cases ht
  have hreference : t.isReference = false := by
    rcases Ty.isScalar_iff.mp ht with ⟨k, rfl⟩ | rfl <;> rfl
  unfold coerce convertTo
  by_cases heq : e.type = t
  · rw [if_pos (.inl heq), if_pos heq]
  · rw [if_neg (not_or.mpr ⟨heq, hvoid⟩), hreference, if_neg heq]
    simp

/-- Both branches of a conditional are brought to one type. -/
theorem conditionalType?_scalar {s u : Ty} (hs : s.isScalar = true) (ht : t.isScalar = true)
    (h : conditionalType? s t = some u) : s.Meets u ∧ t.Meets u ∧ u.isScalar = true := by
  unfold conditionalType? at h
  split at h
  · rename_i heq
    cases h
    exact ⟨.inl rfl, .inl heq.symm, hs⟩
  · rename_i hne
    rcases Ty.isScalar_iff.mp hs with ⟨a, rfl⟩ | rfl <;>
      rcases Ty.isScalar_iff.mp ht with ⟨b, rfl⟩ | rfl
    · cases h
      exact ⟨.inr ⟨_, _, rfl, rfl⟩, .inr ⟨_, _, rfl, rfl⟩, rfl⟩
    · cases h
    · cases h
    · exact absurd rfl hne

/-- Only a minus sign in front of a number is not an operator. -/
theorem signed?_eq (h : op = .negate → e.number? = none) :
    e.signed? op = (e.applyUnary op 0).toOption := by
  unfold signed?
  split
  · rename_i n hn
    rw [h rfl] at hn
    cases hn
  · rfl

section Building

variable (hparams : ∀ v ∈ params, v.type.isScalar = true)

include hparams

theorem Legible.signed {x : Expr} (h : e.Legible params)
    (hop : op.isSign = true) (hx : e.signed? op = some x) : x.Legible params := by
  by_cases hnumber : op = .negate → e.number? = none
  · rw [signed?_eq hnumber, applyUnary_scalar hop (h.isScalar hparams)] at hx
    obtain ⟨t, ht, rfl⟩ := Option.map_eq_some_iff.mp hx
    obtain ⟨hfits, hmeets, -⟩ := UnaryOp.scalar?_idempotent ht
    exact .unary hop (h.convertTo hmeets) (fun heq => number?_convertTo (hnumber heq))
      (type_convertTo _ _) hfits
  · -- a minus sign in front of a number
    obtain ⟨rfl, hne⟩ := Classical.not_imp.mp hnumber
    cases h with
    | number hn =>
      cases hx
      exact .number hn.negate
    | _ => exact absurd rfl hne

theorem Legible.applyBinary {op : BinaryOp} {l r x : Expr} (hl : l.Legible params)
    (hr : r.Legible params) (hx : (Expr.applyBinary op l r 0).toOption = some x) :
    x.Legible params := by
  rw [applyBinary_scalar (hl.isScalar hparams) (hr.isScalar hparams)] at hx
  obtain ⟨⟨s, t, u⟩, hop, rfl⟩ := Option.map_eq_some_iff.mp hx
  obtain ⟨hfits, hs, ht, -⟩ := BinaryOp.scalar?_idempotent hop
  exact .binary (hl.convertTo hs) (hr.convertTo ht) (type_convertTo _ _) (type_convertTo _ _) hfits

theorem Legible.choose {test a b x : Expr} (htest : test.Legible params) (ha : a.Legible params)
    (hb : b.Legible params) (hx : (Expr.choose test a b 0).toOption = some x) :
    x.Legible params := by
  unfold Expr.choose at hx
  split at hx
  · cases hx
  · rename_i hbool
    split at hx
    · rename_i t ht
      cases hx
      obtain ⟨hs, ht, hscalar⟩ :=
        conditionalType?_scalar (ha.isScalar hparams) (hb.isScalar hparams) ht
      rw [coerce_eq_convertTo hscalar, coerce_eq_convertTo hscalar]
      exact .conditional htest (ha.convertTo hs) (hb.convertTo ht) (not_not.mp hbool)
        (type_convertTo _ _) (type_convertTo _ _)
    · cases hx

theorem Legible.cast {x : Expr} {k : NumericKind} (he : e.Legible params)
    (hx : (e.cast (.numeric k) 0).toOption = some x) : x.Legible params := by
  unfold Expr.cast at hx
  split at hx
  · rename_i hcastable
    cases hx
    rcases Ty.isScalar_iff.mp (he.isScalar hparams) with ⟨j, hj⟩ | hbool
    · exact he.convertTo (.inr ⟨j, k, hj, rfl⟩)
    · rw [hbool] at hcastable
      cases hcastable
  · cases hx

end Building

end Expr

namespace Phrase

/-- A phrase of names, truth values, whole numbers, casts to numbers, and operators. -/
def Elementary (names : List String) (types : String → Option Ty) : Phrase → Prop
  | word w => w ∈ names ∨ w = "true" ∨ w = "false"
  | number n _ =>
    ∃ v, ∃ s ∈ [none, some Suffix.unsigned, some .long, some .unsignedLong],
      integralLiteral? v s = some n
  | group p => p.Elementary names types
  | cast first rest p =>
    (∃ k, types (Reading.dotted first rest) = some (.numeric k)) ∧ p.Elementary names types
  | unary op p => op.isSign = true ∧ p.Elementary names types
  | binary _ l r => l.Elementary names types ∧ r.Elementary names types
  | conditional t a b =>
    t.Elementary names types ∧ a.Elementary names types ∧ b.Elementary names types

/-- An elementary phrase means a legible expression. -/
theorem legible_meaning {params : List Variable} {names : List String}
    {values : String → Option Expr} {types : String → Option Ty} {p : Phrase} {e : Expr}
    (hparams : ∀ v ∈ params, v.type.isScalar = true)
    (hvalues : ∀ w e, w ∈ names ∨ w = "true" ∨ w = "false" → values w = some e →
      e.Legible params)
    (hp : p.Elementary names types) (h : p.meaning values types = some e) :
    e.Legible params := by
  induction p generalizing e with
  | word w => exact hvalues w e hp h
  | number n text =>
    obtain ⟨v, s, hs, hn⟩ := hp
    cases h
    exact .number (Number.legible_of_integralLiteral? hs hn)
  | group p ih => exact ih hp h
  | cast first rest p ih =>
    obtain ⟨⟨k, hk⟩, hp⟩ := hp
    obtain ⟨x, hx, h⟩ := Option.bind_eq_some_iff.mp h
    rw [hk] at h
    exact (ih hp hx).cast hparams h
  | unary op p ih =>
    obtain ⟨x, hx, h⟩ := Option.bind_eq_some_iff.mp h
    exact (ih hp.2 hx).signed hparams hp.1 h
  | binary op l r ihl ihr =>
    obtain ⟨x, hx, h⟩ := Option.bind_eq_some_iff.mp h
    obtain ⟨y, hy, h⟩ := Option.bind_eq_some_iff.mp h
    exact (ihl hp.1 hx).applyBinary hparams (ihr hp.2 hy) h
  | conditional t a b iht iha ihb =>
    obtain ⟨x, hx, h⟩ := Option.bind_eq_some_iff.mp h
    obtain ⟨y, hy, h⟩ := Option.bind_eq_some_iff.mp h
    obtain ⟨z, hz, h⟩ := Option.bind_eq_some_iff.mp h
    exact (iht hp.1 hx).choose hparams (iha hp.2.1 hy) (ihb hp.2.2 hz) h

end Phrase

end Scriptlet
