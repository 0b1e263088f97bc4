import Scriptlet.Proofs.Number.Integral

/-!
# Computing with constants in other kinds

A constant that stands for the result of an expression need not be of the kind of the
expression. It may be kept in a narrower one, and it may lie outside of the kind, where the
result itself has wrapped around. What it has to be is congruent to the result, so that a
conversion to the kind yields it (`Number.Stands`).

Operators are applied to constants in the kind that they are kept in. For each operator
there is a condition on the constants (`Arith.faithful`, `Number.negatesIn`) under which
what comes out stands for the result of the operator in the kind of the expression:

* sums and differences have to be exact in floating point,
* products, quotients, negatives and shifts have to be computed in a kind that is wide
  enough,
* quotients, remainders, shifts to the right and comparisons depend on more than the low
  digits, so that their operands have to be in the kind of the expression.
-/

namespace Scriptlet

variable {v : Int} {j : IntKind}

/-! ## Operators on whole numbers -/

namespace IntKind

variable {k : IntKind}

theorem value_of_signed (h : k.signed) (x : BitVec k.width) : k.value x = x.toInt := if_pos h

theorem value_of_unsigned (h : k.signed = false) (x : BitVec k.width) : k.value x = x.toNat := by
  rw [value, h]
  rfl

theorem ofInt_natCast_toNat {w : Nat} (x : BitVec w) : BitVec.ofInt w x.toNat = x := by
  rw [BitVec.ofInt_natCast, BitVec.ofNat_toNat, BitVec.setWidth_eq]

/-- What lies between zero and a number that a kind has, it has too. -/
theorem holds_of_between {w : Int} (h : k.holds v) (hw : 0 ≤ w ∧ w ≤ v ∨ v ≤ w ∧ w ≤ 0) :
    k.holds w := by
  rw [holds_iff] at h ⊢
  have hleast : k.least ≤ 0 := by cases k <;> decide
  have hgreatest : 0 ≤ k.greatest := by cases k <;> decide
  omega

/-- Whether a number that was computed in the first kind is right for the second: the first
    is not narrower, or it has the number. -/
def serves (j k : IntKind) (v : Int) : Bool := k.width ≤ j.width || j.holds v

theorem eq_ulong_of_promote {i : IntKind} (h : i.promote j = .ulong) : i = .ulong ∨ j = .ulong := by
  revert h
  cases i <;> cases j <;> decide

theorem promote_comm (i j : IntKind) : i.promote j = j.promote i := by
  cases i <;> cases j <;> rfl

/-- But for `ulong`, the kind that two kinds are brought to has the numbers of both. -/
theorem promote_bounds (i j : IntKind) : i.promote j = .ulong ∨
    (i.promote j).least ≤ i.least ∧ i.greatest ≤ (i.promote j).greatest := by
  cases i <;> cases j <;> decide

theorem width_le_promote (i j : IntKind) : i.width ≤ (i.promote j).width := by
  cases i <;> cases j <;> decide

theorem width_le_promoteUnary (i : IntKind) : i.width ≤ i.promoteUnary.width := by
  cases i <;> decide

theorem promoteUnary_bounds (i : IntKind) :
    i.promoteUnary.least ≤ i.least ∧ i.greatest ≤ i.promoteUnary.greatest := by
  cases i <;> decide

theorem width_le_long (k : IntKind) : k.width ≤ IntKind.long.width := by
  cases k <;> decide

/-- Constants are computed with in a kind that has them, if they are in the kind of the
    expression. -/
theorem holds_promote {i : IntKind} (hi : i = k ∨ i ∈ ladder) (hj : j = k ∨ j ∈ ladder)
    (hv : i.holds v) (hk : k.holds v) : (i.promote j).holds v := by
  rcases promote_bounds i j with h | ⟨hleast, hgreatest⟩
  · -- only the expression can have brought in an `ulong`
    have hulong : k = .ulong := by
      rcases eq_ulong_of_promote h with rfl | rfl
      · exact (hi.resolve_right (by decide)).symm
      · exact (hj.resolve_right (by decide)).symm
    rwa [h, ← hulong]
  · rw [holds_iff] at hv ⊢
    exact ⟨hleast.trans hv.1, hv.2.trans hgreatest⟩

theorem holds_promoteUnary {i : IntKind} (hv : i.holds v) : i.promoteUnary.holds v := by
  have hbounds := promoteUnary_bounds i
  rw [holds_iff] at hv ⊢
  exact ⟨hbounds.1.trans hv.1, hv.2.trans hbounds.2⟩

/-- Constants are computed with in a kind narrower than that of the expression only if it is
    `int`. -/
theorem promote_of_width_lt {i : IntKind} (hi : i = k ∨ i ∈ ladder) (hj : j = k ∨ j ∈ ladder)
    (h : (i.promote j).width < k.width) : i.promote j = .int := by
  rcases hi with rfl | hi
  · exact absurd (width_le_promote i j) (Nat.not_le.2 h)
  rcases hj with rfl | hj
  · rw [promote_comm] at h
    exact absurd (width_le_promote j i) (Nat.not_le.2 h)
  rcases promote_ladder hi hj with hint | hlong
  · exact hint
  · rw [hlong] at h
    exact absurd (width_le_long k) (Nat.not_le.2 h)

end IntKind

namespace Number

variable {k : IntKind}

/-- The quotient of patterns is that of the whole numbers. -/
theorem quotient_eq (x y : BitVec k.width) :
    quotient k x y = BitVec.ofInt k.width ((k.value x).tdiv (k.value y)) := by
  rw [quotient]
  cases hs : k.signed with
  | true =>
    rw [if_pos rfl, IntKind.value_of_signed hs, IntKind.value_of_signed hs]
    apply BitVec.eq_of_toInt_eq
    rw [BitVec.toInt_sdiv, BitVec.toInt_ofInt]
  | false =>
    rw [if_neg Bool.false_ne_true, IntKind.value_of_unsigned hs, IntKind.value_of_unsigned hs,
      ← Int.ofNat_tdiv, ← BitVec.toNat_udiv, IntKind.ofInt_natCast_toNat]

/-- The remainder of patterns is that of the whole numbers. -/
theorem remainder_eq (x y : BitVec k.width) :
    remainder k x y = BitVec.ofInt k.width ((k.value x).tmod (k.value y)) := by
  rw [remainder]
  cases hs : k.signed with
  | true =>
    rw [if_pos rfl, IntKind.value_of_signed hs, IntKind.value_of_signed hs, ← BitVec.toInt_srem,
      BitVec.ofInt_toInt]
  | false =>
    rw [if_neg Bool.false_ne_true, IntKind.value_of_unsigned hs, IntKind.value_of_unsigned hs,
      ← Int.ofNat_tmod, ← BitVec.toNat_umod, IntKind.ofInt_natCast_toNat]

theorem shiftLeft_ofInt {w : Nat} (v : Int) (n : Nat) :
    BitVec.ofInt w v <<< n = BitVec.ofInt w (v * 2 ^ n) := by
  rw [BitVec.shiftLeft_eq_mul_twoPow, BitVec.ofInt_mul]
  congr 1
  apply BitVec.eq_of_toNat_eq
  rw [BitVec.toNat_twoPow, BitVec.toNat_ofInt]
  norm_cast

/-- Shifting a pattern to the right divides the whole number. -/
theorem shiftBits_right (x : BitVec k.width) (count : Int) :
    shiftBits false k x count =
      BitVec.ofInt k.width (k.value x >>> (count % k.width).toNat) := by
  rw [shiftBits, if_neg Bool.false_ne_true]
  cases hs : k.signed with
  | true =>
    rw [if_pos rfl, IntKind.value_of_signed hs, ← BitVec.toInt_sshiftRight, BitVec.ofInt_toInt]
  | false =>
    rw [if_neg Bool.false_ne_true, IntKind.value_of_unsigned hs]
    have hshift : ((x.toNat : Int) >>> (count % k.width).toNat) =
        ((x >>> (count % k.width).toNat).toNat : Int) := by
      rw [BitVec.toNat_ushiftRight]
      rfl
    rw [hshift, IntKind.ofInt_natCast_toNat]

/-! ## Constants that stand for patterns -/

/-- A constant that stands for a pattern of a kind: converted to it, it is the pattern. -/
structure Stands (k : IntKind) (n : Number) (x : BitVec k.width) : Prop where
  kind : ∃ j y, n = integral j y ∧ (j = k ∨ j ∈ IntKind.ladder)
  bits : n.bitsIn k = x

/-- The integral kind of a number. -/
def integralKind : Number → IntKind
  | integral k _ => k
  | _ => .int

variable {a b n : Number} {x y z : BitVec k.width}

theorem bitsIn_integral {bits : BitVec j.width}
    (hbits : bits = BitVec.ofInt j.width v) (h : j.serves k v) :
    (integral j bits).bitsIn k = BitVec.ofInt k.width v := by
  subst hbits
  have hvalue : (integral j (BitVec.ofInt j.width v)).bitsIn k =
      BitVec.ofInt k.width (j.value (BitVec.ofInt j.width v)) := rfl
  rw [IntKind.serves, Bool.or_eq_true, decide_eq_true_iff] at h
  rcases h with h | h
  · rw [hvalue, IntKind.ofInt_value_of_le h, setWidth_ofInt h]
  · rw [hvalue, IntKind.value_ofInt_of_holds h]

theorem stands_integral (x : BitVec k.width) : (integral k x).Stands k x :=
  ⟨⟨k, x, rfl, .inl rfl⟩, IntKind.ofInt_value x⟩

theorem stands_convert (h : n.bitsIn k = x) : (n.convert (.integral k)).Stands k x := by
  rw [convert, h]
  exact stands_integral x

theorem stands_ofInt (hj : j ∈ IntKind.ladder) (hv : j.holds v) :
    (ofInt j v).Stands k (BitVec.ofInt k.width v) :=
  ⟨⟨j, _, rfl, .inr hj⟩, bitsIn_integral rfl (by simp [IntKind.serves, hv])⟩

namespace Stands

theorem ofInt_whole (h : n.Stands k x) : BitVec.ofInt k.width n.whole = x := by
  obtain ⟨⟨j, bits, rfl, -⟩, hx⟩ := h
  exact hx

/-- A constant in the kind of the expression is the result itself. -/
theorem value (h : n.Stands k x) (hn : k.holds n.whole) : k.value x = n.whole := by
  rw [← h.ofInt_whole, IntKind.value_ofInt_of_holds hn]

theorem toInt? (h : n.Stands k x) : n.toInt? = some n.whole := by
  obtain ⟨⟨j, bits, rfl, -⟩, -⟩ := h
  rfl

theorem holds (h : n.Stands k x) : n.integralKind.holds n.whole := by
  obtain ⟨⟨j, bits, rfl, -⟩, -⟩ := h
  exact IntKind.holds_value bits

theorem integralKind (h : n.Stands k x) :
    n.integralKind = k ∨ n.integralKind ∈ IntKind.ladder := by
  obtain ⟨⟨j, bits, rfl, hj⟩, -⟩ := h
  exact hj

theorem kind_eq (h : n.Stands k x) : n.kind = .integral n.integralKind := by
  obtain ⟨⟨j, bits, rfl, -⟩, -⟩ := h
  rfl

theorem bitsIn_eq (h : n.Stands k x) (j : IntKind) : n.bitsIn j = BitVec.ofInt j.width n.whole := by
  rw [bitsIn, h.toInt?]

end Stands

end Number

/-! ## When folding keeps the result -/

/-- Whether an operator comes to the same, up to a conversion to a kind, if it is applied to
    constants that stand for patterns of the kind. -/
def Arith.faithful (op : Arith) (k : IntKind) (a b : Number) : Bool :=
  let both := a.integralKind.promote b.integralKind
  let one := a.integralKind.promoteUnary
  match op with
  | .add => [a.whole, b.whole, a.whole + b.whole].all (·.natAbs ≤ 2 ^ 53)
  | .subtract => [a.whole, b.whole, a.whole - b.whole].all (·.natAbs ≤ 2 ^ 53)
  | .multiply => both.serves k (a.whole * b.whole)
  | .divide => k.holds a.whole && k.holds b.whole && both.serves k (a.whole.tdiv b.whole)
  | .modulo => k.holds a.whole && k.holds b.whole
  | .leftShift => b.whole % one.width = b.whole % k.width &&
      one.serves k (a.whole * 2 ^ (b.whole % k.width).toNat)
  | .rightShift => b.whole % one.width = b.whole % k.width && k.holds a.whole
  | _ => true

/-- Whether the negative of a constant is computed in a kind that is wide enough. -/
def Number.negatesIn (k : IntKind) (a : Number) : Bool :=
  a.integralKind.promoteUnary.serves k (-a.whole)

namespace Number.Stands

variable {k : IntKind} {a b n : Number} {x y z : BitVec k.width} {c : BitVec IntKind.int.width}

/-- An operator other than a shift, in the kind that its operands are brought to. -/
theorem exists_of_binary {op : Arith} (ha : a.Stands k x) (hb : b.Stands k y)
    (hop : op ∈ [Arith.multiply, .divide, .modulo, .and, .or, .exclusiveOr])
    (hn : Number.binary op a b = .ok n) :
    ∃ bits, n = integral (a.integralKind.promote b.integralKind) bits ∧
      integralOp op (a.integralKind.promote b.integralKind)
        (BitVec.ofInt _ a.whole) (BitVec.ofInt _ b.whole) = .ok bits := by
  have hbinary : Number.binary op a b =
      binaryIn op a b (.integral (a.integralKind.promote b.integralKind)) := by
    have hkind : a.kind.promote b.kind = .integral (a.integralKind.promote b.integralKind) := by
      rw [ha.kind_eq, hb.kind_eq]
      rfl
    rw [← hkind]
    cases op <;> first | rfl | exact absurd hop (by decide)
  rw [hbinary, binaryIn, ha.bitsIn_eq, hb.bitsIn_eq] at hn
  cases hbits : integralOp op (a.integralKind.promote b.integralKind)
      (BitVec.ofInt _ a.whole) (BitVec.ofInt _ b.whole) with
  | error f => rw [hbits] at hn; cases hn
  | ok bits => rw [hbits] at hn; cases hn; exact ⟨bits, rfl, rfl⟩

theorem multiply (ha : a.Stands k x) (hb : b.Stands k y) (hf : Arith.multiply.faithful k a b)
    (hn : Number.binary .multiply a b = .ok n) : n.bitsIn k = x * y := by
  obtain ⟨bits, rfl, hbits⟩ := exists_of_binary ha hb (by decide) hn
  cases hbits
  rw [bitsIn_integral (BitVec.ofInt_mul _ _).symm hf, BitVec.ofInt_mul, ha.ofInt_whole,
    hb.ofInt_whole]

theorem divide (ha : a.Stands k x) (hb : b.Stands k y) (hf : Arith.divide.faithful k a b)
    (hn : Number.binary .divide a b = .ok n) : n.bitsIn k = quotient k x y := by
  obtain ⟨bits, rfl, hbits⟩ := exists_of_binary ha hb (by decide) hn
  simp only [Arith.faithful, Bool.and_eq_true] at hf
  obtain ⟨⟨hka, hkb⟩, hserves⟩ := hf
  have hpa := IntKind.holds_promote ha.integralKind hb.integralKind ha.holds hka
  have hpb := IntKind.holds_promote hb.integralKind ha.integralKind hb.holds hkb
  rw [IntKind.promote_comm] at hpb
  simp only [integralOp] at hbits
  split at hbits
  · cases hbits
  cases hbits
  rw [quotient_eq, IntKind.value_ofInt_of_holds hpa, IntKind.value_ofInt_of_holds hpb,
    bitsIn_integral rfl hserves, quotient_eq, ha.value hka, hb.value hkb]

theorem modulo (ha : a.Stands k x) (hb : b.Stands k y) (hf : Arith.modulo.faithful k a b)
    (hn : Number.binary .modulo a b = .ok n) : n.bitsIn k = remainder k x y := by
  obtain ⟨bits, rfl, hbits⟩ := exists_of_binary ha hb (by decide) hn
  simp only [Arith.faithful, Bool.and_eq_true] at hf
  obtain ⟨hka, hkb⟩ := hf
  have hpa := IntKind.holds_promote ha.integralKind hb.integralKind ha.holds hka
  have hpb := IntKind.holds_promote hb.integralKind ha.integralKind hb.holds hkb
  rw [IntKind.promote_comm] at hpb
  -- the remainder lies between zero and the dividend
  have hbetween : (a.integralKind.promote b.integralKind).holds (a.whole.tmod b.whole) := by
    have hle : (a.whole.tmod b.whole).natAbs ≤ a.whole.natAbs := by
      rw [Int.natAbs_tmod]
      exact Nat.mod_le _ _
    refine IntKind.holds_of_between hpa ?_
    rcases Int.le_total 0 a.whole with hsign | hsign
    · have := Int.tmod_nonneg b.whole hsign
      omega
    · have := Int.tmod_nonneg b.whole (Int.neg_nonneg.2 hsign)
      rw [Int.neg_tmod] at this
      omega
  simp only [integralOp] at hbits
  split at hbits
  · cases hbits
  cases hbits
  rw [remainder_eq, IntKind.value_ofInt_of_holds hpa, IntKind.value_ofInt_of_holds hpb,
    bitsIn_integral rfl (by simp [IntKind.serves, hbetween]), remainder_eq, ha.value hka,
    hb.value hkb]

/-- The bitwise operators need no condition: a pattern that is extended by its sign keeps
    them. -/
theorem bitwise {op : Arith} (hop : op = .and ∨ op = .or ∨ op = .exclusiveOr) (ha : a.Stands k x)
    (hb : b.Stands k y) (hn : Number.binary op a b = .ok n) : n.bitsIn k = op.onBits x y := by
  have hmodular : op.isModular := by rcases hop with rfl | rfl | rfl <;> rfl
  obtain ⟨bits, rfl, hbits⟩ := exists_of_binary ha hb
    (by rcases hop with rfl | rfl | rfl <;> decide) hn
  rw [Arith.integralOp_eq hmodular] at hbits
  cases hbits
  rw [← ha.ofInt_whole, ← hb.ofInt_whole]
  show BitVec.ofInt k.width (IntKind.value _ _) = _
  rcases Nat.lt_or_ge (a.integralKind.promote b.integralKind).width k.width with hlt | hge
  · have hint := IntKind.promote_of_width_lt ha.integralKind hb.integralKind hlt
    have hholds : ∀ {c d : Number} {u v : BitVec k.width}, c.Stands k u → d.Stands k v →
        c.integralKind.promote d.integralKind = .int → IntKind.int.holds c.whole := by
      intro c d u v hc _ hcd
      have hbounds := (IntKind.promote_bounds c.integralKind d.integralKind).resolve_left
        (by rw [hcd]; decide)
      have hwhole := hc.holds
      rw [IntKind.holds_iff] at hwhole ⊢
      rw [hcd] at hbounds
      exact ⟨hbounds.1.trans hwhole.1, hwhole.2.trans hbounds.2⟩
    have hva := IntKind.value_ofInt_of_holds (hholds ha hb hint)
    have hvb := IntKind.value_ofInt_of_holds (hholds hb ha (by rw [IntKind.promote_comm, hint]))
    rw [hint]
    nth_rewrite 2 [← hva]
    nth_rewrite 2 [← hvb]
    rcases hop with rfl | rfl | rfl
    · exact BitVec.signExtend_and
    · exact BitVec.signExtend_or
    · exact BitVec.signExtend_xor
  · rw [IntKind.ofInt_value_of_le hge, Arith.setWidth_onBits hmodular hge, setWidth_ofInt hge,
      setWidth_ofInt hge]

/-! ### Shifts -/

theorem convert_promoteUnary_eq (ha : a.Stands k x) : a.convert a.kind.promoteUnary =
    integral a.integralKind.promoteUnary (BitVec.ofInt _ a.whole) := by
  rw [ha.kind_eq, ← ha.bitsIn_eq]
  rfl

theorem eq_of_shift {left : Bool} (ha : a.Stands k x) (hb : b.toInt? = some v)
    (hn : Number.shift left a b = .ok n) :
    n = integral a.integralKind.promoteUnary
      (shiftBits left a.integralKind.promoteUnary (BitVec.ofInt _ a.whole) v) := by
  rw [Number.shift, hb] at hn
  simp only [convert_promoteUnary_eq ha] at hn
  cases hn
  rfl

/-- A count is only looked at modulo the width. -/
theorem count_emod (hb : b.Stands .int c) (k : IntKind) :
    IntKind.int.value c % k.width = b.whole % k.width := by
  have hdvd : (k.width : Int) ∣ (2 ^ 32 : Nat) := by cases k <;> decide
  have hvalue : IntKind.int.value c = b.whole.bmod (2 ^ 32) := by
    rw [← hb.ofInt_whole, IntKind.value_of_signed rfl, BitVec.toInt_ofInt]
    rfl
  rw [hvalue, ← Int.emod_emod_of_dvd _ hdvd, Int.bmod_emod, Int.emod_emod_of_dvd _ hdvd]

theorem leftShift (ha : a.Stands k x) (hb : b.Stands .int c)
    (hf : Arith.leftShift.faithful k a b) (hn : Number.binary .leftShift a b = .ok n) :
    n.bitsIn k = shiftBits true k x (IntKind.int.value c) := by
  simp only [Arith.faithful, Bool.and_eq_true, decide_eq_true_eq] at hf
  obtain rfl := eq_of_shift ha hb.toInt? hn
  have hbits : shiftBits true a.integralKind.promoteUnary (BitVec.ofInt _ a.whole) b.whole =
      BitVec.ofInt _ (a.whole * 2 ^ (b.whole % k.width).toNat) := by
    rw [shiftBits, if_pos rfl, hf.1, shiftLeft_ofInt]
  rw [bitsIn_integral hbits hf.2, shiftBits, if_pos rfl, count_emod hb, ← ha.ofInt_whole,
    shiftLeft_ofInt]

theorem rightShift (ha : a.Stands k x) (hb : b.Stands .int c)
    (hf : Arith.rightShift.faithful k a b) (hn : Number.binary .rightShift a b = .ok n) :
    n.bitsIn k = shiftBits false k x (IntKind.int.value c) := by
  simp only [Arith.faithful, Bool.and_eq_true, decide_eq_true_eq] at hf
  obtain rfl := eq_of_shift ha hb.toInt? hn
  have hwide := IntKind.holds_promoteUnary ha.holds
  -- what is shifted lies between zero and the operand
  have hbetween : a.integralKind.promoteUnary.holds (a.whole >>> (b.whole % k.width).toNat) := by
    have hpow : (0 : Int) < (2 ^ (b.whole % k.width).toNat : Nat) := by positivity
    refine IntKind.holds_of_between hwide ?_
    rw [Int.shiftRight_eq_div_pow]
    rcases Int.le_total 0 a.whole with hsign | hsign
    · exact .inl ⟨Int.ediv_nonneg hsign hpow.le, Int.ediv_le_self _ hsign⟩
    · refine .inr ⟨(Int.le_ediv_iff_mul_le hpow).2 (by
        simpa using Int.mul_le_mul_of_nonpos_left hsign hpow), ?_⟩
      exact Int.le_of_lt_add_one ((Int.ediv_lt_iff_lt_mul hpow).2 (by omega))
  have hbits : shiftBits false a.integralKind.promoteUnary (BitVec.ofInt _ a.whole) b.whole =
      BitVec.ofInt _ (a.whole >>> (b.whole % k.width).toNat) := by
    rw [shiftBits_right, IntKind.value_ofInt_of_holds hwide, hf.1]
  rw [bitsIn_integral hbits (by simp [IntKind.serves, hbetween]), shiftBits_right, count_emod hb,
    ha.value hf.2]

/-! ### Single operands, conversions and comparisons -/

theorem negate (hk : k ≠ .uint) (ha : a.Stands k x) (hf : a.negatesIn k) : a.negate.bitsIn k = -x := by
  have hkind : a.integralKind.promoteUnary ≠ .uint := by
    rcases ha.integralKind with h | h
    · rw [h]
      revert hk
      cases k <;> decide
    · rcases IntKind.promoteUnary_ladder h with h | h <;> rw [h] <;> decide
  have hnegate : a.negate =
      integral a.integralKind.promoteUnary (-BitVec.ofInt _ a.whole) := by
    rw [Number.negate, convert_promoteUnary_eq ha]
    revert hkind
    generalize a.integralKind.promoteUnary = j
    cases j <;> first | exact fun _ => rfl | exact fun h => absurd rfl h
  rw [hnegate, bitsIn_integral BitVec.ofInt_neg.symm hf, BitVec.ofInt_neg, ha.ofInt_whole]

theorem exists_complement (ha : a.Stands k x) : ∃ n, a.complement? = some n := by
  rw [complement?, convert_promoteUnary_eq ha]
  exact ⟨_, rfl⟩

theorem complement (ha : a.Stands k x) (hn : a.complement? = some n) : n.bitsIn k = ~~~x := by
  rw [complement?, convert_promoteUnary_eq ha] at hn
  cases hn
  have hnot : ∀ {w : Nat} (v : Int), ~~~BitVec.ofInt w v = BitVec.ofInt w (-v - 1) := by
    intro w v
    rw [BitVec.not_eq_neg_add, Int.sub_eq_add_neg, BitVec.ofInt_add, BitVec.ofInt_neg,
      BitVec.sub_eq_add_neg, BitVec.ofInt_neg]
    rfl
  have hserves : a.integralKind.promoteUnary.serves k (-a.whole - 1) := by
    rw [IntKind.serves, Bool.or_eq_true, decide_eq_true_iff]
    rcases ha.integralKind with h | h
    · exact .inl (h ▸ IntKind.width_le_promoteUnary _)
    · rcases IntKind.promoteUnary_ladder h with hint | hlong
      · have hwide := IntKind.holds_promoteUnary ha.holds
        rw [hint] at hwide ⊢
        rw [IntKind.holds_iff] at hwide ⊢
        have hsum : IntKind.int.least + IntKind.int.greatest = -1 := by decide
        exact .inr (by omega)
      · rw [hlong]
        exact .inl (IntKind.width_le_long k)
  rw [bitsIn_integral (hnot _) hserves, ← hnot, ha.ofInt_whole]

/-- A conversion to a kind that is not wider, or of a constant that is the result itself. -/
theorem convert (ha : a.Stands k x) (h : j.width ≤ k.width ∨ k.holds a.whole) :
    a.bitsIn j = (integral k x).bitsIn j := by
  show a.bitsIn j = BitVec.ofInt j.width (k.value x)
  rcases h with h | h
  · rw [IntKind.ofInt_value_of_le h, ← ha.ofInt_whole, setWidth_ofInt h, ha.bitsIn_eq]
  · rw [ha.value h, ha.bitsIn_eq]

theorem compare_eq {c : Number} {w : Int} {i : IntKind} (ha : a.kind = .integral i)
    (hc : c.kind = .integral j) (hv : a.toInt? = some v) (hw : c.toInt? = some w)
    (hiv : (i.promote j).holds v) (hjw : (i.promote j).holds w) :
    a.compare c = some (Ord.compare v w) := by
  have hkind : a.kind.promote c.kind = .integral (i.promote j) := by rw [ha, hc]; rfl
  simp only [Number.compare, hkind, convert_of_toInt? hv, convert_of_toInt? hw, toInt?_ofInt hiv,
    toInt?_ofInt hjw]

/-- Constants in the kind of the expression compare as the results do. -/
theorem compare (ha : a.Stands k x) (hb : b.Stands k y) (hka : k.holds a.whole)
    (hkb : k.holds b.whole) : a.compare b = (integral k x).compare (integral k y) := by
  have hpa := IntKind.holds_promote ha.integralKind hb.integralKind ha.holds hka
  have hpb := IntKind.holds_promote hb.integralKind ha.integralKind hb.holds hkb
  rw [IntKind.promote_comm] at hpb
  have hxa : (integral k x).toInt? = some a.whole := congrArg some (ha.value hka)
  have hyb : (integral k y).toInt? = some b.whole := congrArg some (hb.value hkb)
  rw [compare_eq ha.kind_eq hb.kind_eq ha.toInt? hb.toInt? hpa hpb, compare_eq rfl rfl hxa hyb
    (IntKind.holds_promote (.inl rfl) (.inl rfl) hka hka)
    (IntKind.holds_promote (.inl rfl) (.inl rfl) hkb hkb)]

end Number.Stands

end Scriptlet
