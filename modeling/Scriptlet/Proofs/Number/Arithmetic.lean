import Scriptlet.Proofs.Number.Folding

/-!
# Arithmetic of integral numbers

Two integral numbers are brought to one kind, and an operator is applied to their patterns
there. In terms of the whole numbers that they are, the result is

* for sums, differences and products, congruent to the exact result, modulo the power of
  two of the width (`Number.IsResidue`);
* for the bitwise operators, made up of the binary digits of the two numbers, those of a
  negative number being the ones of its two's complement (`Number.HasDigits`);
* for quotients and remainders, congruent to what the two operands come to once they are in
  the common kind (`IntKind.wrap`). There is no result only if the divisor is zero;
* for shifts, made up of the binary digits of the left operand, in the kind of a single
  operand. Behind the digits that are shifted in from the left stands the sign, if the kind
  has one.

`Number.binary_integral` states this for all pairs of kinds (`IntegralLaws`).
-/

namespace Scriptlet

/-! ## Whole numbers in a width -/

theorem modEq_of_ofInt_eq {w : Nat} {u v : Int} (h : BitVec.ofInt w u = BitVec.ofInt w v) :
    u ≡ v [ZMOD 2 ^ w] := by
  have hnat := congrArg BitVec.toNat h
  rw [BitVec.toNat_ofInt, BitVec.toNat_ofInt] at hnat
  have hu := Int.emod_nonneg u (b := ((2 ^ w : Nat) : Int)) (by positivity)
  have hv := Int.emod_nonneg v (b := ((2 ^ w : Nat) : Int)) (by positivity)
  rw [Int.ModEq]
  push_cast at hnat hu hv
  omega

/-- The digits of the pattern of a whole number are those of the number. -/
theorem getLsbD_ofInt {w t : Nat} (h : t < w) (v : Int) :
    (BitVec.ofInt w v).getLsbD t = v.testBit t := by
  cases v with
  | ofNat n =>
    rw [Int.ofNat_eq_natCast, BitVec.ofInt_natCast, BitVec.getLsbD_ofNat, decide_eq_true h]
    rfl
  | negSucc n =>
    rw [BitVec.ofInt_negSucc_eq_not_ofNat, BitVec.getLsbD_not, BitVec.getLsbD_ofNat,
      decide_eq_true h]
    rfl

namespace IntKind

variable {k : IntKind} {v : Int}

/-- The number of a kind that a whole number becomes there. -/
def wrap (k : IntKind) (v : Int) : Int := k.value (BitVec.ofInt k.width v)

theorem wrap_modEq (k : IntKind) (v : Int) : k.wrap v ≡ v [ZMOD 2 ^ k.width] :=
  modEq_of_ofInt_eq (ofInt_value _)

/-- In a kind that is not narrower, only zero becomes zero. -/
theorem ofInt_value_eq_zero_iff {j : IntKind} (hwidth : j.width ≤ k.width) (y : BitVec j.width) :
    BitVec.ofInt k.width (j.value y) = 0 ↔ j.value y = 0 := by
  constructor
  · intro h
    have hy : y = 0 := by
      rw [← ofInt_value y, ← setWidth_ofInt hwidth, h]
      exact BitVec.setWidth_zero _ _
    rw [hy]
    cases j <;> rfl
  · intro h
    rw [h]
    rfl

end IntKind

namespace Number

variable {k : IntKind} {v : Int} {n : Number}

/-! ## What a number is to a whole number -/

/-- The number of a kind that is congruent to a whole number, modulo the power of two of the
    width. -/
def IsResidue (k : IntKind) (v : Int) (n : Number) : Prop :=
  n.kind = .integral k ∧ ∃ u, n.toInt? = some u ∧ u ≡ v [ZMOD 2 ^ k.width]

/-- A number of a kind with given binary digits. -/
def HasDigits (k : IntKind) (digit : Nat → Bool) (n : Number) : Prop :=
  ∃ bits, n = integral k bits ∧ ∀ t < k.width, bits.getLsbD t = digit t

theorem isResidue_ofInt (k : IntKind) (v : Int) : (ofInt k v).IsResidue k v :=
  ⟨rfl, k.wrap v, rfl, k.wrap_modEq v⟩

end Number

/-- What the operators come to on two whole numbers `u` and `v` that are computed with in the
    kind `k`, or in the kind `one` if they are shifted. -/
structure IntegralLaws (k one : IntKind) (u v : Int)
    (result : Arith → Except ArithFault Number) : Prop where
  add : ∃ n, result .add = .ok n ∧ n.IsResidue k (u + v)
  subtract : ∃ n, result .subtract = .ok n ∧ n.IsResidue k (u - v)
  multiply : ∃ n, result .multiply = .ok n ∧ n.IsResidue k (u * v)
  and : ∃ n, result .and = .ok n ∧ n.HasDigits k fun t => u.testBit t && v.testBit t
  or : ∃ n, result .or = .ok n ∧ n.HasDigits k fun t => u.testBit t || v.testBit t
  exclusiveOr : ∃ n, result .exclusiveOr = .ok n ∧
    n.HasDigits k fun t => (u.testBit t).xor (v.testBit t)
  divide : if v = 0 then result .divide = .error .divisionByZero
    else ∃ n, result .divide = .ok n ∧ n.IsResidue k ((k.wrap u).tdiv (k.wrap v))
  modulo : if v = 0 then result .modulo = .error .divisionByZero
    else ∃ n, result .modulo = .ok n ∧ n.IsResidue k ((k.wrap u).tmod (k.wrap v))
  leftShift : ∃ n, result .leftShift = .ok n ∧ n.HasDigits one fun t =>
    (v % one.width).toNat ≤ t && u.testBit (t - (v % one.width).toNat)
  rightShift : ∃ n, result .rightShift = .ok n ∧ n.HasDigits one fun t =>
    if (v % one.width).toNat + t < one.width then u.testBit ((v % one.width).toNat + t)
    else one.signed && u < 0

namespace Number

variable {k : IntKind} {v : Int} {result : Except ArithFault Number} {bits : BitVec k.width}

theorem exists_isResidue (h : result = .ok (integral k bits)) (hbits : bits = BitVec.ofInt k.width v) :
    ∃ n, result = .ok n ∧ n.IsResidue k v := by
  subst hbits
  exact ⟨_, h, isResidue_ofInt k v⟩

theorem exists_hasDigits {digit : Nat → Bool} (h : result = .ok (integral k bits))
    (hbits : ∀ t < k.width, bits.getLsbD t = digit t) :
    ∃ n, result = .ok n ∧ n.HasDigits k digit :=
  ⟨_, h, bits, rfl, hbits⟩

/-- A division fails for a divisor of zero only. -/
theorem division_isResidue {u : Int} {y : BitVec k.width} (hy : y = 0 ↔ u = 0)
    (hbits : bits = BitVec.ofInt k.width v)
    (h : result = integral k <$> if y = 0 then throw .divisionByZero else pure bits) :
    if u = 0 then result = .error .divisionByZero
    else ∃ n, result = .ok n ∧ n.IsResidue k v := by
  subst h
  split
  next hu => rw [if_pos (hy.2 hu)]; rfl
  next hu => rw [if_neg (mt hy.1 hu)]; exact exists_isResidue rfl hbits

/-- The digits of a pattern that is shifted to the left. -/
theorem getLsbD_shiftBits_left (v count : Int) {t : Nat} (ht : t < k.width) :
    (shiftBits true k (BitVec.ofInt k.width v) count).getLsbD t =
      ((count % k.width).toNat ≤ t && v.testBit (t - (count % k.width).toNat)) := by
  rw [shiftBits, if_pos rfl, BitVec.getLsbD_shiftLeft, decide_eq_true ht, Bool.true_and,
    getLsbD_ofInt (Nat.lt_of_le_of_lt (Nat.sub_le _ _) ht), ← decide_not]
  simp only [not_lt]

/-- The digits of a pattern that is shifted to the right. -/
theorem getLsbD_shiftBits_right (h : k.holds v) (count : Int) {t : Nat} (ht : t < k.width) :
    (shiftBits false k (BitVec.ofInt k.width v) count).getLsbD t =
      if (count % k.width).toNat + t < k.width then v.testBit ((count % k.width).toNat + t)
      else k.signed && v < 0 := by
  have hvalue := IntKind.value_ofInt_of_holds h
  rw [shiftBits, if_neg Bool.false_ne_true]
  cases hs : k.signed with
  | true =>
    rw [IntKind.value_of_signed hs] at hvalue
    rw [if_pos rfl, BitVec.getLsbD_sshiftRight, BitVec.msb_eq_toInt, hvalue,
      decide_eq_false ht.not_ge, Bool.not_false, Bool.true_and, Bool.true_and]
    split
    next hlt => exact getLsbD_ofInt hlt v
    next => rfl
  | false =>
    rw [if_neg Bool.false_ne_true, BitVec.getLsbD_ushiftRight, Bool.false_and]
    split
    next hlt => exact getLsbD_ofInt hlt v
    next hge => exact BitVec.getLsbD_of_ge _ _ (not_lt.1 hge)

/-- Operators on numbers of integral kinds act on the whole numbers that these are. -/
theorem binary_integral (i j : IntKind) (x : BitVec i.width) (y : BitVec j.width) :
    IntegralLaws (i.promote j) i.promoteUnary (i.value x) (j.value y)
      fun op => binary op (integral i x) (integral j y) := by
  have hwidth : j.width ≤ (i.promote j).width :=
    IntKind.promote_comm i j ▸ IntKind.width_le_promote j i
  have hzero := IntKind.ofInt_value_eq_zero_iff hwidth y
  have hholds : i.promoteUnary.holds (i.value x) :=
    IntKind.holds_promoteUnary (IntKind.holds_value x)
  -- both operands have the digits of the whole numbers in the kind that they are brought to
  have hx {t : Nat} (ht : t < (i.promote j).width) :
      ((integral i x).bitsIn (i.promote j)).getLsbD t = (i.value x).testBit t :=
    getLsbD_ofInt ht _
  have hy {t : Nat} (ht : t < (i.promote j).width) :
      ((integral j y).bitsIn (i.promote j)).getLsbD t = (j.value y).testBit t :=
    getLsbD_ofInt ht _
  exact {
    add := exists_isResidue rfl (BitVec.ofInt_add _ _).symm
    subtract := exists_isResidue rfl (ofInt_sub _ _).symm
    multiply := exists_isResidue rfl (BitVec.ofInt_mul _ _).symm
    and := exists_hasDigits rfl fun t ht => by rw [BitVec.getLsbD_and, hx ht, hy ht]
    or := exists_hasDigits rfl fun t ht => by rw [BitVec.getLsbD_or, hx ht, hy ht]
    exclusiveOr := exists_hasDigits rfl fun t ht => by rw [BitVec.getLsbD_xor, hx ht, hy ht]
    divide := division_isResidue hzero (quotient_eq _ _) rfl
    modulo := division_isResidue hzero (remainder_eq _ _) rfl
    leftShift := exists_hasDigits rfl fun t ht => getLsbD_shiftBits_left _ _ ht
    rightShift := exists_hasDigits rfl fun t ht => getLsbD_shiftBits_right hholds _ ht }

end Number

end Scriptlet
