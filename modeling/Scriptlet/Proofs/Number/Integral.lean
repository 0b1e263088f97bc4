import Scriptlet.Number.Arith
import Scriptlet.Proofs.Binary.Whole

/-!
# Integral numbers

A number of an integral kind is a pattern of bits, and stands for a whole number
(`IntKind.value`). Taking the pattern of a whole number is a homomorphism that only
depends on the whole number modulo the power of two of the width, so nothing is lost
by computing in a kind and converting to one that is not wider.

Constants are kept in four kinds, each within the next: `byte`, `short`, `int` and
`long` (`IntKind.ladder`). What such a number comes to in arithmetic of thirty-two bits
is its pattern as an `int` (`Number.low`), whatever its kind.

* `Number.binary_low`, `Number.negate_low`, `Number.complement_low`: arithmetic in
  either of the two kinds that these numbers are computed in, cut down to `int`, is
  arithmetic on patterns of thirty-two bits;
* `Number.narrowest_add`, `Number.narrowest_sub`: sums and differences are exact as long
  as they are below `2 ^ 53`;
* `Number.eq_of_equivalent`, `Number.equivalent_of_toInt?`: equality across kinds is equality
  of whole numbers.
-/

namespace Scriptlet

/-! ## Patterns and whole numbers -/

theorem setWidth_ofInt {v w : Nat} (h : v ≤ w) (n : Int) :
    (BitVec.ofInt w n).setWidth v = BitVec.ofInt v n := by
  apply BitVec.eq_of_toInt_eq
  have hdvd : (2 ^ v : Nat) ∣ 2 ^ w := Nat.pow_dvd_pow 2 h
  rw [← BitVec.signExtend_eq_setWidth_of_le _ h, BitVec.toInt_signExtend, BitVec.toInt_ofInt,
    BitVec.toInt_ofInt, Nat.min_eq_left h, Int.bmod_bmod_of_dvd hdvd]

theorem ofInt_sub {w : Nat} (u v : Int) :
    BitVec.ofInt w (u - v) = BitVec.ofInt w u - BitVec.ofInt w v := by
  rw [Int.sub_eq_add_neg, BitVec.ofInt_add, BitVec.ofInt_neg, BitVec.sub_eq_add_neg]

namespace IntKind

variable {k : IntKind}

theorem ofInt_value (bits : BitVec k.width) : BitVec.ofInt k.width (k.value bits) = bits := by
  unfold value
  split
  · exact BitVec.ofInt_toInt
  · rw [BitVec.ofInt_natCast, BitVec.ofNat_toNat, BitVec.setWidth_eq]

/-- In a width that is not greater, the pattern of what a pattern stands for is a part of
    that pattern. -/
theorem ofInt_value_of_le {w : Nat} (h : w ≤ k.width) (bits : BitVec k.width) :
    BitVec.ofInt w (k.value bits) = bits.setWidth w := by
  rw [← setWidth_ofInt h, ofInt_value]

theorem holds_iff {n : Int} : k.holds n ↔ k.least ≤ n ∧ n ≤ k.greatest := by
  simp [holds]

theorem holds_value (bits : BitVec k.width) : k.holds (k.value bits) := by
  rw [holds_iff, least, greatest, value]
  cases k.signed with
  | true =>
    have hlo := BitVec.le_toInt bits
    have hhi := BitVec.toInt_lt (x := bits)
    simp only [if_true, Nat.pow_eq, Nat.cast_pow, Nat.cast_ofNat]
    omega
  | false =>
    have hhi := bits.isLt
    simp only [Bool.false_eq_true, if_false, Nat.pow_eq]
    omega

/-- A number that a kind has is what its pattern stands for. -/
theorem value_ofInt_of_holds {n : Int} (h : k.holds n) :
    k.value (BitVec.ofInt k.width n) = n := by
  rw [holds_iff, least, greatest] at h
  have hwidth : 2 ^ k.width = 2 * 2 ^ (k.width - 1) := by cases k <;> rfl
  unfold value
  cases hs : k.signed with
  | true =>
    simp only [hs, if_true, Nat.pow_eq] at h ⊢
    rw [BitVec.toInt_ofInt]
    refine Int.bmod_eq_of_le ?_ ?_ <;> push_cast [hwidth] at h ⊢ <;> omega
  | false =>
    simp only [hs, Bool.false_eq_true, if_false, Nat.pow_eq] at h ⊢
    rw [BitVec.toNat_ofInt, Int.toNat_of_nonneg (Int.emod_nonneg _ (by positivity))]
    exact Int.emod_eq_of_lt h.1 (by omega)

/-- The kinds that constants are kept in. -/
def ladder : List IntKind := [.byte, .short, .int, .long]

/-- Constants are computed with as `int` or as `long`. -/
theorem promote_ladder {a b : IntKind} (ha : a ∈ ladder) (hb : b ∈ ladder) :
    a.promote b = .int ∨ a.promote b = .long := by
  revert ha hb
  cases a <;> cases b <;> decide

theorem promoteUnary_ladder {a : IntKind} (ha : a ∈ ladder) :
    a.promoteUnary = .int ∨ a.promoteUnary = .long := by
  revert ha
  cases a <;> decide

end IntKind

/-! ## Modular operators -/

namespace Arith

/-- Whether the low digits of a result only depend on the low digits of the operands. -/
def isModular : Arith → Bool
  | add | subtract | multiply | and | or | exclusiveOr => true
  | _ => false

/-- A modular operator on patterns of any width. -/
def onBits (op : Arith) {w : Nat} (x y : BitVec w) : BitVec w :=
  match op with
  | add => x + y
  | subtract => x - y
  | multiply => x * y
  | and => x &&& y
  | or => x ||| y
  | exclusiveOr => x ^^^ y
  | _ => 0

theorem setWidth_onBits {op : Arith} (hop : op.isModular) {v w : Nat} (h : v ≤ w)
    (x y : BitVec w) : (op.onBits x y).setWidth v = op.onBits (x.setWidth v) (y.setWidth v) := by
  cases op with
  | add => exact BitVec.setWidth_add x y h
  | subtract =>
    simp only [onBits, BitVec.sub_eq_add_neg, BitVec.setWidth_add _ _ h,
      BitVec.setWidth_neg_of_le h]
  | multiply => exact BitVec.setWidth_mul x y h
  | and => exact BitVec.setWidth_and
  | or => exact BitVec.setWidth_or
  | exclusiveOr => exact BitVec.setWidth_xor
  | _ => cases hop

theorem integralOp_eq {op : Arith} (hop : op.isModular) {k : IntKind} (x y : BitVec k.width) :
    Number.integralOp op k x y = .ok (op.onBits x y) := by
  cases op <;> first | rfl | cases hop

end Arith

/-! ## Numbers on the ladder -/

namespace Number

variable {k : IntKind} {v : Int} {n : Number}

/-- The pattern of a number as an `int`. -/
def low (n : Number) : BitVec 32 := n.bitsIn .int

/-- The whole number that an integral number is. -/
def whole (n : Number) : Int := n.toInt?.getD 0

/-- Whether a number is of one of the kinds that constants are kept in. -/
def onLadder : Number → Bool
  | integral k _ => IntKind.ladder.contains k
  | _ => false

theorem convert_int (n : Number) : n.convert .int = integral .int n.low := rfl

@[simp] theorem low_integral_int (x : BitVec 32) : low (integral .int x) = x :=
  IntKind.ofInt_value (k := .int) x

theorem low_ofInt (h : k.holds v) : low (ofInt k v) = BitVec.ofInt 32 v :=
  congrArg (BitVec.ofInt 32) (IntKind.value_ofInt_of_holds h)

theorem toInt?_ofInt (h : k.holds v) : (ofInt k v).toInt? = some v :=
  congrArg some (IntKind.value_ofInt_of_holds h)

theorem bitsIn_self (x : BitVec k.width) : (integral k x).bitsIn k = x :=
  IntKind.ofInt_value x

theorem convert_self (x : BitVec k.width) : (integral k x).convert (.integral k) = integral k x :=
  congrArg (integral k) (bitsIn_self x)

theorem convert_of_toInt? (h : n.toInt? = some v) (k : IntKind) :
    n.convert (.integral k) = ofInt k v := by
  simp [convert, bitsIn, h, ofInt]

theorem low_eq_ofInt (h : n.toInt? = some v) : n.low = BitVec.ofInt 32 v := by
  simp [low, bitsIn, h, IntKind.width]

theorem exists_of_onLadder (h : n.onLadder) :
    ∃ k ∈ IntKind.ladder, ∃ bits, n = integral k bits := by
  cases n with
  | integral k bits => exact ⟨k, by simpa [onLadder] using h, bits, rfl⟩
  | _ => cases h

/-- A pattern of at least thirty-two bits, cut down to `int`. -/
theorem low_integral (hk : 32 ≤ k.width) (x : BitVec k.width) :
    low (integral k x) = x.setWidth 32 :=
  IntKind.ofInt_value_of_le hk x

theorem setWidth_bitsIn (hn : n.onLadder) (hk : 32 ≤ k.width) :
    (n.bitsIn k).setWidth 32 = n.low := by
  obtain ⟨_, -, bits, rfl⟩ := exists_of_onLadder hn
  exact setWidth_ofInt hk _

variable {a b : Number} {op : Arith}

theorem binary_low (hop : op.isModular) (ha : a.onLadder) (hb : b.onLadder) :
    ∃ n, Number.binary op a b = .ok n ∧ n.onLadder ∧ n.low = op.onBits a.low b.low := by
  obtain ⟨i, hi, x, rfl⟩ := exists_of_onLadder ha
  obtain ⟨j, hj, y, rfl⟩ := exists_of_onLadder hb
  set a := integral i x with ha'
  set b := integral j y with hb'
  have hbinary : Number.binary op a b =
      .ok (integral (i.promote j) (op.onBits (a.bitsIn (i.promote j)) (b.bitsIn (i.promote j)))) := by
    have hcases : Number.binary op a b = binaryIn op a b (.integral (i.promote j)) := by
      cases op <;> first | rfl | cases hop
    rw [hcases, binaryIn, Arith.integralOp_eq hop]
    rfl
  have hwidth : 32 ≤ (i.promote j).width := by
    rcases IntKind.promote_ladder hi hj with h | h <;> rw [h] <;> decide
  refine ⟨_, hbinary, ?_, ?_⟩
  · rcases IntKind.promote_ladder hi hj with h | h <;> simp [onLadder, h, IntKind.ladder]
  · rw [low_integral hwidth, Arith.setWidth_onBits hop hwidth, setWidth_bitsIn ha hwidth,
      setWidth_bitsIn hb hwidth]

/-- A single operand is computed with as an `int` or as a `long`. -/
theorem convert_promoteUnary (ha : a.onLadder) :
    ∃ k, (k = .int ∨ k = .long) ∧ a.convert a.kind.promoteUnary = integral k (a.bitsIn k) := by
  obtain ⟨i, hi, x, rfl⟩ := exists_of_onLadder ha
  exact ⟨i.promoteUnary, IntKind.promoteUnary_ladder hi, rfl⟩

theorem negate_low (ha : a.onLadder) : a.negate.onLadder ∧ a.negate.low = -a.low := by
  obtain ⟨k, hk, hconvert⟩ := convert_promoteUnary ha
  have hwidth : 32 ≤ k.width := by rcases hk with rfl | rfl <;> decide
  have hnegate : a.negate = integral k (-a.bitsIn k) := by
    rcases hk with rfl | rfl <;> simp only [negate, hconvert]
  rw [hnegate, low_integral hwidth, BitVec.setWidth_neg_of_le hwidth, setWidth_bitsIn ha hwidth]
  exact ⟨by rcases hk with rfl | rfl <;> rfl, rfl⟩

theorem complement_low (ha : a.onLadder) :
    ∃ n, a.complement? = some n ∧ n.onLadder ∧ n.low = ~~~a.low := by
  obtain ⟨k, hk, hconvert⟩ := convert_promoteUnary ha
  have hwidth : 32 ≤ k.width := by rcases hk with rfl | rfl <;> decide
  refine ⟨integral k (~~~a.bitsIn k), by simp only [complement?, hconvert], ?_, ?_⟩
  · rcases hk with rfl | rfl <;> rfl
  · rw [low_integral hwidth, BitVec.setWidth_not hwidth, setWidth_bitsIn ha hwidth]

/-! ## Sums of whole numbers -/

theorem toDouble_eq_whole (h : a.toInt? = some v) : a.toDouble = Binary.whole v := by
  cases a with
  | integral k bits => rw [← Option.some.inj h]; rfl
  | _ => cases h

/-- The narrowest kind has the number. -/
theorem narrowest_whole (hv : v.natAbs ≤ 2 ^ 53) :
    ∃ k ∈ IntKind.ladder, k.holds v ∧ narrowest (Binary.whole v) = ofInt k v := by
  cases hfind : IntKind.ladder.find? (·.holds v) with
  | none =>
    have := List.find?_eq_none.1 hfind .long (by decide)
    simp [IntKind.holds, IntKind.least, IntKind.greatest, IntKind.signed, IntKind.width] at this
    omega
  | some k =>
    refine ⟨k, List.mem_of_find?_eq_some hfind,
      List.find?_some (p := fun k : IntKind => k.holds v) hfind, ?_⟩
    rw [IntKind.ladder] at hfind
    simp only [narrowest, Binary.ofDouble_whole hv, hfind]

theorem narrowest_add {x y : Int} (ha : a.toInt? = some x) (hb : b.toInt? = some y)
    (hx : x.natAbs ≤ 2 ^ 53) (hy : y.natAbs ≤ 2 ^ 53) (hxy : (x + y).natAbs ≤ 2 ^ 53) :
    ∃ k ∈ IntKind.ladder, k.holds (x + y) ∧
      narrowest (a.toDouble + b.toDouble) = ofInt k (x + y) := by
  rw [toDouble_eq_whole ha, toDouble_eq_whole hb, Binary.whole_add hx hy hxy]
  exact narrowest_whole hxy

theorem narrowest_sub {x y : Int} (ha : a.toInt? = some x) (hb : b.toInt? = some y)
    (hx : x.natAbs ≤ 2 ^ 53) (hy : y.natAbs ≤ 2 ^ 53) (hxy : (x - y).natAbs ≤ 2 ^ 53) :
    ∃ k ∈ IntKind.ladder, k.holds (x - y) ∧
      narrowest (a.toDouble - b.toDouble) = ofInt k (x - y) := by
  rw [toDouble_eq_whole ha, toDouble_eq_whole hb, Binary.whole_sub hx hy hxy]
  exact narrowest_whole hxy

/-- Zero is recognised. -/
theorem toDouble_beq_zero (h : a.toInt? = some v) (hv : v.natAbs ≤ 2 ^ 53) :
    (a.toDouble == 0) = decide (v = 0) := by
  have hzero : (0 : Float) = Binary.whole 0 := rfl
  rw [toDouble_eq_whole h, hzero, Binary.whole_beq hv (by decide)]

/-- One is recognised. -/
theorem toDouble_beq_one (h : a.toInt? = some v) (hv : v.natAbs ≤ 2 ^ 53) :
    (a.toDouble == 1) = decide (v = 1) := by
  have hone : (1 : Float) = Binary.whole 1 := rfl
  rw [toDouble_eq_whole h, hone, Binary.whole_beq hv (by decide)]

/-! ## Equality across kinds -/

/-- A number that survives the conversion to a kind is one of it. -/
theorem eq_of_lossless (ha : a.toInt? = some v)
    (h : a.lossless? (.integral k) = some n) : k.holds v ∧ n = ofInt k v := by
  rw [lossless?, convert_of_toInt? ha, Option.ite_none_right_eq_some, Option.some.injEq] at h
  obtain ⟨hsurvives, rfl⟩ := h
  have hvalue : (ofInt k v).toInt? = some (k.value (BitVec.ofInt k.width v)) := rfl
  simp only [survives, ha, hvalue, beq_iff_eq] at hsurvives
  exact ⟨hsurvives ▸ IntKind.holds_value _, rfl⟩

theorem eq_of_identical {w : Int} (hv : k.holds v) (hw : k.holds w)
    (h : (ofInt k v).identical (ofInt k w)) : v = w := by
  have hpromote : ∀ {u : Int}, k.holds u → (k.promote k).holds u := by
    intro u
    cases k <;> simp [IntKind.holds, IntKind.least, IntKind.greatest, IntKind.signed,
      IntKind.width, IntKind.promote] <;> omega
  have hconvert : ∀ {u : Int}, k.holds u →
      ((ofInt k u).convert (.integral (k.promote k))).toInt? = some u := by
    intro u hu
    rw [convert_of_toInt? (toInt?_ofInt hu), toInt?_ofInt (hpromote hu)]
  have hcompare : (ofInt k v).compare (ofInt k w) = some (Ord.compare v w) := by
    simp only [compare, kind_ofInt, NumericKind.promote, hconvert hv, hconvert hw]
  simpa [identical, kind_ofInt, hcompare] using h

/-- While the kinds tried are integral, numbers that are found equal are one number. -/
theorem equivalentIn_cons {ks : List NumericKind} {w : Int}
    (ha : a.toInt? = some v) (hb : b.toInt? = some w)
    (h : equivalentIn a b (.integral k :: ks)) : v = w ∨ equivalentIn a b ks := by
  rw [equivalentIn] at h
  split at h
  next x y hx hy =>
    obtain ⟨hv, rfl⟩ := eq_of_lossless ha hx
    obtain ⟨hw, rfl⟩ := eq_of_lossless hb hy
    exact .inl (eq_of_identical hv hw h)
  next => exact .inr h

theorem lossless_of_holds (ha : a.toInt? = some v) (h : k.holds v) :
    a.lossless? (.integral k) = some (ofInt k v) := by
  rw [lossless?, convert_of_toInt? ha, if_pos]
  simp [survives, ha, toInt?_ofInt h]

/-- The integral kinds before one that has both numbers either decide that they are one
    number or leave the decision to that kind. -/
theorem eq_of_equivalentIn {w : Int} (ha : a.toInt? = some v)
    (hb : b.toInt? = some w) (hv : k.holds v) (hw : k.holds w) {rest : List NumericKind}
    (ks : List IntKind) (h : equivalentIn a b (ks.map .integral ++ .integral k :: rest)) :
    v = w := by
  induction ks with
  | nil =>
    rw [List.map_nil, List.nil_append, equivalentIn, lossless_of_holds ha hv,
      lossless_of_holds hb hw] at h
    exact eq_of_identical hv hw h
  | cons k' ks ih =>
    rcases equivalentIn_cons ha hb h with h | h
    · exact h
    · exact ih h

/-- Numbers within the range of `long` that are equal across kinds are one number. -/
theorem eq_of_equivalent {w : Int} (ha : a.toInt? = some v) (hb : b.toInt? = some w)
    (hv : IntKind.long.holds v) (hw : IntKind.long.holds w) (h : a.equivalent b) : v = w :=
  eq_of_equivalentIn ha hb hv hw [.byte, .short, .ushort, .int, .uint] h

theorem identical_ofInt (k : IntKind) (v : Int) : (ofInt k v).identical (ofInt k v) := by
  simp [identical, compare, kind_ofInt, NumericKind.promote, convert, toInt?]

/-- One whole number of two kinds is found equal in the first integral kind that has it. -/
theorem equivalentIn_of_holds (ha : a.toInt? = some v)
    (hb : b.toInt? = some v) (hv : k.holds v) {rest : List NumericKind} (ks : List IntKind) :
    equivalentIn a b (ks.map .integral ++ .integral k :: rest) := by
  have hstep {k : IntKind} (hk : k.holds v) (rest : List NumericKind) :
      equivalentIn a b (.integral k :: rest) := by
    rw [equivalentIn, lossless_of_holds ha hk, lossless_of_holds hb hk]
    exact identical_ofInt k v
  induction ks with
  | nil => exact hstep hv rest
  | cons k' ks ih =>
    by_cases hk : k'.holds v
    · exact hstep hk _
    · have hnone : a.lossless? (.integral k') = none :=
        Option.eq_none_iff_forall_not_mem.2 fun n hn => hk (eq_of_lossless ha hn).1
      rw [List.map_cons, List.cons_append, equivalentIn, hnone]
      exact ih

/-- The kinds that are tried before an integral one are integral. -/
theorem exists_all_eq (k : IntKind) :
    ∃ ks rest, NumericKind.all = List.map NumericKind.integral ks ++ .integral k :: rest :=
  ⟨[.byte, .short, .ushort, .int, .uint, .long, .ulong].takeWhile (· ≠ k),
    (NumericKind.all.dropWhile (· ≠ .integral k)).tail, by cases k <;> rfl⟩

theorem exists_of_toInt? (h : a.toInt? = some v) : ∃ k : IntKind, k.holds v := by
  cases a with
  | integral k bits => exact ⟨k, Option.some.inj h ▸ IntKind.holds_value bits⟩
  | _ => cases h

/-- One whole number of two kinds is equal across kinds. -/
theorem equivalent_of_toInt? (ha : a.toInt? = some v) (hb : b.toInt? = some v) :
    a.equivalent b := by
  obtain ⟨k, hk⟩ := exists_of_toInt? ha
  obtain ⟨ks, rest, hall⟩ := exists_all_eq k
  rw [equivalent, hall]
  exact equivalentIn_of_holds ha hb hk ks

end Number

end Scriptlet
