import Mathlib
import Scriptlet.Binary.Format

/-!
# Whole numbers as 64-bit floating-point numbers

A whole number of magnitude at most `2 ^ 53` is a 64-bit number exactly. Its
significand is the whole number shifted until it has fifty-three binary digits, so
that `significand · 2 ^ (log2 a) = a · 2 ^ 52` (`significand_mul`), and that
equation determines it. Sums and differences are computed on such significands and
then brought back to fifty-three digits, which loses nothing as long as the result
is small enough, too.

* `ofDouble_whole`: a whole number is read back from its floating-point number;
* `whole_add`, `whole_sub`: sums and differences are exact;
* `whole_beq`: two of them are equal only if the whole numbers are.
-/

namespace Scriptlet.Binary

open Float.Model (totalExponent)
open Float.Model.UnpackedFloat

/-- The 64-bit number of a whole number. -/
def whole (n : Int) : Float := (ofInt n).toDouble

/-! ## Significands -/

/-- The significand of a natural number, of fifty-three binary digits. -/
def significand (a : Nat) : Nat :=
  if a.log2 ≤ 52 then a * 2 ^ (52 - a.log2) else a / 2 ^ (a.log2 - 52)

theorem log2_le {a : Nat} (ha : a ≤ 2 ^ 53) : a.log2 ≤ 53 := by
  by_cases h : a = 0
  · subst h; decide
  · exact Nat.lt_succ_iff.1 ((Nat.log2_lt h).2 (by omega))

theorem eq_of_log2_gt {a : Nat} (ha : a ≤ 2 ^ 53) (h : ¬a.log2 ≤ 52) : a = 2 ^ 53 := by
  have h0 : a ≠ 0 := by rintro rfl; exact h (by decide)
  exact le_antisymm ha ((Nat.le_log2 h0).1 (by omega))

theorem significand_mul {a : Nat} (ha : a ≤ 2 ^ 53) :
    significand a * 2 ^ a.log2 = a * 2 ^ 52 := by
  unfold significand
  split
  next h => rw [mul_assoc, ← pow_add, Nat.sub_add_cancel h]
  next h => rw [eq_of_log2_gt ha h]; decide

/-- A number whose double shifts make up `a · 2 ^ 52` is the significand of `a`. -/
theorem eq_significand {a m : Nat} (ha : a ≤ 2 ^ 53) (h : m * 2 ^ a.log2 = a * 2 ^ 52) :
    m = significand a :=
  Nat.eq_of_mul_eq_mul_right (by positivity) (h.trans (significand_mul ha).symm)

theorem log2_mul_two_pow {m : Nat} (hm : m ≠ 0) (k : Nat) : (m * 2 ^ k).log2 = m.log2 + k := by
  have h := (Nat.log2_eq_iff hm).1 rfl
  refine (Nat.log2_eq_iff (by positivity)).2 ⟨?_, ?_⟩
  · rw [pow_add]; exact Nat.mul_le_mul_right _ h.1
  · rw [show m.log2 + k + 1 = m.log2 + 1 + k by omega, pow_add]
    exact Nat.mul_lt_mul_of_pos_right h.2 (by positivity)

theorem significand_ne_zero {a : Nat} (h0 : a ≠ 0) (ha : a ≤ 2 ^ 53) : significand a ≠ 0 := by
  intro h
  have := significand_mul ha
  rw [h, zero_mul] at this
  exact h0 (by simpa using this.symm)

theorem log2_significand {a : Nat} (h0 : a ≠ 0) (ha : a ≤ 2 ^ 53) :
    (significand a).log2 = 52 := by
  have h := congrArg Nat.log2 (significand_mul ha)
  rw [log2_mul_two_pow (significand_ne_zero h0 ha), log2_mul_two_pow h0] at h
  omega

theorem significand_bounds {a : Nat} (h0 : a ≠ 0) (ha : a ≤ 2 ^ 53) :
    2 ^ 52 ≤ significand a ∧ significand a < 2 ^ 53 :=
  (Nat.log2_eq_iff (significand_ne_zero h0 ha)).1 (log2_significand h0 ha)

/-! ## Words -/

/-- The word of a number with a full significand: its sign, its exponent field and
    what its significand has beside the first digit. -/
def word (s : Sign) (field fraction : Nat) : BitVec 64 :=
  packComponents .binary64 s (BitVec.ofNat 11 field) (BitVec.ofNat 52 fraction)

theorem unpackSign_packComponents {spec : Float.Model.Format} {s exponent mantissa} :
    unpackSign (packComponents spec s exponent mantissa) = s.toBitVec := by
  ext i hi
  obtain rfl : i = 0 := by omega
  simp [unpackSign, packComponents, BitVec.getLsbD_append, BitVec.getElem_append]

theorem ofBitVec_toBitVec (s : Sign) : Sign.ofBitVec s.toBitVec = s := by cases s <;> rfl

/-- The bits of a word, one part above the other. -/
theorem toNat_word (s : Sign) {field fraction : Nat} (hfield : field < 2 ^ 11)
    (hfraction : fraction < 2 ^ 52) :
    (word s field fraction).toNat = (s.toBitVec.toNat * 2 ^ 11 + field) * 2 ^ 52 + fraction := by
  have h : (BitVec.ofNat 11 field).toNat = field := by
    rw [BitVec.toNat_ofNat, Nat.mod_eq_of_lt hfield]
  have h' : (BitVec.ofNat 52 fraction).toNat = fraction := by
    rw [BitVec.toNat_ofNat, Nat.mod_eq_of_lt hfraction]
  rw [word, packComponents, BitVec.toNat_append, BitVec.toNat_append, h, h',
    ← Nat.shiftLeft_add_eq_or_of_lt (by simpa using hfraction),
    ← Nat.shiftLeft_add_eq_or_of_lt (by simpa using hfield), Nat.shiftLeft_eq, Nat.shiftLeft_eq]

/-- A word taken apart. -/
theorem unpack_word (s : Sign) {field fraction : Nat} (hpos : 0 < field) (hfield : field < 2047)
    (hfraction : fraction < 2 ^ 52) :
    unpack .binary64 (word s field fraction) =
      .finite s (2 ^ 52 + fraction) (field - 1075) (by positivity) := by
  have h : (BitVec.ofNat 11 field).toNat = field := by
    rw [BitVec.toNat_ofNat, Nat.mod_eq_of_lt (by omega)]
  have hmax : BitVec.ofNat 11 field ≠ -1#_ := by
    intro heq
    rw [heq] at h
    exact absurd h (by simp only [BitVec.neg_one_eq_allOnes, BitVec.toNat_allOnes]; omega)
  have hzero : BitVec.ofNat 11 field ≠ 0#_ := by
    intro heq
    rw [heq, BitVec.toNat_zero] at h
    omega
  have hone : (1#1 ++ BitVec.ofNat 52 fraction).toNat = 2 ^ 52 + fraction := by
    rw [BitVec.toNat_append, BitVec.toNat_ofNat, BitVec.toNat_ofNat, Nat.mod_eq_of_lt hfraction,
      ← Nat.shiftLeft_add_eq_or_of_lt hfraction, Nat.shiftLeft_eq, Nat.one_mod, one_mul]
  simp only [unpack, word, unpackMantissa_packComponents, unpackExponent_packComponents,
    unpackSign_packComponents, ofBitVec_toBitVec, hmax, hzero, if_false, hone, h]
  rfl

/-! ## The number of a whole number, taken apart -/

/-- The sign of a whole number; zero counts as positive. -/
def signOf (n : Int) : Sign := if n < 0 then .negative else .positive

/-- A whole number as a significand and an exponent. -/
def parts (n : Int) : Float.Model.UnpackedFloat :=
  if h : significand n.natAbs = 0 then .zero .positive
  else .finite (signOf n) (significand n.natAbs) (n.natAbs.log2 - 52) (Nat.pos_of_ne_zero h)

/-- The word of a whole number other than zero. -/
def wordOf (n : Int) : BitVec 64 :=
  word (signOf n) (n.natAbs.log2 + 1023) (significand n.natAbs - 2 ^ 52)

variable {n : Int}

theorem parts_of_ne_zero (h0 : n ≠ 0) (hn : n.natAbs ≤ 2 ^ 53) :
    parts n = .finite (signOf n) (significand n.natAbs) (n.natAbs.log2 - 52)
      (Nat.pos_of_ne_zero (significand_ne_zero (Int.natAbs_ne_zero.2 h0) hn)) :=
  dif_neg (significand_ne_zero (Int.natAbs_ne_zero.2 h0) hn)

theorem unpack_wordOf (h0 : n ≠ 0) (hn : n.natAbs ≤ 2 ^ 53) :
    unpack .binary64 (wordOf n) = parts n := by
  have hs := significand_bounds (Int.natAbs_ne_zero.2 h0) hn
  have hl := log2_le hn
  rw [wordOf, unpack_word _ (by omega) (by omega) (by omega), parts_of_ne_zero h0 hn]
  rw [Float.Model.UnpackedFloat.finite.injEq]
  exact ⟨rfl, by omega, by omega⟩

theorem pack_parts (h0 : n ≠ 0) (hn : n.natAbs ≤ 2 ^ 53) :
    pack .binary64 (parts n) = wordOf n := by
  have hs := significand_bounds (Int.natAbs_ne_zero.2 h0) hn
  have hl := log2_le hn
  have hexponent : ((n.natAbs.log2 - 52 : Int) + (Float.Model.Format.binary64.exponentBias : Int) +
      (52 : Nat)).toNat = n.natAbs.log2 + 1023 := by
    have : (Float.Model.Format.binary64.exponentBias : Int) = 1023 := rfl
    omega
  have hfraction : BitVec.ofNat 52 (significand n.natAbs) =
      BitVec.ofNat 52 (significand n.natAbs - 2 ^ 52) := by
    apply BitVec.eq_of_toNat_eq
    simp only [BitVec.toNat_ofNat]
    omega
  rw [parts_of_ne_zero h0 hn]
  simp only [pack, hexponent, log2_significand (Int.natAbs_ne_zero.2 h0) hn, hfraction]
  rw [if_neg (by omega), if_pos (by rfl)]
  rfl

/-- A ratio that is a whole number is rounded to it. -/
theorem roundDiv_mul (q : Nat) {den : Nat} (h : 0 < den) : roundDiv (q * den) den = q := by
  simp [roundDiv, Nat.mul_div_cancel _ h, h]

/-- The ratio that is rounded to the significand of a natural number is a whole number. -/
theorem scaleRatio_eq {a : Nat} (ha : a ≤ 2 ^ 53) :
    ∃ den, 0 < den ∧ scaleRatio (52 - a.log2) a 1 = (significand a * den, den) := by
  by_cases h : a.log2 ≤ 52
  · refine ⟨1, one_pos, ?_⟩
    have hexponent : (52 - a.log2 : Int).toNat = 52 - a.log2 := by omega
    rw [scaleRatio, if_pos (by omega), hexponent, significand, if_pos h, mul_one, Nat.pow_eq]
  · refine ⟨2, two_pos, ?_⟩
    rw [eq_of_log2_gt ha h]
    decide

theorem ratioLog2_one {a : Nat} (h0 : a ≠ 0) : ratioLog2 a 1 = a.log2 := by
  have hpow : 2 ^ a.log2 ≤ a := (Nat.le_log2 h0).1 le_rfl
  have hone : Nat.log2 1 = 0 := by decide
  have hscale : scaleRatio (-(a.log2 : Int)) a 1 = (a, 2 ^ a.log2) := by
    by_cases h : a.log2 = 0
    · simp [scaleRatio, h]
    · rw [scaleRatio, if_neg (by omega), neg_neg, Int.toNat_natCast, one_mul, Nat.pow_eq]
  simp only [ratioLog2, hone, Nat.cast_zero, sub_zero, hscale, if_pos hpow]

/-- The pattern that a natural number is rounded to. -/
theorem encodeRatio_eq {a : Nat} (h0 : a ≠ 0) (ha : a ≤ 2 ^ 53) :
    double.encodeRatio a 1 = (a.log2 + 1022) * 2 ^ 52 + significand a := by
  have hl := log2_le ha
  have hs := significand_bounds h0 ha
  obtain ⟨den, hden, hscale⟩ := scaleRatio_eq ha
  have hmin : double.minExponent = -1074 := by decide
  have hexponent : max double.minExponent (ratioLog2 a 1 - (double.precision - 1 : Nat)) =
      a.log2 - 52 := by
    rw [hmin, ratioLog2_one h0]
    have : double.precision - 1 = 52 := rfl
    omega
  have hneg : -((a.log2 : Int) - 52) = 52 - a.log2 := by ring
  have hsteps : ((a.log2 : Int) - 52 - double.minExponent).toNat = a.log2 + 1022 := by omega
  have hbinade : double.binade = 2 ^ 52 := rfl
  have hinfinity : double.infinity = 2047 * 2 ^ 52 := rfl
  simp only [Format.encodeRatio, if_neg h0, hexponent, hneg, hscale, roundDiv_mul _ hden, hsteps,
    hbinade, hinfinity]
  omega

/-- The word of a whole number is its pattern. -/
theorem ofNat_encode (h0 : n ≠ 0) (hn : n.natAbs ≤ 2 ^ 53) :
    (UInt64.ofNat (double.encode (ofInt n))).toBitVec = wordOf n := by
  have hl := log2_le hn
  have hs := significand_bounds (Int.natAbs_ne_zero.2 h0) hn
  have hsign : double.signBit = 2 ^ 63 := rfl
  apply BitVec.eq_of_toNat_eq
  rw [wordOf, toNat_word _ (by omega) (by omega)]
  have hscale : scaleRatio 0 n.natAbs 1 = (n.natAbs, 1) := by simp [scaleRatio]
  simp only [ofInt, Format.encode, hscale, encodeRatio_eq (Int.natAbs_ne_zero.2 h0) hn, hsign,
    signOf]
  rw [UInt64.toBitVec_ofNat', BitVec.toNat_ofNat]
  by_cases h : n < 0
  · rw [if_pos (decide_eq_true h), if_pos h]
    simp only [Sign.toBitVec, BitVec.toNat_ofNat]
    omega
  · rw [if_neg (by simpa using h), if_neg h]
    simp only [Sign.toBitVec, BitVec.toNat_ofNat]
    omega

theorem toBits_whole (h0 : n ≠ 0) (hn : n.natAbs ≤ 2 ^ 53) :
    (whole n).toBits.toBitVec = wordOf n := by
  have hbits : (whole n).toBits.toBitVec =
      pack .binary64 (unpack .binary64 (UInt64.ofNat (double.encode (ofInt n))).toBitVec) := rfl
  rw [hbits, ofNat_encode h0 hn, unpack_wordOf h0 hn, pack_parts h0 hn]

/-- The parts of the number of a whole number. -/
theorem unpack_whole (hn : n.natAbs ≤ 2 ^ 53) : (whole n).toModel.unpack = parts n := by
  by_cases h0 : n = 0
  · subst h0; rfl
  · show unpack .binary64 (whole n).toBits.toBitVec = parts n
    rw [toBits_whole h0 hn, unpack_wordOf h0 hn]

/-! ## Rounding what is exact -/

/-- Shifting zeros out loses nothing. -/
theorem shiftRight_mul (m d : Nat) :
    (⟨m * 2 ^ d, false, false⟩ : ExtendedMantissa) >>> d = ⟨m, false, false⟩ := by
  show d.repeat ExtendedMantissa.shiftRightOne _ = _
  induction d generalizing m with
  | zero => simp [Nat.repeat]
  | succ d ih =>
    rw [Nat.repeat, pow_succ', ← mul_assoc, ih, ExtendedMantissa.shiftRightOne]
    simp

/-- The exponent that the format has for a number whose first digit is in place `k`. -/
theorem targetExponent_eq {m k : Nat} {e : Int} (h : (m.log2 : Int) + e = k) :
    Float.Model.Format.binary64.targetExponent (totalExponent m e) = k - 52 := by
  have hbits : (Float.Model.Format.binary64.mantissaBits : Int) = 53 := rfl
  have hmin : Float.Model.Format.binary64.minExponent = -1074 := rfl
  rw [Float.Model.Format.targetExponent, totalExponent, hbits, hmin]
  omega

/-- A significand with zeros behind it is rounded to itself. -/
theorem roundWithAccuracy_exact (s : Sign) {m : Nat} (hm : m.log2 = 52) (h0 : m ≠ 0) (k d : Nat) :
    roundWithAccuracy .binary64 s (m * 2 ^ d) (k - 52 - d) .exact =
      .finite s m (k - 52) (Nat.pos_of_ne_zero h0) := by
  have hshift (d : Nat) : shiftToTargetExponent .binary64 (m * 2 ^ d) (k - 52 - d) .exact =
      (⟨m, false, false⟩, (k : Int) - 52) := by
    have hlog : ((m * 2 ^ d).log2 : Int) + (k - 52 - d) = k := by
      rw [log2_mul_two_pow h0, hm]; push_cast; ring
    have hd : ((k : Int) - 52 - (k - 52 - d)).toNat = d := by omega
    simp only [shiftToTargetExponent, shiftToExponent, targetExponent_eq hlog, hd,
      ExtendedMantissa.ofMantissaAndAccuracy, shiftRight_mul, sub_add_cancel]
  have hstay : shiftToTargetExponent .binary64 m (k - 52) .exact =
      (⟨m, false, false⟩, (k : Int) - 52) := by simpa using hshift 0
  simp only [roundWithAccuracy, hshift, ExtendedMantissa.roundedMantissa,
    ExtendedMantissa.accuracy, Accuracy.roundToNearestEven, hstay, dif_neg h0]

/-- A number that is a whole one, however it is split into a significand and an
    exponent, is rounded to the parts of that. -/
theorem round_exact (s : Sign) {c m k : Nat} (h0 : c ≠ 0) (hc : c ≤ 2 ^ 53)
    (h : m * 2 ^ k = c * 2 ^ 52) :
    round .binary64 s m (k - 52) = .finite s (significand c) (c.log2 - 52)
      (Nat.pos_of_ne_zero (significand_ne_zero h0 hc)) := by
  have hm : m ≠ 0 := by
    rintro rfl
    exact h0 (by simpa using h.symm)
  have hlog : m.log2 + k = c.log2 + 52 := by
    rw [← log2_mul_two_pow hm, h, log2_mul_two_pow h0]
  have htarget : Float.Model.Format.binary64.targetExponent (totalExponent m (k - 52)) =
      c.log2 - 52 := targetExponent_eq (by omega)
  have hsig := significand_mul hc
  have hround := roundWithAccuracy_exact s (log2_significand h0 hc) (significand_ne_zero h0 hc)
  simp only [Float.Model.UnpackedFloat.round, htarget, decreaseExponent]
  -- either zeros are put behind the digits, or zeros behind them are dropped
  by_cases hk : c.log2 ≤ k
  · have hshift : ((k : Int) - 52 - (c.log2 - 52)).toNat = k - c.log2 := by omega
    have hmantissa : m <<< (k - c.log2) = significand c := by
      refine eq_significand hc ?_
      rw [Nat.shiftLeft_eq, mul_assoc, ← pow_add, Nat.sub_add_cancel hk, h]
    have hexponent : (k : Int) - 52 - (k - c.log2 : Nat) = c.log2 - 52 - (0 : Nat) := by omega
    rw [hshift, hmantissa, hexponent]
    simpa using hround c.log2 0
  · have hshift : ((k : Int) - 52 - (c.log2 - 52)).toNat = 0 := by omega
    have hmantissa : m = significand c * 2 ^ (c.log2 - k) := by
      refine Nat.eq_of_mul_eq_mul_right (Nat.two_pow_pos k) ?_
      rw [h, mul_assoc, ← pow_add, Nat.sub_add_cancel (by omega), hsig]
    have hexponent : (k : Int) - 52 - (0 : Nat) = c.log2 - 52 - (c.log2 - k : Nat) := by omega
    rw [hshift, hexponent, Nat.shiftLeft_zero, hmantissa]
    exact hround c.log2 (c.log2 - k)

/-- The signed variant: digits of either sign are brought to the parts of the whole
    number that they make up. -/
theorem normalize_exact {c m : Int} {k : Nat} (hc : c.natAbs ≤ 2 ^ 53)
    (h : m * 2 ^ k = c * 2 ^ 52) : normalize .binary64 m (k - 52) .positive = parts c := by
  have hpow : (0 : Int) < 2 ^ k := by positivity
  have habs : m.natAbs * 2 ^ k = c.natAbs * 2 ^ 52 := by
    have := congrArg Int.natAbs h
    simpa [Int.natAbs_mul, Int.natAbs_pow] using this
  rcases lt_trichotomy m 0 with hm | rfl | hm
  · have hneg : c < 0 := by
      have := h ▸ mul_neg_of_neg_of_pos hm hpow
      omega
    have hcmp : compare m 0 = .lt := Int.compare_eq_lt.2 hm
    have hnat : (-m).toNat = m.natAbs := by omega
    simp only [Float.Model.UnpackedFloat.normalize, hcmp]
    rw [hnat, round_exact .negative (by omega) hc habs, parts_of_ne_zero (by omega) hc, signOf,
      if_pos hneg]
  · obtain rfl : c = 0 := by omega
    rfl
  · have hpos : 0 < c := by
      have := h ▸ mul_pos hm hpow
      omega
    have hcmp : compare m 0 = .gt := Int.compare_eq_gt.2 hm
    have hnat : m.toNat = m.natAbs := by omega
    simp only [Float.Model.UnpackedFloat.normalize, hcmp]
    rw [hnat, round_exact .positive (by omega) hc habs, parts_of_ne_zero (by omega) hc, signOf,
      if_neg (by omega)]

/-! ## Sums and differences -/

/-- The digits of a whole number from a place on that is not above its first digit. -/
theorem apply_decreaseExponent (hn : n.natAbs ≤ 2 ^ 53) {k : Nat} (hk : k ≤ n.natAbs.log2) :
    (signOf n).apply (decreaseExponent (significand n.natAbs) (n.natAbs.log2 - 52) (k - 52)).1 *
      2 ^ k = n * 2 ^ 52 := by
  have hshift : ((n.natAbs.log2 : Int) - 52 - (k - 52)).toNat = n.natAbs.log2 - k := by omega
  have hdigits : (significand n.natAbs) <<< (n.natAbs.log2 - k) * 2 ^ k = n.natAbs * 2 ^ 52 := by
    rw [Nat.shiftLeft_eq, mul_assoc, ← pow_add, Nat.sub_add_cancel hk, significand_mul hn]
  have hcast : ((significand n.natAbs <<< (n.natAbs.log2 - k) : Nat) : Int) * 2 ^ k =
      |n| * 2 ^ 52 := by
    rw [Int.abs_eq_natAbs]; exact_mod_cast hdigits
  simp only [decreaseExponent, hshift, signOf]
  by_cases h : n < 0
  · rw [if_pos h, Sign.apply, neg_mul, hcast, abs_of_neg h]; ring
  · rw [if_neg h, Sign.apply, hcast, abs_of_nonneg (by omega)]

variable {a b : Int}

theorem add_parts (ha : a.natAbs ≤ 2 ^ 53) (hb : b.natAbs ≤ 2 ^ 53)
    (hab : (a + b).natAbs ≤ 2 ^ 53) :
    Float.Model.UnpackedFloat.add .binary64 (parts a) (parts b) = parts (a + b) := by
  by_cases ha0 : a = 0
  · subst ha0
    rw [zero_add]
    by_cases hb0 : b = 0
    · subst hb0; rfl
    · rw [parts_of_ne_zero hb0 hb]; rfl
  by_cases hb0 : b = 0
  · subst hb0
    rw [add_zero, parts_of_ne_zero ha0 ha]
    rfl
  rw [parts_of_ne_zero ha0 ha, parts_of_ne_zero hb0 hb]
  -- the digits of both from the lower of their exponents on
  let k := min a.natAbs.log2 b.natAbs.log2
  have hk : min ((a.natAbs.log2 : Int) - 52) (b.natAbs.log2 - 52) = (k : Int) - 52 := by omega
  simp only [Float.Model.UnpackedFloat.add, hk]
  refine normalize_exact hab ?_
  rw [add_mul, apply_decreaseExponent ha (by omega), apply_decreaseExponent hb (by omega), add_mul]

theorem sub_parts (ha : a.natAbs ≤ 2 ^ 53) (hb : b.natAbs ≤ 2 ^ 53)
    (hab : (a - b).natAbs ≤ 2 ^ 53) :
    Float.Model.UnpackedFloat.sub .binary64 (parts a) (parts b) = parts (a - b) := by
  by_cases hb0 : b = 0
  · subst hb0
    rw [sub_zero]
    by_cases ha0 : a = 0
    · subst ha0; rfl
    · rw [parts_of_ne_zero ha0 ha]; rfl
  by_cases ha0 : a = 0
  · subst ha0
    have hsign : -signOf b = signOf (-b) := by
      unfold signOf
      by_cases h : b < 0
      · rw [if_pos h, if_neg (by omega)]; rfl
      · rw [if_neg h, if_pos (by omega)]; rfl
    have hneg : (-b).natAbs ≤ 2 ^ 53 := by omega
    rw [zero_sub, parts_of_ne_zero hb0 hb, parts_of_ne_zero (neg_ne_zero.2 hb0) hneg]
    show Float.Model.UnpackedFloat.finite (-signOf b) _ _ _ = _
    simp only [hsign, Int.natAbs_neg]
  rw [parts_of_ne_zero ha0 ha, parts_of_ne_zero hb0 hb]
  let k := min a.natAbs.log2 b.natAbs.log2
  have hk : min ((a.natAbs.log2 : Int) - 52) (b.natAbs.log2 - 52) = (k : Int) - 52 := by omega
  simp only [Float.Model.UnpackedFloat.sub, hk]
  refine normalize_exact hab ?_
  rw [sub_mul, apply_decreaseExponent ha (by omega), apply_decreaseExponent hb (by omega), sub_mul]

/-- The number of a whole number is made up of its parts. -/
theorem toModel_whole (hn : n.natAbs ≤ 2 ^ 53) :
    (whole n).toModel = Float.Model.pack (parts n) := by
  by_cases h0 : n = 0
  · subst h0; rfl
  · rw [← unpack_wordOf h0 hn, ← ofNat_encode h0 hn]; rfl

theorem whole_add (ha : a.natAbs ≤ 2 ^ 53) (hb : b.natAbs ≤ 2 ^ 53)
    (hab : (a + b).natAbs ≤ 2 ^ 53) : whole a + whole b = whole (a + b) := by
  have hsum : (whole a + whole b).toModel = Float.Model.pack (parts (a + b)) := by
    show Float.Model.pack (Float.Model.UnpackedFloat.add _ (whole a).toModel.unpack
      (whole b).toModel.unpack) = _
    rw [unpack_whole ha, unpack_whole hb, add_parts ha hb hab]
  rw [← toModel_whole hab] at hsum
  exact congrArg Float.ofModel hsum

theorem whole_sub (ha : a.natAbs ≤ 2 ^ 53) (hb : b.natAbs ≤ 2 ^ 53)
    (hab : (a - b).natAbs ≤ 2 ^ 53) : whole a - whole b = whole (a - b) := by
  have hdifference : (whole a - whole b).toModel = Float.Model.pack (parts (a - b)) := by
    show Float.Model.pack (Float.Model.UnpackedFloat.sub _ (whole a).toModel.unpack
      (whole b).toModel.unpack) = _
    rw [unpack_whole ha, unpack_whole hb, sub_parts ha hb hab]
  rw [← toModel_whole hab] at hdifference
  exact congrArg Float.ofModel hdifference

/-! ## Equality -/

/-- The parts of two whole numbers differ in one place, at least, if the numbers do. -/
theorem natAbs_eq_of_parts (ha : a.natAbs ≤ 2 ^ 53) (hb : b.natAbs ≤ 2 ^ 53)
    (hlog : a.natAbs.log2 = b.natAbs.log2)
    (hs : significand a.natAbs = significand b.natAbs) : a.natAbs = b.natAbs := by
  have := significand_mul ha
  rw [hs, hlog, significand_mul hb] at this
  omega

theorem compare_parts (ha : a.natAbs ≤ 2 ^ 53) (hb : b.natAbs ≤ 2 ^ 53) :
    (parts a).compare (parts b) = some .eq ↔ a = b := by
  constructor
  · intro h
    by_cases ha0 : a = 0 <;> by_cases hb0 : b = 0
    · omega
    · subst ha0
      rw [parts_of_ne_zero hb0 hb] at h
      unfold signOf at h
      split at h <;> simp [parts, significand, Float.Model.UnpackedFloat.compare] at h
    · subst hb0
      rw [parts_of_ne_zero ha0 ha] at h
      unfold signOf at h
      split at h <;> simp [parts, significand, Float.Model.UnpackedFloat.compare] at h
    · rw [parts_of_ne_zero ha0 ha, parts_of_ne_zero hb0 hb] at h
      have hnat := natAbs_eq_of_parts ha hb
      unfold signOf at h
      split at h <;> split at h <;>
        simp [Float.Model.UnpackedFloat.compare, Ordering.then_eq_eq, Ordering.swap_eq_eq] at h
      · have := hnat (by omega) h.2; omega
      · have := hnat (by omega) h.2; omega
  · rintro rfl
    by_cases ha0 : a = 0
    · subst ha0; rfl
    · rw [parts_of_ne_zero ha0 ha]
      unfold signOf
      split <;> simp [Float.Model.UnpackedFloat.compare]

theorem whole_beq (ha : a.natAbs ≤ 2 ^ 53) (hb : b.natAbs ≤ 2 ^ 53) :
    (whole a == whole b) = decide (a = b) := by
  have h : (whole a == whole b) =
      ((whole a).toModel.unpack.compare (whole b).toModel.unpack == some .eq) := rfl
  rw [h, unpack_whole ha, unpack_whole hb, Bool.eq_iff_iff]
  simp [compare_parts ha hb]

/-! ## Reading back -/

theorem decode_wordOf (h0 : n ≠ 0) (hn : n.natAbs ≤ 2 ^ 53) :
    double.decode (wordOf n).toNat =
      .finite (n < 0) (significand n.natAbs) (n.natAbs.log2 - 52) := by
  have hl := log2_le hn
  have hs := significand_bounds (Int.natAbs_ne_zero.2 h0) hn
  have hsign : double.signBit = 2 ^ 63 := rfl
  have hbinade : double.binade = 2 ^ 52 := rfl
  have hinfinity : double.infinity = 2047 * 2 ^ 52 := rfl
  have hmin : double.minExponent = -1074 := by decide
  have hbits := toNat_word (signOf n) (show n.natAbs.log2 + 1023 < 2 ^ 11 by omega)
    (show significand n.natAbs - 2 ^ 52 < 2 ^ 52 by omega)
  have hneg : double.signBit ≤ (wordOf n).toNat ↔ n < 0 := by
    rw [wordOf, hbits, hsign, signOf]
    by_cases h : n < 0
    · rw [if_pos h]; simp only [Sign.toBitVec, BitVec.toNat_ofNat]; omega
    · rw [if_neg h]; simp only [Sign.toBitVec, BitVec.toNat_ofNat]; omega
  have hrest : (wordOf n).toNat % double.signBit =
      (n.natAbs.log2 + 1023) * 2 ^ 52 + (significand n.natAbs - 2 ^ 52) := by
    rw [wordOf, hbits, hsign]; omega
  have hfield : ((n.natAbs.log2 + 1023) * 2 ^ 52 + (significand n.natAbs - 2 ^ 52)) / 2 ^ 52 =
      n.natAbs.log2 + 1023 := by omega
  have hfraction : ((n.natAbs.log2 + 1023) * 2 ^ 52 + (significand n.natAbs - 2 ^ 52)) % 2 ^ 52 =
      significand n.natAbs - 2 ^ 52 := by omega
  simp only [Format.decode, hneg, hrest, hinfinity, hbinade, hfield, hfraction, hmin]
  rw [if_neg (by omega), if_neg (by omega), if_neg (by omega), Unpacked.finite.injEq]
  exact ⟨rfl, by omega, by omega⟩

/-- The ratio that a significand of a natural number stands for is that number. -/
theorem scaleRatio_significand {a : Nat} (ha : a ≤ 2 ^ 53) :
    ∃ den, 0 < den ∧ scaleRatio (a.log2 - 52) (significand a) 1 = (a * den, den) := by
  by_cases h : a.log2 ≤ 52
  · refine ⟨2 ^ (52 - a.log2), by positivity, ?_⟩
    rw [significand, if_pos h, scaleRatio]
    by_cases h' : a.log2 = 52
    · simp [h']
    · have hexponent : (-((a.log2 : Int) - 52)).toNat = 52 - a.log2 := by omega
      rw [if_neg (by omega), hexponent, one_mul, Nat.pow_eq]
  · refine ⟨1, one_pos, ?_⟩
    rw [eq_of_log2_gt ha h]
    decide

/-- A whole number is read back from its floating-point number. -/
theorem ofDouble_whole (hn : n.natAbs ≤ 2 ^ 53) : (ofDouble (whole n)).toInt? = some n := by
  by_cases h0 : n = 0
  · subst h0
    decide +kernel
  · obtain ⟨den, hden, hscale⟩ := scaleRatio_significand hn
    have hdecode : ofDouble (whole n) = double.decode (wordOf n).toNat := by
      rw [← toBits_whole h0 hn]; rfl
    rw [hdecode, decode_wordOf h0 hn]
    simp only [Unpacked.toInt?, hscale, Nat.mul_mod_left, Nat.mul_div_cancel _ hden, if_true]
    by_cases h : n < 0
    · simp only [h, decide_true, if_true]; congr 1; omega
    · simp only [h, decide_false, Bool.false_eq_true, if_false]; congr 1; omega

end Scriptlet.Binary
