import Scriptlet.Proofs.Binary.Whole

/-!
# Patterns of bits and what they stand for

Rounding depends on the ratio alone and not on how it is written
(`Format.encodeRatio_mul`), so a datum that is a whole number is rounded as that number is
(`Format.encode_of_toInt?`). And nothing is rounded that a pattern has stood for already:
taking a pattern apart and packing it again gives the pattern (`Format.encode_decode`).

For the numbers of the two formats this means:

* `toSingle_ofSingle`: a 32-bit number is the one that it is taken apart into;
* `plain_toDouble`: as a 64-bit number a whole datum is the whole number, but for the sign
  of zero (`plain`);
* `plain_whole_ne`: whole numbers of different signs are different 64-bit numbers.
-/

namespace Scriptlet.Binary

open Float.Model.UnpackedFloat

/-! ## Ratios -/

/-- A ratio in higher terms is rounded to the same whole number. -/
theorem roundDiv_mul_mul (a b : Nat) {c : Nat} (hc : 0 < c) :
    roundDiv (a * c) (b * c) = roundDiv a b := by
  have hlt (x y : Nat) : 2 * (x * c) < y * c ↔ 2 * x < y := by
    rw [← mul_assoc]
    exact Nat.mul_lt_mul_right hc
  have hgt (x y : Nat) : y * c < 2 * (x * c) ↔ y < 2 * x := by
    rw [← mul_assoc]
    exact Nat.mul_lt_mul_right hc
  simp only [roundDiv, Nat.mul_div_mul_right _ _ hc, Nat.mul_mod_mul_right, hlt, hgt]

theorem scaleRatio_natCast (k num den : Nat) : scaleRatio k num den = (num * 2 ^ k, den) := by
  simp [scaleRatio]

theorem scaleRatio_neg_natCast (k num den : Nat) :
    scaleRatio (-k) num den = (num, den * 2 ^ k) := by
  by_cases hk : k = 0
  · simp [scaleRatio, hk]
  · rw [scaleRatio, if_neg (by omega), neg_neg, Int.toNat_natCast, Nat.pow_eq]

/-- The exponent of a significand with an exponent. -/
theorem ratioLog2_scaleRatio {m : Nat} (h0 : m ≠ 0) (e : Int) :
    ratioLog2 (scaleRatio e m 1).1 (scaleRatio e m 1).2 = m.log2 + e := by
  obtain ⟨k, rfl | rfl⟩ := e.eq_nat_or_neg
  · rw [scaleRatio_natCast, ratioLog2_one (by positivity), log2_mul_two_pow h0, Nat.cast_add]
  · have hpow : 2 ^ m.log2 ≤ m := (Nat.le_log2 h0).1 le_rfl
    have hlog : (2 ^ k).log2 = k := Nat.log2_two_pow
    -- scaled by its own logarithm, a ratio is at least one
    have hle : (scaleRatio (-((m.log2 : Int) - k)) m (2 ^ k)).2 ≤
        (scaleRatio (-((m.log2 : Int) - k)) m (2 ^ k)).1 := by
      obtain ⟨j, hj | hj⟩ := (m.log2 - k : Int).eq_nat_or_neg
      · rw [hj, scaleRatio_neg_natCast, ← pow_add, show k + j = m.log2 by omega]
        exact hpow
      · rw [hj, neg_neg, scaleRatio_natCast, show k = m.log2 + j by omega, pow_add]
        exact Nat.mul_le_mul_right _ hpow
    simp only [scaleRatio_neg_natCast, one_mul, ratioLog2, hlog, if_pos hle]
    rfl

/-- A significand is what its ratio is rounded to at its own exponent. -/
theorem roundDiv_scaleRatio (m : Nat) (e : Int) :
    let r := scaleRatio (-e) (scaleRatio e m 1).1 (scaleRatio e m 1).2
    roundDiv r.1 r.2 = m := by
  obtain ⟨k, rfl | rfl⟩ := e.eq_nat_or_neg
  · simpa only [scaleRatio_natCast, scaleRatio_neg_natCast, one_mul] using
      roundDiv_mul m (by positivity)
  · simpa only [scaleRatio_natCast, scaleRatio_neg_natCast, one_mul, neg_neg] using
      roundDiv_mul m (by positivity)

namespace Format

variable {f : Format}

/-- A ratio in higher terms is rounded to the same pattern. -/
theorem encodeRatio_mul (f : Format) (q j k : Nat) :
    f.encodeRatio (q * 2 ^ k) (2 ^ (j + k)) = f.encodeRatio q (2 ^ j) := by
  by_cases hq : q = 0
  · simp [encodeRatio, hq]
  · have hlog (m i : Nat) (hm : m ≠ 0) : ratioLog2 m (2 ^ i) = m.log2 - i := by
      have h := ratioLog2_scaleRatio hm (-i)
      rwa [scaleRatio_neg_natCast, one_mul] at h
    have hround (e : Int) : roundDiv (scaleRatio e (q * 2 ^ k) (2 ^ (j + k))).1
        (scaleRatio e (q * 2 ^ k) (2 ^ (j + k))).2 =
        roundDiv (scaleRatio e q (2 ^ j)).1 (scaleRatio e q (2 ^ j)).2 := by
      obtain ⟨i, rfl | rfl⟩ := e.eq_nat_or_neg
      · rw [scaleRatio_natCast, scaleRatio_natCast, mul_right_comm, pow_add]
        exact roundDiv_mul_mul _ _ (by positivity)
      · rw [scaleRatio_neg_natCast, scaleRatio_neg_natCast, pow_add, mul_right_comm (2 ^ j)]
        exact roundDiv_mul_mul _ _ (by positivity)
    have h0 : q * 2 ^ k ≠ 0 := by positivity
    have hlogs : ratioLog2 (q * 2 ^ k) (2 ^ (j + k)) = ratioLog2 q (2 ^ j) := by
      rw [hlog _ _ h0, hlog _ _ hq, log2_mul_two_pow hq]
      omega
    simp only [encodeRatio, if_neg hq, if_neg h0, hlogs, hround]

/-- A significand with zeros behind it is rounded to the same pattern. -/
theorem encode_shift (negative : Bool) (m d : Nat) (e : Int) :
    f.encode (.finite negative (m * 2 ^ d) e) = f.encode (.finite negative m (e + d)) := by
  simp only [encode]
  congr 1
  obtain ⟨k, rfl | rfl⟩ := e.eq_nat_or_neg
  · rw [scaleRatio_natCast, ← Nat.cast_add, scaleRatio_natCast, mul_assoc, ← pow_add, add_comm d]
  · rw [scaleRatio_neg_natCast, one_mul]
    obtain ⟨i, rfl | rfl⟩ : ∃ i, k = i + d ∨ d = i + k := by
      rcases Nat.le_total d k with h | h
      · exact ⟨k - d, .inl (by omega)⟩
      · exact ⟨d - k, .inr (by omega)⟩
    · rw [encodeRatio_mul, show -((i + d : Nat) : Int) + d = -(i : Int) by omega,
        scaleRatio_neg_natCast, one_mul]
    · rw [show -(k : Int) + (i + k : Nat) = (i : Int) by omega, scaleRatio_natCast, pow_add,
        ← mul_assoc]
      simpa using encodeRatio_mul f (m * 2 ^ i) 0 k

/-- A datum that is a whole number other than zero is rounded as that number. -/
theorem encode_of_toInt? {u : Unpacked} {v : Int} (h : u.toInt? = some v) (hv : v ≠ 0) :
    f.encode u = f.encode (ofInt v) := by
  cases u with
  | finite negative m e =>
    simp only [Unpacked.toInt?] at h
    split at h
    case isFalse => cases h
    case isTrue hmod =>
      -- the whole number in higher terms
      obtain ⟨q, k, hscale⟩ : ∃ q k, scaleRatio e m 1 = (q * 2 ^ k, 2 ^ (0 + k)) := by
        obtain ⟨k, rfl | rfl⟩ := e.eq_nat_or_neg
        · exact ⟨m * 2 ^ k, 0, by simp [scaleRatio_natCast]⟩
        · rw [scaleRatio_neg_natCast, one_mul] at hmod ⊢
          exact ⟨m / 2 ^ k, k, by rw [zero_add, Nat.div_mul_cancel (Nat.dvd_of_mod_eq_zero hmod)]⟩
      rw [hscale, zero_add, Nat.mul_div_cancel _ (by positivity)] at h
      have hsize : v.natAbs = q := by cases negative <;> simp at h <;> omega
      have hsign : decide (v < 0) = negative := by
        cases negative <;> simp at h ⊢ <;> omega
      have hzero : scaleRatio 0 q 1 = (q, 1) := by simp [scaleRatio]
      simp only [encode, ofInt, hscale, encodeRatio_mul, pow_zero, hsize, hsign, hzero]
  | _ => cases h

/-- A datum that is zero is packed into a zero, with its sign. -/
theorem encode_of_toInt?_zero {u : Unpacked} (h : u.toInt? = some 0) :
    f.encode u = 0 ∨ f.encode u = f.signBit := by
  cases u with
  | finite negative m e =>
    simp only [Unpacked.toInt?] at h
    split at h
    case isFalse => cases h
    case isTrue hmod =>
      have hquotient : (scaleRatio e m 1).1 / (scaleRatio e m 1).2 = 0 := by
        cases negative <;> simp only [Bool.false_eq_true, if_true, if_false, Option.some.injEq] at h
          <;> omega
      have hzero : (scaleRatio e m 1).1 = 0 := by
        rw [← Nat.div_add_mod (scaleRatio e m 1).1 (scaleRatio e m 1).2, hquotient, hmod,
          mul_zero]
      cases negative <;> simp [encode, encodeRatio, hzero]
  | _ => cases h

theorem binade_pos : 0 < f.binade := Nat.two_pow_pos _

/-- What a format has is not rounded: its significand is full, or its exponent the least. -/
theorem encode_exact (negative : Bool) {m : Nat} {e : Int} (he : f.minExponent ≤ e)
    (hm : m < 2 * f.binade) (hfull : f.binade ≤ m ∨ e = f.minExponent) :
    f.encode (.finite negative m e) = (if negative then f.signBit else 0) +
      min f.infinity ((e - f.minExponent).toNat * f.binade + m) := by
  have hpos : 0 < f.binade := binade_pos
  simp only [encode]
  congr 1
  by_cases h0 : m = 0
  · obtain rfl : e = f.minExponent := by omega
    have hzero : (scaleRatio f.minExponent m 1).1 = 0 := by
      simp [scaleRatio, h0, apply_ite Prod.fst]
    rw [encodeRatio, if_pos hzero, sub_self, Int.toNat_zero, zero_mul, zero_add, h0, Nat.min_zero]
  · have hnum : (scaleRatio e m 1).1 ≠ 0 := by
      obtain ⟨k, rfl | rfl⟩ := e.eq_nat_or_neg
      · rw [scaleRatio_natCast]
        positivity
      · rwa [scaleRatio_neg_natCast]
    have hlog : m.log2 < f.precision - 1 + 1 := (Nat.log2_lt h0).2 (by rwa [pow_succ'])
    -- the significand has as many digits as it may have, and so its exponent stays
    have hexponent : max f.minExponent ((m.log2 : Int) + e - (f.precision - 1 : Nat)) = e := by
      rcases hfull with hfull | rfl
      · have : f.precision - 1 ≤ m.log2 := (Nat.le_log2 h0).2 hfull
        omega
      · omega
    have hround := roundDiv_scaleRatio m e
    dsimp only at hround
    simp only [encodeRatio, if_neg hnum, ratioLog2_scaleRatio h0, hexponent, hround]

/-- A pattern that stands for a number is what that number is packed into. -/
theorem encode_decode {bits : Nat} (hbits : bits < 2 * f.signBit) (hnan : f.decode bits ≠ .nan) :
    f.encode (f.decode bits) = bits := by
  have hpos : 0 < f.binade := binade_pos
  -- the sign is the highest bit
  have hsplit : (if decide (f.signBit ≤ bits) = true then f.signBit else 0) + bits % f.signBit =
      bits := by
    by_cases h : f.signBit ≤ bits
    · rw [if_pos (decide_eq_true h), Nat.mod_eq_sub_mod h, Nat.mod_eq_of_lt (by omega)]
      omega
    · rw [if_neg (by simpa using h), Nat.mod_eq_of_lt (by omega), Nat.zero_add]
  have hrest := Nat.div_add_mod' (bits % f.signBit) f.binade
  have hfraction := Nat.mod_lt (bits % f.signBit) hpos
  unfold decode at hnan ⊢
  dsimp only at hnan ⊢
  split_ifs at hnan ⊢ with hinfinite hlarge hfield
  · rw [encode, ← hinfinite]
    exact hsplit
  · exact absurd rfl hnan
  -- an exponent field of zero has the same exponent as one of one, but no leading digit
  · rw [hfield, zero_mul, zero_add] at hrest
    rw [encode_exact _ le_rfl (by omega) (.inr rfl), sub_self, Int.toNat_zero, zero_mul, zero_add,
      hrest, Nat.min_eq_right (by omega), hsplit]
  · generalize bits % f.signBit / f.binade = field at *
    generalize bits % f.signBit % f.binade = fraction at *
    have hsteps : (f.minExponent + field - 1 - f.minExponent).toNat = field - 1 := by omega
    have hsum : (field - 1) * f.binade + (f.binade + fraction) = bits % f.signBit := by
      rw [Nat.sub_one_mul, ← add_assoc,
        Nat.sub_add_cancel (Nat.le_mul_of_pos_left _ (Nat.pos_of_ne_zero hfield)), hrest]
    rw [encode_exact _ (by omega) (by omega) (.inl (by omega)), hsteps, hsum,
      Nat.min_eq_right (by omega), hsplit]

/-- A pattern with a full significand is taken apart into it. -/
theorem decode_exact (negative : Bool) {m : Nat} {e : Int} (he : f.minExponent ≤ e)
    (hm : f.binade ≤ m ∧ m < 2 * f.binade)
    (hlt : (e - f.minExponent).toNat * f.binade + m < f.infinity) :
    f.decode ((if negative then f.signBit else 0) + ((e - f.minExponent).toNat * f.binade + m)) =
      .finite negative m e := by
  have hpos : 0 < f.binade := binade_pos
  have hsign : f.infinity < f.signBit := by
    rw [infinity, signBit]
    exact Nat.mul_lt_mul_of_pos_right (Nat.sub_lt (Nat.two_pow_pos _) one_pos) hpos
  obtain ⟨steps, hsteps⟩ : ∃ steps : Nat, e = f.minExponent + steps :=
    ⟨(e - f.minExponent).toNat, by omega⟩
  have htoNat : (e - f.minExponent).toNat = steps := by omega
  obtain ⟨fraction, rfl⟩ : ∃ fraction, m = f.binade + fraction := ⟨m - f.binade, by omega⟩
  rw [htoNat] at hlt ⊢
  have hrest : ((if negative then f.signBit else 0) + (steps * f.binade + (f.binade + fraction))) %
      f.signBit = steps * f.binade + (f.binade + fraction) := by
    cases negative <;> simp [Nat.mod_eq_of_lt (hlt.trans hsign)]
  have hnegative : decide (f.signBit ≤
      (if negative then f.signBit else 0) + (steps * f.binade + (f.binade + fraction))) = negative := by
    cases negative <;> simp
    omega
  have hsplit : steps * f.binade + (f.binade + fraction) = fraction + f.binade * (steps + 1) := by ring
  have hfield : (steps * f.binade + (f.binade + fraction)) / f.binade = steps + 1 := by
    rw [hsplit, Nat.add_mul_div_left _ _ hpos, Nat.div_eq_of_lt (by omega), zero_add]
  have hfraction : (steps * f.binade + (f.binade + fraction)) % f.binade = fraction := by
    rw [hsplit, Nat.add_mul_mod_self_left, Nat.mod_eq_of_lt (by omega)]
  simp only [decode, hrest, hnegative, hfield, hfraction]
  rw [if_neg (by omega), if_neg (by omega), if_neg (by omega), hsteps]
  push_cast
  congr 1
  omega

/-- The bounds of what a pattern is taken apart into. -/
theorem bounds_of_decode {bits : Nat} {negative : Bool} {m : Nat} {e : Int}
    (h : f.decode bits = .finite negative m e) :
    m < 2 * f.binade ∧ f.minExponent ≤ e ∧ e < f.minExponent + (2 ^ f.exponentBits : Nat) := by
  have hpos : 0 < f.binade := binade_pos
  have hfraction := Nat.mod_lt (bits % f.signBit) hpos
  have htwo := Nat.two_pow_pos f.exponentBits
  unfold decode at h
  dsimp only at h
  split_ifs at h with hinfinite hlarge hzero
  · cases h
    exact ⟨by omega, le_rfl, by omega⟩
  · have hfield : bits % f.signBit / f.binade < 2 ^ f.exponentBits - 1 :=
      (Nat.div_lt_iff_lt_mul hpos).2 (lt_of_le_of_ne (not_lt.1 hlarge) hinfinite)
    generalize bits % f.signBit / f.binade = field at *
    cases h
    exact ⟨by omega, by omega, by omega⟩

theorem encodeRatio_le (num den : Nat) : f.encodeRatio num den ≤ f.infinity := by
  unfold encodeRatio
  split
  · exact Nat.zero_le _
  · exact Nat.min_le_left _ _

end Format

/-! ## The two formats -/

/-- A 32-bit number is the one that it is taken apart into. -/
theorem toSingle_ofSingle {x : Float32} (h : ofSingle x ≠ .nan) : (ofSingle x).toSingle = x := by
  have hbits : x.toBits.toNat < 2 * single.signBit := x.toBits.toNat_lt
  rw [Unpacked.toSingle, ofSingle, Format.encode_decode hbits h, UInt32.ofNat_toNat,
    Float32.ofBits_toBits]

/-- A 64-bit number is the one that it is taken apart into. -/
theorem toDouble_ofDouble {x : Float} (h : ofDouble x ≠ .nan) : (ofDouble x).toDouble = x := by
  have hbits : x.toBits.toNat < 2 * double.signBit := x.toBits.toNat_lt
  rw [Unpacked.toDouble, ofDouble, Format.encode_decode hbits h, UInt64.ofNat_toNat,
    Float.ofBits_toBits]

/-- A 64-bit number with zero in one form only. -/
def plain (x : Float) : Float := if x == 0 then 0 else x

theorem plain_eq_of_beq {x y : Float} (h : (x == y) = true) : plain x = plain y := by
  have hneg : plain (-0) = plain 0 := by decide
  obtain ⟨-, -, rfl | ⟨rfl, rfl⟩ | ⟨rfl, rfl⟩⟩ := Float.beq_iff_ne_nan_and_eq.1 h
  · rfl
  · exact hneg.symm
  · exact hneg

/-- As a 64-bit number a whole datum is the whole number, but for the sign of zero. -/
theorem plain_toDouble {u : Unpacked} {v : Int} (h : u.toInt? = some v) :
    plain u.toDouble = plain (whole v) := by
  by_cases hv : v = 0
  · subst hv
    rcases Format.encode_of_toInt?_zero (f := double) h with h | h <;>
      rw [Unpacked.toDouble, h] <;> decide
  · rw [Unpacked.toDouble, Format.encode_of_toInt? h hv]
    rfl

theorem signBit_double : double.signBit = 2 ^ 63 := rfl

theorem infinity_double : double.infinity = 2047 * 2 ^ 52 := rfl

/-- The patterns of what is not a number lie above that of infinity. -/
theorem infinity_lt_of_isNaNBits {bits : BitVec 64} (h : @isNaNBits .binary64 bits) :
    double.infinity < bits.toNat % double.signBit := by
  obtain ⟨hexponent, hmantissa⟩ := of_decide_eq_true h
  have hword := @packComponents_unpackSign_unpackExponent_unpackMantissa .binary64 bits
  rw [hexponent] at hword
  generalize @unpackSign .binary64 bits = sign at hword
  generalize @unpackMantissa .binary64 bits = fraction at hword hmantissa
  have hlt : fraction.toNat < 2 ^ 52 := fraction.isLt
  have hpos : fraction.toNat ≠ 0 := fun h => hmantissa (BitVec.eq_of_toNat_eq h)
  have hpattern : bits = word (Sign.ofBitVec sign) 2047 fraction.toNat := by
    rw [word, BitVec.ofNat_toNat, BitVec.setWidth_eq]
    exact hword.symm
  rw [hpattern, toNat_word _ (by decide) hlt, signBit_double, infinity_double]
  omega

/-- A pattern of a number is what the number has. -/
theorem toBits_ofBits {bits : UInt64} (h : bits.toNat % double.signBit ≤ double.infinity) :
    (Float.ofBits bits).toBits = bits := by
  have hpack : (Float.ofBits bits).toBits.toBitVec =
      pack .binary64 (unpack .binary64 bits.toBitVec) := rfl
  have hnan : ¬@isNaNBits .binary64 bits.toBitVec :=
    fun hnan => (infinity_lt_of_isNaNBits hnan).not_ge h
  apply UInt64.eq_of_toBitVec_eq
  rw [hpack, pack_unpack, if_neg hnan]

/-- The pattern of a 64-bit number is that of the datum that it is packed from. -/
theorem toNat_toBits_toDouble {u : Unpacked} (h : u ≠ .nan) :
    u.toDouble.toBits.toNat = double.encode u := by
  have hinfinity := infinity_double
  have hsign := signBit_double
  have hle : ∃ negative : Bool, ∃ n ≤ double.infinity,
      double.encode u = (if negative then double.signBit else 0) + n := by
    cases u with
    | nan => exact absurd rfl h
    | infinite negative => exact ⟨negative, _, le_rfl, rfl⟩
    | finite negative m e => exact ⟨negative, _, Format.encodeRatio_le _ _, rfl⟩
  obtain ⟨negative, n, hn, hencode⟩ := hle
  have hnat : (UInt64.ofNat (double.encode u)).toNat = double.encode u := by
    refine UInt64.toNat_ofNat_of_lt' ?_
    rw [hencode, UInt64.size]
    split <;> omega
  rw [Unpacked.toDouble, toBits_ofBits, hnat]
  rw [hnat, hencode, hsign]
  split <;> omega

theorem encodeRatio_pos {a : Nat} (h : a ≠ 0) : 0 < double.encodeRatio a 1 := by
  have hmin : double.minExponent = -1074 := by decide
  have hprecision : double.precision - 1 = 52 := rfl
  have hsteps : 0 < (max double.minExponent (ratioLog2 a 1 - (double.precision - 1 : Nat)) -
      double.minExponent).toNat := by
    rw [ratioLog2_one h]
    omega
  have hpos := Nat.mul_pos hsteps (Format.binade_pos (f := double))
  have hinfinity : 0 < double.infinity := by decide
  simp only [Format.encodeRatio, if_neg h]
  omega

/-- The pattern of a whole number: its sign, and the pattern of its magnitude. -/
theorem toNat_toBits_whole (v : Int) : (whole v).toBits.toNat =
    (if v < 0 then double.signBit else 0) + double.encodeRatio v.natAbs 1 := by
  have hscale : scaleRatio 0 v.natAbs 1 = (v.natAbs, 1) := by simp [scaleRatio]
  rw [whole, toNat_toBits_toDouble (u := ofInt v) (by simp [ofInt])]
  simp only [Format.encode, ofInt, hscale, decide_eq_true_eq]

theorem whole_ne_nan (v : Int) : whole v ≠ Float.nan := by
  intro h
  have hle := Format.encodeRatio_le (f := double) v.natAbs 1
  have hbits := toNat_toBits_whole v
  have hinfinity := infinity_double
  have hsign := signBit_double
  have hnan : Float.nan.toBits.toNat = 4095 * 2 ^ 51 := by decide
  rw [h, hnan] at hbits
  split at hbits <;> omega

/-- A whole number never becomes a negative zero. -/
theorem plain_whole (v : Int) : plain (whole v) = whole v := by
  by_cases h : v = 0
  · subst h
    decide
  have hpos := encodeRatio_pos (Int.natAbs_ne_zero.2 h)
  have hle := Format.encodeRatio_le (f := double) v.natAbs 1
  have hbits := toNat_toBits_whole v
  have hinfinity := infinity_double
  have hsign := signBit_double
  have hzero : (0 : Float).toBits.toNat = 0 := by decide
  have hneg : (-0 : Float).toBits.toNat = 2 ^ 63 := by decide
  refine if_neg fun hbeq => ?_
  obtain ⟨-, -, h | ⟨h, -⟩ | ⟨h, -⟩⟩ := Float.beq_iff_ne_nan_and_eq.1 hbeq
  · rw [h, hzero] at hbits
    omega
  · rw [h, hzero] at hbits
    omega
  · rw [h, hneg] at hbits
    split at hbits <;> omega

/-- Whole numbers of different signs are different 64-bit numbers. -/
theorem plain_whole_ne {v w : Int} (hv : v < 0) (hw : 0 ≤ w) :
    plain (whole v) ≠ plain (whole w) := by
  rw [plain_whole, plain_whole]
  intro h
  have hbits := congrArg (·.toBits.toNat) h
  simp only [toNat_toBits_whole, if_pos hv, if_neg hw.not_gt, zero_add] at hbits
  have hle := Format.encodeRatio_le (f := double) w.natAbs 1
  have hlt : double.infinity < double.signBit := by decide
  omega

end Scriptlet.Binary
