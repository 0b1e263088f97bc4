import Scriptlet.Proofs.Number.Equality
import Scriptlet.Proofs.Number.Folding

/-!
# What numbers denote

A number of any kind denotes a rational number or an infinity (`Number.value?`), unless it is
none at all. Nothing is lost when a 32-bit number becomes a 64-bit one (`value?_widen`), and
64-bit numbers that are equal denote the same (`value?_eq_of_beq`).

A conversion is taken to lose nothing if the number and what it is converted to are the same as
64-bit numbers. For a floating number that is too large for an integral kind this is a comparison
with the greatest number of the kind, rounded to 64 bits; and the greatest numbers of `long` and
`ulong` are rounded up, to the next power of two (`Number.Overshoots`). With this exception,

* `Number.value?_of_lossless`: a conversion that loses nothing keeps what is denoted;
* `Number.value?_of_equivalent`: numbers that are equal across kinds denote the same.

Integral numbers are compared as the whole numbers they are, except that a negative number beside
an `ulong` wraps around (`Number.equivalent_iff_and_compare`).
-/

namespace Scriptlet

open Binary

/-- A rational number or an infinity. -/
inductive Quantity
  | infinite (negative : Bool)
  | finite (value : ℚ)
  deriving DecidableEq

namespace Binary

/-- What a datum denotes. -/
def Unpacked.value? : Unpacked → Option Quantity
  | nan => none
  | infinite negative => some (.infinite negative)
  | finite negative m e => some (.finite ((if negative then -1 else 1) * m * 2 ^ e))

namespace Unpacked

theorem value?_shift (negative : Bool) (m d : Nat) (e : Int) :
    value? (finite negative (m * 2 ^ d) e) = value? (finite negative m (e + d)) := by
  simp only [value?, Option.some.injEq, Quantity.finite.injEq]
  rw [zpow_add₀ (by norm_num), zpow_natCast]
  push_cast
  ring

/-- A datum that is a whole number denotes that number. -/
theorem value?_of_toInt? {u : Unpacked} {v : Int} (h : u.toInt? = some v) :
    u.value? = some (.finite v) := by
  cases u with
  | finite negative m e =>
    simp only [toInt?] at h
    split at h
    case isFalse => cases h
    case isTrue hmod =>
      have hvalue : (m : ℚ) * 2 ^ e = ((scaleRatio e m 1).1 / (scaleRatio e m 1).2 : Nat) := by
        obtain ⟨k, rfl | rfl⟩ := e.eq_nat_or_neg
        · simp [scaleRatio_natCast]
        · rw [scaleRatio_neg_natCast, one_mul] at hmod ⊢
          rw [Nat.cast_div (Nat.dvd_of_mod_eq_zero hmod) (by positivity), zpow_neg, div_eq_mul_inv]
          simp
      generalize (scaleRatio e m 1).1 / (scaleRatio e m 1).2 = q at h hvalue
      rw [value?, mul_assoc, hvalue, ← Option.some.inj h]
      cases negative <;> simp
  | _ => cases h

end Unpacked

/-- Equal 64-bit numbers denote the same. -/
theorem value?_eq_of_beq {x y : Float} (h : (x == y) = true) :
    (ofDouble x).value? = (ofDouble y).value? := by
  have hzero : (ofDouble 0).value? = some (.finite 0) :=
    Unpacked.value?_of_toInt? (v := 0) (by decide +kernel)
  have hneg : (ofDouble (-0)).value? = some (.finite 0) :=
    Unpacked.value?_of_toInt? (v := 0) (by decide +kernel)
  obtain ⟨-, -, rfl | ⟨rfl, rfl⟩ | ⟨rfl, rfl⟩⟩ := Float.beq_iff_ne_nan_and_eq.1 h
  · rfl
  · rw [hzero, hneg]
  · rw [hzero, hneg]

/-- Nothing is lost when a 32-bit number becomes a 64-bit one. -/
theorem value?_widen (x : Float32) : (ofDouble (widen x)).value? = (ofSingle x).value? := by
  rw [widen]
  cases hu : ofSingle x with
  | nan => decide
  | infinite negative => cases negative <;> decide
  | finite negative m e =>
    rw [ofDouble, toNat_toBits_toDouble (by simp)]
    obtain ⟨hm, hmin, hmax⟩ := Format.bounds_of_decode hu
    have hsingle : single.binade = 2 ^ 23 ∧ 2 ^ single.exponentBits = 256 := ⟨rfl, rfl⟩
    have hdouble : double.binade = 2 ^ 52 := rfl
    have hleast : single.minExponent = -149 ∧ double.minExponent = -1074 := by decide
    have hinfinity := infinity_double
    by_cases h0 : m = 0
    · have hencode : double.encode (.finite negative m e) =
          if negative then double.signBit else 0 := by
        simp [Format.encode, Format.encodeRatio, h0, scaleRatio, apply_ite Prod.fst]
      have hdecode : double.decode (if negative then double.signBit else 0) =
          .finite negative 0 (-1074) := by
        cases negative <;> decide
      rw [hencode, hdecode, h0]
      simp [Unpacked.value?]
    · -- zeros are put behind the significand until it is full
      have hlog : m.log2 ≤ 23 := Nat.lt_succ_iff.1 ((Nat.log2_lt h0).2 (by omega))
      obtain ⟨d, hd⟩ : ∃ d, m.log2 + d = 52 := ⟨52 - m.log2, by omega⟩
      have hfull : 2 ^ 52 ≤ m * 2 ^ d ∧ m * 2 ^ d < 2 ^ 53 := by
        refine (Nat.log2_eq_iff (by positivity)).1 ?_
        rw [log2_mul_two_pow h0, hd]
      obtain ⟨e, rfl⟩ : ∃ e', e = e' + d := ⟨e - d, by omega⟩
      have hlt : (e - double.minExponent).toNat * double.binade + m * 2 ^ d < double.infinity := by
        rw [hinfinity, hdouble]
        omega
      rw [← Format.encode_shift, ← Unpacked.value?_shift,
        Format.encode_exact _ (by omega) (by omega) (.inl (by omega)), Nat.min_eq_right hlt.le,
        Format.decode_exact _ (by omega) (by omega) hlt]

/-- A datum with a significand of fifty-three digits is cut off to a small number, unless it is
    whole. -/
theorem Unpacked.natAbs_lt_of_truncate? {negative : Bool} {m : Nat} {e t : Int} (hm : m < 2 ^ 53)
    (h : (finite negative m e).truncate? = some t) :
    t.natAbs < 2 ^ 53 ∨ (finite negative m e).toInt? = some t := by
  obtain ⟨k, rfl | rfl⟩ := e.eq_nat_or_neg
  · right
    simpa [truncate?, toInt?, scaleRatio_natCast, Nat.mod_one] using h
  · left
    simp only [truncate?, scaleRatio_neg_natCast, one_mul, Option.some.injEq] at h
    have hle := Nat.div_le_self m (2 ^ k)
    generalize m / 2 ^ k = q at h hle
    split at h <;> omega

end Binary

namespace IntKind

variable {k : IntKind}

theorem holds_clampTo (k : IntKind) (u : Unpacked) : k.holds (u.clampTo k.least k.greatest) := by
  have hzero : k.least ≤ 0 ∧ 0 ≤ k.greatest := by cases k <;> decide
  rw [holds_iff]
  cases u with
  | nan => exact hzero
  | infinite negative => cases negative <;> simp [Unpacked.clampTo] <;> omega
  | finite negative m e => simp only [Unpacked.clampTo, Unpacked.truncate?]; omega

/-- The kind that two kinds are brought to has the numbers of the first, except that `ulong` has
    no negative ones. -/
theorem holds_promote_of_nonneg {i j : IntKind} {v : Int} (hv : i.holds v)
    (h : j = .ulong → 0 ≤ v) : (i.promote j).holds v := by
  rcases promote_bounds i j with hulong | ⟨hleast, hgreatest⟩
  · rw [hulong]
    rcases eq_ulong_of_promote hulong with rfl | hj
    · exact hv
    · have hwidest := holds_widest hv
      rwa [if_neg (h hj).not_gt] at hwidest
  · rw [holds_iff] at hv ⊢
    exact ⟨hleast.trans hv.1, hv.2.trans hgreatest⟩

/-- The greatest number of the widest kinds is rounded up, and the least one is not rounded. -/
theorem toInt?_whole_bounds (hk : k = .long ∨ k = .ulong) :
    (ofDouble (whole k.greatest)).toInt? = some (k.greatest + 1) ∧
      (ofDouble (whole k.least)).toInt? = some k.least := by
  rcases hk with rfl | rfl <;> decide +kernel

end IntKind

namespace Number

variable {a b n : Number} {v : Int} {k : IntKind}

/-- What a number denotes. -/
def value? (n : Number) : Option Quantity := n.unpack.value?

theorem value?_of_toInt? (h : n.toInt? = some v) : n.value? = some (.finite v) := by
  cases n with
  | integral k bits =>
    obtain rfl : k.value bits = v := Option.some.inj h
    rcases lt_or_ge (k.value bits) 0 with hneg | hpos
    · simp [value?, unpack, Binary.ofInt, Unpacked.value?, hneg, abs_of_neg]
    · simp [value?, unpack, Binary.ofInt, Unpacked.value?, hpos.not_gt, abs_of_nonneg hpos]
  | _ => cases h

/-- A floating number denotes the same as the 64-bit number that it is compared as. -/
theorem value?_toDouble (h : n.toInt? = none) : (ofDouble n.toDouble).value? = n.value? := by
  cases n with
  | integral k bits => cases h
  | float x => exact value?_widen x
  | double x => rfl
  | decimal x => rfl

theorem significand_lt {negative : Bool} {m : Nat} {e : Int} (h : n.toInt? = none)
    (hn : n.unpack = .finite negative m e) : m < 2 ^ 53 := by
  cases n with
  | integral k bits => cases h
  | float x => exact (Format.bounds_of_decode hn).1.trans (by decide)
  | double x | decimal x => exact (Format.bounds_of_decode hn).1

/-! ## Conversions that lose nothing -/

/-- A floating number that is one more than the greatest number of a kind, where the kind has more
    digits than a 64-bit number. -/
def Overshoots (k : IntKind) (n : Number) : Prop :=
  n.toInt? = none ∧ (k = .long ∨ k = .ulong) ∧ n.value? = some (.finite (k.greatest + 1))

/-- A floating number that equals, as a 64-bit number, what it is cut off to. -/
theorem value?_of_beq (ha : a.toInt? = none) (hvalue : a.value? ≠ none)
    (hv : a.unpack.clampTo k.least k.greatest = v) (h : (a.toDouble == Binary.whole v) = true) :
    a.value? = some (.finite v) ∨ a.Overshoots k := by
  have hwhole : a.value? = (ofDouble (Binary.whole v)).value? := by
    rw [← value?_toDouble ha, value?_eq_of_beq h]
  by_cases hsmall : v.natAbs ≤ 2 ^ 53
  · left
    rw [hwhole, Unpacked.value?_of_toInt? (ofDouble_whole hsmall)]
  have hk : k = .long ∨ k = .ulong := by
    have hholds := IntKind.holds_clampTo k a.unpack
    rw [hv, IntKind.holds_iff] at hholds
    cases k <;> simp [IntKind.least, IntKind.greatest, IntKind.signed, IntKind.width] at hholds ⊢ <;>
      omega
  obtain ⟨hgreatest, hleast⟩ := IntKind.toInt?_whole_bounds hk
  -- beyond the bounds of the kind, what counts is how the bound is rounded
  have hover (h : v = k.greatest) : a.Overshoots k := by
    refine ⟨ha, hk, ?_⟩
    rw [hwhole, h, Unpacked.value?_of_toInt? hgreatest]
    norm_cast
  have hunder (h : v = k.least) : a.value? = some (.finite v) := by
    rw [hwhole, h, Unpacked.value?_of_toInt? hleast]
  cases hu : a.unpack with
  | nan => exact absurd (by rw [value?, hu]; rfl) hvalue
  | infinite negative =>
    rw [hu] at hv
    cases negative with
    | false => exact .inr (hover hv.symm)
    | true => exact .inl (hunder hv.symm)
  | finite negative m e =>
    rw [hu] at hv
    have hlt := significand_lt ha hu
    obtain ⟨t, ht⟩ : ∃ t, (Unpacked.finite negative m e).truncate? = some t := ⟨_, rfl⟩
    simp only [Unpacked.clampTo, ht] at hv
    rcases (by omega : v = k.greatest ∨ v = k.least ∨ v = t) with h | h | rfl
    · exact .inr (hover h)
    · exact .inl (hunder h)
    · left
      rw [value?, hu]
      refine Unpacked.value?_of_toInt? ?_
      exact (Unpacked.natAbs_lt_of_truncate? hlt ht).resolve_left (by omega)

theorem beq_of_survives (ha : a.toInt? = none) (hvalue : a.value? ≠ none) (h : a.survives n) :
    (a.toDouble == n.toDouble) = true := by
  have hnan : a.toDouble ≠ Float.nan := by
    intro hnan
    refine hvalue ?_
    rw [← value?_toDouble ha, hnan]
    decide
  simpa [survives, ha, hnan] using h

/-- A conversion that loses nothing keeps what is denoted, but for one number in each of the two
    widest kinds. -/
theorem value?_of_lossless {k : NumericKind} (ha : a.value? ≠ none) (h : a.lossless? k = some n) :
    n.kind = k ∧ (n.value? = a.value? ↔ ∀ j, k = .integral j → ¬a.Overshoots j) := by
  rw [lossless?, Option.ite_none_right_eq_some, Option.some.injEq] at h
  obtain ⟨hsurvives, rfl⟩ := h
  refine ⟨kind_convert a k, ?_⟩
  cases hu : a.toInt? with
  | some u =>
    have hkeeps : (a.convert k).value? = some (.finite u) := by
      cases hw : (a.convert k).toInt? with
      | some w =>
        have heq : u = w := by simpa [survives, hu, hw] using hsurvives
        rw [value?_of_toInt? hw, heq]
      | none =>
        refine Unpacked.value?_of_toInt? ?_
        simpa [survives, hu, hw] using hsurvives
    refine iff_of_true (by rw [hkeeps, value?_of_toInt? hu]) fun j _ hover => ?_
    rw [hover.1] at hu
    cases hu
  | none =>
    have hbeq := beq_of_survives hu ha hsurvives
    cases k with
    | floating f =>
      have hnone : (a.convert (.floating f)).toInt? = none := by cases f <;> rfl
      refine iff_of_true ?_ fun j hj => by cases hj
      rw [← value?_toDouble hnone, ← value?_toDouble hu, value?_eq_of_beq hbeq]
    | integral j =>
      have hholds := IntKind.holds_clampTo j a.unpack
      generalize hv : a.unpack.clampTo j.least j.greatest = v at hholds
      have hconvert : (a.convert (.integral j)).toInt? = some v := by
        rw [← toInt?_ofInt hholds, ← hv]
        simp [convert, bitsIn, hu, ofInt]
      rw [toDouble_eq_whole hconvert] at hbeq
      rw [value?_of_toInt? hconvert]
      constructor
      · rintro heq _ ⟨⟩ hover
        rw [hover.2.2] at heq
        have hle := (IntKind.holds_iff.1 hholds).2
        simp at heq
        norm_cast at heq
        omega
      · intro hno
        exact ((value?_of_beq hu ha hv hbeq).resolve_right (hno j rfl)).symm

/-! ## Equality and order -/

theorem value?_of_identical (h : a.identical b) : a.value? = b.value? := by
  have heq := toInt?_of_identical h
  cases ha : a.toInt? with
  | some v => rw [value?_of_toInt? ha, value?_of_toInt? (heq.symm.trans ha)]
  | none =>
    rw [← value?_toDouble ha, ← value?_toDouble (heq.symm.trans ha),
      value?_eq_of_beq (beq_of_identical h)]

/-- Numbers that are equal across kinds denote the same, unless one of them is the exception. -/
theorem value?_of_equivalentIn {ks : List NumericKind} (ha : a.value? ≠ none) (hb : b.value? ≠ none)
    (hno : ∀ j, ¬a.Overshoots j ∧ ¬b.Overshoots j) (h : equivalentIn a b ks) :
    a.value? = b.value? := by
  induction ks with
  | nil => exact value?_of_identical h
  | cons k ks ih =>
    rw [equivalentIn] at h
    split at h
    next x y hx hy =>
      have hax := (value?_of_lossless ha hx).2.2 fun j _ => (hno j).1
      have hby := (value?_of_lossless hb hy).2.2 fun j _ => (hno j).2
      rw [← hax, ← hby, value?_of_identical h]
    next => exact ih h

/-- Numbers that are equal across kinds denote the same, if none of them overshoots. -/
theorem value?_of_equivalent (ha : a.value? ≠ none) (hb : b.value? ≠ none)
    (hno : ∀ j, ¬a.Overshoots j ∧ ¬b.Overshoots j) (h : a.equivalent b) : a.value? = b.value? :=
  value?_of_equivalentIn ha hb hno h

/-- Integral numbers are equal across kinds if they are one whole number, and they are ordered as
    whole numbers, unless a negative one is brought to `ulong`. -/
theorem equivalent_iff_and_compare {v w : Int} (ha : a.toInt? = some v) (hb : b.toInt? = some w) :
    (a.equivalent b ↔ v = w) ∧
      (¬(a.kind = .ulong ∧ w < 0 ∨ b.kind = .ulong ∧ v < 0) →
        a.compare b = some (Ord.compare v w)) := by
  refine ⟨equivalent_iff ha hb, fun hsigns => ?_⟩
  cases a with
  | integral i x =>
    cases b with
    | integral j y =>
      obtain rfl : i.value x = v := Option.some.inj ha
      obtain rfl : j.value y = w := Option.some.inj hb
      have hx : (i.promote j).holds (i.value x) := by
        refine IntKind.holds_promote_of_nonneg (IntKind.holds_value x) ?_
        rintro rfl
        exact not_lt.1 fun hneg => hsigns (.inr ⟨rfl, hneg⟩)
      have hy : (i.promote j).holds (j.value y) := by
        rw [IntKind.promote_comm]
        refine IntKind.holds_promote_of_nonneg (IntKind.holds_value y) ?_
        rintro rfl
        exact not_lt.1 fun hneg => hsigns (.inl ⟨rfl, hneg⟩)
      exact Stands.compare_eq rfl rfl rfl rfl hx hy
    | _ => cases hb
  | _ => cases ha

/-- The greatest `uint` and `-1` have the same 32 bits, and are neither equal nor in the wrong
    order. -/
theorem equivalent_iff_and_compare_uint :
    ((integral .uint (-1)).equivalent (integral .int (-1)) ↔ (4294967295 : Int) = -1) ∧
      (integral .uint (-1)).compare (integral .int (-1)) = some .gt := by
  have h := equivalent_iff_and_compare (a := integral .uint (-1)) (b := integral .int (-1))
    (v := 4294967295) (w := -1) rfl rfl
  exact ⟨h.1, h.2 (by decide)⟩

end Number

end Scriptlet
