import Scriptlet.Proofs.Binary.Patterns
import Scriptlet.Proofs.Number.Integral
import Scriptlet.Expr.Printer

/-!
# Equality across kinds

Two numbers are compared in the first kind that has both (`Number.equivalent`). What is
kept on the way there is the number as a 64-bit one, without the sign of zero (`plain`):
by a conversion that loses nothing (`Number.plain_of_lossless`) as by the comparison in one
kind (`Number.beq_of_identical`). So numbers that are equal across kinds are written in the
same way (`Number.canonical_of_equivalent`).

The converse fails, since 64 bits do not tell all whole numbers apart. But for numbers of
integral kinds equality across kinds is equality of whole numbers (`Number.equivalent_iff`).
It is decided in an integral kind unless one of the numbers is negative and the other one
too large for `long`; then no kind takes them for equal.
-/

namespace Scriptlet

open Binary

namespace IntKind

/-- The widest kinds have all numbers: `long` the negative ones and `ulong` all others. -/
theorem holds_widest {k : IntKind} {v : Int} (h : k.holds v) :
    (if v < 0 then long else ulong).holds v := by
  rw [holds_iff] at h
  split <;> rw [holds_iff] <;> cases k <;>
    simp [least, greatest, signed, width] at h ⊢ <;> omega

end IntKind

namespace Number

variable {a b : Number}

theorem compareDouble_eq {x y : Float} (h : compareDouble x y = some .eq) : (x == y) = true := by
  unfold compareDouble at h
  split_ifs at h with hlt hbeq hgt
  · cases h
  · exact hbeq
  · cases h

theorem integral_eq_ofInt (k : IntKind) (bits : BitVec k.width) :
    integral k bits = ofInt k (k.value bits) := by
  rw [ofInt, IntKind.ofInt_value]

/-- A 32-bit number is packed anew before it is compared, which changes nothing as long as
    it is a number. -/
theorem toSingle_of_widen_ne_nan {x : Float32} (h : widen (ofSingle x).toSingle ≠ Float.nan) :
    (ofSingle x).toSingle = x := by
  refine toSingle_ofSingle fun hnan => h ?_
  rw [hnan]
  decide

theorem toInt?_of_identical (h : a.identical b) : a.toInt? = b.toInt? := by
  have hkind : a.kind = b.kind := by
    simp only [identical, Bool.and_eq_true, beq_iff_eq] at h
    exact h.1
  cases a with
  | integral k x =>
    cases b with
    | integral k' y =>
      obtain rfl : k = k' := by simpa [kind] using hkind
      rw [integral_eq_ofInt, integral_eq_ofInt k y] at h
      exact congrArg some (eq_of_identical (IntKind.holds_value x) (IntKind.holds_value y) h)
    | _ => cases hkind
  | _ => cases b with
    | integral k y => cases hkind
    | _ => rfl

/-- Numbers of one kind that compare as equal are equal as 64-bit numbers. -/
theorem beq_of_identical (h : a.identical b) : (a.toDouble == b.toDouble) = true := by
  have heq := toInt?_of_identical h
  simp only [identical, Bool.and_eq_true, beq_iff_eq] at h
  obtain ⟨hkind, hcompare⟩ := h
  cases a with
  | integral k x =>
    rw [toDouble_eq_whole rfl, toDouble_eq_whole heq.symm]
    exact Float.beq_self_iff.2 (whole_ne_nan _)
  | float x =>
    cases b with
    | float y =>
      have hbeq : (widen (ofSingle x).toSingle == widen (ofSingle y).toSingle) = true :=
        compareDouble_eq hcompare
      obtain ⟨hx, hy, -⟩ := Float.beq_iff_ne_nan_and_eq.1 hbeq
      rwa [toSingle_of_widen_ne_nan hx, toSingle_of_widen_ne_nan hy] at hbeq
    | _ => cases hkind
  | double x =>
    cases b with
    | double y => exact compareDouble_eq hcompare
    | _ => cases hkind
  | decimal x =>
    cases b with
    | decimal y => exact compareDouble_eq hcompare
    | _ => cases hkind

theorem toDouble_unpack (h : a.toInt? = none) (hnan : a.unpack ≠ .nan) :
    a.unpack.toDouble = a.toDouble := by
  cases a with
  | integral k x => cases h
  | float x => rfl
  | double x | decimal x => exact toDouble_ofDouble hnan

/-- A number that survives a conversion is the same 64-bit number, but for the sign of
    zero. -/
theorem plain_of_lossless {k : NumericKind} {n : Number} (h : a.lossless? k = some n)
    (hn : n.toDouble ≠ Float.nan) : plain a.toDouble = plain n.toDouble := by
  rw [lossless?, Option.ite_none_right_eq_some, Option.some.injEq] at h
  obtain ⟨hsurvives, rfl⟩ := h
  generalize a.convert k = n at *
  unfold survives at hsurvives
  split at hsurvives
  next v w hv hw =>
    rw [toDouble_eq_whole hv, toDouble_eq_whole hw, eq_of_beq hsurvives]
  next v hv hw =>
    have hvalue : n.unpack.toInt? = some v := eq_of_beq hsurvives
    rw [toDouble_eq_whole hv, ← plain_toDouble hvalue, toDouble_unpack hw]
    intro hnan
    rw [hnan] at hvalue
    cases hvalue
  next hv =>
    rw [Float.isNaN_eq_decide_eq_nan, Float.isNaN_eq_decide_eq_nan, decide_eq_false hn] at hsurvives
    split at hsurvives
    · cases hsurvives
    · exact plain_eq_of_beq hsurvives

theorem plain_of_equivalentIn {ks : List NumericKind} (h : equivalentIn a b ks) :
    plain a.toDouble = plain b.toDouble := by
  induction ks with
  | nil => exact plain_eq_of_beq (beq_of_identical h)
  | cons k ks ih =>
    rw [equivalentIn] at h
    split at h
    next x y hx hy =>
      have hbeq := beq_of_identical h
      obtain ⟨hx', hy', -⟩ := Float.beq_iff_ne_nan_and_eq.1 hbeq
      rw [plain_of_lossless hx hx', plain_of_lossless hy hy', plain_eq_of_beq hbeq]
    next => exact ih h

/-- Numbers that are equal across kinds have one canonical text. -/
theorem canonical_of_equivalent (h : a.equivalent b) : a.canonical = b.canonical :=
  congrArg (fun x => String.ofList (doubleText .plain x)) (plain_of_equivalentIn h)

/-! ## Integral kinds -/

/-- Numbers of integral kinds are equal across kinds if they are one whole number. -/
theorem equivalent_iff {v w : Int} (ha : a.toInt? = some v) (hb : b.toInt? = some w) :
    a.equivalent b ↔ v = w := by
  constructor
  · intro h
    have hplain : plain (Binary.whole v) = plain (Binary.whole w) := by
      rw [← toDouble_eq_whole ha, ← toDouble_eq_whole hb]
      exact plain_of_equivalentIn h
    obtain ⟨_, hv⟩ := exists_of_toInt? ha
    obtain ⟨_, hw⟩ := exists_of_toInt? hb
    have hv := IntKind.holds_widest hv
    have hw := IntKind.holds_widest hw
    -- a negative number and one that is not are told apart by every kind
    split at hv <;> split at hw
    · exact eq_of_equivalent ha hb hv hw h
    · exact absurd hplain (plain_whole_ne ‹_› (by omega))
    · exact absurd hplain.symm (plain_whole_ne ‹_› (by omega))
    · exact eq_of_equivalentIn ha hb hv hw [.byte, .short, .ushort, .int, .uint, .long] h
  · rintro rfl
    exact equivalent_of_toInt? ha hb

end Number

end Scriptlet
