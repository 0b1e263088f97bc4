import Mathlib.Algebra.Group.Nat.Defs
import Mathlib.Data.Int.Order.Basic
import Mathlib.Data.List.Forall2
import Mathlib.Data.List.Lex
import Scriptlet.Evaluation.Evaluate

/-!
# Places in arrays

The items of an array stand in the order of their indices, the last of which counts up first. So
the place of an item is a number whose digits are its indices, each in the base of its dimension
(`ArrayData.offset`). A slot is found for exactly the indices that are within the dimensions, and it
is this number (`slot_eq_ok_iff`). Numbers with as many places are in the order of their digits, and
all that are less than the product of the bases can be written (`slot_rowMajor`).
-/

namespace Scriptlet.ArrayData

variable {dims : List Nat} {is js : List Int} {n : Nat}

/-- One index for each dimension, and within it. -/
def Within (dims : List Nat) (is : List Int) : Prop :=
  List.Forall₂ (fun (dim : Nat) (i : Int) => 0 ≤ i ∧ i < dim) dims is

/-- The number that has the indices as digits. -/
def offset : List Nat → List Int → Nat
  | _ :: dims, i :: is => i.toNat * dims.prod + offset dims is
  | _, _ => 0

theorem place?_eq_some_iff (first : Nat) (h : is.length = dims.length) :
    place? first dims is = some n ↔ Within dims is ∧ n = first * dims.prod + offset dims is := by
  induction dims generalizing first is with
  | nil =>
    obtain rfl := List.eq_nil_of_length_eq_zero h
    simp [place?, Within, offset, eq_comm]
  | cons dim dims ih =>
    obtain ⟨i, is, rfl⟩ := List.exists_cons_of_length_eq_add_one h
    rw [place?, Within, List.forall₂_cons]
    by_cases hi : 0 ≤ i ∧ i < dim
    · rw [if_pos hi, ih _ (Nat.succ.inj h), List.prod_cons, offset, Nat.add_mul, Nat.mul_assoc,
        Nat.add_assoc, and_iff_right hi, Within]
    · simp [hi]

/-- A slot is found for indices within the dimensions. -/
theorem slot_eq_ok_iff (a : ArrayData) :
    a.slot is = .ok n ↔ Within a.dims is ∧ n = offset a.dims is := by
  rw [slot]
  by_cases h : is.length = a.dims.length
  · have hplace := fun m => place?_eq_some_iff (n := m) 0 h
    simp only [Nat.zero_mul, Nat.zero_add] at hplace
    rw [if_neg (not_not.2 h), ← hplace]
    cases place? 0 a.dims is with
    | none => exact ⟨nofun, nofun⟩
    | some m => exact ⟨fun heq => congrArg some (Except.ok.inj heq), fun heq =>
        congrArg Except.ok (Option.some.inj heq)⟩
  · rw [if_pos h]
    exact ⟨nofun, fun hwithin => absurd hwithin.1.length_eq.symm h⟩

/-! ## Digits -/

/-- A greater digit outweighs all the digits behind it. -/
theorem add_lt_of_digit_lt {p i j o : Nat} (h : i < j) (ho : o < p) : i * p + o < j * p :=
  calc i * p + o
    _ < (i + 1) * p := by rw [Nat.succ_mul]; exact Nat.add_lt_add_left ho _
    _ ≤ j * p := Nat.mul_le_mul_right _ h

theorem Within.offset_lt (h : Within dims is) : offset dims is < dims.prod := by
  induction h with
  | nil => exact Nat.one_pos
  | cons hi _ ih =>
    rw [List.prod_cons]
    exact add_lt_of_digit_lt (by omega) ih

/-- Numbers are in the order of their digits. -/
theorem Within.offset_lt_offset_iff (h : Within dims is) (h' : Within dims js) :
    offset dims is < offset dims js ↔ is < js := by
  induction h generalizing js with
  | nil =>
    cases h'
    simp [offset]
  | @cons dim i dims is hi hrest ih =>
    cases h' with
    | @cons _ j _ js hj hrest' =>
      rw [offset, offset, List.cons_lt_cons_iff]
      have hdigit {i j : Int} {is js : List Int} (hi : 0 ≤ i) (h : i < j) (his : Within dims is) :
          i.toNat * dims.prod + offset dims is < j.toNat * dims.prod + offset dims js :=
        (add_lt_of_digit_lt (by omega) his.offset_lt).trans_le (Nat.le_add_right _ _)
      rcases lt_trichotomy i j with hlt | rfl | hgt
      · exact iff_of_true (hdigit hi.1 hlt hrest) (.inl hlt)
      · simp [ih hrest']
      · refine iff_of_false (hdigit hj.1 hgt hrest').not_gt ?_
        rintro (h | ⟨rfl, -⟩)
        · exact hgt.not_gt h
        · exact lt_irrefl _ hgt

theorem exists_of_lt_prod (h : n < dims.prod) : ∃ is, Within dims is ∧ offset dims is = n := by
  induction dims generalizing n with
  | nil => exact ⟨[], .nil, by simpa [offset, eq_comm] using h⟩
  | cons dim dims ih =>
    rw [List.prod_cons] at h
    have hpos : 0 < dims.prod := Nat.pos_of_mul_pos_left (Nat.zero_lt_of_lt h)
    have hdigit : n / dims.prod < dim := (Nat.div_lt_iff_lt_mul hpos).2 h
    obtain ⟨is, his, hoffset⟩ := ih (Nat.mod_lt n hpos)
    refine ⟨(n / dims.prod : Nat) :: is, .cons ⟨Int.natCast_nonneg _, Int.ofNat_lt.2 hdigit⟩ his, ?_⟩
    rw [offset, hoffset, Int.toNat_natCast, Nat.div_add_mod']

end Scriptlet.ArrayData
