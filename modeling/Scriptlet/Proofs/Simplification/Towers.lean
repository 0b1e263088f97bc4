import Scriptlet.Proofs.Simplification.Trees

/-!
# Sums that are too great

Sums of constants are computed in floating point. A one that is doubled time and again
(`tower`) comes to an exact power of two, up to `2 ^ 53` (`simplifyWithin_tower`). One more
is too much: the sum is rounded back (`simplifyWithin_tallSum`), while the expression itself
only wraps around (`meaning_tallSum`).
-/

namespace Scriptlet

/-- An expression that is doubled so many times. -/
def tower (base : Expr) : Nat → Expr
  | 0 => base
  | k + 1 => .binary .add (tower base k) (tower base k) .int

/-- An expression that is doubled to the limit of what is exact, and one more of it. -/
def tallSum (base : Expr) : Expr := .binary .add (tower base 53) base .int

open Simplifier Expr

variable {catalog : Catalog} {n k : Nat} {a b c : Number} {l r base : Expr} {v : Int}

theorem node_add_numbers (catalog : Catalog) (n : Nat) (ha : a.onLadder) (hb : b.onLadder) :
    (standard catalog).node (n + 1) (.binary .add (.number a) (.number b) .int) =
      .ok (.number (.narrowest (a.toDouble + b.toDouble))) := by
  obtain ⟨_, -, _, rfl⟩ := Number.exists_of_onLadder ha
  obtain ⟨_, -, _, rfl⟩ := Number.exists_of_onLadder hb
  rfl

theorem simplifyWithin_add (ha : a.onLadder) (hb : b.onLadder)
    (hl : (standard catalog).simplifyWithin (n + 1) l = .ok (.number a))
    (hr : (standard catalog).simplifyWithin (n + 1) r = .ok (.number b)) :
    (standard catalog).simplifyWithin (n + 1) (.binary .add l r .int) =
      .ok (.number (.narrowest (a.toDouble + b.toDouble))) := by
  rw [← node_add_numbers catalog n ha hb]
  have hparts : (Expr.binary .add l r .int).mapChildrenM
      ((standard catalog).simplifyWithin (n + 1)) =
      .ok (.binary .add (.number a) (.number b) .int) :=
    mapChildrenM_eq_ok (.cons hl (.cons hr .nil)) rfl
  exact simplifyWithin_eq hparts

theorem mul_two_pow_add (v : Int) (k : Nat) : v * 2 ^ k + v * 2 ^ k = v * 2 ^ (k + 1) := by
  rw [pow_succ, ← mul_assoc, mul_two]

/-- Up to where floating-point numbers are exact, a tower on a one comes to a power of two. -/
theorem simplifyWithin_tower (hc : c.onLadder) (hval : c.toInt? = some v) (hv : v = 1 ∨ v = -1)
    (hbase : (standard catalog).simplifyWithin (n + 1) base = .ok (.number c)) (hk : k ≤ 53) :
    ∃ d : Number, d.onLadder ∧ d.toInt? = some (v * 2 ^ k) ∧
      (standard catalog).simplifyWithin (n + 1) (tower base k) = .ok (.number d) := by
  induction k with
  | zero => exact ⟨c, hc, by rw [hval, pow_zero, mul_one], hbase⟩
  | succ k ih =>
    obtain ⟨d, hd, hval, hsimple⟩ := ih (by omega)
    have hsum := mul_two_pow_add v k
    have hbound : ∀ i ≤ 53, (v * 2 ^ i).natAbs ≤ 2 ^ 53 := by
      intro i hi
      have hone : v.natAbs = 1 := by omega
      rw [Int.natAbs_mul, hone, one_mul, Int.natAbs_pow]
      exact Nat.pow_le_pow_right (by decide) hi
    obtain ⟨j, hj, hholds, heq⟩ := Number.narrowest_add hval hval (hbound k (by omega))
      (hbound k (by omega)) (by rw [hsum]; exact hbound (k + 1) hk)
    rw [hsum] at hholds heq
    refine ⟨.ofInt j (v * 2 ^ (k + 1)), by simpa [Number.onLadder, Number.ofInt] using hj,
      Number.toInt?_ofInt hholds, ?_⟩
    rw [← heq]
    exact simplifyWithin_add hd hd hsimple hsimple

theorem simplifyWithin_tallSum (hc : c.onLadder) (hval : c.toInt? = some v) (hv : v = 1 ∨ v = -1)
    (hbase : (standard catalog).simplifyWithin (n + 1) base = .ok (.number c)) :
    (standard catalog).simplifyWithin (n + 1) (tallSum base) =
      .ok (.number (.ofInt .long (v * 2 ^ 53))) := by
  obtain ⟨d, hd, hval', hsimple⟩ := simplifyWithin_tower hc hval hv hbase (le_refl 53)
  have hnarrow : Number.narrowest (Binary.whole (v * 2 ^ 53) + Binary.whole v) =
      .ofInt .long (v * 2 ^ 53) := by
    rcases hv with rfl | rfl <;> with_unfolding_all rfl
  rw [← hnarrow, ← Number.toDouble_eq_whole hval', ← Number.toDouble_eq_whole hval]
  exact simplifyWithin_add hd hc hsimple hbase

theorem meaning_tower (hbase : ∀ ρ, base.meaning ρ = (BitVec.ofInt 32 v, ρ)) (k : Nat)
    (ρ : Env) : (tower base k).meaning ρ = (BitVec.ofInt 32 (v * 2 ^ k), ρ) := by
  induction k with
  | zero => rw [pow_zero, mul_one]; exact hbase ρ
  | succ k ih =>
    rw [tower, meaning_add, Meaning.bind_of_eq _ ih, Meaning.bind_of_eq _ ih, ← BitVec.ofInt_add,
      mul_two_pow_add]
    rfl

theorem meaning_tallSum (hbase : ∀ ρ, base.meaning ρ = (BitVec.ofInt 32 v, ρ)) (ρ : Env) :
    (tallSum base).meaning ρ = (BitVec.ofInt 32 v, ρ) := by
  rw [tallSum, meaning_add, Meaning.bind_of_eq _ (meaning_tower hbase 53 ρ),
    Meaning.bind_of_eq _ (hbase ρ), BitVec.ofInt_mul]
  -- the power of two is beyond the thirty-two digits
  have hpow : BitVec.ofInt 32 (2 ^ 53) = 0 := by decide
  rw [hpow, mul_zero, zero_add]
  rfl

/-- What holds of the base and of sums holds of a tower. -/
theorem tower_induction {P : Expr → Prop} (hbase : P base)
    (hadd : ∀ l r, P l → P r → P (.binary .add l r .int)) (k : Nat) : P (tower base k) := by
  induction k with
  | zero => exact hbase
  | succ k ih => exact hadd _ _ ih ih

end Scriptlet
