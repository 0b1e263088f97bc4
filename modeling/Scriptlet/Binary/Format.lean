/-!
# Binary floating-point formats

A floating-point number is a significand times a power of two. This module
takes the bit patterns of the two interchange formats apart into such numbers
(`Format.decode`) and rounds an exact ratio to the nearest bit pattern
(`Format.encodeRatio`): to nearest, a tie to the even pattern, overflow to
infinity.

Patterns of one sign are ordered like the numbers they stand for, and a step
from one pattern to the next is a step to the next number, also across a change
of exponent. Packing is therefore plain addition: the pattern of
`significand · 2 ^ exponent` is `significand` plus one binade for every step of
the exponent above the least one, and a significand that rounds up to the next
power of two carries into the exponent by itself.
-/

namespace Scriptlet.Binary

/-- A floating-point datum taken apart: `finite s m e` is `m · 2 ^ e`, negated if
    `s`. -/
inductive Unpacked
  | nan
  | infinite (negative : Bool)
  | finite (negative : Bool) (significand : Nat) (exponent : Int)
  deriving DecidableEq, Repr

/-- An interchange format: the number of binary digits of a significand and the
    number of bits of the exponent field. -/
structure Format where
  precision : Nat
  exponentBits : Nat
  deriving DecidableEq, Repr

/-- The 64-bit format. -/
def double : Format := ⟨53, 11⟩

/-- The 32-bit format. -/
def single : Format := ⟨24, 8⟩

namespace Format

variable (f : Format)

/-- The least exponent of a significand. -/
def minExponent : Int := 3 - (Nat.pow 2 (f.exponentBits - 1) : Nat) - f.precision

/-- The number of patterns that share one exponent. -/
def binade : Nat := Nat.pow 2 (f.precision - 1)

/-- The pattern of positive infinity, above those of all finite numbers. -/
def infinity : Nat := (Nat.pow 2 f.exponentBits - 1) * f.binade

/-- The pattern of the sign. -/
def signBit : Nat := Nat.pow 2 f.exponentBits * f.binade

/-- The number a pattern stands for. -/
def decode (bits : Nat) : Unpacked :=
  let negative := f.signBit ≤ bits
  let rest := bits % f.signBit
  let field := rest / f.binade
  let fraction := rest % f.binade
  if rest = f.infinity then .infinite negative
  else if f.infinity < rest then .nan
  else if field = 0 then .finite negative fraction f.minExponent
  else .finite negative (f.binade + fraction) (f.minExponent + field - 1)

end Format

/-! ## Rounding -/

/-- The whole number nearest to `num / den`, a tie to the even one. -/
def roundDiv (num den : Nat) : Nat :=
  let q := num / den
  let r := num % den
  if 2 * r < den then q
  else if den < 2 * r then q + 1
  else q + q % 2

/-- A power of two times a ratio, as a ratio. -/
def scaleRatio (e : Int) (num den : Nat) : Nat × Nat :=
  if 0 ≤ e then (num * Nat.pow 2 e.toNat, den) else (num, den * Nat.pow 2 (-e).toNat)

/-- The greatest `e` with `2 ^ e ≤ num / den`, for a positive ratio. -/
def ratioLog2 (num den : Nat) : Int :=
  let e : Int := (num.log2 : Int) - den.log2
  let (a, b) := scaleRatio (-e) num den
  if b ≤ a then e else e - 1

/-- The pattern of the positive number nearest to `num / den`. -/
def Format.encodeRatio (f : Format) (num den : Nat) : Nat :=
  if num = 0 then 0 else
    let e := max f.minExponent (ratioLog2 num den - (f.precision - 1 : Nat))
    let (a, b) := scaleRatio (-e) num den
    min f.infinity ((e - f.minExponent).toNat * f.binade + roundDiv a b)

/-- The pattern of a datum, rounded where the format cannot hold it. -/
def Format.encode (f : Format) : Unpacked → Nat
  | .nan => f.infinity + f.binade / 2
  | .infinite negative => (if negative then f.signBit else 0) + f.infinity
  | .finite negative significand exponent =>
    let (num, den) := scaleRatio exponent significand 1
    (if negative then f.signBit else 0) + f.encodeRatio num den

/-! ## The two formats -/

/-- A 64-bit number taken apart. -/
def ofDouble (x : Float) : Unpacked := double.decode x.toBits.toNat

/-- A 32-bit number taken apart. -/
def ofSingle (x : Float32) : Unpacked := single.decode x.toBits.toNat

/-- The nearest 64-bit number. -/
def Unpacked.toDouble (u : Unpacked) : Float := Float.ofBits (UInt64.ofNat (double.encode u))

/-- The nearest 32-bit number. -/
def Unpacked.toSingle (u : Unpacked) : Float32 := Float32.ofBits (UInt32.ofNat (single.encode u))

/-- A 32-bit number as a 64-bit one; nothing is lost. -/
def widen (x : Float32) : Float := (ofSingle x).toDouble

/-- A 64-bit number as the nearest 32-bit one. -/
def narrow (x : Float) : Float32 := (ofDouble x).toSingle

/-- A whole number taken apart. -/
def ofInt (n : Int) : Unpacked := .finite (n < 0) n.natAbs 0

namespace Unpacked

/-- The whole number next to a finite datum in the direction of zero. -/
def truncate? : Unpacked → Option Int
  | finite negative significand exponent =>
    let (num, den) := scaleRatio exponent significand 1
    let size := num / den
    some (if negative then -(size : Int) else size)
  | _ => none

/-- The whole number a finite datum is, if it is one. -/
def toInt? : Unpacked → Option Int
  | finite negative significand exponent =>
    let (num, den) := scaleRatio exponent significand 1
    if num % den = 0 then some (if negative then -((num / den : Nat) : Int) else (num / den : Nat))
    else none
  | _ => none

/-- The whole number between `lo` and `hi` that a datum is cut off to: toward
    zero, and to the nearer bound outside of them. What is not a number goes to
    zero. -/
def clampTo (lo hi : Int) (u : Unpacked) : Int :=
  match u with
  | nan => 0
  | infinite negative => if negative then lo else hi
  | finite .. =>
    match u.truncate? with
    | some n => max lo (min hi n)
    | none => 0

/-- The remainder of a division with a quotient cut off toward zero. It is
    exact, and has the sign of the dividend. -/
def remainder : Unpacked → Unpacked → Unpacked
  | finite negative m e, finite _ n g =>
    if n = 0 then nan else
      let least := min e g
      let units (n : Nat) (e : Int) : Nat := n * Nat.pow 2 (e - least).toNat
      finite negative (units m e % units n g) least
  | finite negative m e, infinite _ => finite negative m e
  | _, _ => nan

end Unpacked

/-- The remainder of a division of 64-bit numbers. -/
def remDouble (x y : Float) : Float := ((ofDouble x).remainder (ofDouble y)).toDouble

/-- The remainder of a division of 32-bit numbers. -/
def remSingle (x y : Float32) : Float32 := ((ofSingle x).remainder (ofSingle y)).toSingle

/-- A 64-bit number cut off toward zero. -/
def truncate (x : Float) : Float := if x < 0 then x.ceil else x.floor

/-- The whole number nearest to `x`, a tie to the even one. -/
def roundHalfEven (x : Float) : Float :=
  let rounded := x.round
  if (x - truncate x).abs == 0.5 && remDouble rounded 2 != 0 then
    rounded - (if x < 0 then -1 else 1)
  else rounded

/-- A power with a natural exponent, by repeated squaring. -/
def powNat (x : Float) (n : Nat) : Float := go n x 1 64
where
  /-- One step for each binary digit of the exponent. -/
  go (n : Nat) (a r : Float) : Nat → Float
    | 0 => r
    | steps + 1 =>
      let r := if n % 2 = 1 then r * a else r
      if n / 2 = 0 then r else go (n / 2) (a * a) r steps

/-- A power with a whole exponent; a negative one divides at the end. -/
def powInt (x : Float) (n : Int) : Float :=
  if n < 0 then 1 / powNat x n.natAbs else powNat x n.natAbs

end Scriptlet.Binary
