import Scriptlet.Text.Property

/-!
# Cutting and searching texts

Trimming, splitting, searching and replacing, over texts as lists of
characters. White space is the property of `Text.Property`.

An empty text occurs everywhere: `find?` finds it at the front, and replacing
it inserts the replacement around every character.
-/

namespace Scriptlet.Text

/-- A text without the white space at its front. -/
def trimStart (s : List Char) : List Char := s.dropWhile isBlank

/-- A text without the white space at its end. -/
def trimEnd (s : List Char) : List Char := (s.reverse.dropWhile isBlank).reverse

/-- A text without the white space around it. -/
def trim (s : List Char) : List Char := trimEnd (trimStart s)

/-- The rest of `s` after the front `front`, if it starts so. -/
def strip? : (front s : List Char) → Option (List Char)
  | [], s => some s
  | _ :: _, [] => none
  | f :: front, c :: s => if f = c then strip? front s else none

theorem strip?_eq_some {front s rest : List Char} (h : strip? front s = some rest) :
    s = front ++ rest := by
  fun_induction strip? front s <;> grind

/-- Does `s` start with `front`? -/
def startsWith (front s : List Char) : Bool := (strip? front s).isSome

/-- Does `s` end with `back`? -/
def endsWith (back s : List Char) : Bool := startsWith back.reverse s.reverse

/-- The number of characters in front of the first occurrence of `needle`. -/
def find? (needle : List Char) : List Char → Option Nat
  | [] => if needle.isEmpty then some 0 else none
  | c :: s => if startsWith needle (c :: s) then some 0 else (find? needle s).map (· + 1)

/-- The parts of a text before and after its first `mark`. -/
def splitOnce? (mark : Char) : List Char → Option (List Char × List Char)
  | [] => none
  | c :: s => if c = mark then some ([], s) else (splitOnce? mark s).map fun (a, b) => (c :: a, b)

/-- The parts of a text between the characters that satisfy `mark`. -/
def splitAll (mark : Char → Bool) : List Char → List (List Char)
  | [] => [[]]
  | c :: s =>
    if mark c then [] :: splitAll mark s
    else match splitAll mark s with
      | part :: parts => (c :: part) :: parts
      | [] => [[c]]

/-- Every occurrence of `old` (not empty) replaced, from the front on; `skip`
    characters still belong to the occurrence replaced last. -/
def replaceFrom (old new : List Char) : Nat → List Char → List Char
  | _, [] => []
  | skip + 1, _ :: s => replaceFrom old new skip s
  | 0, c :: s =>
    if startsWith old (c :: s) then new ++ replaceFrom old new (old.length - 1) s
    else c :: replaceFrom old new 0 s

/-- Every occurrence of `old` replaced by `new`. -/
def replace (old new s : List Char) : List Char :=
  if old.isEmpty then new ++ s.flatMap fun c => c :: new else replaceFrom old new 0 s

/-- A text with blanks, or another filler, in front up to a width. -/
def padFront (width : Nat) (filler : Char) (s : List Char) : List Char :=
  List.replicate (width - s.length) filler ++ s

/-- A text with a filler behind up to a width. -/
def padBack (width : Nat) (filler : Char) (s : List Char) : List Char :=
  s ++ List.replicate (width - s.length) filler

/-! ## Whole numbers -/

/-- The value of a decimal digit. -/
def digit? (c : Char) : Option Nat :=
  if '0' ≤ c ∧ c ≤ '9' then some (c.toNat - '0'.toNat) else none

/-- The value of a digit in a base up to sixteen, in either case. -/
def digitIn? (base : Nat) (c : Char) : Option Nat :=
  let value? : Option Nat :=
    if '0' ≤ c ∧ c ≤ '9' then some (c.toNat - '0'.toNat)
    else if 'a' ≤ c ∧ c ≤ 'f' then some (c.toNat - 'a'.toNat + 10)
    else if 'A' ≤ c ∧ c ≤ 'F' then some (c.toNat - 'A'.toNat + 10)
    else none
  value?.filter (· < base)

/-- The value of digits in a base, read after digits of value `value`. -/
def readDigits (base : Nat) : (value : Nat) → List Char → Option Nat
  | value, [] => some value
  | value, c :: s =>
    match digitIn? base c with
    | some d => readDigits base (base * value + d) s
    | none => none

/-- A natural number in a base: at least one digit and nothing else. -/
def readNatIn? (base : Nat) (s : List Char) : Option Nat :=
  if s.isEmpty then none else readDigits base 0 s

/-- A decimal natural number, with an optional plus sign. -/
def readNat? : List Char → Option Nat
  | '+' :: s => readNatIn? 10 s
  | s => readNatIn? 10 s

/-- A decimal whole number with an optional sign. -/
def readInt? : List Char → Option Int
  | '-' :: s => (readNatIn? 10 s).map fun n => -(n : Int)
  | s => (readNat? s).map fun n => (n : Int)

/-- A decimal whole number with an optional sign, between two bounds. -/
def readIntWithin? (lo hi : Int) (s : List Char) : Option Int :=
  (readInt? s).filter fun n => lo ≤ n && n ≤ hi

/-- The decimal digits of a natural number. -/
def natDigits (n : Nat) : List Char := Nat.toDigits 10 n

/-- The decimal text of a whole number. -/
def intDigits (n : Int) : List Char :=
  if n < 0 then '-' :: natDigits n.natAbs else natDigits n.natAbs

/-- The decimal text of a natural number. -/
def showNat (n : Nat) : String := String.ofList (natDigits n)

/-- The decimal text of a whole number. -/
def showInt (n : Int) : String := String.ofList (intDigits n)

example : replace ['a', 'a'] ['b'] ['a', 'a', 'a', 'c'] = ['b', 'a', 'c'] := by decide
example : splitOnce? ':' ['a', ':', 'b', ':'] = some (['a'], ['b', ':']) := by decide

end Scriptlet.Text
