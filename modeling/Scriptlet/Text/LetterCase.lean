import Scriptlet.Text.Cased

/-!
# Upper and lower case

The case maps of single letters. Most letters map to the letter a fixed
distance away; neighbouring letters with the same distance share one row of a
table, either every letter of a run or every second one (where the two cases
alternate). A few letters map to more than one letter, such as `ß`, whose upper
case is `SS`; those stand in a list of their own.

A text is mapped letter by letter. Only the sigma looks at the letters around it:
its lower case at the end of a word is `ς`.
-/

namespace Scriptlet.Text

/-- The letters `first`, `first + step`, …, of which there are `count`, map to the letter
    `shift` code points away. -/
structure CaseRow where
  first : Nat
  count : Nat
  step : Nat
  shift : Int

/-- Does the row speak about the letter `code`? -/
def CaseRow.covers (row : CaseRow) (code : Nat) : Bool :=
  row.first ≤ code && code < row.first + row.count * row.step && (code - row.first) % row.step == 0

/-- The row that leads back. -/
def CaseRow.inverse (row : CaseRow) : CaseRow :=
  { row with first := (row.first + row.shift).toNat, shift := -row.shift }

/-- The rows that take lower case to upper case, and back. -/
def casePairs : List CaseRow :=
  [⟨0xe0, 23, 1, -32⟩, ⟨0xf8, 7, 1, -32⟩, ⟨0xff, 1, 1, 121⟩, ⟨0x101, 24, 2, -1⟩, ⟨0x133, 3, 2, -1⟩,
   ⟨0x13a, 8, 2, -1⟩, ⟨0x14b, 23, 2, -1⟩, ⟨0x17a, 3, 2, -1⟩, ⟨0x180, 1, 1, 195⟩, ⟨0x183, 2, 2, -1⟩,
   ⟨0x188, 1, 1, -1⟩, ⟨0x18c, 1, 1, -1⟩, ⟨0x192, 1, 1, -1⟩, ⟨0x195, 1, 1, 97⟩, ⟨0x199, 1, 1, -1⟩,
   ⟨0x19a, 1, 1, 163⟩, ⟨0x19e, 1, 1, 130⟩, ⟨0x1a1, 3, 2, -1⟩, ⟨0x1a8, 1, 1, -1⟩, ⟨0x1ad, 1, 1, -1⟩,
   ⟨0x1b0, 1, 1, -1⟩, ⟨0x1b4, 2, 2, -1⟩, ⟨0x1b9, 1, 1, -1⟩, ⟨0x1bd, 1, 1, -1⟩, ⟨0x1bf, 1, 1, 56⟩,
   ⟨0x1c6, 1, 1, -2⟩, ⟨0x1c9, 1, 1, -2⟩, ⟨0x1cc, 1, 1, -2⟩, ⟨0x1ce, 8, 2, -1⟩, ⟨0x1dd, 1, 1, -79⟩,
   ⟨0x1df, 9, 2, -1⟩, ⟨0x1f3, 1, 1, -2⟩, ⟨0x1f5, 1, 1, -1⟩, ⟨0x1f9, 20, 2, -1⟩, ⟨0x223, 9, 2, -1⟩,
   ⟨0x23c, 1, 1, -1⟩, ⟨0x23f, 2, 1, 10815⟩, ⟨0x242, 1, 1, -1⟩, ⟨0x247, 5, 2, -1⟩,
   ⟨0x250, 1, 1, 10783⟩, ⟨0x251, 1, 1, 10780⟩, ⟨0x252, 1, 1, 10782⟩, ⟨0x253, 1, 1, -210⟩,
   ⟨0x254, 1, 1, -206⟩, ⟨0x256, 2, 1, -205⟩, ⟨0x259, 1, 1, -202⟩, ⟨0x25b, 1, 1, -203⟩,
   ⟨0x25c, 1, 1, 42319⟩, ⟨0x260, 1, 1, -205⟩, ⟨0x261, 1, 1, 42315⟩, ⟨0x263, 1, 1, -207⟩,
   ⟨0x265, 1, 1, 42280⟩, ⟨0x266, 1, 1, 42308⟩, ⟨0x268, 1, 1, -209⟩, ⟨0x269, 1, 1, -211⟩,
   ⟨0x26a, 1, 1, 42308⟩, ⟨0x26b, 1, 1, 10743⟩, ⟨0x26c, 1, 1, 42305⟩, ⟨0x26f, 1, 1, -211⟩,
   ⟨0x271, 1, 1, 10749⟩, ⟨0x272, 1, 1, -213⟩, ⟨0x275, 1, 1, -214⟩, ⟨0x27d, 1, 1, 10727⟩,
   ⟨0x280, 1, 1, -218⟩, ⟨0x282, 1, 1, 42307⟩, ⟨0x283, 1, 1, -218⟩, ⟨0x287, 1, 1, 42282⟩,
   ⟨0x288, 1, 1, -218⟩, ⟨0x289, 1, 1, -69⟩, ⟨0x28a, 2, 1, -217⟩, ⟨0x28c, 1, 1, -71⟩,
   ⟨0x292, 1, 1, -219⟩, ⟨0x29d, 1, 1, 42261⟩, ⟨0x29e, 1, 1, 42258⟩, ⟨0x371, 2, 2, -1⟩,
   ⟨0x377, 1, 1, -1⟩, ⟨0x37b, 3, 1, 130⟩, ⟨0x3ac, 1, 1, -38⟩, ⟨0x3ad, 3, 1, -37⟩,
   ⟨0x3b1, 17, 1, -32⟩, ⟨0x3c3, 9, 1, -32⟩, ⟨0x3cc, 1, 1, -64⟩, ⟨0x3cd, 2, 1, -63⟩,
   ⟨0x3d7, 1, 1, -8⟩, ⟨0x3d9, 12, 2, -1⟩, ⟨0x3f2, 1, 1, 7⟩, ⟨0x3f3, 1, 1, -116⟩, ⟨0x3f8, 1, 1, -1⟩,
   ⟨0x3fb, 1, 1, -1⟩, ⟨0x430, 32, 1, -32⟩, ⟨0x450, 16, 1, -80⟩, ⟨0x461, 17, 2, -1⟩,
   ⟨0x48b, 27, 2, -1⟩, ⟨0x4c2, 7, 2, -1⟩, ⟨0x4cf, 1, 1, -15⟩, ⟨0x4d1, 48, 2, -1⟩,
   ⟨0x561, 38, 1, -48⟩, ⟨0x10d0, 43, 1, 3008⟩, ⟨0x10fd, 3, 1, 3008⟩, ⟨0x13f8, 6, 1, -8⟩,
   ⟨0x1d79, 1, 1, 35332⟩, ⟨0x1d7d, 1, 1, 3814⟩, ⟨0x1d8e, 1, 1, 35384⟩, ⟨0x1e01, 75, 2, -1⟩,
   ⟨0x1ea1, 48, 2, -1⟩, ⟨0x1f00, 8, 1, 8⟩, ⟨0x1f10, 6, 1, 8⟩, ⟨0x1f20, 8, 1, 8⟩, ⟨0x1f30, 8, 1, 8⟩,
   ⟨0x1f40, 6, 1, 8⟩, ⟨0x1f51, 4, 2, 8⟩, ⟨0x1f60, 8, 1, 8⟩, ⟨0x1f70, 2, 1, 74⟩, ⟨0x1f72, 4, 1, 86⟩,
   ⟨0x1f76, 2, 1, 100⟩, ⟨0x1f78, 2, 1, 128⟩, ⟨0x1f7a, 2, 1, 112⟩, ⟨0x1f7c, 2, 1, 126⟩,
   ⟨0x1fb0, 2, 1, 8⟩, ⟨0x1fd0, 2, 1, 8⟩, ⟨0x1fe0, 2, 1, 8⟩, ⟨0x1fe5, 1, 1, 7⟩, ⟨0x214e, 1, 1, -28⟩,
   ⟨0x2170, 16, 1, -16⟩, ⟨0x2184, 1, 1, -1⟩, ⟨0x24d0, 26, 1, -26⟩, ⟨0x2c30, 48, 1, -48⟩,
   ⟨0x2c61, 1, 1, -1⟩, ⟨0x2c65, 1, 1, -10795⟩, ⟨0x2c66, 1, 1, -10792⟩, ⟨0x2c68, 3, 2, -1⟩,
   ⟨0x2c73, 1, 1, -1⟩, ⟨0x2c76, 1, 1, -1⟩, ⟨0x2c81, 50, 2, -1⟩, ⟨0x2cec, 2, 2, -1⟩,
   ⟨0x2cf3, 1, 1, -1⟩, ⟨0x2d00, 38, 1, -7264⟩, ⟨0x2d27, 1, 1, -7264⟩, ⟨0x2d2d, 1, 1, -7264⟩,
   ⟨0xa641, 23, 2, -1⟩, ⟨0xa681, 14, 2, -1⟩, ⟨0xa723, 7, 2, -1⟩, ⟨0xa733, 31, 2, -1⟩,
   ⟨0xa77a, 2, 2, -1⟩, ⟨0xa77f, 5, 2, -1⟩, ⟨0xa78c, 1, 1, -1⟩, ⟨0xa791, 2, 2, -1⟩,
   ⟨0xa794, 1, 1, 48⟩, ⟨0xa797, 10, 2, -1⟩, ⟨0xa7b5, 8, 2, -1⟩, ⟨0xa7c8, 2, 2, -1⟩,
   ⟨0xa7d1, 1, 1, -1⟩, ⟨0xa7d7, 2, 2, -1⟩, ⟨0xa7f6, 1, 1, -1⟩, ⟨0xab53, 1, 1, -928⟩,
   ⟨0xab70, 80, 1, -38864⟩, ⟨0xff41, 26, 1, -32⟩, ⟨0x10428, 40, 1, -40⟩, ⟨0x104d8, 36, 1, -40⟩,
   ⟨0x10597, 11, 1, -39⟩, ⟨0x105a3, 15, 1, -39⟩, ⟨0x105b3, 7, 1, -39⟩, ⟨0x105bb, 2, 1, -39⟩,
   ⟨0x10cc0, 51, 1, -64⟩, ⟨0x118c0, 32, 1, -32⟩, ⟨0x16e60, 32, 1, -32⟩, ⟨0x1e922, 34, 1, -34⟩]

/-- The rows that take lower case to upper case: those that lead back, and others. -/
def upperRows : List CaseRow := casePairs ++
  [⟨0xb5, 1, 1, 743⟩, ⟨0x131, 1, 1, -232⟩, ⟨0x17f, 1, 1, -300⟩, ⟨0x1c5, 1, 1, -1⟩,
   ⟨0x1c8, 1, 1, -1⟩, ⟨0x1cb, 1, 1, -1⟩, ⟨0x1f2, 1, 1, -1⟩, ⟨0x345, 1, 1, 84⟩, ⟨0x3c2, 1, 1, -31⟩,
   ⟨0x3d0, 1, 1, -62⟩, ⟨0x3d1, 1, 1, -57⟩, ⟨0x3d5, 1, 1, -47⟩, ⟨0x3d6, 1, 1, -54⟩,
   ⟨0x3f0, 1, 1, -86⟩, ⟨0x3f1, 1, 1, -80⟩, ⟨0x3f5, 1, 1, -96⟩, ⟨0x1c80, 1, 1, -6254⟩,
   ⟨0x1c81, 1, 1, -6253⟩, ⟨0x1c82, 1, 1, -6244⟩, ⟨0x1c83, 2, 1, -6242⟩, ⟨0x1c85, 1, 1, -6243⟩,
   ⟨0x1c86, 1, 1, -6236⟩, ⟨0x1c87, 1, 1, -6181⟩, ⟨0x1c88, 1, 1, 35266⟩, ⟨0x1e9b, 1, 1, -59⟩,
   ⟨0x1fbe, 1, 1, -7205⟩]

/-- Eight letters with an iota below them, which stands behind their capitals. -/
def withIota (first capital : Nat) : List (Nat × List Nat) :=
  (List.range 8).map fun i => (first + i, [capital + i, 0x399])

/-- The letters whose upper case is several letters. -/
def upperExpansions : List (Nat × List Nat) :=
  withIota 0x1f80 0x1f08 ++ withIota 0x1f88 0x1f08 ++ withIota 0x1f90 0x1f28 ++
  withIota 0x1f98 0x1f28 ++ withIota 0x1fa0 0x1f68 ++ withIota 0x1fa8 0x1f68 ++
  [(0xdf, [0x53, 0x53]), (0x149, [0x2bc, 0x4e]), (0x1f0, [0x4a, 0x30c]),
   (0x390, [0x399, 0x308, 0x301]), (0x3b0, [0x3a5, 0x308, 0x301]), (0x587, [0x535, 0x552]),
   (0x1e96, [0x48, 0x331]), (0x1e97, [0x54, 0x308]), (0x1e98, [0x57, 0x30a]),
   (0x1e99, [0x59, 0x30a]), (0x1e9a, [0x41, 0x2be]), (0x1f50, [0x3a5, 0x313]),
   (0x1f52, [0x3a5, 0x313, 0x300]), (0x1f54, [0x3a5, 0x313, 0x301]),
   (0x1f56, [0x3a5, 0x313, 0x342]), (0x1fb2, [0x1fba, 0x399]), (0x1fb3, [0x391, 0x399]),
   (0x1fb4, [0x386, 0x399]), (0x1fb6, [0x391, 0x342]), (0x1fb7, [0x391, 0x342, 0x399]),
   (0x1fbc, [0x391, 0x399]), (0x1fc2, [0x1fca, 0x399]), (0x1fc3, [0x397, 0x399]),
   (0x1fc4, [0x389, 0x399]), (0x1fc6, [0x397, 0x342]), (0x1fc7, [0x397, 0x342, 0x399]),
   (0x1fcc, [0x397, 0x399]), (0x1fd2, [0x399, 0x308, 0x300]), (0x1fd3, [0x399, 0x308, 0x301]),
   (0x1fd6, [0x399, 0x342]), (0x1fd7, [0x399, 0x308, 0x342]), (0x1fe2, [0x3a5, 0x308, 0x300]),
   (0x1fe3, [0x3a5, 0x308, 0x301]), (0x1fe4, [0x3a1, 0x313]), (0x1fe6, [0x3a5, 0x342]),
   (0x1fe7, [0x3a5, 0x308, 0x342]), (0x1ff2, [0x1ffa, 0x399]), (0x1ff3, [0x3a9, 0x399]),
   (0x1ff4, [0x38f, 0x399]), (0x1ff6, [0x3a9, 0x342]), (0x1ff7, [0x3a9, 0x342, 0x399]),
   (0x1ffc, [0x3a9, 0x399]), (0xfb00, [0x46, 0x46]), (0xfb01, [0x46, 0x49]),
   (0xfb02, [0x46, 0x4c]), (0xfb03, [0x46, 0x46, 0x49]), (0xfb04, [0x46, 0x46, 0x4c]),
   (0xfb05, [0x53, 0x54]), (0xfb06, [0x53, 0x54]), (0xfb13, [0x544, 0x546]),
   (0xfb14, [0x544, 0x535]), (0xfb15, [0x544, 0x53b]), (0xfb16, [0x54e, 0x546]),
   (0xfb17, [0x544, 0x53d])]

/-- The rows that take upper case to lower case. -/
def lowerRows : List CaseRow := casePairs.map CaseRow.inverse ++
  [⟨0x1c5, 1, 1, 1⟩, ⟨0x1c8, 1, 1, 1⟩, ⟨0x1cb, 1, 1, 1⟩, ⟨0x1f2, 1, 1, 1⟩, ⟨0x3f4, 1, 1, -60⟩,
   ⟨0x1e9e, 1, 1, -7615⟩, ⟨0x1f88, 8, 1, -8⟩, ⟨0x1f98, 8, 1, -8⟩, ⟨0x1fa8, 8, 1, -8⟩,
   ⟨0x1fbc, 1, 1, -9⟩, ⟨0x1fcc, 1, 1, -9⟩, ⟨0x1ffc, 1, 1, -9⟩, ⟨0x2126, 1, 1, -7517⟩,
   ⟨0x212a, 1, 1, -8383⟩, ⟨0x212b, 1, 1, -8262⟩]

/-- The letters whose lower case is several letters. -/
def lowerExpansions : List (Nat × List Nat) :=
  [(0x130, [0x69, 0x307])]

/-- A letter mapped by rows and expansions; a letter that neither mentions
    stays. -/
def mapCase (rows : List CaseRow) (expansions : List (Nat × List Nat)) (c : Char) : List Char :=
  match expansions.lookup c.toNat with
  | some codes => codes.map Char.ofNat
  | none =>
    match rows.find? (·.covers c.toNat) with
    | some row => [Char.ofNat (c.toNat + row.shift).toNat]
    | none => [c]

/-- The upper case of a letter. -/
def upperOf (c : Char) : List Char :=
  if c.toNat < 0x80 then [c.toUpper] else mapCase upperRows upperExpansions c

/-- The lower case of a letter. -/
def lowerOf (c : Char) : List Char :=
  if c.toNat < 0x80 then [c.toLower] else mapCase lowerRows lowerExpansions c

/-- A text in upper case. -/
def toUpper (s : String) : String := String.ofList (s.toList.flatMap upperOf)

/-- The lower case of characters that stand behind `before`, the nearest of which comes
    first. -/
def lowerAfter (before : List Char) : List Char → List Char
  | [] => []
  | c :: rest =>
    let lower := if c = 'Σ' ∧ endsWord before rest then ['ς'] else lowerOf c
    lower ++ lowerAfter (c :: before) rest

/-- A text in lower case. -/
def toLower (s : String) : String := String.ofList (lowerAfter [] s.toList)

/-- Equality of two texts up to the case of the letters `A` to `Z`. -/
def eqIgnoringCase (s t : String) : Bool :=
  s.toList.map Char.toLower == t.toList.map Char.toLower

example : lowerAfter [] ['Σ', 'Α', 'Σ'] = ['σ', 'α', 'ς'] := by decide
example : upperOf 'é' = ['É'] ∧ lowerOf 'É' = ['é'] ∧ upperOf 'ß' = ['S', 'S'] := by decide

end Scriptlet.Text
