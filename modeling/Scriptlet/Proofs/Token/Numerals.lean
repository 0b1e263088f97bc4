import Mathlib.Data.Nat.Digits.Defs
import Scriptlet.Proofs.Number.Integral
import Scriptlet.Proofs.Token.Constants

/-!
# Whole numbers as they are written

A whole number may be written in four bases, with zeros in front, letters of either case,
underscores between the digits, and letters for the kind behind (`WrittenInteger`).

In every base, the digits of a number are read as that number (`readDigits_toDigits`). So a written
number is one token, of the first kind that its letters leave and that has the number, and an error
if there is none (`isToken_writtenInteger`). The decimal digits of a number with the letters for its
kind, as they are printed, are written so (`exists_writtenInteger`), also where more text follows
(`Lexeme.fronts_number`).
-/

namespace Scriptlet

open Text

variable {b v : Nat} {c : Char} {s : List Char}

/-! ## Digits -/

/-- A digit of a base is a hexadecimal one that is small enough. -/
theorem digitIn?_eq_filter (hb : b ≤ 16) (c : Char) :
    digitIn? b c = (digitIn? 16 c).filter (· < b) := by
  rw [digitIn?, digitIn?, Option.filter_filter]
  congr 1
  funext d
  rw [Bool.eq_iff_iff]
  simp
  omega

theorem digitIn?_digitChar {d : Nat} (hd : d < b) (hb : b ≤ 16) :
    digitIn? b (Nat.digitChar d) = some d := by
  have hall : ∀ d ∈ List.range 16, digitIn? 16 (Nat.digitChar d) = some d := by decide
  rw [digitIn?_eq_filter hb, hall d (List.mem_range.2 (by omega))]
  simp [hd]

theorem isDigit_of_digitIn?_ten (h : (digitIn? 10 c).isSome) : c.isDigit = true := by
  by_contra hdigit
  have hc : ¬('0' ≤ c ∧ c ≤ '9') := by
    simp only [Char.isDigit, ge_iff_le, Bool.and_eq_true, decide_eq_true_eq] at hdigit
    exact hdigit
  rw [digitIn?, if_neg hc] at h
  split at h
  · simp at h
  · split at h <;> simp at h

/-- Only the letters from `A` to `Z` are not small. -/
theorem of_toLower_ne {P : Char → Prop} (hall : ∀ n ∈ List.range' 65 26, P (Char.ofNat n))
    (hc : c.toLower ≠ c) : P c := by
  rw [← Char.ofNat_toNat c]
  refine hall _ (List.mem_range'_1.2 ?_)
  unfold Char.toLower at hc
  split at hc
  · rename_i hupper
    simp only [ge_iff_le, UInt32.le_iff_toNat_le] at hupper
    exact ⟨hupper.1, Nat.lt_succ_of_le hupper.2⟩
  · exact absurd rfl hc

theorem eq_of_toLower {d : Char} (h : c.toLower = d) : c = d ∨ c = d.toUpper := by
  by_cases hc : c.toLower = c
  · exact .inl (hc.symm.trans h)
  · have := of_toLower_ne (P := fun c => c.toLower.toUpper = c) (by decide) hc
    exact .inr (h ▸ this.symm)

theorem digitIn?_toLower (hb : b ≤ 16) (c : Char) : digitIn? b c.toLower = digitIn? b c := by
  by_cases hc : c.toLower = c
  · rw [hc]
  · have := of_toLower_ne (P := fun c => digitIn? 16 c.toLower = digitIn? 16 c) (by decide) hc
    rw [digitIn?_eq_filter hb, this, ← digitIn?_eq_filter hb]

theorem readDigits_append (b a : Nat) (s t : List Char) :
    readDigits b a (s ++ t) = (readDigits b a s).bind (readDigits b · t) := by
  induction s generalizing a with
  | nil => rfl
  | cons c s ih =>
    rw [List.cons_append, readDigits, readDigits]
    cases digitIn? b c with
    | none => rfl
    | some d => exact ih _

/-- The digits of a natural number in a base are read as that number. -/
theorem readDigits_toDigits (hb : 1 < b) (hb' : b ≤ 16) (v : Nat) :
    readDigits b 0 (Nat.toDigits b v) = some v := by
  induction v using Nat.strongRecOn with
  | ind v ih =>
    rw [Nat.toDigits_eq_if hb]
    split
    case isTrue hv => simp [readDigits, digitIn?_digitChar hv hb']
    case isFalse hv =>
      have hmod : v % b < b := Nat.mod_lt v (by omega)
      rw [readDigits_append, ih (v / b) (Nat.div_lt_self (by omega) hb), Option.bind_some,
        readDigits, digitIn?_digitChar hmod hb']
      exact congrArg some (Nat.div_add_mod v b)

theorem readDigits_zeros (hb : 1 < b) (hb' : b ≤ 16) (zeros : Nat) (s : List Char) :
    readDigits b 0 (List.replicate zeros '0' ++ s) = readDigits b 0 s := by
  have hzero : digitIn? b '0' = some 0 := digitIn?_digitChar (d := 0) (by omega) hb'
  induction zeros with
  | zero => rfl
  | succ zeros ih =>
    rw [List.replicate_succ, List.cons_append, readDigits, hzero]
    exact ih

theorem readDigits_toLower (hb : b ≤ 16) (a : Nat) (s : List Char) :
    readDigits b a (s.map Char.toLower) = readDigits b a s := by
  induction s generalizing a with
  | nil => rfl
  | cons c s ih => simp only [List.map_cons, readDigits, digitIn?_toLower hb, ih]

theorem isSome_of_readDigits {a : Nat} (h : readDigits b a s = some v) :
    ∀ c ∈ s, (digitIn? b c).isSome := by
  induction s generalizing a with
  | nil => nofun
  | cons c s ih =>
    rw [readDigits] at h
    cases hc : digitIn? b c with
    | none => rw [hc] at h; cases h
    | some d =>
      rw [hc] at h
      exact List.forall_mem_cons.2 ⟨by rw [hc]; rfl, ih h⟩

theorem isDigit_natDigits (n : Nat) : ∀ c ∈ natDigits n, c.isDigit = true := fun _ h =>
  Nat.isDigit_of_mem_toDigits (by decide) (by decide) h

theorem readNatIn?_natDigits (n : Nat) : readNatIn? 10 (natDigits n) = some n := by
  rw [readNatIn?, if_neg (by simp [natDigits])]
  exact readDigits_toDigits (by decide) (by decide) n

/-! ## Written numbers -/

/-- The marks of the bases, in small letters. -/
def baseMarks : List (Nat × List Char) :=
  [(10, []), (16, ['0', 'x']), (8, ['0', 'o']), (2, ['0', 'b'])]

/-- The letters behind a number, small ones, and the kinds that they leave, narrow to wide. -/
def kindLetters : List (List Char × List IntKind) :=
  [([], [.int, .uint, .long, .ulong]), (['u'], [.uint, .ulong]), (['l'], [.long, .ulong]),
    (['u', 'l'], [.ulong]), (['l', 'u'], [.ulong])]

/-- A whole number as it may be written. -/
structure WrittenInteger where
  value : Nat
  base : Nat
  mark : List Char
  digits : List Char
  letters : List Char
  kinds : List IntKind
  isMark : (base, mark.map Char.toLower) ∈ baseMarks
  /-- Without underscores and capitals, the digits are those of the value, with zeros in front. -/
  renders : ∃ zeros, (digits.filter (· != '_')).map Char.toLower =
    List.replicate zeros '0' ++ Nat.toDigits base value
  /-- Without a mark, a digit comes first. -/
  starts : mark = [] → digits.head? ≠ some '_'
  isSuffix : (letters.map Char.toLower, kinds) ∈ kindLetters

/-- The characters that can stand behind an operand as it is printed. -/
def closers : List Char := [')', ' ']

/-- What can stand behind the digits of a number, be it its letters or not. -/
def followers : List Char := ['u', 'U', 'l', 'L'] ++ closers

theorem takeWhile_follow {p : Char → Bool} {ds follow : List Char} (hds : ∀ c ∈ ds, p c = true)
    (hfollow : ∀ c ∈ follow.head?, p c = false) : (ds ++ follow).takeWhile p = ds := by
  rw [List.takeWhile_append_of_pos hds]
  cases follow with
  | nil => simp
  | cons c follow => simp [hfollow c rfl]

/-- A digit or an underscore is no letter for a base. -/
theorem toLower_digit (h : (c.isDigit || c == '_') = true) : c.toLower ∉ ['x', 'b', 'o'] := by
  have hall : ∀ n ∈ 95 :: List.range' 48 10, (Char.ofNat n).toLower ∉ ['x', 'b', 'o'] := by decide
  have hmem : c.toNat ∈ 95 :: List.range' 48 10 := by
    rcases Bool.or_eq_true_iff.1 h with h | h
    · exact List.mem_cons_of_mem _ (toNat_mem_of_isDigit h)
    · rw [beq_iff_eq.1 h]
      exact List.mem_cons_self
  have := hall _ hmem
  rwa [Char.ofNat_toNat] at this

theorem baseOf?_none {cs : List Char} (h : ∀ d ∈ cs.head?, d.toLower ∉ ['x', 'b', 'o']) :
    baseOf? (c :: cs) = none := by
  unfold baseOf?
  split
  · rename_i d _ heq
    obtain ⟨-, rfl⟩ := List.cons.inj heq
    have := h d (by simp)
    split <;> simp_all
  · rfl

theorem integralLiteral?_kinds {s : Option Suffix} (hs : Suffix.kinds s ≠ []) (v : Nat) :
    integralLiteral? v s = ((Suffix.kinds s).find? (·.holds v)).map fun k => Number.ofInt k v := by
  unfold integralLiteral?
  split
  iterate 3 exact absurd rfl hs
  rfl

namespace WrittenInteger

variable (w : WrittenInteger) {rest : List Char}

def text : List Char := w.mark ++ (w.digits ++ w.letters)

/-- The first kind that the letters leave and that has the number. -/
def kind? : Option IntKind := w.kinds.find? (·.holds w.value)

/-- What is found where the number stands. -/
def finding (offset : Nat) : Finding :=
  match w.kind? with
  | some k => .ok (some (w.text.length, .number (.ofInt k w.value)))
  | none => .error (tooLarge offset (w.mark ++ w.digits))

/-! ### Their value -/

theorem base_bounds : 1 < w.base ∧ w.base ≤ 16 := by
  have hall : ∀ p ∈ baseMarks, 1 < p.1 ∧ p.1 ≤ 16 := by decide
  exact hall _ w.isMark

theorem readDigits_digits : readDigits w.base 0 (dropSeparators w.digits) = some w.value := by
  obtain ⟨hb, hb'⟩ := w.base_bounds
  obtain ⟨zeros, hzeros⟩ := w.renders
  rw [← readDigits_toLower hb', dropSeparators, hzeros, readDigits_zeros hb hb',
    readDigits_toDigits hb hb']

theorem isDigit_or (hc : c ∈ w.digits) : ((digitIn? w.base c).isSome || c == '_') = true := by
  by_cases h : c = '_'
  · simp [h]
  · have hmem : c ∈ dropSeparators w.digits := List.mem_filter.2 ⟨hc, by simpa using h⟩
    simp [isSome_of_readDigits w.readDigits_digits c hmem]

theorem dropSeparators_ne_nil : dropSeparators w.digits ≠ [] := by
  obtain ⟨zeros, hzeros⟩ := w.renders
  intro hnil
  rw [← dropSeparators, hnil] at hzeros
  exact Nat.toDigits_ne_nil (List.append_eq_nil_iff.1 hzeros.symm).2

theorem digits_ne_nil : w.digits ≠ [] := fun hnil => w.dropSeparators_ne_nil (by rw [hnil]; rfl)

theorem literalValue?_digits :
    literalValue? w.base w.digits = if w.value < literalLimit then some w.value else none := by
  rw [literalValue?, readNatIn?, if_neg (by simp [w.dropSeparators_ne_nil]), w.readDigits_digits]

theorem kinds_ne_nil : w.kinds ≠ [] := by
  have hall : ∀ p ∈ kindLetters, p.2 ≠ [] := by decide
  exact hall _ w.isSuffix

/-- The widest kind is left by all letters, so only the size of a number keeps it from a kind. -/
theorem kind?_eq_none_iff : w.kind? = none ↔ 2 ^ 64 ≤ w.value := by
  rw [kind?, List.find?_eq_none]
  constructor
  · intro h
    have hall : ∀ p ∈ kindLetters, IntKind.ulong ∈ p.2 := by decide
    have hlarge := h _ (hall _ w.isSuffix)
    have hgreatest : IntKind.ulong.greatest = 2 ^ 64 - 1 := rfl
    have hleast : IntKind.ulong.least = 0 := rfl
    rw [IntKind.holds_iff, hgreatest, hleast] at hlarge
    omega
  · intro h k _ hv
    have hgreatest : k.greatest < 2 ^ 64 := by cases k <;> decide
    rw [IntKind.holds_iff] at hv
    omega

theorem bind_literalValue? {s : Option Suffix} (hk : Suffix.kinds s = w.kinds) :
    (literalValue? w.base w.digits).bind (integralLiteral? · s) =
      w.kind?.map fun k => Number.ofInt k w.value := by
  rw [literalValue?_digits]
  split
  · rw [Option.bind_some, integralLiteral?_kinds (hk ▸ w.kinds_ne_nil), hk]
    rfl
  · rename_i hlarge
    have hlimit : 2 ^ 64 ≤ literalLimit := by decide
    rw [w.kind?_eq_none_iff.2 (hlimit.trans (Nat.not_lt.1 hlarge))]
    rfl

/-! ### Their parts -/

theorem head?_follow (hrest : ∀ c ∈ rest.head?, c ∈ closers) :
    ∀ c ∈ (w.letters ++ rest).head?, c ∈ followers := by
  intro c hc
  cases hl : w.letters with
  | nil =>
    rw [hl] at hc
    exact List.mem_append_right _ (hrest c hc)
  | cons d ds =>
    have hd : d.toLower = 'u' ∨ d.toLower = 'l' := by
      have := w.isSuffix
      simp only [hl, kindLetters, List.map_cons, List.mem_cons, Prod.mk.injEq, List.cons.injEq] at this
      tauto
    obtain rfl : d = c := by simpa [hl] using hc
    rcases hd with hd | hd <;> rcases eq_of_toLower hd with rfl | rfl <;> decide

/-- The letters are taken for a suffix that leaves their kinds. -/
theorem exists_suffix (hrest : ∀ c ∈ rest.head?, c ∈ closers) :
    ∃ s, Suffix.of? (w.letters ++ rest) = s ∧ Suffix.length s = w.letters.length ∧
      Suffix.kinds s = w.kinds := by
  have hlow : ((w.letters ++ rest).take 2).map Char.toLower =
      (w.letters.map Char.toLower ++ rest.map Char.toLower).take 2 := by
    rw [List.map_take, List.map_append]
  have hhead : rest.map Char.toLower = [] ∨
      ∃ cs, rest.map Char.toLower = ')' :: cs ∨ rest.map Char.toLower = ' ' :: cs := by
    cases rest with
    | nil => exact .inl rfl
    | cons c cs =>
      have hc := hrest c rfl
      simp only [closers, List.mem_cons, List.not_mem_nil, or_false] at hc
      exact .inr ⟨_, hc.imp (by rintro rfl; rfl) (by rintro rfl; rfl)⟩
  have hlength : (w.letters.map Char.toLower).length = w.letters.length := List.length_map _
  have hsuffix := w.isSuffix
  simp only [kindLetters, List.mem_cons, Prod.mk.injEq, List.not_mem_nil, or_false] at hsuffix
  rcases hsuffix with ⟨hl, hk⟩ | ⟨hl, hk⟩ | ⟨hl, hk⟩ | ⟨hl, hk⟩ | ⟨hl, hk⟩
  all_goals
    rw [hk, ← hlength, Suffix.of?, hlow, hl]
    rcases hhead with hr | ⟨cs, hr | hr⟩ <;> rw [hr] <;> exact ⟨_, rfl, rfl, rfl⟩

/-- The bases other than ten have a mark of two characters, by which they are told. -/
theorem mark_cases : w.base = 10 ∧ w.mark = [] ∨
    ∃ m, w.mark = ['0', m] ∧ ∀ cs, baseOf? ('0' :: m :: cs) = some w.base := by
  have hmark := w.isMark
  simp only [baseMarks, List.mem_cons, Prod.mk.injEq, List.map_eq_nil_iff, List.map_eq_cons_iff,
    List.not_mem_nil, or_false] at hmark
  rcases hmark with h | ⟨hb, z, _, hm, hz, m, _, rfl, hx, rfl⟩ |
    ⟨hb, z, _, hm, hz, m, _, rfl, hx, rfl⟩ | ⟨hb, z, _, hm, hz, m, _, rfl, hx, rfl⟩
  · exact .inl h
  all_goals
    obtain rfl : z = '0' := (eq_of_toLower hz).elim id id
    exact .inr ⟨m, hm, fun cs => by simp only [baseOf?, hx, hb]⟩

/-- Without a mark, the first character is a digit, and the others are digits and underscores. -/
theorem exists_cons_of_mark (hb : w.base = 10) (hmark : w.mark = []) :
    ∃ c cs, w.digits = c :: cs ∧ c.isDigit = true ∧
      ∀ d ∈ w.digits, (d.isDigit || d == '_') = true := by
  obtain ⟨c, cs, hcs⟩ := List.exists_cons_of_ne_nil w.digits_ne_nil
  have hall : ∀ d ∈ w.digits, (d.isDigit || d == '_') = true := fun d hd => by
    have hd := w.isDigit_or hd
    rw [hb, Bool.or_eq_true_iff] at hd
    rw [Bool.or_eq_true_iff]
    exact hd.imp_left isDigit_of_digitIn?_ten
  have hne : c ≠ '_' := by simpa [hcs] using w.starts hmark
  exact ⟨c, cs, hcs, by simpa [hne] using hall c (by simp [hcs]), hall⟩

theorem exists_cons : ∃ c cs, w.text = c :: cs ∧ c.isDigit = true := by
  rcases w.mark_cases with ⟨hb, hmark⟩ | ⟨m, hmark, -⟩
  · obtain ⟨c, cs, hcs, hc, -⟩ := w.exists_cons_of_mark hb hmark
    exact ⟨c, cs ++ w.letters, by rw [text, hmark, hcs]; rfl, hc⟩
  · exact ⟨'0', m :: (w.digits ++ w.letters), by rw [text, hmark]; rfl, rfl⟩

/-! ### Reading them -/

theorem readBased_text (offset : Nat) (hmark : w.mark.length = 2)
    (hrest : ∀ c ∈ rest.head?, c ∈ closers) :
    readBased offset w.base (w.text ++ rest) = w.finding offset := by
  obtain ⟨s, hs, hlength, hkinds⟩ := w.exists_suffix hrest
  have htake : (w.digits ++ (w.letters ++ rest)).takeWhile
      (fun c => (digitIn? w.base c).isSome || c == '_') = w.digits := by
    refine takeWhile_follow (fun c hc => w.isDigit_or hc) fun c hc => ?_
    have hall : ∀ c ∈ followers, digitIn? 16 c = none ∧ (c == '_') = false :=
      List.forall_iff_forall_mem.mp (by decide)
    obtain ⟨hnone, hne⟩ := hall c (w.head?_follow hrest c hc)
    rw [digitIn?_eq_filter w.base_bounds.2, hnone, hne]
    rfl
  have hsplit : w.text ++ rest = (w.mark ++ w.digits) ++ (w.letters ++ rest) := by
    simp only [text, List.append_assoc]
  have hdigits : (w.text ++ rest).drop 2 = w.digits ++ (w.letters ++ rest) := by
    rw [hsplit, List.append_assoc, ← hmark, List.drop_left]
  have hlexeme : (w.text ++ rest).take (2 + w.digits.length) = w.mark ++ w.digits := by
    rw [hsplit, ← hmark, ← List.length_append, List.take_left]
  have hletters : (w.text ++ rest).drop (w.mark ++ w.digits).length = w.letters ++ rest := by
    rw [hsplit, List.drop_left]
  have htext : (w.mark ++ w.digits).length + Suffix.length s = w.text.length := by
    rw [hlength, ← List.length_append, text, List.append_assoc]
  simp only [readBased, hdigits, htake, List.isEmpty_eq_false_iff.2 w.digits_ne_nil, hlexeme,
    hletters, hs, htext]
  have hvalue := w.bind_literalValue? hkinds
  unfold finding
  cases hlit : literalValue? w.base w.digits with
  | none =>
    rw [hlit, Option.bind_none, eq_comm, Option.map_eq_none_iff] at hvalue
    rw [hvalue]
    rfl
  | some v =>
    rw [hlit, Option.bind_some] at hvalue
    dsimp only
    rw [hvalue]
    cases w.kind? <;> rfl

theorem readNumber_tens (offset : Nat) (hb : w.base = 10) (hmark : w.mark = [])
    (hrest : ∀ c ∈ rest.head?, c ∈ closers) :
    readNumber offset (w.text ++ rest) = w.finding offset := by
  obtain ⟨s, hs, hlength, hkinds⟩ := w.exists_suffix hrest
  obtain ⟨c, cs, hcs, hc, hdigits⟩ := w.exists_cons_of_mark hb hmark
  have hvalue := w.bind_literalValue? hkinds
  -- the character behind the digits goes on with none of the parts of a number
  have hfollow := w.head?_follow hrest
  have hbehind : ∀ c ∈ followers, (c.isDigit || c == '_') = false ∧ c ≠ '.' ∧
      (c == 'e' || c == 'E') = false ∧ c.toLower ∉ ['x', 'b', 'o'] :=
    List.forall_iff_forall_mem.mp (by decide)
  have htext : w.text ++ rest = w.digits ++ (w.letters ++ rest) := by
    rw [text, hmark, List.nil_append, List.append_assoc]
  have hsize : w.digits.length + Suffix.length s = w.text.length := by
    rw [hlength, ← List.length_append, text, hmark, List.nil_append]
  rw [htext]
  generalize w.letters ++ rest = follow at hfollow hs
  have hrun : digitRun (w.digits ++ follow) = w.digits.length := by
    rw [digitRun, takeWhile_follow hdigits fun c hc => (hbehind c (hfollow c hc)).1]
  have hbase : baseOf? (w.digits ++ follow) = none := by
    rw [hcs] at hdigits ⊢
    refine baseOf?_none fun d hd => ?_
    cases cs with
    | nil => exact (hbehind d (hfollow d hd)).2.2.2
    | cons d' cs =>
      obtain rfl : d' = d := by simpa using hd
      exact toLower_digit (hdigits d' (by simp))
  have hfraction : fractionRun follow = 0 := by
    unfold fractionRun
    split
    · exact absurd rfl (hbehind '.' (hfollow '.' (by simp))).2.1
    · rfl
  have hexponent : exponentRun follow = 0 := by
    cases follow with
    | nil => rfl
    | cons c cs =>
      unfold exponentRun
      dsimp only
      rw [(hbehind c (hfollow c (by simp))).2.2.1]
      rfl
  have hstart : startsWithDigit (w.digits ++ follow) = true := by
    rw [hcs]
    exact hc
  simp only [readNumber, hstart, Bool.true_or, if_pos, hbase, readTens, hrun, List.drop_left,
    hfraction, Nat.add_zero, hexponent, hs, hsize, List.take_left]
  split
  iterate 3 exact absurd hkinds.symm w.kinds_ne_nil
  rw [if_neg (Nat.lt_irrefl 0), ← hb, hvalue, finding, hmark]
  cases w.kind? <;> rfl

/-- Among the readers, the one for numbers finds it. -/
theorem ask_text (offset : Nat) (hrest : ∀ c ∈ rest.head?, c ∈ closers) :
    Cursor.ask offset (w.text ++ rest) Reader.standard = w.finding offset := by
  have hnumber : readNumber offset (w.text ++ rest) = w.finding offset := by
    rcases w.mark_cases with ⟨hb, hmark⟩ | ⟨m, hmark, hbase⟩
    · exact w.readNumber_tens offset hb hmark hrest
    · rw [← w.readBased_text offset (by rw [hmark]; rfl) hrest]
      have htext : w.text ++ rest = '0' :: m :: (w.digits ++ (w.letters ++ rest)) := by
        simp only [text, hmark, List.append_assoc, List.cons_append, List.nil_append]
      have hstart : startsWithDigit (w.text ++ rest) = true := by rw [htext]; rfl
      rw [readNumber, hstart, Bool.true_or, if_pos rfl, htext, hbase]
  have hcomment : readComment offset (w.text ++ rest) = .ok none := by
    obtain ⟨c, cs, hcs, hc⟩ := w.exists_cons
    rw [hcs]
    refine readComment_none fun heq => ?_
    subst heq
    cases hc
  simp only [Reader.standard, Cursor.ask, Reader.read, hcomment, hnumber]
  unfold finding
  cases w.kind? <;> rfl

theorem notBlank : ∀ c ∈ w.text.head?, isBlank c = false := by
  intro d hd
  obtain ⟨c, cs, hcs, hc⟩ := w.exists_cons
  obtain rfl : c = d := by simpa [hcs] using hd
  have hall : ∀ code ∈ List.range' 48 10, changesBelow code whiteSpaceChanges = false := by
    decide
  exact hall _ (toNat_mem_of_isDigit hc)

/-- A number that no kind has is refused where it stands. -/
theorem tokenize_text (hlarge : w.kind? = none) (base : Nat) (skip : Bool) :
    tokenize (.ofSource w.text base) skip = [.error (tooLarge base (w.mark ++ w.digits))] := by
  have hask := @w.ask_text [] base (by simp)
  have hblank := w.notBlank
  obtain ⟨c, cs, hcs, -⟩ := w.exists_cons
  rw [finding, hlarge, List.append_nil, hcs] at hask
  rw [hcs] at hblank ⊢
  have hread : ((Cursor.ofSource (c :: cs) base).read skip).1 =
      .error (tooLarge base (w.mark ++ w.digits)) := by
    simp [Cursor.read, Cursor.remaining, Cursor.ofSource, Cursor.scan, Cursor.front, hblank c rfl,
      hask, bind, Except.bind, throw, throwThe, MonadExceptOf.throw]
  simp only [tokenize, Cursor.tokens, hread]

end WrittenInteger

/-- A text that is a whole number, in whatever base, with zeros in front, underscores and letters of
    either case, is one token for the number: of the first kind that the letters behind it leave and
    that has the number. It is refused, where it stands, exactly if the number has more than
    sixty-four bits. -/
theorem isToken_writtenInteger (w : WrittenInteger) :
    (w.value < 2 ^ 64 → ∃ k, w.kinds.find? (·.holds w.value) = some k ∧
      (Number.ofInt k w.value).toInt? = some (w.value : Int) ∧
      IsToken w.text (.number (.ofInt k w.value))) ∧
    ∀ base skip, (∃ why, tokenize (.ofSource w.text base) skip = [.error (.mismatch base why)]) ↔
      2 ^ 64 ≤ w.value := by
  have hsmall (h : w.value < 2 ^ 64) : ∃ k, w.kind? = some k ∧
      (Number.ofInt k w.value).toInt? = some (w.value : Int) ∧
      IsToken w.text (.number (.ofInt k w.value)) := by
    obtain ⟨k, hk⟩ := Option.ne_none_iff_exists'.1 (mt w.kind?_eq_none_iff.1 (Nat.not_le.2 h))
    have hholds : k.holds w.value = true :=
      List.find?_some (p := fun k : IntKind => k.holds w.value) hk
    refine ⟨k, hk, congrArg some (IntKind.value_ofInt_of_holds hholds), ?_⟩
    have hblank := w.notBlank
    obtain ⟨c, cs, hcs, -⟩ := w.exists_cons
    rw [hcs] at hblank ⊢
    refine isToken_of_ask (hblank c rfl) rfl rfl fun offset => ?_
    have hask := @w.ask_text [] offset (by simp)
    rwa [List.append_nil, WrittenInteger.finding, hk, hcs] at hask
  refine ⟨hsmall, fun base skip => ⟨?_, fun h => ?_⟩⟩
  · rintro ⟨why, hwhy⟩
    by_contra h
    obtain ⟨k, -, -, htoken⟩ := hsmall (Nat.not_le.1 h)
    cases (htoken base skip).symm.trans hwhy
  · exact ⟨_, w.tokenize_text (w.kind?_eq_none_iff.2 h) base skip⟩

/-- A number of thirty-three bits in hexadecimal digits, unsigned. -/
theorem isToken_writtenInteger_hexadecimal :
    4294967551 < 2 ^ 64 ∧ ∃ k, [IntKind.uint, .ulong].find? (·.holds 4294967551) = some k ∧
      (Number.ofInt k 4294967551).toInt? = some 4294967551 ∧
      IsToken ['0', 'X', '_', '0', '1', '0', '0', '0', '0', '_', '0', '0', 'f', 'F', 'U']
        (.number (.ofInt k 4294967551)) :=
  ⟨by decide, (isToken_writtenInteger
    { value := 4294967551
      base := 16
      mark := ['0', 'X']
      digits := ['_', '0', '1', '0', '0', '0', '0', '_', '0', '0', 'f', 'F']
      letters := ['U']
      kinds := [.uint, .ulong]
      isMark := by decide
      renders := ⟨1, by decide⟩
      starts := nofun
      isSuffix := by decide }).1 (by decide)⟩

/-! ## Printed numbers -/

/-- The kinds that have literals. -/
def IntKind.literals : List IntKind := [.int, .uint, .long, .ulong]

/-- The letters behind a literal of a kind. -/
def IntKind.letters : IntKind → List Char
  | uint => ['u']
  | long => ['L']
  | ulong => ['U', 'L']
  | _ => []

theorem exists_writtenInteger {k : IntKind} (hk : k ∈ IntKind.literals) (v : Nat) :
    ∃ w : WrittenInteger, w.value = v ∧ w.text = natDigits v ++ k.letters ∧
      w.kinds.head? = some k := by
  have hsuffix : ∃ ks, (k.letters.map Char.toLower, k :: ks) ∈ kindLetters := by
    simp only [IntKind.literals, List.mem_cons, List.not_mem_nil, or_false] at hk
    rcases hk with rfl | rfl | rfl | rfl
    · exact ⟨[.uint, .long, .ulong], by decide⟩
    · exact ⟨[.ulong], by decide⟩
    · exact ⟨[.ulong], by decide⟩
    · exact ⟨[], by decide⟩
  obtain ⟨ks, hks⟩ := hsuffix
  have hplain : ∀ c ∈ natDigits v, c ≠ '_' ∧ c.toLower = c := by
    have hall : ∀ n ∈ List.range' 48 10, Char.ofNat n ≠ '_' ∧
        (Char.ofNat n).toLower = Char.ofNat n := by decide
    intro c hc
    have := hall _ (toNat_mem_of_isDigit (isDigit_natDigits v c hc))
    rwa [Char.ofNat_toNat] at this
  have hdigits : ((natDigits v).filter (· != '_')).map Char.toLower = natDigits v := by
    rw [List.filter_eq_self.2 fun c hc => by simpa using (hplain c hc).1,
      List.map_congr_left fun c hc => (hplain c hc).2, List.map_id']
  have hstarts : (natDigits v).head? ≠ some '_' := fun h =>
    (hplain '_' (List.mem_of_mem_head? h)).1 rfl
  exact ⟨⟨v, 10, [], natDigits v, k.letters, k :: ks, by decide, ⟨0, hdigits⟩, fun _ => hstarts, hks⟩,
    rfl, rfl, rfl⟩

/-- A literal is the token at the front of a text. -/
theorem Lexeme.fronts_number {k : IntKind} {rest : List Char} (hk : k ∈ IntKind.literals)
    (hv : k.holds v = true) (hrest : ∀ c ∈ rest.head?, c ∈ closers) :
    Fronts ⟨.number (.ofInt k v), natDigits v ++ k.letters⟩ rest := by
  obtain ⟨w, rfl, htext, hkinds⟩ := exists_writtenInteger hk v
  have hkind : w.kind? = some k := by
    obtain ⟨ks, hks⟩ := List.head?_eq_some_iff.1 hkinds
    rw [WrittenInteger.kind?, hks, List.find?_cons, hv]
  rw [← htext]
  refine ⟨w.notBlank, ?_, rfl, fun offset => ?_⟩
  · obtain ⟨c, cs, hcs, -⟩ := w.exists_cons
    simp [hcs]
  · have hask := w.ask_text offset hrest
    rw [WrittenInteger.finding, hkind] at hask
    unfold Cursor.front
    simp only [hask, bind, Except.bind, pure, Except.pure, Lexeme.token, List.take_left]

end Scriptlet
