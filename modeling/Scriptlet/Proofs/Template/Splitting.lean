import Mathlib.Data.List.Chain
import Scriptlet.Proofs.Token.Constants
import Scriptlet.Proofs.Token.Numerals
import Scriptlet.Template

/-!
# Templates are split into what they were built from

A template is built from literal texts, which are escaped and whose braces are doubled, and from
expressions between braces (`Piece.text`). The literal text in front of a hole or the end is read
to there (`literalRun_escape`), and a hole with all of its parts (`hole_text`), so splitting gives
the pieces back, with each expression at its place in the source (`split_written`).
-/

namespace Scriptlet.Template

open Text

variable {c : Char} {cs rest t : List Char} {start steps offset i n : Nat}
  {style : StringStyle} {comma : Option Nat} {alignment : Option Int} {format : Option (List Char)}

/-- The marks of literals and the brackets, which have a meaning in holes. -/
def holeSigns : List Char := ['"', '\'', '(', ')', '[', ']', '\x7b', '\x7d']

/-- A piece to build a template from: literal text or an expression, with an alignment and a format
    if wanted. -/
inductive Piece
  | literal (text : List Char)
  | hole (text : List Char) (alignment : Option Int) (format : Option (List Char))
  deriving DecidableEq

/-- A text with each of its braces doubled. -/
def doubleBraces (s : List Char) : List Char :=
  s.flatMap fun c => if c = '\x7b' ∨ c = '\x7d' then [c, c] else [c]

/-- A part of a hole behind its mark, if there is one. -/
def marked (mark : Char) : Option (List Char) → List Char
  | some part => mark :: part
  | none => []

namespace Piece

/-- How a piece is written in a template. -/
def text : Piece → List Char
  | literal s => doubleBraces (escape '"' s)
  | hole t alignment format =>
    '\x7b' :: (t ++ (marked ',' (alignment.map intDigits) ++ (marked ':' format ++ ['\x7d'])))

/-- The segment that a piece at `offset` is read as. -/
def segment (offset : Nat) : Piece → Segment
  | literal s => .literal s
  | hole t alignment format => .hole t (offset + 1) alignment format

/-- What may be a piece: literal text is not empty, and neither is an expression. There are no
    blanks around the expression, nor a character in it that has a meaning in holes. -/
inductive Proper : Piece → Prop
  | literal {s : List Char} (hne : s ≠ []) : Proper (.literal s)
  | hole {t : List Char} {alignment : Option Int} {format : Option (List Char)} (hne : t ≠ [])
      (hfirst : ∀ c ∈ t.head?, isBlank c = false) (hlast : ∀ c ∈ t.getLast?, isBlank c = false)
      (hsigns : ∀ c ∈ t, c ∉ holeSigns ∧ c ≠ ',' ∧ c ≠ ':')
      (halignment : ∀ n ∈ alignment, IntKind.int.holds n = true)
      (hformat : ∀ f ∈ format, '\x7d' ∉ f) : Proper (.hole t alignment format)

/-- Whether a piece is literal text. -/
def isLiteral : Piece → Bool
  | literal _ => true
  | hole .. => false

end Piece

/-- The template that is built from pieces. -/
def written (ps : List Piece) : List Char := '$' :: '"' :: (ps.flatMap Piece.text ++ ['"'])

/-- The segments that pieces are read as, the first of which stands at `offset`. -/
def segmentsAt (offset : Nat) : List Piece → List Segment
  | [] => []
  | p :: ps => p.segment offset :: segmentsAt (offset + byteSize p.text) ps

/-! ## Literal texts -/

/-- Nothing follows, or a hole does. -/
def EndsLiteral (rest : List Char) : Prop :=
  rest = [] ∨ ∃ d ds, rest = '\x7b' :: d :: ds ∧ d ≠ '\x7b'

theorem literalRun_ends (h : EndsLiteral rest) : literalRun style offset rest = .ok ([], 0) := by
  obtain rfl | ⟨d, ds, rfl, hd⟩ := h
  · rfl
  · exact (if_neg fun h => absurd h.1 (by decide)).trans (if_neg hd.symm)

theorem literalRun_plain (hc : c = '\\' → style ≠ .quoted)
    (h : ∀ offset, literalRun style offset rest = .ok (t, n)) (offset : Nat) :
    literalRun style offset (doubleBraces [c] ++ rest) =
      .ok (c :: t, (doubleBraces [c]).length + n) := by
  have hslash : ¬ (c = '\\' ∧ style = .quoted) := fun h => hc h.1 h.2
  rw [doubleBraces, List.flatMap_singleton, Nat.add_comm]
  split
  case isTrue hbrace =>
    have hstep : literalRun style offset (c :: c :: rest) =
        (fun x => (c :: x.1, x.2 + 2)) <$> literalRun style (offset + 2) rest :=
      (if_neg hslash).trans ((if_pos hbrace).trans (if_pos rfl))
    exact hstep.trans (by rw [h]; rfl)
  case isFalse hbrace =>
    have hstep : literalRun style offset (c :: rest) =
        (fun x => (c :: x.1, x.2 + 1)) <$> literalRun style (offset + c.utf8Size) rest := by
      cases rest <;> exact (if_neg hslash).trans (if_neg hbrace)
    exact hstep.trans (by rw [h]; rfl)

theorem doubleBraces_append (s s' : List Char) :
    doubleBraces (s ++ s') = doubleBraces s ++ doubleBraces s' := List.flatMap_append

theorem literalRun_digits (hcs : ∀ d ∈ cs, isHexDigit d = true)
    (h : ∀ offset, literalRun .quoted offset rest = .ok (t, n)) (offset : Nat) :
    literalRun .quoted offset (doubleBraces cs ++ rest) =
      .ok (cs ++ t, (doubleBraces cs).length + n) := by
  induction cs generalizing offset with
  | nil => simpa [doubleBraces] using h offset
  | cons d ds ih =>
    obtain ⟨hd, hds⟩ := List.forall_mem_cons.1 hcs
    have hslash : d ≠ '\\' := by
      rintro rfl
      cases hd
    have hstep := literalRun_plain (absurd · hslash) (ih hds) offset
    rwa [← List.append_assoc, ← doubleBraces_append, ← Nat.add_assoc, ← List.length_append,
      ← doubleBraces_append] at hstep

/-- Literal text is read with all that a character is written with. -/
theorem literalRun_escaped (hcs : Escaped '"' c cs)
    (h : ∀ offset, literalRun .quoted offset rest = .ok (t, n)) (offset : Nat) :
    literalRun .quoted offset (doubleBraces cs ++ rest) =
      .ok (cs ++ t, (doubleBraces cs).length + n) := by
  have hstep (e : Char) (rest : List Char) : literalRun .quoted offset ('\\' :: e :: rest) =
      (fun x => ('\\' :: e :: x.1, x.2 + 2)) <$>
        literalRun .quoted (offset + 1 + e.utf8Size) rest :=
    rfl
  cases hcs with
  | plain hslash => exact literalRun_plain (absurd · hslash) h offset
  | @letter e he =>
    have hbraces : doubleBraces ['\\', e] = ['\\', e] := by
      have hbrace : ¬ (e = '\x7b' ∨ e = '\x7d') := by rintro (rfl | rfl) <;> cases he
      simp [doubleBraces, hbrace]
    rw [hbraces, List.cons_append, List.singleton_append, hstep, h, Nat.add_comm]
    rfl
  | @code ds _ hdigits =>
    have hbraces : doubleBraces ('\\' :: 'u' :: ds) = '\\' :: 'u' :: doubleBraces ds := rfl
    rw [hbraces, List.cons_append, List.cons_append, hstep, literalRun_digits hdigits h]
    simp [Functor.map, Except.map, Nat.add_right_comm]

theorem literalRun_escape (h : EndsLiteral rest) (s : List Char) (offset : Nat) :
    literalRun .quoted offset (doubleBraces (escape '"' s) ++ rest) =
      .ok (escape '"' s, (doubleBraces (escape '"' s)).length) := by
  induction s generalizing offset with
  | nil => exact literalRun_ends h
  | cons c s ih =>
    have hc := literalRun_escaped (escaped_escapeChar rfl c) ih offset
    simpa [escape, doubleBraces, List.flatMap_append] using hc

/-! ## Holes -/

theorem holeMarks_char {depth : Nat} (hc : c ∉ holeSigns) (hcolon : ¬ (c = ':' ∧ depth = 0)) :
    holeMarks start (steps + 1) offset i depth comma none (c :: cs) =
      holeMarks start steps (offset + c.utf8Size) (i + 1) depth
        (if c = ',' ∧ depth = 0 ∧ comma.isNone then some i else comma) none cs := by
  simp only [holeSigns, List.mem_cons, List.not_mem_nil, or_false, not_or] at hc
  rw [holeMarks]
  simp only [hc, hcolon, Option.isSome_none, Bool.false_eq_true, or_self, if_false]
  split <;> rfl

theorem holeMarks_text (ht : ∀ c ∈ t, c ∉ holeSigns ∧ c ≠ ':' ∧ (c = ',' → comma.isSome = true)) :
    holeMarks start (t ++ rest).length offset i 0 comma none (t ++ rest) =
      holeMarks start rest.length (offset + byteSize t) (i + t.length) 0 comma none rest := by
  induction t generalizing offset i with
  | nil => rfl
  | cons c t ih =>
    obtain ⟨⟨hsigns, hcolon, hcomma⟩, ht⟩ := List.forall_mem_cons.1 ht
    have hkeep : ¬ (c = ',' ∧ 0 = 0 ∧ comma.isNone = true) := by
      rintro ⟨rfl, -, h⟩
      simp [Option.isNone_iff_eq_none.1 h] at hcomma
    rw [List.cons_append, List.length_cons, holeMarks_char hsigns (by simp [hcolon]), if_neg hkeep,
      ih ht, byteSize_cons, List.length_cons, Nat.add_assoc, Nat.add_assoc, Nat.add_comm 1]

theorem holeMarks_format {f : List Char} {k : Nat} (hf : '\x7d' ∉ f) :
    holeMarks start (f ++ '\x7d' :: rest).length offset i 0 comma (some k) (f ++ '\x7d' :: rest) =
      .ok ⟨comma, some k, i + f.length⟩ := by
  induction f generalizing offset i with
  | nil => rfl
  | cons c f ih =>
    rw [List.mem_cons, not_or] at hf
    rw [List.cons_append, List.length_cons, holeMarks, if_neg (Ne.symm hf.1), ih hf.2,
      List.length_cons, Nat.add_assoc, Nat.add_comm 1]
    exact if_pos rfl

/-- A hole ends behind its format, or where that would be. -/
theorem holeMarks_end (hformat : ∀ f ∈ format, '\x7d' ∉ f) :
    holeMarks start (marked ':' format ++ '\x7d' :: rest).length offset i 0 comma none
        (marked ':' format ++ '\x7d' :: rest) =
      .ok ⟨comma, format.map fun _ => i, i + (marked ':' format).length⟩ := by
  cases format with
  | none => rfl
  | some f =>
    rw [marked, List.length_cons, ← Nat.add_assoc, Nat.add_right_comm]
    exact holeMarks_format (hformat f rfl)

/-- The characters of a whole number are no blanks and have no meaning in a hole. -/
theorem intDigits_plain (n : Int) :
    ∀ c ∈ intDigits n, isBlank c = false ∧ c ∉ holeSigns ∧ c ≠ ':' := by
  have hall : ∀ n ∈ 45 :: List.range' 48 10, isBlank (Char.ofNat n) = false ∧
      Char.ofNat n ∉ holeSigns ∧ Char.ofNat n ≠ ':' := by decide
  intro c hc
  have hdigits := isDigit_natDigits n.natAbs
  have hmem : c.toNat ∈ 45 :: List.range' 48 10 := by
    unfold intDigits at hc
    split at hc
    · obtain rfl | hc := List.mem_cons.1 hc
      · exact List.mem_cons_self
      · exact List.mem_cons_of_mem _ (toNat_mem_of_isDigit (hdigits c hc))
    · exact List.mem_cons_of_mem _ (toNat_mem_of_isDigit (hdigits c hc))
  rw [← Char.ofNat_toNat c]
  exact hall _ hmem

theorem readInt?_intDigits (n : Int) : readInt? (intDigits n) = some n := by
  rw [intDigits]
  split
  case isTrue h =>
    have hneg : -(n.natAbs : Int) = n := by omega
    rw [readInt?, readNatIn?_natDigits]
    exact congrArg some hneg
  case isFalse h =>
    have hdigit := isDigit_natDigits n.natAbs
    have hread := readNatIn?_natDigits n.natAbs
    have habs : (n.natAbs : Int) = n := by omega
    cases hds : natDigits n.natAbs with
    | nil => simp [hds, readNatIn?] at hread
    | cons d ds =>
      rw [hds] at hdigit hread
      have hd := hdigit d List.mem_cons_self
      have hsign : d ≠ '-' ∧ d ≠ '+' := by
        constructor <;> rintro rfl <;> cases hd
      simp [readInt?, readNat?, hsign, hread, habs]

theorem trimStart_eq_self (h : ∀ c ∈ t.head?, isBlank c = false) : trimStart t = t := by
  cases t with
  | nil => rfl
  | cons c t => exact List.dropWhile_cons_of_neg (by simp [h c rfl])

theorem trim_eq_self (hfirst : ∀ c ∈ t.head?, isBlank c = false)
    (hlast : ∀ c ∈ t.getLast?, isBlank c = false) : trim t = t := by
  have hback : trimStart t.reverse = t.reverse :=
    trimStart_eq_self (by rwa [List.head?_reverse])
  rw [trim, trimStart_eq_self hfirst, trimEnd, ← trimStart, hback, List.reverse_reverse]

theorem trim_intDigits (n : Int) : trim (intDigits n) = intDigits n :=
  trim_eq_self (fun c hc => (intDigits_plain n c (List.mem_of_mem_head? hc)).1)
    fun c hc => (intDigits_plain n c (List.mem_of_mem_getLast? hc)).1

theorem holeMarks_hole (hsigns : ∀ c ∈ t, c ∉ holeSigns ∧ c ≠ ',' ∧ c ≠ ':')
    (hformat : ∀ f ∈ format, '\x7d' ∉ f) {align inner : List Char}
    (halign : align = marked ',' (alignment.map intDigits))
    (hinner : inner = t ++ (align ++ (marked ':' format ++ '\x7d' :: rest))) :
    holeMarks start inner.length offset 0 0 none none inner =
      .ok ⟨alignment.map fun _ => t.length, format.map fun _ => (t ++ align).length,
        (t ++ align).length + (marked ':' format).length⟩ := by
  subst hinner halign
  have ht : ∀ c ∈ t, c ∉ holeSigns ∧ c ≠ ':' ∧ (c = ',' → (none : Option Nat).isSome = true) :=
    fun c hc => ⟨(hsigns c hc).1, (hsigns c hc).2.2, fun h => absurd h (hsigns c hc).2.1⟩
  rw [holeMarks_text ht, Nat.zero_add]
  cases alignment with
  | none =>
    rw [Option.map_none, marked, List.append_nil]
    exact holeMarks_end hformat
  | some n =>
    have hdigits (k : Nat) : ∀ c ∈ intDigits n, c ∉ holeSigns ∧ c ≠ ':' ∧
        (c = ',' → (some k).isSome = true) :=
      fun c hc => ⟨(intDigits_plain n c hc).2.1, (intDigits_plain n c hc).2.2, fun _ => rfl⟩
    have hlength : t.length + 1 + (intDigits n).length = (t ++ ',' :: intDigits n).length := by
      rw [List.length_append, List.length_cons, Nat.add_assoc, Nat.add_comm 1]
    rw [Option.map_some, marked, List.cons_append, List.length_cons,
      holeMarks_char (by decide) (by decide), if_pos (by decide), holeMarks_text (hdigits _),
      hlength]
    exact holeMarks_end hformat

theorem drop_length_succ : (cs ++ c :: rest).drop (cs.length + 1) = rest := by
  simp

/-- A hole is read with all of its parts. -/
theorem hole_text (h : (Piece.hole t alignment format).Proper) (offset : Nat) (rest : List Char) :
    hole offset ((Piece.hole t alignment format).text.tail ++ rest) =
      .ok (.hole t (offset + 1) alignment format, (Piece.hole t alignment format).text.length) := by
  cases h with
  | hole hne hfirst hlast hsigns halignment hformat =>
  generalize halign : marked ',' (alignment.map intDigits) = align
  generalize hinner : (Piece.hole t alignment format).text.tail ++ rest = inner
  replace hinner : inner = t ++ (align ++ (marked ':' format ++ '\x7d' :: rest)) := by
    simp [← hinner, ← halign, Piece.text]
  have hlength : (Piece.hole t alignment format).text.length =
      (t ++ align).length + (marked ':' format).length + 2 := by
    simp [← halign, Piece.text, Nat.add_assoc]
  have hwhole : inner.take t.length = t := by rw [hinner, List.take_left]
  have hfront : inner.take (t ++ align).length = t ++ align := by
    rw [hinner, ← List.append_assoc, List.take_left]
  have hend : (format.map fun _ => (t ++ align).length).map
      (fun c => (inner.take ((t ++ align).length + (marked ':' format).length)).drop (c + 1)) =
      format := by
    cases format with
    | none => rfl
    | some f =>
      rw [hinner, ← List.append_assoc, ← List.append_assoc, ← List.length_append, List.take_left]
      exact congrArg some drop_length_succ
  have hcolon : (format.map fun _ => (t ++ align).length).getD
      ((t ++ align).length + (marked ':' format).length) = (t ++ align).length := by
    cases format <;> rfl
  have hempty : t.isEmpty = false := by simpa using hne
  rw [hole, holeMarks_hole hsigns hformat halign.symm hinner, hlength]
  cases alignment with
  | none =>
    have halign : align = [] := halign.symm
    rw [halign, List.append_nil] at hcolon hend ⊢
    simp only [bind, Except.bind, hend, Option.map_none, Option.none_or, hcolon, hwhole,
      trim_eq_self hfirst hlast, trimStart_eq_self hfirst, hempty, Nat.sub_self]
    rfl
  | some n =>
    have hdigits : (t ++ align).drop (t.length + 1) = intDigits n := by
      rw [← halign]
      exact drop_length_succ
    have hread : readIntWithin? alignmentRange.1 alignmentRange.2 (intDigits n) = some n := by
      rw [readIntWithin?, readInt?_intDigits]
      exact Option.filter_some_pos (halignment n rfl)
    simp only [bind, Except.bind, hend, Option.map_some, Option.some_or, Option.getD_some, hwhole,
      trim_eq_self hfirst hlast, trimStart_eq_self hfirst, hempty, Nat.sub_self, hcolon, hfront,
      hdigits, trim_intDigits, hread]
    rfl

/-! ## Templates -/

/-- Neither the end of a template nor a hole is at the front of literal text. -/
theorem Piece.text_literal {s : List Char} (hne : s ≠ []) :
    ∃ d ds, (literal s).text = d :: ds ∧ d ≠ '"' ∧ (d = '\x7b' → ds.head? = some '\x7b') := by
  obtain ⟨c, s, rfl⟩ := List.exists_cons_of_ne_nil hne
  have hc : Escaped '"' c (escapeChar '"' c) := escaped_escapeChar rfl c
  rw [text, escape, List.flatMap_cons, doubleBraces_append]
  generalize escapeChar '"' c = cs at hc
  cases hc with
  | plain _ hquote =>
    by_cases hbrace : c = '\x7b' ∨ c = '\x7d'
    · exact ⟨c, c :: _, by simp [doubleBraces, hbrace]; rfl, hquote, fun h => congrArg some h⟩
    · exact ⟨c, _, by simp [doubleBraces, hbrace]; rfl, hquote, fun h => absurd (.inl h) hbrace⟩
  | letter | code => exact ⟨'\\', _, rfl, by decide, (absurd · (by decide))⟩

theorem Piece.text_hole (h : (hole t alignment format).Proper) :
    ∃ d ds, (hole t alignment format).text = '\x7b' :: d :: ds ∧ d ≠ '\x7b' := by
  cases h with
  | hole hne _ _ hsigns =>
    obtain ⟨d, t, rfl⟩ := List.exists_cons_of_ne_nil hne
    refine ⟨d, _, rfl, ?_⟩
    rintro rfl
    exact (hsigns '\x7b' List.mem_cons_self).1 (by decide)

theorem Piece.text_eq_cons {p : Piece} (h : p.Proper) : ∃ d ds, p.text = d :: ds ∧ d ≠ '"' := by
  cases h with
  | literal hne =>
    obtain ⟨d, ds, htext, hquote, -⟩ := text_literal hne
    exact ⟨d, ds, htext, hquote⟩
  | hole => exact ⟨'\x7b', _, rfl, by decide⟩

/-- The piece at the front of a body is read, and nothing of what follows. -/
theorem segment_text {p : Piece} (h : p.Proper) (hrest : p.isLiteral = true → EndsLiteral rest) :
    Template.segment .quoted offset (p.text ++ rest) = .ok (p.segment offset, p.text.length) := by
  cases p with
  | literal s =>
    cases h with
    | literal hne =>
    obtain ⟨d, ds, htext, -, hbrace⟩ := Piece.text_literal hne
    have hliteral : Template.segment .quoted offset ((Piece.literal s).text ++ rest) =
        Template.literal .quoted offset ((Piece.literal s).text ++ rest) := by
      rw [htext, List.cons_append]
      unfold Template.segment
      split
      · rename_i heq
        rw [heq]
      · rename_i cs hopen heq
        obtain ⟨rfl, rfl⟩ := List.cons.inj heq
        obtain ⟨ds, rfl⟩ := List.head?_eq_some_iff.1 (hbrace rfl)
        exact absurd rfl (hopen _)
      · rfl
    rw [hliteral, Template.literal, Piece.text, literalRun_escape (hrest rfl)]
    simp only [bind, Except.bind, unescape_escape (q := '"') rfl]
    rfl
  | hole t alignment format =>
    obtain ⟨d, ds, htext, hd⟩ := Piece.text_hole h
    have hhole := hole_text h offset rest
    rw [htext] at hhole ⊢
    rw [List.cons_append, List.cons_append, Template.segment]
    · exact hhole
    · intro cs hcs
      exact hd (List.cons.inj hcs).1

/-- Nothing or a hole follows literal text. -/
theorem endsLiteral_text {ps : List Piece} (hproper : ∀ p ∈ ps, p.Proper)
    (hhole : ∀ p ∈ ps.head?, p.isLiteral = false) : EndsLiteral (ps.flatMap Piece.text) := by
  cases ps with
  | nil => exact .inl rfl
  | cons p ps =>
    cases p with
    | literal s => cases hhole _ rfl
    | hole t alignment format =>
      obtain ⟨d, ds, htext, hd⟩ := Piece.text_hole (hproper _ List.mem_cons_self)
      exact .inr ⟨d, _, by rw [List.flatMap_cons, htext]; rfl, hd⟩

theorem segmentsFrom_text {ps : List Piece} (hproper : ∀ p ∈ ps, p.Proper)
    (hchain : ps.IsChain fun p q => p.isLiteral = true → q.isLiteral = false)
    (hsteps : (ps.flatMap Piece.text).length ≤ steps) :
    segmentsFrom .quoted steps offset (ps.flatMap Piece.text) = (segmentsAt offset ps).map .ok := by
  induction ps generalizing steps offset with
  | nil => cases steps <;> rfl
  | cons p ps ih =>
    obtain ⟨hp, hps⟩ := List.forall_mem_cons.1 hproper
    obtain ⟨hnext, hchain⟩ := List.isChain_cons.1 hchain
    have hsegment : Template.segment .quoted offset (p.text ++ ps.flatMap Piece.text) =
        .ok (p.segment offset, p.text.length) :=
      segment_text hp fun hliteral => endsLiteral_text hps fun q hq => hnext q hq hliteral
    obtain ⟨d, ds, htext, -⟩ := Piece.text_eq_cons hp
    rw [List.flatMap_cons, List.length_append, htext, List.length_cons] at hsteps
    obtain ⟨steps, rfl⟩ : ∃ m, steps = m + 1 := ⟨steps - 1, by omega⟩
    have hstep : segmentsFrom .quoted (steps + 1) offset (p.text ++ ps.flatMap Piece.text) =
        .ok (p.segment offset) ::
          segmentsFrom .quoted steps (offset + byteSize p.text) (ps.flatMap Piece.text) := by
      rw [htext, List.cons_append] at hsegment ⊢
      rw [segmentsFrom, hsegment, ← List.cons_append, ← htext]
      simp only [List.take_left, List.drop_left]
      rfl
    rw [List.flatMap_cons, hstep, ih hps hchain (by omega), segmentsAt, List.map_cons]

/-- Splitting a template gives back the pieces that it was built from, if no two literal texts are
    next to each other. Each expression stands at its place in the source. -/
theorem split_written (start : Nat) {ps : List Piece} (hproper : ∀ p ∈ ps, p.Proper)
    (hchain : ps.IsChain fun p q => p.isLiteral = true → q.isLiteral = false) :
    split (written ps) start = .ok (segmentsAt (start + 2) ps) := by
  have hd : Delimiters.of? (written ps) = some ⟨.quoted, true, 2, 1⟩ := by
    cases ps with
    | nil => rfl
    | cons p ps =>
      obtain ⟨d, ds, htext, hquote⟩ := Piece.text_eq_cons (hproper p List.mem_cons_self)
      simp [written, htext, Delimiters.of?, hquote]
  have hbody : Delimiters.body ⟨.quoted, true, 2, 1⟩ (written ps) = ps.flatMap Piece.text :=
    Delimiters.body_append ['$', '"'] rfl rfl
  rw [split, hd]
  simp only [hbody, segments, segmentsFrom_text hproper hchain le_rfl, if_true, List.mapM_map]
  exact (List.mapM_pure (f := id)).trans (congrArg Except.ok (List.map_id _))

/-- With a doubled brace in front of a hole, and a colon and a comma in a format. -/
theorem split_written_line :
    split (written [.literal ['"', '\x7b'], .hole ['n'] (some (-3)) (some [':', ',']),
        .hole ['ß'] none none]) 7 =
      .ok [.literal ['"', '\x7b'], .hole ['n'] 14 (some (-3)) (some [':', ',']),
        .hole ['ß'] 23 none none] := by
  refine split_written 7 ?_ ?_
  · rw [List.forall_mem_cons, List.forall_mem_cons, List.forall_mem_singleton]
    refine ⟨.literal (by decide),
      .hole (by decide) ?_ ?_ (List.forall_mem_singleton.2 (by decide)) ?_ ?_,
      .hole (by decide) ?_ ?_ (List.forall_mem_singleton.2 (by decide)) ?_ ?_⟩
    all_goals rintro _ ⟨⟩
    all_goals decide
  · decide

end Scriptlet.Template
